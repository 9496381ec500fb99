/-
# Which runs may go on

What holds of the seat of a session between two segments (`Seat.Orderly`), and
how a run stands with it (`RunState.Fits`):

  * a gate is closed only while the session is paused or over, and a run that
    has its place stands at a gate, a closed one if the session is paused;
  * a run is of no later generation than its session, and if it is of the
    current one, the place is its own;
  * a run that waits is of the current generation and waits at a closed gate.

A control operation keeps the one (`Controlled.orderly`) and is harmless to the
other (`Controlled.passes`); so is a segment of a run (`Ran.orderly`,
`Ran.fits`, `Ran.others`).
-/
import Runloop.Proofs.Loading

namespace Runloop

/-- What holds of the seat of a session between two segments. -/
structure Seat.Orderly (a : Seat) : Prop where
  /-- The gate is closed only while the program is paused, or when it is over. -/
  closed : a.gate = some false → a.phase = .paused ∨ a.phase = .completed
  /-- A run that has its place has begun, and stands at a gate. -/
  begun : a.runActive = true → a.phase ≠ .idle ∧ a.gate.isSome = true
  /-- The gate of a paused run is closed. -/
  held : a.runActive = true → a.phase = .paused → a.gate = some false

/-- How a run stands with the seat of its session. -/
structure RunState.Fits (state : RunState) (a : Seat) : Prop where
  /-- Runs are of no later generation than the session. -/
  early : ∀ generation ∈ state.generation?, generation ≤ a.generation
  /-- The place is taken by a run of the current generation. -/
  active : state.generation? = some a.generation → a.runActive = true
  /-- A run waits in the current generation at the closed gate. -/
  waits : ∀ generation openings, state = .waiting generation openings →
    generation = a.generation ∧ openings = a.openings ∧ a.gate = some false

/-! ## Control operations -/

/-- What an operation between two segments may do to the runs of a session: they
stay what they are, or all of them are void, and nobody who waits is forgotten. -/
structure Seat.Passes (a b : Seat) : Prop where
  generation : a.generation ≤ b.generation
  active : b.generation = a.generation → a.runActive = true → b.runActive = true
  openings : a.openings ≤ b.openings
  holds : a.gate = some false → b.openings = a.openings →
    b.generation = a.generation ∧ b.gate = some false

namespace Seat

variable {a b : Seat}

theorem Passes.refl (a : Seat) : a.Passes a :=
  ⟨Nat.le_refl _, fun _ h => h, Nat.le_refl _, fun h _ => ⟨rfl, h⟩⟩

/-- Whatever changes nothing but the phase changes nothing for the runs. -/
theorem passes_inPhase (a : Seat) (phase : Phase) : a.Passes (a.inPhase phase) :=
  ⟨Nat.le_refl _, fun _ h => h, Nat.le_refl _, fun h _ => ⟨rfl, h⟩⟩

theorem opened_of_gate (gate : a.gate.isSome = true) :
    a.opened = { a with gate := some true, openings := a.openings + 1 } := if_pos gate

theorem opened_of_no_gate (gate : a.gate = none) : a.opened = a := by
  unfold opened
  rw [gate]
  rfl

/-- Opening the gate lets everybody go who waits. -/
theorem passes_opened {phase : Phase} (h : a.generation ≤ b.generation)
    (active : b.generation = a.generation → a.runActive = true → b.runActive = true)
    (gate : b.gate = a.gate) (openings : b.openings = a.openings) :
    a.Passes (b.opened.inPhase phase) := by
  cases hg : a.gate with
  | none =>
      rw [opened_of_no_gate (gate.trans hg)]
      exact ⟨h, active, Nat.le_of_eq openings.symm, fun closed => by simp [hg] at closed⟩
  | some g =>
      rw [opened_of_gate (by rw [gate, hg]; rfl)]
      refine ⟨h, active, ?_, ?_⟩
      · show a.openings ≤ b.openings + 1
        omega
      · intro _ same
        have same : b.openings + 1 = a.openings := same
        omega

theorem opened_inPhase (a : Seat) (phase : Phase) :
    (a.inPhase phase).opened = a.opened.inPhase phase := by
  unfold opened
  split
  · rename_i gate
    rw [if_pos (show a.gate.isSome = true from gate)]
    rfl
  · rename_i gate
    rw [if_neg (show ¬ a.gate.isSome = true from gate)]

theorem opened_gate (a : Seat) : a.opened.gate ≠ some false := by
  cases hg : a.gate with
  | none =>
      rw [opened_of_no_gate hg, hg]
      simp
  | some g =>
      rw [opened_of_gate (by rw [hg]; rfl)]
      simp

/-- What an operation comes to for the seat: in its phases what it is there for, and in the
others nothing. -/
inductive Operated (a : Seat) : Control → Seat → Prop
  | nothing {c : Control} : c.drives = true → (c = .resume → a.phase ≠ .paused) →
      (c = .stop → a.phase = .idle ∨ a.phase = .completed) → Operated a c a
  | pauses : a.phase = .running →
      Operated a .pause ({ a with gate := a.gate.map fun _ => false }.inPhase .paused)
  | resumes : a.phase = .paused → Operated a .resume (a.opened.inPhase .running)
  | stops : a.phase ≠ .idle → a.phase ≠ .completed →
      Operated a .stop (a.voided.opened.inPhase .completed)
  | clears {c : Control} : c.drives = false → Operated a c a.cleared
  | begins : a.phase = .idle → Operated a .step (a.inPhase .paused)
  | ends : a.phase ≠ .completed → Operated a .step (a.inPhase .completed)

theorem Controlled.operated {c : Control} (hc : Controlled c a b) : a.Operated c b := by
  cases c with
  | pause =>
      obtain rfl : b = a.paused := hc
      unfold paused
      split
      · exact .pauses ‹_›
      · exact .nothing rfl nofun nofun
  | resume =>
      obtain rfl : b = a.resumed := hc
      unfold resumed
      split
      · rw [opened_inPhase]
        exact .resumes ‹_›
      · exact .nothing rfl (fun _ => ‹_›) nofun
  | stop =>
      obtain rfl : b = a.stopped := hc
      unfold stopped
      split
      · exact .nothing rfl nofun fun _ => ‹_›
      · rename_i on
        rw [opened_inPhase]
        exact .stops (fun idle => on (.inl idle)) fun ended => on (.inr ended)
  | reset | close | load source =>
      obtain rfl : b = a.cleared := hc
      exact .clears rfl
  | step =>
      rcases (hc : a.Stepped b) with rfl | ⟨-, on, ⟨idle, rfl⟩ | rfl⟩
      · exact .nothing rfl nofun nofun
      · exact .begins idle
      · exact .ends on
  | setSpeed =>
      obtain rfl : b = a := hc
      exact .nothing rfl nofun nofun

theorem Controlled.passes {c : Control} (h : a.Orderly) (hc : Controlled c a b) : a.Passes b := by
  cases hc.operated with
  | nothing => exact .refl a
  | pauses running =>
      refine ⟨Nat.le_refl _, fun _ h => h, Nat.le_refl _, fun closed _ => ?_⟩
      rcases h.closed closed with h | h
      · simp [running] at h
      · simp [running] at h
  | resumes => exact passes_opened (Nat.le_refl _) (fun _ h => h) rfl rfl
  | stops | clears =>
      -- a new generation leaves no run in its place
      refine passes_opened (Nat.le_succ _) ?_ rfl rfl
      intro same
      exact absurd same (Nat.succ_ne_self _)
  | begins => exact passes_inPhase a .paused
  | ends => exact passes_inPhase a .completed

/-- The gate is not closed by opening it, nor by ending the program. -/
theorem orderly_of_inactive (inactive : a.runActive = false)
    (closed : a.gate = some false → a.phase = .paused ∨ a.phase = .completed) : a.Orderly :=
  ⟨closed, by simp [inactive], by simp [inactive]⟩

theorem Orderly.completed (h : a.Orderly) : (a.inPhase .completed).Orderly :=
  ⟨fun _ => .inr rfl, fun active => ⟨by simp [inPhase], (h.begun active).2⟩, by simp [inPhase]⟩

theorem Controlled.orderly {c : Control} (h : a.Orderly) (hc : Controlled c a b) : b.Orderly := by
  have free : a.voided.opened.runActive = false := by
    unfold opened
    split
    · rfl
    · rfl
  cases hc.operated with
  | nothing => exact h
  | pauses =>
      refine ⟨fun _ => .inl rfl, fun active => ⟨by simp [inPhase], ?_⟩, fun active _ => ?_⟩
      · have gate := (h.begun active).2
        simpa [inPhase] using gate
      · obtain ⟨g, hg⟩ := Option.isSome_iff_exists.mp (h.begun active).2
        simp [inPhase, hg]
  | resumes =>
      refine ⟨fun closed => absurd closed a.opened_gate, fun active => ⟨by simp [inPhase], ?_⟩,
        by simp [inPhase]⟩
      have active : a.runActive = true := by
        unfold inPhase opened at active
        split at active
        · exact active
        · exact active
      rw [opened_of_gate (h.begun active).2]
      rfl
  | stops => exact orderly_of_inactive free fun _ => .inr rfl
  | clears => exact orderly_of_inactive free fun closed => absurd closed a.voided.opened_gate
  | begins idle =>
      have inactive : a.runActive = false := by
        by_contra active
        exact (h.begun (by simpa using active)).1 idle
      exact orderly_of_inactive inactive fun _ => .inl rfl
  | ends => exact h.completed

theorem entered_orderly (a : Seat) : a.entered.Orderly :=
  ⟨by simp [entered, inPhase], fun _ => ⟨by simp [entered, inPhase], rfl⟩,
    by simp [entered, inPhase]⟩

theorem Turned.orderly {state : RunState} (h : a.Orderly) (ht : a.Turned state b) : b.Orderly := by
  rcases ht with ⟨-, -, rfl⟩ | ⟨-, c, rfl | rfl, rfl⟩
  · exact h
  · exact orderly_of_inactive rfl h.closed
  · exact orderly_of_inactive rfl fun _ => .inr rfl

theorem Turned.generation {state : RunState} (ht : a.Turned state b) :
    b.generation = a.generation := by
  rcases ht with ⟨-, -, rfl⟩ | ⟨-, c, settled, rfl⟩
  · rfl
  · exact settled.generation

end Seat

theorem RunState.generation?_of_isFinished {state : RunState} (h : state.isFinished = true) :
    state.generation? = none := by
  cases state with
  | finished => rfl
  | created | sleeping | waiting => cases h

namespace RunState.Fits

variable {state : RunState} {a b : Seat}

/-- A run that has not begun, or is over, stands nowhere. -/
theorem of_none (h : state.generation? = none) (a : Seat) : state.Fits a := by
  refine ⟨by simp [h], by simp [h], ?_⟩
  rintro generation openings rfl
  cases h

/-- A run of an older generation only has to stay one. -/
theorem of_old (h : state.Fits a) (old : state.generation? ≠ some a.generation)
    (same : b.generation = a.generation) : state.Fits b := by
  refine ⟨?_, ?_, ?_⟩
  · intro generation hg
    rw [same]
    exact h.early generation hg
  · intro current
    rw [same] at current
    exact absurd current old
  · rintro generation openings rfl
    obtain ⟨rfl, -⟩ := h.waits generation openings rfl
    exact absurd rfl old

end RunState.Fits

namespace Seat

variable {a b : Seat} {state after : RunState}

theorem Turned.fits (ht : a.Turned state b) (active : a.runActive = true) : state.Fits b := by
  rcases ht with ⟨rfl, -, rfl⟩ | ⟨ended, -⟩
  · exact ⟨by simp [RunState.generation?], fun _ => active, by simp⟩
  · exact .of_none (RunState.generation?_of_isFinished ended) b

/-! ## Segments -/

/-- What a segment of a run does, said at once: nothing to the seat; or it is a
turn of the run whose place it is, or of one that took the place. -/
theorem Ran.cases (h : Ran state after a b) :
    b = a ∧ (after.isFinished = true ∨
        state.generation? = some a.generation ∧ a.phase = .paused ∧
          after = .waiting a.generation a.openings) ∨
      (state.generation? = some a.generation ∧ a.phase ≠ .paused ∧ a.Turned after b) ∨
      a.runActive = false ∧ a.entered.Turned after b := by
  have continued {generation : Nat} (hs : state.generation? = some generation)
      (h : Continued generation after a b) :
      b = a ∧ (after.isFinished = true ∨
          state.generation? = some a.generation ∧ a.phase = .paused ∧
            after = .waiting a.generation a.openings) ∨
        (state.generation? = some a.generation ∧ a.phase ≠ .paused ∧ a.Turned after b) ∨
        a.runActive = false ∧ a.entered.Turned after b := by
    rcases h with ⟨-, rfl, rfl⟩ | ⟨rfl, paused, rfl, rfl⟩ | ⟨rfl, on, turned⟩
    · exact .inl ⟨rfl, .inl rfl⟩
    · exact .inl ⟨rfl, .inr ⟨hs, paused, rfl⟩⟩
    · exact .inr (.inl ⟨hs, on, turned⟩)
  cases state with
  | created direct =>
      rcases h with ⟨refused, rfl⟩ | ⟨free, -, turned⟩
      · exact .inl ⟨rfl, .inl refused⟩
      · exact .inr (.inr ⟨free, turned⟩)
  | sleeping generation => exact continued rfl h
  | waiting generation openings => exact continued rfl h
  | finished fault? =>
      obtain ⟨rfl, rfl⟩ := h
      exact .inl ⟨rfl, .inl rfl⟩

theorem Ran.generation (h : Ran state after a b) : b.generation = a.generation := by
  rcases h.cases with ⟨rfl, -⟩ | ⟨-, -, turned⟩ | ⟨-, turned⟩
  · rfl
  · exact turned.generation
  · exact turned.generation

theorem Ran.orderly (h : Ran state after a b) (ha : a.Orderly) : b.Orderly := by
  rcases h.cases with ⟨rfl, -⟩ | ⟨-, -, turned⟩ | ⟨-, turned⟩
  · exact ha
  · exact turned.orderly ha
  · exact turned.orderly a.entered_orderly

/-- The run stands where it should after its segment. -/
theorem Ran.fits (h : Ran state after a b) (ha : a.Orderly) (hs : state.Fits a) : after.Fits b := by
  rcases h.cases with ⟨rfl, ended | ⟨current, paused, rfl⟩⟩ | ⟨current, -, turned⟩ | ⟨-, turned⟩
  · exact .of_none (RunState.generation?_of_isFinished ended) _
  · have active := hs.active current
    refine ⟨by simp [RunState.generation?], fun _ => active, ?_⟩
    rintro _ _ ⟨⟩
    exact ⟨rfl, rfl, ha.held active paused⟩
  · exact turned.fits (hs.active current)
  · exact turned.fits rfl

/-- Every other run stands where it did: at most one is of the current
generation, and if there is one, nobody takes its place. -/
theorem Ran.others {other : RunState} (h : Ran state after a b) (ho : other.Fits a)
    (alone : state.generation? = some a.generation → other.generation? ≠ some a.generation) :
    other.Fits b := by
  rcases h.cases with ⟨rfl, -⟩ | ⟨current, -, turned⟩ | ⟨free, turned⟩
  · exact ho
  · exact ho.of_old (alone current) turned.generation
  · refine ho.of_old ?_ turned.generation
    intro current
    rw [ho.active current] at free
    cases free

/-- A run that is of the current generation after its segment was so before, or
took the free place. -/
theorem Ran.current (h : Ran state after a b) (current : after.generation? = some b.generation) :
    state.generation? = some a.generation ∨ a.runActive = false := by
  rcases h.cases with ⟨rfl, ended | ⟨before, -⟩⟩ | ⟨before, -⟩ | ⟨free, -⟩
  · rw [RunState.generation?_of_isFinished ended] at current
    cases current
  · exact .inl before
  · exact .inl before
  · exact .inr free

end Seat

end Runloop
