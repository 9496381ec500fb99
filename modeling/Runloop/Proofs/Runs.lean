/-
# Which run counts, and which one waits

At every moment of every history at most one run of a session counts: of those
that have begun and are not over, one at most is of the current generation, and
the place is its own.  Every other one is void.  It is in the queue, its next
turn ends it and changes nothing else, and it stays so until that turn comes
(`one_run_counts`).

A run waits only at a closed gate, and a closed gate belongs to a pause, with
one exception: a program that is stepped to its end while it is paused is over
behind a closed gate.  A run that waits there is not let go on by resuming or
by stopping, which do nothing to a program that is over; a reset does let it go
on (`waiting_runs_go_on`, `stepping_strands_a_run`).
-/
import Runloop.Proofs.Interleaving

namespace Runloop

open Relation (ReflTransGen)

namespace Schedule

variable {q q' : Schedule} {key id : Nat} {s : Session} {r : Run}

/-! ## Runs that are void -/

/-- A run of an older generation than its session. -/
structure Void (q : Schedule) (id : Nat) (r : Run) (generation : Nat) : Prop where
  run : q.run? id = some r
  begun : r.state.generation? = some generation
  old : ∀ s, q.session? r.owner = some s → generation < s.machine.generation

/-- A run that is void does not wait. -/
theorem Void.sleeping {generation : Nat} (h : q.Orderly) (v : q.Void id r generation) :
    r.state = .sleeping generation := by
  obtain ⟨s, hs, fits⟩ := h.fits v.run
  have old := v.old s hs
  have begun := v.begun
  cases hstate : r.state with
  | sleeping g =>
      rw [hstate] at begun
      exact congrArg RunState.sleeping (Option.some.inj begun)
  | waiting g openings =>
      rw [hstate] at begun
      have begun : g = generation := Option.some.inj begun
      obtain ⟨same, -, -⟩ := fits.waits g openings hstate
      have same : g = s.machine.generation := same
      omega
  | created | finished =>
      rw [hstate] at begun
      cases begun

theorem set_session (hs : q.session? key = some s) : q.sessions.set key s = q.sessions := by
  obtain ⟨inside, eq⟩ := List.getElem?_eq_some_iff.mp hs
  rw [← eq]
  exact List.set_getElem_self inside

/-- The turn of a run that ends it, and does nothing else. -/
theorem Orderly.perform_same (h : q.Orderly) {fault? : Option Fault} (hr : q.run? id = some r)
    (hs : q.session? r.owner = some s) (turn : s.segment r.state = (.finished fault?, s)) :
    q.perform (.run id) = q.setRun id (.finished fault?) := by
  have ran := (Session.segment_turns (h.proper hs).hooks r.state).seat
  rw [turn] at ran
  unfold Schedule.perform
  simp only [hr, hs, turn]
  rw [h.putSession_ran hr hs ran, set_session hs]
  rfl

/-- The turn of a run that is void ends it, and nothing else happens. -/
theorem Void.perform {generation : Nat} (h : q.Orderly) (v : q.Void id r generation) :
    q.perform (.run id) = q.setRun id (.finished none) := by
  obtain ⟨s, hs, -⟩ := h.fits v.run
  refine h.perform_same v.run hs ?_
  exact Session.segment_void (h.proper hs).hooks v.begun (Nat.ne_of_lt (v.old s hs))

theorem Evolved.generation {t : Session} (h : q.Orderly) (hs : q.session? key = some s)
    (e : Evolved q q' key s t) : s.machine.generation ≤ t.machine.generation := by
  have proper := h.proper hs
  cases e with
  | still => exact Nat.le_refl _
  | command c _ =>
      exact ((Session.control_turns proper c).seat.passes (h.seats hs)).generation
  | segment _ _ => exact Nat.le_of_eq (Session.segment_turns proper.hooks _).seat.generation.symm
  | fire _ _ =>
      rw [Session.run_eq proper.hooks]
      exact Nat.le_of_eq (congrArg Seat.generation (Act.stays_fire _ s).after.seat)
  | takeTimers _ => exact Nat.le_refl _

/-- A run that is void stays so until its turn has come. -/
theorem Void.step {generation : Nat} (h : q.Orderly) (v : q.Void id r generation)
    (step : q.Step q') :
    q'.Void id r generation ∨ q'.run? id = some ⟨r.owner, .finished none⟩ := by
  obtain ⟨s, hs, -⟩ := h.fits v.run
  obtain ⟨⟨owner', state'⟩, hr', own, continues⟩ := h.continues step v.run
  obtain rfl : owner' = r.owner := own
  rcases continues with same | ⟨_, _, waits, -⟩ | ⟨s', hs', after⟩
  · refine .inl ⟨?_, v.begun, ?_⟩
    · obtain rfl : state' = r.state := same
      exact hr'
    · intro t ht
      obtain ⟨t', ht', evolved⟩ := step.evolved hs
      obtain rfl : t' = t := Option.some.inj (ht'.symm.trans ht)
      exact Nat.lt_of_lt_of_le (v.old s hs) (evolved.generation h hs)
  · rw [v.sleeping h] at waits
    cases waits
  · have turn := Session.segment_void (h.proper hs').hooks v.begun (Nat.ne_of_lt (v.old s' hs'))
    rw [turn] at after
    obtain rfl : state' = .finished none := after
    exact .inr hr'

/-- A run that is over stays over. -/
theorem finished_step {fault? : Option Fault} {owner : Nat} (h : q.Orderly)
    (hr : q.run? id = some ⟨owner, .finished fault?⟩) (step : q.Step q') :
    q'.run? id = some ⟨owner, .finished fault?⟩ := by
  obtain ⟨⟨owner', state'⟩, hr', own, continues⟩ := h.continues step hr
  obtain rfl : owner' = owner := own
  rcases continues with same | ⟨_, _, waits, -⟩ | ⟨s, hs, after⟩
  · obtain rfl : state' = .finished fault? := same
    exact hr'
  · cases waits
  · have ended : (s.segment (.finished fault?)).1 = .finished fault? :=
      (Session.segment_turns (h.proper hs).hooks (.finished fault?)).seat.1
    obtain rfl : state' = .finished fault? := after.trans ended
    exact hr'

theorem Void.later {generation : Nat} (h : q.Reachable) (v : q.Void id r generation)
    (steps : ReflTransGen Step q q') :
    q'.Void id r generation ∨ q'.run? id = some ⟨r.owner, .finished none⟩ := by
  induction steps with
  | refl => exact .inl v
  | @tail q₁ q₂ before step ih =>
      have ordered : q₁.Orderly := Reachable.orderly (h.trans before)
      rcases ih with void | ended
      · exact void.step ordered step
      · exact .inr (finished_step ordered ended step)

/-! ## The run that counts -/

/-- Of the runs of a session that have begun and are not over, at most one is of
the current generation, and then the place is taken.  Every other one is in the
queue; at all times from now on its turn, if it has not had it, ends the run and
changes nothing else whatsoever. -/
theorem one_run_counts {q : Schedule} (h : q.Reachable) {key : Nat} {s : Session}
    (hs : q.session? key = some s) :
    (∀ i j r r', q.run? i = some r → q.run? j = some r' → r.owner = key → r'.owner = key →
      r.state.generation? = some s.machine.generation →
      r'.state.generation? = some s.machine.generation →
      i = j ∧ s.machine.runActive = true) ∧
    ∀ i r generation, q.run? i = some r → r.owner = key →
      r.state.generation? = some generation → generation ≠ s.machine.generation →
      .run i ∈ q.ready ++ q.next ∧
      ∀ q', ReflTransGen Step q q' →
        q'.run? i = some r ∧ q'.perform (.run i) = q'.setRun i (.finished none) ∨
          q'.run? i = some ⟨key, .finished none⟩ := by
  have ordered := h.orderly
  refine ⟨?_, ?_⟩
  · intro i j r r' hr hr' own own' g g'
    subst own
    exact ⟨ordered.alone hr' hr own'.symm (own' ▸ hs) g' g, (ordered.fit hr hs).active g⟩
  · intro i r generation hr own begun other
    subst own
    have v : q.Void i r generation := by
      refine ⟨hr, begun, ?_⟩
      intro t ht
      obtain rfl : s = t := Option.some.inj (hs.symm.trans ht)
      exact Nat.lt_of_le_of_ne ((ordered.fit hr hs).early generation begun) other
    refine ⟨?_, ?_⟩
    · refine h.queued i r hr ?_ (by simp)
      rw [v.sleeping ordered]
      rfl
    · intro q' steps
      rcases v.later h steps with void | ended
      · exact .inl ⟨void.run, void.perform (Reachable.orderly (h.trans steps))⟩
      · exact .inr ended

/-- A session with a program of two lines. -/
def loaded : Schedule :=
  (({} : Schedule).addSession (.create 0 {} true)).1.command 0 (.load "let a = 1;\nlet b = 2;")

/-- The run of the program waits after the first line. -/
def waiting : Schedule := ((loaded.start 0 true).1.tick.command 0 .pause).tick

theorem reachable_waiting : waiting.Reachable := by
  have created := (Reachable.empty.create 0 {} true).command 0 (.load "let a = 1;\nlet b = 2;")
  exact ((created.start (by decide +kernel) true).tick.command 0 .pause).tick

/-- Another run is started, the program is loaded again, and the new run has had
its first turn. -/
def reloaded : Schedule :=
  let q := ((waiting.start 0 true).1.command 0 (.load "let a = 1;\nlet b = 2;")).beginRound
  (q.withReady q.ready.tail).perform (.run 1)

theorem reachable_reloaded : reloaded.Reachable := by
  have there : (waiting.session? 0).isSome = true := by decide +kernel
  have again := (reachable_waiting.start there true).command 0 (.load "let a = 1;\nlet b = 2;")
  exact (again.round (by decide +kernel)).turn (by decide +kernel)

/-- The run that waited is void, and the new one counts. -/
theorem reloading_leaves_one_run :
    ∃ s, reloaded.session? 0 = some s ∧ s.machine.generation = 2 ∧ s.machine.runActive = true ∧
      reloaded.run? 1 = some ⟨0, .sleeping 2⟩ ∧ reloaded.run? 0 = some ⟨0, .sleeping 1⟩ ∧
      .run 0 ∈ reloaded.ready ++ reloaded.next ∧
      ∀ q', ReflTransGen Step reloaded q' →
        q'.run? 0 = some ⟨0, .sleeping 1⟩ ∧ q'.perform (.run 0) = q'.setRun 0 (.finished none) ∨
          q'.run? 0 = some ⟨0, .finished none⟩ := by
  have seat : (reloaded.session? 0).map (·.machine.generation) = some 2 := by decide +kernel
  have first : (reloaded.run? 0).map (fun r => (r.owner, r.state)) = some (0, .sleeping 1) := by
    decide +kernel
  have second : (reloaded.run? 1).map (fun r => (r.owner, r.state)) = some (0, .sleeping 2) := by
    decide +kernel
  obtain ⟨s, hs, generation⟩ := Option.map_eq_some_iff.mp seat
  obtain ⟨⟨_, _⟩, hr, eq⟩ := Option.map_eq_some_iff.mp first
  obtain ⟨⟨_, _⟩, hr', eq'⟩ := Option.map_eq_some_iff.mp second
  cases eq
  cases eq'
  obtain ⟨counts, others⟩ := one_run_counts reachable_reloaded hs
  have current : (RunState.sleeping 2).generation? = some s.machine.generation := by
    rw [generation]
    rfl
  obtain ⟨-, active⟩ := counts 1 1 _ _ hr' hr' rfl rfl current current
  obtain ⟨queued, turn⟩ := others 0 _ 1 hr rfl rfl (by rw [generation]; decide)
  exact ⟨s, hs, generation, active, hr', hr, queued, turn⟩

end Schedule

/-! ## The gate -/

/-- The gate is closed although the program is not paused. -/
def Session.Stranded (s : Session) : Prop := s.machine.gate = some false ∧ s.phase ≠ .paused

/-- Whether an operation opens a closed gate: one that resets always does,
resuming and stopping only during a pause. -/
def Seat.Frees (a : Seat) (c : Control) : Prop :=
  c.drives = false ∨ (c = .resume ∨ c = .stop) ∧ a.phase = .paused

namespace Seat

variable {a b : Seat} {c : Control}

theorem opened_openings (closed : a.gate = some false) : a.opened.openings = a.openings + 1 := by
  rw [opened_of_gate (by rw [closed]; rfl)]

theorem Controlled.openings (hc : Controlled c a b) (h : a.Orderly) (closed : a.gate = some false) :
    b.openings = a.openings + 1 ∧ a.Frees c ∨ b.openings = a.openings ∧ ¬ a.Frees c := by
  cases hc.operated with
  | nothing drives resumes stops =>
      refine .inr ⟨rfl, ?_⟩
      rintro (resets | ⟨rfl | rfl, paused⟩)
      · exact absurd (drives.symm.trans resets) (by simp)
      · exact resumes rfl paused
      · exact absurd paused (by rcases stops rfl with off | off <;> simp [off])
  | pauses => exact .inr ⟨rfl, by simp [Frees, Control.drives]⟩
  | resumes paused => exact .inl ⟨opened_openings closed, .inr ⟨.inl rfl, paused⟩⟩
  | stops _ on =>
      have paused := (h.closed closed).resolve_right on
      exact .inl ⟨opened_openings (a := a.voided) closed, .inr ⟨.inr rfl, paused⟩⟩
  | clears resets => exact .inl ⟨opened_openings (a := a.voided) closed, .inl resets⟩
  | begins | ends => exact .inr ⟨rfl, by simp [Frees, Control.drives]⟩

/-- A gate is closed outside a pause only by a step that ends a paused program. -/
theorem Controlled.strands (hc : Controlled c a b) (h : a.Orderly) (closed : b.gate = some false)
    (off : b.phase ≠ .paused) :
    b = a ∨ c = .step ∧ a.phase = .paused ∧ b.phase = .completed := by
  cases hc.operated with
  | nothing => exact .inl rfl
  | pauses | begins => exact absurd rfl off
  | resumes => exact absurd closed a.opened_gate
  | stops | clears => exact absurd closed a.voided.opened_gate
  | ends on => exact .inr ⟨rfl, (h.closed closed).resolve_right on, rfl⟩

/-- A segment closes no gate. -/
theorem Ran.strands {state after : RunState} (hr : Ran state after a b) (h : a.Orderly)
    (closed : b.gate = some false) (off : b.phase ≠ .paused) :
    a.gate = some false ∧ a.phase ≠ .paused := by
  have gate {a : Seat} (ht : a.Turned after b) : b.gate = a.gate := by
    rcases ht with ⟨-, -, rfl⟩ | ⟨-, c, rfl | rfl, rfl⟩
    · rfl
    · rfl
    · rfl
  rcases hr.cases with ⟨rfl, -⟩ | ⟨-, on, turned⟩ | ⟨-, turned⟩
  · exact ⟨closed, off⟩
  · exact ⟨(gate turned).symm.trans closed, on⟩
  · exact absurd ((gate turned).symm.trans closed) (by simp [entered, inPhase])

/-- A run in whose segment the program ends leaves its place. -/
theorem Ran.ended {state after : RunState} (hr : Ran state after a b) (on : a.phase ≠ .completed)
    (ended : b.phase = .completed) : b.runActive = false := by
  have left {a : Seat} (on : a.phase ≠ .completed) (ht : a.Turned after b) :
      b.runActive = false := by
    rcases ht with ⟨-, -, rfl⟩ | ⟨-, c, -, rfl⟩
    · exact absurd ended on
    · rfl
  rcases hr.cases with ⟨rfl, -⟩ | ⟨-, -, turned⟩ | ⟨-, turned⟩
  · exact absurd ended on
  · exact left on turned
  · exact left (by simp [entered, inPhase]) turned

end Seat

/-- The last step of a paused program: its unit of work ends at once, and nothing
is left after it. -/
theorem Act.ends_last_step {s t : Session} {delay : Double} {E : Fault → Session → Prop}
    (loaded : s.machine.loaded = true) (paused : s.machine.phase = .paused)
    (unit : s.machine.unit = none) (paces : Number.quotient s.store.speed 1000 = .ok delay)
    (works : (Act.nextUnit >>= fun _ => advance plain).run s = (.ok false, t))
    (idle : t.machine.unit = none) (rest : t.hasMore = false) :
    Ends (step plain) s (fun _ u => u.phase = .completed) E := by
  have paces : pacing.run s = (.ok delay, s) := by
    unfold pacing
    rw [run_bind_ok (show store.run s = (.ok s.store, s) from rfl), paces]
    rfl
  have settled : s.Turns Seat.Settled t :=
    (stays_nextUnit.settles.bind (fun _ => settles_advance) s).of_ok works
  have works : (advance plain).run (nextUnit.run s).2 = (.ok false, t) := works
  have loops : (loop Session.rank (do
      if ← advance plain then
        elapse plain delay
        return true
      else return false)).run (nextUnit.run s).2 = (.ok ⟨⟩, t) := by
    rw [run_loop, run_bind_ok works]
    rfl
  unfold step
  rw [ends_bind, ends_machine, if_neg (by simp [loaded]), if_neg (by simp [paused]),
    if_neg (by simp [paused]), if_neg (by simp [paused]), ends_bind]
  refine .of_answer paces ?_
  rw [ends_bind, ends_machine, ends_bind, ends_machine, if_pos (by simp [unit]), ends_bind]
  refine .of_answer (t := (nextUnit.run s).2) rfl ?_
  rw [ends_bind]
  refine .of_answer loops ?_
  rw [ends_bind, ends_get]
  split
  · rename_i ended
    have current : t.machine.generation = s.machine.generation := settled.seat.generation
    simpa [current, Session.phase] using ended
  · rw [if_neg (by simp [rest]), ends_bind]
    refine (ends_finish idle).mono ?_ fun _ _ h => h
    rintro _ u ⟨-, -, -, ended⟩
    exact ended

namespace Schedule

variable {q q' : Schedule} {key id : Nat} {s : Session} {r : Run}

/-- A run that waits is let go on: it is ready again, and in the queue. -/
def GoesOn (q : Schedule) (key id generation : Nat) : Prop :=
  q.run? id = some ⟨key, .sleeping generation⟩ ∧ .run id ∈ q.next

/-- An operation lets a waiting run go on, or leaves it waiting. -/
theorem command_waiting {generation openings : Nat} (h : q.Orderly) (hs : q.session? key = some s)
    (hr : q.run? id = some ⟨key, .waiting generation openings⟩) (c : Control) :
    (q.command key c).GoesOn key id generation ∧ s.seat.Frees c ∨
      (q.command key c).run? id = some ⟨key, .waiting generation openings⟩ ∧
        ¬ s.seat.Frees c := by
  obtain ⟨-, same, closed⟩ := (h.fit hr hs).waits generation openings rfl
  have controlled := (Session.control_turns (h.proper hs) c).seat
  rw [command_of_some hs]
  rcases controlled.openings (h.seats hs) closed with ⟨opened, frees⟩ | ⟨shut, stays⟩
  · have due : Run.isDue key (s.control c).2 ⟨key, .waiting generation openings⟩ = true := by
      have later : openings < (s.control c).2.machine.openings := by
        have opened : (s.control c).2.machine.openings = s.seat.openings + 1 := opened
        omega
      simp [Run.isDue, Session.releases, later]
    obtain ⟨g, k, waits, -, -, eq⟩ := Run.woken_of_isDue due
    cases waits
    refine .inl ⟨⟨?_, mem_next_putSession hr due⟩, frees⟩
    rw [run?_putSession, hr]
    exact congrArg some eq
  · have quiet : Run.isDue key (s.control c).2 ⟨key, .waiting generation openings⟩ = false := by
      have shut : (s.control c).2.machine.openings = s.seat.openings := shut
      simp [Run.isDue, Session.releases, shut, same]
    refine .inr ⟨?_, stays⟩
    rw [run?_putSession, hr]
    exact congrArg some (Run.woken_of_not_isDue quiet)

theorem Evolved.strands {t : Session} (h : q.Orderly) (hs : q.session? key = some s)
    (e : Evolved q q' key s t) (stranded : t.Stranded) :
    s.Stranded ∨ s.phase = .paused ∧ q' = q.command key .step ∧ t.phase = .completed := by
  have proper := h.proper hs
  obtain ⟨closed, off⟩ := stranded
  cases e with
  | still => exact .inl ⟨closed, off⟩
  | command c command =>
      have controlled := (Session.control_turns proper c).seat
      rcases controlled.strands (h.seats hs) closed off with same | ⟨rfl, paused, ended⟩
      · refine .inl ⟨?_, ?_⟩
        · exact (congrArg Seat.gate same).symm.trans closed
        · exact fun paused => off ((congrArg Seat.phase same).trans paused)
      · exact .inr ⟨paused, command, ended⟩
  | segment _ _ =>
      exact .inl ((Session.segment_turns proper.hooks _).seat.strands (h.seats hs) closed off)
  | @fire serial task _ _ =>
      rw [Session.run_eq proper.hooks] at closed off
      have same := (Act.stays_fire task s).after.seat
      refine .inl ⟨?_, ?_⟩
      · exact (congrArg Seat.gate same).trans closed
      · exact fun paused => off ((congrArg Seat.phase same).symm.trans paused)
  | takeTimers _ => exact .inl ⟨closed, off⟩

theorem session?_perform (hr : q.run? id = some r) (hs : q.session? r.owner = some s) :
    (q.perform (.run id)).session? r.owner = some (s.segment r.state).2 := by
  have put (after : RunState) :
      ((q.setRun id after).putSession r.owner (s.segment r.state).2).session? r.owner =
        some (s.segment r.state).2 := by
    rw [session?_put_of_some (q := q.setRun id after) hs hs, if_pos rfl]
  unfold Schedule.perform
  simp only [hr, hs]
  split
  · exact put _
  · exact put _

/-- A closed gate belongs to a pause or to a program that is over, and the latter
comes about in one way only: a paused program is stepped to its end.  A run that
waits stands at a closed gate.  A reset always lets it go on, resuming and
stopping do during a pause, and nothing else does; so behind the gate of a
program that was stepped to its end it waits for a reset.  A program that comes
to its end in a segment of a run leaves nobody waiting. -/
theorem waiting_runs_go_on {q : Schedule} (h : q.Reachable) {key : Nat} {s : Session}
    (hs : q.session? key = some s) :
    (s.machine.gate = some false → s.phase = .paused ∨ s.phase = .completed) ∧
    (∀ q' t, q.Step q' → q'.session? key = some t → t.Stranded →
      s.Stranded ∨ s.phase = .paused ∧ q' = q.command key .step ∧ t.phase = .completed) ∧
    (∀ id generation openings, q.run? id = some ⟨key, .waiting generation openings⟩ →
      s.machine.gate = some false ∧
      ∀ c, if c.drives = false ∨ (c = .resume ∨ c = .stop) ∧ s.phase = .paused
        then (q.command key c).GoesOn key id generation
        else (q.command key c).run? id = some ⟨key, .waiting generation openings⟩) ∧
    ∀ id r t, q.run? id = some r → r.owner = key → s.phase ≠ .completed →
      (q.perform (.run id)).session? key = some t → t.phase = .completed →
      ∀ j generation openings,
        (q.perform (.run id)).run? j ≠ some ⟨key, .waiting generation openings⟩ := by
  have ordered := h.orderly
  refine ⟨(ordered.seats hs).closed, ?_, ?_, ?_⟩
  · intro q' t step ht stranded
    obtain ⟨t', ht', evolved⟩ := step.evolved hs
    obtain rfl : t' = t := Option.some.inj (ht'.symm.trans ht)
    exact evolved.strands ordered hs stranded
  · intro id generation openings hr
    refine ⟨((ordered.fit hr hs).waits generation openings rfl).2.2, ?_⟩
    intro c
    rcases command_waiting ordered hs hr c with ⟨goes, frees⟩ | ⟨waits, stays⟩
    · rw [if_pos (show _ ∨ _ ∧ s.phase = .paused from frees)]
      exact goes
    · rw [if_neg (show ¬ (_ ∨ _ ∧ s.phase = .paused) from stays)]
      exact waits
  · intro id r t hr own on ht ended j generation openings waits
    subst own
    have fits := (ordered.perform (.run id)).fit waits ht
    obtain ⟨rfl, -, -⟩ := fits.waits generation openings rfl
    rw [session?_perform hr hs] at ht
    obtain rfl := Option.some.inj ht
    have ran := (Session.segment_turns (ordered.proper hs).hooks r.state).seat
    exact absurd ((fits.active rfl).symm.trans (ran.ended on ended)) (by simp)

theorem waiting_run : waiting.run? 0 = some ⟨0, .waiting 1 0⟩ := by
  have state : (waiting.run? 0).map (fun r => (r.owner, r.state)) = some (0, .waiting 1 0) := by
    decide +kernel
  obtain ⟨⟨_, _⟩, hr, eq⟩ := Option.map_eq_some_iff.mp state
  cases eq
  exact hr

/-- The second line is stepped over, and with it the program is over. -/
theorem waiting_step (hs : waiting.session? 0 = some s) :
    (s.control .step).2.phase = .completed := by
  have last : (waiting.session? 0).all (fun s =>
      let worked := ((do Act.nextUnit; Act.advance Act.plain).run s : Except Fault Bool × Session)
      s.hooks = [] ∧ s.machine.loaded ∧ s.machine.phase = .paused ∧ s.machine.unit.isNone ∧
        (Number.quotient s.store.speed 1000).isOk ∧
        worked.1 = .ok false ∧ worked.2.machine.unit.isNone ∧ worked.2.hasMore = false) := by
    decide +kernel
  rw [hs] at last
  simp only [Option.all_some, decide_eq_true_eq, Option.isNone_iff_eq_none] at last
  obtain ⟨hooks, loaded, paused, unit, quotient, works, idle, rest⟩ := last
  obtain ⟨delay, paces⟩ : ∃ delay, Number.quotient s.store.speed 1000 = .ok delay := by
    generalize Number.quotient s.store.speed 1000 = r at quotient
    cases r with
    | ok delay => exact ⟨delay, rfl⟩
    | error fault => cases quotient
  have ends : Act.Ends (Act.control Act.plain .step) s
      (fun _ t => t.phase = .completed) (fun _ t => t.phase = .completed) := by
    show Act.Ends (Act.stepSession Act.plain >>= fun more => pure (Act.Answer.bool more)) s _ _
    unfold Act.stepSession
    rw [Act.ends_bind, Act.ends_bind, Act.ends_machine, if_pos loaded]
    exact Act.ends_last_step loaded paused unit paces (Prod.ext works rfl) idle rest
  unfold Session.control
  rw [Session.run_eq hooks]
  exact ends.after

/-- When the second line is stepped over while the run waits after the first, the
program is over and the run waits behind the closed gate, until a reset. -/
theorem stepping_strands_a_run :
    ∃ s, (waiting.command 0 .step).session? 0 = some s ∧
      s.phase = .completed ∧ s.machine.gate = some false ∧
      (waiting.command 0 .step).run? 0 = some ⟨0, .waiting 1 0⟩ ∧
      (∀ c, c.drives = true →
        ((waiting.command 0 .step).command 0 c).run? 0 = some ⟨0, .waiting 1 0⟩) ∧
      ((waiting.command 0 .step).command 0 .reset).GoesOn 0 0 1 := by
  obtain ⟨s, hs, -⟩ := reachable_waiting.orderly.fits waiting_run
  have there : (waiting.command 0 .step).session? 0 = some (s.control .step).2 :=
    session?_command hs .step
  have ended : (s.control .step).2.phase = .completed := waiting_step hs
  have still : (waiting.command 0 .step).run? 0 = some ⟨0, .waiting 1 0⟩ := by
    have ordered := reachable_waiting.orderly
    rcases command_waiting ordered hs waiting_run .step with ⟨-, frees⟩ | ⟨still, -⟩
    · rcases frees with never | ⟨never | never, -⟩
      · cases never
      · cases never
      · cases never
    · exact still
  obtain ⟨-, -, waits, -⟩ := waiting_runs_go_on (reachable_waiting.command 0 .step) there
  obtain ⟨closed, operations⟩ := waits 0 1 0 still
  refine ⟨_, there, ended, closed, still, ?_, ?_⟩
  · intro c drives
    have stays := operations c
    rw [if_neg (by simp [drives, ended])] at stays
    exact stays
  · have goes := operations .reset
    rw [if_pos (.inl rfl)] at goes
    exact goes

end Schedule

end Runloop
