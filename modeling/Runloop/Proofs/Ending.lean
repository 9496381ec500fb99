/-
# Every program comes to its end

A step that leaves work to be done has brought the program nearer to its end, and
so has a turn of a run after which the run goes on (`OnTime.turned`).  So on a
clock that moves only when it is told to, every program comes to its end, whoever
drives it (`programs_end`).
-/
import Runloop.Proofs.Reloading
import Runloop.Proofs.Turning

namespace Runloop

open Relation (ReflTransGen)

/-! ## Runs -/

namespace Session.OnTime

open Act

variable {s t : Session} {delay : Double}

theorem rested (h : s.OnTime delay) (on : s.phase ≠ .completed) :
    s.rested delay = s.waited delay := by
  rw [Session.rested, (h.timely on).virtual]
  rfl

/-- A turn of a run has brought the program nearer to its end, or the program is
over. -/
theorem turned (h : s.OnTime delay) (on : s.phase ≠ .completed)
    (still : (s.turned delay).2.phase ≠ .completed) : (s.turned delay).2.height < s.height := by
  unfold Session.turned at still ⊢
  cases more : s.hasMore with
  | false =>
      obtain ⟨_, t, finishes, -, -, -, completed⟩ := (ends_finish (E := fun _ _ => False)
        (h.live.unit_of_hasMore on more)).exists_ok
      rw [more, finishes] at still
      exact absurd completed still
  | true =>
      obtain ⟨again, t, run, -⟩ := (h.paced.ready on).advance
      have after := h.strides (advance_strides on run)
      simp only [more, if_true, run] at still ⊢
      by_cases completed : t.phase = .completed
      · rw [if_pos completed] at still
        exact absurd completed still
      · rw [if_neg completed, after.rested completed]
        -- with nothing to do but wait it is the time to the next timer that gets shorter
        by_cases drained : s.Drained
        · cases run.symm.trans drained.advance_ready
          exact drained_lowers h on drained (drained.waiting more)
        · exact lt_of_le_of_lt (height_waited (after.timely completed).clock h.paced.isWait)
            (ready_lowers h.live on drained run completed)

/-- So has a segment that is a turn. -/
theorem ran (h : s.OnTime delay) (on : s.phase ≠ .completed) :
    (∃ t, s.ran delay = (.sleeping t.machine.generation, t) ∧ t.OnTime delay ∧ t.seat = s.seat ∧
      t.height < s.height) ∨
    ∃ t, s.ran delay = (.finished none, t) ∧ t.phase = .completed := by
  obtain ⟨path, turns, goesOn⟩ := h.paced.turned on
  unfold Session.ran
  by_cases completed : (s.turned delay).2.phase = .completed
  · rw [if_neg (by simp [goesOn, completed])]
    exact .inr ⟨_, rfl, completed⟩
  · have generation : (s.turned delay).2.machine.generation = s.machine.generation :=
      turns.seat.generation
    rw [if_pos (by simp [goesOn, completed]), ← generation]
    exact .inl ⟨_, rfl, h.strides path, turns.seat.eq completed, h.turned on completed⟩

/-- A run that is under way comes to its end. -/
theorem run_sleeping (h : s.OnTime delay) (running : s.phase = .running) :
    ∃ n t, (fun p : RunState × Session => p.2.segment p.1)^[n]
        (.sleeping s.machine.generation, s) = (.finished none, t) ∧ t.phase = .completed := by
  induction lower : s.height using WellFoundedLT.induction generalizing s with
  | ind height ih =>
      have segment := h.paced.segment_sleeping (by simp [running]) (by simp [running])
      rcases h.ran (by simp [running]) with ⟨t, ran, after, seat, below⟩ | ⟨t, ran, completed⟩
      · have still : t.phase = .running := (congrArg Seat.phase seat).trans running
        obtain ⟨n, u, rest, completed⟩ := ih _ (lower ▸ below) after still rfl
        refine ⟨n + 1, u, ?_, completed⟩
        rw [Function.iterate_succ_apply, segment, ran]
        exact rest
      · refine ⟨1, t, ?_, completed⟩
        rw [Function.iterate_one, segment, ran]

/-- A run comes to its end. -/
theorem run (h : s.OnTime delay) (free : s.machine.runActive = false) (direct : Bool) :
    ∃ n t, (fun p : RunState × Session => p.2.segment p.1)^[n] (.created direct, s) =
      (.finished none, t) ∧ t.phase = .completed := by
  by_cases completed : s.phase = .completed
  · refine ⟨1, s, ?_, completed⟩
    rw [Function.iterate_one, h.live.segment_created completed]
  · have segment := h.paced.segment_created completed free direct
    rcases (h.strides (seated_strides completed)).ran nofun with
      ⟨t, ran, after, seat, -⟩ | ⟨t, ran, ended⟩
    · have running : t.phase = .running := congrArg Seat.phase seat
      obtain ⟨n, u, rest, ended⟩ := after.run_sleeping running
      refine ⟨n + 1, u, ?_, ended⟩
      rw [Function.iterate_succ_apply, segment, ran]
      exact rest
    · refine ⟨1, t, ?_, ended⟩
      rw [Function.iterate_one, segment, ran]

end Session.OnTime

/-! ## Programs -/

namespace Session

variable {s t : Session} {delay : Double}

/-- A step, a pause, a resumption, or a segment of a run. -/
def Drives (s t : Session) : Prop :=
  (∃ c : Control, c.strides = true ∧ t = (s.control c).2) ∨ ∃ state, t = (s.segment state).2

theorem Drives.strides (live : s.Live) (d : s.Drives t) : Strides s t := by
  rcases d with ⟨c, hc, rfl⟩ | ⟨state, rfl⟩
  · exact control_strides live hc
  · exact segment_strides live state

theorem segments_driven (s : Session) (n : Nat) (state : RunState) :
    ReflTransGen Drives s (s.segments n state) := by
  induction n generalizing s state with
  | zero => exact .refl
  | succ n ih => exact .head (.inr ⟨state, rfl⟩) (ih _ _)

theorem OnTime.driven (h : s.OnTime delay) (d : ReflTransGen Drives s t) : t.OnTime delay := by
  induction d with
  | refl => exact h
  | tail _ d ih => exact ih.strides (d.strides ih.live)

/-- If there is a program now, it was loaded. -/
theorem fed_eq {source : String} (fed : (s.fed source).1 = .ok true) :
    ∃ notices instructions diagnostics,
      (s.fed source).2 = ({ s with source, notices, instructions, diagnostics } : Session).begun
        instructions := by
  rcases s.fed_cases source with ⟨-, eq⟩ | ⟨fault, -, eq⟩ | ⟨e, -, eq⟩ | ⟨t, -, eq⟩
  · rw [eq] at fed
    cases fed
  · rw [eq] at fed
    cases fed
  · rw [eq] at fed
    cases fed
  · exact ⟨_, _, _, congrArg Prod.snd eq⟩

/-- What a source leaves that is loaded into a session that was just made. -/
theorem loaded_eq {speed : Int} {limits : Limits} {realtime : Bool} {source : String}
    (loads : (create speed limits realtime).control (.load source) = (.ok (.bool true), s)) :
    s.Live ∧ s.clock = .starting .zero ∧ s.realtime = realtime ∧ s.store.speed = speed ∧
      s.store.state.loop = {} ∧ s.phase = .idle ∧ s.machine.runActive = false ∧
      s.attached = true := by
  have vacant : (create speed limits realtime).Vacant := ⟨rfl, rfl, rfl, rfl⟩
  have loaded := loads
  rw [control_load (.inr vacant) source] at loaded
  obtain ⟨answer, rfl⟩ := Prod.mk.inj loaded
  have fed : ((create speed limits realtime).blank.fed source).1 = .ok true := by
    cases fed : ((create speed limits realtime).blank.fed source).1 with
    | error fault =>
        rw [fed] at answer
        cases answer
    | ok program =>
        rw [fed] at answer
        cases answer
        rfl
  obtain ⟨notices, instructions, diagnostics, begun⟩ := fed_eq fed
  refine ⟨load_live rfl loads, ?_⟩
  rw [begun]
  exact ⟨rfl, rfl, rfl, rfl, rfl, rfl, rfl⟩

theorem loaded_onTime {speed : Int} {limits : Limits} {source : String}
    (loads : (create speed limits false).control (.load source) = (.ok (.bool true), s))
    (converts : Number.quotient speed 1000 = .ok delay) : s.OnTime delay := by
  obtain ⟨live, clock, virtual, rfl, loop, -, -⟩ := loaded_eq loads
  refine ⟨live, converts, fun _ => ⟨?_, virtual, Int.le_refl _, ?_⟩⟩
  · rw [clock]
    exact .starting rfl
  · rw [loop]
    exact fun _ there => nomatch there

/-- On a clock that moves only when it is told to, every program comes to its end,
under whatever limits and whatever pacing delay, and whatever has been done with it
so far.  Wherever a step may be taken, its unit of work pauses finitely often; only
finitely many steps leave work to be done, the next one ends the program; and so do
the segments of a run that may begin, or that is under way. -/
theorem programs_end {source : String} {limits : Limits} {speed : Int} {t : Session}
    (loads : (create speed limits false).control (.load source) = (.ok (.bool true), s))
    (converts : Number.quotient speed 1000 = .ok delay) (driven : ReflTransGen Drives s t) :
    (t.Steppable → t.phase ≠ .completed → ∃ u, t.held.ready.Works delay u ∧
      t.control .step = (.ok (.bool u.settled.1), u.settled.2)) ∧
    (t.Steppable → ∃ n u, t.steps (n + 1) = (.ok (List.replicate n true ++ [false]), u) ∧
      u.phase = .completed) ∧
    (t.machine.runActive = false → ∀ direct, ∃ n u,
      (fun p : RunState × Session => p.2.segment p.1)^[n] (.created direct, t) =
        (.finished none, u) ∧ u.phase = .completed) ∧
    (t.phase = .running → ∃ n u,
      (fun p : RunState × Session => p.2.segment p.1)^[n] (.sleeping t.machine.generation, t) =
        (.finished none, u) ∧ u.phase = .completed) := by
  have onTime := (loaded_onTime loads converts).driven driven
  refine ⟨fun may on => ?_, onTime.steps, fun free direct => onTime.run free direct,
    onTime.run_sleeping⟩
  obtain ⟨u, works, run⟩ := Act.run_step onTime.paced on may
  exact ⟨u, works, control_step onTime.live run⟩

/-- A timer that sets a timer that queues a microtask, at a pacing delay of a
second. -/
theorem nested_timers_end :
    let source := "setTimeout(() => \x7b setTimeout(() => \x7b" ++
      " Promise.resolve(1).then(() => \x7b\x7d); \x7d, 5); \x7d, 2000);"
    ∃ s, (create 1000 {} false).control (.load source) = (.ok (.bool true), s) ∧
      (∃ n u, s.steps (n + 1) = (.ok (List.replicate n true ++ [false]), u) ∧
        u.phase = .completed) ∧
      ∃ n u, (fun p : RunState × Session => p.2.segment p.1)^[n] (.created true, s) =
        (.finished none, u) ∧ u.phase = .completed := by
  intro source
  have loads : ((create 1000 {} false).control (.load source)).1 = .ok (.bool true) := by
    decide +kernel
  have converts : Number.quotient 1000 1000 = .ok (.ofInt 1) := by decide +kernel
  obtain ⟨-, steps, runs, -⟩ := programs_end (Prod.ext loads rfl) converts .refl
  obtain ⟨-, -, -, -, -, idle, free, -⟩ := loaded_eq (Prod.ext loads rfl)
  refine ⟨_, Prod.ext loads rfl, steps fun running => ?_, runs free true⟩
  rw [idle] at running
  cases running.1

end Session

end Runloop
