/-
# Turns of a run

A turn of a run is a segment and a pause, or it ends the program because no work is
left.  What it comes to is written down in full (`Session.turned`), and so is what
the segments of a run come to that are turns (`segment_sleeping`,
`segment_created`).
-/
import Runloop.Proofs.Stepping

namespace Runloop

namespace Session

/-- The session when the pause of a run is over. -/
def rested (s : Session) (delay : Double) : Session :=
  if !s.realtime || Double.zero.lt delay then s.waited delay else s

/-- The session after a turn of a run, and whether the run goes on. -/
def turned (s : Session) (delay : Double) : Bool × Session :=
  if s.hasMore then
    let t := ((Act.advance Act.plain).run s.ready).2
    if t.phase = .completed then (false, t) else (true, t.rested delay)
  else (false, ((Act.finish Act.plain).run s).2)

/-- The session with the place for a run free. -/
def vacated (s : Session) : Session := { s with machine := { s.machine with runActive := false } }

/-- The session after a turn of a run, and where the run stands then. -/
def ran (s : Session) (delay : Double) : RunState × Session :=
  if (s.turned delay).1 then (.sleeping s.machine.generation, (s.turned delay).2)
  else (.finished none, (s.turned delay).2.vacated)

/-- The session with the place for a run taken. -/
def seated (s : Session) : Session :=
  { s with machine := { s.machine with gate := some true, runActive := true } }.inPhase .running

end Session

namespace Act

variable {s t : Session} {delay : Double}

theorem run_pace (h : s.Paced delay) : (pace plain).run s = (.ok ⟨⟩, s.rested delay) := by
  obtain ⟨t, run, -⟩ := fireUntil_fires (s.clock.after delay) s
  unfold pace Session.rested Session.waited
  rw [run_bind_ok (run_pacing h.pacing), run_get_bind, run]
  cases (!s.realtime || Double.zero.lt delay) with
  | true => exact run
  | false => rfl

theorem run_isOver (generation : Nat) : (isOver generation).run s =
    (.ok (s.machine.generation ≠ generation || s.phase = .completed), s) := rfl

/-- From where there is a unit of work, a turn is a segment of it and a pause, unless the
program is over then. -/
theorem run_turnUnit {generation : Nat} {again : Bool} (paced : t.Paced delay)
    (run : (advance plain).run s = (.ok again, t)) (current : t.machine.generation = generation) :
    (turnUnit plain generation).run s =
      if t.phase = .completed then (.ok false, t) else (.ok true, t.rested delay) := by
  unfold turnUnit
  rw [run_bind_ok run, run_bind_ok (run_isOver _), current]
  by_cases completed : t.phase = .completed
  · simp only [completed, decide_true, Bool.or_true, if_true]
    rfl
  · simp only [completed, ne_eq, not_true_eq_false, decide_false, Bool.or_false, if_false,
      Bool.false_eq_true]
    rw [run_bind_ok (run_pace paced)]
    rfl

/-- What a turn of a run comes to. -/
theorem run_runTurn (h : s.Paced delay) (on : s.phase ≠ .completed) :
    (runTurn plain s.machine.generation).run s =
      (.ok (s.turned delay).1, (s.turned delay).2) := by
  have begins : (isOver s.machine.generation).run s = (.ok false, s) := by
    rw [run_isOver]
    simp [on]
  unfold runTurn Session.turned
  rw [run_bind_ok begins]
  simp only [Bool.false_eq_true, if_false]
  rw [run_get_bind]
  cases more : s.hasMore with
  | false =>
      have none := h.live.unit_of_hasMore on more
      obtain ⟨_, t, finishes, -⟩ := (ends_finish (E := fun _ _ => False) none).exists_ok
      rw [none, finishes]
      simp only [Option.isNone_none, Bool.not_false, Bool.and_self, if_true, Bool.false_eq_true,
        if_false]
      rw [run_bind_ok finishes]
      rfl
  | true =>
      have busy := h.ready on
      obtain ⟨again, t, run, stride, settles, -⟩ := busy.advance
      have generation : t.machine.generation = s.machine.generation :=
        settles.seat.generation.trans (congrArg Seat.generation s.ready_seat)
      have rest := run_turnUnit (s := s.ready) (busy.paced.stride stride) run generation
      have answer : (if t.phase = .completed then (.ok false, t) else (.ok true, t.rested delay) :
          Except Fault Bool × Session) =
          (.ok (if t.phase = .completed then (false, t) else (true, t.rested delay)).1,
            (if t.phase = .completed then (false, t) else (true, t.rested delay)).2) := by
        split <;> rfl
      simp only [Bool.not_true, Bool.and_false, Bool.false_eq_true, if_false, if_true, run]
      rw [← answer, ← rest]
      cases unit : s.machine.unit with
      | none =>
          simp only [Option.isNone_none, if_true]
          rw [run_bind_ok (run_nextUnit_of_none unit)]
          rfl
      | some u =>
          have same : s.ready = s := by rw [Session.ready, unit]
          rw [same]
          rfl

end Act

namespace Session

open Act

variable {s t : Session} {delay : Double}

/-- A turn leads on, and leaves the seat as it was unless the program is over. -/
theorem Paced.turned (h : s.Paced delay) (on : s.phase ≠ .completed) :
    Strides s (s.turned delay).2 ∧ s.Turns Seat.Settled (s.turned delay).2 ∧
      (s.turned delay).1 = decide ((s.turned delay).2.phase ≠ .completed) := by
  have run := run_runTurn h on
  have turns := ends_runTurn.of_ok run
  unfold Session.turned at turns ⊢
  cases more : s.hasMore with
  | false =>
      obtain ⟨_, t, finishes, -, -, -, completed⟩ := (ends_finish (E := fun _ _ => False)
        (h.live.unit_of_hasMore on more)).exists_ok
      have stride := Stride.finish on more
      rw [more] at turns
      rw [finishes] at stride turns ⊢
      exact ⟨.single stride, turns.1, by simp [completed]⟩
  | true =>
      rw [more] at turns
      have busy := h.ready on
      obtain ⟨again, t, advances, stride, -⟩ := busy.advance
      have path := advance_strides on advances
      have after := h.strides path
      simp only [if_true, advances] at turns ⊢
      by_cases completed : t.phase = .completed
      · rw [if_pos completed] at turns ⊢
        exact ⟨path, turns.1, by simp [completed]⟩
      · rw [if_neg completed] at turns ⊢
        refine ⟨?_, turns.1, ?_⟩
        · unfold rested
          split
          · exact path.tail (.wait completed after.pacing)
          · exact path
        · have same : (t.rested delay).machine = t.machine := by
            unfold rested
            split
            · exact t.waited_machine delay
            · rfl
          have completed : t.machine.phase ≠ .completed := completed
          simp [phase, same, completed]

theorem Paced.run_guardedTurn (h : s.Paced delay) (on : s.phase ≠ .completed) :
    (guardedTurn plain s.machine.generation).run s = (.ok (s.ran delay).1, (s.ran delay).2) := by
  have run := run_runTurn h on
  have generation : (s.turned delay).2.machine.generation = s.machine.generation :=
    (h.turned on).2.1.seat.generation
  have guarded : (tryCatch (runTurn plain s.machine.generation) fun fault => do
      leaveRun s.machine.generation
      throw fault : Act Bool).run s = (.ok (s.turned delay).1, (s.turned delay).2) := by
    rw [run_tryCatch, run]
  unfold guardedTurn ran
  rw [run_bind_ok guarded]
  cases (s.turned delay).1 with
  | true => rfl
  | false =>
      have leaves : (leaveRun s.machine.generation).run (s.turned delay).2 =
          (.ok ⟨⟩, (s.turned delay).2.vacated) := by
        show (Except.ok PUnit.unit, ({ (s.turned delay).2 with machine := _ } : Session)) = _
        dsimp only
        rw [if_pos generation]
        rfl
      simp only [Bool.false_eq_true, if_false]
      rw [run_bind_ok leaves]
      rfl

theorem seated_strides (on : s.phase ≠ .completed) : Strides s s.seated := by
  have taken := Stride.seat (s := s) (some true) s.machine.openings true
  have stride : Stride { s with machine := { s.machine with gate := some true, runActive := true } }
    (Prod.snd ((setPhase plain .running).run _)) := .phase nofun on
  rw [run_setPhase] at stride
  exact .head taken (.single stride)

theorem Live.segment_of_ok (live : s.Live) {state next : RunState}
    (run : (Act.segment plain state).run s = (.ok next, t)) : s.segment state = (next, t) := by
  unfold Session.segment
  rw [run_eq live.hooks, run]

/-- A segment of a run that has begun is a turn, unless the session is paused. -/
theorem Paced.segment_sleeping (h : s.Paced delay) (on : s.phase ≠ .completed)
    (free : s.phase ≠ .paused) : s.segment (.sleeping s.machine.generation) = s.ran delay := by
  have free : s.machine.phase ≠ .paused := free
  have goesOn : (Act.segment plain (.sleeping s.machine.generation)).run s =
      (.ok (s.ran delay).1, (s.ran delay).2) := by
    show (continueRun plain s.machine.generation).run s = _
    unfold continueRun
    rw [run_machine_bind]
    simp only [free, decide_false, Bool.false_and, Bool.false_eq_true, if_false]
    exact h.run_guardedTurn on
  exact h.live.segment_of_ok goesOn

/-- The first segment of a run takes the place for it, and is a turn. -/
theorem Paced.segment_created (h : s.Paced delay) (on : s.phase ≠ .completed)
    (free : s.machine.runActive = false) (direct : Bool) :
    s.segment (.created direct) = s.seated.ran delay := by
  have begins : (Act.segment plain (.created direct)).run s =
      (.ok (s.seated.ran delay).1, (s.seated.ran delay).2) := by
    have sits : (modifyMachine fun m => { m with gate := some true, runActive := true }).run s =
        (.ok ⟨⟩, { s with machine := { s.machine with gate := some true, runActive := true } }) := rfl
    have on' : s.machine.phase ≠ .completed := on
    show (beginRun plain direct).run s = _
    unfold beginRun
    rw [run_machine_bind, h.live.loaded, free]
    simp only [Bool.not_true, Bool.false_eq_true, if_false, on']
    rw [run_bind_ok sits, run_bind_ok (run_setPhase .running)]
    exact (h.strides (seated_strides on)).run_guardedTurn nofun
  exact h.live.segment_of_ok begins

/-- When the program is over, so is every run that begins. -/
theorem Live.segment_created (live : s.Live) (completed : s.phase = .completed) (direct : Bool) :
    s.segment (.created direct) = (.finished none, s) := by
  have completed : s.machine.phase = .completed := completed
  have ends : (Act.segment plain (.created direct)).run s = (.ok (.finished none), s) := by
    show (beginRun plain direct).run s = _
    unfold beginRun
    rw [run_machine_bind, live.loaded]
    simp only [Bool.not_true, Bool.false_eq_true, if_false, completed, if_true]
    rfl
  exact live.segment_of_ok ends

end Session

end Runloop
