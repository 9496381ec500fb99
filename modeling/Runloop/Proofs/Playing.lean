/-
# Programs that are played to their end

A program that was just loaded may be stepped to its end or run to its end
(`Session.SteppedTo`, `Session.RanTo`), and always can (`drive_to_end`).

What it comes to can be computed.  Steps and runs are loops that go on as long as a
measure falls, which says nothing about how long that is; if it is known how often
they go round they are played by functions that count (`Session.stepPlay`,
`Session.runPlay`), and where these come to an end, the loops come to the same.
-/
import Runloop.Proofs.Ending

namespace Runloop

/-! ## To the end -/

namespace Session

open Act

variable {s t u : Session} {delay : Double} {direct : Bool}

/-- Steps were taken until one answered that no work is left. -/
def SteppedTo (s t : Session) : Prop :=
  ∃ n, s.steps (n + 1) = (.ok (List.replicate n true ++ [false]), t)

/-- The segments of a run were run until it had ended. -/
def RanTo (direct : Bool) (s t : Session) : Prop :=
  ∃ n, (fun p : RunState × Session => p.2.segment p.1)^[n] (.created direct, s) = (.finished none, t)

theorem steps_last (live : s.Live) :
    s.steps 1 = (.ok [false], t) ↔ (Act.step plain).run s = (.ok false, t) := by
  unfold steps
  rw [run_stepSession live]
  rcases ((Act.step plain).run s : Except Fault Bool × Session) with ⟨fault | more, v⟩
  · constructor <;> rintro ⟨⟩
  · cases more with
    | false =>
        constructor <;>
        · rintro ⟨⟩
          rfl
    | true => constructor <;> rintro ⟨⟩

theorem steps_more (live : s.Live) {n : Nat} {answers : List Bool} :
    s.steps (n + 2) = (.ok (true :: answers), t) ↔
      ∃ v, (Act.step plain).run s = (.ok true, v) ∧ v.steps (n + 1) = (.ok answers, t) := by
  rw [steps, run_stepSession live]
  constructor
  · intro run
    rcases step : ((Act.step plain).run s : Except Fault Bool × Session) with ⟨fault | more, v⟩
    · rw [step] at run
      cases run
    · rw [step] at run
      cases more with
      | false => cases run
      | true =>
          refine ⟨v, rfl, ?_⟩
          dsimp only at run
          rcases rest : v.steps (n + 1) with ⟨fault | rest, w⟩
          · rw [rest] at run
            cases run
          · rw [rest] at run
            cases run
            rfl
  · rintro ⟨v, run, rest⟩
    rw [run]
    dsimp only
    rw [rest]
    rfl

/-- The steps of a program that are taken until no work is left end it. -/
theorem OnTime.of_steppedTo (h : s.OnTime delay) (may : s.Steppable) (stepped : s.SteppedTo t) :
    Strides s t ∧ t.phase = .completed := by
  obtain ⟨n, steps⟩ := stepped
  induction n generalizing s with
  | zero =>
      have last := (steps_last h.live).mp steps
      by_cases completed : s.phase = .completed
      · rw [run_step_completed h.live completed] at last
        cases last
        exact ⟨.refl, completed⟩
      · obtain ⟨_, _, run, path, after⟩ := h.step completed may
        cases last.symm.trans run
        exact ⟨path, after⟩
  | succ n ih =>
      obtain ⟨v, more, rest⟩ := (steps_more h.live).mp steps
      have on : s.phase ≠ .completed := by
        intro completed
        cases more.symm.trans (run_step_completed h.live completed)
      obtain ⟨_, _, run, path, after⟩ := h.step on may
      cases more.symm.trans run
      obtain ⟨strides, completed⟩ := ih (h.strides path) after.2.1 rest
      exact ⟨path.trans strides, completed⟩

theorem iterate_segment_strides (live : s.Live) (state : RunState) (n : Nat) :
    Strides s ((fun p : RunState × Session => p.2.segment p.1)^[n] (state, s)).2 := by
  induction n with
  | zero => exact .refl
  | succ n ih =>
      rw [Function.iterate_succ_apply']
      exact ih.trans (segment_strides (ih.live live) _)

/-- So do the segments of a run. -/
theorem OnTime.of_ranTo (h : s.OnTime delay) (free : s.machine.runActive = false)
    (ran : s.RanTo direct t) : Strides s t ∧ t.phase = .completed := by
  have finished {n : Nat} {t : Session} (ran : (fun p : RunState × Session => p.2.segment p.1)^[n]
      (.created direct, s) = (.finished none, t)) :
      Strides s t ∧ t.segment (.finished none) = (.finished none, t) := by
    have path := iterate_segment_strides h.live (.created direct) n
    rw [ran] at path
    exact ⟨path, (path.live h.live).segment_of_ok rfl⟩
  obtain ⟨m, u, ends, completed⟩ := h.run free direct
  obtain ⟨n, ran⟩ := ran
  obtain ⟨path, stays⟩ := finished ran
  refine ⟨path, ?_⟩
  -- a run that has ended stays as it is, so both have ended alike
  suffices same : t = u from same ▸ completed
  rcases Nat.le_total n m with le | le
  · obtain ⟨k, rfl⟩ := Nat.exists_eq_add_of_le' le
    rw [Function.iterate_add_apply, ran, Function.iterate_fixed stays] at ends
    exact congrArg Prod.snd ends
  · obtain ⟨k, rfl⟩ := Nat.exists_eq_add_of_le' le
    rw [Function.iterate_add_apply, ends, Function.iterate_fixed (finished ends).2] at ran
    exact (congrArg Prod.snd ran).symm

/-- At a pacing delay past the range of doubles a step faults. -/
theorem converts_of_step (live : s.Live) (on : s.phase ≠ .completed) (may : s.Steppable)
    {more : Bool} (run : (Act.step plain).run s = (.ok more, t)) :
    ∃ delay, Number.quotient s.store.speed 1000 = .ok delay := by
  cases converts : Number.quotient s.store.speed 1000 with
  | ok delay => exact ⟨delay, rfl⟩
  | error fault =>
      have speed : s.held.store.speed = s.store.speed := by
        unfold held
        split <;> rfl
      have stored : Act.store.run s.held = (.ok s.held.store, s.held) := rfl
      have faults : pacing.run s.held = (.error (.number fault), s.held) := by
        unfold pacing
        rw [run_bind_ok stored, speed, converts]
        rfl
      rw [run_step_eq live on may, stepUnit, run_bind_error faults] at run
      cases run

theorem converts_of_steppedTo (live : s.Live) (on : s.phase ≠ .completed) (may : s.Steppable)
    (stepped : s.SteppedTo t) : ∃ delay, Number.quotient s.store.speed 1000 = .ok delay := by
  obtain ⟨n, steps⟩ := stepped
  cases n with
  | zero => exact converts_of_step live on may ((steps_last live).mp steps)
  | succ n =>
      obtain ⟨v, run, -⟩ := (steps_more live).mp steps
      exact converts_of_step live on may run

section Loaded

variable {source : String} {limits : Limits} {speed : Int}

theorem loaded_steppable
    (loads : (create speed limits false).control (.load source) = (.ok (.bool true), s)) :
    s.Steppable := by
  obtain ⟨-, -, -, -, -, idle, -⟩ := loaded_eq loads
  intro running
  rw [idle] at running
  cases running.1

/-- A program that was just loaded is stepped to its end, and is run to its end. -/
theorem drive_to_end
    (loads : (create speed limits false).control (.load source) = (.ok (.bool true), s))
    (converts : Number.quotient speed 1000 = .ok delay) (direct : Bool) :
    (∃ t, s.SteppedTo t) ∧ ∃ u, s.RanTo direct u := by
  have onTime := loaded_onTime loads converts
  obtain ⟨-, -, -, -, -, -, free, -⟩ := loaded_eq loads
  obtain ⟨n, t, stepped, -⟩ := onTime.steps (loaded_steppable loads)
  obtain ⟨m, u, ran, -⟩ := onTime.run free direct
  exact ⟨⟨t, n, stepped⟩, u, m, ran⟩

/-- Both ways are ways to an end. -/
theorem driven_to_end
    (loads : (create speed limits false).control (.load source) = (.ok (.bool true), s))
    (stepped : s.SteppedTo t) (ran : s.RanTo direct u) :
    (Strides s t ∧ t.phase = .completed) ∧ Strides s u ∧ u.phase = .completed := by
  obtain ⟨live, -, -, rfl, -, idle, free, -⟩ := loaded_eq loads
  obtain ⟨delay, converts⟩ := converts_of_steppedTo live (by simp [idle]) (loaded_steppable loads)
    stepped
  have onTime := loaded_onTime loads converts
  exact ⟨onTime.of_steppedTo (loaded_steppable loads) stepped, onTime.of_ranTo free ran⟩

end Loaded

/-! ## Counted -/

/-- Timers come due one after the other, and the time that comes at last; at most so
many are fired. -/
def firing (target : Double) : Nat → Session → Session
  | 0, s => s
  | n + 1, s =>
    match s.clock.pop? target with
    | none => { s with clock := { s.clock with now := target } }
    | some (timer, clock) => firing target n (s.passed timer clock)

theorem run_fireUntil_firing {target : Double} {n : Nat} (enough : s.clock.queue.length < n) :
    (fireUntil plain target).run s = (.ok ⟨⟩, s.firing target n) := by
  induction n generalizing s with
  | zero => exact absurd enough (Nat.not_lt_zero _)
  | succ n ih =>
      rw [run_fireUntil, firing]
      cases popped : s.clock.pop? target with
      | none => rfl
      | some next =>
          have shorter := Clock.length_pop? popped
          refine ih ?_
          rw [passed_clock]
          omega

/-- The session when a delay has passed. -/
def aged (s : Session) (delay : Double) : Session :=
  s.firing (s.clock.after delay) (s.clock.queue.length + 1)

theorem waited_eq (s : Session) (delay : Double) : s.waited delay = s.aged delay := by
  rw [waited, run_fireUntil_firing (Nat.lt_succ_self _)]
  rfl

/-- A unit of work is run to its end, in at most so many segments. -/
def unitPlay (delay : Double) : Nat → Session → Option Session
  | 0, _ => none
  | n + 1, s =>
    match (Act.advance plain).run s with
    | (.ok true, t) => unitPlay delay n (if t.realtime then t else t.aged delay)
    | (.ok false, t) => some t
    | (.error _, _) => none

theorem works_of_unitPlay {n : Nat} (played : s.unitPlay delay n = some t) : s.Works delay t := by
  induction n generalizing s with
  | zero => cases played
  | succ n ih =>
      unfold unitPlay at played
      split at played
      · rename_i v run
        refine .pauses run (ih ?_)
        rwa [elapsed, waited_eq]
      · rename_i v run
        cases played
        exact .ends run
      · cases played

/-- Steps are taken until no work is left, at most `n` with at most `m` segments. -/
def stepPlay (delay : Double) (m : Nat) : Nat → Session → Option Session
  | 0, _ => none
  | n + 1, s =>
    match s.held.ready.unitPlay delay m with
    | none => none
    | some t => if t.settled.1 then stepPlay delay m n t.settled.2 else some t.settled.2

theorem OnTime.steppedTo {n m : Nat} (h : s.OnTime delay) (on : s.phase ≠ .completed)
    (may : s.Steppable) (played : s.stepPlay delay m n = some t) : s.SteppedTo t := by
  induction n generalizing s with
  | zero => cases played
  | succ n ih =>
      unfold stepPlay at played
      split at played
      · cases played
      · rename_i v unit
        obtain ⟨w, works, run⟩ := run_step h.paced on may
        cases works.unique (works_of_unitPlay unit)
        obtain ⟨_, _, run', path, after⟩ := h.step on may
        cases run.symm.trans run'
        split at played
        · rename_i more
          rw [more] at run after
          obtain ⟨k, steps⟩ := ih (h.strides path) after.1 after.2.1 played
          exact ⟨k + 1, (steps_more h.live).mpr ⟨_, run, steps⟩⟩
        · rename_i done
          cases played
          rw [Bool.eq_false_iff.mpr done] at run
          exact ⟨0, (steps_last h.live).mpr run⟩

/-- A turn of a run. -/
def turnPlay (s : Session) (delay : Double) : Bool × Session :=
  if s.hasMore then
    let t := ((Act.advance plain).run s.ready).2
    if t.phase = .completed then (false, t)
    else (true, if !t.realtime || Double.zero.lt delay then t.aged delay else t)
  else (false, ((Act.finish plain).run s).2)

theorem turned_eq (s : Session) (delay : Double) : s.turned delay = s.turnPlay delay := by
  simp only [turned, rested, waited_eq]
  rfl

/-- A run goes on until it has ended, for at most so many turns. -/
def runPlay (delay : Double) : Nat → Session → Option Session
  | 0, _ => none
  | n + 1, s =>
    match s.turnPlay delay with
    | (true, t) => runPlay delay n t
    | (false, t) => some t.vacated

theorem OnTime.run_of_runPlay {n : Nat} (h : s.OnTime delay) (running : s.phase = .running)
    (played : s.runPlay delay n = some t) :
    ∃ m, (fun p : RunState × Session => p.2.segment p.1)^[m] (s.ran delay) =
      (.finished none, t) := by
  induction n generalizing s with
  | zero => cases played
  | succ n ih =>
      unfold runPlay at played
      rw [← turned_eq] at played
      split at played
      · rename_i v turned
        have ran : s.ran delay = (.sleeping s.machine.generation, v) := by
          rw [Session.ran, turned]
          rfl
        rcases h.ran (by simp [running]) with ⟨w, ran', after, seat, -⟩ | ⟨w, ran', -⟩
        · obtain rfl : v = w := congrArg Prod.snd (ran.symm.trans ran')
          have still : v.phase = .running := (congrArg Seat.phase seat).trans running
          have segment := after.paced.segment_sleeping (by simp [still]) (by simp [still])
          obtain ⟨m, rest⟩ := ih after still played
          refine ⟨m + 1, ?_⟩
          rw [ran', Function.iterate_succ_apply, segment]
          exact rest
        · cases ran.symm.trans ran'
      · rename_i v turned
        cases played
        refine ⟨0, ?_⟩
        rw [Function.iterate_zero_apply, Session.ran, turned]
        rfl

theorem OnTime.ranTo {n : Nat} (h : s.OnTime delay) (on : s.phase ≠ .completed)
    (free : s.machine.runActive = false) (played : s.seated.runPlay delay n = some t) :
    s.RanTo direct t := by
  obtain ⟨m, run⟩ := (h.strides (seated_strides on)).run_of_runPlay rfl played
  refine ⟨m + 1, ?_⟩
  rw [Function.iterate_succ_apply, h.paced.segment_created on free direct]
  exact run

section Loaded

variable {α : Type} {f : Session → α} {a : α} {source : String} {limits : Limits} {speed : Int}
  {n m : Nat}

theorem steppedTo_of_stepPlay
    (loads : (create speed limits false).control (.load source) = (.ok (.bool true), s))
    (converts : Number.quotient speed 1000 = .ok delay)
    (played : (s.stepPlay delay m n).map f = some a) : ∃ t, s.SteppedTo t ∧ f t = a := by
  obtain ⟨-, -, -, -, -, idle, -⟩ := loaded_eq loads
  obtain ⟨t, played, seen⟩ := Option.map_eq_some_iff.mp played
  have onTime := loaded_onTime loads converts
  exact ⟨t, onTime.steppedTo (by simp [idle]) (loaded_steppable loads) played, seen⟩

theorem ranTo_of_runPlay
    (loads : (create speed limits false).control (.load source) = (.ok (.bool true), s))
    (converts : Number.quotient speed 1000 = .ok delay)
    (played : (s.seated.runPlay delay n).map f = some a) : ∃ t, s.RanTo direct t ∧ f t = a := by
  obtain ⟨-, -, -, -, -, idle, free, -⟩ := loaded_eq loads
  obtain ⟨t, played, seen⟩ := Option.map_eq_some_iff.mp played
  exact ⟨t, (loaded_onTime loads converts).ranTo (by simp [idle]) free played, seen⟩

end Loaded

end Session

end Runloop
