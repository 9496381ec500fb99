/-
# Steps

A step runs one unit of work to its end.  Since every pause on the way brings the
program nearer to its end, there are only finitely many (`OnTime.works`): the loop
of a step is never cut short (`Works.loop`), and what a step comes to is written
down in full (`run_step`).  A step that leaves work to be done has brought the
program nearer to its end itself, so whoever keeps taking steps is done at some
point (`OnTime.steps`).
-/
import Runloop.Proofs.Height

namespace Runloop

/-! ## Units of work -/

/-- A unit of work is run to its end, with a pause after each segment but the last. -/
inductive Session.Works (delay : Double) : Session → Session → Prop
  | ends {s t : Session} : (Act.advance Act.plain).run s = (.ok false, t) → Works delay s t
  | pauses {s t u : Session} : (Act.advance Act.plain).run s = (.ok true, t) →
      Works delay (t.elapsed delay) u → Works delay s u

/-- One segment of a step, and the pause after it. -/
def Act.stepping (delay : Double) : Act Bool := do
  if ← advance plain then
    elapse plain delay
    return true
  else return false

theorem Act.run_elapse (s : Session) (delay : Double) :
    (elapse plain delay).run s = (.ok ⟨⟩, s.elapsed delay) := by
  obtain ⟨t, run, -⟩ := fireUntil_fires (s.clock.after delay) s
  unfold elapse Session.elapsed Session.waited
  rw [run_get_bind, run]
  cases s.realtime with
  | true => rfl
  | false => exact run

/-- A session with a unit of work to run. -/
structure Session.Busy (delay : Double) (s : Session) : Prop where
  paced : s.Paced delay
  on : s.phase ≠ .completed
  unit : s.machine.unit.isSome

theorem Session.Paced.ready {s : Session} {delay : Double} (h : s.Paced delay)
    (on : s.phase ≠ .completed) : s.ready.Busy delay := by
  obtain ⟨u, hu⟩ := s.ready_unit
  refine ⟨h.strides (ready_strides on), ?_, by simp [hu]⟩
  rwa [ready_phase]

theorem Session.elapsed_turns (s : Session) (delay : Double) : s.Turns Eq (s.elapsed delay) := by
  have stays := (Act.stays_elapse delay s).after
  rwa [Act.run_elapse] at stays

namespace Session.Busy

open Act

variable {s t : Session} {delay : Double}

/-- A segment ends the unit of work, or pauses and has brought the program nearer to
its end, also when the pause is over. -/
theorem advance (h : s.Busy delay) :
    ∃ again t, (Act.advance plain).run s = (.ok again, t) ∧ Stride s t ∧
      s.Turns Seat.Settled t ∧ (t.phase ≠ .completed → t.height < s.height) ∧
      (again = true → t.phase ≠ .completed ∧ t.Paced delay ∧ (t.elapsed delay).Busy delay ∧
        (t.elapsed delay).height < s.height) ∧
      (again = false → t.machine.unit = none) := by
  obtain ⟨u, hu⟩ := Option.isSome_iff_exists.mp h.unit
  obtain ⟨again, t, run, -, goesOn, ends⟩ := advance_tick (h.paced.live.steady h.on) h.on hu
  have stride := Stride.advance h.on hu
  have settles := (settles_advance s).after
  rw [run] at stride settles
  have lowers := advance_lowers h.paced.live h.on hu run
  refine ⟨again, t, run, stride, settles, lowers, fun pauses => ?_, ends⟩
  obtain ⟨unit, still⟩ := goesOn pauses
  have after := h.paced.stride stride
  have busy : (t.elapsed delay).Busy delay := by
    refine ⟨after.strides (after.elapsed_strides still), ?_, ?_⟩
    · rwa [phase, elapsed_machine]
    · rwa [elapsed_machine]
  exact ⟨still, after, busy, lt_of_le_of_lt (after.height_elapsed still) (lowers still)⟩

/-- A unit of work comes to its end. -/
theorem works (h : s.Busy delay) : ∃ t, Works delay s t := by
  induction lower : s.height using WellFoundedLT.induction generalizing s with
  | ind height ih =>
      obtain ⟨again, t, run, -, -, -, pauses, -⟩ := h.advance
      cases again with
      | false => exact ⟨t, .ends run⟩
      | true =>
          obtain ⟨-, -, busy, below⟩ := pauses rfl
          obtain ⟨w, works⟩ := ih _ (lower ▸ below) busy rfl
          exact ⟨w, .pauses run works⟩

end Session.Busy

namespace Session.Works

open Act

variable {s t : Session} {delay : Double}

theorem strides (w : Works delay s t) (h : s.Busy delay) :
    Strides s t ∧ t.machine.unit = none ∧ s.Turns Seat.Settled t ∧
      (t.phase ≠ .completed → t.height < s.height) := by
  induction w with
  | @ends s t run =>
      obtain ⟨_, _, run', stride, settles, lowers, -, none⟩ := h.advance
      cases run.symm.trans run'
      exact ⟨.single stride, none rfl, settles, lowers⟩
  | @pauses s t v run works ih =>
      obtain ⟨_, _, run', stride, settles, -, pauses, -⟩ := h.advance
      cases run.symm.trans run'
      obtain ⟨still, paced, busy, below⟩ := pauses rfl
      obtain ⟨strides, none, turns, lower⟩ := ih busy
      have path : Strides s v := (paced.elapsed_strides still).head stride |>.trans strides
      have waits : t.Turns Seat.Settled (t.elapsed delay) :=
        (t.elapsed_turns delay).mono fun same => .inl same.symm
      exact ⟨path, none, settles.trans (waits.trans turns), fun on => (lower on).trans below⟩

/-- The loop of a step runs the unit of work to its end; it never gives up. -/
theorem loop (w : Works delay s t) (h : s.Busy delay) :
    (Act.loop Session.rank (stepping delay)).run s = (.ok ⟨⟩, t) := by
  induction w with
  | @ends s t run =>
      have stops : (stepping delay).run s = (.ok false, t) := by
        unfold stepping
        rw [run_bind_ok run]
        rfl
      rw [run_loop, stops]
  | @pauses s t v run works ih =>
      obtain ⟨_, _, run', -, -, -, pauses, -⟩ := h.advance
      cases run.symm.trans run'
      obtain ⟨-, -, busy, below⟩ := pauses rfl
      have paused : (stepping delay).run s = (.ok true, t.elapsed delay) := by
        unfold stepping
        rw [run_bind_ok run]
        show (elapse plain delay >>= fun _ => pure true : Act Bool).run t = _
        rw [run_bind_ok (run_elapse t delay)]
        rfl
      have hooks : (t.elapsed delay).hooks = s.hooks :=
        busy.paced.live.hooks.trans h.paced.live.hooks.symm
      rw [run_loop, paused]
      dsimp only
      rw [if_pos (rank_lt hooks below)]
      exact ih busy

/-- A unit of work comes to one end only. -/
theorem unique {u : Session} (w : Works delay s t) (w' : Works delay s u) : t = u := by
  induction w with
  | ends run =>
      cases w' with
      | ends run' => cases run.symm.trans run'; rfl
      | pauses run' => cases run.symm.trans run'
  | pauses run _ ih =>
      cases w' with
      | ends run' => cases run.symm.trans run'
      | pauses run' works' => cases run.symm.trans run'; exact ih works'

end Session.Works

/-- A pass that finds no task lets time pass, and that is all. -/
theorem Session.Drained.works {s : Session} (h : s.Drained) (virtual : s.realtime = false)
    (delay : Double) : s.ready.Works delay ((s.idling.waited delay).holding none) := by
  have waits : s.idling.elapsed delay = s.idling.waited delay := by
    rw [elapsed, idling, h.ready_eq, if_neg]
    show ¬ s.realtime = true
    simp [virtual]
  refine .pauses h.advance_ready (.ends ?_)
  rw [waits]
  exact Drained.advance_idling s delay

/-! ## Steps -/

namespace Session

/-- The session of which a step is taken: it is not idle any more. -/
def held (s : Session) : Session := if s.phase = .idle then s.inPhase .paused else s

/-- The session with its program ended if no work is left, and whether some is. -/
def settled (s : Session) : Bool × Session :=
  if s.phase = .completed then (false, s)
  else if s.hasMore then (true, s)
  else (false, ((Act.finish Act.plain).run s).2)

/-- A step may be taken unless a run is under way. -/
def Steppable (s : Session) : Prop := ¬ (s.phase = .running ∧ s.machine.runActive = true)

variable {s t : Session} {delay : Double}

theorem held_phase (on : s.phase ≠ .completed) : s.held.phase ≠ .completed := by
  unfold held
  split
  · exact nofun
  · exact on

theorem held_strides (on : s.phase ≠ .completed) : Strides s s.held := by
  unfold held
  split
  · have stride : Stride s ((Act.setPhase Act.plain .paused).run s).2 := .phase nofun on
    rw [Act.run_setPhase] at stride
    exact .single stride
  · exact .refl

theorem height_held (s : Session) : s.held.height = s.height := by
  unfold held
  split <;> rfl

theorem ready_seat (s : Session) : s.ready.seat = s.seat := by
  unfold ready
  cases s.machine.unit <;> rfl

theorem Steppable.held (may : s.Steppable) : s.held.Steppable := by
  unfold Session.held
  split
  · exact fun running => nomatch running.1
  · exact may

theorem Steppable.of_seat (may : s.Steppable) (seat : t.seat = s.seat) : t.Steppable := by
  intro running
  have phase : t.phase = s.phase := congrArg Seat.phase seat
  have active : t.machine.runActive = s.machine.runActive := congrArg Seat.runActive seat
  rw [phase, active] at running
  exact may running

end Session

namespace Act

variable {s t : Session} {delay : Double}

theorem run_number {α : Type} {r : Except NumberFault α} {a : α} (h : r = .ok a) :
    (number r).run s = (.ok a, s) := by
  subst h
  rfl

theorem run_pacing (pace : Number.quotient s.store.speed 1000 = .ok delay) :
    pacing.run s = (.ok delay, s) := by
  have stored : store.run s = (.ok s.store, s) := rfl
  unfold pacing
  rw [run_bind, stored]
  exact run_number pace

theorem run_nextUnit_of_none (hu : s.machine.unit = none) : nextUnit.run s = (.ok ⟨⟩, s.ready) := by
  have ready : (nextUnit.run s).2 = s.ready := by
    rw [run_nextUnit, Session.ready, hu]
  rw [← ready]
  rfl

/-- At the end of a step a program without work left is ended. -/
theorem run_afterUnit {generation : Nat} (none : t.machine.unit = none)
    (current : t.machine.generation = generation) :
    (afterUnit plain generation).run t = (.ok t.settled.1, t.settled.2) := by
  unfold afterUnit
  rw [run_get_bind]
  unfold Session.settled
  by_cases completed : t.phase = .completed
  · have completed' : t.machine.phase = .completed := completed
    simp only [completed, completed', decide_true, Bool.or_true, if_true]
    rfl
  · have completed' : t.machine.phase ≠ .completed := completed
    simp only [completed, completed', current, decide_false, ne_eq, not_true_eq_false,
      Bool.or_false, if_false, Bool.false_eq_true]
    cases more : t.hasMore with
    | true => rfl
    | false =>
        obtain ⟨_, w, finishes, -⟩ := (ends_finish (E := fun _ _ => False) none).exists_ok
        simp only [Bool.false_eq_true, if_false]
        rw [run_bind_ok finishes, finishes]
        rfl

/-- What is left of a step is a unit of work that is run to its end. -/
theorem run_stepUnit (h : s.Paced delay) (on : s.phase ≠ .completed) :
    ∃ t, s.ready.Works delay t ∧ (stepUnit plain).run s = (.ok t.settled.1, t.settled.2) := by
  have busy := h.ready on
  obtain ⟨t, works⟩ := busy.works
  obtain ⟨strides, none, turns, -⟩ := works.strides busy
  have generation : t.machine.generation = s.machine.generation :=
    turns.seat.generation.trans (congrArg Seat.generation s.ready_seat)
  have loops := works.loop busy
  refine ⟨t, works, ?_⟩
  have rest := run_afterUnit none generation
  unfold stepUnit
  rw [run_bind_ok (run_pacing h.pacing), run_machine_bind, run_machine_bind]
  cases taken : s.machine.unit with
  | some u =>
      have same : s.ready = s := by rw [Session.ready, taken]
      rw [same] at loops
      show (loop Session.rank (stepping delay) >>= fun _ => _).run s = _
      exact (run_bind_ok loops).trans rest
  | none =>
      show (nextUnit >>= fun _ => loop Session.rank (stepping delay) >>= fun _ => _).run s = _
      rw [run_bind_ok (run_nextUnit_of_none taken)]
      exact (run_bind_ok loops).trans rest

/-- A step of a program that was idle first pauses it. -/
theorem run_step_eq (live : s.Live) (on : s.phase ≠ .completed) (may : s.Steppable) :
    (step plain).run s = (stepUnit plain).run s.held := by
  have on : s.machine.phase ≠ .completed := on
  have free : (decide (s.machine.phase = .running) && s.machine.runActive) = false := by
    unfold Session.Steppable at may
    simpa [Session.phase] using may
  unfold step
  rw [run_machine_bind, live.loaded, free]
  simp only [Bool.not_true, Bool.false_eq_true, if_false, on]
  unfold Session.held
  by_cases idle : s.phase = .idle
  · have idle' : s.machine.phase = .idle := idle
    rw [if_pos idle, if_pos idle', run_bind_ok (run_setPhase .paused)]
    rfl
  · have idle' : s.machine.phase ≠ .idle := idle
    rw [if_neg idle, if_neg idle']
    rfl

/-- So is a step. -/
theorem run_step (h : s.Paced delay) (on : s.phase ≠ .completed) (may : s.Steppable) :
    ∃ t, s.held.ready.Works delay t ∧ (step plain).run s = (.ok t.settled.1, t.settled.2) := by
  rw [run_step_eq h.live on may]
  exact run_stepUnit (h.strides (Session.held_strides on)) (Session.held_phase on)

end Act

namespace Session

open Act

variable {s t : Session} {delay : Double}

/-- A program that is not over and has work left after a unit of work has come
nearer to its end. -/
theorem Works.lowers (w : s.ready.Works delay t) (h : s.OnTime delay) (on : s.phase ≠ .completed)
    (more : t.settled.1 = true) : t.height < s.height := by
  have busy := h.paced.ready on
  have still : t.phase ≠ .completed := by
    intro completed
    rw [settled, if_pos completed] at more
    cases more
  -- a drained session pauses once before it waits, so both steps are taken together
  by_cases drained : s.Drained
  · have idlingOn : s.idling.phase ≠ .completed := s.ready_phase ▸ on
    have idling := h.strides (advance_strides on drained.advance_ready)
    have waited : s.idling.elapsed delay = s.idling.waited delay := idling.elapsed idlingOn
    obtain rfl := w.unique (drained.works ((h.timely on).virtual) delay)
    have left : ((s.idling.waited delay).holding none).hasMore = true := by
      unfold settled at more
      rw [if_neg still] at more
      by_contra done
      rw [if_neg done] at more
      cases more
    have after := idling.strides (idling.paced.elapsed_strides idlingOn)
    rw [waited] at after
    have afterOn : (s.idling.waited delay).phase ≠ .completed := by
      rwa [phase, waited_machine]
    calc _ < (s.idling.waited delay).height := advance_lowers after.live afterOn
          (s.idling_waited_unit delay) (Drained.advance_idling s delay) still
      _ < s.height := drained_lowers h on drained (drained.waiting_of_hasMore left)
  · cases w with
    | ends run => exact ready_lowers h.live on drained run still
    | @pauses _ v _ run works =>
        obtain ⟨_, _, run', -, -, -, pauses, -⟩ := busy.advance
        cases run.symm.trans run'
        obtain ⟨pausedOn, paced, next, -⟩ := pauses rfl
        calc t.height < (v.elapsed delay).height := (works.strides next).2.2.2 still
          _ ≤ v.height := paced.height_elapsed pausedOn
          _ < s.height := ready_lowers h.live on drained run pausedOn

/-- A step answers that work is left, and has brought the program nearer to its
end, or the program is over. -/
theorem OnTime.step (h : s.OnTime delay) (on : s.phase ≠ .completed) (may : s.Steppable) :
    ∃ more t, (Act.step plain).run s = (.ok more, t) ∧ Strides s t ∧
      if more then t.phase ≠ .completed ∧ t.Steppable ∧ t.height < s.height
      else t.phase = .completed := by
  obtain ⟨t, works, run⟩ := run_step h.paced on may
  have held := h.strides (held_strides on)
  have heldOn := held_phase on
  obtain ⟨strides, none, turns, -⟩ := works.strides (held.paced.ready heldOn)
  have path : Strides s t := (held_strides on).trans ((ready_strides heldOn).trans strides)
  refine ⟨_, _, run, ?_⟩
  by_cases completed : t.phase = .completed
  · rw [settled, if_pos completed]
    exact ⟨path, completed⟩
  · cases more : t.hasMore with
    | true =>
        have seat : t.seat = s.held.seat := (turns.seat.eq completed).trans s.held.ready_seat
        have lower := works.lowers held heldOn (by simp [settled, completed, more])
        rw [height_held] at lower
        rw [settled, if_neg completed, if_pos more]
        exact ⟨path, completed, may.held.of_seat seat, lower⟩
    | false =>
        obtain ⟨_, v, finishes, -, -, -, ended⟩ :=
          (ends_finish (E := fun _ _ => False) none).exists_ok
        have stride := Stride.finish completed more
        rw [settled, if_neg completed, if_neg (by simp [more])]
        refine ⟨path.tail stride, ?_⟩
        rw [finishes]
        exact ended

theorem run_stepSession (live : s.Live) :
    (s.run fun host => stepSession host) = (Act.step plain).run s := by
  rw [run_eq live.hooks]
  unfold stepSession
  rw [run_machine_bind, live.loaded]
  rfl

theorem run_step_completed (live : s.Live) (completed : s.phase = .completed) :
    (Act.step plain).run s = (.ok false, s) := by
  have completed : s.machine.phase = .completed := completed
  unfold Act.step
  rw [run_machine_bind, live.loaded]
  simp only [Bool.not_true, Bool.false_eq_true, if_false, completed, if_true]
  rfl

/-- Whoever keeps taking steps comes to the end of the program. -/
theorem OnTime.steps (h : s.OnTime delay) (may : s.Steppable) :
    ∃ n t, s.steps (n + 1) = (.ok (List.replicate n true ++ [false]), t) ∧ t.phase = .completed := by
  induction lower : s.height using WellFoundedLT.induction generalizing s with
  | ind height ih =>
      have last {t : Session} (run : (Act.step plain).run s = (.ok false, t)) :
          s.steps 1 = (.ok [false], t) := by
        unfold Session.steps
        rw [run_stepSession h.live, run]
      by_cases completed : s.phase = .completed
      · exact ⟨0, s, last (run_step_completed h.live completed), completed⟩
      · obtain ⟨more, t, run, path, after⟩ := h.step completed may
        cases more with
        | false => exact ⟨0, t, last run, after⟩
        | true =>
            obtain ⟨-, may, below⟩ := after
            obtain ⟨n, u, rest, ended⟩ := ih _ (lower ▸ below) (h.strides path) may rfl
            refine ⟨n + 1, u, ?_, ended⟩
            unfold Session.steps
            rw [run_stepSession h.live, run]
            dsimp only
            rw [rest]
            rfl

theorem control_step (live : s.Live) {more : Bool}
    (run : (Act.step Act.plain).run s = (.ok more, t)) :
    s.control .step = (.ok (.bool more), t) := by
  rw [← run_stepSession live, run_eq live.hooks] at run
  unfold control
  rw [run_eq live.hooks]
  show (Act.stepSession Act.plain >>= fun more => pure (Act.Answer.bool more)).run s = _
  rw [Act.run_bind_ok run]
  rfl

/-- A step whose unit of work does not pause. -/
theorem Paced.step_of_advance (h : s.Paced delay) (on : s.phase ≠ .completed) (may : s.Steppable)
    (run : (Act.advance plain).run s.held.ready = (.ok false, t)) :
    s.control .step = (.ok (.bool t.settled.1), t.settled.2) := by
  obtain ⟨u, works, steps⟩ := run_step h on may
  cases works.unique (.ends run)
  exact control_step h.live steps

end Session

end Runloop
