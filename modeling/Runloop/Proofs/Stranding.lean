/-
# Changing the pacing delay

How long a task waits is settled when its timer is set, by the pacing delay of that
moment; how much time a pass over the event loop lets pass is settled by the pacing
delay when it is made.  So tasks never wait longer than the longest pacing delay
there has been (`Timely.retuned`).  A pass that finds nothing to run calls back the
tasks whose time has come by then (`Paced.step_drained`), which are all of them as
long as the pacing delay was never longer than now; but if it was, a task may be left
for which no time passes any more (`Session.Stalled`), and then every step answers
that work is left.
-/
import Runloop.Proofs.Ending

namespace Runloop

open Relation (ReflTransGen)

namespace Session

open Act

variable {s t : Session} {ceiling : Int} {wait delay : Double}

/-! ## Speeds -/

/-- The session is driven, or its pacing delay is set to at most `ceiling`. -/
inductive Retunes (ceiling : Int) (s : Session) : Session → Prop
  | driven {t : Session} : s.Drives t → Retunes ceiling s t
  | speed (speed : Int) : max 0 speed ≤ ceiling →
      Retunes ceiling s (s.control (.setSpeed speed)).2

/-- A program whose tasks wait for no longer than `wait`, as long as it is not
over. -/
structure Bounded (ceiling : Int) (wait : Double) (s : Session) : Prop where
  live : s.Live
  timely : s.phase ≠ .completed → s.Timely ceiling wait

theorem Bounded.retunes (converts : Number.quotient ceiling 1000 = .ok wait)
    (h : s.Bounded ceiling wait) (retunes : s.Retunes ceiling t) : t.Bounded ceiling wait := by
  cases retunes with
  | driven d =>
      have path := d.strides h.live
      exact ⟨path.live h.live, (Timely.timing converts).strides h.live path h.timely⟩
  | speed speed within =>
      rw [control_setSpeed h.live.hooks]
      refine ⟨h.live.setSpeed speed, fun on => ?_⟩
      obtain ⟨clock, virtual, -, armed⟩ := h.timely (by rwa [phase, publish_machine] at on)
      exact ⟨clock, virtual, within, armed⟩

theorem Bounded.retuned (converts : Number.quotient ceiling 1000 = .ok wait)
    (h : s.Bounded ceiling wait) (retuned : ReflTransGen (Retunes ceiling) s t) :
    t.Bounded ceiling wait := by
  induction retuned with
  | refl => exact h
  | tail _ retunes ih => exact ih.retunes converts retunes

theorem loaded_bounded {speed : Int} {limits : Limits} {source : String}
    (loads : (create speed limits false).control (.load source) = (.ok (.bool true), s))
    (within : speed ≤ ceiling) : s.Bounded ceiling wait := by
  obtain ⟨live, clock, virtual, rfl, loop, -⟩ := loaded_eq loads
  refine ⟨live, fun _ => ⟨?_, virtual, within, ?_⟩⟩
  · rw [clock]
    exact .starting rfl
  · rw [loop]
    exact fun _ there => nomatch there

/-! ## Passes that find nothing to run -/

/-- The session after a step that has found nothing to run. -/
def lapsed (s : Session) (delay : Double) : Session := (s.held.idling.waited delay).holding none

theorem held_loop (s : Session) : s.held.store.state.loop = s.store.state.loop := by
  unfold held
  split <;> rfl

theorem held_clock (s : Session) : s.held.clock = s.clock := by
  unfold held
  split <;> rfl

theorem held_realtime (s : Session) : s.held.realtime = s.realtime := by
  unfold held
  split <;> rfl

namespace Drained

theorem held (h : s.Drained) : s.held.Drained := by
  unfold Session.held
  split
  · exact ⟨h.unit, h.program, h.microtasks, h.callbacks⟩
  · exact h

theorem idling_clock (h : s.Drained) : s.held.idling.clock = s.clock := by
  rw [idling, h.held.ready_eq]
  exact s.held_clock

theorem idling_loop (h : s.Drained) : s.held.idling.store.state.loop = s.store.state.loop := by
  rw [idling, h.held.ready_eq]
  exact s.held_loop

theorem lapsed_machine (h : s.Drained) (delay : Double) : (s.lapsed delay).machine =
    { s.held.machine with unit := none, units := s.held.machine.units + 1 } := by
  unfold lapsed holding
  rw [waited_machine, idling, h.held.ready_eq]
  rfl

theorem lapsed_realtime (h : s.Drained) (delay : Double) :
    (s.lapsed delay).realtime = s.realtime := by
  show (s.held.idling.waited delay).realtime = _
  rw [waited_realtime, idling, h.held.ready_eq]
  exact s.held_realtime

/-- The tasks that still wait are those whose time has not come. -/
theorem mem_lapsed (h : s.Drained) (live : s.Live) (regular : s.clock.Regular)
    (pause : delay.clampNonneg.IsWait) (task : Task) :
    task ∈ (s.lapsed delay).store.state.loop.timers ↔ task ∈ s.store.state.loop.timers ∧
      ∀ timer ∈ s.clock.queue, timer.payload = task.id → s.clock.isCancelled timer.serial = false →
        timer.due.le (s.clock.after delay) = false := by
  show task ∈ (s.held.idling.waited delay).store.state.loop.timers ↔ _
  rw [waited_store, Store.mem_fired _ (h.idling_loop ▸ live.distinct), h.idling_loop,
    h.idling_clock, regular.due_eq (regular.isNan_after pause)]
  refine and_congr_right fun _ => ⟨fun unfired timer queued payload on => ?_, ?_⟩
  · refine Bool.eq_false_iff.mpr fun due => unfired timer ?_ payload
    simp [queued, on, due]
  · intro undue timer handed payload
    simp only [List.mem_filter, Bool.not_eq_true'] at handed
    obtain ⟨⟨queued, due⟩, on⟩ := handed
    exact nomatch due.symm.trans (undue timer queued payload on)

end Drained

theorem settled_loop (none : s.machine.unit = none) :
    s.settled.2.store.state.loop = s.store.state.loop := by
  unfold settled
  split
  · rfl
  · split
    · rfl
    · obtain ⟨_, t, run, beside, -⟩ := (ends_finish (E := fun _ _ => False) none).exists_ok
      rw [run]
      exact beside.loop

/-- A step that finds nothing to run lets the pacing delay pass. -/
theorem Paced.step_drained (h : s.Paced delay) (virtual : s.realtime = false)
    (on : s.phase ≠ .completed) (may : s.Steppable) (drained : s.Drained) :
    (step plain).run s = (.ok (s.lapsed delay).settled.1, (s.lapsed delay).settled.2) := by
  obtain ⟨t, works, run⟩ := run_step h on may
  have passes := drained.held.works (s.held_realtime.trans virtual) delay
  rwa [works.unique passes] at run

/-! ## Tasks that are never called back -/

/-- Nothing can be run and no time passes, but a task waits. -/
structure Stalled (delay : Double) (s : Session) : Prop where
  paced : s.Paced delay
  virtual : s.realtime = false
  on : s.phase ≠ .completed
  may : s.Steppable
  drained : s.Drained
  waiting : s.store.state.loop.timers ≠ []
  standing : s.clock.after delay = s.clock.now
  undue : ∀ timer ∈ s.clock.queue, timer.due.le s.clock.now = false

namespace Stalled

theorem due_eq (h : s.Stalled delay) : s.clock.due (s.clock.after delay) = [] := by
  have regular := h.paced.regular h.on
  rw [regular.due_eq (regular.isNan_after h.paced.isWait), h.standing]
  exact List.filter_eq_nil_iff.mpr fun timer queued => by simp [h.undue timer queued]

theorem lapsed_clock (h : s.Stalled delay) : (s.lapsed delay).clock = s.clock := by
  show (s.held.idling.waited delay).clock = _
  have kept : s.clock.queue.dropWhile (·.due.le s.clock.now) = s.clock.queue := by
    have whole := List.takeWhile_append_dropWhile
      (p := fun timer : Timer String => timer.due.le s.clock.now) (l := s.clock.queue)
    have nothing := h.due_eq
    rw [h.standing] at nothing
    rwa [show s.clock.queue.takeWhile _ = [] from nothing] at whole
  rw [waited_clock, h.drained.idling_clock, h.standing, Clock.reached, kept]

theorem lapsed_loop (h : s.Stalled delay) :
    (s.lapsed delay).store.state.loop = s.store.state.loop := by
  show (s.held.idling.waited delay).store.state.loop = _
  rw [waited_store, h.drained.idling_clock, h.due_eq]
  exact h.drained.idling_loop

theorem lapsed_more (h : s.Stalled delay) : (s.lapsed delay).hasMore = true := by
  have pending : (s.lapsed delay).store.hasPendingTasks = true := by
    simp [Store.hasPendingTasks, h.lapsed_loop, h.waiting]
  have loaded : s.held.machine.loaded = true :=
    (Strides.live h.paced.live (held_strides h.on)).loaded
  have on : s.held.machine.phase ≠ .completed := held_phase h.on
  unfold hasMore
  rw [pending, h.drained.lapsed_machine]
  simp [loaded, on]

/-- The step that is taken then leaves everything as it is. -/
theorem step (h : s.Stalled delay) :
    ∃ t, (Act.step plain).run s = (.ok true, t) ∧ t.Stalled delay := by
  have machine := h.drained.lapsed_machine delay
  have on : (s.lapsed delay).phase ≠ .completed := by
    rw [phase, machine]
    exact held_phase h.on
  have run := h.paced.step_drained h.virtual h.on h.may h.drained
  rw [settled, if_neg on, if_pos h.lapsed_more] at run
  have path := control_strides h.paced.live (c := .step) rfl
  rw [control_step h.paced.live run] at path
  refine ⟨_, run, h.paced.strides path, (h.drained.lapsed_realtime delay).trans h.virtual, on, ?_,
    ⟨?_, ?_, ?_, ?_⟩, ?_, ?_, ?_⟩
  · unfold Steppable
    rw [phase, machine]
    exact h.may.held
  · rw [machine]
  · rw [machine]
    exact h.drained.held.program
  · rw [h.lapsed_loop]
    exact h.drained.microtasks
  · rw [h.lapsed_loop]
    exact h.drained.callbacks
  · rw [h.lapsed_loop]
    exact h.waiting
  · rw [h.lapsed_clock]
    exact h.standing
  · rw [h.lapsed_clock]
    exact h.undue

/-- So do all steps. -/
theorem steps (h : s.Stalled delay) (n : Nat) :
    ∃ t, s.steps n = (.ok (List.replicate n true), t) ∧ t.Stalled delay := by
  induction n generalizing s with
  | zero => exact ⟨s, rfl, h⟩
  | succ n ih =>
      obtain ⟨t, run, stalled⟩ := h.step
      obtain ⟨u, rest, after⟩ := ih stalled
      refine ⟨u, ?_, after⟩
      unfold Session.steps
      rw [run_stepSession h.paced.live, run]
      dsimp only
      rw [rest]
      rfl

end Stalled

/-! ## Programs -/

/-- On a clock that moves only when it is told to, and with pacing delays that are
set to at most `ceiling`, every task that waits has a timer that will be due when
the longest of them has passed.  A step that finds nothing to run calls back exactly
the tasks whose timers are due when the pacing delay of now has passed; if that is
the longest one these are all of them, and whoever keeps taking steps comes to the
end of the program.  But if it is so short that no time passes, tasks that are not
due stay where they are, and each of any number of steps answers that work is
left. -/
theorem speeds_bound_waits {source : String} {limits : Limits} {speed : Int}
    (loads : (create speed limits false).control (.load source) = (.ok (.bool true), s))
    (within : speed ≤ ceiling) (converts : Number.quotient ceiling 1000 = .ok wait)
    (retuned : ReflTransGen (Retunes ceiling) s t) (on : t.phase ≠ .completed) :
    (∀ task ∈ t.store.state.loop.timers, t.Armed wait task) ∧
    ∀ delay, Number.quotient t.store.speed 1000 = .ok delay → t.Steppable →
      (t.Drained → ∃ more u, t.control .step = (.ok (.bool more), u) ∧
        (∀ task, task ∈ u.store.state.loop.timers ↔ task ∈ t.store.state.loop.timers ∧
          ∀ timer ∈ t.clock.queue, timer.payload = task.id →
            t.clock.isCancelled timer.serial = false →
              timer.due.le (t.clock.after delay) = false) ∧
        (t.store.speed = ceiling → u.store.state.loop.timers = [])) ∧
      (t.store.speed = ceiling → ∃ n u,
        t.steps (n + 1) = (.ok (List.replicate n true ++ [false]), u) ∧ u.phase = .completed) ∧
      (t.Drained → t.store.state.loop.timers ≠ [] → t.clock.after delay = t.clock.now →
        (∀ timer ∈ t.clock.queue, timer.due.le t.clock.now = false) →
          ∀ n, ∃ u, t.steps n = (.ok (List.replicate n true), u)) := by
  obtain ⟨live, timely⟩ := (loaded_bounded loads within).retuned converts retuned
  have timely := timely on
  refine ⟨timely.armed, fun delay pace may => ?_⟩
  have paced : t.Paced delay := ⟨live, pace, fun _ => timely.clock⟩
  refine ⟨fun drained => ?_, fun slowest => ?_, fun drained waiting standing undue n => ?_⟩
  · have run := paced.step_drained timely.virtual on may drained
    have waits := drained.mem_lapsed live timely.clock paced.isWait
    have loop := settled_loop (s := t.lapsed delay) rfl
    refine ⟨_, _, control_step live run, ?_, fun slowest => ?_⟩
    · rw [loop]
      exact waits
    · rw [loop]
      refine List.eq_nil_iff_forall_not_mem.mpr fun task there => ?_
      obtain ⟨waiting, undue⟩ := (waits task).mp there
      obtain ⟨timer, queued, payload, alive, due⟩ := timely.armed task waiting
      obtain rfl : wait = delay := by
        rw [slowest, converts] at pace
        exact Except.ok.inj pace
      exact nomatch due.symm.trans (undue timer queued payload alive)
  · have onTime : t.OnTime wait := ⟨live, slowest ▸ converts, fun _ => slowest ▸ timely⟩
    exact onTime.steps may
  · have stalled : t.Stalled delay :=
      ⟨paced, timely.virtual, on, may, drained, waiting, standing, undue⟩
    obtain ⟨u, run, -⟩ := stalled.steps n
    exact ⟨u, run⟩

/-- A program that sets a timer of a second, at a pacing delay of a second. -/
def timed : Except Fault Answer × Session :=
  (create 1000 {} false).control (.load "setTimeout(() => \x7b\x7d, 1000);")

/-- If there is no pacing delay any more after its first step, the task that waits
is never called back. -/
theorem lower_speeds_strand :
    ∃ t, timed.2.control .step = (.ok (.bool true), t) ∧
      ∀ n, ∃ u, (t.control (.setSpeed 0)).2.steps n = (.ok (List.replicate n true), u) := by
  let t := ((advance plain).run timed.2.held.ready).2
  let u := (t.control (.setSpeed 0)).2
  obtain ⟨loads, idle, ran, on, more⟩ : timed.1 = .ok (.bool true) ∧ timed.2.phase = .idle ∧
      ((advance plain).run timed.2.held.ready).1 = .ok false ∧ t.phase = .paused ∧
      t.hasMore = true := by
    decide +kernel
  obtain ⟨still, unit, program, microtasks, callbacks, timers, standing, undue⟩ :
      u.phase = .paused ∧ u.machine.unit.isNone ∧
      u.machine.program[u.machine.cursor]?.isNone ∧ u.store.state.loop.microtasks.isEmpty ∧
      u.store.state.loop.callbacks.isEmpty ∧ u.store.state.loop.timers.isEmpty = false ∧
      u.clock.after .zero = u.clock.now ∧
      ∀ timer ∈ u.clock.queue, timer.due.le u.clock.now = false := by
    decide +kernel
  have drained : u.Drained := by
    simp only [Option.isNone_iff_eq_none, List.isEmpty_iff] at unit program microtasks callbacks
    exact ⟨unit, program, microtasks, callbacks⟩
  have converts : Number.quotient 1000 1000 = .ok (.ofInt 1) := by decide +kernel
  have pace : Number.quotient u.store.speed 1000 = .ok .zero := by decide +kernel
  have steps : timed.2.control .step = (.ok (.bool true), t) := by
    have paced : timed.2.Paced (.ofInt 1) := (loaded_onTime (Prod.ext loads rfl) converts).paced
    have left : t.settled = (true, t) := by rw [settled, if_neg (by simp [on]), if_pos more]
    rw [paced.step_of_advance (by simp [idle]) (by simp [Steppable, idle]) (Prod.ext ran rfl), left]
  have retuned : ReflTransGen (Retunes 1000) timed.2 u := by
    have first : timed.2.Retunes 1000 t := .driven (.inl ⟨.step, rfl, by rw [steps]⟩)
    exact .tail (.single first) (.speed 0 (by decide))
  obtain ⟨-, rest⟩ := speeds_bound_waits (Prod.ext loads rfl) (Int.le_refl 1000) converts retuned
    (by simp [still])
  obtain ⟨-, -, strands⟩ := rest .zero pace (by simp [Steppable, still])
  exact ⟨t, steps, strands drained (by simpa using timers) standing undue⟩

end Session

end Runloop
