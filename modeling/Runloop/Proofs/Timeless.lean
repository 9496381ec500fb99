/-
# Programs without time

Where a program stands apart from time is its `View`: the outline of its session,
and the work that comes next.  A pass over the event loop pauses in many places,
between its rounds and when it has to wait, but nothing is decided there; seen
without time all of these places are one.

Views make up a machine of their own, and it is deterministic (`View.next`):
waiting timers are called back in the order in which they stand, whenever their
time may come.  Whatever is done with a program, short of letting time pass,
leaves its view as it is or is one step of that machine (`Stride.view`).
-/
import Runloop.Proofs.LoopOrder
import Runloop.Proofs.Loading

namespace Runloop

/-- What waits for the outermost call, all tasks taken as one. -/
def Base.core : Base → Base
  | .program scope context finish => .program scope context finish
  | .microtask _ | .callback => .callback

@[simp] theorem Base.core_core (base : Base) : base.core.core = base.core := by
  cases base <;> rfl

/-- Work, all tasks taken as one, and all places of a pass outside of them. -/
def Work.core (ρ : Retiming) : Work → Work
  | .instruction i => .instruction i
  | .inCall call point callers base => .inCall call point callers base.core
  | .atPass (.beforeMicrotask task _) | .atPass (.beforeCallback task) =>
    .atPass (.beforeCallback (task.retimed ρ))
  | .pass | .atPass _ => .pass

theorem Work.core_of_taking? {ρ : Retiming} {work : Work} {round : Round} {ran : Bool}
    (h : work.taking? = some (round, ran)) : work.core ρ = .pass := by
  cases work with
  | pass => rfl
  | atPass point => cases point <;> first | rfl | cases h
  | _ => cases h

def Progress.core (ρ : Retiming) : Progress → Progress
  | .paused work => .paused (work.core ρ)
  | .ended => .ended

/-- Where a program stands apart from time.  A program that is over has no work
that comes next. -/
structure View where
  outline : Session
  spot : Option (Work × Nat)

/-- The work that comes next and how many instructions were taken, unless the
program is over. -/
def Session.spot (ρ : Retiming) (s : Session) : Option (Work × Nat) :=
  if s.phase = .completed then none
  else
    some (match s.machine.unit with
      | none => Act.upcoming s.machine.program s.machine.cursor
      | some u => (u.work.core ρ, s.machine.cursor))

def Session.view (ρ : Retiming) (s : Session) : View := ⟨s.outline ρ, s.spot ρ⟩

/-! ## The machine of views -/

namespace Act

/-- The last lines of a program. -/
def concluding : Act Unit := do
  change plain fun s _ => s.setCurrentLine (-1)
  info plain "Execution completed"

/-- Tells that a task is taken. -/
def announcing (kind : String) (task : Task) : Act Unit :=
  info plain ("Executing " ++ kind ++ ": " ++ task.spec.name)

end Act

namespace View

variable (ρ : Retiming)

/-- The program is over. -/
def conclude (s : Session) : View := ⟨(Act.concluding.run s).2.outline ρ, none⟩

/-- What comes of a segment. -/
def settle (cursor : Nat) : Except Fault Progress × Session → View
  | (.ok (.paused work), s) => ⟨s.outline ρ, some (work.core ρ, cursor)⟩
  | (.ok .ended, s) => ⟨s.outline ρ, some (Act.upcoming s.machine.program cursor)⟩
  | (.error fault, s) => conclude ρ ((Act.error Act.plain fault.report).run s).2

/-- A task is taken; the others are left in the queues. -/
def take (kind : String) (task : Task) (rest : EventLoop) (s : Session) (cursor : Nat) : View :=
  ⟨((Act.announcing kind task).run { s with store := s.store.setLoop rest }).2.outline ρ,
    some (.atPass (.beforeCallback (task.retimed ρ)), cursor)⟩

/-- The event loop goes on: with the first microtask, or with the timer that was
started first, or else not at all. -/
def pass (s : Session) (cursor : Nat) : View :=
  match s.store.state.loop.microtasks, s.store.state.loop.timers with
  | task :: rest, _ => take ρ "microtask" task { s.store.state.loop with microtasks := rest } s cursor
  | [], task :: rest => take ρ "callback" task { s.store.state.loop with timers := rest } s cursor
  | [], [] => conclude ρ s

/-- What comes next. -/
def next (v : View) : View :=
  match v.spot with
  | none => v
  | some (.pass, cursor) => pass ρ v.outline cursor
  | some (work, cursor) => settle ρ cursor ((Act.runSegment Act.plain work).run v.outline)

end View

/-! ## Segments apart from time -/

namespace Act

/-- Two computations that do the same and differ only in what has to do with
time. -/
def Alike (ρ : Retiming) (x y : Act Progress) : Prop :=
  ∀ s, (x.run s).1.map (Progress.core ρ) = (y.run s).1.map (Progress.core ρ) ∧
    (x.run s).2 = (y.run s).2

namespace Alike

variable {ρ : Retiming} {α : Type}

theorem refl (x : Act Progress) : Alike ρ x x := fun _ => ⟨rfl, rfl⟩

theorem pure {p q : Progress} (h : p.core ρ = q.core ρ) : Alike ρ (pure p) (pure q) :=
  fun _ => ⟨congrArg Except.ok h, rfl⟩

theorem bind (x : Act α) {f g : α → Act Progress} (h : ∀ a, Alike ρ (f a) (g a)) :
    Alike ρ (x >>= f) (x >>= g) := by
  intro s
  rw [run_bind, run_bind]
  rcases (x.run s : Except Fault α × Session) with ⟨fault | a, t⟩
  · exact ⟨rfl, rfl⟩
  · exact h a t

end Alike

variable {ρ : Retiming}

theorem alike_deliver (callers : List Caller) (base : Base) (v : Value) :
    Alike ρ (deliver plain callers base v) (deliver plain callers base.core v) := by
  cases callers with
  | cons caller outer =>
      refine .bind _ fun r => ?_
      cases r <;> exact .pure (by simp [Progress.core, Work.core])
  | nil =>
      cases base with
      | program => exact .refl _
      | microtask round => exact .pure rfl
      | callback => exact .refl _

theorem alike_leave (call : Call) (callers : List Caller) (base : Base) (v : Value) :
    Alike ρ (leave plain call callers base v) (leave plain call callers base.core v) :=
  .bind _ fun _ => alike_deliver callers base v

theorem alike_runBody (call : Call) (callers : List Caller) (base : Base) (is : List Instruction) :
    Alike ρ (runBody plain call callers base is) (runBody plain call callers base.core is) := by
  cases is with
  | nil => exact alike_leave call callers base .undefined
  | cons i rest =>
      refine .bind _ fun r => ?_
      cases r <;> exact .pure (by simp [Progress.core, Work.core])

theorem alike_startTask (task : Task) (base base' : Base) (h : base.core = base'.core) :
    Alike ρ (startTask plain task base) (startTask plain (task.retimed ρ) base') := by
  refine .bind _ fun s => .bind _ fun call => ?_
  exact .pure (by simp [Progress.core, Work.core, h]; rfl)

/-- A segment that does not go on with the queues is the same apart from time. -/
theorem alike_segment {work : Work} (ht : work.taking? = none) (busy : work ≠ .atPass .idle) :
    Alike ρ (runSegment plain work) (runSegment plain (work.core ρ)) := by
  cases work with
  | instruction i => exact .refl _
  | pass => cases ht
  | inCall call point callers base =>
      cases point with
      | entered body => exact .bind _ fun is => alike_runBody call callers base is
      | between returned rest =>
          cases returned with
          | some v => exact alike_leave call callers base v
          | none => exact alike_runBody call callers base rest
  | atPass point =>
      cases point with
      | beforeMicrotask task round => exact alike_startTask task _ _ rfl
      | beforeCallback task => exact alike_startTask task _ _ rfl
      | idle => exact absurd rfl busy
      | afterMicrotask | afterCallback => cases ht

/-! ## What is seen of the end of a segment -/

theorem uniform_concluding : Uniform ρ concluding :=
  ((coded_setCurrentLine (-1)).bind fun _ => coded_info _).uniform
    (l := ⟨false, false, false, false⟩) rfl ρ

theorem uniform_error (text : String) : Uniform ρ (error plain text) :=
  (coded_error text).uniform (l := ⟨false, false, false, false⟩) rfl ρ

theorem uniform_announcing (kind : String) (task : Task) : Uniform ρ (announcing kind task) :=
  (coded_info _).uniform (l := ⟨false, false, false, false⟩) rfl ρ

end Act

namespace View

variable {ρ : Retiming} {s t : Session}

theorem conclude_congr (same : s.outline ρ = t.outline ρ) : conclude ρ s = conclude ρ t := by
  unfold conclude
  rw [(Act.uniform_concluding.run same).2]

theorem settle_congr {r r' : Except Fault Progress × Session} (cursor : Nat)
    (progress : r.1.map (Progress.core ρ) = r'.1.map (Progress.core ρ))
    (same : r.2.outline ρ = r'.2.outline ρ) : settle ρ cursor r = settle ρ cursor r' := by
  obtain ⟨r, s⟩ := r
  obtain ⟨r', s'⟩ := r'
  rcases r with fault | work | _ <;> rcases r' with fault' | work' | _ <;>
    simp only [Except.map, Progress.core, Except.ok.injEq, Except.error.injEq,
      Progress.paused.injEq, reduceCtorEq] at progress
  · subst progress
    exact conclude_congr ((Act.uniform_error _).run same).2
  · simp only [settle, progress, same]
  · have program : s.machine.program = s'.machine.program :=
      (congrArg (fun s : Session => s.machine.program) same :)
    simp only [settle, same, program]

end View

namespace Act

variable {ρ : Retiming} {s t : Session}

/-- The flags of the store are not seen. -/
theorem outline_setExecution (s : Session) (isRunning isPaused : Bool) :
    (s.publish (s.store.setExecution isRunning isPaused)).outline ρ = s.outline ρ :=
  s.outline_publish ρ (fun u => u) _

theorem spot_of_completed (h : s.phase = .completed) : s.spot ρ = none := if_pos h

/-- A program without a unit of work is ended. -/
theorem view_finish (hu : s.machine.unit = none) :
    ((finish plain).run s).2.view ρ = View.conclude ρ s := by
  have closed : (closeUnit plain).run s = (.ok ⟨⟩, s.holding none) :=
    run_closeUnit_of_running (by simp [hu])
  let s₁ : Session := { s with machine := { s.machine with unit := none, phase := .completed } }
  let s₂ := s₁.publish (s₁.store.setCurrentLine (-1))
  let s₃ := s₂.publish (s₂.store.setExecution false false)
  have ends : ((finish plain).run s).2 = ((info plain "Execution completed").run s₃).2 := by
    unfold finish
    rw [run_bind_ok closed]
    rfl
  have same : s₃.outline ρ = (s.publish (s.store.setCurrentLine (-1))).outline ρ :=
    (outline_setExecution s₂ false false).trans
      (Session.outline_publish_congr (g := fun u => u) rfl rfl)
  have completed : (((finish plain).run s).2).phase = .completed := by
    rw [ends, info, run_log]
    exact congrArg Machine.phase (Session.publish_machine s₃ _)
  have outline := ((coded_info "Execution completed").uniform
    (l := ⟨false, false, false, false⟩) rfl ρ).run same
  unfold Session.view
  rw [spot_of_completed completed, ends]
  exact congrArg (View.mk · none) outline.2

theorem spot_of_unit {u : UnitOfWork} (on : s.phase ≠ .completed) (hu : s.machine.unit = some u) :
    s.spot ρ = some (u.work.core ρ, s.machine.cursor) := by
  unfold Session.spot
  rw [if_neg on, hu]

theorem spot_of_none (on : s.phase ≠ .completed) (hu : s.machine.unit = none) :
    s.spot ρ = some (upcoming s.machine.program s.machine.cursor) := by
  unfold Session.spot
  rw [if_neg on, hu]

/-- What comes of the unit of work when its segment is over. -/
theorem view_afterSegment {u : UnitOfWork} (on : s.phase ≠ .completed) (r : Except Fault Progress)
    (m : t.machine.driven = (s.working u).machine.driven) :
    ((afterSegment plain u s.machine.generation r).run t).2.view ρ =
      View.settle ρ s.machine.cursor (r, t) := by
  have cursor : t.machine.cursor = s.machine.cursor := (congrArg Machine.cursor m :)
  have phase : t.machine.phase = s.machine.phase := (congrArg Machine.phase m :)
  have generation : t.machine.generation = s.machine.generation :=
    (congrArg Machine.generation m :)
  have on {unit : Option UnitOfWork} : (t.holding unit).phase ≠ .completed := by
    show t.machine.phase ≠ .completed
    rwa [phase]
  rcases r with fault | work | _
  · let v := (t.holding none).publish
      (t.store.logConsole "error" [fault.report] (t.holding none).now)
    have unit : v.machine.unit = none := congrArg Machine.unit (Session.publish_machine _ _)
    have gives : (modifyMachine fun m => { m with unit := none }).run t =
        (.ok ⟨⟩, t.holding none) := rfl
    have logs : (error plain fault.report).run (t.holding none) = (.ok ⟨⟩, v) := run_log ..
    have ends : ((afterSegment plain u s.machine.generation (.error fault)).run t).2 =
        ((finish plain).run v).2 := by
      obtain ⟨_, w, run, -⟩ := (ends_finish unit).exists_ok
      unfold afterSegment failUnit
      rw [run_bind, run_machine_bind, if_pos generation, run_bind_ok gives,
        run_bind_ok logs, run]
      rfl
    rw [ends, view_finish unit, View.settle, error, run_log]
    exact View.conclude_congr (Session.outline_publish_congr (g := fun u => u) rfl rfl)
  · rw [run_afterSegment_ok m, View.settle, ← cursor]
    exact congrArg (View.mk _) (spot_of_unit on rfl)
  · rw [run_afterSegment_ok m, View.settle, ← cursor]
    exact congrArg (View.mk _) (spot_of_none on rfl)

/-! ## One step apart from time -/

/-- The outline of a session after its queues were changed, which is not told of. -/
theorem outline_setLoop {α : Type} {loop : EventLoop} {c : Change α} (s : Session)
    (store : c.store = s.store.setLoop loop) (events : c.events.filterMap (Event.kept ρ) = []) :
    (s.publish c).outline ρ =
      { s.outline ρ with store := (s.outline ρ).store.setLoop (loop.seen ρ) } := by
  rw [s.outline_publish ρ (fun a => a), Change.seen, store, events]
  rfl

/-- What comes of taking a task. -/
theorem settle_take {loop : EventLoop} {c : Change (Option Task)} {task : Task} {work : Work}
    (kind : String) (cursor : Nat) (store : c.store = s.store.setLoop loop)
    (events : c.events.filterMap (Event.kept ρ) = [])
    (hw : work.core ρ = .atPass (.beforeCallback (task.retimed ρ))) :
    View.settle ρ cursor (.ok (.paused work),
        (s.publish c).said ("Executing " ++ kind ++ ": " ++ task.spec.name)) =
      View.take ρ kind (task.retimed ρ) (loop.seen ρ) (s.outline ρ) cursor := by
  have announced : ((announcing kind task).run (s.publish c)).2 =
      (s.publish c).said ("Executing " ++ kind ++ ": " ++ task.spec.name) :=
    congrArg Prod.snd (run_log ..)
  have same : (s.publish c).outline ρ = ({ s.outline ρ with
      store := (s.outline ρ).store.setLoop (loop.seen ρ) } : Session).outline ρ := by
    rw [← outline_setLoop s store events, Session.outline_outline]
  have outlines := ((uniform_announcing kind task).run same).2
  rw [View.settle, hw, ← announced, outlines, View.take, Task.retimed_retimed]
  rfl

theorem upcoming_of_done (done : s.machine.program.length ≤ s.machine.cursor) :
    upcoming s.machine.program s.machine.cursor = (.pass, s.machine.cursor) := by
  unfold upcoming
  rw [List.getElem?_eq_none done]

/-- The event loop goes on, or nothing has happened. -/
theorem settle_taking {work : Work} {round : Round} {ran : Bool}
    (ht : work.taking? = some (round, ran))
    (done : s.machine.program.length ≤ s.machine.cursor) :
    View.settle ρ s.machine.cursor ((runSegment plain work).run s) =
        ⟨s.outline ρ, some (.pass, s.machine.cursor)⟩ ∨
      View.settle ρ s.machine.cursor ((runSegment plain work).run s) =
        View.pass ρ (s.outline ρ) s.machine.cursor := by
  have microtasks : (s.outline ρ).store.state.loop.microtasks =
    s.store.state.loop.microtasks.map (Task.retimed ρ) := rfl
  have timers : (s.outline ρ).store.state.loop.timers =
    (s.store.state.loop.callbacks ++ s.store.state.loop.timers).map (Task.retimed ρ) := rfl
  have ended : View.settle ρ s.machine.cursor (.ok .ended, s) =
      ⟨s.outline ρ, some (.pass, s.machine.cursor)⟩ := by
    rw [View.settle, upcoming_of_done done]
  rw [runSegment_of_taking? ht]
  obtain ⟨p, t, run, taken⟩ := (ends_takeMicrotask (s := s) round ran).exists_ok
  rw [run]
  cases taken with
  | microtask queue =>
      refine .inr ?_
      simp only [Store.nextMicrotask, queue]
      refine (settle_take "microtask" s.machine.cursor rfl rfl rfl).trans ?_
      unfold View.pass
      rw [microtasks, queue]
      rfl
  | callback none queue =>
      refine .inr ?_
      simp only [Store.nextCallback, queue]
      refine (settle_take "callback" s.machine.cursor rfl rfl rfl).trans ?_
      unfold View.pass
      rw [microtasks, none, timers, queue]
      refine congrArg (View.take ρ "callback" _ · _ _) ?_
      rw [EventLoop.seen, EventLoop.mk.injEq]
      exact ⟨rfl, rfl, by rw [microtasks, none]⟩
  | nothing => exact .inl ended
  | idle => exact .inl rfl

/-- A segment that has nothing to do with the queues. -/
theorem settle_segment {work : Work} (cursor : Nat) (ht : work.taking? = none)
    (busy : work ≠ .atPass .idle) :
    View.settle ρ cursor ((runSegment plain work).run s) =
      View.next ρ ⟨s.outline ρ, some (work.core ρ, cursor)⟩ := by
  obtain ⟨progress, same⟩ := alike_segment (ρ := ρ) ht busy s
  have core : (work.core ρ).taking? = none := by
    cases work with
    | atPass point =>
        cases point with
        | idle => exact absurd rfl busy
        | beforeMicrotask | beforeCallback => rfl
        | afterMicrotask | afterCallback => cases ht
    | pass => cases ht
    | _ => rfl
  have coded : Coded record ⟨true, false, true, true⟩ (runSegment plain (work.core ρ)) :=
    coded_segment rfl rfl rfl core
  have uniform := coded.uniform rfl ρ s
  have next : View.next ρ ⟨s.outline ρ, some (work.core ρ, cursor)⟩ =
      View.settle ρ cursor ((runSegment plain (work.core ρ)).run (s.outline ρ)) := by
    cases hw : work.core ρ with
    | pass =>
        rw [hw] at core
        cases core
    | _ => rfl
  rw [next]
  refine View.settle_congr cursor (progress.trans ?_) ?_
  · rw [uniform.1]
  · rw [same, uniform.2]

/-- Running a unit of work leaves the view as it is, or is the next step. -/
theorem advance_view {u : UnitOfWork} (st : Steady s) (passing : Passing s)
    (on : s.phase ≠ .completed) (hu : s.machine.unit = some u) :
    ((advance plain).run s).2.view ρ = s.view ρ ∨
      ((advance plain).run s).2.view ρ = (s.view ρ).next ρ := by
  have driven := ((coded_plainSegment u.work).untouched (s.working u)).after.driven
  have view : s.view ρ = ⟨s.outline ρ, some (u.work.core ρ, s.machine.cursor)⟩ :=
    congrArg (View.mk _) (spot_of_unit on hu)
  have ends : ((advance plain).run s).2.view ρ =
      View.settle ρ s.machine.cursor ((runSegment plain u.work).run (s.working u)) := by
    rw [run_advance hu (st.waits u hu)]
    exact view_afterSegment on _ driven
  rw [ends, view]
  cases ht : u.work.taking? with
  | some taking =>
      obtain ⟨round, ran⟩ := taking
      have done := passing.done u hu (by simp [Work.origin?_of_taking? ht])
      rw [Work.core_of_taking? ht]
      exact settle_taking (s := s.working u) ht done
  | none =>
      by_cases idle : u.work = .atPass .idle
      · have done := passing.done u hu (by simp [idle, Work.origin?])
        refine .inl ?_
        rw [idle]
        exact congrArg (fun spot => View.mk _ (some spot)) (upcoming_of_done done)
      · exact .inr (settle_segment (s := s.working u) s.machine.cursor ht idle)

end Act

namespace Act

variable {ρ : Retiming} {s : Session}

theorem setPhase_view {phase : Phase} (next : phase ≠ .completed) (on : s.phase ≠ .completed) :
    ((setPhase plain phase).run s).2.view ρ = s.view ρ := by
  have outline : ((setPhase plain phase).run s).2.outline ρ = s.outline ρ :=
    outline_setExecution { s with machine := { s.machine with phase } } _ _
  have spot : ((setPhase plain phase).run s).2.spot ρ = s.spot ρ := by
    show (if phase = .completed then none else _) = _
    rw [if_neg next, Session.spot, if_neg on]
    rfl
  rw [Session.view, Session.view, outline, spot]

/-- Taking the unit of work that comes next is no step of its own. -/
theorem nextUnit_view (on : s.phase ≠ .completed) (hu : s.machine.unit = none) :
    (nextUnit.run s).2.view ρ = s.view ρ := by
  have work : ((upcoming s.machine.program s.machine.cursor).1).core ρ =
      (upcoming s.machine.program s.machine.cursor).1 := by
    unfold upcoming
    cases s.machine.program[s.machine.cursor]? with
    | none => rfl
    | some i => rfl
  rw [run_nextUnit]
  refine congrArg (View.mk _) ?_
  have taken : (s.taking (upcoming s.machine.program s.machine.cursor).1
      (upcoming s.machine.program s.machine.cursor).2).spot ρ = some _ := spot_of_unit on rfl
  rw [spot_of_none on hu, taken]
  exact congrArg (fun work => some (work, _)) work

/-- A program without any work left is ended. -/
theorem finish_view (on : s.phase ≠ .completed) (loaded : s.machine.loaded = true)
    (more : s.hasMore = false) (hu : s.machine.unit = none) :
    ((finish plain).run s).2.view ρ = (s.view ρ).next ρ := by
  have hph : (s.machine.phase != .completed) = true := bne_iff_ne.mpr on
  unfold Session.hasMore Store.hasPendingTasks at more
  rw [loaded, hph] at more
  simp only [Bool.true_and, Bool.or_eq_false_iff, Bool.not_eq_false', Bool.and_eq_true,
    List.isEmpty_iff, decide_eq_false_iff_not, Nat.not_lt] at more
  obtain ⟨⟨-, done⟩, ⟨timers, callbacks⟩, microtasks⟩ := more
  have view : s.view ρ = ⟨s.outline ρ, some (.pass, s.machine.cursor)⟩ := by
    rw [Session.view, spot_of_none on hu, upcoming_of_done done]
  have empty : (s.outline ρ).store.state.loop = {} := by
    show s.store.state.loop.seen ρ = {}
    rw [EventLoop.seen, timers, callbacks, microtasks]
    rfl
  rw [view_finish hu, view]
  show _ = View.pass ρ (s.outline ρ) s.machine.cursor
  unfold View.pass
  rw [empty]
  exact View.conclude_congr s.outline_outline.symm

end Act

/-- What is done with a program, other than letting time pass, leaves its view as
it is or is the next step. -/
theorem Stride.view {ρ : Retiming} {s t : Session} (h : s.Live) (d : Stride s t) :
    (∃ delay, s.phase ≠ .completed ∧ Number.quotient s.store.speed 1000 = .ok delay ∧
        t = ((Act.fireUntil Act.plain (s.clock.after delay)).run s).2) ∨
      t.view ρ = s.view ρ ∨ t.view ρ = (s.view ρ).next ρ := by
  obtain ⟨why, reached⟩ := id h
  cases d with
  | phase next on => exact .inr (.inl (Act.setPhase_view next on))
  | seat gate openings runActive => exact .inr (.inl rfl)
  | wait on speed => exact .inl ⟨_, on, speed, rfl⟩
  | take on hu => exact .inr (.inl (Act.nextUnit_view on hu))
  | advance on hu => exact .inr (Act.advance_view (reached.steady on) reached.passing on hu)
  | finish on more =>
      exact .inr (.inr (Act.finish_view on h.loaded more (h.unit_of_hasMore on more)))

end Runloop
