/-
# The order in which tasks are run

What an orderly trace means for the tasks of a program, told without the
agenda, and what it takes for a pass over the queues to begin and to end
(`Passing`).  Together, over every run of every program (`tasks_run_in_order`):

  * no task is taken before the last instruction of the program is done;
  * a callback is taken only when every microtask that was added was taken;
  * tasks are taken in the order in which they were queued;
  * once a task is taken, its call is made and returns before the next one is;
  * when a pass comes to its end, no microtask waits.
-/
import Mathlib.Data.List.Induction
import Runloop.Proofs.Queues
import Runloop.Proofs.Commands

namespace Runloop

/-! ## Queues -/

/-- An event that may come adds a task at the end of its queue, or takes one
from the front. -/
theorem Agenda.Allows.queued {a : Agenda} {e : Event} (h : a.Allows e) :
    a.microtasks ++ e.added?.toList = e.takenMicrotask?.toList ++ (a.note e).microtasks ∧
      a.callbacks ++ e.moved?.toList = e.takenCallback?.toList ++ (a.note e).callbacks := by
  have same {l : List Task} : l ++ [] = [] ++ l := List.append_nil l
  cases e with
  | callStack action frame _ => cases action <;> cases frame <;> exact ⟨same, same⟩
  | eventLoop action task _ =>
      cases task with
      | none => cases action <;> exact ⟨same, same⟩
      | some task =>
          cases action with
          | addMicrotask => exact ⟨rfl, same⟩
          | moveToCallbacks => exact ⟨same, rfl⟩
          | processMicrotask => exact ⟨same.trans (List.cons_head?_tail h.2).symm, same⟩
          | processCallback => exact ⟨same, same.trans (List.cons_head?_tail h.2.2).symm⟩
          | _ => exact ⟨same, same⟩
  | _ => exact ⟨same, same⟩

theorem filterMap_concat {α β : Type} (f : α → Option β) (l : List α) (a : α) :
    (l ++ [a]).filterMap f = l.filterMap f ++ (f a).toList := by
  cases h : f a <;> simp [h]

namespace Orderly

variable {trace l : List Event} {task : Task} {id : String}

theorem of_prefix (h : Orderly trace) (hl : l <+: trace) : Orderly l :=
  fun before e hp => h before e (hp.trans hl)

/-- What was queued is what was taken and then what still waits. -/
theorem queued (h : Orderly trace) :
    trace.filterMap Event.added? =
        trace.filterMap Event.takenMicrotask? ++ (agenda trace).microtasks ∧
      trace.filterMap Event.moved? =
        trace.filterMap Event.takenCallback? ++ (agenda trace).callbacks := by
  induction trace using List.reverseRecOn with
  | nil => exact ⟨rfl, rfl⟩
  | append_singleton trace e ih =>
      obtain ⟨micro, calls⟩ := ih (h.of_prefix (List.prefix_append ..))
      obtain ⟨micro', calls'⟩ := (h trace e (List.prefix_refl _)).queued
      simp only [filterMap_concat, agenda_append, List.foldl_cons, List.foldl_nil]
      refine ⟨?_, ?_⟩
      · rw [micro, List.append_assoc, micro', List.append_assoc]
      · rw [calls, List.append_assoc, calls', List.append_assoc]

end Orderly

/-! ## Calls of tasks -/

/-- Between two events, the call of a task was the first one to be made, right
on the global frame, and it returned. -/
def Returned (task : Task) (between : List Event) : Prop :=
  ∃ frame stack frame' stack' first inside rest,
    between = first ++ .callStack .push (some frame) stack ::
      (inside ++ .callStack .pop (some frame') stack' :: rest) ∧
    (∀ e ∈ first, ∀ frame stack, e ≠ .callStack .push (some frame) stack) ∧
    frame.name = task.label ∧ stack.length = 2 ∧ frame'.id = frame.id ∧ stack'.length = 1

/-- The floor goes over by a frame that is pushed or popped, or nobody has it. -/
theorem Agenda.Allows.floor_cases {a : Agenda} {e : Event} (h : a.Allows e) :
    e.passesFloor = false ∨ (∃ frame stack, e = .callStack .push (some frame) stack) ∨
      (∃ frame stack, e = .callStack .pop (some frame) stack) ∨ a.floor = .free := by
  cases e with
  | callStack action frame stack =>
      cases frame with
      | none => cases action <;> exact .inl rfl
      | some frame =>
          cases action with
          | push => exact .inr (.inl ⟨frame, stack, rfl⟩)
          | pop => exact .inr (.inr (.inl ⟨frame, stack, rfl⟩))
          | _ => exact .inl rfl
  | eventLoop action task loop =>
      cases task with
      | none => cases action <;> exact .inl rfl
      | some task =>
          cases action with
          | processMicrotask => exact .inr (.inr (.inr h.1))
          | processCallback => exact .inr (.inr (.inr h.1))
          | _ => exact .inl rfl
  | _ => exact .inl rfl

/-- A task is taken when nobody has the floor, and gets it. -/
theorem Agenda.Allows.taken {a : Agenda} {e : Event} {task : Task} (h : a.Allows e)
    (ht : e.taken? = some task) : a.floor = .free ∧ (a.note e).floor = .taken task := by
  cases e with
  | eventLoop action task' loop =>
      cases task' with
      | none => cases action <;> cases ht
      | some task' => cases action <;> cases ht <;> exact ⟨h.1, rfl⟩
  | _ => cases ht

/-- A callback is taken when no microtask waits. -/
theorem Agenda.Allows.callback {a : Agenda} {e : Event} {task : Task} (h : a.Allows e)
    (ht : e.takenCallback? = some task) : a.microtasks = [] := by
  cases e with
  | eventLoop action task' loop =>
      cases task' with
      | none => cases action <;> cases ht
      | some task' =>
          cases action <;> cases ht
          exact h.2.1
  | _ => cases ht

namespace Orderly

variable {trace l : List Event} {e : Event} {task : Task} {id : String}

theorem agenda_concat (trace : List Event) (e : Event) :
    agenda (trace ++ [e]) = (agenda trace).note e :=
  agenda_append trace [e]

/-- A call that has the floor has it until its frame is popped. -/
theorem popped (h : Orderly (trace ++ l)) (running : (agenda trace).floor = .running id)
    (free : (agenda (trace ++ l)).floor = .free) :
    ∃ frame stack inside rest, l = inside ++ .callStack .pop (some frame) stack :: rest ∧
      frame.id = id ∧ stack.length = 1 := by
  induction l generalizing trace with
  | nil => rw [List.append_nil, running] at free; cases free
  | cons e l ih =>
      have allowed := h trace e ⟨l, by simp⟩
      rw [List.append_cons] at h free
      -- as long as the call has the floor, what is looked for comes later
      have later (on : ((agenda trace).note e).floor = .running id) :
          ∃ frame stack inside rest, e :: l = inside ++ .callStack .pop (some frame) stack :: rest ∧
            frame.id = id ∧ stack.length = 1 := by
        obtain ⟨frame, stack, inside, rest, rfl, found⟩ := ih h (agenda_concat trace e ▸ on) free
        exact ⟨frame, stack, e :: inside, rest, rfl, found⟩
      rcases allowed.floor_cases with plain | ⟨frame, stack, rfl⟩ | ⟨frame, stack, rfl⟩ | nobody
      · exact later ((Agenda.note_floor plain).trans running)
      · refine later ?_
        show (agenda trace).floor.pushed frame stack.length = _
        rw [running]
        rfl
      · by_cases own : frame.id = id ∧ stack.length = 1
        · exact ⟨frame, stack, [], l, rfl, own⟩
        · refine later ?_
          show (agenda trace).floor.popped frame stack.length = _
          rw [running]
          exact if_neg own
      · rw [running] at nobody
        cases nobody

/-- After a call in place of a task's, the floor is never free again. -/
theorem astray (h : Orderly (trace ++ l)) (astray : (agenda trace).floor = .astray) :
    (agenda (trace ++ l)).floor = .astray := by
  induction l generalizing trace with
  | nil => rwa [List.append_nil]
  | cons e l ih =>
      have allowed := h trace e ⟨l, by simp⟩
      rw [List.append_cons] at h ⊢
      refine ih h ?_
      rw [agenda_concat]
      rcases allowed.floor_cases with plain | ⟨frame, stack, rfl⟩ | ⟨frame, stack, rfl⟩ | nobody
      · exact (Agenda.note_floor plain).trans astray
      · show (agenda trace).floor.pushed frame stack.length = _
        rw [astray]
        rfl
      · show (agenda trace).floor.popped frame stack.length = _
        rw [astray]
        rfl
      · rw [astray] at nobody
        cases nobody

/-- A task that was taken has the floor until its call returns. -/
theorem returned (h : Orderly (trace ++ l)) (taken : (agenda trace).floor = .taken task)
    (free : (agenda (trace ++ l)).floor = .free) : Returned task l := by
  induction l generalizing trace with
  | nil => rw [List.append_nil, taken] at free; cases free
  | cons e l ih =>
      have allowed := h trace e ⟨l, by simp⟩
      rw [List.append_cons] at h free
      have later (no : ∀ frame stack, e ≠ .callStack .push (some frame) stack)
          (on : ((agenda trace).note e).floor = .taken task) : Returned task (e :: l) := by
        obtain ⟨frame, stack, frame', stack', first, inside, rest, rfl, before, found⟩ :=
          ih h (agenda_concat trace e ▸ on) free
        exact ⟨frame, stack, frame', stack', e :: first, inside, rest, rfl,
          List.forall_mem_cons.mpr ⟨no, before⟩, found⟩
      rcases allowed.floor_cases with plain | ⟨frame, stack, rfl⟩ | ⟨frame, stack, rfl⟩ | nobody
      · refine later ?_ ((Agenda.note_floor plain).trans taken)
        rintro frame stack rfl
        cases plain
      · have floor : (agenda (trace ++ [.callStack .push (some frame) stack])).floor =
            (Floor.taken task).pushed frame stack.length := by
          rw [agenda_concat, ← taken]
          rfl
        by_cases own : frame.name = task.label ∧ stack.length = 2
        · rw [Floor.pushed, if_pos own] at floor
          obtain ⟨frame', stack', inside, rest, rfl, same, height⟩ := h.popped floor free
          exact ⟨frame, stack, frame', stack', [], inside, rest, rfl, by simp, own.1, own.2, same,
            height⟩
        · rw [Floor.pushed, if_neg own] at floor
          rw [h.astray floor] at free
          cases free
      · refine later (by simp) ?_
        show (agenda trace).floor.popped frame stack.length = _
        rw [taken]
        rfl
      · rw [taken] at nobody
        cases nobody

end Orderly

/-! ## Passes -/

/-- An instruction of the program is still to be taken, or is not done yet. -/
def Session.Unfinished (s : Session) : Prop :=
  s.machine.cursor < s.machine.program.length ∨
    ∃ u ∈ s.machine.unit, u.work.origin? = some .program

/-- Passes begin when the program is done: until then no task was taken.  When
a pass finds nothing to do, no microtask waits. -/
structure Passing (s : Session) : Prop where
  done : ∀ u ∈ s.machine.unit, u.work.origin? ≠ some .program →
    s.machine.program.length ≤ s.machine.cursor
  untaken : s.Unfinished → ∀ e ∈ s.trace, e.taken? = none
  idle : ∀ u ∈ s.machine.unit, u.work = .atPass .idle → s.store.state.loop.microtasks = []

namespace Segment

variable {s t : Session} {work rest : Work} {p : Progress} {o : Origin}

/-- Code only registers tasks. -/
theorem registers (seg : Segment s work p t) (sound : Sound ⟨s, work.calls, []⟩)
    (ho : work.origin? = some o) : Registers s t ∧ o.Leads p := by
  have untaking {round : Round} {ran : Bool} (ht : work.taking? = some (round, ran)) : False := by
    rw [Work.origin?_of_taking? ht] at ho
    cases ho
  cases seg with
  | within ho' m leads =>
      cases ho.symm.trans ho'
      exact ⟨.of_moves sound m, leads⟩
  | start _ hp => exact absurd ((Work.pending?_of_origin? ho).symm.trans hp) (by simp)
  | microtask ht | callback ht | nothing ht | idle ht => exact (untaking ht).elim
  | wake => cases ho

/-- What is left of an instruction was one before. -/
theorem program_of_rest (seg : Segment s work (.paused rest) t)
    (h : rest.origin? = some .program) : work.origin? = some .program := by
  cases seg with
  | within ho _ leads =>
      cases rest with
      | inCall call point callers base =>
          have same : base.origin = _ := leads.1
          rw [ho, ← same]
          exact h
      | instruction => exact leads.elim
      | pass | atPass => cases h
  | start _ hp =>
      cases work with
      | atPass point => cases point <;> cases hp <;> cases h
      | _ => cases hp
  | microtask | callback | idle => cases h

theorem idle_of_rest (seg : Segment s work (.paused (.atPass .idle)) t) :
    t.store.state.loop.microtasks = [] := by
  cases seg with
  | within _ _ leads => exact leads.elim
  | idle _ none _ => exact none

end Segment

namespace Registers

variable {s t : Session}

theorem untaken (r : Registers s t) (h : ∀ e ∈ s.trace, e.taken? = none) :
    ∀ e ∈ t.trace, e.taken? = none := by
  obtain ⟨l, trace, plain, -⟩ := r
  intro e he
  rw [trace] at he
  rcases List.mem_append.mp he with he | he
  · exact h e he
  · have := plain e he
    simp only [Event.registers, Bool.and_eq_true, Option.isNone_iff_eq_none] at this
    exact this.2

end Registers

namespace Tick

variable {s t : Session} {why fault : Option Fault}

/-- The unit of work is over. -/
theorem unfinished_of_ended (none : t.machine.unit = none)
    (cursor : t.machine.cursor = s.machine.cursor)
    (program : t.machine.program = s.machine.program) (h : t.Unfinished) : s.Unfinished := by
  rcases h with more | ⟨u, hu, -⟩
  · exact .inl (cursor ▸ program ▸ more)
  · rw [none] at hu
    cases hu

/-- A program that is not done after a tick was not done before. -/
theorem unfinished (k : Tick s fault t) (h : t.Unfinished) : s.Unfinished := by
  cases k with
  | beside phase gate openings runActive b hm hph =>
      unfold Session.Unfinished at h
      rw [hm] at h
      exact h
  | fire id =>
      unfold Session.Unfinished at h
      rw [Session.publish_machine] at h
      exact h
  | instruction _ _ hi => exact .inl (List.getElem?_eq_some_iff.mp hi).1
  | pass =>
      refine h.imp_right ?_
      rintro ⟨u, ⟨⟩, ho⟩
      cases ho
  | pause _ hu seg =>
      have machine := seg.machine
      have cursor : _ = s.machine.cursor := (congrArg Machine.cursor machine :)
      have program : _ = s.machine.program := (congrArg Machine.program machine :)
      rcases h with more | ⟨u', ⟨⟩, ho⟩
      · exact .inl (cursor ▸ program ▸ more)
      · exact .inr ⟨_, hu, seg.program_of_rest ho⟩
  | @complete u t _ hu seg =>
      have machine := seg.machine
      exact unfinished_of_ended (t := t.holding none) rfl (congrArg Machine.cursor machine :)
        (congrArg Machine.program machine :) h
  | fail _ _ failed b cursor none _ =>
      obtain ⟨spilt, m, -⟩ := failed
      exact unfinished_of_ended none (cursor.trans (congrArg Machine.cursor (Moves.machine m) :))
        (b.program.trans (congrArg Machine.program (Moves.machine m) :)) h
  | ended _ m b cursor none _ =>
      exact unfinished_of_ended none (cursor.trans (congrArg Machine.cursor (Moves.machine m) :))
        (b.program.trans (congrArg Machine.program (Moves.machine m) :)) h

/-- Until the program is done, a tick takes no task. -/
theorem untaken (standing : Standing why s) (h : Passing s) (unfinished : s.Unfinished)
    (k : Tick s fault t) : ∀ e ∈ t.trace, e.taken? = none := by
  have before := h.untaken unfinished
  -- the unit of work, if there is one, is an instruction
  have instruction {u : UnitOfWork} (hu : s.machine.unit = some u) :
      u.work.origin? = some .program := by
    rcases unfinished with more | ⟨u', hu', ho⟩
    · by_contra other
      exact absurd (h.done u hu other) (by omega)
    · cases hu.symm.trans hu'
      exact ho
  cases k with
  | beside _ _ _ _ b _ _ => exact (Registers.of_beside b).untaken before
  | fire id =>
      intro e he
      rw [(requeues_moveToCallbacks s.store id).trace] at he
      rcases List.mem_append.mp he with he | he
      · exact before e he
      · obtain ⟨_, _, rfl⟩ := eq_of_mem_events_moveToCallbacks he
        rfl
  | instruction => exact before
  | pass => exact before
  | pause hph hu seg =>
      have sound := (standing.steady hph).working hu
      exact (seg.registers sound (instruction hu)).1.untaken before
  | complete hph hu seg =>
      have sound := (standing.steady hph).working hu
      exact (seg.registers sound (instruction hu)).1.untaken before
  | fail hph hu failed b _ _ _ =>
      obtain ⟨spilt, m, -⟩ := failed
      have sound := (standing.steady hph).working hu
      exact ((Registers.of_moves sound m).trans (.of_beside b)).untaken before
  | ended hph m b _ _ _ =>
      have sound := (Beside.holding s none).sound (standing.steady hph).sound (.inr rfl)
      exact ((Registers.of_moves sound m).trans (.of_beside b)).untaken before

end Tick

namespace Passing

variable {s t : Session} {why fault : Option Fault}

/-- The unit of work stays the same. -/
theorem keep (h : Passing s) (unit : t.machine.unit = s.machine.unit)
    (cursor : t.machine.cursor = s.machine.cursor)
    (program : t.machine.program = s.machine.program)
    (microtasks : t.store.state.loop.microtasks = s.store.state.loop.microtasks)
    (untaken : t.Unfinished → ∀ e ∈ t.trace, e.taken? = none) : Passing t := by
  refine ⟨?_, untaken, ?_⟩
  · rw [unit, cursor, program]
    exact h.done
  · rw [unit, microtasks]
    exact h.idle

/-- The unit of work is over. -/
theorem of_ended (ended : t.machine.unit = none)
    (untaken : t.Unfinished → ∀ e ∈ t.trace, e.taken? = none) : Passing t := by
  refine ⟨?_, untaken, ?_⟩
  · simp [ended]
  · simp [ended]

theorem tick (standing : Standing why s) (h : Passing s) (k : Tick s fault t) : Passing t := by
  have untaken (unfinished : t.Unfinished) : ∀ e ∈ t.trace, e.taken? = none :=
    k.untaken standing h (k.unfinished unfinished)
  cases k with
  | beside phase gate openings runActive b hm hph =>
      exact h.keep (by rw [hm]) (by rw [hm]) (by rw [hm]) (by rw [b.loop]) untaken
  | fire id =>
      have machine := Session.publish_machine s (s.store.moveToCallbacks id)
      refine h.keep (by rw [machine]) (by rw [machine]) (by rw [machine]) ?_ untaken
      rw [Session.publish_store]
      unfold Store.moveToCallbacks
      split <;> rfl
  | instruction =>
      refine ⟨?_, untaken, ?_⟩
      · rintro _ ⟨⟩ other
        exact absurd rfl other
      · rintro _ ⟨⟩ ⟨⟩
  | pass _ _ hi =>
      refine ⟨?_, untaken, ?_⟩
      · rintro _ ⟨⟩ _
        exact List.getElem?_eq_none_iff.mp hi
      · rintro _ ⟨⟩ ⟨⟩
  | @pause u work t hph hu seg =>
      have machine := seg.machine
      have cursor : t.machine.cursor = s.machine.cursor := (congrArg Machine.cursor machine :)
      have program : t.machine.program = s.machine.program := (congrArg Machine.program machine :)
      refine ⟨?_, untaken, ?_⟩
      · rintro _ ⟨⟩ other
        show t.machine.program.length ≤ t.machine.cursor
        rw [cursor, program]
        refine h.done u hu fun ho => other ?_
        -- an instruction that is not done leaves an instruction
        have leads := (seg.registers ((standing.steady hph).working hu) ho).2
        cases work with
        | inCall call point callers base => exact congrArg some leads.1
        | atPass point => cases point <;> cases leads
        | _ => exact leads.elim
      · rintro _ ⟨⟩ rfl
        exact seg.idle_of_rest
  | complete => exact of_ended rfl untaken
  | fail _ _ _ _ _ none _ => exact of_ended none untaken
  | ended _ _ _ _ none _ => exact of_ended none untaken

end Passing

theorem Session.begun_untaken (s : Session) (program : List Instruction) :
    ∀ e ∈ (s.begun program).trace, e.taken? = none := by
  rw [Session.begun_trace]
  simp [Event.taken?, Event.takenMicrotask?, Event.takenCallback?]

theorem Reached.passing {why : Option Fault} {s : Session} (h : Reached why s) : Passing s :=
  (h.induct (P := fun _ s => Passing s)
    (fun s program _ => .of_ended rfl fun _ => s.begun_untaken program)
    fun _ _ _ _ standing h k => h.tick standing k).2

/-! ## The order of it all -/

/-- A unit of work that comes to its end without the program was ended by a
segment. -/
theorem Tick.ends_unit {s t : Session} {fault : Option Fault} {u : UnitOfWork} (k : Tick s fault t)
    (hu : s.machine.unit = some u) (ended : t.machine.unit = none) (on : t.phase ≠ .completed) :
    ∃ t', Segment (s.working u) u.work .ended t' ∧ t = t'.holding none := by
  cases k with
  | beside phase gate openings runActive b hm hph =>
      rw [hm] at ended
      exact absurd (hu.symm.trans ended) (by simp)
  | fire id =>
      rw [Session.publish_machine] at ended
      exact absurd (hu.symm.trans ended) (by simp)
  | instruction _ none _ | pass _ none _ => exact absurd (hu.symm.trans none) (by simp)
  | pause => cases ended
  | complete _ hu' seg =>
      cases hu.symm.trans hu'
      exact ⟨_, seg, rfl⟩
  | fail _ _ _ _ _ _ he | ended _ _ _ _ _ he => exact absurd he on

/-- A pass that ends leaves no microtask behind. -/
theorem Passing.emptied {s t : Session} {u : UnitOfWork} (h : Passing s)
    (hu : s.machine.unit = some u) (pass : u.work.origin? ≠ some .program)
    (seg : Segment (s.working u) u.work .ended t) : t.store.state.loop.microtasks = [] := by
  generalize hw : u.work = work at seg
  cases seg with
  | within ho _ leads =>
      have program : _ = Origin.program := leads
      exact absurd (hw ▸ ho.trans (congrArg some program)) pass
  | nothing _ none _ => exact none
  | wake => exact h.idle u hu hw

/-- Over every run: no task is taken before the program is done, a callback is
taken only when every microtask that was added was taken, tasks are taken in
the order in which they were queued and one call at a time, and a pass that
ends leaves no microtask behind. -/
theorem tasks_run_in_order {s : Session} (h : s.Live) :
    (s.Unfinished → ∀ fault t, Drive s fault t → ∀ e ∈ t.trace, e.taken? = none) ∧
    (∀ before e task, before ++ [e] <+: s.trace → e.takenCallback? = some task →
      before.filterMap Event.takenMicrotask? = before.filterMap Event.added?) ∧
    (∀ before, before <+: s.trace →
      before.filterMap Event.takenMicrotask? <+: before.filterMap Event.added? ∧
      before.filterMap Event.takenCallback? <+: before.filterMap Event.moved?) ∧
    (s.trace.filterMap Event.added? =
        s.trace.filterMap Event.takenMicrotask? ++ s.store.state.loop.microtasks ∧
      s.trace.filterMap Event.moved? =
        s.trace.filterMap Event.takenCallback? ++ s.store.state.loop.callbacks) ∧
    (∀ before e between e' task task', before ++ e :: between ++ [e'] <+: s.trace →
      e.taken? = some task → e'.taken? = some task' → Returned task between) ∧
    (∀ u fault t, s.machine.unit = some u → u.work.origin? ≠ some .program → Drive s fault t →
      t.machine.unit = none → t.phase ≠ .completed → t.store.state.loop.microtasks = []) := by
  obtain ⟨why, h⟩ := h
  have passing := h.passing
  have listed := h.ordered.listed
  have orderly := listed.orderly
  refine ⟨fun unfinished fault t d => ?_, fun before e task hp ht => ?_, fun before hp => ?_, ?_,
    fun before e between e' task task' hp he he' => ?_, fun u fault t hu pass d ended on => ?_⟩
  · exact (Act.tick_of_drive h.standing d).untaken h.standing passing unfinished
  · have queued := (orderly.of_prefix ((List.prefix_append ..).trans hp)).queued.1
    rw [(orderly before e hp).callback ht, List.append_nil] at queued
    exact queued.symm
  · obtain ⟨micro, calls⟩ := (orderly.of_prefix hp).queued
    exact ⟨micro ▸ List.prefix_append .., calls ▸ List.prefix_append ..⟩
  · rw [← listed.microtasks, ← listed.callbacks]
    exact orderly.queued
  · have whole : (before ++ [e]) ++ between <+: s.trace := by
      refine (List.prefix_append _ [e']).trans ?_
      rwa [← List.append_cons]
    have taken := (orderly before e ((List.prefix_append ..).trans whole)).taken he
    have next := (orderly _ e' (List.append_cons before e between ▸ hp)).taken he'
    refine (orderly.of_prefix whole).returned ?_ next.1
    rw [Orderly.agenda_concat]
    exact taken.2
  · obtain ⟨t', seg, rfl⟩ := (Act.tick_of_drive h.standing d).ends_unit hu ended on
    show t'.store.state.loop.microtasks = []
    exact passing.emptied hu pass seg

/-- A run with a callback and a microtask, of which the microtask was queued
later: the timer fires after the last instruction. -/
def Session.twoTasks : Session :=
  let s := running
    "setTimeout(v => console.log(2), 0);\nPromise.resolve(1).then(v => console.log(v));" {} 2
  ((Act.fire Act.plain "task_1").run s).2.segments 9 (.sleeping 1)

/-- The microtask is taken first; when the pass has ended both were taken. -/
theorem two_tasks_run_in_order :
    (Session.twoTasks.trace.filterMap Event.taken?).map (·.id) = ["task_2", "task_1"] ∧
    Session.twoTasks.trace.filterMap Event.added? =
      Session.twoTasks.trace.filterMap Event.takenMicrotask? ∧
    Session.twoTasks.trace.filterMap Event.moved? =
      Session.twoTasks.trace.filterMap Event.takenCallback? := by
  have live : Session.twoTasks.Live :=
    ((Session.running_live 2 (by decide +kernel)).drive (.fire "task_1")).segments 9 _
  obtain ⟨ids, microtasks, callbacks⟩ :
      (Session.twoTasks.trace.filterMap Event.taken?).map (·.id) = ["task_2", "task_1"] ∧
      Session.twoTasks.store.state.loop.microtasks.isEmpty = true ∧
      Session.twoTasks.store.state.loop.callbacks.isEmpty = true := by
    decide +kernel
  obtain ⟨-, -, -, ⟨added, moved⟩, -⟩ := tasks_run_in_order live
  rw [List.isEmpty_iff.mp microtasks, List.append_nil] at added
  rw [List.isEmpty_iff.mp callbacks, List.append_nil] at moved
  exact ⟨ids, added, moved⟩

end Runloop
