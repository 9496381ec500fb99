/-
# No task is lost, and none is run twice

The ledger says where every task is.  Here it is shown that a program that comes
to its end without a fault has nothing left in its queues, and that then every
task was run: since the first task was taken, calls on the global frame are made
for tasks only, one for each.  `roll` lists those calls with the tasks for which
they are made.

That nothing is left is due to the drivers.  A step and a turn of a run end a
program only when no work is left (`Stride.finish`), or when a segment of it
faults (`Strides.completed`).
-/
import Runloop.Proofs.Ledger

namespace Runloop

open Relation (ReflTransGen)

/-! ## The calls of tasks -/

/-- The frame that an event tells was pushed right on the global one. -/
def Event.outermost? : Event → Option Frame
  | .callStack .push (some frame) stack => if stack.length = 2 then some frame else none
  | _ => none

/-- The task that was taken last, and the calls that were made on the global
frame since the first one was: for which task, and under which name. -/
structure Roll where
  task : Option Task := none
  calls : List (Task × String) := []

def Roll.note (r : Roll) (e : Event) : Roll :=
  { task := e.taken?.or r.task
    calls :=
      r.calls ++ (e.outermost?.toList.flatMap fun frame => r.task.toList.map (·, frame.name)) }

/-- The calls that a trace tells of. -/
def roll (trace : List Event) : Roll := trace.foldl Roll.note {}

/-- A task with the name of its call. -/
def Task.named (task : Task) : Task × String := (task, task.label)

/-- Every task that was taken was called, once and in its turn, but for the one
that is about to be. -/
def Called (trace : List Event) (pending : Option Task) : Prop :=
  (roll trace).calls ++ pending.toList.map Task.named =
    (trace.filterMap Event.taken?).map Task.named

theorem roll_concat (trace : List Event) (e : Event) : roll (trace ++ [e]) = (roll trace).note e :=
  List.foldl_append

theorem roll_task (trace : List Event) :
    (roll trace).task = (trace.filterMap Event.taken?).getLast? := by
  induction trace using List.reverseRecOn with
  | nil => rfl
  | append_singleton trace e ih =>
      rw [roll_concat, filterMap_concat, List.getLast?_append, ← ih]
      cases h : e.taken? <;> simp [Roll.note, h]

namespace Called

variable {trace l : List Event} {e : Event} {pending : Option Task} {task : Task}

/-- Nothing is taken, and nothing is called on the global frame. -/
theorem append (h : Called trace pending) (taken : ∀ e ∈ l, e.taken? = none)
    (inner : ∀ e ∈ l, e.outermost? = none) : Called (trace ++ l) pending := by
  induction l using List.reverseRecOn with
  | nil => rwa [List.append_nil]
  | append_singleton l e ih =>
      have before : Called (trace ++ l) pending :=
        ih (fun e he => taken e (List.mem_append_left _ he))
          fun e he => inner e (List.mem_append_left _ he)
      have none : e.taken? = none := taken e (List.mem_append_right _ List.mem_cons_self)
      have inside : e.outermost? = Option.none :=
        inner e (List.mem_append_right _ List.mem_cons_self)
      unfold Called at before ⊢
      rw [← List.append_assoc, roll_concat, filterMap_concat, none]
      simpa [Roll.note, inside] using before

/-- A task is taken. -/
theorem take (h : Called trace none) (taken : e.taken? = some task)
    (inner : e.outermost? = none) : Called (trace ++ [e]) (some task) := by
  unfold Called at h ⊢
  rw [roll_concat, filterMap_concat, taken, Option.toList_some, List.map_append, ← h]
  simp [Roll.note, inner]

/-- The task that is about to be run is called. -/
theorem call (frame : Frame) (h : Called trace (some task)) (taken : e.taken? = none)
    (outer : e.outermost? = some frame) (name : frame.name = task.label) :
    Called (trace ++ [e]) none := by
  have last : (roll trace).task = some task := by
    have mapped := congrArg List.getLast? h
    rw [List.getLast?_map, ← roll_task, Option.toList_some, List.map_singleton,
      List.getLast?_concat] at mapped
    obtain ⟨other, found, same⟩ := Option.map_eq_some_iff.mp mapped.symm
    rw [found]
    exact congrArg (fun p : Task × String => some p.1) same
  unfold Called at h ⊢
  rw [roll_concat, filterMap_concat, taken, Option.toList_none, List.append_nil, ← h]
  simp [Roll.note, outer, last, name, Task.named]

/-- Before the first task is taken none is called. -/
theorem of_untaken (h : ∀ e ∈ trace, e.taken? = none) : Called trace none := by
  have none : trace.filterMap Event.taken? = [] := List.filterMap_eq_nil_iff.mpr h
  have calls : (roll trace).calls = [] := by
    clear none
    induction trace using List.reverseRecOn with
    | nil => rfl
    | append_singleton trace e ih =>
        have before : ∀ e ∈ trace, e.taken? = Option.none :=
          fun e he => h e (List.mem_append_left _ he)
        have nobody : (roll trace).task = Option.none := by
          rw [roll_task, List.filterMap_eq_nil_iff.mpr before]
          rfl
        rw [roll_concat]
        simp [Roll.note, ih before, nobody]
  unfold Called
  rw [calls, none]
  rfl

end Called

/-! ## Inside the call of a task -/

theorem mem_idsOf_everOpened {id : String} {trace : List Event} (l : List Event)
    (h : id ∈ idsOf (everOpened trace)) : id ∈ idsOf (everOpened (trace ++ l)) := by
  induction l using List.reverseRecOn with
  | nil => rwa [List.append_nil]
  | append_singleton l e ih =>
      rw [← List.append_assoc, everOpened_append]
      unfold noteScope
      split
      · split
        · exact ih
        · exact List.mem_cons_of_mem _ ih
      · cases hb : Scope.binding? _ _ with
        | none => exact ih
        | some b => rw [Option.elim_some, idsOf_binding]; exact ih
      · cases hb : Scope.binding? _ _ with
        | none => exact ih
        | some b => rw [Option.elim_some, idsOf_binding]; exact ih
      · exact ih

/-- A call that is entered has a scope that was never open before. -/
theorem nextCall_fresh {s : Session} (sc : Scoped s) (id : String) (line : Int) :
    (s.nextCall id line).scope ∉ idsOf (everOpened s.trace) := by
  intro there
  obtain ⟨n, below, same⟩ := sc.numbered _ there
  have := scopeId_inj same
  omega

theorem Event.outermost?_of_pushes {e : Event} (h : e.pushes = false) : e.outermost? = none := by
  cases e with
  | callStack action frame stack => cases action <;> cases frame <;> first | rfl | cases h
  | _ => rfl

/-- From `s` to `t` no call is made on the global frame. -/
def Inward (s t : Session) : Prop :=
  ∃ l, t.trace = s.trace ++ l ∧ ∀ e ∈ l, e.outermost? = none

namespace Inward

variable {s t u : Session}

theorem refl (s : Session) : Inward s s := ⟨[], (List.append_nil _).symm, by simp⟩

theorem trans (h : Inward s t) (h' : Inward t u) : Inward s u := by
  obtain ⟨l, ht, hl⟩ := h
  obtain ⟨l', ht', hl'⟩ := h'
  refine ⟨l ++ l', by rw [ht', ht, List.append_assoc], fun e he => ?_⟩
  exact (List.mem_append.mp he).elim (hl e) (hl' e)

theorem of_unpushed (h : Unpushed s t) : Inward s t := by
  obtain ⟨l, trace, plain⟩ := h
  exact ⟨l, trace, fun e he => Event.outermost?_of_pushes (plain e he)⟩

theorem of_deed {scope : String} (h : Deed scope s t) : Inward s t := by
  obtain ⟨l, trace, deed⟩ := h.trace
  refine ⟨l, trace, fun e he => ?_⟩
  have := deed e he
  cases e with
  | callStack action frame stack =>
      cases action <;> cases frame <;> first | rfl | simp [Event.isDeed, Event.isAside] at this
  | _ => rfl

/-- A call is made inside another one. -/
theorem entered {calls : List Call} {id name thisBinding : String} {line : Int} {receiver : Value}
    (inside : Sound ⟨s.entered id name thisBinding line receiver, s.nextCall id line :: calls, []⟩)
    (inner : calls ≠ []) : Inward s (s.entered id name thisBinding line receiver) := by
  have opened : Inward s (s.opening id name) := of_unpushed (.of_rescoped (.opening s id name))
  have height := inside.held.stack.length
  refine opened.trans ⟨_, Session.trace_publish (List.forall_mem_singleton.mpr rfl), ?_⟩
  refine List.forall_mem_singleton.mpr (if_neg fun two => ?_)
  simp only [Session.entered, Session.publish_store] at height
  have same := two.symm.trans height
  have positive := List.length_pos_iff.mpr inner
  simp only [List.length_cons] at same
  omega

end Inward

theorem scope_mem_openIds {calls : List Call} {call : Call} (h : call ∈ calls) :
    call.scope ∈ openIds calls := by
  induction calls with
  | nil => cases h
  | cons first outer ih =>
      rcases List.mem_cons.mp h with rfl | there
      · exact List.mem_append_right _ (by simp [Call.closing])
      · exact List.mem_append_left _ (ih there)

/-- The scope of an open call was opened. -/
theorem Sound.opened {s : Session} {calls : List Call} {call : Call} (h : Sound ⟨s, calls, []⟩)
    (there : call ∈ calls) : call.scope ∈ idsOf (everOpened s.trace) := by
  have live : call.scope ∈ s.store.scopeIds := by
    rw [h.held.scopes, List.append_nil]
    exact List.mem_cons_of_mem _ (scope_mem_openIds there)
  obtain ⟨c, hc, same⟩ := List.mem_map.mp live
  rw [← same]
  exact List.mem_map_of_mem ((h.placed rfl).part c hc)

/-- As long as the outermost call stays open, all calls are made inside it: a
call that is entered later is another one, since its scope is new. -/
theorem Moves.inward {s : Session} {calls : List Call} {b : Setting} {call : Call}
    (sound : Sound ⟨s, calls, []⟩) (m : Moves ⟨s, calls, []⟩ b)
    (first : calls.getLast? = some call) (last : call ∈ b.calls) :
    b.calls.getLast? = some call ∧ Inward s b.session := by
  induction m with
  | refl => exact ⟨first, .refl _⟩
  | @tail b c m step ih =>
      have sound' := sound.moves m
      cases step with
      | deed d =>
          obtain ⟨same, inward⟩ := ih last
          exact ⟨same, inward.trans (.of_deed d)⟩
      | @enter t calls' id name thisBinding line receiver hid shallow =>
          rcases List.mem_cons.mp last with rfl | there
          · -- the call was open at the beginning, so its scope is not new
            obtain ⟨l, trace, -⟩ := Registers.of_moves sound m
            have grown := mem_idsOf_everOpened l (sound.opened (List.mem_of_getLast? first))
            rw [← trace] at grown
            exact absurd grown (nextCall_fresh (sound'.placed rfl) id line)
          · obtain ⟨same, inward⟩ := ih there
            have inner : calls' ≠ [] := List.ne_nil_of_mem there
            have inside := sound'.move (.enter name thisBinding line receiver hid shallow)
            exact ⟨(List.getLast?_cons_of_ne_nil inner).trans same,
              inward.trans (.entered inside inner)⟩
      | @leave t left calls' spilt =>
          obtain ⟨same, inward⟩ := ih (List.mem_cons_of_mem _ last)
          exact ⟨(List.getLast?_cons_of_ne_nil (List.ne_nil_of_mem last)).symm.trans same,
            inward.trans (.of_unpushed (.left left sound'.held.stack.ne_nil))⟩
      | spill name line _ =>
          obtain ⟨same, inward⟩ := ih last
          exact ⟨same, inward.trans (.of_unpushed (.of_rescoped (.opening _ _ name)))⟩

/-! ## Every task is called in its turn -/

theorem Called.inward {s t : Session} {pending : Option Task} (h : Called s.trace pending)
    (inward : Inward s t) (registers : Registers s t) : Called t.trace pending := by
  obtain ⟨l, trace, inner⟩ := inward
  obtain ⟨l', trace', plain, -⟩ := registers
  obtain rfl : l = l' := List.append_cancel_left (trace.symm.trans trace')
  rw [trace]
  refine h.append (fun e he => ?_) inner
  have := plain e he
  simp only [Event.registers, Bool.and_eq_true, Option.isNone_iff_eq_none] at this
  exact this.2

theorem Called.beside {s t : Session} {pending : Option Task} (h : Called s.trace pending)
    (b : Beside s t) : Called t.trace pending := by
  refine h.inward ?_ (.of_beside b)
  obtain ⟨l, trace, quiet⟩ := b.trace
  refine ⟨l, trace, fun e he => Event.outermost?_of_pushes ?_⟩
  have := quiet e he
  cases e <;> first | rfl | simp [Event.isQuiet] at this

/-- A segment takes a task, calls the one that was taken, or leaves both alone. -/
theorem Called.segment {s t : Session} {work : Work} {p : Progress}
    (sound : Sound ⟨s, work.calls, []⟩) (h : Called s.trace (work.pending?.map (·.1)))
    (untaken : work.origin? = some .program → ∀ e ∈ s.trace, e.taken? = none)
    (seg : Segment s work p t) : Called t.trace p.pending? := by
  have taking {round : Round} {ran : Bool} (ht : work.taking? = some (round, ran)) :
      Called s.trace none := by
    rwa [Work.pending?_of_taking? ht] at h
  cases seg with
  | @within _ o _ _ ho m leads rooted =>
      have registers := Registers.of_moves sound m
      rw [leads.pending?]
      by_cases program : o = .program
      · subst program
        exact .of_untaken (registers.untaken (untaken ho))
      · rw [Work.pending?_of_origin? ho] at h
        refine h.inward ?_ registers
        rcases rooted program with same | unpushed
        · cases hc : work.calls.getLast? with
          | some call => exact (Moves.inward sound m hc (List.mem_of_getLast? (same.trans hc))).2
          | none =>
              -- the code of a task is inside its call
              cases work with
              | inCall call point callers base => simp [Work.calls] at hc
              | instruction => exact absurd (Option.some_inj.mp ho).symm program
              | pass => cases ho
              | atPass => cases ho
        · exact .of_unpushed unpushed
  | @start _ task base id _ thisBinding hp _ hid shallow m =>
      rw [Work.calls_of_pending? hp] at sound
      rw [hp] at h
      have inside := sound.move (.enter task.label thisBinding 0 .undefined hid shallow)
      have opened : Called (s.opening id task.label).trace (some task) :=
        h.inward (.of_unpushed (.of_rescoped (.opening s id task.label)))
          (.of_rescoped (.opening s id task.label))
      have height := inside.held.stack.length
      have entered : Called (s.entered id task.label thisBinding 0 .undefined).trace none := by
        have trace : (s.entered id task.label thisBinding 0 .undefined).trace =
            (s.opening id task.label).trace ++ _ :=
          Session.trace_publish (List.forall_mem_singleton.mpr rfl)
        rw [trace]
        refine opened.call ((s.opening id task.label).store.pushFrame task.label
          "function" thisBinding 0).value rfl (if_pos ?_) ?_
        · simp only [Session.entered, Session.publish_store] at height
          exact height
        · show (if task.label.isEmpty then "anonymous" else task.label) = task.label
          rw [Task.label_isEmpty, if_neg (by simp)]
      refine entered.inward ?_ (.of_moves inside m)
      exact (Moves.inward inside m rfl List.mem_cons_self).2
  | @microtask _ _ _ task rest ht queue =>
      refine Called.beside (s := s.publish s.store.nextMicrotask) ?_ (.logConsole _ _ _)
      have trace := (requeues_nextMicrotask s.store).trace
      unfold Store.nextMicrotask at trace ⊢
      rw [queue] at trace ⊢
      rw [trace]
      exact (taking ht).take rfl rfl
  | @callback _ _ task rest ht _ queue =>
      refine Called.beside (s := s.publish s.store.nextCallback) ?_ (.logConsole _ _ _)
      have trace := (requeues_nextCallback s.store).trace
      unfold Store.nextCallback at trace ⊢
      rw [queue] at trace ⊢
      rw [trace]
      exact (taking ht).take rfl rfl
  | nothing ht => exact taking ht
  | idle ht => exact taking ht
  | wake => exact h

namespace Called

variable {s t : Session} {why fault : Option Fault}

/-- The unit of work is run to its next pause or to its end. -/
theorem working {u : UnitOfWork} {p : Progress} (h : Called s.trace s.pending?)
    (standing : Standing why s) (passing : Passing s) (hph : s.phase ≠ .completed)
    (hu : s.machine.unit = some u) (seg : Segment (s.working u) u.work p t) :
    Called t.trace p.pending? := by
  refine Called.segment ((standing.steady hph).working hu) ?_ (fun program => ?_) seg
  · rw [Session.pending?, hu] at h
    exact h
  · exact passing.untaken (.inr ⟨u, hu, program⟩)

theorem tick (h : Called s.trace s.pending?) (standing : Standing why s) (passing : Passing s)
    (k : Tick s fault t) (on : t.phase ≠ .completed) : Called t.trace t.pending? := by
  cases k with
  | beside phase gate openings runActive b hm hph =>
      have same : t.pending? = s.pending? := by
        rw [Session.pending?, hm]
        rfl
      rw [same]
      exact h.beside b
  | fire id =>
      have same : (s.publish (s.store.moveToCallbacks id)).pending? = s.pending? := by
        rw [Session.pending?, Session.publish_machine]
        rfl
      rw [same, (requeues_moveToCallbacks s.store id).trace]
      refine h.append (fun e he => ?_) fun e he => ?_
      all_goals
        obtain ⟨_, _, rfl⟩ := eq_of_mem_events_moveToCallbacks he
        rfl
  | instruction _ none _ =>
      rw [Session.pending?, none] at h
      exact h
  | pass _ none _ =>
      rw [Session.pending?, none] at h
      exact h
  | pause hph hu seg => exact h.working standing passing hph hu seg
  | complete hph hu seg => exact h.working standing passing hph hu seg
  | fail _ _ _ _ _ _ he => exact absurd he on
  | ended _ _ _ _ _ he => exact absurd he on

end Called

/-- Over every run, as long as the program is on, every task that was taken was
called once, but for the one that is about to be. -/
theorem Reached.called {why : Option Fault} {s : Session} (h : Reached why s)
    (hph : s.phase ≠ .completed) : Called s.trace s.pending? := by
  suffices goes : Passing s ∧ (s.phase ≠ .completed → Called s.trace s.pending?) from goes.2 hph
  refine (h.induct (P := fun _ s => Passing s ∧ (s.phase ≠ .completed → Called s.trace s.pending?))
    (fun s program _ => ?_) fun why fault s t standing ih k => ?_).2
  · exact ⟨.of_ended rfl fun _ => s.begun_untaken program,
      fun _ => .of_untaken (s.begun_untaken program)⟩
  · refine ⟨ih.1.tick standing k, fun on => ?_⟩
    exact (ih.2 (k.on on).2).tick standing ih.1 k on

/-! ## How a program comes to its end -/

namespace Session

/-- From `s` a segment is come to that faults, and the program ends with it, in
`t`. -/
def Breaks (s t : Session) : Prop :=
  ∃ u unit fault, Strides s u ∧ u.phase ≠ .completed ∧ u.machine.unit = some unit ∧
    u.segmentFault unit = some fault ∧ t.store = ((Act.advance Act.plain).run u).2.store ∧
    t.trace = ((Act.advance Act.plain).run u).2.trace

/-- From `s` the program comes to where no work is left, and ends there, in `t`. -/
def RunsOut (s t : Session) : Prop :=
  ∃ u, Strides s u ∧ u.phase ≠ .completed ∧ u.hasMore = false ∧
    t.store = ((Act.finish Act.plain).run u).2.store ∧
    t.trace = ((Act.finish Act.plain).run u).2.trace

end Session

/-- A unit of work ends the program only by a fault. -/
theorem Act.advance_faults {s : Session} {u : UnitOfWork} (st : Steady s)
    (hu : s.machine.unit = some u) (on : s.phase ≠ .completed)
    (ended : ((advance plain).run s).2.phase = .completed) : ∃ f, s.segmentFault u = some f := by
  have driven := ((coded_plainSegment u.work).untouched (s.working u)).after.driven
  rw [run_advance hu (st.waits u hu)] at ended
  unfold Session.segmentFault
  rcases hseg : ((runSegment plain u.work).run (s.working u) : Except Fault Progress × Session) with
    ⟨fault | p, t⟩
  · exact ⟨fault, rfl⟩
  · rw [hseg] at ended driven
    have phase : t.phase = s.phase := (congrArg Machine.phase driven :)
    dsimp only at ended
    rw [run_afterSegment_ok driven] at ended
    cases p with
    | paused work => exact absurd (phase.symm.trans ended) on
    | ended => exact absurd (phase.symm.trans ended) on

/-- When the program is over, nothing but its seat is touched. -/
theorem Stride.rests {s t : Session} (d : Stride s t) (completed : s.phase = .completed) :
    t.store = s.store ∧ t.trace = s.trace := by
  cases d with
  | seat => exact ⟨rfl, rfl⟩
  | phase _ hph | wait hph | take hph | advance hph | finish hph => exact absurd completed hph

/-- A stride ends the program by a fault, or when no work is left. -/
theorem Stride.completed {s t : Session} (live : s.Live) (d : Stride s t)
    (on : s.phase ≠ .completed) (completed : t.phase = .completed) : s.Breaks t ∨ s.RunsOut t := by
  cases d with
  | @phase phase hne _ =>
      obtain ⟨_, t, run, -, hm⟩ := (Act.ends_setPhase (s := s) phase).exists_ok
      rw [run, Session.phase, hm] at completed
      exact absurd completed hne
  | seat => exact absurd completed on
  | wait =>
      obtain ⟨t, run, -, hm, -⟩ := Act.fireUntil_live live _
      rw [run, Session.phase, hm] at completed
      exact absurd completed on
  | take => exact absurd completed on
  | @advance u _ hu =>
      obtain ⟨f, faults⟩ := Act.advance_faults (live.steady on) hu on completed
      exact .inl ⟨s, u, f, .refl, on, hu, faults, rfl, rfl⟩
  | finish _ more => exact .inr ⟨s, .refl, on, more, rfl, rfl⟩

theorem Strides.completed {s t : Session} (live : s.Live) (d : Strides s t)
    (on : s.phase ≠ .completed) (completed : t.phase = .completed) : s.Breaks t ∨ s.RunsOut t := by
  induction d with
  | refl => exact absurd completed on
  | @tail u t path step ih =>
      by_cases before : u.phase = .completed
      · obtain ⟨store, trace⟩ := step.rests before
        unfold Session.Breaks Session.RunsOut at ih ⊢
        rw [store, trace]
        exact ih before
      · refine (step.completed (Strides.live live path) before completed).imp ?_ ?_
        · rintro ⟨v, unit, fault, path', rest⟩
          exact ⟨v, unit, fault, path.trans path', rest⟩
        · rintro ⟨v, path', rest⟩
          exact ⟨v, path.trans path', rest⟩

/-- A program that runs out of work has nothing in its queues, and every task
that it made was taken and called. -/
theorem Session.RunsOut.emptied {s t : Session} (live : s.Live) (h : s.RunsOut t) :
    t.store.state.loop = {} ∧ Called t.trace none := by
  obtain ⟨u, path, on, more, store, trace⟩ := h
  have live := path.live live
  have hu := live.unit_of_hasMore on more
  obtain ⟨_, v, run, b, -⟩ := (Act.ends_finish (E := fun _ _ => False) hu).exists_ok
  rw [run] at store trace
  have empty : u.store.state.loop = {} := by
    have loaded := live.loaded
    have phase : (u.machine.phase != .completed) = true := bne_iff_ne.mpr on
    simp only [Session.hasMore, loaded, phase, Bool.true_and, Bool.or_eq_false_iff,
      Store.hasPendingTasks, Bool.not_eq_false', Bool.and_eq_true, List.isEmpty_iff] at more
    obtain ⟨-, ⟨timers, callbacks⟩, microtasks⟩ := more
    cases hl : u.store.state.loop with
    | mk ts cs ms =>
        rw [hl] at timers callbacks microtasks
        cases timers
        cases callbacks
        cases microtasks
        rfl
  obtain ⟨why, reached⟩ := live
  have called := reached.called on
  rw [Session.pending?, hu] at called
  refine ⟨?_, trace ▸ called.beside b⟩
  rw [store, b.loop, empty]

theorem Act.ends_error_told (s : Session) (text : String) {E : Fault → Session → Prop} :
    Ends (error plain text) s
      (fun _ t => .console ⟨"error", [text], s.now⟩ ∈ t.trace ∧ t.machine = s.machine) E := by
  have trace : (s.publish (s.store.logConsole "error" [text] s.now)).trace =
      s.trace ++ [.console ⟨"error", [text], s.now⟩] :=
    Session.trace_publish (List.forall_mem_singleton.mpr rfl)
  unfold error log
  rw [ends_change, trace]
  exact ⟨List.mem_append_right _ List.mem_cons_self, Session.publish_machine ..⟩

/-- A break is told on the console. -/
theorem Session.Breaks.told {s t : Session} (live : s.Live) (h : s.Breaks t) :
    ∃ fault : Fault, ∃ now, Event.console ⟨"error", [fault.report], now⟩ ∈ t.trace := by
  obtain ⟨u, unit, fault, path, on, hu, faults, -, trace⟩ := h
  have st := (path.live live).steady on
  have driven := ((Act.coded_plainSegment unit.work).untouched (u.working unit)).after.driven
  rw [Act.run_advance hu (st.waits unit hu)] at trace
  unfold Session.segmentFault at faults
  rcases hseg : ((Act.runSegment Act.plain unit.work).run (u.working unit) :
      Except Fault Progress × Session) with ⟨f | p, v⟩
  · rw [hseg] at trace faults driven
    cases faults
    have generation : v.machine.generation = u.machine.generation :=
      (congrArg Machine.generation driven :)
    have ends : Act.Ends (Act.afterSegment Act.plain unit u.machine.generation (.error fault)) v
        (fun _ w => Event.console ⟨"error", [fault.report], v.now⟩ ∈ w.trace) (fun _ _ => False) := by
      unfold Act.afterSegment Act.failUnit
      rw [Act.ends_bind, Act.ends_bind, Act.ends_machine, if_pos generation, Act.ends_bind,
        Act.ends_modifyMachine, Act.ends_bind]
      refine (Act.ends_error_told (v.holding none) fault.report).mono ?_ fun _ _ h => h
      rintro _ w ⟨told, hm⟩
      refine (Act.ends_finish (congrArg Machine.unit hm)).mono ?_ fun _ _ h => h
      rintro _ x ⟨b, -⟩
      obtain ⟨l, trace, -⟩ := b.trace
      rw [Act.ends_pure, trace]
      exact List.mem_append_left _ told
    obtain ⟨_, w, run, told⟩ := ends.exists_ok
    dsimp only at trace
    rw [run] at trace
    exact ⟨fault, v.now, trace ▸ told⟩
  · rw [hseg] at faults
    cases faults

/-! ## All runs -/

end Runloop
