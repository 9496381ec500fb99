/-
# What the trace tells about the event loop

Code only registers tasks: it puts microtasks and timers at the end of their
queues (`Registers`).  Everything else that happens to a queue is an event of
its own, so the trace alone says which tasks wait, and whose turn it is: the
`agenda`.  `Orderly` says when a task may be taken: when no other task has the
turn, from the front of its queue, and a callback only if no microtask waits.

Over every run the trace is orderly, and the queues are those of the agenda
(`Reached.ordered`).
-/
import Runloop.Proofs.Reached

namespace Runloop

namespace Event

/-- The microtask that an event tells was added. -/
def added? : Event → Option Task
  | .eventLoop .addMicrotask task _ => task
  | _ => none

/-- The task that an event tells was moved from the timers to the callbacks. -/
def moved? : Event → Option Task
  | .eventLoop .moveToCallbacks task _ => task
  | _ => none

def takenMicrotask? : Event → Option Task
  | .eventLoop .processMicrotask task _ => task
  | _ => none

def takenCallback? : Event → Option Task
  | .eventLoop .processCallback task _ => task
  | _ => none

/-- The task that an event tells was taken from a queue. -/
def taken? (e : Event) : Option Task := e.takenMicrotask?.or e.takenCallback?

/-- An event that leaves the queues alone or registers a task. -/
def registers (e : Event) : Bool :=
  e.moved?.isNone && e.taken?.isNone

theorem registers_of_topic {e : Event} (h : e.topic ≠ .eventLoop) :
    e.registers = true ∧ e.added? = none := by
  cases e <;> first | exact ⟨rfl, rfl⟩ | exact absurd rfl h

end Event

/-- From `s` to `t` tasks were only registered. -/
def Registers (s t : Session) : Prop :=
  ∃ l, t.trace = s.trace ++ l ∧ (∀ e ∈ l, e.registers = true) ∧
    t.store.state.loop.microtasks = s.store.state.loop.microtasks ++ l.filterMap Event.added? ∧
    t.store.state.loop.callbacks = s.store.state.loop.callbacks

namespace Registers

variable {s t u : Session}

theorem of_topic {l : List Event} (trace : t.trace = s.trace ++ l)
    (topic : ∀ e ∈ l, e.topic ≠ .eventLoop)
    (loop : t.store.state.loop = s.store.state.loop) : Registers s t := by
  refine ⟨l, trace, fun e he => (Event.registers_of_topic (topic e he)).1, ?_, by rw [loop]⟩
  have none : l.filterMap Event.added? = [] :=
    List.filterMap_eq_nil_iff.mpr fun e he => (Event.registers_of_topic (topic e he)).2
  rw [loop, none, List.append_nil]

theorem refl (s : Session) : Registers s s :=
  of_topic (List.append_nil _).symm (by simp) rfl

theorem trans (h : Registers s t) (h' : Registers t u) : Registers s u := by
  obtain ⟨l, trace, plain, micro, calls⟩ := h
  obtain ⟨l', trace', plain', micro', calls'⟩ := h'
  refine ⟨l ++ l', by rw [trace', trace, List.append_assoc], fun e he => ?_, ?_,
    calls'.trans calls⟩
  · exact (List.mem_append.mp he).elim (plain e) (plain' e)
  · rw [micro', micro, List.filterMap_append, List.append_assoc]

theorem of_rescoped (h : Rescoped s t) : Registers s t := by
  obtain ⟨l, trace, topic⟩ := h.trace
  exact of_topic trace (fun e he => by simp [topic e he]) h.loop

theorem of_beside (h : Beside s t) : Registers s t := by
  obtain ⟨l, trace, quiet⟩ := h.trace
  exact of_topic trace (fun e he => (Beside.topic_of_isQuiet (quiet e he)).2.1) h.loop

theorem of_deed {scope : String} (h : Deed scope s t) : Registers s t := by
  cases h.loop with
  | same loop trace topic => exact of_topic trace topic loop
  | microtask _ loop trace =>
      exact ⟨_, trace, List.forall_mem_singleton.mpr rfl, by rw [loop]; rfl, by rw [loop]⟩
  | timer _ loop trace =>
      exact ⟨_, trace, List.forall_mem_singleton.mpr rfl, by rw [loop]; exact (List.append_nil _).symm,
        by rw [loop]⟩

theorem entered (s : Session) (id name thisBinding : String) (line : Int) (receiver : Value) :
    Registers s (s.entered id name thisBinding line receiver) := by
  refine (of_rescoped (.opening s id name)).trans ?_
  refine of_topic (l := ((s.opening id name).store.pushFrame name "function" thisBinding line).events)
    (Session.trace_publish (List.forall_mem_singleton.mpr rfl))
    (List.forall_mem_singleton.mpr (by simp [Event.topic])) ?_
  simp only [Session.entered, Session.publish_store]
  rfl

theorem left (s : Session) (call : Call) (stack : s.store.state.callStack ≠ []) :
    Registers s (s.left call) := by
  refine Registers.trans ?_ (of_rescoped (.foldl .shut call.closing s.popped))
  refine of_topic (Session.popped_trace (List.getLast?_eq_some_getLast stack))
    (List.forall_mem_singleton.mpr (by simp [Event.topic])) ?_
  rw [Session.popped_store]
  rfl

theorem of_moves {a b : Setting} (sound : Sound a) (m : Moves a b) :
    Registers a.session b.session := by
  induction m with
  | refl => exact refl _
  | @tail b c m step ih =>
      refine ih.trans ?_
      cases step with
      | deed d => exact of_deed d
      | enter => exact entered ..
      | leave => exact left _ _ (sound.moves m).held.stack.ne_nil
      | spill name => exact of_rescoped (.opening _ _ name)

end Registers

/-! ## Who has the floor -/

/-- Who has the floor: nobody; a task that was taken; the call that runs a task,
known by its frame; or some other call that was made in place of it. -/
inductive Floor where
  | free
  | taken (task : Task)
  | running (frame : String)
  | astray

namespace Floor

/-- A frame is pushed, and so many frames are there then. -/
def pushed (frame : Frame) (height : Nat) : Floor → Floor
  | taken task => if frame.name = task.label ∧ height = 2 then running frame.id else astray
  | floor => floor

/-- A frame is popped, and so many frames are left. -/
def popped (frame : Frame) (height : Nat) : Floor → Floor
  | running id => if frame.id = id ∧ height = 1 then free else running id
  | floor => floor

/-- Who has the floor goes with the task that is about to run and the frames
that are there: the frame of a task that runs is the one on the global frame. -/
def Fits (pending : Option Task) (stack : List Frame) : Floor → Prop
  | free => pending = none
  | taken task => pending = some task
  | running id => pending = none ∧ (stack.map (·.id))[1]? = some id
  | astray => False

namespace Fits

variable {floor : Floor} {pending : Option Task} {stack stack' : List Frame} {frame : Frame}

theorem free_of_length (h : floor.Fits none stack) (length : stack.length = 1) :
    floor = free := by
  cases floor with
  | free => rfl
  | taken => cases h
  | running id =>
      obtain ⟨bottom, rfl⟩ := List.length_eq_one_iff.mp length
      exact absurd h.2 (by simp)
  | astray => exact h.elim

theorem of_ids (h : floor.Fits pending stack)
    (ids : stack'.map (·.id) = stack.map (·.id)) : floor.Fits pending stack' := by
  cases floor with
  | running id => exact ⟨h.1, ids ▸ h.2⟩
  | _ => exact h

theorem pushed (h : floor.Fits none stack)
    (ids : stack'.map (·.id) = stack.map (·.id) ++ [frame.id]) :
    (floor.pushed frame stack'.length).Fits none stack' := by
  cases floor with
  | running id =>
      obtain ⟨there, -⟩ := List.getElem?_eq_some_iff.mp h.2
      refine ⟨rfl, ?_⟩
      rw [ids, List.getElem?_append_left there]
      exact h.2
  | free => rfl
  | taken => cases h
  | astray => exact h.elim

theorem popped (h : floor.Fits none stack)
    (ids : stack.map (·.id) = stack'.map (·.id) ++ [frame.id]) (rest : stack' ≠ []) :
    (floor.popped frame stack'.length).Fits none stack' := by
  cases floor with
  | running id =>
      have second := h.2
      rw [ids] at second
      have positive := List.length_pos_iff.mpr rest
      by_cases last : stack'.length = 1
      · -- what is popped is the frame on the global one
        rw [List.getElem?_append_right (by simp [last]), List.length_map, last] at second
        have same : frame.id = id := by simpa using second
        simp [Floor.popped, Floor.Fits, same, last]
      · rw [List.getElem?_append_left (by rw [List.length_map]; omega)] at second
        simp only [Floor.popped, last, and_false, if_false]
        exact ⟨rfl, second⟩
  | free => rfl
  | taken => cases h
  | astray => exact h.elim

end Fits

end Floor

/-! ## The agenda -/

/-- The tasks that wait, and who has the floor. -/
structure Agenda where
  microtasks : List Task := []
  callbacks : List Task := []
  floor : Floor := .free

namespace Agenda

/-- What an event adds to the agenda. -/
def note (a : Agenda) : Event → Agenda
  | .eventLoop .addMicrotask (some task) _ => { a with microtasks := a.microtasks ++ [task] }
  | .eventLoop .moveToCallbacks (some task) _ => { a with callbacks := a.callbacks ++ [task] }
  | .eventLoop .processMicrotask (some task) _ =>
    { a with microtasks := a.microtasks.tail, floor := .taken task }
  | .eventLoop .processCallback (some task) _ =>
    { a with callbacks := a.callbacks.tail, floor := .taken task }
  | .callStack .push (some frame) stack => { a with floor := a.floor.pushed frame stack.length }
  | .callStack .pop (some frame) stack => { a with floor := a.floor.popped frame stack.length }
  | _ => a

/-- Whether an event may come next: a task is taken from the front of its queue
when nobody has the floor, and a callback only if no microtask waits. -/
def Allows (a : Agenda) : Event → Prop
  | .eventLoop .processMicrotask (some task) _ =>
    a.floor = .free ∧ a.microtasks.head? = some task
  | .eventLoop .processCallback (some task) _ =>
    a.floor = .free ∧ a.microtasks = [] ∧ a.callbacks.head? = some task
  | _ => True

end Agenda

/-- The agenda that a trace comes to. -/
def agenda (trace : List Event) : Agenda := trace.foldl Agenda.note {}

/-- Every event of a trace could come when it came. -/
def Orderly (trace : List Event) : Prop :=
  ∀ before e, before ++ [e] <+: trace → (agenda before).Allows e

theorem agenda_append (trace l : List Event) :
    agenda (trace ++ l) = l.foldl Agenda.note (agenda trace) :=
  List.foldl_append

/-- Whether an event gives the floor or takes it. -/
def Event.passesFloor : Event → Bool
  | .callStack .push (some _) _ | .callStack .pop (some _) _ => true
  | .eventLoop .processMicrotask (some _) _ | .eventLoop .processCallback (some _) _ => true
  | _ => false

namespace Agenda

variable {a : Agenda} {l : List Event} {e : Event}

theorem note_floor (h : e.passesFloor = false) : (a.note e).floor = a.floor := by
  cases e with
  | callStack action frame _ =>
      cases action <;> cases frame <;> first | rfl | cases h
  | eventLoop action task _ =>
      cases action <;> cases task <;> first | rfl | cases h
  | _ => rfl

theorem foldl_note_floor (h : ∀ e ∈ l, e.passesFloor = false) :
    (l.foldl note a).floor = a.floor := by
  induction l generalizing a with
  | nil => rfl
  | cons e l ih =>
      rw [List.foldl_cons, ih fun e he => h e (List.mem_cons_of_mem _ he),
        note_floor (h e List.mem_cons_self)]

theorem note_queues (h : e.registers = true) :
    (a.note e).microtasks = a.microtasks ++ e.added?.toList ∧
      (a.note e).callbacks = a.callbacks ∧ a.Allows e := by
  cases e with
  | callStack action frame _ =>
      cases action <;> cases frame <;> exact ⟨(List.append_nil _).symm, rfl, trivial⟩
  | eventLoop action task _ =>
      cases action <;> cases task <;>
        first
        | exact ⟨(List.append_nil _).symm, rfl, trivial⟩
        | exact ⟨rfl, rfl, trivial⟩
        | cases h
  | _ => exact ⟨(List.append_nil _).symm, rfl, trivial⟩

theorem foldl_note_queues (h : ∀ e ∈ l, e.registers = true) :
    (l.foldl note a).microtasks = a.microtasks ++ l.filterMap Event.added? ∧
      (l.foldl note a).callbacks = a.callbacks := by
  induction l generalizing a with
  | nil => exact ⟨(List.append_nil _).symm, rfl⟩
  | cons e l ih =>
      obtain ⟨micro, calls, -⟩ := note_queues (a := a) (h e List.mem_cons_self)
      obtain ⟨micro', calls'⟩ := ih (a := a.note e) fun e he => h e (List.mem_cons_of_mem _ he)
      refine ⟨?_, calls'.trans calls⟩
      rw [List.foldl_cons, micro', micro, List.append_assoc, List.filterMap_cons]
      cases e.added? <;> rfl

end Agenda

namespace Orderly

variable {trace l : List Event} {e : Event}

theorem concat (h : Orderly trace) (he : (agenda trace).Allows e) : Orderly (trace ++ [e]) := by
  intro before e' hp
  rcases event_cases hp with ⟨rfl, rfl⟩ | earlier
  · exact he
  · exact h before e' earlier

theorem append (h : Orderly trace) (hl : ∀ e ∈ l, e.registers = true) : Orderly (trace ++ l) := by
  induction l generalizing trace with
  | nil => rwa [List.append_nil]
  | cons e l ih =>
      rw [← List.singleton_append, ← List.append_assoc]
      refine ih (h.concat ?_) fun e he => hl e (List.mem_cons_of_mem _ he)
      exact (Agenda.note_queues (hl e List.mem_cons_self)).2.2

end Orderly

/-! ## The queues are those of the agenda -/

/-- The trace is orderly, and what waits in the queues is what its agenda
lists. -/
structure Listed (s : Session) : Prop where
  orderly : Orderly s.trace
  microtasks : (agenda s.trace).microtasks = s.store.state.loop.microtasks
  callbacks : (agenda s.trace).callbacks = s.store.state.loop.callbacks

namespace Listed

variable {s t : Session} {task : Task} {rest : List Task}

theorem registers (h : Listed s) (r : Registers s t) : Listed t := by
  obtain ⟨l, trace, plain, micro, calls⟩ := r
  obtain ⟨micro', calls'⟩ := Agenda.foldl_note_queues (a := agenda s.trace) plain
  refine ⟨trace ▸ h.orderly.append plain, ?_, ?_⟩
  · rw [trace, agenda_append, micro', micro, h.microtasks]
  · rw [trace, agenda_append, calls', calls, h.callbacks]

theorem fire (h : Listed s) (id : String) : Listed (s.publish (s.store.moveToCallbacks id)) := by
  have trace := (requeues_moveToCallbacks s.store id).trace
  have store := Session.publish_store s (s.store.moveToCallbacks id)
  unfold Store.moveToCallbacks at trace store ⊢
  cases found : s.store.state.loop.timers.find? (·.id == id) with
  | none =>
      rw [found] at trace store
      refine h.registers (.of_topic trace (by simp) ?_)
      rw [store]
  | some moved =>
      rw [found] at trace store
      refine ⟨trace ▸ h.orderly.concat trivial, ?_, ?_⟩
      · rw [trace, agenda_append, store]
        exact h.microtasks
      · rw [trace, agenda_append, store]
        show (agenda s.trace).callbacks ++ [moved] = s.store.state.loop.callbacks ++ [moved]
        rw [h.callbacks]

/-- The oldest microtask is taken. -/
theorem microtask (h : Listed s) (free : (agenda s.trace).floor = .free)
    (queue : s.store.state.loop.microtasks = task :: rest) :
    Listed (s.publish s.store.nextMicrotask) ∧
      (agenda (s.publish s.store.nextMicrotask).trace).floor = .taken task := by
  have trace := (requeues_nextMicrotask s.store).trace
  have store := Session.publish_store s s.store.nextMicrotask
  unfold Store.nextMicrotask at trace store ⊢
  rw [queue] at trace store ⊢
  have front : (agenda s.trace).microtasks = task :: rest := h.microtasks.trans queue
  refine ⟨⟨trace ▸ h.orderly.concat ⟨free, by rw [front]; rfl⟩, ?_, ?_⟩, ?_⟩
  · rw [trace, agenda_append, store]
    show (agenda s.trace).microtasks.tail = rest
    rw [front]
    rfl
  · rw [trace, agenda_append, store]
    exact h.callbacks
  · rw [trace, agenda_append]
    rfl

/-- The oldest callback is taken. -/
theorem callback (h : Listed s) (free : (agenda s.trace).floor = .free)
    (none : s.store.state.loop.microtasks = [])
    (queue : s.store.state.loop.callbacks = task :: rest) :
    Listed (s.publish s.store.nextCallback) ∧
      (agenda (s.publish s.store.nextCallback).trace).floor = .taken task := by
  have trace := (requeues_nextCallback s.store).trace
  have store := Session.publish_store s s.store.nextCallback
  unfold Store.nextCallback at trace store ⊢
  rw [queue] at trace store ⊢
  have front : (agenda s.trace).callbacks = task :: rest := h.callbacks.trans queue
  have waits : (agenda s.trace).microtasks = [] := h.microtasks.trans none
  refine ⟨⟨trace ▸ h.orderly.concat ⟨free, waits, by rw [front]; rfl⟩, ?_, ?_⟩, ?_⟩
  · rw [trace, agenda_append, store]
    exact h.microtasks
  · rw [trace, agenda_append, store]
    show (agenda s.trace).callbacks.tail = rest
    rw [front]
    rfl
  · rw [trace, agenda_append]
    rfl

end Listed

/-! ## Code keeps the floor -/

theorem map_id_modifyLast {g : Frame → Frame} (hg : ∀ f, (g f).id = f.id) (stack : List Frame) :
    (modifyLast g stack).map (·.id) = stack.map (·.id) := by
  rcases List.eq_nil_or_concat stack with rfl | ⟨front, top, rfl⟩
  · rfl
  · rw [List.concat_eq_append, modifyLast_concat]
    simp [hg]

namespace Session

/-- Who has the floor. -/
def floor (s : Session) : Floor := (agenda s.trace).floor

variable {s t : Session}

theorem floor_of_trace {l : List Event} (trace : t.trace = s.trace ++ l)
    (h : ∀ e ∈ l, e.passesFloor = false) : t.floor = s.floor := by
  rw [floor, trace, agenda_append]
  exact Agenda.foldl_note_floor h

theorem floor_of_topic {l : List Event} (trace : t.trace = s.trace ++ l)
    (h : ∀ e ∈ l, e.topic ≠ .callStack ∧ e.topic ≠ .eventLoop) : t.floor = s.floor := by
  refine floor_of_trace trace fun e he => ?_
  obtain ⟨stack, loop⟩ := h e he
  cases e <;> first | rfl | exact absurd rfl stack | exact absurd rfl loop

theorem floor_of_beside (h : Beside s t) : t.floor = s.floor := by
  obtain ⟨l, trace, quiet⟩ := h.trace
  refine floor_of_topic trace fun e he => ?_
  obtain ⟨-, loop, stack⟩ := Beside.topic_of_isQuiet (quiet e he)
  exact ⟨stack, loop⟩

theorem floor_of_rescoped (h : Rescoped s t) : t.floor = s.floor := by
  obtain ⟨l, trace, topic⟩ := h.trace
  exact floor_of_topic trace fun e he => by simp [topic e he]

theorem floor_of_deed {scope : String} (h : Deed scope s t) : t.floor = s.floor := by
  obtain ⟨l, trace, deed⟩ := h.trace
  refine floor_of_trace trace fun e he => ?_
  have := deed e he
  cases e with
  | callStack action _ _ => cases action <;> simp_all [Event.isDeed, Event.isAside, Event.passesFloor]
  | eventLoop action _ _ => cases action <;> simp_all [Event.isDeed, Event.isAside, Event.passesFloor]
  | _ => rfl

/-- A frame is pushed for the call that is entered. -/
theorem floor_entered (s : Session) (id name thisBinding : String) (line : Int) (receiver : Value) :
    ∃ frame : Frame, frame.name = (if name.isEmpty then "anonymous" else name) ∧
      (s.entered id name thisBinding line receiver).store.state.callStack.map (·.id) =
        s.store.state.callStack.map (·.id) ++ [frame.id] ∧
      (s.entered id name thisBinding line receiver).floor =
        s.floor.pushed frame
          (s.entered id name thisBinding line receiver).store.state.callStack.length := by
  have r := Rescoped.opening s id name
  have trace : (s.entered id name thisBinding line receiver).trace = (s.opening id name).trace ++
      ((s.opening id name).store.pushFrame name "function" thisBinding line).events :=
    Session.trace_publish (List.forall_mem_singleton.mpr rfl)
  have store : (s.entered id name thisBinding line receiver).store =
      ((s.opening id name).store.pushFrame name "function" thisBinding line).store := by
    simp only [Session.entered, Session.publish_store]
  refine ⟨((s.opening id name).store.pushFrame name "function" thisBinding line).value, rfl, ?_, ?_⟩
  · rw [store]
    simp only [Store.pushFrame, Store.setStack, List.map_append, List.map_cons, List.map_nil]
    rw [map_id_modifyLast (g := fun f => { f with active := false }) fun _ => rfl, r.stack]
  · rw [store, floor, trace, agenda_append, ← floor_of_rescoped r]
    rfl

/-- The top frame is popped for the call that is left. -/
theorem floor_left (s : Session) (call : Call) (stack : s.store.state.callStack ≠ []) :
    ∃ frame : Frame,
      s.store.state.callStack.map (·.id) =
        (s.left call).store.state.callStack.map (·.id) ++ [frame.id] ∧
      (s.left call).floor =
        s.floor.popped frame (s.left call).store.state.callStack.length := by
  have r : Rescoped s.popped (s.left call) := .foldl .shut call.closing s.popped
  have trace := Session.popped_trace (List.getLast?_eq_some_getLast stack)
  refine ⟨{ s.store.state.callStack.getLast stack with active := false }, ?_, ?_⟩
  · rw [r.stack, Session.popped_store]
    simp only [Store.setStack]
    rw [map_id_modifyLast (g := fun f => { f with active := true }) fun _ => rfl]
    nth_rewrite 1 [← List.dropLast_concat_getLast stack]
    simp
  · rw [floor_of_rescoped r, r.stack, floor, trace, agenda_append]
    rfl

end Session

theorem Move.fits {a b : Setting} (sound : Sound a) (m : Move a b)
    (h : a.session.floor.Fits none a.session.store.state.callStack) :
    b.session.floor.Fits none b.session.store.state.callStack := by
  cases m with
  | deed d =>
      obtain ⟨g, hg, stack⟩ := d.stack
      refine Session.floor_of_deed d ▸ h.of_ids ?_
      rw [stack]
      refine map_id_modifyLast (fun f => ?_) _
      obtain ⟨shown, e⟩ := hg f
      rw [e]
  | enter name thisBinding line receiver _ =>
      obtain ⟨frame, -, ids, floor⟩ := Session.floor_entered _ _ name thisBinding line receiver
      exact floor ▸ h.pushed ids
  | @leave s call calls spilt =>
      obtain ⟨frame, ids, floor⟩ := Session.floor_left s call sound.held.stack.ne_nil
      exact floor ▸ h.popped ids (sound.move .leave).held.stack.ne_nil
  | @spill s calls id name line _ =>
      have r := Rescoped.opening s id name
      exact Session.floor_of_rescoped r ▸ h.of_ids (by rw [r.stack])

theorem Moves.fits {a b : Setting} (sound : Sound a) (m : Moves a b)
    (h : a.session.floor.Fits none a.session.store.state.callStack) :
    b.session.floor.Fits none b.session.store.state.callStack := by
  induction m with
  | refl => exact h
  | tail m step ih => exact step.fits (sound.moves m) ih

/-! ## Segments -/

def Progress.pending? : Progress → Option Task
  | .paused work => work.pending?.map (·.1)
  | .ended => none

theorem Work.pending?_of_origin? {work : Work} {o : Origin} (h : work.origin? = some o) :
    work.pending? = none := by
  cases work with
  | atPass => cases h
  | _ => rfl

theorem Work.pending?_of_taking? {work : Work} {round : Round} {ran : Bool}
    (h : work.taking? = some (round, ran)) : work.pending? = none := by
  cases work with
  | atPass point => cases point <;> first | rfl | cases h
  | _ => rfl

theorem Origin.Leads.pending? {o : Origin} {p : Progress} (h : o.Leads p) : p.pending? = none := by
  cases p with
  | ended => rfl
  | paused work =>
      cases work with
      | atPass point => cases point <;> first | rfl | exact h.elim
      | _ => rfl

/-- A segment keeps the queues on the agenda, and the floor with its work. -/
theorem Segment.listed {s t : Session} {work : Work} {p : Progress} (seg : Segment s work p t)
    (sound : Sound ⟨s, work.calls, []⟩) (h : Listed s)
    (fits : s.floor.Fits (work.pending?.map (·.1)) s.store.state.callStack) :
    Listed t ∧ t.floor.Fits p.pending? t.store.state.callStack := by
  -- work that takes a task is outside of any call
  have free {round : Round} {ran : Bool} (ht : work.taking? = some (round, ran)) :
      s.floor = .free := by
    rw [Work.pending?_of_taking? ht] at fits
    rw [Work.calls_of_taking? ht] at sound
    exact fits.free_of_length sound.held.stack.length
  have said {u : Session} {text : String} {task : Task} (hl : Listed u ∧ u.floor = .taken task) :
      Listed (u.said text) ∧
        (u.said text).floor.Fits (some task) (u.said text).store.state.callStack := by
    have b := Beside.logConsole u "info" [text]
    refine ⟨hl.1.registers (.of_beside b), ?_⟩
    have floor : (u.said text).floor = .taken task := (Session.floor_of_beside b).trans hl.2
    rw [floor]
    rfl
  cases seg with
  | within ho m leads =>
      rw [Work.pending?_of_origin? ho] at fits
      exact ⟨h.registers (.of_moves sound m), leads.pending?.symm ▸ Moves.fits sound m fits⟩
  | @start _ task base id _ thisBinding hp _ hid shallow m =>
      rw [hp] at fits
      rw [Work.calls_of_pending? hp] at sound
      have inside := sound.move (.enter task.label thisBinding 0 .undefined hid shallow)
      refine ⟨(h.registers (.entered ..)).registers (.of_moves inside m), Moves.fits inside m ?_⟩
      obtain ⟨frame, name, ids, floor⟩ :=
        Session.floor_entered s id task.label thisBinding 0 .undefined
      rw [Task.label_isEmpty, if_neg (by simp)] at name
      have height := inside.held.stack.length
      have second : ((s.entered id task.label thisBinding 0 .undefined).store.state.callStack.map
          (·.id))[1]? = some frame.id := by
        have one : s.store.state.callStack.length = 1 := sound.held.stack.length
        rw [ids, List.getElem?_append_right (by simp [one]), List.length_map, one]
        rfl
      have taken : s.floor = .taken task := by
        revert fits
        cases s.floor with
        | taken other =>
            rintro ⟨⟩
            rfl
        | free => intro h; cases h
        | running => intro h; cases h.1
        | astray => exact False.elim
      show Floor.Fits _ _ (s.entered id task.label thisBinding 0 .undefined).floor
      rw [floor, taken, Floor.pushed, if_pos ⟨name, height⟩]
      exact ⟨rfl, second⟩
  | microtask ht queue => exact said (h.microtask (free ht) queue)
  | callback ht none queue => exact said (h.callback (free ht) none queue)
  | nothing ht _ _ =>
      rw [Work.pending?_of_taking? ht] at fits
      exact ⟨h, fits⟩
  | idle ht _ _ =>
      rw [Work.pending?_of_taking? ht] at fits
      exact ⟨h, fits⟩
  | wake => exact ⟨h, fits⟩

/-! ## All runs -/

/-- The task that the unit of work is about to run. -/
def Session.pending? (s : Session) : Option Task :=
  s.machine.unit.bind fun u => u.work.pending?.map (·.1)

/-- The queues are on the agenda, and while the program is on, who has the floor
goes with the unit of work. -/
structure Ordered (s : Session) : Prop where
  listed : Listed s
  fits : s.phase ≠ .completed → s.floor.Fits s.pending? s.store.state.callStack

namespace Ordered

variable {s t : Session} {why fault : Option Fault}

/-- The session goes on with the same unit of work, or with one that is about
to run the same task. -/
theorem keep (h : Ordered s) (listed : Listed t) (floor : t.floor = s.floor)
    (stack : t.store.state.callStack = s.store.state.callStack) (pending : t.pending? = s.pending?)
    (phase : t.phase ≠ .completed → s.phase ≠ .completed) : Ordered t := by
  refine ⟨listed, fun hph => ?_⟩
  rw [floor, stack, pending]
  exact h.fits (phase hph)

theorem taking {work : Work} {cursor : Nat} (h : Ordered s) (hu : s.machine.unit = none)
    (fresh : work.pending? = none) : Ordered (s.taking work cursor) := by
  refine h.keep ⟨h.listed.orderly, h.listed.microtasks, h.listed.callbacks⟩ rfl rfl ?_ fun hph => hph
  show work.pending?.map (·.1) = s.machine.unit.bind _
  rw [fresh, hu]
  rfl

theorem segment {u : UnitOfWork} {p : Progress} {unit : Option UnitOfWork} (h : Ordered s)
    (st : Steady s) (hph : s.phase ≠ .completed) (hu : s.machine.unit = some u)
    (seg : Segment (s.working u) u.work p t)
    (rest : (t.holding unit).pending? = p.pending?) : Ordered (t.holding unit) := by
  have before : s.floor.Fits (u.work.pending?.map (·.1)) s.store.state.callStack := by
    have := h.fits hph
    rwa [Session.pending?, hu] at this
  obtain ⟨listed, fits⟩ := seg.listed (st.working hu)
    ⟨h.listed.orderly, h.listed.microtasks, h.listed.callbacks⟩ before
  refine ⟨⟨listed.orderly, listed.microtasks, listed.callbacks⟩, fun _ => ?_⟩
  rw [rest]
  exact fits

/-- The program has come to its end. -/
theorem of_ended {a b : Setting} (h : Ordered s) (trace : a.session.trace = s.trace)
    (loop : a.session.store.state.loop = s.store.state.loop) (sound : Sound a) (m : Moves a b)
    (beside : Beside b.session t) (he : t.phase = .completed) : Ordered t := by
  have begins : Listed a.session :=
    ⟨trace ▸ h.listed.orderly, by rw [trace, loop]; exact h.listed.microtasks,
      by rw [trace, loop]; exact h.listed.callbacks⟩
  exact ⟨begins.registers ((Registers.of_moves sound m).trans (.of_beside beside)),
    fun hph => absurd he hph⟩

theorem tick (standing : Standing why s) (h : Ordered s) (k : Tick s fault t) : Ordered t := by
  cases k with
  | beside phase gate openings runActive b hm hph =>
      refine h.keep (h.listed.registers (.of_beside b)) (Session.floor_of_beside b) b.stack ?_ ?_
      · rw [Session.pending?, hm]
        rfl
      · intro on he
        exact on (by rw [Session.phase, hm]; exact hph.mpr he)
  | fire id =>
      have machine := Session.publish_machine s (s.store.moveToCallbacks id)
      have r := requeues_moveToCallbacks s.store id
      refine h.keep (h.listed.fire id) ?_ ?_ ?_ ?_
      · refine Session.floor_of_trace r.trace fun e he => ?_
        obtain ⟨_, _, rfl⟩ := eq_of_mem_events_moveToCallbacks he
        rfl
      · rw [Session.publish_store, r.same]
        rfl
      · rw [Session.pending?, machine]
        rfl
      · rw [Session.phase, machine]
        exact fun hph => hph
  | instruction _ hu _ => exact h.taking hu rfl
  | pass _ hu _ => exact h.taking hu rfl
  | pause hph hu seg => exact h.segment (standing.steady hph) hph hu seg rfl
  | complete hph hu seg => exact h.segment (standing.steady hph) hph hu seg rfl
  | fail hph hu failed b _ _ he =>
      obtain ⟨spilt, m, -⟩ := failed
      exact h.of_ended rfl rfl ((standing.steady hph).working hu) m b he
  | ended hph m b _ _ he =>
      have sound := (Beside.holding s none).sound (standing.steady hph).sound (.inr rfl)
      exact h.of_ended rfl rfl sound m b he

end Ordered

theorem Session.begun_ordered (s : Session) (program : List Instruction) :
    Ordered (s.begun program) := by
  have none : Orderly [] := fun before e hp => absurd (List.prefix_nil.mp hp) (by simp)
  refine ⟨⟨?_, rfl, rfl⟩, fun _ => rfl⟩
  rw [Session.begun_trace]
  exact none.append (l := [_, _, _, _]) (by simp [Event.registers, Event.moved?, Event.taken?,
    Event.takenMicrotask?, Event.takenCallback?])

theorem Reached.ordered {why : Option Fault} {s : Session} (h : Reached why s) : Ordered s :=
  (h.induct (P := fun _ s => Ordered s) (fun s program _ => s.begun_ordered program)
    fun _ _ _ _ standing h k => h.tick standing k).2

end Runloop
