/-
# The ledger of tasks

A task is made once, waits, and is taken.  The trace says where every task is:
`ledger` enters each event, and `Lawful` says when an event may be entered.  A
task that is made is new; one that is moved to the callbacks was among the
timers; one that is taken stood first in its queue.

A lawful trace loses no task and has none twice (`Lawful.conserved`), and every
event leaves a task where it is or takes it one place further (`Lawful.onward`).
Over every run the trace is lawful and the queues of the store are those of the
ledger (`Reached.booked`).
-/
import Runloop.Proofs.LoopOrder

namespace Runloop

namespace Event

/-- The timer that an event tells was started. -/
def started? : Event → Option Task
  | .eventLoop .addTimer task _ => task
  | _ => none

/-- The task that an event tells was made. -/
def made? (e : Event) : Option Task := e.started?.or e.added?

end Event

/-- Where a task can be. -/
inductive Berth where
  | timers
  | callbacks
  | microtasks
  | taken
deriving DecidableEq

/-- A task goes from the timers to the callbacks, and is taken from there or from
the microtasks. -/
def Berth.next : Berth → Option Berth
  | timers => some callbacks
  | callbacks | microtasks => some taken
  | taken => none

/-- The tasks at every place. -/
structure Ledger where
  timers : List Task := []
  callbacks : List Task := []
  microtasks : List Task := []
  taken : List Task := []

namespace Ledger

/-- The tasks at a place. -/
def tasksAt (l : Ledger) : Berth → List Task
  | .timers => l.timers
  | .callbacks => l.callbacks
  | .microtasks => l.microtasks
  | .taken => l.taken

/-- All tasks, place by place. -/
def tasks (l : Ledger) : List Task := l.timers ++ l.callbacks ++ l.microtasks ++ l.taken

/-- The queues. -/
def loop (l : Ledger) : EventLoop :=
  { timers := l.timers, callbacks := l.callbacks, microtasks := l.microtasks }

/-- Enters an event. -/
def note (l : Ledger) : Event → Ledger
  | .eventLoop .addTimer (some task) _ => { l with timers := l.timers ++ [task] }
  | .eventLoop .addMicrotask (some task) _ => { l with microtasks := l.microtasks ++ [task] }
  | .eventLoop .moveToCallbacks (some task) _ =>
    { l with
      timers := l.timers.eraseP (·.id == task.id), callbacks := l.callbacks ++ [task] }
  | .eventLoop .processMicrotask (some task) _ =>
    { l with microtasks := l.microtasks.tail, taken := l.taken ++ [task] }
  | .eventLoop .processCallback (some task) _ =>
    { l with callbacks := l.callbacks.tail, taken := l.taken ++ [task] }
  | _ => l

/-- Whether an event may be entered. -/
def Allows (l : Ledger) : Event → Prop
  | .eventLoop .addTimer (some task) _ | .eventLoop .addMicrotask (some task) _ =>
    task.id ∉ l.tasks.map (·.id)
  | .eventLoop .moveToCallbacks (some task) _ =>
    l.timers.find? (·.id == task.id) = some task
  | .eventLoop .processMicrotask (some task) _ => l.microtasks.head? = some task
  | .eventLoop .processCallback (some task) _ => l.callbacks.head? = some task
  | _ => True

end Ledger

/-- The ledger that a trace comes to. -/
def ledger (trace : List Event) : Ledger := trace.foldl Ledger.note {}

/-- Every event of a trace could be entered when it came. -/
def Lawful (trace : List Event) : Prop :=
  ∀ before e, before ++ [e] <+: trace → (ledger before).Allows e

/-- Every event about a task tells the queues as they are then. -/
def Told (trace : List Event) : Prop :=
  ∀ before action task loop, before ++ [.eventLoop action (some task) loop] <+: trace →
    loop = (ledger (before ++ [.eventLoop action (some task) loop])).loop

theorem ledger_append (trace l : List Event) :
    ledger (trace ++ l) = l.foldl Ledger.note (ledger trace) :=
  List.foldl_append

theorem ledger_concat (trace : List Event) (e : Event) :
    ledger (trace ++ [e]) = (ledger trace).note e :=
  ledger_append trace [e]

/-! ## One event -/

section Lists

variable {α : Type}

/-- What is found and erased is all that is missing then. -/
theorem perm_cons_eraseP {p : α → Bool} {l : List α} {a : α} (h : l.find? p = some a) :
    (a :: l.eraseP p).Perm l := by
  induction l with
  | nil => cases h
  | cons b l ih =>
      by_cases hb : p b = true
      · rw [List.find?_cons_of_pos hb] at h
        cases h
        rw [List.eraseP_cons_of_pos hb]
      · rw [List.find?_cons_of_neg hb] at h
        rw [List.eraseP_cons_of_neg hb]
        exact (List.Perm.swap b a _).trans ((ih h).cons b)

end Lists

namespace Ledger

variable {l : Ledger} {e : Event}

theorem note_of_topic (h : e.topic ≠ .eventLoop) : l.note e = l := by
  cases e with
  | eventLoop => exact absurd rfl h
  | _ => rfl

theorem allows_of_topic (h : e.topic ≠ .eventLoop) : l.Allows e := by
  cases e with
  | eventLoop => exact absurd rfl h
  | _ => trivial

/-- An event adds the task that it makes, and nothing else. -/
theorem Allows.perm (h : l.Allows e) : (l.note e).tasks.Perm (l.tasks ++ e.made?.toList) := by
  have same : l.tasks.Perm (l.tasks ++ []) := by rw [List.append_nil]
  -- what is made is added at the end of a queue; all else only moves between them
  cases e with
  | eventLoop action task loop =>
      cases task with
      | none => cases action <;> exact same
      | some task =>
          cases action with
          | addTimer =>
              show (l.timers ++ [task] ++ l.callbacks ++ l.microtasks ++ l.taken).Perm
                (l.tasks ++ [task])
              simp only [tasks, List.append_assoc]
              refine List.Perm.append_left _ (List.perm_append_comm.trans ?_)
              simp
          | addMicrotask =>
              show (l.timers ++ l.callbacks ++ (l.microtasks ++ [task]) ++ l.taken).Perm
                (l.tasks ++ [task])
              simp only [tasks, List.append_assoc]
              refine List.Perm.append_left _ (List.Perm.append_left _ (List.Perm.append_left _ ?_))
              exact List.perm_append_comm
          | moveToCallbacks =>
              have found : l.timers.find? (·.id == task.id) = some task := h
              have moved := perm_cons_eraseP found
              show (l.timers.eraseP (·.id == task.id) ++ (l.callbacks ++ [task]) ++ l.microtasks ++
                l.taken).Perm (l.tasks ++ [])
              simp only [tasks, List.append_assoc, List.append_nil]
              refine List.Perm.trans ?_ (moved.append_right _)
              simp only [List.cons_append, List.nil_append]
              rw [← List.append_assoc]
              exact List.perm_middle.trans (by rw [List.append_assoc])
          | processMicrotask =>
              have first : l.microtasks.head? = some task := h
              have queue : l.microtasks = task :: l.microtasks.tail :=
                (List.cons_head?_tail first).symm
              show (l.timers ++ l.callbacks ++ l.microtasks.tail ++ (l.taken ++ [task])).Perm
                (l.tasks ++ [])
              rw [List.append_nil, tasks]
              nth_rewrite 2 [queue]
              simp only [List.append_assoc]
              refine List.Perm.append_left _ (List.Perm.append_left _ ?_)
              rw [← List.append_assoc]
              exact List.perm_append_comm
          | processCallback =>
              have first : l.callbacks.head? = some task := h
              have queue : l.callbacks = task :: l.callbacks.tail :=
                (List.cons_head?_tail first).symm
              show (l.timers ++ l.callbacks.tail ++ l.microtasks ++ (l.taken ++ [task])).Perm
                (l.tasks ++ [])
              rw [List.append_nil, tasks]
              nth_rewrite 2 [queue]
              simp only [List.append_assoc]
              refine List.Perm.append_left _ ?_
              rw [← List.append_assoc, ← List.append_assoc]
              exact List.perm_append_comm.trans (by simp)
          | reset => exact same
  | _ => exact same

/-- An event leaves a task at its place or takes it to the next. -/
theorem Allows.onward (h : l.Allows e) {p : Berth} {task : Task} (there : task ∈ l.tasksAt p) :
    task ∈ (l.note e).tasksAt p ∨ ∃ q, p.next = some q ∧ task ∈ (l.note e).tasksAt q := by
  cases e with
  | eventLoop action told loop =>
      cases told with
      | none => cases action <;> exact .inl there
      | some moved =>
          cases action with
          | addTimer =>
              cases p with
              | timers => exact .inl (List.mem_append_left _ there)
              | _ => exact .inl there
          | addMicrotask =>
              cases p with
              | microtasks => exact .inl (List.mem_append_left _ there)
              | _ => exact .inl there
          | moveToCallbacks =>
              cases p with
              | timers =>
                  have found : l.timers.find? (·.id == moved.id) = some moved := h
                  rcases List.mem_cons.mp ((perm_cons_eraseP found).mem_iff.mpr there) with
                    rfl | kept
                  · exact .inr ⟨.callbacks, rfl, List.mem_append_right _ List.mem_cons_self⟩
                  · exact .inl kept
              | callbacks => exact .inl (List.mem_append_left _ there)
              | _ => exact .inl there
          | processMicrotask =>
              cases p with
              | microtasks =>
                  have first : l.microtasks.head? = some moved := h
                  have there : task ∈ l.microtasks := there
                  rw [← List.cons_head?_tail first] at there
                  rcases List.mem_cons.mp there with rfl | kept
                  · exact .inr ⟨.taken, rfl, List.mem_append_right _ List.mem_cons_self⟩
                  · exact .inl kept
              | taken => exact .inl (List.mem_append_left _ there)
              | _ => exact .inl there
          | processCallback =>
              cases p with
              | callbacks =>
                  have first : l.callbacks.head? = some moved := h
                  have there : task ∈ l.callbacks := there
                  rw [← List.cons_head?_tail first] at there
                  rcases List.mem_cons.mp there with rfl | kept
                  · exact .inr ⟨.taken, rfl, List.mem_append_right _ List.mem_cons_self⟩
                  · exact .inl kept
              | taken => exact .inl (List.mem_append_left _ there)
              | _ => exact .inl there
          | reset => exact .inl there
  | _ => exact .inl there

theorem note_taken (l : Ledger) (e : Event) : (l.note e).taken = l.taken ++ e.taken?.toList := by
  cases e with
  | eventLoop action task loop =>
      cases task with
      | none => cases action <;> exact (List.append_nil _).symm
      | some task =>
          cases action with
          | processMicrotask | processCallback => rfl
          | _ => exact (List.append_nil _).symm
  | _ => exact (List.append_nil _).symm

/-- A task that is made is a new one. -/
theorem Allows.fresh {task : Task} (h : l.Allows e) (made : e.made? = some task) :
    task.id ∉ l.tasks.map (·.id) := by
  cases e with
  | eventLoop action told loop =>
      cases told with
      | none => cases action <;> cases made
      | some told => cases action <;> cases made <;> exact h
  | _ => cases made

end Ledger

/-! ## Traces -/

namespace Lawful

variable {trace l : List Event} {e : Event}

theorem nil : Lawful [] := fun _ _ hp => absurd (List.prefix_nil.mp hp) (by simp)

theorem of_prefix (h : Lawful trace) (hl : l <+: trace) : Lawful l :=
  fun before e hp => h before e (hp.trans hl)

theorem concat (h : Lawful trace) (he : (ledger trace).Allows e) : Lawful (trace ++ [e]) := by
  intro before e' hp
  rcases event_cases hp with ⟨rfl, rfl⟩ | earlier
  · exact he
  · exact h before e' earlier

/-- All tasks that were made are in the ledger, and no two of them are the same. -/
theorem conserved (h : Lawful trace) :
    (ledger trace).tasks.Perm (trace.filterMap Event.made?) ∧
      ((trace.filterMap Event.made?).map (·.id)).Nodup := by
  induction trace using List.reverseRecOn with
  | nil => exact ⟨.refl _, List.nodup_nil⟩
  | append_singleton trace e ih =>
      obtain ⟨perm, nodup⟩ := ih (h.of_prefix (List.prefix_append ..))
      have allowed := h trace e (List.prefix_refl _)
      rw [filterMap_concat, ledger_concat]
      refine ⟨allowed.perm.trans (perm.append_right _), ?_⟩
      cases made : e.made? with
      | none => simpa using nodup
      | some task =>
          have fresh := allowed.fresh made
          rw [(perm.map _).mem_iff] at fresh
          rw [Option.toList_some, List.map_append]
          exact List.nodup_append.mpr ⟨nodup, List.nodup_singleton _, by
            rintro id there _ new rfl
            rw [List.mem_singleton.mp new] at there
            exact fresh there⟩

theorem taken (trace : List Event) : (ledger trace).taken = trace.filterMap Event.taken? := by
  induction trace using List.reverseRecOn with
  | nil => rfl
  | append_singleton trace e ih => rw [filterMap_concat, ledger_concat, Ledger.note_taken, ih]

/-- From one moment to the next a task stays where it is or goes one place further. -/
theorem onward (h : Lawful trace) {before : List Event} (hp : before ++ [e] <+: trace) {p : Berth}
    {task : Task} (there : task ∈ (ledger before).tasksAt p) :
    task ∈ (ledger (before ++ [e])).tasksAt p ∨
      ∃ q, p.next = some q ∧ task ∈ (ledger (before ++ [e])).tasksAt q := by
  rw [ledger_concat]
  exact (h before e hp).onward there

end Lawful

theorem Told.concat {trace : List Event} {e : Event} (h : Told trace)
    (he : ∀ action task loop, e = .eventLoop action (some task) loop →
      loop = (ledger (trace ++ [e])).loop) : Told (trace ++ [e]) := by
  intro before action task loop hp
  rcases event_cases hp with ⟨rfl, rfl⟩ | earlier
  · exact he _ _ _ rfl
  · exact h before action task loop earlier

/-- Events that are about something else leave the ledger alone. -/
theorem ledger_of_topic {trace l : List Event} (lawful : Lawful trace) (told : Told trace)
    (topic : ∀ e ∈ l, e.topic ≠ .eventLoop) :
    Lawful (trace ++ l) ∧ Told (trace ++ l) ∧ ledger (trace ++ l) = ledger trace ∧
      (trace ++ l).filterMap Event.made? = trace.filterMap Event.made? ∧
      (trace ++ l).filterMap Event.taken? = trace.filterMap Event.taken? := by
  induction l using List.reverseRecOn with
  | nil => simpa using ⟨lawful, told⟩
  | append_singleton l e ih =>
      obtain ⟨lawful, told, same, made, taken⟩ := ih fun e he => topic e (List.mem_append_left _ he)
      have aside : e.topic ≠ .eventLoop := topic e (List.mem_append_right _ List.mem_cons_self)
      have none : e.made? = none ∧ e.taken? = none := by
        cases e with
        | eventLoop => exact absurd rfl aside
        | _ => exact ⟨rfl, rfl⟩
      rw [← List.append_assoc]
      refine ⟨lawful.concat (Ledger.allows_of_topic aside), told.concat ?_, ?_, ?_, ?_⟩
      · rintro action task loop rfl
        exact absurd rfl aside
      · rw [ledger_concat, Ledger.note_of_topic aside, same]
      · rw [filterMap_concat, made, none.1, Option.toList_none, List.append_nil]
      · rw [filterMap_concat, taken, none.2, Option.toList_none, List.append_nil]

/-! ## The queues are those of the ledger -/

namespace Session

/-- The numbers of all tasks that were made, as identities. -/
def taskIds (s : Session) : List String :=
  (List.range s.store.counters.task).map fun n => Store.taskId (n + 1)

/-- Where the tasks of a session are: in its queues, or taken as its trace tells. -/
def ledger (s : Session) : Ledger :=
  { timers := s.store.state.loop.timers, callbacks := s.store.state.loop.callbacks
    microtasks := s.store.state.loop.microtasks, taken := s.trace.filterMap Event.taken? }

/-- The trace is lawful and leads to the queues of the store, and the tasks that
were made are numbered. -/
structure Booked (s : Session) : Prop where
  lawful : Lawful s.trace
  told : Told s.trace
  ledger : Runloop.ledger s.trace = s.ledger
  numbered : (s.trace.filterMap Event.made?).map (·.id) = s.taskIds

end Session

namespace Session.Booked

variable {s t : Session} {task : Task}

/-- Nothing happens to the queues. -/
theorem of_topic {l : List Event} (h : s.Booked) (trace : t.trace = s.trace ++ l)
    (topic : ∀ e ∈ l, e.topic ≠ .eventLoop) (loop : t.store.state.loop = s.store.state.loop)
    (counter : t.store.counters.task = s.store.counters.task) : t.Booked := by
  obtain ⟨lawful, told, same, made, taken⟩ := ledger_of_topic h.lawful h.told topic
  refine ⟨trace ▸ lawful, trace ▸ told, ?_, ?_⟩
  · rw [trace, same, h.ledger, Session.ledger, Session.ledger, loop, trace, taken]
  · rw [trace, made, h.numbered, Session.taskIds, Session.taskIds, counter]

/-- A task with the next number is none of those that were made. -/
theorem fresh (h : s.Booked) (id : task.id = Store.taskId (s.store.counters.task + 1)) :
    task.id ∉ (Runloop.ledger s.trace).tasks.map (·.id) := by
  rw [(h.lawful.conserved.1.map _).mem_iff, h.numbered, id]
  intro there
  obtain ⟨n, below, same⟩ := List.mem_map.mp there
  have := numbered_inj same
  have := List.mem_range.mp below
  omega

/-- A new task is put in one of the queues. -/
theorem make {action : LoopAction} (h : s.Booked) (num : Numbers task s t)
    (trace : t.trace = s.trace ++ [.eventLoop action (some task) t.store.state.loop])
    (allowed : ∀ l : Ledger, task.id ∉ l.tasks.map (·.id) →
      l.Allows (.eventLoop action (some task) t.store.state.loop))
    (made : (Event.eventLoop action (some task) t.store.state.loop).made? = some task)
    (taken : (Event.eventLoop action (some task) t.store.state.loop).taken? = none)
    (queues : s.ledger.note (.eventLoop action (some task) t.store.state.loop) =
      { t.ledger with taken := s.ledger.taken }) : t.Booked := by
  have books : Runloop.ledger t.trace = t.ledger := by
    have same : t.ledger.taken = s.ledger.taken := by
      show t.trace.filterMap Event.taken? = s.trace.filterMap Event.taken?
      rw [trace, filterMap_concat, taken, Option.toList_none, List.append_nil]
    rw [trace, ledger_concat, h.ledger, queues, ← same]
  refine ⟨trace ▸ h.lawful.concat (allowed _ (h.fresh num.id)), trace ▸ h.told.concat ?_, books, ?_⟩
  · rintro _ _ _ ⟨⟩
    rw [← trace, books]
    rfl
  · rw [trace, filterMap_concat, made, Option.toList_some, List.map_append, h.numbered, taskIds,
      taskIds, num.counter, List.range_succ, List.map_append]
    simp [num.id]

theorem deed {scope : String} (h : s.Booked) (d : Deed scope s t) : t.Booked := by
  cases d.loop with
  | same loop trace topic counter => exact h.of_topic trace topic loop counter
  | microtask _ loop trace num =>
      refine h.make num trace (fun _ fresh => fresh) rfl rfl ?_
      simp [Session.ledger, Ledger.note, loop]
  | timer _ loop trace num =>
      refine h.make num trace (fun _ fresh => fresh) rfl rfl ?_
      simp [Session.ledger, Ledger.note, loop]

theorem rescoped (h : s.Booked) (r : Rescoped s t) : t.Booked := by
  obtain ⟨l, trace, topic⟩ := r.trace
  exact h.of_topic trace (fun e he => by simp [topic e he]) r.loop r.tasks

theorem beside (h : s.Booked) (b : Beside s t) : t.Booked := by
  obtain ⟨l, trace, quiet⟩ := b.trace
  exact h.of_topic trace (fun e he => (Beside.topic_of_isQuiet (quiet e he)).2.1) b.loop b.tasks

theorem entered (h : s.Booked) (id name thisBinding : String) (line : Int) (receiver : Value) :
    (s.entered id name thisBinding line receiver).Booked := by
  refine (h.rescoped (.opening s id name)).of_topic
    (l := ((s.opening id name).store.pushFrame name "function" thisBinding line).events)
    (Session.trace_publish (List.forall_mem_singleton.mpr rfl))
    (List.forall_mem_singleton.mpr (by simp [Event.topic])) ?_ ?_
  · simp only [Session.entered, Session.publish_store]
    rfl
  · simp only [Session.entered, Session.publish_store]
    rfl

theorem left (h : s.Booked) (call : Call) (stack : s.store.state.callStack ≠ []) :
    (s.left call).Booked := by
  have popped : s.popped.Booked := by
    refine h.of_topic (Session.popped_trace (List.getLast?_eq_some_getLast stack))
      (List.forall_mem_singleton.mpr (by simp [Event.topic])) ?_ ?_
    · rw [Session.popped_store]
      rfl
    · rw [Session.popped_store]
      rfl
  exact popped.rescoped (.foldl .shut call.closing s.popped)

theorem move {a b : Setting} (h : a.session.Booked) (sound : Sound a) (m : Move a b) :
    b.session.Booked := by
  cases m with
  | deed d => exact h.deed d
  | enter => exact h.entered ..
  | leave => exact h.left _ sound.held.stack.ne_nil
  | spill name => exact h.rescoped (.opening _ _ name)

/-- A task goes to another place. -/
theorem requeue {action : LoopAction} {loop : EventLoop} (h : s.Booked)
    (trace : t.trace = s.trace ++ [.eventLoop action (some task) loop])
    (now : t.store.state.loop = loop)
    (counter : t.store.counters.task = s.store.counters.task)
    (allowed : s.ledger.Allows (.eventLoop action (some task) loop))
    (made : (Event.eventLoop action (some task) loop).made? = none)
    (queues : s.ledger.note (.eventLoop action (some task) loop) = t.ledger) : t.Booked := by
  have books : Runloop.ledger t.trace = t.ledger := by
    rw [trace, ledger_concat, h.ledger, queues]
  refine ⟨trace ▸ h.lawful.concat (h.ledger ▸ allowed), trace ▸ h.told.concat ?_, books, ?_⟩
  · rintro _ _ _ ⟨⟩
    rw [← trace, books, ← now]
    rfl
  · rw [trace, filterMap_concat, made, Option.toList_none, List.append_nil, h.numbered, taskIds,
      taskIds, counter]

theorem fire (h : s.Booked) (id : String) : (s.publish (s.store.moveToCallbacks id)).Booked := by
  have trace := (requeues_moveToCallbacks s.store id).trace
  have store := Session.publish_store s (s.store.moveToCallbacks id)
  unfold Store.moveToCallbacks at trace store ⊢
  cases found : s.store.state.loop.timers.find? (·.id == id) with
  | none =>
      rw [found] at trace store
      exact h.of_topic trace (by simp) (by rw [store]) (by rw [store])
  | some moved =>
      rw [found] at trace store
      obtain rfl : moved.id = id := by simpa using List.find?_some found
      refine h.requeue trace (by rw [store]; rfl) (by rw [store]; rfl) found rfl ?_
      rw [Session.ledger, Session.ledger, store, trace, filterMap_concat]
      simp [Ledger.note, Store.setLoop, Event.taken?, Event.takenMicrotask?, Event.takenCallback?]

theorem microtask {rest : List Task} (h : s.Booked)
    (queue : s.store.state.loop.microtasks = task :: rest) :
    (s.publish s.store.nextMicrotask).Booked := by
  have trace := (requeues_nextMicrotask s.store).trace
  have store := Session.publish_store s s.store.nextMicrotask
  unfold Store.nextMicrotask at trace store ⊢
  rw [queue] at trace store ⊢
  refine h.requeue trace (by rw [store]; rfl) (by rw [store]; rfl) ?_ rfl ?_
  · simp [Ledger.Allows, Session.ledger, queue]
  · rw [Session.ledger, Session.ledger, store, trace, filterMap_concat]
    simp [Ledger.note, Store.setLoop, queue, Event.taken?, Event.takenMicrotask?]

theorem callback {rest : List Task} (h : s.Booked)
    (queue : s.store.state.loop.callbacks = task :: rest) :
    (s.publish s.store.nextCallback).Booked := by
  have trace := (requeues_nextCallback s.store).trace
  have store := Session.publish_store s s.store.nextCallback
  unfold Store.nextCallback at trace store ⊢
  rw [queue] at trace store ⊢
  refine h.requeue trace (by rw [store]; rfl) (by rw [store]; rfl) ?_ rfl ?_
  · simp [Ledger.Allows, Session.ledger, queue]
  · rw [Session.ledger, Session.ledger, store, trace, filterMap_concat]
    simp [Ledger.note, Store.setLoop, queue, Event.taken?, Event.takenMicrotask?,
      Event.takenCallback?]

theorem lasting : Setting.Lasting fun a => a.session.Booked where
  move m sound h := h.move sound m
  beside b h := h.beside b
  fire id h := h.fire id
  microtask queue h := h.microtask queue
  callback queue h := h.callback queue
  unspilt h := h

end Session.Booked

theorem Reached.booked {why : Option Fault} {s : Session} (h : Reached why s) : s.Booked := by
  refine (h.induct (P := fun _ s => s.Booked) (fun s program _ => ?_)
    fun _ _ _ _ standing h k => Session.Booked.lasting.tick k standing h).2
  have told : Told [] := fun before action task loop hp =>
    absurd (List.prefix_nil.mp hp) (by simp)
  have begins : ∀ e ∈ (s.begun program).trace, e.topic ≠ .eventLoop := by
    rw [Session.begun_trace]
    simp [Event.topic]
  obtain ⟨lawful, told, -⟩ := ledger_of_topic Lawful.nil told begins
  exact ⟨lawful, told, rfl, rfl⟩

end Runloop
