/-
# What running code does to a session

Code that runs in a scope changes its session in a few ways only, and `Deed`
lists them once and for all: changes aside from scopes, stack and queues, a new
function, a variable that is bound, a task that is queued, and what the machine
notes for itself.  A variable of the innermost scope is bound and shown at once,
unless its value cannot be displayed; of the other scopes only variables that
are there already get another value, and nothing of it is shown.  What later
modules need to know about deeds is said here, part by part:

  * the machine keeps everything but the line that was reached (`Deed.machine`);
  * the trace grows, by nothing that opens, closes or takes (`Deed.trace`);
  * scopes change by one binding at most, and the scopes that were ever opened
    change along with the open ones (`Deed.scopes`);
  * new functions and new tasks close over the scope that runs
    (`Deed.functions`, `Deed.loop`);
  * of the stack only what the top frame shows is changed (`Deed.stack`).
-/
import Runloop.Proofs.Following
import Runloop.Proofs.Nesting

namespace Runloop

/-! ## Lists in which one member is replaced -/

section Replaced

variable {α : Type} {p : α → Bool} {f : α → α}

theorem mem_modifyFirst {l : List α} {a : α} (h : a ∈ modifyFirst p f l) :
    a ∈ l ∨ ∃ b ∈ l, a = f b := by
  induction l with
  | nil => exact absurd h List.not_mem_nil
  | cons c l ih =>
      unfold modifyFirst at h
      split at h <;> rcases List.mem_cons.mp h with rfl | h
      · exact .inr ⟨c, List.mem_cons_self, rfl⟩
      · exact .inl (List.mem_cons_of_mem _ h)
      · exact .inl List.mem_cons_self
      · rcases ih h with h | ⟨b, hb, e⟩
        · exact .inl (List.mem_cons_of_mem _ h)
        · exact .inr ⟨b, List.mem_cons_of_mem _ hb, e⟩

/-- What no member changes stays the same. -/
theorem map_modifyFirst {β : Type} {g : α → β} (same : ∀ a, g (f a) = g a) (l : List α) :
    (modifyFirst p f l).map g = l.map g := by
  induction l with
  | nil => rfl
  | cons a l ih =>
      unfold modifyFirst
      split
      · simp [same]
      · simp [ih]

theorem modifyLast_id (l : List α) : modifyLast id l = l := by
  induction l with
  | nil => rfl
  | cons a l ih =>
      cases l with
      | nil => rfl
      | cons b l => exact congrArg (a :: ·) ih

/-- Replacing the first member under a name replaces all of them, when there is only
one. -/
theorem modifyFirst_eq_map {key : α → String} {l : List α} (h : (l.map key).Nodup) (id : String)
    (f : α → α) :
    modifyFirst (key · == id) f l = l.map fun a => if key a = id then f a else a := by
  induction l with
  | nil => rfl
  | cons a l ih =>
      obtain ⟨fresh, nodup⟩ := List.nodup_cons.mp h
      by_cases he : key a = id
      · have others : ∀ b ∈ l, (if key b = id then f b else b) = b := fun b hb =>
          if_neg fun e => fresh (List.mem_map.mpr ⟨b, hb, e.trans he.symm⟩)
        simp [modifyFirst, he, List.map_congr_left others]
      · simp [modifyFirst, he, ih nodup]

theorem binding?_setField (c : Scope) (name : String) (b : Binding) :
    { c with bindings := Datum.setField name b c.bindings }.binding? name = some b := by
  show ((Datum.setField name b c.bindings).find? (·.1 == name)).map (·.2) = some b
  induction c.bindings with
  | nil => simp [Datum.setField]
  | cons v rest ih =>
      by_cases he : v.1 = name
      · simp [Datum.setField, he]
      · simpa [Datum.setField, he] using ih

end Replaced

/-! ## Deeds -/

/-- Whether an event is about the heap, the cursor or the console. -/
def Event.isAside : Event → Bool
  | .heap _ _ _ _ _ | .currentLine _ | .console _ => true
  | _ => false

/-- A change of a store that leaves scopes, stack and queues alone, makes no
function, and tells all it does. -/
structure Change.Aside {α : Type} (store : Store) (c : Change α) : Prop where
  scopes : c.store.state.scopes = store.state.scopes
  counter : c.store.counters.scope = store.counters.scope
  tasks : c.store.counters.task = store.counters.task
  stack : c.store.state.callStack = store.state.callStack
  loop : c.store.state.loop = store.state.loop
  functions : ∀ o ∈ c.store.state.heap, ∀ f, o.payload = .function f →
    ∃ o ∈ store.state.heap, o.payload = .function f
  events : ∀ e ∈ c.events, e.isAside = true
  told : c.Tells store.state

/-- The change by which a name of an open scope gets a binding. -/
def Store.rebinding (store : Store) (action : ScopeAction) (c : Scope) (name : String)
    (b : Binding) : Change Unit :=
  let bind (c : Scope) : Scope := { c with bindings := Datum.setField name b c.bindings }
  let scopes := modifyFirst (·.id == c.id) bind store.state.scopes
  { store := store.setScopes scopes, value := ()
    events := [.scopes action (some (bind c)) scopes (some name)] }

/-- The session with a name of an open scope bound, and shown in the top frame. -/
def Session.written (s : Session) (action : ScopeAction) (c : Scope) (name : String) (b : Binding)
    (text : String) : Session :=
  let t := s.publish (s.store.rebinding action c name b)
  t.publish (t.store.updateFrameVariable name text (b.value.kind s.store.heapView))

/-- A change that code running in a scope makes. -/
inductive Deed (scope : String) : Session → Session → Prop
  | aside {s : Session} {α : Type} {c : Change α} : c.Aside s.store → Deed scope s (s.publish c)
  | function {s : Session} {f : FunctionValue} : f.closure = some scope →
      Deed scope s (s.publish (s.store.allocate "function" (.function f) s.now))
  | write {s : Session} {action : ScopeAction} {id text : String} {c : Scope} (name : String)
      (b : Binding) : action = .addVariable ∨ action = .updateVariable →
      s.store.scope? id = some c → s.store.currentScope? = some id →
      b.value.display s.store.heapView = .ok text →
      Deed scope s (s.written action c name b text)
  | bind {s : Session} {action : ScopeAction} {id : String} {c : Scope} (name : String)
      (b : Binding) : action = .addVariable ∨ action = .updateVariable →
      s.store.scope? id = some c →
      (s.store.currentScope? = some id → ∃ f, b.value.display s.store.heapView = .error f) →
      (s.store.currentScope? ≠ some id → (c.binding? name).isSome = true) →
      Deed scope s (s.publish (s.store.rebinding action c name b))
  | promise {s : Session} {spec : TaskSpec} : spec.closure = some scope →
      Deed scope s (s.publish (s.store.addMicrotask spec s.now))
  | timer {s : Session} {spec : TaskSpec} : spec.closure = some scope →
      Deed scope s (s.publish (s.store.addTimer spec s.now))
  | reach {s : Session} (line : Int) :
      Deed scope s { s with machine := { s.machine with line } }
  | setClock {s : Session} (clock : Clock String) (handle : Nat) :
      Deed scope s { s with clock, store := s.store.trackTimer handle }
  | compile {s : Session} (bodies : List (Body × List Instruction)) (notices : List String) :
      Deed scope s { s with bodies, notices }

section Aside

variable {store : Store} {now : Double}

theorem aside_allocate (kind : String) {payload : Value} (h : ∀ f, payload ≠ .function f) :
    (store.allocate kind payload now).Aside store where
  scopes := rfl
  counter := rfl
  tasks := rfl
  stack := rfl
  loop := rfl
  functions o ho f hf := by
    rcases List.mem_append.mp ho with ho | ho
    · exact ⟨o, ho, hf⟩
    · cases List.mem_singleton.mp ho
      exact absurd hf (h f)
  events := by simp [Store.allocate, Event.isAside]
  told := store.tells_allocate kind payload now

theorem aside_addReference (fromId toId : String) :
    (store.addReference fromId toId).Aside store := by
  unfold Store.addReference
  split
  · exact ⟨rfl, rfl, rfl, rfl, rfl, fun o ho f hf => ⟨o, ho, hf⟩, by simp, .silent rfl rfl⟩
  · split
    · exact ⟨rfl, rfl, rfl, rfl, rfl, fun o ho f hf => ⟨o, ho, hf⟩, by simp, .silent rfl rfl⟩
    · refine ⟨rfl, rfl, rfl, rfl, rfl, fun o ho f hf => ?_, by simp [Event.isAside],
        .single rfl rfl rfl⟩
      rcases mem_modifyFirst ho with ho | ⟨o', ho', rfl⟩
      · exact ⟨o, ho, hf⟩
      · exact ⟨o', ho', hf⟩

theorem aside_updateHeapValue {id : String} {items : List Value} {c : Change Unit}
    (h : store.updateHeapValue id (.list items) = .ok c) : c.Aside store := by
  have told := store.tells_updateHeapValue h
  unfold Store.updateHeapValue at h
  split at h <;> cases h
  refine ⟨rfl, rfl, rfl, rfl, rfl, fun o ho f hf => ?_, by simp [Event.isAside], told⟩
  rcases mem_modifyFirst ho with ho | ⟨o', ho', rfl⟩
  · exact ⟨o, ho, hf⟩
  · cases hf

theorem aside_logConsole (type : String) (args : List String) :
    (store.logConsole type args now).Aside store :=
  ⟨rfl, rfl, rfl, rfl, rfl, fun o ho f hf => ⟨o, ho, hf⟩,
    by simp [Store.logConsole, Event.isAside], store.tells_logConsole type args now⟩

theorem aside_incrementStep : store.incrementStep.Aside store :=
  ⟨rfl, rfl, rfl, rfl, rfl, fun o ho f hf => ⟨o, ho, hf⟩, by simp [Store.incrementStep],
    store.tells_incrementStep⟩

theorem aside_setCurrentLine (line : Int) : (store.setCurrentLine line).Aside store :=
  ⟨rfl, rfl, rfl, rfl, rfl, fun o ho f hf => ⟨o, ho, hf⟩,
    by simp [Store.setCurrentLine, Event.isAside], store.tells_setCurrentLine line⟩

end Aside

section Binding

variable {store : Store} {id name : String}

theorem scope?_id {c : Scope} (h : store.scope? id = some c) : c.id = id := by
  simpa using List.find?_some h

theorem addScopeVariable_inv {b : Binding} {change : Change Unit}
    (h : store.addScopeVariable id name b = .ok change) :
    ∃ c, store.scope? id = some c ∧ change = store.rebinding .addVariable c name b := by
  unfold Store.addScopeVariable at h
  split at h <;> rename_i found <;> cases h
  cases scope?_id found
  exact ⟨_, found, rfl⟩

theorem updateScopeVariable_inv {v : Value} {kind : Option String} {change : Change Unit}
    (h : store.updateScopeVariable id name v kind = .ok change) :
    ∃ c b, store.scope? id = some c ∧ (c.binding? name).isSome = true ∧ b.value = v ∧
      change = store.rebinding .updateVariable c name b := by
  unfold Store.updateScopeVariable at h
  split at h <;> rename_i found
  · cases h
  · split at h <;> rename_i bound <;> cases h
    cases scope?_id found
    exact ⟨_, _, found, by rw [bound]; rfl, rfl, rfl⟩

/-- A binding of an open scope leaves the innermost scope the innermost one. -/
theorem currentScope?_rebinding (action : ScopeAction) (c : Scope) (b : Binding) :
    (store.rebinding action c name b).store.currentScope? = store.currentScope? := by
  unfold Store.currentScope?
  rw [← List.getLast?_map, ← List.getLast?_map]
  refine congrArg _ ?_
  apply map_modifyFirst
  intro c
  rfl

end Binding

/-- The frame with a variable shown. -/
def Frame.showing (name text kind : String) (f : Frame) : Frame :=
  { f with shown := Datum.setField name ⟨text, kind⟩ f.shown }

theorem updateFrameVariable_store (store : Store) (name text kind : String) :
    (store.updateFrameVariable name text kind).store =
      store.setStack (modifyLast (Frame.showing name text kind) store.state.callStack) := by
  unfold Store.updateFrameVariable
  split
  · rename_i empty
    rw [empty]
    show store = store.setStack []
    rw [← empty]
    rfl
  · rfl

/-- Whether an event tells about a deed: nothing is opened or closed, no task
is taken, and nothing is cleared. -/
def Event.isDeed : Event → Bool
  | .callStack .update _ _ => true
  | .scopes .addVariable _ _ _ | .scopes .updateVariable _ _ _ => true
  | .eventLoop .addTimer _ _ | .eventLoop .addMicrotask _ _ => true
  | e => e.isAside

theorem Event.isDeed_of_isAside {e : Event} (h : e.isAside = true) : e.isDeed = true := by
  cases e with
  | heap | currentLine | console => rfl
  | _ => exact absurd h (by simp [isAside])

theorem Event.isReset_of_isDeed {e : Event} (h : e.isDeed = true) : e.isReset = false := by
  cases e with
  | eventLoop action task loop => cases action <;> simp_all [isDeed, isReset, isAside]
  | _ => rfl

theorem isDeed_of_rebinding {store : Store} {action : ScopeAction} {c : Scope} {name : String}
    {b : Binding} (h : action = .addVariable ∨ action = .updateVariable) :
    ∀ e ∈ (store.rebinding action c name b).events, e.isDeed = true := by
  rcases h with rfl | rfl <;> exact List.forall_mem_singleton.mpr rfl

theorem isDeed_of_showing (store : Store) (name text kind : String) :
    ∀ e ∈ (store.updateFrameVariable name text kind).events,
      e.isDeed = true ∧ e.topic = .callStack := by
  unfold Store.updateFrameVariable
  split <;> simp [Event.isDeed, Event.topic]

theorem Event.topic_of_isAside {e : Event} (h : e.isAside = true) :
    e.topic ≠ .eventLoop ∧ e.topic ≠ .scopes := by
  cases e <;> simp_all [isAside, topic]

/-- The scopes stay as they are, or one open scope gets a binding; the scopes
that were ever opened change in the same way. -/
inductive Rebound (s t : Session) : Prop
  | same : t.store.state.scopes = s.store.state.scopes →
      everOpened t.trace = everOpened s.trace → Rebound s t
  | bound {id : String} (name : String) (b : Binding) : id ∈ s.store.scopeIds →
      t.store.state.scopes =
        modifyFirst (·.id == id)
          (fun c => { c with bindings := Datum.setField name b c.bindings })
          s.store.state.scopes →
      everOpened t.trace = (everOpened s.trace).map (Scope.binding id name b) → Rebound s t

/-- A task that is made now gets the next number. -/
structure Numbers (task : Task) (s t : Session) : Prop where
  id : task.id = Store.taskId (s.store.counters.task + 1)
  counter : t.store.counters.task = s.store.counters.task + 1

/-- The queues stay as they are, or a new task that closes over a scope is put at
the end of one of them. -/
inductive Requeued (scope : String) (s t : Session) : Prop
  | same {l : List Event} : t.store.state.loop = s.store.state.loop → t.trace = s.trace ++ l →
      (∀ e ∈ l, e.topic ≠ .eventLoop) → t.store.counters.task = s.store.counters.task →
      Requeued scope s t
  | microtask {task : Task} : task.spec.closure = some scope →
      t.store.state.loop =
        { s.store.state.loop with microtasks := s.store.state.loop.microtasks ++ [task] } →
      t.trace = s.trace ++ [.eventLoop .addMicrotask (some task) t.store.state.loop] →
      Numbers task s t → Requeued scope s t
  | timer {task : Task} : task.spec.closure = some scope →
      t.store.state.loop =
        { s.store.state.loop with timers := s.store.state.loop.timers ++ [task] } →
      t.trace = s.trace ++ [.eventLoop .addTimer (some task) t.store.state.loop] →
      Numbers task s t → Requeued scope s t

namespace Deed

variable {scope : String} {s t : Session}

theorem machine (h : Deed scope s t) : ∃ line, t.machine = { s.machine with line } := by
  cases h with
  | reach line => exact ⟨line, rfl⟩
  | setClock | compile => exact ⟨s.machine.line, rfl⟩
  | write => exact ⟨s.machine.line, by simp only [Session.written, Session.publish_machine]⟩
  | _ => exact ⟨s.machine.line, by rw [Session.publish_machine]⟩

theorem hooks (h : Deed scope s t) : t.hooks = s.hooks := by
  cases h with
  | reach | setClock | compile => rfl
  | write => simp only [Session.written, Session.publish_hooks]
  | _ => exact Session.publish_hooks ..

theorem counter (h : Deed scope s t) :
    t.store.counters.scope = s.store.counters.scope := by
  cases h with
  | reach | setClock | compile => rfl
  | aside h => rw [Session.publish_store, h.counter]
  | function | promise | timer | bind => rw [Session.publish_store]; rfl
  | write =>
      simp only [Session.written, Session.publish_store, updateFrameVariable_store]
      rfl

theorem trace_of_events {α : Type} {c : Change α} (h : ∀ e ∈ c.events, e.isDeed = true) :
    (s.publish c).trace = s.trace ++ c.events :=
  Session.trace_publish fun e he => e.isReset_of_isDeed (h e he)

theorem trace_written {action : ScopeAction} {c : Scope} {name text : String} {b : Binding}
    (ha : action = .addVariable ∨ action = .updateVariable) :
    (s.written action c name b text).trace =
      s.trace ++ (s.store.rebinding action c name b).events ++
        ((s.store.rebinding action c name b).store.updateFrameVariable name text
          (b.value.kind s.store.heapView)).events := by
  unfold Session.written
  dsimp only
  rw [trace_of_events fun e he => (isDeed_of_showing _ _ _ _ e he).1,
    trace_of_events (isDeed_of_rebinding ha), Session.publish_store]

theorem trace (h : Deed scope s t) :
    ∃ l, t.trace = s.trace ++ l ∧ ∀ e ∈ l, e.isDeed = true := by
  have told {α : Type} (c : Change α) (h : ∀ e ∈ c.events, e.isDeed = true) :
      ∃ l, (s.publish c).trace = s.trace ++ l ∧ ∀ e ∈ l, e.isDeed = true :=
    ⟨c.events, trace_of_events h, h⟩
  cases h with
  | reach | setClock | compile => exact ⟨[], (List.append_nil _).symm, by simp⟩
  | aside h => exact told _ fun e he => e.isDeed_of_isAside (h.events e he)
  | function | promise | timer => exact told _ (List.forall_mem_singleton.mpr rfl)
  | bind name b ha => exact told _ (isDeed_of_rebinding ha)
  | write name b ha =>
      refine ⟨_, (trace_written ha).trans (List.append_assoc ..), fun e he => ?_⟩
      exact (List.mem_append.mp he).elim (isDeed_of_rebinding ha e)
        fun he => (isDeed_of_showing _ _ _ _ e he).1

/-- Binding a name in an open scope binds it in the scopes that were ever opened. -/
theorem everOpened_rebinding {store : Store} {action : ScopeAction} {c : Scope} {name : String}
    {b : Binding} {l : List Event} (ha : action = .addVariable ∨ action = .updateVariable) :
    everOpened (l ++ (store.rebinding action c name b).events) =
      (everOpened l).map (Scope.binding c.id name b) := by
  rcases ha with rfl | rfl
  all_goals
    simp only [Store.rebinding, everOpened_append, noteScope, binding?_setField,
      Option.elim_some]

theorem scopes (h : Deed scope s t) : Rebound s t := by
  -- a change that tells nothing about scopes
  have aside {α : Type} {c : Change α} (hs : c.store.state.scopes = s.store.state.scopes)
      (he : ∀ e ∈ c.events, e.isDeed = true)
      (hk : ∀ known, c.events.foldl noteScope known = known) : Rebound s (s.publish c) := by
    refine .same (by rw [Session.publish_store, hs]) ?_
    rw [trace_of_events he, everOpened, List.foldl_append]
    exact hk _
  cases h with
  | reach | setClock | compile => exact .same rfl rfl
  | aside h =>
      refine aside h.scopes (fun e he => e.isDeed_of_isAside (h.events e he)) fun known => ?_
      exact foldl_noteScope_of_topic (fun e he => (Event.topic_of_isAside (h.events e he)).2) known
  | function | promise | timer => exact aside rfl (List.forall_mem_singleton.mpr rfl) fun _ => rfl
  | bind name b ha found =>
      refine .bound name b (List.mem_map_of_mem (List.mem_of_find?_eq_some found))
        (by rw [Session.publish_store]; rfl) ?_
      rw [trace_of_events (isDeed_of_rebinding ha), everOpened_rebinding ha]
  | write name b ha found =>
      refine .bound name b (List.mem_map_of_mem (List.mem_of_find?_eq_some found)) ?_ ?_
      · simp only [Session.written, Session.publish_store, updateFrameVariable_store]
        rfl
      · rw [trace_written ha, everOpened, List.foldl_append,
          foldl_noteScope_of_topic fun e he => by simp [(isDeed_of_showing _ _ _ _ e he).2]]
        exact everOpened_rebinding ha

/-- A function on the heap was there before or closes over the scope. -/
theorem functions (h : Deed scope s t) {o : HeapObject} (ho : o ∈ t.store.state.heap)
    {f : FunctionValue} (hf : o.payload = .function f) :
    f.closure = some scope ∨ ∃ o ∈ s.store.state.heap, o.payload = .function f := by
  have old (ho : o ∈ s.store.state.heap) :
      f.closure = some scope ∨ ∃ o ∈ s.store.state.heap, o.payload = .function f :=
    .inr ⟨o, ho, hf⟩
  cases h with
  | reach | setClock | compile => exact old ho
  | aside h =>
      rw [Session.publish_store] at ho
      exact .inr (h.functions o ho f hf)
  | function hc =>
      rw [Session.publish_store] at ho
      rcases List.mem_append.mp ho with ho | ho
      · exact old ho
      · cases List.mem_singleton.mp ho
        cases hf
        exact .inl hc
  | promise | timer | bind => rw [Session.publish_store] at ho; exact old ho
  | write =>
      simp only [Session.written, Session.publish_store, updateFrameVariable_store] at ho
      exact old ho

theorem loop (h : Deed scope s t) : Requeued scope s t := by
  have aside {α : Type} {c : Change α} (hl : c.store.state.loop = s.store.state.loop)
      (hn : c.store.counters.task = s.store.counters.task)
      (he : ∀ e ∈ c.events, e.isDeed = true) (ht : ∀ e ∈ c.events, e.topic ≠ .eventLoop) :
      Requeued scope s (s.publish c) :=
    .same (by rw [Session.publish_store, hl]) (trace_of_events he) ht
      (by rw [Session.publish_store, hn])
  cases h with
  | reach | setClock | compile => exact .same rfl (List.append_nil _).symm (by simp) rfl
  | aside h =>
      refine aside h.loop h.tasks (fun e he => e.isDeed_of_isAside (h.events e he)) fun e he => ?_
      exact (Event.topic_of_isAside (h.events e he)).1
  | function =>
      exact aside rfl rfl (List.forall_mem_singleton.mpr rfl)
        (by simp [Store.allocate, Event.topic])
  | bind name b ha =>
      exact aside rfl rfl (isDeed_of_rebinding ha) (by simp [Store.rebinding, Event.topic])
  | write name b ha =>
      refine .same ?_ ((trace_written ha).trans (List.append_assoc ..)) (fun e he => ?_) ?_
      · simp only [Session.written, Session.publish_store, updateFrameVariable_store]
        rfl
      · rcases List.mem_append.mp he with he | he
        · simp [List.mem_singleton.mp he, Event.topic]
        · simp [(isDeed_of_showing _ _ _ _ e he).2]
      · simp only [Session.written, Session.publish_store, updateFrameVariable_store]
        rfl
  | promise hc =>
      refine .microtask hc (by rw [Session.publish_store]; rfl) ?_
        ⟨rfl, by rw [Session.publish_store]; rfl⟩
      rw [Session.publish_store]
      exact trace_of_events (List.forall_mem_singleton.mpr rfl)
  | timer hc =>
      refine .timer hc (by rw [Session.publish_store]; rfl) ?_
        ⟨rfl, by rw [Session.publish_store]; rfl⟩
      rw [Session.publish_store]
      exact trace_of_events (List.forall_mem_singleton.mpr rfl)

/-- Frames stay as they are but for what the top one shows. -/
theorem stack (h : Deed scope s t) :
    ∃ g : Frame → Frame, (∀ f, ∃ shown, g f = { f with shown }) ∧
      t.store.state.callStack = modifyLast g s.store.state.callStack := by
  have same (h : t.store.state.callStack = s.store.state.callStack) :
      ∃ g : Frame → Frame, (∀ f, ∃ shown, g f = { f with shown }) ∧
        t.store.state.callStack = modifyLast g s.store.state.callStack :=
    ⟨id, fun f => ⟨f.shown, rfl⟩, h.trans (modifyLast_id _).symm⟩
  cases h with
  | reach | setClock | compile => exact same rfl
  | aside h => exact same (by rw [Session.publish_store, h.stack])
  | function | promise | timer | bind => exact same (by rw [Session.publish_store]; rfl)
  | @write action id text c name b =>
      refine ⟨Frame.showing name text (b.value.kind s.store.heapView), fun f => ⟨_, rfl⟩, ?_⟩
      simp only [Session.written, Session.publish_store, updateFrameVariable_store]
      rfl

end Deed

end Runloop
