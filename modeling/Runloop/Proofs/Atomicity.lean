/-
# An operation that cannot be done leaves no trace

A store answers an operation with a change or with a fault, and with a fault
there is nothing to undo.  Underneath, an operation is a procedure: it looks
things up, changes the store piece by piece, counts identities, asks for the
time and tells the subscribers, and where it is refused, whatever it has done
by then stays done.  A `Procedure` is written that way, with each lookup where
the operation makes it.

`StoreOp.run_procedure` says that nothing is lost by the coarser view: a
procedure does to a board what `Board.perform` does.  Which operations are
refused and which find nothing to do is told from the state alone, by
`StoreOp.Refused` and `StoreOp.Idle`; both leave the whole board as it was and
nobody is told (`StoreCall.denied_or_idle_leaves_board`).
-/
import Runloop.Settings
import Runloop.Store.Operation

namespace Runloop

/-! ## Procedures -/

/-- Why a call on a store is denied. -/
inductive Denial where
  | store (fault : StoreFault)
  | setting (fault : SettingFault)

/-- What a procedure works on: the board as it is by now, and what the
subscribers have got by now. -/
structure Bench where
  board : Board
  sent : List Delivery := []

/-- Tells the subscribers of an event, with a copy of the state of now. -/
def Bench.tell (w : Bench) (e : Event) : Bench :=
  { w with sent := w.sent ++ w.board.deliveries e }

/-- A procedure on a board.  What it has done before it is denied stays done. -/
abbrev Procedure := ExceptT Denial (StateM Bench)

namespace Procedure

def store : Procedure Store := return (← get).board.store

def refuse {α : Type} (fault : StoreFault) : Procedure α := throw (.store fault)

def onBoard (f : Board → Board) : Procedure Unit := modify fun w => { w with board := f w.board }

def onStore (f : Store → Store) : Procedure Unit :=
  onBoard fun b => { b with store := f b.store }

def onState (f : State → State) : Procedure Unit := onStore fun s => { s with state := f s.state }

def onStack (f : List Frame → List Frame) : Procedure Unit :=
  onState fun s => { s with callStack := f s.callStack }

def onHeap (f : List HeapObject → List HeapObject) : Procedure Unit :=
  onState fun s => { s with heap := f s.heap }

def onScopes (f : List Scope → List Scope) : Procedure Unit :=
  onState fun s => { s with scopes := f s.scopes }

def onLoop (f : EventLoop → EventLoop) : Procedure Unit :=
  onState fun s => { s with loop := f s.loop }

/-- Counts one more identity of a sort, and answers with it. -/
def nextId (count : Counters → Counters) (id : Counters → String) : Procedure String := do
  onStore fun s => { s with counters := count s.counters }
  return id (← store).counters

/-- Asks for the time. -/
def now : Procedure Double := do
  onBoard fun b => { b with readings := b.readings + 1 }
  return .ofInt (← get).board.readings

/-- Tells the subscribers of an event, which is made of the state of now. -/
def tell (e : State → Event) : Procedure Unit :=
  modify fun w => w.tell (e w.board.store.state)

/-! ### The call stack -/

def pushFrame (name kind thisBinding : String) (line : Int) : Procedure Frame := do
  onStack (modifyLast fun f => { f with active := false })
  let id ← nextId (fun c => { c with frame := c.frame + 1 }) fun c => Store.frameId c.frame
  let frame : Frame :=
    { id, name := if name.isEmpty then "anonymous" else name, kind, shown := []
      thisBinding, line, active := true }
  onStack (· ++ [frame])
  tell fun s => .callStack .push (some frame) s.callStack
  return frame

def popFrame : Procedure Frame := do
  match (← store).topFrame? with
  | none => refuse .emptyStack
  | some top =>
    onStack List.dropLast
    let frame := { top with active := false }
    onStack (modifyLast fun f => { f with active := true })
    tell fun s => .callStack .pop (some frame) s.callStack
    return frame

def updateFrameVariable (name value kind : String) : Procedure Unit := do
  match (← store).state.callStack with
  | [] => return
  | _ =>
    onStack (modifyLast fun f => { f with shown := Datum.setField name ⟨value, kind⟩ f.shown })
    tell fun s => .callStack .update s.callStack.getLast? s.callStack

/-! ### The heap -/

def allocate (kind : String) (payload : Value) : Procedure String := do
  let id ← nextId (fun c => { c with ref := c.ref + 1 }) fun c => Store.refId c.ref
  let object : HeapObject := { id, kind, payload, references := [], createdAt := ← now }
  onHeap (· ++ [object])
  tell fun s => .heap .allocate (some object) s.heap none none
  return object.id

def updateHeapValue (id : String) (payload : Value) : Procedure Unit := do
  match (← store).heapObject? id with
  | none => refuse (.noHeapObject id)
  | some object =>
    onHeap (modifyFirst (·.id == id) fun o => { o with payload })
    tell fun s => .heap .update (some { object with payload }) s.heap none none

def addReference (fromId toId : String) : Procedure Unit := do
  match (← store).heapObject? fromId with
  | none => return
  | some object =>
    if object.references.contains toId then return
    else
      onHeap (modifyFirst (·.id == fromId) fun o => { o with references := o.references ++ [toId] })
      tell fun s => .heap .reference none s.heap (some fromId) (some toId)

/-- The object is taken off before it is known whether there was one. -/
def deallocate (id : String) : Procedure Unit := do
  let object? := (← store).heapObject? id
  onHeap (List.eraseP (·.id == id))
  match object? with
  | none => return
  | some object => tell fun s => .heap .deallocate (some object) s.heap none none

/-! ### Scopes -/

/-- The scope of an identity, which has to be open. -/
def scope (id : String) : Procedure Scope := do
  match (← store).scope? id with
  | none => refuse (.noScope id)
  | some scope => return scope

def createScope (name kind : String) (parent : Option String) : Procedure Scope := do
  let id ← nextId (fun c => { c with scope := c.scope + 1 }) fun c => Store.scopeId c.scope
  let scope : Scope := { id, name, kind, parent, bindings := [], createdAt := ← now }
  onScopes (· ++ [scope])
  tell fun s => .scopes .create (some scope) s.scopes none
  return scope

def restoreScope (scope : Scope) : Procedure Unit := do
  if (← store).state.scopes.any (·.id == scope.id) then return
  else
    onScopes (· ++ [scope])
    tell fun s => .scopes .create (some scope) s.scopes none

/-- Binds a name in an open scope. -/
def give (c : Scope) (id name : String) (binding : Binding) (action : ScopeAction) :
    Procedure Unit := do
  let bind (c : Scope) : Scope := { c with bindings := Datum.setField name binding c.bindings }
  onScopes (modifyFirst (·.id == id) bind)
  tell fun s => .scopes action (some (bind c)) s.scopes (some name)

def addScopeVariable (id name : String) (binding : Binding) : Procedure Unit := do
  let c ← scope id
  give c id name binding .addVariable

def updateScopeVariable (id name : String) (value : Value) (kind : Option String) :
    Procedure Unit := do
  let c ← scope id
  match c.binding? name with
  | none => refuse (.unbound name id)
  | some old => give c id name { old with value, kind := kind.getD old.kind } .updateVariable

def destroyScope (id : String) : Procedure Scope := do
  let c ← scope id
  onScopes (List.eraseP (·.id == id))
  tell fun s => .scopes .destroy (some c) s.scopes none
  return c

/-! ### The event loop -/

def newTask (kind : TaskKind) (spec : TaskSpec) : Procedure Task := do
  let id ← nextId (fun c => { c with task := c.task + 1 }) fun c => Store.taskId c.task
  return { id, kind, startTime := ← now, spec }

def addTimer (spec : TaskSpec) : Procedure Task := do
  let task ← newTask .timer spec
  onLoop fun l => { l with timers := l.timers ++ [task] }
  tell fun s => .eventLoop .addTimer (some task) s.loop
  return task

def moveToCallbacks (id : String) : Procedure (Option Task) := do
  match (← store).state.loop.timers.find? (·.id == id) with
  | none => return none
  | some task =>
    onLoop fun l => { l with timers := l.timers.eraseP (·.id == id) }
    onLoop fun l => { l with callbacks := l.callbacks ++ [task] }
    tell fun s => .eventLoop .moveToCallbacks (some task) s.loop
    return some task

def addMicrotask (spec : TaskSpec) : Procedure Task := do
  let task ← newTask .microtask spec
  onLoop fun l => { l with microtasks := l.microtasks ++ [task] }
  tell fun s => .eventLoop .addMicrotask (some task) s.loop
  return task

def nextMicrotask : Procedure (Option Task) := do
  match (← store).state.loop.microtasks with
  | [] => return none
  | task :: rest =>
    onLoop fun l => { l with microtasks := rest }
    tell fun s => .eventLoop .processMicrotask (some task) s.loop
    return some task

def nextCallback : Procedure (Option Task) := do
  match (← store).state.loop.callbacks with
  | [] => return none
  | task :: rest =>
    onLoop fun l => { l with callbacks := rest }
    tell fun s => .eventLoop .processCallback (some task) s.loop
    return some task

/-! ### Cursor, flags, console, timers -/

def setCurrentLine (line : Int) : Procedure Unit := do
  onState fun s => { s with currentLine := line }
  tell fun _ => .currentLine line

def incrementStep : Procedure Nat := do
  onState fun s => { s with currentStep := s.currentStep + 1 }
  return (← store).state.currentStep

def setExecution (isRunning isPaused : Bool) : Procedure Unit := do
  onState fun s => { s with isRunning }
  onState fun s => { s with isPaused }
  tell fun s => .execution isRunning isPaused s.speed

/-- The wish has to be an integer before anything is set. -/
def setSpeed (wish : Datum) : Procedure Unit := do
  match wish.toInt with
  | .error fault => throw (.setting fault)
  | .ok speed =>
    onState fun s => { s with speed := max 0 speed }
    tell fun s => .execution s.isRunning s.isPaused s.speed

def logConsole (type : String) (args : List String) : Procedure Unit := do
  let time ← now
  tell fun _ => .console ⟨type, args, time⟩

def trackTimer (handle : Nat) : Procedure Unit :=
  onStore fun s => { s with timers := handle :: s.timers }

def reset : Procedure Unit := do
  onBoard fun b => { b with cancelled := b.cancelled ++ b.store.timers }
  onStore fun s => { s with timers := [] }
  onState fun s => { speed := s.speed }
  onStore fun s => { s with counters := {} }
  tell fun _ => .callStack .reset none []
  tell fun _ => .heap .reset none [] none none
  tell fun _ => .scopes .reset none [] none
  tell fun s => .eventLoop .reset none s.loop
  tell fun _ => .currentLine (-1)
  tell fun s => .execution false false s.speed

end Procedure

/-- The procedure of an operation. -/
def StoreOp.procedure : StoreOp → Procedure Datum
  | pushFrame name kind thisBinding line =>
    Frame.toDatum <$> Procedure.pushFrame name kind thisBinding line
  | popFrame => Frame.toDatum <$> Procedure.popFrame
  | updateFrameVariable name value kind => quiet (.updateFrameVariable name value kind)
  | allocate kind payload => Datum.text <$> Procedure.allocate kind payload
  | updateHeapValue id payload => quiet (.updateHeapValue id payload)
  | addReference fromId toId => quiet (.addReference fromId toId)
  | deallocate id => quiet (.deallocate id)
  | createScope name kind parent => Scope.toDatum <$> Procedure.createScope name kind parent
  | restoreScope scope => quiet (.restoreScope scope)
  | addScopeVariable scope name binding => quiet (.addScopeVariable scope name binding)
  | updateScopeVariable scope name value kind => quiet (.updateScopeVariable scope name value kind)
  | destroyScope scope => Scope.toDatum <$> Procedure.destroyScope scope
  | addTimer spec => Task.toDatum <$> Procedure.addTimer spec
  | moveToCallbacks id => Datum.option Task.toDatum <$> Procedure.moveToCallbacks id
  | addMicrotask spec => Task.toDatum <$> Procedure.addMicrotask spec
  | nextMicrotask => Datum.option Task.toDatum <$> Procedure.nextMicrotask
  | nextCallback => Datum.option Task.toDatum <$> Procedure.nextCallback
  | setCurrentLine line => quiet (.setCurrentLine line)
  | incrementStep => (fun n : Nat => Datum.int n) <$> Procedure.incrementStep
  | setExecution isRunning isPaused => quiet (.setExecution isRunning isPaused)
  | setSpeed speed => quiet (.setSpeed (.int speed))
  | logConsole type args => quiet (.logConsole type args)
  | trackTimer handle => quiet (.trackTimer handle)
  | reset => quiet .reset
where
  quiet (p : Procedure Unit) : Procedure Datum := (fun _ => Datum.null) <$> p

/-! ## What a procedure does -/

namespace Bench

/-- A change made, and told. -/
def after {α : Type} (w : Bench) (c : Change α) : Bench :=
  c.events.foldl tell { w with board := { w.board with store := c.store } }

/-- How a procedure ends that makes a change, or is refused at once. -/
def ends {α : Type} (w : Bench) : Except StoreFault (Change α) → Except Denial α × Bench
  | .ok c => (.ok c.value, w.after c)
  | .error fault => (.error (.store fault), w)

end Bench

namespace Procedure

variable (w : Bench)

theorem run_store_bind {α : Type} (f : Store → Procedure α) :
    (store >>= f).run w = (f w.board.store).run w := rfl

theorem run_popFrame : popFrame.run w = w.ends w.board.store.popFrame := by
  rw [popFrame, run_store_bind, Store.popFrame, Store.topFrame?]
  cases w.board.store.state.callStack.getLast? with
  | none => rfl
  | some top => rfl

theorem run_updateFrameVariable (name value kind : String) :
    (updateFrameVariable name value kind).run w =
      w.ends (.ok (w.board.store.updateFrameVariable name value kind)) := by
  rw [updateFrameVariable, run_store_bind, Store.updateFrameVariable]
  cases h : w.board.store.state.callStack with
  | nil => rfl
  | cons f rest => dsimp only; rw [← h]; rfl

theorem run_updateHeapValue (id : String) (payload : Value) :
    (updateHeapValue id payload).run w = w.ends (w.board.store.updateHeapValue id payload) := by
  rw [updateHeapValue, run_store_bind, Store.updateHeapValue]
  cases w.board.store.heapObject? id with
  | none => rfl
  | some object => rfl

theorem run_addReference (fromId toId : String) :
    (addReference fromId toId).run w = w.ends (.ok (w.board.store.addReference fromId toId)) := by
  rw [addReference, run_store_bind, Store.addReference]
  cases w.board.store.heapObject? fromId with
  | none => rfl
  | some object => cases h : object.references.contains toId <;> simp only [h] <;> rfl

/-- Taking off what is not there changes nothing. -/
theorem run_deallocate (id : String) :
    (deallocate id).run w = w.ends (.ok (w.board.store.deallocate id)) := by
  rw [deallocate, run_store_bind, Store.deallocate]
  cases h : w.board.store.heapObject? id with
  | none =>
    have same : w.board.store.state.heap.eraseP (·.id == id) = w.board.store.state.heap :=
      List.eraseP_of_forall_not (List.find?_eq_none.1 h)
    show (Except.ok (), { w with board := { w.board with store := { w.board.store with state :=
      { w.board.store.state with heap := w.board.store.state.heap.eraseP (·.id == id) } } } }) = _
    rw [same]
    rfl
  | some object => rfl

theorem run_restoreScope (scope : Scope) :
    (restoreScope scope).run w = w.ends (.ok (w.board.store.restoreScope scope)) := by
  rw [restoreScope, run_store_bind, Store.restoreScope]
  cases h : w.board.store.state.scopes.any (·.id == scope.id) <;> rfl

theorem run_scope_bind {α : Type} (id : String) (f : Scope → Procedure α) :
    (scope id >>= f).run w =
      match w.board.store.scope? id with
      | none => (.error (.store (.noScope id)), w)
      | some c => (f c).run w := by
  rw [scope, bind_assoc, run_store_bind]
  cases w.board.store.scope? id with
  | none => rfl
  | some c => rfl

theorem run_addScopeVariable (id name : String) (binding : Binding) :
    (addScopeVariable id name binding).run w =
      w.ends (w.board.store.addScopeVariable id name binding) := by
  rw [addScopeVariable, run_scope_bind, Store.addScopeVariable]
  cases w.board.store.scope? id with
  | none => rfl
  | some c => rfl

theorem run_updateScopeVariable (id name : String) (value : Value) (kind : Option String) :
    (updateScopeVariable id name value kind).run w =
      w.ends (w.board.store.updateScopeVariable id name value kind) := by
  rw [updateScopeVariable, run_scope_bind, Store.updateScopeVariable]
  cases w.board.store.scope? id with
  | none => rfl
  | some c =>
    dsimp only
    cases c.binding? name with
    | none => rfl
    | some old => rfl

theorem run_destroyScope (id : String) :
    (destroyScope id).run w = w.ends (w.board.store.destroyScope id) := by
  rw [destroyScope, run_scope_bind, Store.destroyScope]
  cases w.board.store.scope? id with
  | none => rfl
  | some c => rfl

theorem run_moveToCallbacks (id : String) :
    (moveToCallbacks id).run w = w.ends (.ok (w.board.store.moveToCallbacks id)) := by
  rw [moveToCallbacks, run_store_bind, Store.moveToCallbacks]
  cases w.board.store.state.loop.timers.find? (·.id == id) with
  | none => rfl
  | some task => rfl

theorem run_nextMicrotask : nextMicrotask.run w = w.ends (.ok w.board.store.nextMicrotask) := by
  rw [nextMicrotask, run_store_bind, Store.nextMicrotask]
  cases w.board.store.state.loop.microtasks with
  | nil => rfl
  | cons task rest => rfl

theorem run_nextCallback : nextCallback.run w = w.ends (.ok w.board.store.nextCallback) := by
  rw [nextCallback, run_store_bind, Store.nextCallback]
  cases w.board.store.state.loop.callbacks with
  | nil => rfl
  | cons task rest => rfl

end Procedure

namespace Bench

/-- The board as an operation finds it: the time asked for if it notes the
time, the timers cancelled if it is a reset. -/
def begun (w : Bench) (op : StoreOp) : Bench :=
  let readings := if op.notesTime then w.board.readings + 1 else w.board.readings
  let cancelled :=
    match op with
    | .reset => w.board.cancelled ++ w.board.store.timers
    | _ => w.board.cancelled
  { w with board := { w.board with readings, cancelled } }

end Bench

/-- An answer put in plain data is the only difference. -/
theorem Procedure.run_map {α : Type} {w w' : Bench} {p : Procedure α}
    {r : Except StoreFault (Change α)} (h : p.run w = w'.ends r) (f : α → Datum) :
    (f <$> p).run w = w'.ends (r.map (StoreOp.answering f)) := by
  rw [ExceptT.run_map]
  show (match (p.run w : Except Denial α × Bench) with
    | (a, t) => (f <$> a, t)) = _
  rw [h]
  cases r with
  | error fault => rfl
  | ok c => rfl

/-- What a procedure does is what the operation answers with, done to a board
that is asked for the time and rid of its timers only where the operation
goes through. -/
theorem StoreOp.run_procedure (op : StoreOp) (w : Bench) :
    op.procedure.run w =
      match op.apply w.board.store (.ofInt (w.begun op).board.readings) with
      | .ok c => (w.begun op).ends (.ok c)
      | .error fault => w.ends (.error fault) := by
  -- The operations that can be refused begin with nothing.
  have refusable {α : Type} {p : Procedure α} {r : Except StoreFault (Change α)} {f : α → Datum}
      (h : p.run w = w.ends r) :
      (f <$> p).run w =
        match r.map (answering f) with
        | .ok c => w.ends (.ok c)
        | .error fault => w.ends (.error fault) := by
    rw [Procedure.run_map h]
    cases r with
    | error fault => rfl
    | ok c => rfl
  cases op with
  | popFrame => exact refusable (Procedure.run_popFrame w)
  | updateHeapValue id payload => exact refusable (Procedure.run_updateHeapValue w id payload)
  | addScopeVariable scope name binding =>
    exact refusable (Procedure.run_addScopeVariable w scope name binding)
  | updateScopeVariable scope name value kind =>
    exact refusable (Procedure.run_updateScopeVariable w scope name value kind)
  | destroyScope scope => exact refusable (Procedure.run_destroyScope w scope)
  | updateFrameVariable name value kind =>
    exact Procedure.run_map (Procedure.run_updateFrameVariable w name value kind) _
  | addReference fromId toId =>
    exact Procedure.run_map (Procedure.run_addReference w fromId toId) _
  | deallocate id => exact Procedure.run_map (Procedure.run_deallocate w id) _
  | restoreScope scope => exact Procedure.run_map (Procedure.run_restoreScope w scope) _
  | moveToCallbacks id => exact Procedure.run_map (Procedure.run_moveToCallbacks w id) _
  | nextMicrotask => exact Procedure.run_map (Procedure.run_nextMicrotask w) _
  | nextCallback => exact Procedure.run_map (Procedure.run_nextCallback w) _
  | pushFrame | allocate | createScope | addTimer | addMicrotask | setCurrentLine | incrementStep
  | setExecution | setSpeed | logConsole | trackTimer | reset => rfl

/-! ## The board -/

/-- Events told one after the other, of one state of the board. -/
theorem Bench.foldl_tell (w : Bench) (events : List Event) :
    events.foldl tell w = { w with sent := w.sent ++ events.flatMap w.board.deliveries } := by
  induction events generalizing w with
  | nil => simp
  | cons e events ih => rw [List.foldl_cons, ih]; simp [tell]

/-- An outcome on a board, as a procedure on a bench would have it. -/
def Board.outcome (result : Board × Except StoreFault Datum × List Delivery) :
    Except Denial Datum × Bench :=
  (result.2.1.mapError .store, ⟨result.1, result.2.2⟩)

/-- A procedure does to a board what the operation does in one go. -/
theorem StoreOp.run_procedure_eq_perform (op : StoreOp) (b : Board) :
    op.procedure.run ⟨b, []⟩ = Board.outcome (b.perform op) := by
  rw [run_procedure]
  unfold Bench.begun Board.perform
  dsimp only
  let readings : Nat := if op.notesTime then b.readings + 1 else b.readings
  cases op.apply b.store (.ofInt readings) with
  | error fault => rfl
  | ok c =>
    show (Except.ok c.value, Bench.after _ c) = _
    rw [Bench.after, Bench.foldl_tell]
    rfl

/-! ## Refused, and idle -/

namespace StoreOp

/-- Why an operation cannot be done: what it is about is missing. -/
inductive Refused (s : State) : StoreOp → StoreFault → Prop
  | popFrame : s.callStack = [] → Refused s .popFrame .emptyStack
  | updateHeapValue {id : String} {payload : Value} :
    (∀ o ∈ s.heap, o.id ≠ id) → Refused s (.updateHeapValue id payload) (.noHeapObject id)
  | addScopeVariable {id name : String} {binding : Binding} :
    (∀ c ∈ s.scopes, c.id ≠ id) → Refused s (.addScopeVariable id name binding) (.noScope id)
  | updateScopeVariable {id name : String} {value : Value} {kind : Option String} :
    (∀ c ∈ s.scopes, c.id ≠ id) → Refused s (.updateScopeVariable id name value kind) (.noScope id)
  | unbound {id name : String} {value : Value} {kind : Option String} {c : Scope} :
    s.scopes.find? (·.id == id) = some c → (∀ v ∈ c.bindings, v.1 ≠ name) →
      Refused s (.updateScopeVariable id name value kind) (.unbound name id)
  | destroyScope {id : String} :
    (∀ c ∈ s.scopes, c.id ≠ id) → Refused s (.destroyScope id) (.noScope id)

/-- When an operation goes through and finds nothing to do. -/
inductive Idle (s : State) : StoreOp → Prop
  | updateFrameVariable {name value kind : String} :
    s.callStack = [] → Idle s (.updateFrameVariable name value kind)
  | addReference {fromId toId : String} :
    (∀ o ∈ s.heap, o.id ≠ fromId) → Idle s (.addReference fromId toId)
  | addKnownReference {fromId toId : String} {o : HeapObject} :
    s.heap.find? (·.id == fromId) = some o → toId ∈ o.references →
      Idle s (.addReference fromId toId)
  | deallocate {id : String} : (∀ o ∈ s.heap, o.id ≠ id) → Idle s (.deallocate id)
  | restoreScope {scope c : Scope} : c ∈ s.scopes → c.id = scope.id → Idle s (.restoreScope scope)
  | moveToCallbacks {id : String} :
    (∀ t ∈ s.loop.timers, t.id ≠ id) → Idle s (.moveToCallbacks id)
  | nextMicrotask : s.loop.microtasks = [] → Idle s .nextMicrotask
  | nextCallback : s.loop.callbacks = [] → Idle s .nextCallback

end StoreOp

/-- What is missing is not found. -/
theorem find?_id_eq_none {α : Type} {key : α → String} {l : List α} {id : String} :
    l.find? (fun a => key a == id) = none ↔ ∀ a ∈ l, key a ≠ id := by
  simp

theorem Scope.binding?_eq_none_iff {c : Scope} {name : String} :
    c.binding? name = none ↔ ∀ v ∈ c.bindings, v.1 ≠ name := by
  simp [Scope.binding?]

namespace Store

variable {s : Store} {fault : StoreFault}

theorem popFrame_eq_error_iff :
    s.popFrame = .error fault ↔ s.state.callStack = [] ∧ fault = .emptyStack := by
  rw [popFrame, ← List.getLast?_eq_none_iff]
  cases s.state.callStack.getLast? <;> simp [eq_comm]

theorem updateHeapValue_eq_error_iff {id : String} {payload : Value} :
    s.updateHeapValue id payload = .error fault ↔
      (∀ o ∈ s.state.heap, o.id ≠ id) ∧ fault = .noHeapObject id := by
  rw [updateHeapValue, ← find?_id_eq_none, heapObject?]
  cases s.state.heap.find? (·.id == id) <;> simp [eq_comm]

theorem addScopeVariable_eq_error_iff {id name : String} {binding : Binding} :
    s.addScopeVariable id name binding = .error fault ↔
      (∀ c ∈ s.state.scopes, c.id ≠ id) ∧ fault = .noScope id := by
  rw [addScopeVariable, ← find?_id_eq_none, scope?]
  cases s.state.scopes.find? (·.id == id) <;> simp [eq_comm]

theorem destroyScope_eq_error_iff {id : String} :
    s.destroyScope id = .error fault ↔
      (∀ c ∈ s.state.scopes, c.id ≠ id) ∧ fault = .noScope id := by
  rw [destroyScope, ← find?_id_eq_none, scope?]
  cases s.state.scopes.find? (·.id == id) <;> simp [eq_comm]

/-- The scope is looked for first, and the name in it. -/
theorem updateScopeVariable_eq_error_iff {id name : String} {value : Value}
    {kind : Option String} :
    s.updateScopeVariable id name value kind = .error fault ↔
      (∀ c ∈ s.state.scopes, c.id ≠ id) ∧ fault = .noScope id ∨
      ∃ c, s.state.scopes.find? (·.id == id) = some c ∧ (∀ v ∈ c.bindings, v.1 ≠ name) ∧
        fault = .unbound name id := by
  rw [updateScopeVariable, ← find?_id_eq_none, scope?]
  cases s.state.scopes.find? (·.id == id) with
  | none => simp [eq_comm]
  | some c =>
    simp only [reduceCtorEq, false_and, false_or, Option.some.injEq, exists_eq_left',
      ← Scope.binding?_eq_none_iff]
    cases c.binding? name <;> simp [eq_comm]

/-! The operations that find nothing to do leave everything as it is. -/

theorem updateFrameVariable_same_iff {name value kind : String} :
    s.updateFrameVariable name value kind = ⟨s, (), []⟩ ↔ s.state.callStack = [] := by
  rw [updateFrameVariable]
  cases s.state.callStack <;> simp

theorem addReference_same_iff {fromId toId : String} :
    s.addReference fromId toId = ⟨s, (), []⟩ ↔
      (∀ o ∈ s.state.heap, o.id ≠ fromId) ∨
      ∃ o, s.state.heap.find? (·.id == fromId) = some o ∧ toId ∈ o.references := by
  rw [addReference, ← find?_id_eq_none, heapObject?]
  cases s.state.heap.find? (·.id == fromId) with
  | none => simp
  | some o => by_cases known : toId ∈ o.references <;> simp [known]

theorem deallocate_same_iff {id : String} :
    s.deallocate id = ⟨s, (), []⟩ ↔ ∀ o ∈ s.state.heap, o.id ≠ id := by
  rw [deallocate, ← find?_id_eq_none, heapObject?]
  cases s.state.heap.find? (·.id == id) <;> simp

theorem restoreScope_same_iff {scope : Scope} :
    s.restoreScope scope = ⟨s, (), []⟩ ↔ ∃ c ∈ s.state.scopes, c.id = scope.id := by
  have live : s.state.scopes.any (·.id == scope.id) ↔ ∃ c ∈ s.state.scopes, c.id = scope.id := by
    simp
  rw [restoreScope, ← live]
  cases s.state.scopes.any (·.id == scope.id) <;> simp

theorem moveToCallbacks_same_iff {id : String} :
    s.moveToCallbacks id = ⟨s, none, []⟩ ↔ ∀ t ∈ s.state.loop.timers, t.id ≠ id := by
  rw [moveToCallbacks, ← find?_id_eq_none]
  cases s.state.loop.timers.find? (·.id == id) <;> simp

theorem nextMicrotask_same_iff :
    s.nextMicrotask = ⟨s, none, []⟩ ↔ s.state.loop.microtasks = [] := by
  rw [nextMicrotask]
  cases s.state.loop.microtasks <;> simp

theorem nextCallback_same_iff :
    s.nextCallback = ⟨s, none, []⟩ ↔ s.state.loop.callbacks = [] := by
  rw [nextCallback]
  cases s.state.loop.callbacks <;> simp

end Store

namespace StoreOp

variable {s : Store} {now : Double}

theorem map_eq_error_iff {α : Type} {r : Except StoreFault (Change α)} {f : α → Datum}
    {fault : StoreFault} : r.map (answering f) = .error fault ↔ r = .error fault := by
  cases r <;> simp [Except.map]

/-- An operation is refused just where what it is about is missing. -/
theorem apply_eq_error_iff {op : StoreOp} {fault : StoreFault} :
    op.apply s now = .error fault ↔ op.Refused s.state fault := by
  cases op with
  | popFrame =>
    refine map_eq_error_iff.trans (Store.popFrame_eq_error_iff.trans ⟨?_, ?_⟩)
    · rintro ⟨empty, rfl⟩
      exact .popFrame empty
    · rintro ⟨empty⟩
      exact ⟨empty, rfl⟩
  | updateHeapValue id payload =>
    refine map_eq_error_iff.trans (Store.updateHeapValue_eq_error_iff.trans ⟨?_, ?_⟩)
    · rintro ⟨missing, rfl⟩
      exact .updateHeapValue missing
    · intro h
      cases h with
      | updateHeapValue missing => exact ⟨missing, rfl⟩
  | addScopeVariable id name binding =>
    refine map_eq_error_iff.trans (Store.addScopeVariable_eq_error_iff.trans ⟨?_, ?_⟩)
    · rintro ⟨missing, rfl⟩
      exact .addScopeVariable missing
    · intro h
      cases h with
      | addScopeVariable missing => exact ⟨missing, rfl⟩
  | updateScopeVariable id name value kind =>
    refine map_eq_error_iff.trans (Store.updateScopeVariable_eq_error_iff.trans ⟨?_, ?_⟩)
    · rintro (⟨missing, rfl⟩ | ⟨c, found, free, rfl⟩)
      · exact .updateScopeVariable missing
      · exact .unbound found free
    · intro h
      cases h with
      | updateScopeVariable missing => exact .inl ⟨missing, rfl⟩
      | unbound found free => exact .inr ⟨_, found, free, rfl⟩
  | destroyScope id =>
    refine map_eq_error_iff.trans (Store.destroyScope_eq_error_iff.trans ⟨?_, ?_⟩)
    · rintro ⟨missing, rfl⟩
      exact .destroyScope missing
    · intro h
      cases h with
      | destroyScope missing => exact ⟨missing, rfl⟩
  | _ => exact ⟨nofun, nofun⟩

theorem quiet_eq_ok_iff {c : Change Unit} :
    (.ok (answering (fun _ => .null) c) : Except StoreFault (Change Datum)) = .ok ⟨s, .null, []⟩ ↔
      c = ⟨s, (), []⟩ := by
  cases c
  simp [answering]

theorem option_eq_ok_iff {c : Change (Option Task)} :
    (.ok (answering (.option Task.toDatum) c) : Except StoreFault (Change Datum)) =
      .ok ⟨s, .null, []⟩ ↔ c = ⟨s, none, []⟩ := by
  rcases c with ⟨store, _ | task, events⟩ <;> simp [answering, Datum.option, Task.toDatum]

/-- An operation finds nothing to do just where it goes through, and neither
changes nor tells anything.  All others are told of, or change what no event
tells, the count of steps or the timers. -/
theorem idle_iff {op : StoreOp} : op.apply s now = .ok ⟨s, .null, []⟩ ↔ op.Idle s.state := by
  cases op with
  | updateFrameVariable name value kind =>
    refine quiet_eq_ok_iff.trans
      (Store.updateFrameVariable_same_iff.trans ⟨.updateFrameVariable, ?_⟩)
    intro idle
    cases idle with
    | updateFrameVariable empty => exact empty
  | addReference fromId toId =>
    refine quiet_eq_ok_iff.trans (Store.addReference_same_iff.trans ⟨?_, ?_⟩)
    · rintro (missing | ⟨o, found, known⟩)
      · exact .addReference missing
      · exact .addKnownReference found known
    · intro idle
      cases idle with
      | addReference missing => exact .inl missing
      | addKnownReference found known => exact .inr ⟨_, found, known⟩
  | deallocate id =>
    refine quiet_eq_ok_iff.trans (Store.deallocate_same_iff.trans ⟨.deallocate, ?_⟩)
    intro idle
    cases idle with
    | deallocate missing => exact missing
  | restoreScope scope =>
    refine quiet_eq_ok_iff.trans (Store.restoreScope_same_iff.trans ⟨?_, ?_⟩)
    · rintro ⟨c, live, same⟩
      exact .restoreScope live same
    · intro idle
      cases idle with
      | restoreScope live same => exact ⟨_, live, same⟩
  | moveToCallbacks id =>
    refine option_eq_ok_iff.trans (Store.moveToCallbacks_same_iff.trans ⟨.moveToCallbacks, ?_⟩)
    intro idle
    cases idle with
    | moveToCallbacks missing => exact missing
  | nextMicrotask =>
    refine option_eq_ok_iff.trans (Store.nextMicrotask_same_iff.trans ⟨.nextMicrotask, ?_⟩)
    intro idle
    cases idle with
    | nextMicrotask empty => exact empty
  | nextCallback =>
    refine option_eq_ok_iff.trans (Store.nextCallback_same_iff.trans ⟨.nextCallback, ?_⟩)
    intro idle
    cases idle with
    | nextCallback empty => exact empty
  | popFrame =>
    refine ⟨fun same => ?_, nofun⟩
    cases top : s.state.callStack.getLast? <;>
      simp [apply, Store.popFrame, top, Except.map, answering] at same
  | updateHeapValue id payload =>
    refine ⟨fun same => ?_, nofun⟩
    cases found : s.heapObject? id <;>
      simp [apply, Store.updateHeapValue, found, Except.map, answering] at same
  | addScopeVariable id name binding =>
    refine ⟨fun same => ?_, nofun⟩
    cases found : s.scope? id <;>
      simp [apply, Store.addScopeVariable, found, Except.map, answering] at same
  | updateScopeVariable id name value kind =>
    refine ⟨fun same => ?_, nofun⟩
    cases found : s.scope? id with
    | none => simp [apply, Store.updateScopeVariable, found, Except.map] at same
    | some c =>
      cases bound : c.binding? name <;>
        simp [apply, Store.updateScopeVariable, found, bound, Except.map, answering] at same
  | destroyScope id =>
    refine ⟨fun same => ?_, nofun⟩
    cases found : s.scope? id <;>
      simp [apply, Store.destroyScope, found, Except.map, answering] at same
  | incrementStep =>
    refine ⟨fun same => ?_, nofun⟩
    exact absurd (congrArg (·.store.state.currentStep) (Except.ok.inj same)) (Nat.succ_ne_self _)
  | trackTimer handle =>
    refine ⟨fun same => ?_, nofun⟩
    exact absurd (congrArg (·.store.timers) (Except.ok.inj same)) (List.cons_ne_self _ _)
  | pushFrame | allocate | createScope | addTimer | addMicrotask | setCurrentLine | setExecution
  | setSpeed | logConsole | reset =>
    refine ⟨fun same => ?_, nofun⟩
    exact absurd (congrArg Change.events (Except.ok.inj same)) (List.cons_ne_nil _ _)

/-- Such an operation begins with nothing either. -/
theorem Idle.begun_eq {op : StoreOp} {w : Bench} (h : op.Idle w.board.store.state) :
    w.begun op = w := by
  cases h <;> rfl

end StoreOp

/-! ## Calls -/

/-- A call on a store: an operation, or a pacing delay as the caller wishes it. -/
inductive StoreCall where
  | operation (op : StoreOp)
  | setSpeed (wish : Datum)

namespace StoreCall

def procedure : StoreCall → Procedure Datum
  | operation op => op.procedure
  | setSpeed wish => StoreOp.procedure.quiet (.setSpeed wish)

/-- What a call on a board comes to: the answer, the board after it, and what
the subscribers got. -/
def on (call : StoreCall) (b : Board) : Except Denial Datum × Bench := call.procedure.run ⟨b, []⟩

/-- The operation that is called for, once a wish has been read. -/
def read : StoreCall → Except SettingFault StoreOp
  | operation op => .ok op
  | setSpeed wish => wish.toInt.map .setSpeed

/-- Why a call is denied. -/
inductive Denied (s : State) : StoreCall → Denial → Prop
  | refused {op : StoreOp} {fault : StoreFault} :
    op.Refused s fault → Denied s (.operation op) (.store fault)
  | unreadable {wish : Datum} {fault : SettingFault} :
    wish.toInt = .error fault → Denied s (.setSpeed wish) (.setting fault)

/-- When a call goes through and finds nothing to do. -/
def Idle (s : State) (call : StoreCall) : Prop := ∃ op, call.read = .ok op ∧ op.Idle s

/-- A call does what the operation does that it is read as, and is denied
where it cannot be read. -/
theorem on_eq (call : StoreCall) (b : Board) :
    call.on b =
      match call.read with
      | .ok op => Board.outcome (b.perform op)
      | .error fault => (.error (.setting fault), ⟨b, []⟩) := by
  cases call with
  | operation op => exact op.run_procedure_eq_perform b
  | setSpeed wish =>
    rw [on, procedure, read]
    cases h : wish.toInt with
    | error fault =>
      have denied : Procedure.setSpeed wish = throw (.setting fault) := by
        rw [Procedure.setSpeed, h]
      rw [denied]
      rfl
    | ok speed =>
      have same : Procedure.setSpeed wish = Procedure.setSpeed (.int speed) := by
        rw [Procedure.setSpeed, Procedure.setSpeed, h, Datum.toInt]
      rw [same]
      exact (StoreOp.setSpeed speed).run_procedure_eq_perform b

/-- A denied call leaves the board as it was, and nobody is told. -/
theorem Denied.on_eq {call : StoreCall} {b : Board} {denial : Denial}
    (h : call.Denied b.store.state denial) : call.on b = (.error denial, ⟨b, []⟩) := by
  cases h with
  | refused h =>
    rw [StoreCall.on, procedure, StoreOp.run_procedure, StoreOp.apply_eq_error_iff.2 h]
    rfl
  | unreadable h => rw [StoreCall.on_eq, read, h]; rfl

/-- Nothing else is denied. -/
theorem denied_of_on_eq {call : StoreCall} {b : Board} {denial : Denial}
    (h : (call.on b).1 = .error denial) : call.Denied b.store.state denial := by
  cases call with
  | operation op =>
    rw [on, procedure, StoreOp.run_procedure] at h
    split at h
    · cases h
    · rename_i fault refused
      cases h
      exact .refused (StoreOp.apply_eq_error_iff.1 refused)
  | setSpeed wish =>
    rw [on_eq, read] at h
    cases read : wish.toInt with
    | error fault =>
      rw [read] at h
      cases h
      exact .unreadable read
    | ok speed =>
      rw [read] at h
      cases h

/-- An operation that finds nothing to do leaves the board as it was, and
nobody is told. -/
theorem on_eq_of_idle {op : StoreOp} {b : Board} (idle : op.Idle b.store.state) :
    (operation op).on b = (.ok .null, ⟨b, []⟩) := by
  have begun : Bench.begun ⟨b, []⟩ op = ⟨b, []⟩ := StoreOp.Idle.begun_eq idle
  rw [on, procedure, StoreOp.run_procedure, StoreOp.idle_iff.2 idle]
  dsimp only
  rw [begun]
  rfl

/-- Who listens to everything is told of every event. -/
theorem deliveries_ne_nil {b : Board} {name : String}
    (listens : (Topic.all, name) ∈ b.subscriptions) (e : Event) : b.deliveries e ≠ [] := by
  have member : name ∈ b.subscribers e.topic :=
    List.mem_append_right _ (List.mem_map.2 ⟨_, List.mem_filter.2 ⟨listens, by simp⟩, rfl⟩)
  intro none
  rw [List.map_eq_nil_iff.1 none] at member
  cases member

/-- With someone who listens to everything, an operation that goes through
without an answer and without notice has found nothing to do. -/
theorem idle_of_unnoticed {b : Board} {name : String} {op : StoreOp}
    (listens : (Topic.all, name) ∈ b.subscriptions)
    (unnoticed : (operation op).on b = (.ok .null, ⟨b, []⟩)) : op.Idle b.store.state := by
  rw [on, procedure, StoreOp.run_procedure] at unnoticed
  split at unnoticed
  · rename_i c goes
    obtain ⟨answer, left⟩ := Prod.mk.inj unnoticed
    rw [Bench.after, Bench.foldl_tell] at left
    obtain ⟨board, sent⟩ := Bench.mk.inj left
    have events : c.events = [] := by
      cases told : c.events with
      | nil => rfl
      | cons e rest =>
        rw [told, List.flatMap_cons] at sent
        exact absurd (List.append_eq_nil_iff.1 (List.append_eq_nil_iff.1 sent).2).1
          (deliveries_ne_nil (by exact listens) e)
    have same : c = ⟨b.store, .null, []⟩ := by
      obtain ⟨s, value, told⟩ := c
      cases answer
      cases congrArg Board.store board
      cases events
      rfl
    exact StoreOp.idle_iff.1 (goes.trans (congrArg _ same))
  · cases unnoticed

/-- A call is denied just where what it is about is missing or its wish is no
integer.  It leaves the whole board as it was then, the state and what is
counted, the subscriptions, the timers and the time, and nobody is told; and so
does a call that finds nothing to do, which are all that go through unnoticed
by who listens to everything.  Every call that can be read is what the board
performs in one go. -/
theorem denied_or_idle_leaves_board (b : Board) (call : StoreCall) :
    (∀ denial, (call.on b).1 = .error denial ↔ call.Denied b.store.state denial) ∧
    (∀ denial, call.Denied b.store.state denial → call.on b = (.error denial, ⟨b, []⟩)) ∧
    (call.Idle b.store.state → call.on b = (.ok .null, ⟨b, []⟩)) ∧
    (∀ name, (Topic.all, name) ∈ b.subscriptions → call.on b = (.ok .null, ⟨b, []⟩) →
      call.Idle b.store.state) ∧
    (∀ op, call.read = .ok op → call.on b = Board.outcome (b.perform op)) := by
  have performs {op : StoreOp} (read : call.read = .ok op) :
      call.on b = (operation op).on b := by
    rw [on_eq, on_eq, read]
    rfl
  refine ⟨fun denial => ⟨denied_of_on_eq, fun h => ?_⟩, fun denial h => h.on_eq, ?_, ?_, ?_⟩
  · rw [h.on_eq]
  · rintro ⟨op, read, idle⟩
    rw [performs read, on_eq_of_idle idle]
  · intro name listens unnoticed
    cases read : call.read with
    | ok op => exact ⟨op, read, idle_of_unnoticed listens (performs read ▸ unnoticed)⟩
    | error fault =>
      rw [on_eq, read] at unnoticed
      cases unnoticed
  · intro op read
    rw [on_eq, read]

/-- A program in its first scope, watched and with a timer tracked: a wish for
no speed, a name that is not bound and a scope that is not open are denied, and
nothing is taken off an empty heap. -/
theorem denied_on_watched_board :
    let scope : Scope :=
      { id := "scope_1", name := "Global", kind := "global", parent := none, bindings := []
        createdAt := .zero }
    let b : Board :=
      { store := { state := { scopes := [scope], speed := 100 }, counters := { scope := 1 }
                   timers := [0] }
        subscriptions := [(.all, "view")], readings := 1 }
    let update (id : String) : StoreCall :=
      .operation (.updateScopeVariable id "x" (.text "") none)
    (setSpeed .null).on b = (.error (.setting (.kind "NoneType")), ⟨b, []⟩) ∧
    (update "scope_1").on b = (.error (.store (.unbound "x" "scope_1")), ⟨b, []⟩) ∧
    (update "scope_2").on b = (.error (.store (.noScope "scope_2")), ⟨b, []⟩) ∧
    (operation (.deallocate "ref_1")).on b = (.ok .null, ⟨b, []⟩) := by
  refine ⟨?_, ?_, ?_, ?_⟩
  · exact (denied_or_idle_leaves_board _ _).2.1 _ (.unreadable rfl)
  · exact (denied_or_idle_leaves_board _ _).2.1 _ (.refused (.unbound rfl (by simp)))
  · exact (denied_or_idle_leaves_board _ _).2.1 _ (.refused (.updateScopeVariable (by simp)))
  · exact (denied_or_idle_leaves_board _ _).2.2.1 ⟨_, rfl, .deallocate (by simp)⟩

end StoreCall

end Runloop
