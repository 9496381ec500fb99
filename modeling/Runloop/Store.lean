/-
The store: the state of a simulated program together with what is needed to
name new parts of it.

Every operation is a function from the store to a change: the new store, the
answer, and the events that tell about it.  An operation that cannot be done
answers with a fault and leaves everything as it was.
-/
import Runloop.Store.Event

namespace Runloop

/-- How many identities of each sort have been given out. -/
structure Counters where
  ref : Nat := 0
  scope : Nat := 0
  frame : Nat := 0
  task : Nat := 0
deriving DecidableEq, Repr

/-- The state, the identities given out, and the timer handles to cancel on a
reset, latest first. -/
structure Store where
  state : State
  counters : Counters := {}
  timers : List Nat := []

/-- Why an operation of the store cannot be done. -/
inductive StoreFault where
  | emptyStack
  | noHeapObject (id : String)
  | noScope (id : String)
  | unbound (name scope : String)
deriving DecidableEq, Repr

def StoreFault.message : StoreFault → String
  | emptyStack => "cannot pop from an empty call stack"
  | noHeapObject id => "no such heap object: " ++ id
  | noScope id => "no such scope: " ++ id
  | unbound name scope => name ++ " is not bound in " ++ scope

/-- What an operation does: the store after it, its answer, and its events. -/
structure Change (α : Type) where
  store : Store
  value : α
  events : List Event

/-- The last element replaced by its image. -/
def modifyLast {α : Type} (f : α → α) : List α → List α
  | [] => []
  | [a] => [f a]
  | a :: b :: rest => a :: modifyLast f (b :: rest)

/-- The first element with a property replaced by its image. -/
def modifyFirst {α : Type} (p : α → Bool) (f : α → α) : List α → List α
  | [] => []
  | a :: rest => if p a then f a :: rest else a :: modifyFirst p f rest

namespace Store

/-- A store without anything in it. -/
def empty (speed : Int) : Store := { state := { speed } }

/-! ## Reading -/

def speed (s : Store) : Int := s.state.speed

/-- The innermost scope. -/
def currentScope? (s : Store) : Option String := s.state.scopes.getLast?.map (·.id)

def scopeIds (s : Store) : List String := s.state.scopes.map (·.id)

def topFrame? (s : Store) : Option Frame := s.state.callStack.getLast?

def heapObject? (s : Store) (id : String) : Option HeapObject :=
  s.state.heap.find? (·.id == id)

def heapLookup? (s : Store) (id : String) : Option HeapEntry :=
  (s.heapObject? id).map fun o => ⟨o.kind, o.payload⟩

/-- The heap as the display of values sees it. -/
def heapView (s : Store) : HeapView := ⟨s.state.heap.length, s.heapLookup?⟩

def scope? (s : Store) (id : String) : Option Scope :=
  s.state.scopes.find? (·.id == id)

/-- The scopes on the way from `id` outward, `seen` before them; no scope is
visited twice, so the number of scopes bounds the way. -/
def chainFrom (scopes : List Scope) : Nat → Option String → List String → List String
  | 0, _, seen => seen
  | _, none, seen => seen
  | fuel + 1, some id, seen =>
    if seen.contains id then seen
    else
      match scopes.reverse.find? (·.id == id) with
      | none => seen
      | some scope => chainFrom scopes fuel scope.parent (id :: seen)

/-- The scopes on the way from a scope outward. -/
def chain (s : Store) (start : String) : List String :=
  chainFrom s.state.scopes s.state.scopes.length (some start) []

/-- The variable that a name denotes, seen from a scope (the innermost one if
none is given), and the scope that holds it.  Only scopes on the way outward
count, and of those the innermost one wins. -/
def findBinding? (s : Store) (name : String) (scope? : Option String) :
    Option (String × Binding) :=
  match s.state.scopes.getLast? with
  | none => none
  | some innermost =>
    let start :=
      match scope? with
      | some id => if id.isEmpty then innermost.id else id
      | none => innermost.id
    let chain := s.chain start
    s.state.scopes.reverse.findSome? fun scope =>
      if chain.contains scope.id then (scope.binding? name).map (scope.id, ·) else none

/-- Whether anything waits in the event loop. -/
def hasPendingTasks (s : Store) : Bool :=
  !(s.state.loop.timers.isEmpty && s.state.loop.callbacks.isEmpty &&
    s.state.loop.microtasks.isEmpty)

/-! ## Identities -/

def frameId (n : Nat) : String := "frame_" ++ toString n

def refId (n : Nat) : String := "ref_" ++ toString n

def scopeId (n : Nat) : String := "scope_" ++ toString n

def taskId (n : Nat) : String := "task_" ++ toString n

/-! ## The call stack -/

def setStack (s : Store) (stack : List Frame) : Store :=
  { s with state := { s.state with callStack := stack } }

/-- Puts a frame on top; it becomes the active one. -/
def pushFrame (s : Store) (name kind thisBinding : String) (line : Int) : Change Frame :=
  let n := s.counters.frame + 1
  let frame : Frame :=
    { id := frameId n, name := if name.isEmpty then "anonymous" else name, kind, shown := []
      thisBinding, line, active := true }
  let stack := modifyLast (fun f => { f with active := false }) s.state.callStack ++ [frame]
  { store := { s.setStack stack with counters := { s.counters with frame := n } }
    value := frame
    events := [.callStack .push (some frame) stack] }

/-- Takes the top frame; the one below becomes active. -/
def popFrame (s : Store) : Except StoreFault (Change Frame) :=
  match s.state.callStack.getLast? with
  | none => .error .emptyStack
  | some top =>
    let frame := { top with active := false }
    let stack := modifyLast (fun f => { f with active := true }) s.state.callStack.dropLast
    .ok
      { store := s.setStack stack, value := frame
        events := [.callStack .pop (some frame) stack] }

/-- Shows a variable in the top frame, if there is one. -/
def updateFrameVariable (s : Store) (name value kind : String) : Change Unit :=
  match s.state.callStack with
  | [] => { store := s, value := (), events := [] }
  | _ =>
    let stack :=
      modifyLast
        (fun f => { f with shown := Datum.setField name ⟨value, kind⟩ f.shown })
        s.state.callStack
    { store := s.setStack stack, value := ()
      events := [.callStack .update stack.getLast? stack] }

/-! ## The heap -/

def setHeap (s : Store) (heap : List HeapObject) : Store :=
  { s with state := { s.state with heap } }

/-- Puts a new object on the heap and answers with its identity. -/
def allocate (s : Store) (kind : String) (payload : Value) (now : Double) : Change String :=
  let n := s.counters.ref + 1
  let object : HeapObject := { id := refId n, kind, payload, references := [], createdAt := now }
  let heap := s.state.heap ++ [object]
  { store := { s.setHeap heap with counters := { s.counters with ref := n } }
    value := object.id
    events := [.heap .allocate (some object) heap none none] }

/-- Replaces the payload of an object. -/
def updateHeapValue (s : Store) (id : String) (payload : Value) :
    Except StoreFault (Change Unit) :=
  match s.heapObject? id with
  | none => .error (.noHeapObject id)
  | some object =>
    let heap := modifyFirst (·.id == id) (fun o => { o with payload }) s.state.heap
    .ok
      { store := s.setHeap heap, value := ()
        events := [.heap .update (some { object with payload }) heap none none] }

/-- Notes that one object refers to another; nothing happens if it is known
already or the first is missing. -/
def addReference (s : Store) (fromId toId : String) : Change Unit :=
  match s.heapObject? fromId with
  | none => { store := s, value := (), events := [] }
  | some object =>
    if object.references.contains toId then { store := s, value := (), events := [] }
    else
      let heap :=
        modifyFirst (·.id == fromId) (fun o => { o with references := o.references ++ [toId] })
          s.state.heap
      { store := s.setHeap heap, value := ()
        events := [.heap .reference none heap (some fromId) (some toId)] }

/-- Takes an object off the heap, if it is there. -/
def deallocate (s : Store) (id : String) : Change Unit :=
  match s.heapObject? id with
  | none => { store := s, value := (), events := [] }
  | some object =>
    let heap := s.state.heap.eraseP (·.id == id)
    { store := s.setHeap heap, value := ()
      events := [.heap .deallocate (some object) heap none none] }

/-! ## Scopes -/

def setScopes (s : Store) (scopes : List Scope) : Store :=
  { s with state := { s.state with scopes } }

/-- Opens a new scope. -/
def createScope (s : Store) (name kind : String) (parent : Option String) (now : Double) :
    Change Scope :=
  let n := s.counters.scope + 1
  let scope : Scope := { id := scopeId n, name, kind, parent, bindings := [], createdAt := now }
  let scopes := s.state.scopes ++ [scope]
  { store := { s.setScopes scopes with counters := { s.counters with scope := n } }
    value := scope
    events := [.scopes .create (some scope) scopes none] }

/-- Opens a scope again that was closed, unless it is open. -/
def restoreScope (s : Store) (scope : Scope) : Change Unit :=
  if s.state.scopes.any (·.id == scope.id) then { store := s, value := (), events := [] }
  else
    let scopes := s.state.scopes ++ [scope]
    { store := s.setScopes scopes, value := ()
      events := [.scopes .create (some scope) scopes none] }

/-- Binds a name in a scope, whatever was bound to it before. -/
def addScopeVariable (s : Store) (scopeId name : String) (binding : Binding) :
    Except StoreFault (Change Unit) :=
  match s.scope? scopeId with
  | none => .error (.noScope scopeId)
  | some scope =>
    let bind (c : Scope) : Scope := { c with bindings := Datum.setField name binding c.bindings }
    let scopes := modifyFirst (·.id == scopeId) bind s.state.scopes
    .ok
      { store := s.setScopes scopes, value := ()
        events := [.scopes .addVariable (some (bind scope)) scopes (some name)] }

/-- Gives a bound name a new value, and a new kind if one is given. -/
def updateScopeVariable (s : Store) (scopeId name : String) (value : Value)
    (kind : Option String) : Except StoreFault (Change Unit) :=
  match s.scope? scopeId with
  | none => .error (.noScope scopeId)
  | some scope =>
    match scope.binding? name with
    | none => .error (.unbound name scopeId)
    | some old =>
      let binding := { old with value, kind := kind.getD old.kind }
      let bind (c : Scope) : Scope :=
        { c with bindings := Datum.setField name binding c.bindings }
      let scopes := modifyFirst (·.id == scopeId) bind s.state.scopes
      .ok
        { store := s.setScopes scopes, value := ()
          events := [.scopes .updateVariable (some (bind scope)) scopes (some name)] }

/-- Closes a scope and answers with it. -/
def destroyScope (s : Store) (scopeId : String) : Except StoreFault (Change Scope) :=
  match s.scope? scopeId with
  | none => .error (.noScope scopeId)
  | some scope =>
    let scopes := s.state.scopes.eraseP (·.id == scopeId)
    .ok
      { store := s.setScopes scopes, value := scope
        events := [.scopes .destroy (some scope) scopes none] }

/-! ## The event loop -/

def setLoop (s : Store) (loop : EventLoop) : Store :=
  { s with state := { s.state with loop } }

/-- A new task for a queue. -/
def newTask (s : Store) (kind : TaskKind) (spec : TaskSpec) (now : Double) : Store × Task :=
  let n := s.counters.task + 1
  ({ s with counters := { s.counters with task := n } },
    { id := taskId n, kind, startTime := now, spec })

/-- Starts a timer. -/
def addTimer (s : Store) (spec : TaskSpec) (now : Double) : Change Task :=
  let (s', task) := s.newTask .timer spec now
  let loop := { s.state.loop with timers := s.state.loop.timers ++ [task] }
  { store := s'.setLoop loop, value := task, events := [.eventLoop .addTimer (some task) loop] }

/-- Queues the callback of a timer whose time has come, if it still runs. -/
def moveToCallbacks (s : Store) (id : String) : Change (Option Task) :=
  match s.state.loop.timers.find? (·.id == id) with
  | none => { store := s, value := none, events := [] }
  | some task =>
    let loop :=
      { s.state.loop with
        timers := s.state.loop.timers.eraseP (·.id == id)
        callbacks := s.state.loop.callbacks ++ [task] }
    { store := s.setLoop loop, value := some task
      events := [.eventLoop .moveToCallbacks (some task) loop] }

/-- Queues a microtask. -/
def addMicrotask (s : Store) (spec : TaskSpec) (now : Double) : Change Task :=
  let (s', task) := s.newTask .microtask spec now
  let loop := { s.state.loop with microtasks := s.state.loop.microtasks ++ [task] }
  { store := s'.setLoop loop, value := task
    events := [.eventLoop .addMicrotask (some task) loop] }

/-- Takes the oldest microtask, if there is one. -/
def nextMicrotask (s : Store) : Change (Option Task) :=
  match s.state.loop.microtasks with
  | [] => { store := s, value := none, events := [] }
  | task :: rest =>
    let loop := { s.state.loop with microtasks := rest }
    { store := s.setLoop loop, value := some task
      events := [.eventLoop .processMicrotask (some task) loop] }

/-- Takes the oldest callback, if there is one. -/
def nextCallback (s : Store) : Change (Option Task) :=
  match s.state.loop.callbacks with
  | [] => { store := s, value := none, events := [] }
  | task :: rest =>
    let loop := { s.state.loop with callbacks := rest }
    { store := s.setLoop loop, value := some task
      events := [.eventLoop .processCallback (some task) loop] }

/-! ## Cursor, flags and console -/

/-- Highlights a line; none is highlighted if it is not positive. -/
def setCurrentLine (s : Store) (line : Int) : Change Unit :=
  { store := { s with state := { s.state with currentLine := line } }, value := ()
    events := [.currentLine line] }

/-- Counts one more step and answers with the count. -/
def incrementStep (s : Store) : Change Nat :=
  let n := s.state.currentStep + 1
  { store := { s with state := { s.state with currentStep := n } }, value := n, events := [] }

def setExecution (s : Store) (isRunning isPaused : Bool) : Change Unit :=
  { store := { s with state := { s.state with isRunning, isPaused } }, value := ()
    events := [.execution isRunning isPaused s.state.speed] }

/-- Sets the pacing delay, at least zero. -/
def setSpeed (s : Store) (speed : Int) : Change Unit :=
  let speed := max 0 speed
  { store := { s with state := { s.state with speed } }, value := ()
    events := [.execution s.state.isRunning s.state.isPaused speed] }

/-- Writes a line to the console. -/
def logConsole (s : Store) (type : String) (args : List String) (now : Double) : Change Unit :=
  { store := s, value := (), events := [.console ⟨type, args, now⟩] }

/-! ## Timers and reset -/

/-- Remembers a timer handle that a reset has to cancel. -/
def trackTimer (s : Store) (handle : Nat) : Store :=
  { s with timers := handle :: s.timers }

/-- Everything cleared but the pacing delay; identities start anew. -/
def cleared (s : Store) : Store := Store.empty s.state.speed

/-- What is told about a reset, one after the other, each from the store as
it is when its turn comes. -/
def resetEvents : List (Store → Event) :=
  [fun _ => .callStack .reset none [], fun _ => .heap .reset none [] none none,
    fun _ => .scopes .reset none [] none, fun s => .eventLoop .reset none s.state.loop,
    fun _ => .currentLine (-1), fun s => .execution false false s.state.speed]

/-- Clears the store and answers with the timer handles to cancel. -/
def reset (s : Store) : Change (List Nat) :=
  { store := s.cleared, value := s.timers, events := resetEvents.map (· s.cleared) }

end Store

end Runloop
