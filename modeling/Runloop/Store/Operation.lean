/-
The operations of a store as data, and a board on which named subscribers
follow a store through a sequence of them.
-/
import Runloop.Store

namespace Runloop

/-- An operation that changes a store. -/
inductive StoreOp where
  | pushFrame (name kind thisBinding : String) (line : Int)
  | popFrame
  | updateFrameVariable (name value kind : String)
  | allocate (kind : String) (payload : Value)
  | updateHeapValue (id : String) (payload : Value)
  | addReference (fromId toId : String)
  | deallocate (id : String)
  | createScope (name kind : String) (parent : Option String)
  | restoreScope (scope : Scope)
  | addScopeVariable (scope name : String) (binding : Binding)
  | updateScopeVariable (scope name : String) (value : Value) (kind : Option String)
  | destroyScope (scope : String)
  | addTimer (spec : TaskSpec)
  | moveToCallbacks (id : String)
  | addMicrotask (spec : TaskSpec)
  | nextMicrotask
  | nextCallback
  | setCurrentLine (line : Int)
  | incrementStep
  | setExecution (isRunning isPaused : Bool)
  | setSpeed (speed : Int)
  | logConsole (type : String) (args : List String)
  | trackTimer (handle : Nat)
  | reset

namespace StoreOp

/-- Whether an operation notes the time. -/
def notesTime : StoreOp → Bool
  | allocate .. | createScope .. | addTimer .. | addMicrotask .. | logConsole .. => true
  | _ => false

/-- A change that answers with plain data. -/
def answering {α : Type} (f : α → Datum) (c : Change α) : Change Datum :=
  { c with value := f c.value }

/-- Applies an operation at a time. -/
def apply (op : StoreOp) (s : Store) (now : Double) : Except StoreFault (Change Datum) :=
  let quiet {α : Type} (c : Change α) : Change Datum := answering (fun _ => .null) c
  match op with
  | pushFrame name kind thisBinding line =>
    .ok (answering Frame.toDatum (s.pushFrame name kind thisBinding line))
  | popFrame => s.popFrame.map (answering Frame.toDatum)
  | updateFrameVariable name value kind => .ok (quiet (s.updateFrameVariable name value kind))
  | allocate kind payload => .ok (answering .text (s.allocate kind payload now))
  | updateHeapValue id payload => (s.updateHeapValue id payload).map quiet
  | addReference fromId toId => .ok (quiet (s.addReference fromId toId))
  | deallocate id => .ok (quiet (s.deallocate id))
  | createScope name kind parent =>
    .ok (answering Scope.toDatum (s.createScope name kind parent now))
  | restoreScope scope => .ok (quiet (s.restoreScope scope))
  | addScopeVariable scope name binding => (s.addScopeVariable scope name binding).map quiet
  | updateScopeVariable scope name value kind =>
    (s.updateScopeVariable scope name value kind).map quiet
  | destroyScope scope => (s.destroyScope scope).map (answering Scope.toDatum)
  | addTimer spec => .ok (answering Task.toDatum (s.addTimer spec now))
  | moveToCallbacks id => .ok (answering (.option Task.toDatum) (s.moveToCallbacks id))
  | addMicrotask spec => .ok (answering Task.toDatum (s.addMicrotask spec now))
  | nextMicrotask => .ok (answering (.option Task.toDatum) s.nextMicrotask)
  | nextCallback => .ok (answering (.option Task.toDatum) s.nextCallback)
  | setCurrentLine line => .ok (quiet (s.setCurrentLine line))
  | incrementStep => .ok (answering (fun n : Nat => .int n) s.incrementStep)
  | setExecution isRunning isPaused => .ok (quiet (s.setExecution isRunning isPaused))
  | setSpeed speed => .ok (quiet (s.setSpeed speed))
  | logConsole type args => .ok (quiet (s.logConsole type args now))
  | trackTimer handle => .ok { store := s.trackTimer handle, value := .null, events := [] }
  | reset => .ok (quiet s.reset)

end StoreOp

/-- A store with named subscribers and a time that is one more at each asking. -/
structure Board where
  store : Store
  subscriptions : List (Topic × String) := []
  readings : Nat := 0
  /-- The timer handles cancelled so far. -/
  cancelled : List Nat := []

/-- An event as a subscriber gets it, with a copy of the state of that moment. -/
structure Delivery where
  subscriber : String
  event : Event
  snapshot : State

namespace Delivery

def step (d : Delivery) : Nat := d.snapshot.currentStep

def depth (d : Delivery) : Nat := d.snapshot.callStack.length

end Delivery

namespace Board

/-- The subscribers to a topic, and then those to everything. -/
def subscribers (b : Board) (t : Topic) : List String :=
  let listeners (topic : Topic) := (b.subscriptions.filter (·.1 = topic)).map (·.2)
  listeners t ++ listeners .all

def subscribe (b : Board) (t : Topic) (name : String) : Board :=
  { b with subscriptions := b.subscriptions ++ [(t, name)] }

def unsubscribe (b : Board) (name : String) : Board :=
  { b with subscriptions := b.subscriptions.filter (·.2 ≠ name) }

/-- What the subscribers get of an event. -/
def deliveries (b : Board) (e : Event) : List Delivery :=
  (b.subscribers e.topic).map fun name =>
    { subscriber := name, event := e, snapshot := b.store.state }

/-- Applies an operation: the board after it, the answer, and what the
subscribers got.  A fault changes nothing. -/
def perform (b : Board) (op : StoreOp) : Board × Except StoreFault Datum × List Delivery :=
  let readings := if op.notesTime then b.readings + 1 else b.readings
  match op.apply b.store (.ofInt readings) with
  | .error fault => (b, .error fault, [])
  | .ok change =>
    let cancelled :=
      match op with
      | .reset => b.cancelled ++ b.store.timers
      | _ => b.cancelled
    let b' := { b with store := change.store, readings, cancelled }
    (b', .ok change.value, change.events.flatMap b'.deliveries)

end Board

end Runloop
