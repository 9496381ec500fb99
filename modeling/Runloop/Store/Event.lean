/-
Events: what the store tells about each change.  An event carries the new
value of the whole collection it concerns, so that whoever keeps the latest
ones knows the state.
-/
import Runloop.Store.State

namespace Runloop

/-- What an event can be about; `all` is for subscribers to everything. -/
inductive Topic where
  | callStack
  | heap
  | scopes
  | eventLoop
  | currentLine
  | execution
  | console
  | all
deriving DecidableEq, Repr

namespace Topic

def label : Topic → String
  | callStack => "call-stack"
  | heap => "heap"
  | scopes => "scopes"
  | eventLoop => "event-loop"
  | currentLine => "current-line"
  | execution => "execution"
  | console => "console"
  | all => "all"

def every : List Topic :=
  [callStack, heap, scopes, eventLoop, currentLine, execution, console, all]

def ofLabel? (s : String) : Option Topic :=
  every.find? (fun t => t.label == s)

end Topic

/-- What happened to the call stack. -/
inductive StackAction where
  | push
  | pop
  | update
  | reset
deriving DecidableEq, Repr

def StackAction.label : StackAction → String
  | push => "push"
  | pop => "pop"
  | update => "update"
  | reset => "reset"

/-- What happened to the heap. -/
inductive HeapAction where
  | allocate
  | deallocate
  | reference
  | update
  | reset
deriving DecidableEq, Repr

def HeapAction.label : HeapAction → String
  | allocate => "allocate"
  | deallocate => "deallocate"
  | reference => "reference"
  | update => "update"
  | reset => "reset"

/-- What happened to the scopes. -/
inductive ScopeAction where
  | create
  | addVariable
  | updateVariable
  | destroy
  | reset
deriving DecidableEq, Repr

def ScopeAction.label : ScopeAction → String
  | create => "create"
  | addVariable => "addVariable"
  | updateVariable => "updateVariable"
  | destroy => "destroy"
  | reset => "reset"

/-- What happened to the event loop. -/
inductive LoopAction where
  | addTimer
  | moveToCallbacks
  | addMicrotask
  | processMicrotask
  | processCallback
  | reset
deriving DecidableEq, Repr

def LoopAction.label : LoopAction → String
  | addTimer => "addWebAPI"
  | moveToCallbacks => "moveToCallback"
  | addMicrotask => "addMicrotask"
  | processMicrotask => "processMicrotask"
  | processCallback => "processCallback"
  | reset => "reset"

/-- A line of the console. -/
structure ConsoleEntry where
  type : String
  args : List String
  timestamp : Double
deriving DecidableEq

namespace ConsoleEntry

/-- The text of a line: its arguments with blanks between them. -/
def text (e : ConsoleEntry) : String := String.intercalate " " e.args

def fields (e : ConsoleEntry) : List (String × Datum) :=
  [("type", .text e.type), ("args", .texts e.args),
    ("timestamp", Value.doubleDatum e.timestamp)]

def toDatum (e : ConsoleEntry) : Datum :=
  .object (e.fields ++ [("topic", .text Topic.console.label)])

end ConsoleEntry

/-- A change of the store. -/
inductive Event where
  | callStack (action : StackAction) (frame : Option Frame) (stack : List Frame)
  | heap (action : HeapAction) (object : Option HeapObject) (heap : List HeapObject)
      (fromId toId : Option String)
  | scopes (action : ScopeAction) (scope : Option Scope) (scopes : List Scope)
      (name : Option String)
  | eventLoop (action : LoopAction) (task : Option Task) (loop : EventLoop)
  | currentLine (line : Int)
  | execution (isRunning isPaused : Bool) (speed : Int)
  | console (entry : ConsoleEntry)

namespace Event

def topic : Event → Topic
  | callStack _ _ _ => .callStack
  | heap _ _ _ _ _ => .heap
  | scopes _ _ _ _ => .scopes
  | eventLoop _ _ _ => .eventLoop
  | currentLine _ => .currentLine
  | execution _ _ _ => .execution
  | console _ => .console

/-- The name of what happened, for the topics that tell several things apart. -/
def action? : Event → Option String
  | callStack a _ _ => some a.label
  | heap a _ _ _ _ => some a.label
  | scopes a _ _ _ => some a.label
  | eventLoop a _ _ => some a.label
  | _ => none

/-- How collections are written: in full, or by their sizes. -/
inductive Detail where
  | full
  | sizes
deriving DecidableEq, Repr

/-- A collection in full or by its size. -/
def collection {α : Type} (d : Detail) (f : α → Datum) (items : List α) : Datum :=
  match d with
  | .full => .list (items.map f)
  | .sizes => .int items.length

/-- The event loop in full or by the sizes of its queues. -/
def loopDatum (d : Detail) (l : EventLoop) : Datum :=
  match d with
  | .full => l.toDatum
  | .sizes => .list [.int l.timers.length, .int l.callbacks.length, .int l.microtasks.length]

/-- The heap in full or by its size. -/
def heapDatum (d : Detail) (objects : List HeapObject) : Datum :=
  match d with
  | .full => HeapObject.heapDatum objects
  | .sizes => .int objects.length

/-- The fields of an event but for its topic. -/
def fields (d : Detail) : Event → List (String × Datum)
  | callStack a frame stack =>
    [("action", .text a.label), ("frame", .option Frame.toDatum frame),
      ("stack", collection d Frame.toDatum stack)]
  | heap a object objects fromId toId =>
    [("action", .text a.label), ("object", .option HeapObject.toDatum object),
      ("heap", heapDatum d objects),
      ("from_id", .option .text fromId), ("to_id", .option .text toId)]
  | scopes a scope live name =>
    [("action", .text a.label), ("scope", .option Scope.toDatum scope),
      ("scopes", collection d Scope.toDatum live), ("variable", .option .text name)]
  | eventLoop a task loop =>
    [("action", .text a.label), ("task", .option Task.toDatum task),
      ("event_loop", loopDatum d loop)]
  | currentLine line => [("line", .int line)]
  | execution isRunning isPaused speed =>
    [("is_running", .bool isRunning), ("is_paused", .bool isPaused), ("speed_ms", .int speed)]
  | console entry => entry.fields

def toDatum (d : Detail) (e : Event) : Datum :=
  .object (e.fields d ++ [("topic", .text e.topic.label)])

end Event

end Runloop
