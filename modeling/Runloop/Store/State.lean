/-
The state of a simulated program: its call stack, heap, scopes and event
loop, with the cursor and the flags that a renderer shows.  Lists are in the
order of creation, so the innermost frame and the innermost scope come last.
-/
import Runloop.Value.Display

namespace Runloop

/-- How a frame shows a variable. -/
structure ShownVariable where
  value : String
  kind : String
deriving DecidableEq, Repr

/-- An entry of the call stack. -/
structure Frame where
  id : String
  name : String
  kind : String
  shown : List (String × ShownVariable)
  thisBinding : String
  line : Int
  active : Bool
deriving DecidableEq, Repr

/-- An object on the heap, with the identities it is known to refer to. -/
structure HeapObject where
  id : String
  kind : String
  payload : Value
  references : List String
  createdAt : Double

/-- A variable of a scope. -/
structure Binding where
  value : Value
  kind : String
  declaration : String

/-- A scope; its parent is the scope it is nested in. -/
structure Scope where
  id : String
  name : String
  kind : String
  parent : Option String
  bindings : List (String × Binding)
  createdAt : Double

/-- The variable of a scope. -/
def Scope.binding? (scope : Scope) (name : String) : Option Binding :=
  (scope.bindings.find? (·.1 == name)).map (·.2)

/-- What queued a task. -/
inductive TaskKind where
  | timer
  | microtask
deriving DecidableEq, Repr

def TaskKind.label : TaskKind → String
  | timer => "timer"
  | microtask => "microtask"

/-- What a task will run: the text of its body, or the function of that name. -/
structure TaskSpec where
  name : String
  callback : String
  delay : Int := 0
  closure : Option String := none
  callbackName : String := ""
  linesBefore : Int := 0
  concise : Bool := false
  params : List String := []
  args : List Value := []

/-- An entry of the event loop. -/
structure Task where
  id : String
  kind : TaskKind
  startTime : Double
  spec : TaskSpec

/-- The three queues: running timers, callbacks whose time has come, and
microtasks. -/
structure EventLoop where
  timers : List Task := []
  callbacks : List Task := []
  microtasks : List Task := []

/-- The whole state. -/
structure State where
  callStack : List Frame := []
  heap : List HeapObject := []
  scopes : List Scope := []
  loop : EventLoop := {}
  currentLine : Int := -1
  currentStep : Nat := 0
  isRunning : Bool := false
  isPaused : Bool := false
  speed : Int

/-! ## Plain data -/

def ShownVariable.toDatum (v : ShownVariable) : Datum :=
  .object [("value", .text v.value), ("kind", .text v.kind)]

def Frame.toDatum (f : Frame) : Datum :=
  .object
    [("id", .text f.id), ("name", .text f.name), ("kind", .text f.kind),
      ("variables", .object (f.shown.map fun v => (v.1, v.2.toDatum))),
      ("this_binding", .text f.thisBinding), ("line", .int f.line), ("active", .bool f.active)]

def HeapObject.toDatum (o : HeapObject) : Datum :=
  .object
    [("id", .text o.id), ("kind", .text o.kind), ("value", o.payload.toDatum),
      ("references", .texts o.references), ("created_at", Value.doubleDatum o.createdAt)]

def Binding.toDatum (b : Binding) : Datum :=
  .object
    [("value", b.value.toDatum), ("kind", .text b.kind), ("declaration", .text b.declaration)]

def Scope.toDatum (s : Scope) : Datum :=
  .object
    [("id", .text s.id), ("name", .text s.name), ("kind", .text s.kind),
      ("parent_id", .option .text s.parent),
      ("variables", .object (s.bindings.map fun v => (v.1, v.2.toDatum))),
      ("created_at", Value.doubleDatum s.createdAt)]

def Task.toDatum (t : Task) : Datum :=
  .object
    [("id", .text t.id), ("name", .text t.spec.name), ("callback", .text t.spec.callback),
      ("kind", .text t.kind.label), ("delay", .int t.spec.delay),
      ("start_time", Value.doubleDatum t.startTime), ("closure", .option .text t.spec.closure),
      ("callback_name", .text t.spec.callbackName), ("body_offset", .int t.spec.linesBefore),
      ("concise", .bool t.spec.concise), ("params", .texts t.spec.params),
      ("args", .list (t.spec.args.map Value.toDatum))]

def EventLoop.toDatum (l : EventLoop) : Datum :=
  .object
    [("web_apis", .list (l.timers.map Task.toDatum)),
      ("callback_queue", .list (l.callbacks.map Task.toDatum)),
      ("microtask_queue", .list (l.microtasks.map Task.toDatum))]

/-- A heap as an object with an entry for each identity. -/
def HeapObject.heapDatum (heap : List HeapObject) : Datum :=
  .object (heap.map fun o => (o.id, o.toDatum))

def State.toDatum (s : State) : Datum :=
  .object
    [("call_stack", .list (s.callStack.map Frame.toDatum)),
      ("heap", HeapObject.heapDatum s.heap),
      ("scopes", .list (s.scopes.map Scope.toDatum)),
      ("event_loop", s.loop.toDatum), ("current_line", .int s.currentLine),
      ("current_step", .int s.currentStep), ("is_running", .bool s.isRunning),
      ("is_paused", .bool s.isPaused), ("speed_ms", .int s.speed)]

end Runloop
