/-
The state of a session: a store, a clock, the machine that runs a program,
and what the session keeps for its caller.  Running is a computation that may
fault; what was done before the fault stays done.
-/
import Runloop.Machine.Work
import Runloop.Clock
import Runloop.Descent

namespace Runloop

/-- The limits of a run. -/
structure Limits where
  callDepth : Int := 64
  steps : Int := 10000
deriving DecidableEq, Repr

/-- A unit of work under way; while it is being run its work is out of reach. -/
structure UnitOfWork where
  serial : Nat
  work : Work
  running : Bool

/-- The machine: where a program stands and how it is driven. -/
structure Machine where
  limits : Limits
  phase : Phase := .idle
  loaded : Bool := false
  program : List Instruction := []
  cursor : Nat := 0
  unit : Option UnitOfWork := none
  /-- How many units of work there have been. -/
  units : Nat := 0
  globalScope : Option String := none
  /-- Scopes that were closed but may still be closed over, latest first. -/
  detached : List (String × Scope) := []
  depth : Int := 0
  /-- The line last reached. -/
  line : Int := 0
  /-- The receivers of the open calls, innermost last. -/
  receivers : List Value := []
  /-- Goes up when a run is stopped or reset; work of an older one is void. -/
  generation : Nat := 0
  runActive : Bool := false
  /-- Whether a paused run may go on; none before the first run. -/
  gate : Option Bool := none
  /-- How often the gate was opened. -/
  openings : Nat := 0

/-- A control operation. -/
inductive Control where
  | pause
  | resume
  | stop
  | reset
  | close
  | step
  | load (source : String)
  | setSpeed (speed : Int)
deriving DecidableEq, Repr

/-- A control operation that is carried out once, inside the first
notification that matches. -/
structure Hook where
  topic : String
  action : Option String
  text : Option String
  deed : Control
deriving DecidableEq, Repr

/-- An error of a source as it is kept for the caller. -/
structure SessionError where
  message : String
  line : Int
  column : Option Nat
deriving DecidableEq, Repr

/-- The most compiled bodies that are kept. -/
def bodyCapacity : Nat := 256

/-- A session. -/
structure Session where
  store : Store
  clock : Clock String
  /-- Whether time passes by itself; then timers are fired from outside. -/
  realtime : Bool := false
  machine : Machine
  source : String := ""
  instructions : List Instruction := []
  diagnostics : List Diagnostic := []
  errors : List SessionError := []
  /-- The lines of the console, latest first. -/
  lines : List ConsoleEntry := []
  /-- Whether the session still listens to its console. -/
  attached : Bool := true
  hooks : List Hook := []
  /-- Every event so far, latest first. -/
  journal : List Event := []
  /-- The notices that compilations have left, latest first. -/
  notices : List String := []
  /-- Compiled bodies, the most recently used first. -/
  bodies : List (Body × List Instruction) := []

/-- A computation on a session. -/
abbrev Act := ExceptT Fault (StateM Session)

/-- Whoever is told about events. -/
abbrev Publisher := Event → Act Unit

/-- How the variable that a name denotes is found, seen from a scope (the
innermost one if none is given), together with the scope that holds it. -/
abbrev Lookup := Session → String → Option String → Option (String × Binding)

/-- What running code relies on: whoever is told about its changes, how it
looks names up, and inside which scope the call of a function that closes
over a scope opens its own. -/
structure Host where
  tell : Publisher
  find : Lookup
  parent : Session → Option String → Option String

namespace Session

/-- The current time; a session in real time does not know it. -/
def now (s : Session) : Double := s.clock.now

def phase (s : Session) : Phase := s.machine.phase

/-- Looks a name up among the open scopes. -/
def findOpen : Lookup := fun s name scope => s.store.findBinding? name scope

/-- The scope that a closure names, if it is open, and else the global one. -/
def openParent (s : Session) (closure : Option String) : Option String :=
  match closure with
  | some id => if s.store.scopeIds.contains id then some id else s.machine.globalScope
  | none => s.machine.globalScope

/-- The function that a value refers to. -/
def functionOf? (s : Session) (v : Value) : Option FunctionValue :=
  match v with
  | .ref id =>
    match s.store.heapLookup? id with
    | some ⟨"function", payload⟩ => payload.function?
    | _ => none
  | _ => none

/-- The last function of the program that is declared under a name. -/
def declared? (s : Session) (name : String) : Option FunctionDecl :=
  let decl? : Instruction → Option FunctionDecl
    | .functionDecl d => if d.name = name then some d else none
    | _ => none
  s.machine.program.reverse.findSome? decl?

/-- The function declared under a name, as a function of the global scope. -/
def declaredFunction? (s : Session) (name : String) : Option FunctionValue :=
  (s.declared? name).map fun d =>
    { name := d.name, params := d.params, body := ⟨d.body, d.linesBefore, false⟩
      line := d.line, closure := s.machine.globalScope, arrow := false }

/-- The function that a name denotes, seen from a scope: what the name is
bound to, or else the function declared under it. -/
def namedFunction? (s : Session) (find : Lookup) (name : String) (scope : Option String) :
    Option FunctionValue :=
  match find s name scope with
  | some (_, binding) => s.functionOf? binding.value
  | none => s.declaredFunction? name

/-- The lines of the console in the order in which they were written. -/
def console (s : Session) : List ConsoleEntry := s.lines.reverse

/-- A line that is written comes last on the console. -/
theorem console_cons (s : Session) (e : ConsoleEntry) :
    { s with lines := e :: s.lines }.console = s.console ++ [e] := by
  simp [console]

/-- Whether any work is left. -/
def hasMore (s : Session) : Bool :=
  s.machine.loaded && s.machine.phase != .completed &&
    (s.machine.unit.isSome || s.machine.cursor < s.machine.program.length ||
      s.store.hasPendingTasks)

end Session

/-- Code that finds its way among the open scopes. -/
def Host.standard (tell : Publisher) : Host :=
  { tell, find := Session.findOpen, parent := Session.openParent }

namespace Session

/-! ## Descent

Loops over a session are allowed to go on only while the session comes nearer
to its end: a hook is used up, or an instruction is run, or work is done. -/

/-- How many instructions may still be run. -/
def budget (s : Session) : Nat :=
  (s.machine.limits.steps + 1 - s.store.state.currentStep).toNat

/-- How far the timers are ahead of the clock, in steps of the clock's numbers. -/
def delayAhead (s : Session) : Nat :=
  total (s.clock.queue.map fun t => (t.due.rank - s.clock.now.rank).toNat)

/-- The weight of the work under way, of the tasks in the queues, and of the
time that has to pass. -/
def load (s : Session) : Nat :=
  (s.machine.unit.elim 0 fun u => u.work.weight) + 20 * s.store.state.loop.timers.length +
    10 * s.store.state.loop.callbacks.length + 10 * s.store.state.loop.microtasks.length +
    2 * s.delayAhead

/-- The rank of a session. -/
def rank (s : Session) : Rank := ⟨s.hooks.length, s.budget, s.load⟩

end Session

end Runloop
