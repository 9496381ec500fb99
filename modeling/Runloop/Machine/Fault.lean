/-
What can go wrong while a program runs or is controlled.
-/
import Runloop.Store

namespace Runloop

/-- The phases of a run. -/
inductive Phase where
  | idle
  | running
  | paused
  | completed
deriving DecidableEq, Repr

def Phase.label : Phase → String
  | idle => "idle"
  | running => "running"
  | paused => "paused"
  | completed => "completed"

/-- A limit that ends a run. -/
inductive Halt where
  | stepLimit (limit : Int)
  | callDepth
deriving DecidableEq, Repr

def Halt.message : Halt → String
  | stepLimit limit => "RangeError: step limit of " ++ toString limit ++ " exceeded"
  | callDepth => "RangeError: Maximum call stack size exceeded"

/-- A control operation in a phase that does not allow it. -/
inductive LifecycleFault where
  | notLoaded
  | runInProgress
  | alreadyRunning
  | cannotInit (phase : Phase)
deriving DecidableEq, Repr

def LifecycleFault.message : LifecycleFault → String
  | notLoaded => "nothing loaded; call init() first"
  | runInProgress => "a run is in progress; pause it before stepping"
  | alreadyRunning => "already running"
  | cannotInit phase => "cannot init while " ++ phase.label ++ "; reset first"

/-- A fault of running or controlling a program. -/
inductive Fault where
  | halt (why : Halt)
  | store (fault : StoreFault)
  | lifecycle (fault : LifecycleFault)
  | compilation (fault : CompileFault)
  | number (fault : NumberFault)
  /-- There is no unit of work to go on with. -/
  | noUnit
  /-- The unit of work is already being run. -/
  | unitRunning
  /-- A declared name is bound to something that is no function. -/
  | noFunction
deriving DecidableEq, Repr

namespace Fault

def message : Fault → String
  | halt why => why.message
  | store fault => fault.message
  | lifecycle fault => fault.message
  | compilation fault => fault.message
  | number fault => fault.message
  | noUnit => "'NoneType' object is not an iterator"
  | unitRunning => "generator already executing"
  | noFunction => "'NoneType' object has no attribute 'closure'"

/-- How a fault that ends a run is written to the console: a limit speaks for
itself. -/
def report : Fault → String
  | halt why => why.message
  | fault => "Error: " ++ fault.message

end Fault

end Runloop
