/-
Function calls.  A call opens a scope inside the scope its function closes
over, which may have been closed in the meantime and is then opened again,
and puts a frame on the stack.  Whatever way a call ends, what it opened is
closed, unless the run it belongs to is over.
-/
import Runloop.Machine.Report

namespace Runloop.Act

/-- The function that a value refers to. -/
def asFunction? (v : Value) : Act (Option FunctionValue) :=
  return (← get).functionOf? v

/-- The closed scopes on the way from a scope outward to the first open one,
innermost first; no scope lies on the way twice. -/
def closedChain (live : List String) (detached : List (String × Scope)) :
    Nat → Option String → List Scope
  | fuel + 1, some id =>
    if live.contains id then []
    else
      match detached.find? (·.1 == id) with
      | none => []
      | some (_, scope) => scope :: closedChain live detached fuel scope.parent
  | _, _ => []

variable (host : Host)

/-- The function that a name denotes, seen from the innermost scope. -/
def lookupFunction? (name : String) : Act (Option FunctionValue) :=
  return (← get).namedFunction? host.find name none

/-- Opens the closed scopes around a closure again, and answers with them,
outermost first. -/
def reattach (closure : Option String) : Act (List String) := do
  let s ← get
  let live := s.store.scopeIds
  if closure.all live.contains then return []
  else
    let detached := s.machine.detached
    let missing := (closedChain live detached detached.length closure).reverse
    missing.forM fun scope => change host fun s _ => s.restoreScope scope
    return missing.map (·.id)

/-- Closes a scope and keeps it in case it is still closed over. -/
def detach (scope : String) : Act Unit := do
  let closed ← change? host fun s => s.destroyScope scope
  modifyMachine fun m => { m with detached := (scope, closed) :: m.detached }

/-- Takes back everything that a call opened. -/
def unwind (call : Call) : Act Unit := do
  modifyMachine fun m => { m with receivers := m.receivers.dropLast, depth := m.depth - 1 }
  let _ ← change? host fun s => s.popFrame
  detach host call.scope
  call.restored.reverse.forM (detach host)

/-- Whether the run that a call belongs to is still on. -/
def isCurrent (call : Call) : Act Bool :=
  return (← machine).generation == call.generation

/-- Unwinds the open calls of the current run, innermost first, although one
of them may fault; the latest fault is the one that counts. -/
def unwindAll : List Call → Option Fault → Act (Option Fault)
  | [], fault => return fault
  | call :: outer, fault => do
    let fault ←
      if ← isCurrent call then
        tryCatch (do unwind host call; return fault) fun later => return some later
      else pure fault
    unwindAll outer fault

/-- Runs a part of the innermost of the given calls; if it faults, they all end. -/
def inside {α : Type} (calls : List Call) (body : Act α) : Act α :=
  tryCatch body fun fault => do
    throw ((← unwindAll host calls (some fault)).getD fault)

/-- Binds the parameters of a call. -/
def bindParams (scope : String) : List String → List Value → Act Unit
  | [], _ => return
  | param :: params, args => do
    let v := args.head?.getD .undefined
    let kind ← kindOf v
    change? host fun s => s.addScopeVariable scope param ⟨v, kind, "param"⟩
    let shown ← display v
    let shownKind ← kindOf v
    change host fun s _ => s.updateFrameVariable param shown shownKind
    bindParams scope params (args.drop 1)

/-- The name of a call in the stack and in its scope. -/
def callName (name : String) : String :=
  if name.isEmpty then "anonymous" else name

/-- Lets no call be opened deeper than the limit allows. -/
def checkDepth : Act Unit := do
  let m ← machine
  if m.limits.callDepth ≤ m.depth then throw (.halt .callDepth)

/-- Opens the scope of a call inside the scope that its function closes over,
and answers with it and with the scopes that had to be opened again. -/
def openScope (closure : Option String) (name : String) : Act (Scope × List String) := do
  let restored ← reattach host closure
  let parent := host.parent (← get) closure
  let scope ← change host fun s now => s.createScope name "function" parent now
  return (scope, restored)

/-- How the frame of a call shows the receiver. -/
def receiverText : Option Value → Act String
  | some v => display v
  | none => return "window"

/-- Puts the frame of a call on the stack. -/
def pushCall (name thisBinding : String) (line : Int) (receiver : Value) : Act Unit := do
  let _ ← change host fun s _ => s.pushFrame name "function" thisBinding line
  modifyMachine fun m => { m with depth := m.depth + 1, receivers := m.receivers ++ [receiver] }

/-- Enters a call whose scope is open, up to its first pause, before the body. -/
def enterCall (f : FunctionValue) (args : List Value) (name : String) (line : Int)
    (receiver : Option Value) (scope : String) (restored : List String) : Act Call := do
  let thisBinding ← receiverText receiver
  pushCall host name thisBinding line (receiver.getD .undefined)
  let call : Call := { scope, restored, generation := (← machine).generation, line }
  inside host [call] (bindParams host scope f.params args)
  return call

/-- Opens a call. -/
def invoke (f : FunctionValue) (args : List Value) (name : String) (line : Int)
    (receiver : Option Value) : Act Call := do
  checkDepth
  let (scope, restored) ← openScope host f.closure (callName name)
  enterCall host f args (callName name) line receiver scope.id restored

/-- Compiles a body, unless its compilation is still at hand. -/
def instructionsOf (body : Body) : Act (List Instruction) := do
  let s ← get
  match s.bodies.find? (·.1 == body) with
  | some known =>
    set { s with bodies := known :: s.bodies.filter (·.1 != body) }
    return known.2
  | none =>
    match body.compile with
    | .error fault => throw (.compilation fault)
    | .ok t =>
      set
        { s with
          notices := t.notices.reverse ++ s.notices
          bodies := (body, t.instructions) :: s.bodies.take (bodyCapacity - 1) }
      return t.instructions

end Runloop.Act
