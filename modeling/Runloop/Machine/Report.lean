/-
Changing the store from a running program: a change is made first and then
told, one event after the other.
-/
import Runloop.Session.State

namespace Runloop

namespace Act

/-- Lets a number fault end the computation. -/
def number {α : Type} (r : Except NumberFault α) : Act α :=
  match r with
  | .ok a => pure a
  | .error fault => throw (.number fault)

def modifyMachine (f : Machine → Machine) : Act Unit :=
  modify fun s => { s with machine := f s.machine }

def machine : Act Machine := return (← get).machine

def store : Act Store := return (← get).store

def heapView : Act HeapView := return (← get).store.heapView

variable (host : Host)

/-- Makes a change of the store and tells about it. -/
def change {α : Type} (f : Store → Double → Change α) : Act α := do
  let s ← get
  let c := f s.store s.now
  set { s with store := c.store }
  c.events.forM host.tell
  return c.value

/-- Makes a change of the store that may not be possible. -/
def change? {α : Type} (f : Store → Except StoreFault (Change α)) : Act α := do
  let s ← get
  match f s.store with
  | .error fault => throw (.store fault)
  | .ok c =>
    set { s with store := c.store }
    c.events.forM host.tell
    return c.value

/-- Writes a line to the console. -/
def log (type : String) (args : List String) : Act Unit :=
  change host fun s now => s.logConsole type args now

def info (text : String) : Act Unit := log host "info" [text]

def error (text : String) : Act Unit := log host "error" [text]

/-- The display of a value under the current heap. -/
def display (v : Value) : Act String := do
  number (v.display (← heapView))

/-- The kind of a value under the current heap. -/
def kindOf (v : Value) : Act String := return v.kind (← heapView)

/-- Writes values to the console. -/
def logValues (method : String) (args : List Value) : Act Unit := do
  let heap ← heapView
  let texts ← number (args.mapM (·.displayArgument heap))
  log host method texts

/-- Puts a payload on the heap and notes what it refers to. -/
def allocate (kind : String) (payload : Value) : Act Value := do
  let id ← change host fun s now => s.allocate kind payload now
  payload.refs.forM fun child => change host fun s _ => s.addReference id child
  return .ref id

/-- Puts a function on the heap. -/
def allocateFunction (f : FunctionValue) : Act Value := do
  let id ← change host fun s now => s.allocate "function" (.function f) now
  return .ref id

/-! ## Bindings -/

/-- What a name denotes, seen from a scope. -/
def find (name scope : String) : Act (Option (String × Binding)) :=
  return host.find (← get) name (some scope)

/-- The variable that a scope itself holds under a name. -/
def ownBinding? (scope name : String) : Act (Option Binding) :=
  return ((← store).scope? scope).bind (·.binding? name)

/-- Shows a variable in the top frame if its scope is the innermost one. -/
def showVariable (scope name : String) (v : Value) : Act Unit := do
  if (← store).currentScope? = some scope then
    let shown ← display v
    let kind ← kindOf v
    change host fun s _ => s.updateFrameVariable name shown kind

/-- Gives a name of a scope a value, declaring it if it is new there. -/
def bind (scope name : String) (v : Value) (declaration : String) : Act Unit := do
  let kind ← kindOf v
  match ← ownBinding? scope name with
  | some _ => change? host fun s => s.updateScopeVariable scope name v (some kind)
  | none => change? host fun s => s.addScopeVariable scope name ⟨v, kind, declaration⟩
  showVariable host scope name v

/-- Assigns to the variable that a name denotes; a new name is bound in the
scope itself, and a constant is left alone. -/
def assign (scope name : String) (v : Value) : Act Unit := do
  match ← find host name scope with
  | none =>
    let kind ← kindOf v
    change? host fun s => s.addScopeVariable scope name ⟨v, kind, "implicit"⟩
    showVariable host scope name v
  | some (owner, binding) =>
    if binding.declaration = "const" then
      error host "TypeError: Assignment to constant variable."
    else
      let kind ← kindOf v
      change? host fun s => s.updateScopeVariable owner name v (some kind)
      showVariable host owner name v

/-! ## Names -/

/-- The last function of the program that is declared under a name. -/
def declared? (name : String) : Act (Option FunctionDecl) :=
  return (← get).declared? name

/-- Names of the surroundings; reading one of them is no mistake. -/
def knownGlobals : List String :=
  ["Math", "Promise", "JSON", "Object", "Array", "window", "document", "globalThis"]

/-- Whether a name denotes nothing, seen from a scope. -/
def isUnbound (name scope : String) : Act Bool := do
  if name = "this" then return false
  if (← find host name scope).isSome then return false
  return (← declared? name).isNone

/-- The value of a name, seen from a scope. -/
def resolve (name scope : String) : Act Value := do
  if name = "this" then return (← machine).receivers.getLast?.getD .undefined
  match ← find host name scope with
  | some (_, binding) => return binding.value
  | none =>
    if knownGlobals.contains name || name = "console" then return .undefined
    error host ("ReferenceError: " ++ name ++ " is not defined")
    return .undefined

end Act

end Runloop
