/-
Units of work, segment by segment.  A segment runs from one pause to the
next; pauses lie after the parameters of a call are bound, after each
instruction of a body, and around each task of the event loop.
-/
import Runloop.Machine.Execute

namespace Runloop

/-- What a segment comes to. -/
inductive Progress where
  | paused (work : Work)
  | ended

/-- How the call that runs a task is named. -/
def Task.label (task : Task) : String :=
  if task.spec.callbackName.isEmpty then task.spec.name ++ " callback"
  else task.spec.callbackName

/-- The body that a task carries along, as a function of the scope that the
task closes over. -/
def Task.inlineFunction (task : Task) : FunctionValue :=
  { name := task.label, params := task.spec.params
    body := ⟨task.spec.callback, task.spec.linesBefore, task.spec.concise⟩
    line := 0, closure := task.spec.closure, arrow := true }

/-- The function that a task runs: the one of its name, or else the body it
carries along. -/
def Session.callbackOf (s : Session) (task : Task) : FunctionValue :=
  if task.spec.callbackName.isEmpty then task.inlineFunction
  else
    (s.namedFunction? Session.findOpen task.spec.callbackName task.spec.closure).getD
      task.inlineFunction

namespace Act

variable (host : Host)

/-- The open calls from a call outward. -/
def openCalls (callers : List Caller) : List Call := callers.map (·.call)

/-- Hands the value of a call to whatever made it. -/
def deliver (callers : List Caller) (base : Base) (v : Value) : Act Progress := do
  match callers with
  | caller :: outer =>
    let r ← inside host (caller.call :: openCalls outer)
      (goOn host caller.call.scope caller.context caller.finish v)
    match r with
    | .done returned => return .paused (.inCall caller.call (.between returned caller.rest) outer base)
    | .calling call body context finish =>
      return .paused (.inCall call (.entered body) ({ caller with context, finish } :: outer) base)
  | [] =>
    match base with
    | .program scope context finish =>
      match ← goOn host scope context finish v with
      | .done _ => return .ended
      | .calling call body context finish =>
        return .paused (.inCall call (.entered body) [] (.program scope context finish))
    | .microtask round => return .paused (.atPass (.afterMicrotask round))
    | .callback => return .paused (.atPass .afterCallback)

/-- Ends a call with a value. -/
def leave (call : Call) (callers : List Caller) (base : Base) (v : Value) : Act Progress := do
  inside host (openCalls callers) do
    if ← isCurrent call then unwind host call
    if 0 < call.line then change host fun s _ => s.setCurrentLine call.line
  deliver host callers base v

/-- Goes on with the instructions of a body, whatever their handlers are. -/
def runBodyWith (handler : Handler) (call : Call) (callers : List Caller) (base : Base)
    (is : List Instruction) : Act Progress := do
  match is with
  | [] => leave host call callers base .undefined
  | i :: rest =>
    match ← inside host (call :: openCalls callers) (executeWith host handler call.scope i) with
    | .done returned => return .paused (.inCall call (.between returned rest) callers base)
    | .calling inner body context finish =>
      return .paused (.inCall inner (.entered body) (⟨call, context, finish, rest⟩ :: callers) base)

/-- Goes on with the instructions of a body. -/
def runBody : Call → List Caller → Base → List Instruction → Act Progress :=
  runBodyWith host (perform host)

/-- Opens the call that runs a task. -/
def startTask (task : Task) (base : Base) : Act Progress := do
  let f := (← get).callbackOf task
  let call ← invoke host f task.spec.args task.label 0 none
  return .paused (.inCall call (.entered f.body) [] base)

/-- Goes on with a pass when the microtasks of its first round are done: one
callback, if there is one; otherwise, if nothing has run, time has to pass. -/
def takeCallback (ran : Bool) : Act Progress := do
  match ← change host fun s _ => s.nextCallback with
  | some task =>
    info host ("Executing callback: " ++ task.spec.name)
    return .paused (.atPass (.beforeCallback task))
  | none => return if ran then .ended else .paused (.atPass .idle)

/-- Goes on with a round of microtasks. -/
def takeMicrotask (round : Round) (ran : Bool) : Act Progress := do
  match ← change host fun s _ => s.nextMicrotask with
  | some task =>
    info host ("Executing microtask: " ++ task.spec.name)
    return .paused (.atPass (.beforeMicrotask task round))
  | none =>
    match round with
    | .first => takeCallback host ran
    | .last => return .ended

/-- Runs a unit of work to its next pause or to its end, whatever the handlers of
instructions are. -/
def runSegmentWith (handler : Handler) (work : Work) : Act Progress := do
  match work with
  | .instruction i =>
    let scope := (← machine).globalScope.getD ""
    match ← executeWith host handler scope i with
    | .done _ => return .ended
    | .calling call body context finish =>
      return .paused (.inCall call (.entered body) [] (.program scope context finish))
  | .pass => takeMicrotask host .first false
  | .inCall call (.entered body) callers base =>
    let is ← inside host (call :: openCalls callers) (instructionsOf body)
    runBodyWith host handler call callers base is
  | .inCall call (.between (some v) _) callers base => leave host call callers base v
  | .inCall call (.between none rest) callers base =>
    runBodyWith host handler call callers base rest
  | .atPass (.beforeMicrotask task round) => startTask host task (.microtask round)
  | .atPass (.afterMicrotask round) => takeMicrotask host round true
  | .atPass (.beforeCallback task) => startTask host task .callback
  | .atPass .afterCallback => takeMicrotask host .last true
  | .atPass .idle => return .ended

/-- Runs a unit of work to its next pause or to its end. -/
def runSegment : Work → Act Progress := runSegmentWith host (perform host)

/-- Gives up interrupted work: its open calls of the current run are unwound. -/
def abandon (work : Work) : Act (Option Fault) := do
  match work with
  | .inCall call _ callers _ => unwindAll host (call :: openCalls callers) none
  | _ => return none

end Act

end Runloop
