/-
Execution of instructions.  An instruction is either done, perhaps having
returned a value, or waits for a call.  It is counted first and then handed to
its handler, which is `perform`; what lies around the handler is written for
any other in its place as well.
-/
import Runloop.Machine.Eval

namespace Runloop

/-- What executing an instruction comes to. -/
inductive Executed where
  | done (returned : Option Value)
  | calling (call : Call) (body : Body) (context : List ExprFrame) (finish : Finish)

namespace Act

variable (host : Host)

/-- Does with the value of an instruction's expression what the instruction
asks for. -/
def finishWith (scope : String) (finish : Finish) (v : Value) : Act (Option Value) := do
  match finish with
  | .declare keyword name =>
    bind host scope name v keyword.spelling
    return none
  | .assign name =>
    assign host scope name v
    return none
  | .promise callback params =>
    let spec : TaskSpec :=
      { name := "Promise.then", callback := callback.body, closure := some scope
        callbackName := callback.name, linesBefore := callback.linesBefore
        concise := callback.concise, params, args := [v] }
    let _ ← change host fun s now => s.addMicrotask spec now
    info host "Promise.then added to microtask queue"
    return none
  | .return =>
    let shown ← display v
    info host ("Return: " ++ shown)
    return some v
  | .discard => return none

/-- Finishes an instruction with what its expression has come to. -/
def conclude (scope : String) (finish : Finish) (r : Evaluated) : Act Executed := do
  match r with
  | .value v => return .done (← finishWith host scope finish v)
  | .calling call body context => return .calling call body context finish

/-- Starts a timer and sets the clock for it.  No timer waits longer than one
pacing delay. -/
def startTimer (scope : String) (callback : Callback) (delay : Int) : Act Unit := do
  let spec : TaskSpec :=
    { name := "setTimeout", callback := callback.body, delay, closure := some scope
      callbackName := callback.name, linesBefore := callback.linesBefore
      concise := callback.concise }
  let task ← change host fun s now => s.addTimer spec now
  info host ("setTimeout registered (" ++ toString delay ++ "ms)")
  let wait ← number (Number.quotient (min delay (← store).speed) 1000)
  modify fun s =>
    let (clock, timer) := s.clock.set wait task.id
    { s with clock, store := s.store.trackTimer timer.serial }

/-- What an instruction does. -/
def perform (scope : String) : Instruction → Act Executed
  | .hoisting functions vars => do
    info host
      ("Hoisting: Functions [" ++ String.intercalate ", " functions ++ "], Vars [" ++
        String.intercalate ", " vars ++ "]")
    return .done none
  | .functionDecl d => do
    let v ← allocateFunction host
      { name := d.name, params := d.params, body := ⟨d.body, d.linesBefore, false⟩
        line := d.line, closure := some scope, arrow := false }
    bind host scope d.name v "function"
    return .done none
  | .hoistedVar name _ => do
    if (← ownBinding? scope name).isNone then bind host scope name .undefined "var"
    return .done none
  | .declare keyword name value _ => do
    conclude host scope (.declare keyword name) (← eval host scope value)
  | .assign name value _ => do
    conclude host scope (.assign name) (← eval host scope value)
  | .call name args line => do
    conclude host scope .discard (← evalItems host scope (.call name (.fixed line)) [] args)
  | .methodCall target method args line => do
    conclude host scope .discard
      (← evalItems host scope (.method (.reference target) method (.fixed line)) [] args)
  | .console method args _ => do
    conclude host scope .discard (← evalItems host scope (.console method) [] args)
  | .timer callback delay _ => do
    startTimer host scope callback delay
    return .done none
  | .promise callback params value _ => do
    conclude host scope (.promise callback params) (← eval host scope value)
  | .return value _ => do
    conclude host scope .return (← eval host scope value)
  | .construct keyword name _ args _ => do
    conclude host scope .discard (← evalItems host scope (.construct keyword name) [] args)

/-- What is done with an instruction, in a scope, once its step was counted. -/
abbrev Handler : Type := String → Instruction → Act Executed

/-- Counts the step of an instruction, which may be one too many, and shows the
line. -/
def arrive (i : Instruction) : Act Unit := do
  let step ← change host fun s _ => s.incrementStep
  let limit := (← machine).limits.steps
  if limit < step then throw (.halt (.stepLimit limit))
  if 0 < i.line then
    modifyMachine fun m => { m with line := i.line }
    change host fun s _ => s.setCurrentLine i.line

/-- Executes an instruction in a scope, whatever its handler is. -/
def executeWith (handler : Handler) (scope : String) (i : Instruction) : Act Executed := do
  arrive host i
  handler scope i

/-- Executes an instruction in a scope: counts the step, shows the line, and
does what the instruction says. -/
def execute : String → Instruction → Act Executed := executeWith host (perform host)

/-- Goes on with an instruction that has got the value of its call. -/
def goOn (scope : String) (context : List ExprFrame) (finish : Finish) (v : Value) :
    Act Executed := do
  conclude host scope finish (← fill host scope context v)

end Act

end Runloop
