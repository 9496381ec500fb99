/-
Interrupted work.

Every function call pauses right after its parameters are bound, so an
expression either has a value at once or waits for exactly one call.  What is
left to do with the value of that call is kept as data: a context within the
expression, what the instruction does with the expression's value, and the
instructions after it.  Work is measured so that loops over it can be seen to
end.
-/
import Runloop.Machine.Fault
import Runloop.Descent

namespace Runloop

/-- Where the line of a call comes from: the instruction itself, or the line
last reached when the call is made. -/
inductive LineSource where
  | fixed (line : Int)
  | reached
deriving DecidableEq, Repr

/-- What is done with the values of a list of expressions. -/
inductive ItemsUse where
  | array
  | call (name : String) (line : LineSource)
  | method (target : Expr) (name : String) (line : LineSource)
  | console (method : ConsoleMethod)
  | construct (keyword : DeclKeyword) (name : String)

/-- A place in an expression that waits for a value. -/
inductive ExprFrame where
  | items (use : ItemsUse) (before : List Value) (after : List Expr)
  | entry (before : List (String × Value)) (key : String) (after : List (String × Expr))
  | property (name : String)
  | typeof
  | unary (op : UnaryOp)
  | left (op : BinaryOp) (right : Expr)
  | right (op : BinaryOp) (left : Value)
  | receiver (target : Expr) (method : String) (args : List Value) (line : Int)

/-- What an instruction does with the value of its expression. -/
inductive Finish where
  | declare (keyword : DeclKeyword) (name : String)
  | assign (name : String)
  | promise (callback : Callback) (params : List String)
  | return
  | discard

/-- An open function call: its scope, the scopes that were opened again for
it, the generation of the run it belongs to, and the line of the caller. -/
structure Call where
  scope : String
  restored : List String
  generation : Nat
  line : Int
deriving DecidableEq, Repr

/-- Where the innermost call stands: before its body, or between two of its
instructions, the last one having returned a value or not. -/
inductive Point where
  | entered (body : Body)
  | between (returned : Option Value) (rest : List Instruction)

/-- A call that waits for the value of the call it made. -/
structure Caller where
  call : Call
  context : List ExprFrame
  finish : Finish
  rest : List Instruction

/-- The two rounds of microtasks in a pass over the event loop: before the
callback and after it. -/
inductive Round where
  | first
  | last
deriving DecidableEq, Repr

/-- What waits for the outermost call. -/
inductive Base where
  | program (scope : String) (context : List ExprFrame) (finish : Finish)
  | microtask (round : Round)
  | callback

/-- A pause of a pass over the event loop outside of any call. -/
inductive PassPoint where
  | beforeMicrotask (task : Task) (round : Round)
  | afterMicrotask (round : Round)
  | beforeCallback (task : Task)
  | afterCallback
  /-- Nothing could be run; time has to pass. -/
  | idle

/-- A unit of work: an instruction of the program or a pass over the event
loop, not begun or interrupted. -/
inductive Work where
  | instruction (i : Instruction)
  | pass
  | inCall (call : Call) (point : Point) (callers : List Caller) (base : Base)
  | atPass (point : PassPoint)

/-! ## The measure of work -/

namespace Expr

mutual

/-- The number of calls that an expression can make by itself. -/
def callSites : Expr → Nat
  | literal _ | function _ | reference _ => 0
  | array items => callSitesAll items
  | object entries => callSitesEntries entries
  | call _ args => 1 + callSitesAll args
  | methodCall target _ args => 1 + callSites target + callSitesAll args
  | property target _ _ => callSites target
  | typeof operand => callSites operand
  | unary _ operand => callSites operand
  | binary _ left right => callSites left + callSites right

def callSitesAll : List Expr → Nat
  | [] => 0
  | e :: rest => callSites e + callSitesAll rest

def callSitesEntries : List (String × Expr) → Nat
  | [] => 0
  | (_, e) :: rest => callSites e + callSitesEntries rest

end

end Expr

/-- The number of calls that a use of values can make. -/
def ItemsUse.callSites : ItemsUse → Nat
  | .call _ _ => 1
  | .method target _ _ => 1 + target.callSites
  | _ => 0

/-- The number of calls that can still be made from a waiting place. -/
def ExprFrame.callSites : ExprFrame → Nat
  | .items use _ after => use.callSites + Expr.callSitesAll after
  | .entry _ _ after => Expr.callSitesEntries after
  | .left _ operand => operand.callSites
  | .receiver _ _ _ _ => 1
  | _ => 0

/-- The number of calls that can still be made from a context. -/
def contextCallSites (context : List ExprFrame) : Nat :=
  total (context.map ExprFrame.callSites)

namespace Work

def pointWeight : Point → Nat
  | .entered _ => 2
  | .between _ _ => 1

/-- A promise that waits for its value will queue a task. -/
def finishWeight : Finish → Nat
  | .promise _ _ => 10
  | _ => 0

def callerWeight (c : Caller) : Nat := 2 + 3 * contextCallSites c.context + finishWeight c.finish

def baseWeight : Base → Nat
  | .program _ context finish => 2 + 3 * contextCallSites context + finishWeight finish
  | .microtask _ | .callback => 4

def passWeight : PassPoint → Nat
  | .beforeMicrotask _ _ | .beforeCallback _ => 8
  | .afterMicrotask _ | .afterCallback => 4
  | .idle => 1

/-- A bound on the pauses of a unit of work that run no instruction. -/
def weight : Work → Nat
  | instruction _ => 0
  | pass => 5
  | inCall _ point callers base =>
    pointWeight point + total (callers.map callerWeight) + baseWeight base
  | atPass point => passWeight point

end Work

end Runloop
