/-
The binary operators on values.
-/
import Runloop.Value.Display

namespace Runloop

/-- The order relation that a relational operator asks for. -/
def BinaryOp.holdsOf : BinaryOp → Ordering → Bool
  | .lt, o => o == .lt
  | .gt, o => o == .gt
  | .le, o => o != .gt
  | .ge, o => o != .lt
  | _, _ => false

namespace Value

mutual

/-- Equality of the data: numbers and truth values by their number, records
by their fields in any order. -/
def sameData : Value → Value → Bool
  | undefined, undefined => true
  | null, null => true
  | bool a, bool b => a == b
  | number m, number n => m.eq n
  | bool a, number n => (bool a).toNumber.eq n
  | number m, bool b => m.eq (bool b).toNumber
  | text s, text t => s == t
  | ref i, ref j => i == j
  | function f, function g => f == g
  | list xs, list ys => sameItems xs ys
  | record fs, record gs => fs.length == gs.length && sameFields fs gs
  | _, _ => false

def sameItems : List Value → List Value → Bool
  | [], [] => true
  | x :: xs, y :: ys => sameData x y && sameItems xs ys
  | _, _ => false

def sameFields : List (String × Value) → List (String × Value) → Bool
  | [], _ => true
  | (key, x) :: fs, gs =>
    (gs.find? (·.1 == key)).any (fun g => sameData x g.2) && sameFields fs gs

end

/-- Equality without conversion: a truth value equals only truth values. -/
def strictEqual : Value → Value → Bool
  | bool a, bool b => a == b
  | bool _, _ => false
  | _, bool _ => false
  | v, w => sameData v w

/-- Equality with conversion: undefined equals null, and a text is compared
with a number or a truth value by the number it stands for. -/
def looseEqual : Value → Value → Bool
  | undefined, undefined | undefined, null | null, undefined | null, null => true
  | number m, text s => m.eq (text s).toNumber
  | bool b, text s => (bool b).toNumber.eq (text s).toNumber
  | text s, number n => (text s).toNumber.eq n
  | text s, bool b => (text s).toNumber.eq (bool b).toNumber
  | v, w => strictEqual v w

/-- Whether `+` joins texts with this operand. -/
def joinsText : Value → Bool
  | text _ | ref _ => true
  | _ => false

/-- An arithmetic operation on numbers; NaN if an operand is NaN. -/
def arithmetic (f : Number → Number → Except NumberFault Number) (v w : Value) :
    Except NumberFault Value := do
  let a := v.toNumber
  let b := w.toNumber
  if ← a.isNan then return nan
  if ← b.isNan then return nan
  return number (← f a b).normalize

/-- The order of two texts by code points. -/
def compareTexts (s t : String) : Ordering :=
  if s < t then .lt else if t < s then .gt else .eq

/-- A relational operator; with NaN nothing holds. -/
def relational (op : BinaryOp) (v w : Value) : Except NumberFault Value :=
  match v, w with
  | text s, text t => .ok (bool (op.holdsOf (compareTexts s t)))
  | _, _ => do
    let a := v.toNumber
    let b := w.toNumber
    if ← a.isNan then return bool false
    if ← b.isNan then return bool false
    return bool ((a.compare? b).any op.holdsOf)

/-- Applies a binary operator to two values.  Whether the right operand of a
logical operator is evaluated at all is the caller's business. -/
def applyBinary (heap : HeapView) (op : BinaryOp) (v w : Value) : Except NumberFault Value :=
  match op with
  | .add =>
    if v.joinsText || w.joinsText then do
      return text ((← v.toText heap) ++ (← w.toText heap))
    else do return number (← v.toNumber.add w.toNumber).normalize
  | .sub => arithmetic Number.sub v w
  | .mul => arithmetic Number.mul v w
  | .div => arithmetic Number.div v w
  | .rem => arithmetic Number.rem v w
  | .lt | .gt | .le | .ge => relational op v w
  | .strictEq => .ok (bool (strictEqual v w))
  | .strictNe => .ok (bool (!strictEqual v w))
  | .looseEq => .ok (bool (looseEqual v w))
  | .looseNe => .ok (bool (!looseEqual v w))
  | .and => .ok (if v.truthy then w else v)
  | .or => .ok (if v.truthy then v else w)

/-- Applies a prefix operator to a value. -/
def applyUnary (op : UnaryOp) (v : Value) : Value :=
  match op with
  | .not => bool !v.truthy
  | .minus => number v.toNumber.neg
  | .plus => number v.toNumber

end Value

end Runloop
