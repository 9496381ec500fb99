/-
Numbers of the simulated language: integers of any size beside doubles.

Arithmetic on two integers stays exact where it can; as soon as one operand
is a double, the other is converted, and an integer past the range of
doubles cannot be.  A whole result of moderate size becomes an integer again
so that it is shown without a fraction.
-/
import Runloop.Text.Numeral

namespace Runloop

/-- Why a number cannot be computed or converted, or a value cannot be written. -/
inductive NumberFault where
  /-- An integer is past the range of doubles. -/
  | integerTooLarge
  /-- A quotient of integers is past the range of doubles. -/
  | quotientTooLarge
  /-- An infinite number was asked for its integer part. -/
  | infiniteInteger
  /-- NaN was asked for its integer part. -/
  | nanInteger
  /-- An integer has too many digits to be written. -/
  | tooManyDigits
  /-- An array that contains itself is written out. -/
  | endless
  /-- A text is not read as an integer. -/
  | numeral (fault : Text.NumeralFault)
deriving DecidableEq, Repr

def NumberFault.message : NumberFault → String
  | integerTooLarge => "int too large to convert to float"
  | quotientTooLarge => "integer division result too large for a float"
  | infiniteInteger => "cannot convert float infinity to integer"
  | nanInteger => "cannot convert float NaN to integer"
  | tooManyDigits =>
    "Exceeds the limit (4300 digits) for integer string conversion; " ++
      "use sys.set_int_max_str_digits() to increase the limit"
  | endless => "maximum recursion depth exceeded"
  | numeral fault => fault.message

/-- A number of the simulated language. -/
inductive Number where
  | int (n : Int)
  | float (x : Double)
deriving DecidableEq

namespace Number

instance : Inhabited Number := ⟨.int 0⟩

def nan : Number := .float .nan

/-- The double nearest to an integer within the range of doubles. -/
def doubleOfInt (n : Int) : Except NumberFault Double :=
  match Double.ofInt n with
  | .signed s m => if m.isInfinite then .error .integerTooLarge else .ok (.signed s m)
  | .nan => .ok .nan

/-- The double nearest to a quotient of integers, `den` not zero. -/
def quotient (num den : Int) : Except NumberFault Double :=
  match Double.ofRatio (if den < 0 then -num else num) den.natAbs with
  | .signed s m => if m.isInfinite then .error .quotientTooLarge else .ok (.signed s m)
  | .nan => .ok .nan

def toDouble : Number → Except NumberFault Double
  | int n => doubleOfInt n
  | float x => .ok x

/-- Whether a number is NaN; asking it of an integer converts the integer. -/
def isNan (a : Number) : Except NumberFault Bool :=
  a.toDouble.map Double.isNan

/-- The order of two numbers by their exact values; none with NaN. -/
def compare? : Number → Number → Option Ordering
  | int m, int n => some (compare m n)
  | int m, float y => (y.compareInt? m).map Ordering.swap
  | float x, int n => x.compareInt? n
  | float x, float y => x.compare? y

/-- Numeric equality. -/
def eq (a b : Number) : Bool := a.compare? b == some .eq

def isZero (a : Number) : Bool := a.eq (.int 0)

/-- A whole double below `2 ^ 53` as an integer; other numbers unchanged. -/
def normalize : Number → Number
  | int n => int n
  | float x => if x.isIntegral && x.truncate.natAbs < twoPow 53 then int x.truncate else float x

def neg : Number → Number
  | int n => int (-n)
  | float x => float x.neg

/-- An operation that is exact on integers and rounds on doubles. -/
def combine (exact : Int → Int → Int) (rounded : Double → Double → Double) :
    Number → Number → Except NumberFault Number
  | int m, int n => .ok (int (exact m n))
  | a, b => do return float (rounded (← a.toDouble) (← b.toDouble))

def add : Number → Number → Except NumberFault Number := combine (· + ·) Double.add

def sub : Number → Number → Except NumberFault Number := combine (· - ·) Double.sub

def mul : Number → Number → Except NumberFault Number := combine (· * ·) Double.mul

/-- Division; by zero it gives an infinity with the sign of the dividend, or
NaN for a dividend of zero. -/
def div (a b : Number) : Except NumberFault Number :=
  if b.isZero then
    if a.isZero || a == nan then .ok nan
    else .ok (float (.signed (a.compare? (.int 0) != some .gt) .infinity))
  else
    match a, b with
    | int m, int n => (quotient m n).map float
    | a, b => do return float ((← a.toDouble).div (← b.toDouble))

/-- The remainder of doubles; NaN for a divisor of zero or an infinite dividend. -/
def rem (a b : Number) : Except NumberFault Number := do
  if b.isZero then return nan
  let x ← a.toDouble
  if x.isInfinite then return nan
  return float (x.rem (← b.toDouble))

/-- The integer part, toward zero. -/
def toInt : Number → Except NumberFault Int
  | int n => .ok n
  | float x =>
    if x.isNan then .error .nanInteger
    else if x.isInfinite then .error .infiniteInteger
    else .ok x.truncate

/-- An integer as text. -/
def writeInt (n : Int) : Except NumberFault String :=
  match Text.writeInt? n with
  | some s => .ok s
  | none => .error .tooManyDigits

/-- The text of a number as the simulated language shows it: whole doubles
below ten to the twenty-first without a fraction. -/
def display : Number → Except NumberFault String
  | int n => writeInt n
  | float x =>
    if x.isNan then .ok "NaN"
    else if x.isInfinite then .ok (if x.isNegative then "-Infinity" else "Infinity")
    else if x.isIntegral && x.truncate.natAbs < tenPow 21 then writeInt x.truncate
    else .ok x.toText

/-- The text of a number as a literal: a double keeps its point. -/
def literalText : Number → Except NumberFault String
  | int n => writeInt n
  | float x => .ok x.toText

end Number

end Runloop
