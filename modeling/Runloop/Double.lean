/-
Double-precision numbers as exact data.

A magnitude is its place in the increasing row of non-negative doubles, so
comparing magnitudes is comparing places, and every magnitude is a whole
number of the smallest one, the unit 2^-1074.  Each operation computes its
exact value as a ratio of natural numbers of units and rounds once, to the
nearest magnitude, a tie going to the even place.
-/

namespace Runloop

/-- The quotient rounded to the nearest natural number, a tie to the even one. -/
def roundHalfEven (num den : Nat) : Nat :=
  let q := num / den
  let r := num % den
  if 2 * r < den then q else if den < 2 * r then q + 1 else q + q % 2

/-- A power of two. -/
def twoPow (n : Nat) : Nat := Nat.pow 2 n

/-- A power of ten. -/
def tenPow (n : Nat) : Nat := Nat.pow 10 n

namespace Magnitude

/-- The place of infinity, past the last finite magnitude. -/
def top : Nat := 2047 * twoPow 52

/-- How many units make the number one. -/
def unitsPerOne : Nat := twoPow 1074

/-- The value at a place, in units.  Below `2 ^ 53` the places are the
multiples of the unit; each further `2 ^ 52` places double the spacing. -/
def unitsAt (place : Nat) : Nat :=
  if place < twoPow 52 then place
  else (twoPow 52 + place % twoPow 52) * twoPow (place / twoPow 52 - 1)

/-- The place nearest to `num / den` units. -/
def placeOf (num den : Nat) : Nat :=
  let shift := Nat.log2 (num / den) - 52
  min (roundHalfEven num (den * twoPow shift) + shift * twoPow 52) top

end Magnitude

/-- A non-negative double, infinity included, by its place in their row. -/
structure Magnitude where
  place : Nat
  le_top : place ≤ Magnitude.top
deriving DecidableEq

namespace Magnitude

def zero : Magnitude := ⟨0, by decide⟩

def infinity : Magnitude := ⟨top, Nat.le_refl _⟩

def isInfinite (m : Magnitude) : Bool := m.place == top

def isZero (m : Magnitude) : Bool := m.place == 0

/-- The value in units; infinity is counted as the first value past the row. -/
def units (m : Magnitude) : Nat := unitsAt m.place

/-- The magnitude nearest to `num / den` units. -/
def ofUnits (num den : Nat) : Magnitude := ⟨placeOf num den, Nat.min_le_right _ _⟩

/-- The magnitude nearest to `num / den`. -/
def ofRatio (num den : Nat) : Magnitude := ofUnits (num * unitsPerOne) den

end Magnitude

/-- A double: not a number, or a sign and a magnitude.  The two zeros differ
as data and compare as equal. -/
inductive Double where
  | nan
  | signed (negative : Bool) (magnitude : Magnitude)
deriving DecidableEq

namespace Double

instance : Inhabited Double := ⟨.signed false .zero⟩

def zero : Double := .signed false .zero

def infinity : Double := .signed false .infinity

def isNan : Double → Bool
  | nan => true
  | signed _ _ => false

def isInfinite : Double → Bool
  | nan => false
  | signed _ m => m.isInfinite

def isZero : Double → Bool
  | nan => false
  | signed _ m => m.isZero

/-- The sign of the data; NaN counts as positive. -/
def isNegative : Double → Bool
  | nan => false
  | signed s _ => s

def neg : Double → Double
  | nan => nan
  | signed s m => signed (!s) m

/-- The exact signed value of a finite double, in units. -/
def units : Double → Int
  | nan => 0
  | signed false m => m.units
  | signed true m => -(m.units : Int)

/-- The double nearest to `num / den` units; an exact zero gets the sign `s`. -/
def ofUnits (s : Bool) (num : Int) (den : Nat) : Double :=
  if num = 0 then signed s .zero else signed (num < 0) (Magnitude.ofUnits num.natAbs den)

/-- The double nearest to an integer; too large ones become infinite. -/
def ofInt (n : Int) : Double :=
  signed (n < 0) (Magnitude.ofRatio n.natAbs 1)

/-- The double nearest to a quotient of integers. -/
def ofRatio (num : Int) (den : Nat) : Double :=
  signed (num < 0) (Magnitude.ofRatio num.natAbs den)

/-! ## Arithmetic -/

def add : Double → Double → Double
  | signed s m, signed t n =>
    if m.isInfinite then
      if n.isInfinite && s != t then nan else signed s m
    else if n.isInfinite then signed t n
    else ofUnits (s && t) ((signed s m).units + (signed t n).units) 1
  | _, _ => nan

def sub (x y : Double) : Double := add x y.neg

def mul : Double → Double → Double
  | signed s m, signed t n =>
    if m.isInfinite || n.isInfinite then
      if m.isZero || n.isZero then nan else signed (s != t) .infinity
    else signed (s != t) (Magnitude.ofUnits (m.units * n.units) Magnitude.unitsPerOne)
  | _, _ => nan

def div : Double → Double → Double
  | signed s m, signed t n =>
    if m.isInfinite then
      if n.isInfinite then nan else signed (s != t) .infinity
    else if n.isInfinite then signed (s != t) .zero
    else if n.isZero then
      if m.isZero then nan else signed (s != t) .infinity
    else signed (s != t) (Magnitude.ofUnits (m.units * Magnitude.unitsPerOne) n.units)
  | _, _ => nan

/-- The remainder of the division truncated toward zero; it has the sign of
the dividend and is exact. -/
def rem : Double → Double → Double
  | signed s m, signed t n =>
    if m.isInfinite || n.isZero then nan
    else if n.isInfinite then signed s m
    else signed s (Magnitude.ofUnits (m.units % (signed t n).units.natAbs) 1)
  | _, _ => nan

/-! ## Order -/

/-- The place of a number in the row of all doubles, negative ones first. -/
def rank : Double → Int
  | nan => 0
  | signed false m => m.place
  | signed true m => -(m.place : Int)

/-- The order of two numbers; none if one of them is NaN. -/
def compare? (x y : Double) : Option Ordering :=
  if x.isNan || y.isNan then none else some (compare x.rank y.rank)

/-- The exact order of a double and an integer. -/
def compareInt? (x : Double) (n : Int) : Option Ordering :=
  match x with
  | nan => none
  | signed s m =>
    if m.isInfinite then some (if s then .lt else .gt)
    else some (compare (signed s m).units (n * (Magnitude.unitsPerOne : Int)))

def lt (x y : Double) : Bool := x.compare? y == some .lt

def le (x y : Double) : Bool := (x.compare? y).any (· != .gt)

/-- Numeric equality: NaN equals nothing and the two zeros are equal. -/
def eq (x y : Double) : Bool := x.compare? y == some .eq

/-- The number itself, or zero if it is negative, zero or NaN. -/
def clampNonneg (x : Double) : Double :=
  if zero.lt x then x else zero

/-- The larger of two numbers, the first one if they do not compare. -/
def max (x y : Double) : Double :=
  if x.lt y then y else x

/-! ## Integers -/

/-- The integer part of a finite number, toward zero. -/
def truncate : Double → Int
  | nan => 0
  | signed s m =>
    let n : Int := (m.units / Magnitude.unitsPerOne : Nat)
    if s then -n else n

/-- A finite number without a fraction. -/
def isIntegral : Double → Bool
  | nan => false
  | signed _ m => !m.isInfinite && m.units % Magnitude.unitsPerOne == 0

end Double

end Runloop
