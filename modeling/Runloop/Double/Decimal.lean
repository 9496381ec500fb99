/-
Decimal text of doubles, both ways.

A finite double is written with the fewest digits that read back to it, and
of those the nearest to it.  The search walks the decimal grids from coarse
to fine and tests the two grid points next to the value against the interval
of reals that round to it; seventeen digits always suffice.
-/
import Runloop.Double

namespace Runloop

/-- A positive decimal number `digits · 10 ^ scale`. -/
structure Decimal where
  digits : Nat
  scale : Int
deriving DecidableEq, Repr

namespace Decimal

/-- The numerator and denominator of `10 ^ n`. -/
def tenRatio (n : Int) : Nat × Nat :=
  (tenPow n.toNat, tenPow (-n).toNat)

/-- The same number without trailing zeros among its digits. -/
def dropZeros (d : Decimal) : Decimal :=
  go d.digits d.digits d.scale
where
  go : Nat → Nat → Int → Decimal
    | 0, n, k => ⟨n, k⟩
    | fuel + 1, n, k => if n % 10 = 0 then go fuel (n / 10) (k + 1) else ⟨n, k⟩

/-- The double nearest to the number, with the sign `s`.  Numbers past the
range of doubles are settled by their order of magnitude alone. -/
def toDouble (s : Bool) (d : Decimal) : Double :=
  if d.digits = 0 then .signed s .zero
  else
    let order : Int := ((Nat.toDigits 10 d.digits).length : Int) + d.scale
    if order > 310 then .signed s .infinity
    else if order < -330 then .signed s .zero
    else
      let (up, down) := tenRatio d.scale
      .signed s (Magnitude.ofRatio (d.digits * up) down)

end Decimal

namespace Magnitude

/-- Whether `10 ^ e` is at most the magnitude. -/
def reaches (m : Magnitude) (e : Int) : Bool :=
  let (up, down) := Decimal.tenRatio e
  up * unitsPerOne ≤ m.units * down

/-- The decimal exponent: the largest `e` with `10 ^ e` at most the magnitude. -/
def decimalExponent (m : Magnitude) : Int :=
  let guess : Int := ((m.units.log2 : Int) - 1074) * 30103 / 100000
  if m.reaches (guess + 1) then guess + 1
  else if m.reaches guess then guess
  else guess - 1

/-- Whether a number of units, given as twice its numerator over `den`,
rounds to the magnitude: it lies between the midpoints to the neighbours, and
on a midpoint only if the place is even. -/
def covers (m : Magnitude) (twice den : Nat) : Bool :=
  let low := (unitsAt (m.place - 1) + m.units) * den
  let high := (m.units + unitsAt (m.place + 1)) * den
  if m.place % 2 = 0 then low ≤ twice && twice ≤ high else low < twice && twice < high

/-- The decimal of `n` significant digits that reads back to the magnitude
and is nearest to it, if there is one; `e` is its decimal exponent. -/
def decimalOfLength? (m : Magnitude) (e : Int) (n : Nat) : Option Decimal :=
  let scale := e - n + 1
  let (up, down) := Decimal.tenRatio scale
  let num := m.units * down
  let den := unitsPerOne * up
  let below := num / den
  let above := below + 1
  let belowFits := m.covers (2 * (below * den)) down
  let aboveFits := m.covers (2 * (above * den)) down
  match belowFits, aboveFits with
  | true, true => some ⟨roundHalfEven num den, scale⟩
  | true, false => some ⟨below, scale⟩
  | false, true => some ⟨above, scale⟩
  | false, false => none

/-- The shortest decimal that reads back to a finite non-zero magnitude. -/
def shortest (m : Magnitude) : Decimal :=
  let e := m.decimalExponent
  (((List.range' 1 17).findSome? (m.decimalOfLength? e)).getD ⟨0, 0⟩).dropZeros

end Magnitude

/-! ## Layout -/

/-- The choices that turn digits into text. -/
structure DecimalLayout where
  /-- Exponents written without an exponent part. -/
  positional : Int → Bool
  /-- The least number of digits of an exponent. -/
  exponentWidth : Nat
  nan : String
  infinity : String

namespace DecimalLayout

/-- The digits of a decimal exponent: a sign and at least the least width. -/
def exponent (layout : DecimalLayout) (e : Int) : String :=
  let digits := toString e.natAbs
  let pad := String.ofList (List.replicate (layout.exponentWidth - digits.length) '0')
  (if e < 0 then "e-" else "e+") ++ pad ++ digits

/-- A positive decimal as text.  A positional number always shows a point
with a digit on each side. -/
def decimal (layout : DecimalLayout) (d : Decimal) : String :=
  let digits := Nat.toDigits 10 d.digits
  let e : Int := d.scale + digits.length - 1
  if layout.positional e then
    if e < 0 then
      "0." ++ String.ofList (List.replicate ((-e).toNat - 1) '0' ++ digits)
    else
      let whole := digits.take (e.toNat + 1)
      let zeros := List.replicate (e.toNat + 1 - whole.length) '0'
      let fraction := digits.drop (e.toNat + 1)
      String.ofList (whole ++ zeros ++ '.' :: (if fraction.isEmpty then ['0'] else fraction))
  else
    match digits with
    | [] => ""
    | [c] => String.ofList [c] ++ layout.exponent e
    | c :: rest => String.ofList (c :: '.' :: rest) ++ layout.exponent e

/-- A double as text. -/
def double (layout : DecimalLayout) : Double → String
  | .nan => layout.nan
  | .signed s m =>
    let body :=
      if m.isInfinite then layout.infinity
      else if m.isZero then "0.0"
      else layout.decimal m.shortest
    if s then "-" ++ body else body

end DecimalLayout

namespace Double

/-- Numbers are positional from a ten-thousandth up to ten to the sixteenth,
and an exponent has two digits. -/
def plain : DecimalLayout where
  positional := fun e => -4 ≤ e && e < 16
  exponentWidth := 2
  nan := "nan"
  infinity := "inf"

/-- The plain text of a double. -/
def toText (x : Double) : String := plain.double x

end Double

end Runloop
