/-
Number text.  Integers and decimals may be surrounded by blanks, carry a
sign, use the decimal digits of any script, and hold single underscores
between digits; decimals may also be spelled as infinity or not-a-number in
any case.  Integer text is bounded: past 4300 digits it is neither read nor
written.
-/
import Runloop.Text.Blank
import Runloop.Text.Digit
import Runloop.Text.Quoted
import Runloop.Double.Decimal

namespace Runloop.Text

/-- The most digits an integer may have in text. -/
def digitLimit : Nat := 4300

/-- Why a text is not read as an integer. -/
inductive NumeralFault where
  | malformed (text : String)
  | tooLong (digits : Nat)
deriving DecidableEq, Repr

/-- The wording of a fault; a malformed text is quoted and cut at two hundred
characters. -/
def NumeralFault.message : NumeralFault → String
  | malformed text =>
    "invalid literal for int() with base 10: " ++ String.ofList ((quoted text).toList.take 200)
  | tooLong n =>
    "Exceeds the limit (4300 digits) for integer string conversion: value has " ++ toString n ++
      " digits; use sys.set_int_max_str_digits() to increase the limit"

/-- A blank around a number: any blank but the four information separators. -/
def isNumeralBlank (c : Char) : Bool :=
  isBlank c && !(28 ≤ c.toNat && c.toNat ≤ 31)

/-- A sign, if there is one, and the text after it. -/
def takeSign : List Char → Bool × List Char
  | '+' :: cs => (false, cs)
  | '-' :: cs => (true, cs)
  | cs => (false, cs)

/-- The number written by a list of digit values. -/
def ofDigits (ds : List Nat) : Nat :=
  ds.foldl (fun n d => 10 * n + d) 0

/-- The values of the decimal digits in a text; other characters are left out. -/
def digitValues (cs : List Char) : List Nat :=
  cs.filterMap digitValue?

/-- Every underscore stands between two digits. -/
def underscoresSeparate : List Char → Bool
  | [] => true
  | '_' :: _ => false
  | c :: '_' :: d :: cs => isDigit c && isDigit d && underscoresSeparate (d :: cs)
  | [_, '_'] => false
  | _ :: cs => underscoresSeparate cs

/-- Reads an integer. -/
def readInt (text : String) : Except NumeralFault Int :=
  let (negative, body) := takeSign (text.toList.dropWhile isNumeralBlank)
  let run := body.takeWhile (fun c => isDigit c || c == '_')
  let rest := body.dropWhile (fun c => isDigit c || c == '_')
  let digits := digitValues run
  if digits.isEmpty || !underscoresSeparate run then .error (.malformed text)
  else if digitLimit < digits.length then .error (.tooLong digits.length)
  else if rest.all isNumeralBlank then
    .ok (if negative then -(ofDigits digits : Int) else ofDigits digits)
  else .error (.malformed text)

/-- An integer as text, unless it has too many digits. -/
def writeInt? (n : Int) : Option String :=
  if n.natAbs < tenPow digitLimit then some (toString n) else none

/-- Reads an exponent part: nothing, or an exponent mark, a sign and digits. -/
def readExponent? : List Char → Option Int
  | [] => some 0
  | c :: cs =>
    if c == 'e' || c == 'E' then
      let (negative, digits) := takeSign cs
      if digits.isEmpty || !digits.all isDigit then none
      else
        let n := ofDigits (digitValues digits)
        some (if negative then -(n : Int) else n)
    else none

/-- Reads an unsigned decimal: digits with at most one point and at least one
digit, then an exponent part. -/
def readUnsigned? (cs : List Char) : Option Decimal :=
  let whole := cs.takeWhile isDigit
  let (fraction, rest) :=
    match cs.dropWhile isDigit with
    | '.' :: more => (more.takeWhile isDigit, more.dropWhile isDigit)
    | more => ([], more)
  if whole.isEmpty && fraction.isEmpty then none
  else
    (readExponent? rest).map fun e =>
      { digits := ofDigits (digitValues (whole ++ fraction)), scale := e - fraction.length }

/-- Reads a double. -/
def readDouble? (text : String) : Option Double :=
  let trimRight := fun cs : List Char => (cs.reverse.dropWhile isNumeralBlank).reverse
  let cs := trimRight (text.toList.dropWhile isNumeralBlank)
  if !underscoresSeparate cs then none
  else
    let (negative, body) := takeSign (cs.filter (· != '_'))
    let word := String.ofList (body.map Char.toLower)
    if word == "inf" || word == "infinity" then some (.signed negative .infinity)
    else if word == "nan" then some .nan
    else (readUnsigned? body).map (fun d => d.toDouble negative)

end Runloop.Text
