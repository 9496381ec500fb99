/-
Lines of a text.  Two different notions are used: the wide one, which ends a
line at every line or paragraph separator and chooses what a diagnostic
shows; and the reading of files, which turns the three common line ends into
one.
-/
import Runloop.Text.Blank

namespace Runloop.Text

/-- A character that ends a line in the wide sense. -/
def isLineEnd (c : Char) : Bool :=
  let n := c.toNat
  (10 ≤ n && n ≤ 13) || (28 ≤ n && n ≤ 30) || n == 0x85 || n == 0x2028 || n == 0x2029

/-- The first line of a text, trimmed first; empty for a blank text. -/
def firstLine (cs : List Char) : List Char :=
  (trim cs).takeWhile (fun c => !isLineEnd c)

/-- Every line end (carriage return, line feed, or the pair) as a line feed. -/
def unifyLineEnds : List Char → List Char
  | [] => []
  | '\r' :: '\n' :: cs => '\n' :: unifyLineEnds cs
  | '\r' :: cs => '\n' :: unifyLineEnds cs
  | c :: cs => c :: unifyLineEnds cs

end Runloop.Text
