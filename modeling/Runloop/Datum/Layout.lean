/-
Indented text of plain data: two blanks a level, a line for every item and
field, nothing between the brackets of an empty list or object, and all
characters past ASCII written as escapes of their sixteen-bit units.
-/
import Runloop.Datum
import Runloop.Text.Quoted

namespace Runloop.Datum

/-- Not-a-number and the infinities stand bare. -/
def numberLayout : DecimalLayout :=
  { Double.plain with nan := "NaN", infinity := "Infinity" }

/-- The escape of one sixteen-bit unit. -/
def unitEscape (n : Nat) : List Char :=
  '\\' :: 'u' :: Text.hexPadded 4 n

/-- A character between double quotes. -/
def textChar (c : Char) : List Char :=
  let n := c.toNat
  if c == '"' || c == '\\' then ['\\', c]
  else if c == '\n' then ['\\', 'n']
  else if c == '\r' then ['\\', 'r']
  else if c == '\t' then ['\\', 't']
  else if n == 8 then ['\\', 'b']
  else if n == 12 then ['\\', 'f']
  else if 32 ≤ n && n ≤ 126 then [c]
  else if n < 0x10000 then unitEscape n
  else unitEscape (0xd800 + (n - 0x10000) / 0x400) ++ unitEscape (0xdc00 + (n - 0x10000) % 0x400)

/-- A text between double quotes. -/
def textLiteral (s : String) : String :=
  String.ofList ('"' :: s.toList.flatMap textChar ++ ['"'])

/-- A line break and the blanks of a level. -/
def breakAt (level : Nat) : String :=
  String.ofList ('\n' :: List.replicate (2 * level) ' ')

/-- Items, one a line, between brackets. -/
def bracketed (level : Nat) (opening closing : String) : List String → String
  | [] => opening ++ closing
  | items =>
    opening ++ breakAt (level + 1) ++ String.intercalate ("," ++ breakAt (level + 1)) items ++
      breakAt level ++ closing

mutual

/-- The indented text of a datum that stands at a level. -/
def render (level : Nat) : Datum → Except NumberFault String
  | .null => .ok "null"
  | .bool b => .ok (if b then "true" else "false")
  | .int n => Number.writeInt n
  | .float x => .ok (numberLayout.double x)
  | .text s => .ok (textLiteral s)
  | .list items => (renderItems (level + 1) items).map (bracketed level "[" "]")
  | .object fields => (renderFields (level + 1) fields).map (bracketed level "\x7b" "\x7d")

def renderItems (level : Nat) : List Datum → Except NumberFault (List String)
  | [] => .ok []
  | d :: rest => do return (← render level d) :: (← renderItems level rest)

def renderFields (level : Nat) : List (String × Datum) → Except NumberFault (List String)
  | [] => .ok []
  | (key, d) :: rest => do
    return (textLiteral key ++ ": " ++ (← render level d)) :: (← renderFields level rest)

end

/-- The indented text of a datum. -/
def indented (d : Datum) : Except NumberFault String :=
  render 0 d

end Runloop.Datum
