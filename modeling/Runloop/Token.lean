/-
Tokens of the modeled language and where they stand.
-/
import Runloop.Grammar.Fault

namespace Runloop

/-- The classes of tokens. -/
inductive TokenKind where
  | number
  | template
  | text
  | word
  | operator
  | mark
deriving DecidableEq, Repr

/-- The name of a class in listings. -/
def TokenKind.label : TokenKind → String
  | number => "NUMBER"
  | template => "TEMPLATE"
  | text => "STRING"
  | word => "IDENT"
  | operator => "OP"
  | mark => "PUNC"

/-- A token: its text, the offsets between which it stands, and the line and
column of its first character. -/
structure Token where
  kind : TokenKind
  text : String
  start : Nat
  stop : Nat
  line : Int
  column : Nat
deriving DecidableEq, Repr

namespace Token

/-- A word, operator or mark spelled as given; the contents of numbers and of
quoted text are never taken for syntax. -/
def spells (t : Token) (s : String) : Bool :=
  (t.kind == .word || t.kind == .operator || t.kind == .mark) && t.text == s

def isMark (t : Token) (s : String) : Bool := t.kind == .mark && t.text == s

/-- An opening bracket of any of the three pairs. -/
def opens (t : Token) : Bool :=
  t.isMark "(" || t.isMark "[" || t.isMark "\x7b"

/-- A closing bracket of any of the three pairs. -/
def closes (t : Token) : Bool :=
  t.isMark ")" || t.isMark "]" || t.isMark "\x7d"

end Token

/-- A place in a text: an offset, with its line and column. -/
structure Place where
  offset : Nat
  line : Int
  column : Nat
deriving DecidableEq, Repr

namespace Place

/-- The first place of a text that is preceded by `linesBefore` lines. -/
def first (linesBefore : Int) : Place := ⟨0, linesBefore + 1, 1⟩

/-- The place after a character; only a line feed starts a new line. -/
def after (p : Place) (c : Char) : Place :=
  if c = '\n' then ⟨p.offset + 1, p.line + 1, 1⟩ else ⟨p.offset + 1, p.line, p.column + 1⟩

end Place

end Runloop
