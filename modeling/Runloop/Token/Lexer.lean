/-
Splitting a text into tokens.

`pieceAt` looks at the head of a text and says what stands there and how many
characters past the first belong to it.  `scan` walks the text once: at the
head of a piece it emits the piece's token, and then it steps over the rest
of the piece.  White space and comments are dropped.
-/
import Runloop.Token
import Runloop.Text.Blank
import Runloop.Text.Digit

namespace Runloop.Token

/-- What stands at a place of a text. -/
inductive Piece where
  | gap
  | token (kind : TokenKind)
  | illegal
deriving DecidableEq, Repr

/-! ## The pieces

Each recognizer gets the characters from some point on and answers with the
number of characters that belong to the piece. -/

/-- The length of a block comment's rest, its closing mark included. -/
def blockCommentRest? : List Char → Option Nat
  | [] => none
  | '*' :: '/' :: _ => some 2
  | _ :: cs => (blockCommentRest? cs).map (· + 1)

/-- The length of a comment after its first slash. -/
def commentRest? : List Char → Option Nat
  | '/' :: cs => some (1 + (cs.takeWhile (· != '\n')).length)
  | '*' :: cs => (blockCommentRest? cs).map (· + 1)
  | _ => none

/-- The number of digits at the head of a text. -/
def digitCount (cs : List Char) : Nat :=
  (cs.takeWhile Text.isDigit).length

/-- The length of an exponent part, zero if there is none. -/
def exponentLength : List Char → Nat
  | c :: cs =>
    if c == 'e' || c == 'E' then
      match cs with
      | d :: ds =>
        if d == '+' || d == '-' then
          if digitCount ds = 0 then 0 else 2 + digitCount ds
        else if digitCount cs = 0 then 0 else 1 + digitCount cs
      | [] => 0
    else 0
  | [] => 0

/-- The length of a number after its first digit. -/
def numberRest (cs : List Char) : Nat :=
  let whole := digitCount cs
  let fraction :=
    match cs.drop whole with
    | '.' :: ds => 1 + digitCount ds
    | _ => 0
  whole + fraction + exponentLength (cs.drop (whole + fraction))

/-- The length of a number after its leading point, if a digit follows. -/
def pointNumberRest? (cs : List Char) : Option Nat :=
  let fraction := digitCount cs
  if fraction = 0 then none else some (fraction + exponentLength (cs.drop fraction))

/-- The length of quoted text after its opening quote, the closing one
included.  A backslash takes the next character with it; a line may end only
where `multiline` allows it. -/
def quotedRest? (quote : Char) (multiline : Bool) : List Char → Option Nat
  | [] => none
  | ['\\'] => none
  | '\\' :: c :: cs =>
    if multiline || c != '\n' then (quotedRest? quote multiline cs).map (· + 2) else none
  | c :: cs =>
    if c == quote then some 1
    else if multiline || c != '\n' then (quotedRest? quote multiline cs).map (· + 1)
    else none

/-- A character that may start a word. -/
def isWordStart (c : Char) : Bool :=
  c.isAlpha || c == '_' || c == '$'

/-- A character that may continue a word. -/
def isWordRest (c : Char) : Bool :=
  c.isAlphanum || c == '_' || c == '$'

/-- The operators of two or three characters, in the order in which they are
tried. -/
def longOperators : List (List Char) :=
  [['=', '>'], ['=', '=', '='], ['!', '=', '='], ['=', '='], ['!', '='], ['<', '='], ['>', '='],
    ['&', '&'], ['|', '|'], ['+', '+'], ['-', '-'], ['+', '='], ['-', '='], ['*', '='], ['/', '='],
    ['%', '=']]

/-- The operators of one character. -/
def shortOperators : List Char :=
  ['+', '-', '*', '/', '%', '<', '>', '=', '!', '?', '&', '|', '^', '~']

/-- The length of an operator after its first character. -/
def operatorRest? (c : Char) (cs : List Char) : Option Nat :=
  match longOperators.find? (fun op => op.isPrefixOf (c :: cs)) with
  | some op => some (op.length - 1)
  | none => if shortOperators.contains c then some 0 else none

/-- The punctuation marks. -/
def marks : List Char :=
  ['(', ')', '\x7b', '\x7d', '[', ']', ',', ';', '.', ':']

/-- What starts with the character `c` before `cs`, and how many characters
of `cs` belong to it. -/
def pieceAt (c : Char) (cs : List Char) : Piece × Nat :=
  let comment? := if c == '/' then commentRest? cs else none
  let number? :=
    if Text.isDigit c then some (numberRest cs)
    else if c == '.' then pointNumberRest? cs
    else none
  let template? := if c == '\x60' then quotedRest? c true cs else none
  let text? := if c == '"' || c == '\'' then quotedRest? c false cs else none
  match comment?, number?, template?, text? with
  | some n, _, _, _ => (.gap, n)
  | _, some n, _, _ => (.token .number, n)
  | _, _, some n, _ => (.token .template, n)
  | _, _, _, some n => (.token .text, n)
  | none, none, none, none =>
    if isWordStart c then (.token .word, (cs.takeWhile isWordRest).length)
    else
      match operatorRest? c cs with
      | some n => (.token .operator, n)
      | none =>
        if marks.contains c then (.token .mark, 0)
        else if Text.isBlank c then (.gap, 0)
        else (.illegal, 0)

/-! ## The scan -/

/-- A quote that opens a text without end. -/
def isQuote (c : Char) : Bool :=
  c == '"' || c == '\'' || c == '\x60'

/-- The error for a character that starts no piece. -/
def illegalAt (p : Place) (c : Char) : SourceError :=
  { fault := if isQuote c then .unterminatedString else .illegalCharacter c
    line := p.line
    column := some p.column
    text := String.singleton c }

/-- The token of a given kind that starts with `c` and takes `n` characters of `cs`. -/
def make (kind : TokenKind) (p : Place) (c : Char) (cs : List Char) (n : Nat) : Token :=
  { kind, text := String.ofList (c :: cs.take n)
    start := p.offset, stop := p.offset + 1 + n, line := p.line, column := p.column }

/-- The tokens of a text from a place on, stepping first over `skip`
characters that belong to the piece before. -/
def scan : Nat → Place → List Char → Except SourceError (List Token)
  | _, _, [] => .ok []
  | skip + 1, p, c :: cs => scan skip (p.after c) cs
  | 0, p, c :: cs =>
    match pieceAt c cs with
    | (.gap, n) => scan n (p.after c) cs
    | (.illegal, _) => .error (illegalAt p c)
    | (.token kind, n) => do return make kind p c cs n :: (← scan n (p.after c) cs)

/-- The tokens of a text that is preceded by `linesBefore` lines. -/
def ofChars (linesBefore : Int) (cs : List Char) : Except SourceError (List Token) :=
  scan 0 (.first linesBefore) cs

/-- The tokens of a source text. -/
def tokenize (source : String) (linesBefore : Int) : Except SourceError (List Token) :=
  ofChars linesBefore source.toList

end Runloop.Token
