/-
Escapes in quoted text, and the pieces of a template: runs of text, and holes
whose source is parsed on its own.
-/
import Runloop.Grammar.Reading

namespace Runloop.Grammar

/-- The character meant by a backslash and a character. -/
def escaped : Char → Char
  | 'n' => '\n'
  | 't' => '\t'
  | 'r' => '\r'
  | '0' => '\x00'
  | 'b' => '\x08'
  | 'f' => '\x0c'
  | 'v' => '\x0b'
  | c => c

/-- The text meant by the inside of a quoted text. -/
def unescape : List Char → List Char
  | '\\' :: c :: cs => escaped c :: unescape cs
  | c :: cs => c :: unescape cs
  | [] => []

/-- The characters between the first and the last. -/
def inside (s : String) : List Char :=
  (s.toList.drop 1).dropLast

/-- The text meant by a quoted token. -/
def quotedText (t : Token) : String :=
  String.ofList (unescape (inside t.text))

/-- A piece of a template. -/
inductive TemplatePiece where
  | text (chars : List Char)
  | hole (source : List Char)
  /-- A hole without end; nothing follows it. -/
  | openHole
deriving DecidableEq, Repr

/-- Where a walk through a template stands, with what it has collected in
reverse; `depth` counts the braces opened inside a hole. -/
inductive TemplateMode where
  | text (collected : List Char)
  | hole (depth : Nat) (collected : List Char)

/-- A run of text, unless it is empty. -/
def textPiece : List Char → List TemplatePiece
  | [] => []
  | collected => [.text collected.reverse]

/-- The pieces of a template from a point on. -/
def pieces : TemplateMode → List Char → List TemplatePiece
  | .text buf, [] => textPiece buf
  | .text buf, '$' :: '\x7b' :: cs => textPiece buf ++ pieces (.hole 0 []) cs
  | .text buf, '\\' :: c :: cs => pieces (.text (escaped c :: buf)) cs
  | .text buf, c :: cs => pieces (.text (c :: buf)) cs
  | .hole _ _, [] => [.openHole]
  | .hole depth buf, c :: cs =>
    if c = '\x7b' then pieces (.hole (depth + 1) (c :: buf)) cs
    else if c = '\x7d' then
      match depth with
      | 0 => .hole buf.reverse :: pieces (.text []) cs
      | depth + 1 => pieces (.hole depth (c :: buf)) cs
    else pieces (.hole depth (c :: buf)) cs

/-- How much of a template the pieces stand for: a hole counts its source. -/
def piecesWeight : List TemplatePiece → Nat
  | [] => 0
  | .hole cs :: rest => cs.length + 1 + piecesWeight rest
  | _ :: rest => 1 + piecesWeight rest

theorem piecesWeight_textPiece (buf : List Char) (rest : List TemplatePiece) :
    piecesWeight (textPiece buf ++ rest) ≤ min 1 buf.length + piecesWeight rest := by
  cases buf with
  | nil => simp [textPiece]
  | cons c cs => simp [textPiece, piecesWeight]

/-- What a walk has collected and not yet given away. -/
def TemplateMode.pending : TemplateMode → Nat
  | .text buf => min 1 buf.length
  | .hole _ buf => buf.length + 1

theorem piecesWeight_pieces (mode : TemplateMode) (cs : List Char) :
    piecesWeight (pieces mode cs) ≤ cs.length + mode.pending := by
  fun_induction pieces mode cs with
  | case1 buf =>
    have := piecesWeight_textPiece buf []
    simp only [List.append_nil, piecesWeight] at this
    simpa [TemplateMode.pending] using this
  | case2 buf cs ih =>
    have := piecesWeight_textPiece buf (pieces (.hole 0 []) cs)
    simp only [TemplateMode.pending, List.length_nil, List.length_cons] at ih ⊢
    omega
  | case3 buf c cs ih =>
    simp only [TemplateMode.pending, List.length_cons] at ih ⊢
    omega
  | case4 buf c cs _ _ ih =>
    simp only [TemplateMode.pending, List.length_cons] at ih ⊢
    omega
  | case5 depth buf => simp [piecesWeight, TemplateMode.pending]
  | case6 depth buf cs ih =>
    simp only [TemplateMode.pending, List.length_cons] at ih ⊢
    omega
  | case7 buf cs _ ih =>
    simp only [TemplateMode.pending, List.length_cons, List.length_nil, List.length_reverse,
      piecesWeight] at ih ⊢
    omega
  | case8 buf cs _ depth ih =>
    simp only [TemplateMode.pending, List.length_cons] at ih ⊢
    omega
  | case9 depth buf c cs _ _ ih =>
    simp only [TemplateMode.pending, List.length_cons] at ih ⊢
    omega

/-- The pieces of a template token. -/
def piecesOf (t : Token) : List TemplatePiece :=
  pieces (.text []) (inside t.text)

theorem piecesWeight_piecesOf (t : Token) (ts : List Token) :
    piecesWeight (piecesOf t) < weight (t :: ts) := by
  have h := piecesWeight_pieces (.text []) (inside t.text)
  simp only [inside, List.length_dropLast, List.length_drop, String.length_toList,
    TemplateMode.pending, List.length_nil] at h
  simp only [piecesOf, weight_cons]
  simp only [inside]
  omega

end Runloop.Grammar
