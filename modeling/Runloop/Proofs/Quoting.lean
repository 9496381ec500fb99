/-
# Quoted texts mean what was written

A text is written out between double quotes, between single quotes or as a template, with
a backslash before each character that would not stand for itself there
(`Quotation.escape`).  Three readers deal with backslashes on their own: the one that
looks for the closing mark, the one that takes quoted text for what it means, and the one
that walks through a template.  Each of them undoes what was written
(`quotedRest?_escaped`, `unescape_escaped`, `pieces_escaped`), so what is written is one
token, and as an expression the text itself (`quotations_decode`).
-/
import Mathlib.Data.List.Basic
import Runloop.Grammar.Expression
import Runloop.Proofs.Scanning

namespace Runloop

/-- A text that is one piece is one token. -/
theorem Token.ofChars_of_piece {c : Char} {cs : List Char} {kind : TokenKind}
    (piece : pieceAt c cs = (.token kind, cs.length)) (linesBefore : Int) :
    ofChars linesBefore (c :: cs) = .ok [ofPiece kind (.first linesBefore) c cs] := by
  have scanned : Scanned (.first linesBefore) (c :: (cs ++ [])) _ _ [] :=
    .token (by rwa [List.append_nil]) .done
  rw [List.append_nil] at scanned
  exact scanned.scan

/-- The ways to write a text out. -/
inductive Quotation where
  | double
  | single
  | template
deriving DecidableEq, Repr

namespace Quotation

/-- The mark at both ends. -/
def mark : Quotation → Char
  | double => '"'
  | single => '\''
  | template => '\x60'

/-- Whether a line may end inside. -/
def multiline : Quotation → Bool
  | template => true
  | _ => false

/-- The kind of token that is written. -/
def kind : Quotation → TokenKind
  | template => .template
  | _ => .text

/-- A character as it is written between the marks: the backslash and the mark itself
behind a backslash, and so the dollar sign of a template, and the end of a line by its
letter where none may stand. -/
def escape (q : Quotation) (c : Char) : List Char :=
  if c = '\\' ∨ c = q.mark ∨ q = template ∧ c = '$' then ['\\', c]
  else if c = '\n' ∧ q.multiline = false then ['\\', 'n']
  else [c]

/-- A text between the marks. -/
def write (q : Quotation) (s : String) : String :=
  String.ofList (q.mark :: (s.toList.flatMap q.escape ++ [q.mark]))

theorem toList_write (q : Quotation) (s : String) :
    (q.write s).toList = q.mark :: (s.toList.flatMap q.escape ++ [q.mark]) :=
  String.toList_ofList

/-- A character is escaped, or needs no escape. -/
theorem escape_cases (q : Quotation) (c : Char) :
    (∃ d, q.escape c = ['\\', d] ∧ Grammar.escaped d = c ∧ d ≠ '\n') ∨
      (q.escape c = [c] ∧ c ≠ '\\' ∧ c ≠ q.mark ∧ (c = '\n' → q.multiline = true) ∧
        (q = template → c ≠ '$')) := by
  unfold escape
  split
  · rename_i itself
    refine .inl ⟨c, rfl, ?_⟩
    rcases itself with rfl | rfl | ⟨-, rfl⟩
    · decide
    · cases q <;> decide
    · decide
  rename_i itself
  simp only [not_or, not_and] at itself
  obtain ⟨noSlash, noMark, noDollar⟩ := itself
  split
  · rename_i line
    exact .inl ⟨'n', rfl, line.1.symm, by decide⟩
  · rename_i line
    exact .inr ⟨rfl, noSlash, noMark, by simpa using line, noDollar⟩

/-! ## The closing mark is found -/

/-- Quoted text ends at the mark behind it, and not before. -/
theorem quotedRest?_escaped (q : Quotation) (cs rest : List Char) :
    Token.quotedRest? q.mark q.multiline (cs.flatMap q.escape ++ q.mark :: rest) =
      some ((cs.flatMap q.escape).length + 1) := by
  induction cs with
  | nil =>
      have noSlash : q.mark ≠ '\\' := by cases q <;> decide
      rw [List.flatMap_nil, List.nil_append, Token.quotedRest?_plain noSlash,
        if_pos (beq_self_eq_true _)]
      rfl
  | cons c cs ih =>
      rw [List.flatMap_cons, List.append_assoc, List.length_append]
      rcases q.escape_cases c with ⟨d, eq, -, noLine⟩ | ⟨eq, noSlash, noMark, line, -⟩
      · rw [eq]
        simp [Token.quotedRest?, noLine, ih]
        omega
      · -- a line break that stands for itself is in a text that may hold it
        have goesOn : (q.multiline || c != '\n') = true := by
          by_cases same : c = '\n'
          · rw [line same, Bool.true_or]
          · rw [bne_iff_ne.mpr same, Bool.or_true]
        rw [eq, List.singleton_append, Token.quotedRest?_plain noSlash,
          if_neg (by simpa using noMark), if_pos goesOn, ih, List.length_singleton]
        simp
        omega

/-- What is written stands as one piece, whatever is behind it. -/
theorem pieceAt_escaped (q : Quotation) (cs rest : List Char) :
    Token.pieceAt q.mark (cs.flatMap q.escape ++ q.mark :: rest) =
      (.token q.kind, (cs.flatMap q.escape).length + 1) := by
  have found := q.quotedRest?_escaped cs rest
  rw [Token.pieceAt_eq]
  cases q with
  | double | single | template =>
      simp only [mark, multiline] at found ⊢
      simp [Token.commentAt?, Token.numberAt?, Token.templateAt?, Token.textAt?, found, kind]
      rfl

/-- What is written is one token. -/
theorem ofChars_write (q : Quotation) (s : String) (linesBefore : Int) :
    ∃ t : Token, Token.ofChars linesBefore (q.write s).toList = .ok [t] ∧ t.kind = q.kind ∧
      t.text = q.write s := by
  have piece := q.pieceAt_escaped s.toList []
  rw [← List.length_singleton (a := q.mark), ← List.length_append] at piece
  rw [toList_write]
  refine ⟨_, Token.ofChars_of_piece piece linesBefore, rfl, ?_⟩
  rw [Token.ofPiece, Token.make, List.take_length, write]

/-! ## The meaning is found -/

theorem inside_write (q : Quotation) (s : String) :
    Grammar.inside (q.write s) = s.toList.flatMap q.escape := by
  rw [Grammar.inside, toList_write, List.drop_one, List.tail_cons, List.dropLast_concat]

/-- To take quoted text for what it means undoes the escapes. -/
theorem unescape_escaped (q : Quotation) (cs : List Char) :
    Grammar.unescape (cs.flatMap q.escape) = cs := by
  induction cs with
  | nil => rfl
  | cons c cs ih =>
      rw [List.flatMap_cons]
      rcases q.escape_cases c with ⟨d, eq, meant, -⟩ | ⟨eq, noSlash, -⟩
      · rw [eq, List.cons_append, List.singleton_append, Grammar.unescape, meant, ih]
      · rw [eq, List.singleton_append, Grammar.unescape, ih]
        exact fun _ _ same => absurd same noSlash

/-- A quoted text is the text. -/
theorem quotedText_write {q : Quotation} {s : String} {t : Token} (h : t.text = q.write s) :
    Grammar.quotedText t = s := by
  rw [Grammar.quotedText, h, inside_write, unescape_escaped, String.ofList_toList]

/-- A character of a template that is neither a backslash nor a dollar sign stands for
itself. -/
theorem pieces_plain {c : Char} (noSlash : c ≠ '\\') (noDollar : c ≠ '$') (buf cs : List Char) :
    Grammar.pieces (.text buf) (c :: cs) = Grammar.pieces (.text (c :: buf)) cs := by
  rw [Grammar.pieces]
  · exact fun _ same => absurd same noDollar
  · exact fun _ _ same => absurd same noSlash

/-- The walk through a template undoes the escapes, and finds no hole. -/
theorem pieces_escaped (buf cs : List Char) :
    Grammar.pieces (.text buf) (cs.flatMap template.escape) =
      Grammar.textPiece (cs.reverse ++ buf) := by
  induction cs generalizing buf with
  | nil => rw [List.flatMap_nil, Grammar.pieces, List.reverse_nil, List.nil_append]
  | cons c cs ih =>
      rw [List.flatMap_cons, List.reverse_cons, List.append_assoc, List.singleton_append]
      rcases template.escape_cases c with ⟨d, eq, meant, -⟩ | ⟨eq, noSlash, -, -, noDollar⟩
      · rw [eq, List.cons_append, List.singleton_append, Grammar.pieces, meant, ih]
      · rw [eq, List.singleton_append, pieces_plain noSlash (noDollar rfl), ih]

end Quotation

/-! ## Expressions of one quoted token -/

namespace Grammar

variable {α β : Type} {source : List Char} {t : Token} {m n : Nat}

/-- Whatever comes out, it is not that a statement is given up. -/
def Final (r : Except Stop α) : Prop := ∀ why, r ≠ .error (.refused why)

theorem Final.bind {x : Except Stop α} {f : α → Except Stop β} (h : Final x)
    (h' : ∀ a, Final (f a)) : Final (x >>= f) := by
  cases x with
  | error stop => exact fun why refused => h why (congrArg Except.error (Except.error.inj refused))
  | ok a => exact h' a

theorem Final.ok (a : α) : Final (.ok a : Except Stop α) := fun _ refused => by cases refused

theorem Final.fail (e : SourceError) : Final (fail e : Except Stop α) :=
  fun _ refused => by cases refused

/-- The reader has come to the end with the expression, or to the same stop. -/
def ComesTo (r : Except Stop (Parsed Expr n)) (meaning : Except Stop Expr) : Prop :=
  match meaning with
  | .ok e => ∃ last less, r = .ok ⟨e, last, [], less⟩
  | .error stop => r = .error stop

/-- Where nothing is left, what would go on behind an expression ends too. -/
theorem ComesTo.next {r : Except Stop (Parsed Expr n)} {meaning : Except Stop Expr}
    {next : Parsed Expr n → Except Stop (Parsed Expr m)} (h : ComesTo r meaning)
    (stops : ∀ e last less, ∃ last' less', next ⟨e, last, [], less⟩ = .ok ⟨e, last', [], less'⟩) :
    ComesTo (r >>= next) meaning := by
  cases meaning with
  | error stop =>
      have failed : r = .error stop := h
      rw [failed]
      rfl
  | ok e =>
      obtain ⟨last, less, rfl⟩ := h
      exact stops e last less

variable {meaning : Except Stop Expr}

/-- A quoted token is a whole expression: it is no operator, and nothing is behind it. -/
theorem expression_quoted (kind : t.kind = .text ∨ t.kind = .template)
    (h : ComesTo (primary source [t]) meaning) : ComesTo (expression source [t]) meaning := by
  have noWord : t.spells "typeof" = false := by
    rcases kind with kind | kind <;> simp [Token.spells, kind]
  have noOperator : unaryAt? t = none := by
    rcases kind with kind | kind <;> simp [unaryAt?, kind]
  have atUnary : ComesTo (unary source [t]) meaning := by
    rw [unary, if_neg (by simp [noWord]), noOperator]
    dsimp only
    rw [suffixed]
    refine h.next fun e last less => ?_
    dsimp only
    rw [suffixes]
    exact ⟨_, _, rfl⟩
  have atLevel (level : Nat) : ComesTo (binary source level [t]) meaning := by
    induction hn : BinaryOp.levels - level generalizing level with
    | zero =>
        rw [binary, if_neg (by omega)]
        exact atUnary
    | succ n ih =>
        rw [binary, if_pos (by omega)]
        refine (ih (level + 1) (by omega)).next fun e last less => ?_
        dsimp only
        rw [binaryRest]
        exact ⟨_, _, rfl⟩
  rw [expression]
  exact atLevel 0

/-- A text that is one quoted token is what the token means. -/
theorem standalone_quoted {linesBefore : Int} {cs : List Char}
    (lexed : Token.ofChars linesBefore cs = .ok [t])
    (kind : t.kind = .text ∨ t.kind = .template) (h : ComesTo (primary cs [t]) meaning)
    (final : Final meaning) : standalone linesBefore cs = meaning := by
  have ends := expression_quoted kind h
  rw [standalone]
  split
  · rename_i lexed'
    cases lexed'.symm.trans lexed
  rename_i ts lexed'
  obtain rfl : ts = [t] := Except.ok.inj (lexed'.symm.trans lexed)
  cases meaning with
  | error stop =>
      have failed : expression cs [t] = .error stop := ends
      rw [failed]
      cases stop with
      | refused why => exact absurd rfl (final why)
      | fatal fault => rfl
  | ok e =>
      obtain ⟨last, less, read⟩ := ends
      rw [read]

/-- A text that is one token of quoted text. -/
theorem standalone_text {linesBefore : Int} {cs : List Char}
    (lexed : Token.ofChars linesBefore cs = .ok [t]) (kind : t.kind = .text) :
    standalone linesBefore cs = .ok (.text (quotedText t)) := by
  refine standalone_quoted lexed (.inl kind) ?_ (.ok _)
  rw [primary, kind]
  exact ⟨t, _, rfl⟩

/-- What is wrong with a text of its own is final. -/
theorem standalone_final (linesBefore : Int) (cs : List Char) :
    Final (standalone linesBefore cs) := by
  rw [standalone]
  split
  · exact .fail _
  split
  · exact .fail _
  · exact fun _ refused => by cases refused
  · split
    · exact .ok _
    · exact .fail _

/-- So is what is wrong with a template, whose holes are texts of their own. -/
theorem templateParts_final (t : Token) (ps : List TemplatePiece) :
    Final (templateParts t ps) := by
  induction ps with
  | nil =>
      rw [templateParts]
      exact .ok _
  | cons p ps ih =>
      cases p with
      | openHole =>
          rw [templateParts]
          exact .fail _
      | text cs =>
          rw [templateParts]
          exact ih.bind fun _ => .ok _
      | hole cs =>
          rw [templateParts]
          exact (standalone_final _ cs).bind fun _ => ih.bind fun _ => .ok _

/-- What the pieces of a template mean. -/
def joined (t : Token) (ps : List TemplatePiece) : Except Stop Expr := do
  return joinParts (← templateParts t ps)

/-- A text that is one template. -/
theorem standalone_template {linesBefore : Int} {cs : List Char}
    (lexed : Token.ofChars linesBefore cs = .ok [t]) (kind : t.kind = .template) :
    standalone linesBefore cs = joined t (piecesOf t) := by
  refine standalone_quoted lexed (.inr kind) ?_
    ((templateParts_final t (piecesOf t)).bind fun _ => .ok _)
  rw [primary, kind, joined]
  cases templateParts t (piecesOf t) with
  | error stop => rfl
  | ok parts => exact ⟨t, _, rfl⟩

/-- A run of text alone is a text, even if it is empty. -/
theorem joined_textPiece (t : Token) (buf : List Char) :
    joined t (textPiece buf) = .ok (.text (String.ofList buf.reverse)) := by
  cases buf with
  | nil =>
      rw [joined, textPiece, templateParts]
      rfl
  | cons c cs =>
      rw [joined, textPiece, templateParts, templateParts]
      · rfl
      · exact fun none => by cases none

/-- What is written out between quotes or as a template is a text of its own. -/
theorem standalone_write (q : Quotation) (s : String) (linesBefore : Int) :
    standalone linesBefore (q.write s).toList = .ok (.text s) := by
  obtain ⟨t, lexed, kind, text⟩ := q.ofChars_write s linesBefore
  cases q with
  | double | single => rw [standalone_text lexed kind, Quotation.quotedText_write text]
  | template =>
      have walk : piecesOf t = textPiece s.toList.reverse := by
        rw [piecesOf, text, Quotation.inside_write, Quotation.pieces_escaped, List.append_nil]
      rw [standalone_template lexed kind, walk, joined_textPiece, List.reverse_reverse,
        String.ofList_toList]

end Grammar

/-- A text that is written out, between quotes or as a template, is read as that text. -/
theorem quotations_decode (q : Quotation) (s : String) (linesBefore : Int) :
    parseExpression (q.write s) linesBefore = .ok (.text s) := by
  rw [parseExpression, Grammar.standalone_write q s linesBefore]

end Runloop
