/-
# Holes of templates

The hole of a template ends at the brace that closes what no brace inside it has opened,
and braces are counted there in the characters; a block is closed by counting them among
the tokens.  It is one count over two kinds of things (`depthAfter?`).  Over the tokens of
an expression it always comes out even (`Shape.depthAfter?`), and over its characters it is
the same count if no brace stands inside of a quoted text or a comment
(`Token.Scanned.depthAfter?`).  Then the hole ends where the expression does, and the
template is the concatenation with it.  Otherwise the hole ends too early or not at all
(`holes_hold_expressions`).
-/
import Runloop.Proofs.Bodies
import Runloop.Proofs.Quoting

namespace Runloop

/-! ## Counting braces -/

section Depth

variable {α : Type} {opens closes : α → Bool} {a : α} {as bs : List α} {d d' : Nat}

/-- How many openings are open behind the items, if `d` are before them; none if one is
closed that is not open. -/
def depthAfter? (opens closes : α → Bool) : Nat → List α → Option Nat
  | d, [] => some d
  | d, a :: as =>
    if opens a then depthAfter? opens closes (d + 1) as
    else if closes a then
      match d with
      | 0 => none
      | d + 1 => depthAfter? opens closes d as
    else depthAfter? opens closes d as

@[simp] theorem depthAfter?_nil : depthAfter? opens closes d [] = some d := by
  cases d <;> rfl

theorem depthAfter?_open (opening : opens a = true) :
    depthAfter? opens closes d (a :: as) = depthAfter? opens closes (d + 1) as := by
  cases d <;> simp [depthAfter?, opening]

theorem depthAfter?_close (other : opens a = false) (closing : closes a = true) :
    depthAfter? opens closes (d + 1) (a :: as) = depthAfter? opens closes d as := by
  simp [depthAfter?, other, closing]

theorem depthAfter?_plain (other : opens a = false) (plain : closes a = false) :
    depthAfter? opens closes d (a :: as) = depthAfter? opens closes d as := by
  cases d <;> simp [depthAfter?, other, plain]

/-- Items that neither open nor close are passed over. -/
theorem depthAfter?_plain_append (plain : ∀ a ∈ as, opens a = false ∧ closes a = false) :
    depthAfter? opens closes d (as ++ bs) = depthAfter? opens closes d bs := by
  induction as with
  | nil => rfl
  | cons a as ih =>
      obtain ⟨here, later⟩ := List.forall_mem_cons.mp plain
      rw [List.cons_append, depthAfter?_plain here.1 here.2, ih later]

theorem depthAfter?_append (h : depthAfter? opens closes d as = some d') :
    depthAfter? opens closes d (as ++ bs) = depthAfter? opens closes d' bs := by
  induction as generalizing d with
  | nil => rw [Option.some.inj (depthAfter?_nil.symm.trans h), List.nil_append]
  | cons a as ih =>
      rw [List.cons_append]
      cases opening : opens a with
      | true =>
          rw [depthAfter?_open opening] at h ⊢
          exact ih h
      | false =>
      cases closing : closes a with
      | false =>
          rw [depthAfter?_plain opening closing] at h ⊢
          exact ih h
      | true =>
          cases d with
          | zero => simp [depthAfter?, opening, closing] at h
          | succ d =>
              rw [depthAfter?_close opening closing] at h ⊢
              exact ih h

/-- Two counts that take the same steps agree. -/
theorem depthAfter?_congr {β : Type} {opens' closes' : β → Bool} {b : β} {bs : List β}
    (opening : opens a = opens' b) (closing : closes a = closes' b)
    (behind : ∀ d, depthAfter? opens closes d as = depthAfter? opens' closes' d bs) (d : Nat) :
    depthAfter? opens closes d (a :: as) = depthAfter? opens' closes' d (b :: bs) := by
  cases d <;> simp [depthAfter?, opening, closing, behind]

end Depth

namespace Text

def opensBrace (c : Char) : Bool := c == '\x7b'

def closesBrace (c : Char) : Bool := c == '\x7d'

/-- How many braces are open behind the characters. -/
def braceDepth? (d : Nat) (cs : List Char) : Option Nat := depthAfter? opensBrace closesBrace d cs

end Text

namespace Token

def opensBrace (t : Token) : Bool := t.isMark "\x7b"

def closesBrace (t : Token) : Bool := t.isMark "\x7d"

/-- How many braces are open behind the tokens. -/
def braceDepth? (d : Nat) (ts : List Token) : Option Nat :=
  depthAfter? opensBrace closesBrace d ts

/-- What closes anything opens no block. -/
theorem opensBrace_of_closes {t : Token} (h : t.closes = true) : t.opensBrace = false := by
  have := opens_of_closes h
  simp only [opens, Bool.or_eq_false_iff] at this
  exact this.2

theorem closesBrace_of_opens {t : Token} (h : t.opens = true) : t.closesBrace = false := by
  cases mark : t.closesBrace with
  | false => rfl
  | true =>
      have closes : t.closes = true := by
        simp only [closes, Bool.or_eq_true]
        exact .inr mark
      rw [opens_of_closes closes] at h
      cases h

/-- A token that is no bracket is no brace. -/
theorem brace_of_plain {t : Token} (h : t.plain = true) :
    t.opensBrace = false ∧ t.closesBrace = false := by
  simp only [plain, opens, closes, Bool.and_eq_true, Bool.not_eq_true', Bool.or_eq_false_iff] at h
  exact ⟨h.1.2, h.2.2⟩

end Token

/-! ## Among the tokens of an expression -/

namespace Grammar

variable {source : List Char} {ts : List Token} {c : Token}

/-- Whoever closes a block counts the same. -/
theorem braceDepth?_of_closingBrace {depth : Nat} (d : Nat)
    (h : closingBrace depth (ts ++ [c]) = some (c, [])) :
    Token.braceDepth? (depth + d + 1) (ts ++ [c]) = some d := by
  unfold Token.braceDepth?
  induction ts generalizing depth with
  | nil =>
      obtain ⟨mark, -⟩ := closingBrace_cases h
      have closes : c.closesBrace = true := mark
      have other : c.opensBrace = false :=
        Token.opensBrace_of_closes (by simp [Token.closes, mark])
      cases depth with
      | zero => rw [List.nil_append, Nat.zero_add, depthAfter?_close other closes, depthAfter?_nil]
      | succ depth =>
          rw [List.nil_append, closingBrace_close other closes] at h
          cases h
  | cons t ts ih =>
      rw [List.cons_append] at h ⊢
      cases opens : t.opensBrace with
      | true =>
          rw [closingBrace_open opens] at h
          rw [depthAfter?_open opens, ← ih h, Nat.add_right_comm depth 1 d]
      | false =>
      cases closes : t.closesBrace with
      | false =>
          rw [closingBrace_plain opens closes] at h
          rw [depthAfter?_plain opens closes, ih h]
      | true =>
          cases depth with
          | zero =>
              rw [closingBrace_end opens closes] at h
              simp at h
          | succ depth =>
              rw [closingBrace_close opens closes] at h
              rw [depthAfter?_close opens closes, Nat.add_right_comm depth 1 d, ih h]

/-- The braces of an expression match, whatever its other brackets do. -/
theorem Shape.braceDepth? {bodies : List Body} (h : Shape source ts bodies) (d : Nat) :
    Token.braceDepth? d ts = some d := by
  unfold Token.braceDepth?
  induction h generalizing d with
  | nil => exact depthAfter?_nil
  | single plain =>
      obtain ⟨noOpening, noClosing⟩ := Token.brace_of_plain plain
      rw [depthAfter?_plain noOpening noClosing, depthAfter?_nil]
  | append _ _ ih ih' => rw [depthAfter?_append (ih d), ih']
  | @group o c ts bs pair _ ih =>
      have alike : o.opensBrace = c.closesBrace := Token.brace_of_pairs pair
      have noOpening := Token.opensBrace_of_closes (Token.closes_of_pairs pair)
      have noClosing := Token.closesBrace_of_opens (Token.opens_of_pairs pair)
      cases brace : o.opensBrace with
      | true =>
          rw [depthAfter?_open brace, depthAfter?_append (ih (d + 1)),
            depthAfter?_close noOpening (alike.symm.trans brace), depthAfter?_nil]
      | false =>
          rw [depthAfter?_plain brace noClosing, depthAfter?_append (ih d),
            depthAfter?_plain noOpening (alike.symm.trans brace), depthAfter?_nil]
  | @block o c ts opens closed =>
      have brace : o.opensBrace = true := opens
      have inner := braceDepth?_of_closingBrace d closed
      rw [Nat.zero_add] at inner
      rw [depthAfter?_open brace]
      exact inner
  | concise arrow _ _ _ ih =>
      obtain ⟨noOpening, noClosing⟩ :=
        Token.brace_of_plain (Token.plain_of_spells arrow (by decide))
      rw [depthAfter?_plain noOpening noClosing, ih]

end Grammar

/-! ## Among its characters -/

/-- At each brace of the characters, which are counted from an offset on, a token starts:
no brace stands inside of a quoted text or a comment. -/
def BracesApart (offset : Nat) (cs : List Char) (ts : List Token) : Prop :=
  ∀ i c, cs[i]? = some c → (Text.opensBrace c || Text.closesBrace c) = true →
    ∃ t ∈ ts, t.start = offset + i

namespace BracesApart

variable {offset k : Nat} {lead cs : List Char} {t : Token} {ts : List Token}

/-- Characters at which no token starts are no braces. -/
theorem front (apart : BracesApart offset (lead ++ cs) ts)
    (starts : ∀ t ∈ ts, t.start < offset + k ∨ offset + lead.length ≤ t.start) :
    ∀ c ∈ lead.drop k, Text.opensBrace c = false ∧ Text.closesBrace c = false := by
  intro c hc
  obtain ⟨i, less, rfl⟩ := List.getElem_of_mem hc
  rw [List.length_drop] at less
  have there : (lead ++ cs)[k + i]? = some (lead.drop k)[i] := by
    rw [List.getElem?_append_left (by omega), List.getElem_drop, List.getElem?_eq_getElem]
  rw [← Bool.or_eq_false_iff, Bool.eq_false_iff]
  intro brace
  obtain ⟨t, ht, start⟩ := apart (k + i) _ there brace
  have := starts t ht
  omega

/-- What is behind them has the tokens that start there. -/
theorem behind (apart : BracesApart offset (lead ++ cs) ts) {us : List Token}
    (starts : ∀ t ∈ ts, offset + lead.length ≤ t.start → t ∈ us) :
    BracesApart (offset + lead.length) cs us := by
  intro i c there brace
  have there' : (lead ++ cs)[lead.length + i]? = some c := by
    rw [List.getElem?_append_right (by omega), Nat.add_sub_cancel_left, there]
  obtain ⟨t, ht, start⟩ := apart _ c there' brace
  exact ⟨t, starts t ht (by omega), by omega⟩

end BracesApart

namespace Token

variable {p q : Place} {c : Char} {as cs : List Char} {ts : List Token}

/-- A token opens or closes a block as its first character does. -/
theorem brace_of_piece {kind : TokenKind}
    (piece : pieceAt c (as ++ cs) = (.token kind, as.length)) (p : Place) :
    (ofPiece kind p c as).opensBrace = Text.opensBrace c ∧
      (ofPiece kind p c as).closesBrace = Text.closesBrace c := by
  have alike {d : Char} (alone : pieceAt d (as ++ cs) = (.token .mark, 0)) :
      (ofPiece kind p c as).isMark (String.ofList [d]) = (c == d) := by
    cases same : c == d with
    | true =>
        obtain rfl := beq_iff_eq.mp same
        obtain ⟨mark, none⟩ := Prod.mk.inj (alone.symm.trans piece)
        obtain rfl := List.length_eq_zero_iff.mp none.symm
        obtain rfl := Piece.token.inj mark
        simp [isMark, ofPiece, make]
    | false =>
        rw [isMark, Bool.and_eq_false_iff]
        refine .inr (beq_eq_false_iff_ne.mpr fun text => ?_)
        exact beq_eq_false_iff_ne.mp same (List.cons.inj (String.ofList_injective text)).1
  exact ⟨alike rfl, alike rfl⟩

/-- If a token starts at each brace, the braces of the characters are those of the
tokens. -/
theorem Scanned.braceDepth? (h : Scanned p cs ts q []) (apart : BracesApart p.offset cs ts)
    (d : Nat) : Text.braceDepth? d cs = Token.braceDepth? d ts := by
  generalize nil : ([] : List Char) = ds at h
  unfold Text.braceDepth? Token.braceDepth?
  induction h generalizing d with
  | done =>
      subst nil
      rw [depthAfter?_nil, depthAfter?_nil]
  | @gap p q c as cs ds ts piece rest ih =>
      rw [← List.cons_append] at apart ⊢
      have later := rest.bounds.2
      rw [Place.past_offset] at later ih
      have plain := apart.front (k := 0) fun t ht => .inr (later t ht).1
      rw [List.drop_zero] at plain
      rw [depthAfter?_plain_append plain]
      exact ih (apart.behind fun t ht _ => ht) d nil
  | @token p q c as cs ds kind ts piece rest ih =>
      rw [← List.cons_append] at apart
      have later := rest.bounds.2
      rw [Place.past_offset] at later ih
      have start : (ofPiece kind p c as).start = p.offset := rfl
      have apart' : BracesApart (p.offset + (c :: as).length) cs ts :=
        apart.behind fun t ht far => by
          rcases List.mem_cons.mp ht with rfl | more
          · rw [start, List.length_cons] at far
            omega
          · exact more
      have plain := apart.front (k := 1) fun t ht => by
        rcases List.mem_cons.mp ht with rfl | more
        · exact .inl (by omega)
        · exact .inr (later t more).1
      rw [List.drop_one, List.tail_cons] at plain
      -- whether a token is a brace can be read off its first character
      obtain ⟨opens, closes⟩ := brace_of_piece piece p
      refine depthAfter?_congr opens.symm closes.symm (fun d => ?_) d
      rw [depthAfter?_plain_append plain]
      exact ih apart' d nil

end Token

/-! ## Templates of one hole -/

/-- The template that is made of one hole. -/
def holed (text : String) : String :=
  String.ofList ('\x60' :: '$' :: '\x7b' :: (text.toList ++ ['\x7d', '\x60']))

/-- What a template makes of the expression in its only hole: a text. -/
def Expr.concatenated : Expr → Expr
  | .literal (.text s) => .text s
  | e => .binary .add (.text "") e

namespace Grammar

theorem joinParts_cons (e : Expr) (parts : List Expr) :
    joinParts (e :: parts) = parts.foldl (.binary .add) e.concatenated := by
  cases e with
  | literal value => cases value <;> rfl
  | _ => rfl

/-- There are no pieces only where nothing is left of a template. -/
theorem pieces_eq_nil {mode : TemplateMode} {cs : List Char} (none : pieces mode cs = []) :
    mode = .text [] ∧ cs = [] := by
  fun_induction pieces mode cs with
  | case1 buf =>
      cases buf with
      | nil => exact ⟨rfl, rfl⟩
      | cons c buf => cases none
  | case2 buf cs ih => cases (ih (List.append_eq_nil_iff.mp none).2).1
  | case3 buf c cs ih => cases (ih none).1
  | case4 buf c cs noHole noEscape ih => cases (ih none).1
  | case5 depth buf => cases none
  | case6 depth buf cs ih => cases (ih none).1
  | case7 buf cs other => cases none
  | case8 buf cs other depth ih => cases (ih none).1
  | case9 depth buf c cs noOpening noClosing ih => cases (ih none).1

/-- Every piece is a part. -/
theorem templateParts_ne_nil {t : Token} {pieces : List TemplatePiece} {parts : List Expr}
    (read : templateParts t pieces = .ok parts) (some : pieces ≠ []) : parts ≠ [] := by
  rintro rfl
  cases pieces with
  | nil => exact some rfl
  | cons piece rest =>
      rw [templateParts.eq_def] at read
      cases piece with
      | text cs =>
          dsimp only at read
          cases behind : templateParts t rest <;> rw [behind] at read <;> cases read
      | hole cs =>
          dsimp only at read
          cases inner : standalone (t.line - 1) cs <;> rw [inner] at read
          · cases read
          · cases behind : templateParts t rest <;> rw [behind] at read <;> cases read
      | openHole => cases read

/-- What a template is that begins with a hole. -/
theorem joined_hole {t : Token} {front : List Char} {first : Expr}
    (read : standalone (t.line - 1) front = .ok first) (more : List TemplatePiece) :
    joined t (.hole front :: more) =
      (templateParts t more).map (·.foldl (.binary .add) first.concatenated) := by
  rw [joined, templateParts, read]
  cases templateParts t more with
  | error stop => rfl
  | ok parts => exact congrArg Except.ok (joinParts_cons first parts)

/-- The walk through a hole counts braces. -/
theorem pieces_hole {d d' : Nat} {cs : List Char} (h : Text.braceDepth? d cs = some d')
    (buf rest : List Char) :
    pieces (.hole d buf) (cs ++ rest) = pieces (.hole d' (cs.reverse ++ buf)) rest := by
  unfold Text.braceDepth? at h
  induction cs generalizing d buf with
  | nil =>
      obtain rfl := Option.some.inj (depthAfter?_nil.symm.trans h)
      rfl
  | cons c cs ih =>
      rw [List.cons_append, pieces.eq_def, List.reverse_cons, List.append_assoc,
        List.singleton_append]
      dsimp only
      cases opens : Text.opensBrace c with
      | true =>
          rw [depthAfter?_open opens] at h
          rw [if_pos (beq_iff_eq.mp opens), ih h]
      | false =>
      rw [if_neg (beq_eq_false_iff_ne.mp opens)]
      cases closes : Text.closesBrace c with
      | false =>
          rw [depthAfter?_plain opens closes] at h
          rw [if_neg (beq_eq_false_iff_ne.mp closes), ih h]
      | true =>
          rw [if_pos (beq_iff_eq.mp closes)]
          cases d with
          | zero => simp [depthAfter?, opens, closes] at h
          | succ d =>
              rw [depthAfter?_close opens closes] at h
              exact ih h (c :: buf)

/-- Quoted text without its mark and without backslashes ends at the mark behind it. -/
theorem quotedRest?_of_plain {mark : Char} {cs : List Char}
    (plain : ∀ c ∈ cs, c ≠ mark ∧ c ≠ '\\') (other : mark ≠ '\\') :
    Token.quotedRest? mark true (cs ++ [mark]) = some (cs.length + 1) := by
  induction cs with
  | nil => rw [List.nil_append, Token.quotedRest?_plain other, if_pos (beq_self_eq_true _)]; rfl
  | cons c cs ih =>
      obtain ⟨⟨noMark, noSlash⟩, later⟩ := List.forall_mem_cons.mp plain
      rw [List.cons_append, Token.quotedRest?_plain noSlash, if_neg (by simpa using noMark),
        if_pos (Bool.true_or _), ih later]
      rfl

variable {text : String} {e : Expr} {linesBefore : Int}

/-- A template of one hole is one token, and what its hole is comes from the characters
behind the opening brace. -/
theorem standalone_holed (plain : ∀ c ∈ text.toList, c ≠ '\x60' ∧ c ≠ '\\')
    (linesBefore : Int) :
    ∃ t : Token, t.text = holed text ∧ t.line = linesBefore + 1 ∧ t.column = 1 ∧
      standalone linesBefore (holed text).toList =
        joined t (pieces (.hole 0 []) (text.toList ++ ['\x7d'])) := by
  let inner := '$' :: '\x7b' :: (text.toList ++ ['\x7d'])
  have plain' : ∀ c ∈ inner, c ≠ '\x60' ∧ c ≠ '\\' := by
    simp only [inner, List.forall_mem_cons, List.forall_mem_append]
    exact ⟨by decide, by decide, plain, by simp⟩
  have found := quotedRest?_of_plain plain' (by decide)
  have piece : Token.pieceAt '\x60' (inner ++ ['\x60']) =
      (.token .template, (inner ++ ['\x60']).length) := by
    rw [Token.pieceAt_eq]
    simp [Token.commentAt?, Token.numberAt?, Token.templateAt?, Token.textAt?, found]
    rfl
  have chars : (holed text).toList = '\x60' :: (inner ++ ['\x60']) := by
    simp [holed, inner]
  let t := Token.ofPiece .template (.first linesBefore) '\x60' (inner ++ ['\x60'])
  have spelled : t.text = holed text := by
    rw [← String.ofList_toList (s := holed text), chars]
    simp only [t, Token.ofPiece, Token.make, List.take_length]
  have walk : piecesOf t = pieces (.hole 0 []) (text.toList ++ ['\x7d']) := by
    have within : Grammar.inside t.text = inner := by
      rw [spelled, inside, chars, List.drop_one, List.tail_cons, List.dropLast_concat]
    rw [piecesOf, within, pieces]
    rfl
  refine ⟨t, spelled, rfl, rfl, ?_⟩
  rw [chars, standalone_template (Token.ofChars_of_piece piece linesBefore) rfl, ← walk]

/-- A text that is read makes up an expression alone. -/
theorem standalone_of_ok (read : parseExpression text linesBefore = .ok e) :
    standalone linesBefore text.toList = .ok e := by
  unfold parseExpression at read
  split at read
  · rename_i alone
    rw [alone, Except.ok.inj read]
  · cases read
  · cases read

theorem standalone_of_error {fault : CompileFault}
    (failed : parseExpression text linesBefore = .error fault) :
    standalone linesBefore text.toList = .error (.fatal fault) := by
  unfold parseExpression at failed
  split at failed
  · cases failed
  · rename_i alone
    rw [alone, Except.error.inj failed]
  · rename_i refused
    exact absurd refused (standalone_final linesBefore text.toList _)

/-- The braces of an expression match in its characters, unless one of them stands inside
of a quoted text or a comment. -/
theorem braceDepth?_of_read (read : parseExpression text linesBefore = .ok e)
    {ts : List Token} (tokens : Token.tokenize text linesBefore = .ok ts)
    (apart : BracesApart 0 text.toList ts) : Text.braceDepth? 0 text.toList = some 0 := by
  obtain ⟨kept, shape, -⟩ := parseExpression_found tokens read
  obtain ⟨q, scanned⟩ := Token.Scanned.of_scan tokens
  exact (scanned.braceDepth? apart 0).trans (shape.braceDepth? 0)

/-- Where the braces match, the hole ends where the expression does. -/
theorem parseExpression_matched (plain : ∀ c ∈ text.toList, c ≠ '\x60' ∧ c ≠ '\\')
    (read : parseExpression text linesBefore = .ok e)
    (matched : Text.braceDepth? 0 text.toList = some 0) :
    parseExpression (holed text) linesBefore = .ok e.concatenated := by
  obtain ⟨t, -, line, -, alone⟩ := standalone_holed plain linesBefore
  have before : t.line - 1 = linesBefore := by omega
  have inner : standalone (t.line - 1) text.toList = .ok e := before ▸ standalone_of_ok read
  have whole : pieces (.hole 0 []) (text.toList ++ ['\x7d']) = [.hole text.toList] := by
    rw [pieces_hole matched, List.append_nil]
    simp [pieces, textPiece]
  rw [parseExpression, alone, whole, joined_hole inner, templateParts]
  rfl

/-- Where a brace stays open, the hole does. -/
theorem parseExpression_unclosed (plain : ∀ c ∈ text.toList, c ≠ '\x60' ∧ c ≠ '\\') {d : Nat}
    (unclosed : Text.braceDepth? 0 text.toList = some (d + 1)) :
    parseExpression (holed text) linesBefore = .error (.source
      { fault := .unterminatedHole, line := linesBefore + 1, column := some 1
        text := holed text }) := by
  obtain ⟨t, spelled, line, column, alone⟩ := standalone_holed plain linesBefore
  have unended : pieces (.hole 0 []) (text.toList ++ ['\x7d']) = [.openHole] := by
    rw [pieces_hole unclosed, List.append_nil]
    simp [pieces]
  rw [parseExpression, alone, unended, joined, templateParts, spelled, line, column]
  rfl

/-- Where a brace is closed that is not open, the hole ends there, and something is left. -/
theorem standalone_early (plain : ∀ c ∈ text.toList, c ≠ '\x60' ∧ c ≠ '\\')
    {front back : String} (split : text = front ++ "\x7d" ++ back)
    (matched : Text.braceDepth? 0 front.toList = some 0) (linesBefore : Int) :
    ∃ (t : Token) (more : List TemplatePiece), t.line - 1 = linesBefore ∧ more ≠ [] ∧
      standalone linesBefore (holed text).toList = joined t (.hole front.toList :: more) := by
  obtain ⟨t, -, line, -, alone⟩ := standalone_holed plain linesBefore
  refine ⟨t, pieces (.text []) (back.toList ++ ['\x7d']), by omega, fun none => ?_, ?_⟩
  · cases (List.append_eq_nil_iff.mp (pieces_eq_nil none).2).2
  · have chars : text.toList ++ ['\x7d'] =
        front.toList ++ '\x7d' :: (back.toList ++ ['\x7d']) := by
      simp [split]
    rw [alone, chars, pieces_hole matched, List.append_nil]
    simp [pieces]

end Grammar

/-- A template that is one hole with an expression in it.  If the braces match in the
characters, it is the expression made a text.  If they stay open, so does the hole.  If one
is closed that is not open, the hole ends there: what is before it has to be an expression,
and what is behind it, the end of the expression and of the hole, is added to it. -/
theorem holes_hold_expressions {text : String} {linesBefore : Int} {e : Expr}
    (plain : ∀ c ∈ text.toList, c ≠ '\x60' ∧ c ≠ '\\')
    (read : parseExpression text linesBefore = .ok e) :
    (∀ ts, Token.tokenize text linesBefore = .ok ts → BracesApart 0 text.toList ts →
      Text.braceDepth? 0 text.toList = some 0) ∧
    (Text.braceDepth? 0 text.toList = some 0 →
      parseExpression (holed text) linesBefore = .ok e.concatenated) ∧
    (∀ d, Text.braceDepth? 0 text.toList = some (d + 1) →
      parseExpression (holed text) linesBefore = .error (.source
        { fault := .unterminatedHole, line := linesBefore + 1, column := some 1
          text := holed text })) ∧
    (∀ front back, text = front ++ "\x7d" ++ back → Text.braceDepth? 0 front.toList = some 0 →
      (∀ fault, parseExpression front linesBefore = .error fault →
        parseExpression (holed text) linesBefore = .error fault) ∧
      (∀ first whole, parseExpression front linesBefore = .ok first →
        parseExpression (holed text) linesBefore = .ok whole →
        ∃ parts, parts ≠ [] ∧ whole = parts.foldl (.binary .add) first.concatenated)) := by
  refine ⟨fun ts tokens => Grammar.braceDepth?_of_read read tokens,
    Grammar.parseExpression_matched plain read,
    fun d unclosed => Grammar.parseExpression_unclosed plain unclosed, ?_⟩
  intro front back split matched
  obtain ⟨t, more, before, some, alone⟩ :=
    Grammar.standalone_early plain split matched linesBefore
  refine ⟨fun fault failed => ?_, fun first whole good goes => ?_⟩
  · rw [parseExpression, alone, Grammar.joined, Grammar.templateParts, before,
      Grammar.standalone_of_error failed]
    rfl
  · have inner : Grammar.standalone (t.line - 1) front.toList = .ok first :=
      before ▸ Grammar.standalone_of_ok good
    rw [parseExpression, alone, Grammar.joined_hole inner] at goes
    cases behind : Grammar.templateParts t more with
    | error stop =>
        rw [behind] at goes
        cases stop <;> cases goes
    | ok parts =>
        rw [behind] at goes
        cases goes
        exact ⟨parts, Grammar.templateParts_ne_nil behind some, rfl⟩

/-- A brace in a quoted text ends the hole in the middle of the text. -/
theorem quoted_brace_ends_hole :
    (∀ c ∈ "\"\x7d\"".toList, c ≠ '\x60' ∧ c ≠ '\\') ∧
    parseExpression "\"\x7d\"" 0 = .ok (.text "\x7d") ∧
    parseExpression (holed "\"\x7d\"") 0 = .error (.source
      { fault := .unterminatedString, line := 1, column := some 1, text := "\"" }) := by
  have plain : ∀ c ∈ "\"\x7d\"".toList, c ≠ '\x60' ∧ c ≠ '\\' := by simp
  have read : parseExpression "\"\x7d\"" 0 = .ok (.text "\x7d") := by
    rw [parseExpression]
    rw [show "\"\x7d\"" = Quotation.double.write "\x7d" by decide, Grammar.standalone_write]
  have failed : parseExpression "\"" 0 = .error (.source
      { fault := .unterminatedString, line := 1, column := some 1, text := "\"" }) := by
    rw [parseExpression, Grammar.standalone]
    rfl
  obtain ⟨-, -, -, early⟩ := holes_hold_expressions plain read
  exact ⟨plain, read, (early "\"" "\"" (by decide) (by decide)).1 _ failed⟩

end Runloop
