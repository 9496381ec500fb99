/-
# Printed expressions

An expression is printed as the tokens that it is made of, one space between each two of
them, with parentheses only where the levels of the operators and their grouping to the
left ask for them (`Expr.lexemes`).  What is printed is split into just these tokens again
(`scanned_spaced`), since no token reaches over a space and each is whole before one
(`Lexeme.Whole`).
-/
import Mathlib.Data.List.Basic
import Runloop.Proofs.Numerals
import Runloop.Proofs.Quoting

namespace Runloop

/-! ## Lexemes -/

/-- A token as it is written, wherever it stands. -/
structure Lexeme where
  kind : TokenKind
  text : String
deriving DecidableEq

def Token.lexeme (t : Token) : Lexeme := ⟨t.kind, t.text⟩

namespace Lexeme

def mark (s : String) : Lexeme := ⟨.mark, s⟩

def word (s : String) : Lexeme := ⟨.word, s⟩

/-- Stretches of lexemes with a comma between each two of them. -/
def commas : List (List Lexeme) → List Lexeme
  | [] => []
  | [ls] => ls
  | ls :: more => ls ++ mark "," :: commas more

/-- The characters of lexemes with one space between each two of them. -/
def spaced : List Lexeme → List Char
  | [] => []
  | [l] => l.text.toList
  | l :: ls => l.text.toList ++ ' ' :: spaced ls

end Lexeme

/-! ## Printing -/

/-- A character as it is written between double quotes. -/
def quoteChar : Char → List Char
  | '"' => ['\\', '"']
  | '\\' => ['\\', '\\']
  | '\n' => ['\\', 'n']
  | c => [c]

/-- A text between double quotes. -/
def quote (s : String) : String :=
  String.ofList ('"' :: (s.toList.flatMap quoteChar ++ ['"']))

/-- Whether a text is a word. -/
def isWord (s : String) : Bool :=
  match s.toList with
  | [] => false
  | c :: cs => Token.isWordStart c && cs.all Token.isWordRest

/-- The words that are literals. -/
def literalWords : List String := ["true", "false", "null", "undefined"]

/-- Whether a text names a variable. -/
def isVariable (s : String) : Bool :=
  isWord s && !Grammar.isReserved s && !literalWords.contains s

def Literal.lexeme : Literal → Lexeme
  | number (.int n) => ⟨.number, toString n⟩
  | number (.float x) => ⟨.number, x.toText⟩
  | text s => ⟨.text, quote s⟩
  | bool b => .word (if b then "true" else "false")
  | null => .word "null"
  | undefined => .word "undefined"

/-- A key of an object: a word as it is, everything else in quotes. -/
def keyLexeme (key : String) : Lexeme :=
  if isWord key then .word key else ⟨.text, quote key⟩

namespace Expr

/-- How tightly an expression is bound together: the level of its operator, 6 with a
prefix operator, and 7 if it is a primary expression with calls and accesses behind it. -/
def level : Expr → Nat
  | binary op _ _ => op.level
  | unary _ _ => 6
  | typeof _ => 6
  | _ => 7

/-- Lexemes that stand where a level is wanted: in parentheses if theirs is looser. -/
def wrap (wanted own : Nat) (ls : List Lexeme) : List Lexeme :=
  if own < wanted then .mark "(" :: (ls ++ [.mark ")"]) else ls

mutual

/-- What an expression is printed as.  Functions are not printed. -/
def lexemes : Expr → List Lexeme
  | literal value => [value.lexeme]
  | array items => .mark "[" :: (Lexeme.commas (lexemesOf items) ++ [.mark "]"])
  | object entries => .mark "\x7b" :: (Lexeme.commas (lexemesIn entries) ++ [.mark "\x7d"])
  | function _ => []
  | call name args => .word name :: .mark "(" :: (Lexeme.commas (lexemesOf args) ++ [.mark ")"])
  | methodCall target name args =>
      wrap 7 target.level (lexemes target) ++
        .mark "." :: .word name :: .mark "(" :: (Lexeme.commas (lexemesOf args) ++ [.mark ")"])
  | reference name => [.word name]
  | property target name _ => wrap 7 target.level (lexemes target) ++ [.mark ".", .word name]
  | typeof operand => .word "typeof" :: wrap 6 operand.level (lexemes operand)
  | unary op operand => ⟨.operator, op.spelling⟩ :: wrap 6 operand.level (lexemes operand)
  | binary op left right =>
      wrap op.level left.level (lexemes left) ++
        ⟨.operator, op.spelling⟩ :: wrap (op.level + 1) right.level (lexemes right)

def lexemesOf : List Expr → List (List Lexeme)
  | [] => []
  | e :: es => lexemes e :: lexemesOf es

def lexemesIn : List (String × Expr) → List (List Lexeme)
  | [] => []
  | (key, e) :: entries => (keyLexeme key :: .mark ":" :: lexemes e) :: lexemesIn entries

end

/-- The text of an expression. -/
def printed (e : Expr) : String := String.ofList (Lexeme.spaced e.lexemes)

/-- The expressions that are printed: without functions and numbers that are no natural
ones, and with names that can be read. -/
inductive Plain : Expr → Prop
  | int {n : Nat} (short : (toString n).length ≤ Text.digitLimit) :
      Plain (literal (.number (.int n)))
  | text (s : String) : Plain (literal (.text s))
  | bool (b : Bool) : Plain (literal (.bool b))
  | null : Plain (literal .null)
  | undefined : Plain (literal .undefined)
  | array {items : List Expr} (each : ∀ e ∈ items, Plain e) : Plain (array items)
  | object {entries : List (String × Expr)} (each : ∀ entry ∈ entries, Plain entry.2) :
      Plain (object entries)
  | call {name : String} {args : List Expr} (named : isVariable name = true)
      (each : ∀ e ∈ args, Plain e) : Plain (call name args)
  | methodCall {target : Expr} {name : String} {args : List Expr} (of : Plain target)
      (named : isWord name = true) (each : ∀ e ∈ args, Plain e) :
      Plain (methodCall target name args)
  | reference {name : String} (named : isVariable name = true) : Plain (reference name)
  | property {target : Expr} {name source : String} (of : Plain target)
      (named : isWord name = true) : Plain (property target name source)
  | typeof {operand : Expr} (of : Plain operand) : Plain (typeof operand)
  | unary {op : UnaryOp} {operand : Expr} (of : Plain operand) : Plain (unary op operand)
  | binary {op : BinaryOp} {left right : Expr} (of : Plain left) (of' : Plain right) :
      Plain (binary op left right)

mutual

/-- An expression without the source forms of its property accesses. -/
def erased : Expr → Expr
  | literal value => literal value
  | array items => array (erasedOf items)
  | object entries => object (erasedIn entries)
  | function f => function f
  | call name args => call name (erasedOf args)
  | methodCall target name args => methodCall (erased target) name (erasedOf args)
  | reference name => reference name
  | property target name _ => property (erased target) name ""
  | typeof operand => typeof (erased operand)
  | unary op operand => unary op (erased operand)
  | binary op left right => binary op (erased left) (erased right)

def erasedOf : List Expr → List Expr
  | [] => []
  | e :: es => erased e :: erasedOf es

def erasedIn : List (String × Expr) → List (String × Expr)
  | [] => []
  | (key, e) :: entries => (key, erased e) :: erasedIn entries

end

end Expr

/-! ## Splitting what is printed -/

/-- Nothing, or a space first. -/
def Lexeme.Apart (cs : List Char) : Prop := ∀ c ∈ cs.head?, c = ' '

/-- A lexeme that is found as a whole if it stands apart from what follows. -/
def Lexeme.Whole (l : Lexeme) : Prop :=
  ∃ c cs, l.text.toList = c :: cs ∧
    ∀ rest, Lexeme.Apart rest → Token.pieceAt c (cs ++ rest) = (.token l.kind, cs.length)

namespace Token

variable {c : Char} {cs rest : List Char}

theorem scanned_lexeme {l : Lexeme} (whole : l.Whole) (rest : List Char)
    (apart : Lexeme.Apart rest) (p : Place) :
    ∃ t q, Scanned p (l.text.toList ++ rest) [t] q rest ∧ t.lexeme = l := by
  obtain ⟨c, cs, text, found⟩ := whole
  refine ⟨ofPiece l.kind p c cs, p.past (c :: cs), ?_, ?_⟩
  · rw [text]
    exact .token (found rest apart) .done
  · simp [lexeme, ofPiece, make, ← text]

theorem scanned_space (cs : List Char) (p : Place) : ∃ q, Scanned p (' ' :: cs) [] q cs := by
  have piece : pieceAt ' ' ([] ++ cs) = (.gap, ([] : List Char).length) := rfl
  exact ⟨_, .gap piece .done⟩

open Lexeme in
/-- Lexemes with spaces between them are found again. -/
theorem scanned_spaced {ls : List Lexeme} (whole : ∀ l ∈ ls, l.Whole) (p : Place) :
    ∃ ts q, Scanned p (spaced ls) ts q [] ∧ ts.map lexeme = ls := by
  induction ls generalizing p with
  | nil => exact ⟨[], p, .done, rfl⟩
  | cons l ls ih =>
      obtain ⟨here, later⟩ := List.forall_mem_cons.mp whole
      cases ls with
      | nil =>
          obtain ⟨t, q, scanned, same⟩ := scanned_lexeme here [] (by simp [Apart]) p
          rw [List.append_nil] at scanned
          exact ⟨[t], q, scanned, congrArg (· :: []) same⟩
      | cons l' ls =>
          obtain ⟨t, q, first, same⟩ :=
            scanned_lexeme here (' ' :: spaced (l' :: ls)) (by simp [Apart]) p
          obtain ⟨q', space⟩ := scanned_space (spaced (l' :: ls)) q
          obtain ⟨ts, q'', second, same'⟩ := ih later q'
          refine ⟨t :: ts, q'', (first.append space).append second, ?_⟩
          rw [List.map_cons, same, same']

end Token

namespace Lexeme

variable {rest : List Char}

theorem Apart.cases (h : Apart rest) : rest = [] ∨ ∃ cs, rest = ' ' :: cs := by
  cases rest with
  | nil => exact .inl rfl
  | cons c cs => exact .inr ⟨cs, by rw [h c rfl]⟩

/-! ### Marks and operators -/

theorem whole_mark {s : String} (h : s ∈ ["(", ")", "[", "]", "\x7b", "\x7d", ",", ".", ":"]) :
    (mark s).Whole := by
  simp only [List.mem_cons, List.not_mem_nil, or_false] at h
  rcases h with rfl | rfl | rfl | rfl | rfl | rfl | rfl | rfl | rfl <;>
    refine ⟨_, [], rfl, fun rest apart => ?_⟩ <;>
    rcases apart.cases with rfl | ⟨cs, rfl⟩ <;>
    rfl

theorem whole_unary (op : UnaryOp) : (⟨.operator, op.spelling⟩ : Lexeme).Whole := by
  cases op <;>
    refine ⟨_, [], rfl, fun rest apart => ?_⟩ <;>
    rcases apart.cases with rfl | ⟨cs, rfl⟩ <;>
    rfl

theorem whole_binary (op : BinaryOp) : (⟨.operator, op.spelling⟩ : Lexeme).Whole := by
  cases op <;>
    refine ⟨_, _, rfl, fun rest apart => ?_⟩ <;>
    rcases apart.cases with rfl | ⟨cs, rfl⟩ <;>
    rfl

/-! ### Words -/

theorem toNat_of_isWordStart {c : Char} (h : Token.isWordStart c = true) :
    c.toNat = 36 ∨ 65 ≤ c.toNat ∧ c.toNat ≤ 90 ∨ c.toNat = 95 ∨ 97 ≤ c.toNat ∧ c.toNat ≤ 122 := by
  have signs : (c.isUpper || c.isLower || c == '_' || c == '$') = true := h
  simp only [Bool.or_eq_true, beq_iff_eq] at signs
  rcases signs with ((upper | lower) | rfl) | rfl
  · exact .inr (.inl (of_decide_eq_true upper :))
  · obtain ⟨low, high⟩ := Bool.and_eq_true_iff.mp lower
    exact .inr (.inr (.inr ⟨of_decide_eq_true low, of_decide_eq_true high⟩))
  · exact .inr (.inr (.inl rfl))
  · exact .inl rfl

/-- What starts a word starts nothing else. -/
theorem ne_of_isWordStart {c d : Char} (h : Token.isWordStart c = true)
    (other : d ∈ ['/', '.', '\x60', '"', '\'']) : c ≠ d := by
  rintro rfl
  simp only [List.mem_cons, List.not_mem_nil, or_false] at other
  rcases other with rfl | rfl | rfl | rfl | rfl <;> cases h

theorem isDigit_of_isWordStart {c : Char} (h : Token.isWordStart c = true) :
    Text.isDigit c = false := by
  have range := toNat_of_isWordStart h
  have ascii : c.toNat < 128 := by omega
  have other : ¬ (48 ≤ c.toNat ∧ c.toNat ≤ 57) := by omega
  simp [Text.isDigit, Text.digitValue?, ascii, other]

theorem takeWhile_apart {p : Char → Bool} {cs : List Char} (all : ∀ c ∈ cs, p c = true)
    (space : p ' ' = false) (apart : Apart rest) : (cs ++ rest).takeWhile p = cs := by
  rw [List.takeWhile_append_of_pos all]
  rcases apart.cases with rfl | ⟨ds, rfl⟩
  · simp
  · simp [space]

theorem whole_word {s : String} (h : isWord s = true) : (word s).Whole := by
  unfold isWord at h
  split at h
  · cases h
  rename_i c cs text
  rw [Bool.and_eq_true, List.all_eq_true] at h
  obtain ⟨start, all⟩ := h
  refine ⟨c, cs, text, fun rest apart => ?_⟩
  have ne (d : Char) (hd : d ∈ ['/', '.', '\x60', '"', '\'']) : (c == d) = false :=
    beq_eq_false_iff_ne.mpr (ne_of_isWordStart start hd)
  have noComment : Token.commentAt? c (cs ++ rest) = none := by
    simp [Token.commentAt?, ne]
  have noNumber : Token.numberAt? c (cs ++ rest) = none := by
    simp [Token.numberAt?, ne, isDigit_of_isWordStart start]
  have noTemplate : Token.templateAt? c (cs ++ rest) = none := by
    simp [Token.templateAt?, ne]
  have noText : Token.textAt? c (cs ++ rest) = none := by
    simp [Token.textAt?, ne]
  rw [Token.pieceAt_eq, noComment, noNumber, noTemplate, noText]
  dsimp only
  rw [Token.plainAt, if_pos start, takeWhile_apart all (by decide) apart]
  rfl

theorem isWord_of_isVariable {s : String} (h : isVariable s = true) : isWord s = true := by
  simp only [isVariable, Bool.and_eq_true] at h
  exact h.1.1

/-! ### Numbers -/

theorem toList_toString (n : Nat) : (toString n).toList = Nat.toDigits 10 n := Nat.toList_repr

theorem isDigit_toString {n : Nat} {c : Char} (h : c ∈ (toString n).toList) : c.isDigit = true := by
  rw [toList_toString] at h
  exact Nat.isDigit_of_mem_toDigits (by decide) (by decide) h

/-- A number has a digit. -/
theorem toString_cases (n : Nat) : ∃ c cs, (toString n).toList = c :: cs ∧
    ∀ d ∈ c :: cs, Text.isDigit d = true := by
  cases text : (toString n).toList with
  | nil => exact absurd ((toList_toString n).symm.trans text) Nat.toDigits_ne_nil
  | cons c cs =>
      exact ⟨c, cs, rfl, fun d hd => Text.isDigit_of_core (isDigit_toString (text ▸ hd))⟩

theorem whole_number (n : Nat) : (⟨.number, toString n⟩ : Lexeme).Whole := by
  obtain ⟨c, cs, text, digits⟩ := toString_cases n
  refine ⟨c, cs, text, fun rest apart => ?_⟩
  obtain ⟨first, more⟩ := List.forall_mem_cons.mp digits
  have noComment : Token.commentAt? c (cs ++ rest) = none := by
    have : (c == '/') = false := beq_eq_false_iff_ne.mpr (Text.ne_of_isDigit first (by decide))
    simp [Token.commentAt?, this]
  have count : Token.digitCount (cs ++ rest) = cs.length := by
    rw [Token.digitCount, takeWhile_apart more (by decide) apart]
  have number : Token.numberAt? c (cs ++ rest) = some cs.length := by
    rw [Token.numberAt?, if_pos first, Token.numberRest_eq, count, List.drop_left]
    rcases apart.cases with rfl | ⟨ds, rfl⟩
    · simp [Token.fractionLength, Token.exponentLength]
    · simp [Token.fractionLength, Token.exponentLength]
  rw [Token.pieceAt_eq, noComment, number]

/-- The digits of a number say the number. -/
theorem ofDigits_toString (n : Nat) : Text.ofDigits (Text.digitValues (toString n).toList) = n := by
  have value {c : Char} (h : c ∈ (toString n).toList) :
      Text.digitValue? c = some (c.toNat - 48) := by
    have digit := isDigit_toString h
    simp only [Char.isDigit, Bool.and_eq_true, decide_eq_true_eq] at digit
    have range : 48 ≤ c.toNat ∧ c.toNat ≤ 57 := digit
    have ascii : c.toNat < 128 := by omega
    rw [Text.digitValue?, if_pos ascii, if_pos range]
  have values : Text.digitValues (toString n).toList =
      (toString n).toList.map fun c => c.toNat - 48 := by
    rw [Text.digitValues, List.filterMap_eq_map_iff_forall_eq_some]
    exact fun c hc => value hc
  rw [values, Text.ofDigits, List.foldl_map, toList_toString]
  exact (Nat.ofDigitChars_eq_foldl ).symm.trans
    (Nat.ofDigitChars_toDigits (by decide) (by decide))

/-- A number is read from its digits. -/
theorem numberOf_toString {n : Nat} (short : (toString n).length ≤ Text.digitLimit) :
    Grammar.numberOf (toString n) = .ok (.int n) := by
  obtain ⟨c, cs, text, digits⟩ := toString_cases n
  have whole : (toString n).toList.any (fun c => c == '.' || c == 'e' || c == 'E') = false := by
    rw [text, List.any_eq_false]
    intro d hd
    have ne (e : Char) (other : Text.isDigit e = false) : d ≠ e :=
      Text.ne_of_isDigit (digits d hd) other
    simp [ne '.' (by decide), ne 'e' (by decide), ne 'E' (by decide)]
  have few : ¬ Text.digitLimit < (c :: cs).length := by
    rw [← text, String.length_toList]
    omega
  rw [Grammar.numberOf, whole, if_neg Bool.false_ne_true, Text.readInt_of_digits _ c cs text digits,
    if_neg few, ← text, ofDigits_toString]

/-! ### Texts -/

/-- Keys and texts are written out between double quotes. -/
theorem quote_eq (s : String) : quote s = Quotation.double.write s := by
  have chars : quoteChar = Quotation.double.escape := by
    funext c
    unfold quoteChar
    split
    · rfl
    · rfl
    · rfl
    · rename_i noQuote noSlash noLine
      have plain : ¬ (c = '\\' ∨ c = '"' ∨ Quotation.double = .template ∧ c = '$') := by
        rintro (slash | quote | ⟨⟨⟩, -⟩)
        · exact noSlash slash
        · exact noQuote quote
      exact ((if_neg plain).trans (if_neg fun line => noLine line.1)).symm
  rw [quote, chars]
  rfl

theorem whole_text (s : String) : (⟨.text, quote s⟩ : Lexeme).Whole := by
  refine ⟨'"', s.toList.flatMap Quotation.double.escape ++ ['"'], ?_, fun rest _ => ?_⟩
  · rw [quote_eq]
    exact Quotation.toList_write ..
  · rw [List.append_assoc, List.singleton_append, List.length_append]
    exact Quotation.double.pieceAt_escaped s.toList rest

/-! ## The tokens of what is printed -/

theorem whole_keyLexeme (key : String) : (keyLexeme key).Whole := by
  unfold keyLexeme
  split
  · rename_i h
    exact whole_word h
  · exact whole_text key

end Lexeme

namespace Expr

open Lexeme

theorem lexemesOf_eq_map (es : List Expr) : lexemesOf es = es.map lexemes := by
  induction es with
  | nil => rfl
  | cons e es ih => rw [lexemesOf, ih, List.map_cons]

theorem lexemesIn_eq_map (entries : List (String × Expr)) : lexemesIn entries =
    entries.map fun entry => keyLexeme entry.1 :: .mark ":" :: lexemes entry.2 := by
  induction entries with
  | nil => rfl
  | cons entry entries ih => rw [lexemesIn, ih, List.map_cons]

theorem whole_wrap {wanted own : Nat} {ls : List Lexeme} (h : ∀ l ∈ ls, l.Whole) :
    ∀ l ∈ wrap wanted own ls, l.Whole := by
  unfold wrap
  split
  · refine List.forall_mem_cons.mpr ⟨whole_mark (by simp), List.forall_mem_append.mpr ⟨h, ?_⟩⟩
    exact List.forall_mem_singleton.mpr (whole_mark (by simp))
  · exact h

theorem whole_commas {stretches : List (List Lexeme)} (h : ∀ ls ∈ stretches, ∀ l ∈ ls, l.Whole) :
    ∀ l ∈ commas stretches, l.Whole := by
  fun_induction commas stretches with
  | case1 => simp
  | case2 ls => exact h ls List.mem_cons_self
  | case3 ls more _ ih =>
      obtain ⟨here, later⟩ := List.forall_mem_cons.mp h
      refine List.forall_mem_append.mpr ⟨here, List.forall_mem_cons.mpr ⟨?_, ih later⟩⟩
      exact whole_mark (by simp)

/-- Stretches between brackets. -/
theorem whole_bracketed {o c : String} {stretches : List (List Lexeme)}
    (opens : o ∈ ["(", "[", "\x7b"]) (closes : c ∈ [")", "]", "\x7d"])
    (h : ∀ ls ∈ stretches, ∀ l ∈ ls, l.Whole) :
    ∀ l ∈ mark o :: (commas stretches ++ [mark c]), l.Whole := by
  have ends {s : String} (h : s ∈ ["(", "[", "\x7b"] ∨ s ∈ [")", "]", "\x7d"]) :
      (mark s).Whole := whole_mark (by simp at h ⊢; grind)
  refine List.forall_mem_cons.mpr ⟨ends (.inl opens), List.forall_mem_append.mpr ⟨?_, ?_⟩⟩
  · exact whole_commas h
  · exact List.forall_mem_singleton.mpr (ends (.inr closes))

/-- Each lexeme of a plain expression is whole. -/
theorem Plain.whole {e : Expr} (h : e.Plain) : ∀ l ∈ e.lexemes, l.Whole := by
  induction h with
  | int _ => exact List.forall_mem_singleton.mpr (whole_number _)
  | text s => exact List.forall_mem_singleton.mpr (whole_text s)
  | bool b =>
      refine List.forall_mem_singleton.mpr (whole_word ?_)
      cases b <;> decide
  | null | undefined => exact List.forall_mem_singleton.mpr (whole_word (by decide))
  | array each ih =>
      rw [lexemes, lexemesOf_eq_map]
      exact whole_bracketed (by simp) (by simp) (List.forall_mem_map.mpr ih)
  | object each ih =>
      rw [lexemes, lexemesIn_eq_map]
      refine whole_bracketed (by simp) (by simp) (List.forall_mem_map.mpr fun entry he => ?_)
      exact List.forall_mem_cons.mpr ⟨whole_keyLexeme entry.1,
        List.forall_mem_cons.mpr ⟨whole_mark (by simp), ih entry he⟩⟩
  | call named each ih =>
      rw [lexemes, lexemesOf_eq_map]
      refine List.forall_mem_cons.mpr ⟨whole_word (isWord_of_isVariable named), ?_⟩
      exact whole_bracketed (by simp) (by simp) (List.forall_mem_map.mpr ih)
  | methodCall of named each ih ih' =>
      rw [lexemes, lexemesOf_eq_map]
      refine List.forall_mem_append.mpr ⟨whole_wrap ih, List.forall_mem_cons.mpr
        ⟨whole_mark (by simp), List.forall_mem_cons.mpr ⟨whole_word named, ?_⟩⟩⟩
      exact whole_bracketed (by simp) (by simp) (List.forall_mem_map.mpr ih')
  | reference named => exact List.forall_mem_singleton.mpr (whole_word (isWord_of_isVariable named))
  | property of named ih =>
      refine List.forall_mem_append.mpr ⟨whole_wrap ih, List.forall_mem_cons.mpr
        ⟨whole_mark (by simp), List.forall_mem_singleton.mpr (whole_word named)⟩⟩
  | typeof of ih => exact List.forall_mem_cons.mpr ⟨whole_word (by decide), whole_wrap ih⟩
  | unary of ih => exact List.forall_mem_cons.mpr ⟨whole_unary _, whole_wrap ih⟩
  | binary of of' ih ih' =>
      exact List.forall_mem_append.mpr ⟨whole_wrap ih,
        List.forall_mem_cons.mpr ⟨whole_binary _, whole_wrap ih'⟩⟩

/-- What is printed has the tokens that were printed. -/
theorem Plain.tokenize {e : Expr} (h : e.Plain) (linesBefore : Int) :
    ∃ ts, Token.tokenize e.printed linesBefore = .ok ts ∧ ts.map Token.lexeme = e.lexemes := by
  obtain ⟨ts, q, scanned, same⟩ := Token.scanned_spaced h.whole (.first linesBefore)
  refine ⟨ts, ?_, same⟩
  rw [Token.tokenize, printed, String.toList_ofList]
  exact scanned.scan

end Expr

end Runloop
