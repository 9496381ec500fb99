/-
# Tokens partition the text

What a token of a kind may look like is said here without saying how it is
recognized (`Spelled`), and so is what may stand between tokens (`Gap`).  The
recognizers are sound for these forms (`spelled_of_pieceAt`, `gap_of_pieceAt`), and
where none of the forms stands they find nothing (`unspelled_of_illegal`).  So a scan
cuts the text it has gone over into tokens and gaps (`Partition`), each token where it
says it is; and where a scan fails, nothing may stand (`tokens_partition`).
-/
import Mathlib.Data.List.Induction
import Mathlib.Data.List.TakeWhile
import Runloop.Proofs.Scanning

namespace Runloop.Token

/-! ## Forms of tokens -/

/-- Nothing but decimal digits. -/
def Digits (cs : List Char) : Prop := ∀ c ∈ cs, Text.isDigit c = true

/-- A fraction with its point, or none. -/
inductive Fraction : List Char → Prop
  | none : Fraction []
  | point {ds : List Char} : Digits ds → Fraction ('.' :: ds)

/-- An exponent with its mark and perhaps a sign, or none. -/
inductive Exponent : List Char → Prop
  | none : Exponent []
  | marked {mark : Char} {sign ds : List Char} : mark = 'e' ∨ mark = 'E' →
      sign ∈ [[], ['+'], ['-']] → ds ≠ [] → Digits ds → Exponent (mark :: (sign ++ ds))

/-- The inside of a text between quotes: no bare quote, and a backslash only together with
the character behind it. -/
inductive Inside (quote : Char) (multiline : Bool) : List Char → Prop
  | nil : Inside quote multiline []
  | plain {c : Char} {cs : List Char} : c ≠ quote → c ≠ '\\' → (multiline = true ∨ c ≠ '\n') →
      Inside quote multiline cs → Inside quote multiline (c :: cs)
  | escaped {c : Char} {cs : List Char} : (multiline = true ∨ c ≠ '\n') →
      Inside quote multiline cs → Inside quote multiline ('\\' :: c :: cs)

/-- What the text of a token of a kind looks like. -/
inductive Spelled : TokenKind → List Char → Prop
  | number {ds fs es : List Char} : ds ≠ [] → Digits ds → Fraction fs → Exponent es →
      Spelled .number (ds ++ (fs ++ es))
  | pointed {ds es : List Char} : ds ≠ [] → Digits ds → Exponent es →
      Spelled .number ('.' :: (ds ++ es))
  | template {body : List Char} : Inside '\x60' true body →
      Spelled .template ('\x60' :: (body ++ ['\x60']))
  | text {quote : Char} {body : List Char} : quote = '"' ∨ quote = '\'' →
      Inside quote false body → Spelled .text (quote :: (body ++ [quote]))
  | word {c : Char} {cs : List Char} : isWordStart c = true →
      (∀ d ∈ cs, isWordRest d = true) → Spelled .word (c :: cs)
  | longOperator {text : List Char} : text ∈ longOperators → Spelled .operator text
  | shortOperator {c : Char} : c ∈ shortOperators → Spelled .operator [c]
  | mark {c : Char} : c ∈ marks → Spelled .mark [c]

/-- A complete comment in front of a text: one to the end of its line, or one to the first
closing mark. -/
inductive Comment (after : List Char) : List Char → Prop
  | line {body : List Char} : (∀ c ∈ body, c ≠ '\n') → (∀ c ∈ after.head?, c = '\n') →
      Comment after ('/' :: '/' :: body)
  | block {body : List Char} : ¬ ['*', '/'] <:+: body →
      Comment after ('/' :: '*' :: (body ++ ['*', '/']))

/-- White space and complete comments in front of a text. -/
inductive Gap (after : List Char) : List Char → Prop
  | nil : Gap after []
  | blank {c : Char} {cs : List Char} : Text.isBlank c = true → Gap after cs →
      Gap after (c :: cs)
  | comment {text cs : List Char} : Comment (cs ++ after) text → Gap after cs →
      Gap after (text ++ cs)

variable {c : Char} {cs text body rest after source : List Char} {n : Nat}

/-! ## Numbers -/

theorem digits_takeWhile (cs : List Char) : Digits (cs.takeWhile Text.isDigit) := by
  intro c hc
  exact List.mem_takeWhile_imp hc

theorem take_digitCount (cs : List Char) : cs.take (digitCount cs) = cs.takeWhile Text.isDigit :=
  (List.prefix_iff_eq_take.mp (List.takeWhile_prefix _)).symm

theorem takeWhile_ne_nil (some : digitCount cs ≠ 0) : cs.takeWhile Text.isDigit ≠ [] := by
  intro none
  exact some (congrArg List.length none)

theorem exponent_take (cs : List Char) : Exponent (cs.take (exponentLength cs)) := by
  cases cs with
  | nil => exact .none
  | cons c cs =>
      rw [exponentLength_cons]
      split
      · rename_i mark
        have marks : c = 'e' ∨ c = 'E' := by simpa using mark
        cases cs with
        | nil => exact .none
        | cons d ds =>
            rw [markedLength_cons]
            split
            · rename_i sign
              have signs : [d] ∈ [[], ['+'], ['-']] := by simpa using sign
              split
              · exact .none
              · rename_i some
                rw [Nat.add_comm, List.take_succ_cons, List.take_succ_cons, take_digitCount]
                exact .marked marks signs (takeWhile_ne_nil some) (digits_takeWhile ds)
            · split
              · exact .none
              · rename_i some
                rw [Nat.add_comm, List.take_succ_cons, take_digitCount]
                have unsigned := Exponent.marked marks List.mem_cons_self (takeWhile_ne_nil some)
                  (digits_takeWhile (d :: ds))
                rwa [List.nil_append] at unsigned
      · exact .none

theorem fraction_take (cs : List Char) : Fraction (cs.take (fractionLength cs)) := by
  cases cs with
  | nil => exact .none
  | cons c cs =>
      by_cases point : c = '.'
      · subst point
        show Fraction (('.' :: cs).take (1 + digitCount cs))
        rw [Nat.add_comm, List.take_succ_cons, take_digitCount]
        exact .point (digits_takeWhile cs)
      · rw [fractionLength_of_ne point]
        exact .none

theorem spelled_number (digit : Text.isDigit c = true) (cs : List Char) :
    Spelled .number (c :: cs.take (numberRest cs)) := by
  rw [numberRest_eq, List.take_add, List.take_add, take_digitCount, List.append_assoc,
    ← List.cons_append]
  refine .number (List.cons_ne_nil _ _) ?_ (fraction_take _) (exponent_take _)
  intro d hd
  rcases List.mem_cons.mp hd with rfl | later
  · exact digit
  · exact digits_takeWhile cs d later

theorem spelled_numberAt (h : numberAt? c cs = some n) : Spelled .number (c :: cs.take n) := by
  rw [numberAt?] at h
  split at h
  · rename_i digit
    cases h
    exact spelled_number digit cs
  · split at h
    · rename_i point
      obtain rfl : c = '.' := by simpa using point
      rw [pointNumberRest?_eq] at h
      split at h
      · cases h
      · rename_i some
        cases h
        rw [List.take_add, take_digitCount]
        exact .pointed (takeWhile_ne_nil some) (digits_takeWhile cs) (exponent_take _)
    · cases h

/-! ## Quoted text -/

section Quoted

variable {quote : Char} {multiline : Bool}

/-- What is taken after an opening quote is the inside and the closing quote. -/
theorem inside_of_quotedRest (h : quotedRest? quote multiline cs = some n) :
    ∃ body, cs.take n = body ++ [quote] ∧ Inside quote multiline body := by
  fun_induction quotedRest? quote multiline cs generalizing n with
  | case1 => cases h
  | case2 => cases h
  | case3 c cs allowed ih =>
      obtain ⟨k, inner, rfl⟩ := Option.map_eq_some_iff.mp h
      obtain ⟨body, taken, inside⟩ := ih inner
      refine ⟨'\\' :: c :: body, ?_, .escaped (by simpa using allowed) inside⟩
      rw [List.take_succ_cons, List.take_succ_cons, taken]
      rfl
  | case4 => cases h
  | case5 c cs _ _ closes =>
      cases h
      obtain rfl : c = quote := by simpa using closes
      exact ⟨[], rfl, .nil⟩
  | case6 c cs alone escapes goesOn allowed ih =>
      obtain ⟨k, inner, rfl⟩ := Option.map_eq_some_iff.mp h
      obtain ⟨body, taken, inside⟩ := ih inner
      have bare : c ≠ quote := by simpa using goesOn
      have plain := not_escape alone escapes
      refine ⟨c :: body, ?_, .plain bare plain (by simpa using allowed) inside⟩
      rw [List.take_succ_cons, taken]
      rfl
  | case7 => cases h

/-- A text that is closed is found, up to its closing quote. -/
theorem quotedRest_of_inside (plain : quote ≠ '\\') (inside : Inside quote multiline body)
    (rest : List Char) :
    quotedRest? quote multiline (body ++ quote :: rest) = some (body.length + 1) := by
  induction inside with
  | nil =>
      rw [List.nil_append, quotedRest?_plain plain, if_pos (beq_self_eq_true quote)]
      rfl
  | @plain c cs bare unescaped allowed _ ih =>
      have goesOn : ¬ (c == quote) = true := by simpa using bare
      have permitted : (multiline || c != '\n') = true := by simpa using allowed
      rw [List.cons_append, quotedRest?_plain unescaped, if_neg goesOn, if_pos permitted, ih]
      rfl
  | @escaped c cs allowed _ ih =>
      have permitted : (multiline || c != '\n') = true := by simpa using allowed
      rw [List.cons_append, List.cons_append, quotedRest?, if_pos permitted, ih]
      rfl

end Quoted

/-! ## Pieces -/

theorem spelled_operator (h : operatorRest? c cs = some n) :
    Spelled .operator (c :: cs.take n) := by
  rw [operatorRest?] at h
  split at h
  · rename_i op found
    cases h
    have known := List.mem_of_find?_eq_some found
    have fits := List.find?_some found
    rw [List.isPrefixOf_iff_prefix] at fits
    have nonempty : op ≠ [] := by
      rintro rfl
      exact absurd known (by decide)
    obtain ⟨m, length⟩ := Nat.exists_eq_succ_of_ne_zero (mt List.length_eq_zero_iff.mp nonempty)
    have spelled : c :: cs.take (op.length - 1) = op := by
      rw [length, Nat.succ_sub_one, ← List.take_succ_cons, ← Nat.succ_eq_add_one, ← length]
      exact (List.prefix_iff_eq_take.mp fits).symm
    rw [spelled]
    exact .longOperator known
  · split at h
    · rename_i short
      cases h
      exact .shortOperator (by simpa using short)
    · cases h

theorem spelled_templateAt (h : templateAt? c cs = some n) :
    Spelled .template (c :: cs.take n) := by
  rw [templateAt?] at h
  split at h
  · rename_i quote
    obtain rfl : c = '\x60' := by simpa using quote
    obtain ⟨body, taken, inside⟩ := inside_of_quotedRest h
    rw [taken]
    exact .template inside
  · cases h

theorem spelled_textAt (h : textAt? c cs = some n) : Spelled .text (c :: cs.take n) := by
  rw [textAt?] at h
  split at h
  · rename_i quote
    obtain ⟨body, taken, inside⟩ := inside_of_quotedRest h
    rw [taken]
    exact .text (by simpa using quote) inside
  · cases h

theorem spelled_plainAt {kind : TokenKind} (h : plainAt c cs = (.token kind, n)) :
    Spelled kind (c :: cs.take n) := by
  rw [plainAt] at h
  split at h
  · rename_i start
    cases h
    refine .word start ?_
    intro d hd
    rw [← List.prefix_iff_eq_take.mp (List.takeWhile_prefix _)] at hd
    exact List.mem_takeWhile_imp hd
  · split at h
    · cases h
      exact spelled_operator ‹_›
    · split at h
      · rename_i mark
        cases h
        exact .mark (by simpa using mark)
      · split at h <;> cases h

/-- A token has the form of its kind. -/
theorem spelled_of_pieceAt {kind : TokenKind} (h : pieceAt c cs = (.token kind, n)) :
    Spelled kind (c :: cs.take n) := by
  rw [pieceAt_eq] at h
  split at h
  · cases h
  · cases h
    exact spelled_numberAt ‹_›
  · cases h
    exact spelled_templateAt ‹_›
  · cases h
    exact spelled_textAt ‹_›
  · exact spelled_plainAt h

/-- A block comment ends with its first closing mark. -/
theorem block_of_blockCommentRest (h : blockCommentRest? cs = some n) :
    ∃ body, cs.take n = body ++ ['*', '/'] ∧ ¬ ['*', '/'] <:+: body := by
  induction cs using blockCommentRest?.induct generalizing n with
  | case1 => cases h
  | case2 cs =>
      cases h
      exact ⟨[], rfl, by simp⟩
  | case3 c cs other ih =>
      rw [blockCommentRest?_cons other] at h
      obtain ⟨k, inner, rfl⟩ := Option.map_eq_some_iff.mp h
      obtain ⟨body, taken, open'⟩ := ih inner
      refine ⟨c :: body, by rw [List.take_succ_cons, taken]; rfl, ?_⟩
      rw [List.infix_cons_iff]
      rintro (here | later)
      · obtain ⟨star, slash⟩ := List.cons_prefix_cons.mp here
        cases body with
        | nil => exact absurd slash (by simp)
        | cons d ds =>
            obtain ⟨rfl, -⟩ := List.cons_prefix_cons.mp slash
            have start : (cs.take k).head? = some '/' := by rw [taken]; rfl
            cases cs with
            | nil => simp at start
            | cons e cs =>
                cases k with
                | zero => simp at start
                | succ k =>
                    rw [List.take_succ_cons, List.head?_cons, Option.some.injEq] at start
                    exact other cs star.symm (by rw [start])
      · exact open' later

/-- The characters of a class at the head of a text, and what is left. -/
theorem takeWhile_cut (p : Char → Bool) (cs : List Char) :
    cs.take (cs.takeWhile p).length = cs.takeWhile p ∧
      cs.drop (cs.takeWhile p).length = cs.dropWhile p := by
  have whole : cs.takeWhile p ++ cs.dropWhile p = cs := List.takeWhile_append_dropWhile
  refine ⟨(List.prefix_iff_eq_take.mp (List.takeWhile_prefix p)).symm, ?_⟩
  apply List.append_cancel_left
  rw [List.take_append_drop, (List.prefix_iff_eq_take.mp (List.takeWhile_prefix p)).symm, whole]

theorem head_dropWhile {p : Char → Bool} (cs : List Char) :
    ∀ c ∈ (cs.dropWhile p).head?, p c = false := by
  intro c hc
  have stops := List.head?_dropWhile_not p cs
  rw [Option.mem_def.mp hc] at stops
  simpa using stops

theorem comment_of_commentRest (h : commentRest? cs = some n) :
    Comment (cs.drop n) ('/' :: cs.take n) := by
  rw [commentRest?.eq_def] at h
  split at h
  · rename_i cs
    cases h
    obtain ⟨front, back⟩ := takeWhile_cut (· != '\n') cs
    rw [Nat.add_comm, List.take_succ_cons, List.drop_succ_cons, front, back]
    refine .line ?_ ?_
    · intro c hc
      simpa using List.mem_takeWhile_imp hc
    · intro c hc
      simpa using head_dropWhile cs c hc
  · rename_i cs
    obtain ⟨k, inner, rfl⟩ := Option.map_eq_some_iff.mp h
    obtain ⟨body, taken, unclosed⟩ := block_of_blockCommentRest inner
    rw [List.take_succ_cons, taken]
    exact .block unclosed
  · cases h

/-- What is skipped is a blank or a complete comment. -/
theorem gap_of_pieceAt (h : pieceAt c cs = (.gap, n)) :
    (n = 0 ∧ Text.isBlank c = true) ∨ Comment (cs.drop n) (c :: cs.take n) := by
  rw [pieceAt_eq] at h
  split at h
  · rename_i comment
    cases h
    rw [commentAt?] at comment
    split at comment
    · rename_i slash
      obtain rfl : c = '/' := by simpa using slash
      exact .inr (comment_of_commentRest comment)
    · cases comment
  · cases h
  · cases h
  · cases h
  · rw [plainAt] at h
    split at h
    · cases h
    · split at h
      · cases h
      · split at h
        · cases h
        · split at h
          · rename_i blank
            cases h
            exact .inl ⟨rfl, blank⟩
          · cases h

/-! ## Where nothing stands -/

/-- Whether a text is a blank, a complete comment or a token, with `after` behind it. -/
def MayStand (after text : List Char) : Prop :=
  (∃ c, Text.isBlank c = true ∧ text = [c]) ∨ Comment after text ∨ ∃ kind, Spelled kind text

theorem operatorRest_of_short (short : c ∈ shortOperators) (cs : List Char) :
    operatorRest? c cs ≠ none := by
  rw [operatorRest?]
  split
  · simp
  · rw [if_pos (by simpa using short)]
    simp

/-- All operators start with one. -/
theorem short_of_long (long : text ∈ longOperators) :
    ∃ c ∈ shortOperators, ∃ cs, text = c :: cs := by
  have all : ∀ op ∈ longOperators, ∃ c ∈ shortOperators, ∃ cs, op = c :: cs := by
    simp [longOperators, shortOperators]
  exact all text long

/-- None of the recognizers finds anything. -/
structure Nothing (c : Char) (cs : List Char) : Prop where
  number : numberAt? c cs = none
  template : templateAt? c cs = none
  text : textAt? c cs = none
  word : isWordStart c = false
  operator : operatorRest? c cs = none
  mark : c ∉ marks
  blank : Text.isBlank c = false

theorem nothing_of_illegal (h : pieceAt c cs = (.illegal, n)) : Nothing c cs := by
  rw [pieceAt_eq] at h
  split at h
  · cases h
  · cases h
  · cases h
  · cases h
  · rename_i number template text
    rw [plainAt] at h
    split at h
    · cases h
    · rename_i word
      split at h
      · cases h
      · rename_i operator
        split at h
        · cases h
        · rename_i mark
          split at h
          · cases h
          · rename_i blank
            exact ⟨number, template, text, by simpa using word, operator, by simpa using mark,
              by simpa using blank⟩

/-- Where nothing is found, nothing stands. -/
theorem unspelled_of_illegal (h : pieceAt c cs = (.illegal, n)) (eq : c :: cs = text ++ rest) :
    ¬ MayStand rest text := by
  have nothing := nothing_of_illegal h
  have slashless : c ≠ '/' := by
    rintro rfl
    exact operatorRest_of_short (by decide) cs nothing.operator
  have digitless : Text.isDigit c = false := by
    cases digit : Text.isDigit c with
    | false => rfl
    | true =>
        have none := nothing.number
        rw [numberAt?, if_pos digit] at none
        cases none
  have unclosed {quote : Char} {multiline : Bool} {body : List Char} (plain : quote ≠ '\\')
      (inside : Inside quote multiline body) (eq : c :: cs = quote :: (body ++ [quote]) ++ rest) :
      c = quote ∧ quotedRest? quote multiline cs ≠ none := by
    rw [List.cons_append, List.append_assoc] at eq
    obtain ⟨same, tail⟩ := List.cons.inj eq
    refine ⟨same, ?_⟩
    rw [tail]
    show quotedRest? quote multiline (body ++ quote :: rest) ≠ none
    rw [quotedRest_of_inside plain inside]
    simp
  rintro (⟨d, blank, rfl⟩ | comment | ⟨kind, spelled⟩)
  · obtain ⟨rfl, -⟩ := List.cons.inj eq
    exact absurd (blank.symm.trans nothing.blank) (by simp)
  · cases comment with
    | line => exact slashless (List.cons.inj eq).1
    | block => exact slashless (List.cons.inj eq).1
  · cases spelled with
    | @number ds fs es some digits =>
        cases ds with
        | nil => exact some rfl
        | cons d ds =>
            obtain ⟨rfl, -⟩ := List.cons.inj eq
            exact absurd ((digits c List.mem_cons_self).symm.trans digitless) (by simp)
    | pointed =>
        obtain ⟨rfl, -⟩ := List.cons.inj eq
        exact nothing.mark (by decide)
    | template inside =>
        obtain ⟨rfl, found⟩ := unclosed (by decide) inside eq
        exact found nothing.template
    | @text quote body two inside =>
        have plain : quote ≠ '\\' := by
          rcases two with rfl | rfl <;> decide
        obtain ⟨rfl, found⟩ := unclosed plain inside eq
        have none := nothing.text
        rw [textAt?, if_pos (by simpa using two)] at none
        exact found none
    | word start =>
        obtain ⟨rfl, -⟩ := List.cons.inj eq
        exact absurd (start.symm.trans nothing.word) (by simp)
    | longOperator long =>
        obtain ⟨d, short, ds, rfl⟩ := short_of_long long
        obtain ⟨rfl, -⟩ := List.cons.inj eq
        exact operatorRest_of_short short cs nothing.operator
    | shortOperator short =>
        obtain ⟨rfl, -⟩ := List.cons.inj eq
        exact operatorRest_of_short short cs nothing.operator
    | mark known =>
        obtain ⟨rfl, -⟩ := List.cons.inj eq
        exact nothing.mark known

/-! ## Places -/

/-- How many characters there are since the last line feed. -/
def sinceLineFeed (cs : List Char) : Nat := (cs.reverse.takeWhile (· != '\n')).length

theorem sinceLineFeed_concat (cs : List Char) (c : Char) :
    sinceLineFeed (cs ++ [c]) = if c = '\n' then 0 else sinceLineFeed cs + 1 := by
  rw [sinceLineFeed, List.reverse_append, List.reverse_singleton, List.singleton_append,
    List.takeWhile_cons]
  split
  · rename_i other
    rw [if_neg (by simpa using other)]
    rfl
  · rename_i feed
    rw [if_pos (by simpa using feed)]
    rfl

/-- A place is where its line and column say. -/
theorem past_first (linesBefore : Int) (cs : List Char) :
    (Place.first linesBefore).past cs =
      ⟨cs.length, linesBefore + 1 + cs.count '\n', 1 + sinceLineFeed cs⟩ := by
  induction cs using List.reverseRecOn with
  | nil => simp [Place.first, sinceLineFeed]
  | append_singleton cs c ih =>
      rw [Place.past_append, ih, Place.past_cons, Place.past_nil, Place.after,
        sinceLineFeed_concat, List.count_append, List.length_append]
      by_cases feed : c = '\n'
      · subst feed
        simp
        omega
      · simp [feed]
        omega

/-! ## Scans -/

/-- The text between two offsets. -/
def stretch (text : List Char) (lo hi : Nat) : List Char := (text.drop lo).take (hi - lo)

/-- A text in front of another one is cut into tokens of its kinds and gaps, and each token
is where it says. -/
structure Partition (after : List Char) (linesBefore : Int) (text : List Char)
    (ts : List Token) : Prop where
  inside : ∀ t ∈ ts, t.start < t.stop ∧ t.stop ≤ text.length
  ordered : ts.Pairwise fun t u => t.stop ≤ u.start
  spelled : ∀ t ∈ ts, t.text.toList = stretch text t.start t.stop ∧ Spelled t.kind t.text.toList
  gaps : ∀ front back, ts = front ++ back →
    Gap (text.drop ((back.head?.map Token.start).getD text.length) ++ after)
      (stretch text ((front.getLast?.map Token.stop).getD 0)
        ((back.head?.map Token.start).getD text.length))
  placed : ∀ t ∈ ts, t.line = linesBefore + 1 + (text.take t.start).count '\n' ∧
    t.column = 1 + sinceLineFeed (text.take t.start)

namespace Scanned

variable {p r : Place} {as es : List Char} {ts us : List Token} {t : Token} {linesBefore : Int}

/-- A scan comes to where each of its tokens starts, and goes on where it stops. -/
theorem through {q : Place} (h : Scanned p cs (ts ++ t :: us) q rest) :
    ∃ r c as es, Scanned p cs ts r (c :: (as ++ es)) ∧
      pieceAt c (as ++ es) = (.token t.kind, as.length) ∧ t = ofPiece t.kind r c as ∧
      Scanned (r.past (c :: as)) es us q rest := by
  obtain ⟨r, es, first, second⟩ := h.split
  obtain ⟨r', c, as, es', gaps, piece, eq, last⟩ := second.head
  have whole := first.append gaps
  rw [List.append_nil] at whole
  exact ⟨r', c, as, es', whole, piece, eq, last⟩

/-- A scan that finds no token goes over a gap. -/
theorem over_gap {q : Place} (h : Scanned p cs [] q rest) :
    ∃ between, cs = between ++ rest ∧ q = p.past between ∧ Gap rest between := by
  generalize none : ([] : List Token) = ts at h
  induction h with
  | done => exact ⟨[], rfl, rfl, .nil⟩
  | @gap p q c as cs ds ts piece rest ih =>
      obtain ⟨between, rfl, rfl, gap⟩ := ih none
      refine ⟨c :: (as ++ between), ?_, ?_, ?_⟩
      · rw [List.cons_append, List.append_assoc]
      · rw [← List.cons_append, Place.past_append]
      · rcases gap_of_pieceAt piece with ⟨nothing, blank⟩ | comment
        · obtain rfl := List.length_eq_zero_iff.mp nothing
          exact .blank blank gap
        · rw [List.drop_left, List.take_left] at comment
          exact .comment comment gap
  | token => cases none

/-- A scan that fails has come to a place where nothing is found. -/
theorem of_scan_error {e : SourceError} (h : Token.scan 0 p cs = .error e) :
    ∃ ts q c after n, Scanned p cs ts q (c :: after) ∧ pieceAt c after = (.illegal, n) ∧
      e = illegalAt q c := by
  induction hn : cs.length using Nat.strongRecOn generalizing p cs with
  | _ n ih =>
  subst hn
  cases cs with
  | nil => cases h
  | cons c cs =>
      rw [Token.scan] at h
      have cut {piece : Piece} {k : Nat} (here : pieceAt c cs = (piece, k)) :
          ∃ as bs, cs = as ++ bs ∧ as.length = k ∧ bs.length < (c :: cs).length := by
        have fits := pieceAt_le here
        refine ⟨cs.take k, cs.drop k, (List.take_append_drop ..).symm, ?_, ?_⟩
        · rw [List.length_take, Nat.min_eq_left fits]
        · rw [List.length_drop, List.length_cons]
          omega
      split at h
      · rename_i k piece
        obtain ⟨as, bs, rfl, rfl, less⟩ := cut piece
        rw [scan_past] at h
        obtain ⟨ts, q, d, after, n, scanned, illegal, same⟩ := ih _ less h rfl
        exact ⟨ts, q, d, after, n, .gap piece scanned, illegal, same⟩
      · rename_i k piece
        cases h
        exact ⟨[], p, c, cs, k, .done, piece, rfl⟩
      · rename_i kind k piece
        obtain ⟨as, bs, rfl, rfl, less⟩ := cut piece
        rw [scan_past] at h
        cases more : Token.scan 0 ((p.after c).past as) bs with
        | ok us =>
            rw [more] at h
            cases h
        | error e' =>
            rw [more] at h
            cases h
            obtain ⟨ts, q, d, after, n, scanned, illegal, same⟩ := ih _ less more rfl
            exact ⟨_, q, d, after, n, .token piece scanned, illegal, same⟩

/-- From behind some text, a scan goes over a gap to its first token, or to its end. -/
theorem gap_from {q : Place} {before : List Char} (h : Scanned p (text ++ after) ts q after)
    (offset : p.offset = before.length) :
    Gap ((before ++ text).drop ((ts.head?.map Token.start).getD (before ++ text).length) ++ after)
      (stretch (before ++ text) before.length
        ((ts.head?.map Token.start).getD (before ++ text).length)) := by
  obtain ⟨between, behind, rfl, gap, hi⟩ : ∃ between behind, text = between ++ behind ∧
      Gap (behind ++ after) between ∧ (ts.head?.map Token.start).getD (before ++ text).length =
        (before ++ between).length := by
    cases ts with
    | nil =>
        obtain ⟨between, eq, -, gap⟩ := h.over_gap
        obtain rfl := List.append_cancel_right eq
        exact ⟨text, [], (List.append_nil text).symm, gap, rfl⟩
    | cons t us =>
        have h : Scanned p (text ++ after) ([] ++ t :: us) q after := h
        obtain ⟨r, c, as, es, first, -, eq, later⟩ := h.through
        obtain ⟨between, split, place, gap⟩ := first.over_gap
        obtain ⟨used, rfl, -⟩ := later.used
        rw [← List.append_assoc, ← List.cons_append, ← List.append_assoc] at split
        refine ⟨between, c :: (as ++ used), List.append_cancel_right split, ?_, ?_⟩
        · rwa [List.cons_append, List.append_assoc]
        · rw [eq, place]
          show (p.past between).offset = _
          rw [Place.past_offset, offset, List.length_append]
  rw [hi, ← List.append_assoc, List.drop_left, stretch, List.append_assoc, List.drop_left,
    List.take_left']
  · exact gap
  · rw [List.length_append]
    omega

theorem ordered {q : Place} (h : Scanned p cs ts q rest) :
    ts.Pairwise fun t u => t.stop ≤ u.start := by
  induction h with
  | done => exact .nil
  | gap piece rest ih => exact ih
  | @token p q c as cs ds kind ts piece rest ih =>
      refine .cons ?_ ih
      intro u hu
      have := (rest.bounds.2 u hu).1
      rw [Place.past_offset, List.length_cons] at this
      simp only [ofPiece, make]
      omega

/-- Where a token stands, with what is before it and what is behind it. -/
theorem stands {q : Place} (h : Scanned (.first linesBefore) (text ++ after)
    (ts ++ t :: us) q after) :
    ∃ before c as behind, text = before ++ (c :: as ++ behind) ∧
      t = ofPiece t.kind ⟨before.length, linesBefore + 1 + before.count '\n',
        1 + sinceLineFeed before⟩ c as ∧
      Spelled t.kind (c :: as) ∧
      Scanned ((Place.first linesBefore).past (before ++ c :: as)) (behind ++ after) us q after := by
  obtain ⟨r, c, as, es, first, piece, same, later⟩ := h.through
  obtain ⟨before, split, rfl⟩ := first.used
  obtain ⟨behind, rfl, -⟩ := later.used
  have spelled := spelled_of_pieceAt piece
  rw [List.take_left] at spelled
  rw [past_first] at same
  refine ⟨before, c, as, behind, ?_, same, spelled, ?_⟩
  · apply List.append_cancel_right
    rw [split]
    simp
  · rwa [Place.past_append]

/-- What a scan has gone over is cut into its tokens and gaps. -/
theorem partition {q : Place} (h : Scanned (.first linesBefore) (text ++ after) ts q after) :
    Partition after linesBefore text ts := by
  refine ⟨?_, h.ordered, ?_, ?_, ?_⟩
  · intro t ht
    obtain ⟨front, back, rfl⟩ := List.append_of_mem ht
    obtain ⟨before, c, as, behind, rfl, same, -, -⟩ := h.stands
    rw [same]
    simp only [ofPiece, make, List.length_append, List.length_cons]
    omega
  · intro t ht
    obtain ⟨front, back, rfl⟩ := List.append_of_mem ht
    obtain ⟨before, c, as, behind, rfl, same, spelled, -⟩ := h.stands
    have own : t.text.toList = c :: as := by
      rw [same]
      simp [ofPiece, make]
    rw [own]
    refine ⟨?_, spelled⟩
    rw [same]
    simp only [ofPiece, make, stretch]
    rw [List.drop_left, List.take_left']
    rw [List.length_cons]
    omega
  · intro front back eq
    subst eq
    -- The gap begins at the start of the text, or behind the last token before it.
    rcases List.eq_nil_or_concat front with rfl | ⟨front, t, rfl⟩
    · have start : (Place.first linesBefore).offset = ([] : List Char).length := rfl
      exact h.gap_from start
    · rw [List.concat_eq_append, List.append_assoc, List.singleton_append] at h
      obtain ⟨before, c, as, behind, rfl, same, -, later⟩ := h.stands
      have stop : ((front.concat t).getLast?.map Token.stop).getD 0 =
          (before ++ c :: as).length := by
        rw [List.concat_eq_append, List.getLast?_concat, Option.map_some, Option.getD_some, same]
        simp only [ofPiece, make, List.length_append, List.length_cons]
        omega
      rw [stop, ← List.append_assoc]
      exact later.gap_from (Place.past_offset ..|>.trans (Nat.zero_add _))
  · intro t ht
    obtain ⟨front, back, rfl⟩ := List.append_of_mem ht
    obtain ⟨before, c, as, behind, rfl, same, -, -⟩ := h.stands
    rw [same]
    simp only [ofPiece, make, List.take_left]
    trivial

end Scanned

/-- Tokens partition the text.  A text that is scanned is cut into tokens and gaps; and one
that is not is cut so up to a place at which neither white space nor a comment nor a token
may stand, and that is the place the error reports. -/
theorem tokens_partition (source : String) (linesBefore : Int) :
    match tokenize source linesBefore with
    | .ok ts => Partition [] linesBefore source.toList ts
    | .error e =>
      ∃ before c after ts, source.toList = before ++ c :: after ∧
        Partition (c :: after) linesBefore before ts ∧
        (∀ text rest, c :: after = text ++ rest → ¬ MayStand rest text) ∧
        e.line = linesBefore + 1 + before.count '\n' ∧
        e.column = some (1 + sinceLineFeed before) := by
  rw [tokenize, ofChars]
  split
  · rename_i ts scans
    obtain ⟨q, scanned⟩ := Scanned.of_scan scans
    rw [← List.append_nil source.toList] at scanned
    exact scanned.partition
  · rename_i e fails
    obtain ⟨ts, q, c, after, n, scanned, illegal, rfl⟩ := Scanned.of_scan_error fails
    obtain ⟨before, split, rfl⟩ := scanned.used
    rw [split] at scanned
    refine ⟨before, c, after, ts, split, scanned.partition, ?_, ?_, ?_⟩
    · intro text rest eq
      exact unspelled_of_illegal illegal eq
    · rw [illegalAt, past_first]
    · rw [illegalAt, past_first]

/-- Two comments, a division and a number that starts with its point. -/
example : (tokenize "a/**// .5//c" 0).toOption.map
    (·.map fun t => (t.kind, t.text, t.start, t.column)) =
      some [(.word, "a", 0, 1), (.operator, "/", 5, 6), (.number, ".5", 7, 8)] := by
  decide +kernel

end Runloop.Token
