/-
# What number tokens say

The text of a number token is a numeral: digits with at most one point, and an
exponent (`Token.Lexed`).  With a point or an exponent it says a double, which is
infinite at worst.  Without, it says an integer, unless it has too many digits to be
read (`numberOf_cases`).  Whatever integer is read can be written again.
-/
import Mathlib.Data.List.Induction
import Mathlib.Data.List.TakeWhile
import Runloop.Grammar.Expression
import Runloop.Proofs.Pieces

namespace Runloop

namespace Text

variable {c : Char} {cs : List Char} {text : String}

/-! ## Digits -/

theorem digitValue?_cases {d : Nat} (h : digitValue? c = some d) :
    (48 ≤ c.toNat ∧ c.toNat ≤ 57 ∧ d = c.toNat - 48) ∨
      128 ≤ c.toNat ∧ ∃ z ∈ decimalZeros, z ≤ c.toNat ∧ c.toNat < z + 10 ∧ d = c.toNat - z := by
  unfold digitValue? at h
  dsimp only at h
  split at h
  · split at h
    · rename_i range
      cases h
      exact .inl ⟨range.1, range.2, rfl⟩
    · cases h
  · obtain ⟨z, found, rfl⟩ := Option.map_eq_some_iff.mp h
    have inside := List.find?_some found
    simp only [Bool.and_eq_true, decide_eq_true_eq] at inside
    exact .inr ⟨by omega, z, List.mem_of_find?_eq_some found, inside.1, inside.2, rfl⟩

theorem digitValue?_lt {d : Nat} (h : digitValue? c = some d) : d < 10 := by
  rcases digitValue?_cases h with ⟨_, _, rfl⟩ | ⟨-, z, -, _, _, rfl⟩ <;> omega

/-- No digit is one of the characters that stand around digits. -/
theorem not_isBlank_of_isDigit (h : isDigit c = true) : isBlank c = false := by
  obtain ⟨d, value⟩ := Option.isSome_iff_exists.mp h
  have apart : ∀ z ∈ decimalZeros, 128 ≤ z → ∀ k < 10,
      (let n := z + k; (9 ≤ n && n ≤ 13) || (28 ≤ n && n ≤ 32) || n == 0x85 || n == 0xa0 ||
        n == 0x1680 || (0x2000 ≤ n && n ≤ 0x200a) || n == 0x2028 || n == 0x2029 || n == 0x202f ||
        n == 0x205f || n == 0x3000) = false := by
    decide +kernel
  rcases digitValue?_cases value with ⟨low, high, -⟩ | ⟨high, z, hz, low, least, -⟩
  · unfold isBlank
    simp only [Bool.or_eq_false_iff, Bool.and_eq_false_iff, decide_eq_false_iff_not,
      beq_eq_false_iff_ne]
    omega
  · have far : 128 ≤ z := by
      have : ∀ z ∈ decimalZeros, z = 48 ∨ 128 ≤ z := by decide +kernel
      rcases this z hz with rfl | far
      · omega
      · exact far
    have := apart z hz far (c.toNat - z) (by omega)
    rwa [Nat.add_sub_cancel' low] at this

theorem ne_of_isDigit (h : isDigit c = true) {d : Char} (other : isDigit d = false) : c ≠ d := by
  rintro rfl
  exact absurd (h.symm.trans other) (by simp)

theorem digitValues_length (h : ∀ c ∈ cs, isDigit c = true) :
    (digitValues cs).length = cs.length := by
  induction cs with
  | nil => rfl
  | cons c cs ih =>
      obtain ⟨d, value⟩ := Option.isSome_iff_exists.mp (h c List.mem_cons_self)
      rw [digitValues, List.filterMap_cons_some value, List.length_cons, List.length_cons]
      exact congrArg (· + 1) (ih fun d hd => h d (List.mem_cons_of_mem c hd))

theorem ofDigits_append (ds : List Nat) (d : Nat) :
    ofDigits (ds ++ [d]) = 10 * ofDigits ds + d := by
  unfold ofDigits
  rw [List.foldl_append]
  rfl

theorem tenPow_succ (n : Nat) : tenPow (n + 1) = tenPow n * 10 := rfl

theorem tenPow_le {m n : Nat} (h : m ≤ n) : tenPow m ≤ tenPow n :=
  Nat.pow_le_pow_right (by decide) h

/-- A number has no more digits than were written. -/
theorem ofDigits_lt {ds : List Nat} (h : ∀ d ∈ ds, d < 10) :
    ofDigits ds < tenPow ds.length := by
  induction ds using List.reverseRecOn with
  | nil => decide
  | append_singleton ds d ih =>
      have last := h d (by simp)
      have front := ih fun e he => h e (List.mem_append_left _ he)
      rw [ofDigits_append, List.length_append, List.length_singleton, tenPow_succ]
      omega

/-! ## Integers -/

theorem underscoresSeparate_of_none (h : ∀ c ∈ cs, c ≠ '_') : underscoresSeparate cs = true := by
  fun_induction underscoresSeparate cs with
  | case1 => rfl
  | case2 => exact absurd rfl (h '_' List.mem_cons_self)
  | case3 c d cs ih => exact absurd rfl (h '_' (by simp))
  | case4 => exact absurd rfl (h '_' (by simp))
  | case5 c cs _ _ _ ih => exact ih fun d hd => h d (List.mem_cons_of_mem c hd)

/-- What is read can be written. -/
theorem writeInt?_of_readInt {n : Int} (h : readInt text = .ok n) :
    ∃ s, writeInt? n = some s := by
  have small {cs : List Char} (few : ¬ digitLimit < (digitValues cs).length) :
      ofDigits (digitValues cs) < tenPow digitLimit := by
    have values : ∀ d ∈ digitValues cs, d < 10 := by
      intro d hd
      obtain ⟨c, -, value⟩ := List.mem_filterMap.mp hd
      exact digitValue?_lt value
    exact Nat.lt_of_lt_of_le (ofDigits_lt values) (tenPow_le (Nat.not_lt.mp few))
  have bounded : n.natAbs < tenPow digitLimit := by
    unfold readInt at h
    dsimp only at h
    split at h
    · cases h
    · split at h
      · cases h
      · rename_i few
        split at h
        · cases h
          have := small few
          split
          · rwa [Int.natAbs_neg, Int.natAbs_natCast]
          · rwa [Int.natAbs_natCast]
        · cases h
  exact ⟨toString n, if_pos bounded⟩

theorem takeWhile_of_all {p : Char → Bool} (h : ∀ c ∈ cs, p c = true) :
    cs.takeWhile p = cs ∧ cs.dropWhile p = [] := by
  rw [List.takeWhile_eq_self_iff, List.dropWhile_eq_nil_iff]
  exact ⟨h, h⟩

/-- Nothing is dropped where the first character stays. -/
theorem dropWhile_of_head {p : Char → Bool} (h : p c = false) :
    (c :: cs).dropWhile p = c :: cs :=
  List.dropWhile_cons_of_neg (by simp [h])

theorem takeSign_of_ne (plus : c ≠ '+') (minus : c ≠ '-') :
    takeSign (c :: cs) = (false, c :: cs) := by
  unfold takeSign
  split
  · rename_i same
    exact absurd (List.cons.inj same).1 plus
  · rename_i same
    exact absurd (List.cons.inj same).1 minus
  · rfl

/-- Digits behind blanks and a sign are read as an integer, if they are not too many. -/
theorem readInt_of_sign (text : String) (negative : Bool) (c : Char) (cs : List Char)
    (sign : takeSign (text.toList.dropWhile isNumeralBlank) = (negative, c :: cs))
    (h : ∀ d ∈ c :: cs, isDigit d = true) :
    readInt text = if digitLimit < (c :: cs).length then .error (.tooLong (c :: cs).length)
      else .ok (if negative then -(ofDigits (digitValues (c :: cs)) : Int)
        else ofDigits (digitValues (c :: cs))) := by
  obtain ⟨all, none⟩ := takeWhile_of_all (p := fun c => isDigit c || c == '_')
    fun d hd => by simp [h d hd]
  have length := digitValues_length h
  have some : (digitValues (c :: cs)).isEmpty = false := by
    cases values : digitValues (c :: cs) with
    | nil =>
        rw [values] at length
        cases length
    | cons d ds => rfl
  have separate : underscoresSeparate (c :: cs) = true :=
    underscoresSeparate_of_none fun d hd => ne_of_isDigit (h d hd) (by decide)
  unfold readInt
  rw [sign]
  dsimp only
  rw [all, none, length, separate, some]
  rfl

theorem isNumeralBlank_of_isDigit (h : isDigit c = true) : isNumeralBlank c = false := by
  rw [isNumeralBlank, not_isBlank_of_isDigit h, Bool.false_and]

/-- Text of digits is read as an integer, if they are not too many. -/
theorem readInt_of_digits (text : String) (c : Char) (cs : List Char)
    (eq : text.toList = c :: cs) (h : ∀ d ∈ c :: cs, isDigit d = true) :
    readInt text = if digitLimit < (c :: cs).length then .error (.tooLong (c :: cs).length)
      else .ok (ofDigits (digitValues (c :: cs))) := by
  have first := h c List.mem_cons_self
  refine readInt_of_sign text false c cs ?_ h
  rw [eq, dropWhile_of_head (isNumeralBlank_of_isDigit first)]
  exact takeSign_of_ne (ne_of_isDigit first (by decide)) (ne_of_isDigit first (by decide))

/-! ## Doubles -/

theorem all_of_digitCount (h : Token.digitCount cs = cs.length) : ∀ c ∈ cs, isDigit c = true := by
  have whole : cs.takeWhile isDigit = cs := (List.takeWhile_sublist isDigit).eq_of_length h
  exact List.takeWhile_eq_self_iff.mp whole

/-- An exponent that ends the text is read. -/
theorem readExponent?_of_length (h : Token.exponentLength cs = cs.length) :
    ∃ n, readExponent? cs = some n := by
  have legal {ds : List Char} (some : ds ≠ []) (all : Token.digitCount ds = ds.length) :
      ¬ (ds.isEmpty || !ds.all isDigit) = true := by
    have every : ds.all isDigit = true := List.all_eq_true.mpr (all_of_digitCount all)
    simpa [every] using some
  cases cs with
  | nil => exact ⟨0, rfl⟩
  | cons c cs =>
      rw [Token.exponentLength_cons, List.length_cons] at h
      unfold readExponent?
      split at h
      · rename_i mark
        dsimp only
        rw [if_pos mark]
        cases cs with
        | nil => cases h
        | cons d ds =>
            -- behind the mark there may be a sign; in either case some digits have to follow
            rw [Token.markedLength_cons, List.length_cons] at h
            split at h
            · rename_i sign
              split at h
              · cases h
              · rename_i some
                have signed : takeSign (d :: ds) = (d == '-', ds) := by
                  have two : d = '+' ∨ d = '-' := by simpa using sign
                  rcases two with rfl | rfl <;> rfl
                rw [signed]
                dsimp only
                have digits : ds ≠ [] := by
                  rintro rfl
                  exact some rfl
                rw [if_neg (legal digits (by omega))]
                exact ⟨_, rfl⟩
            · rename_i unsigned
              split at h
              · cases h
              · rename_i all
                have signless : takeSign (d :: ds) = (false, d :: ds) := by
                  refine takeSign_of_ne ?_ ?_
                  · rintro rfl
                    exact unsigned rfl
                  · rintro rfl
                    exact unsigned rfl
                rw [signless]
                dsimp only
                rw [if_neg (legal (List.cons_ne_nil d ds) (by rw [List.length_cons]; omega))]
                exact ⟨_, rfl⟩
      · cases h

/-- A decimal is never not a number. -/
theorem toDouble_isNan (negative : Bool) (d : Decimal) :
    (d.toDouble negative).isNan = false := by
  unfold Decimal.toDouble
  split
  · rfl
  · dsimp only
    split
    · rfl
    · split
      · rfl
      · rfl

theorem dropWhile_isDigit (cs : List Char) :
    cs.dropWhile isDigit = cs.drop (Token.digitCount cs) := by
  calc cs.dropWhile isDigit
      = (cs.takeWhile isDigit ++ cs.dropWhile isDigit).drop (cs.takeWhile isDigit).length :=
        List.drop_left.symm
    _ = _ := by rw [List.takeWhile_append_dropWhile, Token.digitCount]

/-- The digits behind a point, and what is left. -/
def fractionOf : List Char → List Char × List Char
  | '.' :: more => (more.takeWhile isDigit, more.dropWhile isDigit)
  | more => ([], more)

theorem readUnsigned?_eq (cs : List Char) :
    readUnsigned? cs =
      if (cs.takeWhile isDigit).isEmpty && (fractionOf (cs.dropWhile isDigit)).1.isEmpty then none
      else (readExponent? (fractionOf (cs.dropWhile isDigit)).2).map fun e =>
        { digits := ofDigits (digitValues
            (cs.takeWhile isDigit ++ (fractionOf (cs.dropWhile isDigit)).1))
          scale := e - (fractionOf (cs.dropWhile isDigit)).1.length } := rfl

theorem fractionOf_of_ne (other : c ≠ '.') (cs : List Char) :
    fractionOf (c :: cs) = ([], c :: cs) := by
  unfold fractionOf
  split
  · rename_i same
    exact absurd (List.cons.inj same).1 other
  · rfl

theorem fractionOf_rest (cs : List Char) :
    (fractionOf cs).2 = cs.drop (Token.fractionLength cs) := by
  cases cs with
  | nil => rfl
  | cons c cs =>
      by_cases point : c = '.'
      · subst point
        show cs.dropWhile isDigit = ('.' :: cs).drop (1 + Token.digitCount cs)
        rw [dropWhile_isDigit, Nat.add_comm, List.drop_succ_cons]
      · rw [fractionOf_of_ne point, Token.fractionLength_of_ne point]
        rfl

/-- Digits are read, whatever fraction and exponent there is. -/
theorem readUnsigned?_of_exponent (some : (cs.takeWhile isDigit).isEmpty = false ∨
      (fractionOf (cs.dropWhile isDigit)).1.isEmpty = false) {n : Int}
    (exponent : readExponent? (fractionOf (cs.dropWhile isDigit)).2 = .some n) :
    ∃ d, readUnsigned? cs = .some d := by
  rw [readUnsigned?_eq, exponent]
  rcases some with whole | fraction
  · rw [whole]
    exact ⟨_, rfl⟩
  · rw [fraction, Bool.and_false]
    exact ⟨_, rfl⟩

theorem isEmpty_of_digitCount (h : Token.digitCount cs ≠ 0) :
    (cs.takeWhile isDigit).isEmpty = false := by
  cases digits : cs.takeWhile isDigit with
  | nil => exact absurd (congrArg List.length digits) h
  | cons d ds => rfl

theorem readUnsigned?_of_point (h : Token.pointNumberRest? cs = .some cs.length) :
    ∃ d, readUnsigned? ('.' :: cs) = .some d := by
  rw [Token.pointNumberRest?_eq] at h
  split at h
  · cases h
  · rename_i some
    have length := Option.some.inj h
    have ends : Token.exponentLength (cs.drop (Token.digitCount cs)) =
        (cs.drop (Token.digitCount cs)).length := by
      rw [List.length_drop]
      omega
    obtain ⟨n, exponent⟩ := readExponent?_of_length ends
    have point : ('.' :: cs).dropWhile isDigit = '.' :: cs :=
      List.dropWhile_cons_of_neg (by decide)
    have fraction : fractionOf ('.' :: cs) = (cs.takeWhile isDigit, cs.dropWhile isDigit) := rfl
    refine readUnsigned?_of_exponent (n := n) (.inr ?_) ?_
    · rw [point, fraction]
      exact isEmpty_of_digitCount some
    · rw [point, fraction, dropWhile_isDigit]
      exact exponent

/-- Every numeral of the language is read as an unsigned decimal. -/
theorem readUnsigned?_of_number (h : Token.numberAt? c cs = .some cs.length) :
    ∃ d, readUnsigned? (c :: cs) = .some d := by
  unfold Token.numberAt? at h
  split at h
  · rename_i digit
    have count : Token.digitCount (c :: cs) = Token.digitCount cs + 1 := by
      rw [Token.digitCount, List.takeWhile_cons_of_pos digit]
      rfl
    have length := Option.some.inj h
    rw [Token.numberRest_eq] at length
    have ends : Token.exponentLength (cs.drop (Token.digitCount cs +
        Token.fractionLength (cs.drop (Token.digitCount cs)))) = (cs.drop (Token.digitCount cs +
        Token.fractionLength (cs.drop (Token.digitCount cs)))).length := by
      rw [List.length_drop]
      omega
    obtain ⟨n, exponent⟩ := readExponent?_of_length ends
    have rest : (c :: cs).dropWhile isDigit = cs.drop (Token.digitCount cs) := by
      rw [dropWhile_isDigit, count, List.drop_succ_cons]
    refine readUnsigned?_of_exponent (n := n) (.inl (isEmpty_of_digitCount ?_)) ?_
    · omega
    · rw [rest, fractionOf_rest, List.drop_drop]
      exact exponent
  · split at h
    · rename_i point
      obtain rfl : c = '.' := by simpa using point
      exact readUnsigned?_of_point h
    · cases h

/-- The characters of numerals. -/
def isNumeralChar (c : Char) : Bool := isDigit c || ['.', 'e', 'E', '+', '-'].contains c

theorem isNumeralChar_of_mem {d : Char} (h : d ∈ ['.', 'e', 'E', '+', '-']) :
    isNumeralChar d = true := by
  rw [isNumeralChar, List.contains_iff_mem.mpr h, Bool.or_true]

theorem isNumeralChar_of_isDigit (h : isDigit c = true) : isNumeralChar c = true := by
  simp [isNumeralChar, h]

theorem isNumeralChar_of_takeWhile {ds : List Char} (h : c ∈ ds.takeWhile isDigit) :
    isNumeralChar c = true := by
  exact isNumeralChar_of_isDigit (List.mem_takeWhile_imp h)

theorem exponent_chars (cs : List Char) (h : Token.exponentLength cs = cs.length) :
    ∀ d ∈ cs, isNumeralChar d = true := by
  cases cs with
  | nil => simp
  | cons c cs =>
      rw [Token.exponentLength_cons, List.length_cons] at h
      split at h
      · rename_i mark
        have first : isNumeralChar c = true := by
          have two : c = 'e' ∨ c = 'E' := by simpa using mark
          rcases two with rfl | rfl <;> exact isNumeralChar_of_mem (by decide)
        cases cs with
        | nil => cases h
        | cons d ds =>
            rw [Token.markedLength_cons, List.length_cons] at h
            have rest : ∀ x ∈ d :: ds, isNumeralChar x = true := by
              split at h
              · rename_i sign
                have two : d = '+' ∨ d = '-' := by simpa using sign
                split at h
                · cases h
                · intro x hx
                  rcases List.mem_cons.mp hx with rfl | later
                  · rcases two with rfl | rfl <;> exact isNumeralChar_of_mem (by decide)
                  · exact isNumeralChar_of_isDigit (all_of_digitCount (by omega) x later)
              · split at h
                · cases h
                · intro x hx
                  refine isNumeralChar_of_isDigit (all_of_digitCount ?_ x hx)
                  rw [List.length_cons]
                  omega
            exact List.forall_mem_cons.mpr ⟨first, rest⟩
      · cases h

theorem fraction_chars (cs : List Char) :
    ∀ d ∈ cs.take (Token.fractionLength cs), isNumeralChar d = true := by
  cases cs with
  | nil => simp
  | cons c cs =>
      by_cases point : c = '.'
      · subst point
        intro d hd
        have shape : ('.' :: cs).take (Token.fractionLength ('.' :: cs)) =
            '.' :: cs.take (cs.takeWhile isDigit).length := by
          show ('.' :: cs).take (1 + Token.digitCount cs) = _
          rw [Nat.add_comm, List.take_succ_cons]
          rfl
        rw [shape] at hd
        rcases List.mem_cons.mp hd with rfl | later
        · exact isNumeralChar_of_mem (by decide)
        · rw [← List.prefix_iff_eq_take.mp (List.takeWhile_prefix isDigit)] at later
          exact isNumeralChar_of_takeWhile later
      · rw [Token.fractionLength_of_ne point]
        simp

theorem number_chars (h : Token.numberAt? c cs = some cs.length) :
    ∀ d ∈ c :: cs, isNumeralChar d = true := by
  unfold Token.numberAt? at h
  split at h
  · rename_i digit
    have length := Option.some.inj h
    rw [Token.numberRest_eq] at length
    have exponent := exponent_chars (cs.drop (Token.digitCount cs +
      Token.fractionLength (cs.drop (Token.digitCount cs)))) (by
        rw [List.length_drop]
        omega)
    have fraction := fraction_chars (cs.drop (Token.digitCount cs))
    have parts : cs = cs.takeWhile isDigit ++ ((cs.drop (Token.digitCount cs)).take
        (Token.fractionLength (cs.drop (Token.digitCount cs))) ++ cs.drop (Token.digitCount cs +
          Token.fractionLength (cs.drop (Token.digitCount cs)))) := by
      rw [← List.drop_drop, List.take_append_drop, ← dropWhile_isDigit,
        List.takeWhile_append_dropWhile]
    intro d hd
    rcases List.mem_cons.mp hd with rfl | later
    · exact isNumeralChar_of_isDigit digit
    · rw [parts] at later
      rcases List.mem_append.mp later with whole | later
      · exact isNumeralChar_of_takeWhile whole
      · rcases List.mem_append.mp later with part | part
        · exact fraction d part
        · exact exponent d part
  · split at h
    · rename_i point
      obtain rfl : c = '.' := by simpa using point
      rw [Token.pointNumberRest?_eq] at h
      split at h
      · cases h
      · have length := Option.some.inj h
        have exponent := exponent_chars (cs.drop (Token.digitCount cs)) (by
          rw [List.length_drop]
          omega)
        intro d hd
        rcases List.mem_cons.mp hd with rfl | later
        · exact isNumeralChar_of_mem (by decide)
        · rw [← List.takeWhile_append_dropWhile (p := isDigit) (l := cs), dropWhile_isDigit]
            at later
          rcases List.mem_append.mp later with part | part
          · exact isNumeralChar_of_takeWhile part
          · exact exponent d part
    · cases h

theorem not_isNumeralBlank (h : isNumeralChar c = true) : isNumeralBlank c = false := by
  unfold isNumeralChar at h
  rcases (Bool.or_eq_true ..).mp h with digit | mark
  · simp [isNumeralBlank, not_isBlank_of_isDigit digit]
  · have among := List.contains_iff_mem.mp mark
    simp only [List.mem_cons, List.not_mem_nil, or_false] at among
    rcases among with rfl | rfl | rfl | rfl | rfl <;> rfl

theorem ne_underscore (h : isNumeralChar c = true) : c ≠ '_' := by
  rintro rfl
  exact absurd h (by decide)

theorem dropWhile_of_none {p : Char → Bool} (h : ∀ c ∈ cs, p c = false) : cs.dropWhile p = cs := by
  cases cs with
  | nil => rfl
  | cons c cs => exact dropWhile_of_head (h c List.mem_cons_self)

theorem toLower_of_isDigit (h : isDigit c = true) : c.toLower = c := by
  obtain ⟨d, value⟩ := Option.isSome_iff_exists.mp h
  have range := digitValue?_cases value
  unfold Char.toLower
  split
  · rename_i upper
    have code : c.toNat = c.val.toNat := rfl
    have low : 65 ≤ c.val.toNat := upper.1
    have high : c.val.toNat ≤ 90 := upper.2
    omega
  · rfl

/-- Every number token is read as a double. -/
theorem readDouble?_of_number (text : String) (eq : text.toList = c :: cs)
    (h : Token.numberAt? c cs = some cs.length) :
    ∃ x, readDouble? text = some x ∧ x.isNan = false := by
  have chars := number_chars h
  obtain ⟨d, unsigned⟩ := readUnsigned?_of_number h
  have start : isDigit c = true ∨ c = '.' := by
    unfold Token.numberAt? at h
    split at h
    · exact .inl ‹_›
    · split at h
      · exact .inr (by simpa using ‹(c == '.') = true›)
      · cases h
  have blank : ∀ d ∈ c :: cs, isNumeralBlank d = false :=
    fun d hd => not_isNumeralBlank (chars d hd)
  have left : (c :: cs).dropWhile isNumeralBlank = c :: cs := dropWhile_of_none blank
  have right : ((c :: cs).reverse.dropWhile isNumeralBlank).reverse = c :: cs := by
    rw [dropWhile_of_none fun d hd => blank d (List.mem_reverse.mp hd), List.reverse_reverse]
  have separate : underscoresSeparate (c :: cs) = true :=
    underscoresSeparate_of_none fun d hd => ne_underscore (chars d hd)
  have kept : (c :: cs).filter (· != '_') = c :: cs :=
    List.filter_eq_self.mpr fun d hd => by simpa using ne_underscore (chars d hd)
  have unsignedHead : takeSign (c :: cs) = (false, c :: cs) := by
    rcases start with digit | rfl
    · exact takeSign_of_ne (ne_of_isDigit digit (by decide)) (ne_of_isDigit digit (by decide))
    · rfl
  have lower : c.toLower ≠ 'i' ∧ c.toLower ≠ 'n' := by
    rcases start with digit | rfl
    · rw [toLower_of_isDigit digit]
      exact ⟨ne_of_isDigit digit (by decide), ne_of_isDigit digit (by decide)⟩
    · decide
  have noWord {s : String} (first : s.toList.head? = some 'i' ∨ s.toList.head? = some 'n') :
      (String.ofList ((c :: cs).map Char.toLower) == s) = false := by
    refine beq_false_of_ne fun same => ?_
    rw [← same, String.toList_ofList] at first
    rcases first with i | n
    · exact lower.1 (Option.some.inj i)
    · exact lower.2 (Option.some.inj n)
  have inf := noWord (s := "inf") (.inl rfl)
  have infinity := noWord (s := "infinity") (.inl rfl)
  have nan := noWord (s := "nan") (.inr rfl)
  refine ⟨d.toDouble false, ?_, toDouble_isNan false d⟩
  unfold readDouble?
  simp only [eq, left, right, separate, kept, unsignedHead, inf, infinity, nan, unsigned,
    Bool.not_true, Bool.or_false, Bool.false_eq_true, if_false, Option.map_some]

end Text

/-! ## Number tokens -/

namespace Token

variable {t : Token}

/-- A number token is an integer of too many digits. -/
def Overlong (t : Token) : Prop :=
  t.kind = .number ∧ (∀ c ∈ t.text.toList, Text.isDigit c = true) ∧
    Text.digitLimit < t.text.toList.length

/-- A number token says a double that is not to be had. -/
def Endless (t : Token) : Prop :=
  t.kind = .number ∧ ∃ x, Text.readDouble? t.text = some x ∧ x.isInfinite = true

end Token

namespace Grammar

variable {t : Token}

theorem digits_of_number {c : Char} {cs : List Char} (h : Token.numberAt? c cs = some cs.length)
    (whole : (c :: cs).any (fun c => c == '.' || c == 'e' || c == 'E') = false) :
    ∀ d ∈ c :: cs, Text.isDigit d = true := by
  have none (d : Char) (hd : d ∈ c :: cs) : d ≠ '.' ∧ d ≠ 'e' ∧ d ≠ 'E' := by
    have := List.any_eq_false.mp whole d hd
    simpa [and_assoc] using this
  unfold Token.numberAt? at h
  split at h
  · rename_i digit
    have length := Option.some.inj h
    have fraction : Token.fractionLength (cs.drop (Token.digitCount cs)) = 0 := by
      cases rest : cs.drop (Token.digitCount cs) with
      | nil => rfl
      | cons d ds =>
          refine Token.fractionLength_of_ne (none d (List.mem_cons_of_mem c ?_)).1 ds
          exact List.mem_of_mem_drop (rest ▸ List.mem_cons_self)
    have exponent : Token.exponentLength (cs.drop (Token.digitCount cs)) = 0 := by
      cases rest : cs.drop (Token.digitCount cs) with
      | nil => rfl
      | cons d ds =>
          have other := (none d (List.mem_cons_of_mem c
            (List.mem_of_mem_drop (rest ▸ List.mem_cons_self)))).2
          rw [Token.exponentLength_cons, if_neg (by simpa using other)]
    rw [Token.numberRest_eq, fraction, Nat.add_zero, exponent, Nat.add_zero] at length
    exact List.forall_mem_cons.mpr ⟨digit, Text.all_of_digitCount length⟩
  · split at h
    · rename_i point
      exact absurd (by simpa using point) (none c List.mem_cons_self).1
    · cases h

/-- A number token says an integer, unless it has too many digits, or a double. -/
theorem numberOf_cases (lexed : t.Lexed) (kind : t.kind = .number) :
    (∃ n, numberOf t.text = .ok (.int n)) ∨
    (t.Overlong ∧
      numberOf t.text = .error (.fatal (.number (.numeral (.tooLong t.text.toList.length))))) ∨
    ∃ x, numberOf t.text = .ok (.float x) ∧ x.isNan = false ∧ Text.readDouble? t.text = some x := by
  obtain ⟨c, cs, eq, piece⟩ := lexed
  rw [kind] at piece
  have number : Token.numberAt? c cs = some cs.length := Token.pieceAt_token piece
  unfold numberOf
  rw [eq]
  cases whole : (c :: cs).any (fun c => c == '.' || c == 'e' || c == 'E') with
  | true =>
      obtain ⟨x, read, isNumber⟩ := Text.readDouble?_of_number t.text eq number
      refine .inr (.inr ⟨x, ?_, isNumber, read⟩)
      rw [if_pos rfl, read]
      rfl
  | false =>
      have digits := digits_of_number number whole
      have read := Text.readInt_of_digits t.text c cs eq digits
      rw [if_neg (by simp), read]
      split
      · rename_i n ok
        exact .inl ⟨n, rfl⟩
      · rename_i fault failed
        split at failed
        · rename_i many
          cases failed
          exact .inr (.inl ⟨⟨kind, by rwa [eq], by rwa [eq]⟩, rfl⟩)
        · cases failed

theorem literalText_float (x : Double) : (Number.float x).literalText = .ok x.toText := rfl

theorem literalText_int {n : Int} {s : String} (written : Text.writeInt? n = some s) :
    (Number.int n).literalText = .ok s := by
  show Number.writeInt n = .ok s
  unfold Number.writeInt
  rw [written]

theorem literalText_of_readInt {text : String} {n : Int} (read : Text.readInt text = .ok n) :
    ∃ s, (Number.int n).literalText = .ok s :=
  (Text.writeInt?_of_readInt read).imp fun _ written => literalText_int written

/-- A number that a text says is written as the literal that it is. -/
theorem literalText_of_numberOf {text : String} {n : Number} (h : numberOf text = .ok n) :
    ∃ s, n.literalText = .ok s := by
  unfold numberOf at h
  split at h
  · obtain rfl := Except.ok.inj h
    exact ⟨_, literalText_float _⟩
  · split at h
    · rename_i n read
      obtain rfl := Except.ok.inj h
      exact literalText_of_readInt read
    · cases h

end Grammar

end Runloop
