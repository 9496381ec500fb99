/-
# Integers through text

An integer is turned into the text of its digits, with a minus before them if it is
negative (`toList_toString_int`), unless the digits are too many (`toText_int`).  The text
stands for the integer again, whatever blanks are put around it: trimming takes just these
away (`trim_between`), what is left is read as an integer (`readInt_toString`), and so no
double is ever asked for.
-/
import Runloop.Proofs.Printing
import Runloop.Value.Operator

namespace Runloop

/-! ## The digits of an integer -/

/-- An integer has at most as many digits as it is smaller than a power of ten. -/
theorem lt_tenPow_iff_digits {n k : Nat} (some : 0 < k) :
    n < tenPow k ↔ (toString n).length ≤ k := by
  rw [← String.length_toList, Lexeme.toList_toString, Nat.length_toDigits_le_iff (by decide) some]
  rfl

/-- An integer is written with a minus if it is negative, and the digits of its size. -/
theorem toList_toString_int (n : Int) :
    (toString n).toList = (if n < 0 then ['-'] else []) ++ (toString n.natAbs).toList := by
  cases n with
  | ofNat n => rfl
  | negSucc n =>
      rw [if_pos (Int.negSucc_lt_zero n)]
      exact String.toList_append

namespace Text

/-- Text of nothing but blanks. -/
def Blank (s : String) : Prop := ∀ c ∈ s.toList, isBlank c = true

/-! ## Trimming -/

/-- Blanks in front are trimmed away, and nothing behind them. -/
theorem trimLeft_append {front cs : List Char} (blank : ∀ c ∈ front, isBlank c = true)
    (start : ∀ c ∈ cs.head?, isBlank c = false) : trimLeft (front ++ cs) = cs := by
  rw [trimLeft, List.dropWhile_append_of_pos blank]
  cases cs with
  | nil => rfl
  | cons c cs => exact dropWhile_of_head (start c rfl)

/-- Just the blanks around a text are trimmed away. -/
theorem trim_between {front cs back : List Char} (before : ∀ c ∈ front, isBlank c = true)
    (after : ∀ c ∈ back, isBlank c = true) (some : cs ≠ [])
    (inside : ∀ c ∈ cs, isBlank c = false) : trim (front ++ cs ++ back) = cs := by
  have start : ∀ c ∈ (cs ++ back).head?, isBlank c = false := by
    rw [List.head?_append_of_ne_nil cs some]
    exact fun c hc => inside c (List.mem_of_mem_head? hc)
  have stop : ∀ c ∈ cs.reverse.head?, isBlank c = false := fun c hc =>
    inside c (List.mem_reverse.mp (List.mem_of_mem_head? hc))
  have turned : ∀ c ∈ back.reverse, isBlank c = true := fun c hc =>
    after c (List.mem_reverse.mp hc)
  rw [trim, List.append_assoc, trimLeft_append before start, List.reverse_append,
    trimLeft_append turned stop, List.reverse_reverse]

/-! ## Reading what was written -/

/-- The characters of an integer: digits, behind a minus if it is negative. -/
theorem toString_int_cases (n : Int) : ∃ c cs, (∀ d ∈ c :: cs, isDigit d = true) ∧
    (toString n.natAbs).toList = c :: cs ∧
    (toString n).toList = (if n < 0 then ['-'] else []) ++ c :: cs := by
  obtain ⟨c, cs, text, digits⟩ := Lexeme.toString_cases n.natAbs
  exact ⟨c, cs, digits, text, text ▸ toList_toString_int n⟩

theorem not_isBlank_toString (n : Int) : ∀ c ∈ (toString n).toList, isBlank c = false := by
  obtain ⟨c, cs, digits, -, text⟩ := toString_int_cases n
  rw [text]
  refine List.forall_mem_append.mpr ⟨?_, fun d hd => not_isBlank_of_isDigit (digits d hd)⟩
  split
  · exact List.forall_mem_singleton.mpr (by decide)
  · exact List.forall_mem_nil _

/-- The sign of an integer is taken apart from its digits. -/
theorem takeSign_toString (n : Int) :
    takeSign ((toString n).toList.dropWhile isNumeralBlank) =
      (decide (n < 0), (toString n.natAbs).toList) := by
  obtain ⟨c, cs, digits, size, text⟩ := toString_int_cases n
  have first := digits c List.mem_cons_self
  rw [text, size]
  by_cases negative : n < 0
  · rw [if_pos negative, decide_eq_true negative]
    rfl
  · rw [if_neg negative, decide_eq_false negative, List.nil_append,
      dropWhile_of_head (isNumeralBlank_of_isDigit first)]
    exact takeSign_of_ne (ne_of_isDigit first (by decide)) (ne_of_isDigit first (by decide))

/-- An integer is read from its text, if its digits are not too many. -/
theorem readInt_toString {n : Int} (few : (toString n.natAbs).length ≤ digitLimit) :
    readInt (toString n) = .ok n := by
  obtain ⟨c, cs, digits, size, -⟩ := toString_int_cases n
  have short : ¬ digitLimit < (c :: cs).length := by
    rw [← size, String.length_toList]
    omega
  have sign := takeSign_toString n
  have number := Lexeme.ofDigits_toString n.natAbs
  rw [size] at sign number
  rw [readInt_of_sign _ (decide (n < 0)) c cs sign digits, if_neg short, number]
  congr 1
  by_cases negative : n < 0
  · rw [decide_eq_true negative, if_pos rfl]
    omega
  · rw [decide_eq_false negative, if_neg Bool.false_ne_true]
    omega

end Text

/-- An integer is written unless it has too many digits. -/
theorem Number.writeInt_eq (n : Int) : writeInt n =
    if (toString n.natAbs).length ≤ Text.digitLimit then .ok (toString n)
    else .error .tooManyDigits := by
  have written : Text.writeInt? n =
      if (toString n.natAbs).length ≤ Text.digitLimit then some (toString n) else none :=
    if_congr (lt_tenPow_iff_digits (by decide)) rfl rfl
  unfold writeInt
  rw [written]
  by_cases few : (toString n.natAbs).length ≤ Text.digitLimit
  · rw [if_pos few, if_pos few]
  · rw [if_neg few, if_neg few]

namespace Value

/-! ## Conversion -/

/-- An integer is turned into its text, unless it has too many digits. -/
theorem toText_int (heap : HeapView) (n : Int) :
    (number (.int n)).toText heap =
      if (toString n.natAbs).length ≤ Text.digitLimit then .ok (toString n)
      else .error .tooManyDigits :=
  Number.writeInt_eq n

/-- The text of an integer stands for the integer, whatever blanks are around it. -/
theorem toNumber_toString {n : Int} (few : (toString n.natAbs).length ≤ Text.digitLimit)
    {front back : String} (before : Text.Blank front) (after : Text.Blank back) :
    (text (front ++ toString n ++ back)).toNumber = .int n := by
  have some : (toString n).toList ≠ [] := by
    obtain ⟨c, cs, -, -, written⟩ := Text.toString_int_cases n
    rw [written]
    simp
  have trimmed : Text.trimmed (front ++ toString n ++ back) = toString n := by
    rw [Text.trimmed, String.toList_append, String.toList_append,
      Text.trim_between before after some (Text.not_isBlank_toString n), String.ofList_toList]
  have filled : (toString n).isEmpty = false := by
    rw [String.isEmpty_eq_false_iff]
    rintro empty
    exact some (congrArg String.toList empty)
  rw [toNumber, numberOfText, trimmed, filled, if_neg Bool.false_ne_true,
    Text.readInt_toString few]

/-- Integers are equal as numbers if they are the same. -/
theorem eq_int (m n : Int) : (Number.int m).eq (.int n) = decide (m = n) := by
  rw [Bool.eq_iff_iff, decide_eq_true_iff, Number.eq, Number.compare?, beq_iff_eq,
    Option.some_inj]
  exact Std.compare_eq_iff_eq

/-- **Integers survive their text.**  An integer that does not have too many digits has a
text, and the text stands for this integer again, also with blanks around it; the text is
loosely equal to this integer and to no other. -/
theorem integers_survive_text (n : Int) (few : (toString n.natAbs).length ≤ 4300)
    (heap : HeapView) :
    ∃ s, (number (.int n)).toText heap = .ok s ∧
      (∀ front back, Text.Blank front → Text.Blank back →
        (text (front ++ s ++ back)).toNumber = .int n) ∧
      applyBinary heap .looseEq (number (.int n)) (text s) = .ok (bool true) ∧
      ∀ m : Int, applyBinary heap .looseEq (number (.int m)) (text s) = .ok (bool true) ↔ m = n := by
  have bare : (text (toString n)).toNumber = .int n := by
    have none : Text.Blank "" := List.forall_mem_nil _
    simpa using toNumber_toString few none none
  have compared (m : Int) : applyBinary heap .looseEq (number (.int m)) (text (toString n)) =
      .ok (bool (decide (m = n))) := by
    rw [applyBinary, looseEqual, bare, eq_int]
  refine ⟨toString n, (toText_int heap n).trans (if_pos few), fun front back before after =>
    toNumber_toString few before after, ?_, fun m => ?_⟩
  · rw [compared, decide_eq_true rfl]
  · rw [compared]
    simp

/-- No double is this integer, and the nearest one is its neighbour. -/
theorem integers_survive_text_past_doubles :
    (toString (-9007199254740993 : Int).natAbs).length ≤ 4300 ∧
      (text "\t -9007199254740993\n").toNumber = .int (-9007199254740993) ∧
      applyBinary .empty .looseEq (number (.int (-9007199254740993)))
        (text "-9007199254740993") = .ok (bool true) ∧
      applyBinary .empty .looseEq (number (.int (-9007199254740992)))
        (text "-9007199254740993") ≠ .ok (bool true) := by
  have few : (toString (-9007199254740993 : Int).natAbs).length ≤ 4300 := by decide
  obtain ⟨s, written, back, self, only⟩ := integers_survive_text _ few .empty
  obtain rfl : "-9007199254740993" = s :=
    Except.ok.inj (((toText_int .empty _).trans (if_pos few)).symm.trans written)
  refine ⟨few, back "\t " "\n" ?_ ?_, self, fun other => ?_⟩
  · exact List.all_eq_true.mp (by decide)
  · exact List.all_eq_true.mp (by decide)
  · exact absurd ((only _).mp other) (by decide)

end Value

end Runloop
