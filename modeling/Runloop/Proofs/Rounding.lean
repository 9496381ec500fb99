/-
# Rounding keeps order

Sums and quotients of doubles are rounded, so the laws of exact arithmetic do
not hold of them.  What does hold is that rounding never turns an order around
(`Magnitude.placeOf_mono`) and leaves alone what needs no rounding
(`Magnitude.placeOf_unitsAt`).  Hence adding a wait to a time is monotone in
both, and a time is never later than itself with a wait added: the laws that
the order of timers rests on (`Double.not_lt_add_wait`, `Double.not_lt_add_add`).
-/
import Runloop.Number

namespace Runloop

/-! ## Rounding quotients -/

theorem div_le_roundHalfEven (num den : Nat) : num / den ≤ roundHalfEven num den := by
  unfold roundHalfEven
  dsimp only
  split
  · exact Nat.le_refl _
  · split <;> omega

theorem roundHalfEven_le (num den : Nat) : roundHalfEven num den ≤ num / den + 1 := by
  unfold roundHalfEven
  dsimp only
  split
  · omega
  · split <;> omega

theorem roundHalfEven_mono {num num' : Nat} (den : Nat) (h : num ≤ num') :
    roundHalfEven num den ≤ roundHalfEven num' den := by
  rcases Nat.lt_or_eq_of_le (Nat.div_le_div_right (c := den) h) with less | same
  · have low := roundHalfEven_le num den
    have high := div_le_roundHalfEven num' den
    omega
  · -- with one quotient the larger number has the larger remainder
    have remainders : num % den ≤ num' % den := by
      have := Nat.div_add_mod num den
      have := Nat.div_add_mod num' den
      rw [same] at *
      omega
    unfold roundHalfEven
    dsimp only
    rw [same]
    split <;> split <;> (try split) <;> (try split) <;> omega

theorem roundHalfEven_mul {den : Nat} (n : Nat) (pos : 0 < den) :
    roundHalfEven (n * den) den = n := by
  unfold roundHalfEven
  simp [Nat.mul_div_cancel _ pos, pos]

theorem twoPow_pos (n : Nat) : 0 < twoPow n := Nat.pow_pos (by decide)

theorem twoPow_add (m n : Nat) : twoPow (m + n) = twoPow m * twoPow n := Nat.pow_add 2 m n

theorem twoPow_succ (n : Nat) : twoPow (n + 1) = 2 * twoPow n := Nat.pow_succ'

theorem twoPow_mono {m n : Nat} (h : m ≤ n) : twoPow m ≤ twoPow n :=
  Nat.pow_le_pow_right (by decide) h

namespace Magnitude

/-- Below a power of two the quotient is rounded to no more than the full number
of places. -/
theorem roundHalfEven_le_of_shift {num den shift : Nat}
    (h : Nat.log2 (num / den) ≤ 52 + shift) :
    roundHalfEven num (den * twoPow shift) ≤ twoPow 53 := by
  have below : num / den < twoPow 53 * twoPow shift := by
    rw [← twoPow_add]
    exact Nat.lt_of_lt_of_le Nat.lt_log2_self (twoPow_mono (by omega))
  have quotient : num / (den * twoPow shift) < twoPow 53 := by
    rw [← Nat.div_div_eq_div_mul]
    exact Nat.div_lt_of_lt_mul (by rwa [Nat.mul_comm])
  exact Nat.le_trans (roundHalfEven_le ..) quotient

/-- From a power of two on the quotient is rounded to half the number of places at
least. -/
theorem le_roundHalfEven_of_shift {num den shift : Nat} (some : num / den ≠ 0)
    (h : 52 + shift ≤ Nat.log2 (num / den)) :
    twoPow 52 ≤ roundHalfEven num (den * twoPow shift) := by
  have above : twoPow 52 * twoPow shift ≤ num / den := by
    rw [← twoPow_add]
    exact (Nat.le_log2 some).mp h
  refine Nat.le_trans ?_ (div_le_roundHalfEven ..)
  rw [← Nat.div_div_eq_div_mul]
  exact (Nat.le_div_iff_mul_le (twoPow_pos shift)).mpr above

theorem placeOf_mono {num num' : Nat} (den : Nat) (h : num ≤ num') :
    placeOf num den ≤ placeOf num' den := by
  have quotients : num / den ≤ num' / den := Nat.div_le_div_right h
  have shifts : Nat.log2 (num / den) - 52 ≤ Nat.log2 (num' / den) - 52 := by
    rcases Nat.eq_zero_or_pos (num / den) with none | some
    · simp [none]
    · have below := Nat.log2_self_le (Nat.ne_of_gt some)
      have := (Nat.le_log2 (by omega)).mpr (Nat.le_trans below quotients)
      omega
  unfold placeOf
  dsimp only
  generalize hk : Nat.log2 (num / den) - 52 = k at *
  generalize hk' : Nat.log2 (num' / den) - 52 = k' at *
  have places : roundHalfEven num (den * twoPow k) + k * twoPow 52 ≤
      roundHalfEven num' (den * twoPow k') + k' * twoPow 52 := by
    rcases Nat.lt_or_eq_of_le shifts with less | rfl
    · have low := @roundHalfEven_le_of_shift num den k (by omega)
      have large : num' / den ≠ 0 := by
        intro none
        rw [none] at hk'
        simp at hk'
        omega
      have high := @le_roundHalfEven_of_shift num' den k' large (by omega)
      have full : twoPow 53 = 2 * twoPow 52 := twoPow_succ 52
      have next := Nat.mul_le_mul_right (twoPow 52) (Nat.succ_le_of_lt less)
      rw [Nat.succ_mul] at next
      omega
    · exact Nat.add_le_add_right (roundHalfEven_mono _ h) _
  exact Nat.le_min.mpr ⟨Nat.le_trans (Nat.min_le_left ..) places, Nat.min_le_right ..⟩

/-- The places of numbers that have the full number of binary digits. -/
theorem log2_of_full {m : Nat} (k : Nat) (rest : m < twoPow 52) :
    Nat.log2 ((twoPow 52 + m) * twoPow k) = 52 + k := by
  have full : twoPow 53 = 2 * twoPow 52 := twoPow_succ 52
  have pos : (twoPow 52 + m) * twoPow k ≠ 0 := by
    have := twoPow_pos 52
    exact Nat.ne_of_gt (Nat.mul_pos (by omega) (twoPow_pos k))
  have low : twoPow (52 + k) ≤ (twoPow 52 + m) * twoPow k := by
    rw [twoPow_add 52 k]
    exact Nat.mul_le_mul_right _ (Nat.le_add_right _ _)
  have high : (twoPow 52 + m) * twoPow k < twoPow (52 + k + 1) := by
    rw [show 52 + k + 1 = 53 + k by omega, twoPow_add 53 k]
    exact Nat.mul_lt_mul_of_pos_right (by omega) (twoPow_pos k)
  exact (Nat.log2_eq_iff pos).mpr ⟨low, high⟩

/-- What is the value at a place needs no rounding. -/
theorem placeOf_unitsAt {place : Nat} (h : place ≤ top) : placeOf (unitsAt place) 1 = place := by
  unfold unitsAt
  split
  · rename_i small
    have shift : Nat.log2 (place / 1) - 52 = 0 := by
      rw [Nat.div_one]
      rcases Nat.eq_zero_or_pos place with rfl | some
      · decide
      · have := (Nat.log2_lt (Nat.ne_of_gt some)).mpr small
        omega
    have whole := roundHalfEven_mul place Nat.one_pos
    rw [Nat.mul_one] at whole
    unfold placeOf
    dsimp only
    rw [shift, Nat.zero_mul, Nat.add_zero, show 1 * twoPow 0 = 1 from rfl, whole]
    exact Nat.min_eq_left h
  · rename_i large
    have parts := Nat.div_add_mod place (twoPow 52)
    have rest := Nat.mod_lt place (twoPow_pos 52)
    -- the place of a number is its exponent and then its fraction
    generalize place / twoPow 52 = e at *
    generalize place % twoPow 52 = m at *
    cases e with
    | zero => omega
    | succ k =>
        have sum : twoPow 52 + m + k * twoPow 52 = place := by
          rw [← parts, Nat.mul_succ, Nat.mul_comm]
          omega
        rw [Nat.add_sub_cancel]
        unfold placeOf
        dsimp only
        rw [Nat.div_one, log2_of_full k rest, Nat.add_sub_cancel_left, Nat.one_mul,
          roundHalfEven_mul _ (twoPow_pos k), sum]
        exact Nat.min_eq_left h

/-- The value at a place of a row, after the first one. -/
theorem unitsAt_of_row {m : Nat} (k : Nat) (rest : m < twoPow 52) :
    unitsAt ((k + 1) * twoPow 52 + m) = (twoPow 52 + m) * twoPow k := by
  have row : ((k + 1) * twoPow 52 + m) / twoPow 52 = k + 1 := by
    rw [Nat.mul_comm, Nat.mul_add_div (twoPow_pos 52), Nat.div_eq_of_lt rest, Nat.add_zero]
  have place : ((k + 1) * twoPow 52 + m) % twoPow 52 = m := by
    rw [Nat.mul_comm, Nat.mul_add_mod, Nat.mod_eq_of_lt rest]
  have large : ¬ (k + 1) * twoPow 52 + m < twoPow 52 := by
    rw [Nat.succ_mul]
    omega
  unfold unitsAt
  rw [if_neg large, row, place, Nat.add_sub_cancel]

theorem unitsAt_succ (place : Nat) : unitsAt place ≤ unitsAt (place + 1) := by
  have parts := Nat.div_add_mod place (twoPow 52)
  have rest := Nat.mod_lt place (twoPow_pos 52)
  generalize place / twoPow 52 = e at *
  generalize place % twoPow 52 = m at *
  cases e with
  | zero =>
      rw [Nat.mul_zero, Nat.zero_add] at parts
      subst parts
      have here : unitsAt m = m := if_pos rest
      rcases Nat.lt_or_ge (m + 1) (twoPow 52) with inside | last
      · rw [here, show unitsAt (m + 1) = m + 1 from if_pos inside]
        exact Nat.le_succ m
      · have next : m + 1 = (0 + 1) * twoPow 52 + 0 := by omega
        rw [here, next, unitsAt_of_row 0 (twoPow_pos 52)]
        exact Nat.le_trans (Nat.le_of_lt rest) (Nat.le_mul_of_pos_right _ (twoPow_pos 0))
  | succ k =>
      rw [Nat.mul_comm] at parts
      rcases Nat.lt_or_ge (m + 1) (twoPow 52) with inside | last
      · rw [← parts, Nat.add_assoc, unitsAt_of_row k rest, unitsAt_of_row k inside]
        exact Nat.mul_le_mul_right _ (by omega)
      · -- the first place of the next row
        have next : (k + 1) * twoPow 52 + m + 1 = (k + 1 + 1) * twoPow 52 + 0 := by
          rw [Nat.succ_mul (k + 1)]
          omega
        rw [← parts, next, unitsAt_of_row k rest, unitsAt_of_row (k + 1) (twoPow_pos 52),
          twoPow_succ k, ← Nat.mul_assoc]
        exact Nat.mul_le_mul_right _ (by omega)

@[simp] theorem place_ofUnits_zero (den : Nat) : (ofUnits 0 den).place = 0 := by
  simp [ofUnits, placeOf, roundHalfEven]

theorem ofUnits_units (m : Magnitude) : ofUnits m.units 1 = m := by
  obtain ⟨place, h⟩ := m
  simp only [ofUnits, units, placeOf_unitsAt h]

theorem unitsAt_mono {place place' : Nat} (h : place ≤ place') :
    unitsAt place ≤ unitsAt place' := by
  induction h with
  | refl => exact Nat.le_refl _
  | step _ ih => exact Nat.le_trans ih (unitsAt_succ _)

end Magnitude

/-! ## The order of doubles -/

namespace Double

variable {x y w w' due : Double}

theorem lt_iff : x.lt y = true ↔ x.isNan = false ∧ y.isNan = false ∧ x.rank < y.rank := by
  unfold lt compare?
  cases x.isNan <;> cases y.isNan <;> simp [Int.compare_eq_lt]

theorem le_iff : x.le y = true ↔ x.isNan = false ∧ y.isNan = false ∧ x.rank ≤ y.rank := by
  unfold le compare?
  cases x.isNan <;> cases y.isNan <;> simp [Int.compare_eq_gt]

theorem rank_ofUnits (s : Bool) (num : Int) (den : Nat) :
    (ofUnits s num den).rank =
      if num < 0 then -((Magnitude.ofUnits num.natAbs den).place : Int)
      else (Magnitude.ofUnits num.natAbs den).place := by
  unfold ofUnits
  split
  · rename_i zero
    subst zero
    rw [if_neg (by decide), show (0 : Int).natAbs = 0 from rfl, Magnitude.place_ofUnits_zero]
    cases s <;> rfl
  · split
    · rename_i negative
      rw [decide_eq_true negative]
      rfl
    · rename_i positive
      rw [decide_eq_false positive]
      rfl

theorem rank_ofUnits_mono {num num' : Int} (s s' : Bool) (den : Nat) (h : num ≤ num') :
    (ofUnits s num den).rank ≤ (ofUnits s' num' den).rank := by
  have place {n m : Nat} (h : n ≤ m) :
      (Magnitude.ofUnits n den).place ≤ (Magnitude.ofUnits m den).place :=
    Magnitude.placeOf_mono den h
  rw [rank_ofUnits, rank_ofUnits]
  split
  · split
    · have := @place num'.natAbs num.natAbs (by omega)
      omega
    · omega
  · have := @place num.natAbs num'.natAbs (by omega)
    split <;> omega

theorem units_mono (hx : x.isNan = false) (hy : y.isNan = false) (h : x.rank ≤ y.rank) :
    x.units ≤ y.units := by
  have mono {m n : Magnitude} (h : m.place ≤ n.place) : m.units ≤ n.units :=
    Magnitude.unitsAt_mono h
  have none {m : Magnitude} (h : m.place = 0) : m.units = 0 := by
    rw [Magnitude.units, h]
    rfl
  cases x with
  | nan => cases hx
  | signed s m =>
      cases y with
      | nan => cases hy
      | signed t n =>
          cases s <;> cases t <;> simp only [rank, units] at h ⊢
          · exact Int.ofNat_le.mpr (mono (by omega))
          · rw [none (m := m) (by omega), none (m := n) (by omega)]
            decide
          · omega
          · have := mono (m := n) (n := m) (by omega)
            omega

/-- What is a double needs no rounding. -/
theorem rank_ofUnits_units (hx : x.isNan = false) (s : Bool) :
    (ofUnits s x.units 1).rank = x.rank := by
  cases x with
  | nan => cases hx
  | signed t m =>
      rw [rank_ofUnits]
      cases t
      · rw [units, if_neg (by omega), Int.natAbs_natCast, m.ofUnits_units]
        rfl
      · rw [units, Int.natAbs_neg, Int.natAbs_natCast, m.ofUnits_units]
        split
        · rfl
        · rename_i none
          have place : m.place = 0 := by
            rw [← m.ofUnits_units, show m.units = 0 by omega, Magnitude.place_ofUnits_zero]
          rw [rank, place]
          rfl

theorem rank_le_top (x : Double) : -(Magnitude.top : Int) ≤ x.rank ∧ x.rank ≤ Magnitude.top := by
  cases x with
  | nan =>
      have : (0 : Int) ≤ Magnitude.top := Int.natCast_nonneg _
      exact ⟨Int.neg_nonpos_of_nonneg this, this⟩
  | signed s m =>
      have := m.le_top
      cases s <;> simp only [rank] <;> omega

/-! ## Waits -/

/-- A wait: neither negative nor infinite. -/
def IsWait (w : Double) : Prop := ∃ m : Magnitude, w = .signed false m ∧ m.isInfinite = false

/-- An infinite time stays what it is, and a finite one is added to. -/
theorem add_wait (hx : x.isNan = false) (hw : w.IsWait) :
    x.isInfinite = true ∧ x.add w = x ∨
      x.isInfinite = false ∧ ∃ s, x.add w = ofUnits s (x.units + w.units) 1 := by
  obtain ⟨m, rfl, finite⟩ := hw
  cases x with
  | nan => cases hx
  | signed s n =>
      by_cases infinite : n.isInfinite = true
      · exact .inl ⟨infinite, by simp [add, infinite, finite]⟩
      · exact .inr ⟨by simpa [isInfinite] using infinite, s && false,
          by simp [add, infinite, finite]⟩

theorem isNan_ofUnits (s : Bool) (num : Int) (den : Nat) : (ofUnits s num den).isNan = false := by
  unfold ofUnits
  split <;> rfl

theorem isNan_add_wait (hx : x.isNan = false) (hw : w.IsWait) : (x.add w).isNan = false := by
  rcases add_wait hx hw with ⟨-, same⟩ | ⟨-, s, sum⟩
  · rw [same, hx]
  · rw [sum, isNan_ofUnits]

theorem isNan_of_add (h : (x.add w).isNan = false) : x.isNan = false := by
  cases x with
  | nan => cases h
  | signed => rfl

theorem IsWait.units_nonneg (hw : w.IsWait) : 0 ≤ w.units := by
  obtain ⟨m, rfl, -⟩ := hw
  exact Int.natCast_nonneg _

theorem IsWait.isNan (hw : w.IsWait) : w.isNan = false := by
  obtain ⟨m, rfl, -⟩ := hw
  rfl

/-- A time is not later than itself with a wait added. -/
theorem rank_le_add_wait (hx : x.isNan = false) (hw : w.IsWait) : x.rank ≤ (x.add w).rank := by
  rcases add_wait hx hw with ⟨-, same⟩ | ⟨-, s, sum⟩
  · exact Int.le_of_eq (by rw [same])
  · rw [sum, ← rank_ofUnits_units hx s]
    exact rank_ofUnits_mono _ _ _ (by have := hw.units_nonneg; omega)

theorem isInfinite_iff (hx : x.isNan = false) :
    x.isInfinite = true ↔ x.rank = Magnitude.top ∨ x.rank = -(Magnitude.top : Int) := by
  cases x with
  | nan => cases hx
  | signed s m =>
      have place : (signed s m).isInfinite = true ↔ m.place = Magnitude.top := beq_iff_eq
      have pos : 0 < Magnitude.top := by decide
      rw [place]
      cases s <;> simp only [rank] <;> omega

theorem add_wait_mono (hx : x.isNan = false) (hy : y.isNan = false) (hw : w.IsWait)
    (h : x.rank ≤ y.rank) : (x.add w).rank ≤ (y.add w).rank := by
  have top := rank_le_top (y.add w)
  have bottom := rank_le_top (x.add w)
  have later := rank_le_add_wait hy hw
  rcases add_wait hx hw with ⟨-, same⟩ | ⟨finite, s, sum⟩
  · rw [same]
    exact Int.le_trans h later
  · rcases add_wait hy hw with ⟨infinite, same⟩ | ⟨-, s', sum'⟩
    · rw [same] at top ⊢
      rcases (isInfinite_iff hy).mp infinite with last | first
      · omega
      · -- nothing comes before the first of all times
        have here : x.rank = -(Magnitude.top : Int) := by
          have := rank_le_top x
          omega
        rw [(isInfinite_iff hx).mpr (.inr here)] at finite
        cases finite
    · rw [sum, sum']
      have := units_mono hx hy h
      exact rank_ofUnits_mono _ _ _ (by omega)

theorem add_mono_wait (hx : x.isNan = false) (hw : w.IsWait) (hw' : w'.IsWait)
    (h : w.rank ≤ w'.rank) : (x.add w).rank ≤ (x.add w').rank := by
  rcases add_wait hx hw with ⟨infinite, same⟩ | ⟨finite, s, sum⟩
  · rcases add_wait hx hw' with ⟨-, same'⟩ | ⟨finite, -⟩
    · exact Int.le_of_eq (by rw [same, same'])
    · rw [infinite] at finite
      cases finite
  · rcases add_wait hx hw' with ⟨infinite, -⟩ | ⟨-, s', sum'⟩
    · rw [infinite] at finite
      cases finite
    · rw [sum, sum']
      have := units_mono hw.isNan hw'.isNan h
      exact rank_ofUnits_mono _ _ _ (by omega)

/-- A longer wait does not end earlier. -/
theorem not_lt_add_wait (hw : w.IsWait) (hw' : w'.IsWait) (h : w.rank ≤ w'.rank) :
    ¬ (x.add w').lt (x.add w) = true := by
  intro before
  obtain ⟨-, number, less⟩ := lt_iff.mp before
  have := add_mono_wait (isNan_of_add number) hw hw' h
  omega

/-- A wait that begins later does not end earlier. -/
theorem not_lt_add_add {d : Double} (hd : d.IsWait) (hw : w.IsWait)
    (h : ¬ (x.add w).lt due = true) : ¬ ((x.add d).add w).lt due = true := by
  intro before
  obtain ⟨number, dues, less⟩ := lt_iff.mp before
  have later := isNan_of_add number
  have hx := isNan_of_add later
  refine h (lt_iff.mpr ⟨isNan_add_wait hx hw, dues, ?_⟩)
  exact Int.lt_of_le_of_lt (add_wait_mono hx later hw (rank_le_add_wait hx hd)) less

theorem eq_zero_of_place {m : Magnitude} (h : m.place = 0) : signed false m = zero := by
  obtain ⟨_, _⟩ := m
  cases h
  rfl

theorem clampNonneg_signed (m : Magnitude) : (signed false m).clampNonneg = signed false m := by
  unfold clampNonneg
  split
  · rfl
  · rename_i none
    refine (eq_zero_of_place (Nat.eq_zero_of_not_pos fun some => none ?_)).symm
    exact lt_iff.mpr ⟨rfl, rfl, Int.natCast_pos.mpr some⟩

theorem clampNonneg_negative (m : Magnitude) : (signed true m).clampNonneg = zero := by
  refine if_neg fun more => ?_
  obtain ⟨-, -, less⟩ := lt_iff.mp more
  have less : (0 : Int) < -(m.place : Int) := less
  omega

end Double

/-! ## Pacing delays -/

namespace Number

variable {n n' : Int} {w w' : Double}

theorem place_ofRatio_zero (den : Nat) : (Magnitude.ofRatio 0 den).place = 0 := by
  rw [Magnitude.ofRatio, Nat.zero_mul, Magnitude.place_ofUnits_zero]

/-- What a number of milliseconds comes to as a wait. -/
theorem clampNonneg_quotient (h : quotient n 1000 = .ok w) :
    w.clampNonneg.IsWait ∧
      w.clampNonneg.rank = (Magnitude.ofRatio (max 0 n).toNat 1000).place := by
  have eq : quotient n 1000 =
      if (Magnitude.ofRatio n.natAbs 1000).isInfinite then .error .quotientTooLarge
      else .ok (.signed (n < 0) (Magnitude.ofRatio n.natAbs 1000)) := rfl
  rw [eq] at h
  split at h
  · cases h
  · rename_i finite
    cases h
    by_cases negative : n < 0
    · rw [decide_eq_true negative, Double.clampNonneg_negative, show max 0 n = 0 by omega,
        show (0 : Int).toNat = 0 from rfl, place_ofRatio_zero]
      exact ⟨⟨.zero, rfl, by decide⟩, rfl⟩
    · rw [decide_eq_false negative, Double.clampNonneg_signed,
        show (max 0 n).toNat = n.natAbs by omega]
      exact ⟨⟨_, rfl, by simpa using finite⟩, rfl⟩

theorem isWait_quotient (h : quotient n 1000 = .ok w) : w.clampNonneg.IsWait :=
  (clampNonneg_quotient h).1

theorem rank_quotient_mono (h : quotient n 1000 = .ok w) (h' : quotient n' 1000 = .ok w')
    (le : max 0 n ≤ max 0 n') : w.clampNonneg.rank ≤ w'.clampNonneg.rank := by
  rw [(clampNonneg_quotient h).2, (clampNonneg_quotient h').2]
  refine Int.ofNat_le.mpr (Magnitude.placeOf_mono 1000 ?_)
  exact Nat.mul_le_mul_right _ (by omega)

theorem quotient_of_nonpos (h : quotient n 1000 = .ok w) (none : n ≤ 0) :
    w.clampNonneg = .zero := by
  obtain ⟨⟨m, eq, -⟩, place⟩ := clampNonneg_quotient h
  rw [eq, show max 0 n = 0 by omega, show (0 : Int).toNat = 0 from rfl,
    place_ofRatio_zero] at place
  rw [eq]
  exact Double.eq_zero_of_place (Int.ofNat.inj place)

end Number

end Runloop
