/-
# What stands at a place is settled by the piece itself

The recognizers look ahead of a piece to find out where it ends.  What they see
there is never needed again: a text that is cut off anywhere behind the piece has
the same piece at its head (`pieceAt_take`).  In particular a token is read off its
own text (`Token.Lexed`), which says all that is known of the texts of tokens:
brackets are marks, and numbers are numerals.
-/
import Mathlib.Data.List.TakeDrop
import Runloop.Token.Lexer

namespace Runloop.Token

variable {c : Char} {cs : List Char} {n m : Nat}

/-! ## Recognizers -/

theorem length_takeWhile_take (p : Char → Bool) (cs : List Char) (m : Nat) :
    ((cs.take m).takeWhile p).length = min m (cs.takeWhile p).length := by
  induction cs generalizing m with
  | nil => simp
  | cons c cs ih =>
      cases m with
      | zero => simp
      | succ m =>
          rw [List.take_succ_cons, List.takeWhile_cons, List.takeWhile_cons]
          split
          · rw [List.length_cons, List.length_cons, ih]
            omega
          · simp

theorem digitCount_take (cs : List Char) (m : Nat) :
    digitCount (cs.take m) = min m (digitCount cs) :=
  length_takeWhile_take Text.isDigit cs m

theorem digitCount_le (cs : List Char) : digitCount cs ≤ cs.length :=
  (List.takeWhile_sublist _).length_le

/-- The length of an exponent with its mark: an optional sign, and digits. -/
def markedLength : List Char → Nat
  | [] => 0
  | d :: ds =>
    if d == '+' || d == '-' then if digitCount ds = 0 then 0 else 2 + digitCount ds
    else if digitCount (d :: ds) = 0 then 0 else 1 + digitCount (d :: ds)

theorem exponentLength_cons (c : Char) (cs : List Char) :
    exponentLength (c :: cs) = if c == 'e' || c == 'E' then markedLength cs else 0 := by
  cases cs with
  | nil => rfl
  | cons d ds => rfl

theorem markedLength_cons (d : Char) (ds : List Char) :
    markedLength (d :: ds) =
      if d == '+' || d == '-' then if digitCount ds = 0 then 0 else 2 + digitCount ds
      else if digitCount (d :: ds) = 0 then 0 else 1 + digitCount (d :: ds) := rfl

theorem markedLength_le (cs : List Char) : markedLength cs ≤ cs.length + 1 := by
  cases cs with
  | nil => exact Nat.zero_le _
  | cons d ds =>
      have few := digitCount_le ds
      have many := digitCount_le (d :: ds)
      rw [markedLength_cons]
      rw [List.length_cons] at *
      split <;> split <;> omega

theorem markedLength_take (h : markedLength cs ≤ m + 1) :
    markedLength (cs.take m) = markedLength cs := by
  have cut (lead k j : Nat) (fits : (if k = 0 then 0 else lead + k) ≤ lead + j) :
      (if min j k = 0 then 0 else lead + min j k) = if k = 0 then 0 else lead + k := by
    split at fits <;> split <;> omega
  cases cs with
  | nil => simp
  | cons d ds =>
      rw [markedLength_cons] at *
      cases m with
      | zero =>
          show 0 = _
          split at h <;> split at h <;> first | omega | simp_all
      | succ m =>
          rw [List.take_succ_cons, markedLength_cons, ← List.take_succ_cons, digitCount_take,
            digitCount_take]
          split at h
          · rename_i sign
            rw [if_pos sign, if_pos sign]
            exact cut 2 _ m (by omega)
          · rename_i unsigned
            rw [if_neg unsigned, if_neg unsigned]
            exact cut 1 _ (m + 1) (by omega)

theorem exponentLength_le (cs : List Char) : exponentLength cs ≤ cs.length := by
  cases cs with
  | nil => exact Nat.le_refl 0
  | cons c cs =>
      have := markedLength_le cs
      rw [exponentLength_cons, List.length_cons]
      split
      · exact this
      · exact Nat.zero_le _

/-- An exponent is the same where the text is cut behind it. -/
theorem exponentLength_take (h : exponentLength cs ≤ m) :
    exponentLength (cs.take m) = exponentLength cs := by
  cases cs with
  | nil => simp
  | cons c cs =>
      cases m with
      | zero =>
          rw [Nat.le_zero.mp h]
          rfl
      | succ m =>
          rw [List.take_succ_cons, exponentLength_cons, exponentLength_cons] at *
          split
          · rename_i mark
            rw [if_pos mark] at h
            exact markedLength_take h
          · rfl

/-- The length of a fraction with its point, if there is one. -/
def fractionLength : List Char → Nat
  | '.' :: ds => 1 + digitCount ds
  | _ => 0

theorem fractionLength_of_ne (other : c ≠ '.') (cs : List Char) : fractionLength (c :: cs) = 0 := by
  unfold fractionLength
  split
  · rename_i same
    exact absurd (List.cons.inj same).1 other
  · rfl

theorem numberRest_eq (cs : List Char) :
    numberRest cs = digitCount cs + fractionLength (cs.drop (digitCount cs)) +
      exponentLength (cs.drop (digitCount cs + fractionLength (cs.drop (digitCount cs)))) := by
  unfold numberRest fractionLength
  rfl

theorem fractionLength_le (cs : List Char) : fractionLength cs ≤ cs.length := by
  unfold fractionLength
  split
  · rename_i ds
    have := digitCount_le ds
    rw [List.length_cons]
    omega
  · exact Nat.zero_le _

theorem fractionLength_take (h : fractionLength cs ≤ m) :
    fractionLength (cs.take m) = fractionLength cs := by
  cases cs with
  | nil => simp
  | cons c cs =>
      cases m with
      | zero =>
          rw [Nat.le_zero.mp h]
          rfl
      | succ m =>
          rw [List.take_succ_cons]
          by_cases point : c = '.'
          · subst point
            change 1 + digitCount cs ≤ m + 1 at h
            show 1 + digitCount (cs.take m) = 1 + digitCount cs
            rw [digitCount_take]
            omega
          · rw [fractionLength_of_ne point, fractionLength_of_ne point]

theorem numberRest_le (cs : List Char) : numberRest cs ≤ cs.length := by
  have whole := digitCount_le cs
  have fraction := fractionLength_le (cs.drop (digitCount cs))
  have exponent := exponentLength_le
    (cs.drop (digitCount cs + fractionLength (cs.drop (digitCount cs))))
  rw [List.length_drop] at fraction exponent
  rw [numberRest_eq]
  omega

theorem numberRest_take (h : numberRest cs ≤ m) : numberRest (cs.take m) = numberRest cs := by
  rw [numberRest_eq] at h
  have whole : digitCount (cs.take m) = digitCount cs := by
    rw [digitCount_take]
    omega
  have fraction : fractionLength ((cs.take m).drop (digitCount cs)) =
      fractionLength (cs.drop (digitCount cs)) := by
    rw [List.drop_take]
    exact fractionLength_take (by omega)
  rw [numberRest_eq, numberRest_eq, whole, fraction, List.drop_take, exponentLength_take]
  omega

theorem pointNumberRest?_eq (cs : List Char) :
    pointNumberRest? cs = if digitCount cs = 0 then none
      else some (digitCount cs + exponentLength (cs.drop (digitCount cs))) := rfl

theorem pointNumberRest?_le (h : pointNumberRest? cs = some n) : n ≤ cs.length := by
  have whole := digitCount_le cs
  have exponent := exponentLength_le (cs.drop (digitCount cs))
  rw [List.length_drop] at exponent
  rw [pointNumberRest?_eq] at h
  split at h
  · cases h
  · cases h
    omega

theorem pointNumberRest?_take (h : pointNumberRest? cs = some n) (fits : n ≤ m) :
    pointNumberRest? (cs.take m) = some n := by
  rw [pointNumberRest?_eq] at *
  split at h
  · cases h
  · rename_i some
    cases h
    have whole : digitCount (cs.take m) = digitCount cs := by
      rw [digitCount_take]
      omega
    rw [whole, if_neg some, List.drop_take, exponentLength_take (by omega)]

theorem pointNumberRest?_take_none (h : pointNumberRest? cs = none) (m : Nat) :
    pointNumberRest? (cs.take m) = none := by
  rw [pointNumberRest?_eq] at *
  split at h
  · rename_i none
    rw [digitCount_take, if_pos (by omega)]
  · cases h

/-! ### Comments -/

theorem blockCommentRest?_cons (other : ∀ ds, c = '*' → cs = '/' :: ds → False) :
    blockCommentRest? (c :: cs) = (blockCommentRest? cs).map (· + 1) := by
  rw [blockCommentRest?]
  exact other

theorem blockCommentRest?_le (h : blockCommentRest? cs = some n) : n ≤ cs.length := by
  induction cs using blockCommentRest?.induct generalizing n with
  | case1 => cases h
  | case2 cs =>
      cases h
      simp
  | case3 c cs other ih =>
      rw [blockCommentRest?_cons other] at h
      obtain ⟨k, inner, rfl⟩ := Option.map_eq_some_iff.mp h
      have := ih inner
      rw [List.length_cons]
      omega

theorem blockCommentRest?_take (h : blockCommentRest? cs = some n) (fits : n ≤ m) :
    blockCommentRest? (cs.take m) = some n := by
  induction cs using blockCommentRest?.induct generalizing n m with
  | case1 => cases h
  | case2 cs =>
      cases h
      obtain ⟨m, rfl⟩ := Nat.exists_eq_add_of_le fits
      rw [show 2 + m = m + 1 + 1 by omega]
      rfl
  | case3 c cs other ih =>
      rw [blockCommentRest?_cons other] at h
      obtain ⟨k, inner, rfl⟩ := Option.map_eq_some_iff.mp h
      obtain ⟨m, rfl⟩ := Nat.exists_eq_add_of_le fits
      rw [show k + 1 + m = k + m + 1 by omega, List.take_succ_cons, blockCommentRest?_cons,
        ih inner (Nat.le_add_right k m)]
      · rfl
      · intro ds star slash
        cases cs with
        | nil => simp at slash
        | cons d cs =>
            cases h : k + m with
            | zero => simp [h] at slash
            | succ j =>
                rw [h, List.take_succ_cons] at slash
                obtain ⟨rfl, -⟩ := List.cons.inj slash
                exact other _ star rfl

theorem blockCommentRest?_take_none (h : blockCommentRest? cs = none) (m : Nat) :
    blockCommentRest? (cs.take m) = none := by
  induction cs using blockCommentRest?.induct generalizing m with
  | case1 => simp [blockCommentRest?]
  | case2 cs => cases h
  | case3 c cs other ih =>
      rw [blockCommentRest?_cons other] at h
      cases m with
      | zero => rfl
      | succ m =>
          rw [List.take_succ_cons, blockCommentRest?_cons, ih (Option.map_eq_none_iff.mp h)]
          · rfl
          · intro ds star slash
            cases cs with
            | nil => simp at slash
            | cons d cs =>
                cases m with
                | zero => simp at slash
                | succ m =>
                    rw [List.take_succ_cons] at slash
                    obtain ⟨rfl, -⟩ := List.cons.inj slash
                    exact other _ star rfl

theorem commentRest?_le (h : commentRest? cs = some n) : n ≤ cs.length := by
  unfold commentRest? at h
  split at h
  · rename_i cs
    cases h
    have := (List.takeWhile_sublist (fun c : Char => c != '\n') (l := cs)).length_le
    rw [List.length_cons]
    omega
  · obtain ⟨k, inner, rfl⟩ := Option.map_eq_some_iff.mp h
    have := blockCommentRest?_le inner
    rw [List.length_cons]
    omega
  · cases h

theorem commentRest?_take (h : commentRest? cs = some n) (fits : n ≤ m) :
    commentRest? (cs.take m) = some n := by
  unfold commentRest? at h
  split at h
  · rename_i cs
    cases h
    obtain ⟨m, rfl⟩ := Nat.exists_eq_add_of_le fits
    rw [Nat.add_assoc, Nat.add_comm 1, List.take_succ_cons]
    show some (1 + _) = _
    rw [length_takeWhile_take, Nat.min_eq_right (Nat.le_add_right ..)]
  · rename_i cs
    obtain ⟨k, inner, rfl⟩ := Option.map_eq_some_iff.mp h
    obtain ⟨m, rfl⟩ := Nat.exists_eq_add_of_le fits
    rw [show k + 1 + m = k + m + 1 by omega, List.take_succ_cons]
    show (blockCommentRest? (cs.take (k + m))).map (· + 1) = _
    rw [blockCommentRest?_take inner (Nat.le_add_right k m)]
    rfl
  · cases h

theorem commentRest?_take_none (h : commentRest? cs = none) (m : Nat) :
    commentRest? (cs.take m) = none := by
  cases cs with
  | nil => simp [commentRest?]
  | cons c cs =>
      cases m with
      | zero => rfl
      | succ m =>
          rw [List.take_succ_cons]
          unfold commentRest? at *
          split at h
          · cases h
          · rename_i ds same
            obtain ⟨rfl, rfl⟩ := List.cons.inj same
            show (blockCommentRest? (cs.take m)).map (· + 1) = none
            rw [blockCommentRest?_take_none (Option.map_eq_none_iff.mp h)]
            rfl
          · rename_i line block
            split
            · rename_i ds same
              exact absurd (congrArg (· :: cs) (List.cons.inj same).1) (line cs)
            · rename_i ds same
              exact absurd (congrArg (· :: cs) (List.cons.inj same).1) (block cs)
            · rfl

/-! ### Quoted text -/

theorem quotedRest?_le {quote : Char} {multiline : Bool}
    (h : quotedRest? quote multiline cs = some n) : n ≤ cs.length := by
  fun_induction quotedRest? quote multiline cs generalizing n with
  | case1 => cases h
  | case2 => cases h
  | case3 c cs _ ih =>
      obtain ⟨k, inner, rfl⟩ := Option.map_eq_some_iff.mp h
      have := ih inner
      rw [List.length_cons, List.length_cons]
      omega
  | case4 => cases h
  | case5 c cs _ _ _ =>
      cases h
      rw [List.length_cons]
      omega
  | case6 c cs _ _ _ _ ih =>
      obtain ⟨k, inner, rfl⟩ := Option.map_eq_some_iff.mp h
      have := ih inner
      rw [List.length_cons]
      omega
  | case7 => cases h

theorem quotedRest?_plain {quote : Char} {multiline : Bool} (plain : c ≠ '\\') (cs : List Char) :
    quotedRest? quote multiline (c :: cs) =
      if c == quote then some 1
      else if multiline || c != '\n' then (quotedRest? quote multiline cs).map (· + 1)
      else none := by
  rw [quotedRest?]
  · exact fun same _ => plain same
  · exact fun _ _ same _ => plain same

/-- What neither stands alone nor before another character as a backslash is none. -/
theorem not_escape (alone : c = '\\' → cs = [] → False)
    (escapes : ∀ d ds, c = '\\' → cs = d :: ds → False) : c ≠ '\\' := by
  intro same
  cases cs with
  | nil => exact alone same rfl
  | cons d ds => exact escapes d ds same rfl

theorem quotedRest?_take {quote : Char} {multiline : Bool}
    (h : quotedRest? quote multiline cs = some n) (fits : n ≤ m) :
    quotedRest? quote multiline (cs.take m) = some n := by
  fun_induction quotedRest? quote multiline cs generalizing n m with
  | case1 => cases h
  | case2 => cases h
  | case3 c cs allowed ih =>
      obtain ⟨k, inner, rfl⟩ := Option.map_eq_some_iff.mp h
      obtain ⟨m, rfl⟩ := Nat.exists_eq_add_of_le fits
      rw [show k + 2 + m = k + m + 1 + 1 by omega, List.take_succ_cons, List.take_succ_cons,
        quotedRest?, if_pos allowed, ih inner (Nat.le_add_right k m)]
      rfl
  | case4 => cases h
  | case5 c cs alone escapes closes =>
      have plain := not_escape alone escapes
      cases h
      obtain ⟨m, rfl⟩ := Nat.exists_eq_add_of_le fits
      rw [Nat.add_comm 1, List.take_succ_cons, quotedRest?_plain plain, if_pos closes]
  | case6 c cs alone escapes goesOn allowed ih =>
      have plain := not_escape alone escapes
      obtain ⟨k, inner, rfl⟩ := Option.map_eq_some_iff.mp h
      obtain ⟨m, rfl⟩ := Nat.exists_eq_add_of_le fits
      rw [show k + 1 + m = k + m + 1 by omega, List.take_succ_cons, quotedRest?_plain plain,
        if_neg goesOn, if_pos allowed, ih inner (Nat.le_add_right k m)]
      rfl
  | case7 => cases h

/-! ### Operators -/

/-- What comes first in a list comes first where less is to be found. -/
theorem find?_of_imp {α : Type} {p q : α → Bool} {l : List α} (less : ∀ a ∈ l, q a → p a) {a : α}
    (found : l.find? p = some a) (still : q a = true) : l.find? q = some a := by
  induction l with
  | nil => cases found
  | cons b l ih =>
      rw [List.find?_cons] at *
      cases hp : p b with
      | true =>
          rw [hp] at found
          cases found
          rw [still]
      | false =>
          rw [hp] at found
          cases hq : q b with
          | true => exact absurd (less b List.mem_cons_self hq) (by simp [hp])
          | false => exact ih (fun a ha => less a (List.mem_cons_of_mem b ha)) found

theorem isPrefixOf_take {op : List Char} (h : op.isPrefixOf (cs.take m) = true) :
    op.isPrefixOf cs = true := by
  rw [List.isPrefixOf_iff_prefix] at *
  exact h.trans (List.take_prefix m cs)

theorem operatorRest?_le (h : operatorRest? c cs = some n) : n ≤ cs.length := by
  unfold operatorRest? at h
  split at h
  · rename_i op found
    cases h
    have fits := List.find?_some found
    rw [List.isPrefixOf_iff_prefix] at fits
    have := fits.length_le
    rw [List.length_cons] at this
    omega
  · split at h
    · cases h
      exact Nat.zero_le _
    · cases h

theorem operatorRest?_take (h : operatorRest? c cs = some n) (fits : n ≤ m) :
    operatorRest? c (cs.take m) = some n := by
  have less : ∀ op ∈ longOperators, op.isPrefixOf (c :: cs.take m) = true →
      op.isPrefixOf (c :: cs) = true := by
    intro op _ inside
    rw [← List.take_succ_cons] at inside
    exact isPrefixOf_take inside
  unfold operatorRest? at *
  split at h
  · rename_i op found
    cases h
    have still : op.isPrefixOf (c :: cs.take m) = true := by
      have there := List.find?_some found
      rw [List.isPrefixOf_iff_prefix, ← List.take_succ_cons] at *
      exact (List.prefix_take_iff).mpr ⟨there, by omega⟩
    rw [find?_of_imp less found still]
  · rename_i none
    have none' : longOperators.find? (fun op => op.isPrefixOf (c :: cs.take m)) = Option.none := by
      rw [List.find?_eq_none] at *
      exact fun op hop inside => none op hop (less op hop inside)
    rw [none']
    exact h

theorem operatorRest?_take_none (h : operatorRest? c cs = none) (m : Nat) :
    operatorRest? c (cs.take m) = none := by
  unfold operatorRest? at *
  split at h
  · cases h
  · rename_i none
    have none' : longOperators.find? (fun op => op.isPrefixOf (c :: cs.take m)) = Option.none := by
      rw [List.find?_eq_none] at *
      intro op hop inside
      rw [← List.take_succ_cons] at inside
      exact none op hop (isPrefixOf_take inside)
    rw [none']
    exact h

/-! ## Pieces -/

/-- The lengths of the pieces that are told by their first character. -/
def commentAt? (c : Char) (cs : List Char) : Option Nat :=
  if c == '/' then commentRest? cs else none

def numberAt? (c : Char) (cs : List Char) : Option Nat :=
  if Text.isDigit c then some (numberRest cs) else if c == '.' then pointNumberRest? cs else none

def templateAt? (c : Char) (cs : List Char) : Option Nat :=
  if c == '\x60' then quotedRest? c true cs else none

def textAt? (c : Char) (cs : List Char) : Option Nat :=
  if c == '"' || c == '\'' then quotedRest? c false cs else none

/-- A piece that is none of these. -/
def plainAt (c : Char) (cs : List Char) : Piece × Nat :=
  if isWordStart c then (.token .word, (cs.takeWhile isWordRest).length)
  else
    match operatorRest? c cs with
    | some n => (.token .operator, n)
    | none =>
      if marks.contains c then (.token .mark, 0)
      else if Text.isBlank c then (.gap, 0)
      else (.illegal, 0)

theorem pieceAt_eq (c : Char) (cs : List Char) :
    pieceAt c cs =
      match commentAt? c cs, numberAt? c cs, templateAt? c cs, textAt? c cs with
      | some n, _, _, _ => (.gap, n)
      | _, some n, _, _ => (.token .number, n)
      | _, _, some n, _ => (.token .template, n)
      | _, _, _, some n => (.token .text, n)
      | none, none, none, none => plainAt c cs := rfl

theorem commentAt?_le (h : commentAt? c cs = some n) : n ≤ cs.length := by
  unfold commentAt? at h
  split at h
  · exact commentRest?_le h
  · cases h

theorem numberAt?_le (h : numberAt? c cs = some n) : n ≤ cs.length := by
  unfold numberAt? at h
  split at h
  · cases h
    exact numberRest_le cs
  · split at h
    · exact pointNumberRest?_le h
    · cases h

theorem templateAt?_le (h : templateAt? c cs = some n) : n ≤ cs.length := by
  unfold templateAt? at h
  split at h
  · exact quotedRest?_le h
  · cases h

theorem textAt?_le (h : textAt? c cs = some n) : n ≤ cs.length := by
  unfold textAt? at h
  split at h
  · exact quotedRest?_le h
  · cases h

theorem plainAt_le {piece : Piece} (h : plainAt c cs = (piece, n)) : n ≤ cs.length := by
  unfold plainAt at h
  split at h
  · cases h
    exact (List.takeWhile_sublist _).length_le
  · split at h
    · rename_i found
      cases h
      exact operatorRest?_le found
    · split at h
      · cases h
        exact Nat.zero_le _
      · split at h <;> cases h <;> exact Nat.zero_le _

theorem commentAt?_take (h : commentAt? c cs = some n) (fits : n ≤ m) :
    commentAt? c (cs.take m) = some n := by
  unfold commentAt? at *
  split at h
  · rename_i slash
    rw [if_pos slash]
    exact commentRest?_take h fits
  · cases h

theorem commentAt?_take_none (h : commentAt? c cs = none) (m : Nat) :
    commentAt? c (cs.take m) = none := by
  unfold commentAt? at *
  split at h
  · rename_i slash
    rw [if_pos slash]
    exact commentRest?_take_none h m
  · rename_i other
    rw [if_neg other]

theorem numberAt?_take (h : numberAt? c cs = some n) (fits : n ≤ m) :
    numberAt? c (cs.take m) = some n := by
  unfold numberAt? at *
  split at h
  · rename_i digit
    cases h
    rw [if_pos digit, numberRest_take fits]
  · rename_i other
    rw [if_neg other]
    split at h
    · rename_i point
      rw [if_pos point]
      exact pointNumberRest?_take h fits
    · cases h

theorem numberAt?_take_none (h : numberAt? c cs = none) (m : Nat) :
    numberAt? c (cs.take m) = none := by
  unfold numberAt? at *
  split at h
  · cases h
  · rename_i other
    rw [if_neg other]
    split at h
    · rename_i point
      rw [if_pos point]
      exact pointNumberRest?_take_none h m
    · rename_i plain
      rw [if_neg plain]

theorem templateAt?_take (h : templateAt? c cs = some n) (fits : n ≤ m) :
    templateAt? c (cs.take m) = some n := by
  unfold templateAt? at *
  split at h
  · rename_i quote
    rw [if_pos quote]
    exact quotedRest?_take h fits
  · cases h

theorem textAt?_take (h : textAt? c cs = some n) (fits : n ≤ m) :
    textAt? c (cs.take m) = some n := by
  unfold textAt? at *
  split at h
  · rename_i quote
    rw [if_pos quote]
    exact quotedRest?_take h fits
  · cases h

theorem plainAt_take {piece : Piece} (h : plainAt c cs = (piece, n)) (fits : n ≤ m) :
    plainAt c (cs.take m) = (piece, n) := by
  unfold plainAt at *
  split at h
  · rename_i word
    cases h
    rw [if_pos word, length_takeWhile_take, Nat.min_eq_right fits]
  · rename_i other
    rw [if_neg other]
    split at h
    · rename_i found
      cases h
      rw [operatorRest?_take found fits]
    · rename_i none
      rw [operatorRest?_take_none none]
      exact h

/-- Nothing but quoted text starts with a quote. -/
theorem plainAt_of_isQuote (h : isQuote c = true) (cs : List Char) :
    plainAt c cs = (.illegal, 0) := by
  have three : c = '"' ∨ c = '\'' ∨ c = '\x60' := by
    simpa [isQuote, or_assoc] using h
  have none : operatorRest? c cs = none := by
    rcases three with rfl | rfl | rfl <;>
      simp [operatorRest?, longOperators, shortOperators, List.find?, List.isPrefixOf]
  unfold plainAt
  rw [none]
  rcases three with rfl | rfl | rfl <;> rfl

theorem isQuote_of_plainAt {piece : Piece} (h : plainAt c cs = (piece, n))
    (legal : piece ≠ .illegal) : isQuote c = false := by
  cases quote : isQuote c with
  | false => rfl
  | true =>
      rw [plainAt_of_isQuote quote] at h
      cases h
      exact absurd rfl legal

/-- Where there is no quote, neither a template nor a text begins. -/
theorem unquoted (h : isQuote c = false) (cs : List Char) :
    templateAt? c cs = none ∧ textAt? c cs = none := by
  simp_all [templateAt?, textAt?, isQuote]

/-- What begins a text does not begin a template. -/
theorem templateAt?_of_textAt? (h : textAt? c cs = some n) (ds : List Char) :
    templateAt? c ds = none := by
  rw [textAt?] at h
  split at h
  · rename_i quote
    have two : c = '"' ∨ c = '\'' := by simpa using quote
    rcases two with rfl | rfl <;> rfl
  · cases h

theorem pieceAt_le {piece : Piece} (h : pieceAt c cs = (piece, n)) : n ≤ cs.length := by
  rw [pieceAt_eq] at h
  split at h
  · cases h
    exact commentAt?_le ‹_›
  · cases h
    exact numberAt?_le ‹_›
  · cases h
    exact templateAt?_le ‹_›
  · cases h
    exact textAt?_le ‹_›
  · exact plainAt_le h

/-- Where a text is cut behind the piece at its head, the piece stays. -/
theorem pieceAt_take {piece : Piece} (h : pieceAt c cs = (piece, n)) (legal : piece ≠ .illegal)
    (fits : n ≤ m) : pieceAt c (cs.take m) = (piece, n) := by
  rw [pieceAt_eq] at *
  cases comment : commentAt? c cs with
  | some k =>
      rw [comment] at h
      cases h
      rw [commentAt?_take comment fits]
  | none =>
  rw [commentAt?_take_none comment]
  cases number : numberAt? c cs with
  | some k =>
      rw [comment, number] at h
      cases h
      rw [numberAt?_take number fits]
  | none =>
  rw [numberAt?_take_none number]
  cases template : templateAt? c cs with
  | some k =>
      rw [comment, number, template] at h
      cases h
      rw [templateAt?_take template fits]
  | none =>
  cases text : textAt? c cs with
  | some k =>
      rw [comment, number, template, text] at h
      cases h
      rw [templateAt?_of_textAt? text, textAt?_take text fits]
  | none =>
  rw [comment, number, template, text] at h
  -- A quote that opens no text is illegal, so a plain piece has another head.
  obtain ⟨none, none'⟩ := unquoted (isQuote_of_plainAt h legal) (cs.take m)
  rw [none, none']
  exact plainAt_take h fits

/-- What a token is known by. -/
theorem pieceAt_token {kind : TokenKind} (h : pieceAt c cs = (.token kind, n)) :
    match kind with
    | .number => numberAt? c cs = some n
    | .template => templateAt? c cs = some n
    | .text => textAt? c cs = some n
    | .word => isWordStart c = true
    | .operator => operatorRest? c cs = some n
    | .mark => marks.contains c = true := by
  rw [pieceAt_eq] at h
  split at h
  · cases h
  · cases h
    assumption
  · cases h
    assumption
  · cases h
    assumption
  · unfold plainAt at h
    split at h
    · cases h
      assumption
    · split at h
      · cases h
        assumption
      · split at h
        · cases h
          assumption
        · split at h <;> cases h

/-! ## Texts of tokens -/

/-- The text of a token is a piece of its kind, to its last character. -/
def Lexed (t : Token) : Prop :=
  ∃ c cs, t.text.toList = c :: cs ∧ pieceAt c cs = (.token t.kind, cs.length)

theorem lexed_make {kind : TokenKind} (h : pieceAt c cs = (.token kind, n)) (p : Place) :
    (make kind p c cs n).Lexed := by
  have fits := pieceAt_le h
  refine ⟨c, cs.take n, String.toList_ofList, ?_⟩
  rw [List.length_take, Nat.min_eq_left fits]
  exact pieceAt_take h (by simp) (Nat.le_refl n)

/-- The brackets. -/
def brackets : List String := ["(", ")", "[", "]", "\x7b", "\x7d"]

/-- A token with the text of a bracket is a mark. -/
theorem Lexed.kind_of_mem {t : Token} (h : t.Lexed) (bracket : t.text ∈ brackets) :
    t.kind = .mark := by
  obtain ⟨c, cs, text, piece⟩ := h
  have single : cs = [] ∧ c ∈ ['(', ')', '[', ']', '\x7b', '\x7d'] := by
    have spelled : t.text.toList ∈ brackets.map String.toList := List.mem_map_of_mem bracket
    rw [text] at spelled
    simpa [brackets, and_comm, or_and_right] using spelled
  obtain ⟨rfl, among⟩ := single
  have mark : pieceAt c [] = (.token .mark, 0) := by
    simp only [List.mem_cons, List.not_mem_nil, or_false] at among
    rcases among with rfl | rfl | rfl | rfl | rfl | rfl <;> rfl
  rw [mark] at piece
  exact (Piece.token.inj (Prod.mk.inj piece).1).symm

/-- A bracket that is spelled is the mark. -/
theorem Lexed.isMark {t : Token} {s : String} (h : t.Lexed) (spelled : t.spells s = true)
    (bracket : s ∈ brackets) : t.isMark s = true := by
  have text : t.text = s := by
    simp only [spells, Bool.and_eq_true, beq_iff_eq] at spelled
    exact spelled.2
  simp [Token.isMark, h.kind_of_mem (text ▸ bracket), text]

end Runloop.Token
