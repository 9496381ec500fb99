/-
# A semicolon ends every piece

Most pieces reach as far as they can, so what is put behind a text may change the last of
them.  A semicolon does not: no token goes on over one, and a comment that is over before
it is not changed either (`pieceAt_semicolon`).  So a text that ends with a token has the
same tokens where a semicolon stands behind it (`Scanned.delimited`).
-/
import Runloop.Proofs.Scanning

namespace Runloop.Token

variable {c : Char} {cs more : List Char} {n : Nat}

/-! ## Recognizers -/

theorem takeWhile_semicolon {p : Char → Bool} (out : p ';' = false) (cs more : List Char) :
    (cs ++ ';' :: more).takeWhile p = cs.takeWhile p := by
  rw [List.takeWhile_append]
  split
  · rename_i all
    rw [List.takeWhile_cons, out, if_neg Bool.false_ne_true, List.append_nil]
    exact ((List.takeWhile_prefix p).eq_of_length all).symm
  · rfl

theorem digitCount_semicolon (cs more : List Char) :
    digitCount (cs ++ ';' :: more) = digitCount cs := by
  rw [digitCount, takeWhile_semicolon rfl, digitCount]

theorem markedLength_semicolon (cs more : List Char) :
    markedLength (cs ++ ';' :: more) = markedLength cs := by
  cases cs with
  | nil => rfl
  | cons d ds =>
      have all := digitCount_semicolon (d :: ds) more
      rw [List.cons_append] at all ⊢
      rw [markedLength_cons, markedLength_cons, all, digitCount_semicolon]

theorem exponentLength_semicolon (cs more : List Char) :
    exponentLength (cs ++ ';' :: more) = exponentLength cs := by
  cases cs with
  | nil => rfl
  | cons c cs => rw [List.cons_append, exponentLength_cons, exponentLength_cons,
      markedLength_semicolon]

theorem fractionLength_semicolon (cs more : List Char) :
    fractionLength (cs ++ ';' :: more) = fractionLength cs := by
  cases cs with
  | nil => rfl
  | cons c cs =>
      by_cases point : c = '.'
      · subst point
        show 1 + digitCount (cs ++ ';' :: more) = 1 + digitCount cs
        rw [digitCount_semicolon]
      · rw [List.cons_append, fractionLength_of_ne point, fractionLength_of_ne point]

theorem numberRest_semicolon (cs more : List Char) :
    numberRest (cs ++ ';' :: more) = numberRest cs := by
  have whole := digitCount_le cs
  have fraction := fractionLength_le (cs.drop (digitCount cs))
  rw [List.length_drop] at fraction
  rw [numberRest_eq, numberRest_eq, digitCount_semicolon, List.drop_append_of_le_length whole,
    fractionLength_semicolon, List.drop_append_of_le_length (by omega), exponentLength_semicolon]

theorem pointNumberRest?_semicolon (cs more : List Char) :
    pointNumberRest? (cs ++ ';' :: more) = pointNumberRest? cs := by
  rw [pointNumberRest?_eq, pointNumberRest?_eq, digitCount_semicolon,
    List.drop_append_of_le_length (digitCount_le cs), exponentLength_semicolon]

/-- A block comment that is closed stays as it is. -/
theorem blockCommentRest?_append (h : blockCommentRest? cs = some n) (more : List Char) :
    blockCommentRest? (cs ++ more) = some n := by
  induction cs using blockCommentRest?.induct generalizing n with
  | case1 => cases h
  | case2 cs => exact h
  | case3 c cs other ih =>
      rw [blockCommentRest?_cons other] at h
      obtain ⟨k, inner, rfl⟩ := Option.map_eq_some_iff.mp h
      rw [List.cons_append, blockCommentRest?_cons, ih inner]
      · rfl
      · intro ds star slash
        cases cs with
        | nil => cases inner
        | cons d cs =>
            obtain ⟨rfl, -⟩ := List.cons.inj slash
            exact other cs star rfl

/-- A block comment that is not closed is not closed behind a semicolon either, if there is
nothing to close it. -/
theorem blockCommentRest?_semicolon (h : blockCommentRest? cs = none)
    (free : blockCommentRest? more = none) : blockCommentRest? (cs ++ ';' :: more) = none := by
  induction cs using blockCommentRest?.induct with
  | case1 => rw [List.nil_append, blockCommentRest?_cons (by simp), free, Option.map_none]
  | case2 cs => cases h
  | case3 c cs other ih =>
      rw [blockCommentRest?_cons other] at h
      rw [List.cons_append, blockCommentRest?_cons, ih (Option.map_eq_none_iff.mp h)]
      · rfl
      · intro ds star slash
        cases cs with
        | nil => simp at slash
        | cons d cs =>
            obtain ⟨rfl, -⟩ := List.cons.inj slash
            exact other cs star rfl

/-- A comment that is over before the end of the text stays as it is. -/
theorem commentRest?_semicolon (stops : ∀ n, commentRest? cs = some n → n < cs.length)
    (free : blockCommentRest? more = none) :
    commentRest? (cs ++ ';' :: more) = commentRest? cs := by
  cases cs with
  | nil => rfl
  | cons c cs =>
      by_cases line : c = '/'
      · subst line
        have less : 1 + (cs.takeWhile (· != '\n')).length < cs.length + 1 := stops _ rfl
        show some (1 + ((cs ++ ';' :: more).takeWhile (· != '\n')).length) =
          some (1 + (cs.takeWhile (· != '\n')).length)
        rw [List.takeWhile_append, if_neg (by omega)]
      by_cases block : c = '*'
      · subst block
        show (blockCommentRest? (cs ++ ';' :: more)).map (· + 1) =
          (blockCommentRest? cs).map (· + 1)
        cases found : blockCommentRest? cs with
        | some n => rw [blockCommentRest?_append found]
        | none => rw [blockCommentRest?_semicolon found free]
      · simp [commentRest?, line, block]

/-- Quoted text that is closed stays as it is. -/
theorem quotedRest?_append {quote : Char} {multiline : Bool}
    (h : quotedRest? quote multiline cs = some n) (more : List Char) :
    quotedRest? quote multiline (cs ++ more) = some n := by
  fun_induction quotedRest? quote multiline cs generalizing n with
  | case1 => cases h
  | case2 => cases h
  | case3 c cs allowed ih =>
      obtain ⟨k, inner, rfl⟩ := Option.map_eq_some_iff.mp h
      rw [List.cons_append, List.cons_append, quotedRest?, if_pos allowed, ih inner]
      rfl
  | case4 => cases h
  | case5 c cs alone escapes closes =>
      have plain := not_escape alone escapes
      cases h
      rw [List.cons_append, quotedRest?_plain plain, if_pos closes]
  | case6 c cs alone escapes goesOn allowed ih =>
      have plain := not_escape alone escapes
      obtain ⟨k, inner, rfl⟩ := Option.map_eq_some_iff.mp h
      rw [List.cons_append, quotedRest?_plain plain, if_neg goesOn, if_pos allowed, ih inner]
      rfl
  | case7 => cases h

theorem isPrefixOf_semicolon {op : List Char} (free : ';' ∉ op) (cs more : List Char) :
    op.isPrefixOf (cs ++ ';' :: more) = op.isPrefixOf cs := by
  induction op generalizing cs with
  | nil => rw [List.isPrefixOf_nil_left, List.isPrefixOf_nil_left]
  | cons o op ih =>
      simp only [List.mem_cons, not_or] at free
      cases cs with
      | nil => simp [List.isPrefixOf, Ne.symm free.1]
      | cons c cs => rw [List.cons_append, List.isPrefixOf_cons_cons, List.isPrefixOf_cons_cons,
          ih free.2]

theorem operatorRest?_semicolon (c : Char) (cs more : List Char) :
    operatorRest? c (cs ++ ';' :: more) = operatorRest? c cs := by
  have among {ops : List (List Char)} (free : ∀ op ∈ ops, ';' ∉ op) :
      ops.find? (fun op => op.isPrefixOf (c :: (cs ++ ';' :: more))) =
        ops.find? (fun op => op.isPrefixOf (c :: cs)) := by
    induction ops with
    | nil => rfl
    | cons op ops ih =>
        have same := isPrefixOf_semicolon (free op List.mem_cons_self) (c :: cs) more
        rw [List.cons_append] at same
        rw [List.find?_cons, List.find?_cons, same,
          ih fun op' hop => free op' (List.mem_cons_of_mem op hop)]
  rw [operatorRest?, operatorRest?, among (by decide)]

/-! ## Pieces -/

theorem plainAt_semicolon (c : Char) (cs more : List Char) :
    plainAt c (cs ++ ';' :: more) = plainAt c cs := by
  rw [plainAt, plainAt, operatorRest?_semicolon, takeWhile_semicolon rfl]

/-- A comment that reaches no end of the text is the same before a semicolon. -/
theorem commentAt?_semicolon (stops : ∀ n, commentAt? c cs = some n → n < cs.length)
    (free : blockCommentRest? more = none) :
    commentAt? c (cs ++ ';' :: more) = commentAt? c cs := by
  rw [commentAt?, commentAt?]
  split
  · rename_i slash
    refine commentRest?_semicolon (fun n found => stops n ?_) free
    rw [commentAt?, if_pos slash, found]
  · rfl

theorem numberAt?_semicolon (c : Char) (cs more : List Char) :
    numberAt? c (cs ++ ';' :: more) = numberAt? c cs := by
  rw [numberAt?, numberAt?, numberRest_semicolon, pointNumberRest?_semicolon]

theorem templateAt?_append (h : templateAt? c cs = some n) (more : List Char) :
    templateAt? c (cs ++ more) = some n := by
  rw [templateAt?] at h ⊢
  split at h
  · rename_i quote
    rw [if_pos quote, quotedRest?_append h]
  · cases h

theorem textAt?_append (h : textAt? c cs = some n) (more : List Char) :
    textAt? c (cs ++ more) = some n := by
  rw [textAt?] at h ⊢
  split at h
  · rename_i quote
    rw [if_pos quote, quotedRest?_append h]
  · cases h

/-- A piece is the same where a semicolon stands behind the text, unless it is a comment
that reaches to the end of the text, or one that what stands behind it would close. -/
theorem pieceAt_semicolon {piece : Piece} (h : pieceAt c cs = (piece, n))
    (legal : piece ≠ .illegal) (stops : piece = .gap → n < cs.length)
    (free : blockCommentRest? more = none) : pieceAt c (cs ++ ';' :: more) = (piece, n) := by
  rw [pieceAt_eq] at *
  have comment : commentAt? c (cs ++ ';' :: more) = commentAt? c cs := by
    refine commentAt?_semicolon (fun k found => ?_) free
    rw [found] at h
    obtain ⟨rfl, rfl⟩ := Prod.mk.inj h
    exact stops rfl
  rw [comment, numberAt?_semicolon]
  cases found : commentAt? c cs with
  | some k =>
      rw [found] at h
      exact h
  | none =>
  cases found' : numberAt? c cs with
  | some k =>
      rw [found, found'] at h
      exact h
  | none =>
  rw [found, found'] at h
  cases template : templateAt? c cs with
  | some k =>
      rw [template] at h
      rw [templateAt?_append template]
      exact h
  | none =>
  cases text : textAt? c cs with
  | some k =>
      rw [template, text] at h
      rw [templateAt?_of_textAt? text, textAt?_append text]
      exact h
  | none =>
  rw [template, text] at h
  -- A quote that opens no text is illegal, so a plain piece has another head.
  obtain ⟨none, none'⟩ := unquoted (isQuote_of_plainAt h legal) (cs ++ ';' :: more)
  rw [none, none']
  exact (plainAt_semicolon c cs more).trans h

/-! ## Scans -/

namespace Scanned

variable {p q : Place} {ts : List Token}

/-- A text that ends with its last token has the same tokens before a semicolon. -/
theorem delimited (h : Scanned p cs ts q []) {t : Token} (last : ts.getLast? = some t)
    (ends : t.stop = q.offset) (free : blockCommentRest? more = none) :
    Scanned p (cs ++ ';' :: more) ts q (';' :: more) := by
  generalize nil : ([] : List Char) = ds at h
  induction h with
  | done => cases last
  | @gap p q c as cs ds ts piece rest ih =>
      subst nil
      have left : as.length < (as ++ cs).length := by
        cases cs with
        | nil =>
            cases rest
            cases last
        | cons d cs => simp
      rw [List.cons_append, List.append_assoc]
      refine .gap ?_ (ih last ends rfl)
      rw [← List.append_assoc]
      exact pieceAt_semicolon piece (by simp) (fun _ => left) free
  | @token p q c as cs ds kind ts piece rest ih =>
      subst nil
      rw [List.cons_append, List.append_assoc]
      refine .token ?_ ?_
      · rw [← List.append_assoc]
        exact pieceAt_semicolon piece (by simp) (by simp) free
      cases ts with
      | nil =>
          rw [List.getLast?_singleton, Option.some_inj] at last
          obtain ⟨between, rfl, rfl⟩ := rest.used
          have none : between.length = 0 := by
            rw [← last, Place.past_offset, Place.past_offset, List.length_cons] at ends
            simp only [ofPiece, make] at ends
            omega
          rw [List.eq_nil_of_length_eq_zero none]
          exact .done
      | cons u us => exact ih (by rwa [List.getLast?_cons_cons] at last) ends rfl

end Scanned

end Runloop.Token
