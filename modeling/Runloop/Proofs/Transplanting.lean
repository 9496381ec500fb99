/-
# What is read of a stretch of text is read wherever it stands

A stretch of a text may be put into another text (`Transplant`), where its tokens stand on
the same lines and as far behind one another (`Transplant.Beside`).  What readers of
expressions give that take nothing behind the stretch, they give there, too: the same
value, and they stop at the same token (`Transplant.Follows`).  For a function that is kept
as text this is the same text, since what is cut out of the stretch is the same in both.

As with what readers take, this is shown of all of them at once, by induction on how much
text the tokens stand for, with one lemma for each reader.  Where a reader looks beyond
what it takes, it may look behind the stretch.  There the one text is as it is; in the
other one there is nothing or a semicolon, which no reader goes on with.
-/
import Runloop.Proofs.Readers

namespace Runloop.Grammar

/-- A stretch of text that stands in two texts, and the tokens that stand behind it in
each; in the second text these are semicolons. -/
structure Transplant where
  text : List Char
  front : List Char
  back : List Char
  rest : List Token
  front' : List Char
  back' : List Char
  rest' : List Token
  ends : ∀ t ∈ rest', t.isMark ";" = true

namespace Transplant

variable (m : Transplant)

/-- The text that it is taken from. -/
def source : List Char := m.front ++ (m.text ++ m.back)

/-- The text that it is put into. -/
def source' : List Char := m.front' ++ (m.text ++ m.back')

/-- A token of the stretch in the one text and in the other. -/
structure Same (t t' : Token) : Prop where
  kind : t'.kind = t.kind
  text : t'.text = t.text
  line : t'.line = t.line
  start : t'.start + m.front.length = t.start + m.front'.length
  stop : t'.stop + m.front.length = t.stop + m.front'.length
  low : m.front.length ≤ t.start
  order : t.start ≤ t.stop
  high : t.stop ≤ m.front.length + m.text.length
  lexed : t.Lexed

/-- What is left of the stretch in the one text, with what stands behind it, and the same
in the other. -/
inductive Beside : List Token → List Token → Prop
  | rest {ts ts' : List Token} (eq : ts = m.rest) (eq' : ts' = m.rest') : Beside ts ts'
  | cons {t t' : Token} {ts ts' : List Token} (same : m.Same t t') (beside : Beside ts ts') :
      Beside (t :: ts) (t' :: ts')

/-- Two readings stop in the same place, with values that are related. -/
structure Agrees {α : Type} {n n' : Nat} (R : α → α → Prop) (p : Parsed α n) (p' : Parsed α n') :
    Prop where
  value : R p.value p'.value
  last : m.Same p.last p'.last
  rest : m.Beside p.rest p'.rest

/-- If the one reader gives something and has taken nothing from behind the stretch, the
other gives something that agrees with it. -/
def Follows {α : Type} {n n' : Nat} (R : α → α → Prop) (r : Except Stop (Parsed α n))
    (r' : Except Stop (Parsed α n')) : Prop :=
  ∀ p, r = .ok p → weight m.rest ≤ weight p.rest → ∃ p', r' = .ok p' ∧ m.Agrees R p p'

/-- Expressions of less than so much text are read wherever they stand. -/
def Carries (n : Nat) : Prop :=
  ∀ ts ts', weight ts < n → m.Beside ts ts' →
    m.Follows Eq (expression m.source ts) (expression m.source' ts')

end Transplant

/-! ## How much is left -/

variable {α β : Type} {k n n' : Nat} {t t' c c' : Token} {ts ts' us us' : List Token}

/-- What is read leaves less than so much. -/
def Leaves (n : Nat) (r : Except Stop (Parsed α k)) : Prop :=
  ∀ p, r = .ok p → weight p.rest < n

namespace Leaves

theorem refuse (why : Refusal) : Leaves n (Grammar.refuse why : Except Stop (Parsed α k)) :=
  fun _ read => nomatch read

theorem ok {p : Parsed α k} (less : weight p.rest < n) : Leaves n (.ok p) := by
  intro q eq
  cases eq
  exact less

theorem bind {γ : Type} {x : Except Stop γ} {f : γ → Except Stop (Parsed α k)}
    (next : ∀ a, Leaves n (f a)) : Leaves n (x >>= f) := by
  intro p eq
  cases x with
  | error stop => cases eq
  | ok a => exact next a p eq

theorem map {j : Nat} {r : Except Stop (Parsed α j)} {f : Parsed α j → Parsed β k}
    (less : ∀ p, weight (f p).rest < n) : Leaves n (r.map f) := by
  intro p eq
  cases r with
  | error stop => cases eq
  | ok q =>
      cases eq
      exact less q

/-- Every reading leaves less than its bound. -/
theorem of_le {r : Except Stop (Parsed α k)} (le : k ≤ n) : Leaves n r :=
  fun p _ => Nat.lt_of_lt_of_le p.fewer le

end Leaves

namespace Transplant

variable {m : Transplant}

/-! ## Tokens of the stretch -/

namespace Same

variable (h : m.Same t t')

include h

theorem spells (s : String) : t'.spells s = t.spells s := by
  rw [Token.spells, Token.spells, h.kind, h.text]

theorem isMark (s : String) : t'.isMark s = t.isMark s := by
  rw [Token.isMark, Token.isMark, h.kind, h.text]

theorem opens : t'.opens = t.opens := by
  rw [Token.opens, Token.opens, h.isMark, h.isMark, h.isMark]

theorem closes : t'.closes = t.closes := by
  rw [Token.closes, Token.closes, h.isMark, h.isMark, h.isMark]

theorem operatorAt? (level : Nat) : Grammar.operatorAt? level t' = Grammar.operatorAt? level t := by
  rw [Grammar.operatorAt?, Grammar.operatorAt?, h.kind, h.text]

theorem unaryAt? : Grammar.unaryAt? t' = Grammar.unaryAt? t := by
  rw [Grammar.unaryAt?, Grammar.unaryAt?, h.kind, h.text]

theorem isAssignment : Grammar.isAssignment t' = Grammar.isAssignment t := by
  rw [Grammar.isAssignment, Grammar.isAssignment, h.kind, h.text]

theorem quotedText : Grammar.quotedText t' = Grammar.quotedText t := by
  rw [Grammar.quotedText, Grammar.quotedText, h.text]

theorem entryKey : Grammar.entryKey t' = Grammar.entryKey t := by
  rw [Grammar.entryKey, Grammar.entryKey, h.kind, h.text, h.quotedText]

theorem piecesOf : Grammar.piecesOf t' = Grammar.piecesOf t := by
  rw [Grammar.piecesOf, Grammar.piecesOf, h.text]

end Same

theorem kind_rest' (ht : t ∈ m.rest') : t.kind = .mark ∧ t.text = ";" := by
  have ends := m.ends t ht
  simpa only [Token.isMark, Bool.and_eq_true, beq_iff_eq] using ends

/-- A semicolon is nothing else. -/
theorem spells_rest' (eq : t :: us = m.rest') {s : String} (other : s ≠ ";") :
    t.spells s = false := by
  obtain ⟨-, text⟩ := kind_rest' (eq ▸ List.mem_cons_self)
  simp [Token.spells, text, other.symm]

theorem slice_front (front : List Char) {text back : List Char} {lo hi : Nat}
    (le : front.length ≤ lo) (high : hi ≤ front.length + text.length) :
    slice (front ++ (text ++ back)) lo hi =
      slice text (lo - front.length) (hi - front.length) := by
  obtain ⟨k, rfl⟩ := Nat.exists_eq_add_of_le le
  have length : hi - front.length - (front.length + k - front.length) =
      hi - (front.length + k) := by omega
  rw [slice, slice, length, List.drop_length_add_append, Nat.add_sub_cancel_left]
  by_cases few : k + (hi - (front.length + k)) ≤ text.length
  · rw [List.drop_append_of_le_length (by omega), List.take_append_of_le_length]
    rw [List.length_drop]
    omega
  · have none : hi - (front.length + k) = 0 := by omega
    rw [none, List.take_zero, List.take_zero]

theorem weight_lt_rest {a : Token} (eq : a :: us = m.rest) : weight us < weight m.rest :=
  eq ▸ weight_lt_cons a us

/-- What is cut out of the stretch is the same in both texts. -/
theorem slice_eq {lo hi lo' hi' : Nat} (start : lo' + m.front.length = lo + m.front'.length)
    (stop : hi' + m.front.length = hi + m.front'.length) (low : m.front.length ≤ lo)
    (high : hi ≤ m.front.length + m.text.length) :
    slice m.source' lo' hi' = slice m.source lo hi := by
  rw [source, source', slice_front m.front low high, slice_front m.front' (by omega) (by omega)]
  congr 1
  · omega
  · omega

/-! ## Readings that follow one another -/

theorem Agrees.widen {R : α → α → Prop} {p : Parsed α n} {p' : Parsed α n'}
    (h : m.Agrees R p p') (le : n ≤ k) {k' : Nat} (le' : n' ≤ k') :
    m.Agrees R (p.widen le) (p'.widen le') :=
  ⟨h.value, h.last, h.rest⟩

theorem Agrees.map {p : Parsed α n} {p' : Parsed α n'} (h : m.Agrees Eq p p') (f : α → β) :
    m.Agrees Eq (p.map f) (p'.map f) :=
  ⟨congrArg f h.value, h.last, h.rest⟩

namespace Follows

variable {R : α → α → Prop} {S : β → β → Prop} {r : Except Stop (Parsed α n)}
  {r' : Except Stop (Parsed α n')}

theorem refuse (why : Refusal) : m.Follows R (Grammar.refuse why : Except Stop (Parsed α n)) r' :=
  fun _ read => nomatch read

theorem ok {p : Parsed α n} {p' : Parsed α n'} (agrees : m.Agrees R p p') :
    m.Follows R (.ok p) (.ok p') := by
  intro q eq _
  cases eq
  exact ⟨p', rfl, agrees⟩

/-- What takes something from behind the stretch need not be followed. -/
theorem past (leaves : Leaves (weight m.rest) r) : m.Follows R r r' :=
  fun p read stays => absurd (leaves p read) (Nat.not_lt.mpr stays)

theorem of_rest (eq : ts = m.rest) {r : Reading α ts} : m.Follows R r r' :=
  .past (.of_le (Nat.le_of_eq (congrArg weight eq)))

/-- What one branch takes from behind the stretch need not be followed. -/
theorem or_past {c : Prop} [Decidable c] (past : Leaves (weight m.rest) r)
    {s : Except Stop (Parsed α n)} (h : m.Follows R s r') :
    m.Follows R (if c then r else s) r' := by
  split
  · exact .past past
  · exact h

/-- A computation that gives something in the first text and the same in the second. -/
theorem bind_value {γ : Type} {x x' : Except Stop γ} {f : γ → Except Stop (Parsed α n)}
    {f' : γ → Except Stop (Parsed α n')} (same : ∀ a, x = .ok a → x' = .ok a)
    (next : ∀ a, m.Follows R (f a) (f' a)) : m.Follows R (x >>= f) (x' >>= f') := by
  cases x with
  | error stop => exact fun _ read => nomatch read
  | ok a =>
      rw [same a rfl]
      exact next a

/-- One reading after another: the second one leaves no more than the first one does. -/
theorem bind (h : m.Follows R r r') {f : Parsed α n → Except Stop (Parsed β k)} {k' : Nat}
    {f' : Parsed α n' → Except Stop (Parsed β k')} (less : ∀ p, Leaves (weight p.rest + 1) (f p))
    (next : ∀ p p', m.Agrees R p p' → m.Follows S (f p) (f' p')) :
    m.Follows S (r >>= f) (r' >>= f') := by
  intro q read stays
  cases r with
  | error stop => cases read
  | ok p =>
      obtain ⟨p', rfl, agrees⟩ := h p rfl (Nat.le_trans stays (Nat.le_of_lt_succ (less p q read)))
      exact next p p' agrees q read stays

/-- What is done with a reading that leaves the rest alone. -/
theorem map (h : m.Follows R r r') {f : Parsed α n → Parsed β k} {k' : Nat}
    {f' : Parsed α n' → Parsed β k'} (keeps : ∀ p, (f p).rest = p.rest)
    (next : ∀ p p', m.Agrees R p p' → m.Agrees S (f p) (f' p')) :
    m.Follows S (r.map f) (r'.map f') := by
  intro q read stays
  cases r with
  | error stop => cases read
  | ok p =>
      cases read
      rw [keeps] at stays
      obtain ⟨p', rfl, agrees⟩ := h p rfl stays
      exact ⟨f' p', rfl, next p p' agrees⟩

/-- The same where a reader returns it. -/
theorem returns (h : m.Follows R r r') {f : Parsed α n → Parsed β k} {k' : Nat}
    {f' : Parsed α n' → Parsed β k'} (keeps : ∀ p, (f p).rest = p.rest)
    (next : ∀ p p', m.Agrees R p p' → m.Agrees S (f p) (f' p')) :
    m.Follows S (do return f (← r)) (do return f' (← r')) :=
  h.bind (fun p => .ok (Nat.lt_succ_of_le (Nat.le_of_eq (congrArg weight (keeps p)))))
    fun p p' agrees => .ok (next p p' agrees)

end Follows

/-! ## Names, marks, parameters and blocks -/

theorem name_follows (h : m.Beside ts ts') : m.Follows Eq (name ts) (name ts') := by
  cases h with
  | rest eq => exact .of_rest eq
  | cons same beside =>
      rw [name, name]
      split
      · rename_i word
        rw [if_pos (same.kind.trans word)]
        exact .ok ⟨same.text.symm, same, beside⟩
      · exact .refuse _

/-- Which token it is that was expected does not matter. -/
theorem expect_follows (s : String) (h : m.Beside ts ts') :
    m.Follows (fun _ _ => True) (expect s ts) (expect s ts') := by
  cases h with
  | rest eq => exact .of_rest eq
  | cons same beside =>
      rw [expect, expect]
      split
      · rename_i spelled
        rw [if_pos ((same.spells s).trans spelled)]
        exact .ok ⟨trivial, same, beside⟩
      · exact .refuse _

theorem paramsRest_follows (h : m.Beside ts ts') :
    m.Follows Eq (paramsRest ts) (paramsRest ts') := by
  induction ts using weight_induction generalizing ts' with
  | _ ts ih =>
  cases h with
  | rest eq => exact .of_rest eq
  | @cons t t' ts ts' same beside =>
  cases beside with
  | @rest _ _ eq eq' =>
      rw [paramsRest.eq_def, paramsRest.eq_def]
      dsimp only
      rw [same.spells, same.kind]
      split
      · exact .ok ⟨rfl, same, .rest eq eq'⟩
      split
      · exact .refuse _
      cases ts with
      | nil => exact .refuse _
      | cons c more =>
          dsimp only
          split
          · exact .past (.map fun p => Nat.lt_trans p.fewer (weight_lt_rest eq))
          split
          · exact .past (.ok (weight_lt_rest eq))
          · exact .refuse _
  | @cons c c' more more' same' beside =>
      rw [paramsRest, paramsRest, same.spells, same.kind, same.text]
      split
      · exact .ok ⟨rfl, same, .cons same' beside⟩
      split
      · exact .refuse _
      rw [same'.spells, same'.spells]
      split
      · have fewer : weight more < weight (t :: c :: more) :=
          Nat.lt_trans (weight_lt_cons c more) (weight_lt_cons t _)
        exact (ih more fewer beside).map (fun _ => rfl) fun p p' agrees =>
          (agrees.map (t.text :: ·)).widen _ _
      split
      · exact .ok ⟨rfl, same', beside⟩
      · exact .refuse _

theorem params_follows (h : m.Beside ts ts') : m.Follows Eq (params ts) (params ts') := by
  cases h with
  | rest eq => exact .of_rest eq
  | cons same beside =>
      rw [params, params, same.spells]
      split
      · exact (paramsRest_follows beside).map (fun _ => rfl) fun _ _ agrees => agrees.widen _ _
      · exact .refuse _

theorem closingBrace_follows {depth : Nat} (h : m.Beside ts ts')
    (closes : closingBrace depth ts = some (c, us)) (stays : weight m.rest ≤ weight us) :
    ∃ c' us', closingBrace depth ts' = some (c', us') ∧ m.Same c c' ∧ m.Beside us us' := by
  induction h generalizing depth with
  | rest eq =>
      have := weight_closingBrace closes
      rw [eq] at this
      exact absurd this (Nat.not_lt.mpr stays)
  | @cons t t' ts ts' same beside ih =>
      rw [closingBrace.eq_def] at closes ⊢
      dsimp only at closes ⊢
      rw [same.isMark, same.isMark]
      split at closes
      · rename_i opens
        rw [if_pos opens]
        exact ih closes
      · rename_i other
        rw [if_neg other]
        split at closes
        · rename_i shuts
          rw [if_pos shuts]
          cases depth with
          | zero =>
              cases closes
              exact ⟨t', ts', rfl, same, beside⟩
          | succ depth => exact ih closes
        · rename_i neither
          rw [if_neg neither]
          exact ih closes

theorem block_follows (h : m.Beside ts ts') :
    m.Follows Eq (block m.source ts) (block m.source' ts') := by
  cases h with
  | rest eq => exact .of_rest eq
  | @cons t t' ts ts' same beside =>
      intro p read stays
      rw [block] at read ⊢
      rw [same.spells]
      split at read
      · rename_i opens
        rw [if_pos opens]
        split at read
        · cases read
        · rename_i close more closes
          cases read
          obtain ⟨close', more', closes', sameClose, beside'⟩ :=
            closingBrace_follows beside closes stays
          split
          · rename_i none
            rw [closes'] at none
            cases none
          · rename_i close'' more'' closes''
            obtain ⟨rfl, rfl⟩ := Prod.mk.inj (Option.some.inj (closes'.symm.trans closes''))
            refine ⟨_, rfl, ?_, sameClose, beside'⟩
            rw [same.line, sameClose.line, slice_eq same.stop sameClose.start]
            · exact Nat.le_trans same.low same.order
            · exact Nat.le_trans sameClose.order sameClose.high
      · cases read

/-! ## Functions -/

theorem functionRest_follows (h : m.Beside ts ts') :
    m.Follows Eq (functionRest m.source ts) (functionRest m.source' ts') := by
  have less {n k : Nat} {ps : Parsed (List String) n} {f : Block → Expr}
      {le : weight ps.rest ≤ k} : Leaves (weight ps.rest + 1) (do
        let p ← block m.source ps.rest
        return (p.map f).widen le : Except Stop (Parsed Expr k)) :=
    .bind fun p => .ok (Nat.lt_succ_of_lt p.fewer)
  cases h with
  | rest eq => exact .of_rest eq
  | @cons t t' ts ts' same beside =>
      rw [functionRest, functionRest, same.kind, same.text]
      split
      · refine (params_follows beside).bind (fun _ => less) ?_
        rintro ⟨ps, last, rest, fewer⟩ ⟨ps', last', rest', fewer'⟩ ⟨rfl, -, beside⟩
        exact (block_follows beside).returns (fun _ => rfl) fun p p' agrees =>
          (agrees.map _).widen _ _
      · refine (params_follows (.cons same beside)).bind (fun _ => less) ?_
        rintro ⟨ps, last, rest, fewer⟩ ⟨ps', last', rest', fewer'⟩ ⟨rfl, -, beside⟩
        exact (block_follows beside).returns (fun _ => rfl) fun p p' agrees =>
          (agrees.map _).widen _ _

theorem conciseArrow_eq (ps : List String) (first : m.Same t t') (last : m.Same c c') :
    conciseArrow m.source ps t c = conciseArrow m.source' ps t' c' := by
  rw [conciseArrow, conciseArrow, first.line, slice_eq first.start last.stop first.low last.high]

/-- An arrow function takes something behind its arrow. -/
theorem arrow_leaves (source : List Char) (ps : List String) (t : Token) (more : List Token) :
    Leaves (weight more) (arrow source ps (t :: more)) := by
  cases more with
  | nil =>
      rw [arrow]
      split
      · exact .refuse _
      · exact .refuse _
  | cons first more =>
      rw [arrow]
      split
      · exact .refuse _
      split
      · exact .bind fun p => .ok p.fewer
      · refine .bind ?_
        rintro ⟨e, last, rest, fewer⟩
        cases rest with
        | nil => exact .ok fewer
        | cons a rest =>
            dsimp only
            split
            · have less := Nat.lt_trans (weight_lt_cons a rest) fewer
              exact .bind fun p => .ok (Nat.lt_trans p.fewer less)
            · exact .ok fewer

/-- No assignment follows the stretch in the second text. -/
theorem not_assigns_rest' {a : Token} (h : a :: us = m.rest') : isAssignment a = false := by
  obtain ⟨kind, -⟩ := kind_rest' (h ▸ List.mem_cons_self)
  simp [isAssignment, kind]

theorem arrow_follows (ps : List String) (h : m.Carries (weight ts)) (beside : m.Beside ts ts') :
    m.Follows Eq (arrow m.source ps ts) (arrow m.source' ps ts') := by
  cases beside with
  | rest eq => exact .of_rest eq
  | @cons t t' ts ts' same beside =>
  cases beside with
  | rest eq => exact .past (eq ▸ arrow_leaves m.source ps t ts)
  | @cons first first' more more' sameFirst beside =>
      rw [arrow, arrow, same.spells, sameFirst.spells]
      split
      · exact .refuse _
      split
      · exact (block_follows (.cons sameFirst beside)).returns (fun _ => rfl) fun p p' agrees =>
          (agrees.map _).widen _ _
      refine (h _ _ (weight_lt_cons ..) (.cons sameFirst beside)).bind ?_ ?_
      · rintro ⟨e, last, rest, fewer⟩
        cases rest with
        | nil => exact .ok (Nat.lt_succ_self _)
        | cons a rest =>
            dsimp only
            split
            · exact .bind fun p => .ok
                (Nat.lt_succ_of_lt (Nat.lt_trans p.fewer (weight_lt_cons a rest)))
            · exact .ok (Nat.lt_succ_self _)
      · rintro ⟨e, last, rest, fewer⟩ ⟨e', last', rest', fewer'⟩ ⟨rfl, sameLast, besideRest⟩
        have value := conciseArrow_eq ps sameFirst sameLast
        cases besideRest with
        | rest eq eq' =>
            cases rest' with
            | nil =>
                cases rest with
                | nil => exact .ok ⟨value, sameLast, .rest eq eq'⟩
                | cons a rest =>
                    exact .or_past (.bind fun p => .ok (Nat.lt_trans p.fewer (weight_lt_rest eq)))
                      (.ok ⟨value, sameLast, .rest eq eq'⟩)
            | cons a' rest' =>
                dsimp only
                rw [if_neg (by simp [not_assigns_rest' eq'])]
                cases rest with
                | nil => exact .ok ⟨value, sameLast, .rest eq eq'⟩
                | cons a rest =>
                    exact .or_past (.bind fun p => .ok (Nat.lt_trans p.fewer (weight_lt_rest eq)))
                      (.ok ⟨value, sameLast, .rest eq eq'⟩)
        | @cons a a' rest rest' sameA beside =>
            dsimp only
            rw [sameA.isAssignment]
            split
            · refine (h _ _ ?_ beside).bind ?_ ?_
              · exact Nat.lt_trans (weight_lt_cons a rest) (Nat.lt_trans fewer (weight_lt_cons ..))
              · exact fun p => .ok (Nat.lt_succ_self _)
              · rintro ⟨e, last, rest, fewer⟩ ⟨e', last', rest', fewer'⟩ ⟨rfl, sameLast, besideRest⟩
                exact .ok ⟨conciseArrow_eq ps sameFirst sameLast, sameLast, besideRest⟩
            · exact .ok ⟨value, sameLast, .cons sameA beside⟩

/-! ## Lists, objects and templates -/

theorem Carries.mono (h : m.Carries n) (le : k ≤ n) : m.Carries k :=
  fun ts ts' less => h ts ts' (Nat.lt_of_lt_of_le less le)

theorem items_follows (closing : String) (h : m.Carries (weight ts + 1))
    (beside : m.Beside ts ts') :
    m.Follows Eq (items m.source closing ts) (items m.source' closing ts') := by
  induction ts using weight_induction generalizing ts' with
  | _ ts ih =>
  cases beside with
  | rest eq => exact .of_rest eq
  | @cons t t' ts ts' same beside =>
  rw [items, items, nextIs, nextIs, same.spells]
  split
  · exact (expect_follows closing (.cons same beside)).map (fun _ => rfl) fun p p' agrees =>
      ⟨rfl, agrees.last, agrees.rest⟩
  refine (h _ _ (Nat.lt_succ_self _) (.cons same beside)).bind ?_ ?_
  · rintro ⟨e, last, rest, fewer⟩
    cases rest with
    | nil => exact .refuse _
    | cons c more =>
        dsimp only
        split
        · exact .bind fun p => .ok
            (Nat.lt_succ_of_lt (Nat.lt_trans p.fewer (weight_lt_cons c more)))
        · exact .bind fun p => .ok (Nat.lt_succ_of_lt p.fewer)
  · rintro ⟨e, last, rest, fewer⟩ ⟨e', last', rest', fewer'⟩ ⟨rfl, sameLast, besideRest⟩
    cases besideRest with
    | rest eq eq' =>
        cases rest with
        | nil => exact .refuse _
        | cons c more =>
            dsimp only
            split
            · exact .past (.bind fun p => .ok (Nat.lt_trans p.fewer (weight_lt_rest eq)))
            · exact .past (.bind fun p => .ok (Nat.lt_of_lt_of_eq p.fewer (congrArg weight eq)))
    | @cons c c' more more' sameC beside =>
        have less : weight more < weight (t :: ts) := Nat.lt_trans (weight_lt_cons c more) fewer
        dsimp only
        rw [sameC.spells]
        split
        · exact (ih more less (h.mono (Nat.succ_le_succ (Nat.le_of_lt less))) beside).returns
            (fun _ => rfl) fun p p' agrees => (agrees.map _).widen _ _
        · exact (expect_follows closing (.cons sameC beside)).returns (fun _ => rfl)
            fun p p' agrees => ⟨rfl, agrees.last, agrees.rest⟩

/-- The value of an entry, if something of the stretch is left for it. -/
theorem entryValue_follows (key : String) (key' : m.Same t t') (h : m.Carries (weight (c :: us)))
    (same : m.Same c c') (beside : m.Beside us us') :
    m.Follows Eq (entryValue m.source t key (c :: us))
      (entryValue m.source' t' key (c' :: us')) := by
  rw [entryValue, entryValue, same.spells, same.spells, same.spells, same.spells, key'.kind]
  split
  · exact (h _ _ (weight_lt_cons ..) beside).returns (fun _ => rfl) fun p p' agrees =>
      agrees.widen _ _
  split
  · exact .ok ⟨rfl, key', .cons same beside⟩
  split
  · refine (params_follows (.cons same beside)).bind ?_ ?_
    · exact fun _ => .bind fun p => .ok (Nat.lt_succ_of_lt p.fewer)
    · rintro ⟨ps, last, rest, fewer⟩ ⟨ps', last', rest', fewer'⟩ ⟨rfl, -, beside⟩
      exact (block_follows beside).returns (fun _ => rfl) fun p p' agrees =>
        (agrees.map _).widen _ _
  · exact .refuse _

theorem entries_follows (h : m.Carries (weight ts)) (beside : m.Beside ts ts') :
    m.Follows Eq (entries m.source ts) (entries m.source' ts') := by
  induction ts using weight_induction generalizing ts' with
  | _ ts ih =>
  cases beside with
  | rest eq => exact .of_rest eq
  | @cons t t' ts ts' same beside =>
  rw [entries, entries, same.spells, same.entryKey]
  split
  · exact .ok ⟨rfl, same, beside⟩
  refine .bind_value (fun _ read => read) fun key => ?_
  cases beside with
  | rest eq eq' =>
      refine .past (.bind ?_)
      rintro ⟨e, last, rest, fewer⟩
      rw [eq] at fewer
      cases rest with
      | nil => exact .refuse _
      | cons c more =>
          have less : weight more < weight m.rest :=
            Nat.lt_of_lt_of_le (weight_lt_cons c more) (Nat.le_of_lt_succ fewer)
          dsimp only
          split
          · exact .bind fun p => .ok (Nat.lt_trans p.fewer less)
          · exact .bind fun p => .ok (Nat.lt_of_lt_of_le p.fewer (Nat.le_of_lt_succ fewer))
  | @cons c c' more more' sameC beside =>
  refine (entryValue_follows key same (h.mono (weight_le_cons ..)) sameC beside).bind ?_ ?_
  · rintro ⟨e, last, rest, fewer⟩
    cases rest with
    | nil => exact .refuse _
    | cons c more =>
        dsimp only
        split
        · exact .bind fun p => .ok
            (Nat.lt_succ_of_lt (Nat.lt_trans p.fewer (weight_lt_cons c more)))
        · exact .bind fun p => .ok (Nat.lt_succ_of_lt p.fewer)
  · rintro ⟨e, last, rest, fewer⟩ ⟨e', last', rest', fewer'⟩ ⟨rfl, sameLast, besideRest⟩
    cases besideRest with
    | rest eq eq' =>
        cases rest with
        | nil => exact .refuse _
        | cons c more =>
            dsimp only
            split
            · exact .past (.bind fun p => .ok (Nat.lt_trans p.fewer (weight_lt_rest eq)))
            · exact .past (.bind fun p => .ok (Nat.lt_of_lt_of_eq p.fewer (congrArg weight eq)))
    | @cons d d' us us' sameD beside =>
        have less : weight us < weight (t :: c :: more) :=
          Nat.lt_trans (weight_lt_cons d us) (Nat.lt_of_lt_of_le fewer (weight_lt_cons t _))
        dsimp only
        rw [sameD.spells]
        split
        · exact (ih us less (h.mono (Nat.le_of_lt less)) beside).returns
            (fun _ => rfl) fun p p' agrees => (agrees.map _).widen _ _
        · exact (expect_follows "\x7d" (.cons sameD beside)).returns (fun _ => rfl)
            fun p p' agrees => ⟨rfl, agrees.last, agrees.rest⟩

/-- Of a template token, its parts depend on the line alone. -/
theorem templateParts_congr (line : t'.line = t.line) {ps : List TemplatePiece} :
    ∀ parts, templateParts t ps = .ok parts → templateParts t' ps = .ok parts := by
  induction ps with
  | nil =>
      intro parts read
      rw [templateParts] at read ⊢
      exact read
  | cons p ps ih =>
      intro parts read
      cases p with
      | text cs =>
          rw [templateParts] at read ⊢
          cases later : templateParts t ps with
          | error stop =>
              rw [later] at read
              cases read
          | ok es =>
              rw [later] at read
              rw [ih es later]
              exact read
      | hole cs =>
          rw [templateParts] at read ⊢
          rw [line]
          cases alone : standalone (t.line - 1) cs with
          | error stop =>
              rw [alone] at read
              cases read
          | ok e =>
          cases later : templateParts t ps with
          | error stop =>
              rw [alone, later] at read
              cases read
          | ok es =>
              rw [alone, later] at read
              rw [ih es later]
              exact read
      | openHole =>
          rw [templateParts] at read
          cases read

/-! ## Expressions -/

theorem nextIs_rest' {s : String} (eq : ts' = m.rest') (other : s ≠ ";") :
    nextIs s ts' = false := by
  cases ts' with
  | nil => rfl
  | cons t ts' => exact spells_rest' eq other

/-- An expression that starts with a word. -/
theorem word_follows (same : m.Same t t') (h : m.Carries (weight (t :: ts)))
    (beside : m.Beside ts ts') :
    m.Follows Eq (word m.source t ts) (word m.source' t' ts') := by
  rw [word.eq_def, word.eq_def, same.text]
  dsimp only
  split
  · exact .ok ⟨rfl, same, beside⟩
  · exact .ok ⟨rfl, same, beside⟩
  · exact .ok ⟨rfl, same, beside⟩
  · exact .ok ⟨rfl, same, beside⟩
  · exact (functionRest_follows beside).map (fun _ => rfl) fun p p' agrees => agrees.widen _ _
  · refine (name_follows beside).bind ?_ ?_
    · rintro ⟨n, last, rest, fewer⟩
      cases rest with
      | nil => exact .ok (Nat.lt_succ_self _)
      | cons p rest =>
          dsimp only
          split
          · exact .bind fun q => .ok
              (Nat.lt_succ_of_lt (Nat.lt_trans q.fewer (weight_lt_cons p rest)))
          · exact .ok (Nat.lt_succ_self _)
    · rintro ⟨n, last, rest, fewer⟩ ⟨n', last', rest', fewer'⟩ ⟨rfl, sameLast, besideRest⟩
      cases besideRest with
      | rest eq eq' =>
          cases rest' with
          | nil =>
              cases rest with
              | nil => exact .ok ⟨rfl, sameLast, .rest eq eq'⟩
              | cons p rest =>
                  exact .or_past (.bind fun q => .ok (Nat.lt_trans q.fewer (weight_lt_rest eq)))
                    (.ok ⟨rfl, sameLast, .rest eq eq'⟩)
          | cons p' rest' =>
              dsimp only
              rw [if_neg (by simp [spells_rest' eq' (s := "(")])]
              cases rest with
              | nil => exact .ok ⟨rfl, sameLast, .rest eq eq'⟩
              | cons p rest =>
                  exact .or_past (.bind fun q => .ok (Nat.lt_trans q.fewer (weight_lt_rest eq)))
                    (.ok ⟨rfl, sameLast, .rest eq eq'⟩)
      | @cons p p' rest rest' sameP beside =>
          have less : weight rest + 1 ≤ weight (t :: ts) := Nat.succ_le_of_lt <|
            Nat.lt_trans (weight_lt_cons p rest) (Nat.lt_trans fewer (weight_lt_cons t ts))
          dsimp only
          rw [sameP.spells]
          split
          · refine (items_follows ")" (h.mono less) beside).bind ?_ ?_
            · exact fun q => .ok (Nat.lt_succ_self _)
            · rintro ⟨es, last, rest, fewer⟩ ⟨es', last', rest', fewer'⟩ ⟨rfl, sameLast, beside⟩
              exact .ok ⟨rfl, sameLast, beside⟩
          · exact .ok ⟨rfl, sameLast, .cons sameP beside⟩
  · cases beside with
    | rest eq eq' =>
        rw [if_neg (c := nextIs "=>" ts' = true) (by simp [nextIs_rest' eq'])]
        refine .or_past (.bind fun p => .ok (Nat.lt_of_lt_of_eq p.fewer (congrArg weight eq))) ?_
        split
        · exact .refuse _
        · exact .ok ⟨rfl, same, .rest eq eq'⟩
    | @cons c c' more more' sameC beside =>
        rw [nextIs, nextIs, sameC.spells]
        split
        · exact (arrow_follows [t.text] (h.mono (weight_le_cons ..)) (.cons sameC beside)).returns
            (fun _ => rfl) fun p p' agrees => agrees.widen _ _
        split
        · exact .refuse _
        · exact .ok ⟨rfl, same, .cons sameC beside⟩

/-! ## Where an arrow follows -/

/-- Behind semicolons no arrow follows: they close no bracket. -/
theorem arrowFollows_ends {us : List Token} (ends : ∀ t ∈ us, t.kind = .mark ∧ t.text = ";")
    (depth : Nat) : arrowFollows depth us = false := by
  induction us with
  | nil => rfl
  | cons t us ih =>
      obtain ⟨-, text⟩ := ends t List.mem_cons_self
      have bare : t.opens = false ∧ t.closes = false := by
        simp [Token.opens, Token.closes, Token.isMark, text]
      rw [arrowFollows.eq_def]
      dsimp only
      rw [if_neg (by simp [bare]), if_neg (by simp [bare])]
      exact ih fun u hu => ends u (List.mem_cons_of_mem t hu)

/-- If an arrow follows in the second text, it is the same one. -/
theorem arrowFollows_of_beside {depth : Nat} (h : m.Beside ts ts')
    (follows : arrowFollows depth ts' = true) : arrowFollows depth ts = true := by
  induction h generalizing depth with
  | @rest ts ts' eq eq' =>
      rw [arrowFollows_ends (fun t ht => kind_rest' (eq' ▸ ht))] at follows
      cases follows
  | @cons t t' ts ts' same beside ih =>
      rw [arrowFollows.eq_def] at follows ⊢
      dsimp only at follows ⊢
      rw [same.opens, same.closes] at follows
      split at follows
      · rename_i opens
        rw [if_pos opens]
        exact ih follows
      rename_i other
      rw [if_neg other]
      split at follows
      · rename_i closes
        rw [if_pos closes]
        split at follows
        · rename_i le
          rw [if_pos le]
          cases beside with
          | @rest ts ts' eq eq' =>
              cases ts' with
              | nil => cases follows
              | cons next more =>
                  obtain ⟨-, text⟩ := kind_rest' (eq' ▸ List.mem_cons_self)
                  simp [text] at follows
          | cons sameNext =>
              dsimp only at follows ⊢
              rw [← sameNext.text]
              exact follows
        · rename_i deeper
          rw [if_neg deeper]
          exact ih follows
      · rename_i neither
        rw [if_neg neither]
        exact ih follows

theorem arrowFollows_plain (plain : t.plain = true) (depth : Nat) (ts : List Token) :
    arrowFollows depth (t :: ts) = arrowFollows depth ts := by
  simp only [Token.plain, Bool.and_eq_true, Bool.not_eq_true'] at plain
  rw [arrowFollows.eq_def]
  dsimp only
  rw [if_neg (by simp [plain]), if_neg (by simp [plain])]

/-- The parenthesis that closes parameters is the one that an arrow follows. -/
theorem arrowFollows_closing (lexed : t.Lexed) (closing : t.spells ")" = true)
    (arrow : c.spells "=>" = true) : arrowFollows 1 (t :: c :: us) = true := by
  have mark := lexed.isMark closing (by decide)
  have closes : t.opens = false ∧ t.closes = true := by
    simp only [Token.isMark, Bool.and_eq_true, beq_iff_eq] at mark
    simp [Token.opens, Token.closes, Token.isMark, mark]
  rw [arrowFollows.eq_def]
  dsimp only
  rw [if_neg (by simp [closes]), if_pos closes.2, if_pos (Nat.le_refl 1)]
  simp only [Token.spells, Bool.and_eq_true] at arrow
  exact arrow.2

theorem arrowFollows_of_paramsRest (lexed : Lexes ts) {ps : Parsed (List String) (weight ts)}
    (read : paramsRest ts = .ok ps) (behind : ps.rest = c :: us) (arrow : c.spells "=>" = true) :
    arrowFollows 1 ts = true := by
  induction ts using weight_induction with
  | _ ts ih =>
  cases ts with
  | nil => cases read
  | cons t ts =>
  rw [paramsRest.eq_def] at read
  dsimp only at read
  split at read
  · rename_i closing
    cases read
    obtain rfl : ts = c :: us := behind
    exact arrowFollows_closing (lexed t List.mem_cons_self) closing arrow
  split at read
  · cases read
  rename_i word
  rw [arrowFollows_plain (Token.plain_of_kind (by simp [Decidable.not_not.mp word]))]
  cases ts with
  | nil => cases read
  | cons d more =>
  dsimp only at read
  split at read
  · rename_i comma
    rw [arrowFollows_plain (Token.plain_of_spells comma (by decide))]
    have less := Nat.lt_trans (weight_lt_cons d more) (weight_lt_cons t (d :: more))
    cases inner : paramsRest more with
    | error stop =>
        rw [inner] at read
        cases read
    | ok q =>
        rw [inner] at read
        cases read
        exact ih more less lexed.tail.tail inner behind
  split at read
  · rename_i closing
    cases read
    obtain rfl : more = c :: us := behind
    exact arrowFollows_closing (lexed d (by simp)) closing arrow
  · cases read

/-- An arrow follows the parameters that it is read behind. -/
theorem arrowFollows_of_params (lexed : Lexes ts) {ps : Parsed (List String) (weight ts)}
    (read : params ts = .ok ps) (behind : ps.rest = c :: us) (arrow : c.spells "=>" = true) :
    arrowFollows 0 ts = true := by
  cases ts with
  | nil => cases read
  | cons t ts =>
  rw [params] at read
  split at read
  · rename_i opening
    have mark := (lexed t List.mem_cons_self).isMark opening (by decide)
    cases inner : paramsRest ts with
    | error stop =>
        rw [inner] at read
        cases read
    | ok q =>
        rw [inner] at read
        cases read
        rw [arrowFollows.eq_def]
        dsimp only
        rw [if_pos (by simp [Token.opens, mark])]
        exact arrowFollows_of_paramsRest lexed.tail inner behind arrow
  · cases read

theorem Beside.lexed (h : m.Beside ts ts') : Lexes ts' := by
  induction h with
  | rest _ eq' =>
      intro t ht
      obtain ⟨kind, text⟩ := kind_rest' (eq' ▸ ht)
      exact ⟨';', [], by rw [text]; rfl, by rw [kind]; rfl⟩
  | cons same _ ih =>
      intro u hu
      rcases List.mem_cons.mp hu with rfl | later
      · obtain ⟨c, cs, text, piece⟩ := same.lexed
        exact ⟨c, cs, by rw [same.text, text], by rw [same.kind, piece]⟩
      · exact ih u later

/-- Where an arrow function is read to its end in the stretch, its arrow follows in the
second text. -/
theorem arrowFollows_of_arrow (beside : m.Beside ts ts')
    {ps : Parsed (List String) (weight ts)} (read : params ts = .ok ps)
    {q : Parsed Expr (weight ps.rest)} (read' : arrow m.source ps.value ps.rest = .ok q)
    (stays : weight m.rest ≤ weight q.rest) : arrowFollows 0 ts' = true := by
  obtain ⟨ps', reads, agrees⟩ :=
    params_follows beside ps read (Nat.le_trans stays (Nat.le_of_lt q.fewer))
  obtain ⟨names, last, rest, fewer⟩ := ps
  obtain ⟨names', last', rest', fewer'⟩ := ps'
  obtain ⟨-, -, besideRest⟩ := agrees
  cases besideRest with
  | rest eq => exact absurd (Nat.lt_of_lt_of_eq q.fewer (congrArg weight eq)) (Nat.not_lt.mpr stays)
  | @cons c c' us us' sameC beside' =>
      have spelled : c'.spells "=>" = true := by
        rw [sameC.spells]
        by_contra other
        cases us with
        | nil =>
            rw [arrow, if_neg other] at read'
            cases read'
        | cons first us =>
            rw [arrow, if_pos (by simpa using other)] at read'
            cases read'
      exact arrowFollows_of_params beside.lexed reads rfl spelled

/-- An expression that starts with its own first token. -/
theorem primary_follows (h : m.Carries (weight ts)) (beside : m.Beside ts ts') :
    m.Follows Eq (primary m.source ts) (primary m.source' ts') := by
  cases beside with
  | rest eq => exact .of_rest eq
  | @cons t t' ts ts' same beside =>
  have inside : m.Carries (weight ts + 1) := h.mono (Nat.succ_le_of_lt (weight_lt_cons t ts))
  rw [primary, primary, same.kind, same.text, same.piecesOf, same.quotedText]
  split
  · exact .bind_value (fun _ read => read) fun n => .ok ⟨rfl, same, beside⟩
  · exact .ok ⟨rfl, same, beside⟩
  · exact .bind_value (templateParts_congr same.line) fun parts => .ok ⟨rfl, same, beside⟩
  · exact word_follows same h beside
  split
  · exact (items_follows "]" inside beside).returns (fun _ => rfl) fun p p' agrees =>
      (agrees.map _).widen _ _
  split
  · exact (entries_follows (h.mono (weight_le_cons t ts)) beside).returns (fun _ => rfl)
      fun p p' agrees => (agrees.map _).widen _ _
  split
  · split
    · -- the parentheses are those of an arrow function
      intro p read stays
      have right : arrowFollows 0 (t' :: ts') = true := by
        cases reads : params (t :: ts) with
        | error stop =>
            rw [reads] at read
            cases read
        | ok ps =>
            rw [reads] at read
            cases reads' : arrow m.source ps.value ps.rest with
            | error stop =>
                dsimp only [bind, Except.bind] at read
                rw [reads'] at read
                cases read
            | ok q =>
                dsimp only [bind, Except.bind] at read
                rw [reads'] at read
                cases read
                exact arrowFollows_of_arrow (.cons same beside) reads reads' stays
      rw [if_pos right]
      refine Follows.bind (params_follows (.cons same beside)) ?_ ?_ p read stays
      · exact fun ps => .bind fun q => .ok (Nat.lt_succ_of_lt q.fewer)
      · rintro ⟨ps, last, rest, fewer⟩ ⟨ps', last', rest', fewer'⟩ ⟨rfl, -, beside⟩
        exact (arrow_follows ps (h.mono (Nat.le_of_lt fewer)) beside).returns (fun _ => rfl)
          fun p p' agrees => agrees.widen _ _
    · -- they are a group
      rename_i none
      rw [if_neg fun follows => none (arrowFollows_of_beside (.cons same beside) follows)]
      refine (h _ _ (weight_lt_cons t ts) beside).bind ?_ ?_
      · exact fun p => .bind fun q => .ok (Nat.lt_succ_of_lt q.fewer)
      · rintro ⟨e, last, rest, fewer⟩ ⟨e', last', rest', fewer'⟩ ⟨rfl, -, beside⟩
        refine (expect_follows ")" beside).bind (fun q => .ok (Nat.lt_succ_self _)) ?_
        rintro ⟨c, last, rest, fewer⟩ ⟨c', last', rest', fewer'⟩ ⟨-, sameLast, beside⟩
        exact .ok ⟨rfl, sameLast, beside⟩
  · exact .refuse _

/-- Behind the stretch, the second text has no calls and accesses. -/
theorem suffixes_rest' (eq : ts' = m.rest') (start : Nat) (e : Expr) (last : Token) :
    suffixes m.source' start e last ts' = .ok ⟨e, last, ts', Nat.lt_succ_self _⟩ := by
  cases ts' with
  | nil => rw [suffixes]
  | cons t more =>
      rw [suffixes, if_neg (by simp [spells_rest' eq]), if_neg (by simp [spells_rest' eq]),
        if_neg (by simp [spells_rest' eq])]

/-- Calls and accesses behind an expression. -/
theorem suffixes_follows {start start' : Nat}
    (at' : start' + m.front.length = start + m.front'.length) (low : m.front.length ≤ start)
    (e : Expr) (last : m.Same c c') (h : m.Carries (weight ts)) (beside : m.Beside ts ts') :
    m.Follows Eq (suffixes m.source start e c ts) (suffixes m.source' start' e c' ts') := by
  induction ts using weight_induction generalizing e c c' ts' with
  | _ ts ih =>
  cases beside with
  | rest eq eq' =>
      rw [suffixes_rest' eq']
      have stops : m.Follows Eq (.ok ⟨e, c, ts, Nat.lt_succ_self _⟩ :
          Except Stop (Parsed Expr (weight ts + 1)))
          (.ok ⟨e, c', ts', Nat.lt_succ_self _⟩ : Except Stop (Parsed Expr (weight ts' + 1))) :=
        .ok ⟨rfl, last, .rest eq eq'⟩
      have before {n : Nat} {rest : List Token} {more : List Token} {t : Token}
          (fewer : weight rest < weight more) (eq : t :: more = m.rest) (le : n < weight rest + 1) :
          n < weight m.rest :=
        Nat.lt_of_le_of_lt (Nat.le_of_lt_succ le) (Nat.lt_trans fewer (weight_lt_rest eq))
      cases ts with
      | nil =>
          rw [suffixes]
          exact stops
      | cons t more =>
          rw [suffixes]
          refine .or_past ?_ (.or_past ?_ (.or_past ?_ stops))
          · exact .bind fun p => .bind fun q => .ok (before p.fewer eq q.fewer)
          · exact .bind fun p => .bind fun called => .bind fun q => .ok (before p.fewer eq q.fewer)
          · exact .bind fun p => .bind fun p' => .bind fun n => .bind fun q =>
              .ok (before (Nat.lt_trans p'.fewer p.fewer) eq q.fewer)
  | @cons t t' more more' same beside =>
      -- what is cut out reaches from where the expression starts to the last token of the access
      have cut {d d' : Token} (last : m.Same d d') :
          slice m.source' start' d'.stop = slice m.source start d.stop :=
        slice_eq at' last.stop low last.high
      have onward {us us' : List Token} {d d' : Token} (fewer : weight us < weight more)
          (e : Expr) (last : m.Same d d') (beside : m.Beside us us') :
          m.Follows Eq (suffixes m.source start e d us) (suffixes m.source' start' e d' us') := by
        have less := Nat.lt_trans fewer (weight_lt_cons t more)
        exact ih us less e last (h.mono (Nat.le_of_lt less)) beside
      rw [suffixes, suffixes, same.spells, same.spells, same.spells]
      split
      · refine (name_follows beside).bind (fun p => .bind fun q => .ok q.fewer) ?_
        rintro ⟨n, d, rest, fewer⟩ ⟨n', d', rest', fewer'⟩ ⟨rfl, sameLast, beside⟩
        dsimp only
        rw [cut sameLast]
        exact (onward fewer _ sameLast beside).returns (fun _ => rfl) fun p p' agrees =>
          agrees.widen _ _
      split
      · refine (items_follows ")" (h.mono (Nat.succ_le_of_lt (weight_lt_cons t more))) beside).bind
          (fun p => .bind fun called => .bind fun q => .ok q.fewer) ?_
        rintro ⟨args, d, rest, fewer⟩ ⟨args', d', rest', fewer'⟩ ⟨rfl, sameLast, beside⟩
        refine .bind_value (fun _ read => read) fun called => ?_
        exact (onward fewer called sameLast beside).returns (fun _ => rfl) fun p p' agrees =>
          agrees.widen _ _
      split
      · refine (h _ _ (weight_lt_cons t more) beside).bind
          (fun p => .bind fun p' => .bind fun n => .bind fun q =>
            .ok (Nat.lt_of_lt_of_le q.fewer (Nat.succ_le_succ (Nat.le_of_lt p'.fewer)))) ?_
        rintro ⟨key, d, rest, fewer⟩ ⟨key', d', rest', fewer'⟩ ⟨rfl, -, beside⟩
        refine (expect_follows "]" beside).bind
          (fun p => .bind fun n => .bind fun q => .ok q.fewer) ?_
        rintro ⟨b, d, rest₁, fewer₁⟩ ⟨b', d', rest₁', fewer₁'⟩ ⟨-, sameLast, beside⟩
        refine .bind_value (fun _ read => read) fun n => ?_
        rw [cut sameLast]
        exact (onward (Nat.lt_trans fewer₁ fewer) _ sameLast beside).returns (fun _ => rfl)
          fun p p' agrees => agrees.widen _ _
      · exact .ok ⟨rfl, last, .cons same beside⟩

theorem suffixed_follows (h : m.Carries (weight ts)) (beside : m.Beside ts ts') :
    m.Follows Eq (suffixed m.source ts) (suffixed m.source' ts') := by
  cases beside with
  | rest eq => exact .of_rest eq
  | @cons t t' ts ts' same beside =>
      rw [suffixed, suffixed]
      refine (primary_follows h (.cons same beside)).bind (fun p => .bind fun q => .ok q.fewer) ?_
      rintro ⟨e, last, rest, fewer⟩ ⟨e', last', rest', fewer'⟩ ⟨rfl, sameLast, beside⟩
      exact (suffixes_follows same.start same.low e sameLast (h.mono (Nat.le_of_lt fewer))
        beside).returns (fun _ => rfl) fun p p' agrees => agrees.widen _ _

/-- An expression with its prefix operators. -/
theorem unary_follows (h : m.Carries (weight ts)) (beside : m.Beside ts ts') :
    m.Follows Eq (unary m.source ts) (unary m.source' ts') := by
  induction ts using weight_induction generalizing ts' with
  | _ ts ih =>
  cases beside with
  | rest eq => exact .of_rest eq
  | @cons t t' ts ts' same beside =>
  have later := ih ts (weight_lt_cons t ts) (h.mono (weight_le_cons t ts)) beside
  rw [unary, unary, same.spells, same.unaryAt?]
  split
  · exact later.returns (fun _ => rfl) fun p p' agrees => (agrees.map _).widen _ _
  split
  · exact later.returns (fun _ => rfl) fun p p' agrees => (agrees.map _).widen _ _
  · exact suffixed_follows h (.cons same beside)

/-- Behind the stretch, the second text has no operators. -/
theorem binaryRest_rest' (eq : ts' = m.rest') (level : Nat) (e : Expr) (last : Token) :
    binaryRest m.source' level e last ts' = .ok ⟨e, last, ts', Nat.lt_succ_self _⟩ := by
  cases ts' with
  | nil => rw [binaryRest]
  | cons t more =>
      obtain ⟨kind, -⟩ := kind_rest' (eq ▸ List.mem_cons_self)
      have none : operatorAt? level t = none := if_neg (by simp [kind])
      rw [binaryRest, none]

/-- Further operands of a level, if those of the next one are read wherever they stand. -/
theorem binaryRest_follows (level : Nat)
    (next : ∀ us us', weight us < weight ts → m.Beside us us' →
      m.Follows Eq (binary m.source (level + 1) us) (binary m.source' (level + 1) us'))
    (e : Expr) (last : m.Same c c') (beside : m.Beside ts ts') :
    m.Follows Eq (binaryRest m.source level e c ts) (binaryRest m.source' level e c' ts') := by
  induction ts using weight_induction generalizing e c c' ts' with
  | _ ts ih =>
  cases beside with
  | rest eq eq' =>
      rw [binaryRest_rest' eq']
      have stops : m.Follows Eq (.ok ⟨e, c, ts, Nat.lt_succ_self _⟩ :
          Except Stop (Parsed Expr (weight ts + 1)))
          (.ok ⟨e, c', ts', Nat.lt_succ_self _⟩ : Except Stop (Parsed Expr (weight ts' + 1))) :=
        .ok ⟨rfl, last, .rest eq eq'⟩
      cases ts with
      | nil =>
          rw [binaryRest]
          exact stops
      | cons t more =>
          rw [binaryRest]
          split
          · exact stops
          · exact .past (.bind fun p => .bind fun q => .ok (Nat.lt_of_le_of_lt
              (Nat.le_of_lt_succ q.fewer) (Nat.lt_trans p.fewer (weight_lt_rest eq))))
  | @cons t t' more more' same beside =>
      rw [binaryRest, binaryRest, same.operatorAt?]
      split
      · exact .ok ⟨rfl, last, .cons same beside⟩
      · rename_i op _
        refine (next more more' (weight_lt_cons t more) beside).bind
          (fun p => .bind fun q => .ok q.fewer) ?_
        rintro ⟨right, d, rest, fewer⟩ ⟨right', d', rest', fewer'⟩ ⟨rfl, sameLast, beside⟩
        have less : weight rest < weight (t :: more) := Nat.lt_trans fewer (weight_lt_cons t more)
        exact (ih rest less (fun us us' lt => next us us' (Nat.lt_trans lt less)) _ sameLast
          beside).returns (fun _ => rfl) fun p p' agrees => agrees.widen _ _

/-- An expression of a level of binary operators. -/
theorem binary_follows (h : m.Carries (weight ts)) (beside : m.Beside ts ts') (level : Nat) :
    m.Follows Eq (binary m.source level ts) (binary m.source' level ts') := by
  induction hn : BinaryOp.levels - level generalizing level ts ts' with
  | zero =>
      rw [binary.eq_def m.source, binary.eq_def m.source', if_neg (by omega), if_neg (by omega)]
      exact unary_follows h beside
  | succ n ih =>
      rw [binary.eq_def m.source, binary.eq_def m.source', if_pos (by omega), if_pos (by omega)]
      refine (ih h beside (level + 1) (by omega)).bind (fun p => .bind fun q => .ok q.fewer) ?_
      rintro ⟨e, last, rest, fewer⟩ ⟨e', last', rest', fewer'⟩ ⟨rfl, sameLast, beside⟩
      refine (binaryRest_follows level (fun us us' less beside => ?_) e sameLast beside).returns
        (fun _ => rfl) fun p p' agrees => agrees.widen _ _
      exact ih (h.mono (Nat.le_of_lt (Nat.lt_trans less fewer))) beside (level + 1) (by omega)

/-- An expression is read wherever it stands. -/
theorem expression_follows (beside : m.Beside ts ts') :
    m.Follows Eq (expression m.source ts) (expression m.source' ts') := by
  have all (n : Nat) : m.Carries n := by
    induction n with
    | zero => exact fun ts ts' none => absurd none (Nat.not_lt_zero _)
    | succ n ih =>
        intro ts ts' less beside
        rw [expression, expression]
        exact binary_follows (ih.mono (Nat.le_of_lt_succ less)) beside 0
  exact all (weight ts + 1) ts ts' (Nat.lt_succ_self _) beside

end Transplant

end Runloop.Grammar
