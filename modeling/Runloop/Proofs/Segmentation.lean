/-
# Statements are cut along the brackets

A text that is read is cut into stretches, one behind the other, each of which is a
statement, recognized or skipped (`Cut`).  Where they end is settled in three ways:
readers of expressions and statements take whole brackets, a block is closed by
counting braces alone, and a statement that is skipped ends where a count of all
brackets has come down.  If the brackets of the text match, all three agree with the
one way of matching them (`nest`): what is taken leaves no bracket open, so that no
group of brackets is ever divided between two statements.
-/
import Runloop.Proofs.Statements

namespace Runloop

namespace Token

variable {t o c : Token}

theorem opens_of_closes (h : t.closes = true) : t.opens = false := by
  simp only [closes, isMark, Bool.or_eq_true, Bool.and_eq_true, beq_iff_eq] at h
  rcases h with (⟨kind, text⟩ | ⟨kind, text⟩) | ⟨kind, text⟩ <;> simp [opens, isMark, text]

theorem opens_of_pairs (h : o.pairs c = true) : o.opens = true := by
  simp only [pairs, Bool.or_eq_true, Bool.and_eq_true] at h
  rcases h with (h | h) | h <;> simp [opens, h.1]

theorem closes_of_pairs (h : o.pairs c = true) : c.closes = true := by
  simp only [pairs, Bool.or_eq_true, Bool.and_eq_true] at h
  rcases h with (h | h) | h <;> simp [closes, h.2]

/-- Braces are closed by braces. -/
theorem brace_of_pairs (h : o.pairs c = true) : o.isMark "\x7b" = c.isMark "\x7d" := by
  simp only [pairs, isMark, Bool.or_eq_true, Bool.and_eq_true, beq_iff_eq] at h
  rcases h with (h | h) | h <;> simp [isMark, h.1.1, h.1.2, h.2.1, h.2.2]

end Token

namespace Grammar

variable {source : List Char} {ts us rest stack left : List Token} {t c o : Token}

/-! ## Matching brackets -/

/-- The brackets that are open behind the tokens, the innermost first, if those of
`stack` are before them; none if a bracket closes what it does not match. -/
def nest : List Token → List Token → Option (List Token)
  | stack, [] => some stack
  | stack, t :: ts =>
    if t.opens then nest (t :: stack) ts
    else if t.closes then
      match stack with
      | [] => none
      | o :: stack => if o.pairs t then nest stack ts else none
    else nest stack ts

/-- Every bracket is matched by one of its kind. -/
def Balanced (ts : List Token) : Prop := nest [] ts = some []

instance : Decidable (Balanced ts) := inferInstanceAs (Decidable (nest [] ts = some []))

@[simp] theorem nest_nil (stack : List Token) : nest stack [] = some stack := by
  cases stack <;> rfl

theorem nest_open (opens : t.opens = true) (stack ts : List Token) :
    nest stack (t :: ts) = nest (t :: stack) ts := by
  cases stack <;> simp [nest, opens]

theorem nest_plain (plain : t.plain = true) (stack ts : List Token) :
    nest stack (t :: ts) = nest stack ts := by
  simp only [Token.plain, Bool.and_eq_true, Bool.not_eq_true'] at plain
  cases stack <;> simp [nest, plain]

theorem nest_close (pair : o.pairs c = true) (stack ts : List Token) :
    nest (o :: stack) (c :: ts) = nest stack ts := by
  have closes := Token.closes_of_pairs pair
  simp [nest, closes, Token.opens_of_closes closes, pair]

/-- What a bracket closes is there, and matches it. -/
theorem nest_close_cases (closes : c.closes = true) (h : nest stack (c :: ts) = some left) :
    ∃ o stack', stack = o :: stack' ∧ o.pairs c = true ∧ nest stack' ts = some left := by
  have other := Token.opens_of_closes closes
  cases stack with
  | nil => simp [nest, other, closes] at h
  | cons o stack =>
      rw [nest, if_neg (by simp [other]), if_pos closes] at h
      split at h
      · rename_i pair
        exact ⟨o, stack, rfl, pair, h⟩
      · cases h

theorem nest_append (stack ts us : List Token) :
    nest stack (ts ++ us) = (nest stack ts).bind (nest · us) := by
  induction ts generalizing stack with
  | nil => simp
  | cons t ts ih =>
      rw [List.cons_append]
      cases opens : t.opens with
      | true => rw [nest_open opens, nest_open opens, ih]
      | false =>
      cases closes : t.closes with
      | false =>
          have plain : t.plain = true := by simp [Token.plain, opens, closes]
          rw [nest_plain plain, nest_plain plain, ih]
      | true =>
          cases stack with
          | nil => simp [nest, opens, closes]
          | cons o stack =>
              cases pair : o.pairs t with
              | true => rw [nest_close pair, nest_close pair, ih]
              | false => simp [nest, opens, closes, pair]

/-- Behind the first part of some tokens there are brackets open. -/
theorem nest_append_cases (h : nest stack (ts ++ us) = some left) :
    ∃ middle, nest stack ts = some middle ∧ nest middle us = some left := by
  rw [nest_append] at h
  exact Option.bind_eq_some_iff.mp h

/-- Brackets that are open further out are left alone. -/
theorem nest_frame (h : nest stack ts = some left) (outer : List Token) :
    nest (stack ++ outer) ts = some (left ++ outer) := by
  induction ts generalizing stack with
  | nil =>
      rw [nest_nil] at h ⊢
      rw [Option.some.inj h]
  | cons t ts ih =>
      cases opens : t.opens with
      | true =>
          rw [nest_open opens] at h ⊢
          exact ih h
      | false =>
      cases closes : t.closes with
      | false =>
          have plain : t.plain = true := by simp [Token.plain, opens, closes]
          rw [nest_plain plain] at h ⊢
          exact ih h
      | true =>
          obtain ⟨o, stack, rfl, pair, h⟩ := nest_close_cases closes h
          rw [List.cons_append, nest_close pair]
          exact ih h

/-- What leads from nothing open to nothing open is balanced behind something that is. -/
theorem Balanced.cut (h : Balanced (ts ++ us)) (front : Balanced ts) : Balanced us := by
  obtain ⟨middle, first, second⟩ := nest_append_cases h
  obtain rfl := Option.some.inj (first.symm.trans front)
  exact second

/-! ## Readers take whole brackets -/

/-- The number of braces among open brackets. -/
def braces (stack : List Token) : Nat := stack.countP (·.isMark "\x7b")

theorem braces_cons_of_brace (h : t.isMark "\x7b" = true) (stack : List Token) :
    braces (t :: stack) = braces stack + 1 := List.countP_cons_of_pos h

theorem braces_cons_of_other (h : t.isMark "\x7b" = false) (stack : List Token) :
    braces (t :: stack) = braces stack := List.countP_cons_of_neg (by simp [h])

/-- Counting braces alone leads to the brace that is matched: as long as no bracket
closes what it does not match, the braces that are open are as many as were counted. -/
theorem nest_of_closingBrace {inner outer : List Token} (opens : o.isMark "\x7b" = true)
    (closed : closingBrace (braces inner) (ts ++ [c]) = some (c, []))
    (h : nest (inner ++ o :: outer) (ts ++ [c]) = some left) : left = outer := by
  -- `inner` are the brackets that are open inside the block, whose own brace is `o`.
  induction ts generalizing inner with
  | nil =>
      obtain ⟨mark, -⟩ := closingBrace_cases closed
      have closes : c.closes = true := by simp [Token.closes, mark]
      obtain ⟨o', stack, eq, pair, h⟩ := nest_close_cases closes h
      cases inner with
      | nil =>
          obtain ⟨-, rfl⟩ := List.cons.inj eq
          rw [nest_nil] at h
          exact (Option.some.inj h).symm
      | cons b inner =>
          obtain ⟨rfl, -⟩ := List.cons.inj eq
          have other : c.isMark "\x7b" = false := by
            simp only [Token.isMark, Bool.and_eq_true, beq_iff_eq] at mark
            simp [Token.isMark, mark.2]
          rw [braces_cons_of_brace ((Token.brace_of_pairs pair).trans mark), List.nil_append,
            closingBrace_close other mark] at closed
          cases closed
  | cons t ts ih =>
      rw [List.cons_append] at closed h
      cases brace : t.isMark "\x7b" with
      | true =>
          have opens' : t.opens = true := by simp [Token.opens, brace]
          rw [closingBrace_open brace, ← braces_cons_of_brace brace] at closed
          rw [nest_open opens'] at h
          exact ih closed h
      | false =>
      cases mark : t.isMark "\x7d" with
      | true =>
          have closes : t.closes = true := by simp [Token.closes, mark]
          obtain ⟨o', stack, eq, pair, h⟩ := nest_close_cases closes h
          cases inner with
          | nil =>
              rw [braces, List.countP_nil, closingBrace_end brace mark] at closed
              simp at closed
          | cons b inner =>
              obtain ⟨rfl, rfl⟩ := List.cons.inj eq
              rw [braces_cons_of_brace ((Token.brace_of_pairs pair).trans mark),
                closingBrace_close brace mark] at closed
              exact ih closed h
      | false =>
          rw [closingBrace_plain brace mark] at closed
          cases opens' : t.opens with
          | true =>
              rw [nest_open opens'] at h
              rw [← braces_cons_of_other brace] at closed
              exact ih closed h
          | false =>
          cases closes : t.closes with
          | true =>
              obtain ⟨o', stack, eq, pair, h⟩ := nest_close_cases closes h
              cases inner with
              | nil =>
                  -- What closes the block is a brace.
                  obtain ⟨rfl, -⟩ := List.cons.inj eq
                  rw [Token.brace_of_pairs pair, mark] at opens
                  cases opens
              | cons b inner =>
                  obtain ⟨rfl, rfl⟩ := List.cons.inj eq
                  rw [braces_cons_of_other ((Token.brace_of_pairs pair).trans mark)] at closed
                  exact ih closed h
          | false =>
              have plain : t.plain = true := by simp [Token.plain, opens', closes]
              rw [nest_plain plain] at h
              exact ih closed h

/-- What a reader takes leaves the open brackets as they were, unless they do not match. -/
theorem Shape.nest {bodies : List Body} (h : Shape source ts bodies) {stack left : List Token}
    (run : nest stack ts = some left) : left = stack := by
  induction h generalizing stack left with
  | nil =>
      rw [nest_nil] at run
      exact (Option.some.inj run).symm
  | single plain =>
      rw [nest_plain plain, nest_nil] at run
      exact (Option.some.inj run).symm
  | append _ _ ih ih' =>
      obtain ⟨middle, first, second⟩ := nest_append_cases run
      obtain rfl := ih first
      exact ih' second
  | group pair _ ih =>
      rw [nest_open (Token.opens_of_pairs pair)] at run
      obtain ⟨middle, first, second⟩ := nest_append_cases run
      obtain rfl := ih first
      rw [nest_close pair, nest_nil] at second
      exact (Option.some.inj second).symm
  | block opens closed =>
      rw [nest_open (by simp [Token.opens, opens])] at run
      have none : closingBrace (braces []) _ = _ := closed
      exact nest_of_closingBrace opens none run
  | concise arrow _ _ _ ih =>
      rw [nest_plain (Token.plain_of_spells arrow (by decide))] at run
      exact ih run

/-! ## Skipping takes whole brackets -/

/-- What is left behind a skipped statement is the end of the tokens; and what was skipped
closes the brackets that were counted, if those of the text match. -/
theorem skipRest_cases (depth : Nat) (prev : Token) (control : Bool) (ts : List Token) :
    ∃ used, ts = used ++ (skipRest depth prev control ts).2 ∧
      ∀ stack : List Token, stack.length = depth → nest stack ts = some [] →
        nest stack used = some [] := by
  induction ts generalizing depth prev control with
  | nil => exact ⟨[], rfl, fun _ _ h => h⟩
  | cons t ts ih =>
      -- Skipping stops before `t` only outside of brackets, and goes on behind it with as
      -- many open brackets as it counts.
      have stop (none : depth = 0) : ∃ used, t :: ts = used ++ t :: ts ∧
          ∀ stack : List Token, stack.length = depth → nest stack (t :: ts) = some [] →
            nest stack used = some [] := by
        refine ⟨[], rfl, fun stack length _ => ?_⟩
        rw [nest_nil, List.length_eq_zero_iff.mp (length.trans none)]
      have next {depth' : Nat} {prev' : Token} {control' : Bool}
          (step : ∀ stack : List Token, stack.length = depth → nest stack (t :: ts) = some [] →
            ∃ stack', stack'.length = depth' ∧ ∀ us, nest stack (t :: us) = nest stack' us) :
          ∃ used, t :: ts = used ++ (skipRest depth' prev' control' ts).2 ∧
            ∀ stack : List Token, stack.length = depth → nest stack (t :: ts) = some [] →
              nest stack used = some [] := by
        obtain ⟨used, eq, matched⟩ := ih depth' prev' control'
        refine ⟨t :: used, congrArg (t :: ·) eq, fun stack length run => ?_⟩
        obtain ⟨stack', length', same⟩ := step stack length run
        rw [same] at run ⊢
        exact matched stack' length' run
      rw [skipRest]
      split
      · rename_i here
        simp only [Bool.and_eq_true, decide_eq_true_eq] at here
        exact stop here.1.1
      split
      · rename_i opens
        exact next fun stack length _ =>
          ⟨t :: stack, by simp [length], fun us => nest_open opens ..⟩
      split
      · rename_i closes
        have pop (stack : List Token) (length : stack.length = depth)
            (run : nest stack (t :: ts) = some []) : ∃ stack', stack'.length = depth - 1 ∧
              ∀ us, nest stack (t :: us) = nest stack' us := by
          obtain ⟨o, stack', rfl, pair, -⟩ := nest_close_cases closes run
          exact ⟨stack', by simp [← length], fun us => nest_close pair ..⟩
        split
        · rename_i outermost
          rw [Nat.sub_eq_zero_of_le outermost] at pop
          split
          · split
            · exact next pop
            · refine ⟨[t], rfl, fun stack length run => ?_⟩
              obtain ⟨stack', none, same⟩ := pop stack length run
              rw [same, nest_nil, List.length_eq_zero_iff.mp none]
          · exact next pop
        · exact next pop
      rename_i opens closes
      have plain : t.plain = true := by simp [Token.plain, opens, closes]
      split
      · rename_i ends
        simp only [Bool.and_eq_true, decide_eq_true_eq] at ends
        refine ⟨[t], rfl, fun stack length _ => ?_⟩
        rw [nest_plain plain, nest_nil, List.length_eq_zero_iff.mp (length.trans ends.2)]
      · exact next fun stack length _ => ⟨stack, length, fun us => nest_plain plain ..⟩

theorem skipStatement_cases (t : Token) (ts : List Token) :
    ∃ used, ts = used ++ (skipStatement t ts).2 ∧
      (Balanced (t :: ts) → Balanced (t :: used)) := by
  unfold skipStatement
  split
  · rename_i alone
    refine ⟨[], rfl, fun balanced => ?_⟩
    have closes : t.closes = false := by
      cases closes : t.closes with
      | false => rfl
      | true =>
          obtain ⟨o, stack, eq, -⟩ := nest_close_cases closes balanced
          cases eq
    have plain : t.plain = true := by
      simp only [closes, Bool.or_false, Token.isMark, Bool.and_eq_true, beq_iff_eq] at alone
      exact Token.plain_of_text (by rw [alone.2]; decide)
    rw [Balanced, nest_plain plain, nest_nil]
  · obtain ⟨used, eq, matched⟩ := skipRest_cases (if t.opens then 1 else 0) t
      (t.kind == .word && controlWords.contains t.text) ts
    refine ⟨used, eq, fun balanced => ?_⟩
    unfold Balanced at balanced ⊢
    cases opens : t.opens with
    | true =>
        rw [opens, if_pos rfl] at matched
        rw [nest_open opens] at balanced ⊢
        exact matched [t] rfl balanced
    | false =>
        rw [opens, if_neg Bool.false_ne_true] at matched
        have plain : t.plain = true := by
          rename_i alone
          simp only [Bool.or_eq_true, not_or] at alone
          simp [Token.plain, opens, alone.2]
        rw [nest_plain plain] at balanced ⊢
        exact matched [] rfl balanced

/-! ## The cut -/

/-- The tokens are cut into stretches, one behind the other: what a statement took, or
what was skipped where none was recognized. -/
inductive Cut (source : List Char) : List Token → List Segment → Prop
  | nil : Cut source [] []
  | recognized {t : Token} {more us : List Token}
      {p : Parsed (List Instruction) (weight (t :: more))} {segs : List Segment}
      (read : statement source t more = .ok p) (eq : more = us ++ p.rest)
      (later : Cut source p.rest segs) :
      Cut source (t :: more) (⟨t :: us, .recognized p.value⟩ :: segs)
  | skipped {t last : Token} {more us rest : List Token} {why : Refusal} {segs : List Segment}
      (read : statement source t more = .error (.refused why))
      (skip : skipStatement t more = (last, rest)) (eq : more = us ++ rest)
      (later : Cut source rest segs) :
      Cut source (t :: more) (⟨t :: us, .skipped (skippedFrom source t last why)⟩ :: segs)

/-- What was taken is what is there before what is left. -/
theorem take_of_append (eq : ts = us ++ rest) : ts.take (ts.length - rest.length) = us := by
  rw [eq, List.length_append, Nat.add_sub_cancel, List.take_left]

theorem Cut.of_segments (lexed : Lexes ts) {segs : List Segment}
    (h : segments source ts = .ok segs) : Cut source ts segs := by
  induction ts using weight_induction generalizing segs with
  | _ ts ih =>
  cases ts with
  | nil =>
      rw [segments] at h
      cases h
      exact .nil
  | cons t more =>
  rw [segments] at h
  split at h
  · rename_i p read
    obtain ⟨taken, eq, back, -⟩ := Yields.of_ok (statement_sound source lexed) read
    obtain ⟨us, rfl⟩ : ∃ us, taken = t :: us := by
      cases taken with
      | nil => cases back
      | cons u us => exact ⟨us, by rw [(List.cons.inj eq).1]⟩
    cases rest : segments source p.rest with
    | error fault =>
        rw [rest] at h
        cases h
    | ok later =>
        rw [rest] at h
        obtain rfl := Except.ok.inj h
        rw [take_of_append eq]
        have lexed' : Lexes (t :: us ++ p.rest) := eq ▸ lexed
        exact .recognized read (List.cons.inj eq).2 (ih p.rest p.fewer lexed'.right rest)
  · rename_i why read
    obtain ⟨us, eq, -⟩ := skipStatement_cases t more
    have fewer := weight_skipStatement t more
    rcases skip : skipStatement t more with ⟨last, left⟩
    rw [skip] at h eq fewer
    cases rest : segments source left with
    | error fault =>
        rw [rest] at h
        cases h
    | ok later =>
        have whole : t :: more = t :: us ++ left := congrArg (t :: ·) eq
        rw [rest] at h
        obtain rfl := Except.ok.inj h
        rw [take_of_append whole]
        have lexed' : Lexes (t :: us ++ left) := whole ▸ lexed
        exact .skipped read skip eq (ih left fewer lexed'.right rest)
  · cases h

namespace Cut

variable {s : Segment} {segs front back : List Segment}

/-- Nothing is lost. -/
theorem tokens (h : Cut source ts segs) : segs.flatMap Segment.tokens = ts := by
  induction h with
  | nil => rfl
  | recognized _ eq _ ih | skipped _ _ eq _ ih =>
      rw [List.flatMap_cons, ih]
      exact congrArg (_ :: ·) eq.symm

/-- What is left behind some stretches is cut into the further ones. -/
theorem behind (h : Cut source ts (front ++ back)) :
    Cut source (back.flatMap Segment.tokens) back := by
  induction front generalizing ts with
  | nil =>
      rw [List.nil_append] at h
      rwa [h.tokens]
  | cons s front ih =>
      cases h with
      | recognized _ _ later => exact ih later
      | skipped _ _ _ later => exact ih later

/-- A text that is read is cut. -/
theorem of_statements {text : String} {linesBefore : Int} {st : Statements}
    (h : statements text linesBefore = .ok st) :
    ∃ ts segs, Token.tokenize text linesBefore = .ok ts ∧ Lexes ts ∧ Cut text.toList ts segs ∧
      st = .ofSegments segs := by
  unfold statements at h
  split at h
  · cases h
  rename_i ts tokenized
  obtain ⟨q, scanned⟩ := Token.Scanned.of_scan tokenized
  cases divided : segments text.toList ts with
  | error fault =>
      rw [divided] at h
      cases h
  | ok segs =>
      rw [divided] at h
      exact ⟨ts, segs, tokenized, scanned.lexed, .of_segments scanned.lexed divided,
        (Except.ok.inj h).symm⟩

/-- A stretch with instructions was read as a statement. -/
theorem reads (h : Cut source ts segs) (lexed : Lexes ts) :
    ∀ s ∈ segs, s.instructions = [] ∨
      ∃ t us, s.tokens = t :: us ∧ ofInstructions source t.line (t :: us) s.instructions := by
  induction h with
  | nil => simp
  | @recognized t more us p segs read eq later ih =>
      have whole : t :: more = t :: us ++ p.rest := congrArg (t :: ·) eq
      obtain ⟨taken, eq', -, ofIs⟩ := Yields.of_ok (statement_sound source lexed) read
      obtain rfl : taken = t :: us := List.append_cancel_right (eq'.symm.trans whole)
      rw [whole] at lexed
      exact List.forall_mem_cons.mpr ⟨.inr ⟨t, us, rfl, ofIs⟩, ih lexed.right⟩
  | skipped read skip eq later ih =>
      rw [eq] at lexed
      exact List.forall_mem_cons.mpr ⟨.inl rfl, ih lexed.tail.right⟩

/-- Every stretch closes the brackets that it opens, if those of the text match. -/
theorem balanced (h : Cut source ts segs) (lexed : Lexes ts) (matched : Balanced ts) :
    ∀ s ∈ segs, Balanced s.tokens := by
  induction h with
  | nil => simp
  | @recognized t more us p segs read eq later ih =>
      have whole : t :: more = t :: us ++ p.rest := congrArg (t :: ·) eq
      obtain ⟨taken, eq', -, ⟨kept, shape, -⟩, -⟩ :=
        Yields.of_ok (statement_sound source lexed) read
      obtain rfl : taken = t :: us := List.append_cancel_right (eq'.symm.trans whole)
      rw [whole] at lexed matched
      have here : Balanced (t :: us) := by
        obtain ⟨middle, first, -⟩ := nest_append_cases matched
        rw [Balanced, first, shape.nest first]
      exact List.forall_mem_cons.mpr ⟨here, ih lexed.right (matched.cut here)⟩
  | @skipped t last more us rest why segs read skip eq later ih =>
      have whole : t :: more = t :: us ++ rest := congrArg (t :: ·) eq
      obtain ⟨used, eq', closes⟩ := skipStatement_cases t more
      rw [skip] at eq'
      obtain rfl : used = us := List.append_cancel_right (eq'.symm.trans eq)
      have here := closes matched
      rw [whole] at lexed matched
      exact List.forall_mem_cons.mpr ⟨here, ih lexed.right (matched.cut here)⟩

end Cut

/-- Inside a group of brackets its own bracket stays open. -/
theorem nest_inside {inner x y : List Token} (opens : o.opens = true) (matched : Balanced inner)
    (eq : inner ++ [c] = x ++ y) (inside : y ≠ []) (h : nest stack (o :: x) = some left) :
    left ≠ [] := by
  obtain ⟨z, rfl⟩ : ∃ z, inner = x ++ z := by
    rcases List.append_eq_append_iff.mp eq with ⟨z, rfl, last⟩ | ⟨z, rfl, last⟩
    · cases z with
      | nil => exact ⟨[], by simp⟩
      | cons a z =>
          have : y = [] := by
            have := congrArg List.length last
            simp only [List.length_cons, List.length_nil, List.length_append] at this
            exact List.length_eq_zero_iff.mp (by omega)
          exact absurd this inside
    · exact ⟨z, rfl⟩
  obtain ⟨middle, run, -⟩ := nest_append_cases matched
  rw [nest_open opens] at h
  have := nest_frame run (o :: stack)
  rw [List.nil_append] at this
  rw [← Option.some.inj (this.symm.trans h)]
  simp

/-- A group of brackets lies in one of the stretches that close the brackets they open. -/
theorem group_undivided {inner before after : List Token} {segs : List Segment}
    (pair : o.pairs c = true) (matched : Balanced inner)
    (each : ∀ s ∈ segs, Balanced s.tokens)
    (eq : segs.flatMap Segment.tokens = before ++ o :: (inner ++ c :: after)) :
    ∃ front s back a b, segs = front ++ s :: back ∧ s.tokens = a ++ o :: (inner ++ c :: b) ∧
      before = front.flatMap Segment.tokens ++ a ∧
      after = b ++ back.flatMap Segment.tokens := by
  induction segs generalizing before with
  | nil => simp at eq
  | cons s segs ih =>
      rw [List.flatMap_cons] at eq
      obtain ⟨here, later⟩ := List.forall_mem_cons.mp each
      -- The group starts behind the first stretch, or in it.
      rcases List.append_eq_append_iff.mp eq with ⟨more, rfl, rest⟩ | ⟨x, split, rest⟩
      · obtain ⟨front, s', back, a, b, rfl, tokens, rfl, rfl⟩ := ih later rest
        exact ⟨s :: front, s', back, a, b, rfl, tokens, by simp, rfl⟩
      have group : o :: (inner ++ [c]) ++ after = x ++ segs.flatMap Segment.tokens := by
        rw [← rest]
        simp
      rcases List.append_eq_append_iff.mp group with ⟨y, rfl, rfl⟩ | ⟨y, cut, tail⟩
      · exact ⟨[], s, segs, before, y, rfl, by simp [split], rfl, rfl⟩
      cases x with
      | nil =>
          have start : segs.flatMap Segment.tokens = [] ++ o :: (inner ++ c :: after) := rest.symm
          obtain ⟨front, s', back, a, b, rfl, tokens, empty, rfl⟩ := ih later start
          refine ⟨s :: front, s', back, a, b, rfl, tokens, ?_, rfl⟩
          rw [List.flatMap_cons, List.append_assoc, ← empty, split, List.append_nil,
            List.append_nil]
      | cons o' x =>
          obtain ⟨rfl, closed⟩ := List.cons.inj cut
          cases y with
          | nil =>
              obtain rfl : inner ++ [c] = x := closed.trans (List.append_nil x)
              exact ⟨[], s, segs, before, [], rfl, by simp [split], rfl, by simp [tail]⟩
          | cons d y =>
              rw [Balanced, split] at here
              obtain ⟨middle, -, run⟩ := nest_append_cases here
              exact absurd rfl
                (nest_inside (Token.opens_of_pairs pair) matched closed (List.cons_ne_nil d y) run)

/-! ## Texts -/

namespace Segment

variable {s : Segment}

/-- The stretch was recognized before what comes later: it gives the instructions of its
statement, which takes just this stretch. -/
def Recognized (source : List Char) (s : Segment) (later : List Token) : Prop :=
  ∃ t us more p, s.tokens = t :: us ∧ more = us ++ later ∧ statement source t more = .ok p ∧
    p.rest = later ∧ s.instructions = p.value ∧ s.diagnostic? = none

/-- The stretch was skipped before what comes later: no statement is recognized at its
start, and it gives nothing but a diagnostic at the line of its first token. -/
def Skipped (source : List Char) (s : Segment) (later : List Token) : Prop :=
  ∃ t us why d, s.tokens = t :: us ∧
    statement source t (us ++ later) = .error (.refused why) ∧
    (skipStatement t (us ++ later)).2 = later ∧
    s.instructions = [] ∧ s.diagnostic? = some d ∧ d.line = t.line

end Segment

theorem Cut.head {s : Segment} {back : List Segment} (h : Cut source ts (s :: back)) :
    s.Recognized source (back.flatMap Segment.tokens) ∨
      s.Skipped source (back.flatMap Segment.tokens) := by
  generalize all : s :: back = segs at h
  cases h with
  | nil => cases all
  | @recognized t more us p segs read eq later =>
      cases all
      rw [later.tokens]
      exact .inl ⟨t, us, more, p, rfl, eq, read, rfl, rfl, rfl⟩
  | @skipped t last more us rest why segs read skip eq later =>
      cases all
      rw [later.tokens]
      subst eq
      exact .inr ⟨t, us, why, _, rfl, read, by rw [skip], rfl, rfl, rfl⟩

/-- A text that is read is cut into statements, and nothing is lost: every stretch is one
statement that is recognized, or one that is skipped with a single diagnostic.  If the
brackets of the text match, those of every stretch do, and every group of brackets lies
in one of them. -/
theorem statements_divided {text : String} {linesBefore : Int} {st : Statements}
    (h : statements text linesBefore = .ok st) :
    ∃ ts segs, Token.tokenize text linesBefore = .ok ts ∧ segs.flatMap Segment.tokens = ts ∧
      (∀ front s back, segs = front ++ s :: back →
        s.Recognized text.toList (back.flatMap Segment.tokens) ∨
          s.Skipped text.toList (back.flatMap Segment.tokens)) ∧
      st.instructions = segs.flatMap Segment.instructions ∧
      st.diagnostics = segs.filterMap Segment.diagnostic? ∧
      (Balanced ts → (∀ s ∈ segs, Balanced s.tokens) ∧
        ∀ before o inner c after, ts = before ++ o :: (inner ++ c :: after) → o.pairs c = true →
          Balanced inner → ∃ front s back a b, segs = front ++ s :: back ∧
            s.tokens = a ++ o :: (inner ++ c :: b) ∧
            before = front.flatMap Segment.tokens ++ a ∧
            after = b ++ back.flatMap Segment.tokens) := by
  obtain ⟨ts, segs, tokenized, lexed, cut, rfl⟩ := Cut.of_statements h
  refine ⟨ts, segs, tokenized, cut.tokens, ?_, rfl, rfl, fun matched => ⟨?_, ?_⟩⟩
  · rintro front s back rfl
    exact cut.behind.head
  · exact cut.balanced lexed matched
  · intro before o inner c after eq pair inside
    exact group_undivided pair inside (cut.balanced lexed matched) (cut.tokens.trans eq)

/-- A loop, which is skipped with the call in its block, and a call behind it. -/
theorem loop_divided :
    ∃ (st : Statements) (segs : List Segment),
      statements "while (x) \x7b f(); \x7d\ng();" 0 = .ok st ∧
      st.instructions.map Instruction.line = [2] ∧ st.diagnostics.map Diagnostic.line = [1] ∧
      Token.tokenize "while (x) \x7b f(); \x7d\ng();" 0 = .ok (segs.flatMap Segment.tokens) ∧
      st.diagnostics = segs.filterMap Segment.diagnostic? ∧ ∀ s ∈ segs, Balanced s.tokens := by
  have reads : (statements "while (x) \x7b f(); \x7d\ng();" 0).toOption.map (fun st =>
      (st.instructions.map Instruction.line, st.diagnostics.map Diagnostic.line)) =
        some ([2], [1]) := by decide +kernel
  have closed : (Token.tokenize "while (x) \x7b f(); \x7d\ng();" 0).toOption.map
      (fun ts => decide (Balanced ts)) = some true := by decide +kernel
  cases read : statements "while (x) \x7b f(); \x7d\ng();" 0 with
  | error fault =>
      rw [read] at reads
      cases reads
  | ok st =>
      rw [read] at reads
      obtain ⟨instructions, diagnostics⟩ := Prod.mk.inj (Option.some.inj reads)
      obtain ⟨ts, segs, tokenized, rfl, -, -, skipped, along⟩ := statements_divided read
      rw [tokenized] at closed
      have matched := of_decide_eq_true (Option.some.inj closed)
      exact ⟨st, segs, rfl, instructions, diagnostics, tokenized, skipped, (along matched).1⟩

end Grammar

end Runloop
