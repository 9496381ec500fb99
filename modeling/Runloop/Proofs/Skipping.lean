/-
# What is skipped with a header

A statement that is not recognized is skipped up to where it may end: behind a semicolon
or a closing brace outside of all brackets, or at the end of a line.  The header of an
`if`, `while` or `for` is always skipped as a whole, over as many lines as it takes; but
behind it, nothing is left of the fact that a body must follow (`Header.skip`).

So a body is skipped as long as nothing starts a statement where one may end
(`Unbroken`).  A block is such a body, on whatever line it stands, and so is a simple
statement on the line of its header.  On a later line, the body is read as if it stood
alone.
-/
import Runloop.Proofs.Segmentation

namespace Runloop

namespace Token

variable {p t : Token}

/-- Whether a statement may end between two tokens outside of brackets. -/
def mayEnd (p t : Token) : Bool :=
  p.line < t.line || p.isMark ";" || p.isMark "\x7d"

/-- Whether a token cannot be the first of a statement that does anything: it is no word,
or one that is reserved for what is not recognized. -/
def startsNone (t : Token) : Bool :=
  t.kind != .word ||
    (Grammar.isReserved t.text && (DeclKeyword.ofSpelling? t.text).isNone &&
      t.text != "return" && t.text != "function")

end Token

namespace Grammar

variable {source : List Char} {body inner more rest us xs ys : List Token} {prev t : Token}

/-- The header of a control statement that is not recognized. -/
structure Header where
  word : Token
  opening : Token
  inner : List Token
  closing : Token
  isWord : word.kind = .word
  control : word.text ∈ ["if", "while", "for"]
  opens : opening.isMark "(" = true
  closes : closing.isMark ")" = true
  nested : Balanced inner

namespace Header

def tokens (h : Header) : List Token := h.word :: h.opening :: (h.inner ++ [h.closing])

end Header

/-- Behind the token `prev`, nothing in a body starts a statement where one may end. -/
def Unbroken (prev : Token) (body : List Token) : Prop :=
  ∀ xs t ys, body = xs ++ t :: ys → Balanced xs →
    (xs.getLastD prev).mayEnd t = true → t.startsNone = true

/-- A body in braces. -/
def IsBlock (body : List Token) : Prop :=
  ∃ o inner c, body = o :: (inner ++ [c]) ∧ o.isMark "\x7b" = true ∧ c.isMark "\x7d" = true ∧
    Balanced inner

/-- The tokens are cut into stretches without instructions, of which the last may reach
into what follows; then the reading goes on. -/
def Swallowed (source : List Char) (ts rest : List Token) : Prop :=
  ∃ front extra rest', rest = extra ++ rest' ∧ front.flatMap Segment.tokens = ts ++ extra ∧
    (∀ s ∈ front, s.instructions = []) ∧
    segments source (ts ++ rest) = (segments source rest').map (front ++ ·)

/-! ## What starts no statement -/

/-- A word that is reserved for what is not recognized. -/
theorem statement_reserved (word : t.kind = .word) (reserved : isReserved t.text = true)
    (noDeclaration : DeclKeyword.ofSpelling? t.text = none) (noReturn : t.text ≠ "return")
    (noFunction : t.text ≠ "function") (more : List Token) :
    statement source t more = .error (.refused (.unsupportedStatement t.text)) := by
  have noMark : t.isMark ";" = false := by simp [Token.isMark, word]
  simp [statement, noMark, word, noFunction, wordStatement, noDeclaration, noReturn, reserved,
    refuse, bind, Except.bind]

theorem statement_of_startsNone (h : t.startsNone = true) (other : t.isMark ";" = false)
    (more : List Token) : ∃ why, statement source t more = .error (.refused why) := by
  by_cases word : t.kind = .word
  · simp only [Token.startsNone, word, bne_self_eq_false, Bool.false_or, Bool.and_eq_true,
      Option.isNone_iff_eq_none, bne_iff_ne, ne_eq] at h
    obtain ⟨⟨⟨reserved, noDeclaration⟩, noReturn⟩, noFunction⟩ := h
    exact ⟨_, statement_reserved word reserved noDeclaration noReturn noFunction more⟩
  · refine ⟨.unexpected t.text, ?_⟩
    simp [statement, other, word, refuse]

/-- A semicolon that stands alone is a statement that does nothing. -/
theorem statement_semicolon (h : t.isMark ";" = true) (more : List Token) :
    statement source t more = .ok ⟨[], t, more, weight_lt_cons t more⟩ := by
  rw [statement, if_pos h]

theorem segments_recognized (us : List Token)
    {p : Parsed (List Instruction) (weight (t :: more))} (read : statement source t more = .ok p)
    (eq : t :: more = us ++ p.rest) : segments source (t :: more) =
      (segments source p.rest).map (⟨us, .recognized p.value⟩ :: ·) := by
  rw [segments]
  split
  · rename_i p' read'
    obtain rfl := Except.ok.inj (read.symm.trans read')
    rw [take_of_append eq]
    rfl
  · rename_i why read'
    cases read.symm.trans read'
  · rename_i fault read'
    cases read.symm.trans read'

theorem segments_refused {why : Refusal} (read : statement source t more = .error (.refused why))
    (eq : t :: more = us ++ (skipStatement t more).2) :
    segments source (t :: more) = (segments source (skipStatement t more).2).map
      (⟨us, .skipped (skippedFrom source t (skipStatement t more).1 why)⟩ :: ·) := by
  rw [segments]
  split
  · rename_i p read'
    cases read.symm.trans read'
  · rename_i why' read'
    cases read.symm.trans read'
    dsimp only
    rw [take_of_append eq]
    rfl
  · rename_i fault read'
    cases read.symm.trans read'

/-! ## Where skipping stops -/

/-- Inside of brackets nothing stops it. -/
theorem skipRest_nested {stack left : List Token} (run : nest stack inner = some left)
    (depth : Nat) (prev : Token) (control : Bool) (more : List Token) :
    skipRest (stack.length + (depth + 1)) prev control (inner ++ more) =
      skipRest (left.length + (depth + 1)) (inner.getLastD prev) control more := by
  induction inner generalizing stack prev with
  | nil =>
      rw [nest_nil] at run
      rw [Option.some.inj run]
      rfl
  | cons t inner ih =>
      rw [List.cons_append, skipRest, List.getLastD_cons]
      have inside : stack.length + (depth + 1) ≠ 0 := by omega
      rw [if_neg (by simp)]
      cases opens : t.opens with
      | true =>
          rw [nest_open opens] at run
          rw [if_pos rfl, ← ih run, List.length_cons]
          congr 1
          omega
      | false =>
      rw [if_neg Bool.false_ne_true]
      cases closes : t.closes with
      | true =>
          obtain ⟨o, stack, rfl, -, run⟩ := nest_close_cases closes run
          rw [if_pos rfl, if_neg (by rw [List.length_cons]; omega), ← ih run, List.length_cons]
          congr 1
          omega
      | false =>
          rw [nest_plain (by simp [Token.plain, opens, closes])] at run
          rw [if_neg Bool.false_ne_true, if_neg (by simp), ih run]

/-- A header is skipped as a whole, and with it that it was one. -/
theorem Header.skip (h : Header) (more : List Token) :
    skipStatement h.word (h.opening :: (h.inner ++ h.closing :: more)) =
      skipRest 0 h.closing false more := by
  have isControl : controlWords.contains h.word.text = true := by
    have control := h.control
    simp only [List.mem_cons, List.not_mem_nil, or_false] at control
    rcases control with text | text | text <;> rw [text] <;> decide
  have noMark (s : String) : h.word.isMark s = false := by simp [Token.isMark, h.isWord]
  have opens : h.opening.opens = true := by simp [Token.opens, h.opens]
  have closes : h.closing.closes = true := by simp [Token.closes, h.closes]
  have noBrace : h.closing.isMark "\x7d" = false := by
    have text := h.closes
    simp only [Token.isMark, Bool.and_eq_true, beq_iff_eq] at text
    simp [Token.isMark, text.2]
  rw [skipStatement, if_neg (by simp [noMark, Token.closes]),
    if_neg (by simp [noMark, Token.opens]), h.isWord, isControl, skipRest, if_neg (by simp),
    if_pos opens, beq_self_eq_true, Bool.true_and]
  have inside := skipRest_nested h.nested 0 h.opening true (h.closing :: more)
  simp only [List.length_nil, Nat.zero_add] at inside ⊢
  rw [inside, skipRest, if_neg (by simp), if_neg (by simp [Token.opens_of_closes closes]),
    if_pos closes, if_pos (by simp), if_neg (by simp [noBrace]), if_pos h.closes]

/-- Skipping stops in the body where a statement may end, or behind it. -/
theorem skipRest_body {stack : List Token} (run : nest stack body = some []) (prev : Token)
    (control : Bool) (rest : List Token) :
    (∃ xs t ys, body = xs ++ t :: ys ∧ nest stack xs = some [] ∧
      (xs.getLastD prev).mayEnd t = true ∧
      (skipRest stack.length prev control (body ++ rest)).2 = t :: ys ++ rest) ∨
    ∃ extra, rest = extra ++ (skipRest stack.length prev control (body ++ rest)).2 := by
  induction body generalizing stack prev control with
  | nil =>
      obtain ⟨used, eq, -⟩ := skipRest_cases stack.length prev control rest
      exact .inr ⟨used, eq⟩
  | cons b body ih =>
      -- Skipping goes on behind `b` with as many open brackets as it counts, or it has come
      -- to where a statement may end.
      have next {stack' : List Token} (step : ∀ us, nest stack (b :: us) = nest stack' us)
          (control' : Bool) {depth : Nat} (length : stack'.length = depth) :
          (∃ xs t ys, b :: body = xs ++ t :: ys ∧ nest stack xs = some [] ∧
            (xs.getLastD prev).mayEnd t = true ∧
            (skipRest depth b control' (body ++ rest)).2 = t :: ys ++ rest) ∨
          ∃ extra, rest = extra ++ (skipRest depth b control' (body ++ rest)).2 := by
        subst length
        rw [step] at run
        rcases ih run b control' with ⟨xs, t, ys, rfl, front, ends, stops⟩ | behind
        · rw [← List.getLastD_cons] at ends
          exact .inl ⟨b :: xs, t, ys, rfl, (step xs).trans front, ends, stops⟩
        · exact .inr behind
      have stop (closed : nest stack [b] = some []) (ends : ∀ t, b.mayEnd t = true) :
          (∃ xs t ys, b :: body = xs ++ t :: ys ∧ nest stack xs = some [] ∧
            (xs.getLastD prev).mayEnd t = true ∧ body ++ rest = t :: ys ++ rest) ∨
          ∃ extra, rest = extra ++ (body ++ rest) := by
        cases body with
        | nil => exact .inr ⟨[], rfl⟩
        | cons t ys => exact .inl ⟨[b], t, ys, rfl, closed, ends t, rfl⟩
      rw [List.cons_append, skipRest]
      split
      · rename_i here
        simp only [Bool.and_eq_true, decide_eq_true_eq] at here
        obtain rfl := List.length_eq_zero_iff.mp here.1.1
        exact .inl ⟨[], b, body, rfl, rfl, by simp [Token.mayEnd, here.1.2], rfl⟩
      split
      · rename_i opens
        exact next (nest_open opens stack) control rfl
      split
      · rename_i closes
        obtain ⟨o, stack, rfl, pair, -⟩ := nest_close_cases closes run
        have step := nest_close pair stack
        split
        · rename_i outermost
          obtain rfl : stack = [] := List.length_eq_zero_iff.mp (by simpa using outermost)
          split
          · rename_i brace
            split
            · exact next step true rfl
            · exact stop (step []) fun t => by simp [Token.mayEnd, brace]
          · exact next step _ rfl
        · exact next step control rfl
      rename_i opens closes
      have plain : b.plain = true := by simp [Token.plain, opens, closes]
      split
      · rename_i ends
        simp only [Bool.and_eq_true, decide_eq_true_eq] at ends
        obtain rfl := List.length_eq_zero_iff.mp ends.2
        exact stop (nest_plain plain [] []) fun t => by simp [Token.mayEnd, ends.1]
      · exact next (nest_plain plain stack) control rfl

/-! ## Bodies -/

namespace Swallowed

theorem nil : Swallowed source [] rest :=
  ⟨[], [], rest, rfl, rfl, by simp, by rw [List.nil_append]; cases segments source rest <;> rfl⟩

/-- A stretch more in front that gives no instructions. -/
theorem cons {s : Segment} (us : List Token) (nothing : s.instructions = [])
    (tokens : s.tokens = us)
    (read : segments source (us ++ (body ++ rest)) =
      (segments source (body ++ rest)).map (s :: ·))
    (later : Swallowed source body rest) : Swallowed source (us ++ body) rest := by
  obtain ⟨front, extra, rest', rfl, all, none, reads⟩ := later
  refine ⟨s :: front, extra, rest', rfl, ?_, List.forall_mem_cons.mpr ⟨nothing, none⟩, ?_⟩
  · rw [List.flatMap_cons, tokens, all, List.append_assoc]
  · rw [List.append_assoc, read, reads]
    cases segments source rest' <;> rfl

/-- What is refused takes a body along, of which what may be left is swallowed too. -/
theorem skipped {why : Refusal} (stack front : List Token) {control : Bool}
    (read : statement source t more = .error (.refused why))
    (whole : t :: more = front ++ (body ++ rest))
    (skip : skipStatement t more = skipRest stack.length prev control (body ++ rest))
    (run : nest stack body = some [])
    (left : ∀ xs t ys, body = xs ++ t :: ys → nest stack xs = some [] →
      (xs.getLastD prev).mayEnd t = true → Swallowed source (t :: ys) rest) :
    Swallowed source (front ++ body) rest := by
  rcases skipRest_body run prev control rest with ⟨xs, t', ys, rfl, closed, ends, stops⟩ | behind
  · rw [← skip] at stops
    have eq : t :: more = (front ++ xs) ++ (skipStatement t more).2 := by
      rw [stops, whole]
      simp
    have reads := segments_refused read eq
    rw [eq, stops] at reads
    rw [← List.append_assoc]
    exact cons _ rfl rfl reads (left xs t' ys rfl closed ends)
  · obtain ⟨extra, eq⟩ := behind
    rw [← skip] at eq
    have taken : t :: more = (front ++ body ++ extra) ++ (skipStatement t more).2 := by
      rw [whole, List.append_assoc, List.append_assoc, ← eq]
    have reads := segments_refused read taken
    rw [whole, ← List.append_assoc] at reads
    exact ⟨[_], extra, _, eq, List.append_nil _, List.forall_mem_singleton.mpr rfl, reads⟩

end Swallowed

/-- What is unbroken is so behind each of its parts. -/
theorem Unbroken.behind (h : Unbroken prev (xs ++ ys)) (closed : Balanced xs) :
    Unbroken (xs.getLastD prev) ys := by
  rintro us t vs rfl closed' ends
  refine h (xs ++ us) t vs (by rw [List.append_assoc]) ?_ ?_
  · rw [Balanced, nest_append, closed]
    exact closed'
  · rw [List.getLastD_eq_getLast?] at ends ⊢
    rw [List.getLastD_eq_getLast?] at ends
    rw [List.getLast?_append]
    cases last : us.getLast? with
    | none => simpa [last] using ends
    | some u => simpa [last] using ends

/-- A body is swallowed if nothing starts a statement in it where one may end. -/
theorem swallowed_of_unbroken (matched : Balanced body) (unbroken : Unbroken prev body)
    (start : ∀ t ∈ body.head?, t.startsNone = true) : Swallowed source body rest := by
  -- Behind what is skipped first there is a shorter body, of which the same is true.
  induction length : body.length using Nat.strongRecOn generalizing body prev with
  | _ n ih =>
  cases body with
  | nil => exact .nil
  | cons t us =>
  have later (xs ys : List Token) {t' : Token} (eq : us = xs ++ t' :: ys)
      (closed : Balanced (t :: xs)) (ends : (xs.getLastD t).mayEnd t' = true) :
      Swallowed source (t' :: ys) rest := by
    subst eq
    rw [← List.cons_append] at matched unbroken
    refine ih _ ?_ (matched.cut closed) (unbroken.behind closed) ?_ rfl
    · rw [← length]
      simp only [List.length_cons, List.length_append]
      omega
    · rintro _ ⟨⟩
      exact unbroken (t :: xs) t' ys rfl closed (by rwa [List.getLastD_cons])
  cases semicolon : t.isMark ";" with
  | true =>
      have plain : t.plain = true := by
        simp only [Token.isMark, Bool.and_eq_true, beq_iff_eq] at semicolon
        exact Token.plain_of_text (by rw [semicolon.2]; decide)
      have closed : Balanced [t] := nest_plain plain [] []
      have read : statement source t (us ++ rest) = .ok ⟨[], t, us ++ rest, _⟩ :=
        statement_semicolon semicolon (us ++ rest)
      refine Swallowed.cons [t] rfl rfl (segments_recognized [t] read rfl) ?_
      cases us with
      | nil => exact .nil
      | cons t' ys => exact later [] ys rfl closed (by simp [Token.mayEnd, semicolon])
  | false =>
      obtain ⟨why, read⟩ : ∃ why, statement source t (us ++ rest) = .error (.refused why) :=
        statement_of_startsNone (start t rfl) semicolon (us ++ rest)
      have noClose : t.closes = false := by
        cases closes : t.closes with
        | false => rfl
        | true =>
            obtain ⟨o, stack, eq, -⟩ := nest_close_cases closes matched
            cases eq
      obtain ⟨stack, step, length⟩ : ∃ stack, (∀ us, nest [] (t :: us) = nest stack us) ∧
          stack.length = if t.opens then 1 else 0 := by
        cases opens : t.opens with
        | true => exact ⟨[t], nest_open opens [], rfl⟩
        | false => exact ⟨[], nest_plain (by simp [Token.plain, opens, noClose]) [], rfl⟩
      have skip : skipStatement t (us ++ rest) = skipRest stack.length t
          (t.kind == .word && controlWords.contains t.text) (us ++ rest) := by
        rw [skipStatement, if_neg (by simp [semicolon, noClose]), length]
      exact Swallowed.skipped stack [t] read rfl skip ((step us).symm.trans matched)
        fun xs t' ys eq closed ends => later xs ys eq ((step xs).trans closed) ends

theorem IsBlock.balanced (h : IsBlock body) : Balanced body := by
  obtain ⟨o, inner, c, rfl, opens, closes, matched⟩ := h
  have pair : o.pairs c = true := by simp [Token.pairs, opens, closes]
  rw [Balanced, nest_open (Token.opens_of_pairs pair)]
  have run := nest_frame matched [o]
  rw [List.nil_append] at run
  rw [nest_append, run, Option.bind_some, nest_close pair, nest_nil]

/-- No statement may end in a block. -/
theorem IsBlock.unbroken (h : IsBlock body) : Unbroken prev body := by
  obtain ⟨o, inner, c, rfl, opens, closes, matched⟩ := h
  rintro xs t ys eq closed -
  cases xs with
  | nil =>
      obtain ⟨rfl, -⟩ := List.cons.inj eq
      simp only [Token.isMark, Bool.and_eq_true, beq_iff_eq] at opens
      simp [Token.startsNone, opens.1]
  | cons o' xs =>
      obtain ⟨rfl, inside⟩ := List.cons.inj eq
      have isOpen : o.opens = true := by simp [Token.opens, opens]
      exact absurd rfl (nest_inside isOpen matched inside (List.cons_ne_nil t ys) closed)

namespace Header

theorem statement (h : Header) (more : List Token) :
    Grammar.statement source h.word more =
      .error (.refused (.unsupportedStatement h.word.text)) := by
  have control := h.control
  simp only [List.mem_cons, List.not_mem_nil, or_false] at control
  rcases control with text | text | text <;>
    exact statement_reserved h.isWord (by rw [text]; decide) (by rw [text]; decide)
      (by rw [text]; decide) (by rw [text]; decide) more

theorem tokens_append (h : Header) (more : List Token) :
    h.tokens ++ more = h.word :: h.opening :: (h.inner ++ h.closing :: more) := by
  simp [tokens]

/-- What is skipped with a header is the header alone if there is more on a later line. -/
theorem segments (h : Header) (later : h.closing.line < t.line) (more : List Token) :
    Grammar.segments source (h.tokens ++ t :: more) =
      (Grammar.segments source (t :: more)).map
        (⟨h.tokens, .skipped (skippedFrom source h.word h.closing
          (.unsupportedStatement h.word.text))⟩ :: ·) := by
  have stop : skipStatement h.word (h.opening :: (h.inner ++ h.closing :: t :: more)) =
      (h.closing, t :: more) := by
    rw [h.skip, skipRest, if_pos (by simp [later])]
  have read : Grammar.statement source h.word _ = _ :=
    h.statement (h.opening :: (h.inner ++ h.closing :: t :: more))
  have taken : h.word :: h.opening :: (h.inner ++ h.closing :: t :: more) =
      h.tokens ++ (skipStatement h.word (h.opening :: (h.inner ++ h.closing :: t :: more))).2 := by
    rw [stop, tokens_append]
  have reads := segments_refused read taken
  rwa [stop, ← tokens_append] at reads

end Header

/-- A control statement that is not recognized is skipped with its body, whatever follows,
if nothing in the body starts a statement where one may end: no stretch that holds any of
its tokens gives an instruction.  A block is such a body, on whatever line it starts.

On a later line than the end of the header, whatever follows is read as if it stood alone;
so a simple statement there is not skipped. -/
theorem bodies_skipped (source : List Char) (h : Header) :
    (∀ body rest, IsBlock body → Swallowed source (h.tokens ++ body) rest) ∧
    (∀ body rest, Balanced body → Unbroken h.closing body →
      Swallowed source (h.tokens ++ body) rest) ∧
    ∀ t more, h.closing.line < t.line →
      segments source (h.tokens ++ t :: more) = (segments source (t :: more)).map
        (⟨h.tokens, .skipped (skippedFrom source h.word h.closing
          (.unsupportedStatement h.word.text))⟩ :: ·) := by
  have whole (body rest : List Token) (matched : Balanced body)
      (unbroken : Unbroken h.closing body) : Swallowed source (h.tokens ++ body) rest := by
    have tokens := h.tokens_append (body ++ rest)
    refine Swallowed.skipped [] h.tokens (h.statement _) tokens.symm (h.skip _) matched ?_
    intro xs t ys eq closed ends
    subst eq
    refine swallowed_of_unbroken (matched.cut closed) (unbroken.behind closed) ?_
    rintro _ ⟨⟩
    exact unbroken xs t ys rfl closed ends
  exact ⟨fun body rest block => whole body rest block.balanced block.unbroken, whole,
    fun t more later => h.segments later more⟩

/-- The header of a loop on the first line of a text. -/
def loopHeader : Header where
  word := ⟨.word, "while", 0, 5, 1, 1⟩
  opening := ⟨.mark, "(", 6, 7, 1, 7⟩
  inner := [⟨.word, "x", 7, 8, 1, 8⟩]
  closing := ⟨.mark, ")", 8, 9, 1, 9⟩
  isWord := rfl
  control := by decide
  opens := rfl
  closes := rfl
  nested := by decide

/-- A call in braces on the line behind it. -/
def callInBraces : List Token :=
  [⟨.mark, "\x7b", 10, 11, 2, 1⟩, ⟨.word, "f", 12, 13, 2, 3⟩, ⟨.mark, "(", 13, 14, 2, 4⟩,
    ⟨.mark, ")", 14, 15, 2, 5⟩, ⟨.mark, ";", 15, 16, 2, 6⟩, ⟨.mark, "\x7d", 17, 18, 2, 8⟩]

/-- A call on the line behind it. -/
def callAlone : List Token :=
  [⟨.word, "f", 10, 11, 2, 1⟩, ⟨.mark, "(", 11, 12, 2, 2⟩, ⟨.mark, ")", 12, 13, 2, 3⟩,
    ⟨.mark, ";", 13, 14, 2, 4⟩]

/-- The call in braces is skipped with the loop, the other one is not. -/
theorem call_behind_loop :
    Token.tokenize "while (x)\n\x7b f(); \x7d" 0 = .ok (loopHeader.tokens ++ callInBraces) ∧
    Swallowed "while (x)\n\x7b f(); \x7d".toList (loopHeader.tokens ++ callInBraces) [] ∧
    Token.tokenize "while (x)\nf();" 0 = .ok (loopHeader.tokens ++ callAlone) ∧
    (segments "while (x)\nf();".toList (loopHeader.tokens ++ callAlone)).toOption.map
      (·.map fun s => s.instructions.map Instruction.line) = some [[], [2]] := by
  have block : IsBlock callInBraces :=
    ⟨⟨.mark, "\x7b", 10, 11, 2, 1⟩, (callInBraces.drop 1).take 4, ⟨.mark, "\x7d", 17, 18, 2, 8⟩,
      rfl, rfl, rfl, by decide⟩
  refine ⟨by decide +kernel, (bodies_skipped _ loopHeader).1 _ [] block, by decide +kernel, ?_⟩
  have alone : (segments "while (x)\nf();".toList callAlone).toOption.map
      (·.map fun s => s.instructions.map Instruction.line) = some [[2]] := by decide +kernel
  have apart := (bodies_skipped "while (x)\nf();".toList loopHeader).2.2
    ⟨.word, "f", 10, 11, 2, 1⟩ (callAlone.drop 1) (by decide)
  change segments _ (loopHeader.tokens ++ callAlone) = (segments _ callAlone).map _ at apart
  rw [apart]
  cases read : segments "while (x)\nf();".toList callAlone with
  | error fault =>
      rw [read] at alone
      cases alone
  | ok segs =>
      rw [read] at alone
      exact congrArg (Option.map ([] :: ·)) alone

end Grammar

end Runloop
