/-
Reading tokens.  A reader gets the tokens that are left and answers with a
value, the last token it took and what is then left, which is always less
than before: recursion on the rest needs no further argument.
-/
import Runloop.Token.Lexer

namespace Runloop.Grammar

/-- How much text a token list stands for: the length of every token, at
least one. -/
def weight : List Token → Nat
  | [] => 0
  | t :: ts => max 1 t.text.length + weight ts

@[simp] theorem weight_nil : weight [] = 0 := rfl

@[simp] theorem weight_cons (t : Token) (ts : List Token) :
    weight (t :: ts) = max 1 t.text.length + weight ts := rfl

theorem weight_lt_cons (t : Token) (ts : List Token) : weight ts < weight (t :: ts) := by
  simp only [weight_cons]; omega

theorem weight_le_cons (t : Token) (ts : List Token) : weight ts ≤ weight (t :: ts) :=
  Nat.le_of_lt (weight_lt_cons t ts)

/-- A scan's tokens weigh no more than the characters it has not stepped over. -/
theorem weight_scan (cs : List Char) :
    ∀ (skip : Nat) (p : Place) (ts : List Token), Token.scan skip p cs = .ok ts →
      weight ts + min skip cs.length ≤ cs.length := by
  induction cs with
  | nil =>
    intro skip p ts h
    have e : ts = [] := by cases skip <;> simpa [Token.scan] using h.symm
    simp [e]
  | cons c cs ih =>
    intro skip p ts h
    cases skip with
    | succ skip =>
      have := ih skip _ ts (by simpa only [Token.scan] using h)
      simp only [List.length_cons]; omega
    | zero =>
      simp only [Token.scan] at h
      split at h
      · have := ih _ _ ts h
        simp only [List.length_cons]; omega
      · cases h
      · rename_i kind n _
        cases hs : Token.scan n (p.after c) cs with
        | error e => rw [hs] at h; cases h
        | ok more =>
          rw [hs] at h
          have e : ts = Token.make kind p c cs n :: more := by
            injection h with h; exact h.symm
          have := ih _ _ more hs
          subst e
          simp only [weight_cons, Token.make, String.length_ofList, List.length_cons,
            List.length_take]
          omega

/-- The tokens of a text weigh no more than the text is long. -/
theorem weight_ofChars {linesBefore : Int} {cs : List Char} {ts : List Token}
    (h : Token.ofChars linesBefore cs = .ok ts) : weight ts ≤ cs.length := by
  have := weight_scan cs 0 _ ts h
  omega

/-- What a reader gives: a value, the last token it took, and the tokens that
are left, which weigh less than the bound. -/
structure Parsed (α : Type) (bound : Nat) where
  value : α
  last : Token
  rest : List Token
  fewer : weight rest < bound

/-- The outcome of reading from the given tokens; at least one is taken. -/
abbrev Reading (α : Type) (ts : List Token) := Except Stop (Parsed α (weight ts))

namespace Parsed

variable {α β : Type} {m n : Nat}

/-- The same reading under a larger bound. -/
def widen (p : Parsed α m) (h : m ≤ n) : Parsed α n :=
  { p with fewer := Nat.lt_of_lt_of_le p.fewer h }

def map (f : α → β) (p : Parsed α m) : Parsed β m :=
  { p with value := f p.value }

end Parsed

/-- Gives up on the current statement. -/
def refuse {α : Type} (why : Refusal) : Except Stop α := .error (.refused why)

/-- Gives up on the whole text. -/
def fail {α : Type} (e : SourceError) : Except Stop α := .error (.fatal (.source e))

/-- Whether the next token is spelled as given. -/
def nextIs (s : String) : List Token → Bool
  | [] => false
  | t :: _ => t.spells s

/-- Whether the next token is of the given kind. -/
def nextKindIs (k : TokenKind) : List Token → Bool
  | [] => false
  | t :: _ => t.kind == k

/-- The next token, which must be spelled as given. -/
def expect (s : String) : (ts : List Token) → Reading Token ts
  | [] => refuse (.expected s)
  | t :: ts => if t.spells s then .ok ⟨t, t, ts, weight_lt_cons t ts⟩ else refuse (.expected s)

/-- The next token, which must be a word. -/
def name : (ts : List Token) → Reading String ts
  | [] => refuse .expectedName
  | t :: ts =>
    if t.kind = .word then .ok ⟨t.text, t, ts, weight_lt_cons t ts⟩ else refuse .expectedName

/-- Parameter names up to the closing parenthesis; a comma may follow the last. -/
def paramsRest : (ts : List Token) → Reading (List String) ts
  | [] => refuse .expectedName
  | t :: ts =>
    if t.spells ")" then .ok ⟨[], t, ts, weight_lt_cons t ts⟩
    else if t.kind ≠ .word then refuse .expectedName
    else
      match ts with
      | [] => refuse (.expected ")")
      | c :: more =>
        if c.spells "," then
          (paramsRest more).map fun p =>
            (p.map (t.text :: ·)).widen (by simp only [weight_cons]; omega)
        else if c.spells ")" then
          .ok ⟨[t.text], c, more, by simp only [weight_cons]; omega⟩
        else refuse (.expected ")")

/-- A parenthesized list of parameter names. -/
def params : (ts : List Token) → Reading (List String) ts
  | [] => refuse (.expected "(")
  | t :: ts =>
    if t.spells "(" then
      (paramsRest ts).map fun p => p.widen (weight_le_cons t ts)
    else refuse (.expected "(")

/-- The text between two offsets. -/
def slice (source : List Char) (start stop : Nat) : String :=
  String.ofList ((source.drop start).take (stop - start))

/-- The brace that closes a block, and what comes after it; `depth` counts
the blocks opened inside. -/
def closingBrace : Nat → List Token → Option (Token × List Token)
  | _, [] => none
  | depth, t :: ts =>
    if t.isMark "\x7b" then closingBrace (depth + 1) ts
    else if t.isMark "\x7d" then
      match depth with
      | 0 => some (t, ts)
      | depth + 1 => closingBrace depth ts
    else closingBrace depth ts

theorem weight_closingBrace {ts : List Token} :
    ∀ {depth : Nat} {r : Token × List Token}, closingBrace depth ts = some r →
      weight r.2 < weight ts := by
  induction ts with
  | nil => intro depth r h; simp [closingBrace] at h
  | cons t ts ih =>
    intro depth r h
    have hw := weight_lt_cons t ts
    simp only [closingBrace] at h
    split at h
    · exact Nat.lt_trans (ih h) hw
    · split at h
      · split at h
        · cases h; exact hw
        · exact Nat.lt_trans (ih h) hw
      · exact Nat.lt_trans (ih h) hw

/-- The text of a block, the lines before it, and the line of its end. -/
structure Block where
  body : String
  linesBefore : Int
  endLine : Int
deriving DecidableEq, Repr

/-- A block in braces, kept as text.  A block without end spoils the whole text. -/
def block (source : List Char) : (ts : List Token) → Reading Block ts
  | [] => refuse (.expected "\x7b")
  | t :: ts =>
    if t.spells "\x7b" then
      match h : closingBrace 0 ts with
      | none =>
        fail { fault := .unclosedBody, line := t.line, column := some t.column, text := "\x7b" }
      | some (close, more) =>
        .ok
          { value := ⟨slice source t.stop close.start, t.line - 1, close.line⟩
            last := close
            rest := more
            fewer := Nat.lt_trans (weight_closingBrace h) (weight_lt_cons t ts) }
    else refuse (.expected "\x7b")

end Runloop.Grammar
