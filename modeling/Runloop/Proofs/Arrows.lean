/-
# What a concise arrow function returns

The body of a concise arrow function is kept as text and is first read as statements.
Only if it is none, because something is left out of it or nothing comes of it, it is
read as the expression that it is, and the function returns the value of that
(`Body.compile_concise`).  Then the function is the same as the one with a block that
returns the expression: both compile to the same instruction, and whoever calls the one
might have called the other (`concise_arrows_return`).

A body that is a statement is executed and nothing is returned; so a call, which may be
both, loses its value (`concise_call_is_executed`).
-/
import Runloop.Proofs.Interchange
import Runloop.Proofs.Prologue
import Runloop.Proofs.Returning

namespace Runloop

open Grammar (Parsed weight)

/-! ## The two forms of a body -/

/-- The body of a concise arrow function, from its first token to its last. -/
def conciseBody (source : List Char) (first last : Token) : Body :=
  ⟨Grammar.slice source first.start last.stop, first.line - 1, true⟩

/-- A block that returns what a body is. -/
def Body.returning (b : Body) : Body := ⟨" return " ++ b.text ++ "; ", b.linesBefore, false⟩

/-- Read as statements, a body is none: something of it is left out, or nothing comes of
it. -/
def Body.NoStatement (b : Body) : Prop :=
  ∃ st, Grammar.statements b.text b.linesBefore = .ok st ∧
    (st.diagnostics ≠ [] ∨ st.instructions = [])

variable {b : Body} {e : Expr}

/-- A concise body that is no statement returns the value of its expression. -/
theorem Body.compile_concise (concise : b.concise = true) (none : b.NoStatement)
    (read : parseExpression b.text b.linesBefore = .ok e) :
    b.compile = .ok ⟨[.return e (b.linesBefore + 1)], []⟩ := by
  obtain ⟨st, statements, none⟩ := none
  have condition : (b.concise && (!st.diagnostics.isEmpty || st.instructions.isEmpty)) = true := by
    simpa [concise, List.isEmpty_iff] using none
  rw [Body.compile, statements]
  show (if _ then _ else _) = _
  rw [if_pos condition, read]
  rfl

/-- A block is compiled to its statements. -/
theorem Body.compile_block {st : Grammar.Statements} (concise : b.concise = false)
    (statements : Grammar.statements b.text b.linesBefore = .ok st) :
    b.compile = .ok ⟨hoist st.instructions, st.diagnostics.map Diagnostic.notice⟩ := by
  rw [Body.compile, statements]
  show (if _ then _ else _) = _
  rw [if_neg (by simp [concise])]
  rfl

/-! ## The arrow function in its text -/

/-- An arrow with an expression behind it that is not assigned to is a function with the
text of the expression for its body. -/
theorem Grammar.arrow_concise {source : List Char} {a first : Token} {more : List Token}
    {q : Parsed Expr (weight (first :: more))} (mark : a.spells "=>" = true)
    (braceless : first.spells "\x7b" = false)
    (read : Grammar.expression source (first :: more) = .ok q)
    (alone : ∀ t ∈ q.rest.head?, Grammar.isAssignment t = false) (params : List String) :
    ∃ p, Grammar.arrow source params (a :: first :: more) = .ok p ∧
      p.value = Grammar.conciseArrow source params first q.last ∧ p.last = q.last ∧
      p.rest = q.rest := by
  obtain ⟨e, last, rest, fewer⟩ := q
  rw [Grammar.arrow, if_neg (by simp [mark]), if_neg (by simp [braceless]), read]
  cases rest with
  | nil => exact ⟨_, rfl, rfl, rfl, rfl⟩
  | cons t rest =>
      have plain : Grammar.isAssignment t = false := alone t rfl
      show ∃ p, (if Grammar.isAssignment t = true then _ else _) = _ ∧ _
      rw [if_neg (by simp [plain])]
      exact ⟨_, rfl, rfl, rfl, rfl⟩

/-- A concise arrow function whose body is no statement returns its expression.

Take a text in which an arrow is read with an expression behind it that is not assigned
to, and let the body of that function be no statement.  It is compiled to one instruction,
which returns the expression, and so is the block that returns the expression.  The two
functions are called in the same way; and whatever a session comes to in which the one was
called, with whatever fault, it comes to in the same state after the other was called in
its place.  All that is asked of the session is that the compilations it keeps at hand are
those of their bodies, and so they are wherever a loaded program leads
(`Session.honest_of_loaded`). -/
theorem concise_arrows_return {text : String} {linesBefore : Int} {front more : List Token}
    {a first : Token} {q : Parsed Expr (weight (first :: more))}
    (tokens : Token.tokenize text linesBefore = .ok (front ++ a :: first :: more))
    (mark : a.spells "=>" = true) (braceless : first.spells "\x7b" = false)
    (read : Grammar.expression text.toList (first :: more) = .ok q)
    (alone : ∀ t ∈ q.rest.head?, Grammar.isAssignment t = false)
    (here : b = conciseBody text.toList first q.last) (none : b.NoStatement) :
    (∀ params, ∃ p, Grammar.arrow text.toList params (a :: first :: more) = .ok p ∧
      p.value = .function ⟨params, b.text, true, "", b.linesBefore, true⟩ ∧
      p.rest = q.rest) ∧
    b.compile = .ok ⟨[.return q.value first.line], []⟩ ∧
    b.returning.compile = .ok ⟨[.return q.value first.line], []⟩ ∧
    ∀ f : FunctionValue, f.body = b →
      (∀ host, Act.invoke host { f with body := b.returning } = Act.invoke host f) ∧
      ∀ args name line receiver s call t, Honest s.bodies →
        (Act.invoke Act.plain f args name line receiver).run s = (.ok call, t) →
        ∀ serial callers base why,
          (∀ u, (t.entering serial call b callers base).Leads why u →
            ∃ v, (t.entering serial call b.returning callers base).Leads why v ∧
              u.Interchanged b b.returning v) ∧
          ∀ v, (t.entering serial call b.returning callers base).Leads why v →
            ∃ u, (t.entering serial call b callers base).Leads why u ∧
              u.Interchanged b b.returning v := by
  have split : front ++ a :: first :: more = (front ++ [a]) ++ first :: more := by simp
  rw [split] at tokens
  subst here
  have line : (conciseBody text.toList first q.last).linesBefore + 1 = first.line :=
    Int.sub_add_cancel ..
  have concise := Body.compile_concise rfl none (Grammar.parse_concise tokens read)
  have block := Body.compile_block (b := (conciseBody text.toList first q.last).returning) rfl
    (Grammar.statements_returning tokens read)
  rw [line] at concise
  have same : (conciseBody text.toList first q.last).returning.instructions =
      (conciseBody text.toList first q.last).instructions := by
    rw [Body.instructions, Body.instructions, concise, block]
    rfl
  refine ⟨fun params => ?_, concise, block, ?_⟩
  · obtain ⟨p, arrow, value, -, rest⟩ := Grammar.arrow_concise mark braceless read alone params
    exact ⟨p, arrow, value, rest⟩
  · intro f body
    refine ⟨fun host => rfl, ?_⟩
    intro args name line receiver s call t honest called serial callers base why
    have kept : Honest t.bodies := by
      have invokes : Act.Matches Session.Recalled (Act.invoke Act.plain f args name line receiver)
          (Act.invoke Act.plain f args name line receiver) :=
        (Act.coded_invoke (l := .all) f args name line receiver).recalls
      have invoked := (invokes s s (.refl honest)).2.honest
      rw [called] at invoked
      exact invoked
    have start := Session.Interchanged.entering (conciseBody text.toList first q.last)
      (conciseBody text.toList first q.last).returning kept serial call callers base
    refine ⟨fun u leads => start.leads same leads, fun v leads => ?_⟩
    obtain ⟨u, leads, related⟩ := start.symm.leads same.symm leads
    exact ⟨u, leads, related.symm⟩

/-- The tokens of a concise arrow function that doubles. -/
def doublingTokens : List Token :=
  [⟨.word, "x", 0, 1, 1, 1⟩, ⟨.operator, "=>", 2, 4, 1, 3⟩, ⟨.word, "x", 5, 6, 1, 6⟩,
    ⟨.operator, "*", 7, 8, 1, 8⟩, ⟨.number, "2", 9, 10, 1, 10⟩]

/-- The function that they are read as, in the global scope. -/
def doubling : FunctionValue :=
  ⟨"double", ["x"], ⟨"x * 2", 0, true⟩, 1, some (Store.scopeId 1), true⟩

/-- The product is returned by both functions, and what comes of a call of the one in a
program that was loaded comes of a call of the other. -/
theorem product_returned :
    ∃ e, Body.compile ⟨"x * 2", 0, true⟩ = .ok ⟨[.return e 1], []⟩ ∧
      Body.compile ⟨" return x * 2; ", 0, false⟩ = .ok ⟨[.return e 1], []⟩ ∧
      ∃ call t,
        (Act.invoke Act.plain doubling [.number (.int 21)] "double" 1 none).run
          ((Session.create 0 {} true).begun []) = (.ok call, t) ∧
        ∀ why u, (t.entering 0 call ⟨"x * 2", 0, true⟩ [] .callback).Leads why u →
          ∃ v, (t.entering 0 call ⟨" return x * 2; ", 0, false⟩ [] .callback).Leads why v ∧
            u.Interchanged ⟨"x * 2", 0, true⟩ ⟨" return x * 2; ", 0, false⟩ v := by
  have tokens : Token.tokenize "x => x * 2" 0 = .ok doublingTokens := by decide +kernel
  have reads : (Grammar.expression "x => x * 2".toList (doublingTokens.drop 2)).toOption.map
      (fun q => (q.last.stop, q.rest)) = some (10, []) := by decide +kernel
  have skips : (Grammar.statements "x * 2" 0).toOption.map (·.diagnostics.isEmpty) =
      some false := by decide +kernel
  cases read : Grammar.expression "x => x * 2".toList (doublingTokens.drop 2) with
  | error stop =>
      rw [read] at reads
      cases reads
  | ok q =>
  rw [read] at reads
  obtain ⟨stop, rest⟩ := Prod.mk.inj (Option.some.inj reads)
  have skipped : Body.NoStatement ⟨"x * 2", 0, true⟩ := by
    cases statements : Grammar.statements "x * 2" 0 with
    | error fault =>
        rw [statements] at skips
        cases skips
    | ok st =>
        rw [statements] at skips
        refine ⟨st, statements, .inl fun empty => ?_⟩
        have left : st.diagnostics.isEmpty = false := Option.some.inj skips
        rw [empty] at left
        cases left
  have here : (⟨"x * 2", 0, true⟩ : Body) =
      conciseBody "x => x * 2".toList ⟨.word, "x", 5, 6, 1, 6⟩ q.last := by
    rw [conciseBody, stop]
    decide
  have alone : ∀ t ∈ q.rest.head?, Grammar.isAssignment t = false := by
    rw [rest]
    intro t nothing
    cases nothing
  have split : doublingTokens = doublingTokens.take 1 ++ ⟨.operator, "=>", 2, 4, 1, 3⟩ ::
      ⟨.word, "x", 5, 6, 1, 6⟩ :: doublingTokens.drop 3 := rfl
  rw [split] at tokens
  obtain ⟨-, concise, block, alike⟩ := concise_arrows_return tokens rfl rfl read alone here skipped
  have honest : Honest ((Session.create 0 {} true).begun []).bodies :=
    Session.honest_of_loaded (s := Session.create 0 {} true) rfl rfl rfl (Act.run_init rfl rfl)
      .refl
  have invokes : ((Act.invoke Act.plain doubling [.number (.int 21)] "double" 1 none).run
      ((Session.create 0 {} true).begun []) : Except Fault Call × Session).1.isOk = true := by
    decide +kernel
  rcases called : ((Act.invoke Act.plain doubling [.number (.int 21)] "double" 1 none).run
    ((Session.create 0 {} true).begun []) : Except Fault Call × Session) with ⟨fault | call, t⟩
  · rw [called] at invokes
    cases invokes
  · have leads := (alike doubling rfl).2 _ _ _ _ _ call t honest called 0 [] .callback
    exact ⟨q.value, concise, block, call, t, rfl, fun why => (leads why).1⟩

/-- A program in which `a` is what a function gives that is to pass on what `f` returns. -/
def passingOn (body : String) (concise : Bool) : Session :=
  (Session.create 0 {} true).begun
    [.functionDecl ⟨"f", [], " return 1; ", 1, 1, 0, true⟩,
      .declare .let_ "g" (.function ⟨[], body, true, "", 1, concise⟩) 2,
      .declare .let_ "a" (.call "g" []) 3]

/-- A call in the body of a concise arrow function is executed, but the function returns
nothing; with a block, it returns what the call does. -/
theorem concise_call_is_executed :
    (parseExpression "f()" 1).isOk = true ∧
    ((Session.onward^[10] (passingOn "f()" true)).boundIn? "scope_1" "a").map (·.kind) =
      some "undefined" ∧
    ((Session.onward^[10] (passingOn " return f(); " false)).boundIn? "scope_1" "a").map
      (·.kind) = some "number" := by
  decide +kernel

end Runloop
