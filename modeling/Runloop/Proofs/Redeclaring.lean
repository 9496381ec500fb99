/-
# Declarations without a value

A declaration without an initializer is read as one that is initialized with undefined
(`Grammar.declarators_bare`).  So the room that hoisting makes for a name leaves a bound
name alone, but the declaration itself, when its turn comes, does not: the name is bound to
undefined, whatever it was bound to before (`bare_declarations_reset`).
-/
import Runloop.Proofs.Executing

namespace Runloop

/-! ## How it is read -/

/-- A name that no equals sign follows is declared with undefined. -/
theorem Grammar.declarators_bare {source : List Char} {keyword : DeclKeyword} {line : Int}
    {t : Token} {rest : List Token} {p : Parsed (List Instruction) (weight (t :: rest))}
    (word : t.kind = .word) (bare : nextIs "=" rest = false)
    (read : declarators source keyword line (t :: rest) = .ok p) :
    p.value.head? = some (.declare keyword t.text .undefined line) := by
  have named : name (t :: rest) = .ok ⟨t.text, t, rest, weight_lt_cons t rest⟩ := by
    rw [name, if_pos word]
  rw [declarators, named] at read
  cases rest with
  | nil =>
      cases read
      rfl
  | cons c more =>
      have bare : c.spells "=" = false := bare
      dsimp only [bind, Except.bind] at read
      rw [if_pos (by rw [bare]; rfl)] at read
      dsimp only at read
      split at read
      · -- more is declared behind a comma
        cases later : declarators source keyword line more with
        | error stop =>
            rw [later] at read
            cases read
        | ok q =>
            rw [later] at read
            cases read
            rfl
      · cases read
        rfl

/-! ## What it does -/

/-- A name is declared with undefined: it is bound to undefined. -/
theorem Act.ends_declare_undefined {s : Session} {scope name : String} {keyword : DeclKeyword}
    {line : Int} {c : Scope} (found : s.store.scope? scope = some c) :
    Act.Ends (Act.execute Act.plain scope (.declare keyword name .undefined line)) s
      (fun r t => r = .done none ∧ s.Gives t scope name .undefined keyword.spelling)
      (fun _ _ => s.machine.limits.steps < s.count + 1) := by
  rw [Act.execute_eq, Act.ends_bind]
  refine (Act.ends_step _).mono ?_ fun _ _ h => h
  rintro _ t ⟨scopes, heap, -⟩
  have found : t.store.scope? scope = some c := by rw [Store.scope?, scopes]; exact found
  have evaluates : (Act.eval Act.plain scope .undefined).run t = (.ok (.value .undefined), t) := rfl
  rw [Act.perform, Act.ends_bind]
  refine .of_answer evaluates ?_
  rw [Act.conclude, Act.ends_bind, Act.finishWith, Act.ends_bind]
  refine (Act.ends_binding found).mono ?_ ?_
  · rintro _ u ⟨given, kept⟩
    exact ⟨rfl, given.trans (by rw [scopes]; rfl), kept.trans heap⟩
  · rintro _ _ ⟨fault, displayed⟩
    cases displayed

/-- A declaration without an initializer resets what it declares.  Take a name that no
equals sign follows, and the instruction that it is read as.  Whenever a unit of work is
about to execute it, in whatever scope, its next segment binds the name to undefined,
unless the limit on steps ends the program.  The name stays declared as it was if it was
bound, and all other bindings, scopes and objects stay as they are.  So a value is kept
exactly if it was undefined. -/
theorem bare_declarations_reset {source : List Char} {line : Int} {name : Token}
    {rest : List Token} {read : Grammar.Parsed (List Instruction) (Grammar.weight (name :: rest))}
    {i : Instruction} (word : name.kind = .word) (bare : Grammar.nextIs "=" rest = false)
    (reads : Grammar.declarators source .var line (name :: rest) = .ok read)
    (first : read.value.head? = some i) {why : Option Fault} {s v : Session} {u : UnitOfWork}
    {scope : String} {p : Progress} (h : Reached why s) (on : s.phase ≠ .completed)
    (hu : s.machine.unit = some u) (r : Runs (s.working u) u.work v scope i p) :
    (((Act.advance Act.plain).run s).2.phase = .completed ∧
      s.machine.limits.steps < s.count + 1) ∨
    s.Gives ((Act.advance Act.plain).run s).2 scope name.text .undefined "var" ∧
      (∀ other, other ≠ name.text →
        ((Act.advance Act.plain).run s).2.valueIn? scope other = s.valueIn? scope other) ∧
      ((Act.advance Act.plain).run s).2.valueIn? scope name.text = some .undefined ∧
      ∀ value, s.valueIn? scope name.text = some value →
        (((Act.advance Act.plain).run s).2.valueIn? scope name.text = some value ↔
          value = .undefined) := by
  obtain rfl : .declare .var name.text .undefined line = i :=
    Option.some.inj ((Grammar.declarators_bare word bare reads).symm.trans first)
  have st := h.steady on
  obtain ⟨store, machine⟩ := r.start
  obtain ⟨c, found⟩ := r.isOpen (st.working hu)
  have declares : Act.Ends
      (Act.execute Act.plain scope (.declare .var name.text .undefined line)) v
      (fun r t => r = .done none ∧ v.Gives t scope name.text .undefined "var")
      (fun _ _ => v.machine.limits.steps < v.count + 1) :=
    Act.ends_declare_undefined (by rw [store]; exact found)
  have kept : v.machine.limits.steps < v.count + 1 ↔ s.machine.limits.steps < s.count + 1 := by
    rw [machine, Session.count, store]
    rfl
  rcases r.advance st hu declares with ⟨completed, beyond⟩ | ⟨t, gives, -, advances⟩
  · exact .inl ⟨completed, kept.mp beyond⟩
  · rw [advances]
    have gives : s.Gives (t.holding (p.rest u.serial)) scope name.text .undefined "var" := by
      refine ⟨gives.scopes.trans ?_, gives.heap.trans ?_⟩
      · rw [store]
        rfl
      · rw [store]
        rfl
    have bound (other : String) : (t.holding (p.rest u.serial)).valueIn? scope other =
        if other = name.text then some .undefined else s.valueIn? scope other := by
      have found : s.store.scope? scope = some c := found
      rw [Session.valueIn?, gives.scope? found, Session.valueIn?, found, Option.bind_some,
        Option.bind_some, Scope.binding?_give]
      split
      · rfl
      · rfl
    refine .inr ⟨gives, fun other differs => ?_, ?_, fun value _ => ?_⟩
    · rw [bound, if_neg differs]
    · rw [bound, if_pos rfl]
    · rw [bound, if_pos rfl, Option.some_inj]
      exact eq_comm

/-- The declaration with undefined that comes next in a call, and the scope of the call. -/
def Work.bare? : Work → Option (String × DeclKeyword × String × Int)
  | .inCall call (.between none (.declare keyword name (.literal .undefined) line :: _)) _ _ =>
      some (call.scope, keyword, name, line)
  | _ => none

theorem Runs.of_bare {s : Session} {work : Work} {scope name : String} {keyword : DeclKeyword}
    {line : Int} (h : work.bare? = some (scope, keyword, name, line)) :
    ∃ p, Runs s work s scope (.declare keyword name .undefined line) p := by
  rw [Work.bare?.eq_def] at h
  split at h
  · cases h
    exact ⟨_, .between _ _⟩
  · cases h

/-- A call whose parameter is about to be declared again. -/
def Session.redeclaring : Session :=
  .running "function f(x) \x7b var x; \x7d\nf(1);" {} 5

/-- The name that it declares. -/
def redeclaredName : Token := ⟨.word, "x", 5, 6, 1, 6⟩

/-- The argument is lost. -/
theorem redeclared_parameter_is_lost :
    (Session.redeclaring.valueIn? "scope_2" "x").map Value.truthy = some true ∧
    ((Act.advance Act.plain).run Session.redeclaring).2.valueIn? "scope_2" "x" =
      some .undefined := by
  obtain ⟨loads, on, within, next, bound⟩ :
      (Session.loading "function f(x) \x7b var x; \x7d\nf(1);" {}).1 = .ok (.bool true) ∧
      Session.redeclaring.phase ≠ .completed ∧
      ¬ Session.redeclaring.machine.limits.steps < Session.redeclaring.count + 1 ∧
      Session.redeclaring.machine.unit.bind (·.work.bare?) = some ("scope_2", .var, "x", 1) ∧
      (Session.redeclaring.valueIn? "scope_2" "x").map Value.truthy = some true := by
    decide +kernel
  obtain ⟨why, reached⟩ : Session.redeclaring.Live := Session.running_live 5 loads
  obtain ⟨u, hu, declares⟩ := Option.bind_eq_some_iff.mp next
  obtain ⟨p, runs⟩ := Runs.of_bare (s := Session.redeclaring.working u) declares
  obtain ⟨read, reads⟩ : ∃ read, Grammar.declarators [] .var 1 [redeclaredName] = .ok read := by
    rw [Grammar.declarators]
    exact ⟨_, rfl⟩
  rcases bare_declarations_reset rfl rfl reads (Grammar.declarators_bare rfl rfl reads) reached on
    hu runs with ⟨-, beyond⟩ | ⟨-, -, reset, -⟩
  · exact absurd beyond within
  · exact ⟨bound, reset⟩

end Runloop
