/-
# One instruction in its scope

What an instruction does to names is said here exactly.  `Scope.give` is a scope after a
name of it was given a value: a name that is bound keeps the way in which it was declared.
`Act.bind` does that and nothing else (`Act.ends_binding`).

`Runs` reads off a unit of work which instruction its next segment executes, in which
scope, and where the unit stands when the instruction has been done.  What holds of the
execution then holds of the segment, and of the turn that drives it (`Runs.advance`).
-/
import Runloop.Proofs.Callbacks
import Runloop.Proofs.Limits

namespace Runloop

/-! ## Giving a name a value -/

/-- The scope after one of its names was given a value. -/
def Scope.give (name : String) (v : Value) (kind declaration : String) (c : Scope) : Scope :=
  { c with
    bindings :=
      Datum.setField name ⟨v, kind, (c.binding? name).elim declaration (·.declaration)⟩
        c.bindings }

theorem Scope.binding?_give (c : Scope) (name : String) (v : Value) (kind declaration : String)
    (other : String) :
    (c.give name v kind declaration).binding? other =
      if other = name then some ⟨v, kind, (c.binding? name).elim declaration (·.declaration)⟩
      else c.binding? other := by
  split
  · rename_i same
    rw [same]
    exact binding?_setField c name _
  · rename_i differs
    exact binding?_setField_ne c _ differs

/-- Only the member that is replaced counts. -/
theorem modifyFirst_congr {α : Type} {p : α → Bool} {f g : α → α} {l : List α} {a : α}
    (found : l.find? p = some a) (same : f a = g a) : modifyFirst p f l = modifyFirst p g l := by
  induction l with
  | nil => rfl
  | cons b l ih =>
      rw [modifyFirst, modifyFirst]
      cases hb : p b with
      | true =>
          rw [List.find?_cons_of_pos hb] at found
          rw [if_pos rfl, if_pos rfl, Option.some.inj found, same]
      | false =>
          rw [List.find?_cons_of_neg (by simp [hb])] at found
          rw [if_neg (by simp), if_neg (by simp), ih found]

/-- From `s` to `t` a name of a scope was given a value, and nothing else happened to the
scopes and the heap. -/
structure Session.Gives (s t : Session) (scope name : String) (v : Value) (declaration : String) :
    Prop where
  scopes : t.store.state.scopes =
    modifyFirst (·.id == scope) (Scope.give name v (v.kind s.store.heapView) declaration)
      s.store.state.scopes
  heap : t.store.state.heap = s.store.state.heap

theorem Session.Gives.scope? {s t : Session} {scope name declaration : String} {v : Value}
    {c : Scope} (h : s.Gives t scope name v declaration) (found : s.store.scope? scope = some c) :
    t.store.scope? scope = some (c.give name v (v.kind s.store.heapView) declaration) := by
  rw [Store.scope?, h.scopes]
  have replaced := find?_modifyFirst (p := (·.id == scope))
    (f := Scope.give name v (v.kind s.store.heapView) declaration) (fun _ => rfl)
    s.store.state.scopes
  exact replaced.trans (congrArg (Option.map _) found)

/-- The variable that a scope itself holds under a name. -/
def Session.boundIn? (s : Session) (scope name : String) : Option Binding :=
  (s.store.scope? scope).bind (·.binding? name)

theorem Session.valueIn?_eq (s : Session) (scope name : String) :
    s.valueIn? scope name = (s.boundIn? scope name).map (·.value) := rfl

theorem Session.boundIn?_of_scopes {s t : Session}
    (scopes : t.store.state.scopes = s.store.state.scopes) (scope name : String) :
    t.boundIn? scope name = s.boundIn? scope name := by
  rw [Session.boundIn?, Store.scope?, scopes]
  rfl

theorem Session.Gives.boundIn? {s t : Session} {scope name declaration : String} {v : Value}
    {c : Scope} (h : s.Gives t scope name v declaration) (found : s.store.scope? scope = some c)
    (other : String) :
    t.boundIn? scope other =
      if other = name then
        some ⟨v, v.kind s.store.heapView, (c.binding? name).elim declaration (·.declaration)⟩
      else s.boundIn? scope other := by
  rw [Session.boundIn?, h.scope? found, Option.bind_some, Scope.binding?_give,
    Session.boundIn?, found, Option.bind_some]

namespace Act

variable {s : Session} {scope name declaration : String} {v : Value}

@[simp]
theorem ends_kindOf {Q : String → Session → Prop} {E : Fault → Session → Prop} :
    Ends (kindOf v) s Q E ↔ Q (v.kind s.store.heapView) s :=
  Iff.rfl

@[simp]
theorem ends_ownBinding? {Q : Option Binding → Session → Prop} {E : Fault → Session → Prop} :
    Ends (ownBinding? scope name) s Q E ↔ Q ((s.store.scope? scope).bind (·.binding? name)) s :=
  Iff.rfl

/-- What is shown of a variable is neither a binding nor an object; a value that cannot be
displayed is a fault. -/
theorem ends_showVariable :
    Ends (showVariable plain scope name v) s
      (fun _ t => t.store.state.scopes = s.store.state.scopes ∧
        t.store.state.heap = s.store.state.heap)
      (fun _ _ => ∃ fault, v.display s.store.heapView = .error fault) := by
  rw [showVariable_eq, ends_bind, ends_store]
  split
  · rw [showing, display, ends_bind, ends_bind, ends_heapView, ends_number]
    cases displayed : v.display s.store.heapView with
    | error fault => exact ⟨fault, rfl⟩
    | ok text =>
        dsimp only
        rw [ends_bind, ends_kindOf, ends_change, Session.publish_store,
          updateFrameVariable_store]
        exact ⟨rfl, rfl⟩
  · exact ⟨rfl, rfl⟩

/-- A name of an open scope is bound, or given another value if it is bound already. -/
theorem ends_binding {c : Scope} (found : s.store.scope? scope = some c) :
    Ends (Act.bind plain scope name v declaration) s
      (fun _ t => s.Gives t scope name v declaration)
      (fun _ _ => ∃ fault, v.display s.store.heapView = .error fault) := by
  -- the binding is written; then it is shown, under the heap as it was
  have shows (b : Binding) (action : ScopeAction)
      (given : b = ⟨v, v.kind s.store.heapView, (c.binding? name).elim declaration (·.declaration)⟩) :
      Ends (showVariable plain scope name v) (s.publish (s.store.rebinding action c name b))
        (fun _ t => s.Gives t scope name v declaration)
        (fun _ _ => ∃ fault, v.display s.store.heapView = .error fault) := by
    have written := scope?_id found
    refine ends_showVariable.mono ?_ ?_
    · rintro _ t ⟨scopes, heap⟩
      rw [Session.publish_store] at scopes heap
      refine ⟨scopes.trans ?_, heap⟩
      subst written
      refine modifyFirst_congr found ?_
      rw [given]
      rfl
    · rintro _ t ⟨fault, displayed⟩
      rw [Session.publish_store] at displayed
      exact ⟨fault, displayed⟩
  rw [Act.bind, ends_bind, ends_kindOf, ends_bind, ends_ownBinding?, found, Option.bind_some]
  cases bound : c.binding? name with
  | some old =>
      rw [ends_bind, ends_change?]
      have written : s.store.updateScopeVariable scope name v (some (v.kind s.store.heapView)) =
          .ok (s.store.rebinding .updateVariable c name
            { old with value := v, kind := v.kind s.store.heapView }) := by
        rw [Store.updateScopeVariable, found]
        dsimp only
        rw [bound]
        cases scope?_id found
        rfl
      rw [written]
      exact shows _ _ (by rw [bound]; rfl)
  | none =>
      rw [ends_bind, ends_change?]
      have written : s.store.addScopeVariable scope name
          ⟨v, v.kind s.store.heapView, declaration⟩ =
            .ok (s.store.rebinding .addVariable c name
              ⟨v, v.kind s.store.heapView, declaration⟩) := by
        rw [Store.addScopeVariable, found]
        cases scope?_id found
        rfl
      rw [written]
      exact shows _ _ (by rw [bound]; rfl)

/-- A step that is within the limit touches neither scopes nor the heap. -/
theorem ends_step (i : Instruction) :
    Ends (arrive plain i) s
      (fun _ t => t.store.state.scopes = s.store.state.scopes ∧
        t.store.state.heap = s.store.state.heap ∧ t.store.counters = s.store.counters)
      (fun _ _ => s.machine.limits.steps < s.count + 1) := by
  rw [arrive, ends_bind, ends_change, ends_bind, ends_machine]
  dsimp only
  split
  · rename_i beyond
    exact beyond
  · split
    · rw [ends_bind, ends_modifyMachine, ends_change, Session.publish_store]
      exact ⟨rfl, rfl, rfl⟩
    · exact ⟨rfl, rfl, rfl⟩

end Act

/-! ## The instruction that comes next -/

/-- The scope of the innermost call is open. -/
theorem Sound.isOpen {s : Session} {calls : List Call} (sound : Sound ⟨s, calls, []⟩) :
    ∃ c, s.store.scope? (innermost calls) = some c := by
  obtain ⟨c, last, here⟩ := Option.map_eq_some_iff.mp sound.held.current_innermost
  exact Session.scope?_of_mem (List.mem_map.mpr ⟨c, List.mem_of_getLast? last, here⟩)

/-- The next segment of a unit of work executes an instruction in a scope, and when that is
done without a value the unit stands as told.  The instructions of a call that was just
entered are compiled first, or are still at hand. -/
inductive Runs (s : Session) : Work → Session → String → Instruction → Progress → Prop
  | program {scope : String} (i : Instruction) : s.machine.globalScope = some scope →
      Runs s (.instruction i) s scope i .ended
  | entered {call : Call} {body : Body} {callers : List Caller} {base : Base} {i : Instruction}
      {rest : List Instruction} {t : Session} :
      (Act.instructionsOf body).run s = (.ok (i :: rest), t) →
      Runs s (.inCall call (.entered body) callers base) t call.scope i
        (.paused (.inCall call (.between none rest) callers base))
  | between {call : Call} {callers : List Caller} {base : Base} (i : Instruction)
      (rest : List Instruction) :
      Runs s (.inCall call (.between none (i :: rest)) callers base) s call.scope i
        (.paused (.inCall call (.between none rest) callers base))

namespace Runs

variable {s t v : Session} {work : Work} {scope : String} {i : Instruction} {p : Progress}
  {Q : Session → Prop} {K : Prop}

/-- Nothing happens before the instruction, but that a body may be compiled. -/
theorem start (r : Runs s work v scope i p) : v.store = s.store ∧ v.machine = s.machine := by
  cases r with
  | program | between => exact ⟨rfl, rfl⟩
  | entered run =>
      rename_i body _ _ _
      have compiled : Act.Ends (Act.instructionsOf body) s
          (fun _ t => t.store = s.store ∧ t.machine = s.machine) (fun _ _ => True) := by
        rw [Act.instructionsOf, Act.ends_bind, Act.ends_get]
        split
        · exact ⟨rfl, rfl⟩
        · split
          · trivial
          · exact ⟨rfl, rfl⟩
      exact compiled.of_ok run

/-- An instruction is executed in the scope of the innermost call. -/
theorem innermost (r : Runs s work v scope i p)
    (global : s.machine.globalScope = some (Store.scopeId 1)) :
    scope = Runloop.innermost work.calls := by
  cases r with
  | program i here => exact Option.some.inj (here.symm.trans global)
  | entered | between => rfl

/-- The scope is open. -/
theorem isOpen (r : Runs s work v scope i p) (sound : Sound ⟨s, work.calls, []⟩) :
    ∃ c, s.store.scope? scope = some c := by
  rw [r.innermost sound.held.global]
  exact sound.isOpen

theorem runBody {call : Call} {callers : List Caller} {base : Base} {rest : List Instruction}
    (done : Act.Ends (Act.execute Act.plain call.scope i) s
      (fun r t => r = .done none ∧ Q t) (fun _ _ => K)) :
    Act.Ends (Act.runBody Act.plain call callers base (i :: rest)) s
      (fun p t => p = .paused (.inCall call (.between none rest) callers base) ∧ Q t)
      (fun _ _ => K) := by
  rw [Act.runBody, Act.runBodyWith, Act.ends_bind]
  refine (Act.ends_inside done).mono ?_ fun _ _ h => h
  rintro r t ⟨rfl, q⟩
  exact ⟨rfl, q⟩

theorem compiled {calls : List Call} {body : Body} {is : List Instruction}
    (run : (Act.instructionsOf body).run s = (.ok is, t)) :
    (Act.inside Act.plain calls (Act.instructionsOf body)).run s = (.ok is, t) := by
  rw [Act.inside, Act.run_tryCatch, run]

/-- The segment does what the instruction does. -/
theorem segment (r : Runs s work v scope i p)
    (done : Act.Ends (Act.execute Act.plain scope i) v
      (fun r t => r = .done none ∧ Q t) (fun _ _ => K)) :
    Act.Ends (Act.runSegment Act.plain work) s (fun p' t => p' = p ∧ Q t) (fun _ _ => K) := by
  cases r with
  | program i global =>
      rw [Act.runSegment, Act.runSegmentWith, Act.ends_bind, Act.ends_machine, global,
        Act.ends_bind]
      refine done.mono ?_ fun _ _ h => h
      rintro r t ⟨rfl, q⟩
      exact ⟨rfl, q⟩
  | entered run =>
      rw [Act.runSegment, Act.runSegmentWith, Act.ends_bind]
      exact .of_answer (compiled run) (runBody done)
  | between i rest => exact runBody done

/-- A turn that drives the unit does what the instruction does; a fault in it ends the
program. -/
theorem advance {u : UnitOfWork} (st : Steady s) (hu : s.machine.unit = some u)
    (r : Runs (s.working u) u.work v scope i p)
    (done : Act.Ends (Act.execute Act.plain scope i) v
      (fun r t => r = .done none ∧ Q t) (fun _ _ => K)) :
    (((Act.advance Act.plain).run s).2.phase = .completed ∧ K) ∨
      ∃ t, Q t ∧ t.machine.driven = (s.working u).machine.driven ∧
        ((Act.advance Act.plain).run s).2 = t.holding (p.rest u.serial) := by
  have ends := r.segment done
  rcases Act.advance_cases st hu with ⟨fault, w, t, run, advances, -, -, completed⟩ |
    ⟨p', t, run, driven, advances⟩
  · rw [advances]
    exact .inl ⟨completed, ends.of_error run⟩
  · obtain ⟨rfl, q⟩ := ends.of_ok run
    rw [advances]
    exact .inr ⟨t, q, driven, rfl⟩

/-- The instruction is counted. -/
theorem executes (r : Runs s work v scope i p) :
    Act.Executes (fun handler => Act.runSegmentWith Act.plain handler work) s := by
  cases r with
  | program i _ => exact Act.executes_instruction i s
  | entered run => exact Act.executes_entered (compiled run)
  | between i rest => exact Act.executes_runBody _ _ _ i rest s

end Runs

end Runloop
