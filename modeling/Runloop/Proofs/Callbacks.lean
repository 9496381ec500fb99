/-
# The functions that tasks run

A task that names its callback is run when no call is open, so the global scope
is the only one that is open then.  What the name means in the scope that
registered the task is known from the program text, but the machine looks among
the open scopes and, if it finds nothing, among the functions that the program
declares.  So it runs the function that the name denotes for tasks of the global
scope, and for other tasks only if the declared function happens to be that one
(`callbacks_resolve`).

Whatever function it is gets the arguments of the task: parameter by parameter
they are bound in the scope of its call (`ends_bindParams`).
-/
import Runloop.Proofs.Commands

namespace Runloop

/-! ## Bindings of a scope -/

theorem find?_modifyFirst {α : Type} {p : α → Bool} {f : α → α} (h : ∀ a, p (f a) = p a)
    (l : List α) : (modifyFirst p f l).find? p = (l.find? p).map f := by
  induction l with
  | nil => rfl
  | cons a l ih =>
      unfold modifyFirst
      cases ha : p a with
      | true => simp [h, ha]
      | false => simpa [ha] using ih

theorem binding?_setField_ne (c : Scope) {name other : String} (b : Binding) (h : other ≠ name) :
    { c with bindings := Datum.setField name b c.bindings }.binding? other = c.binding? other := by
  show ((Datum.setField name b c.bindings).find? (·.1 == other)).map (·.2) =
    (c.bindings.find? (·.1 == other)).map (·.2)
  induction c.bindings with
  | nil => simp [Datum.setField, h.symm]
  | cons v rest ih =>
      by_cases he : v.1 = name
      · have hne : v.1 ≠ other := fun e => h (e.symm.trans he)
        simp [Datum.setField, he, h.symm]
      · by_cases ho : v.1 = other
        · simp [Datum.setField, ho, h]
        · simpa [Datum.setField, he, ho] using ih

namespace Session

/-- The value of a variable of a scope itself. -/
def valueIn? (s : Session) (scope name : String) : Option Value :=
  ((s.store.scope? scope).bind (·.binding? name)).map (·.value)

theorem scope?_rebinding {s : Session} {action : ScopeAction} {scope : String} {c : Scope}
    (found : s.store.scope? scope = some c) (name : String) (b : Binding) :
    (s.publish (s.store.rebinding action c name b)).store.scope? scope =
      some { c with bindings := Datum.setField name b c.bindings } := by
  cases scope?_id found
  have rebound := find?_modifyFirst (p := (·.id == c.id))
    (f := fun d : Scope => { d with bindings := Datum.setField name b d.bindings }) (fun _ => rfl)
    s.store.state.scopes
  rw [publish_store]
  exact rebound.trans (congrArg (Option.map _) found)

/-- A variable that is bound in a scope has its value, and the others keep
theirs. -/
theorem valueIn?_rebinding {s : Session} {action : ScopeAction} {scope : String} {c : Scope}
    (found : s.store.scope? scope = some c) (name : String) (b : Binding) (other : String) :
    (s.publish (s.store.rebinding action c name b)).valueIn? scope other =
      if other = name then some b.value else s.valueIn? scope other := by
  unfold valueIn?
  rw [scope?_rebinding found, found]
  split
  · rename_i same
    rw [same, Option.bind_some, binding?_setField]
    rfl
  · rename_i differs
    rw [Option.bind_some, Option.bind_some, binding?_setField_ne c b differs]

/-- What the top frame shows is no binding. -/
theorem valueIn?_display (s : Session) (name value kind scope other : String) :
    (s.publish (s.store.updateFrameVariable name value kind)).valueIn? scope other =
      s.valueIn? scope other := by
  unfold valueIn?
  rw [publish_store]
  unfold Store.updateFrameVariable
  split <;> rfl

end Session

/-! ## Parameters -/

namespace Act

variable {s : Session} {scope : String}

/-- Parameters are bound to the arguments in their places, the later of two that
have the same name; nothing else is bound. -/
theorem ends_bindParams (params : List String) (args : List Value) :
    Ends (bindParams plain scope params args) s
      (fun _ t =>
        (∀ name, name ∉ params → t.valueIn? scope name = s.valueIn? scope name) ∧
        ∀ front param back, params = front ++ param :: back → param ∉ back →
          t.valueIn? scope param = some (args[front.length]?.getD .undefined))
      (fun _ _ => True) := by
  -- bound from the left, so of one name the last parameter is what is found
  induction params generalizing s args with
  | nil => exact ⟨fun _ _ => rfl, fun front param back h => absurd h (by simp)⟩
  | cons param params ih =>
      unfold bindParams
      rw [ends_bind]
      refine (still_kindOf _ s).mono ?_ fun _ _ _ => trivial
      rintro kind _ rfl
      rw [ends_bind, ends_change?]
      split
      · rename_i c added
        obtain ⟨d, found, rfl⟩ := addScopeVariable_inv added
        rw [ends_bind]
        refine (still_display _ _).mono ?_ fun _ _ _ => trivial
        rintro shown _ rfl
        rw [ends_bind]
        refine (still_kindOf _ _).mono ?_ fun _ _ _ => trivial
        rintro shownKind _ rfl
        rw [ends_bind, ends_change]
        refine (ih (args.drop 1)).mono ?_ fun _ _ _ => trivial
        rintro _ t ⟨others, own⟩
        simp only [Session.valueIn?_display, Session.valueIn?_rebinding found] at others
        refine ⟨fun name out => ?_, fun front p back split last => ?_⟩
        · obtain ⟨differs, out⟩ := not_or.mp (fun h => out (List.mem_cons.mpr h))
          rw [others name out, if_neg differs]
        · cases front with
          | nil =>
              obtain ⟨rfl, rfl⟩ := List.cons.inj split
              rw [others _ last, if_pos rfl, List.head?_eq_getElem?]
              rfl
          | cons first front =>
              obtain ⟨-, rest⟩ := List.cons.inj split
              rw [own front p back rest last, List.getElem?_drop, List.length_cons, Nat.add_comm]
      · trivial

/-- What is done with calls that are open gives an answer only if it is the
answer of the body. -/
theorem ends_inside {α : Type} {calls : List Call} {body : Act α} {Q : α → Session → Prop}
    {K : Prop} (h : Ends body s Q fun _ _ => K) :
    Ends (inside plain calls body) s Q fun _ _ => K := by
  unfold inside
  rw [ends_tryCatch]
  refine h.mono (fun _ _ hq => hq) fun fault t faulty => ?_
  rw [ends_bind]
  unfold Ends
  split <;> exact faulty

/-- A function that is called without a receiver has its arguments. -/
theorem ends_invoke {f : FunctionValue} {args : List Value} {name id : String} {line : Int}
    (sc : Scoped s) (hc : f.closure = some id) (hid : id ∈ idsOf (everOpened s.trace)) :
    Ends (invoke plain f args name line none) s
      (fun call t => ∀ front param back, f.params = front ++ param :: back → param ∉ back →
        t.valueIn? call.scope param = some (args[front.length]?.getD .undefined))
      (fun _ _ => True) := by
  by_cases deep : s.machine.limits.callDepth ≤ s.machine.depth
  · exact .of_run (run_invoke_of_deep plain deep) (y := throw (.halt .callDepth)) trivial
  · obtain ⟨part, nested, -⟩ := sc.reopened hid
    obtain ⟨-, -, -, counters⟩ := sc.restored part nested
    have walk : (invoke plain f args name line none).run s = _ :=
      run_invoke rfl deep hc (sc.parent_eq hid) counters
    have shown : (receiverText none).run (s.opening id (callName name)) =
        (.ok "window", s.opening id (callName name)) := rfl
    refine .of_run (walk.trans (run_enterCall rfl shown)) ?_
    rw [ends_bind]
    exact ends_inside ((ends_bindParams f.params args).mono (fun _ _ ht => ht.2) fun _ _ h => h)

end Act

/-! ## Which function a task runs -/

/-- From a scope that is not open nothing is found. -/
theorem findOpen_of_closed {s : Session} {name id : String} (closed : id ∉ s.store.scopeIds)
    (hne : id ≠ "") : Session.findOpen s name (some id) = none := by
  have chain : s.store.chain id = [] := by
    have unknown : s.store.state.scopes.reverse.find? (·.id == id) = none := by
      refine List.find?_eq_none.mpr fun c hc own => closed ?_
      exact List.mem_map.mpr ⟨c, List.mem_reverse.mp hc, by simpa using own⟩
    unfold Store.chain
    cases s.store.state.scopes.length with
    | zero => rfl
    | succ n =>
        unfold Store.chainFrom
        rw [unknown]
        rfl
  have start : id.isEmpty = false := by simpa using hne
  unfold Session.findOpen Store.findBinding?
  split
  · rfl
  · simp [start, chain]

namespace Reached

variable {why : Option Fault} {s : Session} {u : UnitOfWork} {task : Task} {base : Base}

/-- A task is about to run while only the global scope is open, and it closes
over a scope that was opened once. -/
theorem about_to_run (h : Reached why s) (hu : s.machine.unit = some u)
    (hp : u.work.pending? = some (task, base)) :
    Sound ⟨s, [], []⟩ ∧ s.store.scopeIds = [Store.scopeId 1] ∧ s.Knows task.spec.closure := by
  have on : s.phase ≠ .completed := fun he =>
    absurd (hu.symm.trans (h.standing.ended he).1) (by simp)
  have st := h.steady on
  have sound := st.sound
  rw [Session.calls, hu] at sound
  have sound : Sound ⟨s, [], []⟩ := Work.calls_of_pending? hp ▸ sound
  exact ⟨sound, sound.held.scopes, st.known u hu task base hp⟩

end Reached

/-- A promise queues a task that has its value as the only argument. -/
theorem Act.ends_finishWith_promise (s : Session) (scope : String) (callback : Callback)
    (params : List String) (v : Value) :
    Act.Ends (Act.finishWith Act.plain scope (.promise callback params) v) s
      (fun _ t => ∃ task, t.store.state.loop.microtasks = s.store.state.loop.microtasks ++ [task] ∧
        task.spec.callbackName = callback.name ∧ task.spec.closure = some scope ∧
        task.spec.args = [v])
      (fun _ _ => False) := by
  unfold Act.finishWith
  rw [Act.ends_bind, Act.ends_change, Act.ends_bind]
  refine Act.ends_log.mono ?_ fun _ _ h => h
  rintro _ t ⟨b, -⟩
  let spec : TaskSpec :=
    { name := "Promise.then", callback := callback.body, closure := some scope
      callbackName := callback.name, linesBefore := callback.linesBefore
      concise := callback.concise, params, args := [v] }
  refine ⟨(s.store.newTask .microtask spec s.now).2, ?_, rfl, rfl, rfl⟩
  rw [b.loop, Session.publish_store]
  rfl

/-- Where a task's name denotes a function, seen from the scope that registered
the task, the task runs it if that scope is the global one, and else only if it
is the function that the program declares under the name, or the body of the
task.  The function that is run gets the arguments of the task, and the
argument of a promise's task is the value of the promise. -/
theorem callbacks_resolve {why : Option Fault} {s : Session} {u : UnitOfWork} {task : Task}
    {base : Base} {closure owner : String} {binding : Binding} {f : FunctionValue}
    (h : Reached why s) (hu : s.machine.unit = some u) (hp : u.work.pending? = some (task, base))
    (named : task.spec.callbackName.isEmpty = false) (hc : task.spec.closure = some closure)
    (denotes : denoted? task.spec.callbackName (everOpened s.trace) closure =
      some (owner, binding))
    (function : s.functionOf? binding.value = some f) :
    (Act.runSegment Act.plain u.work).run (s.working u) =
      (do let call ← Act.invoke Act.plain (s.callbackOf task) task.spec.args task.label 0 none
          return .paused (.inCall call (.entered (s.callbackOf task).body) [] base) :
            Act Progress).run (s.working u) ∧
    Act.Ends (Act.runSegment Act.plain u.work) (s.working u)
      (fun p t => ∃ call,
        p = .paused (.inCall call (.entered (s.callbackOf task).body) [] base) ∧
        ∀ front param back, (s.callbackOf task).params = front ++ param :: back → param ∉ back →
          t.valueIn? call.scope param = some (task.spec.args[front.length]?.getD .undefined))
      (fun _ _ => True) ∧
    (∀ (s : Session) (scope : String) (callback : Callback) (params : List String) (v : Value),
      Act.Ends (Act.finishWith Act.plain scope (.promise callback params) v) s
        (fun _ t => ∃ task,
          t.store.state.loop.microtasks = s.store.state.loop.microtasks ++ [task] ∧
          task.spec.callbackName = callback.name ∧ task.spec.closure = some scope ∧
          task.spec.args = [v])
        (fun _ _ => False)) ∧
    (s.callbackOf task = f ↔ s.machine.globalScope = some closure ∨
      (s.declaredFunction? task.spec.callbackName).getD task.inlineFunction = f) := by
  obtain ⟨sound, scopes, known⟩ := h.about_to_run hu hp
  have sc := sound.placed rfl
  have run := Act.run_pending (s := s.working u) hp Act.plain
  refine ⟨run, .of_run run ?_, Act.ends_finishWith_promise, ?_⟩
  · obtain ⟨id, hid, closes⟩ := Act.knows_callbackOf sc known
    have placed : Scoped (s.working u) := (Beside.holding s _).placed sc
    rw [Act.ends_bind]
    refine (Act.ends_invoke placed closes hid).mono ?_ fun _ _ h => h
    intro call t bound
    exact ⟨call, rfl, bound⟩
  · have named' : ¬ task.spec.callbackName.isEmpty = true := by simp [named]
    have resolve : s.callbackOf task =
        (s.namedFunction? Session.findOpen task.spec.callbackName (some closure)).getD
          task.inlineFunction := by
      rw [Session.callbackOf, if_neg named', hc]
    have global := sound.held.global
    by_cases here : closure = Store.scopeId 1
    · -- the scope that registered the task is open
      have found : Session.findOpen s task.spec.callbackName (some closure) =
          some (owner, binding) := by
        rw [← sc.find_eq (by rw [scopes, here]; simp)]
        exact denotes
      refine ⟨fun _ => .inl (here ▸ global), fun _ => ?_⟩
      rw [resolve, Session.namedFunction?, found]
      exact congrArg (Option.getD · _) function
    · -- the scope that registered the task is closed
      obtain ⟨id, hid, e⟩ := known
      cases hc.symm.trans e
      have closed : closure ∉ s.store.scopeIds := by
        rw [scopes]
        simpa using here
      obtain ⟨n, -, number⟩ := sc.numbered closure hid
      have found : Session.findOpen s task.spec.callbackName (some closure) = none :=
        findOpen_of_closed closed (number ▸ scopeId_ne_empty n)
      rw [resolve, Session.namedFunction?, found]
      refine ⟨.inr, fun either => either.resolve_left fun own => here ?_⟩
      exact Option.some.inj (own.symm.trans global)

/-- A task that names a function of the function that registered it, where the
program declares another one of that name. -/
def Session.shadowing : Session :=
  .running ("function cb(v) \x7b console.log(1, v); \x7d\n" ++
    "function reg() \x7b function cb(v) \x7b console.log(2, v); \x7d " ++
    "Promise.resolve(42).then(cb); \x7d\nreg();") {} 9

/-- The name denotes the inner function, and the outer one is run. -/
theorem shadowing_resolves_outward :
    ∃ u task base closure d f, Session.shadowing.machine.unit = some u ∧
      u.work.pending? = some (task, base) ∧ task.spec.closure = some closure ∧
      denoted? task.spec.callbackName (everOpened Session.shadowing.trace) closure = some d ∧
      Session.shadowing.functionOf? d.2.value = some f ∧
      Session.shadowing.callbackOf task ≠ f := by
  obtain ⟨why, h⟩ : Session.shadowing.Live := Session.running_live 9 (by decide +kernel)
  have stands : (Session.shadowing.machine.unit.bind fun u => u.work.pending?.bind fun p =>
      p.1.spec.closure.bind fun closure =>
      (denoted? p.1.spec.callbackName (everOpened Session.shadowing.trace) closure).bind fun d =>
      (Session.shadowing.functionOf? d.2.value).map fun f =>
        (p.1.spec.callbackName.isEmpty,
          decide (Session.shadowing.machine.globalScope = some closure),
          decide ((Session.shadowing.declaredFunction? p.1.spec.callbackName).getD
            p.1.inlineFunction = f))) = some (false, false, false) := by
    decide +kernel
  simp only [Option.bind_eq_some_iff, Option.map_eq_some_iff, Prod.mk.injEq,
    decide_eq_false_iff_not] at stands
  obtain ⟨u, hu, ⟨task, base⟩, hp, closure, hc, ⟨owner, binding⟩, denotes, f, function, named, away,
    other⟩ := stands
  obtain ⟨-, -, -, iff⟩ := callbacks_resolve h hu hp named hc denotes function
  refine ⟨u, task, base, closure, (owner, binding), f, hu, hp, hc, denotes, function, fun same => ?_⟩
  exact (iff.mp same).elim away other

end Runloop
