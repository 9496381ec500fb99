/-
# Code moves its session

Every computation by which a program runs is shown to do two things at once,
both of them from a sound setting (`Act.Moving`):

  * it makes moves and nothing else, however it ends: with an answer, and then
    the calls that are open are known from the answer, or with a fault, and
    then those of `base` are open, and nothing was spilt unless the receiver of
    a method could not be shown;
  * it does the same whether it finds its way among the open scopes or by any
    reader (`Act.plain`, `Act.Reader`).

The two are proved together because the second needs the first: after a part of
a computation the setting is still sound, so the rest of it agrees as well.
-/
import Runloop.Proofs.Balance

namespace Runloop

/-- A fault that can come between the scope of a call and its frame: what is
shown of the receiver is too long. -/
def Fault.spills : Fault → Bool
  | .number _ => true
  | _ => false

/-- A function that code can call, and the receiver of the call: the function that a value
refers to, alone or as the method of an object, the one that a name denotes, or the one that
a task runs. -/
inductive Session.Callable (s : Session) : FunctionValue → Option Value → Prop
  | value {v : Value} {f : FunctionValue} : s.functionOf? v = some f → Callable s f none
  | method {v : Value} {f : FunctionValue} (id : String) : s.functionOf? v = some f →
      Callable s f (some (.ref id))
  | name {find : Lookup} {name : String} {scope : Option String} {f : FunctionValue} :
      s.namedFunction? find name scope = some f → Callable s f none
  | task {task : Task} : s.Knows task.spec.closure → Callable s (s.callbackOf task) none

theorem Session.Callable.receiver_eq_ref {s : Session} {f : FunctionValue}
    {receiver : Option Value} {v : Value} (h : s.Callable f receiver) (hv : v ∈ receiver) :
    ∃ id, v = .ref id := by
  cases h with
  | method id h => exact ⟨id, (Option.mem_some_iff.mp hv).symm⟩
  | _ => cases hv

/-- Something was spilt only by the call of a method, where its receiver could not be shown. -/
def Fault.Excuses (f : Fault) (a : Setting) (spilt : List String) : Prop :=
  spilt = [] ∨ ∃ s calls g id n, Moves a ⟨s, calls, []⟩ ∧ s.Callable g (some (.ref id)) ∧
    f = .number n ∧ (Value.ref id).display s.store.heapView = .error n ∧
    spilt = s.leftBehind g.closure (some (.ref id))

theorem Fault.Excuses.clean {f : Fault} {a : Setting} {spilt : List String}
    (h : f.Excuses a spilt) (hf : f.spills = false) : spilt = [] := by
  refine h.resolve_right ?_
  rintro ⟨s, calls, g, id, n, -, -, rfl, -⟩
  cases hf

theorem Fault.Excuses.after {f : Fault} {a b : Setting} {spilt : List String} (m : Moves a b)
    (h : f.Excuses b spilt) : f.Excuses a spilt := by
  refine h.imp_right ?_
  rintro ⟨s, calls, g, id, n, m', rest⟩
  exact ⟨s, calls, g, id, n, m.trans m', rest⟩

namespace Act

open Relation (ReflTransGen)

variable {α β : Type} {s : Session} {base calls : List Call}

/-- From `s`, with `calls` open, the computation makes moves, and all readers
agree on it.  After an answer the calls that `after` says are open, after a
fault those of `base`. -/
structure At (base calls : List Call) (act : Host → Act α) (after : α → List Call)
    (s : Session) : Prop where
  agrees : ∀ r : Reader, (act r.host).run s = (act plain).run s
  ends : Ends (act plain) s (fun a t => Moves ⟨s, calls, []⟩ ⟨t, after a, []⟩)
    (fun f t => ∃ spilt, Moves ⟨s, calls, []⟩ ⟨t, base, spilt⟩ ∧
      f.Excuses ⟨s, calls, []⟩ spilt)

/-- The computation makes moves from every sound setting. -/
def Moving (base calls : List Call) (act : Host → Act α) (after : α → List Call) : Prop :=
  ∀ s, Sound ⟨s, calls, []⟩ → At base calls act after s

/-! ## One rule for each way of building a computation -/

theorem At.bind {x : Host → Act α} {f : α → Host → Act β} {mid : α → List Call}
    {after : β → List Call} (hx : At base calls x mid s)
    (hf : ∀ a t, Moves ⟨s, calls, []⟩ ⟨t, mid a, []⟩ → At base (mid a) (f a) after t) :
    At base calls (fun host => x host >>= fun a => f a host) after s := by
  refine ⟨fun r => ?_, ?_⟩
  · rw [run_bind, run_bind, hx.agrees r]
    have hends := hx.ends
    unfold Ends at hends
    rcases hrun : ((x plain).run s : Except Fault α × Session) with ⟨fault | a, t⟩
    · rfl
    · rw [hrun] at hends
      exact (hf a t hends).agrees r
  · rw [ends_bind]
    refine hx.ends.mono (fun a t ht => ?_) (fun _ _ h => h)
    refine (hf a t ht).ends.mono (fun _ _ h => ht.trans h) ?_
    rintro f u ⟨spilt, h, excused⟩
    exact ⟨spilt, ht.trans h, excused.after ht⟩

theorem Moving.bind {x : Host → Act α} {f : α → Host → Act β} {mid : α → List Call}
    {after : β → List Call} (hx : Moving base calls x mid)
    (hf : ∀ a, Moving base (mid a) (f a) after) :
    Moving base calls (fun host => x host >>= fun a => f a host) after := by
  intro s sound
  exact (hx s sound).bind fun a t ht => hf a t (sound.moves ht)

/-- A computation that only reads comes first. -/
theorem At.read {x : Host → Act α} {f : α → Host → Act β} {after : β → List Call} {a : α}
    (hr : ∀ r : Reader, (x r.host).run s = (.ok a, s)) (hp : (x plain).run s = (.ok a, s))
    (hf : At base calls (f a) after s) :
    At base calls (fun host => x host >>= fun a => f a host) after s := by
  refine ⟨fun r => ?_, ?_⟩
  · rw [run_bind, run_bind, hr r, hp]
    exact hf.agrees r
  · rw [ends_bind]
    unfold Ends
    rw [hp]
    exact hf.ends

/-- The computation changes nothing, whether it answers or faults. -/
def Still (act : Act α) : Prop := ∀ s, Ends act s (fun _ t => t = s) (fun _ t => t = s)

theorem Still.moving {act : Act α} (h : Still act) :
    Moving calls calls (fun _ => act) (fun _ => calls) := by
  intro s _
  refine ⟨fun _ => rfl, (h s).mono ?_ ?_⟩
  · rintro _ t rfl
    exact .refl
  · rintro _ t rfl
    exact ⟨[], .refl, .inl rfl⟩

/-- What only one deed changes, and in the same way for both hosts. -/
theorem Moving.change {f : Store → Double → Change α}
    (h : ∀ s : Session, Deed (innermost calls) s (s.publish (f s.store s.now))) :
    Moving calls calls (fun host => change host f) (fun _ => calls) := by
  intro s _
  refine ⟨fun _ => rfl, ?_⟩
  rw [ends_change]
  exact .single (.deed (h s))

theorem Moving.change? {f : Store → Except StoreFault (Change α)}
    (h : ∀ (s : Session) c, f s.store = .ok c → Deed (innermost calls) s (s.publish c)) :
    Moving calls calls (fun host => change? host f) (fun _ => calls) := by
  intro s _
  refine ⟨fun _ => rfl, ?_⟩
  rw [ends_change?]
  cases hc : f s.store with
  | ok c => exact .single (.deed (h s c hc))
  | error fault => exact ⟨[], .refl, .inl rfl⟩

theorem Moving.pure {after : α → List Call} {a : α} (h : after a = calls) :
    Moving base calls (fun _ => Pure.pure a) after := by
  intro s _
  subst h
  exact ⟨fun _ => rfl, ReflTransGen.refl⟩

theorem Moving.throw {after : α → List Call} (f : Fault) :
    Moving calls calls (fun _ => throw f) after := by
  intro s _
  exact ⟨fun _ => rfl, [], ReflTransGen.refl, .inl rfl⟩

theorem Moving.stay (a : α) : Moving base calls (fun _ => Pure.pure a) (fun _ => calls) :=
  .pure rfl

theorem Moving.forM {l : List α} {f : α → Host → Act PUnit}
    (h : ∀ a, Moving calls calls (f a) (fun _ => calls)) :
    Moving calls calls (fun host => l.forM fun a => f a host) (fun _ => calls) := by
  induction l with
  | nil => exact .stay PUnit.unit
  | cons a l ih => exact (h a).bind fun _ => ih

theorem At.ite {c : Prop} [Decidable c] {x y : Host → Act α} {after : α → List Call}
    (hx : At base calls x after s) (hy : At base calls y after s) :
    At base calls (fun host => if c then x host else y host) after s := by
  by_cases h : c
  · simpa only [if_pos h] using hx
  · simpa only [if_neg h] using hy

theorem Moving.ite {c : Prop} [Decidable c] {x y : Host → Act α} {after : α → List Call}
    (hx : Moving base calls x after) (hy : Moving base calls y after) :
    Moving base calls (fun host => if c then x host else y host) after := by
  intro s sound
  exact .ite (hx s sound) (hy s sound)

/-! ## Reading -/

theorem still_pure (a : α) : Still (pure a : Act α) := fun _ => rfl

theorem still_throw (f : Fault) : Still (throw f : Act α) := fun _ => rfl

theorem still_machine : Still machine := fun _ => rfl

theorem still_store : Still store := fun _ => rfl

theorem still_heapView : Still heapView := fun _ => rfl

theorem still_kindOf (v : Value) : Still (kindOf v) := fun _ => rfl

theorem still_ownBinding? (scope name : String) : Still (ownBinding? scope name) := fun _ => rfl

theorem still_declared? (name : String) : Still (declared? name) := fun _ => rfl

theorem still_number (r : Except NumberFault α) : Still (number r) := by
  intro s
  cases r <;> rfl

theorem Still.bind {x : Act α} {f : α → Act β} (hx : Still x) (hf : ∀ a, Still (f a)) :
    Still (x >>= f) := by
  intro s
  rw [ends_bind]
  refine (hx s).mono ?_ (fun _ _ h => h)
  rintro a t rfl
  exact hf a t

theorem still_display (v : Value) : Still (display v) :=
  still_heapView.bind fun _ => still_number _

theorem still_indexOf? (name : String) : Still (indexOf? name) := by
  unfold indexOf?
  split
  · exact still_pure _
  · split
    · exact still_pure _
    · exact still_throw _

theorem still_lineOf (line : LineSource) : Still (lineOf line) := by
  cases line with
  | fixed line => exact still_pure _
  | reached => exact still_machine.bind fun _ => still_pure _

theorem still_checkDepth : Still checkDepth := by
  unfold checkDepth
  refine still_machine.bind fun m => ?_
  split
  · exact still_throw _
  · exact still_pure _

theorem still_property (v : Value) (name : String) : Still (property v name) := by
  unfold property
  split
  · split
    · exact still_pure _
    · exact (still_indexOf? name).bind fun _ => still_pure _
  · refine still_store.bind fun s => ?_
    split
    · split
      · exact still_pure _
      · exact (still_indexOf? name).bind fun _ => still_pure _
    · exact still_pure _
    · exact still_pure _
    · exact still_pure _
  · exact still_pure _

/-- A name is looked up in the scope that runs. -/
theorem run_find (sound : Sound ⟨s, calls, []⟩) (name : String) (r : Reader) :
    (find r.host name (innermost calls)).run s =
      (.ok (Session.findOpen s name (some (innermost calls))), s) := by
  have found : r.find s name (some (innermost calls)) =
      Session.findOpen s name (some (innermost calls)) :=
    r.finds _ _ _ ((sound.placed rfl).find_eq sound.held.innermost_open)
  exact congrArg (fun r => (Except.ok r, s)) found

theorem run_find_plain (name scope : String) :
    (find plain name scope).run s = (.ok (Session.findOpen s name (some scope)), s) :=
  rfl

theorem moving_find (name : String) :
    Moving calls calls (fun host => find host name (innermost calls)) (fun _ => calls) := by
  intro s sound
  exact ⟨run_find sound name, ReflTransGen.refl⟩

theorem moving_isUnbound (name : String) :
    Moving calls calls (fun host => isUnbound host name (innermost calls)) (fun _ => calls) := by
  unfold isUnbound
  refine .ite (.stay _) ?_
  refine (moving_find name).bind fun found => .ite (.stay _) ?_
  exact (still_declared? name).moving.bind fun _ => .stay _

/-! ## Changing -/

theorem moving_log (type : String) (args : List String) :
    Moving calls calls (fun host => log host type args) (fun _ => calls) :=
  .change fun _ => .aside (aside_logConsole type args)

theorem moving_info (text : String) :
    Moving calls calls (fun host => info host text) (fun _ => calls) :=
  moving_log _ _

theorem moving_error (text : String) :
    Moving calls calls (fun host => error host text) (fun _ => calls) :=
  moving_log _ _

theorem moving_logValues (method : String) (args : List Value) :
    Moving calls calls (fun host => logValues host method args) (fun _ => calls) := by
  unfold logValues
  refine still_heapView.moving.bind fun heap => ?_
  refine (still_number _).moving.bind fun texts => ?_
  exact moving_log method texts

theorem moving_addReferences (id : String) (refs : List String) :
    Moving calls calls
      (fun host => refs.forM fun child => change host fun s _ => s.addReference id child)
      (fun _ => calls) :=
  .forM fun child => .change fun _ => .aside (aside_addReference id child)

theorem moving_allocate (kind : String) {payload : Value} (h : ∀ f, payload ≠ .function f) :
    Moving calls calls (fun host => allocate host kind payload) (fun _ => calls) := by
  unfold allocate
  refine (Moving.change fun _ => .aside (aside_allocate kind h)).bind fun id => ?_
  exact (moving_addReferences id _).bind fun _ => .stay _

theorem moving_allocateFunction {f : FunctionValue} (h : f.closure = some (innermost calls)) :
    Moving calls calls (fun host => allocateFunction host f) (fun _ => calls) := by
  unfold allocateFunction
  exact (Moving.change fun _ => .function h).bind fun _ => .stay _

/-- A change that gives a name of an open scope a value; the scope is the
innermost one, or the name is bound there already. -/
def Writes (store : Store) (owner name : String) (v : Value) (change : Change Unit) : Prop :=
  ∃ action c b, (action = .addVariable ∨ action = .updateVariable) ∧
    store.scope? owner = some c ∧ b.value = v ∧
    (store.currentScope? ≠ some owner → (c.binding? name).isSome = true) ∧
    change = store.rebinding action c name b

theorem writes_add {store : Store} {owner name : String} {b : Binding} {c : Change Unit}
    (innermost : store.currentScope? = some owner)
    (h : store.addScopeVariable owner name b = .ok c) : Writes store owner name b.value c := by
  obtain ⟨d, found, rfl⟩ := addScopeVariable_inv h
  exact ⟨_, d, b, .inl rfl, found, rfl, fun other => absurd innermost other, rfl⟩

theorem writes_update {store : Store} {owner name : String} {v : Value} {kind : Option String}
    {c : Change Unit} (h : store.updateScopeVariable owner name v kind = .ok c) :
    Writes store owner name v c := by
  obtain ⟨d, b, found, bound, value, rfl⟩ := updateScopeVariable_inv h
  exact ⟨_, d, b, .inr rfl, found, value, fun _ => bound, rfl⟩

/-- Shows a value in the top frame. -/
def showing (host : Host) (name : String) (v : Value) : Act Unit := do
  let shown ← display v
  let kind ← kindOf v
  change host fun s _ => s.updateFrameVariable name shown kind

theorem showVariable_eq (host : Host) (owner name : String) (v : Value) :
    showVariable host owner name v =
      store >>= fun store => if store.currentScope? = some owner then showing host name v
        else pure ⟨⟩ :=
  rfl

/-- A name of a scope is bound, and shown if its value can be displayed. -/
theorem run_showing {host : Host} (quiet : host.tell = record) {action : ScopeAction} {c : Scope}
    {name : String} (b : Binding) :
    (showing host name b.value).run (s.publish (s.store.rebinding action c name b)) =
      match b.value.display s.store.heapView with
      | .ok text => (.ok ⟨⟩, s.written action c name b text)
      | .error fault => (.error (.number fault), s.publish (s.store.rebinding action c name b)) := by
  have heap : (s.publish (s.store.rebinding action c name b)).store.heapView =
      s.store.heapView := by
    rw [Session.publish_store]
    rfl
  have displayed (t : Session) : (display b.value).run t =
      (number (b.value.display t.store.heapView)).run t := rfl
  have kind (t : Session) : (kindOf b.value).run t =
      (.ok (b.value.kind t.store.heapView), t) := rfl
  unfold showing
  rw [run_bind, displayed, heap]
  cases b.value.display s.store.heapView with
  | error fault => rfl
  | ok text =>
      have answered (t : Session) : (number (.ok text)).run t = (.ok text, t) := rfl
      rw [answered]
      dsimp only
      rw [run_bind_ok (kind _), run_change quiet, heap]
      rfl

/-- A variable of the innermost scope is bound and shown. -/
theorem At.shown {owner name : String} {v : Value} {f : Store → Except StoreFault (Change Unit)}
    (innermost : s.store.currentScope? = some owner)
    (h : ∀ c, f s.store = .ok c → Writes s.store owner name v c) :
    At calls calls (fun host => change? host f >>= fun _ => showing host name v) (fun _ => calls)
      s := by
  have runs (host : Host) (quiet : host.tell = record) :
      (change? host f >>= fun _ => showing host name v).run s =
        (match f s.store with
        | .ok c => (showing host name v).run (s.publish c)
        | .error fault => (.error (.store fault), s) : Except Fault Unit × Session) := by
    rw [run_bind, run_change? quiet]
    cases f s.store <;> rfl
  refine ⟨fun r => ?_, ?_⟩
  · rw [runs r.host rfl, runs plain rfl]
    cases hf : f s.store with
    | error fault => rfl
    | ok c =>
        obtain ⟨action, d, b, -, -, rfl, -, rfl⟩ := h c hf
        exact (run_showing rfl b).trans (run_showing rfl b).symm
  · unfold Ends
    rw [runs plain rfl]
    cases hf : f s.store with
    | error fault => exact ⟨[], .refl, .inl rfl⟩
    | ok c =>
        obtain ⟨action, d, b, ha, found, rfl, -, rfl⟩ := h c hf
        dsimp only
        rw [run_showing rfl b]
        cases hd : b.value.display s.store.heapView with
        | ok text => exact .single (.deed (.write name b ha found innermost hd))
        | error fault =>
            refine ⟨[], .single (.deed (.bind name b ha found (fun _ => ⟨fault, hd⟩) ?_)),
              .inl rfl⟩
            exact fun other => absurd innermost other

/-- A variable is bound, and shown if its scope is the innermost one. -/
theorem At.write {owner name : String} {v : Value} {f : Store → Except StoreFault (Change Unit)}
    (h : ∀ c, f s.store = .ok c → Writes s.store owner name v c) :
    At calls calls (fun host => change? host f >>= fun _ => showVariable host owner name v)
      (fun _ => calls) s := by
  -- the frame shows a variable only if its scope is the innermost one
  have runs (host : Host) (quiet : host.tell = record) :
      (change? host f >>= fun _ => showVariable host owner name v).run s =
        if s.store.currentScope? = some owner then
          (change? host f >>= fun _ => showing host name v).run s
        else (change? host f).run s := by
    rw [run_bind, run_bind, run_change? quiet]
    cases hf : f s.store with
    | error fault => simp
    | ok c =>
        obtain ⟨action, d, b, -, -, rfl, -, rfl⟩ := h c hf
        have current : (s.publish (s.store.rebinding action d name b)).store.currentScope? =
            s.store.currentScope? := by
          rw [Session.publish_store]
          exact currentScope?_rebinding action d b
        dsimp only
        rw [showVariable_eq]
        show (if _ then showing host name b.value else pure ⟨⟩ : Act Unit).run _ = _
        rw [current]
        split <;> rfl
  by_cases innermost : s.store.currentScope? = some owner
  · have shown : At calls calls (fun host => change? host f >>= fun _ => showing host name v)
        (fun _ => calls) s := .shown innermost h
    refine ⟨fun r => ?_, ?_⟩
    · rw [runs r.host rfl, runs plain rfl, if_pos innermost, if_pos innermost]
      exact shown.agrees r
    · unfold Ends
      rw [runs plain rfl, if_pos innermost]
      exact shown.ends
  · refine ⟨fun r => ?_, ?_⟩
    · rw [runs r.host rfl, runs plain rfl, if_neg innermost, if_neg innermost]
      rfl
    · unfold Ends
      rw [runs plain rfl, if_neg innermost, run_change? rfl]
      cases hf : f s.store with
      | error fault => exact ⟨[], .refl, .inl rfl⟩
      | ok c =>
          obtain ⟨action, d, b, ha, found, rfl, bound, rfl⟩ := h c hf
          exact .single (.deed (.bind name b ha found (fun same => absurd same innermost) bound))

theorem moving_bind (name : String) (v : Value) (declaration : String) :
    Moving calls calls (fun host => Act.bind host (innermost calls) name v declaration)
      (fun _ => calls) := by
  unfold Act.bind
  refine (still_kindOf v).moving.bind fun kind => ?_
  refine (still_ownBinding? (innermost calls) name).moving.bind fun own => ?_
  intro s sound
  cases own with
  | some b => exact .write fun _ h => writes_update h
  | none => exact .write fun _ h => writes_add sound.held.current_innermost h

theorem moving_assign (name : String) (v : Value) :
    Moving calls calls (fun host => assign host (innermost calls) name v) (fun _ => calls) := by
  unfold assign
  refine (moving_find name).bind fun found => ?_
  cases found with
  | none =>
      refine (still_kindOf v).moving.bind fun kind => ?_
      intro s sound
      exact .write fun _ h => writes_add sound.held.current_innermost h
  | some owned =>
      refine .ite (moving_error _) ?_
      refine (still_kindOf v).moving.bind fun kind => ?_
      intro s _
      exact .write fun _ h => writes_update h

theorem moving_resolve (name : String) :
    Moving calls calls (fun host => resolve host name (innermost calls)) (fun _ => calls) := by
  unfold resolve
  refine .ite (still_machine.moving.bind fun _ => .stay _) ?_
  refine (moving_find name).bind fun found => ?_
  cases found with
  | some owned => exact .stay _
  | none => exact .ite (.stay _) ((moving_error _).bind fun _ => .stay _)

theorem moving_changeArray (id : String) (items : List Value) (method : String)
    (args : List Value) :
    Moving calls calls (fun host => changeArray host id items method args) (fun _ => calls) := by
  unfold changeArray
  refine (Moving.change? fun _ _ h => .aside (aside_updateHeapValue h)).bind fun _ => ?_
  exact (moving_addReferences id _).bind fun _ => .stay _

theorem moving_instructionsOf (body : Body) :
    Moving calls calls (fun _ => instructionsOf body) (fun _ => calls) := by
  intro s _
  refine ⟨fun _ => rfl, ?_⟩
  unfold instructionsOf
  rw [ends_bind, ends_get]
  split
  · exact .single (.deed (.compile _ _))
  · split
    · exact ⟨[], .refl, .inl rfl⟩
    · exact .single (.deed (.compile _ _))

end Act

end Runloop
