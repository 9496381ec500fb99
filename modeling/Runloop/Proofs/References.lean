/-
# References through the interpreter

The rules of `Act.Grounds` are carried through the interpreter, function by function
and, for an expression, along its recursion.  What waits for a call holds values too:
in the places of an expression, in a value that was returned and in a task that was
taken (`Work.Grounded`).  A segment of grounded work ends with grounded work again
(`Act.grounds_runSegment`), and work that is given up leaves every reference with its
object (`Act.grounds_abandon`).
-/
import Runloop.Proofs.Commands
import Runloop.Proofs.Grounding

namespace Runloop

/-! ## What waits for a value -/

section Waiting

variable (ids : List String)

def ExprFrame.Grounded : ExprFrame → Prop
  | .items _ before _ => ∀ v ∈ before, v.Grounded ids
  | .entry before _ _ => ∀ f ∈ before, f.2.Grounded ids
  | .right _ operand => operand.Grounded ids
  | .receiver _ _ args _ => ∀ v ∈ args, v.Grounded ids
  | _ => True

def Evaluated.Grounded : Evaluated → Prop
  | .value v => v.Grounded ids
  | .calling _ _ context => ∀ place ∈ context, place.Grounded ids

def Gathered.Grounded : Gathered → Prop
  | .values vs => ∀ v ∈ vs, v.Grounded ids
  | .calling _ _ context before _ =>
    (∀ place ∈ context, place.Grounded ids) ∧ ∀ v ∈ before, v.Grounded ids

def GatheredEntries.Grounded : GatheredEntries → Prop
  | .fields fs => ∀ f ∈ fs, f.2.Grounded ids
  | .calling _ _ context before _ _ =>
    (∀ place ∈ context, place.Grounded ids) ∧ ∀ f ∈ before, f.2.Grounded ids

def Executed.Grounded : Executed → Prop
  | .done returned => ∀ v ∈ returned, v.Grounded ids
  | .calling _ _ context _ => ∀ place ∈ context, place.Grounded ids

def Point.Grounded : Point → Prop
  | .entered _ => True
  | .between returned _ => ∀ v ∈ returned, v.Grounded ids

def Base.Grounded : Base → Prop
  | .program _ context _ => ∀ place ∈ context, place.Grounded ids
  | .microtask _ | .callback => True

def PassPoint.Grounded : PassPoint → Prop
  | .beforeMicrotask task _ | .beforeCallback task => task.Grounded ids
  | _ => True

/-- Every value that a unit of work holds is grounded. -/
def Work.Grounded : Work → Prop
  | .instruction _ | .pass => True
  | .inCall _ point callers base =>
    point.Grounded ids ∧ (∀ c ∈ callers, ∀ place ∈ c.context, place.Grounded ids) ∧
      base.Grounded ids
  | .atPass point => point.Grounded ids

def Progress.Grounded : Progress → Prop
  | .paused work => work.Grounded ids
  | .ended => True

end Waiting

namespace Change.Requeues

variable {α : Type} {store : Store} {c : Change α} {owed : List (String × String)}

theorem heapIds (r : c.Requeues store) : c.store.heapIds = store.heapIds :=
  (congrArg Store.heapIds r.same :)

theorem grounded (r : c.Requeues store) (h : store.Grounded owed) : c.store.Grounded owed :=
  h.requeue (by rw [r.same]; rfl) (by rw [r.same]; rfl) (by rw [r.same]; rfl)
    fun task ht => .inl (r.tasks task ht)

end Change.Requeues

section Mono

variable {ids ids' : List String}

theorem ExprFrame.Grounded.mono {place : ExprFrame} (h : place.Grounded ids) (more : ids ⊆ ids') :
    place.Grounded ids' := by
  cases place with
  | items use before after => exact fun v hv => (h v hv).mono more
  | entry before key after => exact fun f hf => (h f hf).mono more
  | right op left => exact Value.Grounded.mono h more
  | receiver target method args line => exact fun v hv => (h v hv).mono more
  | _ => trivial

theorem Point.Grounded.mono {point : Point} (h : point.Grounded ids) (more : ids ⊆ ids') :
    point.Grounded ids' := by
  cases point with
  | entered body => trivial
  | between returned rest => exact fun v hv => (h v hv).mono more

theorem Base.Grounded.mono {base : Base} (h : base.Grounded ids) (more : ids ⊆ ids') :
    base.Grounded ids' := by
  cases base with
  | program scope context finish => exact fun place hp => (h place hp).mono more
  | _ => trivial

theorem Work.Grounded.mono {work : Work} (h : work.Grounded ids) (more : ids ⊆ ids') :
    work.Grounded ids' := by
  cases work with
  | inCall call point callers base =>
      obtain ⟨hp, hc, hb⟩ := h
      exact ⟨hp.mono more, fun c mem place hp => (hc c mem place hp).mono more, hb.mono more⟩
  | atPass point =>
      cases point with
      | beforeMicrotask task round => exact Task.Grounded.mono h more
      | beforeCallback task => exact Task.Grounded.mono h more
      | _ => trivial
  | _ => trivial

/-- The last value of a list, or one more, is grounded if all are. -/
theorem Value.grounded_concat {vs : List Value} {v : Value} (hs : ∀ w ∈ vs, w.Grounded ids)
    (hv : v.Grounded ids) : ∀ w ∈ vs ++ [v], w.Grounded ids := by
  intro w hw
  rcases List.mem_append.mp hw with old | new
  · exact hs w old
  · rw [List.mem_singleton.mp new]
    exact hv

theorem ExprFrame.grounded_concat {context : List ExprFrame} {place : ExprFrame}
    (hc : ∀ p ∈ context, p.Grounded ids) (hp : place.Grounded ids) :
    ∀ p ∈ context ++ [place], p.Grounded ids := by
  intro p mem
  rcases List.mem_append.mp mem with old | new
  · exact hc p old
  · rw [List.mem_singleton.mp new]
    exact hp

theorem Value.grounded_setField {fields : List (String × Value)} {v : Value} (key : String)
    (hf : ∀ f ∈ fields, f.2.Grounded ids) (hv : v.Grounded ids) :
    ∀ f ∈ Datum.setField key v fields, f.2.Grounded ids := by
  intro f mem
  rcases mem_setField mem with eq | old
  · rw [eq]
    exact hv
  · exact hf f old

/-- What is not there is undefined. -/
theorem Value.grounded_getD {found : Option Value} (h : ∀ v ∈ found, v.Grounded ids) :
    (found.getD .undefined).Grounded ids := by
  cases found with
  | none => trivial
  | some v => exact h v rfl

end Mono

namespace Act

variable {ids ids' : List String} {v : Value} {args : List Value}

/-! ## Bindings and names -/

theorem grounds_machine :
    Grounds ids machine fun ids m => ∀ v ∈ m.receivers, v.Grounded ids :=
  .read fun _ grounded _ => grounded.receivers

theorem grounds_find (name scope : String) :
    Grounds ids (find plain name scope) fun ids found => ∀ p ∈ found, p.2.value.Grounded ids :=
  .read fun s grounded _ p (found : s.store.findBinding? name (some scope) = some p) =>
    grounded.store.binding found

theorem grounds_store :
    Grounds ids store fun ids store =>
      ∀ id e, store.heapLookup? id = some e → e.payload.Built ids :=
  .read fun _ grounded _ _ _ found => grounded.store.entry found

theorem grounds_showing (name : String) (v : Value) :
    Grounds ids (showing plain name v) fun _ _ => True := by
  refine (still_display v).grounds.seq fun shown _ _ => ?_
  refine (still_kindOf v).grounds.seq fun kind _ _ => .aside fun store _ => ?_
  unfold Store.updateFrameVariable
  split
  · exact ⟨rfl, rfl, rfl, rfl⟩
  · exact ⟨rfl, rfl, rfl, rfl⟩

theorem grounds_showVariable (scope name : String) (v : Value) :
    Grounds ids (showVariable plain scope name v) fun _ _ => True := by
  rw [showVariable_eq]
  refine grounds_store.bind fun store _ _ _ => .ite (grounds_showing name v) ?_
  exact .pure fun _ _ => trivial

theorem grounds_addScopeVariable (scope name : String) {b : Binding} (hb : b.value.Grounded ids) :
    Grounds ids (change? plain fun s => s.addScopeVariable scope name b) fun _ _ => True := by
  refine .change? fun store c grounded there hc => ?_
  obtain ⟨d, -, rfl⟩ := addScopeVariable_inv hc
  exact ⟨grounded.rebinding (hb.mono there), fun _ hid => hid, trivial⟩

theorem grounds_updateScopeVariable (scope name : String) (hv : v.Grounded ids)
    (kind : Option String) :
    Grounds ids (change? plain fun s => s.updateScopeVariable scope name v kind)
      fun _ _ => True := by
  refine .change? fun store c grounded there hc => ?_
  obtain ⟨d, b, -, -, rfl, rfl⟩ := updateScopeVariable_inv hc
  exact ⟨grounded.rebinding (hv.mono there), fun _ hid => hid, trivial⟩

theorem grounds_bind (scope name : String) (hv : v.Grounded ids) (declaration : String) :
    Grounds ids (Act.bind plain scope name v declaration) fun _ _ => True := by
  unfold Act.bind
  refine (still_kindOf v).grounds.seq fun kind ids₁ more₁ => ?_
  refine (still_ownBinding? scope name).grounds.seq fun own ids₂ more₂ => ?_
  have hv := hv.mono (List.Subset.trans more₁ more₂)
  cases own with
  | some b =>
      refine (grounds_updateScopeVariable scope name hv (some kind)).seq fun _ _ _ => ?_
      exact grounds_showVariable scope name v
  | none =>
      refine (grounds_addScopeVariable scope name (b := ⟨v, kind, declaration⟩) hv).seq
        fun _ _ _ => ?_
      exact grounds_showVariable scope name v

theorem grounds_assign (scope name : String) (hv : v.Grounded ids) :
    Grounds ids (assign plain scope name v) fun _ _ => True := by
  unfold assign
  refine (grounds_find name scope).bind fun found ids₁ more₁ _ => ?_
  cases found with
  | none =>
      refine (still_kindOf v).grounds.seq fun kind ids₂ more₂ => ?_
      have hv := hv.mono (List.Subset.trans more₁ more₂)
      refine (grounds_addScopeVariable scope name (b := ⟨v, kind, "implicit"⟩) hv).seq
        fun _ _ _ => ?_
      exact grounds_showVariable scope name v
  | some owned =>
      refine .ite (grounds_error _) ?_
      refine (still_kindOf v).grounds.seq fun kind ids₂ more₂ => ?_
      have hv := hv.mono (List.Subset.trans more₁ more₂)
      refine (grounds_updateScopeVariable owned.1 name hv (some kind)).seq fun _ _ _ => ?_
      exact grounds_showVariable owned.1 name v

theorem grounds_isUnbound (name scope : String) :
    Grounds ids (isUnbound plain name scope) fun _ _ => True := by
  unfold isUnbound
  refine .ite (.pure fun _ _ => trivial) ?_
  refine (grounds_find name scope).bind fun found _ _ _ => .ite (.pure fun _ _ => trivial) ?_
  exact (still_declared? name).grounds.seq fun _ _ _ => .pure fun _ _ => trivial

theorem grounds_resolve (name scope : String) :
    Grounds ids (resolve plain name scope) Value.Grounded := by
  unfold resolve
  refine .ite ?_ ?_
  · refine grounds_machine.bind fun m _ _ receivers => .pure fun _ more => ?_
    refine (Value.grounded_getD fun v hv => ?_).mono more
    exact receivers v (List.mem_of_getLast? hv)
  · refine (grounds_find name scope).bind fun found _ _ bound => ?_
    cases found with
    | some owned => exact .pure fun _ more => (bound owned rfl).mono more
    | none =>
        refine .ite (.pure fun _ _ => trivial) ?_
        exact (grounds_error _).seq fun _ _ _ => .pure fun _ _ => trivial

/-! ## Calls -/

/-- A scope that is opened again is one that was closed. -/
theorem mem_closedChain {live : List String} {detached : List (String × Scope)} {fuel : Nat}
    {start : Option String} {c : Scope} (h : c ∈ closedChain live detached fuel start) :
    ∃ p ∈ detached, p.2 = c := by
  induction fuel generalizing start with
  | zero => cases h
  | succ fuel ih =>
      cases start with
      | none => cases h
      | some id =>
          unfold closedChain at h
          split at h
          · cases h
          · split at h
            · cases h
            · rename_i scope found
              rcases List.mem_cons.mp h with rfl | outer
              · exact ⟨_, List.mem_of_find?_eq_some found, rfl⟩
              · exact ih outer

theorem grounds_reattach (closure : Option String) :
    Grounds ids (reattach plain closure) fun _ _ => True := by
  refine .get fun s grounded _ => ?_
  refine .ite (.pure fun _ _ => trivial) ?_
  refine (Grounds.forM fun scope hs ids' more => ?_).bind fun _ _ _ _ => .pure fun _ _ => trivial
  refine .change fun store now after there => ?_
  obtain ⟨p, hp, rfl⟩ := mem_closedChain (List.mem_reverse.mp hs)
  have closed := (grounded.detached p hp).mono (List.Subset.trans more there)
  obtain ⟨store, same⟩ := after.restoreScope closed
  exact ⟨store, by rw [same]; exact fun _ hid => hid, trivial⟩

theorem grounds_detach (scope : String) : Grounds ids (detach plain scope) fun _ _ => True := by
  have closes : Grounds ids (change? plain fun s => s.destroyScope scope)
      Scope.Grounded := by
    refine .change? fun store c grounded _ hc => ?_
    obtain ⟨after, same, closed⟩ := grounded.destroyScope hc
    rw [same]
    exact ⟨after, fun _ hid => hid, closed⟩
  refine closes.bind fun c ids' _ closed => .note fun s grounded there => ⟨?_, grounded.receivers⟩
  intro p hp
  rcases List.mem_cons.mp hp with rfl | old
  · exact closed.mono there
  · exact grounded.detached p old

theorem grounds_unwind (call : Call) : Grounds ids (unwind plain call) fun _ _ => True := by
  have pops : ∀ {ids}, Grounds ids (change? plain fun s => s.popFrame) fun _ _ => True := by
    refine .change? fun store c grounded _ hc => ?_
    unfold Store.popFrame at hc
    split at hc <;> cases hc
    exact ⟨grounded.of_heap rfl rfl grounded.scopes grounded.tasks, fun _ hid => hid, trivial⟩
  refine Grounds.seq (.note fun s grounded _ => ?_) fun _ _ _ => ?_
  · exact ⟨grounded.detached, fun v hv => grounded.receivers v (List.dropLast_subset _ hv)⟩
  · refine pops.seq fun _ _ _ => (grounds_detach call.scope).seq fun _ _ _ => ?_
    exact .forM fun scope _ _ _ => grounds_detach scope

theorem still_isCurrent (call : Call) : Still (isCurrent call) := fun _ => rfl

theorem grounds_unwindAll (calls : List Call) (fault : Option Fault) :
    Grounds ids (unwindAll plain calls fault) fun _ _ => True := by
  induction calls generalizing ids fault with
  | nil => exact .pure fun _ _ => trivial
  | cons call outer ih =>
      refine (still_isCurrent call).grounds.seq fun current _ _ => ?_
      refine .ite ?_ (ih fault)
      refine Grounds.seq (.recover ?_ fun _ _ _ => .pure fun _ _ => trivial)
        fun fault _ _ => ih fault
      exact (grounds_unwind call).seq fun _ _ _ => .pure fun _ _ => trivial

/-- A fault inside of calls leaves them. -/
theorem grounds_inside {α : Type} {P : List String → α → Prop} {body : Act α} (calls : List Call)
    (h : Grounds ids body P) : Grounds ids (inside plain calls body) P := by
  refine h.recover fun fault _ _ => ?_
  exact (grounds_unwindAll calls (some fault)).seq fun _ _ _ => .throw _

theorem grounds_bindParams (scope : String) (params : List String)
    (hargs : ∀ v ∈ args, v.Grounded ids) :
    Grounds ids (bindParams plain scope params args) fun _ _ => True := by
  induction params generalizing ids args with
  | nil => exact .pure fun _ _ => trivial
  | cons param params ih =>
      have parts : bindParams plain scope (param :: params) args =
          kindOf (args.head?.getD .undefined) >>= fun kind =>
            change? plain (fun s => s.addScopeVariable scope param
              ⟨args.head?.getD .undefined, kind, "param"⟩) >>= fun _ =>
            showing plain param (args.head?.getD .undefined) >>= fun _ =>
            bindParams plain scope params (args.drop 1) := by
        simp only [bindParams, showing, bind_assoc]
      have first : (args.head?.getD .undefined).Grounded ids :=
        Value.grounded_getD fun v hv => hargs v (List.mem_of_head? hv)
      rw [parts]
      refine (still_kindOf _).grounds.seq fun kind ids₁ more₁ => ?_
      refine (grounds_addScopeVariable scope param (first.mono more₁)).seq
        fun _ ids₂ more₂ => ?_
      refine (grounds_showing param _).seq fun _ ids₃ more₃ => ih fun v hv => ?_
      have more := List.Subset.trans more₁ (List.Subset.trans more₂ more₃)
      exact (hargs v (List.mem_of_mem_drop hv)).mono more

theorem grounds_openScope (closure : Option String) (name : String) :
    Grounds ids (openScope plain closure name) fun _ _ => True := by
  refine (grounds_reattach closure).seq fun restored _ _ => .get fun s _ _ => ?_
  refine Grounds.seq (.change fun store now grounded _ => ?_) fun _ _ _ => .pure fun _ _ => trivial
  exact ⟨grounded.createScope _ _ _ _, fun _ hid => hid, trivial⟩

theorem still_receiverText (receiver : Option Value) : Still (receiverText receiver) := by
  cases receiver with
  | none => exact still_pure _
  | some v => exact still_display v

theorem grounds_pushCall (name thisBinding : String) (line : Int) (hv : v.Grounded ids) :
    Grounds ids (pushCall plain name thisBinding line v) fun _ _ => True := by
  refine Grounds.seq (.aside fun _ _ => ⟨rfl, rfl, rfl, rfl⟩)
    fun _ _ more => .note fun s grounded there => ⟨grounded.detached, ?_⟩
  exact Value.grounded_concat grounded.receivers (hv.mono (List.Subset.trans more there))

theorem grounds_invoke (f : FunctionValue) (hargs : ∀ v ∈ args, v.Grounded ids) (name : String)
    (line : Int) {receiver : Option Value} (hr : ∀ v ∈ receiver, v.Grounded ids) :
    Grounds ids (invoke plain f args name line receiver) fun _ _ => True := by
  refine still_checkDepth.grounds.seq fun _ ids₁ more₁ => ?_
  refine (grounds_openScope f.closure (callName name)).seq fun opened ids₂ more₂ => ?_
  refine (still_receiverText receiver).grounds.seq fun text ids₃ more₃ => ?_
  have more := List.Subset.trans more₁ (List.Subset.trans more₂ more₃)
  have known : (receiver.getD .undefined).Grounded ids₃ :=
    (Value.grounded_getD hr).mono more
  refine (grounds_pushCall (callName name) text line known).seq fun _ ids₄ more₄ => ?_
  refine grounds_machine.bind fun m ids₅ more₅ _ => ?_
  have more := List.Subset.trans more (List.Subset.trans more₄ more₅)
  refine (grounds_inside _ (grounds_bindParams _ f.params ?_)).bind fun _ _ _ _ =>
    .pure fun _ _ => trivial
  exact fun v hv => (hargs v hv).mono more

theorem grounds_instructionsOf (body : Body) :
    Grounds ids (instructionsOf body) fun _ _ => True := by
  intro s grounded there
  have same (bodies : List (Body × List Instruction)) (notices : List String) :
      ({ s with bodies, notices } : Session).Grounded [] :=
    ⟨grounded.store, grounded.detached, grounded.receivers⟩
  unfold instructionsOf
  rw [ends_bind, ends_get]
  split
  · exact ⟨⟨same _ _, fun _ hid => hid⟩, trivial⟩
  · split
    · exact ⟨grounded, fun _ hid => hid⟩
    · exact ⟨⟨same _ _, fun _ hid => hid⟩, trivial⟩

/-! ## Expressions -/

theorem grounds_value (hv : v.Grounded ids) : Grounds ids (pure (.value v)) Evaluated.Grounded :=
  .pure fun _ more => hv.mono more

theorem grounds_undefined : Grounds ids (pure (.value .undefined)) Evaluated.Grounded :=
  grounds_value trivial

theorem grounds_done {a : Act Value} (h : Grounds ids a Value.Grounded) :
    Grounds ids (done a) Evaluated.Grounded :=
  h.bind fun _ _ _ hv => grounds_value hv

theorem grounds_andThen {part : Act Evaluated} {place : ExprFrame} {next : Value → Act Evaluated}
    (hp : Grounds ids part Evaluated.Grounded) (hplace : place.Grounded ids)
    (hn : ∀ v ids', ids ⊆ ids' → v.Grounded ids' →
      Grounds ids' (next v) Evaluated.Grounded) :
    Grounds ids (andThen part place next) Evaluated.Grounded := by
  refine hp.bind fun r ids' more hr => ?_
  cases r with
  | value v => exact hn v ids' more hr
  | calling call body context =>
      refine .pure fun _ later => ?_
      exact fun p hp => (ExprFrame.grounded_concat hr (hplace.mono more) p hp).mono later

theorem grounds_elementAt? {items : List Value} (h : ∀ v ∈ items, v.Grounded ids)
    (index : Option Int) : ((elementAt? items index).getD .undefined).Grounded ids := by
  refine Value.grounded_getD fun v hv => ?_
  obtain ⟨n, -, found⟩ := Option.bind_eq_some_iff.mp hv
  exact h v (List.mem_of_getElem? found)

/-- What a field holds, or what stands for a field that is missing. -/
theorem grounded_member {fields : List (String × Value)} (h : ∀ f ∈ fields, f.2.Grounded ids)
    (name : String) (hv : v.Grounded ids) :
    (((fields.find? (·.1 == name)).map (·.2)).getD v).Grounded ids := by
  cases found : fields.find? (·.1 == name) with
  | none => exact hv
  | some f => exact h f (List.mem_of_find?_eq_some found)

theorem grounds_property (v : Value) (name : String) :
    Grounds ids (property v name) Value.Grounded := by
  unfold property
  split
  · refine .ite (.pure fun _ _ => trivial) ?_
    refine (still_indexOf? name).grounds.seq fun i _ _ => .pure fun _ _ => ?_
    cases elementAt? _ i with
    | none => trivial
    | some c => trivial
  · refine grounds_store.bind fun store _ _ built => ?_
    split
    · rename_i items found
      refine .ite (.pure fun _ _ => trivial) ?_
      refine (still_indexOf? name).grounds.seq fun i _ more => .pure fun _ later => ?_
      have items := (built _ _ found).mono (List.Subset.trans more later)
      exact grounds_elementAt? items i
    · rename_i fields found
      refine .pure fun _ more => ?_
      have fields := (built _ _ found).mono more
      exact grounded_member fields name trivial
    · refine .pure fun _ _ => ?_
      split
      · trivial
      · trivial
    · exact .pure fun _ _ => trivial
  · exact .pure fun _ _ => trivial

/-- Opening a call leaves nothing to wait for but the call. -/
theorem grounds_openCall (f : FunctionValue) (hargs : ∀ v ∈ args, v.Grounded ids) (name : String)
    (line : Int) {receiver : Option Value} (hr : ∀ v ∈ receiver, v.Grounded ids) :
    Grounds ids (openCall plain f args name line receiver) Evaluated.Grounded :=
  (grounds_invoke f hargs name line hr).seq fun _ _ _ => .pure fun _ _ => by
    simp [Evaluated.Grounded]

theorem still_asFunction? (v : Value) : Still (asFunction? v) := fun _ => rfl

theorem still_lookupFunction? (name : String) : Still (lookupFunction? plain name) := fun _ => rfl

theorem grounds_callNamed (scope name : String) (hargs : ∀ v ∈ args, v.Grounded ids)
    (line : Int) : Grounds ids (callNamed plain scope name args line) Evaluated.Grounded := by
  have reports (ids : List String) (text : String) :
      Grounds ids (do error plain text; return .value .undefined) Evaluated.Grounded :=
    (grounds_error text).seq fun _ _ _ => grounds_undefined
  refine (grounds_find name scope).bind fun found ids₁ more₁ _ => ?_
  cases found with
  | some owned =>
      refine (still_asFunction? _).grounds.seq fun f ids₂ more₂ => ?_
      cases f with
      | some f =>
          have more := List.Subset.trans more₁ more₂
          exact grounds_openCall f (fun v hv => (hargs v hv).mono more) name line (by simp)
      | none => exact reports ids₂ _
  | none =>
      refine (still_declared? name).grounds.seq fun declared ids₂ more₂ => ?_
      refine .ite ?_ (reports ids₂ _)
      refine (still_lookupFunction? name).grounds.seq fun f ids₃ more₃ => ?_
      cases f with
      | some f =>
          have more := List.Subset.trans more₁ (List.Subset.trans more₂ more₃)
          exact grounds_openCall f (fun v hv => (hargs v hv).mono more) name line (by simp)
      | none => exact still_checkDepth.grounds.seq fun _ _ _ => .throw _

theorem grounds_changeArray (id : String) {items : List Value} (method : String)
    (hi : ∀ v ∈ items, v.Grounded ids) (hargs : ∀ v ∈ args, v.Grounded ids) :
    Grounds ids (changeArray plain id items method args) Value.Grounded := by
  have changes {items' : List Value} {result : Value} (hi : ∀ v ∈ items', v.Grounded ids)
      (hr : result.Grounded ids) :
      Grounds ids (do
        change? plain fun s => s.updateHeapValue id (.list items')
        (Value.list items').refs.forM fun child => change plain fun s _ => s.addReference id child
        return result) Value.Grounded := by
    intro s grounded there
    have built : (Value.list items').Built s.store.heapIds := fun v hv => (hi v hv).mono there
    rw [ends_bind, ends_change?]
    cases hc : s.store.updateHeapValue id (.list items') with
    | error fault => exact ⟨grounded, fun _ hid => hid⟩
    | ok c =>
        obtain ⟨store, same⟩ := grounded.store.updateHeapValue built hc
        have owes := grounded.publish store (by rw [same]; exact fun _ hid => hid)
        have kept : (s.publish c).store.heapIds = s.store.heapIds := by
          rw [Session.publish_store]
          exact same
        dsimp only
        rw [ends_bind]
        refine (ends_addReferences owes ?_).mono ?_ fun _ _ ends => ends
        · rw [kept]
          exact fun child hc => built.mem_of_refs hc
        · rintro _ t ⟨after, same⟩
          have same := same.trans kept
          show (t.Grounded [] ∧ _ ⊆ t.store.heapIds) ∧ result.Grounded t.store.heapIds
          rw [same]
          exact ⟨⟨after, fun _ hid => hid⟩, hr.mono there⟩
  unfold changeArray
  dsimp only
  split
  · refine changes (fun v hv => ?_) trivial
    rcases List.mem_append.mp hv with old | new
    · exact hi v old
    · exact hargs v new
  · refine changes (fun v hv => hi v (List.dropLast_subset _ hv)) ?_
    exact Value.grounded_getD fun v hv => hi v (List.mem_of_getLast? hv)

theorem grounds_noMethod (target : Expr) (method : String) (receiver : Value) :
    Grounds ids (noMethod plain target method receiver) Evaluated.Grounded := by
  have shows (v : Value) : Grounds ids (do
      let shown ← display v
      error plain
        ("TypeError: Cannot read properties of " ++ shown ++ " (reading '" ++ method ++ "')")
      return .value .undefined) Evaluated.Grounded :=
    (still_display v).grounds.seq fun _ _ _ =>
      (grounds_error _).seq fun _ _ _ => grounds_undefined
  cases receiver with
  | undefined => exact shows .undefined
  | null => exact shows .null
  | _ => exact (grounds_error _).seq fun _ _ _ => grounds_undefined

theorem grounds_entryOf? (v : Value) :
    Grounds ids (entryOf? v) fun ids found => ∀ e ∈ found, e.payload.Built ids := by
  cases v with
  | ref id =>
      refine grounds_store.bind fun store _ _ built => .pure fun _ more e found => ?_
      exact (built id e found).mono more
  | _ => exact .pure fun _ _ => by simp

theorem grounds_callOn (target : Expr) (method : String) (hargs : ∀ v ∈ args, v.Grounded ids)
    (line : Int) (hv : v.Grounded ids) :
    Grounds ids (callOn plain target method args line v) Evaluated.Grounded := by
  unfold callOn
  refine (grounds_entryOf? v).bind fun found ids₁ more₁ built => ?_
  split
  · rename_i id items
    have items := built _ rfl
    refine .ite (grounds_done ?_) (grounds_noMethod target method _)
    exact grounds_changeArray id method items fun v hv => (hargs v hv).mono more₁
  · refine (still_asFunction? _).grounds.seq fun f ids₂ more₂ => ?_
    cases f with
    | some f =>
        have more := List.Subset.trans more₁ more₂
        refine grounds_openCall f (fun v hv => (hargs v hv).mono more) method line ?_
        rintro w ⟨⟩
        exact hv.mono more
    | none => exact grounds_noMethod target method _
  · exact grounds_noMethod target method _

theorem grounds_callMethod (scope : String) (target : Expr) {evalTarget : Act Evaluated}
    (ht : ∀ ids', ids ⊆ ids' → Grounds ids' evalTarget Evaluated.Grounded) (method : String)
    (hargs : ∀ v ∈ args, v.Grounded ids) (line : Int) :
    Grounds ids (callMethod plain scope target evalTarget method args line)
      Evaluated.Grounded := by
  have onValue (ids' : List String) (more : ids ⊆ ids') :
      Grounds ids' (andThen evalTarget (.receiver target method args line)
        (callOn plain target method args line)) Evaluated.Grounded := by
    have hargs : ∀ v ∈ args, v.Grounded ids' := fun v hv => (hargs v hv).mono more
    refine grounds_andThen (ht ids' more) hargs fun v ids'' later hv => ?_
    exact grounds_callOn target method (fun v hv => (hargs v hv).mono later) line hv
  unfold callMethod
  split
  · rename_i name
    refine (grounds_find name scope).bind fun found ids₁ more₁ _ => ?_
    refine .ite ?_ (.ite grounds_undefined ?_)
    · exact (grounds_logValues _ _).seq fun _ _ _ => grounds_undefined
    · refine (grounds_isUnbound name scope).seq fun unbound ids₂ more₂ => ?_
      refine .ite ?_ (onValue ids₂ (List.Subset.trans more₁ more₂))
      exact (grounds_error _).seq fun _ _ _ => grounds_undefined
  · exact onValue ids fun _ hid => hid

theorem grounds_afterLeft (op : BinaryOp) (hv : v.Grounded ids) {evalRight : Act Evaluated}
    (hr : Grounds ids evalRight Evaluated.Grounded) :
    Grounds ids (afterLeft op v evalRight) Evaluated.Grounded := by
  refine .ite (grounds_value hv) (grounds_andThen hr hv fun w ids₁ more₁ hw => ?_)
  refine still_heapView.grounds.seq fun heap ids₂ more₂ => ?_
  refine (grounds_number (P := Value.Grounded) fun r hr ids' more => ?_).bind
    fun _ _ _ hr => grounds_value hr
  have hv := hv.mono (List.Subset.trans more₁ more₂)
  exact (Value.grounded_applyBinary hv (hw.mono more₂) hr).mono more

theorem grounds_array {vs : List Value} (h : ∀ v ∈ vs, v.Grounded ids) :
    Grounds ids (done (allocate plain "array" (.list vs))) Evaluated.Grounded :=
  grounds_done (grounds_allocate "array" h)

theorem grounds_makeObject {fields : List (String × Value)} (h : ∀ f ∈ fields, f.2.Grounded ids) :
    Grounds ids (makeObject plain fields) Evaluated.Grounded :=
  grounds_done (grounds_allocate "object" h)

theorem grounds_typeof (v : Value) :
    Grounds ids (do return .value (.text (v.typeof (← heapView)))) Evaluated.Grounded :=
  still_heapView.grounds.seq fun _ _ _ => grounds_value trivial

/-- A call inside a list of expressions waits, and the list waits for it. -/
theorem grounds_waiting {call : Call} {body : Body} {context : List ExprFrame} {place : ExprFrame}
    (hc : ∀ p ∈ context, p.Grounded ids) (hp : place.Grounded ids) :
    Grounds ids (pure (.calling call body (context ++ [place]))) Evaluated.Grounded :=
  .pure fun _ more p mem => (ExprFrame.grounded_concat hc hp p mem).mono more

mutual

theorem grounds_eval (scope : String) (e : Expr) (ids : List String) :
    Grounds ids (eval plain scope e) Evaluated.Grounded := by
  cases e with
  | literal l =>
      simp only [eval]
      exact grounds_value (Value.grounded_ofLiteral l)
  | array items =>
      simp only [eval]
      refine (grounds_evalAll scope items ids (List.forall_mem_nil _)).bind fun r _ _ hr => ?_
      cases r with
      | values vs => exact grounds_array hr
      | calling call body context before after => exact grounds_waiting hr.1 hr.2
  | object entries =>
      simp only [eval]
      refine (grounds_evalEntries scope entries ids (List.forall_mem_nil _)).bind
        fun r _ _ hr => ?_
      cases r with
      | fields fs => exact grounds_makeObject hr
      | calling call body context before key after => exact grounds_waiting hr.1 hr.2
  | function f =>
      simp only [eval]
      exact grounds_done (grounds_allocateFunction _)
  | reference name =>
      simp only [eval]
      exact grounds_done (grounds_resolve name scope)
  | property target name source =>
      simp only [eval]
      refine grounds_andThen (grounds_eval scope target ids) trivial fun v _ _ _ => ?_
      exact grounds_done (grounds_property v name)
  | call name args =>
      simp only [eval]
      refine (grounds_evalAll scope args ids (List.forall_mem_nil _)).bind fun r _ _ hr => ?_
      cases r with
      | values vs =>
          refine grounds_machine.bind fun m _ more _ => ?_
          exact grounds_callNamed scope name (fun v hv => (hr v hv).mono more) m.line
      | calling call body context before after => exact grounds_waiting hr.1 hr.2
  | methodCall target name args =>
      simp only [eval]
      refine (grounds_evalAll scope args ids (List.forall_mem_nil _)).bind fun r _ _ hr => ?_
      cases r with
      | values vs =>
          refine grounds_machine.bind fun m _ more _ => ?_
          exact grounds_callMethod scope target (fun ids' _ => grounds_eval scope target ids') name
            (fun v hv => (hr v hv).mono more) m.line
      | calling call body context before after => exact grounds_waiting hr.1 hr.2
  | typeof operand =>
      simp only [eval]
      have rest (ids : List String) : Grounds ids (andThen (eval plain scope operand) .typeof
          fun v => do return .value (.text (v.typeof (← heapView)))) Evaluated.Grounded :=
        grounds_andThen (grounds_eval scope operand ids) trivial fun v _ _ _ => grounds_typeof v
      cases operand with
      | reference name =>
          refine (grounds_isUnbound name scope).seq fun unbound ids' _ => ?_
          exact .ite (grounds_value trivial) (rest ids')
      | _ => exact rest ids
  | unary op operand =>
      simp only [eval]
      refine grounds_andThen (grounds_eval scope operand ids) trivial fun v _ _ _ => ?_
      exact grounds_value (Value.grounded_applyUnary op v)
  | binary op left right =>
      simp only [eval]
      refine grounds_andThen (grounds_eval scope left ids) trivial fun v ids' _ hv => ?_
      exact grounds_afterLeft op hv (grounds_eval scope right ids')

theorem grounds_evalAll (scope : String) (items : List Expr) (ids : List String)
    {before : List Value} (hb : ∀ v ∈ before, v.Grounded ids) :
    Grounds ids (evalAll plain scope before items) Gathered.Grounded := by
  cases items with
  | nil =>
      simp only [evalAll]
      exact .pure fun _ more v hv => (hb v hv).mono more
  | cons e rest =>
      simp only [evalAll]
      refine (grounds_eval scope e ids).bind fun r ids' more hr => ?_
      have hb : ∀ v ∈ before, v.Grounded ids' := fun v hv => (hb v hv).mono more
      cases r with
      | value v => exact grounds_evalAll scope rest ids' (Value.grounded_concat hb hr)
      | calling call body context =>
          refine .pure fun _ later => ⟨fun p hp => (hr p hp).mono later, ?_⟩
          exact fun v hv => (hb v hv).mono later

theorem grounds_evalEntries (scope : String) (entries : List (String × Expr)) (ids : List String)
    {before : List (String × Value)} (hb : ∀ f ∈ before, f.2.Grounded ids) :
    Grounds ids (evalEntries plain scope before entries) GatheredEntries.Grounded := by
  rcases entries with _ | ⟨⟨key, e⟩, rest⟩
  · simp only [evalEntries]
    exact .pure fun _ more f hf => (hb f hf).mono more
  · simp only [evalEntries]
    refine (grounds_eval scope e ids).bind fun r ids' more hr => ?_
    have hb : ∀ f ∈ before, f.2.Grounded ids' := fun f hf => (hb f hf).mono more
    cases r with
    | value v => exact grounds_evalEntries scope rest ids' (Value.grounded_setField key hb hr)
    | calling call body context =>
        refine .pure fun _ later => ⟨fun p hp => (hr p hp).mono later, ?_⟩
        exact fun f hf => (hb f hf).mono later

end

/-! ## Going on in a context -/

theorem grounds_useItems (scope : String) (use : ItemsUse) {vs : List Value}
    (h : ∀ v ∈ vs, v.Grounded ids) :
    Grounds ids (useItems plain scope use vs) Evaluated.Grounded := by
  cases use with
  | array => exact grounds_array h
  | call name line =>
      refine (still_lineOf line).grounds.seq fun n _ more => ?_
      exact grounds_callNamed scope name (fun v hv => (h v hv).mono more) n
  | method target name line =>
      refine (still_lineOf line).grounds.seq fun n _ more => ?_
      exact grounds_callMethod scope target (fun ids' _ => grounds_eval scope target ids') name
        (fun v hv => (h v hv).mono more) n
  | console method => exact (grounds_logValues _ _).seq fun _ _ _ => grounds_undefined
  | construct keyword name =>
      refine (grounds_allocateEmpty "object" (.record []) (by simp [Value.Built]) rfl).bind
        fun id _ _ new => ?_
      exact (grounds_bind scope name (v := .ref id) new _).seq fun _ _ _ => grounds_undefined

theorem grounds_evalItems (scope : String) (use : ItemsUse) (items : List Expr)
    {before : List Value} (hb : ∀ v ∈ before, v.Grounded ids) :
    Grounds ids (evalItems plain scope use before items) Evaluated.Grounded := by
  refine (grounds_evalAll scope items ids hb).bind fun r _ _ hr => ?_
  cases r with
  | values vs => exact grounds_useItems scope use hr
  | calling call body context before after => exact grounds_waiting hr.1 hr.2

theorem grounds_fillOne (scope : String) {place : ExprFrame} (hp : place.Grounded ids)
    (hv : v.Grounded ids) : Grounds ids (fillOne plain scope place v) Evaluated.Grounded := by
  cases place with
  | items use before after => exact grounds_evalItems scope use after (Value.grounded_concat hp hv)
  | entry before key after =>
      refine (grounds_evalEntries scope after ids (Value.grounded_setField key hp hv)).bind
        fun r _ _ hr => ?_
      cases r with
      | fields fs => exact grounds_makeObject hr
      | calling call body context before key after => exact grounds_waiting hr.1 hr.2
  | property name => exact grounds_done (grounds_property v name)
  | typeof => exact grounds_typeof v
  | unary op => exact grounds_value (Value.grounded_applyUnary op v)
  | left op right => exact grounds_afterLeft op hv (grounds_eval scope right ids)
  | right op operand =>
      refine still_heapView.grounds.seq fun heap ids' more => ?_
      refine (grounds_number (P := Value.Grounded) fun r hr _ later => ?_).bind
        fun _ _ _ hr => grounds_value hr
      exact (Value.grounded_applyBinary (Value.Grounded.mono hp more) (hv.mono more) hr).mono later
  | receiver target method args line => exact grounds_callOn target method hp line hv

theorem grounds_fill (scope : String) {context : List ExprFrame}
    (hc : ∀ p ∈ context, p.Grounded ids) (hv : v.Grounded ids) :
    Grounds ids (fill plain scope context v) Evaluated.Grounded := by
  induction context generalizing ids v with
  | nil => exact grounds_value hv
  | cons place outer ih =>
      refine (grounds_fillOne scope (hc place List.mem_cons_self) hv).bind fun r ids' more hr => ?_
      have outside : ∀ p ∈ outer, p.Grounded ids' := fun p hp =>
        (hc p (List.mem_cons_of_mem place hp)).mono more
      cases r with
      | value v' => exact ih outside hr
      | calling call body context =>
          refine .pure fun _ later p hp => ?_
          rcases List.mem_append.mp hp with inner | outer
          · exact (hr p inner).mono later
          · exact (outside p outer).mono later

/-! ## Instructions -/

theorem grounds_addMicrotask {spec : TaskSpec} (h : ∀ v ∈ spec.args, v.Grounded ids) :
    Grounds ids (change plain fun s now => s.addMicrotask spec now) fun _ _ => True := by
  refine .change fun store now grounded there => ⟨?_, fun _ hid => hid, trivial⟩
  refine grounded.requeue rfl rfl rfl fun task ht => ?_
  rcases List.mem_append.mp ht with old | micro
  · exact .inl (List.mem_append_left _ old)
  · rcases List.mem_append.mp micro with old | new
    · exact .inl (List.mem_append_right _ old)
    · rw [List.mem_singleton.mp new]
      exact .inr fun v hv => (h v hv).mono there

theorem grounds_addTimer {spec : TaskSpec} (h : spec.args = []) :
    Grounds ids (change plain fun s now => s.addTimer spec now) fun _ _ => True := by
  refine .change fun store now grounded _ => ⟨?_, fun _ hid => hid, trivial⟩
  refine grounded.requeue rfl rfl rfl fun task ht => ?_
  rcases List.mem_append.mp ht with early | old
  · rcases List.mem_append.mp early with timer | old
    · rcases List.mem_append.mp timer with old | new
      · exact .inl (List.mem_append_left _ (List.mem_append_left _ old))
      · rw [List.mem_singleton.mp new]
        exact .inr (by simp [Task.Grounded, h])
    · exact .inl (List.mem_append_left _ (List.mem_append_right _ old))
  · exact .inl (List.mem_append_right _ old)

theorem grounds_finishWith (scope : String) (finish : Finish) (hv : v.Grounded ids) :
    Grounds ids (finishWith plain scope finish v) fun ids r => ∀ v ∈ r, v.Grounded ids := by
  have nothing (ids : List String) :
      Grounds ids (pure none : Act (Option Value)) fun ids r => ∀ v ∈ r, v.Grounded ids :=
    .pure fun _ _ => by simp
  cases finish with
  | declare keyword name => exact (grounds_bind scope name hv _).seq fun _ ids' _ => nothing ids'
  | assign name => exact (grounds_assign scope name hv).seq fun _ ids' _ => nothing ids'
  | promise callback params =>
      refine (grounds_addMicrotask ?_).seq fun _ _ _ =>
        (grounds_info _).seq fun _ ids' _ => nothing ids'
      exact List.forall_mem_singleton.mpr hv
  | «return» =>
      refine (still_display v).grounds.seq fun shown _ more => ?_
      refine (grounds_info _).seq fun _ _ more' => .pure fun _ later => ?_
      rintro w ⟨⟩
      exact hv.mono (List.Subset.trans more (List.Subset.trans more' later))
  | discard => exact nothing ids

theorem grounds_conclude (scope : String) (finish : Finish) {r : Act Evaluated}
    (hr : Grounds ids r Evaluated.Grounded) :
    Grounds ids (do conclude plain scope finish (← r)) Executed.Grounded := by
  refine hr.bind fun r _ _ hr => ?_
  cases r with
  | value v =>
      refine (grounds_finishWith scope finish hr).bind fun _ _ _ hr => .pure fun _ more v hv => ?_
      exact (hr v hv).mono more
  | calling call body context => exact .pure fun _ more p hp => (hr p hp).mono more

theorem grounds_startTimer (scope : String) (callback : Callback) (delay : Int) :
    Grounds ids (startTimer plain scope callback delay) fun _ _ => True := by
  refine (grounds_addTimer rfl).seq fun task _ _ => ?_
  refine (grounds_info _).seq fun _ _ _ => grounds_store.bind fun store _ _ _ => ?_
  refine (still_number _).grounds.seq fun wait _ _ => ?_
  intro s grounded _
  rw [ends_modify]
  refine ⟨⟨⟨?_, grounded.detached, grounded.receivers⟩, fun _ hid => hid⟩, trivial⟩
  exact grounded.store.of_heap rfl rfl grounded.store.scopes grounded.store.tasks

theorem grounds_perform (scope : String) (i : Instruction) :
    Grounds ids (perform plain scope i) Executed.Grounded := by
  have nothing (ids : List String) :
      Grounds ids (pure (.done none) : Act Executed) Executed.Grounded :=
    .pure fun _ _ => by simp [Executed.Grounded]
  have items (use : ItemsUse) (args : List Expr) :
      Grounds ids (do conclude plain scope .discard (← evalItems plain scope use [] args))
        Executed.Grounded :=
    grounds_conclude scope _ (grounds_evalItems scope use args (by simp))
  cases i with
  | hoisting functions vars => exact (grounds_info _).seq fun _ ids' _ => nothing ids'
  | functionDecl d =>
      refine (grounds_allocateFunction _).bind fun v _ _ hv => ?_
      exact (grounds_bind scope d.name hv _).seq fun _ ids' _ => nothing ids'
  | hoistedVar name line =>
      refine (still_ownBinding? _ _).grounds.seq fun own ids' _ => .ite ?_ (nothing ids')
      exact (grounds_bind scope name (v := .undefined) trivial _).seq fun _ ids' _ => nothing ids'
  | declare keyword name value line => exact grounds_conclude scope _ (grounds_eval scope value ids)
  | assign name value line => exact grounds_conclude scope _ (grounds_eval scope value ids)
  | call name args line => exact items _ args
  | methodCall target method args line => exact items _ args
  | console method args line => exact items _ args
  | timer callback delay line =>
      exact (grounds_startTimer scope callback delay).seq fun _ ids' _ => nothing ids'
  | promise callback params value line =>
      exact grounds_conclude scope _ (grounds_eval scope value ids)
  | «return» value line => exact grounds_conclude scope _ (grounds_eval scope value ids)
  | construct keyword name constructor args line => exact items _ args

theorem grounds_arrive (i : Instruction) (ids : List String) :
    Grounds ids (arrive plain i) fun _ _ => True := by
  unfold arrive
  refine Grounds.seq (.aside fun _ _ => ⟨rfl, rfl, rfl, rfl⟩) fun step _ _ => ?_
  refine grounds_machine.bind fun m _ _ _ => .ite ((still_throw _).grounds.seq fun _ _ _ => ?_) ?_
  all_goals
    refine .ite ?_ (.pure fun _ _ => trivial)
    exact Grounds.seq (.drive (fun _ => rfl) fun _ => rfl) fun _ _ _ => grounds_setCurrentLine _

theorem grounds_execute (scope : String) (i : Instruction) :
    Grounds ids (execute plain scope i) Executed.Grounded :=
  (grounds_arrive i ids).seq fun _ _ _ => grounds_perform scope i

theorem grounds_goOn (scope : String) {context : List ExprFrame} (finish : Finish)
    (hc : ∀ p ∈ context, p.Grounded ids) (hv : v.Grounded ids) :
    Grounds ids (goOn plain scope context finish v) Executed.Grounded :=
  grounds_conclude scope finish (grounds_fill scope hc hv)

/-! ## Segments -/

theorem grounds_deliver {callers : List Caller} {base : Base}
    (hc : ∀ c ∈ callers, ∀ p ∈ c.context, p.Grounded ids) (hb : base.Grounded ids)
    (hv : v.Grounded ids) : Grounds ids (deliver plain callers base v) Progress.Grounded := by
  cases callers with
  | cons caller outer =>
      have inner := hc caller List.mem_cons_self
      refine (grounds_inside _ (grounds_goOn _ caller.finish inner hv)).bind
        fun r ids' more hr => ?_
      have outside : ∀ c ∈ outer, ∀ p ∈ c.context, p.Grounded ids' := fun c mem p hp =>
        (hc c (List.mem_cons_of_mem caller mem) p hp).mono more
      have hb := hb.mono more
      cases r with
      | done returned =>
          have waits : (Work.inCall caller.call (.between returned caller.rest) outer base).Grounded
            ids' := ⟨hr, outside, hb⟩
          exact .pure fun _ later => waits.mono later
      | calling call body context finish =>
          have waits : (Work.inCall call (.entered body)
              ({ caller with context, finish } :: outer) base).Grounded ids' :=
            ⟨trivial, List.forall_mem_cons.mpr ⟨hr, outside⟩, hb⟩
          exact .pure fun _ later => waits.mono later
  | nil =>
      cases base with
      | program scope context finish =>
          refine (grounds_goOn scope finish hb hv).bind fun r ids' more hr => ?_
          cases r with
          | done returned => exact .pure fun _ _ => trivial
          | calling call body context finish =>
              have waits : (Work.inCall call (.entered body) []
                  (.program scope context finish)).Grounded ids' := ⟨trivial, by simp, hr⟩
              exact .pure fun _ later => waits.mono later
      | microtask round => exact .pure fun _ _ => trivial
      | callback => exact .pure fun _ _ => trivial

theorem grounds_leave (call : Call) {callers : List Caller} {base : Base}
    (hc : ∀ c ∈ callers, ∀ p ∈ c.context, p.Grounded ids) (hb : base.Grounded ids)
    (hv : v.Grounded ids) : Grounds ids (leave plain call callers base v) Progress.Grounded := by
  have shows (ids : List String) : Grounds ids (do
      if 0 < call.line then change plain fun s _ => s.setCurrentLine call.line)
      fun _ _ => True :=
    .ite (grounds_setCurrentLine _) (.pure fun _ _ => trivial)
  have closes : Grounds ids (do
      if ← isCurrent call then unwind plain call
      if 0 < call.line then change plain fun s _ => s.setCurrentLine call.line)
      fun _ _ => True := by
    refine (still_isCurrent call).grounds.seq fun current ids' _ => ?_
    exact .ite ((grounds_unwind call).seq fun _ ids' _ => shows ids') (shows ids')
  refine (grounds_inside _ closes).seq fun _ _ more => ?_
  exact grounds_deliver (fun c mem p hp => (hc c mem p hp).mono more) (hb.mono more) (hv.mono more)

theorem grounds_runBody (call : Call) {callers : List Caller} {base : Base}
    (hc : ∀ c ∈ callers, ∀ p ∈ c.context, p.Grounded ids) (hb : base.Grounded ids)
    (is : List Instruction) :
    Grounds ids (runBody plain call callers base is) Progress.Grounded := by
  cases is with
  | nil => exact grounds_leave call hc hb trivial
  | cons i rest =>
      refine (grounds_inside _ (grounds_execute call.scope i)).bind fun r ids' more hr => ?_
      have hc : ∀ c ∈ callers, ∀ p ∈ c.context, p.Grounded ids' := fun c mem p hp =>
        (hc c mem p hp).mono more
      have hb := hb.mono more
      cases r with
      | done returned =>
          have waits : (Work.inCall call (.between returned rest) callers base).Grounded ids' :=
            ⟨hr, hc, hb⟩
          exact .pure fun _ later => waits.mono later
      | calling inner body context finish =>
          have waits : (Work.inCall inner (.entered body)
              (⟨call, context, finish, rest⟩ :: callers) base).Grounded ids' :=
            ⟨trivial, List.forall_mem_cons.mpr ⟨hr, hc⟩, hb⟩
          exact .pure fun _ later => waits.mono later

theorem grounds_startTask {task : Task} (ht : task.Grounded ids) {base : Base}
    (hb : base.Grounded ids) : Grounds ids (startTask plain task base) Progress.Grounded := by
  refine .get fun s _ there => ?_
  have args : ∀ v ∈ task.spec.args, v.Grounded s.store.heapIds := fun v hv => (ht v hv).mono there
  refine (grounds_invoke (s.callbackOf task) args task.label 0 (by simp)).seq
    fun call _ more => .pure fun _ later => ?_
  exact ⟨trivial, by simp, hb.mono (List.Subset.trans there (List.Subset.trans more later))⟩

/-- Taking a task from the queues. -/
theorem grounds_requeue {f : Store → Change (Option Task)}
    (requeues : ∀ store, (f store).Requeues store)
    (queued : ∀ store, ∀ task ∈ (f store).value, task ∈ store.state.loop.tasks) :
    Grounds ids (change plain fun s _ => f s) fun ids found => ∀ task ∈ found, task.Grounded ids := by
  refine .change fun store _ grounded _ => ?_
  rw [(requeues store).heapIds]
  exact ⟨(requeues store).grounded grounded, fun _ hid => hid,
    fun task taken => grounded.tasks task (queued store task taken)⟩

theorem grounds_nextCallback :
    Grounds ids (change plain fun s _ => s.nextCallback)
      fun ids found => ∀ task ∈ found, task.Grounded ids := by
  refine grounds_requeue requeues_nextCallback fun store task taken => ?_
  unfold Store.nextCallback at taken
  split at taken
  · cases taken
  · rename_i queue
    cases taken
    simp [EventLoop.tasks, queue]

theorem grounds_nextMicrotask :
    Grounds ids (change plain fun s _ => s.nextMicrotask)
      fun ids found => ∀ task ∈ found, task.Grounded ids := by
  refine grounds_requeue requeues_nextMicrotask fun store task taken => ?_
  unfold Store.nextMicrotask at taken
  split at taken
  · cases taken
  · rename_i queue
    cases taken
    simp [EventLoop.tasks, queue]

theorem grounds_takeCallback (ran : Bool) :
    Grounds ids (takeCallback plain ran) Progress.Grounded := by
  refine grounds_nextCallback.bind fun found _ _ ht => ?_
  cases found with
  | some task =>
      refine (grounds_info _).seq fun _ _ more => .pure fun _ later => ?_
      exact (ht task rfl).mono (List.Subset.trans more later)
  | none =>
      refine .pure fun _ _ => ?_
      split
      · trivial
      · trivial

theorem grounds_takeMicrotask (round : Round) (ran : Bool) :
    Grounds ids (takeMicrotask plain round ran) Progress.Grounded := by
  refine grounds_nextMicrotask.bind fun found _ _ ht => ?_
  cases found with
  | some task =>
      refine (grounds_info _).seq fun _ _ more => .pure fun _ later => ?_
      exact (ht task rfl).mono (List.Subset.trans more later)
  | none =>
      cases round with
      | first => exact grounds_takeCallback ran
      | last => exact .pure fun _ _ => trivial

/-- A segment of a unit of work keeps every reference grounded, and so is the work
that it leaves. -/
theorem grounds_runSegment {work : Work} (h : work.Grounded ids) :
    Grounds ids (runSegment plain work) Progress.Grounded := by
  cases work with
  | instruction i =>
      refine grounds_machine.bind fun m _ _ _ => (grounds_execute _ i).bind fun r ids' _ hr => ?_
      cases r with
      | done returned => exact .pure fun _ _ => trivial
      | calling call body context finish =>
          have waits : (Work.inCall call (.entered body) []
              (.program (m.globalScope.getD "") context finish)).Grounded ids' :=
            ⟨trivial, by simp, hr⟩
          exact .pure fun _ later => waits.mono later
  | pass => exact grounds_takeMicrotask .first false
  | inCall call point callers base =>
      obtain ⟨hp, hc, hb⟩ := h
      cases point with
      | entered body =>
          refine (grounds_inside _ (grounds_instructionsOf body)).bind fun is _ more _ => ?_
          exact grounds_runBody call (fun c mem p hp => (hc c mem p hp).mono more) (hb.mono more) is
      | between returned rest =>
          cases returned with
          | some v => exact grounds_leave call hc hb (hp v rfl)
          | none => exact grounds_runBody call hc hb rest
  | atPass point =>
      cases point with
      | beforeMicrotask task round => exact grounds_startTask h trivial
      | afterMicrotask round => exact grounds_takeMicrotask round true
      | beforeCallback task => exact grounds_startTask h trivial
      | afterCallback => exact grounds_takeMicrotask .last true
      | idle => exact .pure fun _ _ => trivial

theorem grounds_abandon (work : Work) : Grounds ids (abandon plain work) fun _ _ => True := by
  cases work with
  | inCall call point callers base => exact grounds_unwindAll _ none
  | _ => exact .pure fun _ _ => trivial

end Act

end Runloop
