/-
# How code handles the heap

There are few things that code does to the heap.  It puts an object there, and where
the object refers to others that is noted at once; and it changes an array that it has
just looked up, and notes what the array refers to then.  All else that code does spares
the heap (`Session.Spared`).  `Handles R` says that these few things lead where `R` leads,
and then all that code does leads there (`within_runSegment`), and whatever drives a
program (`Handles.drive`).
-/
import Runloop.Proofs.References

namespace Runloop

/-- An event that does not tell of the heap and begins no new history. -/
def Event.sparesHeap (e : Event) : Bool := e.topic != .heap && !e.isReset

/-- A change that has nothing to do with the heap. -/
structure Change.Spares {α : Type} (store : Store) (c : Change α) : Prop where
  heap : c.store.state.heap = store.state.heap
  ref : c.store.counters.ref = store.counters.ref
  told : c.events.all Event.sparesHeap = true

/-- From `s` to `t` nothing happened to the heap. -/
structure Session.Spared (s t : Session) : Prop where
  heap : t.store.state.heap = s.store.state.heap
  ref : t.store.counters.ref = s.store.counters.ref
  trace : ∃ l : List Event, t.trace = s.trace ++ l ∧ ∀ e ∈ l, e.topic ≠ .heap

theorem Change.Spares.spared {α : Type} {s : Session} {c : Change α} (h : c.Spares s.store) :
    s.Spared (s.publish c) := by
  have told (e : Event) (he : e ∈ c.events) : e.topic ≠ .heap ∧ e.isReset = false := by
    simpa [Event.sparesHeap] using List.all_eq_true.mp h.told e he
  refine ⟨?_, ?_, c.events, s.trace_publish fun e he => (told e he).2, fun e he => (told e he).1⟩
  · rw [Session.publish_store]
    exact h.heap
  · rw [Session.publish_store]
    exact h.ref

/-- Nothing is told, and the heap stays as it is. -/
theorem Session.Spared.silent {s t : Session} (heap : t.store.state.heap = s.store.state.heap)
    (ref : t.store.counters.ref = s.store.counters.ref) (journal : t.journal = s.journal) :
    s.Spared t := by
  refine ⟨heap, ref, [], ?_, by simp⟩
  rw [List.append_nil, Session.trace, Session.trace, journal]

/-! ## Changes that spare the heap -/

section Spares

variable {store : Store}

theorem spares_none {α : Type} (a : α) :
    Change.Spares store { store, value := a, events := [] } :=
  ⟨rfl, rfl, rfl⟩

theorem spares_updateFrameVariable (name value kind : String) :
    (store.updateFrameVariable name value kind).Spares store := by
  unfold Store.updateFrameVariable
  split
  · exact spares_none _
  · exact ⟨rfl, rfl, rfl⟩

theorem spares_popFrame {c : Change Frame} (h : store.popFrame = .ok c) : c.Spares store := by
  unfold Store.popFrame at h
  split at h <;> cases h
  exact ⟨rfl, rfl, rfl⟩

theorem spares_restoreScope (scope : Scope) : (store.restoreScope scope).Spares store := by
  unfold Store.restoreScope
  split
  · exact spares_none _
  · exact ⟨rfl, rfl, rfl⟩

theorem spares_destroyScope {id : String} {c : Change Scope} (h : store.destroyScope id = .ok c) :
    c.Spares store := by
  unfold Store.destroyScope at h
  split at h <;> cases h
  exact ⟨rfl, rfl, rfl⟩

theorem spares_addScopeVariable {id name : String} {b : Binding} {c : Change Unit}
    (h : store.addScopeVariable id name b = .ok c) : c.Spares store := by
  obtain ⟨_, _, rfl⟩ := addScopeVariable_inv h
  exact ⟨rfl, rfl, rfl⟩

theorem spares_updateScopeVariable {id name : String} {v : Value} {kind : Option String}
    {c : Change Unit} (h : store.updateScopeVariable id name v kind = .ok c) : c.Spares store := by
  obtain ⟨_, _, _, _, _, rfl⟩ := updateScopeVariable_inv h
  exact ⟨rfl, rfl, rfl⟩

theorem spares_moveToCallbacks (id : String) : (store.moveToCallbacks id).Spares store := by
  unfold Store.moveToCallbacks
  split
  · exact spares_none _
  · exact ⟨rfl, rfl, rfl⟩

theorem spares_nextMicrotask : store.nextMicrotask.Spares store := by
  unfold Store.nextMicrotask
  split
  · exact spares_none _
  · exact ⟨rfl, rfl, rfl⟩

theorem spares_nextCallback : store.nextCallback.Spares store := by
  unfold Store.nextCallback
  split
  · exact spares_none _
  · exact ⟨rfl, rfl, rfl⟩

end Spares

namespace Act

variable {R : Session → Session → Prop} {α β : Type}

/-- What code does to the heap leads where `R` leads. -/
structure Handles (R : Session → Session → Prop) : Prop where
  spared : ∀ {s t : Session}, s.Spared t → R s t
  place : ∀ (kind : String) (payload : Value), payload.refs = [] →
    Within R (change plain fun store now => store.allocate kind payload now)
  allocate : ∀ (kind : String) (payload : Value), Within R (allocate plain kind payload)
  /-- An array is looked up first, and then changed. -/
  changeArray : ∀ {s : Session} {id : String} {items : List Value} (method : String)
    (args : List Value), s.store.heapLookup? id = some ⟨"array", .list items⟩ →
    Ends (changeArray plain id items method args) s (fun _ t => R s t) (fun _ t => R s t)

theorem still_find (name scope : String) : Still (find plain name scope) := fun _ => rfl

theorem still_isUnbound (name scope : String) : Still (isUnbound plain name scope) := by
  unfold isUnbound
  split
  · exact still_pure _
  · refine (still_find name scope).bind fun found => ?_
    split
    · exact still_pure _
    · exact (still_declared? name).bind fun _ => still_pure _

theorem Still.within [IsPreorder Session R] {act : Act α} (quiet : Still act) : Within R act := by
  intro s
  refine (quiet s).mono ?_ ?_
  · rintro _ t rfl
    exact refl_of R _
  · rintro _ t rfl
    exact refl_of R _

namespace Handles

variable (h : Handles R)

include h

theorem change {f : Store → Double → Change α} (spares : ∀ store now, (f store now).Spares store) :
    Within R (Act.change plain f) := by
  intro s
  rw [ends_change]
  exact h.spared (spares s.store s.now).spared

theorem change? {f : Store → Except StoreFault (Change α)}
    (spares : ∀ store c, f store = .ok c → c.Spares store) [IsPreorder Session R] :
    Within R (Act.change? plain f) := by
  intro s
  rw [ends_change?]
  cases hc : f s.store with
  | error fault => exact refl_of R s
  | ok c => exact h.spared (spares s.store c hc).spared

theorem note (g : Machine → Machine) : Within R (modifyMachine g) :=
  fun _ => h.spared (.silent rfl rfl rfl)

end Handles

/-! ## Reporting and bindings -/

section Reports

variable (h : Handles R)

include h

theorem within_setCurrentLine (line : Int) :
    Within R (change plain fun s _ => s.setCurrentLine line) :=
  h.change fun _ _ => ⟨rfl, rfl, rfl⟩

theorem within_setExecution (isRunning isPaused : Bool) :
    Within R (change plain fun s _ => s.setExecution isRunning isPaused) :=
  h.change fun _ _ => ⟨rfl, rfl, rfl⟩

theorem within_log (type : String) (args : List String) : Within R (log plain type args) :=
  h.change fun _ _ => ⟨rfl, rfl, rfl⟩

theorem within_info (text : String) : Within R (info plain text) := within_log h _ _

theorem within_error (text : String) : Within R (error plain text) := within_log h _ _

end Reports

variable [IsPreorder Session R] (h : Handles R)

include h

theorem within_logValues (method : String) (args : List Value) :
    Within R (logValues plain method args) := by
  refine still_heapView.within.bind fun heap => ?_
  exact (still_number _).within.bind fun texts => within_log h method texts

theorem within_allocateFunction (f : FunctionValue) : Within R (allocateFunction plain f) :=
  (h.place "function" (.function f) rfl).bind fun _ => .pure _

theorem within_showing (name : String) (v : Value) : Within R (showing plain name v) := by
  refine (still_display v).within.bind fun shown => (still_kindOf v).within.bind fun kind => ?_
  exact h.change fun _ _ => spares_updateFrameVariable name shown kind

theorem within_showVariable (scope name : String) (v : Value) :
    Within R (showVariable plain scope name v) := by
  rw [showVariable_eq]
  exact still_store.within.bind fun store => .ite (within_showing h name v) (.pure _)

theorem within_addScopeVariable (scope name : String) (b : Binding) :
    Within R (change? plain fun s => s.addScopeVariable scope name b) :=
  h.change? fun _ _ hc => spares_addScopeVariable hc

theorem within_updateScopeVariable (scope name : String) (v : Value) (kind : Option String) :
    Within R (change? plain fun s => s.updateScopeVariable scope name v kind) :=
  h.change? fun _ _ hc => spares_updateScopeVariable hc

theorem within_bind (scope name : String) (v : Value) (declaration : String) :
    Within R (Act.bind plain scope name v declaration) := by
  unfold Act.bind
  refine (still_kindOf v).within.bind fun kind => ?_
  refine (still_ownBinding? scope name).within.bind fun own => ?_
  cases own with
  | some b =>
      exact (within_updateScopeVariable h _ _ _ _).bind fun _ => within_showVariable h scope name v
  | none =>
      exact (within_addScopeVariable h _ _ _).bind fun _ => within_showVariable h scope name v

theorem within_assign (scope name : String) (v : Value) :
    Within R (assign plain scope name v) := by
  unfold assign
  refine (still_find name scope).within.bind fun found => ?_
  cases found with
  | none =>
      refine (still_kindOf v).within.bind fun kind => ?_
      exact (within_addScopeVariable h _ _ _).bind fun _ => within_showVariable h scope name v
  | some owned =>
      refine .ite (within_error h _) ((still_kindOf v).within.bind fun kind => ?_)
      exact (within_updateScopeVariable h _ _ _ _).bind fun _ =>
        within_showVariable h owned.1 name v

theorem within_resolve (name scope : String) : Within R (resolve plain name scope) := by
  unfold resolve
  refine .ite (still_machine.within.bind fun _ => .pure _) ?_
  refine (still_find name scope).within.bind fun found => ?_
  cases found with
  | some owned => exact .pure _
  | none => exact .ite (.pure _) ((within_error h _).bind fun _ => .pure _)

/-! ## Calls -/

theorem within_reattach (closure : Option String) : Within R (reattach plain closure) := by
  refine .get fun s => .ite (.pure _) ?_
  exact (Within.forM fun scope => h.change fun _ _ => spares_restoreScope scope).bind
    fun _ => .pure _

theorem within_detach (scope : String) : Within R (detach plain scope) :=
  (h.change? fun _ _ hc => spares_destroyScope hc).bind fun _ => h.note _

theorem within_unwind (call : Call) : Within R (unwind plain call) := by
  refine (h.note _).bind fun _ => (h.change? fun _ _ hc => spares_popFrame hc).bind fun _ => ?_
  exact (within_detach h call.scope).bind fun _ => .forM fun scope => within_detach h scope

theorem within_unwindAll (calls : List Call) (fault : Option Fault) :
    Within R (unwindAll plain calls fault) := by
  induction calls generalizing fault with
  | nil => exact .pure _
  | cons call outer ih =>
      refine (still_isCurrent call).within.bind fun current => .ite ?_ (ih fault)
      refine Within.bind (.recover ?_ fun _ => .pure _) fun fault => ih fault
      exact (within_unwind h call).bind fun _ => .pure _

theorem within_inside {body : Act α} (calls : List Call) (hb : Within R body) :
    Within R (inside plain calls body) :=
  hb.recover fun fault => (within_unwindAll h calls (some fault)).bind fun _ => .throw _

theorem within_bindParams (scope : String) (params : List String) (args : List Value) :
    Within R (bindParams plain scope params args) := by
  induction params generalizing args with
  | nil => exact .pure _
  | cons param params ih =>
      refine (still_kindOf _).within.bind fun kind => ?_
      refine (within_addScopeVariable h _ _ _).bind fun _ => ?_
      refine (still_display _).within.bind fun shown => (still_kindOf _).within.bind fun kind => ?_
      exact (h.change fun _ _ => spares_updateFrameVariable param shown kind).bind fun _ => ih _

theorem within_openScope (closure : Option String) (name : String) :
    Within R (openScope plain closure name) := by
  refine (within_reattach h closure).bind fun restored => .get fun s => ?_
  exact (h.change fun _ _ => ⟨rfl, rfl, rfl⟩).bind fun _ => .pure _

theorem within_pushCall (name thisBinding : String) (line : Int) (receiver : Value) :
    Within R (pushCall plain name thisBinding line receiver) :=
  (h.change fun _ _ => ⟨rfl, rfl, rfl⟩).bind fun _ => h.note _

theorem within_enterCall (f : FunctionValue) (args : List Value) (name : String) (line : Int)
    (receiver : Option Value) (scope : String) (restored : List String) :
    Within R (enterCall plain f args name line receiver scope restored) := by
  refine (still_receiverText receiver).within.bind fun text => ?_
  refine (within_pushCall h _ _ _ _).bind fun _ => .machine fun m => ?_
  exact (within_inside h _ (within_bindParams h _ _ _)).bind fun _ => .pure _

theorem within_invoke (f : FunctionValue) (args : List Value) (name : String) (line : Int)
    (receiver : Option Value) : Within R (invoke plain f args name line receiver) := by
  refine still_checkDepth.within.bind fun _ => (within_openScope h _ _).bind fun opened => ?_
  exact within_enterCall h f args _ line receiver _ _

theorem within_instructionsOf (body : Body) : Within R (instructionsOf body) := by
  have kept (s : Session) (bodies : List (Body × List Instruction)) (notices : List String) :
      R s { s with bodies, notices } := h.spared (.silent rfl rfl rfl)
  intro s
  unfold instructionsOf
  rw [ends_bind, ends_get]
  split
  · exact kept s _ _
  · split
    · exact refl_of R s
    · exact kept s _ _

/-! ## Expressions -/

omit h in
theorem within_done {a : Act Value} (ha : Within R a) : Within R (done a) :=
  ha.bind fun _ => .pure _

omit h in
theorem within_andThen {part : Act Evaluated} {place : ExprFrame} {next : Value → Act Evaluated}
    (hp : Within R part) (hn : ∀ v, Within R (next v)) : Within R (andThen part place next) := by
  refine hp.bind fun r => ?_
  cases r with
  | value v => exact hn v
  | calling call body context => exact .pure _

theorem within_openCall (f : FunctionValue) (args : List Value) (name : String) (line : Int)
    (receiver : Option Value) : Within R (openCall plain f args name line receiver) :=
  (within_invoke h f args name line receiver).bind fun _ => .pure _

theorem within_callNamed (scope name : String) (args : List Value) (line : Int) :
    Within R (callNamed plain scope name args line) := by
  refine (still_find name scope).within.bind fun found => ?_
  cases found with
  | some owned =>
      refine (still_asFunction? _).within.bind fun f => ?_
      cases f with
      | some f => exact within_openCall h f args name line none
      | none => exact (within_error h _).bind fun _ => .pure _
  | none =>
      refine (still_declared? name).within.bind fun declared => .ite ?_ ?_
      · refine (still_lookupFunction? name).within.bind fun f => ?_
        cases f with
        | some f => exact within_openCall h f args name line none
        | none => exact still_checkDepth.within.bind fun _ => .throw _
      · exact (within_error h _).bind fun _ => .pure _

theorem within_noMethod (target : Expr) (method : String) (receiver : Value) :
    Within R (noMethod plain target method receiver) := by
  cases receiver with
  | undefined | null =>
      exact (still_display _).within.bind fun _ => (within_error h _).bind fun _ => .pure _
  | _ => exact (within_error h _).bind fun _ => .pure _

omit h [IsPreorder Session R] in
/-- What the heap holds under a value is looked up, and nothing else is done. -/
theorem run_entryOf? (v : Value) (s : Session) :
    ∃ found, (entryOf? v).run s = (.ok found, s) ∧
      ∀ id, v = .ref id → s.store.heapLookup? id = found := by
  cases v with
  | ref id =>
      refine ⟨s.store.heapLookup? id, rfl, ?_⟩
      rintro _ ⟨⟩
      rfl
  | _ => exact ⟨none, rfl, by simp⟩

/-- An array is changed right after it was looked up. -/
theorem within_callOn (target : Expr) (method : String) (args : List Value) (line : Int)
    (receiver : Value) : Within R (callOn plain target method args line receiver) := by
  intro s
  obtain ⟨found, looks, here⟩ := run_entryOf? receiver s
  unfold callOn
  rw [ends_bind]
  refine .of_answer looks ?_
  have missing := within_noMethod h target method
  split
  · rename_i id items
    split
    · unfold done
      rw [ends_bind]
      refine (h.changeArray method args (here id rfl)).mono ?_ fun _ _ ends => ends
      exact fun _ _ ends => ends
    · exact missing _ s
  · refine Within.bind (still_asFunction? _).within (fun f => ?_) s
    cases f with
    | some f => exact within_openCall h f args method line _
    | none => exact missing _
  · exact missing _ s

theorem within_callMethod (scope : String) (target : Expr) {evalTarget : Act Evaluated}
    (ht : Within R evalTarget) (method : String) (args : List Value) (line : Int) :
    Within R (callMethod plain scope target evalTarget method args line) := by
  have onValue : Within R (andThen evalTarget (.receiver target method args line)
      (callOn plain target method args line)) :=
    within_andThen ht fun v => within_callOn h target method args line v
  cases target with
  | reference name =>
      refine (still_find name scope).within.bind fun found => .ite ?_ (.ite (.pure _) ?_)
      · exact (within_logValues h _ _).bind fun _ => .pure _
      · refine (still_isUnbound name scope).within.bind fun unbound => .ite ?_ onValue
        exact (within_error h _).bind fun _ => .pure _
  | _ => exact onValue

omit h in
theorem within_afterLeft (op : BinaryOp) (left : Value) {evalRight : Act Evaluated}
    (hr : Within R evalRight) : Within R (afterLeft op left evalRight) := by
  refine .ite (.pure _) (within_andThen hr fun right => ?_)
  exact still_heapView.within.bind fun heap => (still_number _).within.bind fun _ => .pure _

omit h in
mutual

theorem within_eval (h : Handles R) (scope : String) (e : Expr) :
    Within R (eval plain scope e) := by
  cases e with
  | literal l =>
      simp only [eval]
      exact .pure _
  | array items =>
      simp only [eval]
      refine (within_evalAll h scope [] items).bind fun r => ?_
      cases r with
      | values vs => exact within_done (h.allocate _ _)
      | calling call body context before after => exact .pure _
  | object entries =>
      simp only [eval]
      refine (within_evalEntries h scope [] entries).bind fun r => ?_
      cases r with
      | fields fs => exact within_done (h.allocate _ _)
      | calling call body context before key after => exact .pure _
  | function f =>
      simp only [eval]
      exact within_done (within_allocateFunction h _)
  | reference name =>
      simp only [eval]
      exact within_done (within_resolve h name scope)
  | property target name source =>
      simp only [eval]
      exact within_andThen (within_eval h scope target) fun v =>
        within_done (still_property v name).within
  | call name args =>
      simp only [eval]
      refine (within_evalAll h scope [] args).bind fun r => ?_
      cases r with
      | values vs => exact .machine fun m => within_callNamed h scope name vs m.line
      | calling call body context before after => exact .pure _
  | methodCall target name args =>
      simp only [eval]
      refine (within_evalAll h scope [] args).bind fun r => ?_
      cases r with
      | values vs =>
          exact .machine fun m =>
            within_callMethod h scope target (within_eval h scope target) name vs m.line
      | calling call body context before after => exact .pure _
  | typeof operand =>
      simp only [eval]
      have rest : Within R (andThen (eval plain scope operand) .typeof fun v => do
          return .value (.text (v.typeof (← heapView)))) :=
        within_andThen (within_eval h scope operand) fun v =>
          still_heapView.within.bind fun _ => .pure _
      cases operand with
      | reference name =>
          exact (still_isUnbound name scope).within.bind fun unbound => .ite (.pure _) rest
      | _ => exact rest
  | unary op operand =>
      simp only [eval]
      exact within_andThen (within_eval h scope operand) fun v => .pure _
  | binary op left right =>
      simp only [eval]
      exact within_andThen (within_eval h scope left) fun v =>
        within_afterLeft op v (within_eval h scope right)

theorem within_evalAll (h : Handles R) (scope : String) (before : List Value) (items : List Expr) :
    Within R (evalAll plain scope before items) := by
  cases items with
  | nil =>
      simp only [evalAll]
      exact .pure _
  | cons e rest =>
      simp only [evalAll]
      refine (within_eval h scope e).bind fun r => ?_
      cases r with
      | value v => exact within_evalAll h scope (before ++ [v]) rest
      | calling call body context => exact .pure _

theorem within_evalEntries (h : Handles R) (scope : String) (before : List (String × Value))
    (entries : List (String × Expr)) : Within R (evalEntries plain scope before entries) := by
  rcases entries with _ | ⟨⟨key, e⟩, rest⟩
  · simp only [evalEntries]
    exact .pure _
  · simp only [evalEntries]
    refine (within_eval h scope e).bind fun r => ?_
    cases r with
    | value v => exact within_evalEntries h scope (Datum.setField key v before) rest
    | calling call body context => exact .pure _

end

theorem within_useItems (scope : String) (use : ItemsUse) (vs : List Value) :
    Within R (useItems plain scope use vs) := by
  cases use with
  | array => exact within_done (h.allocate _ _)
  | call name line =>
      exact (still_lineOf line).within.bind fun n => within_callNamed h scope name vs n
  | method target name line =>
      exact (still_lineOf line).within.bind fun n =>
        within_callMethod h scope target (within_eval h scope target) name vs n
  | console method => exact (within_logValues h _ _).bind fun _ => .pure _
  | construct keyword name =>
      refine (h.place "object" (.record []) rfl).bind fun id => ?_
      exact (within_bind h _ _ _ _).bind fun _ => .pure _

theorem within_evalItems (scope : String) (use : ItemsUse) (before : List Value)
    (items : List Expr) : Within R (evalItems plain scope use before items) := by
  refine (within_evalAll h scope before items).bind fun r => ?_
  cases r with
  | values vs => exact within_useItems h scope use vs
  | calling call body context before after => exact .pure _

/-! ## Going on in a context -/

theorem within_fillOne (scope : String) (place : ExprFrame) (v : Value) :
    Within R (fillOne plain scope place v) := by
  cases place with
  | items use before after => exact within_evalItems h scope use (before ++ [v]) after
  | entry before key after =>
      refine (within_evalEntries h scope (Datum.setField key v before) after).bind fun r => ?_
      cases r with
      | fields fs => exact within_done (h.allocate _ _)
      | calling call body context before key after => exact .pure _
  | property name => exact within_done (still_property v name).within
  | typeof => exact still_heapView.within.bind fun _ => .pure _
  | unary op => exact .pure _
  | left op right => exact within_afterLeft op v (within_eval h scope right)
  | right op left =>
      exact still_heapView.within.bind fun heap => (still_number _).within.bind fun _ => .pure _
  | receiver target method args line => exact within_callOn h target method args line v

theorem within_fill (scope : String) (context : List ExprFrame) (v : Value) :
    Within R (fill plain scope context v) := by
  induction context generalizing v with
  | nil => exact .pure _
  | cons place outer ih =>
      refine (within_fillOne h scope place v).bind fun r => ?_
      cases r with
      | value v' => exact ih v'
      | calling call body context => exact .pure _

/-! ## Instructions -/

theorem within_finishWith (scope : String) (finish : Finish) (v : Value) :
    Within R (finishWith plain scope finish v) := by
  cases finish with
  | declare keyword name => exact (within_bind h _ _ _ _).bind fun _ => .pure _
  | assign name => exact (within_assign h _ _ _).bind fun _ => .pure _
  | promise callback params =>
      refine (h.change fun _ _ => ⟨rfl, rfl, rfl⟩).bind fun _ => ?_
      exact (within_info h _).bind fun _ => .pure _
  | «return» =>
      exact (still_display v).within.bind fun _ => (within_info h _).bind fun _ => .pure _
  | discard => exact .pure _

theorem within_conclude (scope : String) (finish : Finish) (r : Evaluated) :
    Within R (conclude plain scope finish r) := by
  cases r with
  | value v => exact (within_finishWith h scope finish v).bind fun _ => .pure _
  | calling call body context => exact .pure _

theorem within_startTimer (scope : String) (callback : Callback) (delay : Int) :
    Within R (startTimer plain scope callback delay) := by
  refine (h.change fun _ _ => ⟨rfl, rfl, rfl⟩).bind fun task => (within_info h _).bind fun _ => ?_
  refine still_store.within.bind fun store => (still_number _).within.bind fun wait => ?_
  intro s
  rw [ends_modify]
  exact h.spared (.silent rfl rfl rfl)

theorem within_perform (scope : String) (i : Instruction) : Within R (perform plain scope i) := by
  have items (use : ItemsUse) (args : List Expr) :
      Within R (do conclude plain scope .discard (← evalItems plain scope use [] args)) :=
    (within_evalItems h scope use [] args).bind fun r => within_conclude h scope _ r
  have expression (finish : Finish) (e : Expr) :
      Within R (do conclude plain scope finish (← eval plain scope e)) :=
    (within_eval h scope e).bind fun r => within_conclude h scope finish r
  cases i with
  | hoisting functions vars => exact (within_info h _).bind fun _ => .pure _
  | functionDecl d =>
      refine (within_allocateFunction h _).bind fun v => ?_
      exact (within_bind h _ _ _ _).bind fun _ => .pure _
  | hoistedVar name line =>
      refine (still_ownBinding? _ _).within.bind fun own => .ite ?_ (.pure _)
      exact (within_bind h _ _ _ _).bind fun _ => .pure _
  | declare keyword name value line => exact expression _ value
  | assign name value line => exact expression _ value
  | call name args line => exact items _ args
  | methodCall target method args line => exact items _ args
  | console method args line => exact items _ args
  | timer callback delay line =>
      exact (within_startTimer h scope callback delay).bind fun _ => .pure _
  | promise callback params value line => exact expression _ value
  | «return» value line => exact expression _ value
  | construct keyword name constructor args line => exact items _ args

theorem within_arrive (i : Instruction) : Within R (arrive plain i) := by
  refine (h.change fun _ _ => ⟨rfl, rfl, rfl⟩).bind fun step => ?_
  refine .machine fun m => .ite ((still_throw _).within.bind fun _ => ?_) ?_
  all_goals exact .ite ((h.note _).bind fun _ => within_setCurrentLine h _) (.pure _)

theorem within_execute (scope : String) (i : Instruction) : Within R (execute plain scope i) :=
  (within_arrive h i).bind fun _ => within_perform h scope i

theorem within_goOn (scope : String) (context : List ExprFrame) (finish : Finish) (v : Value) :
    Within R (goOn plain scope context finish v) :=
  (within_fill h scope context v).bind fun r => within_conclude h scope finish r

/-! ## Segments -/

theorem within_deliver (callers : List Caller) (base : Base) (v : Value) :
    Within R (deliver plain callers base v) := by
  cases callers with
  | cons caller outer =>
      refine (within_inside h _ (within_goOn h _ _ _ _)).bind fun r => ?_
      cases r <;> exact .pure _
  | nil =>
      cases base with
      | program scope context finish =>
          refine (within_goOn h _ _ _ _).bind fun r => ?_
          cases r <;> exact .pure _
      | microtask round => exact .pure _
      | callback => exact .pure _

theorem within_leave (call : Call) (callers : List Caller) (base : Base) (v : Value) :
    Within R (leave plain call callers base v) := by
  have line : Within R (if 0 < call.line then change plain fun s _ => s.setCurrentLine call.line
      else pure PUnit.unit) :=
    .ite (within_setCurrentLine h _) (.pure _)
  have closes : Within R (do
      if ← isCurrent call then unwind plain call
      if 0 < call.line then change plain fun s _ => s.setCurrentLine call.line) :=
    (still_isCurrent call).within.bind fun current => .first (within_unwind h call) line
  exact (within_inside h _ closes).bind fun _ => within_deliver h callers base v

theorem within_runBody (call : Call) (callers : List Caller) (base : Base)
    (is : List Instruction) : Within R (runBody plain call callers base is) := by
  cases is with
  | nil => exact within_leave h call callers base .undefined
  | cons i rest =>
      refine (within_inside h _ (within_execute h _ i)).bind fun r => ?_
      cases r <;> exact .pure _

theorem within_startTask (task : Task) (base : Base) : Within R (startTask plain task base) :=
  .get fun _ => (within_invoke h _ _ _ _ _).bind fun _ => .pure _

theorem within_takeCallback (ran : Bool) : Within R (takeCallback plain ran) := by
  refine (h.change fun _ _ => spares_nextCallback).bind fun task => ?_
  cases task with
  | some task => exact (within_info h _).bind fun _ => .pure _
  | none => exact .pure _

theorem within_takeMicrotask (round : Round) (ran : Bool) :
    Within R (takeMicrotask plain round ran) := by
  refine (h.change fun _ _ => spares_nextMicrotask).bind fun task => ?_
  cases task with
  | some task => exact (within_info h _).bind fun _ => .pure _
  | none =>
      cases round with
      | first => exact within_takeCallback h ran
      | last => exact .pure _

/-- What a segment does to the heap it does in these few ways. -/
theorem within_runSegment (work : Work) : Within R (runSegment plain work) := by
  cases work with
  | instruction i =>
      refine .machine fun m => (within_execute h _ i).bind fun r => ?_
      cases r <;> exact .pure _
  | pass => exact within_takeMicrotask h .first false
  | inCall call point callers base =>
      cases point with
      | entered body =>
          exact (within_inside h _ (within_instructionsOf h body)).bind fun is =>
            within_runBody h call callers base is
      | between returned rest =>
          cases returned with
          | some v => exact within_leave h call callers base v
          | none => exact within_runBody h call callers base rest
  | atPass point =>
      cases point with
      | beforeMicrotask task round => exact within_startTask h task _
      | afterMicrotask round => exact within_takeMicrotask h round true
      | beforeCallback task => exact within_startTask h task _
      | afterCallback => exact within_takeMicrotask h .last true
      | idle => exact .pure _

theorem within_abandon (work : Work) : Within R (abandon plain work) := by
  cases work with
  | inCall call point callers base => exact within_unwindAll h _ none
  | _ => exact .pure _

/-! ## Driving a program -/

theorem within_closeUnit : Within R (closeUnit plain) := by
  refine .machine fun m => (h.note _).bind fun _ => ?_
  cases m.unit with
  | none => exact .pure _
  | some u =>
      refine .ite ((within_abandon h u.work).bind fun fault => ?_) (.pure _)
      cases fault with
      | none => exact .pure _
      | some fault => exact .throw fault

theorem within_finish : Within R (finish plain) := by
  refine (within_closeUnit h).bind fun _ => (h.note _).bind fun _ => ?_
  refine (within_setCurrentLine h _).bind fun _ => (within_setExecution h _ _).bind fun _ => ?_
  exact within_info h _

theorem within_stop : Within R (stop plain) := by
  refine .machine fun m => .ite (.pure _) ((within_closeUnit h).bind fun _ => ?_)
  exact (h.note _).bind fun _ => (within_setExecution h _ _).bind fun _ => h.note _

theorem within_afterSegment (u : UnitOfWork) (generation : Nat) (r : Except Fault Progress) :
    Within R (afterSegment plain u generation r) := by
  have holds : Within R (holdsUnit u.serial) := .machine fun _ => .pure _
  rcases r with fault | work | _
  · refine Within.bind (.machine fun m => .ite ?_ (.pure _)) fun _ => .pure _
    refine (h.note _).bind fun _ => ?_
    exact (within_error h _).bind fun _ => within_finish h
  · refine .machine fun m => Within.bind ?_ fun _ => .pure _
    refine holds.bind fun _ => .ite (h.note _) ?_
    exact (within_abandon h work).bind fun _ => .pure _
  · exact holds.bind fun _ => .first (h.note _) (.pure _)

/-- Whatever is done with a program leads where `R` leads. -/
theorem Handles.drive {why fault : Option Fault} {s t : Session} (standing : Standing why s)
    (d : Drive s fault t) : R s t := by
  cases d with
  | time clock => exact h.spared (.silent rfl rfl rfl)
  | fire id =>
      have fires : Within R (fire plain id) :=
        (h.change fun _ _ => spares_moveToCallbacks id).bind fun _ => .pure _
      exact (fires s).after
  | speed speed =>
      have sets : Within R (setSpeed plain speed) := h.change fun _ _ => ⟨rfl, rfl, rfl⟩
      exact (sets s).after
  | @phase phase _ _ =>
      have sets : Within R (setPhase plain phase) :=
        (h.note _).bind fun _ => within_setExecution h _ _
      exact (sets s).after
  | seat gate openings runActive => exact h.spared (.silent rfl rfl rfl)
  | take _ _ => exact (h.note _ s).after
  | @advance u on hu =>
      have begins : R s (s.working u) := h.spared (.silent rfl rfl rfl)
      have segment := (within_runSegment h u.work (s.working u)).after
      rw [run_advance hu ((standing.steady on).waits _ hu)]
      exact trans_of R begins (trans_of R segment (within_afterSegment h u _ _ _).after)
  | finish _ _ => exact (within_finish h s).after
  | stop => exact (within_stop h s).after

end Act

end Runloop
