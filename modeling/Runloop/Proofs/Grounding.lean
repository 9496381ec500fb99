/-
# References and the objects they name

Outside the heap a value is a scalar or the reference of an object
(`Value.Grounded`), and what an object holds is a function, or such values one by
one (`Value.Built`).  `Store.Grounded` says that every reference in a store names
an object that is there, and that an object has noted those that it holds, but for
those that are still owed: an object is put on the heap first, and what it refers
to is noted afterwards.

Nothing is ever taken off the heap, so what was grounded stays so while the heap
grows.  A property of an answer is a property of the identities that are on the
heap by then, and `Act.Grounds` carries it through a computation: there is one rule
for each way of building one, and one for each change of the store.
-/
import Runloop.Proofs.Identity
import Runloop.Proofs.Moving

namespace Runloop

theorem mem_distinctNames {name : String} {names : List String} :
    name ∈ distinctNames names ↔ name ∈ names := by
  induction names with
  | nil => rfl
  | cons n rest ih =>
      rw [distinctNames, List.mem_cons, List.mem_cons, List.mem_filter, ih]
      by_cases same : name = n
      · simp [same]
      · simp [same]

theorem mem_setField {α : Type} {key : String} {a : α} {fields : List (String × α)}
    {f : String × α} (h : f ∈ Datum.setField key a fields) : f.2 = a ∨ f ∈ fields := by
  induction fields with
  | nil =>
      rw [List.mem_singleton.mp h]
      exact .inl rfl
  | cons g fields ih =>
      unfold Datum.setField at h
      split at h
      · rcases List.mem_cons.mp h with rfl | old
        · exact .inl rfl
        · exact .inr (List.mem_cons_of_mem g old)
      · rcases List.mem_cons.mp h with rfl | later
        · exact .inr List.mem_cons_self
        · exact (ih later).imp_right (List.mem_cons_of_mem g)

/-! ## Values -/

namespace Value

variable {ids ids' : List String} {v payload : Value} {id : String}

/-- A value outside the heap: a scalar, or the reference of one of the objects. -/
def Grounded (ids : List String) : Value → Prop
  | ref id => id ∈ ids
  | function _ | list _ | record _ => False
  | _ => True

/-- What an object holds: a function, or values one by one. -/
def Built (ids : List String) : Value → Prop
  | function _ => True
  | list items => ∀ v ∈ items, v.Grounded ids
  | record fields => ∀ f ∈ fields, f.2.Grounded ids
  | _ => False

/-- An identity occurs directly in a payload. -/
def Holds (id : String) : Value → Prop
  | list items => ref id ∈ items
  | record fields => ∃ key, (key, ref id) ∈ fields
  | _ => False

theorem Grounded.mono (h : v.Grounded ids) (more : ids ⊆ ids') : v.Grounded ids' := by
  cases v with
  | ref id => exact more h
  | function | list | record => exact h.elim
  | _ => trivial

theorem Built.mono (h : payload.Built ids) (more : ids ⊆ ids') : payload.Built ids' := by
  cases payload with
  | function => trivial
  | list items => exact fun v hv => (h v hv).mono more
  | record fields => exact fun f hf => (h f hf).mono more
  | _ => exact h.elim

theorem refOf?_eq_some : refs.refOf? v = some id ↔ v = ref id := by
  cases v with
  | ref id' => simp [refs.refOf?]
  | _ => simp [refs.refOf?]

theorem mem_refs_list {items : List Value} : id ∈ (list items).refs ↔ ref id ∈ items := by
  rw [refs, mem_distinctNames, List.mem_filterMap]
  simp only [refOf?_eq_some]
  refine ⟨?_, fun hv => ⟨ref id, hv, rfl⟩⟩
  rintro ⟨v, hv, rfl⟩
  exact hv

theorem mem_refs_record {fields : List (String × Value)} :
    id ∈ (record fields).refs ↔ ∃ key, (key, ref id) ∈ fields := by
  rw [refs, mem_distinctNames, List.mem_filterMap]
  simp only [refOf?_eq_some]
  refine ⟨?_, fun ⟨key, hf⟩ => ⟨_, hf, rfl⟩⟩
  rintro ⟨⟨key, v⟩, hf, rfl⟩
  exact ⟨key, hf⟩

/-- What occurs in a payload is noted of it. -/
theorem Holds.mem_refs (h : payload.Holds id) : id ∈ payload.refs := by
  cases payload with
  | list items => exact mem_refs_list.mpr h
  | record fields => exact mem_refs_record.mpr h
  | _ => exact h.elim

/-- What occurs in a payload is what is noted of it. -/
theorem Built.mem_refs (h : payload.Built ids) : id ∈ payload.refs ↔ payload.Holds id := by
  cases payload with
  | function => simp [refs, Holds]
  | list items => exact mem_refs_list
  | record fields => exact mem_refs_record
  | _ => exact h.elim

theorem Built.mem_of_refs (h : payload.Built ids) (hid : id ∈ payload.refs) : id ∈ ids := by
  have holds := h.mem_refs.mp hid
  cases payload with
  | list items => exact h _ holds
  | record fields =>
      obtain ⟨key, hf⟩ := holds
      exact h _ hf
  | _ => exact holds.elim

theorem grounded_ofLiteral (l : Literal) : (ofLiteral l).Grounded ids := by
  cases l <;> trivial

theorem grounded_applyUnary (op : UnaryOp) (v : Value) : (applyUnary op v).Grounded ids := by
  cases op <;> trivial

theorem grounded_arithmetic {f : Number → Number → Except NumberFault Number} {a b : Value}
    (h : arithmetic f a b = .ok v) : v.Grounded ids := by
  simp only [arithmetic, bind, Except.bind, pure, Except.pure] at h
  repeat' split at h
  all_goals cases h
  all_goals trivial

theorem grounded_relational {op : BinaryOp} {a b : Value} (h : relational op a b = .ok v) :
    v.Grounded ids := by
  simp only [relational, bind, Except.bind, pure, Except.pure] at h
  repeat' split at h
  all_goals cases h
  all_goals trivial

theorem grounded_applyBinary {heap : HeapView} {op : BinaryOp} {a b : Value}
    (ha : a.Grounded ids) (hb : b.Grounded ids) (h : applyBinary heap op a b = .ok v) :
    v.Grounded ids := by
  cases op with
  | add =>
      simp only [applyBinary, bind, Except.bind, pure, Except.pure] at h
      repeat' split at h
      all_goals cases h
      all_goals trivial
  | sub | mul | div | rem => exact grounded_arithmetic h
  | lt | gt | le | ge => exact grounded_relational h
  | strictEq | strictNe | looseEq | looseNe =>
      cases h
      trivial
  | and | or =>
      cases h
      split
      · assumption
      · assumption

end Value

/-! ## Stores -/

/-- Every reference of an object names one that is there, and the object has noted
what it holds, but for what is owed. -/
structure HeapObject.Grounded (ids : List String) (owed : List (String × String))
    (o : HeapObject) : Prop where
  payload : o.payload.Built ids
  known : ∀ id ∈ o.references, id ∈ ids
  once : o.references.Nodup
  noted : ∀ id, o.payload.Holds id → id ∈ o.references ∨ (o.id, id) ∈ owed

def Scope.Grounded (ids : List String) (c : Scope) : Prop :=
  ∀ b ∈ c.bindings, b.2.value.Grounded ids

def Task.Grounded (ids : List String) (task : Task) : Prop :=
  ∀ v ∈ task.spec.args, v.Grounded ids

def Store.heapIds (store : Store) : List String := store.state.heap.map (·.id)

/-- Every reference in a store names an object that is there. -/
structure Store.Grounded (owed : List (String × String)) (store : Store) : Prop where
  numbered : store.heapIds = IdKind.object.first store.counters.ref
  objects : ∀ o ∈ store.state.heap, o.Grounded store.heapIds owed
  scopes : ∀ c ∈ store.state.scopes, c.Grounded store.heapIds
  tasks : ∀ task ∈ store.state.loop.tasks, task.Grounded store.heapIds

section Mono

variable {ids ids' : List String} {owed owed' : List (String × String)}

theorem HeapObject.Grounded.mono {o : HeapObject} (h : o.Grounded ids owed) (more : ids ⊆ ids')
    (later : ∀ id, (o.id, id) ∈ owed → (o.id, id) ∈ owed') : o.Grounded ids' owed' where
  payload := h.payload.mono more
  known id hid := more (h.known id hid)
  once := h.once
  noted id hid := (h.noted id hid).imp_right (later id)

/-- A reference is no longer owed, if the object has noted it. -/
theorem HeapObject.Grounded.settle {o : HeapObject} {fromId toId : String}
    (h : o.Grounded ids ((fromId, toId) :: owed)) (paid : o.id = fromId → toId ∈ o.references) :
    o.Grounded ids owed where
  payload := h.payload
  known := h.known
  once := h.once
  noted id hid := by
    rcases h.noted id hid with here | due
    · exact .inl here
    · rcases List.mem_cons.mp due with eq | later
      · obtain ⟨same, rfl⟩ := Prod.mk.inj eq
        exact .inl (paid same)
      · exact .inr later

theorem HeapObject.Grounded.note {o : HeapObject} (h : o.Grounded ids owed) {toId : String}
    (there : toId ∈ ids) (new : toId ∉ o.references) :
    ({ o with references := o.references ++ [toId] } : HeapObject).Grounded ids owed where
  payload := h.payload
  known id hid := by
    rcases List.mem_append.mp hid with old | eq
    · exact h.known id old
    · rw [List.mem_singleton.mp eq]
      exact there
  once := by
    refine h.once.append (List.nodup_singleton toId) ?_
    intro id old eq
    rw [List.mem_singleton.mp eq] at old
    exact new old
  noted id hid := (h.noted id hid).imp_left (List.mem_append_left _)

theorem Scope.Grounded.mono {c : Scope} (h : c.Grounded ids) (more : ids ⊆ ids') :
    c.Grounded ids' :=
  fun b hb => (h b hb).mono more

theorem Scope.Grounded.bind {c : Scope} (h : c.Grounded ids) (name : String) {b : Binding}
    (hb : b.value.Grounded ids) :
    ({ c with bindings := Datum.setField name b c.bindings } : Scope).Grounded ids := by
  intro f hf
  rcases mem_setField hf with eq | old
  · rw [eq]
    exact hb
  · exact h f old

theorem Task.Grounded.mono {task : Task} (h : task.Grounded ids) (more : ids ⊆ ids') :
    task.Grounded ids' :=
  fun v hv => (h v hv).mono more

end Mono

namespace Store

variable {store t : Store} {owed : List (String × String)} {id : String} {payload : Value}

namespace Grounded

theorem nodup (h : store.Grounded owed) : store.heapIds.Nodup := by
  rw [h.numbered]
  exact IdKind.object.nodup_first _

/-- The heap is the same, and what else there is is grounded. -/
theorem of_heap (h : store.Grounded owed) (heap : t.state.heap = store.state.heap)
    (ref : t.counters.ref = store.counters.ref)
    (scopes : ∀ c ∈ t.state.scopes, c.Grounded store.heapIds)
    (tasks : ∀ task ∈ t.state.loop.tasks, task.Grounded store.heapIds) : t.Grounded owed := by
  have ids : t.heapIds = store.heapIds := congrArg (List.map HeapObject.id) heap
  exact ⟨by rw [ids, ref, h.numbered], by rw [ids, heap]; exact h.objects,
    by rw [ids]; exact scopes, by rw [ids]; exact tasks⟩

theorem entry (h : store.Grounded owed) {e : HeapEntry} (he : store.heapLookup? id = some e) :
    e.payload.Built store.heapIds := by
  obtain ⟨o, ho, rfl⟩ := Option.map_eq_some_iff.mp he
  exact (h.objects o (List.mem_of_find?_eq_some ho)).payload

/-- What a name denotes is bound in an open scope. -/
theorem binding (h : store.Grounded owed) {name : String} {scope : Option String}
    {found : String × Binding} (hf : store.findBinding? name scope = some found) :
    found.2.value.Grounded store.heapIds := by
  unfold findBinding? at hf
  split at hf
  · cases hf
  · obtain ⟨c, hc, eq⟩ := List.exists_of_findSome?_eq_some hf
    obtain ⟨-, eq⟩ := Option.ite_none_right_eq_some.mp eq
    obtain ⟨b, bound, rfl⟩ := Option.map_eq_some_iff.mp eq
    obtain ⟨f, hb, rfl⟩ := Option.map_eq_some_iff.mp bound
    exact h.scopes c (List.mem_reverse.mp hc) f (List.mem_of_find?_eq_some hb)

/-! ### The heap -/

theorem heapIds_allocate (store : Store) (kind : String) (payload : Value) (now : Double) :
    (store.allocate kind payload now).store.heapIds =
      store.heapIds ++ [(store.allocate kind payload now).value] :=
  List.map_append

/-- A new object owes all that it holds. -/
theorem allocate (h : store.Grounded []) (kind : String) (now : Double)
    (built : payload.Built store.heapIds) :
    (store.allocate kind payload now).store.Grounded
      (payload.refs.map ((store.allocate kind payload now).value, ·)) := by
  have more : store.heapIds ⊆ (store.allocate kind payload now).store.heapIds := by
    rw [heapIds_allocate]
    exact List.subset_append_left ..
  refine ⟨?_, ?_, fun c hc => (h.scopes c hc).mono more, fun t ht => (h.tasks t ht).mono more⟩
  · rw [heapIds_allocate, h.numbered]
    exact (IdKind.object.first_succ store.counters.ref).symm
  · intro o ho
    rcases List.mem_append.mp ho with old | new
    · exact (h.objects o old).mono more (by simp)
    · rw [List.mem_singleton.mp new]
      refine ⟨built.mono more, by simp, List.nodup_nil, fun id hid => .inr ?_⟩
      exact List.mem_map_of_mem (built.mem_refs.mpr hid)

/-- The object with an identity is replaced. -/
theorem replace {owed' : List (String × String)} {f : HeapObject → HeapObject}
    (h : store.Grounded owed) (same : ∀ o, (f o).id = o.id)
    (here : ∀ o ∈ store.state.heap, o.id = id → (f o).Grounded store.heapIds owed')
    (others : ∀ o ∈ store.state.heap, o.id ≠ id → o.Grounded store.heapIds owed') :
    (store.setHeap (modifyFirst (·.id == id) f store.state.heap)).Grounded owed' ∧
      (store.setHeap (modifyFirst (·.id == id) f store.state.heap)).heapIds = store.heapIds := by
  have ids : (store.setHeap (modifyFirst (·.id == id) f store.state.heap)).heapIds =
      store.heapIds := map_modifyFirst same _
  refine ⟨⟨ids.trans h.numbered, ?_, by rw [ids]; exact h.scopes, by rw [ids]; exact h.tasks⟩, ids⟩
  rw [ids]
  intro o' ho'
  have heap : (store.setHeap (modifyFirst (·.id == id) f store.state.heap)).state.heap = _ :=
    modifyFirst_eq_map h.nodup id f
  rw [heap] at ho'
  obtain ⟨o, ho, rfl⟩ := List.mem_map.mp ho'
  split
  · rename_i this
    exact here o ho this
  · rename_i other
    exact others o ho other

/-- A reference that was owed is noted. -/
theorem addReference {fromId toId : String} (h : store.Grounded ((fromId, toId) :: owed))
    (there : toId ∈ store.heapIds) :
    (store.addReference fromId toId).store.Grounded owed ∧
      (store.addReference fromId toId).store.heapIds = store.heapIds := by
  unfold Store.addReference
  split
  · rename_i missing
    refine ⟨⟨h.numbered, fun o ho => ?_, h.scopes, h.tasks⟩, rfl⟩
    refine (h.objects o ho).settle fun same => ?_
    have none := List.find?_eq_none.mp missing o ho
    exact absurd same (by simpa using none)
  · rename_i object found
    -- no identity is there twice, so this is the object that owes the reference
    have only {o : HeapObject} (ho : o ∈ store.state.heap) (same : o.id = fromId) : o = object := by
      have this : object.id = fromId := by simpa using List.find?_some found
      exact List.inj_on_of_nodup_map h.nodup ho (List.mem_of_find?_eq_some found)
        (same.trans this.symm)
    split
    · rename_i known
      refine ⟨⟨h.numbered, fun o ho => (h.objects o ho).settle fun same => ?_, h.scopes, h.tasks⟩,
        rfl⟩
      rw [only ho same]
      simpa using known
    · rename_i new
      refine h.replace (fun _ => rfl) ?_ ?_
      · intro o ho same
        obtain rfl := only ho same
        refine ((h.objects o ho).note there (by simpa using new)).settle fun _ => ?_
        exact List.mem_append_right _ List.mem_cons_self
      · intro o ho other
        exact (h.objects o ho).settle fun same => absurd same other

/-- An object with another payload owes all that it holds. -/
theorem updateHeapValue {c : Change Unit} (h : store.Grounded [])
    (built : payload.Built store.heapIds) (hc : store.updateHeapValue id payload = .ok c) :
    c.store.Grounded (payload.refs.map (id, ·)) ∧ c.store.heapIds = store.heapIds := by
  unfold Store.updateHeapValue at hc
  split at hc <;> cases hc
  refine h.replace (fun _ => rfl) ?_ ?_
  · intro o ho same
    obtain ⟨-, known, once, -⟩ := h.objects o ho
    refine ⟨built, known, once, fun id' hid => .inr ?_⟩
    exact List.mem_map.mpr ⟨id', built.mem_refs.mpr hid, by rw [← same]⟩
  · intro o ho _
    exact (h.objects o ho).mono (fun _ hid => hid) (by simp)

/-! ### Scopes -/

theorem destroyScope {c : Change Scope} (h : store.Grounded owed)
    (hc : store.destroyScope id = .ok c) :
    c.store.Grounded owed ∧ c.store.heapIds = store.heapIds ∧ c.value.Grounded store.heapIds := by
  unfold Store.destroyScope at hc
  split at hc <;> cases hc
  rename_i scope found
  refine ⟨h.of_heap rfl rfl ?_ h.tasks, rfl, h.scopes scope (List.mem_of_find?_eq_some found)⟩
  exact fun c hc => h.scopes c (List.mem_of_mem_eraseP hc)

theorem restoreScope {scope : Scope} (h : store.Grounded owed)
    (hs : scope.Grounded store.heapIds) :
    (store.restoreScope scope).store.Grounded owed ∧
      (store.restoreScope scope).store.heapIds = store.heapIds := by
  unfold Store.restoreScope
  split
  · exact ⟨h, rfl⟩
  · refine ⟨h.of_heap rfl rfl ?_ h.tasks, rfl⟩
    intro c hc
    rcases List.mem_append.mp hc with old | new
    · exact h.scopes c old
    · rw [List.mem_singleton.mp new]
      exact hs

theorem createScope (h : store.Grounded owed) (name kind : String) (parent : Option String)
    (now : Double) : (store.createScope name kind parent now).store.Grounded owed := by
  refine h.of_heap rfl rfl ?_ h.tasks
  intro c hc
  rcases List.mem_append.mp hc with old | new
  · exact h.scopes c old
  · rw [List.mem_singleton.mp new]
    exact fun _ hb => absurd hb List.not_mem_nil

/-- A name of an open scope is bound to a value. -/
theorem rebinding {action : ScopeAction} {c : Scope} {name : String} {b : Binding}
    (h : store.Grounded owed) (hb : b.value.Grounded store.heapIds) :
    (store.rebinding action c name b).store.Grounded owed := by
  refine h.of_heap rfl rfl ?_ h.tasks
  intro d hd
  rcases mem_modifyFirst hd with old | ⟨e, he, rfl⟩
  · exact h.scopes d old
  · exact (h.scopes e he).bind name hb

/-! ### Tasks -/

/-- The queues change; a task that is new there takes grounded values along. -/
theorem requeue (h : store.Grounded owed) (heap : t.state.heap = store.state.heap)
    (ref : t.counters.ref = store.counters.ref) (scopes : t.state.scopes = store.state.scopes)
    (tasks : ∀ task ∈ t.state.loop.tasks,
      task ∈ store.state.loop.tasks ∨ task.Grounded store.heapIds) : t.Grounded owed := by
  refine h.of_heap heap ref (by rw [scopes]; exact h.scopes) fun task ht => ?_
  rcases tasks task ht with old | new
  · exact h.tasks task old
  · exact new

end Grounded

end Store

/-! ## Sessions -/

/-- Every reference in a session names an object of its heap, also in scopes that
were closed and in the receivers of open calls. -/
structure Session.Grounded (owed : List (String × String)) (s : Session) : Prop where
  store : s.store.Grounded owed
  detached : ∀ p ∈ s.machine.detached, p.2.Grounded s.store.heapIds
  receivers : ∀ v ∈ s.machine.receivers, v.Grounded s.store.heapIds

namespace Session.Grounded

variable {s : Session} {owed owed' : List (String × String)}

/-- The store changes, and its heap does not shrink. -/
theorem publish {α : Type} {c : Change α} (h : s.Grounded owed) (store : c.store.Grounded owed')
    (grows : s.store.heapIds ⊆ c.store.heapIds) : (s.publish c).Grounded owed' := by
  refine ⟨?_, ?_, ?_⟩
  · rw [publish_store]
    exact store
  · rw [publish_machine, publish_store]
    exact fun p hp => (h.detached p hp).mono grows
  · rw [publish_machine, publish_store]
    exact fun v hv => (h.receivers v hv).mono grows

/-- The machine changes, and what it keeps of the program is grounded. -/
theorem note (h : s.Grounded owed) {m : Machine}
    (detached : ∀ p ∈ m.detached, p.2.Grounded s.store.heapIds)
    (receivers : ∀ v ∈ m.receivers, v.Grounded s.store.heapIds) :
    ({ s with machine := m } : Session).Grounded owed :=
  ⟨h.store, detached, receivers⟩

end Session.Grounded

/-! ## Computations -/

namespace Act

variable {α β : Type} {ids ids' : List String} {P : List String → α → Prop}
  {Q : List String → β → Prop} {s : Session}

/-- From a session that is grounded and has these objects on its heap, the
computation ends in one that is grounded, and nothing was taken off the heap; the
answer satisfies `P` with what is on the heap then. -/
def Grounds (ids : List String) (act : Act α) (P : List String → α → Prop) : Prop :=
  ∀ s : Session, s.Grounded [] → ids ⊆ s.store.heapIds →
    Ends act s
      (fun a t => (t.Grounded [] ∧ s.store.heapIds ⊆ t.store.heapIds) ∧ P t.store.heapIds a)
      (fun _ t => t.Grounded [] ∧ s.store.heapIds ⊆ t.store.heapIds)

/-! ### One rule for each way of building a computation -/

namespace Grounds

theorem bind {x : Act α} {f : α → Act β} (hx : Grounds ids x P)
    (hf : ∀ a ids', ids ⊆ ids' → P ids' a → Grounds ids' (f a) Q) : Grounds ids (x >>= f) Q := by
  intro s grounded there
  rw [ends_bind]
  refine (hx s grounded there).mono ?_ fun _ _ ends => ends
  rintro a t ⟨⟨after, grows⟩, answer⟩
  refine (hf a _ (List.Subset.trans there grows) answer t after fun _ hid => hid).mono ?_ ?_
  · rintro b u ⟨⟨last, more⟩, answer⟩
    exact ⟨⟨last, List.Subset.trans grows more⟩, answer⟩
  · rintro _ u ⟨last, more⟩
    exact ⟨last, List.Subset.trans grows more⟩

/-- The answer of the first computation does not matter. -/
theorem seq {x : Act α} {f : α → Act β} (hx : Grounds ids x fun _ _ => True)
    (hf : ∀ a ids', ids ⊆ ids' → Grounds ids' (f a) Q) : Grounds ids (x >>= f) Q :=
  hx.bind fun a ids' more _ => hf a ids' more

protected theorem pure {a : α} (h : ∀ ids', ids ⊆ ids' → P ids' a) :
    Grounds ids (pure a) P := by
  intro s grounded there
  exact ⟨⟨grounded, fun _ hid => hid⟩, h _ there⟩

protected theorem throw (f : Fault) : Grounds ids (throw f : Act α) P := by
  intro s grounded _
  exact ⟨grounded, fun _ hid => hid⟩

protected theorem ite {c : Prop} [Decidable c] {x y : Act α} (hx : Grounds ids x P)
    (hy : Grounds ids y P) : Grounds ids (if c then x else y) P := by
  split
  · exact hx
  · exact hy

/-- A fault is met by a computation that grounds as well. -/
theorem recover {x : Act α} {h : Fault → Act α} (hx : Grounds ids x P)
    (hh : ∀ f ids', ids ⊆ ids' → Grounds ids' (h f) P) : Grounds ids (tryCatch x h) P := by
  intro s grounded there
  rw [ends_tryCatch]
  refine (hx s grounded there).mono (fun _ _ ends => ends) ?_
  rintro f t ⟨after, grows⟩
  refine (hh f _ (List.Subset.trans there grows) t after fun _ hid => hid).mono ?_ ?_
  · rintro a u ⟨⟨last, more⟩, answer⟩
    exact ⟨⟨last, List.Subset.trans grows more⟩, answer⟩
  · rintro _ u ⟨last, more⟩
    exact ⟨last, List.Subset.trans grows more⟩

theorem forM {l : List α} {f : α → Act PUnit}
    (h : ∀ a ∈ l, ∀ ids', ids ⊆ ids' → Grounds ids' (f a) fun _ _ => True) :
    Grounds ids (l.forM f) fun _ _ => True := by
  induction l generalizing ids with
  | nil => exact .pure fun _ _ => trivial
  | cons a l ih =>
      refine (h a List.mem_cons_self ids fun _ hid => hid).bind fun _ ids' more _ => ?_
      exact ih fun b hb ids'' later =>
        h b (List.mem_cons_of_mem a hb) ids'' (List.Subset.trans more later)

/-- A computation goes on in a way that depends on the session. -/
theorem get {f : Session → Act β}
    (h : ∀ s : Session, s.Grounded [] → ids ⊆ s.store.heapIds → Grounds s.store.heapIds (f s) Q) :
    Grounds ids (MonadState.get >>= f) Q := by
  intro s grounded there
  exact h s grounded there s grounded fun _ hid => hid

/-- A part of the session is answered. -/
theorem read {g : Session → α}
    (h : ∀ s : Session, s.Grounded [] → ids ⊆ s.store.heapIds → P s.store.heapIds (g s)) :
    Grounds ids (do return g (← MonadState.get)) P := by
  intro s grounded there
  exact ⟨⟨grounded, fun _ hid => hid⟩, h s grounded there⟩

/-- The machine changes, and what it keeps of the program is grounded. -/
theorem note {g : Machine → Machine}
    (h : ∀ s : Session, s.Grounded [] → ids ⊆ s.store.heapIds →
      (∀ p ∈ (g s.machine).detached, p.2.Grounded s.store.heapIds) ∧
        ∀ v ∈ (g s.machine).receivers, v.Grounded s.store.heapIds) :
    Grounds ids (modifyMachine g) fun _ _ => True := by
  intro s grounded there
  obtain ⟨detached, receivers⟩ := h s grounded there
  exact ⟨⟨grounded.note detached receivers, fun _ hid => hid⟩, trivial⟩

/-- The machine changes, but for what it keeps of the program. -/
theorem drive {g : Machine → Machine} (detached : ∀ m, (g m).detached = m.detached)
    (receivers : ∀ m, (g m).receivers = m.receivers) :
    Grounds ids (modifyMachine g) fun _ _ => True := by
  refine note fun s grounded _ => ?_
  rw [detached, receivers]
  exact ⟨grounded.detached, grounded.receivers⟩

theorem change {f : Store → Double → Change α}
    (h : ∀ store now, store.Grounded [] → ids ⊆ store.heapIds → (f store now).store.Grounded [] ∧
      store.heapIds ⊆ (f store now).store.heapIds ∧
      P (f store now).store.heapIds (f store now).value) :
    Grounds ids (Act.change plain f) P := by
  intro s grounded there
  rw [ends_change, Session.publish_store]
  obtain ⟨store, grows, answer⟩ := h s.store s.now grounded.store there
  exact ⟨⟨grounded.publish store grows, grows⟩, answer⟩

/-- A change that leaves the heap, the scopes and the queues alone. -/
theorem aside {f : Store → Double → Change α}
    (h : ∀ store now, (f store now).store.state.heap = store.state.heap ∧
      (f store now).store.counters.ref = store.counters.ref ∧
      (f store now).store.state.scopes = store.state.scopes ∧
      (f store now).store.state.loop = store.state.loop) :
    Grounds ids (Act.change plain f) fun _ _ => True := by
  refine change fun store now grounded _ => ?_
  obtain ⟨heap, ref, scopes, loop⟩ := h store now
  refine ⟨grounded.of_heap heap ref ?_ ?_, ?_, trivial⟩
  · rw [scopes]
    exact grounded.scopes
  · rw [loop]
    exact grounded.tasks
  · rw [Store.heapIds, Store.heapIds, heap]
    exact fun _ hid => hid

theorem change? {f : Store → Except StoreFault (Change α)}
    (h : ∀ store c, store.Grounded [] → ids ⊆ store.heapIds → f store = .ok c →
      c.store.Grounded [] ∧ store.heapIds ⊆ c.store.heapIds ∧ P c.store.heapIds c.value) :
    Grounds ids (Act.change? plain f) P := by
  intro s grounded there
  rw [ends_change?]
  cases hc : f s.store with
  | error fault => exact ⟨grounded, fun _ hid => hid⟩
  | ok c =>
      obtain ⟨store, grows, answer⟩ := h s.store c grounded.store there hc
      dsimp only
      rw [Session.publish_store]
      exact ⟨⟨grounded.publish store grows, grows⟩, answer⟩

end Grounds

/-- A computation that changes nothing. -/
theorem Still.grounds {act : Act α} (h : Still act) : Grounds ids act fun _ _ => True := by
  intro s grounded _
  refine (h s).mono ?_ ?_
  · rintro _ t rfl
    exact ⟨⟨grounded, fun _ hid => hid⟩, trivial⟩
  · rintro _ t rfl
    exact ⟨grounded, fun _ hid => hid⟩

theorem grounds_number {r : Except NumberFault α}
    (h : ∀ a, r = .ok a → ∀ ids', ids ⊆ ids' → P ids' a) : Grounds ids (number r) P := by
  cases r with
  | ok a => exact .pure (h a rfl)
  | error fault => exact .throw _

theorem grounds_setCurrentLine (line : Int) :
    Grounds ids (change plain fun s _ => s.setCurrentLine line) fun _ _ => True :=
  .aside fun _ _ => ⟨rfl, rfl, rfl, rfl⟩

theorem grounds_setExecution (isRunning isPaused : Bool) :
    Grounds ids (change plain fun s _ => s.setExecution isRunning isPaused) fun _ _ => True :=
  .aside fun _ _ => ⟨rfl, rfl, rfl, rfl⟩

/-! ### Reporting -/

theorem grounds_log (type : String) (args : List String) :
    Grounds ids (log plain type args) fun _ _ => True :=
  .aside fun _ _ => ⟨rfl, rfl, rfl, rfl⟩

theorem grounds_info (text : String) : Grounds ids (info plain text) fun _ _ => True :=
  grounds_log _ _

theorem grounds_error (text : String) : Grounds ids (error plain text) fun _ _ => True :=
  grounds_log _ _

theorem grounds_logValues (method : String) (args : List Value) :
    Grounds ids (logValues plain method args) fun _ _ => True := by
  refine still_heapView.grounds.bind fun heap _ _ _ => ?_
  exact (still_number _).grounds.bind fun texts _ _ _ => grounds_log method texts

/-- What an object owes is noted, one reference after the other. -/
theorem ends_addReferences {id : String} {refs : List String} {E : Fault → Session → Prop}
    (h : s.Grounded (refs.map (id, ·))) (there : ∀ child ∈ refs, child ∈ s.store.heapIds) :
    Ends (refs.forM fun child => change plain fun s _ => s.addReference id child) s
      (fun _ t => t.Grounded [] ∧ t.store.heapIds = s.store.heapIds) E := by
  induction refs generalizing s with
  | nil => exact ⟨h, rfl⟩
  | cons child refs ih =>
      rw [List.forM_eq_forM, List.forM_cons, ends_bind, ends_change]
      obtain ⟨store, same⟩ := h.store.addReference (there child List.mem_cons_self)
      have grounded := h.publish store (by rw [same]; exact fun _ hid => hid)
      have kept : (s.publish (s.store.addReference id child)).store.heapIds = s.store.heapIds := by
        rw [Session.publish_store]
        exact same
      refine (ih grounded fun c hc => ?_).mono ?_ fun _ _ h => h
      · rw [kept]
        exact there c (List.mem_cons_of_mem child hc)
      · rintro _ t ⟨after, ids⟩
        exact ⟨after, ids.trans kept⟩

/-- An object is put on the heap, and what it refers to is noted. -/
theorem grounds_allocate (kind : String) {payload : Value} (built : payload.Built ids) :
    Grounds ids (allocate plain kind payload) Value.Grounded := by
  intro s grounded there
  unfold allocate
  rw [ends_bind, ends_change, ends_bind]
  have built := built.mono there
  have more : s.store.heapIds ⊆ (s.store.allocate kind payload s.now).store.heapIds := by
    rw [Store.Grounded.heapIds_allocate]
    exact List.subset_append_left ..
  have owes := grounded.publish (grounded.store.allocate kind s.now built) more
  refine (ends_addReferences owes ?_).mono ?_ fun _ _ ends => ends
  · rw [Session.publish_store]
    exact fun child hc => more (built.mem_of_refs hc)
  · rintro _ t ⟨after, same⟩
    rw [Session.publish_store] at same
    show (t.Grounded [] ∧ _ ⊆ t.store.heapIds) ∧ _ ∈ t.store.heapIds
    rw [same]
    refine ⟨⟨after, more⟩, ?_⟩
    rw [Store.Grounded.heapIds_allocate]
    exact List.mem_append_right _ List.mem_cons_self

/-- An object that holds nothing owes nothing. -/
theorem grounds_allocateEmpty (kind : String) (payload : Value) (built : payload.Built ids)
    (nothing : payload.refs = []) :
    Grounds ids (change plain fun s now => s.allocate kind payload now) fun ids id => id ∈ ids := by
  refine .change fun store now grounded there => ?_
  have owes := grounded.allocate kind now (built.mono there)
  rw [nothing] at owes
  rw [Store.Grounded.heapIds_allocate]
  exact ⟨owes, List.subset_append_left .., List.mem_append_right _ List.mem_cons_self⟩

theorem grounds_allocateFunction (f : FunctionValue) :
    Grounds ids (allocateFunction plain f) Value.Grounded :=
  (grounds_allocateEmpty "function" (.function f) trivial rfl).bind
    fun _ _ _ new => .pure fun _ more => more new

end Act

end Runloop
