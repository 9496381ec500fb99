/-
# What objects are said to refer to

The journal tells every payload that an object had since the store was last cleared
(`payloadsOf`).  Of all of these the references are noted on the object, in the order in
which they came up, and none is ever taken back (`Session.Chronicled`).  So what is noted
may be out of date.  The payload of an array changes when it is pushed to or popped
(`Value.Follows`), that of any other object never, and a push drops nothing: what is noted
of an object occurs in it, or was popped (`references_are_remembered`).
-/
import Mathlib.Data.List.Chain
import Mathlib.Logic.Function.Basic
import Runloop.Proofs.Dangling
import Runloop.Proofs.Handling

namespace Runloop

/-- One more name is listed, unless it was there. -/
theorem distinctNames_concat (names : List String) (name : String) :
    distinctNames (names ++ [name]) =
      if name ∈ names then distinctNames names else distinctNames names ++ [name] := by
  induction names with
  | nil => rfl
  | cons n rest ih =>
      rw [List.cons_append, distinctNames, distinctNames, ih]
      by_cases same : name = n
      · subst same
        rw [if_pos List.mem_cons_self]
        split
        · rfl
        · simp
      · simp only [List.mem_cons, same, false_or]
        split
        · rfl
        · simp [same]

/-! ## Payloads one after the other -/

/-- The payload that an event gives to the object with an identity. -/
def Event.payload? (id : String) : Event → Option Value
  | .heap .allocate (some o) _ _ _ | .heap .update (some o) _ _ _ =>
    if o.id = id then some o.payload else none
  | _ => none

/-- The payloads that the object with an identity had, the present one last. -/
def payloadsOf (trace : List Event) (id : String) : List Value :=
  trace.filterMap (Event.payload? id)

theorem payloadsOf_append (l l' : List Event) (id : String) :
    payloadsOf (l ++ l') id = payloadsOf l id ++ payloadsOf l' id :=
  List.filterMap_append

theorem payloadsOf_of_topic {l : List Event} (h : ∀ e ∈ l, e.topic ≠ .heap) (id : String) :
    payloadsOf l id = [] := by
  refine List.filterMap_eq_nil_iff.mpr fun e he => ?_
  have other := h e he
  cases e with
  | heap => exact absurd rfl other
  | _ => rfl

/-- One payload follows another: an array was pushed to, or popped. -/
inductive Value.Follows : Value → Value → Prop
  | push (items args : List Value) : Follows (.list items) (.list (items ++ args))
  | pop (items : List Value) : Follows (.list items) (.list items.dropLast)

/-- The last item that referred to an object was popped off an array, and the object
never came back. -/
def Popped (id : String) (payloads : List Value) : Prop :=
  ∃ before items after,
    payloads = before ++ .list (items ++ [.ref id]) :: .list items :: after ∧
      ∀ payload ∈ .list items :: after, ¬ payload.Holds id

theorem Popped.cons {id : String} {payloads : List Value} (h : Popped id payloads)
    (payload : Value) : Popped id (payload :: payloads) := by
  obtain ⟨before, items, after, rfl, gone⟩ := h
  exact ⟨payload :: before, items, after, rfl, gone⟩

/-- What was popped had been noted. -/
theorem Popped.mem_refs {id : String} {payloads : List Value} (h : Popped id payloads) :
    id ∈ payloads.flatMap Value.refs := by
  obtain ⟨before, items, after, rfl, -⟩ := h
  refine List.mem_flatMap.mpr ⟨.list (items ++ [.ref id]), by simp, ?_⟩
  exact Value.mem_refs_list.mpr (by simp)

/-- What is no longer there in the next payload was the last item, and was popped. -/
theorem Value.Follows.popped {payload next : Value} {id : String} (h : payload.Follows next)
    (held : id ∈ payload.refs) (gone : ¬ next.Holds id) :
    ∃ items, payload = .list (items ++ [.ref id]) ∧ next = .list items := by
  cases h with
  | push items args =>
      exact absurd (List.mem_append_left args (Value.mem_refs_list.mp held)) gone
  | pop items =>
      have held : .ref id ∈ items := Value.mem_refs_list.mp held
      have split := List.dropLast_concat_getLast (List.ne_nil_of_mem held)
      rw [← split] at held
      rcases List.mem_append.mp held with kept | last
      · exact absurd kept gone
      · rw [← List.mem_singleton.mp last] at split
        exact ⟨items.dropLast, by rw [split], rfl⟩

/-- What any of the payloads referred to is in the last one, or was popped. -/
theorem holds_or_popped {ids : List String} {payloads : List Value} {last : Value} {id : String}
    (changes : payloads.IsChain Value.Follows) (latest : payloads.getLast? = some last)
    (built : last.Built ids) (mentioned : id ∈ payloads.flatMap Value.refs) :
    last.Holds id ∨ Popped id payloads := by
  induction payloads with
  | nil => cases latest
  | cons first rest ih =>
      cases rest with
      | nil =>
          obtain rfl : first = last := by simpa using latest
          exact .inl (built.mem_refs.mp (by simpa using mentioned))
      | cons next rest =>
          obtain ⟨follows, changes⟩ := List.isChain_cons_cons.mp changes
          by_cases later : id ∈ (next :: rest).flatMap Value.refs
          · rw [List.getLast?_cons_cons] at latest
            exact (ih changes latest later).imp_right fun popped => popped.cons first
          · -- the first payload is the last that held it
            have gone (payload : Value) (hp : payload ∈ next :: rest) : ¬ payload.Holds id :=
              fun held => later (List.mem_flatMap.mpr ⟨payload, hp, held.mem_refs⟩)
            rw [List.flatMap_cons, List.mem_append] at mentioned
            obtain ⟨items, rfl, rfl⟩ :=
              follows.popped (mentioned.resolve_right later) (gone next List.mem_cons_self)
            exact .inr ⟨[], items, rest, rfl, gone⟩

/-! ## What is noted of an object -/

/-- An object after the payloads that it had: the last of them is its own, and `links` are
noted of it, each once. -/
structure HeapObject.Recorded (payloads : List Value) (links : List String) (o : HeapObject) :
    Prop where
  latest : payloads.getLast? = some o.payload
  changes : payloads.IsChain Value.Follows
  references : o.references = distinctNames links

namespace Session

/-- Every object is recorded with the payloads that the journal tells, and with its
links. -/
structure Recorded (links : String → List String) (s : Session) : Prop where
  numbered : s.store.heapIds = IdKind.object.first s.store.counters.ref
  objects : ∀ o ∈ s.store.state.heap, o.Recorded (payloadsOf s.trace o.id) (links o.id)
  absent : ∀ id ∉ s.store.heapIds, payloadsOf s.trace id = []

/-- All that an object ever referred to, oldest first. -/
def mentioned (s : Session) (id : String) : List String :=
  (payloadsOf s.trace id).flatMap Value.refs

/-- All that an object ever referred to is noted of it. -/
def Chronicled (s : Session) : Prop := s.Recorded s.mentioned

/-- From `s` to `t` the object with an identity got one more payload. -/
def Adds (s t : Session) (id : String) (payload : Value) : Prop :=
  payloadsOf t.trace = Function.update (payloadsOf s.trace) id (payloadsOf s.trace id ++ [payload])

variable {s t : Session} {links : String → List String} {id : String} {payload : Value}

theorem Adds.mentioned (h : s.Adds t id payload) :
    t.mentioned = Function.update s.mentioned id (s.mentioned id ++ payload.refs) := by
  funext i
  unfold Session.mentioned
  rw [h]
  by_cases same : i = id
  · subst same
    simp
  · simp [same]

/-- It is told that an object is new, or that it has another payload. -/
theorem adds_publish {α : Type} {c : Change α} {action : HeapAction} {o : HeapObject}
    {heap : List HeapObject} (gives : action = .allocate ∨ action = .update)
    (told : c.events = [.heap action (some o) heap none none]) :
    s.Adds (s.publish c) o.id o.payload := by
  have trace : (s.publish c).trace = s.trace ++ c.events :=
    trace_publish (by simp [told, Event.isReset])
  funext i
  rw [trace, told, payloadsOf_append]
  by_cases same : i = o.id
  · subst same
    rcases gives with rfl | rfl <;> simp [payloadsOf, Event.payload?]
  · rcases gives with rfl | rfl <;> simp [payloadsOf, Event.payload?, same, Ne.symm same]

/-- It is told that an object refers to another. -/
theorem payloads_publish {α : Type} {c : Change α} {heap : List HeapObject}
    {fromId toId : Option String} (told : c.events = [.heap .reference none heap fromId toId]) :
    payloadsOf (s.publish c).trace = payloadsOf s.trace := by
  have trace : (s.publish c).trace = s.trace ++ c.events :=
    trace_publish (by simp [told, Event.isReset])
  funext i
  rw [trace, told, payloadsOf_append]
  exact List.append_nil _

theorem Spared.payloads (h : s.Spared t) : payloadsOf t.trace = payloadsOf s.trace := by
  obtain ⟨l, trace, other⟩ := h.trace
  funext id
  rw [trace, payloadsOf_append, payloadsOf_of_topic other, List.append_nil]

namespace Recorded

theorem nodup (h : s.Recorded links) : s.store.heapIds.Nodup := by
  rw [h.numbered]
  exact IdKind.object.nodup_first _

/-- The identities are those that were handed out, and the next one comes after them. -/
theorem issued (h : s.Recorded links) :
    s.store.heapIds ++ [Store.refId (s.store.counters.ref + 1)] =
      IdKind.object.first (s.store.counters.ref + 1) := by
  rw [h.numbered]
  exact (IdKind.object.first_succ _).symm

/-- The next identity is not in use. -/
theorem fresh (h : s.Recorded links) :
    Store.refId (s.store.counters.ref + 1) ∉ s.store.heapIds := by
  have once : (s.store.heapIds ++ [Store.refId (s.store.counters.ref + 1)]).Nodup := by
    rw [h.issued]
    exact IdKind.object.nodup_first _
  exact fun there => List.disjoint_of_nodup_append once there List.mem_cons_self

/-- There is one object with an identity. -/
theorem only (h : s.Recorded links) {o o' : HeapObject} (ho : o ∈ s.store.state.heap)
    (ho' : o' ∈ s.store.state.heap) (same : o.id = o'.id) : o = o' :=
  List.inj_on_of_nodup_map h.nodup ho ho' same

/-- Links count up to repetition. -/
theorem relabel {links' : String → List String} (h : s.Recorded links)
    (same : ∀ o ∈ s.store.state.heap, distinctNames (links' o.id) = distinctNames (links o.id)) :
    s.Recorded links' := by
  refine ⟨h.numbered, fun o ho => ?_, h.absent⟩
  obtain ⟨latest, changes, references⟩ := h.objects o ho
  exact ⟨latest, changes, references.trans (same o ho).symm⟩

/-- Nothing happens to the heap. -/
theorem spared (h : s.Recorded links) (spared : s.Spared t) : t.Recorded links := by
  have ids : t.store.heapIds = s.store.heapIds := congrArg (List.map HeapObject.id) spared.heap
  refine ⟨?_, ?_, ?_⟩
  · rw [ids, spared.ref, h.numbered]
  · rw [spared.heap, spared.payloads]
    exact h.objects
  · rw [ids, spared.payloads]
    exact h.absent

/-- An object is new, and nothing is noted of it. -/
theorem add {o : HeapObject} (h : s.Recorded links)
    (heap : t.store.state.heap = s.store.state.heap ++ [o])
    (ref : t.store.counters.ref = s.store.counters.ref + 1)
    (number : o.id = Store.refId (s.store.counters.ref + 1)) (adds : s.Adds t o.id o.payload)
    (unlinked : links o.id = []) (unnoted : o.references = []) : t.Recorded links := by
  have ids : t.store.heapIds = s.store.heapIds ++ [o.id] := by
    rw [Store.heapIds, heap, List.map_append]
    rfl
  have new : o.id ∉ s.store.heapIds := number ▸ h.fresh
  refine ⟨by rw [ids, ref, number, h.issued], fun o' ho' => ?_, fun i absent => ?_⟩
  · rw [adds]
    rw [heap] at ho'
    rcases List.mem_append.mp ho' with old | last
    · have other : o'.id ≠ o.id := fun same => new (same ▸ List.mem_map_of_mem old)
      rw [Function.update_of_ne other]
      exact h.objects o' old
    · obtain rfl := List.mem_singleton.mp last
      rw [Function.update_self, h.absent _ new, unlinked]
      exact ⟨rfl, .singleton _, unnoted⟩
  · rw [ids, List.mem_append, not_or] at absent
    rw [adds, Function.update_of_ne (by simpa using absent.2)]
    exact h.absent i absent.1

/-- An object is replaced. -/
theorem replace {f : HeapObject → HeapObject} {o : HeapObject} {payloads : List Value}
    {own : List String} (h : s.Recorded links) (ho : o ∈ s.store.state.heap)
    (same : ∀ o, (f o).id = o.id)
    (heap : t.store.state.heap = modifyFirst (·.id == o.id) f s.store.state.heap)
    (ref : t.store.counters.ref = s.store.counters.ref)
    (past : payloadsOf t.trace = Function.update (payloadsOf s.trace) o.id payloads)
    (here : (f o).Recorded payloads own) : t.Recorded (Function.update links o.id own) := by
  have ids : t.store.heapIds = s.store.heapIds := by
    rw [Store.heapIds, heap]
    exact map_modifyFirst same _
  refine ⟨by rw [ids, ref, h.numbered], fun o' ho' => ?_, fun i absent => ?_⟩
  · have replaced := heap.trans (modifyFirst_eq_map h.nodup o.id f)
    rw [replaced] at ho'
    obtain ⟨p, hp, rfl⟩ := List.mem_map.mp ho'
    rw [past]
    split
    · rename_i this
      obtain rfl := h.only hp ho this
      rw [same, Function.update_self, Function.update_self]
      exact here
    · rename_i other
      rw [Function.update_of_ne other, Function.update_of_ne other]
      exact h.objects p hp
  · rw [ids] at absent
    have other : i ≠ o.id := by
      rintro rfl
      exact absent (List.mem_map_of_mem ho)
    rw [past, Function.update_of_ne other]
    exact h.absent i absent

/-- One more link is noted of an object, and no payload changes. -/
theorem link (h : s.Recorded links) (id child : String) :
    (s.publish (s.store.addReference id child)).Recorded
        (Function.update links id (links id ++ [child])) ∧
      payloadsOf (s.publish (s.store.addReference id child)).trace = payloadsOf s.trace := by
  unfold Store.addReference
  split
  · rename_i missing
    refine ⟨h.relabel fun o ho => ?_, rfl⟩
    have other : o.id ≠ id := by simpa using List.find?_eq_none.mp missing o ho
    rw [Function.update_of_ne other]
  · rename_i object found
    have ho : object ∈ s.store.state.heap := List.mem_of_find?_eq_some found
    obtain rfl : object.id = id := by simpa using List.find?_some found
    obtain ⟨latest, changes, references⟩ := h.objects object ho
    have known : child ∈ object.references ↔ child ∈ links object.id := by
      rw [references, mem_distinctNames]
    split
    · -- what is noted already is not noted again
      rename_i contained
      refine ⟨h.relabel fun o ho' => ?_, rfl⟩
      by_cases same : o.id = object.id
      · have there := known.mp (by simpa using contained)
        rw [same, Function.update_self, distinctNames_concat, if_pos there]
      · rw [Function.update_of_ne same]
    · rename_i new
      have new : child ∉ links object.id := fun there => new (by simpa using known.mpr there)
      let noting (o : HeapObject) : HeapObject := { o with references := o.references ++ [child] }
      refine ⟨h.replace (f := noting) ho (fun _ => rfl) ?_ ?_ ?_ ⟨latest, changes, ?_⟩,
        payloads_publish rfl⟩
      · rw [publish_store]
        rfl
      · rw [publish_store]
        rfl
      · rw [payloads_publish rfl, Function.update_eq_self]
      · show object.references ++ [child] = _
        rw [distinctNames_concat, if_neg new, references]

end Recorded

namespace Chronicled

/-- Nothing happens to the heap. -/
theorem spared (h : s.Chronicled) (spared : s.Spared t) : t.Chronicled := by
  have same : t.mentioned = s.mentioned := by
    funext id
    rw [mentioned, mentioned, spared.payloads]
  rw [Chronicled, same]
  exact Recorded.spared h spared

/-- A new object has one payload, and of it nothing is noted yet. -/
theorem allocate (h : s.Chronicled) (kind : String) (payload : Value) (now : Double) :
    (s.publish (s.store.allocate kind payload now)).Recorded s.mentioned ∧
      s.Adds (s.publish (s.store.allocate kind payload now))
        (s.store.allocate kind payload now).value payload := by
  let o : HeapObject :=
    { id := Store.refId (s.store.counters.ref + 1), kind, payload, references := []
      createdAt := now }
  have adds : s.Adds (s.publish (s.store.allocate kind payload now)) o.id payload :=
    adds_publish (o := o) (.inl rfl) rfl
  refine ⟨Recorded.add (o := o) h ?_ ?_ rfl adds ?_ rfl, adds⟩
  · rw [publish_store]
    rfl
  · rw [publish_store]
    rfl
  · rw [mentioned, h.absent _ h.fresh]
    rfl

/-- The payload of an object is replaced by one that follows it, and of that nothing is
noted yet. -/
theorem update {o : HeapObject} {c : Change Unit} (h : s.Chronicled)
    (ho : o ∈ s.store.state.heap) (follows : o.payload.Follows payload)
    (hc : s.store.updateHeapValue o.id payload = .ok c) :
    (s.publish c).Recorded s.mentioned ∧ s.Adds (s.publish c) o.id payload := by
  obtain ⟨latest, changes, references⟩ := h.objects o ho
  have follows : (payloadsOf s.trace o.id ++ [payload]).IsChain Value.Follows := by
    refine changes.append (.singleton _) fun x hx y hy => ?_
    rw [latest] at hx
    cases hx
    cases hy
    exact follows
  let paying (o : HeapObject) : HeapObject := { o with payload }
  unfold Store.updateHeapValue at hc
  split at hc
  · cases hc
  · rename_i object found
    obtain rfl : object = o :=
      h.only (List.mem_of_find?_eq_some found) ho (by simpa using List.find?_some found)
    have changed := Except.ok.inj hc
    have adds : s.Adds (s.publish c) object.id payload :=
      adds_publish (o := paying object) (.inr rfl) (by rw [← changed])
    refine ⟨?_, adds⟩
    rw [← Function.update_eq_self object.id s.mentioned]
    have latest : (payloadsOf s.trace object.id ++ [payload]).getLast? = some payload := by simp
    refine h.replace (f := paying) ho (fun _ => rfl) ?_ ?_ adds ⟨latest, follows, references⟩
    · rw [publish_store, ← changed]
      rfl
    · rw [publish_store, ← changed]
      rfl

end Chronicled

/-- From `s` to `t` the chronicle goes on. -/
def Chronicles (s t : Session) : Prop := s.Chronicled → t.Chronicled

instance : IsPreorder Session Chronicles where
  refl _ h := h
  trans _ _ _ first second h := second (first h)

end Session

namespace Act

open Session (Chronicles)

variable {s t : Session} {links : String → List String} {id : String} {payload : Value}
  {E : Fault → Session → Prop}

theorem ends_links {refs : List String} (h : s.Recorded links) :
    Ends (refs.forM fun child => change plain fun s _ => s.addReference id child) s
      (fun _ t => t.Recorded (Function.update links id (links id ++ refs)) ∧
        payloadsOf t.trace = payloadsOf s.trace) E := by
  induction refs generalizing s links with
  | nil =>
      rw [List.append_nil, Function.update_eq_self]
      exact ⟨h, rfl⟩
  | cons child refs ih =>
      rw [List.forM_eq_forM, List.forM_cons, ends_bind, ends_change]
      obtain ⟨linked, same⟩ := h.link id child
      refine (ih linked).mono ?_ fun _ _ ends => ends
      rintro _ t ⟨recorded, past⟩
      refine ⟨?_, past.trans same⟩
      simpa using recorded

/-- What an object refers to now is noted, after all that it has referred to. -/
theorem ends_settle (h : t.Recorded s.mentioned) (adds : s.Adds t id payload) :
    Ends (payload.refs.forM fun child => change plain fun s _ => s.addReference id child) t
      (fun _ u => u.Chronicled) E := by
  refine (ends_links h).mono ?_ fun _ _ ends => ends
  rintro _ u ⟨recorded, past⟩
  have same : u.mentioned = t.mentioned := by
    funext i
    rw [Session.mentioned, Session.mentioned, past]
  rw [Session.Chronicled, same, adds.mentioned]
  exact recorded

theorem ends_chronicles {α : Type} {act : Act α}
    (keeps : s.Chronicled → Ends act s (fun _ t => t.Chronicled) (fun _ t => t.Chronicled)) :
    Ends act s (fun _ t => Chronicles s t) (fun _ t => Chronicles s t) := by
  by_cases h : s.Chronicled
  · exact (keeps h).mono (fun _ _ after _ => after) fun _ _ after _ => after
  · exact (Ends.of_self act s).mono (fun _ _ _ before => absurd before h)
      fun _ _ _ before => absurd before h

/-- An array is pushed to or popped, and what it refers to then is noted. -/
theorem chronicles_changeArray {items : List Value} (method : String) (args : List Value)
    (found : s.store.heapLookup? id = some ⟨"array", .list items⟩) :
    Ends (changeArray plain id items method args) s (fun _ t => Chronicles s t)
      (fun _ t => Chronicles s t) := by
  refine ends_chronicles fun h => ?_
  obtain ⟨o, here, entry⟩ := Option.map_eq_some_iff.mp found
  have ho : o ∈ s.store.state.heap := List.mem_of_find?_eq_some here
  obtain rfl : o.id = id := by simpa using List.find?_some here
  have present : o.payload = .list items := congrArg HeapEntry.payload entry
  have changes {items' : List Value} (result : Value)
      (follows : (Value.list items).Follows (.list items')) :
      Ends (do
        change? plain fun s => s.updateHeapValue o.id (.list items')
        (Value.list items').refs.forM fun child => change plain fun s _ => s.addReference o.id child
        return result) s (fun _ t => t.Chronicled) (fun _ t => t.Chronicled) := by
    rw [ends_bind, ends_change?]
    cases hc : s.store.updateHeapValue o.id (.list items') with
    | error fault => exact h
    | ok c =>
        obtain ⟨recorded, adds⟩ := h.update ho (present ▸ follows) hc
        dsimp only
        rw [ends_bind]
        exact (ends_settle recorded adds).mono (fun _ _ ends => ends) fun _ _ ends => ends
  unfold changeArray
  dsimp only
  split
  · exact changes _ (.push items args)
  · exact changes _ (.pop items)

/-- The few things that code does to the heap keep its chronicle. -/
theorem handles_chronicles : Handles Chronicles where
  spared spared h := h.spared spared
  place kind payload nothing s := by
    refine ends_chronicles fun h => ?_
    rw [ends_change]
    obtain ⟨recorded, adds⟩ := h.allocate kind payload s.now
    rw [Session.Chronicled, adds.mentioned, nothing, List.append_nil, Function.update_eq_self]
    exact recorded
  allocate kind payload s := by
    refine ends_chronicles fun h => ?_
    obtain ⟨recorded, adds⟩ := h.allocate kind payload s.now
    unfold allocate
    rw [ends_bind, ends_change, ends_bind]
    exact (ends_settle recorded adds).mono (fun _ _ ends => ends) fun _ _ ends => ends
  changeArray := chronicles_changeArray

end Act

/-! ## Every session of a program -/

theorem Session.begun_chronicled (s : Session) (program : List Instruction) :
    (s.begun program).Chronicled where
  numbered := rfl
  objects o ho := absurd ho List.not_mem_nil
  absent _ _ := by
    rw [begun_trace]
    rfl

theorem Reached.chronicled {why : Option Fault} {s : Session} (h : Reached why s) :
    s.Chronicled := by
  induction h with
  | load _ unit run =>
      obtain ⟨-, rfl⟩ := Act.init_eq unit run
      exact Session.begun_chronicled _ _
  | drive before d ih => exact Act.handles_chronicles.drive before.standing d ih

/-- What is noted of an object is out of date only where something was popped.  In every
session that a program can come to between two segments, take an object on the heap and
the payloads that it had.  The last of them is its own; each came from the one before by
a push or a pop; and what is noted of the object is all that any of them referred to, each
reference once, in the order in which they came up.  So an identity that is noted occurs
in the object, or else the last item that named it was popped and it never came back. -/
theorem references_are_remembered {why : Option Fault} {s : Session} (h : Reached why s) :
    ∀ o ∈ s.store.state.heap,
      (payloadsOf s.trace o.id).getLast? = some o.payload ∧
      (payloadsOf s.trace o.id).IsChain Value.Follows ∧
      o.references = distinctNames ((payloadsOf s.trace o.id).flatMap Value.refs) ∧
      ∀ id, id ∈ o.references ↔ o.payload.Holds id ∨ Popped id (payloadsOf s.trace o.id) := by
  intro o ho
  obtain ⟨latest, changes, references⟩ := h.chronicled.objects o ho
  refine ⟨latest, changes, references, fun id => ?_⟩
  have built := (h.anchored.grounded.store.objects o ho).payload
  have noted : id ∈ o.references ↔ id ∈ (payloadsOf s.trace o.id).flatMap Value.refs := by
    rw [references, mem_distinctNames]
    rfl
  rw [noted]
  refine ⟨holds_or_popped changes latest built, ?_⟩
  rintro (held | popped)
  · exact List.mem_flatMap.mpr ⟨o.payload, List.mem_of_getLast? latest, held.mem_refs⟩
  · exact popped.mem_refs

/-- Two arrays that name an object, one of them twice; then each is popped once. -/
def Session.popping : Session :=
  .running ("let b = \x7b\x7d;\nlet a = [b, b];\na.pop();\n" ++ "let c = [b];\nc.pop();") {} 6

/-- The first array names the object still; the second is empty, and what is noted of it
was popped. -/
theorem popped_array_remembers :
    Session.popping.store.state.heap.map (fun o => (o.id, o.references, o.payload.refs)) =
      [("ref_1", [], []), ("ref_2", ["ref_1"], ["ref_1"]), ("ref_3", ["ref_1"], [])] ∧
    Popped "ref_1" (payloadsOf Session.popping.trace "ref_3") := by
  obtain ⟨loads, heap⟩ :
      (Session.loading ("let b = \x7b\x7d;\nlet a = [b, b];\na.pop();\n" ++
        "let c = [b];\nc.pop();") {}).1 = .ok (.bool true) ∧
      Session.popping.store.state.heap.map (fun o => (o.id, o.references, o.payload.refs)) =
        [("ref_1", [], []), ("ref_2", ["ref_1"], ["ref_1"]), ("ref_3", ["ref_1"], [])] := by
    decide +kernel
  obtain ⟨why, reached⟩ : Session.popping.Live := Session.running_live 6 loads
  have last : ("ref_3", ["ref_1"], []) ∈
      Session.popping.store.state.heap.map fun o => (o.id, o.references, o.payload.refs) := by
    rw [heap]
    simp
  obtain ⟨o, ho, told⟩ := List.mem_map.mp last
  simp only [Prod.mk.injEq] at told
  obtain ⟨id, references, empty⟩ := told
  obtain ⟨-, -, -, noted⟩ := references_are_remembered reached o ho
  rw [id, references] at noted
  refine ⟨heap, ((noted "ref_1").mp List.mem_cons_self).resolve_left fun held => ?_⟩
  have there := held.mem_refs
  rw [empty] at there
  cases there

end Runloop
