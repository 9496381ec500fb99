/-
# Identities of a store

A store names its frames, heap objects, scopes and tasks by numbers of their
kind.  `Register` is a store together with the identities that it has handed
out since its last reset, and `Register.Sound` says how the two belong
together: what was handed out are the first numbers of each kind in order, what
is there was handed out and is there once, and of the frames just the top one
is active.

Any operation keeps this, a refused one too (`Register.Sound.perform`), as long
as a scope that is opened again is one that was handed out.  An operation does
one of four things to the identities: it keeps or drops some (`Sound.keep`),
hands out the next one of a kind (`Sound.issue`), puts back a scope
(`Sound.restore`) or starts anew.
-/
import Mathlib.Data.List.Perm.Subperm
import Runloop.Proofs.Ledger
import Runloop.Store.Operation

namespace Runloop

/-! ## Kinds of identities -/

/-- What a store names. -/
inductive IdKind where
  | frame
  | object
  | scope
  | task
deriving DecidableEq, Repr

/-- The identity with a number. -/
def IdKind.id : IdKind → Nat → String
  | frame => Store.frameId
  | object => Store.refId
  | scope => Store.scopeId
  | task => Store.taskId

theorem IdKind.id_injective (k : IdKind) : Function.Injective k.id := by
  intro m n same
  cases k with
  | frame => exact numbered_inj same
  | object => exact numbered_inj same
  | scope => exact numbered_inj same
  | task => exact numbered_inj same

/-- The first identities of a kind. -/
def IdKind.first (k : IdKind) (n : Nat) : List String := (List.range n).map fun i => k.id (i + 1)

theorem IdKind.first_succ (k : IdKind) (n : Nat) :
    k.first (n + 1) = k.first n ++ [k.id (n + 1)] := by
  simp [first, List.range_succ]

theorem IdKind.nodup_first (k : IdKind) (n : Nat) : (k.first n).Nodup :=
  List.nodup_range.map fun _ _ same => Nat.succ.inj (k.id_injective same)

theorem IdKind.mem_first {k : IdKind} {n : Nat} {id : String} :
    id ∈ k.first n ↔ ∃ m, 1 ≤ m ∧ m ≤ n ∧ id = k.id m := by
  constructor
  · intro h
    obtain ⟨i, below, rfl⟩ := List.mem_map.1 h
    exact ⟨i + 1, by omega, List.mem_range.1 below, rfl⟩
  · rintro ⟨m, positive, bound, rfl⟩
    refine List.mem_map.2 ⟨m - 1, List.mem_range.2 (by omega), ?_⟩
    rw [Nat.sub_add_cancel positive]

/-- How many identities of a kind have been given out. -/
def Counters.issued (c : Counters) : IdKind → Nat
  | .frame => c.frame
  | .object => c.ref
  | .scope => c.scope
  | .task => c.task

/-- The identities of a kind that are in a state. -/
def State.ids (s : State) : IdKind → List String
  | .frame => s.callStack.map (·.id)
  | .object => s.heap.map (·.id)
  | .scope => s.scopes.map (·.id)
  | .task => s.loop.tasks.map (·.id)

/-- Whether of a stack just the top is active. -/
def OnlyTopActive (stack : List Frame) : Prop :=
  ∀ front top, stack = front ++ [top] → top.active = true ∧ ∀ f ∈ front, f.active = false

/-! ## Stores with what they handed out -/

/-- A store and the identities of each kind that it has handed out since its
last reset, in order. -/
structure Register where
  store : Store
  handed : IdKind → List String := fun _ => []

/-- The identity that an operation hands out with its answer. -/
def StoreOp.handsOut? (op : StoreOp) (s : Store) (now : Double) : Option (IdKind × String) :=
  match op with
  | pushFrame name kind this line => some (.frame, (s.pushFrame name kind this line).value.id)
  | allocate kind payload => some (.object, (s.allocate kind payload now).value)
  | createScope name kind parent => some (.scope, (s.createScope name kind parent now).value.id)
  | addTimer spec => some (.task, (s.addTimer spec now).value.id)
  | addMicrotask spec => some (.task, (s.addMicrotask spec now).value.id)
  | _ => none

namespace Register

/-- One more identity handed out. -/
def hand (handed : IdKind → List String) : Option (IdKind × String) → IdKind → List String
  | none, k => handed k
  | some (kind, id), k => if k = kind then handed k ++ [id] else handed k

/-- Applies an operation at a time.  A refused one does nothing, and a reset
forgets what was handed out. -/
def perform (r : Register) (op : StoreOp) (now : Double) : Register :=
  match op.apply r.store now with
  | .error _ => r
  | .ok change =>
    { store := change.store
      handed :=
        match op with
        | .reset => fun _ => []
        | _ => hand r.handed (op.handsOut? r.store now) }

/-- Applies operations one after the other, each at its time. -/
def performAll (r : Register) : List (StoreOp × Double) → Register
  | [] => r
  | (op, now) :: ops => (r.perform op now).performAll ops

/-- Whether a scope that an operation opens again was obtained since the last
reset. -/
def Admits (r : Register) : StoreOp → Prop
  | .restoreScope scope => scope.id ∈ r.handed .scope
  | _ => True

/-- Whether this is so for operations one after the other. -/
def AdmitsAll (r : Register) : List (StoreOp × Double) → Prop
  | [] => True
  | (op, now) :: ops => r.Admits op ∧ (r.perform op now).AdmitsAll ops

/-- A store agrees with what it handed out. -/
structure Sound (r : Register) : Prop where
  active : OnlyTopActive r.store.state.callStack
  handed : ∀ k, r.handed k = k.first (r.store.counters.issued k)
  known : ∀ k, r.store.state.ids k ⊆ r.handed k
  nodup : ∀ k, (r.store.state.ids k).Nodup
  ordered : (r.store.state.ids .object).Sublist (r.handed .object)

theorem sound_empty (speed : Int) : Sound { store := .empty speed } where
  active := fun front top same => by simp [Store.empty] at same
  handed := fun k => by cases k <;> rfl
  known := fun k => by cases k <;> exact List.nil_subset _
  nodup := fun k => by cases k <;> exact List.nodup_nil
  ordered := List.nil_sublist _

namespace Sound

variable {r : Register} {t : Store}

/-- The identity of a kind that comes next is not there. -/
theorem fresh (h : r.Sound) (k : IdKind) :
    k.id (r.store.counters.issued k + 1) ∉ r.store.state.ids k := by
  intro there
  have := h.known k there
  rw [h.handed, IdKind.mem_first] at this
  obtain ⟨m, _, bound, same⟩ := this
  have := k.id_injective same
  omega

/-- Nothing new: of each kind some identities stay, perhaps in another order,
but for the heap in the same one. -/
theorem keep (h : r.Sound) (counters : t.counters = r.store.counters)
    (active : OnlyTopActive t.state.callStack)
    (stay : ∀ k, (t.state.ids k).Subperm (r.store.state.ids k))
    (order : (t.state.ids .object).Sublist (r.store.state.ids .object)) :
    Sound { r with store := t } where
  active := active
  handed := fun k => counters ▸ h.handed k
  known := fun k _ there => h.known k ((stay k).subset there)
  nodup := fun k => by
    obtain ⟨l, same, part⟩ := stay k
    exact same.nodup_iff.1 ((h.nodup k).sublist part)
  ordered := order.trans h.ordered

/-- Nothing new where the state stays but for one part, of which some
identities stay in their order. -/
theorem keep_sublist (h : r.Sound) (counters : t.counters = r.store.counters)
    (active : OnlyTopActive t.state.callStack)
    (stay : ∀ k, (t.state.ids k).Sublist (r.store.state.ids k)) : Sound { r with store := t } :=
  h.keep counters active (fun k => (stay k).subperm) (stay .object)

/-- The next identity of one kind: it comes after all that are there, or among
the tasks at the end of its queue. -/
theorem issue (h : r.Sound) (kind : IdKind)
    (counters : ∀ k, t.counters.issued k =
      if k = kind then r.store.counters.issued k + 1 else r.store.counters.issued k)
    (active : OnlyTopActive t.state.callStack)
    (others : ∀ k, k ≠ kind → t.state.ids k = r.store.state.ids k)
    (new : (t.state.ids kind).Perm
      (r.store.state.ids kind ++ [kind.id (r.store.counters.issued kind + 1)]))
    (order : kind = .object → t.state.ids kind =
      r.store.state.ids kind ++ [kind.id (r.store.counters.issued kind + 1)]) :
    Sound
      { store := t
        handed := hand r.handed (some (kind, kind.id (r.store.counters.issued kind + 1))) } where
  active := active
  handed := fun k => by
    by_cases hk : k = kind
    · subst hk
      simp only [hand, if_true, counters, h.handed, IdKind.first_succ]
    · simp only [hand, hk, if_false, counters, h.handed]
  known := fun k id there => by
    by_cases hk : k = kind
    · subst hk
      simp only [hand, if_true]
      rcases List.mem_append.1 (new.subset there) with there | last
      · exact List.mem_append_left _ (h.known k there)
      · exact List.mem_append_right _ last
    · simp only [hand, hk, if_false]
      exact h.known k (others k hk ▸ there)
  nodup := fun k => by
    by_cases hk : k = kind
    · subst hk
      refine new.nodup_iff.2 (List.nodup_append.2 ⟨h.nodup k, List.nodup_singleton _, ?_⟩)
      rintro id there _ last rfl
      exact h.fresh k (List.mem_singleton.1 last ▸ there)
    · exact others k hk ▸ h.nodup k
  ordered := by
    by_cases hk : IdKind.object = kind
    · subst hk
      rw [order rfl]
      simp only [hand, if_true]
      exact h.ordered.append_right _
    · simp only [hand, hk, if_false]
      exact others _ hk ▸ h.ordered

/-- The next identity of one kind, after all that are there. -/
theorem issue_last (h : r.Sound) (kind : IdKind)
    (counters : ∀ k, t.counters.issued k =
      if k = kind then r.store.counters.issued k + 1 else r.store.counters.issued k)
    (active : OnlyTopActive t.state.callStack)
    (others : ∀ k, k ≠ kind → t.state.ids k = r.store.state.ids k)
    (new : t.state.ids kind =
      r.store.state.ids kind ++ [kind.id (r.store.counters.issued kind + 1)]) :
    Sound
      { store := t
        handed := hand r.handed (some (kind, kind.id (r.store.counters.issued kind + 1))) } :=
  h.issue kind counters active others (.of_eq new) fun _ => new

/-- A scope that was handed out is opened again; if it is open, nothing happens. -/
theorem restore (h : r.Sound) {scope : Scope} (obtained : scope.id ∈ r.handed .scope) :
    Sound { r with store := (r.store.restoreScope scope).store } := by
  unfold Store.restoreScope
  split
  · exact h
  · rename_i closed
    have absent : scope.id ∉ r.store.state.scopes.map (·.id) := by
      intro there
      obtain ⟨c, hc, same⟩ := List.mem_map.1 there
      exact closed (List.any_eq_true.2 ⟨c, hc, by simpa using same⟩)
    have scopes : (r.store.setScopes (r.store.state.scopes ++ [scope])).state.ids .scope =
        r.store.state.ids .scope ++ [scope.id] := List.map_append
    refine ⟨h.active, h.handed, fun k => ?_, fun k => ?_, h.ordered⟩
    · cases k with
      | scope =>
        rw [scopes]
        exact List.append_subset.2 ⟨h.known .scope, by simpa using obtained⟩
      | frame => exact h.known .frame
      | object => exact h.known .object
      | task => exact h.known .task
    · cases k with
      | scope =>
        rw [scopes]
        refine List.nodup_append.2 ⟨h.nodup .scope, List.nodup_singleton _, ?_⟩
        rintro id there _ last rfl
        exact absent (List.mem_singleton.1 last ▸ there)
      | frame => exact h.nodup .frame
      | object => exact h.nodup .object
      | task => exact h.nodup .task

end Sound

end Register

/-! ## Stacks and lists under the operations -/

namespace OnlyTopActive

variable {stack : List Frame}

theorem nil : OnlyTopActive [] := fun front top same => by simp at same

theorem concat {front : List Frame} {top : Frame} (active : top.active = true)
    (rest : ∀ f ∈ front, f.active = false) : OnlyTopActive (front ++ [top]) := by
  intro front' top' same
  obtain ⟨rfl, rfl⟩ := List.append_singleton_inj.1 same
  exact ⟨active, rest⟩

/-- Whatever is shown in the top frame makes no difference. -/
theorem modifyLast (h : OnlyTopActive stack) {g : Frame → Frame}
    (same : ∀ f, (g f).active = f.active) : OnlyTopActive (Runloop.modifyLast g stack) := by
  rcases List.eq_nil_or_concat' stack with rfl | ⟨front, top, rfl⟩
  · exact nil
  · obtain ⟨active, rest⟩ := h front top rfl
    rw [modifyLast_concat]
    exact concat (same top ▸ active) rest

/-- The frame that was on top is active no more once there is one on it. -/
theorem push (h : OnlyTopActive stack) {frame : Frame} (active : frame.active = true) :
    OnlyTopActive (Runloop.modifyLast (fun f => { f with active := false }) stack ++ [frame]) := by
  refine concat active ?_
  rcases List.eq_nil_or_concat' stack with rfl | ⟨front, top, rfl⟩
  · simp [Runloop.modifyLast]
  · rw [modifyLast_concat]
    intro f there
    rcases List.mem_append.1 there with there | there
    · exact (h front top rfl).2 f there
    · rw [List.mem_singleton.1 there]

/-- The frame below becomes the active one. -/
theorem pop (h : OnlyTopActive stack) :
    OnlyTopActive (Runloop.modifyLast (fun f => { f with active := true }) stack.dropLast) := by
  rcases List.eq_nil_or_concat' stack with rfl | ⟨rest, top, rfl⟩
  · exact nil
  · rw [List.dropLast_concat]
    rcases List.eq_nil_or_concat' rest with rfl | ⟨front, next, rfl⟩
    · exact nil
    · rw [modifyLast_concat]
      exact concat rfl fun f there =>
        (h _ top rfl).2 f (List.mem_append_left _ there)

end OnlyTopActive

theorem map_modifyLast {α : Type} {f : α → String} {g : α → α} (same : ∀ a, f (g a) = f a)
    (l : List α) : (modifyLast g l).map f = l.map f := by
  rcases List.eq_nil_or_concat' l with rfl | ⟨front, top, rfl⟩
  · rfl
  · rw [modifyLast_concat, List.map_append, List.map_append, List.map_singleton,
      List.map_singleton, same]

/-- The timer that is due changes its queue. -/
theorem EventLoop.perm_tasks_move (l : EventLoop) {id : String} {task : Task}
    (found : l.timers.find? (·.id == id) = some task) :
    ({ l with timers := l.timers.eraseP (·.id == id), callbacks := l.callbacks ++ [task] } :
      EventLoop).tasks.Perm l.tasks := by
  simp only [tasks, List.append_assoc]
  refine List.Perm.trans ?_ ((perm_cons_eraseP found).append_right _)
  rw [List.cons_append, ← List.append_assoc]
  exact List.perm_middle.trans (by simp)

namespace Register.Sound

variable {r : Register}

/-- What the frames show and who is active makes no difference to identities. -/
theorem restack (h : r.Sound) {stack : List Frame} (active : OnlyTopActive stack)
    (stay : (stack.map (·.id)).Sublist (r.store.state.callStack.map (·.id))) :
    Sound { r with store := r.store.setStack stack } :=
  h.keep_sublist rfl active fun k => by
    cases k with
    | frame => exact stay
    | object => exact List.Sublist.refl _
    | scope => exact List.Sublist.refl _
    | task => exact List.Sublist.refl _

theorem reheap (h : r.Sound) {heap : List HeapObject}
    (stay : (heap.map (·.id)).Sublist (r.store.state.heap.map (·.id))) :
    Sound { r with store := r.store.setHeap heap } :=
  h.keep_sublist rfl h.active fun k => by
    cases k with
    | object => exact stay
    | frame => exact List.Sublist.refl _
    | scope => exact List.Sublist.refl _
    | task => exact List.Sublist.refl _

theorem rescope (h : r.Sound) {scopes : List Scope}
    (stay : (scopes.map (·.id)).Sublist (r.store.state.scopes.map (·.id))) :
    Sound { r with store := r.store.setScopes scopes } :=
  h.keep_sublist rfl h.active fun k => by
    cases k with
    | scope => exact stay
    | frame => exact List.Sublist.refl _
    | object => exact List.Sublist.refl _
    | task => exact List.Sublist.refl _

theorem requeue (h : r.Sound) {loop : EventLoop}
    (stay : loop.tasks.Subperm r.store.state.loop.tasks) :
    Sound { r with store := r.store.setLoop loop } := by
  refine h.keep rfl h.active (fun k => ?_) (List.Sublist.refl _)
  cases k with
  | task =>
    obtain ⟨l, same, part⟩ := stay
    exact ⟨l.map (·.id), same.map _, part.map _⟩
  | frame => exact List.Subperm.refl _
  | object => exact List.Subperm.refl _
  | scope => exact List.Subperm.refl _

theorem popFrame (h : r.Sound) {c : Change Frame} (done : r.store.popFrame = .ok c) :
    Sound { r with store := c.store } := by
  unfold Store.popFrame at done
  split at done
  · contradiction
  · cases done
    refine h.restack h.active.pop ?_
    rw [map_modifyLast]
    · exact (List.dropLast_sublist _).map _
    · exact fun _ => rfl

theorem updateFrameVariable (h : r.Sound) (name value kind : String) :
    Sound { r with store := (r.store.updateFrameVariable name value kind).store } := by
  unfold Store.updateFrameVariable
  split
  · exact h
  · refine h.restack (h.active.modifyLast fun _ => rfl) ?_
    rw [map_modifyLast]
    exact fun _ => rfl

theorem updateHeapValue (h : r.Sound) {id : String} {payload : Value} {c : Change Unit}
    (done : r.store.updateHeapValue id payload = .ok c) : Sound { r with store := c.store } := by
  unfold Store.updateHeapValue at done
  split at done
  · contradiction
  · cases done
    refine h.reheap ?_
    rw [map_modifyFirst]
    exact fun _ => rfl

theorem addReference (h : r.Sound) (fromId toId : String) :
    Sound { r with store := (r.store.addReference fromId toId).store } := by
  unfold Store.addReference
  split
  · exact h
  · split
    · exact h
    · refine h.reheap ?_
      rw [map_modifyFirst]
      exact fun _ => rfl

theorem deallocate (h : r.Sound) (id : String) :
    Sound { r with store := (r.store.deallocate id).store } := by
  unfold Store.deallocate
  split
  · exact h
  · exact h.reheap (List.eraseP_sublist.map _)

theorem addScopeVariable (h : r.Sound) {id name : String} {binding : Binding} {c : Change Unit}
    (done : r.store.addScopeVariable id name binding = .ok c) :
    Sound { r with store := c.store } := by
  unfold Store.addScopeVariable at done
  split at done
  · contradiction
  · cases done
    refine h.rescope ?_
    rw [map_modifyFirst]
    exact fun _ => rfl

theorem updateScopeVariable (h : r.Sound) {id name : String} {value : Value}
    {kind : Option String} {c : Change Unit}
    (done : r.store.updateScopeVariable id name value kind = .ok c) :
    Sound { r with store := c.store } := by
  unfold Store.updateScopeVariable at done
  split at done
  · contradiction
  · split at done
    · contradiction
    · cases done
      refine h.rescope ?_
      rw [map_modifyFirst]
      exact fun _ => rfl

theorem destroyScope (h : r.Sound) {id : String} {c : Change Scope}
    (done : r.store.destroyScope id = .ok c) : Sound { r with store := c.store } := by
  unfold Store.destroyScope at done
  split at done
  · contradiction
  · cases done
    exact h.rescope (List.eraseP_sublist.map _)

theorem moveToCallbacks (h : r.Sound) (id : String) :
    Sound { r with store := (r.store.moveToCallbacks id).store } := by
  unfold Store.moveToCallbacks
  split
  · exact h
  · rename_i task found
    exact h.requeue (r.store.state.loop.perm_tasks_move found).subperm

theorem nextMicrotask (h : r.Sound) : Sound { r with store := r.store.nextMicrotask.store } := by
  unfold Store.nextMicrotask
  split
  · exact h
  · rename_i task rest queue
    refine h.requeue (List.Sublist.subperm ?_)
    rw [EventLoop.tasks, EventLoop.tasks, queue]
    exact (List.sublist_cons_self task rest).append_left _

theorem nextCallback (h : r.Sound) : Sound { r with store := r.store.nextCallback.store } := by
  unfold Store.nextCallback
  split
  · exact h
  · rename_i task rest queue
    refine h.requeue (List.Sublist.subperm ?_)
    rw [EventLoop.tasks, EventLoop.tasks, queue]
    exact ((List.sublist_cons_self task rest).append_left _).append_right _

theorem pushFrame (h : r.Sound) (name kind this : String) (line : Int) :
    Sound
      { store := (r.store.pushFrame name kind this line).store
        handed := hand r.handed (some (.frame, (r.store.pushFrame name kind this line).value.id)) } := by
  refine h.issue_last .frame (fun k => by cases k <;> rfl) (h.active.push rfl) ?_ ?_
  · intro k other
    cases k with
    | frame => exact absurd rfl other
    | object => rfl
    | scope => rfl
    | task => rfl
  · show List.map _ (_ ++ [_]) = _
    rw [List.map_append, map_modifyLast]
    · rfl
    · exact fun _ => rfl

theorem allocate (h : r.Sound) (kind : String) (payload : Value) (now : Double) :
    Sound
      { store := (r.store.allocate kind payload now).store
        handed := hand r.handed (some (.object, (r.store.allocate kind payload now).value)) } := by
  refine h.issue_last .object (fun k => by cases k <;> rfl) h.active ?_ List.map_append
  intro k other
  cases k with
  | object => exact absurd rfl other
  | frame => rfl
  | scope => rfl
  | task => rfl

theorem createScope (h : r.Sound) (name kind : String) (parent : Option String) (now : Double) :
    Sound
      { store := (r.store.createScope name kind parent now).store
        handed :=
          hand r.handed (some (.scope, (r.store.createScope name kind parent now).value.id)) } := by
  refine h.issue_last .scope (fun k => by cases k <;> rfl) h.active ?_ List.map_append
  intro k other
  cases k with
  | scope => exact absurd rfl other
  | frame => rfl
  | object => rfl
  | task => rfl

/-- A new task joins the queue of its kind. -/
theorem queue (h : r.Sound) {loop : EventLoop} {task : Task} {t : Store}
    (store : t = { r.store with
      state := { r.store.state with loop }
      counters := { r.store.counters with task := r.store.counters.task + 1 } })
    (id : task.id = Store.taskId (r.store.counters.task + 1))
    (joins : loop.tasks.Perm (r.store.state.loop.tasks ++ [task])) :
    Sound { store := t, handed := hand r.handed (some (.task, task.id)) } := by
  subst store
  rw [id]
  refine h.issue .task (fun k => by cases k <;> rfl) h.active ?_ ?_ (by simp)
  · intro k other
    cases k with
    | task => exact absurd rfl other
    | frame => rfl
    | object => rfl
    | scope => rfl
  · have := joins.map (·.id)
    rwa [List.map_append, List.map_singleton, id] at this

theorem addTimer (h : r.Sound) (spec : TaskSpec) (now : Double) :
    Sound
      { store := (r.store.addTimer spec now).store
        handed := hand r.handed (some (.task, (r.store.addTimer spec now).value.id)) } := by
  refine h.queue rfl rfl ?_
  simp only [EventLoop.tasks, List.append_assoc]
  refine List.Perm.append_left _ (List.perm_append_comm.trans ?_)
  rw [List.append_assoc]
  exact List.Perm.refl _

theorem addMicrotask (h : r.Sound) (spec : TaskSpec) (now : Double) :
    Sound
      { store := (r.store.addMicrotask spec now).store
        handed := hand r.handed (some (.task, (r.store.addMicrotask spec now).value.id)) } := by
  refine h.queue rfl rfl ?_
  simp only [EventLoop.tasks, List.append_assoc]
  exact List.Perm.refl _

/-- Any operation keeps what was handed out and what is there in agreement. -/
theorem perform (h : r.Sound) {op : StoreOp} (admitted : r.Admits op) (now : Double) :
    (r.perform op now).Sound := by
  -- The operations that can be refused hand nothing out.
  have refusable {α : Type} {f : α → Datum} (answer : Except StoreFault (Change α))
      (same : r.perform op now =
        match answer.map (StoreOp.answering f) with
        | .error _ => r
        | .ok c => { r with store := c.store })
      (done : ∀ c, answer = .ok c → Sound { r with store := c.store }) :
      (r.perform op now).Sound := by
    rw [same]
    cases answer with
    | error => exact h
    | ok c => exact done c rfl
  cases op with
  | popFrame => exact refusable _ rfl fun _ => h.popFrame
  | updateHeapValue id payload => exact refusable _ rfl fun _ => h.updateHeapValue
  | addScopeVariable scope name binding =>
    exact refusable _ rfl fun _ => h.addScopeVariable
  | updateScopeVariable scope name value kind =>
    exact refusable _ rfl fun _ => h.updateScopeVariable
  | destroyScope scope => exact refusable _ rfl fun _ => h.destroyScope
  | updateFrameVariable name value kind => exact h.updateFrameVariable name value kind
  | addReference fromId toId => exact h.addReference fromId toId
  | deallocate id => exact h.deallocate id
  | restoreScope scope => exact h.restore admitted
  | moveToCallbacks id => exact h.moveToCallbacks id
  | nextMicrotask => exact h.nextMicrotask
  | nextCallback => exact h.nextCallback
  | pushFrame name kind this line => exact h.pushFrame name kind this line
  | allocate kind payload => exact h.allocate kind payload now
  | createScope name kind parent => exact h.createScope name kind parent now
  | addTimer spec => exact h.addTimer spec now
  | addMicrotask spec => exact h.addMicrotask spec now
  | setCurrentLine line => exact ⟨h.active, h.handed, h.known, h.nodup, h.ordered⟩
  | incrementStep => exact ⟨h.active, h.handed, h.known, h.nodup, h.ordered⟩
  | setExecution isRunning isPaused => exact ⟨h.active, h.handed, h.known, h.nodup, h.ordered⟩
  | setSpeed speed => exact ⟨h.active, h.handed, h.known, h.nodup, h.ordered⟩
  | logConsole type args => exact h
  | trackTimer handle => exact ⟨h.active, h.handed, h.known, h.nodup, h.ordered⟩
  | reset => exact sound_empty _

theorem performAll {ops : List (StoreOp × Double)} (h : r.Sound) (admitted : r.AdmitsAll ops) :
    (r.performAll ops).Sound := by
  induction ops generalizing r with
  | nil => exact h
  | cons first ops ih => exact ih (h.perform admitted.1 first.2) admitted.2

end Register.Sound

/-- After any operations on a new store, of which those that open a scope again
are given one that was obtained since the last reset: just the top frame is
active; the identities of a kind that are there differ and have numbers up to
the counter of the kind; the heap is in the order of allocation; and no
identity of a kind has been handed out twice since the last reset. -/
theorem Register.identities_performAll (speed : Int) (ops : List (StoreOp × Double))
    (admitted : AdmitsAll { store := .empty speed } ops) :
    let r := performAll { store := .empty speed } ops
    OnlyTopActive r.store.state.callStack ∧
    (∀ k, (r.store.state.ids k).Nodup ∧ ∀ id ∈ r.store.state.ids k,
      id ∈ r.handed k ∧ ∃ n, 1 ≤ n ∧ n ≤ r.store.counters.issued k ∧ id = k.id n) ∧
    (r.store.state.ids .object).Sublist (r.handed .object) ∧
    ∀ k, (r.handed k).Nodup := by
  intro r
  have h : r.Sound := (sound_empty speed).performAll admitted
  refine ⟨h.active, fun k => ⟨h.nodup k, fun id there => ?_⟩, h.ordered, fun k => ?_⟩
  · have given := h.known k there
    exact ⟨given, IdKind.mem_first.1 (h.handed k ▸ given)⟩
  · rw [h.handed]
    exact k.nodup_first _

/-- A scope is closed, another opened, and the first opened again behind it; the
second deallocation finds nothing and the last pop is refused. -/
theorem Register.identities_performAll_reopened :
    let scope : Scope := ⟨"scope_1", "f", "function", none, [], .ofInt 0⟩
    let ops : List (StoreOp × Double) :=
      [.createScope "f" "function" none, .allocate "array" .null, .allocate "array" .null,
        .deallocate "ref_1", .deallocate "ref_1", .allocate "object" .null,
        .destroyScope "scope_1", .createScope "g" "function" none, .restoreScope scope,
        .popFrame].map (·, .ofInt 0)
    let r := performAll { store := .empty 100 } ops
    (r.store.state.ids .object = ["ref_2", "ref_3"] ∧
      r.store.state.ids .scope = ["scope_2", "scope_1"]) ∧
    OnlyTopActive r.store.state.callStack ∧
    (∀ k, (r.store.state.ids k).Nodup ∧ ∀ id ∈ r.store.state.ids k,
      id ∈ r.handed k ∧ ∃ n, 1 ≤ n ∧ n ≤ r.store.counters.issued k ∧ id = k.id n) ∧
    (r.store.state.ids .object).Sublist (r.handed .object) ∧
    ∀ k, (r.handed k).Nodup :=
  ⟨by decide +kernel, identities_performAll 100 _ (by
    refine ⟨trivial, trivial, trivial, trivial, trivial, trivial, trivial, trivial, ?_, trivial,
      trivial⟩
    show "scope_1" ∈ _
    decide +kernel)⟩

end Runloop
