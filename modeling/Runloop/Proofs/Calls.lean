/-
# Opening and closing calls

A call opens the closed scopes around its function again, a scope of its own
inside them and a frame; leaving it closes all of these.  Here both are written
as plain functions on sessions (`Session.entered`, `Session.left`), and
`Moves` collects everything that happens between two pauses of a machine, seen
with the calls that are open: deeds in the scope of the innermost call, and
calls that are entered and left.

A call can fail between its scope and its frame, when its receiver cannot be
shown.  Then the scopes stay behind without a call (`spilt`), and all that still
happens is that the open calls are left.
-/
import Mathlib.Logic.Relation
import Runloop.Proofs.Deed

namespace Runloop

open Relation (ReflTransGen)

namespace Session

/-- The closed scopes around a scope that have to be opened again, outermost
first. -/
def reopened (s : Session) (closure : Option String) : List Scope :=
  (Act.closedChain s.store.scopeIds s.machine.detached s.machine.detached.length closure).reverse

/-- The session with scopes opened again. -/
def restored (s : Session) (scopes : List Scope) : Session :=
  scopes.foldl (fun s c => s.publish (s.store.restoreScope c)) s

/-- The session with a new scope inside the scope `id`, the closed ones around
it opened again. -/
def opening (s : Session) (id name : String) : Session :=
  let s := s.restored (s.reopened (some id))
  s.publish (s.store.createScope name "function" (some id) s.now)

/-- The session inside a new call of a function that closes over `id`. -/
def entered (s : Session) (id name thisBinding : String) (line : Int) (receiver : Value) :
    Session :=
  let s := s.opening id name
  let s := s.publish (s.store.pushFrame name "function" thisBinding line)
  { s with
    machine :=
      { s.machine with
        depth := s.machine.depth + 1, receivers := s.machine.receivers ++ [receiver] } }

/-- The call that is entered next. -/
def nextCall (s : Session) (id : String) (line : Int) : Call :=
  { scope := Store.scopeId (s.store.counters.scope + 1)
    restored := idsOf (s.reopened (some id)), generation := s.machine.generation, line }

/-- The scopes that stay open of a call that is not entered although the limit on the depth
allows it, since its receiver cannot be shown: those that were opened again for it, and its
own. -/
def leftBehind (s : Session) (closure : Option String) (receiver : Option Value) : List String :=
  match receiver.map (Value.display s.store.heapView) with
  | some (.error _) =>
    if s.machine.depth < s.machine.limits.callDepth then
      idsOf (s.reopened closure) ++ [Store.scopeId (s.store.counters.scope + 1)]
    else []
  | _ => []

/-- The session with a scope closed, and kept in case it is closed over. -/
def shut (s : Session) (id : String) : Session :=
  match s.store.destroyScope id with
  | .error _ => s
  | .ok c =>
    let t := s.publish c
    { t with machine := { t.machine with detached := (id, c.value) :: t.machine.detached } }

/-- The session without its top frame. -/
def popped (s : Session) : Session :=
  let s :=
    { s with
      machine :=
        { s.machine with
          receivers := s.machine.receivers.dropLast, depth := s.machine.depth - 1 } }
  match s.store.popFrame with
  | .error _ => s
  | .ok c => s.publish c

end Session

/-- What leaving a call closes, innermost first. -/
def Call.closing (call : Call) : List String := call.scope :: call.restored.reverse

/-- The session after a call. -/
def Session.left (s : Session) (call : Call) : Session :=
  call.closing.foldl Session.shut s.popped

/-! ## What closing does -/

namespace Session

variable {s : Session} {id : String}

theorem scope?_of_mem (h : id ∈ s.store.scopeIds) : ∃ c, s.store.scope? id = some c := by
  obtain ⟨c, hc, rfl⟩ := List.mem_map.mp h
  cases hf : s.store.scope? c.id with
  | none => exact absurd (List.find?_eq_none.mp hf c hc) (by simp)
  | some d => exact ⟨d, rfl⟩

theorem idsOf_eraseP (l : List Scope) (id : String) :
    idsOf (l.eraseP (·.id == id)) = (idsOf l).erase id := by
  induction l with
  | nil => rfl
  | cons c l ih =>
      by_cases h : c.id = id
      · simp [h]
      · simp [h, ih]

/-- Closing a scope that is open: it leaves the open ones and is kept. -/
theorem shut_eq {c : Scope} (h : s.store.scope? id = some c) :
    s.shut id =
      { s.publish
          { store := s.store.setScopes (s.store.state.scopes.eraseP (·.id == id)), value := c
            events := [.scopes .destroy (some c) (s.store.state.scopes.eraseP (·.id == id)) none] }
        with machine := { s.machine with detached := (id, c) :: s.machine.detached } } := by
  unfold shut Store.destroyScope
  rw [h]
  simp only [publish_machine]

theorem scopeIds_shut : (s.shut id).store.scopeIds = s.store.scopeIds.erase id := by
  cases h : s.store.scope? id with
  | some c =>
      rw [shut_eq h]
      simp only [Store.scopeIds, publish_store]
      exact idsOf_eraseP _ _
  | none =>
      have out : id ∉ s.store.scopeIds := fun hm => by
        obtain ⟨c, hc⟩ := scope?_of_mem hm
        exact absurd (h.symm.trans hc) (by simp)
      unfold shut Store.destroyScope
      rw [h]
      exact (List.erase_of_not_mem out).symm

/-- Without its top frame a session keeps its scopes, heap and queues. -/
theorem popped_store :
    s.popped.store =
      s.store.setStack
        (modifyLast (fun f => { f with active := true }) s.store.state.callStack.dropLast) := by
  unfold popped Store.popFrame
  dsimp only
  cases h : s.store.state.callStack.getLast? with
  | none =>
      have empty := List.getLast?_eq_none_iff.mp h
      rw [empty]
      show s.store = s.store.setStack []
      rw [← empty]
      rfl
  | some top => simp only [publish_store]

theorem popped_machine :
    s.popped.machine =
      { s.machine with
        receivers := s.machine.receivers.dropLast, depth := s.machine.depth - 1 } := by
  unfold popped
  dsimp only
  split
  · rfl
  · rw [publish_machine]

theorem popped_hooks : s.popped.hooks = s.hooks := by
  unfold popped
  dsimp only
  split
  · rfl
  · rw [publish_hooks]

theorem popped_trace {top : Frame} (h : s.store.state.callStack.getLast? = some top) :
    s.popped.trace =
      s.trace ++
        [.callStack .pop (some { top with active := false }) s.popped.store.state.callStack] := by
  rw [popped_store]
  unfold popped Store.popFrame
  dsimp only
  rw [h]
  exact trace_publish (List.forall_mem_singleton.mpr rfl)

end Session

/-! ## Sessions that differ in their scopes only -/

/-- Whether an event tells that a variable was written. -/
def Event.isWrite : Event → Bool
  | .scopes _ _ _ (some _) => true
  | _ => false

/-- From `s` to `t` only scopes were opened and closed. -/
structure Rescoped (s t : Session) : Prop where
  machine : ∃ detached, t.machine = { s.machine with detached }
  hooks : t.hooks = s.hooks
  stack : t.store.state.callStack = s.store.state.callStack
  heap : t.store.state.heap = s.store.state.heap
  loop : t.store.state.loop = s.store.state.loop
  tasks : t.store.counters.task = s.store.counters.task
  trace : ∃ l, t.trace = s.trace ++ l ∧ ∀ e ∈ l, e.topic = .scopes ∧ e.isWrite = false

namespace Rescoped

variable {s t u : Session}

theorem refl (s : Session) : Rescoped s s :=
  ⟨⟨s.machine.detached, rfl⟩, rfl, rfl, rfl, rfl, rfl, [], (List.append_nil _).symm, by simp⟩

theorem trans (h : Rescoped s t) (h' : Rescoped t u) : Rescoped s u := by
  obtain ⟨d, hm⟩ := h.machine
  obtain ⟨d', hm'⟩ := h'.machine
  obtain ⟨l, ht, hl⟩ := h.trace
  obtain ⟨l', ht', hl'⟩ := h'.trace
  refine ⟨⟨d', by rw [hm', hm]⟩, h'.hooks.trans h.hooks, h'.stack.trans h.stack,
    h'.heap.trans h.heap, h'.loop.trans h.loop, h'.tasks.trans h.tasks, l ++ l',
    by rw [ht', ht, List.append_assoc], ?_⟩
  intro e he
  exact (List.mem_append.mp he).elim (hl e) (hl' e)

theorem foldl {α : Type} {f : Session → α → Session} (h : ∀ s a, Rescoped s (f s a))
    (l : List α) (s : Session) : Rescoped s (l.foldl f s) := by
  induction l generalizing s with
  | nil => exact refl s
  | cons a l ih => exact (h s a).trans (ih (f s a))

/-- A change of the scopes of a store, and of nothing else but their counter. -/
theorem publish {α : Type} {c : Change α}
    (hs : c.store.state = { s.store.state with scopes := c.store.state.scopes })
    (hn : c.store.counters.task = s.store.counters.task)
    (he : ∀ e ∈ c.events, e.topic = .scopes ∧ e.isWrite = false) : Rescoped s (s.publish c) where
  machine := ⟨s.machine.detached, by rw [Session.publish_machine]⟩
  hooks := Session.publish_hooks ..
  stack := by rw [Session.publish_store, hs]
  heap := by rw [Session.publish_store, hs]
  loop := by rw [Session.publish_store, hs]
  tasks := by rw [Session.publish_store, hn]
  trace := by
    refine ⟨c.events, Session.trace_publish fun e h => ?_, he⟩
    have := (he e h).1
    cases e <;> first | rfl | simp [Event.topic] at this

theorem restore (s : Session) (c : Scope) : Rescoped s (s.publish (s.store.restoreScope c)) := by
  refine publish ?_ ?_ ?_ <;> unfold Store.restoreScope <;> split
  · rfl
  · rfl
  · rfl
  · rfl
  · simp
  · simp [Event.topic, Event.isWrite]

theorem create (s : Session) (name kind : String) (parent : Option String) :
    Rescoped s (s.publish (s.store.createScope name kind parent s.now)) :=
  publish rfl rfl (by simp [Store.createScope, Event.topic, Event.isWrite])

theorem shut (s : Session) (id : String) : Rescoped s (s.shut id) := by
  cases h : s.store.scope? id with
  | none =>
      unfold Session.shut Store.destroyScope
      rw [h]
      exact refl s
  | some c =>
      have := publish (s := s) (α := Scope) (c :=
        { store := s.store.setScopes (s.store.state.scopes.eraseP (·.id == id)), value := c
          events := [.scopes .destroy (some c) (s.store.state.scopes.eraseP (·.id == id)) none] })
        rfl rfl (by simp [Event.topic, Event.isWrite])
      rw [Session.shut_eq h]
      exact ⟨⟨_, rfl⟩, this.hooks, this.stack, this.heap, this.loop, this.tasks, this.trace⟩

theorem restored (s : Session) (l : List Scope) : Rescoped s (s.restored l) :=
  foldl restore l s

theorem opening (s : Session) (id name : String) : Rescoped s (s.opening id name) :=
  (restored s _).trans (create _ ..)

end Rescoped

/-! ## Moves -/

/-- The scope in which the innermost of the open calls runs. -/
def innermost : List Call → String
  | [] => Store.scopeId 1
  | call :: _ => call.scope

/-- A session with its open calls, innermost first, and the scopes that a call
left behind without having been entered. -/
structure Setting where
  session : Session
  calls : List Call
  spilt : List String := []

/-- What happens between two pauses, but for the taking of tasks. -/
inductive Move : Setting → Setting → Prop
  | deed {s t : Session} {calls : List Call} : Deed (innermost calls) s t →
      Move ⟨s, calls, []⟩ ⟨t, calls, []⟩
  | enter {s : Session} {calls : List Call} {id : String} (name thisBinding : String)
      (line : Int) (receiver : Value) : id ∈ idsOf (everOpened s.trace) →
      s.machine.depth < s.machine.limits.callDepth →
      Move ⟨s, calls, []⟩
        ⟨s.entered id name thisBinding line receiver, s.nextCall id line :: calls, []⟩
  | leave {s : Session} {call : Call} {calls : List Call} {spilt : List String} :
      Move ⟨s, call :: calls, spilt⟩ ⟨s.left call, calls, spilt⟩
  | spill {s : Session} {calls : List Call} {id : String} (name : String) (line : Int) :
      id ∈ idsOf (everOpened s.trace) →
      Move ⟨s, calls, []⟩ ⟨s.opening id name, calls, (s.nextCall id line).closing.reverse⟩

abbrev Moves : Setting → Setting → Prop := ReflTransGen Move

/-! ## The machine does just this -/

namespace Act

variable {s : Session}

theorem closedChain_of_open {live : List String} {detached : List (String × Scope)}
    {fuel : Nat} {closure : Option String} (h : closure.all live.contains = true) :
    closedChain live detached fuel closure = [] := by
  cases closure with
  | none => cases fuel <;> rfl
  | some id => cases fuel <;> simp_all [closedChain]

theorem run_restore {host : Host} (quiet : host.tell = record) (scopes : List Scope) :
    (scopes.forM fun c => change host fun s _ => s.restoreScope c).run s =
      (.ok ⟨⟩, s.restored scopes) := by
  induction scopes generalizing s with
  | nil => rfl
  | cons c scopes ih =>
      rw [List.forM_eq_forM, List.forM_cons, run_bind, run_change quiet]
      exact ih

theorem run_reattach {host : Host} (quiet : host.tell = record) (closure : Option String) :
    (reattach host closure).run s =
      (.ok (idsOf (s.reopened closure)), s.restored (s.reopened closure)) := by
  unfold reattach
  rw [run_get_bind]
  dsimp only
  split
  · rename_i h
    unfold Session.reopened
    rw [closedChain_of_open h]
    rfl
  · rw [run_bind, run_restore quiet]
    rfl

theorem run_detach {host : Host} (quiet : host.tell = record) {id : String}
    (h : id ∈ s.store.scopeIds) : (detach host id).run s = (.ok ⟨⟩, s.shut id) := by
  obtain ⟨c, hc⟩ := Session.scope?_of_mem h
  unfold detach
  rw [run_bind, run_change? quiet]
  unfold Session.shut Store.destroyScope
  rw [hc]
  rfl

theorem run_detachAll {host : Host} (quiet : host.tell = record) {ids : List String}
    (nodup : ids.Nodup) (h : ∀ id ∈ ids, id ∈ s.store.scopeIds) :
    (ids.forM (detach host)).run s = (.ok ⟨⟩, ids.foldl Session.shut s) := by
  induction ids generalizing s with
  | nil => rfl
  | cons id ids ih =>
      obtain ⟨fresh, nodup⟩ := List.nodup_cons.mp nodup
      rw [List.forM_eq_forM, List.forM_cons, run_bind, run_detach quiet (h id List.mem_cons_self)]
      refine ih nodup fun x hx => ?_
      rw [Session.scopeIds_shut]
      exact (List.mem_erase_of_ne fun e : x = id => fresh (e ▸ hx)).mpr
        (h x (List.mem_cons_of_mem _ hx))

/-- A call whose scopes are open can be left. -/
theorem run_unwind {host : Host} (quiet : host.tell = record) {call : Call}
    (nodup : call.closing.Nodup) (h : ∀ id ∈ call.closing, id ∈ s.store.scopeIds)
    (stack : s.store.state.callStack ≠ []) :
    (unwind host call).run s = (.ok ⟨⟩, s.left call) := by
  obtain ⟨c, hc⟩ : ∃ c, s.store.popFrame = .ok c := by
    unfold Store.popFrame
    rw [List.getLast?_eq_some_getLast stack]
    exact ⟨_, rfl⟩
  have opened : ∀ id ∈ call.closing, id ∈ s.popped.store.scopeIds := fun id hid => by
    rw [Session.popped_store]
    exact h id hid
  have hpop : s.popped = { s with
      machine :=
        { s.machine with
          receivers := s.machine.receivers.dropLast
          depth := s.machine.depth - 1 } }.publish c := by
    unfold Session.popped
    dsimp only
    rw [hc]
  have closed := run_detachAll quiet nodup opened
  rw [Session.left, ← closed, hpop]
  unfold unwind
  rw [run_bind]
  show (do let _ ← change? host fun s => s.popFrame
           call.closing.forM (detach host) : Act Unit).run
             { s with
               machine :=
                 { s.machine with
                   receivers := s.machine.receivers.dropLast, depth := s.machine.depth - 1 } } = _
  rw [run_bind, run_change? quiet]
  dsimp only
  rw [hc]

end Act

end Runloop
