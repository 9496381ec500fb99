/-
# The scopes of a session

`Scoped s` is what always holds of the scopes of a running program.  The scopes
that were ever opened are nested, and so are the open ones, which are a part of
them; a closed scope is kept as it was when it was closed; and every function
and every task closes over a scope that was opened once.

Deeds keep this (`Scoped.deed`), and so do entering a call
(`Scoped.entered`) and leaving it (`Scoped.left`).  As long as it holds, a
name is found among the open scopes exactly as it is read off the program
(`Scoped.find_eq`), and the scope of a call is opened inside the scope that its
function closes over (`Scoped.parent_eq`).
-/
import Mathlib.Data.List.Nodup
import Runloop.Proofs.Calls

namespace Runloop

/-! ## Identities -/

/-- Identities with one stem are told apart by their numbers. -/
theorem numbered_inj {stem : String} {m n : Nat} (h : stem ++ toString m = stem ++ toString n) :
    m = n := by
  have digits : (Nat.repr m).toList = (Nat.repr n).toList := by
    have := congrArg String.toList h
    simpa [toString] using this
  rw [Nat.toList_repr, Nat.toList_repr] at digits
  have := congrArg (Nat.ofDigitChars 10 · 0) digits
  simpa using this

theorem scopeId_inj {m n : Nat} (h : Store.scopeId m = Store.scopeId n) : m = n :=
  numbered_inj h

theorem scopeId_ne_empty (n : Nat) : Store.scopeId n ≠ "" := by
  intro h
  have := congrArg String.length h
  simp [Store.scopeId] at this

/-! ## Events that open and close -/

/-- Whether an event neither opens nor closes a scope. -/
def Event.keepsScopes : Event → Bool
  | .scopes .create _ _ _ | .scopes .destroy _ _ _ => false
  | _ => true

theorem Event.keepsScopes_of_isDeed {e : Event} (h : e.isDeed = true) : e.keepsScopes = true := by
  cases e with
  | scopes action c l name => cases action <;> simp_all [isDeed, keepsScopes, isAside]
  | _ => rfl

theorem lastClosed?_of_keepsScopes {trace l : List Event} (h : ∀ e ∈ l, e.keepsScopes = true)
    (id : String) : lastClosed? (trace ++ l) id = lastClosed? trace id := by
  induction l generalizing trace with
  | nil => rw [List.append_nil]
  | cons e l ih =>
      have first : e.closed? id = none := by
        have := h e List.mem_cons_self
        cases e with
        | scopes action c l name => cases action <;> simp_all [Event.keepsScopes, Event.closed?]
        | _ => rfl
      rw [← List.singleton_append, ← List.append_assoc,
        ih fun e he => h e (List.mem_cons_of_mem _ he), lastClosed?_append, first]
      rfl

/-- A scope that is opened once more is what it was when it was last closed. -/
def Faithful (trace : List Event) : Prop :=
  ∀ before scope scopes name,
    before ++ [.scopes .create (some scope) scopes name] <+: trace →
      scope.id ∈ idsOf (everOpened before) → lastClosed? before scope.id = some scope

theorem Faithful.append {trace : List Event} {e : Event} (h : Faithful trace)
    (he : ∀ scope scopes name, e = .scopes .create (some scope) scopes name →
      scope.id ∈ idsOf (everOpened trace) → lastClosed? trace scope.id = some scope) :
    Faithful (trace ++ [e]) := by
  intro before scope scopes name hp hid
  rcases event_cases hp with ⟨rfl, rfl⟩ | earlier
  · exact he scope scopes name rfl hid
  · exact h before scope scopes name earlier hid

theorem Faithful.append_of_keepsScopes {trace l : List Event} (h : Faithful trace)
    (hl : ∀ e ∈ l, e.keepsScopes = true) : Faithful (trace ++ l) := by
  induction l generalizing trace with
  | nil => rwa [List.append_nil]
  | cons e l ih =>
      rw [← List.singleton_append, ← List.append_assoc]
      refine ih (h.append fun scope scopes name he => ?_)
        fun e he => hl e (List.mem_cons_of_mem _ he)
      exact absurd (hl e List.mem_cons_self) (by simp [he, Event.keepsScopes])

/-! ## The invariant -/

/-- All tasks that wait in the queues. -/
def EventLoop.tasks (l : EventLoop) : List Task := l.timers ++ l.callbacks ++ l.microtasks

/-- Whether a closure is a scope that was opened once. -/
def Session.Knows (s : Session) (closure : Option String) : Prop :=
  ∃ id ∈ idsOf (everOpened s.trace), closure = some id

structure Scoped (s : Session) : Prop where
  global : s.machine.globalScope = some (Store.scopeId 1)
  globalOpen : Store.scopeId 1 ∈ s.store.scopeIds
  known : Nested (everOpened s.trace)
  numbered : ∀ id ∈ idsOf (everOpened s.trace),
    ∃ n, n ≤ s.store.counters.scope ∧ id = Store.scopeId n
  opened : Nested s.store.state.scopes.reverse
  part : ∀ c ∈ s.store.state.scopes, c ∈ everOpened s.trace
  /-- The outermost scope is never closed. -/
  root : ∀ c ∈ everOpened s.trace, c.parent = none → c.id ∈ s.store.scopeIds
  kept : KeptClosed s.store.scopeIds s.machine.detached (everOpened s.trace)
  closed : ∀ c ∈ everOpened s.trace, c.id ∉ s.store.scopeIds →
    lastClosed? s.trace c.id = some c
  faithful : Faithful s.trace
  functions : ∀ o ∈ s.store.state.heap, ∀ f, o.payload = .function f → s.Knows f.closure
  tasks : ∀ task ∈ s.store.state.loop.tasks, s.Knows task.spec.closure

/-! ## Deeds -/

theorem Scope.binding_id (id name : String) (b : Binding) (c : Scope) :
    (Scope.binding id name b c).id = c.id := by
  unfold Scope.binding
  split <;> rfl

theorem Scope.binding_parent (id name : String) (b : Binding) (c : Scope) :
    (Scope.binding id name b c).parent = c.parent := by
  unfold Scope.binding
  split <;> rfl

theorem Scope.binding_of_ne {id name : String} {b : Binding} {c : Scope} (h : c.id ≠ id) :
    Scope.binding id name b c = c := by
  simp [Scope.binding, h]

theorem idsOf_binding (id name : String) (b : Binding) (l : List Scope) :
    idsOf (l.map (Scope.binding id name b)) = idsOf l := by
  simp [Function.comp_def, Scope.binding_id]

theorem Rebound.knownIds {s t : Session} (h : Rebound s t) :
    idsOf (everOpened t.trace) = idsOf (everOpened s.trace) := by
  cases h with
  | same _ known => rw [known]
  | bound name b _ _ known => rw [known, idsOf_binding]

theorem Session.Knows.of_ids {s t : Session} {closure : Option String} (h : s.Knows closure)
    (ids : idsOf (everOpened t.trace) = idsOf (everOpened s.trace)) : t.Knows closure := by
  obtain ⟨id, hid, e⟩ := h
  exact ⟨id, ids ▸ hid, e⟩

theorem Requeued.tasks {scope : String} {s t : Session} (h : Requeued scope s t) :
    ∀ task ∈ t.store.state.loop.tasks,
      task ∈ s.store.state.loop.tasks ∨ task.spec.closure = some scope := by
  intro task ht
  cases h with
  | same hl _ _ => exact .inl (hl ▸ ht)
  | microtask hc hl _ | timer hc hl _ =>
      simp only [EventLoop.tasks, hl, List.mem_append, List.mem_singleton] at ht ⊢
      grind

namespace Scoped

variable {s t : Session} {scope : String}

theorem nodup_scopeIds (h : Scoped s) : s.store.scopeIds.Nodup := by
  have := h.opened.nodup
  rwa [idsOf, List.map_reverse, List.nodup_reverse] at this

theorem scopeIds_of_rebound (h : Scoped s) (r : Rebound s t) :
    t.store.scopeIds = s.store.scopeIds := by
  cases r with
  | same hs _ => rw [Store.scopeIds, hs]; rfl
  | bound name b _ hs _ =>
      rw [Store.scopeIds, hs, modifyFirst_eq_map h.nodup_scopeIds]
      exact idsOf_binding ..

theorem deed (h : Scoped s) (live : scope ∈ s.store.scopeIds) (d : Deed scope s t) :
    Scoped t := by
  obtain ⟨line, hm⟩ := d.machine
  obtain ⟨l, hl, plain⟩ := d.trace
  have keeps : ∀ e ∈ l, e.keepsScopes = true := fun e he => e.keepsScopes_of_isDeed (plain e he)
  have ids := h.scopeIds_of_rebound d.scopes
  have known := d.scopes.knownIds
  have runs : t.Knows (some scope) := by
    obtain ⟨c, hc, rfl⟩ := List.mem_map.mp live
    exact ⟨c.id, known ▸ List.mem_map_of_mem (h.part c hc), rfl⟩
  have functions : ∀ o ∈ t.store.state.heap, ∀ f, o.payload = .function f → t.Knows f.closure := by
    intro o ho f hf
    rcases d.functions ho hf with hc | ⟨o', ho', hf'⟩
    · rwa [hc]
    · exact (h.functions o' ho' f hf').of_ids known
  have tasks : ∀ task ∈ t.store.state.loop.tasks, t.Knows task.spec.closure := by
    intro task ht
    rcases d.loop.tasks task ht with ht | hc
    · exact (h.tasks task ht).of_ids known
    · rwa [hc]
  have common : t.machine.globalScope = some (Store.scopeId 1) ∧
      t.machine.detached = s.machine.detached := by
    rw [hm]
    exact ⟨h.global, rfl⟩
  have last : ∀ id, lastClosed? t.trace id = lastClosed? s.trace id := fun id => by
    rw [hl, lastClosed?_of_keepsScopes keeps]
  have faithful : Faithful t.trace := by
    rw [hl]
    exact h.faithful.append_of_keepsScopes keeps
  have numbered : ∀ id ∈ idsOf (everOpened t.trace),
      ∃ n, n ≤ t.store.counters.scope ∧ id = Store.scopeId n := by
    rw [known, d.counter]
    exact h.numbered
  obtain ⟨hs, hk⟩ | ⟨name, b, mem, hs, hk⟩ := d.scopes
  · exact {
      global := common.1, numbered, faithful, functions, tasks
      globalOpen := ids ▸ h.globalOpen
      known := hk ▸ h.known
      opened := hs ▸ h.opened
      part := by rw [hs, hk]; exact h.part
      root := by rw [ids, hk]; exact h.root
      kept := by rw [ids, hk, common.2]; exact h.kept
      closed := by simp only [ids, hk, last]; exact h.closed }
  · -- a closed scope is not the one that got the binding
    have hs := hs.trans (modifyFirst_eq_map h.nodup_scopeIds _ _)
    have closed : ∀ c ∈ everOpened t.trace, c.id ∉ s.store.scopeIds → c ∈ everOpened s.trace := by
      intro c hc out
      rw [hk] at hc
      obtain ⟨d, hd, rfl⟩ := List.mem_map.mp hc
      rw [Scope.binding_id] at out
      rwa [Scope.binding_of_ne fun e => out (e ▸ mem)]
    exact {
      global := common.1, numbered, faithful, functions, tasks
      globalOpen := ids ▸ h.globalOpen
      known := hk ▸ h.known.map (Scope.binding_id _ name b) (Scope.binding_parent _ name b)
      opened := by
        rw [hs, ← List.map_reverse]
        exact h.opened.map (Scope.binding_id _ name b) (Scope.binding_parent _ name b)
      part := by
        rw [hs, hk]
        intro c hc
        obtain ⟨d, hd, rfl⟩ := List.mem_map.mp hc
        exact List.mem_map_of_mem (h.part d hd)
      root := by
        rw [ids, hk]
        intro c hc none
        obtain ⟨d, hd, rfl⟩ := List.mem_map.mp hc
        rw [Scope.binding_parent] at none
        rw [Scope.binding_id]
        exact h.root d hd none
      kept := by
        rw [ids, common.2]
        exact fun c hc out => h.kept c (closed c hc out) out
      closed := by
        simp only [ids, last]
        exact fun c hc out => h.closed c (closed c hc out) out }

/-- What leaves the scopes alone keeps the invariant. -/
theorem keep {l : List Event} (h : Scoped s) (trace : t.trace = s.trace ++ l)
    (aside : ∀ e ∈ l, e.topic ≠ .scopes)
    (scopes : t.store.state.scopes = s.store.state.scopes)
    (counter : t.store.counters.scope = s.store.counters.scope)
    (global : t.machine.globalScope = s.machine.globalScope)
    (detached : t.machine.detached = s.machine.detached)
    (heap : t.store.state.heap = s.store.state.heap)
    (loop : ∀ task ∈ t.store.state.loop.tasks, task ∈ s.store.state.loop.tasks) : Scoped t := by
  have known : everOpened t.trace = everOpened s.trace := by
    rw [trace, everOpened, List.foldl_append]
    exact foldl_noteScope_of_topic aside _
  have keeps : ∀ e ∈ l, e.keepsScopes = true := fun e he => by
    have := aside e he
    cases e <;> first | rfl | exact absurd rfl this
  have last : ∀ id, lastClosed? t.trace id = lastClosed? s.trace id := fun id => by
    rw [trace, lastClosed?_of_keepsScopes keeps]
  have ids : t.store.scopeIds = s.store.scopeIds := by rw [Store.scopeIds, scopes]; rfl
  have knows : ∀ {closure}, s.Knows closure → t.Knows closure := fun h => h.of_ids (by rw [known])
  exact {
    global := global.trans h.global
    globalOpen := ids ▸ h.globalOpen
    known := known ▸ h.known
    numbered := by rw [known, counter]; exact h.numbered
    opened := scopes ▸ h.opened
    part := by rw [scopes, known]; exact h.part
    root := by rw [ids, known]; exact h.root
    kept := by rw [ids, known, detached]; exact h.kept
    closed := by simp only [ids, known, last]; exact h.closed
    faithful := by rw [trace]; exact h.faithful.append_of_keepsScopes keeps
    functions := by rw [heap]; exact fun o ho f hf => knows (h.functions o ho f hf)
    tasks := fun task ht => knows (h.tasks task (loop task ht)) }

/-! ## Opening -/

/-- A scope is opened: one that was closed, or a new one. -/
theorem extend {c : Scope} {l : List Scope} (h : Scoped s) (r : Rescoped s t)
    (machine : t.machine = s.machine)
    (scopes : t.store.state.scopes = s.store.state.scopes ++ [c])
    (trace : t.trace = s.trace ++ [.scopes .create (some c) l none])
    (nested : Nested (c :: s.store.state.scopes.reverse))
    (known : Nested (everOpened t.trace))
    (numbered : ∀ id ∈ idsOf (everOpened t.trace),
      ∃ n, n ≤ t.store.counters.scope ∧ id = Store.scopeId n)
    (old : ∀ d ∈ everOpened s.trace, d ∈ everOpened t.trace)
    (new : ∀ d ∈ everOpened t.trace, d ∈ everOpened s.trace ∨ d = c)
    (mem : c ∈ everOpened t.trace)
    (again : c.id ∈ idsOf (everOpened s.trace) → c ∈ everOpened s.trace) : Scoped t := by
  have ids : t.store.scopeIds = s.store.scopeIds ++ [c.id] := by
    simp [Store.scopeIds, scopes]
  have out : c.id ∉ s.store.scopeIds := by
    simpa [Store.scopeIds] using (List.nodup_cons.mp nested.nodup).1
  have last : ∀ id, lastClosed? t.trace id = lastClosed? s.trace id := fun id => by
    rw [trace, lastClosed?_append]
    rfl
  have knows : ∀ {closure}, s.Knows closure → t.Knows closure := by
    rintro _ ⟨id, hid, rfl⟩
    obtain ⟨d, hd, rfl⟩ := List.mem_map.mp hid
    exact ⟨d.id, List.mem_map_of_mem (old d hd), rfl⟩
  -- a scope that is closed now was closed before
  have before : ∀ d ∈ everOpened t.trace, d.id ∉ t.store.scopeIds →
      d ∈ everOpened s.trace ∧ d.id ∉ s.store.scopeIds := by
    intro d hd hout
    rw [ids, List.mem_append, List.mem_singleton, not_or] at hout
    exact ⟨(new d hd).resolve_right fun e => hout.2 (congrArg _ e), hout.1⟩
  exact {
    known, numbered
    global := machine ▸ h.global
    globalOpen := by rw [ids]; exact List.mem_append_left _ h.globalOpen
    opened := by rw [scopes, List.reverse_append]; exact nested
    part := by
      rw [scopes]
      intro d hd
      rcases List.mem_append.mp hd with hd | hd
      · exact old d (h.part d hd)
      · rwa [List.mem_singleton.mp hd]
    root := by
      rw [ids]
      intro d hd none
      rcases new d hd with hd | rfl
      · exact List.mem_append_left _ (h.root d hd none)
      · simp
    kept := fun d hd hout => by
      obtain ⟨hd, hout⟩ := before d hd hout
      rw [machine]
      exact h.kept d hd hout
    closed := fun d hd hout => by
      obtain ⟨hd, hout⟩ := before d hd hout
      rw [last]
      exact h.closed d hd hout
    faithful := by
      rw [trace]
      refine h.faithful.append fun scope scopes name he hid => ?_
      cases he
      exact h.closed _ (again hid) out
    functions := by rw [r.heap]; exact fun o ho f hf => knows (h.functions o ho f hf)
    tasks := by rw [r.loop]; exact fun task ht => knows (h.tasks task ht) }

theorem restore {c : Scope} (h : Scoped s) (hc : c ∈ everOpened s.trace)
    (nested : Nested (c :: s.store.state.scopes.reverse)) :
    Scoped (s.publish (s.store.restoreScope c)) ∧
      (s.publish (s.store.restoreScope c)).store.state.scopes = s.store.state.scopes ++ [c] ∧
      everOpened (s.publish (s.store.restoreScope c)).trace = everOpened s.trace ∧
      (s.publish (s.store.restoreScope c)).store.counters = s.store.counters := by
  have out : c.id ∉ s.store.scopeIds := by
    simpa [Store.scopeIds] using (List.nodup_cons.mp nested.nodup).1
  have step : s.store.restoreScope c =
      { store := s.store.setScopes (s.store.state.scopes ++ [c]), value := ()
        events := [.scopes .create (some c) (s.store.state.scopes ++ [c]) none] } := by
    have none : (s.store.state.scopes.any (·.id == c.id)) = false := by
      simpa [Store.scopeIds] using out
    simp [Store.restoreScope, none]
  have trace : (s.publish (s.store.restoreScope c)).trace =
      s.trace ++ [.scopes .create (some c) (s.store.state.scopes ++ [c]) none] := by
    rw [step]
    exact Session.trace_publish (List.forall_mem_singleton.mpr rfl)
  have known : everOpened (s.publish (s.store.restoreScope c)).trace = everOpened s.trace := by
    rw [trace, everOpened_append]
    exact if_pos (List.mem_map_of_mem hc)
  have scopes : (s.publish (s.store.restoreScope c)).store.state.scopes =
      s.store.state.scopes ++ [c] := by
    rw [step, Session.publish_store]
    rfl
  have counters : (s.publish (s.store.restoreScope c)).store.counters = s.store.counters := by
    rw [step, Session.publish_store]
    rfl
  refine ⟨h.extend (.restore s c) (Session.publish_machine ..) scopes trace nested ?_ ?_ ?_ ?_ ?_ ?_,
    scopes, known, counters⟩
  · rw [known]; exact h.known
  · rw [known, counters]; exact h.numbered
  · rw [known]; exact fun d hd => hd
  · rw [known]; exact fun d hd => .inl hd
  · rwa [known]
  · exact fun _ => hc

/-- Closed scopes are opened again one after the other, from the outside. -/
theorem restored {l : List Scope} (h : Scoped s) (part : ∀ c ∈ l, c ∈ everOpened s.trace)
    (nested : Nested (s.store.state.scopes ++ l).reverse) :
    Scoped (s.restored l) ∧
      (s.restored l).store.state.scopes = s.store.state.scopes ++ l ∧
      everOpened (s.restored l).trace = everOpened s.trace ∧
      (s.restored l).store.counters = s.store.counters := by
  induction l generalizing s with
  | nil => exact ⟨h, (List.append_nil _).symm, rfl, rfl⟩
  | cons c l ih =>
      have first : Nested (c :: s.store.state.scopes.reverse) := by
        rw [List.reverse_append, List.reverse_cons, List.append_assoc] at nested
        exact nested.of_append
      obtain ⟨h', scopes, known, counters⟩ := h.restore (part c List.mem_cons_self) first
      obtain ⟨h'', scopes', known', counters'⟩ := ih h'
        (by rw [known]; exact fun d hd => part d (List.mem_cons_of_mem _ hd))
        (by rwa [scopes, List.append_assoc])
      refine ⟨h'', ?_, known'.trans known, counters'.trans counters⟩
      exact scopes'.trans (by rw [scopes, List.append_assoc]; rfl)

theorem create {id : String} (h : Scoped s) (name : String) (hid : id ∈ s.store.scopeIds) :
    Scoped (s.publish (s.store.createScope name "function" (some id) s.now)) := by
  have fresh : Store.scopeId (s.store.counters.scope + 1) ∉ idsOf (everOpened s.trace) := by
    intro hm
    obtain ⟨n, hn, e⟩ := h.numbered _ hm
    have := scopeId_inj e
    omega
  have trace := Session.trace_publish (s := s)
    (c := s.store.createScope name "function" (some id) s.now) (List.forall_mem_singleton.mpr rfl)
  have known : everOpened (s.publish (s.store.createScope name "function" (some id) s.now)).trace =
      (s.store.createScope name "function" (some id) s.now).value :: everOpened s.trace := by
    rw [trace]
    exact (everOpened_append ..).trans (if_neg fresh)
  have sub : ∀ x ∈ s.store.scopeIds, x ∈ idsOf (everOpened s.trace) := fun x hx => by
    obtain ⟨c, hc, rfl⟩ := List.mem_map.mp hx
    exact List.mem_map_of_mem (h.part c hc)
  refine h.extend (.create ..) (Session.publish_machine ..) (by rw [Session.publish_store]; rfl)
    trace ?_ ?_ ?_ ?_ ?_ ?_ ?_
  · refine .inner h.opened rfl (by simpa [Store.scopeIds] using hid) fun hm => fresh (sub _ ?_)
    simpa [Store.scopeIds] using hm
  · rw [known]
    exact .inner h.known rfl (sub id hid) fresh
  · rw [known, Session.publish_store]
    intro x hx
    rcases List.mem_cons.mp hx with rfl | hx
    · exact ⟨_, Nat.le_refl _, rfl⟩
    · obtain ⟨n, hn, e⟩ := h.numbered x hx
      exact ⟨n, Nat.le_succ_of_le hn, e⟩
  · rw [known]
    exact fun d hd => List.mem_cons_of_mem _ hd
  · rw [known]
    exact fun d hd => (List.mem_cons.mp hd).symm
  · rw [known]
    exact List.mem_cons_self
  · exact fun hm => absurd hm fresh

/-- The closed scopes around a scope, put after the open ones, are nested with
them, and then the scope is open. -/
theorem reopened {id : String} (h : Scoped s) (hid : id ∈ idsOf (everOpened s.trace)) :
    (∀ c ∈ s.reopened (some id), c ∈ everOpened s.trace) ∧
      Nested (s.store.state.scopes ++ s.reopened (some id)).reverse ∧
      id ∈ s.store.scopeIds ++ idsOf (s.reopened (some id)) := by
  have live : ∀ x, x ∈ s.store.scopeIds ↔ x ∈ idsOf s.store.state.scopes.reverse := by
    simp [Store.scopeIds]
  have path : (s.reopened (some id)).reverse =
      closedPath (idsOf s.store.state.scopes.reverse) (everOpened s.trace) id := by
    rw [Session.reopened, List.reverse_reverse,
      closedChain_eq h.known h.kept (length_closed_le h.known h.kept) hid]
    exact closedPath_congr live id
  obtain ⟨nested, hin⟩ := nested_closedPath h.known h.opened
    (fun c hc none => (live _).mp (h.root c hc none)) hid
  rw [← path] at nested hin
  refine ⟨fun c hc => ?_, by rwa [List.reverse_append], ?_⟩
  · have := closedPath_sublist (idsOf s.store.state.scopes.reverse) (everOpened s.trace) id
    exact this.subset (path ▸ List.mem_reverse.mpr hc)
  · simpa [Store.scopeIds, or_comm] using hin

/-- Everything around a new call is open when its scope is opened. -/
theorem opening {id : String} (h : Scoped s) (name : String)
    (hid : id ∈ idsOf (everOpened s.trace)) :
    Scoped (s.opening id name) ∧
      (s.opening id name).store.scopeIds =
        s.store.scopeIds ++ (s.nextCall id 0).closing.reverse := by
  obtain ⟨part, nested, hin⟩ := h.reopened hid
  obtain ⟨h', scopes, known, counters⟩ := h.restored part nested
  have hin' : id ∈ (s.restored (s.reopened (some id))).store.scopeIds := by
    simpa [Store.scopeIds, scopes] using hin
  refine ⟨h'.create name hin', ?_⟩
  simp [Session.opening, Store.scopeIds, Store.createScope, Store.setScopes, scopes, counters,
    Call.closing, Session.nextCall]

/-- What a new call opens hangs together. -/
theorem linked_opening {id : String} (h : Scoped s) (name : String) (line : Int)
    (hid : id ∈ idsOf (everOpened s.trace)) :
    ∃ p tail, (s.opening id name).store.state.scopes = s.store.state.scopes ++ tail ∧
      idsOf tail = (s.nextCall id line).closing.reverse ∧ Linked p tail := by
  obtain ⟨part, nested, -⟩ := h.reopened hid
  obtain ⟨-, scopes, -, counters⟩ := h.restored part nested
  have path : s.reopened (some id) =
      (closedPath s.store.scopeIds (everOpened s.trace) id).reverse := by
    rw [Session.reopened, closedChain_eq h.known h.kept (length_closed_le h.known h.kept) hid]
  let own := ((s.restored (s.reopened (some id))).store.createScope name "function" (some id)
    (s.restored (s.reopened (some id))).now).value
  obtain ⟨p, linked⟩ : ∃ p, Linked p (s.reopened (some id) ++ [own]) :=
    path ▸ linked_closedPath h.known h.root rfl
  refine ⟨p, s.reopened (some id) ++ [own], ?_, ?_, linked⟩
  · simp [Session.opening, Store.createScope, Store.setScopes, scopes, own]
  · simp [Call.closing, Session.nextCall, own, Store.createScope, counters]

theorem entered {id : String} (h : Scoped s) (name thisBinding : String) (line : Int)
    (receiver : Value) (hid : id ∈ idsOf (everOpened s.trace)) :
    Scoped (s.entered id name thisBinding line receiver) := by
  refine (h.opening name hid).1.keep
    (l := ((s.opening id name).store.pushFrame name "function" thisBinding line).events)
    (Session.trace_publish (List.forall_mem_singleton.mpr rfl))
    (List.forall_mem_singleton.mpr (by simp [Event.topic])) ?_ ?_ ?_ ?_ ?_ ?_
  all_goals simp only [Session.entered, Session.publish_store, Session.publish_machine]
  · rfl
  · rfl
  · rfl
  · exact fun task ht => ht

/-! ## Closing -/

theorem scope?_of_mem (h : Scoped s) {c : Scope} (hc : c ∈ s.store.state.scopes) :
    s.store.scope? c.id = some c := by
  obtain ⟨d, hd⟩ := Session.scope?_of_mem (List.mem_map_of_mem hc)
  have same := h.opened.eq_of_id (List.mem_reverse.mpr (List.mem_of_find?_eq_some hd))
    (List.mem_reverse.mpr hc) (scope?_id hd)
  rwa [same] at hd

section Innermost

variable {front : List Scope} {c : Scope}

theorem nested_innermost (h : Scoped s) (scopes : s.store.state.scopes = front ++ [c]) :
    Nested (c :: front.reverse) := by
  have opened := h.opened
  rwa [scopes, List.reverse_append] at opened

theorem mem_front (scopes : s.store.state.scopes = front ++ [c]) {id : String}
    (hid : id ∈ s.store.scopeIds) (hne : id ≠ c.id) : id ∈ idsOf front := by
  rw [Store.scopeIds, scopes, List.map_append, List.mem_append] at hid
  exact hid.resolve_right fun e => hne (List.mem_singleton.mp e)

/-- The innermost scope lies in another one, unless it is the global one. -/
theorem parent_innermost (h : Scoped s) (scopes : s.store.state.scopes = front ++ [c])
    (hne : c.id ≠ Store.scopeId 1) : c.parent ≠ none := by
  intro none
  have outer : Store.scopeId 1 ∈ idsOf front := mem_front scopes h.globalOpen hne.symm
  have opened := h.nested_innermost scopes
  generalize hr : front.reverse = older at opened
  cases opened with
  | root _ =>
      rw [List.reverse_eq_nil_iff.mp hr] at outer
      exact List.not_mem_nil outer
  | inner _ hp _ _ => exact absurd (none.symm.trans hp) (by simp)

/-- With the innermost scope closed, no more scopes are closed than that one and
those that were. -/
theorem closed_innermost (h : Scoped s) (scopes : s.store.state.scopes = front ++ [c])
    {d : Scope} (hd : d ∈ everOpened s.trace) (out : d.id ∉ idsOf front) :
    d = c ∨ d.id ∉ s.store.scopeIds ∧ c.id ≠ d.id := by
  by_cases e : c.id = d.id
  · exact .inl (h.known.eq_of_id hd (h.part c (by simp [scopes])) e.symm)
  · exact .inr ⟨fun hin => out (mem_front scopes hin (Ne.symm e)), e⟩

theorem shut_innermost (h : Scoped s) (scopes : s.store.state.scopes = front ++ [c]) :
    s.shut c.id =
      { s.publish
          { store := s.store.setScopes front, value := c
            events := [.scopes .destroy (some c) front none] } with
        machine := { s.machine with detached := (c.id, c) :: s.machine.detached } } := by
  have out : ∀ d ∈ front, ¬ (d.id == c.id) = true := fun d hd e =>
    (List.nodup_cons.mp (h.nested_innermost scopes).nodup).1 (by
      simpa using ⟨d, hd, by simpa using e⟩)
  have rest : s.store.state.scopes.eraseP (·.id == c.id) = front := by
    rw [scopes, List.eraseP_append_right _ out]
    simp
  rw [Session.shut_eq (h.scope?_of_mem (by simp [scopes])), rest]

/-- The innermost scope is closed. -/
theorem shut (h : Scoped s) (scopes : s.store.state.scopes = front ++ [c])
    (hne : c.id ≠ Store.scopeId 1) :
    Scoped (s.shut c.id) ∧ (s.shut c.id).store.state.scopes = front := by
  have eq := h.shut_innermost scopes
  have scopes' : (s.shut c.id).store.state.scopes = front := by
    rw [eq, Session.publish_store]
    rfl
  have ids : (s.shut c.id).store.scopeIds = idsOf front := by rw [Store.scopeIds, scopes']
  have machine : (s.shut c.id).machine =
      { s.machine with detached := (c.id, c) :: s.machine.detached } := by rw [eq]
  have trace : (s.shut c.id).trace = s.trace ++ [.scopes .destroy (some c) front none] := by
    rw [eq]
    exact Session.trace_publish (List.forall_mem_singleton.mpr rfl)
  have known : everOpened (s.shut c.id).trace = everOpened s.trace := by
    rw [trace, everOpened_append]
    rfl
  have knows : ∀ {closure}, s.Knows closure → (s.shut c.id).Knows closure :=
    fun h => h.of_ids (by rw [known])
  refine ⟨{
    global := by rw [machine]; exact h.global
    globalOpen := by rw [ids]; exact mem_front scopes h.globalOpen hne.symm
    known := known ▸ h.known
    numbered := by rw [known, eq, Session.publish_store]; exact h.numbered
    opened := by rw [scopes']; exact (h.nested_innermost scopes).tail
    part := by rw [scopes', known]; exact fun d hd => h.part d (by simp [scopes, hd])
    root := ?_
    kept := ?_
    closed := ?_
    faithful := by rw [trace]; exact h.faithful.append fun _ _ _ he => by cases he
    functions := by
      rw [(Rescoped.shut s c.id).heap]
      exact fun o ho f hf => knows (h.functions o ho f hf)
    tasks := by
      rw [(Rescoped.shut s c.id).loop]
      exact fun task ht => knows (h.tasks task ht) }, scopes'⟩
  · rw [ids, known]
    intro d hd none
    refine mem_front scopes (h.root d hd none) fun e => ?_
    obtain rfl : d = c := h.known.eq_of_id hd (h.part c (by simp [scopes])) e
    exact h.parent_innermost scopes hne none
  · rw [ids, known, machine]
    intro d hd out
    rcases h.closed_innermost scopes hd out with rfl | ⟨out, hne⟩
    · simp
    · rw [List.find?_cons_of_neg (by simpa using hne)]
      exact h.kept d hd out
  · rw [ids, known, trace]
    intro d hd out
    rw [lastClosed?_append]
    rcases h.closed_innermost scopes hd out with rfl | ⟨out, hne⟩
    · simp [Event.closed?]
    · simp [Event.closed?, hne, h.closed d hd out]

end Innermost

theorem shutAll {ids before : List String} (h : Scoped s)
    (scopes : s.store.scopeIds = before ++ ids.reverse) (global : Store.scopeId 1 ∈ before) :
    Scoped (ids.foldl Session.shut s) := by
  induction ids generalizing s with
  | nil => exact h
  | cons id ids ih =>
      rw [List.reverse_cons, ← List.append_assoc] at scopes
      obtain ⟨front, inner, hs, hf, hi⟩ := List.map_eq_append_iff.mp scopes
      obtain ⟨c, rfl, rfl⟩ : ∃ c, inner = [c] ∧ c.id = id := by
        obtain ⟨c, inner, rfl, hc, hi⟩ := List.map_eq_cons_iff.mp hi
        exact ⟨c, by rw [List.map_eq_nil_iff.mp hi], hc⟩
      have hne : c.id ≠ Store.scopeId 1 := fun e => by
        have nodup := h.nodup_scopeIds
        rw [scopes, List.append_assoc] at nodup
        exact List.disjoint_of_nodup_append nodup global (by simp [e])
      obtain ⟨h', hs'⟩ := h.shut hs hne
      exact ih h' (by rw [Store.scopeIds, hs', hf])

theorem popped (h : Scoped s) (stack : s.store.state.callStack ≠ []) : Scoped s.popped := by
  refine h.keep (Session.popped_trace (List.getLast?_eq_some_getLast stack))
    (List.forall_mem_singleton.mpr (by simp [Event.topic])) ?_ ?_ ?_ ?_ ?_ ?_
  all_goals simp only [Session.popped_store, Session.popped_machine, Store.setStack]
  exact fun task ht => ht

theorem left {call : Call} {before : List String} (h : Scoped s)
    (stack : s.store.state.callStack ≠ [])
    (scopes : s.store.scopeIds = before ++ call.closing.reverse)
    (global : Store.scopeId 1 ∈ before) : Scoped (s.left call) :=
  (h.popped stack).shutAll (by rw [Session.popped_store]; exact scopes) global

/-! ## Names and parents -/

section Reading

variable {tell : Publisher} {name : String}

theorem ne_empty_of_open (h : Scoped s) (hid : scope ∈ s.store.scopeIds) : scope ≠ "" := by
  obtain ⟨c, hc, rfl⟩ := List.mem_map.mp hid
  obtain ⟨n, -, e⟩ := h.numbered c.id (List.mem_map_of_mem (h.part c hc))
  exact fun e' => scopeId_ne_empty n (e ▸ e')

theorem find_eq (h : Scoped s) (hid : scope ∈ s.store.scopeIds) :
    Act.lexical.find s name (some scope) = Session.findOpen s name (some scope) := by
  have part : ∀ c ∈ s.store.state.scopes.reverse, c ∈ everOpened s.trace :=
    fun c hc => h.part c (List.mem_reverse.mp hc)
  have hid' : scope ∈ idsOf s.store.state.scopes.reverse := by
    simpa [Store.scopeIds] using hid
  calc Act.lexical.find s name (some scope)
      = denoted? name (everOpened s.trace) scope := rfl
    _ = denoted? name s.store.state.scopes.reverse scope :=
        (denoted?_of_subset h.opened h.known part hid').symm
    _ = s.store.findBinding? name (some scope) :=
        (findBinding?_eq_denoted? h.opened hid (h.ne_empty_of_open hid)).symm

theorem find_none_eq (h : Scoped s) :
    Act.lexical.find s name none = Session.findOpen s name none := by
  have here : Act.lexical.find s name none =
      s.store.currentScope?.bind fun id => Act.lexical.find s name (some id) := rfl
  rw [here, Session.findOpen, findBinding?_none]
  cases hc : s.store.currentScope? with
  | none => rfl
  | some id =>
      have hid : id ∈ s.store.scopeIds := by
        rw [Store.currentScope?, Option.map_eq_some_iff] at hc
        obtain ⟨c, hc, rfl⟩ := hc
        exact List.mem_map_of_mem (List.mem_of_getLast? hc)
      exact h.find_eq hid

/-- With the scopes around a closure open again, the scope of a call is opened
inside the closure itself. -/
theorem parent_eq {id : String} (h : Scoped s) (hid : id ∈ idsOf (everOpened s.trace)) :
    (s.restored (s.reopened (some id))).openParent (some id) = some id := by
  obtain ⟨part, nested, hin⟩ := h.reopened hid
  obtain ⟨-, scopes, -, -⟩ := h.restored part nested
  have hin' : id ∈ (s.restored (s.reopened (some id))).store.scopeIds := by
    simpa [Store.scopeIds, scopes] using hin
  simp [Session.openParent, hin']

end Reading

end Scoped

end Runloop
