/-
# What running code can see

Running code sees a part of its session only.  It does not see how it is driven,
nor the journal (`Session.under`).  It does not see what time it is, nor the
times at which things were made, and it does not see which of the waiting timers
have come due.  `Session.seen` keeps what is left when all of this is forgotten,
the times up to a `Retiming`.

For every way in which code reads a session there is a lemma that it reads the
same from `Session.seen`, and for every change that code makes one that the
change is `Even`: made to what is seen, it answers the same and is seen to do the
same.  `Session.outline` is what is seen of a session together with what was
written and which timers were started.
-/
import Runloop.Proofs.Reached

namespace Runloop

/-! ## How code is driven -/

/-- How a machine is driven, and what was told so far. -/
structure Driving where
  phase : Phase
  loaded : Bool
  cursor : Nat
  unit : Option UnitOfWork
  units : Nat
  runActive : Bool
  gate : Option Bool
  openings : Nat
  journal : List Event

/-- Nothing was driven, nothing was told. -/
def Driving.none : Driving :=
  { phase := .idle, loaded := false, cursor := 0, unit := .none, units := 0, runActive := false
    gate := .none, openings := 0, journal := [] }

/-- The driving with later events in its journal, the latest first. -/
def Driving.told (d : Driving) (l : List Event) : Driving :=
  { d with journal := l ++ d.journal }

theorem Driving.told_told (d : Driving) (l l' : List Event) :
    (d.told l).told l' = d.told (l' ++ l) := by
  simp [told]

/-- The machine driven in another way. -/
def Machine.under (m : Machine) (d : Driving) : Machine :=
  { m with
    phase := d.phase, loaded := d.loaded, cursor := d.cursor, unit := d.unit, units := d.units
    runActive := d.runActive, gate := d.gate, openings := d.openings }

namespace Session

/-- The session driven in another way, with another journal. -/
def under (s : Session) (d : Driving) : Session :=
  { s with machine := s.machine.under d, journal := d.journal }

/-- How a session is driven. -/
def driving (s : Session) : Driving :=
  { phase := s.machine.phase, loaded := s.machine.loaded, cursor := s.machine.cursor
    unit := s.machine.unit, units := s.machine.units, runActive := s.machine.runActive
    gate := s.machine.gate, openings := s.machine.openings, journal := s.journal }

theorem noted_under (s : Session) (d : Driving) (e : Event) :
    (s.under d).noted e = (s.noted e).under (d.told [e]) := by
  cases e with
  | console entry =>
      unfold noted
      dsimp only [under]
      split <;> rfl
  | _ => rfl

theorem foldl_noted_under (l : List Event) (s : Session) (d : Driving) :
    l.foldl noted (s.under d) = (l.foldl noted s).under (d.told l.reverse) := by
  induction l generalizing s d with
  | nil => rfl
  | cons e l ih =>
      rw [List.foldl_cons, List.foldl_cons, noted_under, ih, Driving.told_told,
        List.reverse_cons]

theorem publish_under {α : Type} (s : Session) (d : Driving) (c : Change α) :
    (s.under d).publish c = (s.publish c).under (d.told c.events.reverse) :=
  foldl_noted_under c.events { s with store := c.store } d

theorem restored_under (s : Session) (scopes : List Scope) :
    ∃ l, ∀ d, (s.under d).restored scopes = (s.restored scopes).under (d.told l) := by
  induction scopes generalizing s with
  | nil => exact ⟨[], fun _ => rfl⟩
  | cons c scopes ih =>
      obtain ⟨l, hl⟩ := ih (s.publish (s.store.restoreScope c))
      refine ⟨l ++ (s.store.restoreScope c).events.reverse, fun d => ?_⟩
      show ((s.under d).publish (s.store.restoreScope c)).restored scopes = _
      rw [publish_under, hl, Driving.told_told]
      rfl

end Session

/-! ## Times, and where timers wait -/

/-- A way of reading times; some that differ may be read as the same. -/
structure Retiming where
  read : Double → Double
  read_read : ∀ x, read (read x) = read x

/-- Times read as they are. -/
def Retiming.same : Retiming := ⟨id, fun _ => rfl⟩

section Seen

variable (ρ : Retiming)

def HeapObject.retimed (o : HeapObject) : HeapObject := { o with createdAt := ρ.read o.createdAt }

def Scope.retimed (c : Scope) : Scope := { c with createdAt := ρ.read c.createdAt }

def Task.retimed (t : Task) : Task := { t with startTime := ρ.read t.startTime }

def ConsoleEntry.retimed (e : ConsoleEntry) : ConsoleEntry :=
  { e with timestamp := ρ.read e.timestamp }

/-- The queues, without a difference between a timer that still runs and one
that waits to be called back. -/
def EventLoop.seen (l : EventLoop) : EventLoop :=
  { timers := (l.callbacks ++ l.timers).map (Task.retimed ρ)
    microtasks := l.microtasks.map (Task.retimed ρ) }

def State.seen (s : State) : State :=
  { s with
    heap := s.heap.map (HeapObject.retimed ρ), scopes := s.scopes.map (Scope.retimed ρ)
    loop := s.loop.seen ρ, isRunning := false, isPaused := false }

def Store.seen (s : Store) : Store := { s with state := s.state.seen ρ, timers := [] }

def Machine.seen (m : Machine) : Machine :=
  { m.under .none with detached := m.detached.map fun p => (p.1, p.2.retimed ρ) }

/-- What is kept of an event: a line of the console, or a timer that was started
and the tasks that were there then. -/
def Event.kept : Event → Option Event
  | .console entry => some (.console (entry.retimed ρ))
  | .eventLoop .addTimer (some task) loop =>
    some (.eventLoop .addTimer (some (task.retimed ρ)) (loop.seen ρ))
  | _ => none

/-- What code can see of a session. -/
def Session.seen (s : Session) : Session :=
  { s with
    store := s.store.seen ρ, clock := .starting (ρ.read s.clock.now), machine := s.machine.seen ρ
    lines := s.lines.map (ConsoleEntry.retimed ρ), journal := [] }

/-- What code can see of a session, what was written, and which timers were
started. -/
def Session.outline (s : Session) : Session :=
  { s.seen ρ with journal := s.journal.filterMap (Event.kept ρ) }

/-- What code can see of a change, if it goes on with `g` of the answer. -/
def Change.seen {α β : Type} (g : α → β) (c : Change α) : Change β :=
  { store := c.store.seen ρ, value := g c.value, events := c.events.filterMap (Event.kept ρ) }

end Seen

/-! ## Seeing twice is seeing once -/

section Twice

variable {ρ : Retiming}

@[simp] theorem HeapObject.retimed_retimed (o : HeapObject) :
    (o.retimed ρ).retimed ρ = o.retimed ρ := by
  simp [retimed, ρ.read_read]

@[simp] theorem Scope.retimed_retimed (c : Scope) : (c.retimed ρ).retimed ρ = c.retimed ρ := by
  simp [retimed, ρ.read_read]

@[simp] theorem Task.retimed_retimed (t : Task) : (t.retimed ρ).retimed ρ = t.retimed ρ := by
  simp [retimed, ρ.read_read]

/-- When a task was queued is read once, whatever is read of it. -/
@[simp] theorem Task.retimed_read (id : String) (kind : TaskKind) (time : Double)
    (spec : TaskSpec) :
    Task.retimed ρ ⟨id, kind, ρ.read time, spec⟩ = Task.retimed ρ ⟨id, kind, time, spec⟩ := by
  simp [retimed, ρ.read_read]

@[simp] theorem ConsoleEntry.retimed_retimed (e : ConsoleEntry) :
    (e.retimed ρ).retimed ρ = e.retimed ρ := by
  simp [retimed, ρ.read_read]

@[simp] theorem EventLoop.seen_seen (l : EventLoop) : (l.seen ρ).seen ρ = l.seen ρ := by
  simp [seen, Function.comp_def]

@[simp] theorem Store.seen_seen (s : Store) : (s.seen ρ).seen ρ = s.seen ρ := by
  simp [seen, State.seen, EventLoop.seen, Function.comp_def]

@[simp] theorem Machine.seen_seen (m : Machine) : (m.seen ρ).seen ρ = m.seen ρ := by
  simp [seen, under, Function.comp_def]

theorem Event.kept_of_kept {e e' : Event} (h : e.kept ρ = some e') : e'.kept ρ = some e' := by
  unfold kept at h
  split at h <;> cases h <;> simp [kept]

@[simp] theorem filterMap_kept (l : List Event) :
    (l.filterMap (Event.kept ρ)).filterMap (Event.kept ρ) = l.filterMap (Event.kept ρ) := by
  induction l with
  | nil => rfl
  | cons e l ih =>
      cases h : e.kept ρ with
      | none => simpa [h] using ih
      | some e' => simp [h, Event.kept_of_kept h, ih]

@[simp] theorem Session.outline_outline (s : Session) : (s.outline ρ).outline ρ = s.outline ρ := by
  simp [outline, seen, Clock.starting, ρ.read_read, Function.comp_def]

theorem Session.seen_outline (s : Session) : (s.outline ρ).seen ρ = s.seen ρ := by
  simp [outline, seen, Clock.starting, ρ.read_read, Function.comp_def]

theorem Session.seen_under (s : Session) (d : Driving) : (s.under d).seen ρ = s.seen ρ := rfl

end Twice

/-! ## Reading -/

section Reading

variable (ρ : Retiming)

namespace Store

variable (s : Store)

@[simp] theorem heapObject?_seen (id : String) :
    (s.seen ρ).heapObject? id = (s.heapObject? id).map (HeapObject.retimed ρ) :=
  List.find?_map ..

@[simp] theorem heapLookup?_seen : (s.seen ρ).heapLookup? = s.heapLookup? := by
  funext id
  unfold heapLookup?
  rw [heapObject?_seen, Option.map_map]
  rfl

@[simp] theorem heapView_seen : (s.seen ρ).heapView = s.heapView := by
  unfold heapView
  rw [heapLookup?_seen]
  simp [seen, State.seen]

@[simp] theorem scope?_seen (id : String) :
    (s.seen ρ).scope? id = (s.scope? id).map (Scope.retimed ρ) :=
  List.find?_map ..

@[simp] theorem scopeIds_seen : (s.seen ρ).scopeIds = s.scopeIds := by
  simp [scopeIds, seen, State.seen, Function.comp_def, Scope.retimed]

@[simp] theorem currentScope?_seen : (s.seen ρ).currentScope? = s.currentScope? := by
  simp [currentScope?, seen, State.seen, Function.comp_def, Scope.retimed]

theorem chainFrom_retimed (scopes : List Scope) (fuel : Nat) (id : Option String)
    (seen : List String) :
    chainFrom (scopes.map (Scope.retimed ρ)) fuel id seen = chainFrom scopes fuel id seen := by
  induction fuel generalizing id seen with
  | zero => rfl
  | succ fuel ih =>
      cases id with
      | none => rfl
      | some id =>
          have found : (scopes.map (Scope.retimed ρ)).reverse.find? (·.id == id) =
              (scopes.reverse.find? (·.id == id)).map (Scope.retimed ρ) := by
            rw [← List.map_reverse]
            exact List.find?_map ..
          unfold chainFrom
          rw [found]
          cases scopes.reverse.find? (·.id == id) with
          | none => rfl
          | some scope => simp only [Option.map_some, ih, Scope.retimed]

@[simp] theorem findBinding?_seen (name : String) (scope? : Option String) :
    (s.seen ρ).findBinding? name scope? = s.findBinding? name scope? := by
  have chain (start : String) : (s.seen ρ).chain start = s.chain start := by
    unfold Store.chain
    simp only [seen, State.seen, List.length_map, chainFrom_retimed]
  unfold findBinding?
  simp only [chain]
  simp only [seen, State.seen, List.getLast?_map, ← List.map_reverse, List.findSome?_map]
  cases s.state.scopes.getLast? with
  | none => rfl
  | some innermost => rfl

end Store

namespace Session

variable (s : Session)

theorem store_seen : (s.seen ρ).store = s.store.seen ρ := rfl

@[simp] theorem findOpen_seen : findOpen (s.seen ρ) = findOpen s := by
  funext name scope
  exact Store.findBinding?_seen ρ s.store name scope

@[simp] theorem openParent_seen : (s.seen ρ).openParent = s.openParent := by
  funext closure
  unfold openParent
  rw [store_seen, Store.scopeIds_seen]
  rfl

@[simp] theorem functionOf?_seen (v : Value) : (s.seen ρ).functionOf? v = s.functionOf? v := by
  unfold functionOf?
  rw [store_seen, Store.heapLookup?_seen]

theorem declared?_seen (name : String) : (s.seen ρ).declared? name = s.declared? name := rfl

@[simp] theorem namedFunction?_seen (name : String) (scope : Option String) :
    (s.seen ρ).namedFunction? findOpen name scope = s.namedFunction? findOpen name scope := by
  unfold namedFunction?
  simp only [findOpen_seen, functionOf?_seen]
  rfl

@[simp] theorem callbackOf_seen (task : Task) : (s.seen ρ).callbackOf task = s.callbackOf task := by
  unfold callbackOf
  rw [namedFunction?_seen]

end Session

/-- The closed scopes around a closure are those that are seen. -/
theorem closedChain_retimed (live : List String) (detached : List (String × Scope)) (fuel : Nat)
    (closure : Option String) :
    Act.closedChain live (detached.map fun p => (p.1, p.2.retimed ρ)) fuel closure =
      (Act.closedChain live detached fuel closure).map (Scope.retimed ρ) := by
  induction fuel generalizing closure with
  | zero => cases closure <;> rfl
  | succ fuel ih =>
      cases closure with
      | none => rfl
      | some id =>
          unfold Act.closedChain
          split
          · rfl
          · rw [List.find?_map]
            have same : ((fun p : String × Scope => p.1 == id) ∘
                fun p : String × Scope => (p.1, p.2.retimed ρ)) = fun p => p.1 == id := rfl
            rw [same]
            cases detached.find? (·.1 == id) with
            | none => rfl
            | some p =>
                simp only [Option.map_some, List.map_cons, List.cons.injEq, true_and]
                exact ih p.2.parent

theorem Session.reopened_seen (s : Session) (closure : Option String) :
    (s.seen ρ).reopened closure = (s.reopened closure).map (Scope.retimed ρ) := by
  unfold reopened
  rw [store_seen, Store.scopeIds_seen]
  show (Act.closedChain _ (s.machine.detached.map _) (s.machine.detached.map _).length _).reverse = _
  rw [List.length_map, closedChain_retimed, List.map_reverse]

end Reading

/-! ## Changes -/

/-- Made to what is seen, a change is seen to do and to answer the same. -/
def Even {α β : Type} (f : Store → Double → Change α) (g : α → β) : Prop :=
  ∀ ρ store now, (f (store.seen ρ) (ρ.read now)).seen ρ g = (f store now).seen ρ g

/-- The same for a change that may not be possible. -/
def Even? {α β : Type} (f : Store → Except StoreFault (Change α)) (g : α → β) : Prop :=
  ∀ ρ store, (f (store.seen ρ)).map (Change.seen ρ g) = (f store).map (Change.seen ρ g)

section Even

/-- Replacing a member commutes with a way of seeing members that has no part in
it. -/
theorem modifyFirst_seen {α : Type} {p : α → Bool} {f g : α → α} (twice : ∀ a, g (g a) = g a)
    (hp : ∀ a, p (g a) = p a) (hf : ∀ a, f (g a) = g (f a)) (l : List α) :
    (modifyFirst p f (l.map g)).map g = (modifyFirst p f l).map g := by
  induction l with
  | nil => rfl
  | cons a l ih =>
      simp only [List.map_cons, modifyFirst, hp]
      split
      · simp [hf, twice, Function.comp_def]
      · simp [ih, twice]

variable {α β : Type} {ρ : Retiming} {g : α → β}

theorem seen_congr {c c' : Change α} (store : c.store.seen ρ = c'.store.seen ρ)
    (value : g c.value = g c'.value)
    (events : c.events.filterMap (Event.kept ρ) = c'.events.filterMap (Event.kept ρ)) :
    c.seen ρ g = c'.seen ρ g := by
  simp only [Change.seen, store, value, events]

theorem seen_setStack (s : Store) (stack : List Frame) :
    ((s.seen ρ).setStack stack).seen ρ = (s.setStack stack).seen ρ := by
  show ((s.seen ρ).seen ρ).setStack stack = (s.seen ρ).setStack stack
  rw [Store.seen_seen]

theorem seen_setHeap (s : Store) {heap heap' : List HeapObject}
    (h : heap'.map (HeapObject.retimed ρ) = heap.map (HeapObject.retimed ρ)) :
    ((s.seen ρ).setHeap heap').seen ρ = (s.setHeap heap).seen ρ := by
  show ((s.seen ρ).seen ρ).setHeap (heap'.map _) = (s.seen ρ).setHeap (heap.map _)
  rw [Store.seen_seen, h]

theorem seen_setScopes (s : Store) {scopes scopes' : List Scope}
    (h : scopes'.map (Scope.retimed ρ) = scopes.map (Scope.retimed ρ)) :
    ((s.seen ρ).setScopes scopes').seen ρ = (s.setScopes scopes).seen ρ := by
  show ((s.seen ρ).seen ρ).setScopes (scopes'.map _) = (s.seen ρ).setScopes (scopes.map _)
  rw [Store.seen_seen, h]

theorem retimed_heap (l : List HeapObject) :
    (l.map (HeapObject.retimed ρ)).map (HeapObject.retimed ρ) = l.map (HeapObject.retimed ρ) := by
  simp [Function.comp_def]

theorem retimed_scopes (l : List Scope) :
    (l.map (Scope.retimed ρ)).map (Scope.retimed ρ) = l.map (Scope.retimed ρ) := by
  simp [Function.comp_def]

/-! ### The call stack -/

theorem even_pushFrame (name kind thisBinding : String) (line : Int) :
    Even (fun s _ => s.pushFrame name kind thisBinding line) id := by
  intro ρ store now
  refine seen_congr ?_ rfl rfl
  exact congrArg (fun s : Store => { s with counters := { store.counters with
    frame := store.counters.frame + 1 } }) (seen_setStack store _)

theorem even_popFrame : Even? (fun s => s.popFrame) id := by
  intro ρ store
  have stack : (store.seen ρ).state.callStack = store.state.callStack := rfl
  simp only [Store.popFrame, stack]
  cases store.state.callStack.getLast? with
  | none => rfl
  | some top => exact congrArg Except.ok (seen_congr (seen_setStack store _) rfl rfl)

theorem even_updateFrameVariable (name value kind : String) :
    Even (fun s _ => s.updateFrameVariable name value kind) id := by
  intro ρ store now
  have stack : (store.seen ρ).state.callStack = store.state.callStack := rfl
  simp only [Store.updateFrameVariable, stack]
  split
  · exact seen_congr (Store.seen_seen store) rfl rfl
  · exact seen_congr (seen_setStack store _) rfl rfl

/-! ### The heap -/

theorem even_allocate (kind : String) (payload : Value) :
    Even (fun s now => s.allocate kind payload now) id := by
  intro ρ store now
  refine seen_congr ?_ rfl rfl
  refine congrArg (fun s : Store => { s with counters := { store.counters with
    ref := store.counters.ref + 1 } }) (seen_setHeap store ?_)
  rw [List.map_append, List.map_append]
  refine congrArg₂ (· ++ ·) (retimed_heap _) ?_
  simp [HeapObject.retimed, ρ.read_read, Store.seen]

theorem even_updateHeapValue (id : String) (payload : Value) :
    Even? (fun s => s.updateHeapValue id payload) fun u => u := by
  intro ρ store
  simp only [Store.updateHeapValue, Store.heapObject?_seen]
  cases store.heapObject? id with
  | none => rfl
  | some object =>
      refine congrArg Except.ok (seen_congr (seen_setHeap store ?_) rfl rfl)
      refine modifyFirst_seen HeapObject.retimed_retimed ?_ ?_ _
      · exact fun _ => rfl
      · exact fun _ => rfl

theorem even_addReference (fromId toId : String) :
    Even (fun s _ => s.addReference fromId toId) id := by
  intro ρ store now
  simp only [Store.addReference, Store.heapObject?_seen]
  cases store.heapObject? fromId with
  | none => exact seen_congr (Store.seen_seen store) rfl rfl
  | some object =>
      have known : (object.retimed ρ).references = object.references := rfl
      simp only [Option.map_some, known]
      split
      · exact seen_congr (Store.seen_seen store) rfl rfl
      · refine seen_congr (seen_setHeap store ?_) rfl rfl
        refine modifyFirst_seen HeapObject.retimed_retimed ?_ ?_ _
        · exact fun _ => rfl
        · exact fun _ => rfl

/-! ### Scopes -/

theorem even_createScope (name kind : String) (parent : Option String) :
    Even (fun s now => s.createScope name kind parent now) Scope.id := by
  intro ρ store now
  refine seen_congr ?_ rfl rfl
  refine congrArg (fun s : Store => { s with counters := { store.counters with
    scope := store.counters.scope + 1 } }) (seen_setScopes store ?_)
  rw [List.map_append, List.map_append]
  refine congrArg₂ (· ++ ·) (retimed_scopes _) ?_
  simp [Scope.retimed, ρ.read_read, Store.seen]

theorem even_restoreScope (store : Store) (c : Scope) :
    ((store.seen ρ).restoreScope (c.retimed ρ)).seen ρ id = (store.restoreScope c).seen ρ id := by
  have opened : (store.seen ρ).state.scopes.any (·.id == (c.retimed ρ).id) =
      store.state.scopes.any (·.id == c.id) := by
    simp [Store.seen, State.seen, Scope.retimed, List.any_map, Function.comp_def]
  unfold Store.restoreScope
  rw [opened]
  split
  · exact seen_congr (Store.seen_seen store) rfl rfl
  · refine seen_congr (seen_setScopes store ?_) rfl rfl
    rw [List.map_append, List.map_append]
    refine congrArg₂ (· ++ ·) (retimed_scopes _) ?_
    simp

/-- A name gets the same binding in what is seen. -/
theorem seen_bind (store : Store) (scopeId name : String) (b : Binding) :
    (modifyFirst (·.id == scopeId)
        (fun c => { c with bindings := Datum.setField name b c.bindings })
        (store.seen ρ).state.scopes).map (Scope.retimed ρ) =
      (modifyFirst (·.id == scopeId)
        (fun c => { c with bindings := Datum.setField name b c.bindings })
        store.state.scopes).map (Scope.retimed ρ) := by
  refine modifyFirst_seen Scope.retimed_retimed ?_ ?_ _
  · exact fun _ => rfl
  · exact fun _ => rfl

theorem even_addScopeVariable (scopeId name : String) (b : Binding) :
    Even? (fun s => s.addScopeVariable scopeId name b) id := by
  intro ρ store
  simp only [Store.addScopeVariable, Store.scope?_seen]
  cases store.scope? scopeId with
  | none => rfl
  | some scope =>
      exact congrArg Except.ok
        (seen_congr (seen_setScopes store (seen_bind store scopeId name b)) rfl rfl)

theorem even_updateScopeVariable (scopeId name : String) (value : Value) (kind : Option String) :
    Even? (fun s => s.updateScopeVariable scopeId name value kind) id := by
  intro ρ store
  simp only [Store.updateScopeVariable, Store.scope?_seen]
  cases store.scope? scopeId with
  | none => rfl
  | some scope =>
      have bound : (scope.retimed ρ).binding? name = scope.binding? name := rfl
      simp only [Option.map_some, bound]
      cases scope.binding? name with
      | none => rfl
      | some old =>
          exact congrArg Except.ok
            (seen_congr (seen_setScopes store (seen_bind store scopeId name _)) rfl rfl)

theorem even_destroyScope (store : Store) (scopeId : String) :
    ((store.seen ρ).destroyScope scopeId).map (Change.seen ρ (Scope.retimed ρ)) =
      (store.destroyScope scopeId).map (Change.seen ρ (Scope.retimed ρ)) := by
  simp only [Store.destroyScope, Store.scope?_seen]
  cases store.scope? scopeId with
  | none => rfl
  | some scope =>
      refine congrArg Except.ok (seen_congr (seen_setScopes store ?_) (scope.retimed_retimed) rfl)
      show ((store.state.scopes.map (Scope.retimed ρ)).eraseP _).map _ = _
      rw [List.eraseP_map]
      exact retimed_scopes _

/-! ### Queues, cursor and console -/

theorem even_addTimer (spec : TaskSpec) :
    Even (fun s now => s.addTimer spec now) Task.id := by
  intro ρ store now
  refine seen_congr ?_ rfl ?_
  · simp [Store.addTimer, Store.newTask, Store.setLoop, Store.seen, State.seen, EventLoop.seen,
      Function.comp_def]
  · simp [Store.addTimer, Store.newTask, Event.kept, Store.seen, State.seen, EventLoop.seen,
      Function.comp_def]

theorem even_addMicrotask (spec : TaskSpec) :
    Even (fun s now => s.addMicrotask spec now) Task.id := by
  intro ρ store now
  refine seen_congr ?_ rfl rfl
  simp [Store.addMicrotask, Store.newTask, Store.setLoop, Store.seen, State.seen, EventLoop.seen,
    Function.comp_def]

theorem even_setCurrentLine (line : Int) : Even (fun s _ => s.setCurrentLine line) id := by
  intro ρ store now
  refine seen_congr ?_ rfl rfl
  simp [Store.setCurrentLine, Store.seen, State.seen, EventLoop.seen, Function.comp_def]

theorem even_incrementStep : Even (fun s _ => s.incrementStep) id := by
  intro ρ store now
  refine seen_congr ?_ rfl rfl
  simp [Store.incrementStep, Store.seen, State.seen, EventLoop.seen, Function.comp_def]

theorem even_logConsole (type : String) (args : List String) :
    Even (fun s now => s.logConsole type args now) id := by
  intro ρ store now
  refine seen_congr (Store.seen_seen store) rfl ?_
  simp [Store.logConsole, Event.kept, ConsoleEntry.retimed, ρ.read_read]

end Even

/-! ## Outlines -/

namespace Session

variable (ρ : Retiming) (s : Session)

/-- Of an event the outline shows what is kept of it. -/
theorem outline_noted (e : Event) :
    (s.noted e).outline ρ = (e.kept ρ).elim (s.outline ρ) (s.outline ρ).noted := by
  cases e with
  | console entry =>
      show (s.noted (.console entry)).outline ρ = (s.outline ρ).noted (.console (entry.retimed ρ))
      unfold noted
      dsimp only
      rw [show (s.outline ρ).attached = s.attached from rfl]
      split <;> rfl
  | eventLoop action task loop =>
      cases action with
      | addTimer => cases task <;> rfl
      | _ => rfl
  | _ => rfl

theorem outline_foldl_noted (l : List Event) :
    (l.foldl noted s).outline ρ = (l.filterMap (Event.kept ρ)).foldl noted (s.outline ρ) := by
  induction l generalizing s with
  | nil => rfl
  | cons e l ih =>
      rw [List.foldl_cons, ih, outline_noted]
      cases h : e.kept ρ with
      | none => rw [List.filterMap_cons_none h]; rfl
      | some kept => rw [List.filterMap_cons_some h]; rfl

/-- The outline after a change is that of what is seen of the change. -/
theorem outline_publish {α β : Type} (g : α → β) (c : Change α) :
    (s.publish c).outline ρ = (s.outline ρ).publish (c.seen ρ g) :=
  outline_foldl_noted ρ { s with store := c.store } c.events

variable {ρ s}

theorem outline_publish_congr {α β : Type} {g : α → β} {t : Session} {c c' : Change α}
    (h : s.outline ρ = t.outline ρ) (hc : c.seen ρ g = c'.seen ρ g) :
    (s.publish c).outline ρ = (t.publish c').outline ρ := by
  rw [outline_publish ρ s g, outline_publish ρ t g, h, hc]

end Session

end Runloop
