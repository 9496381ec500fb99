/-
# What frames show

A frame shows a variable of its scope as it was when it was last written while
the scope was the innermost one: its value then, displayed under the heap of
then (`Sight`).  The history alone says what that was (`watched`): it follows the
heap, takes note of every write of the variable, and marks what it saw as no
longer current once the variable is written from another scope.

Frames face the scopes of the open calls one by one (`Faces`), and each of them
mirrors the scope that it faces (`Scope.MirroredBy`).  Every move of code keeps
this (`Setting.Mirrored.move`), and so it lasts (`Setting.Mirrored.lasting`).
-/
import Runloop.Proofs.Unwinding

namespace Runloop

/-! ## What was there to be seen -/

/-- A heap as the display of values sees it. -/
def heapViewOf (heap : List HeapObject) : HeapView :=
  ⟨heap.length, fun id => (heap.find? (·.id == id)).map fun o => ⟨o.kind, o.payload⟩⟩

theorem heapView_eq (store : Store) : store.heapView = heapViewOf store.state.heap := rfl

/-- How a frame would show a value under a heap. -/
def Value.shown (heap : List HeapObject) (v : Value) : Except NumberFault ShownVariable :=
  (v.display (heapViewOf heap)).map fun text => ⟨text, v.kind (heapViewOf heap)⟩

/-- How a frame shows a variable. -/
def Frame.shown? (f : Frame) (name : String) : Option ShownVariable :=
  (f.shown.find? (·.1 == name)).map (·.2)

/-- A variable as it was when its frame was last made to show it. -/
structure Sight where
  value : Value
  heap : List HeapObject
  /-- Nothing was assigned to the variable since. -/
  current : Bool

/-- The heap, and what was last seen of a variable. -/
structure Watch where
  heap : List HeapObject := []
  sight : Option Sight := none

/-- A variable of the scope `id` is written: it is seen if the scope is the
innermost one of `scopes`, and else what was seen goes out of date. -/
def Watch.write (id : String) (b : Binding) (scopes : List Scope) (w : Watch) : Watch :=
  if scopes.getLast?.map (·.id) = some id then { w with sight := some ⟨b.value, w.heap, true⟩ }
  else { w with sight := w.sight.map fun sight => { sight with current := false } }

/-- What an event adds to what is known of a variable. -/
def Watch.note (id name : String) (w : Watch) : Event → Watch
  | .heap _ _ heap _ _ => { w with heap }
  | .scopes _ (some scope) scopes (some written) =>
    if scope.id = id ∧ written = name then
      (scope.binding? name).elim w (Watch.write id · scopes w)
    else w
  | _ => w

@[simp] theorem Watch.write_heap (id : String) (b : Binding) (scopes : List Scope) (w : Watch) :
    (w.write id b scopes).heap = w.heap := by
  unfold Watch.write
  split <;> rfl

/-- What a history shows of a variable of a scope. -/
def watched (id name : String) (trace : List Event) : Watch :=
  trace.foldl (Watch.note id name) {}

theorem watched_append (id name : String) (trace l : List Event) :
    watched id name (trace ++ l) = l.foldl (Watch.note id name) (watched id name trace) :=
  List.foldl_append

/-- The heap is followed as by any subscriber. -/
theorem heap_foldl_note {id name : String} (l : List Event) {w : Watch} {state : State}
    (same : w.heap = state.heap) :
    (l.foldl (Watch.note id name) w).heap = (state.learnAll l).heap := by
  induction l generalizing w state with
  | nil => exact same
  | cons e l ih =>
      refine ih ?_
      cases e with
      | heap => rfl
      | scopes action scope scopes written =>
          refine Eq.trans ?_ same
          cases scope with
          | none => rfl
          | some scope =>
              cases written with
              | none => rfl
              | some written =>
                  rw [Watch.note]
                  split
                  · cases scope.binding? name with
                    | none => rfl
                    | some b => exact w.write_heap id b scopes
                  · rfl
      | _ => exact same

/-- What is not a write adds nothing to what was seen. -/
theorem sight_foldl_note {id name : String} {l : List Event} (h : ∀ e ∈ l, e.isWrite = false)
    (w : Watch) : (l.foldl (Watch.note id name) w).sight = w.sight := by
  induction l generalizing w with
  | nil => rfl
  | cons e l ih =>
      rw [List.foldl_cons, ih fun e he => h e (List.mem_cons_of_mem _ he)]
      have quiet := h e List.mem_cons_self
      cases e with
      | scopes action scope scopes written =>
          cases written with
          | some name => exact absurd quiet (by simp [Event.isWrite])
          | none => cases scope <;> rfl
      | _ => rfl

theorem learnAll_heap_of_topic {l : List Event} (h : ∀ e ∈ l, e.topic ≠ .heap) (state : State) :
    (state.learnAll l).heap = state.heap := by
  induction l generalizing state with
  | nil => rfl
  | cons e l ih =>
      rw [State.learnAll_cons, ih fun e he => h e (List.mem_cons_of_mem _ he)]
      have other := h e List.mem_cons_self
      cases e with
      | heap => exact absurd rfl other
      | _ => rfl

/-! ## A frame and its scope -/

/-- A frame mirrors a scope: it shows none but the variables of the scope, and
those, if they can be displayed, as they were last seen.  What was seen is the
value of the variable unless that went out of date. -/
structure Scope.MirroredBy (trace : List Event) (c : Scope) (f : Frame) : Prop where
  names : ∀ name, (f.shown? name).isSome = true → (c.binding? name).isSome = true
  shows : ∀ name b, c.binding? name = some b → ∃ sight, (watched c.id name trace).sight = some sight ∧
    (∀ shown, sight.value.shown sight.heap = .ok shown → f.shown? name = some shown) ∧
    (sight.current = true → b.value = sight.value)

section Fields

variable {α : Type}

theorem find?_setField (name other : String) (a : α) (fields : List (String × α)) :
    ((Datum.setField name a fields).find? (·.1 == other)).map (·.2) =
      if other = name then some a else (fields.find? (·.1 == other)).map (·.2) := by
  induction fields with
  | nil =>
      by_cases h : other = name
      · simp [Datum.setField, h]
      · simp [Datum.setField, h, Ne.symm h]
  | cons field rest ih =>
      obtain ⟨key, v⟩ := field
      by_cases hk : key = name <;> by_cases ho : key = other
      · simp [Datum.setField, hk, ← ho]
      · have : other ≠ name := fun e => ho (hk.trans e.symm)
        subst hk
        simp [Datum.setField, ho, this]
      · have : other ≠ name := fun e => hk (ho.trans e)
        subst ho
        simp [Datum.setField, hk]
      · simpa [Datum.setField, hk, ho] using ih

end Fields

theorem shown?_showing (name text kind other : String) (f : Frame) :
    (f.showing name text kind).shown? other =
      if other = name then some ⟨text, kind⟩ else f.shown? other :=
  find?_setField name other _ f.shown

theorem binding?_binding (name other : String) (b : Binding) (c : Scope) :
    (c.binding c.id name b).binding? other =
      if other = name then some b else c.binding? other := by
  unfold Scope.binding
  rw [if_pos rfl]
  exact find?_setField name other b c.bindings

/-- A write, as it is told. -/
def Scope.writeEvent (c : Scope) (action : ScopeAction) (name : String) (b : Binding)
    (scopes : List Scope) : Event :=
  .scopes action (some { c with bindings := Datum.setField name b c.bindings }) scopes (some name)

namespace Scope.MirroredBy

variable {trace l : List Event} {c d : Scope} {f g : Frame}

/-- Nothing is written, and the frame shows the same. -/
theorem keep (h : c.MirroredBy trace f) (quiet : ∀ e ∈ l, e.isWrite = false)
    (same : ∀ name, g.shown? name = f.shown? name) : c.MirroredBy (trace ++ l) g := by
  refine ⟨fun name there => h.names name (same name ▸ there), fun name b bound => ?_⟩
  rw [watched_append, sight_foldl_note quiet, same]
  exact h.shows name b bound

/-- A new scope faces a new frame. -/
theorem empty (bindings : c.bindings = []) (shown : f.shown = []) : c.MirroredBy trace f := by
  refine ⟨fun name there => ?_, fun name b bound => ?_⟩
  · simp [Frame.shown?, shown] at there
  · simp [Scope.binding?, bindings] at bound

variable {action : ScopeAction} {name : String} {b : Binding} {scopes : List Scope}

/-- What is written to another scope makes no difference. -/
theorem elsewhere (h : c.MirroredBy trace f) (other : d.id ≠ c.id) :
    c.MirroredBy (trace ++ [d.writeEvent action name b scopes]) f := by
  refine ⟨h.names, fun name' b' bound => ?_⟩
  have same : (watched c.id name' (trace ++ [d.writeEvent action name b scopes])).sight =
      (watched c.id name' trace).sight := by
    rw [watched_append, List.foldl_cons, List.foldl_nil, Scope.writeEvent, Watch.note,
      if_neg fun both => other both.1]
  rw [same]
  exact h.shows name' b' bound

/-- What is known after a write. -/
theorem watched_write (name' : String) :
    watched c.id name' (trace ++ [c.writeEvent action name b scopes]) =
      if name = name' then (watched c.id name' trace).write c.id b scopes
      else watched c.id name' trace := by
  rw [watched_append, List.foldl_cons, List.foldl_nil, Scope.writeEvent, Watch.note]
  by_cases he : name = name'
  · subst he
    rw [if_pos ⟨rfl, rfl⟩, if_pos rfl, binding?_setField, Option.elim_some]
  · rw [if_neg fun both => he both.2, if_neg he]

/-- A variable is written, and the frame shows the others as before. -/
theorem write (h : c.MirroredBy trace f)
    (others : ∀ other, other ≠ name → g.shown? other = f.shown? other)
    (inside : scopes.getLast?.map (·.id) = some c.id → ∀ shown,
      b.value.shown (watched c.id name trace).heap = .ok shown → g.shown? name = some shown)
    (outside : scopes.getLast?.map (·.id) ≠ some c.id →
      (c.binding? name).isSome = true ∧ g.shown? name = f.shown? name) :
    (c.binding c.id name b).MirroredBy (trace ++ [c.writeEvent action name b scopes]) g := by
  refine ⟨fun name' there => ?_, fun name' b' bound => ?_⟩
  · rw [binding?_binding]
    split
    · rfl
    · rename_i other
      exact h.names name' (others name' other ▸ there)
  · rw [binding?_binding] at bound
    rw [Scope.binding_id, watched_write]
    by_cases he : name' = name
    · subst he
      rw [if_pos rfl] at bound
      cases bound
      rw [if_pos rfl, Watch.write]
      by_cases inner : scopes.getLast?.map (·.id) = some c.id
      · rw [if_pos inner]
        exact ⟨_, rfl, inside inner, fun _ => rfl⟩
      · obtain ⟨there, same⟩ := outside inner
        obtain ⟨old, was⟩ := Option.isSome_iff_exists.mp there
        obtain ⟨sight, seen, shows, -⟩ := h.shows name' old was
        rw [if_neg inner, seen, same]
        exact ⟨_, rfl, shows, by simp⟩
    · rw [if_neg he] at bound
      rw [if_neg (Ne.symm he), others name' he]
      exact h.shows name' b' bound

end Scope.MirroredBy

/-! ## Frames face the scopes of the open calls -/

/-- The frames of a stack, bottom first, go with the global scope and with the
scopes of the open calls, innermost first. -/
inductive Faces (P : Frame → String → Prop) : List Frame → List Call → Prop
  | base {f : Frame} : P f (Store.scopeId 1) → Faces P [f] []
  | call {stack : List Frame} {f : Frame} {call : Call} {calls : List Call} :
      Faces P stack calls → P f call.scope → Faces P (stack ++ [f]) (call :: calls)

/-- The scopes that frames face, innermost first. -/
def facedIds (calls : List Call) : List String := calls.map (·.scope) ++ [Store.scopeId 1]

namespace Faces

variable {P Q : Frame → String → Prop} {stack : List Frame} {call : Call} {calls : List Call}

theorem mono (h : Faces P stack calls) (imp : ∀ f, ∀ id ∈ facedIds calls, P f id → Q f id) :
    Faces Q stack calls := by
  induction h with
  | base hf => exact .base (imp _ _ (by simp [facedIds]) hf)
  | call _ hf ih =>
      refine .call (ih fun f id hid => imp f id ?_) (imp _ _ (by simp [facedIds]) hf)
      exact List.mem_cons_of_mem _ hid

/-- The top frame faces the scope that runs. -/
theorem top (h : Faces P stack calls) :
    ∃ front f, stack = front ++ [f] ∧ P f (innermost calls) := by
  cases h with
  | base hf => exact ⟨[], _, rfl, hf⟩
  | call _ hf => exact ⟨_, _, rfl, hf⟩

/-- The top frame changes, and what the others face. -/
theorem modifyLast {g : Frame → Frame} (h : Faces P stack calls)
    (below : ∀ f, ∀ id ∈ facedIds calls, id ≠ innermost calls → P f id → Q f id)
    (above : ∀ f, P f (innermost calls) → Q (g f) (innermost calls))
    (nodup : (facedIds calls).Nodup) : Faces Q (modifyLast g stack) calls := by
  cases h with
  | base hf => exact .base (above _ hf)
  | @call stack f call calls hs hf =>
      rw [modifyLast_concat]
      refine .call (hs.mono fun f id hid => ?_) (above _ hf)
      refine below f id (List.mem_cons_of_mem _ hid) ?_
      rintro rfl
      exact (List.nodup_cons.mp nodup).1 hid

theorem push (h : Faces P stack calls) {f : Frame} (hf : P f call.scope)
    (same : ∀ f id, P f id → P { f with active := false } id) :
    Faces P (Runloop.modifyLast (fun f => { f with active := false }) stack ++ [f])
      (call :: calls) := by
  refine .call ?_ hf
  cases h with
  | base hf => exact .base (same _ _ hf)
  | call hs hf =>
      rw [modifyLast_concat]
      exact .call hs (same _ _ hf)

theorem pop (h : Faces P stack (call :: calls))
    (same : ∀ f id, P f id → P { f with active := true } id) :
    Faces P (Runloop.modifyLast (fun f => { f with active := true }) stack.dropLast) calls := by
  cases h with
  | call hs _ =>
      rw [List.dropLast_concat]
      cases hs with
      | base hf => exact .base (same _ _ hf)
      | call hs hf =>
          rw [modifyLast_concat]
          exact .call hs (same _ _ hf)

end Faces

/-- The scopes that frames face are among those that the open calls hold. -/
theorem facedIds_sublist (calls : List Call) :
    (facedIds calls).reverse.Sublist (Store.scopeId 1 :: openIds calls) := by
  have own : (calls.map (·.scope)).reverse.Sublist (openIds calls) := by
    induction calls with
    | nil => exact .slnil
    | cons call calls ih =>
        rw [List.map_cons, List.reverse_cons]
        refine ih.append ?_
        simp [Call.closing]
  rw [facedIds, List.reverse_append]
  exact own.cons_cons _

theorem Held.nodup_facedIds {s : Session} {calls : List Call} {spilt : List String}
    (h : Held s calls spilt) : (facedIds calls).Nodup := by
  have nodup := h.nodup
  rw [h.scopes] at nodup
  exact List.nodup_reverse.mp
    (nodup.sublist ((facedIds_sublist calls).trans (List.sublist_append_left ..)))

/-! ## Moves -/

/-- A frame mirrors the open scope of an identity. -/
def Session.Mirrors (s : Session) (f : Frame) (id : String) : Prop :=
  ∃ c ∈ s.store.state.scopes, c.id = id ∧ c.MirroredBy s.trace f

/-- The heap is the one that the history tells, and every frame mirrors the scope
that it faces. -/
structure Setting.Mirrored (a : Setting) : Prop where
  heap : ∀ id name, (watched id name a.session.trace).heap = a.session.store.state.heap
  faces : Faces a.session.Mirrors a.session.store.state.callStack a.calls

namespace Setting.Mirrored

variable {s t : Session} {call : Call} {calls : List Call} {spilt spilt' : List String}

theorem heap_of_learnt {l : List Event} (h : Mirrored ⟨s, calls, spilt⟩)
    (trace : t.trace = s.trace ++ l)
    (learnt : (s.store.state.learnAll l).heap = t.store.state.heap) (id name : String) :
    (watched id name t.trace).heap = t.store.state.heap := by
  rw [trace, watched_append, heap_foldl_note l (h.heap id name), learnt]

/-- Nothing is written, the scopes that frames face stay, and frames show what
they showed. -/
theorem keep {l : List Event} (h : Mirrored ⟨s, calls, spilt⟩) (trace : t.trace = s.trace ++ l)
    (quiet : ∀ e ∈ l, e.isWrite = false)
    (learnt : (s.store.state.learnAll l).heap = t.store.state.heap)
    (stack : t.store.state.callStack = s.store.state.callStack)
    (scopes : ∀ c ∈ s.store.state.scopes, c.id ∈ facedIds calls → c ∈ t.store.state.scopes) :
    Mirrored ⟨t, calls, spilt'⟩ := by
  refine ⟨h.heap_of_learnt trace learnt, ?_⟩
  show Faces t.Mirrors t.store.state.callStack calls
  rw [stack]
  refine h.faces.mono ?_
  rintro f _ hid ⟨c, hc, rfl, mirrored⟩
  exact ⟨c, scopes c hc hid, rfl, trace ▸ mirrored.keep quiet fun _ => rfl⟩

/-- Neither scopes nor the heap are touched. -/
theorem aside {l : List Event} (h : Mirrored ⟨s, calls, spilt⟩) (trace : t.trace = s.trace ++ l)
    (topic : ∀ e ∈ l, e.topic ≠ .scopes ∧ e.topic ≠ .heap)
    (heap : t.store.state.heap = s.store.state.heap)
    (stack : t.store.state.callStack = s.store.state.callStack)
    (scopes : t.store.state.scopes = s.store.state.scopes) : Mirrored ⟨t, calls, spilt⟩ := by
  refine h.keep trace (fun e he => ?_) ?_ stack fun c hc _ => scopes ▸ hc
  · have other := (topic e he).1
    cases e with
    | scopes => exact absurd rfl other
    | _ => rfl
  · rw [learnAll_heap_of_topic fun e he => (topic e he).2, heap]

/-- A variable of an open scope is written, and the top frame changes. -/
theorem write {id name : String} {c : Scope} {action : ScopeAction} {b : Binding} {g : Frame → Frame}
    {l : List Event} (h : Mirrored ⟨s, calls, []⟩) (sound : Sound ⟨s, calls, []⟩)
    (found : s.store.scope? id = some c)
    (scopes : t.store.state.scopes = (s.store.rebinding action c name b).store.state.scopes)
    (trace : t.trace = s.trace ++ (s.store.rebinding action c name b).events ++ l)
    (quiet : ∀ e ∈ l, e.topic = .callStack) (heap : t.store.state.heap = s.store.state.heap)
    (stack : t.store.state.callStack = modifyLast g s.store.state.callStack)
    (others : ∀ f other, other ≠ name → (g f).shown? other = f.shown? other)
    (inside : s.store.currentScope? = some id → ∀ f shown,
      b.value.shown s.store.state.heap = .ok shown → (g f).shown? name = some shown)
    (outside : s.store.currentScope? ≠ some id →
      (c.binding? name).isSome = true ∧ ∀ f, (g f).shown? name = f.shown? name) :
    Mirrored ⟨t, calls, []⟩ := by
  have current : s.store.currentScope? = some (innermost calls) := sound.held.current_innermost
  have last : (s.store.rebinding action c name b).store.state.scopes.getLast?.map (·.id) =
      s.store.currentScope? := currentScope?_rebinding action c b
  have cid : c.id = id := scope?_id found
  subst cid
  have silent : ∀ e ∈ l, e.isWrite = false := fun e he => by
    have topic := quiet e he
    cases e with
    | callStack => rfl
    | _ => cases topic
  -- every scope is where it was, with the variable written if it is that one
  have there {d : Scope} (hd : d ∈ s.store.state.scopes) :
      d.binding c.id name b ∈ t.store.state.scopes := by
    rw [scopes]
    show _ ∈ modifyFirst _ _ _
    rw [modifyFirst_eq_map sound.held.nodup]
    exact List.mem_map_of_mem hd
  have only {d : Scope} (hd : d ∈ s.store.state.scopes) (same : d.id = c.id) : d = c :=
    List.inj_on_of_nodup_map sound.held.nodup hd (List.mem_of_find?_eq_some found) same
  have elsewhere {d : Scope} {f : Frame} (mirrored : d.MirroredBy s.trace f)
      (other : c.id ≠ d.id) : (d.binding c.id name b).MirroredBy t.trace f := by
    rw [Scope.binding_of_ne (Ne.symm other), trace]
    exact (mirrored.elsewhere other).keep silent fun _ => rfl
  have here {f : Frame} (mirrored : c.MirroredBy s.trace f)
      (outer : s.store.currentScope? ≠ some c.id) :
      (c.binding c.id name b).MirroredBy t.trace f := by
    rw [trace]
    refine (mirrored.write (fun _ _ => rfl) (fun inner => ?_) fun _ => ⟨(outside outer).1, rfl⟩).keep
      silent fun _ => rfl
    exact absurd (last.symm.trans inner) outer
  refine ⟨fun id' name' => ?_, ?_⟩
  · rw [trace, List.append_assoc, watched_append, heap_foldl_note _ (h.heap id' name'),
      learnAll_heap_of_topic, heap]
    intro e he
    rcases List.mem_append.mp he with he | he
    · simp [List.mem_singleton.mp he, Event.topic]
    · simp [quiet e he]
  · show Faces t.Mirrors t.store.state.callStack calls
    rw [stack]
    refine h.faces.modifyLast ?_ ?_ sound.held.nodup_facedIds
    · rintro f _ - below ⟨d, hd, rfl, mirrored⟩
      refine ⟨_, there hd, Scope.binding_id .., ?_⟩
      by_cases same : d.id = c.id
      · cases only hd same
        refine here mirrored fun inner => below ?_
        exact Option.some.inj (inner.symm.trans current)
      · exact elsewhere mirrored (Ne.symm same)
    · rintro f ⟨d, hd, inner, mirrored⟩
      refine ⟨_, there hd, (Scope.binding_id ..).trans inner, ?_⟩
      by_cases same : d.id = c.id
      · cases only hd same
        rw [trace]
        refine (mirrored.write (others f) (fun inner shown ok => ?_) fun outer => ?_).keep silent
          fun _ => rfl
        · rw [h.heap] at ok
          exact inside (last.symm.trans inner) f shown ok
        · exact absurd (last.trans (current.trans (congrArg some inner.symm))) outer
      · have outer : s.store.currentScope? ≠ some c.id := fun e =>
          same (inner.trans (Option.some.inj (current.symm.trans e)))
        have unseen : ∀ other, (g f).shown? other = f.shown? other := fun other => by
          by_cases he : other = name
          · exact he ▸ (outside outer).2 f
          · exact others f other he
        have := (elsewhere mirrored (Ne.symm same)).keep (by simp) unseen (l := [])
        rwa [List.append_nil] at this

theorem deed (h : Mirrored ⟨s, calls, []⟩) (sound : Sound ⟨s, calls, []⟩)
    (d : Deed (innermost calls) s t) : Mirrored ⟨t, calls, []⟩ := by
  -- a change of a store that tells all it does, and writes no variable
  have told {α : Type} {c : Change α} (deeds : ∀ e ∈ c.events, e.isDeed = true)
      (quiet : ∀ e ∈ c.events, e.isWrite = false) (tells : c.Tells s.store.state)
      (stack : c.store.state.callStack = s.store.state.callStack)
      (scopes : c.store.state.scopes = s.store.state.scopes) :
      Mirrored ⟨s.publish c, calls, []⟩ := by
    refine h.keep (Deed.trace_of_events deeds) quiet ?_ ?_ ?_
    · rw [tells.learnt, Session.publish_store]
      rfl
    · rw [Session.publish_store, stack]
    · rw [Session.publish_store, scopes]
      exact fun c hc _ => hc
  cases d with
  | reach | setClock | compile => exact ⟨h.heap, h.faces⟩
  | aside a =>
      refine told (fun e he => e.isDeed_of_isAside (a.events e he)) (fun e he => ?_) a.told a.stack
        a.scopes
      have := a.events e he
      cases e with
      | scopes => cases this
      | _ => rfl
  | function =>
      exact told (List.forall_mem_singleton.mpr rfl) (List.forall_mem_singleton.mpr rfl)
        (s.store.tells_allocate ..) rfl rfl
  | promise | timer =>
      exact told (List.forall_mem_singleton.mpr rfl) (List.forall_mem_singleton.mpr rfl)
        (.single rfl rfl rfl) rfl rfl
  | @write action id text c name b ha found innermost shown =>
      refine h.write sound found ?_ (Deed.trace_written ha)
        (fun e he => (isDeed_of_showing _ _ _ _ e he).2) ?_
        (g := Frame.showing name text (b.value.kind s.store.heapView)) ?_ ?_ ?_ ?_
      · simp only [Session.written, Session.publish_store, updateFrameVariable_store]
        rfl
      · simp only [Session.written, Session.publish_store, updateFrameVariable_store]
        rfl
      · simp only [Session.written, Session.publish_store, updateFrameVariable_store]
        rfl
      · intro f other hne
        rw [shown?_showing, if_neg hne]
      · intro _ f seen ok
        rw [Value.shown, ← heapView_eq, shown] at ok
        cases ok
        rw [shown?_showing, if_pos rfl]
      · exact fun outer => absurd innermost outer
  | @bind action owner c name b ha found undisplayed bound =>
      refine h.write sound found (by rw [Session.publish_store])
        ((Deed.trace_of_events (isDeed_of_rebinding ha)).trans (List.append_nil _).symm) (by simp)
        (by rw [Session.publish_store]; rfl) (g := id) ?_ (fun _ _ _ => rfl) ?_
        fun outer => ⟨bound outer, fun _ => rfl⟩
      · rw [Session.publish_store, modifyLast_id]
        rfl
      · intro inner f seen ok
        obtain ⟨fault, failed⟩ := undisplayed inner
        rw [Value.shown, ← heapView_eq, failed] at ok
        cases ok

/-- Scopes are opened, and those that were open stay. -/
theorem rescoped (h : Mirrored ⟨s, calls, spilt⟩) (r : Rescoped s t)
    (scopes : ∀ c ∈ s.store.state.scopes, c.id ∈ facedIds calls → c ∈ t.store.state.scopes) :
    Mirrored ⟨t, calls, spilt'⟩ := by
  obtain ⟨l, trace, topic⟩ := r.trace
  refine h.keep trace (fun e he => (topic e he).2) ?_ r.stack scopes
  rw [learnAll_heap_of_topic fun e he => by simp [(topic e he).1], r.heap]

theorem spill {id : String} (h : Mirrored ⟨s, calls, []⟩) (sound : Sound ⟨s, calls, []⟩)
    (name : String) (hid : id ∈ idsOf (everOpened s.trace)) :
    Mirrored ⟨s.opening id name, calls, spilt⟩ := by
  obtain ⟨p, tail, scopes, -⟩ := (sound.placed rfl).linked_opening name 0 hid
  refine h.rescoped (.opening s id name) fun c hc _ => ?_
  rw [scopes]
  exact List.mem_append_left _ hc

/-- The scope of a new call is empty, and so is its frame. -/
theorem enter {id : String} (h : Mirrored ⟨s, calls, []⟩) (sound : Sound ⟨s, calls, []⟩)
    (name thisBinding : String) (line : Int) (receiver : Value)
    (hid : id ∈ idsOf (everOpened s.trace)) :
    Mirrored ⟨s.entered id name thisBinding line receiver, s.nextCall id line :: calls, []⟩ := by
  have opened : Mirrored ⟨s.opening id name, calls, []⟩ := h.spill sound name hid
  obtain ⟨part, nested, -⟩ := (sound.placed rfl).reopened hid
  obtain ⟨-, -, -, counters⟩ := (sound.placed rfl).restored part nested
  have store : (s.entered id name thisBinding line receiver).store =
      ((s.opening id name).store.pushFrame name "function" thisBinding line).store := by
    simp only [Session.entered, Session.publish_store]
  have trace : (s.entered id name thisBinding line receiver).trace = (s.opening id name).trace ++
      ((s.opening id name).store.pushFrame name "function" thisBinding line).events :=
    Session.trace_publish (List.forall_mem_singleton.mpr rfl)
  refine ⟨fun id' name' => ?_, ?_⟩
  · rw [store]
    exact opened.heap_of_learnt trace (by rw [store]; rfl) id' name'
  · show Faces (s.entered id name thisBinding line receiver).Mirrors _ _
    have faces : Faces (s.entered id name thisBinding line receiver).Mirrors
        (s.opening id name).store.state.callStack calls := by
      refine opened.faces.mono ?_
      rintro f _ - ⟨c, hc, rfl, mirrored⟩
      refine ⟨c, by rw [store]; exact hc, rfl, trace ▸ ?_⟩
      exact mirrored.keep (List.forall_mem_singleton.mpr rfl) fun _ => rfl
    rw [store]
    let own := ((s.restored (s.reopened (some id))).store.createScope name "function" (some id)
      (s.restored (s.reopened (some id))).now).value
    refine faces.push ⟨own, ?_, ?_, .empty rfl rfl⟩ ?_
    · rw [store]
      simp [own, Session.opening, Store.createScope, Store.setScopes, Store.pushFrame,
        Store.setStack]
    · simp [own, Store.createScope, Session.nextCall, counters]
    · rintro f id' ⟨c, hc, e, mirrored⟩
      exact ⟨c, hc, e, mirrored.names, mirrored.shows⟩

theorem mem_shut {c : Scope} {id : String} (hc : c ∈ s.store.state.scopes) (other : c.id ≠ id) :
    c ∈ (s.shut id).store.state.scopes := by
  cases found : s.store.scope? id with
  | none =>
      unfold Session.shut Store.destroyScope
      rw [found]
      exact hc
  | some d =>
      rw [Session.shut_eq found]
      show c ∈ (Session.publish _ _).store.state.scopes
      rw [Session.publish_store]
      exact (List.mem_eraseP_of_neg (by simpa using other)).mpr hc

theorem mem_shutAll {c : Scope} {ids : List String} (hc : c ∈ s.store.state.scopes)
    (out : c.id ∉ ids) : c ∈ (ids.foldl Session.shut s).store.state.scopes := by
  induction ids generalizing s with
  | nil => exact hc
  | cons id ids ih =>
      obtain ⟨other, rest⟩ := not_or.mp fun either => out (List.mem_cons.mpr either)
      exact ih (mem_shut hc other) rest

theorem leave (h : Mirrored ⟨s, call :: calls, spilt⟩) (sound : Sound ⟨s, call :: calls, spilt⟩) :
    Mirrored ⟨s.left call, calls, spilt⟩ := by
  have held := sound.held
  obtain ⟨top, htop⟩ : ∃ top, s.store.state.callStack.getLast? = some top :=
    ⟨_, List.getLast?_eq_some_getLast held.stack.ne_nil⟩
  have trace := Session.popped_trace htop
  have popped : Mirrored ⟨s.popped, calls, spilt⟩ := by
    refine ⟨h.heap_of_learnt trace (by rw [Session.popped_store]; rfl), ?_⟩
    show Faces s.popped.Mirrors s.popped.store.state.callStack calls
    have faces : Faces s.popped.Mirrors s.store.state.callStack (call :: calls) := by
      refine h.faces.mono ?_
      rintro f _ - ⟨c, hc, rfl, mirrored⟩
      refine ⟨c, by rw [Session.popped_store]; exact hc, rfl, trace ▸ ?_⟩
      exact mirrored.keep (List.forall_mem_singleton.mpr rfl) fun _ => rfl
    rw [Session.popped_store]
    refine faces.pop ?_
    rintro f id' ⟨c, hc, e, mirrored⟩
    exact ⟨c, hc, e, mirrored.names, mirrored.shows⟩
  refine popped.rescoped (.foldl .shut call.closing s.popped) fun c hc faced => mem_shutAll hc ?_
  -- what the other frames face is not closed with the call
  intro closing
  have nodup := held.nodup
  rw [held.scopes_cons] at nodup
  have outer : c.id ∈ Store.scopeId 1 :: openIds calls :=
    (facedIds_sublist calls).subset (List.mem_reverse.mpr faced)
  exact List.disjoint_of_nodup_append (List.Nodup.of_append_left nodup) outer
    (List.mem_reverse.mpr closing)

theorem move {a b : Setting} (h : Mirrored a) (sound : Sound a) (m : Move a b) : Mirrored b := by
  cases m with
  | deed d => exact h.deed sound d
  | enter name thisBinding line receiver hid _ =>
      exact h.enter sound name thisBinding line receiver hid
  | leave => exact h.leave sound
  | spill name line hid => exact h.spill sound name hid

/-! ## All runs -/

theorem beside (h : Mirrored ⟨s, calls, spilt⟩) (b : Beside s t) : Mirrored ⟨t, calls, spilt⟩ := by
  obtain ⟨l, trace, quiet⟩ := b.trace
  refine h.aside trace (fun e he => ?_) b.heap b.stack b.scopes
  have := quiet e he
  cases e with
  | currentLine | execution | console => simp [Event.topic]
  | _ => cases this

theorem requeue {α : Type} {c : Change α} (h : Mirrored ⟨s, calls, spilt⟩)
    (r : c.Requeues s.store) : Mirrored ⟨s.publish c, calls, spilt⟩ := by
  refine h.aside r.trace (fun e he => by simp [(r.events e he).1]) ?_ ?_ ?_
  all_goals
    rw [Session.publish_store, r.same]
    rfl

theorem lasting : Lasting Mirrored :=
  .of_requeues (fun m sound h => h.move sound m) (fun b h => h.beside b)
    (fun r h => h.requeue r) fun h => ⟨h.heap, h.faces⟩

end Setting.Mirrored

/-- Every frame mirrors the scope that it faces. -/
def Session.Mirrored (s : Session) : Prop := Setting.Mirrored ⟨s, s.calls, []⟩

theorem Session.begun_mirrored (s : Session) (program : List Instruction) :
    (s.begun program).Mirrored := by
  refine ⟨fun _ _ => rfl, .base ⟨_, List.mem_singleton_self _, rfl, .empty rfl rfl⟩⟩

theorem Reached.mirrored {why : Option Fault} {s : Session} (h : Reached why s) : s.Mirrored :=
  (h.induct (P := fun _ s => s.Mirrored) (fun s program _ => s.begun_mirrored program)
    fun _ _ _ _ standing mirrored k => Setting.Mirrored.lasting.tick k standing mirrored).2

/-- The scope that runs is the innermost one, unless scopes were spilt. -/
theorem Reached.innermost {why : Option Fault} {s : Session} (h : Reached why s)
    (clean : ∀ f ∈ why, f.spills = false) :
    s.store.currentScope? = some (innermost s.calls) := by
  by_cases on : s.phase = .completed
  · obtain ⟨none, spilt, sound, unspilt⟩ := h.standing.ended on
    rw [unspilt clean] at sound
    rw [Session.calls, none]
    exact sound.held.current_innermost
  · exact (h.steady on).sound.held.current_innermost

/-- At every pause, also of a program that is over, each frame mirrors the scope
that it faces, and the top frame faces the innermost scope: it shows none but the
variables of that scope, and those as they were when they were last written while
the scope ran.  So a variable is shown as it is, unless it was assigned from
another scope since, or the heap has changed so that it would be displayed
otherwise. -/
theorem frames_mirror_scopes {why : Option Fault} {s : Session} (h : Reached why s)
    (clean : ∀ f ∈ why, f.spills = false) :
    Faces s.Mirrors s.store.state.callStack s.calls ∧
    ∃ below frame outer scope, s.store.state.callStack = below ++ [frame] ∧
      s.store.state.scopes = outer ++ [scope] ∧
      (∀ name, (frame.shown? name).isSome = true → (scope.binding? name).isSome = true) ∧
      ∀ name b, scope.binding? name = some b →
        ∃ sight, (watched scope.id name s.trace).sight = some sight ∧
          (∀ shown, sight.value.shown sight.heap = .ok shown → frame.shown? name = some shown) ∧
          (sight.current = true → b.value = sight.value ∧
            (b.value.shown s.store.state.heap = b.value.shown sight.heap →
              ∀ shown, b.value.shown s.store.state.heap = .ok shown →
                frame.shown? name = some shown)) := by
  have faces := h.mirrored.faces
  obtain ⟨below, frame, stack, scope, there, faced, mirrored⟩ := faces.top
  have last := h.innermost clean
  rw [Store.currentScope?, Option.map_eq_some_iff] at last
  obtain ⟨last, isLast, same⟩ := last
  have nodup : (idsOf s.store.state.scopes).Nodup := by
    by_cases on : s.phase = .completed
    · obtain ⟨-, spilt, sound, -⟩ := h.standing.ended on
      exact sound.held.nodup
    · exact (h.steady on).sound.held.nodup
  cases List.inj_on_of_nodup_map nodup there (List.mem_of_getLast? isLast) (faced.trans same.symm)
  obtain ⟨outer, scopes⟩ := List.getLast?_eq_some_iff.mp isLast
  refine ⟨faces, below, frame, outer, scope, stack, scopes, mirrored.names, fun name b bound => ?_⟩
  obtain ⟨sight, seen, shows, current⟩ := mirrored.shows name b bound
  refine ⟨sight, seen, shows, fun fresh => ⟨current fresh, fun same shown now => ?_⟩⟩
  rw [same, current fresh] at now
  exact shows shown now

/-- A number and an array are declared, changed by a call, and followed by
another number. -/
def Session.changing : Session :=
  .running "let x = 1;\nlet a = [1];\nfunction f() \x7b x = 2; a.push(2); \x7d\nf();\nlet y = 3;\ny;"
    {} 9

/-- The frame shows the first two as they were declared, and the last as it is. -/
theorem changes_from_calls_go_unseen :
    ∃ below frame outer scope, Session.changing.store.state.callStack = below ++ [frame] ∧
      Session.changing.store.state.scopes = outer ++ [scope] ∧
      frame.shown? "x" = some ⟨"1", "number"⟩ ∧ frame.shown? "a" = some ⟨"[1]", "array"⟩ ∧
      frame.shown? "y" = some ⟨"3", "number"⟩ ∧
      ["x", "a", "y"].map (fun name => (scope.binding? name).bind fun b =>
          (b.value.shown Session.changing.store.state.heap).toOption) =
        [some ⟨"2", "number"⟩, some ⟨"[1, 2]", "array"⟩, some ⟨"3", "number"⟩] := by
  obtain ⟨why, h⟩ : Session.changing.Live := Session.running_live 9 (by decide +kernel)
  obtain ⟨on, innermost, x, a, y, now⟩ : Session.changing.phase ≠ .completed ∧
      Session.changing.store.currentScope? = some "scope_1" ∧
      (watched "scope_1" "x" Session.changing.trace).sight.bind
        (fun sight => (sight.value.shown sight.heap).toOption) = some ⟨"1", "number"⟩ ∧
      (watched "scope_1" "a" Session.changing.trace).sight.bind
        (fun sight => (sight.value.shown sight.heap).toOption) = some ⟨"[1]", "array"⟩ ∧
      (watched "scope_1" "y" Session.changing.trace).sight.bind
        (fun sight => (sight.value.shown sight.heap).toOption) = some ⟨"3", "number"⟩ ∧
      ["x", "a", "y"].map (fun name => (Session.changing.store.state.scopes.getLast?.bind
          (·.binding? name)).bind fun b =>
            (b.value.shown Session.changing.store.state.heap).toOption) =
        [some ⟨"2", "number"⟩, some ⟨"[1, 2]", "array"⟩, some ⟨"3", "number"⟩] := by
    decide +kernel
  obtain ⟨-, below, frame, outer, scope, stack, scopes, -, shows⟩ :=
    frames_mirror_scopes h (by simp [h.on on])
  rw [Store.currentScope?, scopes, List.getLast?_concat, Option.map_some] at innermost
  rw [scopes, List.getLast?_concat] at now
  have id : scope.id = "scope_1" := Option.some.inj innermost
  have seen {name : String} {shown now : ShownVariable}
      (was : (watched "scope_1" name Session.changing.trace).sight.bind
        (fun sight => (sight.value.shown sight.heap).toOption) = some shown)
      (bound : (scope.binding? name).bind (fun b =>
        (b.value.shown Session.changing.store.state.heap).toOption) = some now) :
      frame.shown? name = some shown := by
    obtain ⟨b, hb, -⟩ := Option.bind_eq_some_iff.mp bound
    obtain ⟨sight, hs, shown', -⟩ := shows name b hb
    rw [← id, hs, Option.bind_some] at was
    refine shown' shown ?_
    cases ok : sight.value.shown sight.heap with
    | ok a =>
        rw [ok] at was
        exact congrArg _ (Option.some.inj was)
    | error fault =>
        rw [ok] at was
        cases was
  obtain ⟨nowX, nowA, nowY⟩ : _ ∧ _ ∧ _ := by
    simpa only [List.map_cons, List.map_nil, List.cons.injEq, and_true] using now
  exact ⟨below, frame, outer, scope, stack, scopes, seen x nowX, seen a nowA, seen y nowY, now⟩

end Runloop
