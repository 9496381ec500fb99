/-
What a subscriber can know.  A subscriber to everything that starts from a
copy of the state and keeps the latest of what the events carry holds the
state of the store after every operation, but for the count of steps, which
no event tells.  Whatever an event carries is also what stands in the copy of
the state that comes with it.

The step is `StoreOp.tells_apply`: an operation that is done changes nothing
that its events do not carry.  The run is `Board.followed_performAll`.
-/
import Runloop.Store.Operation

namespace Runloop

/-! ## Keeping the latest -/

namespace State

/-- What is known once an event has been seen: what it carries takes the place
of what was known of it. -/
def learn (s : State) : Event → State
  | .callStack _ _ stack => { s with callStack := stack }
  | .heap _ _ heap _ _ => { s with heap }
  | .scopes _ _ scopes _ => { s with scopes }
  | .eventLoop _ _ loop => { s with loop }
  | .currentLine line => { s with currentLine := line }
  | .execution isRunning isPaused speed => { s with isRunning, isPaused, speed }
  | .console _ => s

/-- What is known once events have been seen one after the other. -/
def learnAll (s : State) (events : List Event) : State := events.foldl learn s

@[simp] theorem learnAll_nil (s : State) : s.learnAll [] = s := rfl

@[simp] theorem learnAll_cons (s : State) (e : Event) (events : List Event) :
    s.learnAll (e :: events) = (s.learn e).learnAll events := rfl

@[simp] theorem learnAll_append (s : State) (l₁ l₂ : List Event) :
    s.learnAll (l₁ ++ l₂) = (s.learnAll l₁).learnAll l₂ := List.foldl_append

/-- An event tells nothing new the second time. -/
theorem learn_learn (s : State) (e : Event) : (s.learn e).learn e = s.learn e := by
  cases e <;> rfl

/-- An event that comes several times in a row counts once. -/
theorem learnAll_replicate (s : State) (e : Event) (n : Nat) :
    s.learnAll (List.replicate (n + 1) e) = s.learn e := by
  induction n with
  | zero => rfl
  | succ n ih => rw [List.replicate_succ', learnAll_append, ih]; exact learn_learn s e

/-- A known state with another count of steps. -/
def atStep (s : State) (n : Nat) : State := { s with currentStep := n }

@[simp] theorem atStep_currentStep (s : State) : s.atStep s.currentStep = s := rfl

@[simp] theorem atStep_atStep (s : State) (m n : Nat) : (s.atStep m).atStep n = s.atStep n := rfl

/-- Events leave the known count of steps alone. -/
theorem learn_atStep (s : State) (n : Nat) (e : Event) :
    (s.atStep n).learn e = (s.learn e).atStep n := by
  cases e <;> rfl

theorem learnAll_atStep (s : State) (n : Nat) (events : List Event) :
    (s.atStep n).learnAll events = (s.learnAll events).atStep n := by
  induction events generalizing s with
  | nil => rfl
  | cons e events ih => rw [learnAll_cons, learn_atStep, ih, learnAll_cons]

end State

/-- Whether what an event carries is what a state has. -/
def Event.Shows (s : State) : Event → Prop
  | .callStack _ _ stack => stack = s.callStack
  | .heap _ _ objects _ _ => objects = s.heap
  | .scopes _ _ live _ => live = s.scopes
  | .eventLoop _ _ loop => loop = s.loop
  | .currentLine line => line = s.currentLine
  | .execution isRunning isPaused speed =>
    isRunning = s.isRunning ∧ isPaused = s.isPaused ∧ speed = s.speed
  | .console _ => True

/-! ## One operation -/

/-- A change of a state that its events tell in full: each shows the state
after it, and together they lead there from the state before it. -/
structure Change.Tells {α : Type} (before : State) (c : Change α) : Prop where
  shows : ∀ e ∈ c.events, e.Shows c.store.state
  learnt : before.learnAll c.events = c.store.state.atStep before.currentStep

namespace Change

/-- A change with one event. -/
theorem Tells.single {α : Type} {before : State} {c : Change α} {e : Event}
    (events : c.events = [e]) (shows : e.Shows c.store.state)
    (learnt : before.learn e = c.store.state.atStep before.currentStep) : c.Tells before :=
  ⟨by simpa [events] using shows, by simpa [events] using learnt⟩

/-- A change without an event. -/
theorem Tells.silent {α : Type} {before : State} {c : Change α} (events : c.events = [])
    (same : before = c.store.state.atStep before.currentStep) : c.Tells before :=
  ⟨by simp [events], by simpa [events] using same⟩

/-- The answer makes no difference. -/
theorem Tells.answering {α : Type} {before : State} {f : α → Datum} {c : Change α}
    (h : c.Tells before) : (StoreOp.answering f c).Tells before := ⟨h.1, h.2⟩

end Change

namespace Store

variable (s : Store)

theorem tells_pushFrame (name kind this : String) (line : Int) :
    (s.pushFrame name kind this line).Tells s.state :=
  .single rfl rfl rfl

theorem tells_popFrame {c : Change Frame} (h : s.popFrame = .ok c) : c.Tells s.state := by
  unfold popFrame at h
  split at h
  · contradiction
  · cases h; exact .single rfl rfl rfl

theorem tells_updateFrameVariable (name value kind : String) :
    (s.updateFrameVariable name value kind).Tells s.state := by
  unfold updateFrameVariable
  split
  · exact .silent rfl rfl
  · exact .single rfl rfl rfl

theorem tells_allocate (kind : String) (payload : Value) (now : Double) :
    (s.allocate kind payload now).Tells s.state :=
  .single rfl rfl rfl

theorem tells_updateHeapValue {id : String} {payload : Value} {c : Change Unit}
    (h : s.updateHeapValue id payload = .ok c) : c.Tells s.state := by
  unfold updateHeapValue at h
  split at h
  · contradiction
  · cases h; exact .single rfl rfl rfl

theorem tells_addReference (fromId toId : String) :
    (s.addReference fromId toId).Tells s.state := by
  unfold addReference
  split
  · exact .silent rfl rfl
  · split
    · exact .silent rfl rfl
    · exact .single rfl rfl rfl

theorem tells_deallocate (id : String) : (s.deallocate id).Tells s.state := by
  unfold deallocate
  split
  · exact .silent rfl rfl
  · exact .single rfl rfl rfl

theorem tells_restoreScope (scope : Scope) : (s.restoreScope scope).Tells s.state := by
  unfold restoreScope
  split
  · exact .silent rfl rfl
  · exact .single rfl rfl rfl

theorem tells_addScopeVariable {id name : String} {binding : Binding} {c : Change Unit}
    (h : s.addScopeVariable id name binding = .ok c) : c.Tells s.state := by
  unfold addScopeVariable at h
  split at h
  · contradiction
  · cases h; exact .single rfl rfl rfl

theorem tells_updateScopeVariable {id name : String} {value : Value} {kind : Option String}
    {c : Change Unit} (h : s.updateScopeVariable id name value kind = .ok c) :
    c.Tells s.state := by
  unfold updateScopeVariable at h
  split at h
  · contradiction
  · split at h
    · contradiction
    · cases h; exact .single rfl rfl rfl

theorem tells_destroyScope {id : String} {c : Change Scope} (h : s.destroyScope id = .ok c) :
    c.Tells s.state := by
  unfold destroyScope at h
  split at h
  · contradiction
  · cases h; exact .single rfl rfl rfl

theorem tells_moveToCallbacks (id : String) : (s.moveToCallbacks id).Tells s.state := by
  unfold moveToCallbacks
  split
  · exact .silent rfl rfl
  · exact .single rfl rfl rfl

theorem tells_nextMicrotask : s.nextMicrotask.Tells s.state := by
  unfold nextMicrotask
  split
  · exact .silent rfl rfl
  · exact .single rfl rfl rfl

theorem tells_nextCallback : s.nextCallback.Tells s.state := by
  unfold nextCallback
  split
  · exact .silent rfl rfl
  · exact .single rfl rfl rfl

theorem tells_setCurrentLine (line : Int) : (s.setCurrentLine line).Tells s.state :=
  .single rfl rfl rfl

theorem tells_incrementStep : s.incrementStep.Tells s.state := .silent rfl rfl

theorem tells_logConsole (type : String) (args : List String) (now : Double) :
    (s.logConsole type args now).Tells s.state :=
  .single rfl trivial rfl

/-- A reset changes all parts at once; each of its six events carries one. -/
theorem tells_reset : s.reset.Tells s.state where
  shows := by
    intro e h
    simp only [reset, resetEvents, List.map_cons, List.map_nil, List.mem_cons,
      List.not_mem_nil, or_false] at h
    rcases h with rfl | rfl | rfl | rfl | rfl | rfl
    all_goals simp [Event.Shows, reset, cleared, empty]
  learnt := rfl

end Store

/-- An operation that is done tells all it changes but the count of steps. -/
theorem StoreOp.tells_apply {op : StoreOp} {s : Store} {now : Double} {c : Change Datum}
    (h : op.apply s now = .ok c) : c.Tells s.state := by
  -- The operations that can fail answer with a change under `Except.map`.
  have mapped {α : Type} {f : α → Datum} {r : Except StoreFault (Change α)}
      (hr : r.map (answering f) = .ok c) (told : ∀ c, r = .ok c → c.Tells s.state) :
      c.Tells s.state := by
    cases r with
    | error => contradiction
    | ok c' => cases hr; exact (told c' rfl).answering
  cases op with
  | popFrame => exact mapped h fun _ => s.tells_popFrame
  | updateHeapValue id payload => exact mapped h fun _ => s.tells_updateHeapValue
  | addScopeVariable scope name binding => exact mapped h fun _ => s.tells_addScopeVariable
  | updateScopeVariable scope name value kind =>
    exact mapped h fun _ => s.tells_updateScopeVariable
  | destroyScope scope => exact mapped h fun _ => s.tells_destroyScope
  | pushFrame name kind this line => cases h; exact (s.tells_pushFrame name kind this line).answering
  | updateFrameVariable name value kind =>
    cases h; exact (s.tells_updateFrameVariable name value kind).answering
  | addReference fromId toId => cases h; exact (s.tells_addReference fromId toId).answering
  | deallocate id => cases h; exact (s.tells_deallocate id).answering
  | restoreScope scope => cases h; exact (s.tells_restoreScope scope).answering
  | moveToCallbacks id => cases h; exact (s.tells_moveToCallbacks id).answering
  | nextMicrotask => cases h; exact s.tells_nextMicrotask.answering
  | nextCallback => cases h; exact s.tells_nextCallback.answering
  | reset => cases h; exact s.tells_reset.answering
  | allocate kind payload => cases h; exact (s.tells_allocate kind payload now).answering
  | createScope name kind parent => cases h; exact .single rfl rfl rfl
  | addTimer spec => cases h; exact .single rfl rfl rfl
  | addMicrotask spec => cases h; exact .single rfl rfl rfl
  | setCurrentLine line => cases h; exact (s.tells_setCurrentLine line).answering
  | setExecution isRunning isPaused => cases h; exact .single rfl ⟨rfl, rfl, rfl⟩ rfl
  | setSpeed speed => cases h; exact .single rfl ⟨rfl, rfl, rfl⟩ rfl
  | logConsole type args => cases h; exact (s.tells_logConsole type args now).answering
  | incrementStep => cases h; exact s.tells_incrementStep.answering
  | trackTimer handle => cases h; exact .silent rfl rfl

/-! ## Sequences of operations -/

/-- The events that a subscriber got. -/
def Delivery.eventsFor (name : String) (l : List Delivery) : List Event :=
  (l.filter (·.subscriber = name)).map (·.event)

@[simp] theorem Delivery.eventsFor_append (name : String) (l₁ l₂ : List Delivery) :
    eventsFor name (l₁ ++ l₂) = eventsFor name l₁ ++ eventsFor name l₂ := by
  simp [eventsFor]

namespace Board

/-- Applies operations one after the other: the board after them, and what
the subscribers got. -/
def performAll (b : Board) : List StoreOp → Board × List Delivery
  | [] => (b, [])
  | op :: ops =>
    let (b', _, got) := b.perform op
    let (b'', later) := b'.performAll ops
    (b'', got ++ later)

variable {b : Board} {name : String}

/-- A subscriber to everything gets each event, once for each time that it is
subscribed. -/
theorem eventsFor_deliveries (h : (Topic.all, name) ∈ b.subscriptions) (e : Event) :
    ∃ n, Delivery.eventsFor name (b.deliveries e) = List.replicate (n + 1) e := by
  have member : name ∈ b.subscribers e.topic := by
    refine List.mem_append_right _ (List.mem_map.2 ⟨(Topic.all, name), ?_, rfl⟩)
    exact List.mem_filter.2 ⟨h, by simp⟩
  have copies : Delivery.eventsFor name (b.deliveries e) =
      List.replicate ((b.subscribers e.topic).count name) e := by
    rw [Delivery.eventsFor, deliveries, List.filter_map, List.map_map]
    refine List.eq_replicate_iff.2 ⟨?_, ?_⟩
    · rw [List.length_map, List.count_eq_length_filter]
      exact congrArg _ (List.filter_congr fun x _ => by rw [Bool.beq_eq_decide_eq]; rfl)
    · intro x hx
      obtain ⟨_, _, rfl⟩ := List.mem_map.1 hx
      rfl
  have positive := List.count_pos_iff.2 member
  exact ⟨(b.subscribers e.topic).count name - 1, by rw [copies, Nat.sub_add_cancel positive]⟩

/-- Such a subscriber learns from what it got just what the events tell. -/
theorem learnAll_deliveries (h : (Topic.all, name) ∈ b.subscriptions) (s : State)
    (events : List Event) :
    s.learnAll (Delivery.eventsFor name (events.flatMap b.deliveries)) = s.learnAll events := by
  induction events generalizing s with
  | nil => rfl
  | cons e events ih =>
    obtain ⟨n, hn⟩ := eventsFor_deliveries h e
    rw [List.flatMap_cons, Delivery.eventsFor_append, State.learnAll_append, hn,
      State.learnAll_replicate, ih, State.learnAll_cons]

/-- What one operation does to the knowledge of such a subscriber, and to the
copies of the state that come with the events; a fault does nothing to either. -/
theorem followed_perform (h : (Topic.all, name) ∈ b.subscriptions) (op : StoreOp) :
    (b.perform op).1.subscriptions = b.subscriptions ∧
    b.store.state.learnAll (Delivery.eventsFor name (b.perform op).2.2) =
      (b.perform op).1.store.state.atStep b.store.state.currentStep ∧
    ∀ d ∈ (b.perform op).2.2,
      d.snapshot = (b.perform op).1.store.state ∧ d.event.Shows d.snapshot := by
  unfold perform
  dsimp only
  split
  · exact ⟨rfl, rfl, by simp⟩
  · rename_i c hc
    have told := StoreOp.tells_apply hc
    refine ⟨rfl, ?_, ?_⟩
    · rw [← told.learnt]
      exact learnAll_deliveries (by exact h) _ _
    · intro d hd
      obtain ⟨e, he, hd⟩ := List.mem_flatMap.1 hd
      obtain ⟨_, _, rfl⟩ := List.mem_map.1 hd
      exact ⟨rfl, told.shows e he⟩

/-- After any operations, done or refused, a subscriber to everything that
started from a copy of the state knows the whole state of the store but its
count of steps, and every event that anyone got shows the copy of the state
that came with it. -/
theorem followed_performAll (h : (Topic.all, name) ∈ b.subscriptions) (ops : List StoreOp) :
    b.store.state.learnAll (Delivery.eventsFor name (b.performAll ops).2) =
      (b.performAll ops).1.store.state.atStep b.store.state.currentStep ∧
    ∀ d ∈ (b.performAll ops).2, d.event.Shows d.snapshot := by
  induction ops generalizing b with
  | nil => exact ⟨rfl, by simp [performAll]⟩
  | cons op ops ih =>
    obtain ⟨kept, learnt, shown⟩ := followed_perform h op
    obtain ⟨later, shownLater⟩ := @ih (b.perform op).1 (kept ▸ h)
    simp only [performAll, Delivery.eventsFor_append, State.learnAll_append, List.mem_append]
    refine ⟨?_, fun d hd => hd.elim (fun hd => (shown d hd).2) (shownLater d)⟩
    rw [learnt, State.learnAll_atStep, later, State.atStep_atStep]

/-- A viewer that is also told of the heap apart gets some events twice; the
second pop is refused, and the step counted at the end is told to nobody. -/
theorem followed_performAll_refused :
    let b : Board := { store := .empty 100, subscriptions := [(.heap, "view"), (.all, "view")] }
    let ops : List StoreOp :=
      [.allocate "array" (.text ""), .pushFrame "f" "function" "window" 1, .popFrame, .popFrame,
        .setSpeed (-5), .incrementStep]
    (b.performAll ops).2.length = 5 ∧ (b.performAll ops).1.store.state.currentStep = 1 ∧
    b.store.state.learnAll (Delivery.eventsFor "view" (b.performAll ops).2) =
      (b.performAll ops).1.store.state.atStep 0 ∧
    ∀ d ∈ (b.performAll ops).2, d.event.Shows d.snapshot :=
  ⟨rfl, rfl, followed_performAll (by decide) _⟩

end Board

end Runloop
