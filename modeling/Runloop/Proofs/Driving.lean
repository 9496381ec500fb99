/-
# What driving a program comes to

Between two segments a program is driven: a unit of work is taken, a timer
fires, the run is paused, let go on, stopped or ended.  `Tick` lists once what
all of this comes to, and `Standing` what holds between ticks:

  * while the program is not over, the session is sound with the calls of its
    unit of work open, and everything the unit needs is there (`Steady`);
  * when it is over there is no unit of work and no call is open.

Every tick keeps a session standing (`Standing.tick`).  What moves of code keep, and
what is done beside them, lasts through every tick (`Setting.Lasting.tick`).
-/
import Runloop.Proofs.Segment

namespace Runloop

open Relation (ReflTransGen)

namespace Session

/-- The session with another unit of work. -/
def holding (s : Session) (unit : Option UnitOfWork) : Session :=
  { s with machine := { s.machine with unit } }

/-- The session while its unit of work is run. -/
def working (s : Session) (u : UnitOfWork) : Session :=
  s.holding (some { u with running := true })

/-- The session with a unit of work that was just taken. -/
def taking (s : Session) (work : Work) (cursor : Nat) : Session :=
  { s with
    machine :=
      { s.machine with
        unit := some ⟨s.machine.units, work, false⟩, units := s.machine.units + 1, cursor } }

/-- The calls that the unit of work holds open. -/
def calls (s : Session) : List Call := s.machine.unit.elim [] (·.work.calls)

theorem calls_of_none {s : Session} (none : s.machine.unit = none) : s.calls = [] := by
  rw [calls, none, Option.elim_none]

theorem calls_congr {s t : Session} (same : t.machine.unit = s.machine.unit) :
    t.calls = s.calls := by
  rw [calls, same, calls]

theorem calls_publish {α : Type} (s : Session) (c : Change α) : (s.publish c).calls = s.calls :=
  calls_congr (by rw [publish_machine])

end Session

/-! ## What leaves a program alone -/

/-- Whether an event tells nothing about the program itself. -/
def Event.isQuiet : Event → Bool
  | .currentLine _ | .execution _ _ _ | .console _ => true
  | _ => false

/-- From `s` to `t` nothing changed but how the program is driven, what is
shown of it, and the time. -/
structure Beside (s t : Session) : Prop where
  hooks : t.hooks = s.hooks
  attached : t.attached = s.attached
  scopes : t.store.state.scopes = s.store.state.scopes
  counter : t.store.counters.scope = s.store.counters.scope
  tasks : t.store.counters.task = s.store.counters.task
  step : t.store.state.currentStep = s.store.state.currentStep
  stack : t.store.state.callStack = s.store.state.callStack
  heap : t.store.state.heap = s.store.state.heap
  loop : t.store.state.loop = s.store.state.loop
  global : t.machine.globalScope = s.machine.globalScope
  detached : t.machine.detached = s.machine.detached
  depth : t.machine.depth = s.machine.depth
  receivers : t.machine.receivers = s.machine.receivers
  loaded : t.machine.loaded = s.machine.loaded
  program : t.machine.program = s.machine.program
  limits : t.machine.limits = s.machine.limits
  trace : ∃ l, t.trace = s.trace ++ l ∧ ∀ e ∈ l, e.isQuiet = true

namespace Beside

variable {s t u : Session} {calls : List Call} {spilt : List String}

theorem refl (s : Session) : Beside s s :=
  ⟨rfl, rfl, rfl, rfl, rfl, rfl, rfl, rfl, rfl, rfl, rfl, rfl, rfl, rfl, rfl, rfl, [],
    (List.append_nil _).symm, by simp⟩

theorem trans (h : Beside s t) (h' : Beside t u) : Beside s u := by
  obtain ⟨l, ht, hl⟩ := h.trace
  obtain ⟨l', ht', hl'⟩ := h'.trace
  refine ⟨h'.hooks.trans h.hooks, h'.attached.trans h.attached, h'.scopes.trans h.scopes,
    h'.counter.trans h.counter, h'.tasks.trans h.tasks, h'.step.trans h.step,
    h'.stack.trans h.stack, h'.heap.trans h.heap, h'.loop.trans h.loop,
    h'.global.trans h.global, h'.detached.trans h.detached, h'.depth.trans h.depth,
    h'.receivers.trans h.receivers, h'.loaded.trans h.loaded, h'.program.trans h.program,
    h'.limits.trans h.limits, l ++ l', by rw [ht', ht, List.append_assoc], ?_⟩
  intro e he
  exact (List.mem_append.mp he).elim (hl e) (hl' e)

/-- How the program is driven changes. -/
theorem driven (s : Session) (clock : Clock String) (phase : Phase) (unit : Option UnitOfWork)
    (units cursor generation openings : Nat) (runActive : Bool) (gate : Option Bool) :
    Beside s
      { s with
        clock
        machine :=
          { s.machine with
            phase, unit, units, cursor, generation, openings, runActive, gate } } :=
  ⟨rfl, rfl, rfl, rfl, rfl, rfl, rfl, rfl, rfl, rfl, rfl, rfl, rfl, rfl, rfl, rfl, [],
    (List.append_nil _).symm, by simp⟩

theorem holding (s : Session) (unit : Option UnitOfWork) : Beside s (s.holding unit) :=
  driven s ..

/-- What is shown changes. -/
theorem publish {α : Type} {c : Change α} (scopes : c.store.state.scopes = s.store.state.scopes)
    (counters : c.store.counters = s.store.counters)
    (stack : c.store.state.callStack = s.store.state.callStack)
    (heap : c.store.state.heap = s.store.state.heap)
    (loop : c.store.state.loop = s.store.state.loop)
    (step : c.store.state.currentStep = s.store.state.currentStep)
    (quiet : ∀ e ∈ c.events, e.isQuiet = true) : Beside s (s.publish c) where
  hooks := Session.publish_hooks ..
  attached := Session.publish_attached ..
  scopes := by rw [Session.publish_store, scopes]
  counter := by rw [Session.publish_store, counters]
  tasks := by rw [Session.publish_store, counters]
  step := by rw [Session.publish_store, step]
  stack := by rw [Session.publish_store, stack]
  heap := by rw [Session.publish_store, heap]
  loop := by rw [Session.publish_store, loop]
  global := by rw [Session.publish_machine]
  detached := by rw [Session.publish_machine]
  depth := by rw [Session.publish_machine]
  receivers := by rw [Session.publish_machine]
  loaded := by rw [Session.publish_machine]
  program := by rw [Session.publish_machine]
  limits := by rw [Session.publish_machine]
  trace := by
    refine ⟨c.events, Session.trace_publish fun e he => ?_, quiet⟩
    have := quiet e he
    cases e <;> first | rfl | simp [Event.isQuiet] at this

theorem logConsole (s : Session) (type : String) (args : List String) :
    Beside s (s.publish (s.store.logConsole type args s.now)) :=
  publish rfl rfl rfl rfl rfl rfl (List.forall_mem_singleton.mpr rfl)

theorem setCurrentLine (s : Session) (line : Int) :
    Beside s (s.publish (s.store.setCurrentLine line)) :=
  publish rfl rfl rfl rfl rfl rfl (List.forall_mem_singleton.mpr rfl)

theorem setExecution (s : Session) (isRunning isPaused : Bool) :
    Beside s (s.publish (s.store.setExecution isRunning isPaused)) :=
  publish rfl rfl rfl rfl rfl rfl (List.forall_mem_singleton.mpr rfl)

theorem setSpeed (s : Session) (speed : Int) :
    Beside s (s.publish (s.store.setSpeed speed)) :=
  publish rfl rfl rfl rfl rfl rfl (List.forall_mem_singleton.mpr rfl)

theorem topic_of_isQuiet {e : Event} (h : e.isQuiet = true) :
    e.topic ≠ .scopes ∧ e.topic ≠ .eventLoop ∧ e.topic ≠ .callStack := by
  cases e <;> simp_all [Event.isQuiet, Event.topic]

theorem everOpened (h : Beside s t) : everOpened t.trace = everOpened s.trace := by
  obtain ⟨l, ht, hl⟩ := h.trace
  rw [ht, Runloop.everOpened, List.foldl_append]
  exact foldl_noteScope_of_topic (fun e he => (topic_of_isQuiet (hl e he)).1) _

theorem knows (h : Beside s t) {closure : Option String} (known : s.Knows closure) :
    t.Knows closure :=
  known.of_ids (by rw [h.everOpened])

theorem placed (h : Beside s t) (sc : Scoped s) : Scoped t := by
  obtain ⟨l, ht, hl⟩ := h.trace
  refine sc.keep ht (fun e he => (topic_of_isQuiet (hl e he)).1) h.scopes h.counter h.global
    h.detached h.heap ?_
  rw [h.loop]
  exact fun task ht => ht

theorem held (h : Beside s t) (hh : Held s calls spilt)
    (current : calls = [] ∨ t.machine.generation = s.machine.generation) :
    Held t calls spilt where
  hooks := h.hooks.trans hh.hooks
  global := h.global.trans hh.global
  current := by
    rcases current with rfl | same
    · simp
    · rw [same]
      exact hh.current
  depth := h.depth ▸ hh.depth
  receivers := h.receivers ▸ hh.receivers
  stack := h.stack ▸ hh.stack
  scopes := by rw [Store.scopeIds, h.scopes]; exact hh.scopes
  nodup := by rw [Store.scopeIds, h.scopes]; exact hh.nodup

theorem sound (h : Beside s t) (hs : Sound ⟨s, calls, spilt⟩)
    (current : calls = [] ∨ t.machine.generation = s.machine.generation) :
    Sound ⟨t, calls, spilt⟩ := by
  obtain ⟨l, ht, hl⟩ := h.trace
  refine ⟨h.held hs.held current, fun none => h.placed (hs.placed none),
    hs.strewn.keep h.scopes ht fun e he => ?_⟩
  have := hl e he
  cases e <;> first | rfl | simp [Event.isQuiet] at this

end Beside

/-- How a machine is driven: what code never changes of it. -/
def Machine.driven (m : Machine) : Machine :=
  { m with line := 0, depth := 0, receivers := [], detached := [] }

/-- Code leaves alone how it is driven. -/
theorem Move.machine {a b : Setting} (m : Move a b) :
    b.session.machine.driven = a.session.machine.driven := by
  cases m with
  | deed d =>
      obtain ⟨line, h⟩ := d.machine
      simp only [h]
      rfl
  | @enter s calls id name thisBinding line receiver _ =>
      obtain ⟨detached, h⟩ := (Rescoped.opening s id name).machine
      simp only [Session.entered, Session.publish_machine, h]
      rfl
  | @leave s call calls spilt =>
      obtain ⟨detached, h⟩ := (Rescoped.foldl .shut call.closing s.popped).machine
      rw [Session.left, h, Session.popped_machine]
      rfl
  | @spill s calls id name line _ =>
      obtain ⟨detached, h⟩ := (Rescoped.opening s id name).machine
      simp only [h]
      rfl

theorem Moves.machine {a b : Setting} (m : Moves a b) :
    b.session.machine.driven = a.session.machine.driven := by
  induction m with
  | refl => rfl
  | tail _ m ih => exact m.machine.trans ih

/-! ## Ticks -/

/-- What driving a program comes to. -/
inductive Tick (s : Session) : Option Fault → Session → Prop
  /-- The program is left alone. -/
  | beside {t : Session} (phase : Phase) (gate : Option Bool) (openings : Nat)
      (runActive : Bool) : Beside s t →
      t.machine = { s.machine with phase, gate, openings, runActive } →
      (phase = .completed ↔ s.phase = .completed) → Tick s none t
  | fire (id : String) : Tick s none (s.publish (s.store.moveToCallbacks id))
  | instruction {i : Instruction} : s.phase ≠ .completed → s.machine.unit = none →
      s.machine.program[s.machine.cursor]? = some i →
      Tick s none (s.taking (.instruction i) (s.machine.cursor + 1))
  | pass : s.phase ≠ .completed → s.machine.unit = none →
      s.machine.program[s.machine.cursor]? = none → Tick s none (s.taking .pass s.machine.cursor)
  | pause {u : UnitOfWork} {work : Work} {t : Session} : s.phase ≠ .completed →
      s.machine.unit = some u → Segment (s.working u) u.work (.paused work) t →
      Tick s none (t.holding (some ⟨u.serial, work, false⟩))
  | complete {u : UnitOfWork} {t : Session} : s.phase ≠ .completed → s.machine.unit = some u →
      Segment (s.working u) u.work .ended t → Tick s none (t.holding none)
  /-- A fault ends the program. -/
  | fail {u : UnitOfWork} {fault : Fault} {t t' : Session} : s.phase ≠ .completed →
      s.machine.unit = some u → Act.Failed (s.working u) u.work fault t → Beside t t' →
      t'.machine.cursor = t.machine.cursor → t'.machine.unit = none → t'.phase = .completed →
      Tick s (some fault) t'
  /-- The program is ended; its open calls are left. -/
  | ended {t t' : Session} : s.phase ≠ .completed →
      Moves ⟨s.holding none, s.calls, []⟩ ⟨t, [], []⟩ → Beside t t' →
      t'.machine.cursor = t.machine.cursor → t'.machine.unit = none → t'.phase = .completed →
      Tick s none t'

/-! ## What holds between two segments -/

/-- The unit of work of a program that is not over can be run. -/
structure Steady (s : Session) : Prop where
  sound : Sound ⟨s, s.calls, []⟩
  waits : ∀ u ∈ s.machine.unit, u.running = false
  fits : ∀ u ∈ s.machine.unit, u.work.Fits
  known : ∀ u ∈ s.machine.unit, ∀ task base, u.work.pending? = some (task, base) →
    s.Knows task.spec.closure

/-- A program is steady, or it is over and holds nothing but what was spilt by
the fault that ended it. -/
structure Standing (why : Option Fault) (s : Session) : Prop where
  loaded : s.machine.loaded = true
  steady : s.phase ≠ .completed → Steady s
  ended : s.phase = .completed → s.machine.unit = none ∧
    ∃ spilt, Sound ⟨s, [], spilt⟩ ∧ ((∀ f ∈ why, f.spills = false) → spilt = [])

/-! ## Queues -/

/-- A change by which tasks only change their places in the queues, or leave
them. -/
structure Change.Requeues {α : Type} (store : Store) (c : Change α) : Prop where
  same : c.store = store.setLoop c.store.state.loop
  tasks : ∀ task ∈ c.store.state.loop.tasks, task ∈ store.state.loop.tasks
  events : ∀ e ∈ c.events, e.topic = .eventLoop ∧ e.isReset = false

theorem requeues_moveToCallbacks (store : Store) (id : String) :
    (store.moveToCallbacks id).Requeues store := by
  unfold Store.moveToCallbacks
  split
  · exact ⟨rfl, fun task ht => ht, by simp⟩
  · rename_i moved found
    refine ⟨rfl, fun task ht => ?_, List.forall_mem_singleton.mpr ⟨rfl, rfl⟩⟩
    have there := List.mem_of_find?_eq_some found
    have erased := List.mem_of_mem_eraseP (a := task) (p := (·.id == id))
      (l := store.state.loop.timers)
    simp only [Store.setLoop, EventLoop.tasks, List.mem_append, List.mem_singleton] at ht ⊢
    rcases ht with (ht | ht | rfl) | ht
    · exact .inl (.inl (erased ht))
    · exact .inl (.inr ht)
    · exact .inl (.inl there)
    · exact .inr ht

theorem eq_of_mem_events_moveToCallbacks {store : Store} {id : String} {e : Event}
    (he : e ∈ (store.moveToCallbacks id).events) :
    ∃ task loop, e = .eventLoop .moveToCallbacks (some task) loop := by
  unfold Store.moveToCallbacks at he
  split at he
  · exact absurd he List.not_mem_nil
  · exact ⟨_, _, List.mem_singleton.mp he⟩

theorem requeues_nextMicrotask (store : Store) : store.nextMicrotask.Requeues store := by
  unfold Store.nextMicrotask
  split
  · exact ⟨rfl, fun task ht => ht, by simp⟩
  · rename_i taken rest queue
    refine ⟨rfl, fun task ht => ?_, List.forall_mem_singleton.mpr ⟨rfl, rfl⟩⟩
    simp only [Store.setLoop, EventLoop.tasks, List.mem_append, queue, List.mem_cons] at ht ⊢
    exact ht.imp_right .inr

theorem requeues_nextCallback (store : Store) : store.nextCallback.Requeues store := by
  unfold Store.nextCallback
  split
  · exact ⟨rfl, fun task ht => ht, by simp⟩
  · rename_i taken rest queue
    refine ⟨rfl, fun task ht => ?_, List.forall_mem_singleton.mpr ⟨rfl, rfl⟩⟩
    simp only [Store.setLoop, EventLoop.tasks, List.mem_append, queue, List.mem_cons] at ht ⊢
    exact ht.imp_left (.imp_right .inr)

namespace Change.Requeues

variable {α : Type} {s : Session} {c : Change α} {calls : List Call} {spilt : List String}

theorem trace (h : c.Requeues s.store) : (s.publish c).trace = s.trace ++ c.events :=
  Session.trace_publish fun e he => (h.events e he).2

theorem knows (h : c.Requeues s.store) {closure : Option String} (known : s.Knows closure) :
    (s.publish c).Knows closure := by
  refine known.of_ids ?_
  rw [h.trace, everOpened, List.foldl_append]
  rw [foldl_noteScope_of_topic fun e he => by simp [(h.events e he).1]]
  rfl

theorem held (h : c.Requeues s.store) (hh : Held s calls spilt) :
    Held (s.publish c) calls spilt where
  hooks := (Session.publish_hooks ..).trans hh.hooks
  global := by rw [Session.publish_machine]; exact hh.global
  current := by rw [Session.publish_machine]; exact hh.current
  depth := by rw [Session.publish_machine]; exact hh.depth
  receivers := by rw [Session.publish_machine]; exact hh.receivers
  stack := by rw [Session.publish_store, h.same]; exact hh.stack
  scopes := by rw [Session.publish_store, h.same]; exact hh.scopes
  nodup := by rw [Session.publish_store, h.same]; exact hh.nodup

theorem sound (h : c.Requeues s.store) (hs : Sound ⟨s, calls, spilt⟩) :
    Sound ⟨s.publish c, calls, spilt⟩ := by
  have scopes : (s.publish c).store.state.scopes = s.store.state.scopes := by
    rw [Session.publish_store, h.same]
    rfl
  have keeps : ∀ e ∈ c.events, e.keepsScopes = true := fun e he => by
    have := (h.events e he).1
    cases e <;> first | rfl | simp [Event.topic] at this
  refine ⟨h.held hs.held, fun none => (hs.placed none).keep h.trace
    (fun e he => by simp [(h.events e he).1]) scopes ?_ ?_ ?_ ?_ ?_,
    hs.strewn.keep scopes h.trace keeps⟩
  · rw [Session.publish_store, h.same]
    rfl
  · rw [Session.publish_machine]
  · rw [Session.publish_machine]
  · rw [Session.publish_store, h.same]
    rfl
  · rw [Session.publish_store]
    exact h.tasks

end Change.Requeues

/-! ## Segments -/

namespace Segment

variable {s t : Session} {work : Work} {p : Progress}

theorem said {calls : List Call} {text : String} (h : Sound ⟨s, calls, []⟩) :
    Sound ⟨s.said text, calls, []⟩ := by
  refine (Beside.logConsole s "info" [text]).sound h (.inr ?_)
  rw [Session.publish_machine]

theorem sound (h : Segment s work p t) (hs : Sound ⟨s, work.calls, []⟩) :
    Sound ⟨t, p.calls, []⟩ := by
  cases h with
  | within _ m _ => exact hs.moves m
  | start thisBinding hp _ hid shallow m =>
      rw [Work.calls_of_pending? hp] at hs
      exact (hs.move (.enter _ thisBinding 0 .undefined hid shallow)).moves m
  | microtask ht _ =>
      rw [Work.calls_of_taking? ht] at hs
      exact said ((requeues_nextMicrotask _).sound hs)
  | callback ht _ _ =>
      rw [Work.calls_of_taking? ht] at hs
      exact said ((requeues_nextCallback _).sound hs)
  | nothing ht _ _ =>
      rw [Work.calls_of_taking? ht] at hs
      exact hs
  | idle ht _ _ =>
      rw [Work.calls_of_taking? ht] at hs
      exact hs
  | wake => exact hs

theorem machine (h : Segment s work p t) : t.machine.driven = s.machine.driven := by
  cases h with
  | within _ m _ => exact Moves.machine m
  | start thisBinding _ _ hid shallow m =>
      exact Moves.machine (a := ⟨s, [], []⟩)
        (.head (.enter _ thisBinding 0 .undefined hid shallow) m)
  | microtask | callback => simp only [Session.said, Session.publish_machine]
  | nothing | idle | wake => rfl

/-- Work that is left fits, if the work that was begun with does. -/
theorem fits {rest : Work} (h : Segment s work (.paused rest) t) (hw : work.Fits) :
    rest.Fits := by
  cases h with
  | within _ _ l =>
      cases rest with
      | inCall => exact l.2
      | _ => trivial
  | @start _ _ base _ _ _ hp =>
      cases work with
      | atPass point =>
          cases point with
          | beforeMicrotask | beforeCallback => cases hp; trivial
          | _ => cases hp
      | _ => cases hp
  | microtask | callback | idle => trivial

/-- A task that was taken closes over a scope that is known. -/
theorem known {rest : Work} {task : Task} {base : Base} (h : Segment s work (.paused rest) t)
    (sc : Scoped s) (hp : rest.pending? = some (task, base)) : t.Knows task.spec.closure := by
  have told {u : Session} {text : String} (hu : u.Knows task.spec.closure) :
      (u.said text).Knows task.spec.closure := (Beside.logConsole u "info" [text]).knows hu
  cases h with
  | within _ _ l =>
      cases rest with
      | atPass point =>
          cases point with
          | beforeMicrotask | beforeCallback => exact l.elim
          | _ => cases hp
      | _ => cases hp
  | start => cases hp
  | microtask _ hm =>
      cases hp
      refine told ((requeues_nextMicrotask _).knows (sc.tasks task ?_))
      simp [EventLoop.tasks, hm]
  | callback _ _ hc =>
      cases hp
      refine told ((requeues_nextCallback _).knows (sc.tasks task ?_))
      simp [EventLoop.tasks, hc]
  | idle => cases hp

end Segment

/-! ## What ticks leave alone -/

/-- A program that is on was on before, and nothing went wrong. -/
theorem Tick.on {s t : Session} {fault : Option Fault} (k : Tick s fault t)
    (hph : t.phase ≠ .completed) : fault = none ∧ s.phase ≠ .completed := by
  cases k with
  | beside phase gate openings runActive b hm same =>
      refine ⟨rfl, fun he => hph ?_⟩
      rw [Session.phase, hm]
      exact same.mpr he
  | fire id =>
      rw [Session.phase, Session.publish_machine] at hph
      exact ⟨rfl, hph⟩
  | instruction on | pass on | pause on | complete on => exact ⟨rfl, on⟩
  | fail _ _ _ _ _ _ he | ended _ _ _ _ _ he => exact absurd he hph

theorem Tick.limits {s t : Session} {fault : Option Fault} (k : Tick s fault t) :
    t.machine.limits = s.machine.limits := by
  cases k with
  | beside _ _ _ _ b => exact b.limits
  | fire id => rw [Session.publish_machine]
  | instruction | pass => rfl
  | pause _ _ seg | complete _ _ seg => exact (congrArg Machine.limits seg.machine :)
  | fail _ _ failed b =>
      obtain ⟨spilt, m, -⟩ := failed
      exact b.limits.trans (congrArg Machine.limits (Moves.machine m) :)
  | ended _ m b => exact b.limits.trans (congrArg Machine.limits (Moves.machine m) :)

/-! ## Ticks keep it -/

theorem Steady.working {s : Session} {u : UnitOfWork} (h : Steady s)
    (hu : s.machine.unit = some u) : Sound ⟨s.working u, u.work.calls, []⟩ := by
  have sound := h.sound
  rw [Session.calls, hu] at sound
  exact (Beside.holding s _).sound sound (.inr rfl)

/-- A session that holds another unit of work, whose calls are open. -/
theorem Steady.holding {s : Session} {unit : Option UnitOfWork}
    (sound : Sound ⟨s, unit.elim [] (·.work.calls), []⟩)
    (waits : ∀ u ∈ unit, u.running = false) (fits : ∀ u ∈ unit, u.work.Fits)
    (known : ∀ u ∈ unit, ∀ task base, u.work.pending? = some (task, base) →
      s.Knows task.spec.closure) : Steady (s.holding unit) :=
  ⟨(Beside.holding s unit).sound sound (.inr rfl), waits, fits, known⟩

namespace Standing

variable {s t : Session} {why fault : Option Fault}

theorem beside {phase : Phase} {gate : Option Bool} {openings : Nat} {runActive : Bool}
    (h : Standing why s) (b : Beside s t)
    (hm : t.machine = { s.machine with phase, gate, openings, runActive })
    (hph : phase = .completed ↔ s.phase = .completed) : Standing why t := by
  have hphase : t.phase = phase := by rw [Session.phase, hm]
  have hunit : t.machine.unit = s.machine.unit := by rw [hm]
  have calls : t.calls = s.calls := Session.calls_congr hunit
  refine ⟨by rw [hm]; exact h.loaded, fun hne => ?_, fun he => ?_⟩
  · have st := h.steady fun he => hne (hphase.trans (hph.mpr he))
    refine ⟨calls ▸ b.sound st.sound (.inr (by rw [hm])), hunit ▸ st.waits, hunit ▸ st.fits, ?_⟩
    intro u hu task base hp
    exact b.knows (st.known u (hunit ▸ hu) task base hp)
  · obtain ⟨none, spilt, sound, clean⟩ := h.ended (hph.mp (hphase.symm.trans he))
    exact ⟨hunit.trans none, spilt, b.sound sound (.inl rfl), clean⟩

theorem fire (h : Standing why s) (id : String) :
    Standing why (s.publish (s.store.moveToCallbacks id)) := by
  have r := requeues_moveToCallbacks s.store id
  have machine := Session.publish_machine s (s.store.moveToCallbacks id)
  have calls : (s.publish (s.store.moveToCallbacks id)).calls = s.calls := s.calls_publish _
  refine ⟨machine ▸ h.loaded, fun hph => ?_, fun hph => ?_⟩
  · rw [Session.phase, machine] at hph
    have st := h.steady hph
    refine ⟨calls ▸ r.sound st.sound, machine ▸ st.waits, machine ▸ st.fits, ?_⟩
    intro u hu task base hp
    exact r.knows (st.known u (machine ▸ hu) task base hp)
  · rw [Session.phase, machine] at hph
    obtain ⟨none, spilt, sound, clean⟩ := h.ended hph
    exact ⟨machine ▸ none, spilt, r.sound sound, clean⟩

theorem taking {work : Work} {cursor : Nat} (h : Standing why s) (hph : s.phase ≠ .completed)
    (hu : s.machine.unit = none) (calls : work.calls = []) (fits : work.Fits)
    (fresh : work.pending? = none) : Standing why (s.taking work cursor) := by
  have sound := (h.steady hph).sound
  rw [Session.calls, hu] at sound
  refine ⟨h.loaded, fun _ => ⟨?_, ?_, ?_, ?_⟩, fun he => absurd he hph⟩
  · show Sound ⟨s.taking work cursor, work.calls, []⟩
    rw [calls]
    exact (Beside.driven s ..).sound sound (.inl rfl)
  · rintro _ ⟨⟩
    rfl
  · rintro _ ⟨⟩
    exact fits
  · rintro _ ⟨⟩ task base hp
    exact absurd (fresh.symm.trans hp) (by simp)

/-- The program has come to its end. -/
theorem of_ended {u : Session} {spilt : List String} (h : Standing why s)
    (loaded : t.machine.loaded = s.machine.loaded) (sound : Sound ⟨t, [], spilt⟩) (b : Beside t u)
    (none : u.machine.unit = none) (he : u.phase = .completed)
    (clean : (∀ f ∈ fault.or why, f.spills = false) → spilt = []) : Standing (fault.or why) u :=
  ⟨b.loaded.trans (loaded.trans h.loaded), fun hne => absurd he hne,
    fun _ => ⟨none, spilt, b.sound sound (.inl rfl), clean⟩⟩

theorem tick (h : Standing why s) (k : Tick s fault t) : Standing (fault.or why) t := by
  cases k with
  | beside phase gate openings runActive b hm hph => exact h.beside b hm hph
  | fire id => exact h.fire id
  | instruction hph hu _ => exact h.taking hph hu rfl trivial rfl
  | pass hph hu _ => exact h.taking hph hu rfl trivial rfl
  | pause hph hu seg =>
      have st := h.steady hph
      have machine := seg.machine
      refine ⟨(congrArg Machine.loaded machine).trans h.loaded, fun _ => ?_,
        fun he => absurd ((congrArg Machine.phase machine).symm.trans he) hph⟩
      refine .holding (seg.sound (st.working hu)) ?_ ?_ ?_
      · rintro _ ⟨⟩
        rfl
      · rintro _ ⟨⟩
        exact seg.fits (st.fits _ hu)
      · rintro _ ⟨⟩ task base hp
        exact seg.known ((st.working hu).placed rfl) hp
  | complete hph hu seg =>
      have st := h.steady hph
      have machine := seg.machine
      refine ⟨(congrArg Machine.loaded machine).trans h.loaded, fun _ => ?_,
        fun he => absurd ((congrArg Machine.phase machine).symm.trans he) hph⟩
      exact .holding (seg.sound (st.working hu)) (by simp) (by simp) (by simp)
  | @fail u f t₁ _ hph hu failed b _ none he =>
      obtain ⟨spilt, m, clean⟩ := failed
      have loaded : t₁.machine.loaded = s.machine.loaded :=
        (congrArg Machine.loaded (Moves.machine m) :)
      refine h.of_ended loaded (((h.steady hph).working hu).moves m) b none he
        fun all => clean (all f ?_)
      simp
  | @ended t₁ _ hph m b _ none he =>
      have sound : Sound ⟨s.holding Option.none, s.calls, []⟩ :=
        (Beside.holding s _).sound (h.steady hph).sound (.inr rfl)
      have loaded : t₁.machine.loaded = s.machine.loaded :=
        (congrArg Machine.loaded (Moves.machine m) :)
      exact h.of_ended loaded (sound.moves m) b none he fun _ => rfl

end Standing

/-! ## What lasts -/

/-- What stays true of a session and its open calls, whatever code does and whatever is done
beside it. -/
structure Setting.Lasting (P : Setting → Prop) : Prop where
  move {a b : Setting} : Move a b → Sound a → P a → P b
  beside {s t : Session} {calls : List Call} {spilt : List String} : Beside s t →
    P ⟨s, calls, spilt⟩ → P ⟨t, calls, spilt⟩
  fire {s : Session} {calls : List Call} (id : String) : P ⟨s, calls, []⟩ →
    P ⟨s.publish (s.store.moveToCallbacks id), calls, []⟩
  microtask {s : Session} {task : Task} {rest : List Task} :
    s.store.state.loop.microtasks = task :: rest → P ⟨s, [], []⟩ →
    P ⟨s.publish s.store.nextMicrotask, [], []⟩
  callback {s : Session} {task : Task} {rest : List Task} :
    s.store.state.loop.callbacks = task :: rest → P ⟨s, [], []⟩ →
    P ⟨s.publish s.store.nextCallback, [], []⟩
  unspilt {s : Session} {calls : List Call} {spilt : List String} : P ⟨s, calls, spilt⟩ →
    P ⟨s, calls, []⟩

namespace Setting.Lasting

variable {P : Setting → Prop}

/-- What does not depend on which queue a task is in. -/
theorem of_requeues (move : ∀ {a b : Setting}, Move a b → Sound a → P a → P b)
    (beside : ∀ {s t : Session} {calls : List Call} {spilt : List String}, Beside s t →
      P ⟨s, calls, spilt⟩ → P ⟨t, calls, spilt⟩)
    (requeues : ∀ {s : Session} {calls : List Call} {c : Change (Option Task)},
      c.Requeues s.store → P ⟨s, calls, []⟩ → P ⟨s.publish c, calls, []⟩)
    (unspilt : ∀ {s : Session} {calls : List Call} {spilt : List String}, P ⟨s, calls, spilt⟩ →
      P ⟨s, calls, []⟩) : Lasting P where
  move := move
  beside := beside
  fire id := requeues (requeues_moveToCallbacks _ id)
  microtask _ := requeues (requeues_nextMicrotask _)
  callback _ := requeues (requeues_nextCallback _)
  unspilt := unspilt

variable (h : Lasting P) {s t : Session}

include h

theorem moves {a b : Setting} (m : Moves a b) (sound : Sound a) (ha : P a) : P b := by
  induction m with
  | refl => exact ha
  | tail m step ih => exact h.move step (sound.moves m) ih

theorem segment {work : Work} {p : Progress} (seg : Segment s work p t)
    (sound : Sound ⟨s, work.calls, []⟩) (hs : P ⟨s, work.calls, []⟩) : P ⟨t, p.calls, []⟩ := by
  cases seg with
  | within _ m => exact h.moves m sound hs
  | start thisBinding hp _ hid shallow m =>
      rw [Work.calls_of_pending? hp] at sound hs
      exact h.moves (.head (.enter _ thisBinding 0 .undefined hid shallow) m) sound hs
  | microtask ht queue =>
      rw [Work.calls_of_taking? ht] at hs
      exact h.beside (.logConsole _ "info" _) (h.microtask queue hs)
  | callback ht _ queue =>
      rw [Work.calls_of_taking? ht] at hs
      exact h.beside (.logConsole _ "info" _) (h.callback queue hs)
  | nothing ht | idle ht =>
      rw [Work.calls_of_taking? ht] at hs
      exact hs
  | wake => exact hs

theorem tick {why fault : Option Fault} (k : Tick s fault t) (standing : Standing why s)
    (hs : P ⟨s, s.calls, []⟩) : P ⟨t, t.calls, []⟩ := by
  have working {u : UnitOfWork} (hu : s.machine.unit = some u) :
      P ⟨s.working u, u.work.calls, []⟩ := by
    rw [Session.calls, hu] at hs
    exact h.beside (.holding s _) hs
  -- a program that is over holds no calls, whatever it has spilt
  have vacated {u v : Session} {spilt : List String} (hu : P ⟨u, [], spilt⟩) (b : Beside u v)
      (none : v.machine.unit = none) : P ⟨v, v.calls, []⟩ := by
    rw [Session.calls_of_none none]
    exact h.unspilt (h.beside b hu)
  cases k with
  | beside phase gate openings runActive b machine _ =>
      rw [Session.calls_congr (show t.machine.unit = s.machine.unit by rw [machine])]
      exact h.beside b hs
  | fire id =>
      rw [Session.calls_publish]
      exact h.fire id hs
  | instruction _ none _ | pass _ none _ =>
      rw [Session.calls_of_none none] at hs
      exact h.beside (.driven s ..) hs
  | pause on hu seg | complete on hu seg =>
      exact h.beside (.holding ..)
        (h.segment seg ((standing.steady on).working hu) (working hu))
  | fail on hu failed b _ none _ =>
      obtain ⟨spilt, m, -⟩ := failed
      exact vacated (h.moves m ((standing.steady on).working hu) (working hu)) b none
  | ended on m b _ none _ =>
      have sound := (Beside.holding s Option.none).sound (standing.steady on).sound (.inr rfl)
      exact vacated (h.moves m sound (h.beside (.holding s _) hs)) b none

end Setting.Lasting

end Runloop
