/-
# What running code is made of

The code of a program, from the value of an expression to a whole segment, is
put together from a handful of things: it reads what it may see, changes the
store, notes where it stands in the machine, opens and closes scopes, compiles a
body, sets a timer.  `Coded` is the closure of these under sequence and recovery
from faults, and `coded_runSegment` says that a segment is nothing else.  Four
things need a `Licence`: only an instruction counts a step, only a pass over the
event loop takes a task, only one kind of instruction sets a timer, and only the
end of one kind of instruction queues a microtask.

What holds of all code is then proved by one induction over `Coded`, with a
case for each of the things it is made of:

  * whatever those few things keep, all code keeps (`Coded.keeps`); so code
    leaves alone how it is driven (`Coded.untouched`);
  * code does not see how it is driven, nor the journal: run under any other
    driving it does the same and tells the same (`Coded.run_under`);
  * code that takes no task does not see times either, nor which timers have come
    due: on sessions of one outline it answers the same, and leaves sessions of
    one outline behind (`Coded.uniform`).
-/
import Runloop.Proofs.Sight

namespace Runloop

/-- The session with a timer set for a task and tracked. -/
def Session.timing (s : Session) (wait : Double) (id : String) : Session :=
  { s with
    clock := (s.clock.set wait id).1
    store := s.store.trackTimer (s.clock.set wait id).2.serial }

/-! ## Code -/

/-- Whether an instruction sets a timer. -/
def Instruction.sets : Instruction → Bool
  | .timer .. => true
  | _ => false

/-- Whether what an instruction does with a value is to queue a microtask. -/
def Finish.queues : Finish → Bool
  | .promise .. => true
  | _ => false

/-- What code may do besides what all code does: whether it may count steps,
whether it may take tasks, whether it may set timers, and whether it may queue
microtasks. -/
structure Licence where
  counts : Bool
  takes : Bool
  starts : Bool
  queues : Bool

def Licence.all : Licence := ⟨true, true, true, true⟩

/-- A change that tells what it does by one event, or does nothing to be told. -/
inductive Change.Brief {α : Type} (before : State) (c : Change α) : Prop
  | nothing : c.events = [] → c.store.state = before → Brief before c
  | event (e : Event) : c.events = [e] → c.store.state = before.learn e → Brief before c

/-- A change that tells what it does, and leaves alone the count of steps, the
flags of the store, the pacing delay and the timers that are tracked, unless
timers may be set the tasks that wait for one, and if nothing may be done about
tasks all of them. -/
structure Change.Edits {α : Type} (l : Licence) (store : Store) (c : Change α) : Prop where
  step : c.store.state.currentStep = store.state.currentStep
  isRunning : c.store.state.isRunning = store.state.isRunning
  isPaused : c.store.state.isPaused = store.state.isPaused
  speed : c.store.state.speed = store.state.speed
  timers : c.store.timers = store.timers
  waiting : l.starts = false → c.store.state.loop.timers = store.state.loop.timers
  loop : l.takes = false → l.starts = false → l.queues = false →
    c.store.state.loop = store.state.loop
  brief : c.Brief store.state

/-- What no code does anything about, and the queues. -/
def Store.unedited (store : Store) : Nat × Bool × Bool × Int × List Nat × EventLoop :=
  (store.state.currentStep, store.state.isRunning, store.state.isPaused, store.state.speed,
    store.timers, store.state.loop)

/-- A change that has nothing to do with tasks. -/
theorem Change.Edits.of_unedited {α : Type} {l : Licence} {store : Store} {c : Change α}
    (same : c.store.unedited = store.unedited) (brief : c.Brief store.state) :
    c.Edits l store := by
  simp only [Store.unedited, Prod.mk.injEq] at same
  obtain ⟨step, isRunning, isPaused, speed, timers, loop⟩ := same
  exact ⟨step, isRunning, isPaused, speed, timers, fun _ => congrArg EventLoop.timers loop,
    fun _ _ _ => loop, brief⟩

namespace Act

/-- A computation that is made of nothing but what code does, and tells all of it
to `tell`. -/
inductive Coded (tell : Publisher) (l : Licence) : {α : Type} → Act α → Prop
  | pure {α : Type} (a : α) : Coded tell l (Pure.pure a)
  | throw {α : Type} (f : Fault) : Coded tell l (MonadExcept.throw f : Act α)
  | bind {α β : Type} {x : Act α} {f : α → Act β} : Coded tell l x → (∀ a, Coded tell l (f a)) →
      Coded tell l (x >>= f)
  | recover {α : Type} {x : Act α} {h : Fault → Act α} : Coded tell l x → (∀ f, Coded tell l (h f)) →
      Coded tell l (tryCatch x h)
  /-- Code that goes on in a way that depends on what it sees. -/
  | look {α : Type} {f : Session → Act α} : (∀ s, Coded tell l (f s)) →
      (∀ s ρ, f (s.seen ρ) = f s) →
      (∀ (s : Session) bodies notices, f { s with bodies, notices } = f s) →
      Coded tell l (get >>= f)
  /-- A change, if code goes on with `g` of its answer. -/
  | change {α β : Type} {f : Store → Double → Change α} (g : α → β) :
      (∀ store now, (f store now).Edits l store) → Even f g →
      Coded tell l (do return g (← change (.standard tell) f))
  | change? {α β : Type} {f : Store → Except StoreFault (Change α)} (g : α → β) :
      (∀ store c, f store = .ok c → c.Edits l store) → Even? f g →
      Coded tell l (do return g (← change? (.standard tell) f))
  /-- Code notes where it stands. -/
  | note {g : Machine → Machine} : (∀ m, (g m).driven = m.driven) →
      (∀ m d, g (m.under d) = (g m).under d) → (∀ m ρ, g (m.seen ρ) = (g m).seen ρ) →
      Coded tell l (modifyMachine g)
  | reattach (closure : Option String) : Coded tell l (reattach (.standard tell) closure)
  | detach (scope : String) : Coded tell l (detach (.standard tell) scope)
  | compile (body : Body) : Coded tell l (instructionsOf body)
  | timer (wait : Double) (id : String) : l.starts = true →
      Coded tell l (modify fun s => s.timing wait id)
  | count : l.counts = true → Coded tell l (Act.change (.standard tell) fun s _ => s.incrementStep)
  | take {α : Type} {f : Store → Double → Change α} : l.takes = true →
      (∀ store now, (f store now).Edits l store) → Coded tell l (Act.change (.standard tell) f)

/-! ## What all code keeps -/

theorem edits_restoreScope {l : Licence} (store : Store) (scope : Scope) :
    (store.restoreScope scope).Edits l store := by
  unfold Store.restoreScope
  split
  · exact .of_unedited rfl (.nothing rfl rfl)
  · exact .of_unedited rfl (.event _ rfl rfl)

theorem edits_destroyScope {l : Licence} {store : Store} {id : String} {c : Change Scope}
    (h : store.destroyScope id = .ok c) : c.Edits l store := by
  unfold Store.destroyScope at h
  split at h <;> cases h
  exact .of_unedited rfl (.event _ rfl rfl)

/-- The single things that code does keep a property of sessions, and so does
telling about its changes. -/
structure Heeds (tell : Publisher) (l : Licence) (I : Session → Prop) : Prop where
  tells : ∀ {α : Type} {s : Session} {c : Change α}, c.Edits l s.store → I s →
    Ends (c.events.forM tell) { s with store := c.store } (fun _ t => I t) (fun _ t => I t)
  note : ∀ {s : Session} {g : Machine → Machine}, (∀ m, (g m).driven = m.driven) → I s →
    I { s with machine := g s.machine }
  compile : ∀ {s : Session} (bodies : List (Body × List Instruction)) (notices : List String),
    I s → I { s with bodies, notices }
  timer : l.starts = true → ∀ {s : Session} (wait : Double) (id : String), I s →
    I (s.timing wait id)
  count : l.counts = true → ∀ {s : Session}, I s →
    I { s with store := s.store.incrementStep.store }

section Heeds

variable {tell : Publisher} {l : Licence} {I : Session → Prop} {α : Type}

theorem Heeds.change (k : Heeds tell l I) {f : Store → Double → Change α}
    (edits : ∀ store now, (f store now).Edits l store) (s : Session) (hs : I s) :
    Ends (Act.change (.standard tell) f) s (fun _ t => I t) (fun _ t => I t) := by
  unfold Act.change
  rw [ends_bind, ends_get, ends_bind, ends_set, ends_bind]
  exact k.tells (edits s.store s.now) hs

theorem Heeds.change? (k : Heeds tell l I) {f : Store → Except StoreFault (Change α)}
    (edits : ∀ store c, f store = .ok c → c.Edits l store) (s : Session) (hs : I s) :
    Ends (Act.change? (.standard tell) f) s (fun _ t => I t) (fun _ t => I t) := by
  unfold Act.change?
  rw [ends_bind, ends_get]
  cases hc : f s.store with
  | error fault => exact hs
  | ok c =>
      rw [ends_bind, ends_set, ends_bind]
      exact k.tells (edits s.store c hc) hs

theorem Heeds.reattach (k : Heeds tell l I) (closure : Option String) (s : Session) (hs : I s) :
    Ends (Act.reattach (.standard tell) closure) s (fun _ t => I t) (fun _ t => I t) := by
  unfold Act.reattach
  rw [ends_bind, ends_get]
  dsimp only
  split
  · exact hs
  · rw [ends_bind]
    refine ends_forM (fun scope _ => ?_) hs
    exact k.change fun store _ => edits_restoreScope store scope

theorem Heeds.detach (k : Heeds tell l I) (scope : String) (s : Session) (hs : I s) :
    Ends (Act.detach (.standard tell) scope) s (fun _ t => I t) (fun _ t => I t) := by
  unfold Act.detach
  rw [ends_bind]
  refine (k.change? (fun _ _ hc => edits_destroyScope hc) s hs).mono ?_ fun _ _ ht => ht
  intro closed t ht
  exact k.note (g := fun m => { m with detached := (scope, closed) :: m.detached })
    (fun _ => rfl) ht

theorem Heeds.instructionsOf (k : Heeds tell l I) (body : Body) (s : Session) (hs : I s) :
    Ends (Act.instructionsOf body) s (fun _ t => I t) (fun _ t => I t) := by
  unfold Act.instructionsOf
  rw [ends_bind, ends_get]
  split
  · exact k.compile _ _ hs
  · split
    · exact hs
    · exact k.compile _ _ hs

/-- What the single things keep, all code keeps. -/
theorem Coded.heeds (k : Heeds tell l I) {act : Act α} (h : Coded tell l act) :
    ∀ s, I s → Ends act s (fun _ t => I t) (fun _ t => I t) := by
  induction h with
  | pure | throw =>
      intro s hs
      exact hs
  | bind _ _ ihx ihf =>
      intro s hs
      rw [ends_bind]
      refine (ihx s hs).mono ?_ ?_
      · intro a t ht
        exact ihf a t ht
      · intro f t ht
        exact ht
  | recover _ _ ihx ihh =>
      intro s hs
      rw [ends_tryCatch]
      refine (ihx s hs).mono ?_ ?_
      · intro a t ht
        exact ht
      · intro f t ht
        exact ihh f t ht
  | look _ _ _ ih =>
      intro s hs
      exact ih s s hs
  | change g edits _ =>
      intro s hs
      rw [ends_bind]
      exact k.change edits s hs
  | change? g edits _ =>
      intro s hs
      rw [ends_bind]
      exact k.change? edits s hs
  | note driven _ _ =>
      intro s hs
      exact k.note driven hs
  | reattach closure => exact k.reattach closure
  | detach scope => exact k.detach scope
  | compile body => exact k.instructionsOf body
  | timer wait id may =>
      intro s hs
      exact k.timer may wait id hs
  | count may =>
      intro s hs
      exact k.count may hs
  | take _ edits =>
      intro s hs
      exact k.change edits s hs

end Heeds

/-- The single things that code does keep a property of sessions, if its changes
are noted in the journal and nowhere else. -/
structure Kept (l : Licence) (I : Session → Prop) : Prop where
  publish : ∀ {α : Type} {s : Session} {c : Change α}, c.Edits l s.store → I s → I (s.publish c)
  note : ∀ {s : Session} {g : Machine → Machine}, (∀ m, (g m).driven = m.driven) → I s →
    I { s with machine := g s.machine }
  compile : ∀ {s : Session} (bodies : List (Body × List Instruction)) (notices : List String),
    I s → I { s with bodies, notices }
  timer : l.starts = true → ∀ {s : Session} (wait : Double) (id : String), I s →
    I (s.timing wait id)
  count : l.counts = true → ∀ {s : Session}, I s → I (s.publish s.store.incrementStep)

theorem Kept.heeds {l : Licence} {I : Session → Prop} (k : Kept l I) : Heeds record l I where
  tells edits hs := .of_answer (run_forM_record _) (k.publish edits hs)
  note := k.note
  compile := k.compile
  timer := k.timer
  count := k.count

theorem Coded.keeps {l : Licence} {I : Session → Prop} (k : Kept l I) {α : Type} {act : Act α}
    (h : Coded record l act) : ∀ s, I s → Ends act s (fun _ t => I t) (fun _ t => I t) :=
  h.heeds k.heeds

/-- From `s` to `t` nothing changed of how the program is driven, nor of how the
store shows it. -/
structure Untouched (s t : Session) : Prop where
  driven : t.machine.driven = s.machine.driven
  hooks : t.hooks = s.hooks
  realtime : t.realtime = s.realtime
  attached : t.attached = s.attached
  isRunning : t.store.state.isRunning = s.store.state.isRunning
  isPaused : t.store.state.isPaused = s.store.state.isPaused

theorem kept_untouched (l : Licence) (s : Session) : Kept l (Untouched s) where
  publish := by
    intro α t c edits h
    obtain ⟨lines, eq⟩ := t.publish_eq c
    rw [eq]
    exact ⟨h.driven, h.hooks, h.realtime, h.attached, edits.isRunning.trans h.isRunning,
      edits.isPaused.trans h.isPaused⟩
  note := by
    intro t g driven h
    exact ⟨(driven t.machine).trans h.driven, h.hooks, h.realtime, h.attached, h.isRunning,
      h.isPaused⟩
  compile := by
    intro t bodies notices h
    exact ⟨h.driven, h.hooks, h.realtime, h.attached, h.isRunning, h.isPaused⟩
  timer _ := by
    intro t wait id h
    exact ⟨h.driven, h.hooks, h.realtime, h.attached, h.isRunning, h.isPaused⟩
  count _ := by
    intro t h
    exact ⟨h.driven, h.hooks, h.realtime, h.attached, h.isRunning, h.isPaused⟩

/-- Code leaves alone how it is driven. -/
theorem Coded.untouched {l : Licence} {α : Type} {act : Act α} (h : Coded record l act)
    (s : Session) :
    Ends act s (fun _ t => Untouched s t) (fun _ t => Untouched s t) :=
  h.keeps (kept_untouched l s) s ⟨rfl, rfl, rfl, rfl, rfl, rfl⟩

/-! ## Code under another driving -/

/-- Whatever drives the computation, it does the same and tells the same. -/
def Indifferent {α : Type} (act : Act α) : Prop :=
  ∀ s : Session, ∃ l, ∀ d,
    act.run (s.under d) = ((act.run s).1, (act.run s).2.under (d.told l))

section Indifferent

variable {α β : Type}

theorem indifferent_pure (a : α) : Indifferent (pure a : Act α) :=
  fun _ => ⟨[], fun _ => rfl⟩

theorem Indifferent.bind {x : Act α} {f : α → Act β} (hx : Indifferent x)
    (hf : ∀ a, Indifferent (f a)) : Indifferent (x >>= f) := by
  intro s
  obtain ⟨l, hl⟩ := hx s
  rcases hr : (x.run s : Except Fault α × Session) with ⟨fault | a, t⟩
  · refine ⟨l, fun d => ?_⟩
    rw [run_bind, run_bind, hl d, hr]
  · obtain ⟨l', hl'⟩ := hf a t
    refine ⟨l' ++ l, fun d => ?_⟩
    rw [run_bind, run_bind, hl d, hr]
    exact (hl' (d.told l)).trans (by rw [Driving.told_told])

theorem Indifferent.recover {x : Act α} {h : Fault → Act α} (hx : Indifferent x)
    (hh : ∀ f, Indifferent (h f)) : Indifferent (tryCatch x h) := by
  intro s
  obtain ⟨l, hl⟩ := hx s
  rcases hr : (x.run s : Except Fault α × Session) with ⟨fault | a, t⟩
  · obtain ⟨l', hl'⟩ := hh fault t
    refine ⟨l' ++ l, fun d => ?_⟩
    rw [run_tryCatch, run_tryCatch, hl d, hr]
    exact (hl' (d.told l)).trans (by rw [Driving.told_told])
  · refine ⟨l, fun d => ?_⟩
    rw [run_tryCatch, run_tryCatch, hl d, hr]

theorem Indifferent.look {f : Session → Act α} (h : ∀ s, Indifferent (f s))
    (blind : ∀ s ρ, f (s.seen ρ) = f s) : Indifferent (get >>= f) := by
  intro s
  obtain ⟨l, hl⟩ := h s s
  refine ⟨l, fun d => ?_⟩
  -- what is seen of a session does not show how it is driven
  have same : f (s.under d) = f s := by
    rw [← blind (s.under d) .same, Session.seen_under, blind]
  rw [run_get_bind, run_get_bind, same]
  exact hl d

theorem indifferent_change (f : Store → Double → Change α) :
    Indifferent (Act.change (.standard record) f) := by
  intro s
  refine ⟨(f s.store s.now).events.reverse, fun d => ?_⟩
  rw [run_change rfl, run_change rfl]
  exact congrArg (Prod.mk _) (s.publish_under d _)

theorem indifferent_change? (f : Store → Except StoreFault (Change α)) :
    Indifferent (Act.change? (.standard record) f) := by
  intro s
  have store (d : Driving) : (s.under d).store = s.store := rfl
  cases hc : f s.store with
  | ok c =>
      refine ⟨c.events.reverse, fun d => ?_⟩
      rw [run_change? rfl, run_change? rfl, store, hc]
      exact congrArg (Prod.mk _) (s.publish_under d c)
  | error fault =>
      refine ⟨[], fun d => ?_⟩
      rw [run_change? rfl, run_change? rfl, store, hc]
      rfl

theorem indifferent_note {g : Machine → Machine} (blind : ∀ m d, g (m.under d) = (g m).under d) :
    Indifferent (modifyMachine g) := by
  intro s
  refine ⟨[], fun d => ?_⟩
  show (Except.ok PUnit.unit, ({ s.under d with machine := g (s.machine.under d) } : Session)) = _
  rw [blind]
  rfl

theorem indifferent_reattach (closure : Option String) :
    Indifferent (reattach (.standard record) closure) := by
  intro s
  obtain ⟨l, hl⟩ := s.restored_under (s.reopened closure)
  refine ⟨l, fun d => ?_⟩
  rw [run_reattach rfl, run_reattach rfl]
  exact congrArg (Prod.mk _) (hl d)

theorem indifferent_compile (body : Body) : Indifferent (instructionsOf body) := by
  intro s
  refine ⟨[], fun d => ?_⟩
  unfold instructionsOf
  rw [run_get_bind, run_get_bind, show (s.under d).bodies = s.bodies from rfl]
  cases s.bodies.find? (·.1 == body) with
  | some known => rfl
  | none => cases body.compile <;> rfl

end Indifferent

/-- Whatever drives code, it does the same and tells the same. -/
theorem Coded.run_under {l : Licence} {α : Type} {act : Act α} (h : Coded record l act) :
    Indifferent act := by
  induction h with
  | pure a => exact indifferent_pure a
  | throw f => exact fun _ => ⟨[], fun _ => rfl⟩
  | bind _ _ ihx ihf => exact ihx.bind ihf
  | recover _ _ ihx ihh => exact ihx.recover ihh
  | look _ blind _ ih => exact .look ih blind
  | change g _ _ => exact (indifferent_change _).bind fun a => indifferent_pure (g a)
  | change? g _ _ => exact (indifferent_change? _).bind fun a => indifferent_pure (g a)
  | note _ blind _ => exact indifferent_note blind
  | reattach closure => exact indifferent_reattach closure
  | detach scope =>
      refine (indifferent_change? fun store => store.destroyScope scope).bind fun closed => ?_
      exact indifferent_note fun _ _ => rfl
  | compile body => exact indifferent_compile body
  | timer wait id _ => exact fun _ => ⟨[], fun _ => rfl⟩
  | count _ => exact indifferent_change _
  | take _ _ => exact indifferent_change _

/-! ## Code and what it sees -/

/-- On what is seen of a session the computation answers the same, and its end is
seen to be the same. -/
def Uniform {α : Type} (ρ : Retiming) (act : Act α) : Prop :=
  ∀ s : Session, (act.run (s.outline ρ)).1 = (act.run s).1 ∧
    (act.run (s.outline ρ)).2.outline ρ = (act.run s).2.outline ρ

/-- What is seen of two sessions decides what a uniform computation does. -/
theorem Uniform.run {α : Type} {ρ : Retiming} {act : Act α} (h : Uniform ρ act) {s t : Session}
    (same : s.outline ρ = t.outline ρ) :
    (act.run s).1 = (act.run t).1 ∧ (act.run s).2.outline ρ = (act.run t).2.outline ρ := by
  obtain ⟨value, after⟩ := h s
  obtain ⟨value', after'⟩ := h t
  rw [same] at value after
  exact ⟨value.symm.trans value', after.symm.trans after'⟩

theorem outline_restored {ρ : Retiming} (scopes : List Scope) {s t : Session}
    (same : s.outline ρ = t.outline ρ) :
    (s.restored (scopes.map (Scope.retimed ρ))).outline ρ = (t.restored scopes).outline ρ := by
  induction scopes generalizing s t with
  | nil => exact same
  | cons c scopes ih =>
      have seen : s.store.seen ρ = t.store.seen ρ := congrArg Session.store same
      have once (store : Store) (c : Scope) := even_restoreScope (ρ := ρ) store c
      refine ih (Session.outline_publish_congr (g := id) same ?_)
      rw [← once t.store, ← once s.store, seen, Scope.retimed_retimed]

section Uniform

variable {ρ : Retiming} {α β : Type}

theorem uniform_pure (a : α) : Uniform ρ (pure a : Act α) :=
  fun s => ⟨rfl, s.outline_outline⟩

theorem Uniform.bind {x : Act α} {f : α → Act β} (hx : Uniform ρ x) (hf : ∀ a, Uniform ρ (f a)) :
    Uniform ρ (x >>= f) := by
  intro s
  have first := hx s
  rw [run_bind, run_bind]
  rcases hr : (x.run s : Except Fault α × Session) with ⟨r, t⟩
  rcases hr' : (x.run (s.outline ρ) : Except Fault α × Session) with ⟨r', t'⟩
  rw [hr, hr'] at first
  obtain ⟨rfl, after⟩ := first
  cases r' with
  | error fault => exact ⟨rfl, after⟩
  | ok a => exact (hf a).run after

theorem Uniform.recover {x : Act α} {h : Fault → Act α} (hx : Uniform ρ x)
    (hh : ∀ f, Uniform ρ (h f)) : Uniform ρ (tryCatch x h) := by
  intro s
  have first := hx s
  rw [run_tryCatch, run_tryCatch]
  rcases hr : (x.run s : Except Fault α × Session) with ⟨r, t⟩
  rcases hr' : (x.run (s.outline ρ) : Except Fault α × Session) with ⟨r', t'⟩
  rw [hr, hr'] at first
  obtain ⟨rfl, after⟩ := first
  cases r' with
  | error fault => exact (hh fault).run after
  | ok a => exact ⟨rfl, after⟩

theorem Uniform.look {f : Session → Act α} (h : ∀ s, Uniform ρ (f s))
    (blind : ∀ s ρ, f (s.seen ρ) = f s) : Uniform ρ (get >>= f) := by
  intro s
  have same : f (s.outline ρ) = f s := by
    rw [← blind (s.outline ρ) ρ, Session.seen_outline, blind]
  rw [run_get_bind, run_get_bind, same]
  exact h s s

theorem uniform_change {f : Store → Double → Change α} {g : α → β} (even : Even f g) :
    Uniform ρ (do return g (← Act.change (.standard record) f)) := by
  intro s
  have seen := even ρ s.store s.now
  rw [run_bind, run_bind, run_change rfl, run_change rfl]
  refine ⟨congrArg Except.ok (congrArg Change.value seen), ?_⟩
  exact Session.outline_publish_congr s.outline_outline seen

/-- A change that looks the same on what is seen of a store is refused there with
the same fault, or made in the same way. -/
theorem seen_change? {f : Store → Except StoreFault (Change α)} {g : α → β} {store : Store}
    (even : (f (store.seen ρ)).map (Change.seen ρ g) = (f store).map (Change.seen ρ g)) :
    (∃ fault, f store = .error fault ∧ f (store.seen ρ) = .error fault) ∨
      ∃ c c', f store = .ok c ∧ f (store.seen ρ) = .ok c' ∧ c'.seen ρ g = c.seen ρ g := by
  rcases hc : f store with fault | c <;> rcases hc' : f (store.seen ρ) with fault' | c' <;>
    rw [hc, hc'] at even
  · cases even
    exact .inl ⟨fault, rfl, rfl⟩
  · cases even
  · cases even
  · exact .inr ⟨c, c', rfl, rfl, Except.ok.inj even⟩

theorem uniform_change? {f : Store → Except StoreFault (Change α)} {g : α → β} (even : Even? f g) :
    Uniform ρ (do return g (← Act.change? (.standard record) f)) := by
  intro s
  rw [run_bind, run_bind, run_change? rfl, run_change? rfl,
    show (s.outline ρ).store = s.store.seen ρ from rfl]
  obtain ⟨fault, hf, hf'⟩ | ⟨c, c', hc, hc', seen⟩ := seen_change? (even ρ s.store)
  · rw [hf, hf']
    exact ⟨rfl, s.outline_outline⟩
  · rw [hc, hc']
    refine ⟨congrArg Except.ok (congrArg Change.value seen), ?_⟩
    exact Session.outline_publish_congr s.outline_outline seen

theorem uniform_note {g : Machine → Machine} (blind : ∀ m ρ, g (m.seen ρ) = (g m).seen ρ) :
    Uniform ρ (modifyMachine g) := by
  intro s
  refine ⟨rfl, ?_⟩
  show ({ (s.outline ρ).outline ρ with machine := (g (s.machine.seen ρ)).seen ρ } : Session) =
    { s.outline ρ with machine := (g s.machine).seen ρ }
  rw [blind, Machine.seen_seen, Session.outline_outline]

theorem uniform_reattach (closure : Option String) :
    Uniform ρ (reattach (.standard record) closure) := by
  intro s
  have scopes : (s.outline ρ).reopened closure = (s.reopened closure).map (Scope.retimed ρ) :=
    s.reopened_seen ρ closure
  rw [run_reattach rfl, run_reattach rfl, scopes]
  refine ⟨?_, outline_restored _ s.outline_outline⟩
  simp [idsOf, Function.comp_def, Scope.retimed]

/-- The scope that is closed is noted with its times, and the note is seen without
them. -/
theorem uniform_detach (scope : String) : Uniform ρ (detach (.standard record) scope) := by
  intro s
  have noted (t : Session) (c : Scope) :
      ({ t with
          machine :=
            { t.machine with detached := (scope, c) :: t.machine.detached } } : Session).outline ρ =
        { t.outline ρ with
          machine :=
            { (t.outline ρ).machine with
              detached := (scope, c.retimed ρ) :: (t.outline ρ).machine.detached } } := rfl
  unfold Act.detach
  rw [run_bind, run_bind, run_change? rfl, run_change? rfl,
    show (s.outline ρ).store = s.store.seen ρ from rfl]
  obtain ⟨fault, hf, hf'⟩ | ⟨c, c', hc, hc', seen⟩ :=
    seen_change? (f := fun store => store.destroyScope scope) (even_destroyScope s.store scope)
  · rw [hf, hf']
    exact ⟨rfl, s.outline_outline⟩
  · rw [hc, hc']
    refine ⟨rfl, (noted _ _).trans (Eq.trans ?_ (noted _ _).symm)⟩
    rw [Session.outline_publish_congr s.outline_outline seen,
      show c'.value.retimed ρ = c.value.retimed ρ from congrArg Change.value seen]

theorem uniform_compile (body : Body) : Uniform ρ (instructionsOf body) := by
  intro s
  have kept (bodies : List (Body × List Instruction)) (notices : List String) :
      ({ s.outline ρ with bodies, notices } : Session).outline ρ =
        ({ s with bodies, notices } : Session).outline ρ := by
    show ({ (s.outline ρ).outline ρ with bodies, notices } : Session) =
      { s.outline ρ with bodies, notices }
    rw [Session.outline_outline]
  unfold instructionsOf
  rw [run_get_bind, run_get_bind, show (s.outline ρ).bodies = s.bodies from rfl]
  cases s.bodies.find? (·.1 == body) with
  | some known => exact ⟨rfl, kept _ _⟩
  | none =>
      cases body.compile with
      | error fault => exact ⟨rfl, s.outline_outline⟩
      | ok t => exact ⟨rfl, kept _ _⟩

end Uniform

/-- Code that takes no task sees no times, and not which timers have come due. -/
theorem Coded.uniform {l : Licence} {α : Type} {act : Act α} (h : Coded record l act)
    (hl : l.takes = false)
    (ρ : Retiming) : Uniform ρ act := by
  induction h with
  | pure a => exact uniform_pure a
  | throw f => exact fun s => ⟨rfl, s.outline_outline⟩
  | bind _ _ ihx ihf => exact ihx.bind ihf
  | recover _ _ ihx ihh => exact ihx.recover ihh
  | look _ blind _ ih => exact .look ih blind
  | change g _ even => exact uniform_change even
  | change? g _ even => exact uniform_change? even
  | note _ _ blind => exact uniform_note blind
  | reattach closure => exact uniform_reattach closure
  | detach scope => exact uniform_detach scope
  | compile body => exact uniform_compile body
  | timer wait id _ => exact fun s => ⟨rfl, s.outline_outline⟩
  | count _ =>
      intro s
      rw [run_change rfl, run_change rfl]
      exact ⟨rfl, Session.outline_publish_congr s.outline_outline
        (even_incrementStep ρ s.store s.now)⟩
  | take may _ => exact absurd (may.symm.trans hl) (by simp)

/-! ## One rule for each way of reading -/

variable {tell : Publisher} {l : Licence} {α β γ : Type}

/-- Code that only reads. -/
theorem coded_read {g : Session → α} (blind : ∀ s ρ, g (s.seen ρ) = g s)
    (apart : ∀ (s : Session) bodies notices, g { s with bodies, notices } = g s) :
    Coded tell l (do return g (← get)) :=
  .look (fun s => .pure (g s)) (fun s ρ => congrArg Pure.pure (blind s ρ))
    fun s bodies notices => congrArg Pure.pure (apart s bodies notices)

/-- Code that goes on in a way that depends on where it stands. -/
theorem coded_machine {f : Machine → Act α} (h : ∀ m, Coded tell l (f m))
    (blind : ∀ m ρ, f (m.seen ρ) = f m) : Coded tell l (machine >>= f) := by
  have reads : Coded tell l (get >>= fun s => f s.machine) :=
    .look (fun s => h s.machine) (fun s ρ => blind s.machine ρ) fun _ _ _ => rfl
  exact reads

/-- Code that goes on in a way that depends on the store. -/
theorem coded_store {f : Store → Act α} (h : ∀ store, Coded tell l (f store))
    (blind : ∀ store ρ, f (store.seen ρ) = f store) : Coded tell l (store >>= f) := by
  have reads : Coded tell l (get >>= fun s => f s.store) :=
    .look (fun s => h s.store) (fun s ρ => blind s.store ρ) fun _ _ _ => rfl
  exact reads

theorem coded_heapView : Coded tell l heapView :=
  coded_read (fun s ρ => s.store.heapView_seen ρ) fun _ _ _ => rfl

/-- A change whose answer tells no time. -/
theorem Coded.edit {f : Store → Double → Change α}
    (edits : ∀ store now, (f store now).Edits l store)
    (even : Even f id) : Coded tell l (Act.change (.standard tell) f) := by
  have edit : Coded tell l (do return id (← Act.change (.standard tell) f)) := .change id edits even
  rwa [show (fun a : α => Pure.pure (id a) : α → Act α) = Pure.pure from rfl, bind_pure] at edit

theorem Coded.edit? {f : Store → Except StoreFault (Change α)}
    (edits : ∀ store c, f store = .ok c → c.Edits l store) (even : Even? f id) :
    Coded tell l (Act.change? (.standard tell) f) := by
  have edit :
      Coded tell l (do return id (← Act.change? (.standard tell) f)) := .change? id edits even
  rwa [show (fun a : α => Pure.pure (id a) : α → Act α) = Pure.pure from rfl, bind_pure] at edit

/-- A change, and code that goes on with a part of its answer. -/
theorem Coded.then {f : Store → Double → Change α} (g : α → β) (next : β → Act γ)
    (edits : ∀ store now, (f store now).Edits l store) (even : Even f g)
    (goesOn : ∀ b, Coded tell l (next b)) :
    Coded tell l (Act.change (.standard tell) f >>= fun a => next (g a)) := by
  have both := (Coded.change (l := l) g edits even).bind goesOn
  rwa [bind_assoc] at both

theorem coded_number (r : Except NumberFault α) : Coded tell l (number r) := by
  cases r with
  | ok a => exact .pure a
  | error fault => exact .throw _

theorem coded_kindOf (v : Value) : Coded tell l (kindOf v) :=
  coded_heapView.bind fun _ => .pure _

theorem coded_display (v : Value) : Coded tell l (display v) :=
  coded_heapView.bind fun _ => coded_number _

theorem coded_find (name scope : String) : Coded tell l (find (.standard tell) name scope) :=
  coded_read (fun s ρ => congrFun (congrFun (s.findOpen_seen ρ) name) (some scope)) fun _ _ _ => rfl

theorem coded_ownBinding? (scope name : String) : Coded tell l (ownBinding? scope name) := by
  refine coded_store (fun _ => .pure _) fun store ρ => ?_
  rw [Store.scope?_seen]
  cases store.scope? scope <;> rfl

theorem coded_declared? (name : String) : Coded tell l (declared? name) :=
  coded_read (fun s ρ => s.declared?_seen ρ name) fun _ _ _ => rfl

theorem coded_asFunction? (v : Value) : Coded tell l (asFunction? v) :=
  coded_read (fun s ρ => s.functionOf?_seen ρ v) fun _ _ _ => rfl

theorem coded_lookupFunction? (name : String) :
    Coded tell l (lookupFunction? (.standard tell) name) :=
  coded_read (fun s ρ => s.namedFunction?_seen ρ name none) fun _ _ _ => rfl

theorem coded_entryOf? (v : Value) : Coded tell l (entryOf? v) := by
  cases v with
  | ref id => exact coded_store (fun _ => .pure _) fun store ρ => by rw [Store.heapLookup?_seen]
  | _ => exact .pure _

theorem Coded.forM {items : List α} {f : α → Act PUnit} (h : ∀ a, Coded tell l (f a)) :
    Coded tell l (items.forM f) := by
  induction items with
  | nil => exact .pure PUnit.unit
  | cons a items ih => exact (h a).bind fun _ => ih

theorem Coded.ite {c : Prop} [Decidable c] {x y : Act α} (hx : Coded tell l x)
    (hy : Coded tell l y) :
    Coded tell l (if c then x else y) := by
  split
  · exact hx
  · exact hy

/-! ## Changes of the store -/

section Edits

variable {store : Store} {now : Double}

theorem edits_refl (a : α) : Change.Edits l store { store, value := a, events := [] } :=
  .of_unedited rfl (.nothing rfl rfl)

theorem edits_updateFrameVariable (name value kind : String) :
    (store.updateFrameVariable name value kind).Edits l store := by
  unfold Store.updateFrameVariable
  split
  · exact edits_refl _
  · exact .of_unedited rfl (.event _ rfl rfl)

theorem edits_addReference (fromId toId : String) :
    (store.addReference fromId toId).Edits l store := by
  unfold Store.addReference
  split
  · exact edits_refl _
  · split
    · exact edits_refl _
    · exact .of_unedited rfl (.event _ rfl rfl)

theorem edits_updateHeapValue {id : String} {payload : Value} {c : Change Unit}
    (h : store.updateHeapValue id payload = .ok c) : c.Edits l store := by
  unfold Store.updateHeapValue at h
  split at h <;> cases h
  exact .of_unedited rfl (.event _ rfl rfl)

theorem edits_popFrame {c : Change Frame} (h : store.popFrame = .ok c) : c.Edits l store := by
  unfold Store.popFrame at h
  split at h <;> cases h
  exact .of_unedited rfl (.event _ rfl rfl)

theorem edits_addScopeVariable {id name : String} {b : Binding} {c : Change Unit}
    (h : store.addScopeVariable id name b = .ok c) : c.Edits l store := by
  obtain ⟨_, _, rfl⟩ := addScopeVariable_inv h
  exact .of_unedited rfl (.event _ rfl rfl)

theorem edits_updateScopeVariable {id name : String} {v : Value} {kind : Option String}
    {c : Change Unit} (h : store.updateScopeVariable id name v kind = .ok c) : c.Edits l store := by
  obtain ⟨_, _, _, _, _, rfl⟩ := updateScopeVariable_inv h
  exact .of_unedited rfl (.event _ rfl rfl)

theorem edits_nextMicrotask (may : l.takes = true) : store.nextMicrotask.Edits l store := by
  unfold Store.nextMicrotask
  split
  · exact edits_refl _
  · exact ⟨rfl, rfl, rfl, rfl, rfl, fun _ => rfl, by simp [may], .event _ rfl rfl⟩

theorem edits_nextCallback (may : l.takes = true) : store.nextCallback.Edits l store := by
  unfold Store.nextCallback
  split
  · exact edits_refl _
  · exact ⟨rfl, rfl, rfl, rfl, rfl, fun _ => rfl, by simp [may], .event _ rfl rfl⟩

end Edits

/-! ## Reporting -/

theorem coded_log (type : String) (args : List String) :
    Coded tell l (log (.standard tell) type args) :=
  .edit (fun _ _ => .of_unedited rfl (.event _ rfl rfl))
    (even_logConsole type args)

theorem coded_info (text : String) : Coded tell l (info (.standard tell) text) := coded_log _ _

theorem coded_error (text : String) : Coded tell l (error (.standard tell) text) := coded_log _ _

theorem coded_logValues (method : String) (args : List Value) :
    Coded tell l (logValues (.standard tell) method args) := by
  refine coded_heapView.bind fun heap => ?_
  refine (coded_number _).bind fun texts => ?_
  exact coded_log method texts

theorem coded_addReferences (id : String) (refs : List String) :
    Coded tell l (refs.forM fun child => change (.standard tell) fun s _ => s.addReference id child) :=
  .forM fun child => .edit (fun _ _ => edits_addReference id child) (even_addReference id child)

theorem coded_allocate (kind : String) (payload : Value) :
    Coded tell l (allocate (.standard tell) kind payload) := by
  refine Coded.bind (.edit (fun _ _ => .of_unedited rfl (.event _ rfl rfl)) (even_allocate _ _)) ?_
  exact fun id => (coded_addReferences id _).bind fun _ => .pure _

theorem coded_allocateFunction (f : FunctionValue) :
    Coded tell l (allocateFunction (.standard tell) f) :=
  Coded.bind (.edit (fun _ _ => .of_unedited rfl (.event _ rfl rfl)) (even_allocate _ _))
    fun _ => .pure _

theorem coded_updateFrameVariable (name value kind : String) :
    Coded tell l (change (.standard tell) fun s _ => s.updateFrameVariable name value kind) :=
  .edit (fun _ _ => edits_updateFrameVariable name value kind)
    (even_updateFrameVariable name value kind)

theorem coded_addScopeVariable (scope name : String) (b : Binding) :
    Coded tell l (change? (.standard tell) fun s => s.addScopeVariable scope name b) :=
  .edit? (fun _ _ h => edits_addScopeVariable h) (even_addScopeVariable scope name b)

theorem coded_updateScopeVariable (scope name : String) (v : Value) (kind : Option String) :
    Coded tell l (change? (.standard tell) fun s => s.updateScopeVariable scope name v kind) :=
  .edit? (fun _ _ h => edits_updateScopeVariable h) (even_updateScopeVariable scope name v kind)

theorem coded_setCurrentLine (line : Int) :
    Coded tell l (change (.standard tell) fun s _ => s.setCurrentLine line) :=
  .edit (fun _ _ => .of_unedited rfl (.event _ rfl rfl)) (even_setCurrentLine line)

theorem coded_showVariable (scope name : String) (v : Value) :
    Coded tell l (showVariable (.standard tell) scope name v) := by
  refine coded_store (fun store => .ite ?_ (.pure _)) fun store ρ => ?_
  · refine (coded_display v).bind fun shown => ?_
    exact (coded_kindOf v).bind fun kind => coded_updateFrameVariable name shown kind
  · rw [Store.currentScope?_seen]

theorem coded_bind (scope name : String) (v : Value) (declaration : String) :
    Coded tell l (Act.bind (.standard tell) scope name v declaration) := by
  refine (coded_kindOf v).bind fun kind => ?_
  refine (coded_ownBinding? scope name).bind fun own => ?_
  cases own with
  | some b =>
      exact (coded_updateScopeVariable _ _ _ _).bind fun _ =>
        coded_showVariable _ _ _
  | none =>
      exact (coded_addScopeVariable _ _ _).bind fun _ =>
        coded_showVariable _ _ _

theorem coded_assign (scope name : String) (v : Value) :
    Coded tell l (assign (.standard tell) scope name v) := by
  refine (coded_find name scope).bind fun found => ?_
  cases found with
  | none =>
      refine (coded_kindOf v).bind fun kind => ?_
      exact (coded_addScopeVariable _ _ _).bind fun _ =>
        coded_showVariable _ _ _
  | some owned =>
      refine .ite (coded_error _) ?_
      refine (coded_kindOf v).bind fun kind => ?_
      exact (coded_updateScopeVariable _ _ _ _).bind fun _ =>
        coded_showVariable _ _ _

theorem coded_isUnbound (name scope : String) :
    Coded tell l (isUnbound (.standard tell) name scope) := by
  refine .ite (.pure _) ?_
  refine (coded_find name scope).bind fun found => .ite (.pure _) ?_
  exact (coded_declared? name).bind fun _ => .pure _

theorem coded_resolve (name scope : String) :
    Coded tell l (resolve (.standard tell) name scope) := by
  refine .ite (coded_machine (fun _ => .pure _) fun _ _ => rfl) ?_
  refine (coded_find name scope).bind fun found => ?_
  cases found with
  | some owned => exact .pure _
  | none => exact .ite (.pure _) ((coded_error _).bind fun _ => .pure _)

/-! ## Calls -/

theorem coded_unwind (call : Call) : Coded tell l (unwind (.standard tell) call) := by
  refine Coded.bind (.note (fun _ => rfl) (fun _ _ => rfl) fun _ _ => rfl) fun _ => ?_
  refine Coded.bind (.edit? (fun _ _ h => edits_popFrame h) even_popFrame) fun _ => ?_
  exact Coded.bind (.detach _) fun _ => .forM fun id => .detach id

theorem coded_isCurrent (call : Call) : Coded tell l (isCurrent call) :=
  coded_machine (fun _ => .pure _) fun _ _ => rfl

theorem coded_unwindAll (calls : List Call) (fault : Option Fault) :
    Coded tell l (unwindAll (.standard tell) calls fault) := by
  induction calls generalizing fault with
  | nil => exact .pure _
  | cons call outer ih =>
      refine (coded_isCurrent call).bind fun current => .ite ?_ ?_
      · refine Coded.bind (.recover ?_ fun _ => .pure _) fun fault => ih fault
        exact (coded_unwind call).bind fun _ => .pure _
      · exact (Coded.pure fault).bind fun fault => ih fault

theorem coded_inside (calls : List Call) {body : Act α} (h : Coded tell l body) :
    Coded tell l (inside (.standard tell) calls body) := by
  refine .recover h fun fault => ?_
  exact (coded_unwindAll calls (some fault)).bind fun _ => .throw _

theorem coded_bindParams (scope : String) (params : List String) (args : List Value) :
    Coded tell l (bindParams (.standard tell) scope params args) := by
  induction params generalizing args with
  | nil => exact .pure _
  | cons param params ih =>
      refine (coded_kindOf _).bind fun kind => ?_
      refine (coded_addScopeVariable _ _ _).bind fun _ => ?_
      refine (coded_display _).bind fun shown => (coded_kindOf _).bind fun shownKind => ?_
      exact (coded_updateFrameVariable param shown shownKind).bind fun _ => ih _

theorem coded_checkDepth : Coded tell l checkDepth :=
  coded_machine (fun _ => .ite (.throw _) (.pure _)) fun _ _ => rfl

theorem coded_receiverText (receiver : Option Value) : Coded tell l (receiverText receiver) := by
  cases receiver with
  | some v => exact coded_display v
  | none => exact .pure _

theorem coded_pushCall (name thisBinding : String) (line : Int) (receiver : Value) :
    Coded tell l (pushCall (.standard tell) name thisBinding line receiver) :=
  Coded.bind (.edit (fun _ _ => .of_unedited rfl (.event _ rfl rfl)) (even_pushFrame _ _ _ _))
    fun _ => .note (fun _ => rfl) (fun _ _ => rfl) fun _ _ => rfl

theorem coded_enterCall (f : FunctionValue) (args : List Value) (name : String) (line : Int)
    (receiver : Option Value) (scope : String) (restored : List String) :
    Coded tell l (enterCall (.standard tell) f args name line receiver scope restored) := by
  refine (coded_receiverText receiver).bind fun thisBinding => ?_
  refine (coded_pushCall _ _ _ _).bind fun _ => coded_machine (fun m => ?_) fun _ _ => rfl
  exact (coded_inside _ (coded_bindParams _ _ _)).bind fun _ => .pure _

theorem coded_invoke (f : FunctionValue) (args : List Value) (name : String) (line : Int)
    (receiver : Option Value) :
    Coded tell l (invoke (.standard tell) f args name line receiver) := by
  unfold invoke openScope
  simp only [bind_assoc, pure_bind]
  refine coded_checkDepth.bind fun _ => Coded.bind (.reattach _) fun restored => ?_
  -- of the scope that is opened the rest sees the identity only
  refine .look (fun s => ?_) (fun s ρ => ?_) fun _ _ _ => rfl
  · exact .then Scope.id (enterCall (.standard tell) f args (callName name) line receiver · restored)
      (fun _ _ => .of_unedited rfl (.event _ rfl rfl)) (even_createScope _ _ _) fun id =>
        coded_enterCall f args (callName name) line receiver id restored
  · rw [show (Host.standard tell).parent = Session.openParent from rfl, Session.openParent_seen]

/-! ## Expressions -/

theorem coded_done {a : Act Value} (h : Coded tell l a) :
    Coded tell l (done a) := h.bind fun _ => .pure _

theorem coded_andThen {part : Act Evaluated} {place : ExprFrame} {next : Value → Act Evaluated}
    (hp : Coded tell l part) (hn : ∀ v, Coded tell l (next v)) :
    Coded tell l (andThen part place next) := by
  refine hp.bind fun r => ?_
  cases r with
  | value v => exact hn v
  | calling call body context => exact .pure _

theorem coded_indexOf? (name : String) : Coded tell l (indexOf? name) := by
  unfold indexOf?
  split
  · exact .pure _
  · split
    · exact .pure _
    · exact .throw _

theorem coded_property (v : Value) (name : String) : Coded tell l (property v name) := by
  unfold property
  split
  · exact .ite (.pure _) ((coded_indexOf? name).bind fun _ => .pure _)
  · refine coded_store (fun s => ?_) fun s ρ => by rw [Store.heapLookup?_seen]
    split
    · exact .ite (.pure _) ((coded_indexOf? name).bind fun _ => .pure _)
    · exact .pure _
    · exact .pure _
    · exact .pure _
  · exact .pure _

theorem coded_lineOf (line : LineSource) : Coded tell l (lineOf line) := by
  cases line with
  | fixed line => exact .pure _
  | reached => exact coded_machine (fun _ => .pure _) fun _ _ => rfl

theorem coded_openCall (f : FunctionValue) (args : List Value) (name : String) (line : Int)
    (receiver : Option Value) :
    Coded tell l (openCall (.standard tell) f args name line receiver) :=
  (coded_invoke f args name line receiver).bind fun _ => .pure _

theorem coded_callNamed (scope name : String) (args : List Value) (line : Int) :
    Coded tell l (callNamed (.standard tell) scope name args line) := by
  refine (coded_find name scope).bind fun found => ?_
  cases found with
  | some owned =>
      refine (coded_asFunction? _).bind fun f => ?_
      cases f with
      | some f => exact coded_openCall f args name line none
      | none => exact (coded_error _).bind fun _ => .pure _
  | none =>
      refine (coded_declared? name).bind fun decl => .ite ?_ ?_
      · refine (coded_lookupFunction? name).bind fun f => ?_
        cases f with
        | some f => exact coded_openCall f args name line none
        | none => exact coded_checkDepth.bind fun _ => .throw _
      · exact (coded_error _).bind fun _ => .pure _

theorem coded_changeArray (id : String) (items : List Value) (method : String)
    (args : List Value) : Coded tell l (changeArray (.standard tell) id items method args) := by
  refine Coded.bind (.edit? (fun _ _ h => edits_updateHeapValue h) (even_updateHeapValue _ _)) ?_
  intro _
  exact (coded_addReferences id _).bind fun _ => .pure _

theorem coded_noMethod (target : Expr) (method : String) (receiver : Value) :
    Coded tell l (noMethod (.standard tell) target method receiver) := by
  cases receiver with
  | undefined | null =>
      exact (coded_display _).bind fun _ => (coded_error _).bind fun _ => .pure _
  | _ => exact (coded_error _).bind fun _ => .pure _

theorem coded_callOn (target : Expr) (method : String) (args : List Value) (line : Int)
    (receiver : Value) :
    Coded tell l (callOn (.standard tell) target method args line receiver) := by
  refine (coded_entryOf? receiver).bind fun entry => ?_
  split
  · exact .ite (coded_done (coded_changeArray _ _ _ _)) (coded_noMethod _ _ _)
  · refine (coded_asFunction? _).bind fun f => ?_
    cases f with
    | some f => exact coded_openCall f args method line _
    | none => exact coded_noMethod _ _ _
  · exact coded_noMethod _ _ _

theorem coded_callMethod (scope : String) (target : Expr) {evalTarget : Act Evaluated}
    (h : Coded tell l evalTarget) (method : String) (args : List Value) (line : Int) :
    Coded tell l (callMethod (.standard tell) scope target evalTarget method args line) := by
  have onValue : Coded tell l (andThen evalTarget (.receiver target method args line)
      (callOn (.standard tell) target method args line)) :=
    coded_andThen h fun v => coded_callOn target method args line v
  cases target with
  | reference name =>
      refine (coded_find name scope).bind fun found => .ite ?_ (.ite (.pure _) ?_)
      · exact (coded_logValues _ _).bind fun _ => .pure _
      · refine (coded_isUnbound name scope).bind fun unbound => .ite ?_ onValue
        exact (coded_error _).bind fun _ => .pure _
  | _ => exact onValue

theorem coded_afterLeft (op : BinaryOp) (left : Value) {evalRight : Act Evaluated}
    (h : Coded tell l evalRight) : Coded tell l (afterLeft op left evalRight) := by
  refine .ite (.pure _) (coded_andThen h fun right => ?_)
  exact coded_heapView.bind fun heap => (coded_number _).bind fun _ => .pure _

mutual

theorem coded_eval (scope : String) (e : Expr) : Coded tell l (eval (.standard tell) scope e) := by
  cases e with
  | literal l =>
      simp only [eval]
      exact .pure _
  | array items =>
      simp only [eval]
      refine (coded_evalAll scope [] items).bind fun r => ?_
      cases r with
      | values vs => exact coded_done (coded_allocate _ _)
      | calling call body context before after => exact .pure _
  | object entries =>
      simp only [eval]
      refine (coded_evalEntries scope [] entries).bind fun r => ?_
      cases r with
      | fields fs => exact coded_done (coded_allocate _ _)
      | calling call body context before key after => exact .pure _
  | function f =>
      simp only [eval]
      exact coded_done (coded_allocateFunction _)
  | reference name =>
      simp only [eval]
      exact coded_done (coded_resolve name scope)
  | property target name source =>
      simp only [eval]
      exact coded_andThen (coded_eval scope target) fun v => coded_done (coded_property v name)
  | call name args =>
      simp only [eval]
      refine (coded_evalAll scope [] args).bind fun r => ?_
      cases r with
      | values vs =>
          exact coded_machine (fun m => coded_callNamed scope name vs m.line) fun _ _ => rfl
      | calling call body context before after => exact .pure _
  | methodCall target name args =>
      simp only [eval]
      refine (coded_evalAll scope [] args).bind fun r => ?_
      cases r with
      | values vs =>
          refine coded_machine (fun m => ?_) fun _ _ => rfl
          exact coded_callMethod scope target (coded_eval scope target) name vs m.line
      | calling call body context before after => exact .pure _
  | typeof operand =>
      simp only [eval]
      have rest : Coded tell l (andThen (eval (.standard tell) scope operand) .typeof fun v => do
          return .value (.text (v.typeof (← heapView)))) :=
        coded_andThen (coded_eval scope operand) fun v => coded_heapView.bind fun _ => .pure _
      cases operand with
      | reference name =>
          exact (coded_isUnbound name scope).bind fun unbound => .ite (.pure _) rest
      | _ => exact rest
  | unary op operand =>
      simp only [eval]
      exact coded_andThen (coded_eval scope operand) fun v => .pure _
  | binary op left right =>
      simp only [eval]
      exact coded_andThen (coded_eval scope left) fun v =>
        coded_afterLeft op v (coded_eval scope right)

theorem coded_evalAll (scope : String) (before : List Value) (items : List Expr) :
    Coded tell l (evalAll (.standard tell) scope before items) := by
  cases items with
  | nil =>
      simp only [evalAll]
      exact .pure _
  | cons e rest =>
      simp only [evalAll]
      refine (coded_eval scope e).bind fun r => ?_
      cases r with
      | value v => exact coded_evalAll scope (before ++ [v]) rest
      | calling call body context => exact .pure _

theorem coded_evalEntries (scope : String) (before : List (String × Value))
    (entries : List (String × Expr)) :
    Coded tell l (evalEntries (.standard tell) scope before entries) := by
  rcases entries with _ | ⟨⟨key, e⟩, rest⟩
  · simp only [evalEntries]
    exact .pure _
  · simp only [evalEntries]
    refine (coded_eval scope e).bind fun r => ?_
    cases r with
    | value v => exact coded_evalEntries scope (Datum.setField key v before) rest
    | calling call body context => exact .pure _

end

/-! ## Going on in a context -/

theorem coded_useItems (scope : String) (use : ItemsUse) (vs : List Value) :
    Coded tell l (useItems (.standard tell) scope use vs) := by
  cases use with
  | array => exact coded_done (coded_allocate _ _)
  | call name line => exact (coded_lineOf line).bind fun n => coded_callNamed scope name vs n
  | method target name line =>
      exact (coded_lineOf line).bind fun n =>
        coded_callMethod scope target (coded_eval scope target) name vs n
  | console method => exact (coded_logValues _ _).bind fun _ => .pure _
  | construct keyword name =>
      refine Coded.bind (.edit (fun _ _ => .of_unedited rfl (.event _ rfl rfl)) (even_allocate _ _)) ?_
      intro id
      exact (coded_bind _ _ _ _).bind fun _ => .pure _

theorem coded_evalItems (scope : String) (use : ItemsUse) (before : List Value)
    (items : List Expr) : Coded tell l (evalItems (.standard tell) scope use before items) := by
  refine (coded_evalAll scope before items).bind fun r => ?_
  cases r with
  | values vs => exact coded_useItems scope use vs
  | calling call body context before after => exact .pure _

theorem coded_fillOne (scope : String) (place : ExprFrame) (v : Value) :
    Coded tell l (fillOne (.standard tell) scope place v) := by
  cases place with
  | items use before after => exact coded_evalItems scope use (before ++ [v]) after
  | entry before key after =>
      refine (coded_evalEntries scope (Datum.setField key v before) after).bind fun r => ?_
      cases r with
      | fields fs => exact coded_done (coded_allocate _ _)
      | calling call body context before key after => exact .pure _
  | property name => exact coded_done (coded_property v name)
  | typeof => exact coded_heapView.bind fun _ => .pure _
  | unary op => exact .pure _
  | left op right => exact coded_afterLeft op v (coded_eval scope right)
  | right op left =>
      exact coded_heapView.bind fun heap => (coded_number _).bind fun _ => .pure _
  | receiver target method args line => exact coded_callOn target method args line v

theorem coded_fill (scope : String) (context : List ExprFrame) (v : Value) :
    Coded tell l (fill (.standard tell) scope context v) := by
  induction context generalizing v with
  | nil => exact .pure _
  | cons place outer ih =>
      refine (coded_fillOne scope place v).bind fun r => ?_
      cases r with
      | value v' => exact ih v'
      | calling call body context => exact .pure _

/-! ## Instructions -/

variable {i : Instruction}

theorem coded_finishWith (scope : String) {finish : Finish}
    (may : finish.queues = true → l.queues = true) (v : Value) :
    Coded tell l (finishWith (.standard tell) scope finish v) := by
  cases finish with
  | declare keyword name => exact (coded_bind _ _ _ _).bind fun _ => .pure _
  | assign name => exact (coded_assign _ _ _).bind fun _ => .pure _
  | promise callback params =>
      have edits (store : Store) (now : Double) (spec : TaskSpec) :
          (store.addMicrotask spec now).Edits l store :=
        ⟨rfl, rfl, rfl, rfl, rfl, fun _ => rfl, by simp [may rfl], .event _ rfl rfl⟩
      exact .then Task.id _ (fun _ _ => edits _ _ _) (even_addMicrotask _) fun _ =>
        (coded_info _).bind fun _ => .pure _
  | «return» => exact (coded_display v).bind fun _ => (coded_info _).bind fun _ => .pure _
  | discard => exact .pure _

theorem coded_conclude (scope : String) {finish : Finish}
    (may : finish.queues = true → l.queues = true) (r : Evaluated) :
    Coded tell l (conclude (.standard tell) scope finish r) := by
  cases r with
  | value v => exact (coded_finishWith scope may v).bind fun _ => .pure _
  | calling call body context => exact .pure _

theorem coded_startTimer (may : l.starts = true) (scope : String) (callback : Callback)
    (delay : Int) : Coded tell l (startTimer (.standard tell) scope callback delay) := by
  -- of the task that was queued the clock is told the identity only
  have sets (id : String) : Coded tell l (do
      info (.standard tell) ("setTimeout registered (" ++ toString delay ++ "ms)")
      let wait ← number (Number.quotient (min delay (← store).speed) 1000)
      modify fun s => s.timing wait id) := by
    refine (coded_info _).bind fun _ => coded_store (fun store => ?_) fun _ _ => rfl
    exact (coded_number _).bind fun wait => .timer wait id may
  have barred (store : Store) (task : Task) (h : l.starts = false) :
      store.state.loop.timers ++ [task] = store.state.loop.timers :=
    absurd (may.symm.trans h) (by simp)
  have edits (store : Store) (now : Double) (spec : TaskSpec) :
      (store.addTimer spec now).Edits l store :=
    ⟨rfl, rfl, rfl, rfl, rfl, barred store _, by simp [may], .event _ rfl rfl⟩
  exact .then Task.id _ (fun store now => edits store now _) (even_addTimer _) sets

theorem coded_perform (sets : i.sets = true → l.starts = true) (queues : l.queues = true)
    (scope : String) : Coded tell l (perform (.standard tell) scope i) := by
  cases i with
  | hoisting functions vars => exact (coded_info _).bind fun _ => .pure _
  | functionDecl d =>
      exact (coded_allocateFunction _).bind fun v => (coded_bind _ _ _ _).bind fun _ => .pure _
  | hoistedVar name line =>
      refine (coded_ownBinding? _ _).bind fun own => .ite ?_ (.pure _)
      exact (coded_bind _ _ _ _).bind fun _ => .pure _
  | declare keyword name value line =>
      exact (coded_eval scope value).bind fun r => coded_conclude _ (fun _ => queues) r
  | assign name value line =>
      exact (coded_eval scope value).bind fun r => coded_conclude _ (fun _ => queues) r
  | call name args line =>
      exact (coded_evalItems scope _ _ _).bind fun r => coded_conclude _ (fun _ => queues) r
  | methodCall target method args line =>
      exact (coded_evalItems scope _ _ _).bind fun r => coded_conclude _ (fun _ => queues) r
  | console method args line =>
      exact (coded_evalItems scope _ _ _).bind fun r => coded_conclude _ (fun _ => queues) r
  | timer callback delay line =>
      exact (coded_startTimer (sets rfl) scope callback delay).bind fun _ => .pure _
  | promise callback params value line =>
      exact (coded_eval scope value).bind fun r => coded_conclude _ (fun _ => queues) r
  | «return» value line =>
      exact (coded_eval scope value).bind fun r => coded_conclude _ (fun _ => queues) r
  | construct keyword name constructor args line =>
      exact (coded_evalItems scope _ _ _).bind fun r => coded_conclude _ (fun _ => queues) r

theorem execute_eq (host : Host) (scope : String) (i : Instruction) :
    execute host scope i = arrive host i >>= fun _ => perform host scope i := rfl

theorem coded_arrive (may : l.counts = true) (i : Instruction) :
    Coded tell l (arrive (.standard tell) i) := by
  unfold arrive
  refine Coded.bind (.count may) fun step => ?_
  refine coded_machine (fun m => .ite ((Coded.throw _).bind fun _ => ?_) ?_) fun _ _ => rfl
  all_goals
    refine .ite (Coded.bind (.note (fun _ => rfl) (fun _ _ => rfl) fun _ _ => rfl) fun _ => ?_)
      (.pure _)
    exact coded_setCurrentLine _

theorem coded_execute (may : l.counts = true) (sets : i.sets = true → l.starts = true)
    (queues : l.queues = true) (scope : String) :
    Coded tell l (execute (.standard tell) scope i) := by
  rw [execute_eq]
  exact (coded_arrive may i).bind fun _ => coded_perform sets queues scope

theorem coded_goOn (scope : String) (context : List ExprFrame) {finish : Finish}
    (may : finish.queues = true → l.queues = true) (v : Value) :
    Coded tell l (goOn (.standard tell) scope context finish v) :=
  (coded_fill scope context v).bind fun r => coded_conclude scope may r

/-! ## Segments -/

/-- The end of a call, up to where its value is handed on. -/
def leaving (host : Host) (call : Call) (callers : List Caller) : Act Unit :=
  inside host (openCalls callers) do
    if ← isCurrent call then unwind host call
    if 0 < call.line then change host fun s _ => s.setCurrentLine call.line

theorem coded_deliver (queues : l.queues = true) (callers : List Caller) (base : Base)
    (v : Value) : Coded tell l (deliver (.standard tell) callers base v) := by
  cases callers with
  | cons caller outer =>
      refine (coded_inside _ (coded_goOn _ _ (fun _ => queues) _)).bind fun r => ?_
      cases r <;> exact .pure _
  | nil =>
      cases base with
      | program scope context finish =>
          refine (coded_goOn _ _ (fun _ => queues) _).bind fun r => ?_
          cases r <;> exact .pure _
      | microtask round => exact .pure _
      | callback => exact .pure _

theorem coded_leaving (call : Call) (callers : List Caller) :
    Coded tell l (leaving (.standard tell) call callers) := by
  refine coded_inside _ ?_
  have line : Coded tell l (if 0 < call.line then
      change (.standard tell) fun s _ => s.setCurrentLine call.line else pure PUnit.unit) :=
    .ite (coded_setCurrentLine _) (.pure _)
  exact (coded_isCurrent call).bind fun current =>
    .ite ((coded_unwind call).bind fun _ => line) line

theorem coded_leave (queues : l.queues = true) (call : Call) (callers : List Caller) (base : Base)
    (v : Value) : Coded tell l (leave (.standard tell) call callers base v) :=
  (coded_leaving call callers).bind fun _ => coded_deliver queues callers base v

theorem coded_runBody (may : l.counts = true) (queues : l.queues = true) (call : Call)
    (callers : List Caller) (base : Base) {is : List Instruction}
    (sets : ∀ i ∈ is.head?, i.sets = true → l.starts = true) :
    Coded tell l (runBody (.standard tell) call callers base is) := by
  cases is with
  | nil => exact coded_leave queues call callers base .undefined
  | cons i rest =>
      refine (coded_inside _ (coded_execute may (sets i rfl) queues _)).bind fun r => ?_
      cases r <;> exact .pure _

theorem coded_startTask (task : Task) (base : Base) :
    Coded tell l (startTask (.standard tell) task base) := by
  refine .look (fun s => ?_) (fun s ρ => by rw [Session.callbackOf_seen]) fun _ _ _ => rfl
  exact (coded_invoke _ _ _ _ _).bind fun _ => .pure _

theorem coded_takeCallback (may : l.takes = true) (ran : Bool) :
    Coded tell l (takeCallback (.standard tell) ran) := by
  refine Coded.bind (.take may fun _ _ => edits_nextCallback may) fun task => ?_
  cases task with
  | some task => exact (coded_info _).bind fun _ => .pure _
  | none => exact .pure _

theorem coded_takeMicrotask (may : l.takes = true) (round : Round) (ran : Bool) :
    Coded tell l (takeMicrotask (.standard tell) round ran) := by
  refine Coded.bind (.take may fun _ _ => edits_nextMicrotask may) fun task => ?_
  cases task with
  | some task => exact (coded_info _).bind fun _ => .pure _
  | none =>
      cases round with
      | first => exact coded_takeCallback may ran
      | last => exact .pure _

/-- A segment that does not go on with the queues takes no task. -/
theorem coded_segment (may : l.counts = true) (sets : l.starts = true) (queues : l.queues = true)
    {work : Work} (ht : work.taking? = none) : Coded tell l (runSegment (.standard tell) work) := by
  cases work with
  | instruction i =>
      refine coded_machine (fun m => ?_) fun _ _ => rfl
      refine (coded_execute may (fun _ => sets) queues _).bind fun r => ?_
      cases r <;> exact .pure _
  | pass => cases ht
  | inCall call point callers base =>
      cases point with
      | entered body =>
          exact (coded_inside _ (.compile body)).bind fun is =>
            coded_runBody may queues call callers base fun _ _ _ => sets
      | between returned rest =>
          cases returned with
          | some v => exact coded_leave queues call callers base v
          | none => exact coded_runBody may queues call callers base fun _ _ _ => sets
  | atPass point =>
      cases point with
      | beforeMicrotask task round => exact coded_startTask task _
      | beforeCallback task => exact coded_startTask task _
      | idle => exact .pure _
      | afterMicrotask | afterCallback => cases ht

/-- A segment that goes on with the queues counts no step. -/
theorem coded_taking (may : l.takes = true) {work : Work} {round : Round} {ran : Bool}
    (ht : work.taking? = some (round, ran)) : Coded tell l (runSegment (.standard tell) work) := by
  cases work with
  | pass => exact coded_takeMicrotask may .first false
  | atPass point =>
      cases point with
      | afterMicrotask round => exact coded_takeMicrotask may round true
      | afterCallback => exact coded_takeMicrotask may .last true
      | _ => cases ht
  | _ => cases ht

/-- A segment is code and nothing else. -/
theorem coded_runSegment (work : Work) : Coded tell .all (runSegment (.standard tell) work) := by
  cases ht : work.taking? with
  | none => exact coded_segment rfl rfl rfl ht
  | some taking => exact coded_taking rfl ht

/-- Also if nobody but the journal is told. -/
theorem coded_plainSegment (work : Work) : Coded record .all (runSegment plain work) :=
  coded_runSegment work

theorem coded_pacing : Coded tell l pacing :=
  coded_store (fun _ => coded_number _) fun _ _ => rfl

theorem coded_abandon (work : Work) : Coded tell l (abandon (.standard tell) work) := by
  cases work with
  | inCall call point callers base => exact coded_unwindAll _ none
  | _ => exact .pure _

end Act

end Runloop
