/-
# What becomes of timers

A timer that a program sets is minded: the store tracks it until a reset, which
cancels it, and a timer that is cancelled stays so.  `Session.Follows` is all that
can happen to the timers of a session from one moment to a later one; code, what
steers it and every operation of a session keep to it (`Steered.follows`,
`control_follows`, `segment_follows`).

Letting time pass fires the timers that are due and not cancelled, does nothing
else to the store, and leaves those in the queue that are due later
(`fireUntil_fires`).
-/
import Runloop.Proofs.Steering

namespace Runloop

namespace Clock

variable {α : Type}

/-- The timers that a clock hands out on its way to a time. -/
def due (c : Clock α) (target : Double) : List (Timer α) := c.queue.takeWhile (·.due.le target)

/-- The clock at a time, without the timers that it has handed out on its way. -/
def reached (c : Clock α) (target : Double) : Clock α :=
  { c with now := target, queue := c.queue.dropWhile (·.due.le target) }

theorem mem_insert {t u : Timer α} {queue : List (Timer α)} :
    u ∈ t.insert queue ↔ u = t ∨ u ∈ queue := by
  induction queue with
  | nil => simp [Timer.insert]
  | cons v rest ih =>
      unfold Timer.insert
      split
      · exact List.mem_cons
      · rw [List.mem_cons, ih, List.mem_cons]
        exact or_left_comm

theorem foldl_cancel_eq (serials : List Nat) (c : Clock α) :
    serials.foldl (fun c serial => c.cancel serial) c =
      { c with cancelled := serials.reverse ++ c.cancelled } := by
  induction serials generalizing c with
  | nil => rfl
  | cons serial serials ih =>
      rw [List.foldl_cons, ih, List.reverse_cons, List.append_assoc]
      rfl

theorem isCancelled_foldl_cancel (serials : List Nat) (c : Clock α) (n : Nat) :
    (serials.foldl (fun c serial => c.cancel serial) c).isCancelled n = true ↔
      n ∈ serials ∨ c.isCancelled n = true := by
  rw [foldl_cancel_eq]
  simp [isCancelled]

end Clock

/-- The callbacks of timers are queued, one after the other. -/
def Store.fired (store : Store) (timers : List (Timer String)) : Store :=
  timers.foldl (fun store timer => (store.moveToCallbacks timer.payload).store) store

namespace Session

/-- The next reset cancels the timer, if it is not cancelled already. -/
def Minds (s : Session) (serial : Nat) : Prop :=
  serial ∈ s.store.timers ∨ s.clock.isCancelled serial = true

/-- From `s` to `t` no timer was lost sight of: what is in the queue was there, or
was set since, and whatever was minded is. -/
structure Follows (s t : Session) : Prop where
  issued : s.clock.issued ≤ t.clock.issued
  cancelled : ∀ n, s.clock.isCancelled n = true → t.clock.isCancelled n = true
  minds : ∀ n, s.Minds n → t.Minds n
  queue : ∀ timer ∈ t.clock.queue, timer ∈ s.clock.queue ∨
    s.clock.issued ≤ timer.serial ∧ timer.serial < t.clock.issued ∧ t.Minds timer.serial

namespace Follows

variable {s t u : Session}

theorem refl (s : Session) : s.Follows s :=
  ⟨Nat.le_refl _, fun _ h => h, fun _ h => h, fun _ h => .inl h⟩

theorem trans (h : s.Follows t) (h' : t.Follows u) : s.Follows u where
  issued := Nat.le_trans h.issued h'.issued
  cancelled n hn := h'.cancelled n (h.cancelled n hn)
  minds n hn := h'.minds n (h.minds n hn)
  queue := by
    intro timer ht
    rcases h'.queue timer ht with there | ⟨since, before, minded⟩
    · rcases h.queue timer there with old | ⟨since, before, minded⟩
      · exact .inl old
      · exact .inr ⟨since, Nat.lt_of_lt_of_le before h'.issued, h'.minds _ minded⟩
    · exact .inr ⟨Nat.le_trans h.issued since, before, minded⟩

instance : IsPreorder Session Follows where
  refl := refl
  trans _ _ _ := trans

/-- Neither the clock nor the timers that are tracked are touched. -/
theorem of_eq (clock : t.clock = s.clock) (timers : t.store.timers = s.store.timers) :
    s.Follows t := by
  have minds (n : Nat) : t.Minds n ↔ s.Minds n := by
    unfold Minds
    rw [clock, timers]
  refine ⟨?_, ?_, fun n => (minds n).mpr, ?_⟩
  · exact Nat.le_of_eq (congrArg Clock.issued clock.symm)
  · intro n hn
    rwa [clock]
  · intro timer ht
    rw [clock] at ht
    exact .inl ht

theorem publish {α : Type} (s : Session) {c : Change α} (timers : c.store.timers = s.store.timers) :
    s.Follows (s.publish c) :=
  .of_eq (publish_clock ..) (by rw [publish_store, timers])

theorem timing (s : Session) (wait : Double) (id : String) : s.Follows (s.timing wait id) where
  issued := Nat.le_succ _
  cancelled _ hn := hn
  minds _ hn := hn.imp_left (List.mem_cons_of_mem _)
  queue := by
    intro timer ht
    rcases Clock.mem_insert.mp ht with rfl | old
    · exact .inr ⟨Nat.le_refl _, Nat.lt_succ_self _, .inl List.mem_cons_self⟩
    · exact .inl old

/-- Timers are taken off the queue. -/
theorem popped (s : Session) {clock : Clock String} (issued : clock.issued = s.clock.issued)
    (cancelled : clock.cancelled = s.clock.cancelled)
    (queue : ∀ timer ∈ clock.queue, timer ∈ s.clock.queue) : s.Follows { s with clock } where
  issued := Nat.le_of_eq issued.symm
  cancelled n hn := by
    unfold Clock.isCancelled at *
    rwa [cancelled]
  minds n hn := by
    unfold Minds Clock.isCancelled at *
    rwa [cancelled]
  queue timer ht := .inl (queue timer ht)

/-- Every timer that was tracked is cancelled, and then none is tracked. -/
theorem forgotten {s t : Session}
    (clock : t.clock = s.store.timers.foldl (fun c serial => c.cancel serial) s.clock) :
    s.Follows t := by
  have cancels (n : Nat) : t.clock.isCancelled n = true ↔ s.Minds n := by
    rw [clock]
    exact Clock.isCancelled_foldl_cancel ..
  rw [Clock.foldl_cancel_eq] at clock
  refine ⟨?_, fun n hn => (cancels n).mpr (.inr hn), fun n hn => .inr ((cancels n).mpr hn), ?_⟩
  · exact Nat.le_of_eq (congrArg Clock.issued clock.symm :)
  · intro timer ht
    rw [clock] at ht
    exact .inl ht

end Follows

end Session

/-! ## Code and what steers it -/

namespace Act

variable {α β : Type} {s : Session}

theorem kept_follows (l : Licence) (s : Session) : Kept l s.Follows where
  publish edits h := h.trans (.publish _ edits.timers)
  note _ h := h.trans (.of_eq rfl rfl)
  compile _ _ h := h.trans (.of_eq rfl rfl)
  timer _ _ wait id h := h.trans (.timing _ wait id)
  count _ _ h := h.trans (.publish _ rfl)

end Act

namespace Session

theorem timers_moveToCallbacks (store : Store) (id : String) :
    (store.moveToCallbacks id).store.timers = store.timers := by
  rw [(requeues_moveToCallbacks store id).same]
  rfl

theorem passed_timers (s : Session) (timer : Timer String) (clock : Clock String) :
    (s.passed timer clock).store.timers = s.store.timers := by
  rw [passed_store]
  split
  · rfl
  · exact timers_moveToCallbacks ..

end Session

namespace Act

variable {α β : Type} {s : Session}

/-- Letting time pass fires the timers that are due and not cancelled, does nothing
else to the store, and leaves those in the queue that are due later. -/
theorem fireUntil_fires (target : Double) (s : Session) :
    ∃ t, (fireUntil plain target).run s = (.ok ⟨⟩, t) ∧ s.Follows t ∧
      t.store = s.store.fired ((s.clock.due target).filter fun timer =>
        !s.clock.isCancelled timer.serial) ∧
      t.clock = s.clock.reached target := by
  have stops (s : Session) (none : s.clock.pop? target = none) (due : s.clock.due target = []) :
      ∃ t, (fireUntil plain target).run s = (.ok ⟨⟩, t) ∧ s.Follows t ∧
        t.store = s.store.fired ((s.clock.due target).filter fun timer =>
          !s.clock.isCancelled timer.serial) ∧
        t.clock = s.clock.reached target := by
    refine ⟨{ s with clock := { s.clock with now := target } }, ?_, ?_, ?_, ?_⟩
    · rw [run_fireUntil, none]
    · exact .popped s rfl rfl fun _ h => h
    · rw [due]
      rfl
    · have queue : s.clock.queue.dropWhile (·.due.le target) = s.clock.queue := by
        have whole := List.takeWhile_append_dropWhile (p := (·.due.le target)) (l := s.clock.queue)
        rwa [show s.clock.queue.takeWhile (·.due.le target) = [] from due] at whole
      rw [Clock.reached, queue]
  -- the timers stand in order of time, so the first that is not due ends the loop
  generalize hq : s.clock.queue = queue
  induction queue generalizing s with
  | nil => exact stops s (by simp [Clock.pop?, hq]) (by simp [Clock.due, hq])
  | cons timer rest ih =>
      by_cases due : timer.due.le target = true
      · let clock : Clock String := { s.clock with now := s.clock.now.max timer.due, queue := rest }
        have pops : s.clock.pop? target = some (timer, clock) := by
          simp [Clock.pop?, hq, due, clock]
        have next : (s.passed timer clock).clock = clock := s.passed_clock timer clock
        have taken : s.Follows { s with clock } := by
          refine .popped s rfl rfl fun later there => ?_
          rw [hq]
          exact List.mem_cons_of_mem _ there
        obtain ⟨t, run, follows, store, reached⟩ := ih (s.passed timer clock) (by rw [next])
        refine ⟨t, ?_, ?_, ?_, ?_⟩
        · rw [run_fireUntil, pops]
          exact run
        · refine (taken.trans (.of_eq ?_ ?_)).trans follows
          · exact next
          · exact s.passed_timers timer clock
        · have first : s.clock.due target = timer :: clock.due target := by
            simp [Clock.due, hq, due, clock]
          rw [store, next, first, Session.passed_store, List.filter_cons]
          show (if s.clock.isCancelled timer.serial then s.store else _).fired _ = _
          cases s.clock.isCancelled timer.serial with
          | true => rfl
          | false => rfl
        · rw [reached, next, Clock.reached, Clock.reached, hq]
          simp only [List.dropWhile_cons, due, if_true, clock]
      · exact stops s (by simp [Clock.pop?, hq, due]) (by simp [Clock.due, hq, due])

/-! ## Operations -/

/-- However the computation ends, no timer was lost sight of. -/
abbrev Follows (act : Act α) : Prop := Within Session.Follows act

theorem follows_modifyMachine (f : Machine → Machine) : Follows (modifyMachine f) := by
  intro s
  rw [ends_modifyMachine]
  exact .of_eq rfl rfl

theorem Steered.follows {act : Act α} (h : Steered act) : Follows act := by
  induction h with
  | code coded =>
      intro s
      exact coded.keeps (kept_follows _ s) s (.refl s)
  | bind _ _ ihx ihf => exact ihx.bind ihf
  | recover _ _ ihx ihh => exact ihx.recover ihh
  | look _ _ ih => exact .get ih
  | note _ => exact follows_modifyMachine _
  | change timers =>
      intro s
      rw [ends_change]
      exact .publish s (timers s.store s.now)
  | fireUntil target =>
      intro s
      obtain ⟨t, run, follows, -⟩ := fireUntil_fires target s
      exact .of_answer run follows
  | loop _ _ ih => exact ih.loop

theorem follows_modify {f : Session → Session} (clock : ∀ s, (f s).clock = s.clock)
    (timers : ∀ s, (f s).store.timers = s.store.timers) :
    Follows (MonadStateOf.modifyGet fun s => (⟨⟩, f s) : Act PUnit) :=
  fun s => .of_eq (clock s) (timers s)

theorem follows_clearStore : Follows (clearStore plain) := by
  intro s
  have run : (clearStore plain).run s =
      (.ok ⟨⟩, { s with
        clock := s.store.timers.foldl (fun c serial => c.cancel serial) s.clock
        store := s.store.cleared
        journal := (Store.resetEvents.map (· s.store.cleared)).reverse ++ s.journal }) := rfl
  exact .of_answer run (.forgotten rfl)

theorem follows_reset : Follows (reset plain) := by
  have clears : Follows (resetMachine plain) := by
    refine (follows_modifyMachine _).bind fun _ => steered_closeUnit.follows.bind fun _ => ?_
    refine (follows_modifyMachine _).bind fun _ => follows_clearStore.bind fun _ => ?_
    exact follows_modifyMachine _
  exact clears.bind fun _ => follows_modify (fun _ => rfl) fun _ => rfl

theorem follows_init (program : List Instruction) : Follows (init plain program) := by
  have opens : Follows (do
      modifyMachine fun m => { m with detached := [], depth := 0, line := 0, receivers := [] }
      let _ ← change plain fun s _ => s.pushFrame "Global" "global" "window" 0
      let scope ← change plain fun s now => s.createScope "Global" "global" none now
      modifyMachine fun m => { m with globalScope := some scope.id, loaded := true }) := by
    refine (follows_modifyMachine _).bind fun _ => ?_
    refine (Steered.change fun _ _ => rfl).follows.bind fun _ => ?_
    exact (Steered.change fun _ _ => rfl).follows.bind fun _ => follows_modifyMachine _
  refine .machine fun m => .first (.throw _) ?_
  refine follows_clearStore.bind fun _ => .machine fun m => ?_
  refine (follows_modifyMachine _).bind fun _ => ?_
  cases m.unit with
  | none => exact opens
  | some u => exact (Steered.code (coded_abandon u.work)).follows.first opens

theorem follows_load (source : String) : Follows (load plain source) := by
  refine follows_reset.bind fun _ => .bind (follows_modify (fun _ => rfl) fun _ => rfl) fun _ => ?_
  refine .ite ((Steered.code (coded_log _ _)).follows.bind fun _ => .pure _) ?_
  cases compile source with
  | error fault =>
      cases fault with
      | number fault => exact .throw _
      | source e =>
          refine .bind (follows_modify (fun _ => rfl) fun _ => rfl) fun _ => ?_
          exact (Steered.code (coded_error _)).follows.bind fun _ => .pure _
  | ok t =>
      refine .bind (follows_modify (fun _ => rfl) fun _ => rfl) fun _ => ?_
      exact (follows_init _).bind fun _ => .pure _

theorem follows_stop : Follows (stop plain) := by
  refine .machine fun m => .ite (.pure _) ?_
  refine steered_closeUnit.follows.bind fun _ => (follows_modifyMachine _).bind fun _ => ?_
  exact (Steered.change fun _ _ => rfl).follows.bind fun _ => follows_modifyMachine _

theorem follows_control (c : Control) : Follows (control plain c) := by
  cases c with
  | pause =>
      refine .bind (.machine fun m => .ite (.pure _) ?_) fun _ => .pure _
      refine (follows_modifyMachine _).bind fun _ => ?_
      exact (steered_setPhase .paused).follows.bind fun _ => .pure _
  | resume =>
      refine .bind (.machine fun m => .ite (.pure _) ?_) fun _ => .pure _
      refine (steered_setPhase .running).follows.bind fun _ => ?_
      exact (follows_modifyMachine _).bind fun _ => .pure _
  | stop => exact follows_stop.bind fun _ => .pure _
  | reset => exact follows_reset.bind fun _ => .pure _
  | close =>
      refine .bind (follows_reset.bind fun _ => ?_) fun _ => .pure _
      exact follows_modify (fun _ => rfl) fun _ => rfl
  | step =>
      refine .bind (.machine fun m => ?_) fun _ => .pure _
      exact .ite steered_step.follows (.pure _)
  | load source => exact (follows_load source).bind fun _ => .pure _
  | setSpeed speed => exact (Steered.change fun _ _ => rfl).follows.bind fun _ => .pure _

theorem follows_segment (state : RunState) : Follows (segment plain state) := by
  have goesOn (generation : Nat) : Follows (continueRun plain generation) :=
    .machine fun m => .ite (.pure _) (steered_guardedTurn generation).follows
  cases state with
  | created direct =>
      refine .machine fun m => .ite (.ite (.throw _) (.pure _)) (.ite (.pure _) ?_)
      refine .ite (.throw _) ?_
      refine (follows_modifyMachine _).bind fun _ => ?_
      exact (steered_setPhase .running).follows.bind fun _ => (steered_guardedTurn _).follows
  | sleeping generation => exact goesOn generation
  | waiting generation openings => exact goesOn generation
  | finished fault? => exact .pure _

theorem follows_fire (id : String) : Follows (fire plain id) :=
  (Steered.change fun _ _ => Session.timers_moveToCallbacks _ id).follows.bind fun _ => .pure _

end Act

namespace Session

variable {s : Session}

theorem control_follows (hooks : s.hooks = []) (c : Control) : s.Follows (s.control c).2 := by
  unfold control
  rw [run_eq hooks]
  exact (Act.follows_control c s).after

theorem segment_follows (hooks : s.hooks = []) (state : RunState) :
    s.Follows (s.segment state).2 := by
  have follows := (Act.follows_segment state s).after
  unfold segment
  rw [run_eq hooks]
  rcases run : ((Act.segment Act.plain state).run s : Except Fault RunState × Session) with
    ⟨fault | after, t⟩
  · rw [run] at follows
    exact follows
  · rw [run] at follows
    exact follows

theorem fire_follows (hooks : s.hooks = []) (id : String) :
    s.Follows (s.run fun host => Act.fire host id).2 := by
  rw [run_eq hooks]
  exact (Act.follows_fire id s).after

end Session

end Runloop
