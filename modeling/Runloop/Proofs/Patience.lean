/-
# Timers that come in the order in which they were set

A task waits for its delay, or for the pacing delay if that is shorter, and timers
come due in the order of their times.  As long as no timer is set that waits for a
shorter time than one whose task is still to be called back (`Session.Patient`),
this is the order in which they were set, however much time has passed in between:
a wait that begins later does not end earlier, and rounding leaves it at that.

`Session.InTurn` says so of the queue of the clock: its timers are those of the
waiting tasks, one by one.  Whatever is done with a program keeps it
(`Punctual.timing`); only an instruction that sets a timer has to do with it.
Letting time pass moves tasks from the front of those that wait to the end of those
that were called back, and apart from time nothing is seen of that
(`InTurn.waited_view`).
-/
import Mathlib.Data.List.Forall2
import Runloop.Proofs.Punctuality
import Runloop.Proofs.Timeless

namespace Runloop

/-! ## Patience -/

/-- For how many milliseconds a task waits, at a pacing delay. -/
def Task.wait (speed : Int) (task : Task) : Int := max 0 (min task.spec.delay speed)

/-- The timer that an event tells was set, and the queues then. -/
def Event.timer? : Event → Option (Task × EventLoop)
  | .eventLoop .addTimer (some task) loop => some (task, loop)
  | _ => none

/-- If the event tells of a timer, then no task that is still to be called back waits
for a longer time. -/
def Event.Patient (speed : Int) (e : Event) : Prop :=
  ∀ p ∈ e.timer?, ∀ other ∈ p.2.callbacks ++ p.2.timers, other.wait speed ≤ p.1.wait speed

instance (speed : Int) (e : Event) : Decidable (e.Patient speed) :=
  inferInstanceAs (Decidable (∀ p ∈ e.timer?, _))

/-- What is kept of an event tells of the same timer. -/
theorem Event.timer?_kept (ρ : Retiming) (e : Event) : (e.kept ρ).bind Event.timer? =
    e.timer?.map fun p => (p.1.retimed ρ, p.2.seen ρ) := by
  unfold kept
  split
  · rfl
  · rfl
  · rename_i other
    have untimed : e.timer? = none := by
      unfold timer?
      split
      · exact absurd rfl (other _ _)
      · rfl
    rw [untimed]
    rfl

namespace Session

/-- No timer was set for a shorter time than one whose task was still to be called
back. -/
def Patient (s : Session) : Prop := ∀ e ∈ s.journal, e.Patient s.store.speed

instance (s : Session) : Decidable s.Patient :=
  inferInstanceAs (Decidable (∀ e ∈ s.journal, _))

/-- No timer was set. -/
def Timerless (s : Session) : Prop := ∀ e ∈ s.journal, e.timer? = none

theorem Timerless.patient {s : Session} (h : s.Timerless) : s.Patient := by
  intro e he p hp
  rw [h e he] at hp
  cases hp

/-- Without a pacing delay no timer waits. -/
theorem patient_of_speed {s : Session} (speed : s.store.speed ≤ 0) : s.Patient := by
  intro e _ p _ other _
  unfold Task.wait
  omega

theorem Patient.before {s t : Session} (h : t.Patient) (tells : s.Tells t)
    (speed : t.store.speed = s.store.speed) : s.Patient := by
  intro e he
  rw [← speed]
  exact h e (tells.subset he)

/-- Patience is seen from the outline. -/
theorem patient_outline {ρ : Retiming} {s : Session} : (s.outline ρ).Patient ↔ s.Patient := by
  have told : (s.outline ρ).journal = s.journal.filterMap (Event.kept ρ) := rfl
  have kept (e : Event) (speed : Int) :
      (∀ e' ∈ e.kept ρ, e'.Patient speed) ↔ e.Patient speed := by
    have timer := e.timer?_kept ρ
    constructor
    · intro h p hp
      rw [Option.mem_def.mp hp] at timer
      obtain ⟨e', he', timer⟩ := Option.bind_eq_some_iff.mp timer
      have patient := h e' he' _ timer
      simp only [EventLoop.seen, List.nil_append, List.forall_mem_map] at patient
      exact patient
    · intro h e' he' p hp
      rw [Option.mem_def.mp he', Option.bind_some, Option.mem_def.mp hp] at timer
      obtain ⟨q, hq, rfl⟩ := Option.map_eq_some_iff.mp timer.symm
      simp only [EventLoop.seen, List.nil_append, List.forall_mem_map]
      exact h q hq
  unfold Patient
  rw [told]
  constructor
  · intro h e he
    exact (kept e _).mp fun e' he' => h e' (List.mem_filterMap.mpr ⟨e, he, he'⟩)
  · intro h e' he'
    obtain ⟨e, he, hk⟩ := List.mem_filterMap.mp he'
    exact (kept e _).mpr (h e he) e' hk

end Session

/-! ## The queue of the clock -/

/-- The timer is that of the task, and whoever waits as long as the task, from now
on, does not get ahead of it. -/
structure Timer.Serves (clock : Clock String) (speed : Int) (timer : Timer String)
    (task : Task) : Prop where
  payload : timer.payload = task.id
  serial : timer.serial < clock.issued
  due : ∀ {n delay}, Number.quotient n 1000 = .ok delay → task.wait speed ≤ max 0 n →
    ¬ (clock.after delay).lt timer.due = true

/-- No timer was cancelled, and those in the queue are the timers of the waiting
tasks, in the order in which these stand. -/
structure Session.InTurn (s : Session) : Prop where
  cancelled : s.clock.cancelled = []
  timers : List.Forall₂ (Timer.Serves s.clock s.store.speed) s.clock.queue
    s.store.state.loop.timers

/-- A timer that comes before none comes last. -/
theorem Timer.insert_eq_concat {α : Type} {t : Timer α} {queue : List (Timer α)}
    (last : ∀ u ∈ queue, t.before u = false) : t.insert queue = queue ++ [t] := by
  induction queue with
  | nil => rfl
  | cons u rest ih =>
      unfold Timer.insert
      rw [if_neg (by simp [last u List.mem_cons_self]),
        ih fun u hu => last u (List.mem_cons_of_mem _ hu)]
      rfl

namespace Timer.Serves

variable {clock clock' : Clock String} {speed n : Int} {delay : Double} {timer : Timer String}
  {task : Task}

/-- More timers were set since. -/
theorem issue (h : timer.Serves clock speed task) (now : clock'.now = clock.now)
    (issued : clock.issued ≤ clock'.issued) : timer.Serves clock' speed task where
  payload := h.payload
  serial := Nat.lt_of_lt_of_le h.serial issued
  due hq hn := by
    unfold Clock.after
    rw [now]
    exact h.due hq hn

/-- Time has passed since. -/
theorem pass (h : timer.Serves clock speed task) (hd : Number.quotient n 1000 = .ok delay)
    (now : clock'.now = clock.after delay) (issued : clock'.issued = clock.issued) :
    timer.Serves clock' speed task where
  payload := h.payload
  serial := issued ▸ h.serial
  due hq hn := by
    unfold Clock.after
    rw [now]
    exact Double.not_lt_add_add (Number.isWait_quotient hd) (Number.isWait_quotient hq)
      (h.due hq hn)

/-- A timer that is set now for a longer time does not come before. -/
theorem not_before (h : timer.Serves clock speed task) (hd : Number.quotient n 1000 = .ok delay)
    (longer : task.wait speed ≤ max 0 n) (payload : String) :
    (clock.set delay payload).2.before timer = false := by
  have late : (clock.after delay).lt timer.due = false := by simpa using h.due hd longer
  have newer : ¬ clock.issued < timer.serial := Nat.not_lt.mpr (Nat.le_of_lt h.serial)
  show ((clock.after delay).lt timer.due || _ && decide (clock.issued < timer.serial)) = false
  rw [late, decide_eq_false newer, Bool.and_false]
  rfl

end Timer.Serves

/-- A timer serves the task that it is set for. -/
theorem Clock.set_serves {speed : Int} {delay : Double} {task : Task} (clock : Clock String)
    (hd : Number.quotient (min task.spec.delay speed) 1000 = .ok delay) :
    (clock.set delay task.id).2.Serves (clock.set delay task.id).1 speed task where
  payload := rfl
  serial := Nat.lt_succ_self _
  due hq longer := by
    have rank := Number.rank_quotient_mono hd hq (by unfold Task.wait at longer; omega)
    exact Double.not_lt_add_wait (Number.isWait_quotient hd) (Number.isWait_quotient hq) rank

namespace Session.InTurn

variable {s t : Session} {task : Task}

/-- Nothing has happened to timers. -/
theorem idle (h : s.InTurn) (idles : s.Idles t) : t.InTurn := by
  refine ⟨idles.clock ▸ h.cancelled, ?_⟩
  rw [idles.clock, idles.speed, idles.timers]
  exact h.timers

/-- A timer is set that waits no shorter than those that are there. -/
theorem start (h : s.InTurn) (starts : s.Starts task t)
    (patient : ∀ other ∈ s.store.state.loop.timers,
      other.wait s.store.speed ≤ task.wait s.store.speed) : t.InTurn := by
  obtain ⟨delay, hd, clock⟩ := starts.clock
  have last : ∀ u ∈ s.clock.queue, (s.clock.set delay task.id).2.before u = false := by
    intro u hu
    obtain ⟨i, hi, rfl⟩ := List.getElem_of_mem hu
    have ht : i < s.store.state.loop.timers.length := h.timers.length_eq ▸ hi
    have serves := h.timers.get hi ht
    exact serves.not_before hd (patient _ (List.getElem_mem ht)) task.id
  have queue : t.clock.queue = s.clock.queue ++ [(s.clock.set delay task.id).2] := by
    rw [clock]
    exact Timer.insert_eq_concat last
  refine ⟨by rw [clock]; exact h.cancelled, ?_⟩
  rw [queue, starts.timers, starts.speed, clock]
  refine List.rel_append (h.timers.imp fun _ _ serves => ?_) (.cons (s.clock.set_serves hd) .nil)
  exact serves.issue rfl (Nat.le_succ _)

end Session.InTurn

/-! ## Time -/

/-- Tasks that stand in front are called back one after the other. -/
theorem Store.fired_front {timers : List (Timer String)} {tasks rest : List Task} (store : Store)
    (serve : List.Forall₂ (fun timer task => timer.payload = task.id) timers tasks)
    (waiting : store.state.loop.timers = tasks ++ rest) :
    store.fired timers = store.setLoop
      { store.state.loop with
        timers := rest, callbacks := store.state.loop.callbacks ++ tasks } := by
  induction serve generalizing store with
  | nil =>
      rw [List.append_nil]
      show store = _
      rw [List.nil_append] at waiting
      rw [← waiting]
      rfl
  | @cons timer task timers tasks same _ ih =>
      have moves : (store.moveToCallbacks timer.payload).store = store.setLoop
          { store.state.loop with
            timers := tasks ++ rest, callbacks := store.state.loop.callbacks ++ [task] } := by
        unfold moveToCallbacks
        simp [waiting, same]
      show (store.moveToCallbacks timer.payload).store.fired timers = _
      rw [moves, ih _ rfl]
      simp [setLoop]

namespace Session

variable {s t : Session} {n : Int} {delay : Double}

/-- While time passes, the first of the tasks that wait are called back. -/
theorem InTurn.waited_loop (h : s.InTurn) :
    ∃ front rest, s.store.state.loop.timers = front ++ rest ∧
    List.Forall₂ (Timer.Serves s.clock s.store.speed)
      (s.clock.reached (s.clock.after delay)).queue rest ∧
    (s.waited delay).store = s.store.setLoop
      { s.store.state.loop with
        timers := rest, callbacks := s.store.state.loop.callbacks ++ front } := by
  have all : (s.clock.due (s.clock.after delay)).filter (fun timer =>
      !s.clock.isCancelled timer.serial) = s.clock.due (s.clock.after delay) := by
    refine List.filter_eq_self.mpr fun timer _ => ?_
    simp [Clock.isCancelled, h.cancelled]
  have whole := List.takeWhile_append_dropWhile
    (p := fun timer : Timer String => timer.due.le (s.clock.after delay)) (l := s.clock.queue)
  have serve := h.timers
  rw [← whole] at serve
  generalize hk : (s.clock.queue.takeWhile (·.due.le (s.clock.after delay))).length = k at *
  have first := List.forall₂_take k serve
  have later := List.forall₂_drop k serve
  rw [← hk, List.take_left, hk] at first
  rw [← hk, List.drop_left, hk] at later
  refine ⟨_, _, (List.take_append_drop k _).symm, later, ?_⟩
  rw [waited_store, all]
  exact Store.fired_front _ (first.imp fun _ _ serves => serves.payload)
    (List.take_append_drop k _).symm

theorem InTurn.waited (h : s.InTurn) (hd : Number.quotient n 1000 = .ok delay) :
    (s.waited delay).InTurn := by
  obtain ⟨front, rest, -, serve, store⟩ := @InTurn.waited_loop s delay h
  refine ⟨by rw [waited_clock]; exact h.cancelled, ?_⟩
  rw [waited_clock, store]
  exact serve.imp fun _ _ serves => serves.pass hd rfl rfl

/-- Nothing is seen of time that passes but that it has, and what it does to the
queues. -/
theorem waited_outline (ρ : Retiming) (s : Session) (delay : Double) :
    (s.waited delay).outline ρ =
      { s.outline ρ with
        store := (s.waited delay).store.seen ρ
        clock := .starting (ρ.read (s.clock.after delay)) } := by
  suffices passes : ∃ t, (Act.fireUntil Act.plain (s.clock.after delay)).run s = (.ok ⟨⟩, t) ∧
      t.outline ρ = { s.outline ρ with
        store := t.store.seen ρ, clock := .starting (ρ.read t.clock.now) } by
    obtain ⟨t, run, outline⟩ := passes
    have clock := s.waited_clock delay
    rw [waited, run] at clock ⊢
    rw [outline, clock]
    rfl
  refine Act.fireUntil_induct (P := fun t => t.outline ρ = { s.outline ρ with
    store := t.store.seen ρ, clock := .starting (ρ.read t.clock.now) }) ?_ ?_ rfl
  · intro u timer clock outline _
    have popped : ({ u with clock } : Session).outline ρ = { s.outline ρ with
        store := u.store.seen ρ, clock := .starting (ρ.read clock.now) } := by
      rw [show ({ u with clock } : Session).outline ρ =
        { u.outline ρ with clock := .starting (ρ.read clock.now) } from rfl, outline]
    unfold passed
    split
    · exact popped
    · have requeues := requeues_moveToCallbacks u.store timer.payload
      have quiet :
          (u.store.moveToCallbacks timer.payload).events.filterMap (Event.kept ρ) = [] := by
        unfold Store.moveToCallbacks
        split <;> rfl
      rw [Act.outline_setLoop ({ u with clock } : Session) requeues.same quiet, popped,
        publish_store, publish_clock, requeues.same]
      rfl
  · intro u outline _
    rw [show ({ u with clock := { u.clock with now := s.clock.after delay } } : Session).outline ρ =
      { u.outline ρ with clock := .starting (ρ.read (s.clock.after delay)) } from rfl, outline]

/-- Apart from time nothing is seen of time that passes. -/
theorem InTurn.waited_view {ρ : Retiming} (h : s.InTurn)
    (same : ρ.read (s.clock.after delay) = ρ.read s.clock.now) :
    (s.waited delay).view ρ = s.view ρ := by
  obtain ⟨front, rest, waiting, -, store⟩ := @InTurn.waited_loop s delay h
  have seen : (s.waited delay).store.seen ρ = s.store.seen ρ := by
    rw [store]
    simp [Store.seen, Store.setLoop, State.seen, EventLoop.seen, waiting]
  have outline : (s.waited delay).outline ρ = s.outline ρ := by
    rw [waited_outline, seen, same]
    rfl
  have spot : (s.waited delay).spot ρ = s.spot ρ := by
    unfold Session.spot Session.phase
    rw [waited_machine]
  rw [view, view, outline, spot]

end Session

/-! ## Whatever is done with a program -/

namespace Act

theorem kept_tells (l : Licence) (s : Session) : Kept l s.Tells where
  publish _ h := trans_of Session.Tells h (Session.publish_tells ..)
  note _ h := h
  compile _ _ h := h
  timer _ := fun _ _ h => h
  count _ := fun h => trans_of Session.Tells h (Session.publish_tells ..)

/-- What was told stays told, whatever is done. -/
theorem Steered.tells {α : Type} {act : Act α} (h : Steered act) : Within Session.Tells act := by
  induction h with
  | code coded =>
      intro s
      exact coded.keeps (kept_tells _ s) s (refl_of Session.Tells s)
  | bind _ _ ihx ihf => exact ihx.bind ihf
  | recover _ _ ihx ihh => exact ihx.recover ihh
  | look _ _ ih => exact .get ih
  | note _ =>
      intro s
      exact refl_of Session.Tells s
  | change _ =>
      intro s
      rw [ends_change]
      exact s.publish_tells _
  | fireUntil target =>
      intro s
      have passes (u : Session) (timer : Timer String) (clock : Clock String) (tells : s.Tells u) :
          s.Tells (u.passed timer clock) := by
        unfold Session.passed
        split
        · exact tells
        · exact trans_of Session.Tells tells (Session.publish_tells { u with clock } _)
      obtain ⟨t, run, tells⟩ : ∃ t,
          (Act.fireUntil plain target).run s = (.ok ⟨⟩, t) ∧ s.Tells t :=
        fireUntil_induct (fun u timer clock tells _ => passes u timer clock tells)
          (fun u tells _ => tells) (refl_of Session.Tells s)
      exact .of_answer run tells
  | loop _ _ ih => exact ih.loop

end Act

theorem Stride.tells {s t : Session} (d : Stride s t) : s.Tells t := by
  cases d with
  | phase _ _ => exact ((Act.steered_setPhase _).tells s).after
  | seat => exact refl_of Session.Tells s
  | wait _ _ => exact ((Act.Steered.fireUntil _).tells s).after
  | take _ _ => exact (Act.steered_nextUnit.tells s).after
  | advance _ _ => exact (Act.steered_advance.tells s).after
  | finish _ _ => exact (Act.steered_finish.tells s).after

namespace Session

/-- If no timer was set that waits too short, the timers come in turn. -/
def Punctual (s : Session) : Prop := s.Patient → s.InTurn

theorem Punctual.timing : Timing Punctual where
  idle h idles patient := (h (patient.before idles.tells idles.speed)).idle idles
  start := by
    intro s t task h starts patient
    have before := patient.before starts.tells starts.speed
    refine (h before).start starts fun other there => ?_
    -- the event that told of the timer says that it waits long enough
    rw [← starts.speed]
    exact patient _ starts.told (task, _) rfl other
      (List.mem_append_right _ (List.mem_append_left _ there))
  wait := by
    intro s delay _ hd h patient
    have tells : s.Tells (s.waited delay) := ((Act.Steered.fireUntil _).tells s).after
    exact (h (patient.before tells (s.waited_speed delay))).waited hd

end Session

end Runloop
