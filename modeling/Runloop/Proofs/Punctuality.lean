/-
# Timers come in time

A task that waits has a timer on the clock, and a timer is never set for longer
than the pacing delay of its moment.  So no task waits for longer than the largest
pacing delay that there has been (`Session.Timely`): whoever lets that much time
pass at once leaves no task waiting (`Timely.waited`).  A pacing delay that was
lowered since is another matter.

The clock itself stays in order all the while (`Clock.Regular`): its queue is
sorted by the times that are due, and what letting time pass hands out is exactly
what is due.
-/
import Runloop.Proofs.Ledger
import Runloop.Proofs.Rounding
import Runloop.Proofs.Timing

namespace Runloop

/-! ## Clocks in order -/

/-- If whatever stands before something that passes passes too, then those that
pass stand first. -/
theorem takeWhile_eq_filter {α : Type} {p : α → Bool} {l : List α}
    (down : l.Pairwise fun a b => p b = true → p a = true) : l.takeWhile p = l.filter p := by
  induction l with
  | nil => rfl
  | cons a rest ih =>
      obtain ⟨first, others⟩ := List.pairwise_cons.mp down
      cases passes : p a with
      | true => simp [passes, ih others]
      | false =>
          have none : rest.filter p = [] := by
            refine List.filter_eq_nil_iff.mpr fun b hb pb => ?_
            rw [first b hb pb] at passes
            cases passes
          simp [passes, none]

namespace Clock

variable {α : Type}

/-- The times of a clock are numbers, its queue is in order, and nothing was
cancelled that is yet to be set. -/
structure Regular (c : Clock α) : Prop where
  now : c.now.isNan = false
  numbers : ∀ timer ∈ c.queue, timer.due.isNan = false
  ordered : c.queue.Pairwise (·.due.rank ≤ ·.due.rank)
  cancelled : ∀ n, c.isCancelled n = true → n < c.issued

namespace Regular

variable {c : Clock α} {delay : Double}

theorem starting {now : Double} (h : now.isNan = false) :
    (Clock.starting now : Clock α).Regular where
  now := h
  numbers _ there := nomatch there
  ordered := .nil
  cancelled _ there := nomatch there

theorem insert_ordered {timer : Timer α} {queue : List (Timer α)} (number : timer.due.isNan = false)
    (numbers : ∀ u ∈ queue, u.due.isNan = false)
    (ordered : queue.Pairwise (·.due.rank ≤ ·.due.rank)) :
    (timer.insert queue).Pairwise (·.due.rank ≤ ·.due.rank) := by
  induction queue with
  | nil => exact List.pairwise_singleton ..
  | cons u rest ih =>
      obtain ⟨first, others⟩ := List.pairwise_cons.mp ordered
      have hu : u.due.isNan = false := numbers u List.mem_cons_self
      unfold Timer.insert
      split
      · rename_i before
        have le : timer.due.rank ≤ u.due.rank := by
          simp only [Timer.before, Bool.or_eq_true, Bool.and_eq_true, Bool.not_eq_true',
            Bool.eq_false_iff, ne_eq, Double.lt_iff, number, hu, true_and] at before
          omega
        refine List.pairwise_cons.mpr ⟨fun v hv => ?_, ordered⟩
        rcases List.mem_cons.mp hv with rfl | later
        · exact le
        · exact Int.le_trans le (first v later)
      · rename_i behind
        have le : u.due.rank ≤ timer.due.rank := by
          simp only [Timer.before, Bool.or_eq_true, not_or, Double.lt_iff, number, hu,
            true_and] at behind
          omega
        refine List.pairwise_cons.mpr ⟨fun v hv => ?_, ih (fun v hv => ?_) others⟩
        · rcases Clock.mem_insert.mp hv with rfl | later
          · exact le
          · exact first v later
        · exact numbers v (List.mem_cons_of_mem _ hv)

theorem isNan_after (h : c.Regular) (wait : delay.clampNonneg.IsWait) :
    (c.after delay).isNan = false :=
  Double.isNan_add_wait h.now wait

theorem set (h : c.Regular) (wait : delay.clampNonneg.IsWait) (payload : α) :
    (c.set delay payload).1.Regular where
  now := h.now
  numbers timer there := by
    rcases mem_insert.mp there with rfl | old
    · exact h.isNan_after wait
    · exact h.numbers timer old
  ordered := insert_ordered (h.isNan_after wait) h.numbers h.ordered
  cancelled n hn := Nat.lt_succ_of_lt (h.cancelled n hn)

theorem reached (h : c.Regular) {target : Double} (number : target.isNan = false) :
    (c.reached target).Regular where
  now := number
  numbers timer there := h.numbers timer ((List.dropWhile_sublist _).subset there)
  ordered := h.ordered.sublist (List.dropWhile_sublist _)
  cancelled := h.cancelled

/-- The clock hands out all that is due. -/
theorem due_eq (h : c.Regular) {target : Double} (number : target.isNan = false) :
    c.due target = c.queue.filter (·.due.le target) := by
  refine takeWhile_eq_filter (h.ordered.imp_of_mem fun {a b} there _ le later => ?_)
  obtain ⟨-, -, rank⟩ := Double.le_iff.mp later
  exact Double.le_iff.mpr ⟨h.numbers a there, number, Int.le_trans le rank⟩

end Regular

end Clock

/-! ## Tasks whose time has come -/

namespace Store

variable (store : Store)

/-- Either no such task waits and nothing happens, or the first such task is moved
to the end of the callbacks. -/
theorem moveToCallbacks_cases (id : String) :
    (∀ task ∈ store.state.loop.timers, task.id ≠ id) ∧ (store.moveToCallbacks id).store = store ∨
      ∃ before task after, store.state.loop.timers = before ++ task :: after ∧ task.id = id ∧
        (store.moveToCallbacks id).store = store.setLoop
          { store.state.loop with
            timers := before ++ after, callbacks := store.state.loop.callbacks ++ [task] } := by
  unfold moveToCallbacks
  cases found : store.state.loop.timers.find? (·.id == id) with
  | none =>
      refine .inl ⟨fun task there same => ?_, rfl⟩
      simpa [same] using List.find?_eq_none.mp found task there
  | some task =>
      obtain ⟨same, before, after, timers, others⟩ := List.find?_eq_some_iff_append.mp found
      refine .inr ⟨before, task, after, timers, by simpa using same, ?_⟩
      have rest : store.state.loop.timers.eraseP (·.id == id) = before ++ after := by
        rw [timers, List.eraseP_append_right _ (by simpa using others)]
        simp [same]
      simp only [rest]

/-- What every single timer keeps, firing timers keeps. -/
theorem fired_induct {P : Store → Prop} (timers : List (Timer String))
    (move : ∀ store id, P store → P (store.moveToCallbacks id).store) (h : P store) :
    P (store.fired timers) := by
  induction timers generalizing store with
  | nil => exact h
  | cons timer timers ih => exact ih _ (move store timer.payload h)

/-- Firing timers does nothing but to move tasks. -/
theorem fired_same (timers : List (Timer String)) :
    ∃ loop, store.fired timers = store.setLoop loop ∧
      loop.microtasks = store.state.loop.microtasks := by
  refine store.fired_induct
    (P := fun s => ∃ loop, s = store.setLoop loop ∧ loop.microtasks = store.state.loop.microtasks)
    timers ?_ ⟨store.state.loop, rfl, rfl⟩
  rintro _ id ⟨loop, rfl, microtasks⟩
  rcases (store.setLoop loop).moveToCallbacks_cases id with ⟨-, stays⟩ | ⟨_, _, _, -, -, moved⟩
  · exact ⟨loop, stays, microtasks⟩
  · exact ⟨_, moved, microtasks⟩

/-- A task that does not wait any more is a callback. -/
theorem length_fired (timers : List (Timer String)) :
    (store.fired timers).state.loop.timers.length + (store.fired timers).state.loop.callbacks.length =
        store.state.loop.timers.length + store.state.loop.callbacks.length ∧
      (store.fired timers).state.loop.timers.length ≤ store.state.loop.timers.length := by
  refine store.fired_induct (P := fun s =>
    s.state.loop.timers.length + s.state.loop.callbacks.length =
        store.state.loop.timers.length + store.state.loop.callbacks.length ∧
      s.state.loop.timers.length ≤ store.state.loop.timers.length)
    timers ?_ ⟨rfl, Nat.le_refl _⟩
  rintro s id ⟨all, fewer⟩
  rcases s.moveToCallbacks_cases id with ⟨-, stays⟩ | ⟨before, task, after, waiting, -, moved⟩
  · rw [stays]
    exact ⟨all, fewer⟩
  · rw [moved]
    rw [waiting, List.length_append, List.length_cons] at all fewer
    simp only [setLoop, List.length_append, List.length_cons, List.length_nil]
    exact ⟨by omega, by omega⟩

/-- Whoever was not fired still waits. -/
theorem mem_fired {timers : List (Timer String)}
    (distinct : (store.state.loop.timers.map (·.id)).Nodup) {task : Task} :
    task ∈ (store.fired timers).state.loop.timers ↔
      task ∈ store.state.loop.timers ∧ ∀ timer ∈ timers, timer.payload ≠ task.id := by
  induction timers generalizing store with
  | nil => exact ⟨fun waits => ⟨waits, fun _ there => nomatch there⟩, And.left⟩
  | cons timer timers ih =>
      show task ∈ ((store.moveToCallbacks timer.payload).store.fired timers).state.loop.timers ↔ _
      rw [List.forall_mem_cons]
      rcases store.moveToCallbacks_cases timer.payload with
        ⟨nobody, stays⟩ | ⟨before, other, after, waiting, same, moved⟩
      · rw [stays, ih store distinct]
        exact ⟨fun ⟨there, unfired⟩ => ⟨there, (nobody task there).symm, unfired⟩,
          fun ⟨there, _, unfired⟩ => ⟨there, unfired⟩⟩
      · rw [waiting, List.map_append, List.map_cons, List.nodup_middle, List.nodup_cons,
          ← List.map_append] at distinct
        rw [moved, ih _ distinct.2, waiting, ← same]
        -- no identity is there twice, so the others stay
        have another (there : task ∈ before ++ after) : other.id ≠ task.id := by
          intro equal
          exact distinct.1 (equal ▸ List.mem_map_of_mem there)
        constructor
        · rintro ⟨there, unfired⟩
          exact ⟨((List.sublist_cons_self other after).append_left before).subset there,
            another there, unfired⟩
        · rintro ⟨there, other, unfired⟩
          refine ⟨?_, unfired⟩
          rcases List.mem_append.mp there with there | there
          · exact List.mem_append_left _ there
          · rcases List.mem_cons.mp there with rfl | there
            · exact absurd rfl other
            · exact List.mem_append_right _ there

end Store

/-! ## Tasks that wait -/

theorem Session.Live.distinct {s : Session} (h : s.Live) :
    (s.store.state.loop.timers.map (·.id)).Nodup := by
  obtain ⟨why, reached⟩ := h
  have booked := reached.booked
  obtain ⟨perm, nodup⟩ := booked.lawful.conserved
  rw [booked.ledger] at perm
  have distinct := (perm.map (·.id)).nodup_iff.mpr nodup
  simp only [Ledger.tasks, List.map_append, List.nodup_append] at distinct
  exact distinct.1.1.1

namespace Session

/-- The session when a delay has passed. -/
def waited (s : Session) (delay : Double) : Session :=
  ((Act.fireUntil Act.plain (s.clock.after delay)).run s).2

section Waited

variable (s : Session) (delay : Double)

theorem waited_store : (s.waited delay).store =
    s.store.fired ((s.clock.due (s.clock.after delay)).filter fun timer =>
      !s.clock.isCancelled timer.serial) := by
  obtain ⟨t, run, -, store, -⟩ := Act.fireUntil_fires (s.clock.after delay) s
  rw [waited, run, store]

theorem waited_clock : (s.waited delay).clock = s.clock.reached (s.clock.after delay) := by
  obtain ⟨t, run, -, -, clock⟩ := Act.fireUntil_fires (s.clock.after delay) s
  rw [waited, run, clock]

theorem waited_kept : (s.waited delay).machine = s.machine ∧
    (s.waited delay).realtime = s.realtime ∧ (s.waited delay).hooks = s.hooks ∧
    (s.waited delay).attached = s.attached := by
  suffices kept : ∃ t, (Act.fireUntil Act.plain (s.clock.after delay)).run s = (.ok ⟨⟩, t) ∧
      t.machine = s.machine ∧ t.realtime = s.realtime ∧ t.hooks = s.hooks ∧
        t.attached = s.attached by
    obtain ⟨t, run, kept⟩ := kept
    rwa [waited, run]
  refine Act.fireUntil_induct (P := fun t => t.machine = s.machine ∧ t.realtime = s.realtime ∧
    t.hooks = s.hooks ∧ t.attached = s.attached) ?_ (fun u kept _ => kept) ⟨rfl, rfl, rfl, rfl⟩
  rintro u timer clock ⟨machine, realtime, hooks, attached⟩ -
  refine ⟨(u.passed_machine timer clock).trans machine, ?_,
    (u.passed_hooks timer clock).trans hooks, ?_⟩
  · unfold passed
    split
    · exact realtime
    · exact (publish_realtime ..).trans realtime
  · unfold passed
    split
    · exact attached
    · exact (publish_attached ..).trans attached

theorem waited_machine : (s.waited delay).machine = s.machine := (s.waited_kept delay).1

theorem waited_realtime : (s.waited delay).realtime = s.realtime := (s.waited_kept delay).2.1

theorem waited_attached : (s.waited delay).attached = s.attached := (s.waited_kept delay).2.2.2

/-- Letting time pass does nothing to the store but to call tasks back. -/
theorem waited_requeues : ∃ loop, (s.waited delay).store = s.store.setLoop loop ∧
    loop.microtasks = s.store.state.loop.microtasks ∧
    loop.timers.length + loop.callbacks.length =
      s.store.state.loop.timers.length + s.store.state.loop.callbacks.length ∧
    loop.timers.length ≤ s.store.state.loop.timers.length := by
  have lengths := s.store.length_fired ((s.clock.due (s.clock.after delay)).filter fun timer =>
    !s.clock.isCancelled timer.serial)
  obtain ⟨loop, same, microtasks⟩ := s.store.fired_same
    ((s.clock.due (s.clock.after delay)).filter fun timer => !s.clock.isCancelled timer.serial)
  rw [← waited_store] at lengths same
  rw [same] at lengths
  exact ⟨loop, same, microtasks, lengths⟩

theorem waited_speed : (s.waited delay).store.speed = s.store.speed := by
  obtain ⟨loop, same, -⟩ := s.waited_requeues delay
  rw [same]
  rfl

end Waited

end Session

/-- Whatever is done with a program, its clock stays in order. -/
theorem Clock.Regular.timing : Session.Timing fun s => s.clock.Regular where
  idle h idles := idles.clock ▸ h
  start := by
    rintro s t task h starts
    obtain ⟨delay, quotient, clock⟩ := starts.clock
    rw [clock]
    exact h.set (Number.isWait_quotient quotient) task.id
  wait := by
    rintro s delay - quotient h
    show (s.waited delay).clock.Regular
    rw [Session.waited_clock]
    exact h.reached (h.isNan_after (Number.isWait_quotient quotient))

namespace Session

/-- A task has a timer, which was not cancelled and is due by the time that is
`wait` from now. -/
def Armed (s : Session) (wait : Double) (task : Task) : Prop :=
  ∃ timer ∈ s.clock.queue, timer.payload = task.id ∧ s.clock.isCancelled timer.serial = false ∧
    timer.due.le (s.clock.after wait) = true

/-- Pacing delays are at most `ceiling`, which is `wait` in seconds, and that is how
long tasks wait at most. -/
structure Timely (ceiling : Int) (wait : Double) (s : Session) : Prop where
  clock : s.clock.Regular
  virtual : s.realtime = false
  speed : s.store.speed ≤ ceiling
  armed : ∀ task ∈ s.store.state.loop.timers, s.Armed wait task

namespace Timely

variable {s t : Session} {ceiling : Int} {wait delay : Double}

theorem idle (h : s.Timely ceiling wait) (idles : s.Idles t) : t.Timely ceiling wait where
  clock := idles.clock ▸ h.clock
  virtual := idles.realtime.trans h.virtual
  speed := idles.speed ▸ h.speed
  armed task there := by
    unfold Armed
    rw [idles.clock]
    exact h.armed task (idles.timers ▸ there)

/-- Whoever still waits when time has passed has a timer that was not due. -/
theorem unfired (live : s.Live) (h : s.Timely ceiling wait) (pause : delay.clampNonneg.IsWait)
    {task : Task} (waits : task ∈ (s.waited delay).store.state.loop.timers) :
    task ∈ s.store.state.loop.timers ∧
      ∃ timer ∈ (s.waited delay).clock.queue, timer.payload = task.id ∧
        s.clock.isCancelled timer.serial = false ∧ timer.due.le (s.clock.after wait) = true ∧
        timer.due.le (s.clock.after delay) = false := by
  rw [waited_store] at waits
  obtain ⟨there, unfired⟩ := (s.store.mem_fired live.distinct).mp waits
  obtain ⟨timer, queued, payload, on, due⟩ := h.armed task there
  have late : timer ∉ s.clock.due (s.clock.after delay) := by
    intro handed
    exact unfired timer (List.mem_filter.mpr ⟨handed, by simp [on]⟩) payload
  refine ⟨there, timer, ?_, payload, on, due, ?_⟩
  · have whole := List.takeWhile_append_dropWhile
      (p := fun timer : Timer String => timer.due.le (s.clock.after delay)) (l := s.clock.queue)
    rw [← whole] at queued
    rw [waited_clock]
    exact (List.mem_append.mp queued).resolve_left late
  · rw [h.clock.due_eq (h.clock.isNan_after pause)] at late
    refine Bool.eq_false_iff.mpr fun le => late ?_
    exact List.mem_filter.mpr ⟨queued, le⟩

variable (hw : Number.quotient ceiling 1000 = .ok wait)

include hw

theorem start {task : Task} (h : s.Timely ceiling wait) (starts : s.Starts task t) :
    t.Timely ceiling wait := by
  obtain ⟨delay, quotient, clock⟩ := starts.clock
  have pause := Number.isWait_quotient quotient
  have waits := Number.isWait_quotient hw
  have speed := h.speed
  refine ⟨Clock.Regular.timing.start h.clock starts, starts.realtime.trans h.virtual,
    starts.speed ▸ speed, fun other there => ?_⟩
  unfold Armed
  rw [clock]
  rw [starts.timers] at there
  rcases List.mem_append.mp there with old | new
  · obtain ⟨timer, queued, payload, on, due⟩ := h.armed other old
    exact ⟨timer, Clock.mem_insert.mpr (.inr queued), payload, on, due⟩
  · obtain rfl := List.mem_singleton.mp new
    refine ⟨_, Clock.mem_insert.mpr (.inl rfl), rfl, ?_, ?_⟩
    · refine Bool.eq_false_iff.mpr fun cancelled => ?_
      exact Nat.lt_irrefl _ (h.clock.cancelled _ cancelled)
    · have shorter := Number.rank_quotient_mono quotient hw (by omega)
      refine Double.le_iff.mpr ⟨h.clock.isNan_after pause, h.clock.isNan_after waits, ?_⟩
      exact Double.add_mono_wait h.clock.now pause waits shorter

theorem pass (live : s.Live) (quotient : Number.quotient s.store.speed 1000 = .ok delay)
    (h : s.Timely ceiling wait) : (s.waited delay).Timely ceiling wait := by
  have pause := Number.isWait_quotient quotient
  have waits := Number.isWait_quotient hw
  have number := h.clock.isNan_after pause
  have regular : (s.waited delay).clock.Regular := Clock.Regular.timing.wait live quotient h.clock
  refine ⟨regular, s.waited_realtime delay ▸ h.virtual, s.waited_speed delay ▸ h.speed, ?_⟩
  intro task there
  obtain ⟨-, timer, queued, payload, on, due, -⟩ := h.unfired live pause there
  refine ⟨timer, queued, payload, ?_, ?_⟩
  · rw [waited_clock]
    exact on
  · obtain ⟨dueNumber, -, rank⟩ := Double.le_iff.mp due
    have later : (s.clock.after wait).rank ≤ ((s.waited delay).clock.after wait).rank := by
      rw [waited_clock]
      exact Double.add_wait_mono h.clock.now number waits
        (Double.rank_le_add_wait h.clock.now pause)
    exact Double.le_iff.mpr ⟨dueNumber, regular.isNan_after waits, Int.le_trans rank later⟩

/-- Tasks that wait have their timers, whatever is done with a program. -/
theorem timing : Timing (Timely ceiling wait) where
  idle := idle
  start := start hw
  wait := pass hw

/-- Whoever lets all of the time pass leaves no task waiting. -/
theorem waited (live : s.Live) (h : s.Timely ceiling wait) :
    (s.waited wait).store.state.loop.timers = [] := by
  refine List.eq_nil_iff_forall_not_mem.mpr fun task there => ?_
  obtain ⟨-, timer, -, -, -, due, undue⟩ := h.unfired live (Number.isWait_quotient hw) there
  rw [due] at undue
  cases undue

end Timely

end Session

end Runloop
