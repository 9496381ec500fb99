/-
# Timers fire in order

A clock makes moves, each of which is one thing that happens: a timer is set, cancelled,
fired or dropped, or the clock arrives where it was moved to (`Clock.Moves`).  Callbacks
run in the middle of an advance, but all that they do is a sequence of moves as well, so
whatever is called, the clock takes one course of moves (`AlarmClock.moveTo_course`).

What every move keeps is a property of the clock and of all that has happened so far
(`Orderly`): the timers that are gone and those in the queue make up one row, ordered by
due time and then by the order in which they were set; the clock stands between the two;
and the row is all timers that were ever set.
-/
import Runloop.Proofs.Punctuality

namespace Runloop

/-! ## Times -/

namespace Double

variable {x y z : Double}

/-- A number behind minus infinity.  Time that is added to one leads to no earlier one. -/
def IsTime (x : Double) : Prop := infinity.neg.lt x = true

instance : Decidable x.IsTime := inferInstanceAs (Decidable (infinity.neg.lt x = true))

theorem isTime_iff : x.IsTime ↔ x.isNan = false ∧ -(Magnitude.top : Int) < x.rank := by
  have bound : infinity.neg.rank = -(Magnitude.top : Int) := rfl
  rw [IsTime, lt_iff, bound]
  exact ⟨fun h => h.2, fun h => ⟨rfl, h⟩⟩

theorem le_refl (h : x.isNan = false) : x.le x = true :=
  le_iff.mpr ⟨h, h, Int.le_refl _⟩

theorem le_trans (h : x.le y = true) (h' : y.le z = true) : x.le z = true := by
  obtain ⟨hx, -, less⟩ := le_iff.mp h
  obtain ⟨-, hz, less'⟩ := le_iff.mp h'
  exact le_iff.mpr ⟨hx, hz, Int.le_trans less less'⟩

theorem eq_iff : x.eq y = true ↔ x.isNan = false ∧ y.isNan = false ∧ x.rank = y.rank := by
  unfold eq compare?
  cases x.isNan <;> cases y.isNan <;> simp

/-- The larger of two numbers is the second if that is not less. -/
theorem max_of_le (h : x.le y = true) : x.le (x.max y) = true ∧ (x.max y).eq y = true := by
  obtain ⟨hx, hy, le⟩ := le_iff.mp h
  unfold max
  split
  · exact ⟨h, eq_iff.mpr ⟨hy, hy, rfl⟩⟩
  · rename_i noLess
    have same : x.rank = y.rank := by
      rw [lt_iff] at noLess
      have : ¬ x.rank < y.rank := fun less => noLess ⟨hx, hy, less⟩
      omega
    exact ⟨le_refl hx, eq_iff.mpr ⟨hx, hy, same⟩⟩

theorem le_of_eq (h : x.eq y = true) : x.le y = true ∧ y.le x = true := by
  obtain ⟨hx, hy, same⟩ := eq_iff.mp h
  exact ⟨le_iff.mpr ⟨hx, hy, by omega⟩, le_iff.mpr ⟨hy, hx, by omega⟩⟩

theorem IsTime.le (h : x.IsTime) (later : x.le y = true) : y.IsTime := by
  obtain ⟨-, hy, less⟩ := le_iff.mp later
  exact isTime_iff.mpr ⟨hy, Int.lt_of_lt_of_le (isTime_iff.mp h).2 less⟩

/-- No delay is negative, and it may be infinite. -/
theorem clampNonneg_cases (x : Double) : ∃ m, x.clampNonneg = signed false m := by
  cases x with
  | nan => exact ⟨.zero, rfl⟩
  | signed s m =>
      cases s with
      | false => exact ⟨m, clampNonneg_signed m⟩
      | true => exact ⟨.zero, clampNonneg_negative m⟩

/-- Time goes on by a delay. -/
theorem IsTime.le_add (h : x.IsTime) (delay : Double) :
    x.le (x.add delay.clampNonneg) = true := by
  obtain ⟨number, above⟩ := isTime_iff.mp h
  obtain ⟨m, eq⟩ := delay.clampNonneg_cases
  rw [eq]
  cases infinite : m.isInfinite with
  | false =>
      have wait : (signed false m).IsWait := ⟨m, rfl, infinite⟩
      exact le_iff.mpr ⟨number, isNan_add_wait number wait, rank_le_add_wait number wait⟩
  | true =>
      have top : m.place = Magnitude.top := beq_iff_eq.mp infinite
      cases x with
      | nan => cases number
      | signed s n =>
          cases there : n.isInfinite with
          | false =>
              have sum : (signed s n).add (signed false m) = signed false m := by
                simp [add, there, infinite]
              rw [sum]
              refine le_iff.mpr ⟨rfl, rfl, ?_⟩
              have bound := (rank_le_top (signed s n)).2
              rwa [← top] at bound
          | true =>
              -- Only the positive infinity is a time.
              have positive : s = false := by
                cases s with
                | false => rfl
                | true =>
                    have place : n.place = Magnitude.top := beq_iff_eq.mp there
                    simp only [rank, place] at above
                    omega
              have sum : (signed s n).add (signed false m) = signed s n := by
                simp [add, there, positive]
              rw [sum]
              exact le_refl rfl

end Double

/-! ## The queue -/

namespace Timer

variable {α : Type} {t u v : Timer α} {queue : List (Timer α)}

/-- Timers are ordered by the time they are due, and then as they were set. -/
theorem before_iff (ht : t.due.isNan = false) (hu : u.due.isNan = false) :
    t.before u = true ↔
      t.due.rank < u.due.rank ∨ t.due.rank = u.due.rank ∧ t.serial < u.serial := by
  simp only [before, Bool.or_eq_true, Bool.and_eq_true, Bool.not_eq_true', Bool.eq_false_iff,
    ne_eq, decide_eq_true_eq, Double.lt_iff, ht, hu, true_and]
  omega

/-- A timer that is due no later and was set earlier comes first. -/
theorem before_of_le (due : t.due.le u.due = true) (serial : t.serial < u.serial) :
    t.before u = true := by
  obtain ⟨ht, hu, le⟩ := Double.le_iff.mp due
  rw [before_iff ht hu]
  omega

theorem le_of_before (ht : t.due.isNan = false) (hu : u.due.isNan = false)
    (h : t.before u = true) : t.due.le u.due = true := by
  rw [before_iff ht hu] at h
  exact Double.le_iff.mpr ⟨ht, hu, by omega⟩

/-- The order is kept where a timer is put in its place that was set last. -/
theorem insert_pairwise (ht : t.due.isNan = false) (numbers : ∀ u ∈ queue, u.due.isNan = false)
    (last : ∀ u ∈ queue, u.serial < t.serial)
    (sorted : queue.Pairwise fun a b => a.before b = true) :
    (t.insert queue).Pairwise fun a b => a.before b = true := by
  induction queue with
  | nil => exact List.pairwise_singleton ..
  | cons u rest ih =>
      obtain ⟨first, others⟩ := List.pairwise_cons.mp sorted
      obtain ⟨hu, numbers⟩ := List.forall_mem_cons.mp numbers
      obtain ⟨lastOne, last⟩ := List.forall_mem_cons.mp last
      unfold insert
      split
      · rename_i here
        refine List.pairwise_cons.mpr ⟨?_, sorted⟩
        intro v hv
        rcases List.mem_cons.mp hv with rfl | later
        · exact here
        · have next := first v later
          have hv := numbers v later
          rw [before_iff ht hu] at here
          rw [before_iff hu hv] at next
          rw [before_iff ht hv]
          omega
      · rename_i behind
        refine List.pairwise_cons.mpr ⟨?_, ih numbers last others⟩
        intro v hv
        rcases Clock.mem_insert.mp hv with rfl | later
        · rw [before_iff ht hu] at behind
          rw [before_iff hu ht]
          omega
        · exact first v later

theorem insert_perm (t : Timer α) (queue : List (Timer α)) :
    (t.insert queue).Perm (t :: queue) := by
  induction queue with
  | nil => exact .refl _
  | cons u rest ih =>
      unfold insert
      split
      · exact .refl _
      · exact (ih.cons u).trans (.swap ..)

end Timer

/-! ## What has happened -/

namespace Moment

/-- The timer that is set. -/
def set? (m : Moment) : Option (Timer Alarm) :=
  match m.what with
  | .set timer => some timer
  | _ => none

/-- The serial of the timer that is cancelled. -/
def cancelled? (m : Moment) : Option Nat :=
  match m.what with
  | .cancelled serial => some serial
  | _ => none

/-- The timer that fires. -/
def firing? (m : Moment) : Option (Timer Alarm) :=
  match m.what with
  | .fired timer => some timer
  | _ => none

/-- The timer that leaves the queue, whether it fires or not. -/
def gone? (m : Moment) : Option (Timer Alarm) :=
  match m.what with
  | .fired timer | .dropped timer => some timer
  | _ => none

end Moment

section Past

variable (past : List Moment)

/-- The timers that were set, in this order. -/
def timersSet : List (Timer Alarm) := past.filterMap Moment.set?

/-- The serials of the timers that were cancelled. -/
def timersCancelled : List Nat := past.filterMap Moment.cancelled?

/-- The timers that fired, in this order. -/
def timersFired : List (Timer Alarm) := past.filterMap Moment.firing?

/-- The timers that left the queue, in this order. -/
def timersGone : List (Timer Alarm) := past.filterMap Moment.gone?

end Past

theorem timersFired_sublist (past : List Moment) :
    (timersFired past).Sublist (timersGone past) := by
  induction past with
  | nil => exact .slnil
  | cons m past ih =>
      obtain ⟨now, what⟩ := m
      cases what with
      | fired timer => exact ih.cons_cons timer
      | dropped timer => exact ih.cons timer
      | set | cancelled | arrived => exact ih

/-! ## The moves of a clock -/

/-- What a clock can do at once, and what happens thereby. -/
inductive Clock.Moves (c : Clock Alarm) : Moment → Clock Alarm → Prop
  | set (a : Alarm) : Moves c ⟨c.now, .set (c.set a.delay a).2⟩ (c.set a.delay a).1
  | cancel (serial : Nat) : Moves c ⟨c.now, .cancelled serial⟩ (c.cancel serial)
  | fire {timer : Timer Alarm} {rest : List (Timer Alarm)} (first : c.queue = timer :: rest)
      (kept : c.isCancelled timer.serial = false) :
      Moves c ⟨c.now.max timer.due, .fired timer⟩
        { c with now := c.now.max timer.due, queue := rest }
  | drop {timer : Timer Alarm} {rest : List (Timer Alarm)} (first : c.queue = timer :: rest)
      (cancelled : c.isCancelled timer.serial = true) :
      Moves c ⟨c.now.max timer.due, .dropped timer⟩
        { c with now := c.now.max timer.due, queue := rest }
  | arrive {target : Double} (ahead : c.now.le target = true) (none : c.pop? target = none) :
      Moves c ⟨target, .arrived⟩ { c with now := target }

/-- One move after the other. -/
inductive Clock.Course : Clock Alarm → List Moment → Clock Alarm → Prop
  | done {c : Clock Alarm} : Course c [] c
  | move {c c' c'' : Clock Alarm} {m : Moment} {ms : List Moment} (first : c.Moves m c')
      (more : Course c' ms c'') : Course c (m :: ms) c''

namespace Clock.Course

variable {c c' c'' : Clock Alarm} {m : Moment} {ms ms' : List Moment}

theorem single (h : c.Moves m c') : Course c [m] c' := .move h .done

theorem append (h : Course c ms c') (h' : Course c' ms' c'') : Course c (ms ++ ms') c'' := by
  induction h with
  | done => exact h'
  | move first _ ih => exact .move first (ih h')

end Clock.Course

/-! ## What every move keeps -/

namespace Clock

/-- The timers that are gone and those that wait make up one row, in which all that were
set stand as they come, and the clock stands between the two. -/
structure Lined (start : Double) (past : List Moment) (c : Clock Alarm) : Prop where
  time : c.now.IsTime
  times : (start :: (past.map (·.now) ++ [c.now])).Pairwise fun x y => x.le y = true
  row : (timersGone past ++ c.queue).Pairwise fun a b => a.before b = true
  behind : ∀ t ∈ timersGone past, t.due.le c.now = true
  ahead : ∀ t ∈ c.queue, c.now.le t.due = true
  kept : (timersGone past ++ c.queue).Perm (timersSet past)
  serials : (timersSet past).map (·.serial) = List.range c.issued

/-- Whoever is gone has fired, each when it was due, unless it was cancelled, and nobody
has that was cancelled before. -/
structure Minded (past : List Moment) (c : Clock Alarm) : Prop where
  cancelled : ∀ n, c.isCancelled n = true ↔ n ∈ timersCancelled past
  fired : ∀ t ∈ timersGone past, t ∈ timersFired past ∨ t.serial ∈ timersCancelled past
  spared : past.Pairwise fun m m' => ∀ t, m'.firing? = some t → m.cancelled? ≠ some t.serial
  punctual : ∀ m ∈ past, ∀ t, m.firing? = some t → m.now.eq t.due = true

section Past

variable {past : List Moment} {m : Moment}

theorem set_concat (past : List Moment) (m : Moment) :
    timersSet (past ++ [m]) = timersSet past ++ m.set?.toList := by
  rw [timersSet, List.filterMap_append]
  cases h : m.set? <;> simp [timersSet, h]

theorem gone_concat (past : List Moment) (m : Moment) :
    timersGone (past ++ [m]) = timersGone past ++ m.gone?.toList := by
  rw [timersGone, List.filterMap_append]
  cases h : m.gone? <;> simp [timersGone, h]

theorem fired_concat (past : List Moment) (m : Moment) :
    timersFired (past ++ [m]) = timersFired past ++ m.firing?.toList := by
  rw [timersFired, List.filterMap_append]
  cases h : m.firing? <;> simp [timersFired, h]

theorem cancelled_concat (past : List Moment) (m : Moment) :
    timersCancelled (past ++ [m]) = timersCancelled past ++ m.cancelled?.toList := by
  rw [timersCancelled, List.filterMap_append]
  cases h : m.cancelled? <;> simp [timersCancelled, h]

end Past

/-- A clock that goes on to a time has never gone back. -/
theorem times_concat {start now later : Double} {times : List Double}
    (h : (start :: (times ++ [now])).Pairwise fun x y => x.le y = true)
    (le : now.le later = true) :
    (start :: ((times ++ [later]) ++ [later])).Pairwise fun x y => x.le y = true := by
  rw [← List.cons_append, List.pairwise_append] at h
  obtain ⟨before, -, upTo⟩ := h
  have upToLater : ∀ x ∈ start :: times, ∀ y ∈ [later, later], x.le y = true := by
    intro x hx y hy
    have here := Double.le_trans (upTo x hx now (List.mem_singleton_self _)) le
    rcases List.mem_pair.mp hy with rfl | rfl <;> exact here
  have same := Double.le_refl (Double.le_iff.mp le).2.1
  rw [List.append_assoc, ← List.cons_append, List.pairwise_append]
  exact ⟨before, List.pairwise_pair.mpr same, upToLater⟩

namespace Lined

variable {start : Double} {past : List Moment} {c : Clock Alarm}

theorem starting (h : start.IsTime) : Lined start [] (Clock.starting start) where
  time := h
  times := by
    have here := Double.le_refl (Double.isTime_iff.mp h).1
    simpa [Clock.starting] using here
  row := .nil
  behind t ht := nomatch ht
  ahead t ht := nomatch ht
  kept := .refl _
  serials := rfl

theorem serial_lt (h : Lined start past c) : ∀ t ∈ timersGone past ++ c.queue,
    t.serial < c.issued := by
  intro t ht
  have number := List.mem_map_of_mem (f := (·.serial)) (h.kept.mem_iff.mp ht)
  rw [h.serials] at number
  exact List.mem_range.mp number

/-- What neither sets a timer nor takes one off the queue may move the clock on, up to the
first timer. -/
theorem idle (h : Lined start past c) {c' : Clock Alarm} {m : Moment} (set : m.set? = none)
    (gone : m.gone? = none) (queue : c'.queue = c.queue) (issued : c'.issued = c.issued)
    (now : m.now = c'.now) (later : c.now.le c'.now = true)
    (ahead : ∀ t ∈ c.queue, c'.now.le t.due = true) : Lined start (past ++ [m]) c' := by
  have sets : timersSet (past ++ [m]) = timersSet past := by
    rw [set_concat, set, Option.toList_none, List.append_nil]
  have left : timersGone (past ++ [m]) = timersGone past := by
    rw [gone_concat, gone, Option.toList_none, List.append_nil]
  constructor
  case time => exact h.time.le later
  case times =>
    rw [List.map_append, List.map_singleton, now]
    exact times_concat h.times later
  case row =>
    rw [left, queue]
    exact h.row
  case behind =>
    rw [left]
    exact fun t ht => Double.le_trans (h.behind t ht) later
  case ahead =>
    rw [queue]
    exact ahead
  case kept =>
    rw [left, sets, queue]
    exact h.kept
  case serials =>
    rw [sets, issued]
    exact h.serials

/-- A timer that is set comes behind all that are gone. -/
theorem set (h : Lined start past c) (delay : Double) (a : Alarm) :
    Lined start (past ++ [⟨c.now, .set (c.set delay a).2⟩]) (c.set delay a).1 := by
  let timer := (c.set delay a).2
  have due : c.now.le timer.due = true := h.time.le_add delay
  have number : timer.due.isNan = false := (Double.le_iff.mp due).2.1
  have last : ∀ t ∈ timersGone past ++ c.queue, t.serial < timer.serial := h.serial_lt
  obtain ⟨gone, waiting, across⟩ := List.pairwise_append.mp h.row
  have sorted := Timer.insert_pairwise number
    (fun u hu => (Double.le_iff.mp (h.ahead u hu)).2.1)
    (fun u hu => last u (List.mem_append_right _ hu)) waiting
  let m : Moment := ⟨c.now, .set timer⟩
  have sets : timersSet (past ++ [m]) = timersSet past ++ [timer] := set_concat ..
  have left : timersGone (past ++ [m]) = timersGone past :=
    (gone_concat ..).trans (List.append_nil _)
  constructor
  case time => exact h.time
  case times =>
    rw [List.map_append, List.map_singleton]
    exact times_concat h.times (Double.le_refl (Double.isTime_iff.mp h.time).1)
  case row =>
    rw [left]
    refine List.pairwise_append.mpr ⟨gone, sorted, ?_⟩
    intro t ht u hu
    rcases mem_insert.mp hu with rfl | old
    · exact Timer.before_of_le (Double.le_trans (h.behind t ht) due)
        (last t (List.mem_append_left _ ht))
    · exact across t ht u old
  case behind =>
    rw [left]
    exact h.behind
  case ahead =>
    intro t ht
    rcases mem_insert.mp ht with rfl | old
    · exact due
    · exact h.ahead t old
  case kept =>
    rw [left, sets]
    have inserted := (Timer.insert_perm timer c.queue).append_left (timersGone past)
    exact (inserted.trans List.perm_middle).trans
      ((h.kept.cons timer).trans (List.perm_append_singleton ..).symm)
  case serials =>
    rw [sets, List.map_append, h.serials]
    exact List.range_succ.symm

/-- The first timer of the queue becomes the last one that is gone. -/
theorem leave (h : Lined start past c) {timer : Timer Alarm} {rest : List (Timer Alarm)}
    (first : c.queue = timer :: rest) {m : Moment} (set : m.set? = none)
    (gone : m.gone? = some timer) (now : m.now = c.now.max timer.due) :
    Lined start (past ++ [m]) { c with now := c.now.max timer.due, queue := rest } := by
  have due : c.now.le timer.due = true := h.ahead timer (by simp [first])
  obtain ⟨later, same⟩ := Double.max_of_le due
  obtain ⟨upTo, from'⟩ := Double.le_of_eq same
  have line : timersGone (past ++ [m]) ++ rest = timersGone past ++ c.queue := by
    rw [gone_concat, gone, first, Option.toList_some, List.append_assoc, List.singleton_append]
  have sets : timersSet (past ++ [m]) = timersSet past := by
    rw [set_concat, set, Option.toList_none, List.append_nil]
  constructor
  case time => exact h.time.le later
  case times =>
    rw [List.map_append, List.map_singleton, now]
    exact times_concat h.times later
  case row =>
    rw [line]
    exact h.row
  case behind =>
    rw [gone_concat, gone, Option.toList_some, List.forall_mem_append, List.forall_mem_singleton]
    exact ⟨fun t ht => Double.le_trans (h.behind t ht) later, from'⟩
  case ahead =>
    have waiting := (List.pairwise_append.mp h.row).2.1
    rw [first] at waiting
    intro t ht
    have number : t.due.isNan = false :=
      (Double.le_iff.mp (h.ahead t (by simp [first, ht]))).2.1
    have next := (List.pairwise_cons.mp waiting).1 t ht
    exact Double.le_trans upTo (Timer.le_of_before (Double.le_iff.mp due).2.1 number next)
  case kept =>
    rw [line, sets]
    exact h.kept
  case serials =>
    rw [sets]
    exact h.serials

/-- If the first timer is due later, all are. -/
theorem all_later (h : Lined start past c) {target : Double} (number : target.isNan = false)
    (none : c.pop? target = none) : ∀ t ∈ c.queue, target.lt t.due = true := by
  intro t ht
  cases queue : c.queue with
  | nil => rw [queue] at ht; cases ht
  | cons first rest =>
      have numbers : ∀ u ∈ first :: rest, u.due.isNan = false := by
        intro u hu
        rw [← queue] at hu
        exact (Double.le_iff.mp (h.ahead u hu)).2.1
      have notDue : ¬ first.due.le target = true := by
        intro due
        rw [pop?, queue] at none
        simp [due] at none
      have later : target.rank < first.due.rank := by
        rw [Double.le_iff] at notDue
        have : ¬ first.due.rank ≤ target.rank :=
          fun le => notDue ⟨numbers first List.mem_cons_self, number, le⟩
        omega
      have waiting := (List.pairwise_append.mp h.row).2.1
      rw [queue] at ht waiting
      refine Double.lt_iff.mpr ⟨number, numbers t ht, ?_⟩
      rcases List.mem_cons.mp ht with rfl | more
      · exact later
      · have next := (List.pairwise_cons.mp waiting).1 t more
        have le := Timer.le_of_before (numbers first List.mem_cons_self) (numbers t ht) next
        exact Int.lt_of_lt_of_le later (Double.le_iff.mp le).2.2

/-- Every move keeps the row. -/
theorem moves (h : Lined start past c) {c' : Clock Alarm} {m : Moment} (move : c.Moves m c') :
    Lined start (past ++ [m]) c' := by
  have same := Double.le_refl (Double.isTime_iff.mp h.time).1
  cases move with
  | set a => exact h.set a.delay a
  | cancel serial => exact h.idle rfl rfl rfl rfl rfl same h.ahead
  | fire first _ => exact h.leave first rfl rfl rfl
  | drop first _ => exact h.leave first rfl rfl rfl
  | arrive ahead none =>
      refine h.idle rfl rfl rfl rfl rfl ahead ?_
      intro t ht
      obtain ⟨number, number', less⟩ :=
        Double.lt_iff.mp (h.all_later (Double.le_iff.mp ahead).2.1 none t ht)
      exact Double.le_iff.mpr ⟨number, number', Int.le_of_lt less⟩

end Lined

namespace Minded

variable {start : Double} {past : List Moment} {c c' : Clock Alarm} {m : Moment}

theorem starting (start : Double) : Minded [] (Clock.starting start) where
  cancelled n := by simp [Clock.starting, isCancelled, timersCancelled]
  fired t ht := nomatch ht
  spared := .nil
  punctual m hm := nomatch hm

/-- One thing more: only what was not cancelled fires, and all else that goes was. -/
theorem concat (h : Minded past c)
    (cancels : ∀ n, c'.isCancelled n = true ↔ c.isCancelled n = true ∨ m.cancelled? = some n)
    (gone : ∀ t, m.gone? = some t → m.firing? = some t ∨ c.isCancelled t.serial = true)
    (firing : ∀ t, m.firing? = some t →
      c.isCancelled t.serial = false ∧ m.now.eq t.due = true) : Minded (past ++ [m]) c' := by
  constructor
  case cancelled =>
    intro n
    rw [cancels, h.cancelled, cancelled_concat, List.mem_append, Option.mem_toList]
  case fired =>
    intro t ht
    rw [fired_concat, cancelled_concat]
    rw [gone_concat, List.mem_append, Option.mem_toList] at ht
    rcases ht with old | new
    · exact (h.fired t old).imp (List.mem_append_left _) (List.mem_append_left _)
    · rcases gone t new with fires | cancelled
      · exact .inl (List.mem_append_right _ (Option.mem_toList.mpr fires))
      · exact .inr (List.mem_append_left _ ((h.cancelled t.serial).mp cancelled))
  case spared =>
    refine List.pairwise_append.mpr ⟨h.spared, List.pairwise_singleton .., ?_⟩
    intro m' hm' last hlast t fires cancelled
    obtain rfl := List.mem_singleton.mp hlast
    have there : t.serial ∈ timersCancelled past :=
      List.mem_filterMap.mpr ⟨m', hm', cancelled⟩
    have kept := (firing t fires).1
    rw [(h.cancelled t.serial).mpr there] at kept
    cases kept
  case punctual =>
    intro m' hm' t fires
    rcases List.mem_append.mp hm' with old | new
    · exact h.punctual m' old t fires
    · obtain rfl := List.mem_singleton.mp new
      exact (firing t fires).2

/-- Every move minds what was cancelled. -/
theorem moves (h : Minded past c) (lined : Lined start past c) (move : c.Moves m c') :
    Minded (past ++ [m]) c' := by
  have same (n : Nat) : c.isCancelled n = true ↔ c.isCancelled n = true ∨ none = some n :=
    (or_iff_left nofun).symm
  cases move with
  | set a => exact h.concat same nofun nofun
  | cancel serial =>
      refine h.concat (fun n => ?_) nofun nofun
      show (serial :: c.cancelled).contains n = true ↔
        c.cancelled.contains n = true ∨ some serial = some n
      rw [List.contains_cons, Bool.or_eq_true, beq_iff_eq, Option.some_inj, or_comm,
        eq_comm (a := n)]
  | @fire timer rest first kept =>
      have due : c.now.le timer.due = true := lined.ahead timer (by simp [first])
      refine h.concat same (fun t gone => .inl gone) ?_
      rintro t ⟨⟩
      exact ⟨kept, (Double.max_of_le due).2⟩
  | drop first cancelled =>
      refine h.concat same ?_ nofun
      rintro t ⟨⟩
      exact .inr cancelled
  | arrive => exact h.concat same nofun nofun

end Minded

/-- A course of moves keeps both. -/
theorem Course.keeps {start : Double} {past ms : List Moment} {c c' : Clock Alarm}
    (course : Course c ms c') (lined : Lined start past c) (minded : Minded past c) :
    Lined start (past ++ ms) c' ∧ Minded (past ++ ms) c' := by
  induction course generalizing past with
  | done =>
      rw [List.append_nil]
      exact ⟨lined, minded⟩
  | @move c c' c'' m ms first more ih =>
      have next := ih (lined.moves first) (minded.moves lined first)
      rwa [List.append_assoc, List.singleton_append] at next

end Clock

/-! ## Whatever is called is a course of moves -/

namespace AlarmClock

open Clock

variable {c c' : AlarmClock} {target : Double} {ms : List Moment}

theorem act_course (c : AlarmClock) (a : ClockAct Alarm) :
    Course c.clock (c.act a).2 (c.act a).1.clock := by
  cases a with
  | set a => exact .single (.set a)
  | cancel label =>
      cases named : c.handle? label with
      | none => simp only [act, named]; exact .done
      | some serial =>
          simp only [act, cancel, named]
          exact .single (.cancel serial)

theorem actAll_course (acts : List (ClockAct Alarm)) (c : AlarmClock) :
    Course c.clock (c.actAll acts).2 (c.actAll acts).1.clock := by
  induction acts generalizing c with
  | nil => exact .done
  | cons a rest ih => exact (c.act_course a).append (ih _)

/-- Acts take no time. -/
theorem actAll_now (acts : List (ClockAct Alarm)) (c : AlarmClock) :
    (c.actAll acts).1.clock.now = c.clock.now := by
  induction acts generalizing c with
  | nil => rfl
  | cons a rest ih =>
      have one : (c.act a).1.clock.now = c.clock.now := by
        cases a with
        | set a => rfl
        | cancel label =>
            cases named : c.handle? label with
            | none => simp only [act, named]
            | some serial =>
                simp only [act, cancel, named]
                rfl
      exact (ih _).trans one

/-- A turn takes the first timer off the queue, which is due, and then does what its
callback does. -/
theorem turn?_cases (h : c.turn? target = some (c', ms)) :
    ∃ timer rest, c.clock.queue = timer :: rest ∧ timer.due.le target = true ∧
      c'.clock.now = c.clock.now.max timer.due ∧ Course c.clock ms c'.clock := by
  unfold turn? pop? at h
  cases queue : c.clock.queue with
  | nil =>
      rw [queue] at h
      cases h
  | cons timer rest =>
      rw [queue] at h
      dsimp only at h
      cases due : timer.due.le target with
      | false => simp [due] at h
      | true =>
      rw [due, if_pos rfl] at h
      dsimp only at h
      refine ⟨timer, rest, rfl, due, ?_⟩
      split at h
      · rename_i cancelled
        cases h
        exact ⟨rfl, .single (.drop queue cancelled)⟩
      · rename_i kept
        cases h
        refine ⟨actAll_now .., .move (.fire queue (Bool.eq_false_iff.mpr kept)) ?_⟩
        exact actAll_course timer.payload.acts { c with clock := _ }

/-- A turn does not go past the time the clock is moved to. -/
theorem turn?_le (h : c.turn? target = some (c', ms)) (ahead : c.clock.now.le target = true) :
    c'.clock.now.le target = true := by
  obtain ⟨timer, rest, -, due, now, -⟩ := turn?_cases h
  rw [now, Double.max]
  split
  · exact due
  · exact ahead

theorem turn?_none (h : c.turn? target = none) : c.clock.pop? target = none := by
  unfold turn? at h
  split at h
  · assumption
  · split at h <;> cases h

/-- What a clock does that is moved to a time. -/
theorem moveTo_course (target : Double) (c : AlarmClock) (ahead : c.clock.now.le target = true) :
    Course c.clock (c.moveTo target).2 (c.moveTo target).1.clock := by
  fun_induction moveTo target c with
  | case1 c none => exact .single (.arrive ahead (turn?_none none))
  | case2 c c' moments turn c'' more moved ih =>
      obtain ⟨-, -, -, -, -, first⟩ := turn?_cases turn
      have rest := ih (turn?_le turn ahead)
      rw [moved] at rest
      exact first.append rest

/-- Nothing that is due is left where a clock arrives. -/
theorem moveTo_arrives (target : Double) (c : AlarmClock) :
    (c.moveTo target).1.clock.now = target ∧ (c.moveTo target).1.clock.pop? target = none := by
  fun_induction moveTo target c with
  | case1 c none =>
      refine ⟨rfl, ?_⟩
      have none := turn?_none none
      unfold pop? at none ⊢
      cases queue : c.clock.queue with
      | nil => rfl
      | cons timer rest =>
          rw [queue] at none
          dsimp only at none ⊢
          split at none
          · cases none
          · rename_i notDue
            rw [if_neg notDue]
  | case2 c c' moments turn c'' more moved ih =>
      rw [moved] at ih
      exact ih

/-- The turns that a clock takes on its way to a time, at most so many. -/
def turns (target : Double) : Nat → AlarmClock → AlarmClock × List Moment
  | 0, c => (c, [])
  | n + 1, c =>
    match c.turn? target with
    | none => (c, [])
    | some (c', moments) =>
      let (c'', more) := turns target n c'
      (c'', moments ++ more)

/-- The clock at the time it was moved to. -/
def arrivedAt (target : Double) (c : AlarmClock) : AlarmClock :=
  { c with clock := { c.clock with now := target } }

/-- Moving a clock ends, after no more turns than there are alarms to go off. -/
theorem moveTo_ends (target : Double) (c : AlarmClock) : ∃ n ≤ c.potential,
    (turns target n c).1.turn? target = none ∧
    c.moveTo target =
      ((turns target n c).1.arrivedAt target, (turns target n c).2 ++ [⟨target, .arrived⟩]) := by
  fun_induction moveTo target c with
  | case1 c none => exact ⟨0, Nat.zero_le _, none, rfl⟩
  | case2 c c' moments turn c'' more moved ih =>
      obtain ⟨n, fewer, ends, eq⟩ := ih
      have less := potential_turn? turn
      have step : turns target (n + 1) c =
          ((turns target n c').1, moments ++ (turns target n c').2) := by
        rw [turns, turn]
      refine ⟨n + 1, by omega, ?_, ?_⟩
      · rw [step]
        exact ends
      · rw [step, List.append_assoc]
        rw [moved] at eq
        cases eq
        rfl

/-- All that has happened fits with what the clock is now. -/
structure Orderly (start : Double) (past : List Moment) (c : AlarmClock) : Prop where
  lined : Lined start past c.clock
  minded : Minded past c.clock

theorem Orderly.perform {start : Double} {past : List Moment} (h : Orderly start past c)
    (call : Call) : Orderly start (past ++ (c.perform call).2) (c.perform call).1 := by
  have course : Course c.clock (c.perform call).2 (c.perform call).1.clock := by
    cases call with
    | act a => exact c.act_course a
    | advance delay | elapse delay | sleep delay =>
        exact moveTo_course _ c (h.lined.time.le_add delay)
  obtain ⟨lined, minded⟩ := course.keeps h.lined h.minded
  exact ⟨lined, minded⟩

theorem Orderly.performAll {start : Double} {past : List Moment} (h : Orderly start past c)
    (calls : List Call) :
    Orderly start (past ++ (c.performAll calls).2) (c.performAll calls).1 := by
  induction calls generalizing past c with
  | nil =>
      rw [show c.performAll [] = (c, []) from rfl, List.append_nil]
      exact h
  | cons call rest ih =>
      have next := ih (h.perform call)
      rwa [List.append_assoc] at next

/-- Where a clock arrives, every timer that was not cancelled has fired or is due later. -/
theorem Orderly.all_fired {start : Double} {past : List Moment} (h : Orderly start past c)
    (none : c.clock.pop? c.clock.now = none) :
    ∀ t ∈ timersSet past, t.serial ∉ timersCancelled past →
      t ∈ timersFired past ∧ t.due.le c.clock.now = true ∨
        t ∉ timersFired past ∧ c.clock.now.lt t.due = true := by
  intro t ht spared
  rcases List.mem_append.mp (h.lined.kept.mem_iff.mpr ht) with gone | waits
  · refine .inl ⟨?_, h.lined.behind t gone⟩
    exact (h.minded.fired t gone).resolve_right spared
  · have later := h.lined.all_later (Double.isTime_iff.mp h.lined.time).1 none t waits
    refine .inr ⟨?_, later⟩
    -- Whatever fired comes before what waits, and no timer comes before itself.
    intro fired
    have number := (Double.lt_iff.mp later).2.1
    have across := (List.pairwise_append.mp h.lined.row).2.2
    have itself := across t ((timersFired_sublist past).subset fired) t waits
    rw [Timer.before_iff number number] at itself
    omega

end AlarmClock

/-- On a clock that is started at a time, whatever is called, timers are numbered as they are
set and fire in the order of their due times and numbers, each at most once, not after it was
cancelled, and when it is due; time never goes back.  Each advance ends at its target, and
then every timer that was not cancelled has fired if it was due and is due later if not. -/
theorem timers_fire_in_order {start : Double} (time : start.IsTime) (calls : List AlarmClock.Call) :
    let run := (AlarmClock.starting start).performAll calls
    let past := run.2
    (timersSet past).map (·.serial) = List.range run.1.clock.issued ∧
    (timersFired past).Pairwise (fun t u => t.before u = true) ∧
    ((timersFired past).map (·.serial)).Nodup ∧
    past.Pairwise (fun m m' => ∀ t, m'.firing? = some t → m.cancelled? ≠ some t.serial) ∧
    (∀ m ∈ past, ∀ t, m.firing? = some t → m.now.eq t.due = true) ∧
    (start :: (past.map (·.now) ++ [run.1.clock.now])).Pairwise (fun x y => x.le y = true) ∧
    ∀ delay,
      let target := run.1.clock.after delay
      let next := run.1.move delay
      let all := past ++ next.2
      (∃ n ≤ run.1.potential, (run.1.turns target n).1.turn? target = none ∧
        next = ((run.1.turns target n).1.arrivedAt target,
          (run.1.turns target n).2 ++ [⟨target, .arrived⟩])) ∧
      next.1.clock.now = target ∧
      ∀ t ∈ timersSet all, t.serial ∉ timersCancelled all →
        t ∈ timersFired all ∧ t.due.le target = true ∨
        t ∉ timersFired all ∧ target.lt t.due = true := by
  intro run past
  have begun : AlarmClock.Orderly start [] (AlarmClock.starting start) :=
    ⟨.starting time, .starting start⟩
  have orderly : AlarmClock.Orderly start past run.1 := begun.performAll calls
  obtain ⟨gone, -, -⟩ := List.pairwise_append.mp orderly.lined.row
  have once : ((timersFired past).map (·.serial)).Nodup := by
    have distinct : ((timersSet past).map (·.serial)).Nodup := by
      rw [orderly.lined.serials]
      exact List.nodup_range
    have row := (orderly.lined.kept.map (·.serial)).nodup_iff.mpr distinct
    rw [List.map_append] at row
    exact (List.nodup_append.mp row).1.sublist ((timersFired_sublist past).map _)
  refine ⟨orderly.lined.serials, gone.sublist (timersFired_sublist past), once,
    orderly.minded.spared, orderly.minded.punctual, orderly.lined.times, ?_⟩
  intro delay target next all
  obtain ⟨now, none⟩ := AlarmClock.moveTo_arrives target run.1
  have after : AlarmClock.Orderly start all next.1 := orderly.perform (.advance delay)
  have fired := after.all_fired (by rw [show next.1.clock.now = target from now]; exact none)
  rw [show next.1.clock.now = target from now] at fired
  exact ⟨AlarmClock.moveTo_ends target run.1, now, fired⟩

/-- The callback of the first timer sets one for the same instant and cancels the last. -/
theorem callbacks_set_and_cancel :
    let second := Alarm.ring "second" .zero []
    let first := Alarm.ring "first" (.ofInt 1) [.set second, .cancel "third"]
    let third := Alarm.ring "third" (.ofInt 2) []
    let calls : List AlarmClock.Call := [.act (.set third), .act (.set first), .advance (.ofInt 3)]
    let run := (AlarmClock.starting .zero).performAll calls
    Double.zero.IsTime ∧
    (timersFired run.2).map (·.payload.label) = ["first", "second"] ∧
    (timersFired run.2).Pairwise (fun t u => t.before u = true) ∧
    ((timersFired run.2).map (·.serial)).Nodup ∧
    (run.1.move .zero).1.clock.now = run.1.clock.after .zero := by
  intro second first third calls run
  have time : Double.zero.IsTime := by decide
  obtain ⟨-, ordered, once, -, -, -, advances⟩ := timers_fire_in_order time calls
  exact ⟨time, by decide +kernel, ordered, once, (advances .zero).2.1⟩

end Runloop
