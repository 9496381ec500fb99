/-
A clock that moves only when it is told to.  Timers wait in a queue ordered
by the time they are due and then by the order in which they were set; moving
the clock forward hands them out in that order, also those that are set on
the way.
-/
import Runloop.Descent
import Runloop.Double

namespace Runloop

/-- A timer that waits in the queue. -/
structure Timer (α : Type) where
  due : Double
  serial : Nat
  payload : α

/-- A clock with its queue of timers, the number of timers set so far, and
the serials of those that were cancelled. -/
structure Clock (α : Type) where
  now : Double
  queue : List (Timer α) := []
  issued : Nat := 0
  cancelled : List Nat := []

namespace Timer

variable {α : Type}

/-- Whether a timer comes before another: it is due earlier, or was set
earlier for the same time. -/
def before (a b : Timer α) : Bool :=
  a.due.lt b.due || (!b.due.lt a.due && a.serial < b.serial)

/-- Puts a timer in its place in an ordered queue. -/
def insert (t : Timer α) : List (Timer α) → List (Timer α)
  | [] => [t]
  | u :: rest => if t.before u then t :: u :: rest else u :: insert t rest

end Timer

namespace Clock

variable {α : Type}

def starting (now : Double) : Clock α := { now }

/-- The time a delay from now; a negative delay counts as none. -/
def after (c : Clock α) (delay : Double) : Double := c.now.add delay.clampNonneg

/-- Sets a timer and answers with it. -/
def set (c : Clock α) (delay : Double) (payload : α) : Clock α × Timer α :=
  let timer : Timer α := { due := c.after delay, serial := c.issued, payload }
  ({ c with queue := timer.insert c.queue, issued := c.issued + 1 }, timer)

/-- Cancels a timer, whether or not it still waits. -/
def cancel (c : Clock α) (serial : Nat) : Clock α :=
  { c with cancelled := serial :: c.cancelled }

def isCancelled (c : Clock α) (serial : Nat) : Bool := c.cancelled.contains serial

/-- How many timers wait and were not cancelled. -/
def pending (c : Clock α) : Nat :=
  (c.queue.filter fun t => !c.isCancelled t.serial).length

/-- Takes the first timer that is due by a time, and moves on to its due time. -/
def pop? (c : Clock α) (target : Double) : Option (Timer α × Clock α) :=
  match c.queue with
  | [] => none
  | t :: rest =>
    if t.due.le target then some (t, { c with now := c.now.max t.due, queue := rest }) else none

/-- Taking a timer leaves one less in the queue. -/
theorem length_pop? {c c' : Clock α} {target : Double} {t : Timer α}
    (h : c.pop? target = some (t, c')) : c'.queue.length < c.queue.length := by
  cases hq : c.queue with
  | nil => simp [pop?, hq] at h
  | cons u rest =>
    simp only [pop?, hq] at h
    split at h
    · cases h; simp
    · cases h

end Clock

/-! ## Alarms

Timers with callbacks, which set further timers and cancel timers. -/

/-- What a callback does: it sets an alarm, or it cancels the timer that a label names. -/
inductive ClockAct (α : Type) where
  | set (alarm : α)
  | cancel (label : String)

/-- A labelled timer, and what its callback does when its time has come. -/
inductive Alarm where
  | ring (label : String) (delay : Double) (acts : List (ClockAct Alarm))

namespace Alarm

/-- An alarm that sets further ones. -/
def mk (label : String) (delay : Double) (followers : List Alarm) : Alarm :=
  ring label delay (followers.map .set)

instance : Inhabited Alarm := ⟨.mk "" .zero []⟩

def label : Alarm → String
  | ring label _ _ => label

def delay : Alarm → Double
  | ring _ delay _ => delay

def acts : Alarm → List (ClockAct Alarm)
  | ring _ _ acts => acts

mutual

/-- The number of alarms, with all that follow. -/
def count : Alarm → Nat
  | ring _ _ acts => 1 + countActs acts

/-- The number of alarms that some acts set, with all that follow. -/
def countActs : List (ClockAct Alarm) → Nat
  | [] => 0
  | .set a :: rest => a.count + countActs rest
  | .cancel _ :: rest => countActs rest

end

end Alarm

/-- What happens on a clock. -/
inductive Happening where
  | set (timer : Timer Alarm)
  | cancelled (serial : Nat)
  | fired (timer : Timer Alarm)
  /-- A timer came due that was cancelled. -/
  | dropped (timer : Timer Alarm)
  /-- The clock came to the time it was moved to. -/
  | arrived

/-- Something that happens, and the time that the clock shows. -/
structure Moment where
  now : Double
  what : Happening

/-- The label of a timer that fires, and the time. -/
def Moment.fired? (m : Moment) : Option (String × Double) :=
  match m.what with
  | .fired timer => some (timer.payload.label, m.now)
  | _ => none

/-- A clock of labelled alarms; a label names the alarm set last under it. -/
structure AlarmClock where
  clock : Clock Alarm
  handles : List (String × Nat) := []

namespace AlarmClock

def starting (now : Double) : AlarmClock := { clock := .starting now }

/-- Sets an alarm and answers with the time it is due. -/
def set (c : AlarmClock) (a : Alarm) : AlarmClock × Double :=
  let (clock, timer) := c.clock.set a.delay a
  let others := c.handles.filter (·.1 ≠ a.label)
  ({ clock, handles := (a.label, timer.serial) :: others }, timer.due)

/-- The timer that a label names. -/
def handle? (c : AlarmClock) (label : String) : Option Nat :=
  (c.handles.find? (·.1 = label)).map (·.2)

def cancel (c : AlarmClock) (label : String) : AlarmClock :=
  match c.handle? label with
  | some serial => { c with clock := c.clock.cancel serial }
  | none => c

def isCancelled (c : AlarmClock) (label : String) : Bool :=
  (c.handle? label).any c.clock.isCancelled

/-- Does an act, and tells what happens. -/
def act (c : AlarmClock) : ClockAct Alarm → AlarmClock × List Moment
  | .set a => ((c.set a).1, [⟨c.clock.now, .set (c.clock.set a.delay a).2⟩])
  | .cancel label =>
    match c.handle? label with
    | some serial => (c.cancel label, [⟨c.clock.now, .cancelled serial⟩])
    | none => (c, [])

def actAll (c : AlarmClock) : List (ClockAct Alarm) → AlarmClock × List Moment
  | [] => (c, [])
  | a :: rest =>
    let (c, first) := c.act a
    let (c, more) := c.actAll rest
    (c, first ++ more)

/-- A turn on the way to a time: the first timer that is due leaves the queue, the clock
moves on to its time, and its callback runs, unless it was cancelled. -/
def turn? (target : Double) (c : AlarmClock) : Option (AlarmClock × List Moment) :=
  match c.clock.pop? target with
  | none => none
  | some (timer, clock) =>
    if clock.isCancelled timer.serial then
      some ({ c with clock }, [⟨clock.now, .dropped timer⟩])
    else
      let (c, moments) := actAll { c with clock } timer.payload.acts
      some (c, ⟨clock.now, .fired timer⟩ :: moments)

/-- How many alarms may still go off, those in the queue and those that follow. -/
def potential (c : AlarmClock) : Nat := total (c.clock.queue.map (·.payload.count))

theorem total_insert (timer : Timer Alarm) (queue : List (Timer Alarm)) :
    total ((timer.insert queue).map (·.payload.count)) =
      timer.payload.count + total (queue.map (·.payload.count)) := by
  induction queue with
  | nil => rfl
  | cons u rest ih =>
    unfold Timer.insert
    split
    · rfl
    · simp only [List.map_cons, total, ih]
      omega

theorem potential_actAll (acts : List (ClockAct Alarm)) (c : AlarmClock) :
    (c.actAll acts).1.potential = c.potential + Alarm.countActs acts := by
  induction acts generalizing c with
  | nil => rfl
  | cons a rest ih =>
    have later : (c.actAll (a :: rest)).1 = ((c.act a).1.actAll rest).1 := rfl
    rw [later, ih]
    cases a with
    | set a =>
      have one : (c.act (.set a)).1.potential = a.count + c.potential := total_insert _ _
      rw [one, Alarm.countActs]
      omega
    | cancel label =>
      have same : (c.act (.cancel label)).1.potential = c.potential := by
        cases named : c.handle? label with
        | none => simp only [act, named]
        | some serial => simp only [act, cancel, named, potential, Clock.cancel]
      rw [same, Alarm.countActs]

/-- Every turn leaves fewer alarms to go off. -/
theorem potential_turn? {c c' : AlarmClock} {target : Double} {moments : List Moment}
    (h : c.turn? target = some (c', moments)) : c'.potential < c.potential := by
  unfold turn? Clock.pop? at h
  cases hq : c.clock.queue with
  | nil =>
    rw [hq] at h
    cases h
  | cons timer rest =>
    have whole : c.potential = timer.payload.count + total (rest.map (·.payload.count)) := by
      rw [potential, hq, List.map_cons, total]
    have own : timer.payload.count = 1 + Alarm.countActs timer.payload.acts := by
      cases timer.payload with
      | ring => rfl
    rw [hq] at h
    dsimp only at h
    split at h
    · cases h
    · rename_i popped
      split at popped
      · cases popped
        split at h
        · cases h
          rw [whole, own]
          show total (rest.map (·.payload.count)) < _
          omega
        · cases h
          rw [potential_actAll, whole, own]
          show total (rest.map (·.payload.count)) + _ < _
          omega
      · cases popped

/-- Moves the clock to a time, turn by turn. -/
def moveTo (target : Double) (c : AlarmClock) : AlarmClock × List Moment :=
  match _h : c.turn? target with
  | none => ({ c with clock := { c.clock with now := target } }, [⟨target, .arrived⟩])
  | some (c', moments) =>
    let (c'', more) := moveTo target c'
    (c'', moments ++ more)
termination_by c.potential
decreasing_by exact potential_turn? _h

/-- Moves the clock forward by a delay. -/
def move (c : AlarmClock) (delay : Double) : AlarmClock × List Moment :=
  c.moveTo (c.clock.after delay)

/-- Moves the clock forward and lists what went off on the way, with the times. -/
def advance (c : AlarmClock) (delay : Double) : AlarmClock × List (String × Double) :=
  let (c, moments) := c.move delay
  (c, moments.filterMap Moment.fired?)

/-! ## Calls -/

/-- A call of a clock: an act, or one of the three ways to let time pass. -/
inductive Call where
  | act (act : ClockAct Alarm)
  | advance (delay : Double)
  | elapse (delay : Double)
  | sleep (delay : Double)

/-- To elapse and to sleep is to advance; whoever sleeps gives others a turn behind that. -/
def perform (c : AlarmClock) : Call → AlarmClock × List Moment
  | .act act => c.act act
  | .advance delay | .elapse delay | .sleep delay => c.move delay

def performAll (c : AlarmClock) : List Call → AlarmClock × List Moment
  | [] => (c, [])
  | call :: rest =>
    let (c, first) := c.perform call
    let (c, more) := c.performAll rest
    (c, first ++ more)

end AlarmClock

end Runloop
