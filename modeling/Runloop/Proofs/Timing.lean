/-
# What depends on timers alone

Most of what a program does leaves its timers as they are (`Session.Idles`); one
kind of instruction queues a task and sets the timer for it (`Session.Starts`),
and time passes.  A property of sessions that all of these keep (`Session.Timing`)
is therefore kept by whatever a step or a turn of a run does, as long as the
program is not over (`Timing.strides`).  A timer that cannot be set is a fault, and
a fault ends the program: then a task may be left without its timer.
-/
import Runloop.Proofs.Callbacks
import Runloop.Proofs.Timers

namespace Runloop

open Relation (ReflTransGen)

namespace Session

/-- From `s` to `t` the journal has only grown. -/
def Tells (s t : Session) : Prop := s.journal <:+ t.journal

instance : IsPreorder Session Tells where
  refl s := List.suffix_refl s.journal
  trans _ _ _ := List.IsSuffix.trans

theorem publish_tells {α : Type} (s : Session) (c : Change α) : s.Tells (s.publish c) := by
  unfold Tells
  rw [publish_journal]
  exact List.suffix_append _ _

/-- From `s` to `t` nothing has happened to timers. -/
structure Idles (s t : Session) : Prop where
  clock : t.clock = s.clock
  realtime : t.realtime = s.realtime
  speed : t.store.speed = s.store.speed
  timers : t.store.state.loop.timers = s.store.state.loop.timers
  tells : s.Tells t

theorem Idles.refl (s : Session) : s.Idles s := ⟨rfl, rfl, rfl, rfl, refl_of Tells s⟩

theorem Idles.trans {s t u : Session} (h : s.Idles t) (h' : t.Idles u) : s.Idles u where
  clock := h'.clock.trans h.clock
  realtime := h'.realtime.trans h.realtime
  speed := h'.speed.trans h.speed
  timers := h'.timers.trans h.timers
  tells := trans_of Tells h.tells h'.tells

theorem Idles.publish {α : Type} {s : Session} {c : Change α}
    (speed : c.store.speed = s.store.speed)
    (timers : c.store.state.loop.timers = s.store.state.loop.timers) : s.Idles (s.publish c) where
  clock := publish_clock ..
  realtime := publish_realtime ..
  speed := by rwa [publish_store]
  timers := by rwa [publish_store]
  tells := s.publish_tells c

/-- From `s` to `t` a task was queued and its timer set, which waits for the delay
of the task or for the pacing delay, whichever is shorter. -/
structure Starts (s : Session) (task : Task) (t : Session) : Prop where
  clock : ∃ delay, Number.quotient (min task.spec.delay s.store.speed) 1000 = .ok delay ∧
    t.clock = (s.clock.set delay task.id).1
  realtime : t.realtime = s.realtime
  speed : t.store.speed = s.store.speed
  timers : t.store.state.loop.timers = s.store.state.loop.timers ++ [task]
  tells : s.Tells t
  told : .eventLoop .addTimer (some task)
    { s.store.state.loop with timers := s.store.state.loop.timers ++ [task] } ∈ t.journal

/-- A property that depends on timers alone and outlasts what happens to them. -/
structure Timing (I : Session → Prop) : Prop where
  idle : ∀ {s t : Session}, I s → s.Idles t → I t
  start : ∀ {s t : Session} {task : Task}, I s → s.Starts task t → I t
  wait : ∀ {s : Session} {delay : Double}, s.Live → Number.quotient s.store.speed 1000 = .ok delay →
    I s → I ((Act.fireUntil Act.plain (s.clock.after delay)).run s).2

end Session

/-! ## Code -/

namespace Act

variable {α β : Type} {I : Session → Prop}

/-- Unless the computation faults, it keeps a property of sessions. -/
def Upholds (I : Session → Prop) (act : Act α) : Prop :=
  ∀ s, I s → Ends act s (fun _ t => I t) (fun _ _ => True)

theorem Upholds.pure (a : α) : Upholds I (Pure.pure a) := fun _ hs => hs

theorem Upholds.bind {x : Act α} {f : α → Act β} (hx : Upholds I x) (hf : ∀ a, Upholds I (f a)) :
    Upholds I (x >>= f) := by
  intro s hs
  rw [ends_bind]
  exact (hx s hs).mono (fun a t ht => hf a t ht) fun _ _ h => h

theorem Upholds.machine {f : Machine → Act α} (h : ∀ m, Upholds I (f m)) :
    Upholds I (Act.machine >>= f) :=
  fun s hs => h s.machine s hs

theorem Upholds.inside {calls : List Call} {body : Act α} (h : Upholds I body) :
    Upholds I (inside plain calls body) :=
  fun s hs => ends_inside (h s hs)

theorem kept_idles {l : Licence} (hl : l.starts = false) (s : Session) : Kept l s.Idles where
  publish edits h := h.trans (.publish edits.speed (edits.waiting hl))
  note _ h := ⟨h.clock, h.realtime, h.speed, h.timers, h.tells⟩
  compile _ _ h := ⟨h.clock, h.realtime, h.speed, h.timers, h.tells⟩
  timer may := absurd (may.symm.trans hl) (by simp)
  count _ := fun h => h.trans (.publish rfl rfl)

/-- Code that sets no timer. -/
theorem Coded.idles {l : Licence} {act : Act α} (h : Coded record l act) (hl : l.starts = false)
    (s : Session) : Ends act s (fun _ t => s.Idles t) (fun _ t => s.Idles t) :=
  h.keeps (kept_idles hl s) s (.refl s)

/-- A number fault ends the computation, and a number is what it goes on with. -/
theorem Ends.number {s : Session} {r : Except NumberFault β} {f : β → Act α}
    {Q : α → Session → Prop} {E : Fault → Session → Prop}
    (ok : ∀ b, r = .ok b → Ends (f b) s Q E)
    (error : ∀ fault, r = .error fault → E (.number fault) s) :
    Ends (Act.number r >>= f) s Q E := by
  rw [ends_bind, ends_number]
  cases r with
  | ok b => exact ok b rfl
  | error fault => exact error fault rfl

theorem ends_startTimer (scope : String) (callback : Callback) (delay : Int) (s : Session) :
    Ends (startTimer plain scope callback delay) s (fun _ t => ∃ task, s.Starts task t)
      (fun _ _ => True) := by
  suffices starts : ∀ (spec : TaskSpec) (text : String), spec.delay = delay → Ends (do
      let task ← change plain fun s now => s.addTimer spec now
      info plain text
      let wait ← number (Number.quotient (min delay (← store).speed) 1000)
      modify fun s => s.timing wait task.id) s (fun _ t => ∃ task, s.Starts task t)
      (fun _ _ => True) from starts _ _ rfl
  rintro spec text rfl
  let t := s.publish (s.store.addTimer spec s.now)
  let c : Change Unit := t.store.logConsole "info" [text] t.now
  have clock : (t.publish c).clock = s.clock :=
    (Session.publish_clock ..).trans (Session.publish_clock ..)
  have store : (t.publish c).store = (s.store.addTimer spec s.now).store := by
    rw [Session.publish_store]
    exact Session.publish_store ..
  have realtime : (t.publish c).realtime = s.realtime :=
    (Session.publish_realtime ..).trans (Session.publish_realtime ..)
  have tells : s.Tells (t.publish c) :=
    trans_of Session.Tells (s.publish_tells _) (t.publish_tells c)
  have told : .eventLoop .addTimer (some (s.store.addTimer spec s.now).value)
      (s.store.addTimer spec s.now).store.state.loop ∈ (t.publish c).journal := by
    refine (t.publish_tells c).subset ?_
    rw [Session.publish_journal]
    exact List.mem_cons_self
  have logs : (info plain text).run t = (.ok ⟨⟩, t.publish c) := run_log ..
  rw [ends_bind, ends_change, ends_bind]
  refine .of_answer logs ?_
  rw [ends_bind, ends_store]
  refine .number (fun wait quotient => ?_) fun _ _ => trivial
  rw [ends_modify]
  have waits : ∃ delay, Number.quotient (min spec.delay s.store.speed) 1000 = .ok delay ∧
      ((t.publish c).timing wait (s.store.addTimer spec s.now).value.id).clock =
        (s.clock.set delay (s.store.addTimer spec s.now).value.id).1 := by
    rw [store] at quotient
    exact ⟨wait, quotient, by rw [Session.timing, clock]⟩
  refine ⟨(s.store.addTimer spec s.now).value, waits, realtime, ?_, ?_, tells, told⟩
  · show (t.publish c).store.speed = _
    rw [store]
    rfl
  · show (t.publish c).store.state.loop.timers = _
    rw [store]
    rfl

end Act

namespace Session.Timing

open Act

variable {α : Type} {I : Session → Prop} (k : Timing I)

include k

theorem coded {act : Act α} (h : Coded record ⟨true, true, false, true⟩ act) : Upholds I act := by
  intro s hs
  exact (h.idles rfl s).mono (fun _ t idles => k.idle hs idles) fun _ _ _ => trivial

theorem startTimer (scope : String) (callback : Callback) (delay : Int) :
    Upholds I (startTimer plain scope callback delay) := by
  intro s hs
  refine (ends_startTimer scope callback delay s).mono ?_ fun _ _ h => h
  rintro _ t ⟨task, starts⟩
  exact k.start hs starts

theorem perform (scope : String) (i : Instruction) : Upholds I (perform plain scope i) := by
  cases i with
  | timer callback delay line => exact (k.startTimer scope callback delay).bind fun _ => .pure _
  | _ => exact k.coded (coded_perform (by simp [Instruction.sets]) rfl scope)

theorem execute (scope : String) (i : Instruction) : Upholds I (execute plain scope i) := by
  rw [execute_eq]
  exact (k.coded (coded_arrive rfl i)).bind fun _ => k.perform scope i

theorem runBody (call : Call) (callers : List Caller) (base : Base) (is : List Instruction) :
    Upholds I (runBody plain call callers base is) := by
  cases is with
  | nil => exact k.coded (coded_leave rfl call callers base .undefined)
  | cons i rest =>
      refine (k.execute call.scope i).inside.bind fun r => ?_
      cases r <;> exact .pure _

/-- A segment that comes to a pause or to the end keeps the property. -/
theorem runSegment (work : Work) : Upholds I (runSegment plain work) := by
  cases work with
  | instruction i =>
      refine .machine fun m => (k.execute _ i).bind fun r => ?_
      cases r <;> exact .pure _
  | pass => exact k.coded (coded_taking rfl rfl)
  | inCall call point callers base =>
      cases point with
      | entered body =>
          exact (k.coded (.compile body)).inside.bind fun is => k.runBody call callers base is
      | between returned rest =>
          cases returned with
          | some v => exact k.coded (coded_leave rfl call callers base v)
          | none => exact k.runBody call callers base rest
  | atPass point =>
      cases point with
      | beforeMicrotask task round => exact k.coded (coded_startTask task _)
      | beforeCallback task => exact k.coded (coded_startTask task _)
      | idle => exact .pure _
      | afterMicrotask round => exact k.coded (coded_taking rfl rfl)
      | afterCallback => exact k.coded (coded_taking rfl rfl)

/-! ## Steps and turns -/

variable {s t : Session}

theorem advance {u : UnitOfWork} (st : Steady s) (hu : s.machine.unit = some u) (hs : I s)
    (on : ((advance plain).run s).2.phase ≠ .completed) : I ((advance plain).run s).2 := by
  have working : I (s.working u) := k.idle hs ⟨rfl, rfl, rfl, rfl, refl_of Tells s⟩
  rcases advance_cases st hu with ⟨-, -, t, -, run, -, -, completed⟩ | ⟨p, v, segment, -, run⟩
  · rw [run] at on
    exact absurd completed on
  · rw [run]
    have kept : I v := (k.runSegment u.work (s.working u) working).of_ok segment
    exact k.idle kept ⟨rfl, rfl, rfl, rfl, refl_of Tells v⟩

/-- What is done with a program keeps the property until the program is over. -/
theorem stride (live : s.Live) (d : Stride s t) (hs : s.phase ≠ .completed → I s)
    (on : t.phase ≠ .completed) : I t := by
  cases d with
  | phase next before =>
      rename_i phase
      let u : Session := { s with machine := { s.machine with phase } }
      have turned : s.Idles u := ⟨rfl, rfl, rfl, rfl, refl_of Tells s⟩
      have shown : u.Idles ((setPhase plain phase).run s).2 := .publish (c := u.store.setExecution
        (phase == .running || phase == .paused) (phase == .paused)) rfl rfl
      exact k.idle (hs before) (turned.trans shown)
  | seat gate openings runActive => exact k.idle (hs on) ⟨rfl, rfl, rfl, rfl, refl_of Tells s⟩
  | wait before speed => exact k.wait live speed (hs before)
  | take before hu => exact k.idle (hs before) ⟨rfl, rfl, rfl, rfl, refl_of Tells s⟩
  | advance before hu => exact k.advance (live.steady before) hu (hs before) on
  | finish before more =>
      obtain ⟨_, w, run, -, -, -, completed⟩ :=
        (ends_finish (E := fun _ _ => False) (live.unit_of_hasMore before more)).exists_ok
      rw [run] at on
      exact absurd completed on

theorem strides (live : s.Live) (d : Strides s t) (hs : s.phase ≠ .completed → I s) :
    t.phase ≠ .completed → I t := by
  induction d with
  | refl => exact hs
  | tail path d ih => exact k.stride (Strides.live live path) d ih

end Session.Timing

end Runloop
