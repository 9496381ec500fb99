/-
# Faults are contained

Whatever goes wrong while a unit of work runs, however deep inside its calls, is
caught at one place: the program is over then, nothing of its calls is left, and
the console says what went wrong (`Session.Faulted`).  Whoever drives the program
is told no more than that no work is left (`faults_are_contained`).
-/
import Runloop.Proofs.Ending
import Runloop.Proofs.Unwinding

namespace Runloop

open Relation (ReflTransGen)

/-! ## The end of a program -/

namespace Session

variable {s t : Session} {fault : Fault}

/-- The session with its program ended. -/
def concluded (s : Session) : Session :=
  let s := { s with machine := { s.machine with unit := none, phase := .completed } }
  let s := s.publish (s.store.setCurrentLine (-1))
  let s := s.publish (s.store.setExecution false false)
  s.publish (s.store.logConsole "info" ["Execution completed"] s.now)

/-- A fault has ended the program: it is inside of no call any more, and the last
that the console says is what went wrong and that the program is over. -/
structure Faulted (fault : Fault) (s : Session) : Prop where
  completed : s.phase = .completed
  still : s.store.state.isRunning = false ∧ s.store.state.isPaused = false
  line : s.store.state.currentLine = -1
  unwound : s.Unwound
  console : ∃ before sooner later, s.console = before ++
    [⟨"error", [fault.report], sooner⟩, ⟨"info", ["Execution completed"], later⟩]

theorem Faulted.vacated (h : s.Faulted fault) : s.vacated.Faulted fault :=
  ⟨h.completed, h.still, h.line, ⟨h.unwound.frames, h.unwound.depth, h.unwound.receivers⟩, h.console⟩

theorem console_log (attached : s.attached = true) (type : String) (args : List String) :
    (s.publish (s.store.logConsole type args s.now)).console =
      s.console ++ [⟨type, args, s.now⟩] := by
  show (noted s (.console ⟨type, args, s.now⟩)).console = _
  unfold noted
  dsimp only
  rw [if_pos attached]
  exact console_cons ..

theorem concluded_store : s.concluded.store =
    ((s.store.setCurrentLine (-1)).store.setExecution false false).store := by
  unfold concluded
  simp only [publish_store, Store.logConsole]

theorem concluded_machine :
    s.concluded.machine = { s.machine with unit := none, phase := .completed } := by
  unfold concluded
  simp only [publish_machine]

theorem concluded_console (attached : s.attached = true) :
    s.concluded.console = s.console ++ [⟨"info", ["Execution completed"], s.now⟩] :=
  console_log (s := (({ s with machine := _ } : Session).publish
    (s.store.setCurrentLine (-1))).publish (Store.setExecution _ false false)) attached ..

/-- The session with its program ended by a fault. -/
def broken (s : Session) (fault : Fault) : Session :=
  ((s.holding none).publish (s.store.logConsole "error" [fault.report] s.now)).concluded

theorem broken_store : (s.broken fault).store =
    ((s.store.setCurrentLine (-1)).store.setExecution false false).store := by
  rw [broken, concluded_store, publish_store]
  rfl

theorem broken_machine :
    (s.broken fault).machine = { s.machine with unit := none, phase := .completed } := by
  rw [broken, concluded_machine, publish_machine]
  rfl

theorem broken_console (attached : s.attached = true) : (s.broken fault).console = s.console ++
    [⟨"error", [fault.report], s.now⟩, ⟨"info", ["Execution completed"], s.now⟩] := by
  have told := console_log (s := s.holding none) attached "error" [fault.report]
  have now : ((s.holding none).publish
      (s.store.logConsole "error" [fault.report] s.now)).now = s.now :=
    congrArg Clock.now (publish_clock ..)
  have listens : ((s.holding none).publish
      (s.store.logConsole "error" [fault.report] s.now)).attached = true :=
    (publish_attached ..).trans attached
  rw [broken, concluded_console listens, now]
  exact (congrArg (· ++ _) told).trans (List.append_assoc ..)

end Session

namespace Act

variable {s t : Session} {u : UnitOfWork} {fault : Fault}

theorem run_finish (hu : s.machine.unit = none) :
    (finish plain).run s = (.ok ⟨⟩, s.concluded) := by
  have closed : (closeUnit plain).run s = (.ok ⟨⟩, s.holding none) :=
    run_closeUnit_of_running (by simp [hu])
  unfold finish
  rw [run_bind_ok closed]
  rfl

/-- What comes of a segment that faults. -/
theorem run_afterSegment_error (m : t.machine.driven = (s.working u).machine.driven) :
    (afterSegment plain u s.machine.generation (.error fault)).run t =
      (.ok false, t.broken fault) := by
  have generation : t.machine.generation = s.machine.generation :=
    (congrArg Machine.generation m :)
  have drops : (modifyMachine fun m => { m with unit := none }).run t =
      (.ok ⟨⟩, t.holding none) := rfl
  have tells : (error plain fault.report).run (t.holding none) = (.ok ⟨⟩, (t.holding none).publish
      (t.store.logConsole "error" [fault.report] t.now)) := run_log ..
  have finishes : (finish plain).run ((t.holding none).publish
      (t.store.logConsole "error" [fault.report] t.now)) = (.ok ⟨⟩, t.broken fault) := by
    refine run_finish ?_
    rw [Session.publish_machine]
    rfl
  unfold afterSegment failUnit
  rw [run_bind_ok (t := t.broken fault) (a := ⟨⟩)]
  · rfl
  · rw [run_machine_bind, if_pos generation, run_bind_ok drops, run_bind_ok tells, finishes]

end Act

theorem Stride.attached {s t : Session} (live : s.Live) (d : Stride s t) :
    t.attached = s.attached := by
  cases d with
  | phase _ _ => rw [Act.run_setPhase]; rfl
  | seat | take => rfl
  | wait _ _ => exact s.waited_attached _
  | @advance u on hu =>
      have untouched := (Act.coded_plainSegment u.work).untouched (s.working u)
      rcases Act.advance_cases (live.steady on) hu with
        ⟨fault, v, t, segment, run, beside, -⟩ | ⟨p, v, segment, -, run⟩
      · rw [run]
        exact beside.attached.trans (untouched.of_error segment).attached
      · rw [run]
        exact (untouched.of_ok segment).attached
  | finish on more =>
      obtain ⟨_, t, run, beside, -⟩ :=
        (Act.ends_finish (E := fun _ _ => False) (live.unit_of_hasMore on more)).exists_ok
      rw [run]
      exact beside.attached

theorem Strides.attached {s t : Session} (live : s.Live) (d : Strides s t) :
    t.attached = s.attached := by
  induction d with
  | refl => rfl
  | tail path d ih => exact (d.attached (Strides.live live path)).trans ih

namespace Session

open Act

variable {s t : Session} {delay : Double} {u : UnitOfWork} {fault : Fault}

/-- A segment that faults ends the program. -/
theorem Live.advance_faults (live : s.Live) (on : s.phase ≠ .completed)
    (attached : s.attached = true) (hu : s.machine.unit = some u)
    (faults : s.segmentFault u = some fault) :
    ∃ t, (advance plain).run s = (.ok false, t) ∧ t.Faulted fault := by
  have st := live.steady on
  have untouched := (coded_plainSegment u.work).untouched (s.working u)
  have run : (advance plain).run s = _ := run_advance hu (st.waits u hu)
  unfold segmentFault at faults
  rcases segment : ((runSegment plain u.work).run (s.working u) : Except Fault Progress × Session)
    with ⟨fault' | p, v⟩
  · rw [segment] at faults run
    cases faults
    have same := untouched.of_error segment
    dsimp only at run
    rw [run_afterSegment_error same.driven] at run
    refine ⟨_, run, ?_, ?_, ?_, ?_, _, _, _, broken_console (same.attached.trans attached)⟩
    · rw [phase, broken_machine]
    · rw [broken_store]
      exact ⟨rfl, rfl⟩
    · rw [broken_store]
      rfl
    · -- how the calls were left is known of every program that is reached
      obtain ⟨why, reached⟩ := live
      have ended := reached.drive (.advance on hu)
      rw [run] at ended
      obtain ⟨spilt, held, -⟩ := ended.held (by rw [broken_machine])
      exact held.unwound
  · rw [segment] at faults
    cases faults

/-! ## Steps -/

/-- The sessions that a unit of work comes by, each before one of its segments. -/
inductive Comes (delay : Double) : Session → Session → Prop
  | here (s : Session) : Comes delay s s
  | pauses {s t v : Session} : (advance plain).run s = (.ok true, t) →
      Comes delay (t.elapsed delay) v → Comes delay s v

/-- A unit of work that faults on its way ends the program. -/
theorem Works.faults {v : Session} (w : Works delay s t) (c : Comes delay s v)
    (busy : s.Busy delay) (attached : s.attached = true) (hu : v.machine.unit = some u)
    (faults : v.segmentFault u = some fault) : t.Faulted fault := by
  induction c with
  | here v =>
      obtain ⟨t', run, faulted⟩ := busy.paced.live.advance_faults busy.on attached hu faults
      cases w with
      | ends run' => cases run.symm.trans run'; exact faulted
      | pauses run' => cases run.symm.trans run'
  | @pauses s t' v run _ ih =>
      obtain ⟨_, _, run', stride, -, -, pauses, -⟩ := busy.advance
      cases run.symm.trans run'
      obtain ⟨still, paced, next, -⟩ := pauses rfl
      have path : Strides s (t'.elapsed delay) := .head stride (paced.elapsed_strides still)
      cases w with
      | ends run' => cases run.symm.trans run'
      | pauses run' works =>
          cases run.symm.trans run'
          exact ih works next ((path.attached busy.paced.live).trans attached) hu faults

/-- A step answers, and answers that no work is left when a fault has ended the
program. -/
theorem Paced.step_faults (h : s.Paced delay) (attached : s.attached = true)
    (on : s.phase ≠ .completed) (may : s.Steppable) {v : Session}
    (comes : Comes delay s.held.ready v) (hu : v.machine.unit = some u)
    (faults : v.segmentFault u = some fault) :
    ∃ t, s.control .step = (.ok (.bool false), t) ∧ t.Faulted fault := by
  obtain ⟨t, works, run⟩ := run_step h on may
  have path : Strides s s.held.ready := (held_strides on).trans (ready_strides (held_phase on))
  have busy := (h.strides (held_strides on)).ready (held_phase on)
  have faulted := works.faults comes busy ((path.attached h.live).trans attached) hu faults
  rw [settled, if_pos faulted.completed] at run
  exact ⟨t, control_step h.live run, faulted⟩

theorem Paced.step_answers (h : s.Paced delay) (may : s.Steppable) :
    ∃ more t, s.control .step = (.ok (.bool more), t) := by
  by_cases completed : s.phase = .completed
  · exact ⟨_, _, control_step h.live (run_step_completed h.live completed)⟩
  · obtain ⟨t, -, run⟩ := run_step h completed may
    exact ⟨_, _, control_step h.live run⟩

/-! ## Runs -/

/-- The session with which a run goes on in its next segment. -/
inductive Resumes (s : Session) : RunState → Session → Prop
  | begins (direct : Bool) : s.machine.runActive = false → Resumes s (.created direct) s.seated
  | goesOn : s.phase = .running → Resumes s (.sleeping s.machine.generation) s
  | released (openings : Nat) : s.phase = .running →
      Resumes s (.waiting s.machine.generation openings) s

theorem Resumes.strides {state : RunState} (r : s.Resumes state t) (on : s.phase ≠ .completed) :
    Strides s t ∧ t.phase = .running := by
  cases r with
  | begins direct free => exact ⟨seated_strides on, rfl⟩
  | goesOn running => exact ⟨.refl, running⟩
  | released openings running => exact ⟨.refl, running⟩

theorem Resumes.segment {state : RunState} (r : s.Resumes state t) (h : s.Paced delay)
    (on : s.phase ≠ .completed) : s.segment state = t.ran delay := by
  cases r with
  | begins direct free => exact h.segment_created on free direct
  | goesOn running => exact h.segment_sleeping on (by simp [running])
  | released openings running => exact h.segment_sleeping on (by simp [running])

/-- A run whose segment faults is over, and so is the program. -/
theorem Paced.segment_faults (h : s.Paced delay) (attached : s.attached = true)
    (on : s.phase ≠ .completed) {state : RunState} (r : s.Resumes state t)
    (more : t.hasMore = true) (hu : t.ready.machine.unit = some u)
    (faults : t.ready.segmentFault u = some fault) :
    ∃ v, s.segment state = (.finished none, v) ∧ v.Faulted fault := by
  obtain ⟨path, running⟩ := r.strides on
  have still : t.phase ≠ .completed := by simp [running]
  have ready : Strides s t.ready := path.trans (ready_strides still)
  obtain ⟨v, run, faulted⟩ := (ready.live h.live).advance_faults (t.ready_phase ▸ still)
    ((ready.attached h.live).trans attached) hu faults
  refine ⟨v.vacated, ?_, faulted.vacated⟩
  have turned : t.turned delay = (false, v) := by
    unfold Session.turned
    rw [if_pos more, run]
    exact if_pos faulted.completed
  rw [r.segment h on, ran, turned]
  rfl

/-- A run that is void, or whose program is over, ends. -/
theorem segment_over (live : s.Live) {generation : Nat}
    (void : s.machine.generation ≠ generation ∨ s.phase = .completed) :
    (s.segment (.sleeping generation)).1 = .finished none := by
  have completed : (isOver generation).run s = (.ok true, s) := by
    rw [run_isOver]
    rcases void with void | void <;> simp [void]
  have waits : ¬ (s.machine.phase = .paused ∧ s.machine.generation = generation) := by
    rintro ⟨paused, same⟩
    rcases void with void | void
    · exact void same
    · exact nomatch paused.symm.trans void
  have turn : (runTurn plain generation).run s = (.ok false, s) := by
    unfold runTurn
    rw [run_bind_ok completed]
    rfl
  have guarded : (tryCatch (runTurn plain generation) fun fault => do
      leaveRun generation
      throw fault : Act Bool).run s = (.ok false, s) := by
    rw [run_tryCatch, turn]
  have ends : (Act.segment plain (.sleeping generation)).run s =
      (.ok (.finished none), ((leaveRun generation).run s).2) := by
    show (continueRun plain generation).run s = _
    unfold continueRun guardedTurn
    rw [run_machine_bind, if_neg (by simpa using waits), run_bind_ok guarded]
    rfl
  rw [live.segment_of_ok ends]

theorem ran_answers (s : Session) (delay : Double) (fault : Fault) :
    (s.ran delay).1 ≠ .finished (some fault) := by
  unfold ran
  split <;> exact nofun

/-- No segment of a run faults that has begun. -/
theorem Paced.sleeping_answers (h : s.Paced delay) (generation : Nat) (fault : Fault) :
    (s.segment (.sleeping generation)).1 ≠ .finished (some fault) := by
  by_cases void : s.machine.generation ≠ generation ∨ s.phase = .completed
  · rw [segment_over h.live void]
    exact nofun
  · obtain ⟨rfl, on⟩ : s.machine.generation = generation ∧ s.phase ≠ .completed := by
      simpa [not_or] using void
    by_cases paused : s.phase = .paused
    · have paused : s.machine.phase = .paused := paused
      have waits : (Act.segment plain (.sleeping s.machine.generation)).run s =
          (.ok (.waiting s.machine.generation s.machine.openings), s) := by
        show (continueRun plain s.machine.generation).run s = _
        unfold continueRun
        rw [run_machine_bind, if_pos (by simp [paused])]
        rfl
      rw [h.live.segment_of_ok waits]
      exact nofun
    · rw [h.segment_sleeping on paused]
      exact s.ran_answers delay fault

/-- Nor does the first one, but a run is refused if there is another one. -/
theorem Paced.created_answers (h : s.Paced delay) (direct : Bool) (fault : Fault)
    (faults : (s.segment (.created direct)).1 = .finished (some fault)) :
    s.machine.runActive = true ∧ fault = .lifecycle .alreadyRunning := by
  by_cases completed : s.phase = .completed
  · rw [h.live.segment_created completed] at faults
    cases faults
  · cases active : s.machine.runActive with
    | false =>
        rw [h.segment_created completed active] at faults
        exact absurd faults (s.seated.ran_answers delay fault)
    | true =>
        have completed : s.machine.phase ≠ .completed := completed
        have refused : (Act.segment plain (.created direct)).run s =
            (.error (.lifecycle .alreadyRunning), s) := by
          show (beginRun plain direct).run s = _
          unfold beginRun
          rw [run_machine_bind, h.live.loaded, active]
          simp only [Bool.not_true, Bool.false_eq_true, if_false, completed, if_true]
          rfl
        unfold Session.segment at faults
        rw [run_eq h.live.hooks, refused] at faults
        cases faults
        exact ⟨rfl, rfl⟩

/-- A run is refused if there is another one; otherwise no segment of it faults. -/
theorem Paced.segment_answers (h : s.Paced delay) {state : RunState}
    (faults : (s.segment state).1 = .finished (some fault)) :
    state = .finished (some fault) ∨
      s.machine.runActive = true ∧ fault = .lifecycle .alreadyRunning := by
  cases state with
  | created direct => exact .inr (h.created_answers direct fault faults)
  | sleeping generation => exact absurd faults (h.sleeping_answers generation fault)
  | waiting generation openings => exact absurd faults (h.sleeping_answers generation fault)
  | finished fault? =>
      have same : (Act.segment plain (.finished fault?)).run s = (.ok (.finished fault?), s) := rfl
      rw [h.live.segment_of_ok same] at faults
      exact .inl faults

/-! ## Programs -/

/-- What happens to a session: it is driven, its pacing delay is set, and in real
time timers come due, and fire. -/
inductive Happens (s : Session) : Session → Prop
  | driven {t : Session} : s.Drives t → Happens s t
  | speed (speed : Int) : Happens s (s.control (.setSpeed speed)).2
  | due : s.realtime = true → Happens s { s with clock := { s.clock with queue := [] } }
  | fires (id : String) : s.realtime = true → Happens s (s.run fun host => Act.fire host id).2

/-- A session with a program that listens to its console, on a clock that is in
order. -/
structure Tended (s : Session) : Prop where
  live : s.Live
  attached : s.attached = true
  regular : s.phase ≠ .completed → s.clock.Regular

theorem Tended.happens (h : s.Tended) (what : s.Happens t) : t.Tended := by
  cases what with
  | driven d =>
      have path := d.strides h.live
      exact ⟨path.live h.live, (path.attached h.live).trans h.attached,
        Clock.Regular.timing.strides h.live path h.regular⟩
  | speed speed =>
      rw [control_setSpeed h.live.hooks]
      exact ⟨h.live.setSpeed speed, (publish_attached ..).trans h.attached, h.regular⟩
  | due _ =>
      exact ⟨h.live.drive (.time _), h.attached,
        fun on => ⟨(h.regular on).now, nofun, .nil, (h.regular on).cancelled⟩⟩
  | fires id _ =>
      have live := h.live.drive (.fire id)
      rw [run_fire] at live
      rw [run_eq h.live.hooks, run_fire]
      refine ⟨live, (publish_attached ..).trans h.attached, ?_⟩
      rw [phase, publish_machine, publish_clock]
      exact h.regular

theorem Tended.happened (h : s.Tended) (happened : ReflTransGen Happens s t) : t.Tended := by
  induction happened with
  | refl => exact h
  | tail _ what ih => exact ih.happens what

theorem loaded_tended {speed : Int} {limits : Limits} {realtime : Bool} {source : String}
    (loads : (create speed limits realtime).control (.load source) = (.ok (.bool true), s)) :
    s.Tended := by
  obtain ⟨live, clock, -, -, -, -, -, attached⟩ := loaded_eq loads
  refine ⟨live, attached, fun _ => ?_⟩
  rw [clock]
  exact .starting rfl

/-- However a program is driven, at whatever pacing delay that is a number, a fault
goes no further than to end it.  A step that may be taken answers whether work is
left, a run that has no other beside it never faults, and on a clock that moves only
when it is told to it comes to its end.  A fault in any segment of the unit of work
that a step runs, or of the one that a run is about to go on with, is the last of
the program. -/
theorem faults_are_contained {source : String} {limits : Limits} {speed : Int} {realtime : Bool}
    (loads : (create speed limits realtime).control (.load source) = (.ok (.bool true), s)) :
    (∀ delay t, realtime = false → Number.quotient speed 1000 = .ok delay →
      ReflTransGen Drives s t → t.machine.runActive = false → ∀ direct, ∃ n u,
        (fun p : RunState × Session => p.2.segment p.1)^[n] (.created direct, t) =
          (.finished none, u) ∧ u.phase = .completed) ∧
    ∀ delay t, ReflTransGen Happens s t → Number.quotient t.store.speed 1000 = .ok delay →
      (t.Steppable → ∃ more u, t.control .step = (.ok (.bool more), u)) ∧
      (∀ state fault, (t.segment state).1 = .finished (some fault) →
        state = .finished (some fault) ∨
          t.machine.runActive = true ∧ fault = .lifecycle .alreadyRunning) ∧
      (t.Steppable → t.phase ≠ .completed → ∀ v u fault, Comes delay t.held.ready v →
        v.machine.unit = some u → v.segmentFault u = some fault →
          ∃ w, t.control .step = (.ok (.bool false), w) ∧ w.Faulted fault) ∧
      (t.phase ≠ .completed → ∀ state v u fault, t.Resumes state v → v.hasMore = true →
        v.ready.machine.unit = some u → v.ready.segmentFault u = some fault →
          ∃ w, t.segment state = (.finished none, w) ∧ w.Faulted fault) := by
  refine ⟨?_, fun delay t happened pace => ?_⟩
  · rintro delay t rfl converts driven free direct
    exact ((loaded_onTime loads converts).driven driven).run free direct
  · have tended := (loaded_tended loads).happened happened
    have paced : t.Paced delay := ⟨tended.live, pace, tended.regular⟩
    refine ⟨paced.step_answers, fun state fault => paced.segment_answers, ?_, ?_⟩
    · intro may on v u fault comes hu faults
      exact paced.step_faults tended.attached on may comes hu faults
    · intro on state v u fault resumes more hu faults
      exact paced.segment_faults tended.attached on resumes more hu faults

/-- A recursion is paused two calls deep.  The step that is taken then is halted; it
answers all the same, and both calls are left. -/
theorem recursion_is_contained : ∃ t,
    (recursion.control .pause).2.control .step = (.ok (.bool false), t) ∧
      t.Faulted (.halt .callDepth) := by
  have loads : (loading "function f() \x7b f(); \x7d\nf();" { callDepth := 2 }).1 =
      .ok (.bool true) := by decide +kernel
  obtain ⟨on, deep, halts⟩ : (recursion.control .pause).2.phase = .paused ∧
      (recursion.control .pause).2.machine.unit.isSome = true ∧
      (recursion.control .pause).2.machine.unit.bind
        (recursion.control .pause).2.segmentFault = some (.halt .callDepth) := by
    decide +kernel
  have pace : Number.quotient (recursion.control .pause).2.store.speed 1000 = .ok .zero := by
    decide +kernel
  obtain ⟨u, hu, faults⟩ := Option.bind_eq_some_iff.mp halts
  have same : (recursion.control .pause).2.held.ready = (recursion.control .pause).2 := by
    rw [held, if_neg (by simp [on]), ready, hu]
  have happened : ReflTransGen Happens (loading "function f() \x7b f(); \x7d\nf();"
      { callDepth := 2 }).2 (recursion.control .pause).2 :=
    .tail ((segments_driven _ 4 _).lift id fun _ _ => .driven) (.driven (.inl ⟨.pause, rfl, rfl⟩))
  obtain ⟨-, -, steps, -⟩ := (faults_are_contained (Prod.ext loads rfl)).2 .zero _ happened pace
  refine steps (by simp [Steppable, on]) (by simp [on]) _ u _ ?_ hu faults
  rw [same]
  exact .here _

end Session

end Runloop
