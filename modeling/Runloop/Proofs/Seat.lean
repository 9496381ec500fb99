/-
# Who may go on

Which run of a session may go on is decided by a few fields of its machine, and
shown by two flags of its store.  They make up the `Seat`.  Code has no part in
it (`Coded.untouched`), so whatever an operation does to the seat is done by
the few lines that drive the code:

  * letting time pass, taking a unit of work and giving one up leave the seat
    as it is (`Stays`);
  * running a unit of work does too, or else the program is over (`Settles`);
  * a step, a pause, a resumption and a turn of a run do what `Seat.Stepped`,
    `Seat.paused`, `Seat.resumed` and `Seat.Turned` say.
-/
import Runloop.Proofs.Commands

namespace Runloop

/-- The generation of a run that has begun and is not over. -/
def RunState.generation? : RunState → Option Nat
  | .sleeping generation | .waiting generation _ => some generation
  | .created _ | .finished _ => none

/-- What decides which run may go on, and how the store shows it. -/
structure Seat where
  phase : Phase
  generation : Nat
  runActive : Bool
  gate : Option Bool
  openings : Nat
  isRunning : Bool
  isPaused : Bool
deriving DecidableEq

def Session.seat (s : Session) : Seat :=
  { phase := s.machine.phase, generation := s.machine.generation
    runActive := s.machine.runActive, gate := s.machine.gate, openings := s.machine.openings
    isRunning := s.store.state.isRunning, isPaused := s.store.state.isPaused }

namespace Seat

/-- Another phase, as the store shows it. -/
def inPhase (a : Seat) (phase : Phase) : Seat :=
  { a with
    phase, isRunning := phase == .running || phase == .paused, isPaused := phase == .paused }

/-- The gate is opened, if there is one. -/
def opened (a : Seat) : Seat :=
  if a.gate.isSome then { a with gate := some true, openings := a.openings + 1 } else a

/-- Every run so far is void. -/
def voided (a : Seat) : Seat := { a with generation := a.generation + 1, runActive := false }

/-- The place for a run is taken. -/
def entered (a : Seat) : Seat := { a with gate := some true, runActive := true }.inPhase .running

/-- The place for a run is free. -/
def left (a : Seat) : Seat := { a with runActive := false }

def paused (a : Seat) : Seat :=
  if a.phase = .running then { a with gate := a.gate.map fun _ => false }.inPhase .paused else a

def resumed (a : Seat) : Seat :=
  if a.phase = .paused then (a.inPhase .running).opened else a

def stopped (a : Seat) : Seat :=
  if a.phase = .idle ∨ a.phase = .completed then a else (a.voided.inPhase .completed).opened

def cleared (a : Seat) : Seat := a.voided.opened.inPhase .idle

/-- Nothing has happened, or the program is over. -/
def Settled (a b : Seat) : Prop := b = a ∨ b = a.inPhase .completed

/-- What a step does.  It is refused while a run is going on; otherwise the first
one makes an idle program paused, and each may be the last. -/
def Stepped (a b : Seat) : Prop :=
  b = a ∨ ¬ (a.phase = .running ∧ a.runActive = true) ∧ a.phase ≠ .completed ∧
    (a.phase = .idle ∧ b = a.inPhase .paused ∨ b = a.inPhase .completed)

/-- What a turn of a run does.  A run that goes on stays where it is; one that
does not leaves its place, whether or not the program is over. -/
def Turned (a : Seat) (state : RunState) (b : Seat) : Prop :=
  state = .sleeping a.generation ∧ a.phase ≠ .completed ∧ b = a ∨
    state.isFinished = true ∧ ∃ c, a.Settled c ∧ b = c.left

instance : IsPreorder Seat Settled where
  refl _ := .inl rfl
  trans := by
    rintro a b c (rfl | rfl) h
    · exact h
    · rcases h with rfl | rfl
      · exact .inr rfl
      · exact .inr rfl

theorem Settled.generation {a b : Seat} (h : a.Settled b) : b.generation = a.generation := by
  rcases h with rfl | rfl
  · rfl
  · rfl

/-- A program that is not over has stayed where it was. -/
theorem Settled.eq {a b : Seat} (h : a.Settled b) (on : b.phase ≠ .completed) : b = a := by
  rcases h with rfl | rfl
  · rfl
  · exact absurd rfl on

end Seat

/-- From `s` to `t` the seat changed in this way; nobody else listens now, and the
limits are what they were. -/
structure Session.Turns (R : Seat → Seat → Prop) (s t : Session) : Prop where
  hooks : t.hooks = s.hooks
  realtime : t.realtime = s.realtime
  limits : t.machine.limits = s.machine.limits
  seat : R s.seat t.seat

@[simp] theorem Session.publish_realtime {α : Type} (s : Session) (c : Change α) :
    (s.publish c).realtime = s.realtime := by
  obtain ⟨lines, h⟩ := s.publish_eq c
  rw [h]

namespace Session.Turns

variable {s t u : Session} {R S : Seat → Seat → Prop}

theorem refl [IsPreorder Seat R] (s : Session) : s.Turns R s := ⟨rfl, rfl, rfl, refl_of R _⟩

theorem mono (h : s.Turns R t) (hR : R s.seat t.seat → S s.seat t.seat) : s.Turns S t :=
  ⟨h.hooks, h.realtime, h.limits, hR h.seat⟩

theorem trans [IsPreorder Seat R] (h : s.Turns R t) (h' : t.Turns R u) : s.Turns R u :=
  ⟨h'.hooks.trans h.hooks, h'.realtime.trans h.realtime, h'.limits.trans h.limits,
    trans_of R h.seat h'.seat⟩

/-- Nothing happens to the seat first. -/
theorem after (h : s.Turns Eq t) (h' : t.Turns R u) : s.Turns R u :=
  ⟨h'.hooks.trans h.hooks, h'.realtime.trans h.realtime, h'.limits.trans h.limits,
    h.seat ▸ h'.seat⟩

instance [IsPreorder Seat R] : IsPreorder Session (Session.Turns R) where
  refl := refl
  trans _ _ _ := trans

end Session.Turns

theorem Act.Untouched.turns {s t : Session} (h : Act.Untouched s t) : s.Turns Eq t := by
  refine ⟨h.hooks, h.realtime, (congrArg Machine.limits h.driven :), ?_⟩
  have phase : t.machine.phase = s.machine.phase := (congrArg Machine.phase h.driven :)
  have generation : t.machine.generation = s.machine.generation :=
    (congrArg Machine.generation h.driven :)
  have runActive : t.machine.runActive = s.machine.runActive :=
    (congrArg Machine.runActive h.driven :)
  have gate : t.machine.gate = s.machine.gate := (congrArg Machine.gate h.driven :)
  have openings : t.machine.openings = s.machine.openings :=
    (congrArg Machine.openings h.driven :)
  unfold Session.seat
  rw [phase, generation, runActive, gate, openings, h.isRunning, h.isPaused]

namespace Act

variable {α β : Type} {s t : Session} {R : Seat → Seat → Prop}

/-- The computation does nothing else to the seat than this, however it ends. -/
abbrev Reseats (R : Seat → Seat → Prop) (act : Act α) : Prop := Within (Session.Turns R) act

/-- The computation leaves the seat as it is. -/
abbrev Stays (act : Act α) : Prop := Reseats Eq act

/-- The computation leaves the seat as it is, or the program is over. -/
abbrev Settles (act : Act α) : Prop := Reseats Seat.Settled act

theorem Stays.settles {act : Act α} (h : Stays act) : Settles act :=
  h.mono fun ht => ht.mono fun same => .inl same.symm

/-! ## What leaves the seat as it is -/

theorem Coded.stays {act : Act α} (h : Coded record .all act) : Stays act := by
  intro s
  refine (h.untouched s).mono ?_ ?_
  · intro a t ht
    exact ht.turns
  · intro f t ht
    exact ht.turns

/-- Notes in the machine that are none of the seat. -/
theorem stays_modifyMachine {f : Machine → Machine} (phase : ∀ m, (f m).phase = m.phase)
    (generation : ∀ m, (f m).generation = m.generation)
    (runActive : ∀ m, (f m).runActive = m.runActive) (gate : ∀ m, (f m).gate = m.gate)
    (openings : ∀ m, (f m).openings = m.openings) (limits : ∀ m, (f m).limits = m.limits) :
    Stays (modifyMachine f) := by
  intro s
  rw [ends_modifyMachine]
  refine ⟨rfl, rfl, limits _, ?_⟩
  simp only [Session.seat, phase, generation, runActive, gate, openings]

theorem stays_hold (unit : Option UnitOfWork) : Stays (modifyMachine fun m => { m with unit }) :=
  stays_modifyMachine (fun _ => rfl) (fun _ => rfl) (fun _ => rfl) (fun _ => rfl) (fun _ => rfl)
    fun _ => rfl

theorem stays_nextUnit : Stays nextUnit :=
  stays_modifyMachine (fun _ => rfl) (fun _ => rfl) (fun _ => rfl) (fun _ => rfl) (fun _ => rfl)
    fun _ => rfl

theorem stays_fire (id : String) : Stays (fire plain id) := by
  intro s
  unfold fire
  rw [ends_bind, ends_change]
  obtain ⟨lines, eq⟩ := s.publish_eq (s.store.moveToCallbacks id)
  rw [eq, (requeues_moveToCallbacks s.store id).same]
  exact ⟨rfl, rfl, rfl, rfl⟩

theorem stays_fireUntil (target : Double) : Stays (fireUntil plain target) := by
  refine Within.loop ?_
  intro s
  rw [ends_bind, ends_get]
  cases s.clock.pop? target with
  | none => exact ⟨rfl, rfl, rfl, rfl⟩
  | some popped =>
      have moved : s.Turns Eq { s with clock := popped.2 } := ⟨rfl, rfl, rfl, rfl⟩
      have rest : Stays (do
          if !popped.2.isCancelled popped.1.serial then fire plain popped.1.payload
          return true) :=
        (stays_fire _).first (.pure true)
      rw [ends_bind, ends_set]
      exact rest.after moved

theorem stays_elapse (delay : Double) : Stays (elapse plain delay) :=
  .get fun _ => .ite (stays_fireUntil _) (.pure _)

theorem stays_pacing : Stays pacing :=
  coded_pacing.stays

theorem stays_pace : Stays (pace plain) :=
  stays_pacing.bind fun _ => .get fun _ => .ite (stays_fireUntil _) (.pure _)

theorem stays_closeUnit : Stays (closeUnit plain) := by
  refine .machine fun m => (stays_hold none).bind fun _ => ?_
  cases m.unit with
  | none => exact .pure _
  | some u =>
      refine .ite ((coded_abandon u.work).stays.bind fun fault => ?_) (.pure _)
      cases fault with
      | none => exact .pure _
      | some fault => exact .throw fault

theorem stays_keepWork (serial : Nat) (work : Work) : Stays (keepWork plain serial work) := by
  refine Within.bind (.machine fun _ => .pure _) fun holds => .ite (stays_hold _) ?_
  exact (coded_abandon work).stays.bind fun _ => .pure _

/-! ## What may end the program -/

/-- The last lines of a program.  Nothing can go wrong between the change of the
phase and that of the flags which show it. -/
theorem ends_concluding :
    Ends (do
        modifyMachine fun m => { m with phase := .completed }
        change plain fun s _ => s.setCurrentLine (-1)
        change plain fun s _ => s.setExecution false false
        info plain "Execution completed" : Act Unit) s
      (fun _ t => s.Turns (fun a b => b = a.inPhase .completed) t) (fun _ _ => False) := by
  unfold info log
  rw [ends_bind, ends_modifyMachine, ends_bind, ends_change, ends_bind, ends_change, ends_change]
  refine ⟨by simp, by simp, by simp, ?_⟩
  simp [Session.seat, Store.logConsole, Store.setExecution, Store.setCurrentLine, Seat.inPhase]

theorem settles_finish : Settles (finish plain) := by
  refine stays_closeUnit.settles.bind fun _ => ?_
  intro s
  refine ends_concluding.mono ?_ ?_
  · intro _ t ht
    exact ht.mono .inr
  · intro _ _ never
    exact never.elim

theorem settles_failUnit (generation : Nat) (fault : Fault) :
    Settles (failUnit plain generation fault) := by
  refine .machine fun m => .ite ?_ (.pure _)
  refine (stays_hold none).settles.bind fun _ => ?_
  exact (coded_error _).stays.settles.bind fun _ => settles_finish

theorem settles_afterSegment (u : UnitOfWork) (generation : Nat) (r : Except Fault Progress) :
    Settles (afterSegment plain u generation r) := by
  rcases r with fault | ⟨work⟩ | _
  · exact (settles_failUnit generation fault).bind fun _ => .pure _
  · refine .machine fun m => ?_
    exact (stays_keepWork u.serial work).settles.bind fun _ => .pure _
  · refine Within.bind (.machine fun _ => .pure _) fun holds => ?_
    exact .ite ((stays_hold none).settles.bind fun _ => .pure _) (.pure _)

theorem settles_advance : Settles (advance plain) := by
  intro s
  cases hu : s.machine.unit with
  | none =>
      refine Ends.of_run (y := do failUnit plain s.machine.generation .noUnit; return false) ?_
        (((settles_failUnit _ _).bind fun _ => .pure _) s)
      unfold advance advanceWith
      rw [run_machine_bind, hu]
  | some u =>
      cases waits : u.running with
      | true =>
          refine Ends.of_run
            (y := do failUnit plain s.machine.generation .unitRunning; return false) ?_
            (((settles_failUnit _ _).bind fun _ => .pure _) s)
          unfold advance advanceWith
          rw [run_machine_bind, hu]
          simp only [waits, if_true]
      | false =>
          have run : (advance plain).run s = _ := run_advance hu waits
          have working : s.Turns Eq (s.working u) := ⟨rfl, rfl, rfl, rfl⟩
          have segment := ((coded_plainSegment u.work).stays (s.working u)).after
          rcases hseg : ((runSegment plain u.work).run (s.working u) :
            Except Fault Progress × Session) with ⟨r, t⟩
          rw [hseg] at run segment
          refine .of_run run ((settles_afterSegment u _ r t).mono ?_ ?_)
          · intro _ v hv
            exact (working.trans segment).after hv
          · intro _ v hv
            exact (working.trans segment).after hv

/-! ## Operations -/

end Act

namespace Session

/-- The session in another phase, which is told. -/
def inPhase (s : Session) (phase : Phase) : Session :=
  let isRunning := phase == .running || phase == .paused
  let isPaused := phase == .paused
  { s with
    machine := { s.machine with phase }
    store := (s.store.setExecution isRunning isPaused).store
    journal := .execution isRunning isPaused s.store.state.speed :: s.journal }

/-- The session with its gate opened, if it has one. -/
def opened (s : Session) : Session :=
  { s with
    machine :=
      if s.machine.gate.isSome then
        { s.machine with gate := some true, openings := s.machine.openings + 1 }
      else s.machine }

/-- The session after it was paused; only a running program can be. -/
def paused (s : Session) : Session :=
  if s.machine.phase = .running then
    { s with machine := { s.machine with gate := s.machine.gate.map fun _ => false } }.inPhase
      .paused
  else s

/-- The session after it was let go on; only a paused program can be. -/
def resumed (s : Session) : Session :=
  if s.machine.phase = .paused then (s.inPhase .running).opened else s

variable (s : Session)

theorem opened_turns : s.Turns (fun a b => b = a.opened) s.opened := by
  unfold opened Seat.opened
  by_cases gate : s.machine.gate.isSome = true
  · rw [if_pos gate]
    exact ⟨rfl, rfl, rfl, (if_pos (show s.seat.gate.isSome = true from gate)).symm⟩
  · rw [if_neg gate]
    exact ⟨rfl, rfl, rfl, (if_neg (show ¬ s.seat.gate.isSome = true from gate)).symm⟩

theorem paused_turns : s.Turns (fun a b => b = a.paused) s.paused := by
  unfold paused Seat.paused
  by_cases running : s.machine.phase = .running
  · rw [if_pos running]
    exact ⟨rfl, rfl, rfl, (if_pos running).symm⟩
  · rw [if_neg running]
    exact ⟨rfl, rfl, rfl, (if_neg running).symm⟩

theorem resumed_turns : s.Turns (fun a b => b = a.resumed) s.resumed := by
  unfold resumed Seat.resumed
  by_cases paused : s.machine.phase = .paused
  · rw [if_pos paused]
    have opens := (s.inPhase .running).opened_turns
    exact ⟨rfl, rfl, opens.limits, opens.seat.trans (if_pos paused).symm⟩
  · rw [if_neg paused]
    exact ⟨rfl, rfl, rfl, (if_neg paused).symm⟩

end Session

namespace Act

variable {s : Session}

theorem run_setPhase (phase : Phase) :
    (setPhase plain phase).run s = (.ok ⟨⟩, s.inPhase phase) :=
  rfl

theorem run_openGate : openGate.run s = (.ok ⟨⟩, s.opened) := rfl

theorem run_pause :
    (pause plain).run s = (.ok (decide (s.machine.phase = .running)), s.paused) := by
  unfold pause Session.paused
  rw [run_machine_bind]
  by_cases running : s.machine.phase = .running
  · rw [if_neg (not_not.mpr running), if_pos running, decide_eq_true running]
    rfl
  · rw [if_pos running, if_neg running, decide_eq_false running]
    rfl

theorem run_resume :
    (resume plain).run s = (.ok (decide (s.machine.phase = .paused)), s.resumed) := by
  unfold resume Session.resumed
  rw [run_machine_bind]
  by_cases paused : s.machine.phase = .paused
  · rw [if_neg (not_not.mpr paused), if_pos paused, decide_eq_true paused]
    rfl
  · rw [if_pos paused, if_neg paused, decide_eq_false paused]
    rfl

/-- What is left of a step when the program is on. -/
theorem settles_stepUnit : Settles (stepUnit plain) := by
  refine stays_pacing.settles.bind fun delay => .machine fun m => .machine fun m' => ?_
  refine stays_nextUnit.settles.first (.bind (.loop ?_) fun _ => ?_)
  · refine settles_advance.bind fun _ => .ite ?_ (.pure _)
    exact (stays_elapse delay).settles.bind fun _ => .pure _
  · refine .get fun s => .ite (.pure _) (.ite (.pure _) ?_)
    exact settles_finish.bind fun _ => .pure _

theorem reseats_step : Reseats Seat.Stepped (step plain) := by
  intro s
  unfold step
  rw [ends_bind, ends_machine]
  have same : s.Turns Seat.Stepped s := ⟨rfl, rfl, rfl, .inl rfl⟩
  split
  · exact same
  · split
    · exact same
    · rename_i on
      split
      · exact same
      · rename_i free
        have free : ¬ (s.seat.phase = .running ∧ s.seat.runActive = true) := by
          simpa [Session.seat] using free
        split
        · rename_i idle
          rw [ends_bind]
          refine .of_answer (run_setPhase .paused) ?_
          have turns {t : Session} (ht : (s.inPhase .paused).Turns Seat.Settled t) :
              s.Turns Seat.Stepped t := by
            refine ⟨ht.hooks, ht.realtime, ht.limits, .inr ⟨free, on, ?_⟩⟩
            rcases ht.seat with stays | ends
            · exact .inl ⟨idle, stays⟩
            · exact .inr ends
          refine (settles_stepUnit _).mono ?_ ?_
          · intro _ t ht
            exact turns ht
          · intro _ t ht
            exact turns ht
        · have turns {t : Session} (ht : s.Turns Seat.Settled t) : s.Turns Seat.Stepped t := by
            refine ht.mono ?_
            rintro (stays | ends)
            · exact .inl stays
            · exact .inr ⟨free, on, .inr ends⟩
          refine (settles_stepUnit _).mono ?_ ?_
          · intro _ t ht
            exact turns ht
          · intro _ t ht
            exact turns ht

/-! ## Turns of a run -/

theorem ends_isOver {generation : Nat} {Q : Bool → Session → Prop} {E : Fault → Session → Prop} :
    Ends (isOver generation) s Q E ↔
      Q (s.machine.generation ≠ generation || s.machine.phase = .completed) s :=
  Iff.rfl

/-- Work up to the next pause, by a run that has its unit of it.  If the run goes
on, it has left the seat as it was. -/
theorem ends_turnUnit {u : Session} (on : s.seat.phase ≠ .completed) (hu : s.Turns Eq u) :
    Ends (turnUnit plain s.machine.generation) u
      (fun goesOn t => s.Turns Seat.Settled t ∧
        (goesOn = true → s.seat.phase ≠ .completed ∧ t.seat = s.seat))
      (fun _ t => s.Turns Seat.Settled t) := by
  unfold turnUnit
  rw [ends_bind]
  refine (settles_advance u).mono ?_ ?_
  · intro _ v hv
    have hv := hu.after hv
    rw [ends_bind, ends_isOver]
    split
    · exact ⟨hv, fun again => absurd again (by simp)⟩
    · rename_i still
      have still : v.seat.phase ≠ .completed := by
        simp only [Bool.or_eq_true, decide_eq_true_eq, not_or] at still
        exact still.2
      have same : v.seat = s.seat := hv.seat.eq still
      rw [ends_bind]
      refine (stays_pace v).mono ?_ ?_
      · intro _ w hw
        have settled := hv.trans (hw.mono fun eq => .inl eq.symm)
        exact ⟨settled, fun _ => ⟨on, hw.seat.symm.trans same⟩⟩
      · intro _ w hw
        exact hv.trans (hw.mono fun eq => .inl eq.symm)
  · intro _ v hv
    exact hu.after hv

/-- A run that goes on has left the seat as it was. -/
theorem ends_runTurn :
    Ends (runTurn plain s.machine.generation) s
      (fun goesOn t => s.Turns Seat.Settled t ∧
        (goesOn = true → s.seat.phase ≠ .completed ∧ t.seat = s.seat))
      (fun _ t => s.Turns Seat.Settled t) := by
  unfold runTurn
  rw [ends_bind, ends_isOver]
  split
  · exact ⟨.refl s, fun again => absurd again (by simp)⟩
  · rename_i on
    have on : s.seat.phase ≠ .completed := by simpa [Session.seat] using on
    rw [ends_bind, ends_get]
    split
    · rw [ends_bind]
      refine (settles_finish s).mono ?_ ?_
      · intro _ t ht
        exact ⟨ht, fun again => absurd again (by simp)⟩
      · intro _ t ht
        exact ht
    · split
      · rw [ends_bind]
        refine (stays_nextUnit s).mono ?_ ?_
        · intro _ u hu
          exact ends_turnUnit on hu
        · intro _ u hu
          exact hu.mono fun eq => .inl eq.symm
      · exact ends_turnUnit on (.refl s)

/-- A run that is over leaves its place. -/
theorem ends_leaveRun {s u : Session} {E : Fault → Session → Prop} (h : s.Turns Seat.Settled u) :
    Ends (leaveRun s.machine.generation) u
      (fun _ t => s.Turns (fun a b => ∃ c, a.Settled c ∧ b = c.left) t) E := by
  have current : u.machine.generation = s.machine.generation := h.seat.generation
  unfold leaveRun
  rw [ends_modifyMachine, if_pos current]
  exact ⟨h.hooks, h.realtime, h.limits, u.seat, h.seat, rfl⟩

theorem ends_guardedTurn :
    Ends (guardedTurn plain s.machine.generation) s (fun state t => s.Turns (·.Turned state ·) t)
      (fun fault t => s.Turns (·.Turned (.finished (some fault)) ·) t) := by
  unfold guardedTurn
  rw [ends_bind, ends_tryCatch]
  refine ends_runTurn.mono ?_ ?_
  · rintro goesOn u ⟨hu, stays⟩
    cases goesOn with
    | true =>
        obtain ⟨on, same⟩ := stays rfl
        exact ⟨hu.hooks, hu.realtime, hu.limits, .inl ⟨rfl, on, same⟩⟩
    | false =>
        rw [if_neg Bool.false_ne_true, ends_bind]
        refine (ends_leaveRun hu).mono ?_ fun _ _ h => h
        intro _ t ht
        exact ht.mono fun left => .inr ⟨rfl, left⟩
  · intro fault u hu
    rw [ends_bind]
    refine (ends_leaveRun hu).mono ?_ fun _ _ h => h
    intro _ t ht
    exact ht.mono fun left => .inr ⟨rfl, left⟩

/-- A turn of a run that is void is no turn at all. -/
theorem run_guardedTurn_void {generation : Nat} (void : generation ≠ s.machine.generation) :
    (guardedTurn plain generation).run s = (.ok (.finished none), s) := by
  have void : s.machine.generation ≠ generation := void.symm
  have ended : (runTurn plain generation).run s = (.ok false, s) := by
    unfold runTurn isOver
    rw [run_bind, run_machine_bind]
    simp [void]
    rfl
  have leaves : (leaveRun generation).run s = (.ok ⟨⟩, s) := by
    show (Except.ok PUnit.unit, ({ s with machine := _ } : Session)) = _
    dsimp only
    rw [if_neg void]
  unfold guardedTurn
  rw [run_bind, run_tryCatch, ended]
  show (leaveRun generation >>= fun _ => pure (RunState.finished none) : Act RunState).run s = _
  rw [run_bind, leaves]
  rfl

end Act

namespace Seat

/-- What going on with a run does: nothing if it is void, nothing if it is paused
either, and otherwise it is a turn. -/
def Continued (generation : Nat) (after : RunState) (a b : Seat) : Prop :=
  generation ≠ a.generation ∧ after = .finished none ∧ b = a ∨
    generation = a.generation ∧ a.phase = .paused ∧
      after = .waiting generation a.openings ∧ b = a ∨
    generation = a.generation ∧ a.phase ≠ .paused ∧ a.Turned after b

/-- What a segment of a run does, and what it makes of the run. -/
def Ran : RunState → RunState → Seat → Seat → Prop
  | .created _, after, a, b =>
    after.isFinished = true ∧ b = a ∨
      a.runActive = false ∧ a.phase ≠ .completed ∧ a.entered.Turned after b
  | .sleeping generation, after, a, b | .waiting generation _, after, a, b =>
    Continued generation after a b
  | .finished fault?, after, a, b => after = .finished fault? ∧ b = a

end Seat

namespace Act

variable {s : Session}

/-- Beginning a run is refused, or it takes the place and the first turn. -/
theorem ends_beginRun (direct : Bool) :
    Ends (beginRun plain direct) s (fun state t => s.Turns (Seat.Ran (.created direct) state) t)
      (fun fault t => s.Turns (Seat.Ran (.created direct) (.finished (some fault))) t) := by
  have refused {state : RunState} (ended : state.isFinished = true) :
      s.Turns (Seat.Ran (.created direct) state) s := ⟨rfl, rfl, rfl, .inl ⟨ended, rfl⟩⟩
  unfold beginRun
  rw [ends_bind, ends_machine]
  split
  · split
    · exact refused rfl
    · exact refused rfl
  · split
    · exact refused rfl
    · rename_i on
      split
      · exact refused rfl
      · rename_i free
        have free : s.seat.runActive = false := by simpa [Session.seat] using free
        rw [ends_bind, ends_modifyMachine, ends_bind]
        refine .of_answer (run_setPhase .running) ?_
        have turns {state : RunState} {t : Session}
            (ht : (({ s with machine := { s.machine with gate := some true, runActive := true } } :
              Session).inPhase .running).Turns (·.Turned state ·) t) :
            s.Turns (Seat.Ran (.created direct) state) t :=
          ⟨ht.hooks, ht.realtime, ht.limits, .inr ⟨free, on, ht.seat⟩⟩
        refine ends_guardedTurn.mono ?_ ?_
        · intro state t ht
          exact turns ht
        · intro fault t ht
          exact turns ht

theorem run_continueRun_void {generation : Nat} (void : generation ≠ s.machine.generation) :
    (continueRun plain generation).run s = (.ok (.finished none), s) := by
  unfold continueRun
  rw [run_machine_bind, if_neg (by simp [void.symm])]
  exact run_guardedTurn_void void

theorem run_continueRun_paused (paused : s.machine.phase = .paused) :
    (continueRun plain s.machine.generation).run s =
      (.ok (.waiting s.machine.generation s.machine.openings), s) := by
  unfold continueRun
  rw [run_machine_bind, if_pos (by simp [paused])]
  rfl

theorem ends_continueRun (generation : Nat) :
    Ends (continueRun plain generation) s
      (fun state t => s.Turns (Seat.Continued generation state) t)
      (fun fault t => s.Turns (Seat.Continued generation (.finished (some fault))) t) := by
  by_cases void : generation ≠ s.machine.generation
  · exact .of_answer (run_continueRun_void void) ⟨rfl, rfl, rfl, .inl ⟨void, rfl, rfl⟩⟩
  · obtain rfl := not_not.mp void
    by_cases paused : s.machine.phase = .paused
    · exact .of_answer (run_continueRun_paused paused)
        ⟨rfl, rfl, rfl, .inr (.inl ⟨rfl, paused, rfl, rfl⟩)⟩
    · have turn : (continueRun plain s.machine.generation).run s =
          (guardedTurn plain s.machine.generation).run s := by
        unfold continueRun
        rw [run_machine_bind, if_neg (by simp [paused])]
      refine .of_run turn (ends_guardedTurn.mono ?_ ?_)
      · intro state t ht
        exact ht.mono fun turned => .inr (.inr ⟨rfl, paused, turned⟩)
      · intro fault t ht
        exact ht.mono fun turned => .inr (.inr ⟨rfl, paused, turned⟩)

end Act

namespace Session

variable {s : Session}

/-- A segment of a run, without hooks. -/
theorem segment_turns (hooks : s.hooks = []) (state : RunState) :
    s.Turns (Seat.Ran state (s.segment state).1) (s.segment state).2 := by
  have ends : Act.Ends (Act.segment Act.plain state) s
      (fun after t => s.Turns (Seat.Ran state after) t)
      (fun fault t => s.Turns (Seat.Ran state (.finished (some fault))) t) := by
    cases state with
    | created direct => exact Act.ends_beginRun direct
    | sleeping generation => exact Act.ends_continueRun generation
    | waiting generation openings => exact Act.ends_continueRun generation
    | finished fault? => exact ⟨rfl, rfl, rfl, rfl, rfl⟩
  unfold segment
  rw [run_eq hooks]
  split
  · rename_i run
    exact ends.of_ok run
  · rename_i run
    exact ends.of_error run

/-- A run that is void does nothing any more. -/
theorem segment_void (hooks : s.hooks = []) {state : RunState} {generation : Nat}
    (entered : state.generation? = some generation) (void : generation ≠ s.machine.generation) :
    s.segment state = (.finished none, s) := by
  have run : (Act.segment Act.plain state).run s = (.ok (.finished none), s) := by
    cases state with
    | sleeping g | waiting g openings =>
        cases entered
        exact Act.run_continueRun_void void
    | created | finished => cases entered
  unfold segment
  rw [run_eq hooks, run]

end Session

end Runloop
