/-
# What resetting and loading come to

A reset first makes every run void and only then gives up the unit of work, so
the calls that the unit holds open are none of the current run any more and
nothing is unwound.  A reset therefore never faults, and what it leaves is
written down in full (`Session.blank`); so is what loading a source leaves
(`Session.fed`).

A session that was made by `create` and only ever told to do things between two
segments is always `Proper`: it has no program at all, or one that some run
comes to.
-/
import Runloop.Proofs.Seat

namespace Runloop

namespace Session

/-- The session with every run so far void. -/
def voided (s : Session) : Session :=
  { s with
    machine := { s.machine with generation := s.machine.generation + 1, runActive := false } }

/-- The session without a program. -/
def blank (s : Session) : Session :=
  { s with
    clock := s.store.timers.foldl (fun c serial => c.cancel serial) s.clock
    store := s.store.cleared
    machine :=
      { limits := s.machine.limits, units := s.machine.units
        generation := s.machine.generation + 1
        gate := s.machine.gate.map fun _ => true
        openings := if s.machine.gate.isSome then s.machine.openings + 1 else s.machine.openings }
    instructions := [], diagnostics := [], errors := [], lines := []
    journal := (Store.resetEvents.map (· s.store.cleared)).reverse ++ s.journal }

/-- A session without a program that is given a source, and whether there is one
now. -/
def fed (s : Session) (source : String) : Except Fault Bool × Session :=
  let s := { s with source }
  if (Text.trim source.toList).isEmpty then
    (.ok false, s.publish (s.store.logConsole "warn" ["No code to execute"] s.now))
  else
    match compile source with
    | .error (.number fault) => (.error (.compilation (.number fault)), s)
    | .error (.source e) =>
      let s : Session := { s with errors := s.errors ++ [⟨e.message, e.line, e.column⟩] }
      (.ok false, s.publish (s.store.logConsole "error" ["Error: " ++ e.located] s.now))
    | .ok t =>
      let s :=
        { s with
          notices := t.notices.reverse ++ s.notices
          instructions := t.instructions, diagnostics := t.diagnostics }
      (.ok true, s.begun t.instructions)

/-- A source is blank, which is told, or it does not compile, which is told unless it is for
a number that cannot be held, or there is a program now. -/
theorem fed_cases (s : Session) (source : String) :
    (Text.trim source.toList = [] ∧ s.fed source =
        (.ok false, ({ s with source } : Session).publish
          (s.store.logConsole "warn" ["No code to execute"] s.now))) ∨
    (∃ fault, compile source = .error (.number fault) ∧
      s.fed source = (.error (.compilation (.number fault)), { s with source })) ∨
    (∃ e, compile source = .error (.source e) ∧ s.fed source =
        (.ok false,
          ({ s with
              source, errors := s.errors ++ [⟨e.message, e.line, e.column⟩] } : Session).publish
            (s.store.logConsole "error" ["Error: " ++ e.located] s.now))) ∨
    ∃ t, compile source = .ok t ∧ s.fed source =
      (.ok true,
        ({ s with
            source, notices := t.notices.reverse ++ s.notices
            instructions := t.instructions, diagnostics := t.diagnostics } : Session).begun
          t.instructions) := by
  unfold fed
  dsimp only
  split
  · rename_i blank
    exact .inl ⟨List.isEmpty_iff.mp blank, rfl⟩
  · cases compile source with
    | error fault =>
        cases fault with
        | number fault => exact .inr (.inl ⟨fault, rfl, rfl⟩)
        | source e => exact .inr (.inr (.inl ⟨e, rfl, rfl⟩))
    | ok t => exact .inr (.inr (.inr ⟨t, rfl, rfl⟩))

/-- The calls that a unit of work holds open while it waits belong to the current
run. -/
def Current (s : Session) : Prop :=
  ∀ u ∈ s.machine.unit, u.running = false → ∀ call ∈ u.work.calls,
    call.generation = s.machine.generation

/-- A session without a program. -/
structure Vacant (s : Session) : Prop where
  hooks : s.hooks = []
  loaded : s.machine.loaded = false
  idle : s.phase = .idle
  unit : s.machine.unit = none

/-- A session without a program, or with one that some run comes to. -/
def Proper (s : Session) : Prop := s.Live ∨ s.Vacant

end Session

/-- What a control operation does to the seat. -/
def Seat.Controlled : Control → Seat → Seat → Prop
  | .pause, a, b => b = a.paused
  | .resume, a, b => b = a.resumed
  | .stop, a, b => b = a.stopped
  | .reset, a, b | .close, a, b | .load _, a, b => b = a.cleared
  | .step, a, b => a.Stepped b
  | .setSpeed _, a, b => b = a

/-! ## Resetting -/

namespace Act

variable {s : Session}

/-- Calls of an older run are not unwound. -/
theorem run_unwindAll_void {host : Host} {calls : List Call} (fault : Option Fault)
    (void : ∀ call ∈ calls, call.generation ≠ s.machine.generation) :
    (unwindAll host calls fault).run s = (.ok fault, s) := by
  induction calls with
  | nil => rfl
  | cons call outer ih =>
      have old : (s.machine.generation == call.generation) = false :=
        beq_false_of_ne (void call List.mem_cons_self).symm
      unfold unwindAll
      rw [run_bind]
      show (if (s.machine.generation == call.generation) = true then do
          let fault ← tryCatch (do unwind host call; return fault) fun later => return some later
          unwindAll host outer fault
        else do
          let fault ← pure fault
          unwindAll host outer fault : Act (Option Fault)).run s = _
      rw [if_neg (by rw [old]; exact Bool.false_ne_true)]
      exact ih fun c hc => void c (List.mem_cons_of_mem _ hc)

/-- When the run is void already, giving up the unit of work is all there is to
it. -/
theorem run_closeUnit_void (current : s.Current) :
    (closeUnit plain).run s.voided = (.ok ⟨⟩, s.voided.holding none) := by
  unfold closeUnit
  rw [run_machine_bind]
  have kept : s.voided.machine.unit = s.machine.unit := rfl
  dsimp only
  rw [kept]
  cases hu : s.machine.unit with
  | none => rfl
  | some u =>
      obtain ⟨serial, work, running⟩ := u
      cases running with
      | true => rfl
      | false =>
          have void : (abandon plain work).run (s.voided.holding none) =
              (.ok none, s.voided.holding none) := by
            cases work with
            | inCall call point callers base =>
                refine run_unwindAll_void none fun c hc => ?_
                have gen : c.generation = s.machine.generation := current _ hu rfl c hc
                have next : (s.voided.holding none).machine.generation =
                    s.machine.generation + 1 := rfl
                omega
            | _ => rfl
          change (abandon plain work >>= _ : Act Unit).run (s.voided.holding none) = _
          rw [run_bind, void]
          rfl

theorem run_reset (current : s.Current) : (reset plain).run s = (.ok ⟨⟩, s.blank) := by
  have voids : (modifyMachine fun m =>
      { m with generation := m.generation + 1, runActive := false }).run s = (.ok ⟨⟩, s.voided) :=
    rfl
  unfold reset resetMachine
  rw [run_bind, run_bind_ok voids, run_bind_ok (run_closeUnit_void current),
    run_bind_ok run_openGate]
  show (Except.ok PUnit.unit, _) = _
  unfold Session.blank Session.opened
  cases hg : s.machine.gate with
  | none =>
      simp only [Session.voided, Session.holding, hg]
      rfl
  | some gate =>
      simp only [Session.voided, Session.holding, hg]
      rfl

theorem run_load (current : s.Current) (source : String) :
    (load plain source).run s = s.blank.fed source := by
  have sets : (modify fun s => { s with source } : Act Unit).run s.blank =
      (.ok ⟨⟩, { s.blank with source }) := rfl
  have logs (t : Session) (type text : String) :
      (do log plain type [text]; return false : Act Bool).run t =
        (.ok false, t.publish (t.store.logConsole type [text] t.now)) := by
    have writes : (log plain type [text]).run t = _ := run_change rfl _
    rw [run_bind_ok writes]
    rfl
  unfold load Session.fed
  rw [run_bind_ok (run_reset current), run_bind_ok sets]
  dsimp only
  split
  · exact logs _ "warn" "No code to execute"
  · cases compile source with
    | error fault =>
        cases fault with
        | number fault => rfl
        | source e => exact logs _ "error" ("Error: " ++ e.located)
    | ok t =>
        have takes : (modify fun s =>
            { s with
              notices := t.notices.reverse ++ s.notices
              instructions := t.instructions, diagnostics := t.diagnostics } : Act Unit).run
            { s.blank with source } =
          (.ok ⟨⟩,
            { s.blank with
              source, notices := t.notices.reverse ++ s.notices
              instructions := t.instructions, diagnostics := t.diagnostics }) := rfl
        refine (run_bind_ok takes).trans ?_
        exact (run_bind_ok (run_init rfl rfl)).trans rfl

end Act

namespace Session

variable {s : Session}

theorem Vacant.current (h : s.Vacant) : s.Current := by
  intro u hu
  rw [h.unit] at hu
  cases hu

theorem Live.current (h : s.Live) : s.Current := by
  by_cases ended : s.phase = .completed
  · obtain ⟨why, reached⟩ := h
    intro u hu
    rw [(reached.standing.ended ended).1] at hu
    cases hu
  · intro u hu _ call hc
    refine (h.steady ended).sound.held.current call ?_
    rw [calls, hu]
    exact hc

namespace Proper

theorem hooks (h : s.Proper) : s.hooks = [] := by
  rcases h with live | vacant
  · exact live.hooks
  · exact vacant.hooks

theorem current (h : s.Proper) : s.Current := by
  rcases h with live | vacant
  · exact live.current
  · exact vacant.current

end Proper

theorem create_vacant (speed : Int) (limits : Limits) (realtime : Bool) :
    (create speed limits realtime).Vacant :=
  ⟨rfl, rfl, rfl, rfl⟩

theorem blank_vacant (hooks : s.hooks = []) : s.blank.Vacant := ⟨hooks, rfl, rfl, rfl⟩

theorem Vacant.publish (h : s.Vacant) {α : Type} (c : Change α) : (s.publish c).Vacant where
  hooks := (publish_hooks ..).trans h.hooks
  loaded := by rw [publish_machine]; exact h.loaded
  idle := by rw [Session.phase, publish_machine]; exact h.idle
  unit := by rw [publish_machine]; exact h.unit

/-- A source that is no program leaves the session without one. -/
theorem Vacant.fed (h : s.Vacant) {source : String} (no : (s.fed source).1 ≠ .ok true) :
    (s.fed source).2.Vacant := by
  have given : ({ s with source } : Session).Vacant := ⟨h.hooks, h.loaded, h.idle, h.unit⟩
  rcases s.fed_cases source with ⟨-, eq⟩ | ⟨fault, -, eq⟩ | ⟨e, -, eq⟩ | ⟨t, -, eq⟩
  · rw [eq]
    exact given.publish _
  · rw [eq]
    exact given
  · have told : ({ s with
        source, errors := s.errors ++ [⟨e.message, e.line, e.column⟩] } : Session).Vacant :=
      ⟨h.hooks, h.loaded, h.idle, h.unit⟩
    rw [eq]
    exact told.publish _
  · rw [eq] at no
    exact absurd rfl no

/-! ## Control operations -/

theorem blank_turns (s : Session) : s.Turns (fun a b => b = a.cleared) s.blank := by
  refine ⟨rfl, rfl, rfl, ?_⟩
  unfold Seat.cleared Seat.opened
  cases hg : s.machine.gate with
  | none =>
      rw [if_neg (by simp [Seat.voided, seat, hg])]
      simp only [blank, seat, hg]
      rfl
  | some gate =>
      rw [if_pos (by simp [Seat.voided, seat, hg])]
      simp only [blank, seat, hg]
      rfl

theorem publish_turns {α : Type} {c : Change α}
    (isRunning : c.store.state.isRunning = s.store.state.isRunning)
    (isPaused : c.store.state.isPaused = s.store.state.isPaused) :
    s.Turns Eq (s.publish c) := by
  refine ⟨publish_hooks .., publish_realtime .., by rw [publish_machine], ?_⟩
  simp only [seat, publish_machine, publish_store, isRunning, isPaused]

theorem blank_fed_turns (s : Session) (source : String) :
    s.blank.Turns Eq (s.blank.fed source).2 := by
  have said (t : Session) (same : s.blank.Turns Eq t) (type text : String) :
      s.blank.Turns Eq (t.publish (t.store.logConsole type [text] t.now)) :=
    same.trans (publish_turns rfl rfl)
  rcases s.blank.fed_cases source with ⟨-, eq⟩ | ⟨fault, -, eq⟩ | ⟨e, -, eq⟩ | ⟨t, -, eq⟩
  · rw [eq]
    exact said { s.blank with source } ⟨rfl, rfl, rfl, rfl⟩ _ _
  · rw [eq]
    exact ⟨rfl, rfl, rfl, rfl⟩
  · rw [eq]
    exact said { s.blank with
      source, errors := s.blank.errors ++ [⟨e.message, e.line, e.column⟩] }
      ⟨rfl, rfl, rfl, rfl⟩ _ _
  · rw [eq]
    exact ⟨rfl, rfl, rfl, rfl⟩

end Session

namespace Act

variable {s : Session}

theorem ends_stopped (h : s.Proper) :
    Ends (stop plain) s (fun _ t => s.Turns (fun a b => b = a.stopped) t) (fun _ _ => False) := by
  unfold stop
  rw [ends_bind, ends_machine]
  split
  · rename_i off
    exact ⟨rfl, rfl, rfl, (if_pos (by simpa [Session.seat] using off)).symm⟩
  · rename_i on
    have on : ¬ (s.seat.phase = .idle ∨ s.seat.phase = .completed) := by
      simpa [Session.seat] using on
    have live : s.Live := h.resolve_right fun vacant => on (.inl vacant.idle)
    obtain ⟨t, run, -⟩ := run_closeUnit (live.steady fun ended => on (.inr ended))
    have stays : s.Turns Eq t := (stays_closeUnit s).of_ok run
    have rest : (do
        modifyMachine fun m =>
          { m with generation := m.generation + 1, runActive := false, phase := .completed }
        change plain fun s _ => s.setExecution false false
        openGate : Act Unit).run t = (.ok ⟨⟩, (t.voided.inPhase .completed).opened) := rfl
    rw [ends_bind]
    refine .of_answer run (.of_answer rest ?_)
    have opens := (t.voided.inPhase .completed).opened_turns
    refine stays.after ⟨opens.hooks, opens.realtime, opens.limits, ?_⟩
    rw [opens.seat, stays.seat] at *
    exact (if_neg on).symm

theorem control_reseats (h : s.Proper) (c : Control) :
    Ends (control plain c) s (fun _ t => s.Turns (Seat.Controlled c) t)
      (fun _ t => s.Turns (Seat.Controlled c) t) := by
  cases c with
  | pause => exact .of_answer (run_bind_ok run_pause) s.paused_turns
  | resume => exact .of_answer (run_bind_ok run_resume) s.resumed_turns
  | stop =>
      show Ends (stop plain >>= fun _ => pure Answer.nothing) s _ _
      rw [ends_bind]
      refine (ends_stopped h).mono ?_ ?_
      · intro _ t ht
        exact ht
      · intro _ _ never
        exact never.elim
  | reset => exact .of_answer (run_bind_ok (run_reset h.current)) s.blank_turns
  | close =>
      show Ends (close plain >>= fun _ => pure Answer.nothing) s _ _
      unfold close
      rw [ends_bind, ends_bind]
      refine .of_answer (run_reset h.current) ?_
      exact ⟨rfl, rfl, rfl, s.blank_turns.seat⟩
  | load source =>
      have turns : s.Turns (fun a b => b = a.cleared) (s.blank.fed source).2 := by
        have fed := s.blank_fed_turns source
        exact ⟨fed.hooks, fed.realtime, fed.limits, fed.seat.symm.trans s.blank_turns.seat⟩
      show Ends (load plain source >>= fun ok => pure (Answer.bool ok)) s _ _
      rw [ends_bind]
      unfold Ends
      rw [run_load h.current]
      split
      · rename_i run
        rw [run] at turns
        exact turns
      · rename_i run
        rw [run] at turns
        exact turns
  | step =>
      show Ends (stepSession plain >>= fun more => pure (Answer.bool more)) s _ _
      unfold stepSession
      rw [ends_bind, ends_bind, ends_machine]
      split
      · refine (reseats_step s).mono ?_ ?_
        · intro _ t ht
          exact ht
        · intro _ t ht
          exact ht
      · exact ⟨rfl, rfl, rfl, .inl rfl⟩
  | setSpeed speed =>
      show Ends (change plain (fun s _ => s.setSpeed speed) >>= fun _ => pure Answer.nothing) s _ _
      rw [ends_bind, ends_change]
      exact (Session.publish_turns rfl rfl).mono Eq.symm

end Act

namespace Session

variable {s : Session}

/-- A control operation on a session does to the seat what it says. -/
theorem control_turns (h : s.Proper) (c : Control) :
    s.Turns (Seat.Controlled c) (s.control c).2 := by
  unfold control
  rw [run_eq h.hooks]
  exact (Act.control_reseats h c).after

theorem control_reset (h : s.Proper) : s.control .reset = (.ok .nothing, s.blank) := by
  unfold control
  rw [run_eq h.hooks]
  exact Act.run_bind_ok (Act.run_reset h.current)

theorem control_close (h : s.Proper) :
    s.control .close = (.ok .nothing, { s.blank with attached := false }) := by
  have run : (Act.close Act.plain).run s = (.ok ⟨⟩, { s.blank with attached := false }) :=
    (Act.run_bind_ok (Act.run_reset h.current)).trans rfl
  unfold control
  rw [run_eq h.hooks]
  exact (Act.run_bind_ok run).trans rfl

theorem control_load (h : s.Proper) (source : String) :
    s.control (.load source) = ((s.blank.fed source).1.map .bool, (s.blank.fed source).2) := by
  unfold control
  rw [run_eq h.hooks]
  show (Act.load Act.plain source >>= fun ok => pure (Act.Answer.bool ok)).run s = _
  rw [Act.run_bind, Act.run_load h.current]
  rcases s.blank.fed source with ⟨fault | ok, t⟩
  · rfl
  · rfl

/-! ## Sessions stay proper -/

theorem Proper.fed (hooks : s.hooks = []) {source : String}
    (run : (Act.load Act.plain source).run s = s.blank.fed source) :
    (s.blank.fed source).2.Proper := by
  by_cases ok : (s.blank.fed source).1 = .ok true
  · refine .inl ⟨none, Act.load_reached hooks (run.trans ?_)⟩
    exact Prod.ext ok rfl
  · exact .inr ((blank_vacant hooks).fed ok)

/-- An operation that resets leaves a proper session, whatever there was. -/
theorem Proper.reset (h : s.Proper) {c : Control} (hc : c.drives = false) :
    (s.control c).2.Proper := by
  cases c with
  | reset =>
      rw [control_reset h]
      exact .inr (blank_vacant h.hooks)
  | close =>
      rw [control_close h]
      exact .inr ⟨h.hooks, rfl, rfl, rfl⟩
  | load source =>
      rw [control_load h]
      exact Proper.fed h.hooks (Act.run_load h.current source)
  | pause | resume | stop | step | setSpeed => cases hc

/-- Without a program there is nothing to drive. -/
theorem Vacant.control_same (h : s.Vacant) {c : Control} (hc : c.drives = true)
    (pace : ∀ speed, c ≠ .setSpeed speed) : (s.control c).2 = s := by
  have idle : s.machine.phase = .idle := h.idle
  have same (answer : Act.Answer) (run : (Act.control Act.plain c).run s = (.ok answer, s)) :
      ((Act.control Act.plain c).run s).2 = s := by
    rw [run]
  unfold Session.control
  rw [run_eq h.hooks]
  cases c with
  | pause =>
      refine same (.bool false) ((Act.run_bind_ok Act.run_pause).trans ?_)
      rw [paused, if_neg (by simp [idle]), decide_eq_false (by simp [idle])]
      rfl
  | resume =>
      refine same (.bool false) ((Act.run_bind_ok Act.run_resume).trans ?_)
      rw [resumed, if_neg (by simp [idle]), decide_eq_false (by simp [idle])]
      rfl
  | stop =>
      refine same .nothing ((Act.run_bind_ok (a := ⟨⟩) (t := s) ?_).trans rfl)
      unfold Act.stop
      rw [Act.run_machine_bind, if_pos (by simp [idle])]
      rfl
  | step =>
      refine same (.bool false) ((Act.run_bind_ok (a := false) (t := s) ?_).trans rfl)
      unfold Act.stepSession
      rw [Act.run_machine_bind, if_neg (by simp [h.loaded])]
      rfl
  | setSpeed speed => exact absurd rfl (pace speed)
  | reset | close | load => cases hc

theorem Vacant.control (h : s.Vacant) {c : Control} (hc : c.drives = true) :
    (s.control c).2.Vacant := by
  by_cases pace : ∃ speed, c = .setSpeed speed
  · obtain ⟨speed, rfl⟩ := pace
    rw [control_setSpeed h.hooks]
    exact h.publish _
  · rw [h.control_same hc fun speed eq => pace ⟨speed, eq⟩]
    exact h

/-- Control operations lead from proper sessions to proper ones. -/
theorem Proper.control (h : s.Proper) (c : Control) : (s.control c).2.Proper := by
  cases drives : c.drives with
  | false => exact h.reset drives
  | true =>
      rcases h with live | vacant
      · exact .inl (control_live live drives)
      · exact .inr (vacant.control drives)

/-- Without a program a run is over at once, or refused. -/
theorem Vacant.segment_created (h : s.Vacant) (direct : Bool) :
    s.segment (.created direct) =
      (.finished (if direct then some (.lifecycle .notLoaded) else none), s) := by
  have refused : (Act.segment Act.plain (.created direct)).run s =
      (if direct then .error (.lifecycle .notLoaded) else .ok (.finished none), s) := by
    show (Act.beginRun Act.plain direct).run s = _
    unfold Act.beginRun
    rw [Act.run_machine_bind]
    simp only [h.loaded]
    cases direct <;> rfl
  unfold Session.segment
  rw [run_eq h.hooks, refused]
  cases direct <;> rfl

/-- Without a program there is nothing to run, if no run is of the current
generation. -/
theorem Vacant.segment (h : s.Vacant) {state : RunState}
    (void : state.generation? ≠ some s.machine.generation) : (s.segment state).2 = s := by
  cases hg : state.generation? with
  | some generation =>
      have old : generation ≠ s.machine.generation := by
        rintro rfl
        exact void hg
      rw [segment_void h.hooks hg old]
  | none =>
      cases state with
      | created direct => rw [h.segment_created direct]
      | finished fault? =>
          unfold Session.segment
          rw [run_eq h.hooks]
          rfl
      | sleeping | waiting => cases hg

/-- Segments lead from proper sessions to proper ones, if a run of the current
generation only stands where a program does. -/
theorem Proper.segment (h : s.Proper) {state : RunState}
    (begun : state.generation? = some s.machine.generation → s.phase ≠ .idle) :
    (s.segment state).2.Proper := by
  rcases h with live | vacant
  · exact .inl (segment_live live state)
  · rw [vacant.segment fun current => begun current vacant.idle]
    exact .inr vacant

theorem Proper.fire (h : s.Proper) (id : String) :
    (s.run fun host => Act.fire host id).2.Proper := by
  rw [run_eq h.hooks]
  rcases h with live | vacant
  · exact .inl (live.drive (.fire id))
  · have run : (Act.fire Act.plain id).run s = _ := Act.run_bind_ok (Act.run_change rfl _)
    rw [run]
    exact .inr (vacant.publish _)

theorem Proper.setClock (h : s.Proper) (clock : Clock String) :
    ({ s with clock } : Session).Proper := by
  rcases h with live | vacant
  · exact .inl (live.drive (.time clock))
  · exact .inr ⟨vacant.hooks, vacant.loaded, vacant.idle, vacant.unit⟩

end Session

end Runloop
