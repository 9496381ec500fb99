/-
# What is refused

A driver faults in few ways.  Whatever goes wrong in the code that it runs ends
the program and is told on the console, so a step that is taken and a turn of a
run that has its place fault in one way only: the pacing delay is longer than a
number can be (`Session.Overpaced`).  All other faults are refusals, made before
anything was done:

  * a step is refused while a run is going on;
  * a run is refused where there is another one, or no program at all.

So whatever is refused leaves the session as it was (`Proper.control_refused`,
`Proper.segment_refused`).
-/
import Runloop.Proofs.Loading

namespace Runloop

/-- The fault is that the pacing delay of the session is no number. -/
def Session.Overpaced (s : Session) (fault : Fault) : Prop :=
  ∃ n, fault = .number n ∧ Number.quotient s.store.speed 1000 = .error n

/-- At another moment of the same pace. -/
theorem Session.Overpaced.of_speed {s t : Session} {fault : Fault} (h : t.Overpaced fault)
    (speed : t.store.speed = s.store.speed) : s.Overpaced fault := by
  unfold Overpaced at *
  rwa [speed] at h

namespace Act

variable {s : Session}

/-! ## Work -/

theorem ends_pacing :
    Ends pacing s (fun delay t => t = s ∧ Number.quotient s.store.speed 1000 = .ok delay)
      (fun fault _ => s.Overpaced fault) := by
  have converts (r : Except NumberFault Double) :
      Ends (number r) s (fun delay t => t = s ∧ r = .ok delay)
        (fun fault _ => ∃ n, fault = .number n ∧ r = .error n) := by
    cases r with
    | ok delay => exact ⟨rfl, rfl⟩
    | error n => exact ⟨n, rfl, rfl⟩
  unfold pacing
  rw [ends_bind, ends_store]
  exact converts _

/-- The unit of work of a program that is on is run without a fault. -/
theorem ends_advance (h : s.Live) (hph : s.phase ≠ .completed) (hu : s.machine.unit.isSome) :
    Ends (advance plain) s
      (fun again t => t.Live ∧ t.store.speed = s.store.speed ∧
        (again = true → t.machine.unit.isSome ∧ t.phase ≠ .completed)) (fun _ _ => False) := by
  obtain ⟨u, unit⟩ := Option.isSome_iff_exists.mp hu
  obtain ⟨again, t, run, -, goesOn, -⟩ := advance_tick (h.steady hph) hph unit
  obtain ⟨path, speed, -⟩ := (advance_leads h hph hu).ends.of_ok run
  exact .of_answer run ⟨path.live h, speed, goesOn⟩

/-- The unit of work is run to its end, and nothing goes wrong at its pauses. -/
theorem ends_runUnit {delay : Double} (h : s.Live) (hph : s.phase ≠ .completed)
    (hu : s.machine.unit.isSome) :
    Ends (runUnit plain delay) s (fun _ t => t.Live) (fun _ _ => False) := by
  unfold runUnit
  refine ends_loop (I := fun t => t.Live ∧ t.phase ≠ .completed ∧ t.machine.unit.isSome) ?_
    (fun _ ht => ht.1) ⟨h, hph, hu⟩
  rintro t ⟨live, hph, hu⟩
  rw [ends_bind]
  refine (ends_advance live hph hu).mono ?_ fun _ _ never => never
  rintro again u ⟨live, -, goesOn⟩
  cases again with
  | false => exact live
  | true =>
      obtain ⟨hu, hph⟩ := goesOn rfl
      obtain ⟨v, run, live', machine, -⟩ := fireUntil_live live (u.clock.after delay)
      show Ends (elapse plain delay >>= fun _ => pure true) u _ _
      unfold elapse
      rw [ends_bind, ends_bind, ends_get]
      split
      · refine .of_answer run ⟨live', ?_⟩
        rw [Session.phase, machine]
        exact ⟨hph, hu⟩
      · exact ⟨live, hph, hu⟩

/-- A program without work left is ended without a fault. -/
theorem ends_finish_live {Q : Unit → Session → Prop} {E : Fault → Session → Prop} (h : s.Live)
    (hph : s.phase ≠ .completed) (more : s.hasMore = false) (hQ : ∀ t, Q ⟨⟩ t) :
    Ends (finish plain) s Q E := by
  refine (ends_finish (h.unit_of_hasMore hph more)).mono ?_ fun _ _ never => never
  intro _ t _
  exact hQ t

/-- The end of a step has no fault. -/
theorem ends_afterUnit_live (h : s.Live) (generation : Nat) :
    Ends (afterUnit plain generation) s (fun _ _ => True) (fun _ _ => False) := by
  unfold afterUnit
  rw [ends_bind, ends_get]
  split
  · trivial
  · rename_i on
    have on : s.phase ≠ .completed := fun he => on (by simp [show s.machine.phase = _ from he])
    split
    · trivial
    · rename_i more
      rw [ends_bind]
      exact ends_finish_live h on (by simpa using more) fun _ => trivial

/-- What is left of a step when the program is on. -/
theorem stepUnit_faults (h : s.Live) (hph : s.phase ≠ .completed) :
    Ends (stepUnit plain) s (fun _ _ => True) (fun fault _ => s.Overpaced fault) := by
  have works {t : Session} (delay : Double) (generation : Nat) (live : t.Live)
      (hph : t.phase ≠ .completed) (hu : t.machine.unit.isSome) :
      Ends (do
        runUnit plain delay
        afterUnit plain generation) t (fun _ _ => True) (fun fault _ => s.Overpaced fault) := by
    rw [ends_bind]
    refine (ends_runUnit live hph hu).mono ?_ fun _ _ never => never.elim
    intro _ u live
    exact (ends_afterUnit_live live generation).mono (fun _ _ done => done)
      fun _ _ never => never.elim
  unfold stepUnit
  rw [ends_bind]
  refine ends_pacing.mono ?_ fun _ _ overpaced => overpaced
  rintro delay _ ⟨rfl, -⟩
  rw [ends_bind, ends_machine, ends_bind, ends_machine]
  split
  · rename_i idle
    have taken := h.drive (.take hph (by simpa using idle))
    exact works delay _ taken hph rfl
  · rename_i busy
    exact works delay _ h hph (by simpa [Option.isSome_iff_ne_none] using busy)

/-- A step is refused while a run is going on, and then nothing was done. -/
theorem step_faults (h : s.Live) :
    Ends (step plain) s (fun _ _ => True)
      (fun fault t => t = s ∧ fault = .lifecycle .runInProgress ∧ s.phase = .running ∧
        s.machine.runActive = true ∨ s.Overpaced fault) := by
  unfold step
  rw [ends_bind, ends_machine, if_neg (by simp [h.loaded])]
  split
  · trivial
  · rename_i on
    split
    · rename_i busy
      have busy : s.machine.phase = .running ∧ s.machine.runActive = true := by simpa using busy
      exact .inl ⟨rfl, rfl, busy.1, busy.2⟩
    · split
      · rw [ends_bind]
        refine .of_answer (run_setPhase .paused) ?_
        have live : (s.inPhase .paused).Live := h.drive (@Drive.phase s .paused (by simp) on)
        have paused : (s.inPhase .paused).phase ≠ .completed := by
          rw [show (s.inPhase .paused).phase = .paused from rfl]
          simp
        refine (stepUnit_faults live paused).mono (fun _ _ h => h) ?_
        intro fault _ overpaced
        exact .inr (overpaced.of_speed rfl)
      · refine (stepUnit_faults h on).mono (fun _ _ h => h) ?_
        intro fault _ overpaced
        exact .inr overpaced

/-! ## Turns of a run -/

theorem pace_faults {t : Session} (h : t.Live) (speed : t.store.speed = s.store.speed) :
    Ends (pace plain) t (fun _ _ => True) (fun fault _ => s.Overpaced fault) := by
  unfold pace
  rw [ends_bind]
  refine ends_pacing.mono ?_ ?_
  · rintro delay t ⟨rfl, -⟩
    rw [ends_bind, ends_get]
    split
    · obtain ⟨u, run, -⟩ := fireUntil_live h (t.clock.after delay)
      exact .of_answer run trivial
    · trivial
  · intro fault _ overpaced
    exact overpaced.of_speed speed

theorem turnUnit_faults {t : Session} (live : t.Live) (hph : t.phase ≠ .completed)
    (hu : t.machine.unit.isSome) (speed : t.store.speed = s.store.speed) (generation : Nat) :
    Ends (turnUnit plain generation) t (fun _ _ => True) (fun fault _ => s.Overpaced fault) := by
  unfold turnUnit
  rw [ends_bind]
  refine (ends_advance live hph hu).mono ?_ fun _ _ never => never.elim
  rintro again u ⟨live, same, -⟩
  rw [ends_bind, ends_isOver]
  split
  · trivial
  · rw [ends_bind]
    exact pace_faults live (same.trans speed)

theorem runTurn_faults (h : s.Live) (generation : Nat) :
    Ends (runTurn plain generation) s (fun _ _ => True) (fun fault _ => s.Overpaced fault) := by
  unfold runTurn
  rw [ends_bind, ends_isOver]
  split
  · trivial
  · rename_i on
    have on : s.phase ≠ .completed := fun he => on (by simp [show s.machine.phase = _ from he])
    rw [ends_bind, ends_get]
    split
    · rename_i out
      rw [ends_bind]
      exact ends_finish_live h on (by simpa using (Bool.and_eq_true_iff.mp out).2) fun _ => trivial
    · split
      · rename_i idle
        have taken := h.drive (.take on (by simpa using idle))
        exact turnUnit_faults taken on rfl rfl generation
      · rename_i busy
        exact turnUnit_faults h on (by simpa [Option.isSome_iff_ne_none] using busy) rfl generation

/-- A turn that ends a run without a fault leaves none behind. -/
theorem guardedTurn_faults (h : s.Live) (generation : Nat) :
    Ends (guardedTurn plain generation) s (fun after _ => ∀ fault, after ≠ .finished (some fault))
      (fun fault _ => s.Overpaced fault) := by
  unfold guardedTurn
  rw [ends_bind, ends_tryCatch]
  refine (runTurn_faults h generation).mono ?_ ?_
  · intro goesOn t _
    cases goesOn with
    | true => exact fun _ => RunState.noConfusion
    | false =>
        intro fault same
        cases same
  · intro fault t overpaced
    exact overpaced

/-- A run is refused where there is another one, and then nothing was done. -/
theorem beginRun_faults (h : s.Live) (direct : Bool) :
    Ends (beginRun plain direct) s (fun after _ => ∀ fault, after ≠ .finished (some fault))
      (fun fault t => t = s ∧ fault = .lifecycle .alreadyRunning ∧ s.machine.runActive = true ∨
        s.Overpaced fault) := by
  unfold beginRun
  rw [ends_bind, ends_machine, if_neg (by simp [h.loaded])]
  split
  · intro fault same
    cases same
  · rename_i on
    split
    · rename_i busy
      exact .inl ⟨rfl, rfl, busy⟩
    · rw [ends_bind, ends_modifyMachine, ends_bind]
      refine .of_answer (run_setPhase .running) ?_
      have seated := h.drive (.seat (some true) s.machine.openings true)
      have live := seated.drive (@Drive.phase _ .running (by simp) on)
      refine (guardedTurn_faults live _).mono (fun _ _ h => h) ?_
      intro fault _ overpaced
      exact .inr (overpaced.of_speed rfl)

theorem continueRun_faults (h : s.Live) (generation : Nat) :
    Ends (continueRun plain generation) s (fun after _ => ∀ fault, after ≠ .finished (some fault))
      (fun fault _ => s.Overpaced fault) := by
  unfold continueRun
  rw [ends_bind, ends_machine]
  split
  · intro fault same
    cases same
  · exact guardedTurn_faults h generation

end Act

/-! ## Sessions -/

namespace Session

variable {s : Session}

/-- Nothing goes wrong with a source but a number in it. -/
theorem fed_fault {source : String} {fault : Fault} (failed : (s.fed source).1 = .error fault) :
    ∃ n, fault = .compilation (.number n) ∧ compile source = .error (.number n) := by
  rcases s.fed_cases source with ⟨-, eq⟩ | ⟨n, compiled, eq⟩ | ⟨e, -, eq⟩ | ⟨t, -, eq⟩
  · rw [eq] at failed
    cases failed
  · rw [eq] at failed
    cases failed
    exact ⟨n, rfl, compiled⟩
  · rw [eq] at failed
    cases failed
  · rw [eq] at failed
    cases failed

/-- What goes wrong with a control operation: the source is none that can be
compiled, or a step is refused, or its pace is no number. -/
theorem Proper.control_faults (h : s.Proper) {c : Control} {fault : Fault}
    (failed : (s.control c).1 = .error fault) :
    (∃ source n, c = .load source ∧ fault = .compilation (.number n)) ∨
      c = .step ∧ ((s.control c).2 = s ∧ fault = .lifecycle .runInProgress ∧
        s.phase = .running ∧ s.machine.runActive = true ∨ s.Overpaced fault) := by
  have none {answer : Act.Answer} {t : Session} (run : s.control c = (.ok answer, t)) :
      False := by
    rw [run] at failed
    cases failed
  have plainly : s.control c = (Act.control Act.plain c).run s := run_eq h.hooks
  cases c with
  | pause => exact (none (plainly.trans (Act.run_bind_ok Act.run_pause))).elim
  | resume => exact (none (plainly.trans (Act.run_bind_ok Act.run_resume))).elim
  | stop =>
      obtain ⟨_, t, run, -⟩ := (Act.ends_stopped h).exists_ok
      exact (none (plainly.trans (Act.run_bind_ok run))).elim
  | reset => exact (none (control_reset h)).elim
  | close => exact (none (control_close h)).elim
  | setSpeed speed => exact (none (control_setSpeed h.hooks speed)).elim
  | load source =>
      rw [control_load h] at failed
      have broken : (s.blank.fed source).1 = .error fault := by
        rcases hf : s.blank.fed source with ⟨fault' | ok, t⟩
        · rw [hf] at failed
          cases failed
          rfl
        · rw [hf] at failed
          cases failed
      obtain ⟨n, eq, -⟩ := fed_fault broken
      exact .inl ⟨source, n, rfl, eq⟩
  | step =>
      rcases h with live | vacant
      · have steps : Act.Ends (Act.control Act.plain .step) s (fun _ _ => True)
            (fun fault t => t = s ∧ fault = .lifecycle .runInProgress ∧ s.phase = .running ∧
              s.machine.runActive = true ∨ s.Overpaced fault) := by
          show Act.Ends (Act.stepSession Act.plain >>= fun b => pure (Act.Answer.bool b)) s _ _
          unfold Act.stepSession
          rw [Act.ends_bind, Act.ends_bind, Act.ends_machine, if_pos live.loaded]
          exact Act.step_faults live
        rw [plainly] at failed ⊢
        exact .inr ⟨rfl, steps.of_error (Prod.ext failed rfl)⟩
      · have run : (Act.stepSession Act.plain).run s = (.ok false, s) := by
          unfold Act.stepSession
          rw [Act.run_machine_bind, if_neg (by simp [vacant.loaded])]
          rfl
        exact (none (plainly.trans (Act.run_bind_ok run))).elim

/-- An operation that is refused leaves the session as it was; it is a step, and a
run was going on. -/
theorem Proper.control_refused (h : s.Proper) {c : Control} {f : LifecycleFault}
    (refused : (s.control c).1 = .error (.lifecycle f)) :
    (s.control c).2 = s ∧ c = .step ∧ f = .runInProgress ∧ s.phase = .running ∧
      s.machine.runActive = true := by
  rcases h.control_faults refused with ⟨_, _, -, eq⟩ | ⟨step, ⟨same, eq, busy⟩ | ⟨_, eq, -⟩⟩
  · cases eq
  · cases eq
    exact ⟨same, step, rfl, busy⟩
  · cases eq

/-- What goes wrong with a segment of a run of a program: there is another run, or
the pace is no number. -/
theorem Live.segment_faults (h : s.Live) {state : RunState} {fault : Fault}
    (on : state.isFinished = false) (failed : (s.segment state).1 = .finished (some fault)) :
    (∃ direct, state = .created direct) ∧ (s.segment state).2 = s ∧
        fault = .lifecycle .alreadyRunning ∧ s.machine.runActive = true ∨ s.Overpaced fault := by
  have ends : Act.Ends (Act.segment Act.plain state) s
      (fun after _ => ∀ fault, after ≠ .finished (some fault))
      (fun fault t => (∃ direct, state = .created direct) ∧ t = s ∧
        fault = .lifecycle .alreadyRunning ∧ s.machine.runActive = true ∨ s.Overpaced fault) := by
    cases state with
    | created direct =>
        refine (Act.beginRun_faults h direct).mono (fun _ _ h => h) ?_
        rintro fault t (refused | overpaced)
        · exact .inl ⟨⟨direct, rfl⟩, refused⟩
        · exact .inr overpaced
    | sleeping generation | waiting generation _ =>
        refine (Act.continueRun_faults h generation).mono (fun _ _ h => h) ?_
        exact fun _ _ overpaced => .inr overpaced
    | finished => cases on
  unfold segment at failed ⊢
  rw [run_eq h.hooks] at failed ⊢
  unfold Act.Ends at ends
  split at ends
  · rename_i after t run
    rw [run] at failed
    exact absurd failed (ends fault)
  · rename_i fault' t run
    rw [run] at failed ⊢
    cases failed
    exact ends

/-- A run that is refused leaves the session as it was: there is another one, or no
program. -/
theorem Proper.segment_refused (h : s.Proper) {state : RunState} {f : LifecycleFault}
    (begun : state.generation? = some s.machine.generation → s.phase ≠ .idle)
    (on : state.isFinished = false)
    (refused : (s.segment state).1 = .finished (some (.lifecycle f))) :
    (s.segment state).2 = s ∧
      ((∃ direct, state = .created direct) ∧ f = .alreadyRunning ∧ s.machine.runActive = true ∨
        state = .created true ∧ f = .notLoaded ∧ s.machine.loaded = false) := by
  rcases h with live | vacant
  · rcases live.segment_faults on refused with ⟨created, same, eq, busy⟩ | ⟨_, eq, -⟩
    · cases eq
      exact ⟨same, .inl ⟨created, rfl, busy⟩⟩
    · cases eq
  · have void : state.generation? ≠ some s.machine.generation := fun current =>
      begun current vacant.idle
    refine ⟨vacant.segment void, ?_⟩
    cases hg : state.generation? with
    | some generation =>
        have old : generation ≠ s.machine.generation := by
          rintro rfl
          exact void hg
        rw [segment_void vacant.hooks hg old] at refused
        cases refused
    | none =>
        cases state with
        | created direct =>
            rw [vacant.segment_created direct] at refused
            cases direct with
            | true =>
                cases refused
                exact .inr ⟨rfl, rfl, vacant.loaded⟩
            | false => cases refused
        | finished => cases on
        | sleeping | waiting => cases hg

end Session

end Runloop
