/-
# Who runs what is shown as running

A session keeps one place for a run.  It is taken exactly while there is a run of
the current generation that is not over (`Schedule.Manned`), and if the program
runs then, that run is in the queue and the next segment is its own.

A program may be shown as running although the place is free.  Stepping a program
that is idle makes it paused without any run, and resuming does not ask whether
there is one.  This, and a run that ends because its pace is no number, are the
only ways (`running_is_manned`, `resuming_runs_nothing`).
-/
import Runloop.Proofs.Ending
import Runloop.Proofs.Refusal
import Runloop.Proofs.Runs

namespace Runloop

/-! ## The place for a run -/

namespace Seat

variable {a b : Seat} {c : Control} {state after : RunState}

theorem opened_runActive (a : Seat) : a.opened.runActive = a.runActive := by
  unfold opened
  split
  · rfl
  · rfl

theorem opened_generation (a : Seat) : a.opened.generation = a.generation := by
  unfold opened
  split
  · rfl
  · rfl

/-- An operation takes nobody's place, and gives it to nobody. -/
theorem Controlled.keeps_place (hc : Controlled c a b) (active : b.runActive = true) :
    a.runActive = true ∧ b.generation = a.generation := by
  cases hc.operated with
  | nothing | pauses | begins | ends => exact ⟨active, rfl⟩
  | resumes => exact ⟨(opened_runActive a).symm.trans active, opened_generation a⟩
  | stops | clears => exact absurd ((opened_runActive a.voided).symm.trans active) nofun

/-- If the place is taken after a turn, it is the place of the run that had it. -/
theorem Turned.takes_place (ht : a.Turned after b) (active : b.runActive = true) :
    after.generation? = some b.generation := by
  rcases ht with ⟨rfl, -, rfl⟩ | ⟨-, c, -, rfl⟩
  · rfl
  · cases active

/-- If the place is taken after a segment, it is the place of the run that had it,
or that run has found it free. -/
theorem Ran.takes_place (hr : Ran state after a b) (active : b.runActive = true)
    (own : state.generation? = some a.generation ∨ a.runActive = false) :
    after.generation? = some b.generation := by
  have continued {generation : Nat} (hg : state.generation? = some generation)
      (h : Continued generation after a b) : after.generation? = some b.generation := by
    rcases h with ⟨void, -, rfl⟩ | ⟨rfl, -, rfl, rfl⟩ | ⟨-, -, turned⟩
    · rcases own with current | free
      · exact absurd (Option.some.inj (hg.symm.trans current)) void
      · exact absurd (active.symm.trans free) (by simp)
    · rfl
    · exact turned.takes_place active
  cases state with
  | created direct =>
      rcases hr with ⟨-, rfl⟩ | ⟨-, -, turned⟩
      · rcases own with current | free
        · cases current
        · exact absurd (active.symm.trans free) (by simp)
      · exact turned.takes_place active
  | sleeping generation => exact continued rfl hr
  | waiting generation openings => exact continued rfl hr
  | finished fault? =>
      obtain ⟨-, rfl⟩ := hr
      rcases own with current | free
      · cases current
      · exact absurd (active.symm.trans free) (by simp)

end Seat

namespace Schedule

variable {q q' : Schedule} {key k id : Nat} {s t : Session} {r : Run}

/-- A run of a session has begun in a generation and is not over. -/
def Crewed (q : Schedule) (key generation : Nat) : Prop :=
  ∃ id r, q.run? id = some r ∧ r.owner = key ∧ r.state.generation? = some generation

/-- If the place of a session is taken, a run of the current generation has it. -/
def Manned (q : Schedule) (key : Nat) : Prop :=
  ∀ s, q.session? key = some s → s.machine.runActive = true → q.Crewed key s.machine.generation

theorem Crewed.put {generation : Nat} (h : q.Crewed key generation) (k : Nat) (t : Session) :
    (q.putSession k t).Crewed key generation := by
  obtain ⟨id, r, hr, own, current⟩ := h
  refine ⟨id, r.woken k t, ?_, ?_, ?_⟩
  · rw [run?_putSession, hr]
    rfl
  · rw [Run.woken_owner]
    exact own
  · rw [Run.woken_generation?]
    exact current

theorem Crewed.setRun {generation : Nat} {after : RunState} (h : q.Crewed key generation)
    (hr : q.run? id = some r)
    (same : r.owner = key → r.state.generation? = some generation →
      after.generation? = some generation) :
    (q.setRun id after).Crewed key generation := by
  obtain ⟨i, r', hr', own, current⟩ := h
  by_cases this : i = id
  · subst this
    obtain rfl : r = r' := Option.some.inj (hr.symm.trans hr')
    refine ⟨i, ⟨r.owner, after⟩, ?_, own, same own current⟩
    rw [run?_setRun, if_pos rfl, hr]
    rfl
  · refine ⟨i, r', ?_, own, current⟩
    rw [run?_setRun, if_neg this]
    exact hr'

namespace Manned

/-- A session that was changed between two segments is put back. -/
theorem put (h : q.Manned key) (hk : q.session? k = some s)
    (place : t.machine.runActive = true →
      s.machine.runActive = true ∧ t.machine.generation = s.machine.generation) :
    (q.putSession k t).Manned key := by
  intro u hu active
  rw [session?_putSession, hk] at hu
  split at hu
  · rename_i same
    obtain ⟨rfl, -⟩ := same
    cases hu
    obtain ⟨active, generation⟩ := place active
    rw [generation]
    exact (h s hk active).put key t
  · exact (h u hu active).put k t

/-- A run has had a segment. -/
theorem ran {after : RunState} (h : q.Manned key) (hr : q.run? id = some r)
    (hs : q.session? r.owner = some s) (ran : Seat.Ran r.state after s.seat t.seat) :
    ((q.setRun id after).putSession r.owner t).Manned key := by
  intro u hu active
  rw [session?_putSession] at hu
  split at hu
  · rename_i same
    obtain ⟨rfl, -⟩ := same
    cases hu
    have generation : t.machine.generation = s.machine.generation := ran.generation
    refine Crewed.put ?_ r.owner t
    cases taken : s.machine.runActive with
    | true =>
        have crewed := h s hs taken
        rw [← generation] at crewed
        refine crewed.setRun hr fun _ current => ran.takes_place active (.inl ?_)
        rw [current]
        exact congrArg some generation
    | false =>
        refine ⟨id, ⟨r.owner, after⟩, ?_, rfl, ran.takes_place active (.inr taken)⟩
        rw [run?_setRun, if_pos rfl, hr]
        rfl
  · rename_i other
    refine Crewed.put ((h u hu active).setRun hr fun own => ?_) r.owner t
    refine absurd ⟨own.symm, ?_⟩ other
    rw [show (q.setRun id after).session? r.owner = q.session? r.owner from rfl, hs]
    rfl

theorem command (ordered : q.Orderly) (h : q.Manned key) (k : Nat) (c : Control) :
    (q.command k c).Manned key := by
  cases hk : q.session? k with
  | none =>
      have same : q.command k c = q := by simp only [Schedule.command, hk]
      rw [same]
      exact h
  | some s =>
      rw [command_of_some hk]
      exact h.put hk (Session.control_turns (ordered.proper hk) c).seat.keeps_place

theorem perform (ordered : q.Orderly) (h : q.Manned key) (job : Job) :
    (q.perform job).Manned key := by
  have performed := q.performed job
  generalize q.perform job = q' at performed
  cases performed with
  | nothing => exact h
  | @gaveWay id generation r s hr hs sleeps =>
      have ran := (Session.segment_turns (ordered.proper hs).hooks r.state).seat
      rw [sleeps] at ran
      exact h.ran hr hs ran
  | @rests id r s hr hs _ =>
      exact h.ran hr hs (Session.segment_turns (ordered.proper hs).hooks r.state).seat
  | @fired k serial task s hs _ =>
      refine h.put hs fun active => ?_
      rw [Session.run_eq (ordered.proper hs).hooks] at active ⊢
      have same := (Act.stays_fire task s).after.seat
      exact ⟨(congrArg Seat.runActive same).trans active, (congrArg Seat.generation same).symm⟩

theorem beginRound (h : q.Manned key) : q.beginRound.Manned key := by
  intro t ht active
  rw [show q.beginRound.session? key = q.takeTimers.session? key from rfl,
    session?_takeTimers] at ht
  obtain ⟨s, hs, eq⟩ := Option.map_eq_some_iff.mp ht
  have machine : t.machine = s.machine := by
    rw [← eq]
    split
    · rfl
    · rfl
  rw [machine] at active ⊢
  exact h s hs active

/-- A run that is started takes nobody's place. -/
theorem start (h : q.Manned key) (k : Nat) (direct : Bool) : (q.start k direct).1.Manned key := by
  intro s hs active
  obtain ⟨id, r, hr, own, current⟩ := h s hs active
  refine ⟨id, r, ?_, own, current⟩
  rw [run?_start, if_neg (Nat.ne_of_lt (List.getElem?_eq_some_iff.mp hr).1)]
  exact hr

theorem add (h : q.Manned key) (free : t.machine.runActive = false) :
    (q.addSession t).1.Manned key := by
  intro s hs active
  rw [session?_addSession] at hs
  split at hs
  · cases hs
    exact absurd (active.symm.trans free) (by simp)
  · exact h s hs active

end Manned

theorem Reachable.manned (h : q.Reachable) (key : Nat) : q.Manned key := by
  induction h with
  | refl =>
      intro s hs
      cases hs
  | @tail q q' before step ih =>
      have ordered : q.Orderly := Reachable.orderly before
      cases step with
      | create speed limits realtime => exact ih.add rfl
      | start direct _ => exact ih.start _ direct
      | command k c => exact ih.command ordered k c
      | @job job rest _ =>
          have ordered : ({ q with ready := rest } : Schedule).Orderly :=
            ⟨ordered.proper, ordered.seats, ordered.fits, ordered.alone⟩
          have ih : ({ q with ready := rest } : Schedule).Manned key := ih
          exact ih.perform ordered job
      | round _ => exact ih.beginRound

end Schedule

/-! ## Running without a run -/

namespace Seat

variable {a b : Seat} {c : Control} {state after : RunState}

/-- An operation makes a program run without a run only by resuming one that was
paused without a run. -/
theorem Controlled.unmanned_running (hc : Controlled c a b) (running : b.phase = .running)
    (free : b.runActive = false) :
    a.phase = .running ∧ a.runActive = false ∨
      c = .resume ∧ a.phase = .paused ∧ a.runActive = false := by
  cases hc.operated with
  | nothing => exact .inl ⟨running, free⟩
  | resumes paused => exact .inr ⟨rfl, paused, (opened_runActive a).symm.trans free⟩
  | pauses | stops | clears | begins | ends => cases running

/-- An operation makes a program paused without a run by the first step of an idle
one, or by pausing one that ran without a run. -/
theorem Controlled.unmanned_paused (hc : Controlled c a b) (halted : b.phase = .paused)
    (free : b.runActive = false) :
    a.phase = .paused ∧ a.runActive = false ∨ c = .step ∧ a.phase = .idle ∨
      c = .pause ∧ a.phase = .running ∧ a.runActive = false := by
  cases hc.operated with
  | nothing => exact .inl ⟨halted, free⟩
  | pauses running => exact .inr (.inr ⟨rfl, running, free⟩)
  | begins idle => exact .inr (.inl ⟨rfl, idle⟩)
  | resumes | stops | clears | ends => cases halted

/-- A segment pauses nothing. -/
theorem Ran.unmanned_paused (hr : Ran state after a b) (halted : b.phase = .paused) : b = a := by
  have turned {a : Seat} (on : a.phase ≠ .paused) (ht : a.Turned after b) : False := by
    rcases ht with ⟨-, -, rfl⟩ | ⟨-, c, rfl | rfl, rfl⟩
    · exact on halted
    · exact on halted
    · cases halted
  rcases hr.cases with ⟨rfl, -⟩ | ⟨-, on, ht⟩ | ⟨-, ht⟩
  · rfl
  · exact (turned on ht).elim
  · exact (turned (by simp [entered, inPhase]) ht).elim

/-- A segment frees the place of a program that runs only by ending the run. -/
theorem Ran.unmanned_running (hr : Ran state after a b) (free : b.runActive = false) :
    b = a ∨ after.isFinished = true := by
  rcases hr.cases with ⟨rfl, -⟩ | ⟨-, -, ⟨-, -, rfl⟩ | ⟨ended, -⟩⟩ | ⟨-, ⟨-, -, rfl⟩ | ⟨ended, -⟩⟩
  · exact .inl rfl
  · exact .inl rfl
  · exact .inr ended
  · cases free
  · exact .inr ended

end Seat

namespace Act

variable {s : Session}

theorem ends_finish_over :
    Ends (finish plain) s (fun _ t => t.phase = .completed) (fun _ _ => True) := by
  unfold finish
  rw [ends_bind]
  refine (stays_closeUnit s).mono ?_ fun _ _ _ => trivial
  intro _ t _
  refine ends_concluding.mono ?_ fun _ _ _ => trivial
  intro _ u hu
  exact congrArg Seat.phase hu.seat

theorem ends_turnUnit_over {u : Session} (hu : s.Turns Eq u) :
    Ends (turnUnit plain s.machine.generation) u
      (fun goesOn t => goesOn = false → t.phase = .completed) (fun _ _ => True) := by
  unfold turnUnit
  rw [ends_bind]
  refine (settles_advance u).mono ?_ fun _ _ _ => trivial
  intro _ v hv
  -- the run is still the current one, so it is over only if the program is
  have current : v.machine.generation = s.machine.generation :=
    (hu.after hv).seat.generation
  rw [ends_bind, ends_isOver]
  split
  · rename_i ended
    intro _
    simpa [current, Session.phase] using ended
  · rw [ends_bind]
    refine (stays_pace v).mono ?_ fun _ _ _ => trivial
    intro _ w _ again
    cases again

/-- A turn that ends a run without a fault has found the program over. -/
theorem ends_runTurn_over :
    Ends (runTurn plain s.machine.generation) s
      (fun goesOn t => goesOn = false → t.phase = .completed) (fun _ _ => True) := by
  unfold runTurn
  rw [ends_bind, ends_isOver]
  split
  · rename_i ended
    intro _
    simpa [Session.phase] using ended
  · rw [ends_bind, ends_get]
    split
    · rw [ends_bind]
      refine ends_finish_over.mono ?_ fun _ _ _ => trivial
      intro _ t ended _
      exact ended
    · split
      · rw [ends_bind]
        refine (stays_nextUnit s).mono ?_ fun _ _ _ => trivial
        intro _ u hu
        exact ends_turnUnit_over hu
      · exact ends_turnUnit_over (.refl s)

theorem ends_guardedTurn_over :
    Ends (guardedTurn plain s.machine.generation) s
      (fun after t => after = .finished none → t.phase = .completed) (fun _ _ => True) := by
  unfold guardedTurn
  rw [ends_bind, ends_tryCatch]
  refine ends_runTurn_over.mono ?_ fun _ _ _ => trivial
  intro goesOn t ended
  cases goesOn with
  | true =>
      intro ends
      cases ends
  | false =>
      have ended : t.machine.phase = .completed := ended rfl
      rw [if_neg Bool.false_ne_true, ends_bind]
      unfold leaveRun
      rw [ends_modifyMachine]
      intro _
      show (if _ then _ else _ : Machine).phase = .completed
      split
      · exact ended
      · exact ended

end Act

namespace Session

variable {s : Session} {state : RunState}

/-- A run that ends without a fault has done nothing, or the program is over. -/
theorem segment_ended (hooks : s.hooks = []) (ended : (s.segment state).1 = .finished none) :
    (s.segment state).2 = s ∨ (s.segment state).2.phase = .completed := by
  have turn {t : Session} (generation : Nat) (ht : t = s ∨ t.machine.generation = generation) :
      Act.Ends (Act.guardedTurn Act.plain generation) t
        (fun after u => after = .finished none → u = s ∨ u.phase = .completed)
        (fun _ _ => True) := by
    by_cases void : generation = t.machine.generation
    · subst void
      refine Act.ends_guardedTurn_over.mono ?_ fun _ _ _ => trivial
      intro after u ends same
      exact .inr (ends same)
    · have same : t = s := ht.resolve_right fun eq => void eq.symm
      exact .of_answer (Act.run_guardedTurn_void void) fun _ => .inl same
  have continues (generation : Nat) :
      Act.Ends (Act.continueRun Act.plain generation) s
        (fun after u => after = .finished none → u = s ∨ u.phase = .completed)
        (fun _ _ => True) := by
    unfold Act.continueRun
    rw [Act.ends_bind, Act.ends_machine]
    split
    · exact fun _ => .inl rfl
    · exact turn generation (.inl rfl)
  have ends : Act.Ends (Act.segment Act.plain state) s
      (fun after u => after = .finished none → u = s ∨ u.phase = .completed)
      (fun _ _ => True) := by
    cases state with
    | created direct =>
        show Act.Ends (Act.beginRun Act.plain direct) s _ _
        unfold Act.beginRun
        rw [Act.ends_bind, Act.ends_machine]
        split
        · split
          · trivial
          · exact fun _ => .inl rfl
        · split
          · exact fun _ => .inl rfl
          · split
            · trivial
            · rw [Act.ends_bind, Act.ends_modifyMachine, Act.ends_bind]
              refine .of_answer (Act.run_setPhase .running) ?_
              exact turn s.machine.generation (.inr rfl)
    | sleeping generation | waiting generation _ => exact continues generation
    | finished fault? => exact fun _ => .inl rfl
  unfold segment at *
  rw [run_eq hooks] at *
  unfold Act.Ends at ends
  split at ends
  · rename_i run
    rw [run] at ended ⊢
    exact ends ended
  · rename_i run
    rw [run] at ended
    cases ended

/-- A segment leaves a program running without a run only if it was so before, or
the run ends because its pace is no number. -/
theorem Proper.segment_unmanned (h : s.Proper)
    (begun : state.generation? = some s.machine.generation → s.phase ≠ .idle)
    (running : (s.segment state).2.phase = .running)
    (free : (s.segment state).2.machine.runActive = false) :
    s.phase = .running ∧ s.machine.runActive = false ∨
      ∃ fault, (s.segment state).1 = .finished (some fault) ∧ s.Overpaced fault := by
  have same (eq : (s.segment state).2.seat = s.seat) :
      s.phase = .running ∧ s.machine.runActive = false :=
    ⟨(congrArg Seat.phase eq).symm.trans running, (congrArg Seat.runActive eq).symm.trans free⟩
  rcases (segment_turns h.hooks state).seat.unmanned_running free with eq | ended
  · exact .inl (same eq)
  · cases after : (s.segment state).1 with
    | created | sleeping | waiting =>
        rw [after] at ended
        cases ended
    | finished fault? =>
        cases fault? with
        | none =>
            rcases segment_ended h.hooks after with eq | ended
            · exact .inl (same (by rw [eq]))
            · exact absurd (running.symm.trans ended) (by simp)
        | some fault =>
            cases on : state.isFinished with
            | true =>
                cases state with
                | finished fault? =>
                    have unchanged := (segment_turns h.hooks (.finished fault?)).seat.2
                    exact .inl (same unchanged)
                | created | sleeping | waiting => cases on
            | false =>
                rcases h with live | vacant
                · rcases live.segment_faults on after with ⟨-, eq, -⟩ | overpaced
                  · exact .inl (same (by rw [eq]))
                  · exact .inr ⟨fault, rfl, overpaced⟩
                · have eq := vacant.segment fun current => begun current vacant.idle
                  exact .inl (same (by rw [eq]))

/-- A run that finds the place taken is refused. -/
theorem Live.segment_busy (h : s.Live) (on : s.phase ≠ .completed)
    (busy : s.machine.runActive = true) (direct : Bool) :
    s.segment (.created direct) = (.finished (some (.lifecycle .alreadyRunning)), s) := by
  have refused : (Act.segment Act.plain (.created direct)).run s =
      (.error (.lifecycle .alreadyRunning), s) := by
    show (Act.beginRun Act.plain direct).run s = _
    unfold Act.beginRun
    rw [Act.run_machine_bind, if_neg (by simp [h.loaded]),
      if_neg (show ¬ s.machine.phase = .completed from on), if_pos busy]
    rfl
  unfold Session.segment
  rw [run_eq h.hooks, refused]

end Session

namespace Schedule

variable {q q' : Schedule} {key id : Nat} {s t : Session} {r : Run}

/-- The run that has the place of a program that runs does not wait. -/
theorem Orderly.crew_sleeps (h : q.Orderly) (hs : q.session? key = some s)
    (running : s.phase = .running) (crewed : q.Crewed key s.machine.generation) :
    ∃ id, q.run? id = some ⟨key, .sleeping s.machine.generation⟩ := by
  obtain ⟨id, ⟨owner, state⟩, hr, rfl, current⟩ := crewed
  refine ⟨id, ?_⟩
  have fits := h.fit hr hs
  cases state with
  | sleeping generation =>
      cases current
      exact hr
  | waiting generation openings =>
      have closed := (fits.waits generation openings rfl).2.2
      rcases (h.seats hs).closed closed with paused | ended
      · exact absurd (running.symm.trans paused) (by simp)
      · exact absurd (running.symm.trans ended) (by simp)
  | created | finished => cases current

/-- Beside the run that has the place, no run does anything. -/
theorem Orderly.others_idle (h : q.Orderly) (hs : q.session? key = some s)
    (running : s.phase = .running) (busy : s.machine.runActive = true)
    (crew : q.run? id = some ⟨key, .sleeping s.machine.generation⟩) {i : Nat}
    (hr : q.run? i = some r) (own : r.owner = key) (other : i ≠ id) :
    (s.segment r.state).2 = s := by
  have proper := h.proper hs
  cases hg : r.state.generation? with
  | some generation =>
      have void : generation ≠ s.machine.generation := by
        rintro rfl
        exact other (h.alone crew hr own hs rfl hg)
      rw [Session.segment_void proper.hooks hg void]
  | none =>
      rcases proper with live | vacant
      · cases hstate : r.state with
        | created direct => rw [live.segment_busy (by simp [running]) busy]
        | finished fault? =>
            unfold Session.segment
            rw [Session.run_eq live.hooks]
            rfl
        | sleeping | waiting =>
            rw [hstate] at hg
            cases hg
      · exact absurd (vacant.idle.symm.trans running) (by simp)

theorem Evolved.unmanned_running (h : q.Orderly) (hs : q.session? key = some s)
    (e : Evolved q q' key s t) (running : t.phase = .running) (free : t.machine.runActive = false) :
    s.phase = .running ∧ s.machine.runActive = false ∨
      s.phase = .paused ∧ s.machine.runActive = false ∧ q' = q.command key .resume ∨
      ∃ id r fault, q.run? id = some r ∧ r.owner = key ∧
        s.segment r.state = (.finished (some fault), t) ∧ s.Overpaced fault := by
  have proper := h.proper hs
  cases e with
  | still => exact .inl ⟨running, free⟩
  | command c command =>
      rcases (Session.control_turns proper c).seat.unmanned_running running free with
        before | ⟨rfl, paused, free⟩
      · exact .inl before
      · exact .inr (.inl ⟨paused, free, command⟩)
  | @segment id r hr own =>
      subst own
      have begun : r.state.generation? = some s.machine.generation → s.phase ≠ .idle := by
        intro current
        exact ((h.seats hs).begun ((h.fit hr hs).active current)).1
      rcases proper.segment_unmanned begun running free with before | ⟨fault, ended, overpaced⟩
      · exact .inl before
      · exact .inr (.inr ⟨id, r, fault, hr, rfl, Prod.ext ended rfl, overpaced⟩)
  | @fire serial task _ _ =>
      rw [Session.run_eq proper.hooks] at running free
      have same := (Act.stays_fire task s).after.seat
      exact .inl ⟨(congrArg Seat.phase same).trans running,
        (congrArg Seat.runActive same).trans free⟩
  | takeTimers _ => exact .inl ⟨running, free⟩

theorem Evolved.unmanned_paused (h : q.Orderly) (hs : q.session? key = some s)
    (e : Evolved q q' key s t) (paused : t.phase = .paused) (free : t.machine.runActive = false) :
    s.phase = .paused ∧ s.machine.runActive = false ∨
      s.phase = .idle ∧ q' = q.command key .step ∨
      s.phase = .running ∧ s.machine.runActive = false ∧ q' = q.command key .pause := by
  have proper := h.proper hs
  have same (seat : t.seat = s.seat) : s.phase = .paused ∧ s.machine.runActive = false :=
    ⟨(congrArg Seat.phase seat).symm.trans paused, (congrArg Seat.runActive seat).symm.trans free⟩
  cases e with
  | still => exact .inl ⟨paused, free⟩
  | command c command =>
      rcases (Session.control_turns proper c).seat.unmanned_paused paused free with
        before | ⟨rfl, idle⟩ | ⟨rfl, running, free⟩
      · exact .inl before
      · exact .inr (.inl ⟨idle, command⟩)
      · exact .inr (.inr ⟨running, free, command⟩)
  | segment _ _ =>
      exact .inl (same ((Session.segment_turns proper.hooks _).seat.unmanned_paused paused))
  | fire _ _ =>
      refine .inl (same ?_)
      rw [Session.run_eq proper.hooks]
      exact (Act.stays_fire _ s).after.seat.symm
  | takeTimers _ => exact .inl ⟨paused, free⟩

/-- The place of a session is taken exactly while a run of the current generation
is not over.  If the program runs and the place is taken, that run has a segment
to run and is in the queue, and no other run of the session does anything.  A
program comes to run with its place free in two ways: one that was paused with its
place free is resumed, or a run ends because its pace is no number.  And it comes
to be paused with its place free by the first step of an idle program, or by
pausing one that ran so. -/
theorem running_is_manned {q : Schedule} (h : q.Reachable) {key : Nat} {s : Session}
    (hs : q.session? key = some s) :
    (s.machine.runActive = true ↔ q.Crewed key s.machine.generation) ∧
    (s.phase = .running → s.machine.runActive = true →
      ∃ id, q.run? id = some ⟨key, .sleeping s.machine.generation⟩ ∧
        .run id ∈ q.ready ++ q.next ∧
        ∀ i r, q.run? i = some r → r.owner = key → i ≠ id → (s.segment r.state).2 = s) ∧
    (∀ q' t, q.Step q' → q'.session? key = some t → t.phase = .running →
      t.machine.runActive = false →
        s.phase = .running ∧ s.machine.runActive = false ∨
        s.phase = .paused ∧ s.machine.runActive = false ∧ q' = q.command key .resume ∨
        ∃ id r fault, q.run? id = some r ∧ r.owner = key ∧
          s.segment r.state = (.finished (some fault), t) ∧ s.Overpaced fault) ∧
    ∀ q' t, q.Step q' → q'.session? key = some t → t.phase = .paused →
      t.machine.runActive = false →
        s.phase = .paused ∧ s.machine.runActive = false ∨
        s.phase = .idle ∧ q' = q.command key .step ∨
        s.phase = .running ∧ s.machine.runActive = false ∧ q' = q.command key .pause := by
  have ordered := h.orderly
  refine ⟨⟨h.manned key s hs, ?_⟩, ?_, ?_, ?_⟩
  · rintro ⟨id, r, hr, rfl, current⟩
    exact (ordered.fit hr hs).active current
  · intro running busy
    obtain ⟨id, crew⟩ := ordered.crew_sleeps hs running (h.manned key s hs busy)
    refine ⟨id, crew, h.queued id _ crew rfl (by simp), ?_⟩
    intro i r hr own other
    exact ordered.others_idle hs running busy crew hr own other
  · intro q' t step ht running free
    obtain ⟨t', ht', evolved⟩ := step.evolved hs
    obtain rfl : t' = t := Option.some.inj (ht'.symm.trans ht)
    exact evolved.unmanned_running ordered hs running free
  · intro q' t step ht paused free
    obtain ⟨t', ht', evolved⟩ := step.evolved hs
    obtain rfl : t' = t := Option.some.inj (ht'.symm.trans ht)
    exact evolved.unmanned_paused ordered hs paused free

/-- The first of the two lines is stepped over, and then the program is resumed. -/
def resumed : Schedule := (loaded.command 0 .step).command 0 .resume

theorem reachable_resumed : resumed.Reachable := by
  have created := (Reachable.empty.create 0 {} true).command 0 (.load "let a = 1;\nlet b = 2;")
  exact (created.command 0 .step).command 0 .resume

/-- The first step of the program leaves it paused, and nobody has its place. -/
theorem loaded_step :
    ∃ s, (loaded.command 0 .step).session? 0 = some s ∧ s.phase = .paused ∧
      s.machine.runActive = false := by
  obtain ⟨fresh, made⟩ : ∃ fresh, fresh =
      (Session.create 0 {} true).control (.load "let a = 1;\nlet b = 2;") := ⟨_, rfl⟩
  obtain ⟨t, taken⟩ : ∃ t, t = ((Act.advance Act.plain).run fresh.2.held.ready).2 := ⟨_, rfl⟩
  obtain ⟨loads, ran, paused, free, more⟩ : fresh.1 = .ok (.bool true) ∧
      ((Act.advance Act.plain).run fresh.2.held.ready).1 = .ok false ∧ t.phase = .paused ∧
      t.machine.runActive = false ∧ t.hasMore = true := by
    subst taken made
    decide +kernel
  have converts : Number.quotient 0 1000 = .ok .zero := by decide +kernel
  have there : loaded.session? 0 = some fresh.2 := by
    rw [made]
    exact session?_command (s := .create 0 {} true) rfl _
  have answered : (Session.create 0 {} true).control (.load "let a = 1;\nlet b = 2;") =
      (.ok (.bool true), fresh.2) := by
    rw [← made]
    exact Prod.ext loads rfl
  obtain ⟨live, clock, -, speed, -, idle, -⟩ := Session.loaded_eq answered
  have idle : fresh.2.phase = .idle := idle
  have paced : fresh.2.Paced .zero := by
    refine ⟨live, speed ▸ converts, fun _ => ?_⟩
    rw [clock]
    exact .starting rfl
  have left : t.settled = (true, t) := by
    rw [Session.settled, if_neg (by simp [paused]), if_pos more]
  have steps := paced.step_of_advance (by simp [idle]) (by simp [Session.Steppable, idle])
    (Prod.ext ran taken.symm)
  refine ⟨t, ?_, paused, free⟩
  rw [session?_command there, steps, left]

/-- A program that was stepped and is then resumed is shown as running, and there is
no run. -/
theorem resuming_runs_nothing :
    ∃ s, resumed.session? 0 = some s ∧ s.phase = .running ∧ s.store.state.isRunning = true ∧
      s.machine.runActive = false ∧ ¬ resumed.Crewed 0 s.machine.generation := by
  obtain ⟨s, hs, paused, free⟩ := loaded_step
  have there : resumed.session? 0 = some (s.control .resume).2 := session?_command hs .resume
  have stepped : (loaded.command 0 .step).Reachable :=
    ((Reachable.empty.create 0 {} true).command 0 _).command 0 .step
  have proper := stepped.orderly.proper hs
  have seat : (s.control .resume).2.seat = (s.seat.inPhase .running).opened := by
    have turns : (s.control .resume).2.seat = s.seat.resumed :=
      (Session.control_turns proper .resume).seat
    rw [turns, Seat.resumed, if_pos (show s.seat.phase = .paused from paused)]
  rw [Seat.opened_inPhase] at seat
  have vacant : (s.control .resume).2.machine.runActive = false :=
    (congrArg Seat.runActive seat).trans ((Seat.opened_runActive _).trans free)
  obtain ⟨manned, -⟩ := running_is_manned reachable_resumed there
  refine ⟨_, there, congrArg Seat.phase seat, congrArg Seat.isRunning seat, vacant, ?_⟩
  intro crewed
  exact absurd (vacant.symm.trans (manned.mpr crewed)) (by simp)

end Schedule

end Runloop
