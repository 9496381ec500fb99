/-
# Steps and runs that are interrupted

When an intruder voids a run in the middle of a segment, that segment is the last
one: a step answers that no work is left, and a run is finished.  This is said
once, for any account `J` of what holds between two segments and `P` of what an
interrupted segment leaves behind (`Rides.step`, `Rides.segment`).
-/
import Runloop.Proofs.Intruding
import Runloop.Proofs.Commands

namespace Runloop

namespace Act

variable {s t : Session}

/-- Between two segments `J` holds, until one of them is interrupted in a way
that voids the run; then `P` holds. -/
structure Rides (host : Host) (J P : Session → Prop) : Prop where
  setPhase : ∀ {s : Session} {phase : Phase}, J s → s.phase ≠ .completed → phase ≠ .completed →
    Ends (setPhase host phase) s (fun _ t => J t ∧ t.phase = phase) (fun _ _ => False)
  nextUnit : ∀ {s : Session}, J s → s.phase ≠ .completed → s.machine.unit = none →
    Ends nextUnit s
      (fun _ t => J t ∧ t.machine.phase = s.machine.phase ∧ t.machine.unit ≠ none)
      (fun _ _ => False)
  advance : ∀ {s : Session}, J s → s.phase ≠ .completed → s.machine.unit ≠ none →
    Ends (advance host) s
      (fun again t => J t ∧ (again = true → t.phase ≠ .completed ∧ t.machine.unit ≠ none) ∨
        again = false ∧ P t)
      (fun _ t => J t)
  fireUntil : ∀ {s : Session} (target : Double), J s → s.phase ≠ .completed →
    Ends (fireUntil host target) s (fun _ t => J t ∧ t.machine = s.machine) (fun _ _ => False)
  finish : ∀ {s : Session}, J s → s.phase ≠ .completed → s.hasMore = false →
    Ends (finish host) s (fun _ t => J t) (fun _ t => J t)
  seat : ∀ {s : Session} (gate : Option Bool) (runActive : Bool), J s →
    J { s with machine := { s.machine with gate, runActive } }
  void : ∀ {s t : Session}, J s → P t → t.machine.generation ≠ s.machine.generation

namespace Rides

variable {host : Host} {J P : Session → Prop}

/-! ## Steps -/

theorem elapse (h : Rides host J P) (delay : Double) (hs : J s) (on : s.phase ≠ .completed) :
    Ends (elapse host delay) s (fun _ t => J t ∧ t.machine = s.machine) (fun _ _ => False) := by
  unfold Act.elapse
  rw [ends_bind, ends_get]
  split
  · exact h.fireUntil _ hs on
  · exact ⟨hs, rfl⟩

/-- The unit of work is run to its end, or to where its run becomes void. -/
theorem unit (h : Rides host J P) (delay : Double) (hs : J s) (on : s.phase ≠ .completed)
    (unit : s.machine.unit ≠ none) :
    Ends (runUnit host delay) s (fun _ t => J t ∨ P t) (fun _ t => J t) := by
  unfold runUnit
  refine ends_loop (I := fun t => J t ∧ t.phase ≠ .completed ∧ t.machine.unit ≠ none)
    (fun t ht => ?_) (fun t ht => .inl ht.1) ⟨hs, on, unit⟩
  rw [ends_bind]
  refine (h.advance ht.1 ht.2.1 ht.2.2).mono ?_ fun _ _ hu => hu
  rintro again u (⟨hu, goesOn⟩ | ⟨rfl, hu⟩)
  · cases again with
    | false => exact .inl hu
    | true =>
        obtain ⟨on, unit⟩ := goesOn rfl
        rw [if_pos rfl, ends_bind]
        refine (h.elapse delay hu on).mono ?_ fun _ _ never => never.elim
        rintro _ v ⟨hv, machine⟩
        exact ⟨hv, by rwa [Session.phase, machine], by rwa [machine]⟩
  · exact .inr hu

theorem still_pacing : Still pacing := still_store.bind fun _ => still_number _

theorem afterUnit (h : Rides host J P) (hs : J s) {t : Session} (ht : J t ∨ P t) :
    Ends (afterUnit host s.machine.generation) t (fun more t => J t ∨ more = false ∧ P t)
      (fun _ t => J t) := by
  unfold Act.afterUnit
  rw [ends_bind, ends_get]
  rcases ht with ht | ht
  · split
    · exact .inl ht
    · rename_i still
      have on : t.phase ≠ .completed := by
        intro completed
        exact still (by simp [show t.machine.phase = _ from completed])
      split
      · exact .inl ht
      · rename_i ended
        rw [ends_bind]
        refine (h.finish ht on (by simpa using ended)).mono ?_ fun _ _ hv => hv
        intro _ v hv
        exact .inl hv
  · -- a run that became void is not asked for more work
    rw [if_pos (by simp [h.void hs ht])]
    exact .inr ⟨rfl, ht⟩

theorem stepUnit (h : Rides host J P) (hs : J s) (on : s.phase ≠ .completed) :
    Ends (stepUnit host) s (fun more t => J t ∨ more = false ∧ P t) (fun _ t => J t) := by
  have works (delay : Double) (t : Session) (ht : J t) (on : t.phase ≠ .completed)
      (unit : t.machine.unit ≠ none) :
      Ends (do
        runUnit host delay
        Act.afterUnit host s.machine.generation) t (fun more t => J t ∨ more = false ∧ P t)
        (fun _ t => J t) := by
    rw [ends_bind]
    refine (h.unit delay ht on unit).mono ?_ fun _ _ hu => hu
    intro _ u hu
    exact h.afterUnit hs hu
  unfold Act.stepUnit
  rw [ends_bind]
  refine (still_pacing s).mono ?_ ?_
  · rintro delay _ rfl
    rw [ends_bind, ends_machine, ends_bind, ends_machine]
    split
    · rename_i none
      rw [ends_bind]
      refine (h.nextUnit hs on (Option.isNone_iff_eq_none.mp none)).mono ?_ fun _ _ never => never.elim
      rintro _ t ⟨ht, phase, unit⟩
      exact works delay t ht (by rwa [Session.phase, phase]) unit
    · rename_i some
      exact works delay _ hs on fun none => some (by rw [none]; rfl)
  · rintro _ _ rfl
    exact hs

/-- A step whose run becomes void answers that no work is left. -/
theorem step (h : Rides host J P) (hs : J s) :
    Ends (step host) s (fun more t => J t ∨ more = false ∧ P t) (fun _ t => J t) := by
  unfold Act.step
  rw [ends_bind, ends_machine]
  split
  · exact hs
  · split
    · exact .inl hs
    · rename_i on
      split
      · exact hs
      · split
        · rw [ends_bind]
          refine (h.setPhase hs on (by simp)).mono ?_ fun _ _ never => never.elim
          rintro _ t ⟨ht, phase⟩
          exact h.stepUnit ht (by simp [phase])
        · exact h.stepUnit hs on

/-! ## Runs -/

theorem pace (h : Rides host J P) (hs : J s) (on : s.phase ≠ .completed) :
    Ends (pace host) s (fun _ t => J t) (fun _ t => J t) := by
  unfold Act.pace
  rw [ends_bind]
  refine (still_pacing s).mono ?_ ?_
  · rintro delay _ rfl
    rw [ends_bind, ends_get]
    split
    · refine (h.fireUntil _ hs on).mono ?_ fun _ _ never => never.elim
      rintro _ t ⟨ht, -⟩
      exact ht
    · exact hs
  · rintro _ _ rfl
    exact hs

theorem ends_isOver (generation : Nat) :
    Ends (isOver generation) s
      (fun ended t => t = s ∧
        (ended = true ↔ s.machine.generation ≠ generation ∨ s.phase = .completed))
      (fun _ _ => False) := by
  unfold isOver
  rw [ends_bind, ends_machine]
  exact ⟨rfl, by simp [Session.phase]⟩

theorem turnUnit (h : Rides host J P) {generation : Nat} (hs : J s)
    (current : s.machine.generation = generation) {t : Session} (ht : J t)
    (on : t.phase ≠ .completed) (unit : t.machine.unit ≠ none) :
    Ends (turnUnit host generation) t
      (fun goesOn t => J t ∨ goesOn = false ∧ t.machine.generation ≠ generation ∧ P t)
      (fun _ t => J t) := by
  unfold Act.turnUnit
  rw [ends_bind]
  refine (h.advance ht on unit).mono ?_ fun _ _ hu => hu
  intro again u hu
  rw [ends_bind]
  refine (ends_isOver generation).mono ?_ fun _ _ never => never.elim
  rintro ended _ ⟨rfl, ends⟩
  rcases hu with ⟨hu, -⟩ | ⟨-, hu⟩
  · split
    · exact .inl hu
    · rename_i goesOn
      have on : ¬ _ := fun ended => goesOn (ends.mpr ended)
      rw [ends_bind]
      refine (h.pace hu fun completed => on (.inr completed)).mono ?_ fun _ _ hv => hv
      intro _ v hv
      exact .inl hv
  · have void := current ▸ h.void hs hu
    rw [if_pos (ends.mpr (.inl void))]
    exact .inr ⟨rfl, void, hu⟩

/-- A turn in which the run becomes void is its last. -/
theorem runTurn (h : Rides host J P) (hs : J s) (generation : Nat) :
    Ends (runTurn host generation) s
      (fun goesOn t => J t ∨ goesOn = false ∧ t.machine.generation ≠ generation ∧ P t)
      (fun _ t => J t) := by
  unfold Act.runTurn
  rw [ends_bind]
  refine (ends_isOver generation).mono ?_ fun _ _ never => never.elim
  rintro ended _ ⟨rfl, ends⟩
  split
  · exact .inl hs
  · rename_i goesOn
    have on : ¬ (_ ∨ _) := fun ended => goesOn (ends.mpr ended)
    obtain ⟨current, on⟩ := not_or.mp on
    rw [ends_bind, ends_get]
    split
    · rename_i out
      rw [ends_bind]
      refine (h.finish hs on (by simpa using (Bool.and_eq_true_iff.mp out).2)).mono ?_
        fun _ _ ht => ht
      intro _ t ht
      exact .inl ht
    · split
      · rename_i none
        rw [ends_bind]
        refine (h.nextUnit hs on (Option.isNone_iff_eq_none.mp none)).mono ?_
          fun _ _ never => never.elim
        rintro _ t ⟨ht, phase, unit⟩
        exact h.turnUnit hs (not_not.mp current) ht (by rwa [Session.phase, phase]) unit
      · rename_i some
        exact h.turnUnit hs (not_not.mp current) hs on fun none => some (by rw [none]; rfl)

theorem leaveRun (h : Rides host J P) (hs : J s) (generation : Nat) :
    Ends (leaveRun generation) s (fun _ t => J t) (fun _ _ => False) := by
  unfold Act.leaveRun
  rw [ends_modifyMachine]
  split
  · exact h.seat s.machine.gate false hs
  · exact hs

theorem guardedTurn (h : Rides host J P) (hs : J s) (generation : Nat) :
    Ends (guardedTurn host generation) s (fun state t => J t ∨ state = .finished none ∧ P t)
      (fun _ t => J t) := by
  unfold Act.guardedTurn
  rw [ends_bind, ends_tryCatch]
  refine (h.runTurn hs generation).mono ?_ ?_
  · rintro goesOn t (ht | ⟨rfl, void, ht⟩)
    · split
      · exact .inl ht
      · rw [ends_bind]
        refine (h.leaveRun ht generation).mono ?_ fun _ _ never => never.elim
        intro _ u hu
        exact .inl hu
    · unfold Act.leaveRun
      rw [if_neg Bool.false_ne_true, ends_bind, ends_modifyMachine, if_neg void]
      exact .inr ⟨rfl, ht⟩
  · intro fault t ht
    rw [ends_bind]
    refine (h.leaveRun ht generation).mono ?_ fun _ _ never => never.elim
    intro _ u hu
    exact hu

/-- A run that becomes void in one of its segments is finished. -/
theorem segment (h : Rides host J P) (hs : J s) (state : RunState) :
    Ends (segment host state) s (fun state t => J t ∨ state = .finished none ∧ P t)
      (fun _ t => J t) := by
  have goesOn (generation : Nat) :
      Ends (continueRun host generation) s (fun state t => J t ∨ state = .finished none ∧ P t)
        (fun _ t => J t) := by
    unfold continueRun
    rw [ends_bind, ends_machine]
    split
    · exact .inl hs
    · exact h.guardedTurn hs generation
  cases state with
  | created direct =>
      show Ends (beginRun host direct) s _ _
      unfold beginRun
      rw [ends_bind, ends_machine]
      split
      · split
        · exact hs
        · exact .inl hs
      · split
        · exact .inl hs
        · rename_i on
          split
          · exact hs
          · rw [ends_bind, ends_modifyMachine, ends_bind]
            refine (h.setPhase (h.seat (some true) true hs) on (by simp)).mono ?_
              fun _ _ never => never.elim
            rintro _ t ⟨ht, -⟩
            exact h.guardedTurn ht _
  | sleeping generation => exact goesOn generation
  | waiting generation openings => exact goesOn generation
  | finished fault? => exact .inl hs

end Rides

end Act

end Runloop
