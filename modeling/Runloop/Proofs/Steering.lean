/-
# What steers code

Running a unit of work and ending it, letting time pass, a step and a turn of a
run are made of code and of a few things more: notes in the machine, changes of
the store that leave the tracked timers alone, timers that are fired, loops.
`Steered` is the closure of these, as `Coded` is that of what code does, and what
holds of all of them is again proved by one induction.

None of them sees how often the gate was opened, nor the journal
(`Steered.blind`).  What pauses a program and lets it go on is not steered:
it counts the openings.
-/
import Runloop.Proofs.Loading

namespace Runloop

/-- The session with another count of openings and another journal. -/
def Session.retold (s : Session) (openings : Nat) (journal : List Event) : Session :=
  { s with machine := { s.machine with openings }, journal }

namespace Act

variable {α β : Type}

/-- A computation that is made of code and of what steers it. -/
inductive Steered : {α : Type} → Act α → Prop
  | code {α : Type} {act : Act α} : Coded record .all act → Steered act
  | bind {α β : Type} {x : Act α} {f : α → Act β} : Steered x → (∀ a, Steered (f a)) →
      Steered (x >>= f)
  | recover {α : Type} {x : Act α} {h : Fault → Act α} : Steered x → (∀ f, Steered (h f)) →
      Steered (tryCatch x h)
  | look {α : Type} {f : Session → Act α} : (∀ s, Steered (f s)) →
      (∀ s openings journal, f (s.retold openings journal) = f s) → Steered (get >>= f)
  | note {g : Machine → Machine} : (∀ m openings, g { m with openings } = { g m with openings }) →
      Steered (modifyMachine g)
  | change {α : Type} {f : Store → Double → Change α} :
      (∀ store now, (f store now).store.timers = store.timers) → Steered (change plain f)
  | fireUntil (target : Double) : Steered (fireUntil plain target)
  | loop {rank : Session → Rank} {body : Act Bool} :
      (∀ s openings journal, rank (s.retold openings journal) = rank s) → Steered body →
      Steered (loop rank body)

/-! ## One rule for each operation -/

theorem Steered.pure (a : α) : Steered (Pure.pure a) := .code (.pure a)

theorem Steered.throw (f : Fault) : Steered (MonadExcept.throw f : Act α) := .code (.throw f)

theorem Steered.ite {c : Prop} [Decidable c] {x y : Act α} (hx : Steered x) (hy : Steered y) :
    Steered (if c then x else y) := by
  split
  · exact hx
  · exact hy

/-- Something that is done first in one case only. -/
theorem Steered.first {c : Prop} [Decidable c] {x : Act β} {y : Act α} (hx : Steered x)
    (hy : Steered y) : Steered (if c then x >>= fun _ => y else y) :=
  .ite (hx.bind fun _ => hy) hy

theorem steered_machine {f : Machine → Act α} (h : ∀ m, Steered (f m))
    (blind : ∀ m openings, f { m with openings } = f m) : Steered (machine >>= f) := by
  have reads : Steered (get >>= fun s => f s.machine) :=
    .look (fun s => h s.machine) fun s openings _ => blind s.machine openings
  exact reads

theorem steered_hold (unit : Option UnitOfWork) :
    Steered (modifyMachine fun m => { m with unit }) :=
  .note fun _ _ => rfl

theorem steered_nextUnit : Steered nextUnit := .note fun _ _ => rfl

theorem steered_setPhase (phase : Phase) : Steered (setPhase plain phase) :=
  .bind (.note fun _ _ => rfl) fun _ => .change fun _ _ => rfl

theorem steered_pacing : Steered pacing :=
  .code coded_pacing

theorem steered_elapse (delay : Double) : Steered (elapse plain delay) :=
  .look (fun _ => .ite (.fireUntil _) (.pure _)) fun _ _ _ => rfl

theorem steered_pace : Steered (pace plain) :=
  steered_pacing.bind fun _ => .look (fun _ => .ite (.fireUntil _) (.pure _)) fun _ _ _ => rfl

theorem steered_closeUnit : Steered (closeUnit plain) := by
  refine steered_machine (fun m => (steered_hold none).bind fun _ => ?_) fun _ _ => rfl
  cases m.unit with
  | none => exact .pure _
  | some u =>
      refine .ite (.bind (.code (coded_abandon u.work)) fun fault => ?_) (.pure _)
      cases fault with
      | none => exact .pure _
      | some fault => exact .throw fault

theorem steered_finish : Steered (finish plain) := by
  refine steered_closeUnit.bind fun _ => .bind (.note fun _ _ => rfl) fun _ => ?_
  refine .bind (.change fun _ _ => rfl) fun _ => .bind (.change fun _ _ => rfl) fun _ => ?_
  exact .code (coded_info _)

theorem steered_failUnit (generation : Nat) (fault : Fault) :
    Steered (failUnit plain generation fault) := by
  refine steered_machine (fun m => .ite ?_ (.pure _)) fun _ _ => rfl
  exact (steered_hold none).bind fun _ => .bind (.code (coded_error _)) fun _ => steered_finish

theorem steered_holdsUnit (serial : Nat) : Steered (holdsUnit serial) :=
  steered_machine (fun _ => .pure _) fun _ _ => rfl

theorem steered_keepWork (serial : Nat) (work : Work) : Steered (keepWork plain serial work) := by
  refine (steered_holdsUnit serial).bind fun _ => .ite (steered_hold _) ?_
  exact .bind (.code (coded_abandon work)) fun _ => .pure _

theorem steered_advance : Steered (advance plain) := by
  refine steered_machine (fun m => ?_) fun _ _ => rfl
  dsimp only
  cases m.unit with
  | none => exact (steered_failUnit _ _).bind fun _ => .pure _
  | some u =>
      refine .ite ((steered_failUnit _ _).bind fun _ => .pure _) ?_
      refine (steered_hold _).bind fun _ => .bind (.recover ?_ fun _ => .pure _) fun r => ?_
      · exact .bind (.code (coded_plainSegment u.work)) fun _ => .pure _
      · rcases r with fault | ⟨work⟩ | _
        · exact (steered_failUnit _ _).bind fun _ => .pure _
        · refine steered_machine (fun m => ?_) fun _ _ => rfl
          exact (steered_keepWork _ _).bind fun _ => .pure _
        · refine (steered_holdsUnit _).bind fun _ => ?_
          exact .ite ((steered_hold none).bind fun _ => .pure _) (.pure _)

theorem steered_step : Steered (step plain) := by
  refine steered_machine (fun m => .ite (.throw _) (.ite (.pure _) (.ite (.throw _) ?_)))
    fun _ _ => rfl
  refine (steered_setPhase .paused).first (steered_pacing.bind fun delay => ?_)
  refine steered_machine (fun m => steered_machine (fun m' => ?_) fun _ _ => rfl) fun _ _ => rfl
  refine steered_nextUnit.first (.bind (.loop (fun _ _ _ => rfl) ?_) fun _ => ?_)
  · refine steered_advance.bind fun _ => .ite ?_ (.pure _)
    exact (steered_elapse delay).bind fun _ => .pure _
  · refine .look (fun s => .ite (.pure _) (.ite (.pure _) ?_)) fun _ _ _ => rfl
    exact steered_finish.bind fun _ => .pure _

theorem steered_leaveRun (generation : Nat) : Steered (leaveRun generation) := by
  refine .note fun m openings => ?_
  dsimp only
  split
  · rfl
  · rfl

theorem steered_isOver (generation : Nat) : Steered (isOver generation) :=
  steered_machine (fun _ => .pure _) fun _ _ => rfl

theorem steered_guardedTurn (generation : Nat) : Steered (guardedTurn plain generation) := by
  have turn : Steered (runTurn plain generation) := by
    refine (steered_isOver generation).bind fun _ => .ite (.pure _) ?_
    refine .look (fun s => .ite (steered_finish.bind fun _ => .pure _) ?_) fun _ _ _ => rfl
    refine steered_nextUnit.first (steered_advance.bind fun _ => ?_)
    refine (steered_isOver generation).bind fun _ => .ite (.pure _) ?_
    exact steered_pace.bind fun _ => .pure _
  have leaves : Steered (leaveRun generation) := steered_leaveRun generation
  refine .bind (.recover turn fun fault => leaves.bind fun _ => .throw fault) fun _ => ?_
  exact .ite (.pure _) (leaves.bind fun _ => .pure _)

/-! ## What steers code does not see -/

/-- However often the gate was opened and whatever was told, the computation does
the same. -/
def Blind (act : Act α) : Prop :=
  ∀ s openings journal, ∃ journal', act.run (Session.retold s openings journal) =
    ((act.run s).1, (act.run s).2.retold openings journal')

/-- What does the same under every driving does so in particular under this one. -/
theorem retold_of_under {s t : Session} {l : List Event} {openings : Nat} {journal : List Event}
    (same : t = t.under (s.driving.told l)) :
    t.under (Driving.told { s.driving with openings, journal } l) =
      t.retold openings (l ++ journal) := by
  rw [same]
  rfl

theorem Coded.blind {act : Act α} (h : Coded record .all act) : Blind act := by
  intro s openings journal
  obtain ⟨l, hl⟩ := h.run_under s
  refine ⟨l ++ journal, (hl { s.driving with openings, journal }).trans ?_⟩
  exact congrArg (Prod.mk _) (retold_of_under (congrArg Prod.snd (hl s.driving)))

namespace Blind

theorem bind {x : Act α} {f : α → Act β} (hx : Blind x) (hf : ∀ a, Blind (f a)) :
    Blind (x >>= f) := by
  intro s openings journal
  obtain ⟨journal₁, eq⟩ := hx s openings journal
  rw [run_bind, run_bind, eq]
  rcases (x.run s : Except Fault α × Session) with ⟨fault | a, t⟩
  · exact ⟨journal₁, rfl⟩
  · exact hf a t openings journal₁

theorem recover {x : Act α} {h : Fault → Act α} (hx : Blind x) (hh : ∀ f, Blind (h f)) :
    Blind (tryCatch x h) := by
  intro s openings journal
  obtain ⟨journal₁, eq⟩ := hx s openings journal
  rw [run_tryCatch, run_tryCatch, eq]
  rcases (x.run s : Except Fault α × Session) with ⟨fault | a, t⟩
  · exact hh fault t openings journal₁
  · exact ⟨journal₁, rfl⟩

theorem change {f : Store → Double → Change α} : Blind (Act.change plain f) := by
  intro s openings journal
  have told (d : Driving) := s.publish_under d (f s.store s.now)
  refine ⟨(f s.store s.now).events.reverse ++ journal, ?_⟩
  rw [run_change rfl, run_change rfl]
  refine congrArg (Prod.mk _) ((told { s.driving with openings, journal }).trans ?_)
  exact retold_of_under (told s.driving)

/-- A loop whose turns do not see it. -/
theorem loop {rank : Session → Rank} {body : Act Bool} (h : Blind body)
    (same : ∀ s openings journal, rank (Session.retold s openings journal) = rank s) :
    Blind (Act.loop rank body) := by
  intro s openings journal
  induction s using rank_induction rank generalizing journal with
  | lower s ih =>
      obtain ⟨journal₁, eq⟩ := h s openings journal
      rw [run_loop, run_loop, eq]
      rcases (body.run s : Except Fault Bool × Session) with ⟨fault | again, t⟩
      · exact ⟨journal₁, rfl⟩
      · cases again with
        | false => exact ⟨journal₁, rfl⟩
        | true =>
            dsimp only
            rw [same, same]
            split
            · rename_i lt
              exact ih t lt journal₁
            · exact ⟨journal₁, rfl⟩

theorem fireUntil (target : Double) : Blind (Act.fireUntil plain target) := by
  refine loop ?_ fun _ _ _ => rfl
  intro s openings journal
  have pops : (s.retold openings journal).clock.pop? target = s.clock.pop? target := rfl
  rw [run_get_bind, run_get_bind, pops]
  cases s.clock.pop? target with
  | none => exact ⟨journal, rfl⟩
  | some popped =>
      have rest : Blind (do
          if !popped.2.isCancelled popped.1.serial then fire plain popped.1.payload
          return true) := by
        split
        · exact bind (bind change fun _ => Coded.blind (.pure _)) fun _ => Coded.blind (.pure _)
        · exact Coded.blind (.pure _)
      exact rest { s with clock := popped.2 } openings journal

end Blind

theorem Steered.blind {act : Act α} (h : Steered act) : Blind act := by
  induction h with
  | code coded => exact coded.blind
  | bind _ _ ihx ihf => exact ihx.bind ihf
  | recover _ _ ihx ihh => exact ihx.recover ihh
  | look _ blind ih =>
      intro s openings journal
      rw [run_get_bind, run_get_bind, blind s openings journal]
      exact ih s s openings journal
  | @note g commutes =>
      intro s openings journal
      refine ⟨journal, ?_⟩
      show (Except.ok PUnit.unit,
        ({ s.retold openings journal with machine := g { s.machine with openings } } : Session)) = _
      rw [commutes]
      rfl
  | change _ => exact .change
  | fireUntil target => exact .fireUntil target
  | loop same _ ih => exact ih.loop same

end Act

end Runloop
