/-
# Subscribers that intrude

A subscriber may control the session that it listens to, from inside a
notification.  `intruding` is one that does so in the middle of a segment,
whenever it likes; while no segment is run it only listens.  So what drives a
program between two segments does the same whether or not there is an intruder
(`Unheard`).
-/
import Runloop.Proofs.Computation

namespace Runloop

/-- A segment is being run. -/
def Session.busy (s : Session) : Bool := s.machine.unit.any (·.running)

namespace Act

/-- Takes note of events, and in the middle of a segment, when `when` holds,
carries out a control operation. -/
def intruding (when : Session → Bool) (deed : Control) : Publisher := fun e => do
  record e
  let s ← get
  if when s && s.busy then
    let _ ← control plain deed

/-- Code whose changes an intruder is told about. -/
def intruded (when : Session → Bool) (deed : Control) : Host := .standard (intruding when deed)

variable {α : Type} {when : Session → Bool} {deed : Control} {s t : Session}

theorem noted_busy (e : Event) : (s.noted e).busy = s.busy := by
  obtain ⟨lines, h⟩ := s.noted_eq e
  rw [h]
  rfl

/-- An intruder takes note of an event first. -/
theorem run_intruding (e : Event) :
    (intruding when deed e).run s =
      if when (s.noted e) && s.busy then
        (do let _ ← control plain deed
            return ⟨⟩ : Act PUnit).run (s.noted e)
      else (.ok ⟨⟩, s.noted e) := by
  unfold intruding
  rw [run_bind]
  show (if when (s.noted e) && (s.noted e).busy then do
      let _ ← control plain deed
      pure ⟨⟩
    else pure ⟨⟩ : Act PUnit).run (s.noted e) = _
  rw [noted_busy]
  split <;> rfl

theorem run_intruding_idle (idle : s.busy = false) (e : Event) :
    (intruding when deed e).run s = (.ok ⟨⟩, s.noted e) := by
  rw [run_intruding, idle, Bool.and_false]
  rfl

/-- In the middle of a segment an intruder only takes note of an event, or also
does its deed. -/
theorem ends_intruding (busy : s.busy = true) (e : Event) {Q : PUnit → Session → Prop}
    {E : Fault → Session → Prop} (quiet : when (s.noted e) = false → Q ⟨⟩ (s.noted e))
    (does : when (s.noted e) = true → Ends (control plain deed) (s.noted e) (fun _ t => Q ⟨⟩ t) E) :
    Ends (intruding when deed e) s Q E := by
  have run : (intruding when deed e).run s = _ := run_intruding e
  rw [busy, Bool.and_true] at run
  cases hw : when (s.noted e) with
  | false =>
      rw [hw, if_neg Bool.false_ne_true] at run
      exact .of_answer run (quiet hw)
  | true =>
      rw [hw, if_pos rfl] at run
      refine .of_run run ?_
      rw [ends_bind]
      exact does hw

/-! ## What intruders have no part in -/

theorem publish_busy (c : Change α) : (s.publish c).busy = s.busy := by
  obtain ⟨lines, h⟩ := s.publish_eq c
  rw [h]
  rfl

theorem run_forM_intruding (idle : s.busy = false) (l : List Event) :
    (l.forM (intruding when deed)).run s = (.ok ⟨⟩, l.foldl Session.noted s) := by
  induction l generalizing s with
  | nil => rfl
  | cons e l ih =>
      rw [List.forM_eq_forM, List.forM_cons, run_bind, run_intruding_idle idle]
      exact ih ((noted_busy e).trans idle)

/-- While no segment is run, the computation does the same whether or not there is
an intruder, and begins no segment. -/
def Unheard (act : Host → Act α) : Prop :=
  ∀ when deed s, s.busy = false →
    (act (intruded when deed)).run s = (act plain).run s ∧ ((act plain).run s).2.busy = false

namespace Unheard

variable {β : Type}

theorem const {act : Act α}
    (h : ∀ s, s.busy = false → Ends act s (fun _ t => t.busy = false) (fun _ t => t.busy = false)) :
    Unheard fun _ => act :=
  fun _ _ s idle => ⟨rfl, (h s idle).after⟩

theorem pure (a : α) : Unheard fun _ => Pure.pure a := .const fun _ idle => idle

theorem throw (f : Fault) :
    Unheard (α := α) fun _ => MonadExcept.throw f := .const fun _ idle => idle

theorem note {f : Machine → Machine} (h : ∀ m, (f m).unit = m.unit ∨ (f m).unit = none) :
    Unheard fun _ => modifyMachine f := by
  refine .const fun s idle => ?_
  rw [ends_modifyMachine]
  unfold Session.busy at *
  rcases h s.machine with same | none
  · rwa [same]
  · rw [none]
    rfl

theorem bind {x : Host → Act α} {f : α → Host → Act β} (hx : Unheard x) (hf : ∀ a, Unheard (f a)) :
    Unheard fun host => x host >>= fun a => f a host := by
  intro when deed s idle
  obtain ⟨same, still⟩ := hx when deed s idle
  rw [run_bind, run_bind, same]
  rcases hrun : ((x plain).run s : Except Fault α × Session) with ⟨fault | a, t⟩
  · rw [hrun] at still
    exact ⟨rfl, still⟩
  · rw [hrun] at still
    exact hf a when deed t still

theorem recover {x : Host → Act α} {h : Fault → Host → Act α} (hx : Unheard x)
    (hh : ∀ f, Unheard (h f)) : Unheard fun host => tryCatch (x host) fun f => h f host := by
  intro when deed s idle
  obtain ⟨same, still⟩ := hx when deed s idle
  rw [run_tryCatch, run_tryCatch, same]
  rcases hrun : ((x plain).run s : Except Fault α × Session) with ⟨fault | a, t⟩
  · rw [hrun] at still
    exact hh fault when deed t still
  · rw [hrun] at still
    exact ⟨rfl, still⟩

/-- A computation that depends on what it sees. -/
theorem look {f : Session → Host → Act α} (h : ∀ s, s.busy = false → Unheard (f s)) :
    Unheard fun host => get >>= fun s => f s host :=
  fun when deed s idle => h s idle when deed s idle

theorem machine {f : Machine → Host → Act α} (h : ∀ m, Unheard (f m)) :
    Unheard fun host => Act.machine >>= fun m => f m host :=
  fun when deed s idle => h s.machine when deed s idle

theorem ite {c : Prop} [Decidable c] {x y : Host → Act α} (hx : Unheard x) (hy : Unheard y) :
    Unheard fun host => if c then x host else y host := by
  by_cases h : c
  · simpa only [if_pos h] using hx
  · simpa only [if_neg h] using hy

theorem forM {l : List α} {f : α → Host → Act PUnit} (h : ∀ a, Unheard (f a)) :
    Unheard fun host => l.forM fun a => f a host := by
  induction l with
  | nil => exact .pure PUnit.unit
  | cons a l ih => exact (h a).bind fun _ => ih

theorem change (f : Store → Double → Change α) : Unheard fun host => Act.change host f := by
  intro when deed s idle
  rw [show (Act.change plain f).run s = _ from run_change rfl f]
  refine ⟨?_, (publish_busy _).trans idle⟩
  have told : ((f s.store s.now).events.forM (intruding when deed)).run
      { s with store := (f s.store s.now).store } = _ :=
    run_forM_intruding (s := { s with store := (f s.store s.now).store }) idle _
  unfold Act.change
  rw [run_get_bind]
  show (do
    (f s.store s.now).events.forM (intruding when deed)
    return (f s.store s.now).value : Act α).run { s with store := (f s.store s.now).store } = _
  rw [run_bind, told]
  rfl

theorem change? (f : Store → Except StoreFault (Change α)) :
    Unheard fun host => Act.change? host f := by
  intro when deed s idle
  rw [show (Act.change? plain f).run s = _ from run_change? rfl f]
  unfold Act.change?
  rw [run_get_bind]
  cases f s.store with
  | error fault => exact ⟨rfl, idle⟩
  | ok c =>
      have told : (c.events.forM (intruding when deed)).run { s with store := c.store } = _ :=
        run_forM_intruding (s := { s with store := c.store }) idle _
      refine ⟨?_, (publish_busy _).trans idle⟩
      show (do
        c.events.forM (intruding when deed)
        return c.value : Act α).run { s with store := c.store } = _
      rw [run_bind, told]
      rfl

theorem loop {rank : Session → Rank} {body : Host → Act Bool} (h : Unheard body) :
    Unheard fun host => Act.loop rank (body host) := by
  intro when deed s idle
  have still (t : Session) (idle : t.busy = false) :
      Ends (body plain) t (fun _ u => u.busy = false) (fun _ u => u.busy = false) := by
    have after := (h when deed t idle).2
    unfold Ends
    split <;> rename_i run <;> rw [run] at after <;> exact after
  refine ⟨run_loop_congr (I := fun t => t.busy = false) (fun t idle => (h when deed t idle).1)
    (fun t idle => (still t idle).mono (fun _ _ hu _ => hu) fun _ _ _ => trivial) idle, ?_⟩
  refine Ends.after (ends_loop (I := fun t => t.busy = false) (fun t idle => ?_) (fun _ idle => idle)
    idle)
  refine (still t idle).mono ?_ fun _ _ hu => hu
  intro again u hu
  rwa [ite_self]

end Unheard

theorem unheard_detach (scope : String) : Unheard fun host => detach host scope :=
  (Unheard.change? _).bind fun _ => .note fun _ => .inl rfl

theorem unheard_unwind (call : Call) : Unheard fun host => unwind host call := by
  refine Unheard.bind (.note fun _ => .inl rfl) fun _ => ?_
  refine (Unheard.change? _).bind fun _ => (unheard_detach _).bind fun _ => ?_
  exact .forM unheard_detach

theorem unheard_isCurrent (call : Call) : Unheard fun _ => isCurrent call :=
  .machine fun _ => .pure _

theorem unheard_unwindAll (calls : List Call) (fault : Option Fault) :
    Unheard fun host => unwindAll host calls fault := by
  induction calls generalizing fault with
  | nil => exact .pure _
  | cons call outer ih =>
      refine (unheard_isCurrent call).bind fun current => .ite ?_ (ih fault)
      refine Unheard.bind (.recover ?_ fun later => .pure _) ih
      exact (unheard_unwind call).bind fun _ => .pure _

theorem unheard_abandon (work : Work) : Unheard fun host => abandon host work := by
  cases work with
  | inCall call point callers base => exact unheard_unwindAll _ none
  | _ => exact .pure _

theorem unheard_closeUnit : Unheard closeUnit := by
  refine .machine fun m => Unheard.bind (.note fun _ => .inr rfl) fun _ => ?_
  cases m.unit with
  | none => exact .pure _
  | some unit =>
      refine .ite ((unheard_abandon unit.work).bind fun fault => ?_) (.pure _)
      cases fault with
      | none => exact .pure _
      | some fault => exact .throw fault

theorem unheard_finish : Unheard finish := by
  refine unheard_closeUnit.bind fun _ => Unheard.bind (.note fun _ => .inl rfl) fun _ => ?_
  refine (Unheard.change _).bind fun _ => (Unheard.change _).bind fun _ => ?_
  exact Unheard.change fun s now => s.logConsole "info" ["Execution completed"] now

theorem unheard_setPhase (phase : Phase) : Unheard fun host => setPhase host phase :=
  Unheard.bind (.note fun _ => .inl rfl) fun _ => .change _

theorem unheard_fireUntil (target : Double) : Unheard fun host => fireUntil host target := by
  refine .loop (.look fun s idle => ?_)
  have sets (clock : Clock String) : Unheard fun _ => set { s with clock } := .const fun _ _ => idle
  cases s.clock.pop? target with
  | none => exact (sets _).bind fun _ => .pure _
  | some popped =>
      refine (sets _).bind fun _ => .ite (Unheard.bind ?_ fun _ => .pure _) (.pure _)
      exact (Unheard.change _).bind fun _ => .pure _

end Act

end Runloop
