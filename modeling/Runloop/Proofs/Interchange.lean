/-
# A body in the place of another

Two bodies that compile to the same instructions stand for each other.  A call that was
entered with the one goes on as it does with the other: whatever is done with the program,
as long as it is driven, the same can be done in the other session, it ends with the same
fault if with any, and the two sessions differ in nothing but what is at hand of compiled
bodies (`Session.Interchanged.leads`).

Only one unit of work can stand before a body, and it does so until its next segment; from
then on the units are the same.  So the sessions are related by what their units are
(`Swapped`), and each thing that is done with a program is shown to keep them related.
-/
import Runloop.Proofs.Caching
import Runloop.Proofs.Reached

namespace Runloop

/-- The machine with another unit of work. -/
def Machine.holding (m : Machine) (unit : Option UnitOfWork) : Machine := { m with unit }

/-! ## Sessions with one body in the place of another -/

/-- The units of work are the same, but that one may stand before the body `b'` where the
other stands before the body `b`. -/
inductive Swapped (b b' : Body) : Option UnitOfWork → Option UnitOfWork → Prop
  | same (unit : Option UnitOfWork) : Swapped b b' unit unit
  | entered (serial : Nat) (call : Call) (callers : List Caller) (base : Base) (running : Bool) :
      Swapped b b' (some ⟨serial, .inCall call (.entered b) callers base, running⟩)
        (some ⟨serial, .inCall call (.entered b') callers base, running⟩)

/-- From `s` to `t` the body `b'` may stand in the place of `b`, and what is at hand of
compiled bodies may differ.  Both sessions are honest. -/
structure Session.Interchanged (b b' : Body) (s t : Session) : Prop where
  unit : Swapped b b' s.machine.unit t.machine.unit
  recalled : (s.holding t.machine.unit).Recalled t

section Interchanged

variable {b b' : Body} {s t : Session}

theorem Swapped.symm {u u' : Option UnitOfWork} (h : Swapped b b' u u') : Swapped b' b u' u := by
  cases h with
  | same => exact .same _
  | entered => exact .entered ..

theorem Swapped.isNone {u u' : Option UnitOfWork} (h : Swapped b b' u u') :
    u'.isNone = u.isNone := by
  cases h with
  | same => rfl
  | entered => rfl

/-- Units of work are given up in the same way, wherever the innermost call stands. -/
theorem Swapped.alike {u u' : UnitOfWork} (h : Swapped b b' (some u) (some u')) :
    u'.serial = u.serial ∧ u'.running = u.running ∧
      Act.abandon Act.plain u'.work = Act.abandon Act.plain u.work := by
  cases h with
  | same => exact ⟨rfl, rfl, rfl⟩
  | entered => exact ⟨rfl, rfl, rfl⟩

/-- Units of work are run in the same way. -/
theorem Swapped.working {u u' : UnitOfWork} (h : Swapped b b' (some u) (some u')) :
    Swapped b b' (some { u with running := true }) (some { u' with running := true }) := by
  cases h with
  | same => exact .same _
  | entered => exact .entered ..

namespace Session.Interchanged

theorem refl (honest : Honest s.bodies) : s.Interchanged b b' s :=
  ⟨.same _, .refl honest⟩

theorem machine (h : s.Interchanged b b' t) : t.machine = s.machine.holding t.machine.unit :=
  h.recalled.machine

theorem symm (h : s.Interchanged b b' t) : t.Interchanged b' b s := by
  have back : t.holding s.machine.unit = s.recalling t.bodies t.notices := by
    conv => lhs; rw [h.recalled.eq]
    rfl
  refine ⟨h.unit.symm, h.recalled.honest', h.recalled.honest, ?_⟩
  rw [back]
  rfl

theorem phase (h : s.Interchanged b b' t) : t.phase = s.phase := by
  rw [Session.phase, h.machine]
  rfl

/-- Machines that differ in their unit alone may take the place of those there are. -/
theorem moved (h : s.Interchanged b b' t) {m m' : Machine} (unit : Swapped b b' m.unit m'.unit)
    (rest : m' = m.holding m'.unit) :
    ({ s with machine := m } : Session).Interchanged b b' { t with machine := m' } := by
  refine ⟨unit, h.recalled.honest, h.recalled.honest', ?_⟩
  conv => lhs; rw [h.recalled.eq, rest]
  rfl

theorem publish {α : Type} (h : s.Interchanged b b' t) (c : Change α) :
    (s.publish c).Interchanged b b' (t.publish c) := by
  have apart (unit : Option UnitOfWork) :
      (s.publish c).holding unit = (s.holding unit).publish c := by
    have driven := (s.publish_under s.driving c).symm
    have held := s.publish_under { s.driving with unit } c
    refine Eq.trans ?_ held.symm
    exact congrArg (fun s : Session => s.holding unit) driven.symm
  refine ⟨?_, ?_⟩
  · rw [Session.publish_machine, Session.publish_machine]
    exact h.unit
  · rw [Session.publish_machine, apart]
    exact h.recalled.publish c

end Session.Interchanged

end Interchanged

/-! ## Computations on them -/

namespace Act

open Session (Interchanged)

variable {α : Type} {b b' : Body}

/-- Code does not see the unit of work that it belongs to, and leaves it alone. -/
theorem Coded.run_holding {l : Licence} {act : Act α} (h : Coded record l act) (s : Session)
    (unit : Option UnitOfWork) :
    act.run (s.holding unit) = ((act.run s).1, (act.run s).2.holding unit) ∧
      (act.run s).2.machine.unit = s.machine.unit := by
  obtain ⟨l, told⟩ := h.run_under s
  have here : (act.run s).2 = (act.run s).2.under (s.driving.told l) :=
    congrArg Prod.snd (told s.driving)
  refine ⟨?_, ?_⟩
  · refine (told { s.driving with unit }).trans (congrArg (Prod.mk _) ?_)
    exact (congrArg (fun s : Session => s.holding unit) here).symm
  · have unit := congrArg (fun s : Session => s.machine.unit) here
    exact unit

/-- Code does the same whichever body stands before its unit. -/
theorem Coded.interchanged {l : Licence} {act : Act α} (h : Coded record l act) :
    Matches (Interchanged b b') act act := by
  intro s t related
  obtain ⟨runs, unit⟩ := h.run_holding s t.machine.unit
  obtain ⟨same, after⟩ := h.recalls _ _ related.recalled
  have unit' : (act.run t).2.machine.unit = t.machine.unit := (h.run_holding t none).2
  rw [runs] at same after
  refine ⟨same, ?_, ?_⟩
  · rw [unit, unit']
    exact related.unit
  · rw [unit']
    exact after

theorem interchanged_change {f : Store → Double → Change α} :
    Matches (Interchanged b b') (change plain f) (change plain f) := by
  intro s t h
  have store : t.store = s.store := h.recalled.store
  have now : t.now = s.now := h.recalled.now
  rw [run_change rfl, run_change rfl, store, now]
  exact ⟨rfl, h.publish _⟩

theorem interchanged_machine {f g : Machine → Act α}
    (next : ∀ (m : Machine) u u', Swapped b b' u u' →
      Matches (Interchanged b b') (f (m.holding u)) (g (m.holding u'))) :
    Matches (Interchanged b b') (machine >>= f) (machine >>= g) := by
  intro s t h
  have goesOn := next s.machine s.machine.unit t.machine.unit h.unit s t h
  rw [← h.machine] at goesOn
  exact goesOn

theorem interchanged_modifyMachine {f g : Machine → Machine}
    (unit : ∀ (m : Machine) u u', Swapped b b' u u' →
      Swapped b b' (f (m.holding u)).unit (g (m.holding u')).unit)
    (rest : ∀ (m : Machine) u u', Swapped b b' u u' →
      g (m.holding u') = (f (m.holding u)).holding (g (m.holding u')).unit) :
    Matches (Interchanged b b') (modifyMachine f) (modifyMachine g) := by
  intro s t h
  have unit := unit s.machine _ _ h.unit
  have rest := rest s.machine _ _ h.unit
  rw [← h.machine] at unit rest
  exact ⟨rfl, h.moved unit rest⟩

/-- A change of the machine that leaves its unit alone. -/
theorem interchanged_note {f : Machine → Machine}
    (apart : ∀ (m : Machine) u, f (m.holding u) = (f m).holding u) :
    Matches (Interchanged b b') (modifyMachine f) (modifyMachine f) := by
  refine interchanged_modifyMachine ?_ ?_
  · intro m u u' swapped
    rw [apart, apart]
    exact swapped
  · intro m u u' _
    rw [apart, apart]
    rfl

/-- A change of the machine that gives it a unit, whatever it had. -/
theorem interchanged_give {f : Machine → Machine}
    (blind : ∀ (m : Machine) u, f (m.holding u) = f m) :
    Matches (Interchanged b b') (modifyMachine f) (modifyMachine f) := by
  refine interchanged_modifyMachine ?_ ?_
  · intro m u u' _
    rw [blind, blind]
    exact .same _
  · intro m u u' _
    rw [blind, blind]
    rfl

/-! ## Segments -/

/-- A body answers with its instructions, and the other body with the same. -/
theorem interchanged_instructionsOf (same : b'.instructions = b.instructions) :
    Matches (Interchanged b b') (instructionsOf b) (instructionsOf b') := by
  intro s t h
  have here : Honest s.bodies := h.recalled.honest
  obtain ⟨bodies, notices, honest, run⟩ := run_instructionsOf b here
  obtain ⟨bodies', notices', honest', run'⟩ := run_instructionsOf b' h.recalled.honest'
  rw [run, run', answerFor, answerFor, same]
  refine ⟨rfl, h.unit, honest, honest', ?_⟩
  rw [h.recalled.eq]
  rfl

/-- A part of some calls, and a part of the same calls. -/
theorem interchanged_inside {x y : Act α} (h : Matches (Interchanged b b') x y)
    (calls : List Call) :
    Matches (Interchanged b b') (inside plain calls x) (inside plain calls y) :=
  h.recover fun fault =>
    ((coded_unwindAll (l := .all) calls (some fault)).bind fun _ => .throw _).interchanged

/-- The units of work come to the same in their next segments. -/
theorem interchanged_segment (same : b'.instructions = b.instructions) {u u' : UnitOfWork}
    (h : Swapped b b' (some u) (some u')) :
    Matches (Interchanged b b') (runSegment plain u.work) (runSegment plain u'.work) := by
  cases h with
  | same => exact (coded_plainSegment u.work).interchanged
  | entered serial call callers base running =>
      have runs (is : List Instruction) :
          Coded record .all (runBody plain call callers base is) :=
        coded_runBody rfl rfl call callers base fun _ _ _ => rfl
      have compiles := interchanged_inside (interchanged_instructionsOf same)
        (call :: openCalls callers)
      exact compiles.bind fun is => (runs is).interchanged

/-! ## Driving -/

theorem interchanged_abandon (work : Work) :
    Matches (Interchanged b b') (abandon plain work) (abandon plain work) :=
  (coded_abandon (l := .all) work).interchanged

theorem interchanged_closeUnit :
    Matches (Interchanged b b') (closeUnit plain) (closeUnit plain) := by
  refine interchanged_machine fun m u u' h => ?_
  refine (interchanged_give fun _ _ => rfl).bind fun _ => ?_
  cases u with
  | none =>
      cases h
      exact .pure _
  | some u =>
      cases u' with
      | none => cases h
      | some u' =>
          obtain ⟨-, running, abandons⟩ := h.alike
          dsimp only [Machine.holding]
          rw [running, abandons]
          split
          · refine (interchanged_abandon u.work).bind fun fault? => ?_
            cases fault? with
            | none => exact .pure _
            | some fault => exact .throw fault
          · exact .pure _

theorem interchanged_finish : Matches (Interchanged b b') (finish plain) (finish plain) := by
  refine interchanged_closeUnit.bind fun _ => ?_
  refine (interchanged_note fun _ _ => rfl).bind fun _ => ?_
  refine interchanged_change.bind fun _ => ?_
  exact interchanged_change.bind fun _ => interchanged_change

theorem interchanged_failUnit (generation : Nat) (fault : Fault) :
    Matches (Interchanged b b') (failUnit plain generation fault)
      (failUnit plain generation fault) := by
  refine interchanged_machine fun m u u' h => ?_
  show Matches _ (if m.generation = generation then _ else _)
    (if m.generation = generation then _ else _)
  split
  · refine (interchanged_give fun _ _ => rfl).bind fun _ => ?_
    refine Matches.bind ?_ fun _ => interchanged_finish
    exact (coded_log (l := .all) "error" [fault.report]).interchanged
  · exact .pure _

theorem interchanged_holdsUnit (serial : Nat) :
    Matches (Interchanged b b') (holdsUnit serial) (holdsUnit serial) := by
  refine interchanged_machine fun m u u' h => ?_
  cases h with
  | same => exact .pure _
  | entered => exact .pure _

theorem interchanged_keepWork (serial : Nat) (work : Work) :
    Matches (Interchanged b b') (keepWork plain serial work) (keepWork plain serial work) := by
  refine (interchanged_holdsUnit serial).bind fun holds => ?_
  split
  · exact interchanged_give fun _ _ => rfl
  · exact (interchanged_abandon work).bind fun _ => .pure _

theorem interchanged_stop : Matches (Interchanged b b') (stop plain) (stop plain) := by
  refine interchanged_machine fun m u u' h => ?_
  show Matches _ (if m.phase = .idle || m.phase = .completed then _ else _)
    (if m.phase = .idle || m.phase = .completed then _ else _)
  split
  · exact .pure _
  · refine interchanged_closeUnit.bind fun _ => ?_
    refine (interchanged_note fun _ _ => rfl).bind fun _ => ?_
    refine interchanged_change.bind fun _ => ?_
    refine interchanged_note fun m u => ?_
    show (if m.gate.isSome then _ else _) = Machine.holding (if m.gate.isSome then _ else _) u
    split
    · rfl
    · rfl

/-- A turn of a unit of work. -/
theorem interchanged_advance (same : b'.instructions = b.instructions) :
    Matches (Interchanged b b') (advance plain) (advance plain) := by
  refine interchanged_machine fun m u u' h => ?_
  cases u with
  | none =>
      cases h
      exact (interchanged_failUnit _ _).bind fun _ => .pure _
  | some u =>
      cases u' with
      | none => cases h
      | some u' =>
          obtain ⟨serial, running, -⟩ := h.alike
          have working := h.working
          rw [serial] at working
          dsimp only [Machine.holding]
          rw [running, serial]
          split
          · exact (interchanged_failUnit _ _).bind fun _ => .pure _
          · refine (interchanged_modifyMachine (fun _ _ _ _ => working) fun _ _ _ _ => rfl).bind
              fun _ => ?_
            -- from here on the two sides run the same code on work that differs in its body alone
            have segment : Matches (Interchanged b b')
                (do return Except.ok (← runSegment plain u.work) : Act (Except Fault Progress))
                (do return Except.ok (← runSegment plain u'.work)) :=
              (interchanged_segment same h).bind fun _ => .pure _
            refine (segment.recover fun _ => .pure _).bind fun r => ?_
            cases r with
            | error fault => exact (interchanged_failUnit _ fault).bind fun _ => .pure _
            | ok progress =>
                cases progress with
                | paused work =>
                    refine interchanged_machine fun m u u' _ => ?_
                    exact (interchanged_keepWork _ work).bind fun _ => .pure _
                | ended =>
                    refine (interchanged_holdsUnit _).bind fun holds => ?_
                    split
                    · exact (interchanged_give fun _ _ => rfl).bind fun _ => .pure _
                    · exact .pure _

theorem interchanged_setPhase (phase : Phase) :
    Matches (Interchanged b b') (setPhase plain phase) (setPhase plain phase) :=
  (interchanged_note fun _ _ => rfl).bind fun _ => interchanged_change

theorem interchanged_fire (id : String) :
    Matches (Interchanged b b') (fire plain id) (fire plain id) :=
  interchanged_change.bind fun _ => .pure _

theorem interchanged_nextUnit : Matches (Interchanged b b') nextUnit nextUnit :=
  interchanged_give fun _ _ => rfl

end Act

/-! ## Whatever is done with a program -/

namespace Session

variable {b b' : Body} {s s' t : Session} {fault why : Option Fault}

/-- The next segment ends with the same fault, if with any. -/
theorem Interchanged.segmentFault (same : b'.instructions = b.instructions)
    (h : s.Interchanged b b' t) {u u' : UnitOfWork} (hu : s.machine.unit = some u)
    (hu' : t.machine.unit = some u') : t.segmentFault u' = s.segmentFault u := by
  have swapped := h.unit
  rw [hu, hu'] at swapped
  have working : (s.working u).Interchanged b b' (t.working u') := by
    refine h.moved swapped.working ?_
    rw [h.machine]
    rfl
  have answers := (Act.interchanged_segment same swapped _ _ working).1
  rw [Session.segmentFault, Session.segmentFault]
  rcases hx : ((Act.runSegment Act.plain u.work).run (s.working u) :
    Except Fault Progress × Session) with ⟨r, v⟩
  rcases hy : ((Act.runSegment Act.plain u'.work).run (t.working u') :
    Except Fault Progress × Session) with ⟨r', v'⟩
  rw [hx, hy] at answers
  obtain rfl : r' = r := answers
  cases r' with
  | error fault => rfl
  | ok progress => rfl

/-- What can be done with the one session can be done with the other. -/
theorem Interchanged.drive (same : b'.instructions = b.instructions) (h : s.Interchanged b b' t)
    (d : Drive s fault s') : ∃ t', Drive t fault t' ∧ s'.Interchanged b b' t' := by
  have idle (none : s.machine.unit = none) : t.machine.unit = .none := by
    have isNone := h.unit.isNone
    rw [none] at isNone
    exact Option.isNone_iff_eq_none.mp isNone
  cases d with
  | time clock =>
      refine ⟨_, .time clock, h.unit, h.recalled.honest, h.recalled.honest', ?_⟩
      conv => lhs; rw [h.recalled.eq]
      rfl
  | fire id => exact ⟨_, .fire id, (Act.interchanged_fire id s t h).2⟩
  | speed speed => exact ⟨_, .speed speed, (Act.interchanged_change s t h).2⟩
  | @phase phase on here =>
      exact ⟨_, .phase on (h.phase ▸ here), (Act.interchanged_setPhase phase s t h).2⟩
  | seat gate openings runActive =>
      refine ⟨_, .seat gate openings runActive, h.moved h.unit ?_⟩
      rw [h.machine]
      rfl
  | take on none =>
      exact ⟨_, .take (h.phase ▸ on) (idle none), (Act.interchanged_nextUnit s t h).2⟩
  | @advance u on unit =>
      cases unit' : t.machine.unit with
      | none =>
          have swapped := h.unit
          rw [unit, unit'] at swapped
          cases swapped
      | some u' =>
          refine ⟨_, h.segmentFault same unit unit' ▸ .advance (h.phase ▸ on) unit',
            (Act.interchanged_advance same s t h).2⟩
  | finish on none =>
      exact ⟨_, .finish (h.phase ▸ on) (idle none), (Act.interchanged_finish s t h).2⟩
  | stop => exact ⟨_, .stop, (Act.interchanged_stop s t h).2⟩

/-- The sessions that a session can come to, and the fault that ended the program on the
way, if one did. -/
inductive Leads (s : Session) : Option Fault → Session → Prop
  | refl : s.Leads none s
  | drive {t u : Session} {why fault : Option Fault} : s.Leads why t → Drive t fault u →
      s.Leads (fault.or why) u

/-- Whatever the one session comes to, the other can come to, and they stay together. -/
theorem Interchanged.leads (same : b'.instructions = b.instructions)
    (h : s.Interchanged b b' t) (leads : s.Leads why s') :
    ∃ t', t.Leads why t' ∧ s'.Interchanged b b' t' := by
  induction leads with
  | refl => exact ⟨t, .refl, h⟩
  | drive _ d ih =>
      obtain ⟨v, leads, h⟩ := ih
      obtain ⟨w, d, h⟩ := h.drive same d
      exact ⟨w, .drive leads d, h⟩

/-- Sessions stay honest. -/
theorem Leads.honest (honest : Honest s.bodies) (leads : s.Leads why t) : Honest t.bodies := by
  have alike : s.Interchanged ⟨"", 0, false⟩ ⟨"", 0, false⟩ s := .refl honest
  obtain ⟨t', -, h⟩ := alike.leads rfl leads
  exact h.recalled.honest

/-- A program that is loaded in a session without any body at hand is honest at all times. -/
theorem honest_of_loaded {program : List Instruction} (new : s.bodies = [])
    (idle : s.phase = .idle) (unit : s.machine.unit = none)
    (loads : (Act.init Act.plain program).run s = (.ok ⟨⟩, s')) (leads : s'.Leads why t) :
    Honest t.bodies := by
  rw [Act.run_init idle unit] at loads
  obtain rfl := (Prod.mk.inj loads).2
  have bodies : (s.begun program).bodies = [] := new
  refine leads.honest ?_
  rw [bodies]
  exact honest_nil

/-- The session with a unit of work that stands before a body. -/
def entering (s : Session) (serial : Nat) (call : Call) (body : Body) (callers : List Caller)
    (base : Base) : Session :=
  s.holding (some ⟨serial, .inCall call (.entered body) callers base, false⟩)

theorem Interchanged.entering (b b' : Body) (honest : Honest s.bodies) (serial : Nat)
    (call : Call) (callers : List Caller) (base : Base) :
    (s.entering serial call b callers base).Interchanged b b'
      (s.entering serial call b' callers base) :=
  ⟨.entered .., honest, honest, rfl⟩

end Session

end Runloop
