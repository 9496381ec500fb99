/-
# Calls are left as they were entered

Whatever a program and its driver do, the frames, the receivers and the scopes
that are there are those of the calls that are open (`Balanced`), and when there
is no unit of work all of them are gone (`Unwound`), whether the unit came to
its end, the run was halted at a limit, or it was stopped in the middle of a
call.
-/
import Runloop.Proofs.Commands

namespace Runloop

namespace Session

/-- A session holds the frames, the receivers and the scopes of calls that are
open, and besides them the global frame and the global scope. -/
structure Balanced (s : Session) (calls : List Call) : Prop where
  frames : s.store.state.callStack.length = s.machine.depth + 1
  bottom : ∃ base ∈ s.store.state.callStack.head?, base.IsGlobal
  receivers : s.machine.receivers.length = s.machine.depth
  scopes : ∀ id ∈ s.store.scopeIds, s.machine.globalScope = some id ∨
    ∃ call ∈ calls, id = call.scope ∨ id ∈ call.restored

/-- No frame is there but the global one, which is active, and no receiver. -/
structure Unwound (s : Session) : Prop where
  frames : ∃ base, s.store.state.callStack = [base] ∧ base.IsGlobal ∧ base.active = true
  depth : s.machine.depth = 0
  receivers : s.machine.receivers = []

/-- No scope is open but the global one. -/
def OnlyGlobal (s : Session) : Prop :=
  ∃ id, s.machine.globalScope = some id ∧ s.store.scopeIds = [id]

end Session

/-! ## From what is held -/

theorem mem_openIds {calls : List Call} {id : String} (h : id ∈ openIds calls) :
    ∃ call ∈ calls, id = call.scope ∨ id ∈ call.restored := by
  induction calls with
  | nil => exact absurd h List.not_mem_nil
  | cons call outer ih =>
      rw [openIds] at h
      rcases List.mem_append.mp h with h | h
      · obtain ⟨call', hm, found⟩ := ih h
        exact ⟨call', List.mem_cons_of_mem _ hm, found⟩
      · exact ⟨call, List.mem_cons_self, by simpa [Call.closing, or_comm] using h⟩

namespace Held

variable {s : Session} {calls : List Call} {spilt : List String}

theorem balanced (h : Held s calls []) : s.Balanced calls where
  frames := by rw [h.depth]; exact_mod_cast h.stack.length
  bottom := h.stack.bottom
  receivers := by rw [h.depth]; exact_mod_cast h.receivers
  scopes id hid := by
    rw [h.scopes, List.append_nil] at hid
    rcases List.mem_cons.mp hid with rfl | hid
    · exact .inl h.global
    · exact .inr (mem_openIds hid)

theorem unwound (h : Held s [] spilt) : s.Unwound where
  frames := by
    obtain ⟨base, one⟩ := List.length_eq_one_iff.mp h.stack.length
    obtain ⟨bottom, first, global⟩ := h.stack.bottom
    obtain ⟨top, last, active⟩ := h.stack.active
    rw [one] at first last
    cases first
    cases last
    exact ⟨_, one, global, active⟩
  depth := h.depth
  receivers := List.length_eq_zero_iff.mp h.receivers

theorem onlyGlobal (h : Held s [] []) : s.OnlyGlobal := ⟨_, h.global, h.scopes⟩

end Held

/-! ## What ends a program -/

namespace Reached

variable {why : Option Fault} {s : Session}

/-- A fault ends a program for good. -/
theorem on (h : Reached why s) : s.phase ≠ .completed → why = none := by
  refine (h.induct (P := fun why s => s.phase ≠ .completed → why = none) (fun _ _ _ _ => rfl)
    fun why fault s t standing ih k hph => ?_).2
  obtain ⟨rfl, on⟩ := k.on hph
  exact ih on

/-- Without a unit of work no call is open. -/
theorem held (h : Reached why s) (hu : s.machine.unit = none) :
    ∃ spilt, Held s [] spilt ∧ ((∀ f ∈ why, f.spills = false) → spilt = []) := by
  by_cases hph : s.phase = .completed
  · obtain ⟨-, spilt, sound, clean⟩ := h.standing.ended hph
    exact ⟨spilt, sound.held, clean⟩
  · have sound := (h.steady hph).sound
    rw [Session.calls, hu] at sound
    exact ⟨[], sound.held, fun _ => rfl⟩

end Reached

/-! ## All runs -/

/-- Stopping a run that has begun gives up its unit of work. -/
theorem Reached.stopped {why : Option Fault} {s : Session} (h : Reached why s)
    (begun : s.phase = .running ∨ s.phase = .paused) :
    Reached none (s.control .stop).2 ∧ (s.control .stop).2.machine.unit = none := by
  obtain ⟨hi, hph⟩ : s.phase ≠ .idle ∧ s.phase ≠ .completed := by
    rcases begun with e | e <;> simp [e]
  obtain ⟨_, t, run, tick, completed⟩ := (Act.ends_stop h.standing.steady).exists_ok
  have same : (s.control .stop).2 = t := by
    unfold Session.control
    rw [Session.run_eq (h.steady hph).sound.held.hooks]
    show ((Act.stop Act.plain >>= fun _ => pure Act.Answer.nothing).run s).2 = t
    rw [Act.run_bind, run]
    rfl
  have reached : Reached none t := by
    have := h.drive .stop
    rwa [run, h.on hph] at this
  rw [same]
  exact ⟨reached, (reached.standing.ended (completed hi)).1⟩

/-- At every pause what is there is what the open calls opened; without a unit
of work nothing of them is left, if the run went well or was halted; and
nothing is left when a run is stopped. -/
theorem calls_unwind {why : Option Fault} {s : Session} (h : Reached why s) :
    (∀ u, s.machine.unit = some u → s.Balanced u.work.calls) ∧
    (s.machine.unit = none →
      s.Unwound ∧ ((∀ f ∈ why, ∃ halt, f = .halt halt) → s.OnlyGlobal)) ∧
    (s.phase = .running ∨ s.phase = .paused →
      (s.control .stop).2.machine.unit = none ∧ (s.control .stop).2.Unwound ∧
        (s.control .stop).2.OnlyGlobal) := by
  refine ⟨fun u hu => ?_, fun hu => ?_, fun begun => ?_⟩
  · have on : s.phase ≠ .completed := fun he =>
      absurd (hu.symm.trans (h.standing.ended he).1) (by simp)
    have held := (h.steady on).sound.held
    rw [Session.calls, hu] at held
    exact held.balanced
  · obtain ⟨spilt, held, clean⟩ := h.held hu
    refine ⟨held.unwound, fun halted => ?_⟩
    rw [clean fun f hf => ?_] at held
    · exact held.onlyGlobal
    · obtain ⟨halt, rfl⟩ := halted f hf
      rfl
  · obtain ⟨reached, hu⟩ := h.stopped begun
    obtain ⟨spilt, held, clean⟩ := reached.held hu
    cases clean (by simp)
    exact ⟨hu, held.unwound, held.onlyGlobal⟩

/-- A recursion two calls deep, where no third one is allowed. -/
def Session.recursion : Session :=
  .running "function f() \x7b f(); \x7d\nf();" { callDepth := 2 } 4

/-- Two calls are open; the next segment is halted, and both are left.  They are
left just as well if the run is stopped in place of it. -/
theorem recursion_unwinds :
    (∃ u, Session.recursion.machine.unit = some u ∧
      Session.recursion.Balanced u.work.calls ∧ u.work.calls.length = 2) ∧
    ((Act.advance Act.plain).run Session.recursion).2.OnlyGlobal ∧
    (Session.recursion.control .stop).2.OnlyGlobal := by
  obtain ⟨why, h⟩ : Session.recursion.Live := Session.running_live 4 (by decide +kernel)
  obtain ⟨on, deep, halts, ended⟩ : Session.recursion.phase = .running ∧
      Session.recursion.machine.unit.map (·.work.calls.length) = some 2 ∧
      Session.recursion.machine.unit.bind Session.recursion.segmentFault =
        some (.halt .callDepth) ∧
      ((Act.advance Act.plain).run Session.recursion).2.machine.unit.isNone = true := by
    decide +kernel
  obtain ⟨u, hu⟩ : ∃ u, Session.recursion.machine.unit = some u := by
    cases hu : Session.recursion.machine.unit with
    | none => simp [hu] at deep
    | some u => exact ⟨u, rfl⟩
  rw [hu] at deep halts
  have halted := h.drive (.advance (by simp [on]) hu)
  rw [show Session.recursion.segmentFault u = some (.halt .callDepth) from halts] at halted
  obtain ⟨balanced, -, stopped⟩ := calls_unwind h
  have left := (calls_unwind halted).2.1 (Option.isNone_iff_eq_none.mp ended)
  refine ⟨⟨u, hu, balanced u hu, by simpa using deep⟩, left.2 ?_, (stopped (.inl on)).2.2⟩
  rintro f ⟨⟩
  exact ⟨.callDepth, rfl⟩

end Runloop
