/-
# What stopping in the middle of a segment leaves

An intruder may stop a run while a segment of it is being run.  The program is over
then, and the step or the run ends with the segment.  But the unit of work cannot
be ended from inside itself, and when its calls could be left the run they belong to
does not count any more.  So the frames and the scopes that are there at the moment
of the stop stay, as far as the rest of the segment leaves them alone.
-/
import Runloop.Proofs.Finality

namespace Runloop

/-- What no event of a list is about stays as it is known. -/
theorem State.learnAll_keeps {α : Type} (part : State → α) {l : List Event}
    (keeps : ∀ e ∈ l, ∀ s : State, part (s.learn e) = part s) (s : State) :
    part (s.learnAll l) = part s := by
  induction l generalizing s with
  | nil => rfl
  | cons e l ih =>
      rw [learnAll_cons, ih fun e he => keeps e (List.mem_cons_of_mem _ he)]
      exact keeps e List.mem_cons_self s

theorem Event.learn_callStack {e : Event} (other : e.topic ≠ .callStack) (s : State) :
    (s.learn e).callStack = s.callStack := by
  cases e <;> first | rfl | exact absurd rfl other

theorem Event.learn_scopes {e : Event} (other : e.topic ≠ .scopes) (s : State) :
    (s.learn e).scopes = s.scopes := by
  cases e <;> first | rfl | exact absurd rfl other

namespace Session

/-- The session after its run was stopped in the middle of a segment. -/
def halted (u : Session) : Session := ((u.holding none).voided.inPhase .completed).opened

variable {u : Session}

theorem halted_machine_unit : u.halted.machine.unit = none := by
  unfold halted opened
  dsimp only
  split <;> rfl

theorem halted_generation : u.halted.machine.generation = u.machine.generation + 1 := by
  unfold halted opened
  dsimp only
  split <;> rfl

theorem halted_phase : u.halted.phase = .completed := by
  unfold halted opened Session.phase
  dsimp only
  split <;> rfl

/-- The run of the generation `g` was stopped in the middle of a segment, and is
over; `u` is what was there at that moment, and `l` what was still told. -/
structure Halted (when : Session → Bool) (g : Nat) (t : Session) : Prop where
  phase : t.phase = .completed
  unit : t.machine.unit = none
  isRunning : t.store.state.isRunning = false
  isPaused : t.store.state.isPaused = false
  rest : ∃ u l, when u = true ∧ u.busy = true ∧ u.machine.generation = g ∧
    t.journal = l.reverse ++ .execution false false u.store.state.speed :: u.journal ∧
    t.store.state = { u.store.state with isRunning := false, isPaused := false }.learnAll l ∧
    ((∀ e ∈ l, e.topic ≠ .callStack) → t.store.state.callStack = u.store.state.callStack) ∧
    ((∀ e ∈ l, e.topic ≠ .scopes) → t.store.state.scopes = u.store.state.scopes)

end Session

namespace Act

variable {when : Session → Bool} {s t : Session} {g : Nat}

/-- In the middle of a segment a program that has begun is stopped on the spot. -/
theorem run_stop_busy (busy : s.busy = true) :
    (control plain .stop).run s =
      (.ok .nothing,
        if s.machine.phase = .idle ∨ s.machine.phase = .completed then s else s.halted) := by
  show (stop plain >>= fun _ => pure Answer.nothing : Act Answer).run s = _
  unfold stop
  rw [run_bind, run_machine_bind]
  by_cases off : s.machine.phase = .idle ∨ s.machine.phase = .completed
  · rw [if_pos (by simpa using off), if_pos off]
    rfl
  · obtain ⟨u, hu, running⟩ := (Option.any_eq_true _ _).mp busy
    have closes : (closeUnit plain).run s = (.ok ⟨⟩, s.holding none) :=
      run_closeUnit_of_running (by simp [hu, running])
    rw [if_neg (by simpa using off), if_neg off, run_bind, closes]
    rfl

theorem voiding_stop : Voiding .stop := by
  intro s busy
  refine ⟨_, _, run_stop_busy busy, ?_⟩
  split
  · exact .inl rfl
  · exact .inr ⟨Session.halted_machine_unit, Session.halted_generation⟩

/-- Who is overtaken by a stop is halted. -/
theorem halted_of_overtaken (h : t.Overtaken when .stop g) : t.Halted when g := by
  obtain ⟨u, a, v, l, now, busy, same, run, none, generation, trails⟩ := h
  have stopped : v = u.halted := by
    have v_eq := congrArg Prod.snd (run.symm.trans (run_stop_busy busy))
    dsimp only at v_eq
    split at v_eq
    · rw [v_eq] at generation
      omega
    · exact v_eq
  subst stopped
  have known :
      u.halted.store.state = { u.store.state with isRunning := false, isPaused := false } :=
    rfl
  have state := trails.state
  rw [known] at state
  refine {
    phase := ?_, unit := ?_, isRunning := trails.isRunning, isPaused := trails.isPaused
    rest := ⟨u, l, now, busy, same, trails.journal, state, fun other => ?_, fun other => ?_⟩ }
  · exact (congrArg Machine.phase trails.driven :).trans Session.halted_phase
  · exact (congrArg Machine.unit trails.driven :).trans none
  · rw [state]
    exact State.learnAll_keeps State.callStack (fun e he => Event.learn_callStack (other e he)) _
  · rw [state]
    exact State.learnAll_keeps State.scopes (fun e he => Event.learn_scopes (other e he)) _

end Act

/-- When an intruder stops the run in the middle of a segment, that segment is the
last one and the program is over; its frames and scopes are those of the moment of
the stop and what the rest of the segment told of. -/
theorem stopping_midway_halts (when : Session → Bool) {s : Session} (idle : s.busy = false) :
    (∀ r t, (Act.step (Act.intruded when .stop)).run s = (r, t) →
      t.machine.generation ≠ s.machine.generation →
      r = .ok false ∧ t.Halted when s.machine.generation) ∧
    ∀ state r t, (Act.segment (Act.intruded when .stop) state).run s = (r, t) →
      t.machine.generation ≠ s.machine.generation →
      r = .ok (.finished none) ∧ t.Halted when s.machine.generation := by
  obtain ⟨steps, segments⟩ :=
    @Act.overtaken_of_void when .stop s Act.voiding_stop idle
  refine ⟨fun r t run void => ?_, fun state r t run void => ?_⟩
  · obtain ⟨answer, overtaken⟩ := steps r t run void
    exact ⟨answer, Act.halted_of_overtaken overtaken⟩
  · obtain ⟨answer, overtaken⟩ := segments state r t run void
    exact ⟨answer, Act.halted_of_overtaken overtaken⟩

/-- The latest event was a line of the console. -/
def Session.hearsLine (s : Session) : Bool := s.journal.head?.any fun e => e.topic == .console

/-- A session in the middle of a call. -/
def Session.calling : Session :=
  .running "function f() \x7b console.log(1); console.log(2); \x7d\nf();" {} 3

/-- Its next segment, when the run is stopped as soon as a line is written. -/
def Session.cutShort : Except Fault RunState × Session :=
  (Act.segment (Act.intruded hearsLine .stop) (.sleeping calling.machine.generation)).run calling

/-- The program is over, and the frame and the scope of the call are still there. -/
theorem a_call_outlives_a_stop :
    Session.cutShort.1 = .ok (.finished none) ∧
      Session.cutShort.2.Halted Session.hearsLine Session.calling.machine.generation ∧
      Session.cutShort.2.store.state.callStack.map (·.name) = ["Global", "f"] ∧
      Session.cutShort.2.store.scopeIds = [Store.scopeId 1, Store.scopeId 2] := by
  have idle : Session.calling.busy = false := by decide +kernel
  have void : Session.cutShort.2.machine.generation ≠ Session.calling.machine.generation := by
    decide +kernel
  obtain ⟨answer, halted⟩ := (stopping_midway_halts Session.hearsLine idle).2
    (.sleeping Session.calling.machine.generation) Session.cutShort.1 Session.cutShort.2 rfl void
  refine ⟨answer, halted, ?_⟩
  decide +kernel

end Runloop
