/-
# How far a program is from its end

A program may execute so many instructions still, and then there is the weight of
what is left to be done without executing any: together they are its
`Session.height`.  Every segment lowers it (`advance_lowers`), and letting time
pass does not raise it (`height_waited`).  Only taking a pass over the event loop
does, which may find nothing to run (`Session.Drained`); but then as much time
passes as any task still waits for, all of them are called back, and that
outweighs the pass (`drained_lowers`).
-/
import Mathlib.Data.Prod.Lex
import Runloop.Proofs.Punctuality
import Runloop.Proofs.Weight

namespace Runloop

/-! ## Heights -/

theorem total_map_le {α : Type} {l l' : List α} {f g : α → Nat} (h : l.Sublist l')
    (le : ∀ a, f a ≤ g a) : total (l.map f) ≤ total (l'.map g) := by
  induction h with
  | slnil => exact Nat.le_refl _
  | cons a _ ih => exact Nat.le_trans ih (Nat.le_add_left ..)
  | cons_cons a _ ih => exact Nat.add_le_add (le a) ih

namespace Session

variable {s t : Session} {delay : Double}

/-- How far a session is from its end. -/
def height (s : Session) : ℕ ×ₗ ℕ := toLex (s.budget, s.load)

theorem height_lt_iff : t.height < s.height ↔
    t.budget < s.budget ∨ t.budget = s.budget ∧ t.load < s.load :=
  Prod.Lex.toLex_lt_toLex

theorem height_le_iff : t.height ≤ s.height ↔
    t.budget < s.budget ∨ t.budget = s.budget ∧ t.load ≤ s.load :=
  Prod.Lex.toLex_le_toLex

/-- Loops are allowed to go on whenever the height goes down. -/
theorem rank_lt (hooks : t.hooks = s.hooks) (lower : t.height < s.height) :
    t.rank.lt s.rank = true := by
  rcases height_lt_iff.mp lower with budget | ⟨budget, load⟩
  · simp [rank, Rank.lt, hooks, budget]
  · simp [rank, Rank.lt, hooks, budget, load]

theorem load_eq (s : Session) :
    s.load = (s.machine.unit.elim 0 fun u => u.work.weight) + s.queued + 2 * s.delayAhead := by
  unfold load queued
  omega

theorem budget_eq (limits : t.machine.limits = s.machine.limits) (count : t.count = s.count) :
    t.budget = s.budget := by
  have step : t.store.state.currentStep = s.store.state.currentStep := count
  unfold budget
  rw [limits, step]

theorem delayAhead_eq (clock : t.clock = s.clock) : t.delayAhead = s.delayAhead := by
  unfold delayAhead
  rw [clock]

/-- What a segment leaves is lower if it is lighter, and no time has passed. -/
theorem height_rest {p : Progress} (serial : Nat) (limits : t.machine.limits = s.machine.limits)
    (count : t.count = s.count) (clock : t.clock = s.clock)
    (lighter : p.weight + t.queued < (s.machine.unit.elim 0 fun u => u.work.weight) + s.queued) :
    (t.holding (p.rest serial)).height < s.height := by
  have weight : ((p.rest serial).elim 0 fun u => u.work.weight) = p.weight := by
    cases p <;> rfl
  have ahead := delayAhead_eq clock
  refine height_lt_iff.mpr (.inr ⟨budget_eq limits count, ?_⟩)
  rw [load_eq, load_eq]
  show ((p.rest serial).elim 0 fun u => u.work.weight) + t.queued + 2 * t.delayAhead < _
  omega

/-! ## Time -/

theorem delayAhead_waited (regular : s.clock.Regular) (pause : delay.clampNonneg.IsWait) :
    (s.waited delay).delayAhead ≤ s.delayAhead := by
  have later := Double.rank_le_add_wait regular.now pause
  unfold delayAhead
  rw [waited_clock]
  refine total_map_le (List.dropWhile_sublist _) fun timer => ?_
  show (timer.due.rank - (s.clock.now.add delay.clampNonneg).rank).toNat ≤ _
  omega

/-- A task that is called back when time has passed is lighter than before. -/
theorem load_waited (regular : s.clock.Regular) (pause : delay.clampNonneg.IsWait) :
    (s.waited delay).budget = s.budget ∧
      (s.waited delay).load + 10 * s.store.state.loop.timers.length ≤
        s.load + 10 * (s.waited delay).store.state.loop.timers.length := by
  have ahead := delayAhead_waited regular pause
  obtain ⟨loop, same, microtasks, all, -⟩ := s.waited_requeues delay
  refine ⟨budget_eq (by rw [waited_machine]) (by rw [count, same]; rfl), ?_⟩
  rw [load_eq, load_eq, waited_machine, queued, queued, same]
  simp only [Store.setLoop, microtasks]
  omega

theorem height_waited (regular : s.clock.Regular) (pause : delay.clampNonneg.IsWait) :
    (s.waited delay).height ≤ s.height := by
  obtain ⟨budget, load⟩ := load_waited regular pause
  obtain ⟨loop, same, -, -, fewer⟩ := s.waited_requeues delay
  rw [same] at load
  simp only [Store.setLoop] at load
  exact height_le_iff.mpr (.inr ⟨budget, by omega⟩)

end Session

/-! ## Segments -/

namespace Act

variable {s t : Session} {u : UnitOfWork}

/-- Every segment brings the program nearer to its end. -/
theorem advance_lowers {again : Bool} (live : s.Live) (on : s.phase ≠ .completed)
    (hu : s.machine.unit = some u) (run : (advance plain).run s = (.ok again, t))
    (still : t.phase ≠ .completed) : t.height < s.height := by
  have st := live.steady on
  have limits : t.machine.limits = s.machine.limits := by
    have turns := (settles_advance s).after
    rw [run] at turns
    exact turns.limits
  -- a step uses up the budget; any other segment leaves lighter work
  rcases rests_or_executes u.work (s.working u) with rests | executes
  · rcases advance_cases st hu with ⟨-, -, v, -, run', -, -, completed⟩ | ⟨p, v, segment, -, run'⟩
    · cases run.symm.trans run'
      exact absurd completed still
    · cases run.symm.trans run'
      have count : v.count = s.count := rests.ends.of_ok segment
      obtain ⟨lighter, clock⟩ := (ends_lighter u.work).of_ok segment count
      refine Session.height_rest u.serial limits count clock ?_
      rw [hu]
      exact lighter
  · obtain ⟨count, fits⟩ := advance_executes st hu executes
    rw [run] at count fits
    have fits : (t.count : Int) ≤ s.machine.limits.steps := fits still
    refine Session.height_lt_iff.mpr (.inl ?_)
    have count : t.store.state.currentStep = s.store.state.currentStep + 1 := count
    unfold Session.budget
    unfold Session.count at fits
    rw [limits, count]
    omega

end Act

/-! ## Turns -/

/-- A session that is driven at its pace on a regular clock. -/
structure Session.Paced (delay : Double) (s : Session) : Prop where
  live : s.Live
  pacing : Number.quotient s.store.speed 1000 = .ok delay
  regular : s.phase ≠ .completed → s.clock.Regular

/-- Moreover time passes only when it is told to, and every task that waits will be
called back when the pacing delay has passed once more. -/
structure Session.OnTime (delay : Double) (s : Session) : Prop where
  live : s.Live
  pacing : Number.quotient s.store.speed 1000 = .ok delay
  timely : s.phase ≠ .completed → s.Timely s.store.speed delay

theorem Stride.speed {s t : Session} (live : s.Live) (d : Stride s t) :
    t.store.speed = s.store.speed := by
  cases d with
  | phase _ _ => rw [Act.run_setPhase]; rfl
  | seat | take => rfl
  | wait _ _ => exact s.waited_speed _
  | advance on hu => exact Act.advance_speed (live.steady on) hu
  | finish _ _ => exact (Act.same_finish Act.aloof_speed s).after

theorem Strides.speed {s t : Session} (live : s.Live) (path : Strides s t) :
    t.store.speed = s.store.speed := by
  induction path with
  | refl => rfl
  | tail path d ih => exact (d.speed (Strides.live live path)).trans ih

/-- The session when a pause of a step is over: in real time it takes no time. -/
def Session.elapsed (s : Session) (delay : Double) : Session :=
  if s.realtime then s else s.waited delay

theorem Session.elapsed_machine (s : Session) (delay : Double) :
    (s.elapsed delay).machine = s.machine := by
  unfold elapsed
  split
  · rfl
  · exact s.waited_machine delay

namespace Session.Paced

variable {s t : Session} {delay : Double}

theorem stride (h : s.Paced delay) (d : Stride s t) : t.Paced delay where
  live := d.live h.live
  pacing := d.speed h.live ▸ h.pacing
  regular := Clock.Regular.timing.stride h.live d h.regular

theorem strides (h : s.Paced delay) (d : Strides s t) : t.Paced delay := by
  induction d with
  | refl => exact h
  | tail _ d ih => exact ih.stride d

theorem isWait (h : s.Paced delay) : delay.clampNonneg.IsWait := Number.isWait_quotient h.pacing

theorem elapsed_strides (h : s.Paced delay) (on : s.phase ≠ .completed) :
    Strides s (s.elapsed delay) := by
  unfold elapsed
  split
  · exact .refl
  · exact .single (.wait on h.pacing)

theorem height_elapsed (h : s.Paced delay) (on : s.phase ≠ .completed) :
    (s.elapsed delay).height ≤ s.height := by
  unfold elapsed
  split
  · exact le_rfl
  · exact height_waited (h.regular on) h.isWait

end Session.Paced

namespace Session.OnTime

variable {s t : Session} {delay : Double}

theorem paced (h : s.OnTime delay) : s.Paced delay :=
  ⟨h.live, h.pacing, fun on => (h.timely on).clock⟩

theorem stride (h : s.OnTime delay) (d : Stride s t) : t.OnTime delay where
  live := d.live h.live
  pacing := d.speed h.live ▸ h.pacing
  timely on := by
    rw [d.speed h.live]
    exact (Timely.timing h.pacing).stride h.live d h.timely on

theorem strides (h : s.OnTime delay) (d : Strides s t) : t.OnTime delay := by
  induction d with
  | refl => exact h
  | tail _ d ih => exact ih.stride d

theorem elapsed (h : s.OnTime delay) (on : s.phase ≠ .completed) :
    s.elapsed delay = s.waited delay := by
  rw [Session.elapsed, (h.timely on).virtual]
  rfl

end Session.OnTime

/-- The session with a unit of work to run. -/
def Session.ready (s : Session) : Session :=
  match s.machine.unit with
  | some _ => s
  | none =>
    s.taking (Act.upcoming s.machine.program s.machine.cursor).1
      (Act.upcoming s.machine.program s.machine.cursor).2

theorem Session.ready_strides {s : Session} (on : s.phase ≠ .completed) : Strides s s.ready := by
  unfold ready
  cases hu : s.machine.unit with
  | some u => exact .refl
  | none =>
      have taken := Stride.take on hu
      rw [Act.run_nextUnit] at taken
      exact .single taken

theorem Session.ready_phase (s : Session) : s.ready.phase = s.phase := by
  unfold ready
  cases s.machine.unit <;> rfl

theorem Session.ready_unit (s : Session) : ∃ u, s.ready.machine.unit = some u := by
  unfold ready
  cases hu : s.machine.unit with
  | some u => exact ⟨u, hu⟩
  | none => exact ⟨_, rfl⟩

theorem Session.advance_strides {s t : Session} {r : Except Fault Bool} (on : s.phase ≠ .completed)
    (run : (Act.advance Act.plain).run s.ready = (r, t)) : Strides s t := by
  obtain ⟨u, hu⟩ := s.ready_unit
  have advances := Stride.advance (s.ready_phase ▸ on) hu
  rw [run] at advances
  exact (ready_strides on).tail advances

namespace Act

variable {s t : Session} {delay : Double}

/-- A pass that finds no task pauses, and nothing else happens. -/
theorem run_pass_idle (microtasks : s.store.state.loop.microtasks = [])
    (callbacks : s.store.state.loop.callbacks = []) :
    (runSegment plain .pass).run s = (.ok (.paused (.atPass .idle)), s) := by
  obtain ⟨p, t, run, taken⟩ := (ends_takeMicrotask (s := s) .first false).exists_ok
  refine Eq.trans run ?_
  cases taken with
  | microtask queue => cases microtasks.symm.trans queue
  | callback _ queue => cases callbacks.symm.trans queue
  | nothing _ rest => cases (rest rfl).2
  | idle => rfl

end Act

/-- Nothing can be run unless a task is called back. -/
structure Session.Drained (s : Session) : Prop where
  unit : s.machine.unit = none
  program : s.machine.program[s.machine.cursor]? = none
  microtasks : s.store.state.loop.microtasks = []
  callbacks : s.store.state.loop.callbacks = []

/-- The session in a pass that has found no task. -/
def Session.idling (s : Session) : Session :=
  s.ready.holding (some ⟨s.machine.units, .atPass .idle, false⟩)

theorem Session.idling_waited_unit (s : Session) (delay : Double) :
    (s.idling.waited delay).machine.unit = some ⟨s.machine.units, .atPass .idle, false⟩ := by
  rw [waited_machine]
  rfl

namespace Session.Drained

open Act

variable {s : Session}

/-- Time passes, and the pass is over. -/
theorem advance_idling (s : Session) (delay : Double) :
    (advance plain).run (s.idling.waited delay) =
      (.ok false, (s.idling.waited delay).holding none) := by
  rw [run_advance (s.idling_waited_unit delay) rfl]
  exact run_afterSegment_ok rfl

variable (h : s.Drained)

include h

theorem ready_eq : s.ready = s.taking .pass s.machine.cursor := by
  unfold ready upcoming
  rw [h.unit, h.program]

/-- A pass without a task pauses once. -/
theorem advance_ready : (advance plain).run s.ready = (.ok true, s.idling) := by
  rw [idling, h.ready_eq, run_advance rfl rfl]
  have idles : (runSegment plain .pass).run
      ((s.taking .pass s.machine.cursor).working ⟨s.machine.units, .pass, false⟩) = _ :=
    run_pass_idle h.microtasks h.callbacks
  dsimp only
  rw [idles]
  exact run_afterSegment_ok rfl

theorem load_idling : s.idling.budget = s.budget ∧ s.idling.load = s.load + 1 := by
  rw [idling, h.ready_eq]
  refine ⟨rfl, ?_⟩
  rw [load_eq, load_eq, h.unit]
  show 1 + s.queued + 2 * s.delayAhead = 0 + s.queued + 2 * s.delayAhead + 1
  omega

/-- If there is work left, some task waits. -/
theorem waiting (more : s.hasMore = true) : s.store.state.loop.timers ≠ [] := by
  intro none
  have ended : ¬ s.machine.cursor < s.machine.program.length :=
    Nat.not_lt.mpr (List.getElem?_eq_none_iff.mp h.program)
  have done : s.store.hasPendingTasks = false := by
    simp [Store.hasPendingTasks, none, h.callbacks, h.microtasks]
  unfold hasMore at more
  simp [h.unit, ended, done] at more

/-- If there is work left after the pass, some task has waited. -/
theorem waiting_of_hasMore {delay : Double}
    (more : ((s.idling.waited delay).holding none).hasMore = true) :
    s.store.state.loop.timers ≠ [] := by
  intro none
  obtain ⟨loop, same, microtasks, all, -⟩ := s.idling.waited_requeues delay
  have store : s.idling.store = s.store := by
    rw [idling, h.ready_eq]
    rfl
  rw [store, h.microtasks] at microtasks
  rw [store, none, h.callbacks] at all
  have empty : loop.timers = [] ∧ loop.callbacks = [] := by simpa using all
  have drained : ((s.idling.waited delay).holding Option.none).Drained := by
    refine ⟨rfl, ?_, ?_, ?_⟩
    · show (s.idling.waited delay).machine.program[(s.idling.waited delay).machine.cursor]? = _
      rw [waited_machine, idling, h.ready_eq]
      exact h.program
    · show (s.idling.waited delay).store.state.loop.microtasks = []
      rw [same]
      exact microtasks
    · show (s.idling.waited delay).store.state.loop.callbacks = []
      rw [same]
      exact empty.2
  refine drained.waiting more ?_
  show (s.idling.waited delay).store.state.loop.timers = []
  rw [same]
  exact empty.1

end Session.Drained

namespace Act

variable {s t : Session} {delay : Double} {again : Bool}

/-- A pass that finds a task takes it, which is lighter than it was in its queue. -/
theorem pass_lowers (live : s.Live) (on : s.phase ≠ .completed) (unit : s.machine.unit = none)
    (program : s.machine.program[s.machine.cursor]? = none) (busy : ¬ s.Drained)
    (run : (advance plain).run s.ready = (.ok again, t)) (still : t.phase ≠ .completed) :
    t.height < s.height := by
  have ready : s.ready = s.taking .pass s.machine.cursor := by
    unfold Session.ready upcoming
    rw [unit, program]
  have st : Steady s.ready := by
    refine (Strides.live live (Session.ready_strides on)).steady ?_
    rw [ready]
    exact on
  rw [ready] at run st
  have limits : t.machine.limits = s.machine.limits := by
    have turns := (settles_advance (s.taking .pass s.machine.cursor)).after
    rw [run] at turns
    exact turns.limits
  rcases advance_cases st rfl with ⟨-, -, v, -, run', -, -, completed⟩ | ⟨p, v, segment, -, run'⟩
  · cases run.symm.trans run'
    exact absurd completed still
  · cases run.symm.trans run'
    have count : v.count = ((s.taking .pass s.machine.cursor).working _).count :=
      (rests_pass _).ends.of_ok segment
    have taken : Taken _ _ _ _ _ := (ends_takeMicrotask .first false).of_ok segment
    rcases taken.lighter with ⟨lighter, clock⟩ | ⟨-, -, microtasks, callbacks⟩
    · refine Session.height_rest s.machine.units limits count clock ?_
      rw [unit]
      exact Nat.lt_of_lt_of_le lighter (Nat.le_add_left ..)
    · exact absurd ⟨unit, program, microtasks, callbacks rfl⟩ busy

/-- A unit of work that finds something to do brings the program nearer to its
end. -/
theorem ready_lowers (live : s.Live) (on : s.phase ≠ .completed) (busy : ¬ s.Drained)
    (run : (advance plain).run s.ready = (.ok again, t)) (still : t.phase ≠ .completed) :
    t.height < s.height := by
  cases hu : s.machine.unit with
  | some u =>
      have ready : s.ready = s := by
        unfold Session.ready
        rw [hu]
      rw [ready] at run
      exact advance_lowers live on hu run still
  | none =>
      cases program : s.machine.program[s.machine.cursor]? with
      | none => exact pass_lowers live on hu program busy run still
      | some i =>
          have ready : s.ready = s.taking (.instruction i) (s.machine.cursor + 1) := by
            unfold Session.ready upcoming
            rw [hu, program]
          have level : s.ready.height = s.height := by
            rw [ready, Session.height, Session.height, Session.load_eq, Session.load_eq, hu]
            rfl
          have readied := Strides.live live (Session.ready_strides on)
          rw [ready] at run readied level
          rw [← level]
          exact advance_lowers readied on rfl run still

/-- When nothing can be run, time passes, and then the tasks that have waited are
lighter, which outweighs the pass. -/
theorem drained_lowers (h : s.OnTime delay) (on : s.phase ≠ .completed) (drained : s.Drained)
    (waiting : s.store.state.loop.timers ≠ []) : (s.idling.waited delay).height < s.height := by
  have still : s.idling.phase ≠ .completed := s.ready_phase ▸ on
  have idling := h.strides (Session.advance_strides on drained.advance_ready)
  have timely := idling.timely still
  have timers : s.idling.store.state.loop.timers = s.store.state.loop.timers := by
    rw [Session.idling, drained.ready_eq]
    rfl
  obtain ⟨budget, load⟩ := Session.load_waited timely.clock h.paced.isWait
  rw [timely.waited idling.pacing idling.live, timers] at load
  have some : 0 < s.store.state.loop.timers.length := List.length_pos_iff.mpr waiting
  have := drained.load_idling
  refine Session.height_lt_iff.mpr (.inr ⟨budget.trans drained.load_idling.1, ?_⟩)
  simp only [List.length_nil] at load
  omega

end Act

end Runloop
