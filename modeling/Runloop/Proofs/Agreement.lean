/-
# Stepping and running agree

A program that is driven by steps and one that is driven by a run let time pass at
different places, so their timers come due at different moments.  But if the timers
come in the order in which they were set, nothing of that is seen apart from time:
whatever is done with a program leaves its view as it is or is one step of the
machine of views, which is deterministic (`Strides.view`).  So both come to the same
end (`Strides.agree`), up to the times at which things happened, and up to tasks that
a fault leaves in the queues: of these one may have been called back in one of the
programs while it still waits in the other.
-/
import Runloop.Proofs.Conservation
import Runloop.Proofs.Containment
import Runloop.Proofs.Patience
import Runloop.Proofs.Playing

namespace Runloop

open Relation (ReflTransGen)

/-! ## Reading times -/

/-- No time is read. -/
def Retiming.blind : Retiming := ⟨fun _ => .zero, fun _ => rfl⟩

/-- As long as `I` holds it is not read that time passes. -/
structure Retiming.Overlooks (ρ : Retiming) (I : Session → Prop) : Prop where
  timing : Session.Timing I
  same : ∀ {s : Session} {delay : Double}, I s → Number.quotient s.store.speed 1000 = .ok delay →
    ρ.read (s.clock.after delay) = ρ.read s.clock.now

theorem Retiming.overlooks_blind : Retiming.blind.Overlooks fun _ => True where
  timing := ⟨fun h _ => h, fun h _ => h, fun _ _ h => h⟩
  same _ _ := rfl

/-- Without a pacing delay no time passes. -/
theorem Retiming.overlooks_same :
    Retiming.same.Overlooks fun s => s.clock.now = .zero ∧ s.store.speed ≤ 0 := by
  have stands {s : Session} {delay : Double} (now : s.clock.now = .zero) (speed : s.store.speed ≤ 0)
      (pace : Number.quotient s.store.speed 1000 = .ok delay) : s.clock.after delay = .zero := by
    rw [Clock.after, now, Number.quotient_of_nonpos pace speed]
    decide
  refine ⟨⟨?_, ?_, ?_⟩, ?_⟩
  · rintro s t ⟨now, speed⟩ idles
    exact ⟨idles.clock ▸ now, idles.speed ▸ speed⟩
  · rintro s t task ⟨now, speed⟩ starts
    obtain ⟨delay, -, clock⟩ := starts.clock
    exact ⟨clock ▸ now, starts.speed ▸ speed⟩
  · rintro s delay - pace ⟨now, speed⟩
    show (s.waited delay).clock.now = .zero ∧ (s.waited delay).store.speed ≤ 0
    rw [Session.waited_clock, Session.waited_speed]
    exact ⟨stands now speed pace, speed⟩
  · rintro s delay ⟨now, speed⟩ pace
    exact (stands now speed pace).trans now.symm

/-! ## The way to the end -/

theorem View.next_of_none {ρ : Retiming} {v : View} (completed : v.spot = none) : v.next ρ = v := by
  unfold next
  rw [completed]

/-- A program of which no more is seen while time passes than that tasks are called
back in turn. -/
structure Session.Tempered (I : Session → Prop) (s : Session) : Prop where
  live : s.Live
  even : s.phase ≠ .completed → I s
  punctual : s.phase ≠ .completed → s.Punctual

namespace Session

variable {ρ : Retiming} {I : Session → Prop} {s t u : Session}

theorem Tempered.stride (k : ρ.Overlooks I) (h : s.Tempered I) (d : Stride s t) :
    t.Tempered I where
  live := d.live h.live
  even := k.timing.stride h.live d h.even
  punctual := Punctual.timing.stride h.live d h.punctual

theorem Tempered.view (k : ρ.Overlooks I) (h : s.Tempered I) (patient : s.Patient)
    (d : Stride s t) : t.view ρ = s.view ρ ∨ t.view ρ = (s.view ρ).next ρ := by
  rcases d.view (ρ := ρ) h.live with ⟨delay, on, pace, rfl⟩ | same
  · exact .inl ((h.punctual on patient).waited_view (k.same (h.even on) pace))
  · exact same

theorem Patient.stride (live : s.Live) (d : Stride s t) (patient : t.Patient) : s.Patient :=
  patient.before d.tells (d.speed live)

/-- The way to a session on which no timer was set too short is a way of views, on
which none was. -/
theorem Tempered.strides_view (k : ρ.Overlooks I) (h : s.Tempered I) (path : Strides s t)
    (patient : t.Patient) : t.Tempered I ∧ ∃ n, t.view ρ = (View.next ρ)^[n] (s.view ρ) ∧
      ∀ i ≤ n, ((View.next ρ)^[i] (s.view ρ)).outline.Patient := by
  induction path with
  | refl =>
      refine ⟨h, 0, rfl, fun i hi => ?_⟩
      obtain rfl := Nat.le_zero.mp hi
      exact patient_outline.mpr patient
  | @tail b c path d ih =>
      have before := patient.stride (Strides.live h.live path) d
      obtain ⟨tempered, n, view, patience⟩ := ih before
      refine ⟨tempered.stride k d, ?_⟩
      rcases tempered.view k before d with same | next
      · exact ⟨n, same.trans view, patience⟩
      · have view : c.view ρ = (View.next ρ)^[n + 1] (s.view ρ) := by
          rw [next, view, Function.iterate_succ_apply']
        refine ⟨n + 1, view, fun i hi => ?_⟩
        rcases Nat.le_succ_iff.mp hi with hi | rfl
        · exact patience i hi
        · rw [← view]
          exact patient_outline.mpr patient

/-- Then every way from there is. -/
theorem Tempered.patient (k : ρ.Overlooks I) (h : s.Tempered I) {n : Nat}
    (completed : ((View.next ρ)^[n] (s.view ρ)).spot = none)
    (patience : ∀ i ≤ n, ((View.next ρ)^[i] (s.view ρ)).outline.Patient) (path : Strides s t) :
    t.Tempered I ∧ ∃ i ≤ n, t.view ρ = (View.next ρ)^[i] (s.view ρ) := by
  induction path with
  | refl => exact ⟨h, 0, Nat.zero_le n, rfl⟩
  | @tail b c _ d ih =>
      obtain ⟨tempered, i, hi, view⟩ := ih
      refine ⟨tempered.stride k d, ?_⟩
      have patient : b.Patient := by
        have outline : b.outline ρ = ((View.next ρ)^[i] (s.view ρ)).outline :=
          congrArg View.outline view
        rw [← patient_outline (ρ := ρ), outline]
        exact patience i hi
      rcases tempered.view k patient d with same | next
      · exact ⟨i, hi, same.trans view⟩
      · rw [view, ← Function.iterate_succ_apply' (View.next ρ)] at next
        rcases Nat.lt_or_eq_of_le hi with hi | rfl
        · exact ⟨i + 1, hi, next⟩
        · -- the program is over already
          rw [Function.iterate_succ_apply', View.next_of_none completed] at next
          exact ⟨i, le_refl i, next⟩

/-- Whoever comes to the end of a program comes to the same end, unless a timer was
set too short on both ways. -/
theorem Tempered.agree (k : ρ.Overlooks I) (h : s.Tempered I) (toT : Strides s t)
    (toU : Strides s u) (overT : t.phase = .completed) (overU : u.phase = .completed)
    (patient : t.Patient ∨ u.Patient) : t.outline ρ = u.outline ρ := by
  wlog first : t.Patient generalizing t u
  · exact (this toU toT overU overT patient.symm (patient.resolve_left first)).symm
  obtain ⟨-, n, view, patience⟩ := h.strides_view k toT first
  have completed : ((View.next ρ)^[n] (s.view ρ)).spot = none := by
    rw [← view]
    exact Act.spot_of_completed overT
  obtain ⟨-, i, hi, other⟩ := h.patient k completed patience toU
  have completed' : ((View.next ρ)^[i] (s.view ρ)).spot = none := by
    rw [← other]
    exact Act.spot_of_completed overU
  -- the other way is over no later, and from there nothing changes
  obtain ⟨j, rfl⟩ := Nat.exists_eq_add_of_le' hi
  rw [Function.iterate_add_apply, Function.iterate_fixed (View.next_of_none completed')] at view
  exact congrArg View.outline (view.trans other.symm)

/-- A program that was loaded just now is tempered. -/
theorem loaded_tempered {source : String} {limits : Limits} {speed : Int} {realtime : Bool}
    (loads : (create speed limits realtime).control (.load source) = (.ok (.bool true), s))
    (even : I s) : s.Tempered I := by
  obtain ⟨live, clock, -, -, loop, -⟩ := loaded_eq loads
  refine ⟨live, fun _ => even, fun _ _ => ⟨?_, ?_⟩⟩
  · rw [clock]
    rfl
  · rw [clock, loop]
    exact .nil

end Session

/-! ## The end -/

/-- The state with the tasks that were called back put in front of those that wait. -/
def State.merged (a : State) : State :=
  { a with
    loop := { timers := a.loop.callbacks ++ a.loop.timers, microtasks := a.loop.microtasks } }

/-- The state with its times read. -/
def State.retimed (ρ : Retiming) (a : State) : State :=
  { a with
    heap := a.heap.map (HeapObject.retimed ρ)
    scopes := a.scopes.map (Scope.retimed ρ)
    loop :=
      { timers := a.loop.timers.map (Task.retimed ρ)
        callbacks := a.loop.callbacks.map (Task.retimed ρ)
        microtasks := a.loop.microtasks.map (Task.retimed ρ) } }

/-- The state tells that nothing runs. -/
def State.Still (a : State) : Prop := a.isRunning = false ∧ a.isPaused = false

/-- Where no timer is set none is left. -/
theorem Lawful.idle {trace : List Event} (h : Lawful trace)
    (unset : ∀ e ∈ trace, e.timer? = none) :
    (ledger trace).timers = [] ∧ (ledger trace).callbacks = [] := by
  induction trace using List.reverseRecOn with
  | nil => exact ⟨rfl, rfl⟩
  | append_singleton trace e ih =>
      obtain ⟨timers, callbacks⟩ := ih (h.of_prefix (List.prefix_append ..))
        fun e he => unset e (List.mem_append_left _ he)
      have allows := h trace e (List.prefix_refl _)
      have quiet := unset e (List.mem_append_right _ List.mem_cons_self)
      rw [ledger_concat]
      unfold Ledger.note
      split
      · cases quiet
      · exact ⟨timers, callbacks⟩
      · -- there is no timer that could be called back
        have found : (ledger trace).timers.find? _ = some _ := allows
        rw [timers] at found
        cases found
      · exact ⟨timers, callbacks⟩
      · exact ⟨timers, by rw [callbacks]; rfl⟩
      · exact ⟨timers, callbacks⟩

namespace State

variable {ρ : Retiming} {a : State}

theorem retimed_same (a : State) : a.retimed .same = a := by
  have heap : a.heap.map (HeapObject.retimed .same) = a.heap := List.map_id' _
  have scopes : a.scopes.map (Scope.retimed .same) = a.scopes := List.map_id' _
  have tasks (l : List Task) : l.map (Task.retimed .same) = l := List.map_id' _
  unfold retimed
  rw [heap, scopes, tasks, tasks, tasks]

theorem Still.seen_eq (h : a.Still) (ρ : Retiming) : a.seen ρ = a.merged.retimed ρ := by
  unfold merged retimed
  rw [h.1, h.2]
  rfl

/-- Where no timer is left, nothing was put in front. -/
theorem merged_of_idle (idle : a.loop.callbacks ++ a.loop.timers = []) : a.merged = a := by
  obtain ⟨callbacks, timers⟩ := List.append_eq_nil_iff.mp idle
  have loop : a.loop = ⟨[], [], a.loop.microtasks⟩ := by
    cases loop : a.loop with
    | mk ts cs ms =>
        rw [loop] at timers callbacks
        cases timers
        cases callbacks
        rfl
  unfold merged
  rw [idle]
  exact congrArg (fun loop => { a with loop }) loop.symm

theorem idle_of_merged {b : State} (merged : a.merged.retimed ρ = b.merged.retimed ρ)
    (idle : a.loop.callbacks ++ a.loop.timers = []) :
    b.loop.callbacks ++ b.loop.timers = [] := by
  have tasks : (a.loop.callbacks ++ a.loop.timers).map (Task.retimed ρ) =
      (b.loop.callbacks ++ b.loop.timers).map (Task.retimed ρ) :=
    congrArg (·.loop.timers) merged
  rw [idle] at tasks
  exact List.map_eq_nil_iff.mp tasks.symm

/-- If the states look the same and no timer is left in one of them, they are. -/
theorem retimed_eq_of_merged {b : State} (merged : a.merged.retimed ρ = b.merged.retimed ρ)
    (idle : a.loop.callbacks ++ a.loop.timers = []) : a.retimed ρ = b.retimed ρ := by
  have idle' := idle_of_merged merged idle
  rwa [merged_of_idle idle, merged_of_idle idle'] at merged

end State

namespace Session

variable {ρ : Retiming} {I : Session → Prop} {s t u : Session}

theorem Breaks.still (live : s.Live) (attached : s.attached = true) (h : s.Breaks t) :
    t.store.state.Still := by
  obtain ⟨u, unit, fault, path, on, hu, faults, store, -⟩ := h
  obtain ⟨v, run, faulted⟩ :=
    (path.live live).advance_faults on ((path.attached live).trans attached) hu faults
  rw [store, run]
  exact faulted.still

theorem RunsOut.still (live : s.Live) (h : s.RunsOut t) : t.store.state.Still := by
  obtain ⟨u, path, on, more, store, -⟩ := h
  rw [store, Act.run_finish ((path.live live).unit_of_hasMore on more), concluded_store]
  exact ⟨rfl, rfl⟩

/-- No task is among the timers or was called back if no timer was set. -/
theorem Timerless.idle (live : t.Live) (h : t.Timerless) :
    t.store.state.loop.callbacks ++ t.store.state.loop.timers = [] := by
  obtain ⟨why, reached⟩ := live
  have booked := reached.booked
  have unset : ∀ e ∈ t.trace, e.timer? = none := fun e he =>
    h e ((List.takeWhile_subset _) (List.mem_reverse.mp he))
  obtain ⟨timers, callbacks⟩ := booked.lawful.idle unset
  rw [booked.ledger] at timers callbacks
  exact List.append_eq_nil_iff.mpr ⟨callbacks, timers⟩

theorem RunsOut.idle (live : s.Live) (h : s.RunsOut t) :
    t.store.state.loop.callbacks ++ t.store.state.loop.timers = [] := by
  rw [(h.emptied live).1]
  rfl

/-- Both programs have come to the same end, but for how times are read.  If a fault
has ended them, and only if timers were set, a task that is left may wait in one of
them and have been called back in the other. -/
structure SameEnd (ρ : Retiming) (s t u : Session) : Prop where
  console : t.console.map (ConsoleEntry.retimed ρ) = u.console.map (ConsoleEntry.retimed ρ)
  merged : t.store.state.merged.retimed ρ = u.store.state.merged.retimed ρ
  state : (s.Breaks t ∧ ¬ t.Timerless) ∧ (s.Breaks u ∧ ¬ u.Timerless) ∨
    t.store.state.retimed ρ = u.store.state.retimed ρ

theorem console_of_outline (same : t.outline ρ = u.outline ρ) :
    t.console.map (ConsoleEntry.retimed ρ) = u.console.map (ConsoleEntry.retimed ρ) := by
  have lines : t.lines.map (ConsoleEntry.retimed ρ) = u.lines.map (ConsoleEntry.retimed ρ) :=
    congrArg Session.lines same
  rw [console, console, List.map_reverse, List.map_reverse, lines]

/-- Whoever comes to the end of a program comes to the same end, unless a timer was
set too short on both ways. -/
theorem Tempered.same_end (k : ρ.Overlooks I) (h : s.Tempered I) (attached : s.attached = true)
    (on : s.phase ≠ .completed) (toT : Strides s t) (toU : Strides s u)
    (overT : t.phase = .completed) (overU : u.phase = .completed)
    (patient : t.Patient ∨ u.Patient) : s.SameEnd ρ t u := by
  have same := h.agree k toT toU overT overU patient
  have endT := toT.completed h.live on overT
  have endU := toU.completed h.live on overU
  have stillT := endT.elim (·.still h.live attached) (·.still h.live)
  have stillU := endU.elim (·.still h.live attached) (·.still h.live)
  have merged : t.store.state.seen ρ = u.store.state.seen ρ := congrArg (·.store.state) same
  rw [stillT.seen_eq, stillU.seen_eq] at merged
  refine ⟨console_of_outline same, merged, ?_⟩
  have left {v : Session} (live : v.Live) (ends : s.Breaks v ∨ s.RunsOut v) :
      s.Breaks v ∧ ¬ v.Timerless ∨
        v.store.state.loop.callbacks ++ v.store.state.loop.timers = [] := by
    by_cases timerless : v.Timerless
    · exact .inr (timerless.idle live)
    · exact ends.imp (⟨·, timerless⟩) (·.idle h.live)
  rcases left (toT.live h.live) endT with breaks | idle
  · rcases left (toU.live h.live) endU with breaks' | idle'
    · exact .inl ⟨breaks, breaks'⟩
    · exact .inr (State.retimed_eq_of_merged merged.symm idle').symm
  · exact .inr (State.retimed_eq_of_merged merged idle)

end Session

/-! ## Steps and runs -/

namespace Session

variable {s t u : Session} {source : String} {limits : Limits} {speed : Int} {direct : Bool}

/-- Both come to the same end. -/
theorem loaded_same_end {I : Session → Prop} {ρ : Retiming}
    (loads : (create speed limits false).control (.load source) = (.ok (.bool true), s))
    (k : ρ.Overlooks I) (even : I s) (stepped : s.SteppedTo t) (ran : s.RanTo direct u)
    (patient : t.Patient ∨ u.Patient) : s.SameEnd ρ t u := by
  obtain ⟨-, -, -, -, -, idle, -, attached⟩ := loaded_eq loads
  obtain ⟨⟨toT, overT⟩, toU, overU⟩ := driven_to_end loads stepped ran
  exact (loaded_tempered loads even).same_end k attached (by simp [idle]) toT toU overT overU
    patient

/-- A program that is stepped to its end and one that is run to its end write the
same lines to the console, in the same order, as long as in one of them no timer was
set for a shorter time than another one whose task was still to be called back, both
taken no longer than the pacing delay. -/
theorem steps_and_runs_agree
    (loads : (create speed limits false).control (.load source) = (.ok (.bool true), s)) :
    (∀ delay direct, Number.quotient speed 1000 = .ok delay →
      (∃ t, s.SteppedTo t) ∧ ∃ u, s.RanTo direct u) ∧
    ∀ t u direct, s.SteppedTo t → s.RanTo direct u → t.Patient ∨ u.Patient →
      t.console.map ConsoleEntry.untimed = u.console.map ConsoleEntry.untimed := by
  refine ⟨fun delay direct converts => drive_to_end loads converts direct, ?_⟩
  intro t u direct stepped ran patient
  exact (loaded_same_end loads Retiming.overlooks_blind trivial stepped ran patient).console

/-- Two timers that come in the order in which they were set. -/
theorem timers_in_turn_agree :
    let source := "setTimeout(() => \x7b console.log(1); \x7d, 500);\n" ++
      "setTimeout(() => \x7b console.log(2); \x7d, 700);"
    ∃ s t u, (create 1000 {} false).control (.load source) = (.ok (.bool true), s) ∧
      s.SteppedTo t ∧ s.RanTo true u ∧ t.Patient ∧
      (t.console.filter (·.type = "log")).map (·.args) = [["1"], ["2"]] ∧
      t.console.map ConsoleEntry.untimed = u.console.map ConsoleEntry.untimed := by
  intro source
  have loads : ((create 1000 {} false).control (.load source)).1 = .ok (.bool true) := by
    decide +kernel
  have loads := Prod.ext (y := (_, _)) loads rfl
  have converts : Number.quotient 1000 1000 = .ok (.ofInt 1) := by decide +kernel
  obtain ⟨t, stepped, seen⟩ := steppedTo_of_stepPlay loads converts (m := 10) (n := 20)
    (f := fun t => (decide t.Patient, (t.console.filter (·.type = "log")).map (·.args)))
    (a := (true, [["1"], ["2"]])) (by decide +kernel)
  obtain ⟨patient, lines⟩ := Prod.mk.inj seen
  have patient := of_decide_eq_true patient
  obtain ⟨u, ran⟩ := (drive_to_end loads converts true).2
  exact ⟨_, t, u, loads, stepped, ran, patient, lines,
    (steps_and_runs_agree loads).2 t u true stepped ran (.inl patient)⟩

/-- The second of two timers is set for a shorter time.  When the program is stepped
it is called back first; when it is run, the time of the other one has come before it
is set. -/
theorem steps_and_runs_disagree :
    let source := "setTimeout(() => \x7b console.log(\"A\"); \x7d, 1000);\n" ++
      "setTimeout(() => \x7b console.log(\"B\"); \x7d, 500);"
    let spoken (s : Session) := (s.console.filter fun e => e.type ∈ ["log", "warn", "error"]).map
      fun e => (e.type, e.args)
    ∃ s t u, (create 1000 {} false).control (.load source) = (.ok (.bool true), s) ∧
      s.SteppedTo t ∧ s.RanTo true u ∧
      spoken t = [("log", ["B"]), ("log", ["A"])] ∧ spoken u = [("log", ["A"]), ("log", ["B"])] := by
  intro source spoken
  have loads : ((create 1000 {} false).control (.load source)).1 = .ok (.bool true) := by
    decide +kernel
  have loads := Prod.ext (y := (_, _)) loads rfl
  have converts : Number.quotient 1000 1000 = .ok (.ofInt 1) := by decide +kernel
  obtain ⟨t, stepped, before⟩ := steppedTo_of_stepPlay loads converts (m := 10) (n := 20)
    (f := spoken) (a := [("log", ["B"]), ("log", ["A"])]) (by decide +kernel)
  obtain ⟨u, ran, after⟩ := ranTo_of_runPlay loads converts (n := 40)
    (f := spoken) (a := [("log", ["A"]), ("log", ["B"])]) (by decide +kernel)
  exact ⟨_, t, u, loads, stepped, ran, before, after⟩

/-- Without a pacing delay, or if no timer is set, a program that is stepped to its
end and one that is run to its end come to the same end: what they have written and
the states that they leave are the same but for times, and without a pacing delay for
nothing at all.  Only if timers were set and a fault has ended both may a task that it
has left wait in one of them and have been called back in the other. -/
theorem pacing_changes_no_results
    (loads : (create speed limits false).control (.load source) = (.ok (.bool true), s)) :
    (∀ delay direct, Number.quotient speed 1000 = .ok delay →
      (∃ t, s.SteppedTo t) ∧ ∃ u, s.RanTo direct u) ∧
    ∀ t u direct, s.SteppedTo t → s.RanTo direct u →
      speed ≤ 0 ∨ t.Timerless ∨ u.Timerless →
      (t.console.map ConsoleEntry.untimed = u.console.map ConsoleEntry.untimed ∧
        t.store.state.merged.untimed = u.store.state.merged.untimed ∧
        ((s.Breaks t ∧ ¬ t.Timerless) ∧ (s.Breaks u ∧ ¬ u.Timerless) ∨
          t.store.state.untimed = u.store.state.untimed)) ∧
      (speed ≤ 0 → t.console = u.console ∧ t.store.state.merged = u.store.state.merged ∧
        ((s.Breaks t ∧ ¬ t.Timerless) ∧ (s.Breaks u ∧ ¬ u.Timerless) ∨
          t.store.state = u.store.state)) := by
  refine ⟨fun delay direct converts => drive_to_end loads converts direct, ?_⟩
  intro t u direct stepped ran even
  obtain ⟨live, clock, -, rfl, -⟩ := loaded_eq loads
  obtain ⟨⟨toT, -⟩, -⟩ := driven_to_end loads stepped ran
  have patient : t.Patient ∨ u.Patient := by
    rcases even with slow | timerless | timerless
    · exact .inl (patient_of_speed ((toT.speed live).trans_le slow))
    · exact .inl timerless.patient
    · exact .inr timerless.patient
  have blind := loaded_same_end loads Retiming.overlooks_blind trivial stepped ran patient
  refine ⟨⟨blind.console, blind.merged, blind.state⟩, fun slow => ?_⟩
  have now : s.clock.now = .zero := congrArg Clock.now clock
  have same := loaded_same_end loads Retiming.overlooks_same ⟨now, slow⟩ stepped ran patient
  have console (l : List ConsoleEntry) : l.map (ConsoleEntry.retimed .same) = l := List.map_id' _
  have exactly := And.intro same.console (And.intro same.merged same.state)
  rwa [console, console, State.retimed_same, State.retimed_same, State.retimed_same,
    State.retimed_same] at exactly

/-- A timer and a microtask, without a pacing delay. -/
theorem unpaced_results_agree :
    let source := "setTimeout(() => \x7b console.log(1); \x7d, 10);\n" ++
      "Promise.resolve(2).then((x) => \x7b console.log(x); \x7d);"
    ∃ s t u, (create 0 {} false).control (.load source) = (.ok (.bool true), s) ∧
      s.SteppedTo t ∧ s.RanTo true u ∧
      (t.console.filter (·.type = "log")).map (·.args) = [["2"], ["1"]] ∧
      t.console = u.console ∧ t.store.state = u.store.state := by
  intro source
  have loads : ((create 0 {} false).control (.load source)).1 = .ok (.bool true) := by
    decide +kernel
  have loads := Prod.ext (y := (_, _)) loads rfl
  have converts : Number.quotient 0 1000 = .ok .zero := by decide +kernel
  let left (t : Session) := (t.store.state.loop.callbacks ++ t.store.state.loop.timers).map (·.id)
  obtain ⟨t, stepped, seen⟩ := steppedTo_of_stepPlay loads converts (m := 10) (n := 20)
    (f := fun t => ((t.console.filter (·.type = "log")).map (·.args), left t))
    (a := ([["2"], ["1"]], [])) (by decide +kernel)
  obtain ⟨lines, idle⟩ := Prod.mk.inj seen
  obtain ⟨u, ran⟩ := (drive_to_end loads converts true).2
  obtain ⟨console, merged, -⟩ :=
    ((pacing_changes_no_results loads).2 t u true stepped ran (.inl le_rfl)).2 le_rfl
  have state := State.retimed_eq_of_merged (ρ := Retiming.same) (congrArg _ merged)
    (List.map_eq_nil_iff.mp idle)
  rw [State.retimed_same, State.retimed_same] at state
  exact ⟨_, t, u, loads, stepped, ran, lines, console, state⟩

/-- The second instruction is one more than the limit allows.  When the program is
stepped the timer waits by then; when it is run it has been called back. -/
theorem fault_leaves_tasks_apart :
    let source := "setTimeout(() => \x7b console.log(1); \x7d, 0);\nlet a = 1;"
    let queues (s : Session) := (s.store.state.loop.timers.map (·.id),
      s.store.state.loop.callbacks.map (·.id))
    ∃ s t u, (create 0 { steps := 1 } false).control (.load source) = (.ok (.bool true), s) ∧
      s.SteppedTo t ∧ s.RanTo true u ∧
      queues t = (["task_1"], []) ∧ queues u = ([], ["task_1"]) ∧
      t.store.state.untimed ≠ u.store.state.untimed := by
  intro source queues
  have loads : ((create 0 { steps := 1 } false).control (.load source)).1 =
      .ok (.bool true) := by
    decide +kernel
  have loads := Prod.ext (y := (_, _)) loads rfl
  have converts : Number.quotient 0 1000 = .ok .zero := by decide +kernel
  obtain ⟨t, stepped, before⟩ := steppedTo_of_stepPlay loads converts (m := 10) (n := 20)
    (f := queues) (a := (["task_1"], [])) (by decide +kernel)
  obtain ⟨u, ran, after⟩ := ranTo_of_runPlay loads converts (n := 20)
    (f := queues) (a := ([], ["task_1"])) (by decide +kernel)
  refine ⟨_, t, u, loads, stepped, ran, before, after, fun same => ?_⟩
  have ids (a : State) : a.untimed.loop.timers.map (·.id) = a.loop.timers.map (·.id) := by
    simp [State.untimed, Task.untimed, Function.comp_def]
  have timers : t.store.state.loop.timers.map (·.id) = u.store.state.loop.timers.map (·.id) := by
    rw [← ids, same, ids]
  rw [(Prod.mk.inj before).1, (Prod.mk.inj after).1] at timers
  cases timers

end Session

end Runloop
