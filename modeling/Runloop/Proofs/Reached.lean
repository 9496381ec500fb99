/-
# All runs of a program

`Reached why s` says that some way of driving a loaded program leads to `s`, and
`why` is the fault that ended it, if one did.  Every single thing that a driver
does is an operation of the machine here (`Drive`), so nothing is said about
how they are mixed, and all of them are ticks (`tick_of_drive`).  Whatever is
said later about all runs is proved by `Reached.induct`, one tick at a time.
-/
import Runloop.Proofs.Driving

namespace Runloop

/-! ## Driving -/

namespace Session

/-- The fault with which the next segment of a unit of work ends. -/
def segmentFault (s : Session) (u : UnitOfWork) : Option Fault :=
  match ((Act.runSegment Act.plain u.work).run (s.working u) : Except Fault Progress × Session) with
  | (.error fault, _) => some fault
  | (.ok _, _) => none

end Session

/-- One thing that is done with a loaded program between two pauses, and the
fault that ends the program in it. -/
inductive Drive (s : Session) : Option Fault → Session → Prop
  | time (clock : Clock String) : Drive s none { s with clock }
  | fire (id : String) : Drive s none ((Act.fire Act.plain id).run s).2
  | speed (speed : Int) : Drive s none ((Act.setSpeed Act.plain speed).run s).2
  | phase {phase : Phase} : phase ≠ .completed → s.phase ≠ .completed →
      Drive s none ((Act.setPhase Act.plain phase).run s).2
  | seat (gate : Option Bool) (openings : Nat) (runActive : Bool) :
      Drive s none { s with machine := { s.machine with gate, openings, runActive } }
  | take : s.phase ≠ .completed → s.machine.unit = none → Drive s none (Act.nextUnit.run s).2
  | advance {u : UnitOfWork} : s.phase ≠ .completed → s.machine.unit = some u →
      Drive s (s.segmentFault u) ((Act.advance Act.plain).run s).2
  | finish : s.phase ≠ .completed → s.machine.unit = none →
      Drive s none ((Act.finish Act.plain).run s).2
  | stop : Drive s none ((Act.stop Act.plain).run s).2

/-- The sessions that a loaded program can come to, and the fault that ended
it, if one did.  Nobody but the journal listens. -/
inductive Reached : Option Fault → Session → Prop
  | load {s t : Session} {program : List Instruction} : s.hooks = [] → s.machine.unit = none →
      (Act.init Act.plain program).run s = (.ok ⟨⟩, t) → Reached none t
  | drive {s t : Session} {why fault : Option Fault} : Reached why s → Drive s fault t →
      Reached (fault.or why) t

/-! ## Operations are ticks -/

namespace Act

variable {s t : Session} {why : Option Fault}

/-- A change that leaves the program alone leaves the machine as it is. -/
theorem ends_beside {α : Type} {f : Store → Double → Change α} {E : Fault → Session → Prop}
    (h : ∀ s : Session, Beside s (s.publish (f s.store s.now))) :
    Ends (change plain f) s (fun _ t => Beside s t ∧ t.machine = s.machine) E := by
  rw [ends_change]
  exact ⟨h s, Session.publish_machine ..⟩

theorem ends_setPhase (phase : Phase) {E : Fault → Session → Prop} :
    Ends (setPhase plain phase) s
      (fun _ t => Beside s t ∧ t.machine = { s.machine with phase }) E := by
  unfold setPhase
  rw [ends_bind, ends_modifyMachine]
  refine (ends_beside fun s => .setExecution s _ _).mono ?_ fun _ _ h => h
  rintro _ t ⟨b, m⟩
  exact ⟨(Beside.driven s ..).trans b, m⟩

theorem ends_log {type : String} {args : List String} {E : Fault → Session → Prop} :
    Ends (log plain type args) s (fun _ t => Beside s t ∧ t.machine = s.machine) E :=
  ends_beside (f := fun store now => store.logConsole type args now)
    fun s => .logConsole s type args

/-- Without a unit of work, or from inside it, there are no calls to leave. -/
theorem run_closeUnit_of_running (running : ∀ u ∈ s.machine.unit, u.running = true) :
    (closeUnit plain).run s = (.ok ⟨⟩, s.holding none) := by
  unfold closeUnit
  rw [run_machine_bind]
  cases hu : s.machine.unit with
  | none => rfl
  | some u =>
      obtain ⟨serial, work, waits⟩ := u
      cases running _ hu
      rfl

/-- A program without a unit of work is ended. -/
theorem ends_finish {E : Fault → Session → Prop} (hu : s.machine.unit = none) :
    Ends (finish plain) s
      (fun _ t => Beside s t ∧ t.machine.cursor = s.machine.cursor ∧ t.machine.unit = none ∧
        t.phase = .completed) E := by
  have closed : (closeUnit plain).run s = (.ok ⟨⟩, s.holding none) :=
    run_closeUnit_of_running (by simp [hu])
  unfold finish
  rw [ends_bind]
  refine .of_answer closed ?_
  rw [ends_bind, ends_modifyMachine, ends_bind]
  refine (ends_beside fun s => .setCurrentLine s (-1)).mono ?_ fun _ _ h => h
  rintro _ t₁ ⟨b₁, m₁⟩
  rw [ends_bind]
  refine (ends_beside fun s => .setExecution s false false).mono ?_ fun _ _ h => h
  rintro _ t₂ ⟨b₂, m₂⟩
  refine ends_log.mono ?_ fun _ _ h => h
  rintro _ t₃ ⟨b₃, m₃⟩
  have machine := m₃.trans (m₂.trans m₁)
  exact ⟨(Beside.driven s ..).trans (b₁.trans (b₂.trans b₃)), (congrArg Machine.cursor machine :),
    congrArg Machine.unit machine, congrArg Machine.phase machine⟩

/-- What comes of the unit of work when its segment is over. -/
def afterSegment (host : Host) (u : UnitOfWork) (generation : Nat) :
    Except Fault Progress → Act Bool
  | .ok (.paused work) => do
    let same := (← machine).generation == generation
    keepWork host u.serial work
    return same
  | .ok .ended => do
    if ← holdsUnit u.serial then modifyMachine fun m => { m with unit := none }
    return false
  | .error fault => do
    failUnit host generation fault
    return false

theorem run_advanceWith {host : Host} (handler : Handler) {u : UnitOfWork}
    (hu : s.machine.unit = some u) (waits : u.running = false) :
    (advanceWith host handler).run s =
      match ((runSegmentWith host handler u.work).run (s.working u) :
        Except Fault Progress × Session) with
      | (r, t) => (afterSegment host u s.machine.generation r).run t := by
  have begins : (advanceWith host handler).run s =
      (do let r ← tryCatch (do return Except.ok (← runSegmentWith host handler u.work)) fun fault =>
            return Except.error fault
          afterSegment host u s.machine.generation r : Act Bool).run (s.working u) := by
    obtain ⟨serial, work, running⟩ := u
    cases waits
    unfold advanceWith
    rw [run_machine_bind, hu]
    rfl
  rw [begins, run_bind, run_tryCatch, run_bind]
  rcases ((runSegmentWith host handler u.work).run (s.working u) :
    Except Fault Progress × Session) with ⟨fault | progress, t⟩
  · rfl
  · rfl

theorem run_advance {host : Host} {u : UnitOfWork} (hu : s.machine.unit = some u)
    (waits : u.running = false) :
    (advance host).run s =
      match ((runSegment host u.work).run (s.working u) : Except Fault Progress × Session) with
      | (r, t) => (afterSegment host u s.machine.generation r).run t :=
  run_advanceWith (perform host) hu waits

theorem holdsUnit_of_driven {u : UnitOfWork} (m : t.machine.driven = (s.working u).machine.driven) :
    (holdsUnit u.serial).run t = (.ok true, t) := by
  have unit : t.machine.unit = some { u with running := true } := congrArg Machine.unit m
  unfold holdsUnit
  rw [run_machine_bind, unit]
  show (Except.ok (u.serial == u.serial), t) = _
  rw [beq_self_eq_true]

/-- A segment that goes well leaves its unit of work, or ends it. -/
theorem run_afterSegment_ok {host : Host} {u : UnitOfWork} {p : Progress}
    (m : t.machine.driven = (s.working u).machine.driven) :
    (afterSegment host u s.machine.generation (.ok p)).run t =
      match p with
      | .paused work => (.ok true, t.holding (some ⟨u.serial, work, false⟩))
      | .ended => (.ok false, t.holding none) := by
  have generation : t.machine.generation = s.machine.generation :=
    (congrArg Machine.generation m :)
  have holds := holdsUnit_of_driven m
  cases p with
  | paused work =>
      unfold afterSegment keepWork
      rw [run_machine_bind, generation, beq_self_eq_true, run_bind, run_bind, holds]
      rfl
  | ended =>
      unfold afterSegment
      rw [run_bind, holds]
      rfl

/-- A fault ends the program. -/
theorem ends_afterSegment_error {u : UnitOfWork} (fault : Fault)
    (m : t.machine.driven = (s.working u).machine.driven) :
    Ends (afterSegment plain u s.machine.generation (.error fault)) t
      (fun again t' => again = false ∧ Beside t t' ∧ t'.machine.cursor = t.machine.cursor ∧
        t'.machine.unit = none ∧ t'.phase = .completed) (fun _ _ => False) := by
  have generation : t.machine.generation = s.machine.generation :=
    (congrArg Machine.generation m :)
  unfold afterSegment failUnit
  rw [ends_bind, ends_bind, ends_machine, if_pos generation, ends_bind, ends_modifyMachine,
    ends_bind]
  refine ends_log.mono ?_ fun _ _ h => h
  rintro _ t₁ ⟨b₁, m₁⟩
  refine (ends_finish (congrArg Machine.unit m₁)).mono ?_ fun _ _ h => h
  rintro _ t₂ ⟨b₂, hcursor, hunit, hphase⟩
  exact ⟨rfl, (Beside.holding t none).trans (b₁.trans b₂),
    hcursor.trans (congrArg Machine.cursor m₁ :), hunit, hphase⟩

theorem advance_tick {u : UnitOfWork} (st : Steady s) (hph : s.phase ≠ .completed)
    (hu : s.machine.unit = some u) :
    ∃ again t, (advance plain).run s = (.ok again, t) ∧ Tick s (s.segmentFault u) t ∧
      (again = true → t.machine.unit.isSome ∧ t.phase ≠ .completed) ∧
      (again = false → t.machine.unit = none) := by
  have seg := (runSegment_segment (st.working hu) (st.fits u hu) fun task base hp =>
    (Beside.holding s _).knows (st.known u hu task base hp)).2
  have run : (advance plain).run s = _ := run_advance hu (st.waits u hu)
  unfold Session.segmentFault
  unfold Ends at seg
  rcases hseg : ((runSegment plain u.work).run (s.working u) : Except Fault Progress × Session) with
    ⟨fault | p, t⟩
  · rw [hseg] at seg run
    obtain ⟨spilt, m, -⟩ := id seg
    have machine : t.machine.driven = (s.working u).machine.driven := m.machine
    obtain ⟨again, t', runs, rfl, b, cursor, none, completed⟩ :=
      (ends_afterSegment_error fault machine).exists_ok
    exact ⟨false, t', run.trans runs, .fail hph hu seg b cursor none completed, by simp, fun _ => none⟩
  · rw [hseg] at seg run
    have machine := seg.machine
    have run := run.trans (run_afterSegment_ok machine)
    cases p with
    | paused work =>
        have phase : t.phase = s.phase := (congrArg Machine.phase machine :)
        exact ⟨true, _, run, .pause hph hu seg, fun _ => ⟨rfl, phase ▸ hph⟩, by simp⟩
    | ended => exact ⟨false, _, run, .complete hph hu seg, by simp, fun _ => rfl⟩

/-- Giving up the unit of work leaves its calls. -/
theorem run_closeUnit (st : Steady s) :
    ∃ t, (closeUnit plain).run s = (.ok ⟨⟩, t) ∧
      Moves ⟨s.holding none, s.calls, []⟩ ⟨t, [], []⟩ := by
  have held : Held (s.holding none) (s.calls ++ []) [] := by
    rw [List.append_nil]
    exact ((Beside.holding s none).sound st.sound (.inr rfl)).held
  have m : Moves ⟨s.holding none, s.calls ++ [], []⟩
      ⟨s.calls.foldl Session.left (s.holding none), [], []⟩ := moves_left s.calls []
  rw [List.append_nil] at m
  refine ⟨s.calls.foldl Session.left (s.holding none), ?_, m⟩
  unfold closeUnit
  rw [run_machine_bind]
  unfold Session.calls at held ⊢
  cases hu : s.machine.unit with
  | none => rfl
  | some u =>
      obtain ⟨serial, work, running⟩ := u
      cases st.waits _ hu
      rw [hu] at held
      cases work with
      | inCall call point callers base =>
          change (unwindAll plain (call :: openCalls callers) none >>= _ : Act Unit).run
            (s.holding none) = _
          have unwound : (unwindAll plain (call :: openCalls callers) none).run (s.holding none) =
              (.ok none, (call :: openCalls callers).foldl Session.left (s.holding none)) :=
            run_unwindAll rfl held none
          rw [run_bind, unwound]
          rfl
      | _ => rfl

theorem ends_stop (h : s.phase ≠ .completed → Steady s) :
    Ends (stop plain) s (fun _ t => Tick s none t ∧ (s.phase ≠ .idle → t.phase = .completed))
      (fun _ _ => False) := by
  unfold stop
  rw [ends_bind, ends_machine]
  split
  · rename_i off
    refine ⟨.beside _ _ _ _ (.refl s) rfl Iff.rfl, fun begun => ?_⟩
    have off : s.machine.phase = .idle ∨ s.machine.phase = .completed := by simpa using off
    exact off.resolve_left begun
  · rename_i on
    have hph : s.phase ≠ .completed := fun he => on (by simp [show s.machine.phase = _ from he])
    obtain ⟨t, run, m⟩ := run_closeUnit (h hph)
    rw [ends_bind]
    refine .of_answer run ?_
    rw [ends_bind, ends_modifyMachine, ends_bind]
    refine (ends_beside fun s => .setExecution s false false).mono ?_ fun _ _ h => h
    rintro _ t₁ ⟨b₁, m₁⟩
    have unit : t.machine.unit = none := (congrArg Machine.unit (Moves.machine m) :)
    have opened : Beside t₁ { t₁ with machine := if t₁.machine.gate.isSome then
        { t₁.machine with gate := some true, openings := t₁.machine.openings + 1 }
        else t₁.machine } := by
      split
      · exact .driven t₁ ..
      · exact .refl t₁
    have machine (P : Machine → Prop) (h : ∀ gate openings, P { t₁.machine with gate, openings }) :
        P (if t₁.machine.gate.isSome then
          { t₁.machine with gate := some true, openings := t₁.machine.openings + 1 }
          else t₁.machine) := by
      split
      · exact h ..
      · exact h t₁.machine.gate t₁.machine.openings
    have completed := machine (·.phase = .completed) fun _ _ => congrArg Machine.phase m₁
    refine ⟨.ended hph m ((Beside.driven t ..).trans (b₁.trans opened)) ?_ ?_ completed,
      fun _ => completed⟩
    · exact machine (·.cursor = t.machine.cursor) fun _ _ => (congrArg Machine.cursor m₁ :)
    · exact machine (·.unit = none) fun _ _ => (congrArg Machine.unit m₁).trans unit

/-- The unit of work that a program takes next, and how many instructions are
taken then. -/
def upcoming (program : List Instruction) (cursor : Nat) : Work × Nat :=
  match program[cursor]? with
  | some i => (.instruction i, cursor + 1)
  | none => (.pass, cursor)

theorem run_nextUnit :
    (nextUnit.run s).2 = s.taking (upcoming s.machine.program s.machine.cursor).1
      (upcoming s.machine.program s.machine.cursor).2 := by
  show ({ s with machine := _ } : Session) = _
  unfold upcoming
  dsimp only
  cases s.machine.program[s.machine.cursor]? with
  | none => rfl
  | some i => rfl

theorem tick_of_drive {fault : Option Fault} (h : Standing why s) (d : Drive s fault t) :
    Tick s fault t := by
  cases d with
  | time clock =>
      exact .beside _ _ _ _ (.driven s ..) rfl Iff.rfl
  | fire id =>
      unfold fire
      rw [run_bind, run_change rfl]
      exact .fire id
  | speed speed =>
      unfold setSpeed
      rw [run_change rfl]
      exact .beside _ _ _ _ (.setSpeed s speed) (Session.publish_machine ..) Iff.rfl
  | @phase phase hne hph =>
      obtain ⟨_, t, run, b, m⟩ := (ends_setPhase phase).exists_ok
      rw [run]
      exact .beside phase _ _ _ b m ⟨fun he => absurd he hne, fun he => absurd he hph⟩
  | seat gate openings runActive => exact .beside _ _ _ _ (.driven s ..) rfl Iff.rfl
  | take hph hu =>
      rw [run_nextUnit, upcoming]
      cases hc : s.machine.program[s.machine.cursor]? with
      | none => exact .pass hph hu hc
      | some i => exact .instruction hph hu hc
  | advance hph hu =>
      obtain ⟨again, t, run, tick, -⟩ := advance_tick (h.steady hph) hph hu
      rwa [run]
  | finish hph hu =>
      obtain ⟨_, t, run, b, cursor, none, completed⟩ := (ends_finish hu).exists_ok
      rw [run]
      have calls : s.calls = [] := Session.calls_of_none hu
      have same : s.holding Option.none = s := by rw [← hu]; rfl
      refine .ended hph ?_ b cursor none completed
      rw [calls, same]
  | stop =>
      obtain ⟨_, t, run, tick, -⟩ := (ends_stop h.steady).exists_ok
      rwa [run]

end Act

/-! ## The beginning -/

namespace Session

/-- The session with its store cleared and a program in its machine. -/
def cleared (s : Session) (program : List Instruction) : Session :=
  { s with
    clock := s.store.timers.foldl (fun c serial => c.cancel serial) s.clock
    store := s.store.cleared
    machine :=
      { s.machine with
        program, cursor := 0, unit := none, detached := [], depth := 0, line := 0, receivers := [] }
    journal := (Store.resetEvents.map (· s.store.cleared)).reverse ++ s.journal }

/-- The session with a program that was just loaded. -/
def begun (s : Session) (program : List Instruction) : Session :=
  let s := s.cleared program
  let s := s.publish (s.store.pushFrame "Global" "global" "window" 0)
  let s := s.publish (s.store.createScope "Global" "global" none s.now)
  { s with machine := { s.machine with globalScope := some (Store.scopeId 1), loaded := true } }

end Session

namespace Act

variable {s t : Session} {program : List Instruction}

theorem run_init (idle : s.phase = .idle) (unit : s.machine.unit = none) :
    (init plain program).run s = (.ok ⟨⟩, s.begun program) := by
  have clears : (clearStore plain).run s =
      (.ok ⟨⟩, { s.cleared program with machine := s.machine }) := rfl
  unfold init
  rw [run_machine_bind, if_neg (by simp [show s.machine.phase = _ from idle])]
  dsimp only
  rw [run_bind, clears]
  dsimp only
  rw [run_machine_bind]
  dsimp only
  rw [unit]
  rfl

end Act

namespace Session

variable {s : Session} (program : List Instruction)

/-- The scope of the program itself. -/
def globalScope (now : Double) : Scope :=
  { id := Store.scopeId 1, name := "Global", kind := "global", parent := none, bindings := []
    createdAt := now }

/-- The frame of the program itself. -/
def globalFrame : Frame :=
  { id := Store.frameId 1, name := "Global", kind := "global", shown := [], thisBinding := "window"
    line := 0, active := true }

theorem begun_trace :
    (s.begun program).trace =
      [.currentLine (-1), .execution false false s.store.state.speed,
        .callStack .push (some globalFrame) [globalFrame],
        .scopes .create (some (globalScope (s.cleared program).now))
          [globalScope (s.cleared program).now] none] :=
  rfl

theorem everOpened_begun :
    everOpened (s.begun program).trace = [globalScope (s.cleared program).now] :=
  rfl

theorem begun_scopes :
    (s.begun program).store.state.scopes = [globalScope (s.cleared program).now] :=
  rfl

theorem begun_held (hooks : s.hooks = []) : Held (s.begun program) [] [] where
  hooks := hooks
  global := rfl
  current := by simp
  depth := rfl
  receivers := rfl
  stack := ⟨rfl, ⟨globalFrame, rfl, rfl, rfl, rfl, rfl, rfl⟩, globalFrame, rfl, rfl⟩
  scopes := rfl
  nodup := List.nodup_singleton _

theorem begun_placed : Scoped (s.begun program) where
  global := rfl
  globalOpen := List.mem_singleton_self _
  known := by
    rw [everOpened_begun]
    exact .root rfl
  numbered := by
    rw [everOpened_begun]
    exact List.forall_mem_singleton.mpr ⟨1, Nat.le_refl 1, rfl⟩
  opened := by
    rw [begun_scopes]
    exact .root rfl
  part c hc := hc
  root c hc _ := List.mem_map_of_mem hc
  kept c hc out := absurd (List.mem_map_of_mem hc) out
  closed c hc out := absurd (List.mem_map_of_mem hc) out
  faithful := by
    have none : Faithful [] := fun before scope scopes name hp _ =>
      absurd (List.prefix_nil.mp hp) (by simp)
    rw [begun_trace]
    refine (none.append_of_keepsScopes (l := [_, _, _]) ?_).append ?_
    · simp [Event.keepsScopes]
    · intro scope scopes name _ hid
      exact absurd hid List.not_mem_nil
  functions o ho := absurd ho List.not_mem_nil
  tasks task ht := absurd ht List.not_mem_nil

theorem begun_standing (hooks : s.hooks = []) (idle : s.phase = .idle) :
    Standing none (s.begun program) where
  loaded := rfl
  steady _ :=
    ⟨.of_placed (begun_held program hooks) (begun_placed program), by simp [begun, cleared],
      by simp [begun, cleared], by simp [begun, cleared]⟩
  ended he := absurd (idle.symm.trans he) (by simp)

end Session

/-! ## All runs -/

theorem Act.init_eq {s t : Session} {program : List Instruction} (unit : s.machine.unit = none)
    (run : (init plain program).run s = (.ok ⟨⟩, t)) : s.phase = .idle ∧ t = s.begun program := by
  by_cases idle : s.phase = .idle
  · rw [run_init idle unit] at run
    exact ⟨idle, (congrArg Prod.snd run).symm⟩
  · unfold init at run
    rw [run_machine_bind, if_pos (show s.machine.phase ≠ .idle from idle)] at run
    cases run

/-- What holds of a program that was just loaded and is kept by every tick
holds in every session that is reached. -/
theorem Reached.induct {P : Option Fault → Session → Prop}
    (start : ∀ (s : Session) program, s.hooks = [] → P none (s.begun program))
    (tick : ∀ why fault s t, Standing why s → P why s → Tick s fault t → P (fault.or why) t)
    {why : Option Fault} {s : Session} (h : Reached why s) : Standing why s ∧ P why s := by
  induction h with
  | load hooks unit run =>
      obtain ⟨idle, rfl⟩ := Act.init_eq unit run
      exact ⟨Session.begun_standing _ hooks idle, start _ _ hooks⟩
  | drive _ d ih =>
      have k := Act.tick_of_drive ih.1 d
      exact ⟨ih.1.tick k, tick _ _ _ _ ih.1 ih.2 k⟩

theorem Reached.standing {why : Option Fault} {s : Session} (h : Reached why s) :
    Standing why s :=
  (h.induct (P := fun _ _ => True) (fun _ _ _ => trivial) fun _ _ _ _ _ _ _ => trivial).1

theorem Reached.steady {why : Option Fault} {s : Session} (h : Reached why s)
    (hph : s.phase ≠ .completed) : Steady s :=
  h.standing.steady hph

end Runloop
