/-
# Pauses leave no trace

A program that is paused between two segments of its run and let go on some time
later does the same as if it had not been paused.  While it is paused its run
waits, and nothing else happens (`ticks_paused`); when it goes on, the session is
what it was, but for the count of openings and the journal (`Underway.resumed`);
and a turn of a run sees neither of these (`Steered.blind`).  So pauses can be put
in wherever the run gives way, as many and as long as one likes, and after each
segment the run, the console, the state and the clock are the same
(`pauses_leave_no_trace`).
-/
import Runloop.Proofs.Interleaving
import Runloop.Proofs.Steering

namespace Runloop

namespace Schedule

/-- One session with one run, which is in the queue if it has a segment to run. -/
def solo (s : Session) (state : RunState) : Schedule :=
  { sessions := [s], runs := [⟨0, state⟩], next := if state.isAwake then [.run 0] else [] }

/-- The caller pauses a session, gives way so many times, and lets it go on. -/
def pausing (key : Nat) (q : Schedule) (n : Nat) : Schedule :=
  (ticks n (q.command key .pause)).command key .resume

/-- The caller gives way once for each entry of a plan.  Each time before, unless
the run is over, it pauses the session as often and as long as the entry says. -/
def interrupted (key id : Nat) : List (List Nat) → Schedule → Schedule
  | [], q => q
  | pauses :: plan, q =>
    interrupted key id plan (if q.isDone id then q else pauses.foldl (pausing key) q).tick

end Schedule

/-! ## The session -/

namespace Session

variable {s t : Session} {generation : Nat}

/-- A run of the generation is under way, on a clock that does not move by
itself. -/
structure Underway (s : Session) (generation : Nat) : Prop where
  hooks : s.hooks = []
  virtual : s.realtime = false
  phase : s.machine.phase = .running
  current : s.machine.generation = generation
  gate : s.machine.gate = some true
  isRunning : s.store.state.isRunning = true
  isPaused : s.store.state.isPaused = false

theorem retold_retold (s : Session) (o o' : Nat) (j j' : List Event) :
    (s.retold o j).retold o' j' = s.retold o' j' :=
  rfl

theorem Underway.retold (h : s.Underway generation) (openings : Nat) (journal : List Event) :
    (s.retold openings journal).Underway generation :=
  ⟨h.hooks, h.virtual, h.phase, h.current, h.gate, h.isRunning, h.isPaused⟩

theorem control_pause (hooks : s.hooks = []) : (s.control .pause).2 = s.paused := by
  unfold control
  rw [run_eq hooks]
  exact congrArg Prod.snd (Act.run_bind_ok Act.run_pause)

theorem control_resume (hooks : s.hooks = []) : (s.control .resume).2 = s.resumed := by
  unfold control
  rw [run_eq hooks]
  exact congrArg Prod.snd (Act.run_bind_ok Act.run_resume)

/-- A program that is paused stands behind a closed gate. -/
theorem Underway.paused (h : s.Underway generation) :
    s.paused = ({ s with machine := { s.machine with gate := some false } } : Session).inPhase
      .paused := by
  unfold Session.paused
  rw [if_pos h.phase, h.gate]
  rfl

/-- Of a pause that is over only the journal and the count of openings tell. -/
theorem Underway.resumed (h : s.Underway generation) :
    ∃ journal, s.paused.resumed = s.retold (s.machine.openings + 1) journal := by
  have shown : ({ s.store with
      state := { s.store.state with isRunning := true, isPaused := false } } : Store) =
      s.store := by
    rw [← h.isRunning, ← h.isPaused]
  have driven : ({ s.machine with
      phase := .running, gate := some true, openings := s.machine.openings + 1 } : Machine) =
      { s.machine with openings := s.machine.openings + 1 } := by
    rw [← h.phase, ← h.gate]
  have goesOn : s.paused.resumed = (s.paused.inPhase .running).opened := by
    unfold Session.resumed
    rw [if_pos (by rw [h.paused]; rfl)]
  refine ⟨.execution true false s.store.state.speed :: .execution true true s.store.state.speed ::
    s.journal, ?_⟩
  unfold Session.retold
  rw [goesOn, h.paused, ← driven]
  conv_rhs => rw [← shown]
  rfl

/-- A run that finds its session paused waits. -/
theorem Underway.segment_paused (h : s.Underway generation) :
    s.paused.segment (.sleeping generation) =
      (.waiting generation s.machine.openings, s.paused) := by
  have waits : (Act.continueRun Act.plain generation).run s.paused =
      (.ok (.waiting generation s.machine.openings), s.paused) := by
    rw [h.paused, ← h.current]
    exact Act.run_continueRun_paused rfl
  have hooks : s.paused.hooks = [] := s.paused_turns.hooks.trans h.hooks
  unfold Session.segment
  rw [run_eq hooks]
  show (match (Act.continueRun Act.plain generation).run s.paused with
    | (.ok state, s) => (state, s)
    | (.error fault, s) => (.finished (some fault), s)) = _
  rw [waits]

/-- A run that is under way has its turn, in which it sees neither the count of
openings nor the journal. -/
theorem Underway.segment_retold (h : s.Underway generation) (openings : Nat)
    (journal : List Event) :
    ∃ journal', (s.retold openings journal).segment (.sleeping generation) =
      ((s.segment (.sleeping generation)).1,
        (s.segment (.sleeping generation)).2.retold openings journal') := by
  have turn {s : Session} (h : s.Underway generation) :
      s.segment (.sleeping generation) =
        match (Act.guardedTurn Act.plain generation).run s with
        | (.ok state, t) => (state, t)
        | (.error fault, t) => (.finished (some fault), t) := by
    have goesOn : (Act.continueRun Act.plain generation).run s =
        (Act.guardedTurn Act.plain generation).run s := by
      unfold Act.continueRun
      rw [Act.run_machine_bind, if_neg (by simp [h.phase])]
    unfold Session.segment
    rw [run_eq h.hooks, ← goesOn]
    rfl
  obtain ⟨journal', eq⟩ := (Act.steered_guardedTurn generation).blind s openings journal
  refine ⟨journal', ?_⟩
  rw [turn h, turn (h.retold openings journal), eq]
  rcases ((Act.guardedTurn Act.plain generation).run s : Except Fault RunState × Session) with
    ⟨fault | state, t⟩
  · rfl
  · rfl

theorem Underway.of_seat {a : Seat} (hooks : s.hooks = []) (virtual : s.realtime = false)
    (seat : s.seat = a) (phase : a.phase = .running) (gate : a.gate = some true)
    (isRunning : a.isRunning = true) (isPaused : a.isPaused = false) :
    s.Underway a.generation := by
  subst seat
  exact ⟨hooks, virtual, phase, rfl, gate, isRunning, isPaused⟩

/-- After a turn the run is over or still under way. -/
theorem Underway.segment (h : s.Underway generation) :
    (s.segment (.sleeping generation)).1.isFinished = true ∨
      (s.segment (.sleeping generation)).1 = .sleeping generation ∧
        (s.segment (.sleeping generation)).2.Underway generation := by
  have turns := segment_turns h.hooks (.sleeping generation)
  rcases turns.seat with ⟨void, -⟩ | ⟨-, paused, -⟩ | ⟨rfl, -, turned⟩
  · exact absurd h.current.symm void
  · exact absurd (h.phase.symm.trans paused) (by simp)
  · rcases turned with ⟨sleeps, -, same⟩ | ⟨ended, -⟩
    · exact .inr ⟨sleeps, .of_seat (turns.hooks.trans h.hooks) (turns.realtime.trans h.virtual) same
        h.phase h.gate h.isRunning h.isPaused⟩
    · exact .inl ended

/-- A run that has begun is over after its first turn, or it is under way. -/
theorem segment_created (hooks : s.hooks = []) (virtual : s.realtime = false) (direct : Bool) :
    (s.segment (.created direct)).1.isFinished = true ∨
      ∃ generation, (s.segment (.created direct)).1 = .sleeping generation ∧
        (s.segment (.created direct)).2.Underway generation := by
  have turns := segment_turns hooks (.created direct)
  rcases turns.seat with ⟨refused, -⟩ | ⟨-, -, ⟨sleeps, -, same⟩ | ⟨ended, -⟩⟩
  · exact .inl refused
  · exact .inr ⟨_, sleeps, .of_seat (turns.hooks.trans hooks) (turns.realtime.trans virtual) same
      rfl rfl rfl rfl⟩
  · exact .inl ended

end Session

/-! ## The schedule -/

namespace Schedule

variable {s : Session} {state : RunState} {generation : Nat}

/-- The session is put back, and its run is let go on if its turn has come. -/
theorem putSession_solo (s t : Session) (state : RunState) :
    (solo s state).putSession 0 t = solo t (Run.woken 0 t ⟨0, state⟩).state := by
  have wakes : (solo s state).putSession 0 t =
      wakeRun 0 t { solo s state with sessions := [t] } 0 :=
    rfl
  rw [wakes]
  cases due : Run.isDue 0 t ⟨0, state⟩ with
  | true =>
      obtain ⟨generation, openings, waits, -, -, eq⟩ := Run.woken_of_isDue due
      obtain rfl : state = .waiting generation openings := waits
      rw [wakeRun_of_isDue rfl due, eq]
      rfl
  | false =>
      rw [wakeRun_of_not_isDue, Run.woken_of_not_isDue due]
      · rfl
      · rintro r hr
        cases hr
        exact due

theorem command_solo (c : Control) :
    (solo s state).command 0 c =
      solo (s.control c).2 (Run.woken 0 (s.control c).2 ⟨0, state⟩).state :=
  putSession_solo s (s.control c).2 state

/-- A segment does not leave its run waiting for a gate that is open. -/
theorem not_isDue_of_ran {t : Session} {after : RunState} {a : Seat}
    (ran : Seat.Ran state after a t.seat) : Run.isDue 0 t ⟨0, after⟩ = false := by
  cases due : Run.isDue 0 t ⟨0, after⟩ with
  | false => rfl
  | true =>
      obtain ⟨generation, openings, rfl, later, -, -⟩ := Run.woken_of_isDue due
      rcases ran.cases with ⟨same, ended | ⟨-, -, waits⟩⟩ | ⟨-, -, turned⟩ | ⟨-, turned⟩
      · cases ended
      · cases waits
        have same : t.machine.openings = a.openings := congrArg Seat.openings same
        omega
      · rcases turned with ⟨sleeps, -⟩ | ⟨ended, -⟩
        · cases sleeps
        · cases ended
      · rcases turned with ⟨sleeps, -⟩ | ⟨ended, -⟩
        · cases sleeps
        · cases ended

/-- The run has its segment, and is put in the queue again if it gives way. -/
theorem perform_solo (hooks : s.hooks = []) :
    ({ sessions := [s], runs := [⟨0, state⟩] } : Schedule).perform (.run 0) =
      solo (s.segment state).2 (s.segment state).1 := by
  have ran := (Session.segment_turns hooks state).seat
  have put {after : RunState} (eq : (s.segment state).1 = after) :
      ({ sessions := [s], runs := [⟨0, after⟩] } : Schedule).putSession 0 (s.segment state).2 =
        { sessions := [(s.segment state).2], runs := [⟨0, after⟩] } := by
    refine putSession_eq ?_
    intro id r hr
    cases id with
    | zero =>
        cases hr
        rw [← eq]
        exact not_isDue_of_ran ran
    | succ id => cases hr
  have performed := ({ sessions := [s], runs := [⟨0, state⟩] } : Schedule).performed (.run 0)
  generalize Schedule.perform { sessions := [s], runs := [⟨0, state⟩] } (.run 0) = q at performed
  cases performed with
  | nothing gone => cases gone 0 _ rfl rfl
  | gaveWay hr hs sleeps =>
      cases hr
      cases hs
      rw [sleeps]
      exact congrArg (Schedule.enqueue · (.run 0)) (put sleeps)
  | rests hr hs rests =>
      cases hr
      cases hs
      refine (put rfl).trans ?_
      have quiet : (s.segment state).1.isAwake = false := by
        cases awake : (s.segment state).1.isAwake with
        | false => rfl
        | true =>
            obtain ⟨generation, sleeps⟩ := ran.sleeps awake
            exact absurd sleeps (rests generation)
      unfold solo
      rw [quiet]
      rfl

/-- Giving way begins a round with what is in the queue. -/
theorem tick_solo_eq (virtual : s.realtime = false) :
    (solo s state).tick =
      performFirst { sessions := [s], runs := [⟨0, state⟩], ready := (solo s state).next }
        (solo s state).next.length := by
  have begins : (solo s state).finishRound.beginRound =
      { sessions := [s], runs := [⟨0, state⟩], ready := (solo s state).next } := by
    unfold solo finishRound beginRound takeTimers dueTimers
    simp [virtual]
  unfold tick
  rw [begins]

/-- Giving way lets a run that has a segment run it. -/
theorem tick_solo (hooks : s.hooks = []) (virtual : s.realtime = false)
    (awake : state.isAwake = true) :
    (solo s state).tick = solo (s.segment state).2 (s.segment state).1 := by
  have next : (solo s state).next = [.run 0] := by simp [solo, awake]
  rw [tick_solo_eq virtual, next]
  exact perform_solo hooks

theorem tick_solo_resting (virtual : s.realtime = false) (rests : state.isAwake = false) :
    (solo s state).tick = solo s state := by
  have next : (solo s state).next = [] := by simp [solo, rests]
  rw [tick_solo_eq virtual, next]
  unfold solo
  rw [rests]
  rfl

/-- While its session is paused the run waits, and that is all. -/
theorem ticks_paused (h : s.Underway generation) (n : Nat) :
    ∃ state, ticks n (solo s.paused (.sleeping generation)) = solo s.paused state ∧
      (state = .sleeping generation ∨ state = .waiting generation s.machine.openings) := by
  have hooks : s.paused.hooks = [] := s.paused_turns.hooks.trans h.hooks
  have virtual : s.paused.realtime = false := s.paused_turns.realtime.trans h.virtual
  have waits (n : Nat) : ticks n (solo s.paused (.waiting generation s.machine.openings)) =
      solo s.paused (.waiting generation s.machine.openings) := by
    induction n with
    | zero => rfl
    | succ n ih =>
        rw [ticks, tick_solo_resting virtual rfl]
        exact ih
  cases n with
  | zero => exact ⟨_, rfl, .inl rfl⟩
  | succ n =>
      refine ⟨_, ?_, .inr rfl⟩
      rw [ticks, tick_solo hooks virtual rfl, h.segment_paused]
      exact waits n

/-- A pause that is over has left its mark on the journal and on the count of
openings only. -/
theorem pausing_solo (h : s.Underway generation) (n : Nat) :
    ∃ openings journal, (solo s (.sleeping generation)).pausing 0 n =
      solo (s.retold openings journal) (.sleeping generation) := by
  have hooks : s.paused.hooks = [] := s.paused_turns.hooks.trans h.hooks
  obtain ⟨state, paused, states⟩ := ticks_paused h n
  obtain ⟨journal, resumed⟩ := h.resumed
  refine ⟨s.machine.openings + 1, journal, ?_⟩
  unfold pausing
  rw [command_solo, Session.control_pause h.hooks]
  refine (congrArg (command · 0 .resume) paused).trans ?_
  rw [command_solo, Session.control_resume hooks, resumed]
  rcases states with rfl | rfl
  · rfl
  · have due : Run.isDue 0 (s.retold (s.machine.openings + 1) journal)
        ⟨0, .waiting generation s.machine.openings⟩ = true := by
      simp [Run.isDue, Session.releases, Session.retold]
    obtain ⟨_, _, waits, -, -, eq⟩ := Run.woken_of_isDue due
    cases waits
    rw [eq]

theorem foldl_pausing_solo (pauses : List Nat) :
    ∀ {s : Session}, s.Underway generation → ∃ openings journal,
      pauses.foldl (pausing 0) (solo s (.sleeping generation)) =
        solo (s.retold openings journal) (.sleeping generation) := by
  induction pauses with
  | nil =>
      intro s _
      exact ⟨s.machine.openings, s.journal, rfl⟩
  | cons n pauses ih =>
      intro s h
      obtain ⟨openings, journal, first⟩ := pausing_solo h n
      obtain ⟨openings', journal', rest⟩ := ih (h.retold openings journal)
      exact ⟨openings', journal', by rw [List.foldl_cons, first, rest, Session.retold_retold]⟩

/-- The run of a session is over, or it is under way. -/
structure Going (s : Session) (state : RunState) : Prop where
  hooks : s.hooks = []
  virtual : s.realtime = false
  either : state.isFinished = true ∨
    ∃ generation, state = .sleeping generation ∧ s.Underway generation

/-- Two schedules of one session and its run, of which only the journal and the
count of openings tell them apart. -/
def Alike (q q' : Schedule) : Prop :=
  ∃ s state openings journal, Going s state ∧ q = solo s state ∧
    q' = solo (s.retold openings journal) state

/-- A segment that comes after some pauses. -/
theorem Alike.tick {q q' : Schedule} (h : Alike q q') (pauses : List Nat) :
    Alike q.tick (if q'.isDone 0 then q' else pauses.foldl (pausing 0) q').tick := by
  obtain ⟨s, state, openings, journal, going, rfl, rfl⟩ := h
  have virtual (o : Nat) (j : List Event) : (s.retold o j).realtime = false := going.virtual
  rcases going.either with ended | ⟨generation, rfl, underway⟩
  · have done : (solo (s.retold openings journal) state).isDone 0 = true := ended
    have rests : state.isAwake = false := by
      cases state with
      | finished => rfl
      | created | sleeping | waiting => cases ended
    rw [if_pos done, tick_solo_resting going.virtual rests, tick_solo_resting (virtual _ _) rests]
    exact ⟨s, state, openings, journal, going, rfl, rfl⟩
  · have on : ¬ (solo (s.retold openings journal) (.sleeping generation)).isDone 0 = true :=
      Bool.false_ne_true
    obtain ⟨o, j, paused⟩ := foldl_pausing_solo pauses (underway.retold openings journal)
    rw [Session.retold_retold] at paused
    obtain ⟨j', turn⟩ := underway.segment_retold o j
    have turns := Session.segment_turns going.hooks (.sleeping generation)
    rw [if_neg on, paused, tick_solo going.hooks going.virtual rfl,
      tick_solo (s := s.retold o j) going.hooks going.virtual rfl, turn]
    refine ⟨_, _, o, j', ⟨turns.hooks.trans going.hooks, turns.realtime.trans going.virtual, ?_⟩,
      rfl, rfl⟩
    rcases underway.segment with ended | ⟨sleeps, still⟩
    · exact .inl ended
    · exact .inr ⟨generation, sleeps, still⟩

theorem Alike.interrupted {q q' : Schedule} (h : Alike q q') (plan : List (List Nat)) :
    Alike (ticks plan.length q) (interrupted 0 0 plan q') := by
  induction plan generalizing q q' with
  | nil => exact h
  | cons pauses plan ih => exact ih (h.tick pauses)

/-- A run of a session, with nobody else about, after its first segment. -/
def entered (s : Session) (direct : Bool) : Schedule :=
  (({ sessions := [s] } : Schedule).start 0 direct).1.tick

theorem entered_alike (hooks : s.hooks = []) (virtual : s.realtime = false) (direct : Bool) :
    Alike (entered s direct) (entered s direct) := by
  have turns := Session.segment_turns hooks (.created direct)
  have first : entered s direct =
      solo (s.segment (.created direct)).2 (s.segment (.created direct)).1 :=
    tick_solo hooks virtual rfl
  rw [first]
  refine ⟨_, _, _, _, ⟨turns.hooks.trans hooks, turns.realtime.trans virtual, ?_⟩, rfl, rfl⟩
  exact Session.segment_created hooks virtual direct

/-- On a clock that does not move by itself pauses leave no trace, wherever they
are put in between the segments of a run and however long they are: the run has
come as far as it would have without them, to the same state, with the same lines
on the console, at the same time. -/
theorem pauses_leave_no_trace {s : Session} (hooks : s.hooks = []) (virtual : s.realtime = false)
    (direct : Bool) (plan : List (List Nat)) :
    ∃ t t' state,
      (ticks plan.length (entered s direct)).session? 0 = some t ∧
      (ticks plan.length (entered s direct)).run? 0 = some ⟨0, state⟩ ∧
      (interrupted 0 0 plan (entered s direct)).session? 0 = some t' ∧
      (interrupted 0 0 plan (entered s direct)).run? 0 = some ⟨0, state⟩ ∧
      t'.console = t.console ∧ t'.store = t.store ∧ t'.clock = t.clock ∧ t'.phase = t.phase := by
  obtain ⟨t, state, openings, journal, -, plainly, otherwise⟩ :=
    (entered_alike hooks virtual direct).interrupted plan
  rw [plainly, otherwise]
  exact ⟨t, t.retold openings journal, state, rfl, rfl, rfl, rfl, rfl, rfl, rfl, rfl⟩

/-- Two pauses after the first segment of a run, and one after the third. -/
theorem three_pauses_leave_no_trace :
    let s := ((Session.create 20 {} false).control
      (.load "setTimeout(() => { console.log(1); }, 10);")).2
    s.hooks = [] ∧ s.realtime = false ∧ s.machine.loaded = true ∧
    ∃ t t' state,
      (ticks 3 (entered s true)).session? 0 = some t ∧
      (ticks 3 (entered s true)).run? 0 = some ⟨0, state⟩ ∧
      (interrupted 0 0 [[2, 0], [], [1]] (entered s true)).session? 0 = some t' ∧
      (interrupted 0 0 [[2, 0], [], [1]] (entered s true)).run? 0 = some ⟨0, state⟩ ∧
      t'.console = t.console ∧ t'.store = t.store ∧ t'.clock = t.clock ∧ t'.phase = t.phase := by
  have hooks : ((Session.create 20 {} false).control
      (.load "setTimeout(() => { console.log(1); }, 10);")).2.hooks = [] := by
    decide +kernel
  have virtual : ((Session.create 20 {} false).control
      (.load "setTimeout(() => { console.log(1); }, 10);")).2.realtime = false := by
    decide +kernel
  refine ⟨hooks, virtual, by decide +kernel, ?_⟩
  exact pauses_leave_no_trace hooks virtual true [[2, 0], [], [1]]

end Schedule

end Runloop
