/-
# The lifecycle of a session

A session is idle, running, paused or completed, and it has a program or not.
Control operations and the segments of runs change the one and the other in a
dozen places, and still they agree after each of them, in whichever order they
come (`lifecycle_agrees`):

  * the two flags of the store show the phase (`Seat.Shown`);
  * without a program a session is idle and its store is empty
    (`Session.Emptied`), and with one it has the global frame at the bottom of
    its stack and the global scope first (`Session.Based`);
  * a program that is over stays over until the session is reset;
  * whatever is refused changes nothing at all.
-/
import Runloop.Proofs.Refusal
import Runloop.Proofs.Reloading
import Runloop.Proofs.Runs

namespace Runloop

/-! ## The flags -/

/-- The flags of the store show the phase. -/
structure Seat.Shown (a : Seat) : Prop where
  running : a.isRunning = true ↔ a.phase = .running ∨ a.phase = .paused
  paused : a.isPaused = true ↔ a.phase = .paused

namespace Seat

variable {a b : Seat} {c : Control} {state after : RunState}

theorem shown_inPhase (a : Seat) (phase : Phase) : (a.inPhase phase).Shown :=
  ⟨by simp [inPhase], by simp [inPhase]⟩

/-- The flags have no part in the gate. -/
theorem Shown.opened (h : a.Shown) : a.opened.Shown := by
  unfold Seat.opened
  split
  · exact ⟨h.running, h.paused⟩
  · exact h

theorem Settled.shown (h : a.Shown) (hs : a.Settled b) : b.Shown := by
  rcases hs with rfl | rfl
  · exact h
  · exact a.shown_inPhase .completed

theorem Controlled.shown (h : a.Shown) (hc : Controlled c a b) : b.Shown := by
  cases hc.operated with
  | nothing => exact h
  | _ => exact shown_inPhase _ _

theorem Turned.shown (h : a.Shown) (ht : a.Turned after b) : b.Shown := by
  rcases ht with ⟨-, -, rfl⟩ | ⟨-, c, settled, rfl⟩
  · exact h
  · have shown := settled.shown h
    exact ⟨shown.running, shown.paused⟩

theorem Ran.shown (h : a.Shown) (hr : Ran state after a b) : b.Shown := by
  rcases hr.cases with ⟨rfl, -⟩ | ⟨-, -, turned⟩ | ⟨-, turned⟩
  · exact h
  · exact turned.shown h
  · exact turned.shown (shown_inPhase _ .running)

/-! ## The end of a program -/

/-- Only a reset leads on from the end of a program. -/
theorem Controlled.resets (hc : Controlled c a b) (ended : a.phase = .completed)
    (on : b.phase ≠ .completed) : c.drives = false := by
  cases hc.operated with
  | nothing => exact absurd ended on
  | pauses off | resumes off | begins off => cases off.symm.trans ended
  | stops _ off => exact absurd ended off
  | clears resets => exact resets
  | ends => exact absurd rfl on

/-- No segment leads on from it. -/
theorem Ran.stays_ended (hr : Ran state after a b) (ended : a.phase = .completed) :
    b.phase = .completed := by
  have turned {generation : Nat} (h : Continued generation after a b) : b.phase = .completed := by
    rcases h with ⟨-, -, rfl⟩ | ⟨-, -, -, rfl⟩ | ⟨-, -, ⟨-, on, -⟩ | ⟨-, c, rfl | rfl, rfl⟩⟩
    · exact ended
    · exact ended
    · exact absurd ended on
    · exact ended
    · rfl
  cases state with
  | created direct =>
      rcases hr with ⟨-, rfl⟩ | ⟨-, on, -⟩
      · exact ended
      · exact absurd ended on
  | sleeping generation => exact turned hr
  | waiting generation openings => exact turned hr
  | finished fault? =>
      obtain ⟨-, rfl⟩ := hr
      exact ended

end Seat

/-! ## The store -/

namespace Session

/-- Nothing is on the stack, in the scopes or on the heap. -/
structure Emptied (s : Session) : Prop where
  stack : s.store.state.callStack = []
  scopes : s.store.state.scopes = []
  heap : s.store.state.heap = []

/-- The global frame is at the bottom of the stack, and the global scope is the
first one. -/
structure Based (s : Session) : Prop where
  frame : ∃ frame ∈ s.store.state.callStack.head?, frame.name = "Global" ∧ frame.kind = "global"
  scope : ∃ id, s.machine.globalScope = some id ∧ s.store.scopeIds.head? = some id

/-- Without a program there is nothing in the store. -/
def Kempt (s : Session) : Prop := s.machine.loaded = false → s.Emptied

variable {s t : Session}

theorem Live.based (h : s.Live) : s.Based := by
  have held : ∃ calls spilt, Held s calls spilt := by
    obtain ⟨why, reached⟩ := h
    by_cases ended : s.phase = .completed
    · obtain ⟨-, spilt, sound, -⟩ := reached.standing.ended ended
      exact ⟨[], spilt, sound.held⟩
    · exact ⟨s.calls, [], (reached.steady ended).sound.held⟩
  obtain ⟨calls, spilt, held⟩ := held
  obtain ⟨frame, bottom, -, name, kind, -⟩ := held.stack.bottom
  refine ⟨⟨frame, bottom, name, kind⟩, Store.scopeId 1, held.global, ?_⟩
  rw [held.scopes]
  rfl

theorem Live.kempt (h : s.Live) : s.Kempt := fun unloaded =>
  absurd (h.loaded.symm.trans unloaded) (by simp)

/-- A change of anything else. -/
theorem Emptied.of_store (h : s.Emptied)
    (stack : t.store.state.callStack = s.store.state.callStack)
    (scopes : t.store.state.scopes = s.store.state.scopes)
    (heap : t.store.state.heap = s.store.state.heap) : t.Emptied :=
  ⟨stack.trans h.stack, scopes.trans h.scopes, heap.trans h.heap⟩

theorem blank_emptied (s : Session) : s.blank.Emptied := ⟨rfl, rfl, rfl⟩

/-- A source that is no program leaves the store empty. -/
theorem Emptied.fed (h : s.Emptied) (source : String) : (s.fed source).2.Kempt := by
  have logs {t : Session} (ht : t.store = s.store) (type text : String) :
      (t.publish (t.store.logConsole type [text] t.now)).Kempt := by
    intro _
    refine h.of_store ?_ ?_ ?_
    · rw [publish_store]
      exact congrArg (·.state.callStack) ht
    · rw [publish_store]
      exact congrArg (·.state.scopes) ht
    · rw [publish_store]
      exact congrArg (·.state.heap) ht
  rcases s.fed_cases source with ⟨-, eq⟩ | ⟨fault, -, eq⟩ | ⟨e, -, eq⟩ | ⟨t, -, eq⟩
  · rw [eq]
    exact logs (t := { s with source }) rfl _ _
  · rw [eq]
    exact fun _ => h.of_store rfl rfl rfl
  · rw [eq]
    exact logs (t := { s with
      source, errors := s.errors ++ [⟨e.message, e.line, e.column⟩] }) rfl _ _
  · rw [eq]
    exact nofun

theorem Kempt.control (h : s.Proper) (kempt : s.Kempt) (c : Control) : (s.control c).2.Kempt := by
  cases c with
  | reset =>
      rw [control_reset h]
      exact fun _ => s.blank_emptied
  | close =>
      rw [control_close h]
      exact fun _ => s.blank_emptied.of_store rfl rfl rfl
  | load source =>
      rw [control_load h]
      exact s.blank_emptied.fed source
  | setSpeed speed =>
      rw [control_setSpeed h.hooks]
      intro unloaded
      rw [publish_machine] at unloaded
      refine (kempt unloaded).of_store ?_ ?_ ?_
      · rw [publish_store]
        rfl
      · rw [publish_store]
        rfl
      · rw [publish_store]
        rfl
  | pause | resume | stop | step =>
      rcases h with live | vacant
      · exact (control_live live rfl).kempt
      · rw [vacant.control_same rfl (by simp)]
        exact kempt

theorem Kempt.segment (h : s.Proper) (kempt : s.Kempt) {state : RunState}
    (begun : state.generation? = some s.machine.generation → s.phase ≠ .idle) :
    (s.segment state).2.Kempt := by
  rcases h with live | vacant
  · exact (segment_live live state).kempt
  · rw [vacant.segment fun current => begun current vacant.idle]
    exact kempt

theorem Kempt.fire (h : s.Proper) (kempt : s.Kempt) (id : String) :
    (s.run fun host => Act.fire host id).2.Kempt := by
  rw [run_eq h.hooks, Act.run_fire]
  intro unloaded
  rw [publish_machine] at unloaded
  have same := (requeues_moveToCallbacks s.store id).same
  refine (kempt unloaded).of_store ?_ ?_ ?_
  · rw [publish_store, same]
    rfl
  · rw [publish_store, same]
    rfl
  · rw [publish_store, same]
    rfl

end Session

/-! ## All histories -/

namespace Schedule

variable {q q' : Schedule} {key id : Nat} {s t : Session} {r : Run}

/-- Both the flags and the store are what the phase and the program make them. -/
structure Kept (s : Session) : Prop where
  shown : s.seat.Shown
  kempt : s.Kempt

theorem Evolved.kept (h : q.Orderly) (hs : q.session? key = some s) (kept : Kept s)
    (e : Evolved q q' key s t) : Kept t := by
  have proper := h.proper hs
  cases e with
  | still => exact kept
  | command c _ =>
      exact ⟨(Session.control_turns proper c).seat.shown kept.shown,
        kept.kempt.control proper c⟩
  | @segment id r hr own =>
      subst own
      refine ⟨(Session.segment_turns proper.hooks r.state).seat.shown kept.shown, ?_⟩
      refine kept.kempt.segment proper fun current => ?_
      exact ((h.seats hs).begun ((h.fit hr hs).active current)).1
  | fire _ _ =>
      refine ⟨?_, kept.kempt.fire proper _⟩
      rw [Session.run_eq proper.hooks, ← (Act.stays_fire _ s).after.seat]
      exact kept.shown
  | takeTimers _ =>
      have shown : s.seat.Shown := kept.shown
      exact ⟨shown, fun unloaded => (kept.kempt unloaded).of_store rfl rfl rfl⟩

theorem Reachable.kept (h : q.Reachable) (hs : q.session? key = some s) : Kept s := by
  induction h generalizing key s with
  | refl => cases hs
  | tail before step ih =>
      rcases step.origin hs with ⟨t, ht, evolved⟩ | ⟨speed, limits, realtime, rfl⟩
      · exact evolved.kept (Reachable.orderly before) ht (ih ht)
      · exact ⟨⟨by simp [Session.seat, Session.create, Store.empty],
          by simp [Session.seat, Session.create, Store.empty]⟩, fun _ => ⟨rfl, rfl, rfl⟩⟩

/-- The end of a program is left by a reset and by nothing else. -/
theorem Evolved.resets (h : q.Orderly) (hs : q.session? key = some s)
    (e : Evolved q q' key s t) (ended : s.phase = .completed) (on : t.phase ≠ .completed) :
    ∃ c : Control, c.drives = false ∧ q' = q.command key c := by
  have proper := h.proper hs
  cases e with
  | still => exact absurd ended on
  | command c command =>
      exact ⟨c, (Session.control_turns proper c).seat.resets ended on, command⟩
  | @segment id r _ _ =>
      exact absurd ((Session.segment_turns proper.hooks r.state).seat.stays_ended ended) on
  | @fire serial task _ _ =>
      rw [Session.run_eq proper.hooks] at on
      exact absurd ((congrArg Seat.phase (Act.stays_fire task s).after.seat).symm.trans ended) on
  | takeTimers _ => exact absurd ended on

/-- A session that was not changed is put back, and that is nothing. -/
theorem Orderly.putSession_same (h : q.Orderly) (hs : q.session? key = some s) :
    q.putSession key s = q := by
  have quiet : ∀ id r, q.run? id = some r → r.isDue key s = false := by
    intro id r hr
    refine not_isDue_of_fits fun own => ?_
    subst own
    exact h.fit hr hs
  rw [putSession_eq quiet, set_session hs]

/-- At every moment of every history the flags of the store show the phase; a
session without a program is idle and has nothing in its store, and one with a
program has the global frame at the bottom of its stack and the global scope
first; a program that is over stays so until the session is reset, closed or
loaded; and an operation or a run that is refused changes nothing, but for the
run itself, which is over. -/
theorem lifecycle_agrees {q : Schedule} (h : q.Reachable) {key : Nat} {s : Session}
    (hs : q.session? key = some s) :
    ((s.store.state.isRunning = true ↔ s.phase = .running ∨ s.phase = .paused) ∧
      (s.store.state.isPaused = true ↔ s.phase = .paused)) ∧
    (s.machine.loaded = false → s.phase = .idle ∧ s.Emptied) ∧
    (s.machine.loaded = true → s.Based) ∧
    (s.phase = .completed → ∀ q' t, q.Step q' → q'.session? key = some t →
      t.phase ≠ .completed → q' = q.command key .reset ∨ q' = q.command key .close ∨
        ∃ source, q' = q.command key (.load source)) ∧
    (∀ c f, (s.control c).1 = .error (.lifecycle f) → q.command key c = q) ∧
    ∀ id r f, q.run? id = some r → r.owner = key → r.state.isFinished = false →
      (s.segment r.state).1 = .finished (some (.lifecycle f)) →
      q.perform (.run id) = q.setRun id (.finished (some (.lifecycle f))) := by
  have ordered := h.orderly
  have proper := ordered.proper hs
  have kept := h.kept hs
  refine ⟨⟨kept.shown.running, kept.shown.paused⟩, ?_, ?_, ?_, ?_, ?_⟩
  · intro unloaded
    have vacant : s.Vacant := proper.resolve_left fun live =>
      absurd (live.loaded.symm.trans unloaded) (by simp)
    exact ⟨vacant.idle, kept.kempt unloaded⟩
  · intro loaded
    have live : s.Live := proper.resolve_right fun vacant =>
      absurd (vacant.loaded.symm.trans loaded) (by simp)
    exact live.based
  · intro ended q' t step ht on
    obtain ⟨t', ht', evolved⟩ := step.evolved hs
    obtain rfl : t' = t := Option.some.inj (ht'.symm.trans ht)
    obtain ⟨c, resets, command⟩ := evolved.resets ordered hs ended on
    cases c with
    | reset => exact .inl command
    | close => exact .inr (.inl command)
    | load source => exact .inr (.inr ⟨source, command⟩)
    | pause | resume | stop | step | setSpeed => cases resets
  · intro c f refused
    rw [command_of_some hs, (proper.control_refused refused).1]
    exact ordered.putSession_same hs
  · intro id r f hr own on refused
    subst own
    have begun : r.state.generation? = some s.machine.generation → s.phase ≠ .idle := by
      intro current
      exact ((ordered.seats hs).begun ((ordered.fit hr hs).active current)).1
    refine ordered.perform_same hr hs (Prod.ext refused ?_)
    exact (proper.segment_refused begun on refused).1

/-- The run of the program has had a turn, and another one was started. -/
def contended : Schedule := ((loaded.start 0 true).1.tick.start 0 true).1

theorem reachable_contended : contended.Reachable := by
  have created := (Reachable.empty.create 0 {} true).command 0 (.load "let a = 1;\nlet b = 2;")
  exact (created.start (by decide +kernel) true).tick.start (by decide +kernel) true

/-- While the run is going on the session is shown as running, a step is refused
without any change, and so is the other run. -/
theorem contended_agrees :
    ∃ s, contended.session? 0 = some s ∧ s.phase = .running ∧
      s.store.state.isRunning = true ∧ ¬ s.store.state.isPaused = true ∧ s.Based ∧
      (s.control .step).1 = .error (.lifecycle .runInProgress) ∧
      contended.command 0 .step = contended ∧
      contended.perform (.run 1) =
        contended.setRun 1 (.finished (some (.lifecycle .alreadyRunning))) := by
  have state : (contended.session? 0).map (fun s => (s.phase, s.machine.loaded,
      (s.control .step).1, (s.segment (.created true)).1)) =
      some (.running, true, .error (.lifecycle .runInProgress),
        .finished (some (.lifecycle .alreadyRunning))) := by
    decide +kernel
  have second : (contended.run? 1).map (fun r => (r.owner, r.state)) =
      some (0, .created true) := by
    decide +kernel
  obtain ⟨s, hs, eq⟩ := Option.map_eq_some_iff.mp state
  obtain ⟨⟨_, _⟩, hr, eq'⟩ := Option.map_eq_some_iff.mp second
  simp only [Prod.mk.injEq] at eq
  obtain ⟨running, loaded, refused, refused'⟩ := eq
  cases eq'
  obtain ⟨⟨shown, paused⟩, -, based, -, control, segment⟩ :=
    lifecycle_agrees reachable_contended hs
  refine ⟨s, hs, running, shown.mpr (.inl running), ?_, based loaded, refused,
    control .step _ refused, segment 1 _ _ hr rfl rfl refused'⟩
  intro shows
  exact absurd (running.symm.trans (paused.mp shows)) (by simp)

end Schedule

end Runloop
