/-
# Loading leaves nothing behind

A session that is given a source is, whatever it did before, like one that was
just made and given the same source: its state, its identities, its machine, its
console and its errors are the same, but for the times at which things happened
and for the numbers that tell runs apart (`Session.Resembles`).

What an earlier program leaves on the clock cannot reach the new one.  Every timer
that a session has set is minded until it is reset, and a reset cancels all that
are; so after a load every timer that waits is cancelled, and from then on no
timer that was set before is ever fired (`reload_isolates`).
-/
import Runloop.Proofs.Interleaving
import Runloop.Proofs.Timers

namespace Runloop

open Relation (ReflTransGen)

/-! ## Up to times -/

def HeapObject.untimed (o : HeapObject) : HeapObject := { o with createdAt := .zero }

def Scope.untimed (c : Scope) : Scope := { c with createdAt := .zero }

def Task.untimed (t : Task) : Task := { t with startTime := .zero }

def ConsoleEntry.untimed (e : ConsoleEntry) : ConsoleEntry := { e with timestamp := .zero }

/-- The state without the times at which its parts came about. -/
def State.untimed (s : State) : State :=
  { s with
    heap := s.heap.map HeapObject.untimed
    scopes := s.scopes.map Scope.untimed
    loop :=
      { timers := s.loop.timers.map Task.untimed
        callbacks := s.loop.callbacks.map Task.untimed
        microtasks := s.loop.microtasks.map Task.untimed } }

/-- The machine without the gate and the numbers that tell runs and units of work
apart. -/
def Machine.unnumbered (m : Machine) : Machine :=
  { m with generation := 0, units := 0, gate := none, openings := 0 }

namespace Session

/-- The sessions are the same, but for times and for the numbers that tell runs
apart. -/
structure Resembles (s t : Session) : Prop where
  state : s.store.state.untimed = t.store.state.untimed
  counters : s.store.counters = t.store.counters
  timers : s.store.timers = t.store.timers
  machine : s.machine.unnumbered = t.machine.unnumbered
  source : s.source = t.source
  instructions : s.instructions = t.instructions
  diagnostics : s.diagnostics = t.diagnostics
  errors : s.errors = t.errors
  console : s.console.map ConsoleEntry.untimed = t.console.map ConsoleEntry.untimed

variable {s t : Session}

/-- A line is written on both. -/
theorem Resembles.log (h : s.Resembles t) (hs : s.attached = true) (ht : t.attached = true)
    (type text : String) :
    (s.publish (s.store.logConsole type [text] s.now)).Resembles
      (t.publish (t.store.logConsole type [text] t.now)) := by
  have writes {s : Session} (hs : s.attached = true) :
      s.publish (s.store.logConsole type [text] s.now) =
        { s with
          lines := ⟨type, [text], s.now⟩ :: s.lines
          journal := .console ⟨type, [text], s.now⟩ :: s.journal } := by
    show noted s (.console ⟨type, [text], s.now⟩) = _
    unfold noted
    exact if_pos hs
  have before : s.lines.reverse.map ConsoleEntry.untimed =
      t.lines.reverse.map ConsoleEntry.untimed := h.console
  rw [writes hs, writes ht]
  refine ⟨h.state, h.counters, h.timers, h.machine, h.source, h.instructions, h.diagnostics,
    h.errors, ?_⟩
  show (_ :: s.lines).reverse.map _ = (_ :: t.lines).reverse.map _
  rw [List.reverse_cons, List.reverse_cons, List.map_append, List.map_append, before]
  rfl

/-- A program is begun on both. -/
theorem Resembles.begun (h : s.Resembles t) (store : s.store = t.store)
    (program : List Instruction) : (s.begun program).Resembles (t.begun program) := by
  have machines (s : Session) : (s.begun program).machine.unnumbered =
      { s.machine.unnumbered with
        program, cursor := 0, unit := none, detached := [], depth := 0, line := 0, receivers := []
        globalScope := some (Store.scopeId 1), loaded := true } := rfl
  have states (s : Session) : (s.begun program).store.state.untimed =
      ((s.store.cleared.pushFrame "Global" "global" "window" 0).store.createScope "Global" "global"
        none .zero).store.state.untimed := rfl
  have counters (s : Session) : (s.begun program).store.counters =
      { frame := 1, scope := 1 } := rfl
  refine ⟨?_, ?_, rfl, ?_, h.source, h.instructions, h.diagnostics, h.errors, h.console⟩
  · rw [states, states, store]
  · rw [counters, counters]
  · rw [machines, machines, h.machine]

/-- Whatever the source is, both come to the same. -/
theorem fed_resembles {source : String}
    (given : ({ s with source } : Session).Resembles { t with source }) (store : s.store = t.store)
    (hs : s.attached = true) (ht : t.attached = true) :
    (s.fed source).1 = (t.fed source).1 ∧ (s.fed source).2.Resembles (t.fed source).2 := by
  unfold Session.fed
  dsimp only
  split
  · exact ⟨rfl, given.log hs ht _ _⟩
  · cases compile source with
    | error fault =>
        cases fault with
        | number fault => exact ⟨rfl, given⟩
        | source e =>
            have told : ({ s with
                source, errors := s.errors ++ [⟨e.message, e.line, e.column⟩] } : Session).Resembles
                { t with source, errors := t.errors ++ [⟨e.message, e.line, e.column⟩] } :=
              { given with errors := congrArg (· ++ _) given.errors }
            exact ⟨rfl, told.log hs ht _ _⟩
    | ok p =>
        have taken : ({ s with
            source, notices := p.notices.reverse ++ s.notices
            instructions := p.instructions, diagnostics := p.diagnostics } : Session).Resembles
            { t with
              source, notices := p.notices.reverse ++ t.notices
              instructions := p.instructions, diagnostics := p.diagnostics } :=
          { given with instructions := rfl, diagnostics := rfl }
        exact ⟨rfl, taken.begun store _⟩

/-- A session that is given a source is like one that was just made and is given
it. -/
theorem blank_fed_resembles (attached : s.attached = true) (realtime : Bool) (source : String) :
    (s.blank.fed source).1 = ((create s.store.speed s.machine.limits realtime).blank.fed source).1 ∧
      (s.blank.fed source).2.Resembles
        ((create s.store.speed s.machine.limits realtime).blank.fed source).2 :=
  fed_resembles ⟨rfl, rfl, rfl, rfl, rfl, rfl, rfl, rfl, rfl⟩ rfl attached rfl

end Session

namespace Session

variable {s t : Session}

/-- Loading a source comes to the same as with a session that was just made. -/
theorem control_load_resembles (h : s.Proper) (attached : s.attached = true) (source : String) :
    (s.control (.load source)).1 =
        ((create s.store.speed s.machine.limits s.realtime).control (.load source)).1 ∧
      (s.control (.load source)).2.Resembles
        ((create s.store.speed s.machine.limits s.realtime).control (.load source)).2 := by
  obtain ⟨answers, resembles⟩ := blank_fed_resembles attached s.realtime source
  rw [control_load h, control_load (.inr (create_vacant ..))]
  exact ⟨congrArg (Except.map Act.Answer.bool) answers, resembles⟩

end Session

/-! ## Timers of an earlier program -/

namespace Session

variable {s t : Session} {serial : Nat}

/-- A timer that the session has set and minds. -/
def Known (s : Session) (serial : Nat) : Prop := serial < s.clock.issued ∧ s.Minds serial

theorem Known.follow (h : s.Known serial) (f : s.Follows t) : t.Known serial :=
  ⟨Nat.lt_of_lt_of_le h.1 f.issued, f.minds serial h.2⟩

/-- Every timer in the queue is known. -/
def Watchful (s : Session) : Prop := ∀ timer ∈ s.clock.queue, s.Known timer.serial

theorem Watchful.follow (h : s.Watchful) (f : s.Follows t) : t.Watchful := by
  intro timer ht
  rcases f.queue timer ht with old | ⟨-, before, minded⟩
  · exact (h timer old).follow f
  · exact ⟨before, minded⟩

theorem blank_fed_clock (s : Session) (source : String) :
    (s.blank.fed source).2.clock = s.blank.clock := by
  unfold fed
  dsimp only
  split
  · exact publish_clock ..
  · cases compile source with
    | error fault =>
        cases fault with
        | number fault => rfl
        | source e => exact publish_clock ..
    | ok t => rfl

/-- Loading cancels what is minded. -/
theorem isCancelled_load (h : s.Proper) (minded : s.Minds serial) (source : String) :
    (s.control (.load source)).2.clock.isCancelled serial = true := by
  rw [control_load h, blank_fed_clock]
  exact (Clock.isCancelled_foldl_cancel ..).mpr minded

theorem isCancelled_of_load (h : s.Proper) (watchful : s.Watchful) (source : String) :
    ∀ timer ∈ (s.control (.load source)).2.clock.queue,
      (s.control (.load source)).2.clock.isCancelled timer.serial = true := by
  intro timer queued
  refine isCancelled_load h ?_ source
  rw [control_load h, blank_fed_clock] at queued
  have old : timer ∈ s.clock.queue := by
    rw [show s.blank.clock = _ from Clock.foldl_cancel_eq ..] at queued
    exact queued
  exact (watchful timer old).2

end Session

namespace Schedule

variable {q q' : Schedule} {key : Nat} {s t : Session}

theorem Evolved.follows (h : q.Orderly) (hs : q.session? key = some s)
    (e : Evolved q q' key s t) : s.Follows t := by
  have hooks := (h.proper hs).hooks
  cases e with
  | still => exact .refl s
  | command c _ => exact Session.control_follows hooks c
  | segment _ _ => exact Session.segment_follows hooks _
  | fire _ _ => exact Session.fire_follows hooks _
  | takeTimers _ => exact .popped s rfl rfl fun timer ht => absurd ht List.not_mem_nil

/-- An operation puts nothing but runs in the queue. -/
theorem command_frame (q : Schedule) (key : Nat) (c : Control) :
    ∃ (sessions : List Session) (runs : List Run) (ids : List Nat),
      q.command key c = { q with sessions, runs, next := q.next ++ ids.map .run } ∧
        sessions.length = q.sessions.length := by
  unfold Schedule.command
  cases q.session? key with
  | none => exact ⟨q.sessions, q.runs, [], by simp, rfl⟩
  | some s =>
      obtain ⟨runs, woken, eq⟩ := putSession_frame q key (s.control c).2
      exact ⟨q.sessions.set key (s.control c).2, runs, woken, eq, by simp⟩

/-- A job puts nothing but runs in the queue. -/
theorem perform_frame (q : Schedule) (job : Job) :
    ∃ (sessions : List Session) (runs : List Run) (ids : List Nat),
      q.perform job = { q with sessions, runs, next := q.next ++ ids.map .run } ∧
        sessions.length = q.sessions.length := by
  have performed := q.performed job
  generalize q.perform job = q' at performed
  cases performed with
  | nothing => exact ⟨q.sessions, q.runs, [], by simp, rfl⟩
  | @gaveWay id generation r s hr hs sleeps =>
      obtain ⟨runs, woken, eq⟩ :=
        putSession_frame (q.setRun id (.sleeping generation)) r.owner (s.segment r.state).2
      refine ⟨q.sessions.set r.owner (s.segment r.state).2, runs, woken ++ [id], ?_, by simp⟩
      rw [eq]
      simp [setRun, enqueue]
  | @rests id r s hr hs rests =>
      obtain ⟨runs, woken, eq⟩ :=
        putSession_frame (q.setRun id (s.segment r.state).1) r.owner (s.segment r.state).2
      exact ⟨q.sessions.set r.owner (s.segment r.state).2, runs, woken, eq, by simp⟩
  | @fired k serial task s hs on =>
      obtain ⟨runs, woken, eq⟩ :=
        putSession_frame q k (s.run fun host => Act.fire host task).2
      exact ⟨q.sessions.set k _, runs, woken, eq, by simp⟩

/-- What is in the queue after a step was there before, or was put there by the
clock, or is a run. -/
theorem Step.jobs (step : q.Step q') :
    (∀ job ∈ q'.ready, job ∈ q.ready ++ q.next ++ q.dueTimers) ∧
      ∀ job ∈ q'.next, job ∈ q.next ∨ ∃ id, job = .run id := by
  have stays {job : Job} (there : job ∈ q.ready) : job ∈ q.ready ++ q.next ++ q.dueTimers := by
    simp [there]
  have grows {ids : List Nat} {job : Job} (there : job ∈ q.next ++ ids.map .run) :
      job ∈ q.next ∨ ∃ id, job = .run id := by
    rcases List.mem_append.mp there with old | new
    · exact .inl old
    · obtain ⟨id, -, rfl⟩ := List.mem_map.mp new
      exact .inr ⟨id, rfl⟩
  cases step with
  | create => exact ⟨fun _ => stays, fun _ there => .inl there⟩
  | start => exact ⟨fun _ => stays, fun _ there => @grows [q.runs.length] _ there⟩
  | command key c =>
      obtain ⟨sessions, runs, ids, eq, -⟩ := command_frame q key c
      rw [eq]
      exact ⟨fun _ => stays, fun _ there => grows there⟩
  | @job job rest next =>
      obtain ⟨sessions, runs, ids, eq, -⟩ := perform_frame { q with ready := rest } job
      rw [eq]
      refine ⟨fun job there => stays ?_, fun _ there => grows there⟩
      rw [next]
      exact List.mem_cons_of_mem _ there
  | round done =>
      refine ⟨fun job there => ?_, fun _ there => absurd there List.not_mem_nil⟩
      rw [done]
      exact there

/-- A session that is there was there before, or it was just made. -/
theorem Step.origin (step : q.Step q') (ht : q'.session? key = some t) :
    (∃ s, q.session? key = some s ∧ Evolved q q' key s t) ∨
      ∃ speed limits realtime, t = .create speed limits realtime := by
  cases hq : q.session? key with
  | some s =>
      obtain ⟨t', ht', evolved⟩ := step.evolved hq
      obtain rfl : t' = t := Option.some.inj (ht'.symm.trans ht)
      exact .inl ⟨s, rfl, evolved⟩
  | none =>
      have beyond : q.sessions.length ≤ key := List.getElem?_eq_none_iff.mp hq
      have inside : key < q'.sessions.length := (List.getElem?_eq_some_iff.mp ht).1
      have same (length : q'.sessions.length = q.sessions.length) : False := by omega
      cases step with
      | create speed limits realtime =>
          refine .inr ⟨speed, limits, realtime, ?_⟩
          have last : (q.sessions ++ [Session.create speed limits realtime])[key]? = some t := ht
          rw [List.getElem?_append_right beyond] at last
          exact (List.mem_singleton.mp (List.mem_of_getElem? last))
      | start => exact (same rfl).elim
      | command k c =>
          obtain ⟨sessions, runs, ids, eq, length⟩ := command_frame q k c
          exact (same (by rw [eq]; exact length)).elim
      | @job job rest next =>
          obtain ⟨sessions, runs, ids, eq, length⟩ := perform_frame { q with ready := rest } job
          exact (same (by rw [eq]; exact length)).elim
      | round => exact (same (List.length_map ..)).elim

/-- What the clock hands out was in the queue of a session. -/
theorem mem_dueTimers {serial : Nat} {task : String} (due : .timer key serial task ∈ q.dueTimers) :
    ∃ s timer, q.session? key = some s ∧ timer ∈ s.clock.queue ∧ timer.serial = serial := by
  obtain ⟨⟨s, k⟩, there, handed⟩ := List.mem_flatMap.mp due
  dsimp only at handed
  split at handed
  · obtain ⟨timer, queued, same⟩ := List.mem_map.mp handed
    cases same
    exact ⟨s, timer, List.mem_zipIdx_iff_getElem?.mp there, queued, rfl⟩
  · exact absurd handed List.not_mem_nil

/-- Every timer that waits, in the queue of a clock or among the jobs of the round,
is known to its session. -/
structure Minded (q : Schedule) : Prop where
  queues : ∀ {key s}, q.session? key = some s → s.Watchful
  handed : ∀ {key serial task}, .timer key serial task ∈ q.ready →
    ∃ s, q.session? key = some s ∧ s.Known serial
  next : ∀ {key serial task}, .timer key serial task ∉ q.next

theorem Minded.step (h : q.Minded) (ordered : q.Orderly) (step : q.Step q') : q'.Minded where
  queues := by
    intro key t ht
    rcases step.origin ht with ⟨s, hs, evolved⟩ | ⟨speed, limits, realtime, rfl⟩
    · exact (h.queues hs).follow (evolved.follows ordered hs)
    · exact fun timer queued => absurd queued List.not_mem_nil
  handed := by
    intro key serial task there
    have known : ∃ s, q.session? key = some s ∧ s.Known serial := by
      rcases List.mem_append.mp (step.jobs.1 _ there) with old | due
      · rcases List.mem_append.mp old with ready | next
        · exact h.handed ready
        · exact absurd next h.next
      · obtain ⟨s, timer, hs, queued, rfl⟩ := mem_dueTimers due
        exact ⟨s, hs, h.queues hs timer queued⟩
    obtain ⟨s, hs, known⟩ := known
    obtain ⟨t, ht, evolved⟩ := step.evolved hs
    exact ⟨t, ht, known.follow (evolved.follows ordered hs)⟩
  next := by
    intro key serial task there
    rcases step.jobs.2 _ there with old | ⟨id, same⟩
    · exact h.next old
    · cases same

theorem Reachable.minded (h : q.Reachable) : q.Minded := by
  induction h with
  | refl => exact ⟨by simp [session?], by simp, by simp⟩
  | tail reached step ih => exact ih.step (Reachable.orderly reached) step

/-- A session has come from `t`, and of the timers that `t` had set none is handed
out that was not cancelled. -/
structure Since (t : Session) (key : Nat) (q : Schedule) : Prop where
  session : ∃ u, q.session? key = some u ∧ t.Follows u
  handed : ∀ {serial task}, .timer key serial task ∈ q.ready → serial < t.clock.issued →
    t.clock.isCancelled serial = true

theorem Since.step (h : Since t key q) (cancelled : ∀ timer ∈ t.clock.queue,
    t.clock.isCancelled timer.serial = true) (reached : q.Reachable) (step : q.Step q') :
    Since t key q' := by
  obtain ⟨u, hu, follows⟩ := h.session
  refine ⟨?_, ?_⟩
  · obtain ⟨v, hv, evolved⟩ := step.evolved hu
    exact ⟨v, hv, follows.trans (evolved.follows reached.orderly hu)⟩
  · intro serial task there early
    rcases List.mem_append.mp (step.jobs.1 _ there) with old | due
    · rcases List.mem_append.mp old with ready | next
      · exact h.handed ready early
      · exact absurd next reached.minded.next
    · obtain ⟨v, timer, hv, queued, rfl⟩ := mem_dueTimers due
      obtain rfl : v = u := Option.some.inj (hv.symm.trans hu)
      rcases follows.queue timer queued with old | ⟨since, -⟩
      · exact cancelled timer old
      · omega

theorem Since.later (h : Since t key q) (cancelled : ∀ timer ∈ t.clock.queue,
    t.clock.isCancelled timer.serial = true) (reached : q.Reachable)
    (steps : ReflTransGen Step q q') : Since t key q' := by
  induction steps with
  | refl => exact h
  | tail before step ih => exact ih.step cancelled (reached.trans before) step

theorem since_load (h : q.Reachable) (hs : q.session? key = some s) (source : String) :
    Since (s.control (.load source)).2 key (q.command key (.load source)) := by
  obtain ⟨sessions, runs, woken, eq, -⟩ := command_frame q key (.load source)
  refine ⟨⟨_, session?_command hs _, .refl _⟩, ?_⟩
  intro serial task there _
  rw [eq] at there
  obtain ⟨s', hs', known⟩ := h.minded.handed there
  obtain rfl : s' = s := Option.some.inj (hs'.symm.trans hs)
  exact Session.isCancelled_load (h.orderly.proper hs) known.2 source

/-- Whatever a session has done before, as long as it listens to its console: one
that is given a source and takes it is like one that was just made, with the same
pacing delay and limits, and is given the source.  All timers in the queue of its
clock are cancelled.  And whatever happens from then on, also in the midst of a
later segment or step, letting time pass fires none but timers that were set
since, and no timer of before that was handed out already does anything. -/
theorem reload_isolates {q : Schedule} (h : q.Reachable) {key : Nat} {s : Session}
    (hs : q.session? key = some s) (attached : s.attached = true) {source : String}
    {answer : Act.Answer} {t : Session} (takes : s.control (.load source) = (.ok answer, t)) :
    (∃ fresh, (Session.create s.store.speed s.machine.limits s.realtime).control (.load source) =
      (.ok answer, fresh) ∧ t.Resembles fresh) ∧
    (∀ timer ∈ t.clock.queue, t.clock.isCancelled timer.serial = true) ∧
    ∀ q' u, ReflTransGen Step (q.command key (.load source)) q' → q'.session? key = some u →
      (∀ v target, u.Follows v → ((Act.fireUntil Act.plain target).run v).2.store =
        v.store.fired ((v.clock.due target).filter fun timer =>
          t.clock.issued ≤ timer.serial && !v.clock.isCancelled timer.serial)) ∧
      ∀ serial task, .timer key serial task ∈ q'.ready → serial < t.clock.issued →
        q'.perform (.timer key serial task) = q' := by
  have proper := h.orderly.proper hs
  obtain ⟨answers, resembles⟩ := Session.control_load_resembles proper attached source
  have cancelled := Session.isCancelled_of_load proper (h.minded.queues hs) source
  have since := since_load h hs source
  rw [takes] at answers resembles cancelled since
  refine ⟨⟨((Session.create s.store.speed s.machine.limits s.realtime).control (.load source)).2,
    Prod.ext answers.symm rfl, resembles⟩, cancelled, ?_⟩
  intro q' u steps hu
  have later := since.later cancelled (h.command key (.load source)) steps
  obtain ⟨u', hu', follows⟩ := later.session
  obtain rfl : u' = u := Option.some.inj (hu'.symm.trans hu)
  refine ⟨fun v target on => ?_, fun serial task there early => ?_⟩
  · obtain ⟨w, run, -, store, -⟩ := Act.fireUntil_fires target v
    have follows := follows.trans on
    rw [run, store]
    refine congrArg v.store.fired (List.filter_congr ?_)
    intro timer due
    rcases follows.queue timer ((List.takeWhile_prefix _).subset due) with old | ⟨since, -⟩
    · simp [follows.cancelled _ (cancelled timer old)]
    · simp [since]
  · have void : u'.clock.isCancelled serial = true :=
      follows.cancelled serial (later.handed there early)
    unfold Schedule.perform
    simp only [hu, void, if_true]

/-- The run of a program has set a timer. -/
def timed : Schedule :=
  let q := (({} : Schedule).addSession (.create 0 {} true)).1
  ((q.command 0 (.load "setTimeout(() => { console.log(1); }, 10);")).start 0 true).1.tick

theorem reachable_timed : timed.Reachable := by
  have loaded := (Reachable.empty.create 0 {} true).command 0
    (.load "setTimeout(() => { console.log(1); }, 10);")
  exact (loaded.start (by decide +kernel) true).tick

/-- When another program is loaded, the timer is cancelled, and the session is like
one that was just made. -/
theorem reloading_cancels_a_timer :
    ∃ s t, timed.session? 0 = some s ∧ s.clock.queue.length = 1 ∧
      s.control (.load "let b = 2;") = (.ok (.bool true), t) ∧ t.clock.queue.length = 1 ∧
      (∀ timer ∈ t.clock.queue, t.clock.isCancelled timer.serial = true) ∧
      ∃ fresh, (Session.create s.store.speed s.machine.limits s.realtime).control
        (.load "let b = 2;") = (.ok (.bool true), fresh) ∧ t.Resembles fresh := by
  have facts : (timed.session? 0).map (fun s => (s.attached, s.clock.queue.length,
      (s.control (.load "let b = 2;")).1, (s.control (.load "let b = 2;")).2.clock.queue.length)) =
      some (true, 1, .ok (.bool true), 1) := by
    decide +kernel
  obtain ⟨s, hs, eq⟩ := Option.map_eq_some_iff.mp facts
  simp only [Prod.mk.injEq] at eq
  obtain ⟨attached, before, takes, after⟩ := eq
  obtain ⟨fresh, cancelled, -⟩ :=
    reload_isolates reachable_timed hs attached (Prod.ext takes rfl)
  exact ⟨s, _, hs, before, Prod.ext takes rfl, after, cancelled, fresh⟩

end Schedule

end Runloop
