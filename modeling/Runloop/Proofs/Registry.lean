/-
# Who is registered, and what becomes of those who leave

The service keeps no more sessions than it has room for.  A request adds one at
the end and lets the oldest ones go, takes one away, or leaves the registry as it
is (`Step.cases`), so the entries stand in the order of their numbers, and a
number that was given out is not given out again (`Step.origin`).

A session that leaves is closed, and there is nobody left who could do anything
with it: its runs are over and forgotten, it has no work and no task, and no later
request names it.  It stays as the one close has left it, but for the timers that its clock
throws away (`Departed`), and a second close would show.
-/
import Runloop.Proofs.Containment
import Runloop.Proofs.Reloading
import Runloop.Proofs.Serving

namespace Runloop

open Relation (ReflTransGen)

/-! ## Sessions -/

namespace Session

variable {s t : Session}

theorem segment_finished (hooks : s.hooks = []) (fault? : Option Fault) :
    s.segment (.finished fault?) = (.finished fault?, s) := by
  unfold Session.segment
  rw [run_eq hooks]
  rfl

/-- A timer that fires finds no task to queue. -/
theorem fire_of_empty (hooks : s.hooks = []) (loop : s.store.state.loop = {}) (id : String) :
    (s.run fun host => Act.fire host id).2 = s := by
  have none : s.store.moveToCallbacks id = { store := s.store, value := none, events := [] } := by
    unfold Store.moveToCallbacks
    rw [loop]
    rfl
  rw [run_eq hooks, Act.run_fire, none]
  rfl

/-- No operation of a program stops a session from listening to its console. -/
theorem control_attached (h : s.Proper) {c : Control} (hc : c.strides = true) :
    (s.control c).2.attached = s.attached := by
  rcases h with live | vacant
  · exact Strides.attached live (control_strides live hc)
  · have drives : c.drives = true := by
      cases c <;> first | rfl | cases hc
    rw [vacant.control_same drives fun speed same => by rw [same] at hc; cases hc]

theorem segment_attached (h : s.Proper) {state : RunState}
    (begun : state.generation? = some s.machine.generation → s.phase ≠ .idle) :
    (s.segment state).2.attached = s.attached := by
  rcases h with live | vacant
  · exact Strides.attached live (segment_strides live state)
  · rw [vacant.segment fun current => begun current vacant.idle]

theorem fire_attached (hooks : s.hooks = []) (id : String) :
    (s.run fun host => Act.fire host id).2.attached = s.attached := by
  rw [run_eq hooks, Act.run_fire]
  exact publish_attached ..

theorem blank_fed_attached (s : Session) (source : String) :
    (s.blank.fed source).2.attached = s.attached := by
  rcases s.blank.fed_cases source with ⟨-, eq⟩ | ⟨fault, -, eq⟩ | ⟨e, -, eq⟩ | ⟨t, -, eq⟩
  · rw [eq]
    exact publish_attached ..
  · rw [eq]
    rfl
  · rw [eq]
    exact publish_attached ..
  · rw [eq]
    rfl

theorem load_attached (h : s.Proper) (source : String) :
    (s.control (.load source)).2.attached = s.attached := by
  rw [control_load h]
  exact blank_fed_attached s source

/-- The timers of a program that a session was given when it was made are known. -/
theorem create_watchful (speed : Int) (limits : Limits) (realtime : Bool) (source : String) :
    ((create speed limits realtime).blank.fed source).2.Watchful := by
  intro timer queued
  rw [blank_fed_clock] at queued
  cases queued

/-- `t` is `s`, but for timers that were taken off its clock. -/
def Pruned (s t : Session) : Prop :=
  ∃ queue, queue.Sublist s.clock.queue ∧ t = { s with clock := { s.clock with queue } }

/-- A session that was closed has nothing left to do. -/
structure Spent (s : Session) : Prop where
  vacant : s.Vacant
  loop : s.store.state.loop = {}

theorem Pruned.refl (s : Session) : s.Pruned s := ⟨s.clock.queue, List.Sublist.refl _, rfl⟩

theorem Pruned.spent (h : s.Pruned t) (spent : s.Spent) : t.Spent := by
  obtain ⟨queue, -, rfl⟩ := h
  exact ⟨⟨spent.vacant.hooks, spent.vacant.loaded, spent.vacant.idle, spent.vacant.unit⟩,
    spent.loop⟩

theorem control_close_spent (h : s.Proper) : (s.control .close).2.Spent := by
  rw [control_close h]
  exact ⟨⟨h.hooks, rfl, rfl, rfl⟩, rfl⟩

/-- Closing cancels every timer that is tracked, and none is then. -/
theorem isCancelled_close (h : s.Proper) :
    (∀ serial ∈ s.store.timers, (s.control .close).2.clock.isCancelled serial = true) ∧
      (s.control .close).2.store.timers = [] := by
  rw [control_close h]
  exact ⟨fun serial tracked => (Clock.isCancelled_foldl_cancel ..).mpr (.inl tracked), rfl⟩

/-- Every timer that waits when a session is closed is cancelled. -/
theorem isCancelled_of_close (h : s.Proper) (watchful : s.Watchful) :
    ∀ timer ∈ (s.control .close).2.clock.queue,
      (s.control .close).2.clock.isCancelled timer.serial = true := by
  rw [control_close h]
  intro timer queued
  have old : timer ∈ s.clock.queue := by
    rw [show s.blank.clock = _ from Clock.foldl_cancel_eq ..] at queued
    exact queued
  exact (Clock.isCancelled_foldl_cancel ..).mpr (watchful timer old).2

end Session

/-! ## What the turns of runs and timers come to -/

namespace Schedule

variable {q q' : Schedule} {entries : List Entry} {tasks : Tasks} {own : Option Nat} {key : Nat}
  {s t : Session} {e : Entry}

/-- A job is the next segment of a run of the session, or a timer of its clock, or
none of its business. -/
theorem perform_evolves (q : Schedule) (job : Job) (hs : q.session? key = some s) :
    ∃ t, (q.perform job).session? key = some t ∧
      (t = s ∨ (∃ id r, q.run? id = some r ∧ r.owner = key ∧ t = (s.segment r.state).2) ∨
        ∃ task, t = (s.run fun host => Act.fire host task).2) := by
  have ran {id : Nat} {r : Run} {u : Session} (after : RunState) (hr : q.run? id = some r)
      (hu : q.session? r.owner = some u) :
      ∃ t, ((q.setRun id after).putSession r.owner (u.segment r.state).2).session? key = some t ∧
        (t = s ∨ (∃ id r, q.run? id = some r ∧ r.owner = key ∧ t = (s.segment r.state).2) ∨
          ∃ task, t = (s.run fun host => Act.fire host task).2) := by
    refine ⟨_, session?_put_of_some (q := q.setRun id after) hs hu _, ?_⟩
    by_cases same : key = r.owner
    · obtain rfl : s = u := Option.some.inj (hs.symm.trans (same ▸ hu))
      rw [if_pos same]
      exact .inr (.inl ⟨id, r, hr, same.symm, rfl⟩)
    · rw [if_neg same]
      exact .inl rfl
  have performed := q.performed job
  generalize q.perform job = q' at performed
  cases performed with
  | nothing => exact ⟨s, hs, .inl rfl⟩
  | gaveWay hr hu _ => exact ran _ hr hu
  | rests hr hu _ => exact ran _ hr hu
  | @fired k serial task u hu _ =>
      refine ⟨_, session?_put_of_some hs hu _, ?_⟩
      by_cases same : key = k
      · obtain rfl : s = u := Option.some.inj (hs.symm.trans (same ▸ hu))
        rw [if_pos same]
        exact .inr (.inr ⟨task, rfl⟩)
      · rw [if_neg same]
        exact .inl rfl

/-- Every timer that waits is known to its session, and whoever is registered
listens to its console. -/
structure Attended (entries : List Entry) (q : Schedule) : Prop where
  watchful : ∀ {key s}, q.session? key = some s → s.Watchful
  attached : ∀ e ∈ entries, ∀ {s}, q.session? e.key = some s → s.attached = true

/-- Every session of `q'` comes from one of `q`, with its timers, and listens to its
console if that one did. -/
def Heirs (q q' : Schedule) : Prop :=
  ∀ key t, q'.session? key = some t →
    ∃ s, q.session? key = some s ∧ s.Follows t ∧ t.attached = s.attached

theorem Attended.of_heirs (h : q.Attended entries) (heirs : q.Heirs q') : q'.Attended entries where
  watchful := by
    intro key t ht
    obtain ⟨s, hs, follows, -⟩ := heirs key t ht
    exact (h.watchful hs).follow follows
  attached := by
    intro e he t ht
    obtain ⟨s, hs, -, attached⟩ := heirs e.key t ht
    exact attached.trans (h.attached e he hs)

theorem Attended.put (h : q.Attended entries) (watchful : t.Watchful)
    (attached : ∀ e ∈ entries, e.key = key → t.attached = true) :
    (q.putSession key t).Attended entries where
  watchful := forall_putSession watchful h.watchful
  attached := by
    intro e he u hu
    rw [session?_putSession] at hu
    split at hu
    · rename_i here
      cases hu
      exact attached e he here.1
    · exact h.attached e he hu

theorem Attended.add (h : q.Attended entries) (watchful : t.Watchful)
    (attached : ∀ e ∈ entries, e.key = q.sessions.length → t.attached = true) :
    (q.addSession t).1.Attended entries where
  watchful := by
    intro k u hu
    rw [session?_addSession] at hu
    split at hu
    · cases hu
      exact watchful
    · exact h.watchful hu
  attached := by
    intro e he u hu
    rw [session?_addSession] at hu
    split at hu
    · rename_i here
      cases hu
      exact attached e he here
    · exact h.attached e he hu

/-- The sessions are the same. -/
theorem Attended.of_sessions (h : q.Attended entries) (same : q'.sessions = q.sessions) :
    q'.Attended entries := by
  have sessions (key : Nat) : q'.session? key = q.session? key := by
    unfold Schedule.session?
    rw [same]
  refine ⟨fun hs => h.watchful ((sessions _).symm.trans hs), fun e he s hs => ?_⟩
  exact h.attached e he ((sessions _).symm.trans hs)

/-- The session under the key is `t`, as it was left. -/
def Departed (key : Nat) (t : Session) (q : Schedule) : Prop :=
  ∃ u, q.session? key = some u ∧ t.Pruned u

namespace Departed

theorem lt_length (h : q.Departed key t) : key < q.sessions.length := by
  obtain ⟨u, hu, -⟩ := h
  exact (List.getElem?_eq_some_iff.mp hu).1

theorem of_sessions (h : q.Departed key t) (same : q'.sessions = q.sessions) :
    q'.Departed key t := by
  obtain ⟨u, hu, pruned⟩ := h
  refine ⟨u, ?_, pruned⟩
  unfold session? at *
  rw [same, hu]

theorem put (h : q.Departed key t) {k : Nat} (other : k ≠ key) (u : Session) :
    (q.putSession k u).Departed key t := by
  obtain ⟨v, hv, pruned⟩ := h
  refine ⟨v, ?_, pruned⟩
  rw [session?_putSession, if_neg fun same => other same.1.symm, hv]

theorem command (h : q.Departed key t) {k : Nat} (other : k ≠ key) (c : Control) :
    (q.command k c).Departed key t := by
  cases hs : q.session? k with
  | none => simpa only [Schedule.command, hs] using h
  | some s =>
      rw [command_of_some hs]
      exact h.put other _

theorem add (h : q.Departed key t) (u : Session) : (q.addSession u).1.Departed key t := by
  have before := h.lt_length
  obtain ⟨v, hv, pruned⟩ := h
  refine ⟨v, ?_, pruned⟩
  rw [session?_addSession, if_neg (Nat.ne_of_lt before), hv]

end Departed

namespace Covered

theorem heirs_perform (h : q.Covered entries tasks own) (job : Job) : q.Heirs (q.perform job) := by
  intro key t ht
  have ordered := h.guarded.orderly
  have there : (q.session? key).isSome = true := by
    cases hs : q.session? key with
    | some s => rfl
    | none =>
        obtain ⟨sessions, runs, ids, eq, length⟩ := perform_frame q job
        rw [eq] at ht
        have inside := (List.getElem?_eq_some_iff.mp ht).1
        have beyond := List.getElem?_eq_none_iff.mp hs
        change key < sessions.length at inside
        omega
  obtain ⟨s, hs⟩ := Option.isSome_iff_exists.mp there
  have proper := ordered.proper hs
  obtain ⟨t', ht', came⟩ := q.perform_evolves job hs
  obtain rfl : t' = t := Option.some.inj (ht'.symm.trans ht)
  refine ⟨s, hs, ?_⟩
  rcases came with rfl | ⟨id, r, hr, rfl, rfl⟩ | ⟨task, rfl⟩
  · exact ⟨.refl _, rfl⟩
  · refine ⟨Session.segment_follows proper.hooks _,
      Session.segment_attached proper fun current => ?_⟩
    exact ((ordered.seats hs).begun ((ordered.fit hr hs).active current)).1
  · exact ⟨Session.fire_follows proper.hooks task, Session.fire_attached proper.hooks task⟩

theorem heirs_beginRound (q : Schedule) : q.Heirs q.beginRound := by
  intro key t ht
  have taken : q.takeTimers.session? key = some t := ht
  rw [session?_takeTimers] at taken
  obtain ⟨s, hs, rfl⟩ := Option.map_eq_some_iff.mp taken
  refine ⟨s, hs, ?_⟩
  split
  · exact ⟨.popped s rfl rfl fun timer queued => absurd queued List.not_mem_nil, rfl⟩
  · exact ⟨.refl s, rfl⟩

/-- Whoever is registered is attended to, whatever turns there are. -/
theorem lasting_attended (entries : List Entry) (tasks : Tasks) (own : Option Nat) :
    Lasting fun q => q.Covered entries tasks own ∧ q.Attended entries where
  withReady ready h := ⟨h.1.withReady ready, h.2.watchful, h.2.attached⟩
  perform job h := ⟨h.1.perform job, h.2.of_heirs (h.1.heirs_perform job)⟩
  beginRound h := ⟨(lasting entries tasks own).beginRound h.1, h.2.of_heirs (heirs_beginRound _)⟩

/-- A session that is under no entry, and is not the caller's own, has no run. -/
theorem over_of_absent (h : q.Covered entries tasks own) (absent : ∀ e ∈ entries, e.key ≠ key)
    {id : Nat} {r : Run} (hr : q.run? id = some r) (owner : r.owner = key) :
    r.state.isFinished = true := by
  cases on : r.state.isFinished with
  | true => rfl
  | false =>
      obtain ⟨e, he, same, -⟩ := h.noted hr on
      exact absurd (same.trans owner) (absent e he)

/-- Who has left has no turn any more. -/
theorem lasting_departed (spent : t.Spent) (absent : ∀ e ∈ entries, e.key ≠ key)
    (own : Option Nat) : Lasting fun q => q.Covered entries tasks own ∧ q.Departed key t where
  withReady ready h := ⟨h.1.withReady ready, h.2⟩
  perform := by
    intro q job h
    obtain ⟨covered, u, hu, pruned⟩ := h
    refine ⟨covered.perform job, ?_⟩
    have hooks := (pruned.spent spent).vacant.hooks
    obtain ⟨v, hv, came⟩ := q.perform_evolves job hu
    refine ⟨v, hv, ?_⟩
    rcases came with rfl | ⟨id, r, hr, owner, rfl⟩ | ⟨task, rfl⟩
    · exact pruned
    · cases hstate : r.state with
      | finished fault? =>
          rw [Session.segment_finished hooks]
          exact pruned
      | created | sleeping | waiting =>
          have ended := covered.over_of_absent absent hr owner
          rw [hstate] at ended
          cases ended
    · rw [Session.fire_of_empty hooks (pruned.spent spent).loop]
      exact pruned
  beginRound := by
    intro q h
    obtain ⟨covered, u, hu, queue, sub, eq⟩ := h
    refine ⟨(lasting entries tasks own).beginRound covered, ?_⟩
    have taken : q.beginRound.session? key = _ := (session?_takeTimers q key).trans (by rw [hu])
    refine ⟨_, taken, ?_⟩
    dsimp only
    split
    · exact ⟨[], List.nil_sublist _, by rw [eq]⟩
    · exact ⟨queue, sub, eq⟩

end Covered

end Schedule

/-! ## What a request comes to -/

namespace Service

open Schedule (Lasting Attended Departed Heirs)

variable {v w : Service} {e : Entry} {s t : Session} {key : Nat}

/-- Something happens, and nobody comes or leaves. -/
inductive Move (v : Service) : Service → Prop
  /-- Runs and timers have their turns. -/
  | turns {q : Schedule} (lasts : ∀ P : Schedule → Prop, Lasting P → P v.schedule → P q) :
      Move v { v with schedule := q }
  | command {e : Entry} {s : Session} {c : Control} (he : e ∈ v.entries)
      (hs : v.session? e = some s) (strides : c.strides = true) :
      Move v (v.putSession e (s.control c).2)
  | start {e : Entry} (he : e ∈ v.entries)
      (isOver : ∀ id ∈ v.run? e, v.schedule.isDone id = true) :
      Move v (Service.noteRun { v with schedule := (v.schedule.start e.key false).1 } e
        v.schedule.runs.length)
  | reload {e : Entry} {s : Session} (he : e ∈ v.entries) (hs : v.session? e = some s) :
      Move v (((v.forgetRun e).cancelRun (v.run? e)).putSession e (s.control (.load s.source)).2)
  | runOnce (code : String) (wishes : Datum) : Move v (v.runOnce code wishes).2

/-- The same sessions are registered, in the same places. -/
structure Seated (v w : Service) : Prop where
  entries : w.entries = v.entries
  issued : w.issued = v.issued
  capacity : w.capacity = v.capacity

/-- The schedule is covered, and whoever is registered is attended to. -/
structure Sound (v : Service) : Prop where
  covered : v.Covered
  attended : v.schedule.Attended v.entries

theorem capacity_cancelRun (v : Service) (run : Option Nat) :
    (v.cancelRun run).capacity = v.capacity := by
  cases run with
  | none => rfl
  | some id => rfl

namespace Seated

theorem refl (v : Service) : v.Seated v := ⟨rfl, rfl, rfl⟩

theorem trans {u : Service} (h : u.Seated v) (h' : v.Seated w) : u.Seated w :=
  ⟨h'.entries.trans h.entries, h'.issued.trans h.issued, h'.capacity.trans h.capacity⟩

end Seated

namespace Move

theorem seated (h : v.Covered) (m : v.Move w) : v.Seated w := by
  cases m with
  | turns | command | start => exact ⟨rfl, rfl, rfl⟩
  | @reload e s =>
      exact ⟨entries_cancelRun _ (v.run? e), issued_cancelRun _ (v.run? e),
        capacity_cancelRun _ (v.run? e)⟩
  | runOnce code wishes =>
      cases opens : open? code wishes with
      | error fault =>
          rw [Service.runOnce, opens]
          exact .refl v
      | ok made =>
          obtain ⟨own, q, -, -, -, eq | eq⟩ := h.runOnce_cases opens
          · rw [eq]
            exact ⟨rfl, rfl, rfl⟩
          · rw [eq]
            exact ⟨rfl, rfl, rfl⟩

theorem covered (h : v.Covered) (m : v.Move w) : w.Covered := by
  cases m with
  | turns lasts => exact ⟨lasts _ (Schedule.Covered.lasting ..) h.schedule, h.issued⟩
  | @command e s c he hs strides =>
      exact h.put hs fun speed same => by rw [same] at strides; cases strides
  | start he isOver => exact ⟨h.schedule.start he isOver, h.issued⟩
  | reload he hs => exact h.reload he hs
  | runOnce code wishes => exact h.runOnce code wishes

end Move

theorem sessions_endRun (q : Schedule) (run : Option Nat) :
    (q.endRun run).sessions = q.sessions := by
  cases run with
  | none => rfl
  | some id =>
      show (q.cancelRun id).sessions = _
      unfold Schedule.cancelRun
      split
      · rfl
      · rfl

/-- A session that is opened minds its timers, and listens to its console. -/
theorem open?_attended {code : String} {wishes : Datum} {loaded : Bool}
    (opens : open? code wishes = .ok (loaded, s)) : s.Watchful ∧ s.attached = true := by
  obtain ⟨settings, capped, -⟩ := opened opens
  rw [open?_eq capped] at opens
  have watchful := Session.create_watchful settings.speed settings.limits settings.realtime code
  have attached := Session.blank_fed_attached settings.session code
  change (settings.session.blank.fed code).2.Watchful at watchful
  generalize settings.session.blank.fed code = fed at *
  rcases fed with ⟨fault | ok, t⟩
  · cases opens
  · cases opens
    exact ⟨watchful, attached⟩

/-- A session under an entry comes to be another one that listens if it does. -/
theorem Sound.control (h : v.Sound) (hs : v.session? e = some s) {c : Control}
    (attached : (s.control c).2.attached = s.attached) :
    (v.schedule.putSession e.key (s.control c).2).Attended v.entries := by
  have proper := h.covered.schedule.guarded.orderly.proper hs
  refine h.attended.put ?_ ?_
  · exact (h.attended.watchful hs).follow (Session.control_follows proper.hooks c)
  · intro e' he' same
    refine attached.trans (h.attended.attached e' he' ?_)
    rwa [same]

theorem Sound.runOnce (h : v.Sound) (code : String) (wishes : Datum) :
    (v.runOnce code wishes).2.Sound := by
  refine ⟨h.covered.runOnce code wishes, ?_⟩
  cases opens : open? code wishes with
  | error fault =>
      rw [Service.runOnce, opens]
      exact h.attended
  | ok made =>
      obtain ⟨loaded, s⟩ := made
      obtain ⟨own, q, added, mine, ran, eq⟩ := h.covered.runOnce_cases opens
      obtain ⟨watchful, attached⟩ := open?_attended opens
      have before (e : Entry) (he : e ∈ v.entries) : e.key ≠ v.schedule.sessions.length := by
        obtain ⟨t, ht⟩ := h.covered.there he
        exact Nat.ne_of_lt (List.getElem?_eq_some_iff.mp ht).1
      have entered : (v.schedule.addSession s).1.Attended v.entries :=
        h.attended.add watchful fun _ _ _ => attached
      have ended : q.Covered v.entries v.tasks own ∧ q.Attended v.entries := by
        rcases ran with rfl | ⟨rfl, rfl⟩
        · exact ⟨added, entered⟩
        · refine (Schedule.Covered.lasting_attended ..).runInTurn ?_ ⟨added, entered⟩
          rintro q s state ⟨covered, attended⟩ hs
          have proper := covered.guarded.orderly.proper hs
          refine ⟨covered.segmentInTurn hs state, attended.put ?_ ?_⟩
          · exact (attended.watchful hs).follow (Session.segment_follows proper.hooks state)
          · exact fun e he same => absurd same (before e he)
      obtain ⟨covered, attended⟩ := ended
      rcases eq with eq | eq
      · rw [eq]
        exact attended
      · rw [eq]
        cases hs : q.session? v.schedule.sessions.length with
        | none => simpa only [Schedule.command, hs] using attended
        | some last =>
            have proper := covered.guarded.orderly.proper hs
            dsimp only
            rw [Schedule.command_of_some hs]
            refine attended.put ?_ fun e he same => absurd same (before e he)
            exact (attended.watchful hs).follow (Session.control_follows proper.hooks .close)

theorem Move.sound (h : v.Sound) (m : v.Move w) : w.Sound := by
  refine ⟨m.covered h.covered, ?_⟩
  cases m with
  | turns lasts =>
      exact (lasts _ (Schedule.Covered.lasting_attended ..) ⟨h.covered.schedule, h.attended⟩).2
  | @command e s c he hs strides =>
      have proper := h.covered.schedule.guarded.orderly.proper hs
      exact h.control hs (Session.control_attached proper strides)
  | start he isOver => exact h.attended.of_sessions rfl
  | @reload e s he hs =>
      have proper := h.covered.schedule.guarded.orderly.proper hs
      have attached := Session.load_attached proper s.source
      show (((v.forgetRun e).cancelRun (v.run? e)).schedule.putSession e.key _).Attended
        ((v.forgetRun e).cancelRun (v.run? e)).entries
      rw [schedule_cancelRun, entries_cancelRun]
      have ended : (v.schedule.endRun (v.run? e)).Attended v.entries :=
        h.attended.of_sessions (sessions_endRun ..)
      refine ended.put ?_ ?_
      · exact (h.attended.watchful hs).follow (Session.control_follows proper.hooks _)
      · intro e' he' same
        refine attached.trans (h.attended.attached e' he' ?_)
        rwa [same]
  | runOnce code wishes => exact (h.runOnce code wishes).attended

/-- Who has left is not moved. -/
theorem Move.departed (h : v.Covered) (m : v.Move w) (spent : t.Spent)
    (out : ∀ e ∈ v.entries, e.key ≠ key) (left : v.schedule.Departed key t) :
    w.schedule.Departed key t := by
  cases m with
  | turns lasts =>
      exact (lasts _ (Schedule.Covered.lasting_departed spent out none) ⟨h.schedule, left⟩).2
  | command he hs strides => exact left.put (out _ he) _
  | start he isOver => exact left.of_sessions rfl
  | @reload e s he hs =>
      show (((v.forgetRun e).cancelRun (v.run? e)).schedule.putSession e.key _).Departed _ _
      rw [schedule_cancelRun]
      exact (left.of_sessions (sessions_endRun ..)).put (out e he) _
  | runOnce code wishes =>
      cases opens : open? code wishes with
      | error fault =>
          rw [Service.runOnce, opens]
          exact left
      | ok made =>
          obtain ⟨loaded, s⟩ := made
          obtain ⟨own, q, added, mine, ran, eq⟩ := h.runOnce_cases opens
          have other : v.schedule.sessions.length ≠ key := Nat.ne_of_gt left.lt_length
          have entered : (v.schedule.addSession s).1.Departed key t := left.add s
          have ended : q.Departed key t := by
            rcases ran with rfl | ⟨rfl, rfl⟩
            · exact entered
            · have lasts : Schedule.Lasting fun q =>
                  q.Covered v.entries v.tasks (some v.schedule.sessions.length) ∧
                    q.Departed key t :=
                Schedule.Covered.lasting_departed spent out _
              refine (lasts.runInTurn ?_ ⟨added, entered⟩).2
              rintro q s state ⟨covered, left⟩ hs
              exact ⟨covered.segmentInTurn hs state, left.put other _⟩
          rcases eq with eq | eq
          · rw [eq]
            exact ended
          · rw [eq]
            exact ended.command other .close

theorem moves_startRun (he : e ∈ v.entries) (hs : v.session? e = some s) :
    ReflTransGen Move v (v.startRun e s).1 := by
  unfold Service.startRun
  split
  · split
    · exact .single (.command he hs rfl)
    · exact .refl
  · rename_i isOver
    exact .single (.start he (Covered.isDone_of_filter isOver))

theorem moves_perform (he : e ∈ v.entries) (hs : v.session? e = some s) (deed : SessionDeed) :
    ReflTransGen Move v (v.perform e s deed).2 := by
  have performed := v.performed e s deed
  generalize (v.perform e s deed).2 = v' at performed
  cases performed with
  | nothing => exact .refl
  | command c which =>
      exact .single (.command he hs (by rcases which with rfl | rfl | rfl <;> rfl))
  | reload => exact .single (.reload he hs)
  | start => exact moves_startRun he hs
  | await => exact (moves_startRun he hs).tail (.turns fun P lasts here => lasts.await _ here)

/-- A request moves the service, takes a session in or lets one go; a turn moves it. -/
theorem handle_cases (h : v.Covered) (r : Request) :
    ReflTransGen Move v (v.handle r).2 ∨
      (∃ code wishes loaded s, r = .create code wishes ∧ open? code wishes = .ok (loaded, s) ∧
        (v.handle r).2 = (v.register s).1) ∨
      ∃ e ∈ v.entries, r = .delete e.id ∧ (v.handle r).2 = v.dismiss e := by
  cases r with
  | compile code => exact .inl .refl
  | run code wishes => exact .inl (.single (.runOnce code wishes))
  | create code wishes =>
      cases opens : open? code wishes with
      | error fault =>
          refine .inl ?_
          rw [handle, create, opens]
      | ok made =>
          obtain ⟨loaded, s⟩ := made
          refine .inr (.inl ⟨code, wishes, loaded, s, rfl, opens, ?_⟩)
          rw [handle, create, opens]
  | view id =>
      refine .inl ?_
      rcases withSession_cases h id fun _ s => (viewOf [] s, v) with ⟨-, eq⟩ | ⟨e, s, -, he, hs, eq⟩
      · rw [handle, eq]
      · rw [handle, eq]
  | deed id deed =>
      refine .inl ?_
      rcases withSession_cases h id fun e s => v.perform e s deed with ⟨-, eq⟩ |
        ⟨e, s, -, he, hs, eq⟩
      · rw [handle, eq]
      · rw [handle, eq]
        exact moves_perform he hs deed
  | delete id =>
      rcases withSession_cases h id fun e _ => (.ok (.object [("deleted", .text id)]), v.dismiss e)
        with ⟨-, eq⟩ | ⟨e, s, found, he, hs, eq⟩
      · exact .inl (by rw [handle, eq])
      · refine .inr (.inr ⟨e, he, ?_, by rw [handle, eq]⟩)
        have named : e.id = id := by simpa using List.find?_some found
        rw [named]

/-! ## Sessions that leave -/

theorem dismiss_schedule (hs : v.session? e = some s) :
    (v.dismiss e).schedule = (v.schedule.command e.key .close).endRun (v.run? e) := by
  rw [dismiss_eq hs, schedule_cancelRun]

theorem issued_dismiss (v : Service) (e : Entry) : (v.dismiss e).issued = v.issued := by
  unfold dismiss drop
  dsimp only
  rw [issued_cancelRun]
  split
  · rfl
  · rfl

theorem capacity_dismiss (v : Service) (e : Entry) : (v.dismiss e).capacity = v.capacity := by
  unfold dismiss drop
  dsimp only
  rw [capacity_cancelRun]
  split
  · rfl
  · rfl

theorem session?_dismiss (hs : v.session? e = some s) (key : Nat) :
    (v.dismiss e).schedule.session? key =
      if key = e.key then some (s.control .close).2 else v.schedule.session? key := by
  have there : (v.schedule.session? e.key).isSome = true := by
    rw [show v.schedule.session? e.key = some s from hs]
    rfl
  rw [dismiss_schedule hs, Schedule.session?_endRun, Schedule.command_of_some hs,
    Schedule.session?_putSession]
  by_cases same : key = e.key
  · rw [if_pos same, if_pos ⟨same, there⟩]
  · rw [if_neg same, if_neg fun both => same both.1]

theorem Covered.entries_dismiss_cons {kept : List Entry} (h : v.Covered)
    (entries : v.entries = e :: kept) : (v.dismiss e).entries = kept := by
  have he : e ∈ v.entries := by
    rw [entries]
    exact List.mem_cons_self
  have numbers := h.schedule.numbers
  rw [h.entries_dismiss he]
  rw [entries, List.map_cons] at *
  have other := (List.nodup_cons.mp numbers).1
  rw [List.filter_cons_of_neg (by simp)]
  refine List.filter_eq_self.mpr fun e' he' => ?_
  have distinct : e'.number ≠ e.number := fun same => other (same ▸ List.mem_map_of_mem he')
  simpa using distinct

theorem Sound.dismiss (h : v.Sound) (he : e ∈ v.entries) : (v.dismiss e).Sound := by
  obtain ⟨s, hs⟩ := h.covered.there he
  have proper := h.covered.schedule.guarded.orderly.proper hs
  refine ⟨h.covered.dismiss he, ?_, ?_⟩
  · intro key t ht
    rw [session?_dismiss hs] at ht
    split at ht
    · cases ht
      exact (h.attended.watchful hs).follow (Session.control_follows proper.hooks .close)
    · exact h.attended.watchful ht
  · intro e' he' t ht
    rw [h.covered.entries_dismiss he] at he'
    obtain ⟨old, other⟩ := List.mem_filter.mp he'
    have distinct : e'.key ≠ e.key := by
      intro same
      obtain rfl := h.covered.schedule.entry_eq_of_key he old same
      simp at other
    rw [session?_dismiss hs, if_neg distinct] at ht
    exact h.attended.attached e' old ht

/-- Who leaves is left as close has left it. -/
theorem departed_dismiss (hs : v.session? e = some s) :
    (v.dismiss e).schedule.Departed e.key (s.control .close).2 :=
  ⟨_, by rw [session?_dismiss hs, if_pos rfl], .refl _⟩

/-- Who has left is not touched when another one leaves. -/
theorem Covered.departed_dismiss_other (h : v.Covered) (he : e ∈ v.entries) (other : e.key ≠ key)
    (left : v.schedule.Departed key t) : (v.dismiss e).schedule.Departed key t := by
  obtain ⟨s, hs⟩ := h.there he
  rw [dismiss_schedule hs]
  exact (left.command other .close).of_sessions (sessions_endRun ..)

/-- Some entries leave, one after the other, and the rest stays. -/
structure Parted (v : Service) (gone kept : List Entry) (w : Service) : Prop where
  sound : w.Sound
  entries : w.entries = kept
  issued : w.issued = v.issued
  capacity : w.capacity = v.capacity
  closed : ∀ e ∈ gone, ∀ s, v.session? e = some s →
    w.schedule.Departed e.key (s.control .close).2
  lasting : ∀ key t, (∀ e ∈ v.entries, e.key ≠ key) → v.schedule.Departed key t →
    w.schedule.Departed key t
  unmoved : ∀ e ∈ kept, w.session? e = v.session? e

theorem Sound.parted {gone kept : List Entry} (h : v.Sound) (entries : v.entries = gone ++ kept) :
    v.Parted gone kept (gone.foldl Service.dismiss v) := by
  induction gone generalizing v with
  | nil =>
      exact ⟨h, entries, rfl, rfl, by simp, fun _ _ _ left => left, fun _ _ => rfl⟩
  | cons e gone ih =>
      have he : e ∈ v.entries := by
        rw [entries]
        exact List.mem_cons_self
      obtain ⟨s, hs⟩ := h.covered.there he
      have after := h.dismiss he
      have rest : (v.dismiss e).entries = gone ++ kept := h.covered.entries_dismiss_cons entries
      have out : ∀ e' ∈ (v.dismiss e).entries, e'.key ≠ e.key := by
        have keys := h.covered.schedule.keys
        rw [entries, List.cons_append, List.map_cons] at keys
        rw [rest]
        intro e' he' same
        exact (List.nodup_cons.mp keys).1 (same ▸ List.mem_map_of_mem he')
      have session (e' : Entry) (he' : e' ∈ gone ++ kept) :
          (v.dismiss e).session? e' = v.session? e' := by
        rw [← rest] at he'
        exact (session?_dismiss hs e'.key).trans (if_neg (out e' he'))
      have ended := ih after rest
      refine ⟨ended.sound, ended.entries, ended.issued.trans (issued_dismiss v e),
        ended.capacity.trans (capacity_dismiss v e), ?_, ?_, ?_⟩
      · intro e' he' s' hs'
        rcases List.mem_cons.mp he' with rfl | later
        · obtain rfl : s = s' := Option.some.inj (hs.symm.trans hs')
          exact ended.lasting _ _ out (departed_dismiss hs)
        · refine ended.closed e' later s' ?_
          rwa [session e' (List.mem_append_left _ later)]
      · intro key t absent left
        refine ended.lasting key t ?_ (h.covered.departed_dismiss_other he (absent e he) left)
        intro e' he'
        refine absent e' ?_
        rw [rest] at he'
        rw [entries]
        exact List.mem_cons_of_mem e he'
      · intro e' he'
        exact (ended.unmoved e' he').trans (session e' (List.mem_append_right _ he'))

/-! ## The registry -/

/-- The registry of a service: in the order of the numbers, and not beyond its room. -/
structure Kept (v : Service) : Prop where
  sound : v.Sound
  ordered : (v.entries.map Entry.number).Pairwise (· < ·)
  room : v.entries.length ≤ v.capacity
  ample : 1 ≤ v.capacity

theorem kept_empty {capacity : Nat} (ample : 1 ≤ capacity) : Kept { capacity } where
  sound := ⟨covered_empty capacity, by simp [Schedule.session?], by simp⟩
  ordered := List.Pairwise.nil
  room := Nat.zero_le _
  ample := ample

theorem Sound.enter (h : v.Sound) {code : String} {wishes : Datum} {loaded : Bool}
    (opens : open? code wishes = .ok (loaded, s)) : (v.enter s).Sound := by
  obtain ⟨watchful, attached⟩ := open?_attended opens
  refine ⟨h.covered.enter opens, ?_, ?_⟩
  · exact (h.attended.add watchful fun _ _ _ => attached).watchful
  · intro e he t ht
    change (v.schedule.addSession s).1.session? e.key = some t at ht
    rw [Schedule.session?_addSession] at ht
    split at ht
    · cases ht
      exact attached
    · rename_i other
      rcases List.mem_append.mp he with old | new
      · exact h.attended.attached e old ht
      · exact absurd (congrArg Entry.key (List.mem_singleton.mp new)) other

/-- A session is taken in, and the oldest one leaves if there was no room. -/
theorem Kept.register (h : v.Kept) {code : String} {wishes : Datum} {loaded : Bool}
    (opens : open? code wishes = .ok (loaded, s)) :
    ∃ gone kept, v.entries = gone ++ kept ∧ gone.length = v.entries.length + 1 - v.capacity ∧
      (v.enter s).Parted gone (kept ++ [v.newEntry]) (v.register s).1 := by
  have room := h.room
  have ample := h.ample
  have here : (v.enter s).entries = v.entries ++ [v.newEntry] := rfl
  have full : (v.enter s).entries.length = v.entries.length + 1 := by
    rw [here, List.length_append, List.length_singleton]
  refine ⟨v.entries.take (v.entries.length + 1 - v.capacity),
    v.entries.drop (v.entries.length + 1 - v.capacity), (List.take_append_drop ..).symm, ?_, ?_⟩
  · rw [List.length_take]
    omega
  · have oldest : (v.enter s).entries.take ((v.enter s).entries.length - v.capacity) =
        v.entries.take (v.entries.length + 1 - v.capacity) := by
      rw [full, here, List.take_append_of_le_length (by omega)]
    rw [register_eq, oldest]
    refine (h.sound.enter opens).parted ?_
    rw [here, ← List.append_assoc, List.take_append_drop]

/-- The session of an entry leaves by a request: it is closed, and nobody is in its
place. -/
structure Leaves (v : Service) (e : Entry) (r : Request) (s : Session) : Prop where
  asked : r = .delete e.id ∨ ∃ code wishes, r = .create code wishes
  there : v.session? e = some s
  closed : (v.handle r).2.schedule.Departed e.key (s.control .close).2
  out : ∀ e' ∈ (v.handle r).2.entries, e'.number ≠ e.number ∧ e'.key ≠ e.key

/-- How the registry comes from that of before. -/
structure Turnover (v w : Service) : Prop where
  issued : v.issued ≤ w.issued
  capacity : w.capacity = v.capacity
  /-- Who is new has a new number and a new session. -/
  origin : ∀ e ∈ w.entries,
    e ∈ v.entries ∨ v.issued < e.number ∧ v.schedule.sessions.length ≤ e.key
  fate : ∀ e ∈ v.entries, e ∈ w.entries ∨ ∃ r s, w = (v.handle r).2 ∧ v.Leaves e r s
  lasting : ∀ {key t}, t.Spent → (∀ e ∈ v.entries, e.key ≠ key) → v.schedule.Departed key t →
    w.schedule.Departed key t

theorem Seated.turnover (h : v.Seated w)
    (lasting : ∀ {key t}, t.Spent → (∀ e ∈ v.entries, e.key ≠ key) → v.schedule.Departed key t →
      w.schedule.Departed key t) : v.Turnover w where
  issued := Nat.le_of_eq h.issued.symm
  capacity := h.capacity
  origin _ he := .inl (h.entries ▸ he)
  fate _ he := .inl (h.entries ▸ he)
  lasting := lasting

theorem Kept.seated (h : v.Kept) (seated : v.Seated w) (sound : w.Sound) : w.Kept where
  sound := sound
  ordered := by
    rw [seated.entries]
    exact h.ordered
  room := by
    rw [seated.entries, seated.capacity]
    exact h.room
  ample := by
    rw [seated.capacity]
    exact h.ample

/-- Nobody comes or leaves. -/
theorem Kept.moves (h : v.Kept) (moves : ReflTransGen Move v w) : w.Kept ∧ v.Turnover w := by
  have moved : w.Sound ∧ v.Seated w ∧ ∀ {key t}, t.Spent → (∀ e ∈ v.entries, e.key ≠ key) →
      v.schedule.Departed key t → w.schedule.Departed key t := by
    induction moves with
    | refl => exact ⟨h.sound, .refl v, fun _ _ left => left⟩
    | tail _ m ih =>
        obtain ⟨sound, seated, lasting⟩ := ih
        refine ⟨m.sound sound, seated.trans (m.seated sound.covered), ?_⟩
        intro key t spent out left
        refine m.departed sound.covered spent ?_ (lasting spent out left)
        rw [seated.entries]
        exact out
  obtain ⟨sound, seated, lasting⟩ := moved
  exact ⟨h.seated seated sound, seated.turnover lasting⟩

/-- A session is deleted. -/
theorem Kept.delete (h : v.Kept) (he : e ∈ v.entries)
    (eq : (v.handle (.delete e.id)).2 = v.dismiss e) :
    (v.dismiss e).Kept ∧ v.Turnover (v.dismiss e) := by
  have entries := h.sound.covered.entries_dismiss he
  obtain ⟨s, hs⟩ := h.sound.covered.there he
  refine ⟨⟨h.sound.dismiss he, ?_, ?_, ?_⟩, ?_, capacity_dismiss v e, ?_, ?_, ?_⟩
  · rw [entries]
    exact h.ordered.sublist (List.filter_sublist.map _)
  · rw [entries, capacity_dismiss]
    exact Nat.le_trans (List.length_filter_le ..) h.room
  · rw [capacity_dismiss]
    exact h.ample
  · rw [issued_dismiss]
  · intro e' he'
    rw [entries] at he'
    exact .inl (List.mem_of_mem_filter he')
  · intro e' he'
    by_cases same : e'.number = e.number
    · obtain rfl := h.sound.covered.schedule.entry_eq_of_number he he' same
      refine .inr ⟨.delete e'.id, s, eq.symm, .inl rfl, hs, ?_, ?_⟩
      · rw [eq]
        exact departed_dismiss hs
      · intro x hx
        rw [eq, entries] at hx
        obtain ⟨old, other⟩ := List.mem_filter.mp hx
        have distinct : x.number ≠ e'.number := by simpa using other
        refine ⟨distinct, fun key => distinct ?_⟩
        rw [h.sound.covered.schedule.entry_eq_of_key he old key]
    · refine .inl ?_
      rw [entries]
      exact List.mem_filter.mpr ⟨he', by simpa using same⟩
  · intro key t _ out left
    exact h.sound.covered.departed_dismiss_other he (out e he) left

/-- Who leaves differs from all that stay, since no number and no session is there
twice. -/
theorem Parted.distinct {gone kept : List Entry} (h : v.Parted gone kept w) (covered : v.Covered)
    (entries : v.entries = gone ++ kept) {e e' : Entry} (leaves : e ∈ gone) (he' : e' ∈ w.entries) :
    e'.number ≠ e.number ∧ e'.key ≠ e.key := by
  have numbers := covered.schedule.numbers
  have keys := covered.schedule.keys
  rw [entries, List.map_append] at numbers keys
  rw [h.entries] at he'
  constructor
  · intro same
    exact List.disjoint_of_nodup_append numbers (List.mem_map_of_mem leaves)
      (same ▸ List.mem_map_of_mem he')
  · intro same
    exact List.disjoint_of_nodup_append keys (List.mem_map_of_mem leaves)
      (same ▸ List.mem_map_of_mem he')

/-- The registry stays in order and has room when a session is taken in. -/
theorem Kept.register_kept {gone kept : List Entry} (h : v.Kept)
    (before : v.entries = gone ++ kept)
    (length : gone.length = v.entries.length + 1 - v.capacity)
    (parted : (v.enter s).Parted gone (kept ++ [v.newEntry]) (v.register s).1) :
    (v.register s).1.Kept := by
  have room := h.room
  have ample := h.ample
  have capacity : (v.register s).1.capacity = v.capacity := parted.capacity
  have counted : v.entries.length = gone.length + kept.length := by
    rw [before, List.length_append]
  have older {e : Entry} (he : e ∈ kept) : e.number ≤ v.issued :=
    h.sound.covered.issued e (by rw [before]; exact List.mem_append_right _ he)
  refine ⟨parted.sound, ?_, ?_, ?_⟩
  · rw [parted.entries, List.map_append, List.map_singleton]
    refine List.pairwise_append.mpr ⟨?_, List.pairwise_singleton .., ?_⟩
    · refine h.ordered.sublist (List.Sublist.map _ ?_)
      rw [before]
      exact List.sublist_append_right ..
    · intro n hn m hm
      obtain ⟨e, he, rfl⟩ := List.mem_map.mp hn
      rw [List.mem_singleton.mp hm]
      exact Nat.lt_succ_of_le (older he)
  · rw [parted.entries, capacity, List.length_append, List.length_singleton]
    omega
  · rw [capacity]
    exact ample

/-- A session is created. -/
theorem Kept.create (h : v.Kept) {code : String} {wishes : Datum} {loaded : Bool}
    (opens : open? code wishes = .ok (loaded, s))
    (eq : (v.handle (.create code wishes)).2 = (v.register s).1) :
    (v.register s).1.Kept ∧ v.Turnover (v.register s).1 := by
  obtain ⟨gone, kept, before, length, parted⟩ := h.register opens
  have issued : (v.register s).1.issued = v.issued + 1 := parted.issued
  have entered : (v.enter s).entries = gone ++ (kept ++ [v.newEntry]) := by
    rw [show (v.enter s).entries = v.entries ++ [v.newEntry] from rfl, before, List.append_assoc]
  have there {e : Entry} (he : e ∈ v.entries) : ∃ t, v.session? e = some t ∧
      (v.enter s).session? e = some t := by
    obtain ⟨t, ht⟩ := h.sound.covered.there he
    have old := (List.getElem?_eq_some_iff.mp ht).1
    refine ⟨t, ht, (Schedule.session?_addSession v.schedule s e.key).trans ?_⟩
    rw [if_neg (Nat.ne_of_lt old)]
    exact ht
  refine ⟨h.register_kept before length parted, ?_, parted.capacity, ?_, ?_, ?_⟩
  · omega
  · intro e' he'
    rw [parted.entries] at he'
    rcases List.mem_append.mp he' with old | new
    · refine .inl ?_
      rw [before]
      exact List.mem_append_right _ old
    · rw [List.mem_singleton.mp new]
      exact .inr ⟨Nat.lt_succ_self _, Nat.le_refl _⟩
  · intro e he
    have side := he
    rw [before] at side
    rcases List.mem_append.mp side with leaves | stays
    · obtain ⟨t, ht, same⟩ := there he
      refine .inr ⟨.create code wishes, t, eq.symm, .inr ⟨code, wishes, rfl⟩, ht, ?_, ?_⟩
      · rw [eq]
        exact parted.closed e leaves t same
      · rw [eq]
        intro e' he'
        exact parted.distinct (h.sound.enter opens).covered entered leaves he'
    · refine .inl ?_
      rw [parted.entries]
      exact List.mem_append_left _ stays
  · intro key t _ out left
    refine parted.lasting key t ?_ (left.add s)
    intro e he
    rcases List.mem_append.mp he with old | new
    · exact out e old
    · rw [List.mem_singleton.mp new]
      exact Nat.ne_of_gt left.lt_length

/-- The registry is kept by every request and every turn. -/
theorem Kept.step (h : v.Kept) (step : v.Step w) : w.Kept ∧ v.Turnover w := by
  cases step with
  | request r =>
      rcases handle_cases h.sound.covered r with moves |
        ⟨code, wishes, loaded, s, rfl, opens, eq⟩ | ⟨e, he, rfl, eq⟩
      · exact h.moves moves
      · have created := h.create opens eq
        rwa [← eq] at created
      · have deleted := h.delete he eq
        rwa [← eq] at deleted
  | turn =>
      refine h.moves (.single (.turns fun P lasts here => ?_))
      split
      · exact lasts.beginRound here
      · exact lasts.perform _ (lasts.withReady _ here)

/-! ## Histories of the registry -/

/-- The session of an entry of `v` has left on the way to `w`: by a request, when it was
`s`. -/
def Left (v : Service) (e : Entry) (s : Session) (w : Service) : Prop :=
  ∃ u r, ReflTransGen Step v u ∧ e ∈ u.entries ∧ u.Leaves e r s ∧
    ReflTransGen Step (u.handle r).2 w

theorem Kept.history (h : v.Kept) (history : ReflTransGen Step v w) :
    w.Kept ∧ w.capacity = v.capacity ∧ v.issued ≤ w.issued ∧
      (∀ e ∈ w.entries, e ∈ v.entries ∨ v.issued < e.number) ∧
      ∀ e ∈ v.entries, e ∈ w.entries ∨
        ∃ s, v.Left e s w ∧ s.Proper ∧ s.Watchful ∧ s.attached = true ∧
          w.schedule.Departed e.key (s.control .close).2 ∧ ∀ e' ∈ w.entries, e'.key ≠ e.key := by
  induction history with
  | refl => exact ⟨h, rfl, Nat.le_refl _, fun _ he => .inl he, fun _ he => .inl he⟩
  | @tail u w before step ih =>
      obtain ⟨kept, capacity, issued, origin, fate⟩ := ih
      obtain ⟨kept', turnover⟩ := kept.step step
      refine ⟨kept', turnover.capacity.trans capacity, Nat.le_trans issued turnover.issued, ?_, ?_⟩
      · intro e he
        rcases turnover.origin e he with old | ⟨new, -⟩
        · exact origin e old
        · exact .inr (Nat.lt_of_le_of_lt issued new)
      · intro e he
        rcases fate e he with there | ⟨s, left, proper, watchful, attached, closed, out⟩
        -- It is there before the last step, or it has left, and stays as it was closed.
        · rcases turnover.fate e there with stays | ⟨r, s, rfl, leaves⟩
          · exact .inl stays
          · refine .inr ⟨s, ⟨u, r, before, there, leaves, .refl⟩, ?_, ?_, ?_, leaves.closed, ?_⟩
            · exact kept.sound.covered.schedule.guarded.orderly.proper leaves.there
            · exact kept.sound.attended.watchful leaves.there
            · exact kept.sound.attended.attached e there leaves.there
            · exact fun e' he' => (leaves.out e' he').2
        · refine .inr ⟨s, ?_, proper, watchful, attached, ?_, ?_⟩
          · obtain ⟨x, r, first, there, leaves, rest⟩ := left
            exact ⟨x, r, first, there, leaves, rest.tail step⟩
          · exact turnover.lasting (Session.control_close_spent proper) out closed
          · intro e' he'
            rcases turnover.origin e' he' with old | ⟨-, new⟩
            · exact out e' old
            · exact Nat.ne_of_gt (Nat.lt_of_lt_of_le closed.lt_length new)

/-- The number of sessions that is asked for: the integer that is named, or else
thirty-two. -/
def limitOf (wish : Option String) : Int :=
  match wish.map Text.readInt with
  | some (.ok n) => n
  | _ => 32

theorem capacityFrom_eq (wish : Option String) :
    (capacityFrom wish : Int) = max 1 (limitOf wish) := by
  unfold capacityFrom limitOf
  rcases wish.map Text.readInt with - | fault | n
  · rfl
  · rfl
  · show ((max 1 n).toNat : Int) = max 1 n
    omega

/-- No entry goes by the identity. -/
theorem find?_none {id : String} (h : v.find? id = none) : ∀ e ∈ v.entries, e.id ≠ id := by
  intro e he same
  simpa [same] using List.find?_eq_none.mp h e he

theorem closed_attached (h : s.Proper) (pruned : (s.control .close).2.Pruned t) :
    t.attached = false := by
  obtain ⟨queue, -, rfl⟩ := pruned
  rw [Session.control_close h]

/-- What a session is left with that was closed. -/
theorem closed_timers (h : s.Proper) (watchful : s.Watchful)
    (pruned : (s.control .close).2.Pruned t) :
    (∀ serial ∈ s.store.timers, t.clock.isCancelled serial = true) ∧ t.store.timers = [] ∧
      ∀ timer ∈ t.clock.queue, t.clock.isCancelled timer.serial = true := by
  obtain ⟨tracked, none⟩ := Session.isCancelled_close h
  have waiting := Session.isCancelled_of_close h watchful
  obtain ⟨queue, sub, rfl⟩ := pruned
  exact ⟨tracked, none, fun timer queued => waiting timer (sub.subset queued)⟩

/-- Whoever is created is registered and answered its identity, and the oldest ones leave
that there is no room for. -/
theorem Kept.created (h : v.Kept) {code : String} {wishes : Datum} {loaded : Bool}
    (opens : open? code wishes = .ok (loaded, s)) :
    ∃ gone kept fields, v.entries = gone ++ kept ∧
      gone.length = v.entries.length + 1 - v.capacity ∧
      (v.handle (.create code wishes)).2.entries = kept ++ [v.newEntry] ∧
      (v.handle (.create code wishes)).2.session? v.newEntry = some s ∧
      (v.handle (.create code wishes)).1 =
        .ok (.object (("session_id", .text v.newEntry.id) :: fields)) := by
  obtain ⟨gone, kept, before, length, parted⟩ := h.register opens
  have answer : v.handle (.create code wishes) =
      (.ok (.object (("session_id", .text v.newEntry.id) :: (s.programFields ++
        [("state", s.store.state.toDatum), ("errors", s.firstError)]))),
        (v.register s).1) := by
    rw [handle, Service.create, opens]
    rfl
  rw [answer]
  refine ⟨gone, kept, _, before, length, parted.entries, ?_, rfl⟩
  rw [parted.unmoved v.newEntry (List.mem_append_right _ (List.mem_singleton_self _))]
  exact (Schedule.session?_addSession ..).trans (if_pos rfl)

/-- An identity stays with its session. -/
theorem Kept.key_of_id (h : v.Kept) (later : ReflTransGen Step v w) {e e' : Entry}
    (he : e ∈ v.entries) (he' : e' ∈ w.entries) (same : e'.id = e.id) : e'.key = e.key := by
  obtain ⟨-, -, -, origin, -⟩ := h.history later
  have number := Entry.id_inj same
  rcases origin e' he' with old | new
  · rw [h.sound.covered.schedule.entry_eq_of_number he old number]
  · have := h.sound.covered.issued e he
    omega

/-- An identity that is gone is not given again. -/
theorem Kept.find?_later (h : w.Kept) (issued : e.number ≤ w.issued)
    (out : ∀ e' ∈ w.entries, e'.id ≠ e.id) {x : Service} (later : ReflTransGen Step w x) :
    x.find? e.id = none := by
  obtain ⟨-, -, -, origin, -⟩ := h.history later
  refine List.find?_eq_none.mpr fun e' he' => ?_
  intro named
  have same : e'.id = e.id := by simpa using named
  rcases origin e' he' with old | new
  · exact out e' old same
  · have := Entry.id_inj same
    omega

/-- The registry of a service with a given room, whatever requests have come, with turns
of the runs between any two of them.

It holds as many sessions as there is room for, at most, in the order of their numbers.
Runs are noted under identities of registered sessions only, each under that of its own
session, and no other run goes on.
Whoever is created is registered, and the oldest one leaves if there was no room.
An identity stays with its session, and is gone with it.  Who has left was closed in
doing so and not before, and has not been touched since: its timers are cancelled, and
its runs are over. -/
theorem registry_kept (wish : Option String) (v : Service)
    (history : ReflTransGen Step { capacity := capacityFrom wish } v) :
    (v.entries.length : Int) ≤ max 1 (limitOf wish) ∧
    v.entries.Pairwise (fun e e' => e.number < e'.number) ∧
    (∀ id ∈ v.tasks.ids, ∃ e ∈ v.entries, e.id = id) ∧
    (∀ e ∈ v.entries, ∀ id ∈ v.tasks.get? e.id,
      ∃ r, v.schedule.run? id = some r ∧ r.owner = e.key) ∧
    (∀ id r, v.schedule.run? id = some r → r.state.isFinished = false →
      ∃ e ∈ v.entries, e.key = r.owner ∧ v.tasks.get? e.id = some id) ∧
    (∀ code wishes loaded s, open? code wishes = .ok (loaded, s) →
      ∃ gone kept fields, v.entries = gone ++ kept ∧ gone.length ≤ 1 ∧
        (gone ≠ [] → (v.entries.length : Int) = max 1 (limitOf wish)) ∧
        (v.handle (.create code wishes)).2.entries = kept ++ [v.newEntry] ∧
        (v.handle (.create code wishes)).2.session? v.newEntry = some s ∧
        (v.handle (.create code wishes)).1 =
          .ok (.object (("session_id", .text v.newEntry.id) :: fields))) ∧
    ∀ w, ReflTransGen Step v w →
      (∀ e ∈ v.entries, ∀ e' ∈ w.entries, e'.id = e.id → e'.key = e.key) ∧
      ∀ e ∈ v.entries, w.find? e.id = none →
        (∀ x, ReflTransGen Step w x → x.find? e.id = none) ∧
        ∃ s t, v.Left e s w ∧ s.attached = true ∧
          w.schedule.session? e.key = some t ∧ (s.control .close).2.Pruned t ∧
          t.attached = false ∧
          (∀ serial ∈ s.store.timers, t.clock.isCancelled serial = true) ∧ t.store.timers = [] ∧
          (∀ timer ∈ t.clock.queue, t.clock.isCancelled timer.serial = true) ∧
          ∀ id r, w.schedule.run? id = some r → r.owner = e.key → r.state.isFinished = true := by
  have ample : 1 ≤ capacityFrom wish := by
    have := capacityFrom_eq wish
    omega
  obtain ⟨kept, capacity, -, -, -⟩ := (kept_empty ample).history history
  have limit : (v.capacity : Int) = max 1 (limitOf wish) := by
    rw [capacity]
    exact capacityFrom_eq wish
  have schedule := kept.sound.covered.schedule
  have room := kept.room
  refine ⟨by omega, List.pairwise_map.mp kept.ordered, schedule.known, schedule.owned,
    fun id r hr on => schedule.noted hr on, ?_, fun w later => ⟨?_, ?_⟩⟩
  · intro code wishes loaded s opens
    obtain ⟨gone, rest, fields, before, length, registered⟩ := kept.created opens
    refine ⟨gone, rest, fields, before, by omega, fun someone => ?_, registered⟩
    have := List.length_pos_of_ne_nil someone
    omega
  · exact fun e he e' he' same => kept.key_of_id later he he' same
  · intro e he absent
    have out := find?_none absent
    obtain ⟨keptThen, -, issued, -, fate⟩ := kept.history later
    have number := Nat.le_trans (kept.sound.covered.issued e he) issued
    refine ⟨fun x after => keptThen.find?_later number out after, ?_⟩
    rcases fate e he with stays | ⟨s, left, proper, watchful, attached, ⟨t, ht, pruned⟩, gone⟩
    · exact absurd rfl (out e stays)
    · obtain ⟨tracked, none, waiting⟩ := closed_timers proper watchful pruned
      exact ⟨s, t, left, attached, ht, pruned, closed_attached proper pruned, tracked, none,
        waiting, fun id r hr owner =>
          keptThen.sound.covered.schedule.over_of_absent gone hr owner⟩

/-- A service with room for one session, whose run was asked for without waiting for it and
has set a timer. -/
def crowded : Service :=
  let wishes : Datum := .object [("realtime", .bool true), ("speed_ms", .int 0)]
  let empty : Service := { capacity := capacityFrom (some "1") }
  let created := (empty.handle (.create "setTimeout(() => {}, 50);\nlet x = 1;" wishes)).2
  (created.handle (.deed "s1" (.run false))).2.turn.turn

/-- A second session drives the first one out, and ends its run, which is forgotten. -/
theorem crowded_registry_kept :
    let next := (crowded.handle (.create "let y = 2;" (.object []))).2
    (crowded.schedule.run? 0).any (!·.state.isFinished) = true ∧
      (crowded.schedule.session? 0).any (!·.store.timers.isEmpty) = true ∧
      crowded.tasks.get? "s1" = some 0 ∧ "s1" ∉ next.tasks.ids ∧
      next.find? "s1" = none ∧ (next.find? "s2").isSome = true ∧
      ∃ s t, crowded.Left { number := 1, key := 0 } s next ∧
        next.schedule.session? 0 = some t ∧ (s.control .close).2.Pruned t ∧
        t.clock.queue.all (fun timer => t.clock.isCancelled timer.serial) = true ∧
        (next.schedule.run? 0).all (·.state.isFinished) = true := by
  have history : ReflTransGen Step { capacity := capacityFrom (some "1") } crowded :=
    (((ReflTransGen.refl.tail (.request _)).tail (.request _)).tail .turn).tail .turn
  have here : crowded.entries = [{ number := 1, key := 0 }] := by decide +kernel
  have gone : (crowded.handle (.create "let y = 2;" (.object []))).2.find? "s1" = none := by
    decide +kernel
  have forgotten : "s1" ∉ (crowded.handle (.create "let y = 2;" (.object []))).2.tasks.ids := by
    intro noted
    obtain ⟨-, -, known, -⟩ := registry_kept (some "1") _
      (history.tail (.request (.create "let y = 2;" (.object []))))
    obtain ⟨e, he, named⟩ := known "s1" noted
    exact find?_none gone e he named
  refine ⟨by decide +kernel, by decide +kernel, by decide +kernel, forgotten, gone,
    by decide +kernel, ?_⟩
  obtain ⟨-, -, -, -, -, -, later⟩ := registry_kept (some "1") crowded history
  obtain ⟨-, leave⟩ := later _ (.single (.request (.create "let y = 2;" (.object []))))
  obtain ⟨-, s, t, left, -, ht, pruned, -, -, -, waiting, isOver⟩ :=
    leave { number := 1, key := 0 } (here ▸ List.mem_singleton_self _) gone
  refine ⟨s, t, left, ht, pruned, List.all_eq_true.mpr waiting, ?_⟩
  have owner : ((crowded.handle (.create "let y = 2;" (.object []))).2.schedule.run? 0).all
      (fun r => decide (r.owner = 0)) = true := by decide +kernel
  cases hr : (crowded.handle (.create "let y = 2;" (.object []))).2.schedule.run? 0 with
  | none => rfl
  | some r =>
      rw [hr] at owner
      exact isOver 0 r hr (by simpa using owner)

end Service

end Runloop
