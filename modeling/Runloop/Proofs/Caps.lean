/-
# What a caller may ask the service for

A caller's settings are brought within fixed bounds before a session is created
(`Settings.safe_of_capped`), and nothing that the service does with a session
afterwards changes its limits.  So every program that the service runs, at once
or under an identity, obeys the same limits, whatever its caller asked for.

The service may run a program in the turns of the caller (`runInTurn`), without
a run that is on the schedule.  What is kept through these turns is `Guarded`:
nobody else has a run of that session.
-/
import Runloop.Service
import Runloop.Proofs.Interleaving
import Runloop.Proofs.Limits

namespace Runloop

/-- The limits of a run are no looser than the service's own. -/
structure Limits.Safe (l : Limits) : Prop where
  callDepth : 1 ≤ l.callDepth ∧ l.callDepth ≤ 64
  steps : 1 ≤ l.steps ∧ l.steps ≤ 10000

/-- The values of a caller's settings stand for integers. -/
def Datum.IsSettings (wishes : Datum) : Prop :=
  ∀ key ∈ ["speed_ms", "max_steps", "max_call_depth"], ∀ wish ∈ wishes.field? key,
    ∃ n, wish.toInt = .ok n

/-- A program kept to limits ever since it was loaded: in what it counted, in the
handlers that were entered, in the calls that are open, and in those that were
open when the stack was told of. -/
structure Session.Obeys (s : Session) (limits : Limits) : Prop where
  count : (s.store.state.currentStep : Int) ≤ limits.steps + 1
  entered : ∀ n, Entered n s → (n : Int) ≤ limits.steps
  calls : (s.calls.length : Int) ≤ limits.callDepth
  told : ∀ e ∈ s.trace, ∀ stack ∈ e.stack?, (stack.length : Int) ≤ limits.callDepth + 1

/-! ## Settings -/

namespace Settings

variable {wishes : Datum} {settings : Settings}

theorem bounded_le {key : String} {default low high n : Int} (ordered : low ≤ high)
    (h : bounded wishes key default low high = .ok n) : low ≤ n ∧ n ≤ high := by
  unfold bounded at h
  cases hw : ((wishes.field? key).getD (.int default)).toInt with
  | error fault =>
      rw [hw] at h
      cases h
  | ok wish =>
      rw [hw] at h
      cases h
      omega

theorem bounded_ok {key : String} {default low high : Int}
    (h : ∀ wish ∈ wishes.field? key, ∃ n, wish.toInt = .ok n) :
    ∃ n, bounded wishes key default low high = .ok n := by
  have converts : ∃ n, ((wishes.field? key).getD (.int default)).toInt = .ok n := by
    cases hw : wishes.field? key with
    | none => exact ⟨default, rfl⟩
    | some wish => exact h wish hw
  obtain ⟨n, hn⟩ := converts
  refine ⟨min (max low n) high, ?_⟩
  unfold bounded
  rw [hn]
  rfl

/-- Settings that a caller gets are safe, and the delay is not too long. -/
theorem safe_of_capped (h : capped wishes = .ok settings) :
    settings.limits.Safe ∧ 0 ≤ settings.speed ∧ settings.speed ≤ 5000 := by
  unfold capped at h
  dsimp only at h
  split at h
  · cases h
    exact ⟨⟨by decide, by decide⟩, by decide, by decide⟩
  · cases speed : bounded wishes "speed_ms" 1000 0 maxSpeed with
    | error fault => simp [speed, bind, Except.bind] at h
    | ok n =>
        cases steps : bounded wishes "max_steps" 10000 1 10000 with
        | error fault => simp [speed, steps, bind, Except.bind] at h
        | ok m =>
            cases depth : bounded wishes "max_call_depth" 64 1 64 with
            | error fault => simp [speed, steps, depth, bind, Except.bind] at h
            | ok d =>
                simp only [speed, steps, depth, bind, Except.bind, pure, Except.pure,
                  Except.ok.injEq] at h
                subst h
                exact ⟨⟨bounded_le (by decide) depth, bounded_le (by decide) steps⟩,
                  bounded_le (by decide) speed⟩

/-- Settings that stand for integers are never refused. -/
theorem capped_ok (h : wishes.IsSettings) : ∃ settings, capped wishes = .ok settings := by
  unfold capped
  dsimp only
  split
  · exact ⟨_, rfl⟩
  · obtain ⟨n, speed⟩ : ∃ n, bounded wishes "speed_ms" 1000 0 maxSpeed = .ok n :=
      bounded_ok (h "speed_ms" (by simp))
    obtain ⟨m, steps⟩ : ∃ n, bounded wishes "max_steps" 10000 1 10000 = .ok n :=
      bounded_ok (h "max_steps" (by simp))
    obtain ⟨d, depth⟩ : ∃ n, bounded wishes "max_call_depth" 64 1 64 = .ok n :=
      bounded_ok (h "max_call_depth" (by simp))
    simp only [speed, steps, depth, bind, Except.bind, pure, Except.pure]
    exact ⟨_, rfl⟩

end Settings

/-! ## Sessions -/

namespace Session

variable {s : Session}

theorem Obeys.mono {tight loose : Limits} (h : s.Obeys tight) (steps : tight.steps ≤ loose.steps)
    (callDepth : tight.callDepth ≤ loose.callDepth) : s.Obeys loose where
  count := Int.le_trans h.count (Int.add_le_add_right steps 1)
  entered n entered := Int.le_trans (h.entered n entered) steps
  calls := Int.le_trans h.calls callDepth
  told e he stack hs := Int.le_trans (h.told e he stack hs) (Int.add_le_add_right callDepth 1)

/-- A program obeys its own limits. -/
theorem Live.obeys (h : s.Live) (steps : 1 ≤ s.machine.limits.steps)
    (callDepth : 1 ≤ s.machine.limits.callDepth) : s.Obeys s.machine.limits := by
  obtain ⟨why, reached⟩ := h
  have shallow := reached.shallow (by omega)
  exact ⟨(reached.counted (by omega)).1, fun n entered => (entered.le (by omega)).2,
    shallow.calls, shallow.told⟩

/-- A program with safe limits obeys those of the service. -/
theorem Live.obeys_default (h : s.Live) (safe : s.machine.limits.Safe) : s.Obeys {} :=
  (h.obeys safe.steps.1 safe.callDepth.1).mono safe.steps.2 safe.callDepth.2

theorem fed_speed (s : Session) (source : String) :
    (s.fed source).2.store.speed = s.store.speed := by
  rcases s.fed_cases source with ⟨-, eq⟩ | ⟨fault, -, eq⟩ | ⟨e, -, eq⟩ | ⟨t, -, eq⟩
  · rw [eq]
    exact congrArg Store.speed (publish_store ..)
  · rw [eq]
  · rw [eq]
    exact congrArg Store.speed (publish_store ..)
  · rw [eq]
    rfl

end Session

/-- What a caller gets that asks for a session. -/
structure Settings.Opened (settings : Settings) (loaded : Bool) (s : Session) : Prop where
  proper : s.Proper
  seat : s.seat.Orderly
  live : loaded = true → s.Live
  limits : s.machine.limits = settings.limits
  speed : s.store.speed = settings.speed

theorem Service.opened {code : String} {wishes : Datum} {loaded : Bool} {s : Session}
    (h : open? code wishes = .ok (loaded, s)) :
    ∃ settings, Settings.capped wishes = .ok settings ∧ settings.Opened loaded s := by
  unfold open? at h
  cases capped : Settings.capped wishes with
  | error fault =>
      rw [capped] at h
      cases h
  | ok settings =>
      rw [capped] at h
      refine ⟨settings, rfl, ?_⟩
      have vacant : settings.session.Vacant := Session.create_vacant ..
      have run := Act.run_load vacant.current code
      dsimp only at h
      rw [Session.run_eq vacant.hooks, run] at h
      have proper := Session.Proper.fed vacant.hooks run
      have turns := settings.session.blank_fed_turns code
      have speed := settings.session.blank.fed_speed code
      rcases fed : settings.session.blank.fed code with ⟨fault | ok, t⟩
      · rw [fed] at h
        cases h
      · rw [fed] at h run proper turns speed
        cases h
        refine ⟨proper, ?_, ?_, turns.limits, speed⟩
        · rw [← turns.seat]
          exact Seat.orderly_of_inactive rfl fun closed => by cases closed
        · rintro rfl
          exact ⟨none, Act.load_reached vacant.hooks run⟩

/-! ## Turns -/

theorem descend_induct {α σ : Type} {rank : σ → Rank} {giveUp : α} {turn : σ → Turn α σ}
    {I : σ → Prop} (stop : ∀ s a t, I s → turn s = .stop a t → I t)
    (again : ∀ s t, I s → turn s = .again t → I t) {s : σ} (h : I s) :
    I (descend rank giveUp turn s).2 := by
  fun_induction descend rank giveUp turn s with
  | case1 s a t ht => exact stop s a t h ht
  | case2 s t ht _ ih => exact ih (again s t h ht)
  | case3 s t ht _ => exact again s t h ht

namespace Schedule

/-- What every job and every new round keeps. -/
structure Lasting (P : Schedule → Prop) : Prop where
  withReady : ∀ {q : Schedule} (ready : List Job), P q → P (q.withReady ready)
  perform : ∀ {q : Schedule} (job : Job), P q → P (q.perform job)
  beginRound : ∀ {q : Schedule}, P q → P q.beginRound

namespace Lasting

variable {P : Schedule → Prop} {q : Schedule} (lasts : Lasting P)

include lasts

theorem jobs (jobs : List Job) (h : P q) : P (jobs.foldl Schedule.perform q) := by
  induction jobs generalizing q with
  | nil => exact h
  | cons job jobs ih => exact ih (lasts.perform job h)

theorem performFirst (n : Nat) (h : P q) : P (q.performFirst n) :=
  lasts.jobs _ (lasts.withReady _ h)

theorem tick (h : P q) : P q.tick :=
  lasts.performFirst _ (lasts.beginRound (lasts.jobs _ (lasts.withReady [] h)))

theorem ticks (n : Nat) (h : P q) : P (q.ticks n) := by
  induction n generalizing q with
  | zero => exact h
  | succ n ih => exact ih (lasts.tick h)

theorem performUntil (id : Nat) (jobs : List Job) (h : P q) :
    P (Schedule.performUntil id jobs q).2 := by
  induction jobs generalizing q with
  | nil => exact h
  | cons job rest ih =>
      unfold Schedule.performUntil
      dsimp only
      split
      · exact lasts.jobs rest (lasts.perform job h)
      · exact ih (lasts.perform job h)

/-- The jobs of a round are done. -/
theorem round (id : Nat) (h : P q) :
    P (Schedule.performUntil id q.ready { q with ready := [] }).2 :=
  lasts.performUntil id q.ready (lasts.withReady [] h)

theorem roundsUntil (id : Nat) (h : P q) : P (q.roundsUntil id) := by
  unfold Schedule.roundsUntil
  refine descend_induct ?_ ?_ h
  · intro q _ t h ht
    have done := lasts.round id h
    split at ht <;> rename_i ran
    · rw [ran] at done
      cases ht
      exact lasts.performFirst _ (lasts.beginRound done)
    · cases ht
  · intro q t h ht
    have done := lasts.round id h
    split at ht <;> rename_i ran
    · cases ht
    · rw [ran] at done
      cases ht
      exact lasts.beginRound done

theorem await (id : Nat) (h : P q) : P (q.await id) := by
  have done := lasts.round id h
  unfold Schedule.await
  split
  · exact h
  · split <;> rename_i ran <;> rw [ran] at done
    · exact lasts.performFirst _ (lasts.beginRound done)
    · exact lasts.roundsUntil id (lasts.beginRound done)

/-- A program is run in the turns of the caller, if its segments keep what lasts. -/
theorem runInTurn {key : Nat}
    (segment : ∀ {q : Schedule} {s : Session} (state : RunState), P q → q.session? key = some s →
      P (q.putSession key (s.segment state).2)) (h : P q) : P (q.runInTurn key).2 := by
  unfold Schedule.runInTurn
  refine descend_induct (I := fun p : RunState × Schedule => P p.2) ?_ ?_ h
  · intro p _ t h ht
    dsimp only at ht
    split at ht
    · cases ht
      exact h
    · rename_i s hs
      have ran := segment p.1 h hs
      split at ht
      · cases ht
        exact ran
      · cases ht
  · intro p t h ht
    dsimp only at ht
    split at ht
    · cases ht
    · rename_i s hs
      have ran := segment p.1 h hs
      split at ht
      · cases ht
      · cases ht
        exact lasts.tick ran

end Lasting

/-- What holds of the schedule of the service.  There may be a session that the
caller runs in its own turns; then it has a program, and nobody else runs it. -/
structure Guarded (own : Option Nat) (q : Schedule) : Prop where
  orderly : q.Orderly
  safe : ∀ {key s}, q.session? key = some s → s.machine.limits.Safe
  there : ∀ {key}, key ∈ own → (q.session? key).isSome = true
  live : ∀ {key s}, key ∈ own → q.session? key = some s → s.Live
  free : ∀ {id r}, q.run? id = some r → r.owner ∉ own

namespace Guarded

variable {q q' : Schedule} {own : Option Nat} {key id : Nat} {s t : Session} {r : Run}

/-- Sessions and runs are what they were, or have come from these. -/
theorem of_kin (h : q.Guarded own) (orderly : q'.Orderly)
    (there : ∀ {key}, (q.session? key).isSome = true → (q'.session? key).isSome = true)
    (sessions : ∀ {key t}, q'.session? key = some t → ∃ s, q.session? key = some s ∧
      t.machine.limits = s.machine.limits ∧ (key ∈ own → s.Live → t.Live))
    (runs : ∀ {id r}, q'.run? id = some r → ∃ r₀, q.run? id = some r₀ ∧ r.owner = r₀.owner) :
    q'.Guarded own := by
  refine ⟨orderly, ?_, fun owned => there (h.there owned), ?_, ?_⟩
  · intro key t ht
    obtain ⟨s, hs, limits, -⟩ := sessions ht
    rw [limits]
    exact h.safe hs
  · intro key t owned ht
    obtain ⟨s, hs, -, live⟩ := sessions ht
    exact live owned (h.live owned hs)
  · intro id r hr
    obtain ⟨r₀, hr₀, same⟩ := runs hr
    rw [same]
    exact h.free hr₀

/-- Putting a session back is harmless if it has come from the one that was there. -/
theorem put (h : q.Guarded own) (runs : ∀ {id r}, q'.run? id = some r →
      ∃ r₀, q.run? id = some r₀ ∧ r.owner = r₀.owner)
    (sessions : q'.sessions = q.sessions) (hs : q.session? key = some s)
    (limits : t.machine.limits = s.machine.limits) (live : key ∈ own → s.Live → t.Live)
    (orderly : (q'.putSession key t).Orderly) : (q'.putSession key t).Guarded own := by
  refine h.of_kin orderly ?_ ?_ ?_
  · intro k there
    refine isSome_putSession ?_
    rwa [session?, sessions]
  · intro k u hu
    rw [session?_putSession] at hu
    split at hu
    · rename_i here
      cases hu
      rw [here.1]
      exact ⟨s, hs, limits, here.1 ▸ live⟩
    · rw [session?, sessions] at hu
      exact ⟨u, hu, rfl, fun _ live => live⟩
  · intro i r hr
    rw [run?_putSession] at hr
    obtain ⟨r', hr', rfl⟩ := Option.map_eq_some_iff.mp hr
    obtain ⟨r₀, hr₀, same⟩ := runs hr'
    exact ⟨r₀, hr₀, by rw [Run.woken_owner, same]⟩

theorem owner_setRun (state : RunState) (hr : (q.setRun id state).run? key = some r) :
    ∃ r₀, q.run? key = some r₀ ∧ r.owner = r₀.owner := by
  rw [run?_setRun] at hr
  split at hr
  · rename_i here
    obtain ⟨r₀, hr₀, rfl⟩ := Option.map_eq_some_iff.mp hr
    exact ⟨r₀, here ▸ hr₀, rfl⟩
  · exact ⟨r, hr, rfl⟩

theorem segment (h : q.Guarded own) (hr : q.run? id = some r) (hs : q.session? r.owner = some s) :
    ((q.setRun id (s.segment r.state).1).putSession r.owner (s.segment r.state).2).Guarded own :=
  h.put (owner_setRun _) rfl hs (Session.segment_turns (h.orderly.proper hs).hooks r.state).limits
    (fun owned _ => absurd owned (h.free hr)) (h.orderly.segment hr hs)

theorem withReady (h : q.Guarded own) (ready : List Job) : (q.withReady ready).Guarded own :=
  ⟨⟨h.orderly.proper, h.orderly.seats, h.orderly.fits, h.orderly.alone⟩, h.safe, h.there,
    h.live, h.free⟩

theorem perform (h : q.Guarded own) (job : Job) : (q.perform job).Guarded own := by
  have orderly := h.orderly.perform job
  have performed := q.performed job
  generalize q.perform job = q' at performed orderly
  cases performed with
  | nothing => exact h
  | @gaveWay id generation r s hr hs sleeps =>
      have ran := h.segment hr hs
      rw [sleeps] at ran
      exact ⟨orderly, ran.safe, ran.there, ran.live, ran.free⟩
  | rests hr hs _ => exact h.segment hr hs
  | @fired key serial task s hs _ =>
      have hooks := (h.orderly.proper hs).hooks
      refine h.put (fun hr => ⟨_, hr, rfl⟩) rfl hs ?_ ?_ orderly
      · rw [Session.run_eq hooks]
        exact (Act.stays_fire task s).after.limits
      · intro _ live
        rw [Session.run_eq hooks]
        exact live.drive (.fire task)

theorem beginRound (h : q.Guarded own) : q.beginRound.Guarded own := by
  have sessions (key : Nat) : q.beginRound.session? key = _ := session?_takeTimers q key
  refine h.of_kin h.orderly.beginRound ?_ ?_ fun hr => ⟨_, hr, rfl⟩
  · intro key there
    rwa [sessions, Option.isSome_map]
  intro key t ht
  rw [sessions] at ht
  obtain ⟨s, hs, rfl⟩ := Option.map_eq_some_iff.mp ht
  refine ⟨s, hs, ?_⟩
  split
  · exact ⟨rfl, fun _ live => live.drive (.time _)⟩
  · exact ⟨rfl, fun _ live => live⟩

theorem lasting (own : Option Nat) : Lasting (Guarded own) where
  withReady ready h := h.withReady ready
  perform job h := h.perform job
  beginRound h := h.beginRound

theorem ticks (h : q.Guarded own) (n : Nat) : (q.ticks n).Guarded own := (lasting own).ticks n h

theorem await (h : q.Guarded own) (id : Nat) : (q.await id).Guarded own := (lasting own).await id h

/-- The caller runs a segment of a session of its own. -/
theorem segmentInTurn (h : q.Guarded (some key)) (hs : q.session? key = some s) (state : RunState) :
    (q.putSession key (s.segment state).2).Guarded (some key) := by
  have live := h.live rfl hs
  have turns := Session.segment_turns live.hooks state
  refine h.put (fun hr => ⟨_, hr, rfl⟩) rfl hs turns.limits
    (fun _ _ => Session.segment_live live state) ?_
  refine h.orderly.put hs (.inl (Session.segment_live live state))
    (turns.seat.orderly (h.orderly.seats hs)) fun hr own => ?_
  exact absurd (congrArg some own.symm) (h.free hr)

theorem runInTurn (h : q.Guarded (some key)) : (q.runInTurn key).2.Guarded (some key) :=
  (lasting (some key)).runInTurn (fun state h hs => h.segmentInTurn hs state) h

theorem cancelRun (h : q.Guarded own) (id : Nat) : (q.cancelRun id).Guarded own := by
  unfold Schedule.cancelRun
  split
  · exact h
  · exact h.of_kin (h.orderly.setRun_finished id) (fun there => there)
      (fun hs => ⟨_, hs, rfl, fun _ live => live⟩) (owner_setRun _)

theorem add (h : q.Guarded none) (proper : t.Proper) (seat : t.seat.Orderly)
    (safe : t.machine.limits.Safe) : (q.addSession t).1.Guarded none := by
  refine ⟨h.orderly.add proper seat, ?_, by simp, by simp, by simp⟩
  intro k u hu
  rw [session?_addSession] at hu
  split at hu
  · cases hu
    exact safe
  · exact h.safe hu

/-- A session that was just added is nobody's but the caller's. -/
theorem addOwn (h : q.Guarded none) (live : t.Live) (seat : t.seat.Orderly)
    (safe : t.machine.limits.Safe) :
    (q.addSession t).1.Guarded (some (q.addSession t).2) := by
  have added := h.add (.inl live) seat safe
  have here : (q.addSession t).1.session? (q.addSession t).2 = some t :=
    (session?_addSession q t _).trans (if_pos rfl)
  refine ⟨added.orderly, added.safe, ?_, ?_, ?_⟩
  · rintro key ⟨⟩
    rw [here]
    rfl
  · rintro key s ⟨⟩ hs
    rw [here] at hs
    cases hs
    exact live
  · intro id r hr own
    exact absurd (Option.some.inj own) (Nat.ne_of_gt (h.orderly.owner_lt hr))

theorem release (h : q.Guarded own) : q.Guarded none :=
  ⟨h.orderly, h.safe, by simp, by simp, by simp⟩

theorem command (h : q.Guarded none) (key : Nat) (c : Control) :
    (q.command key c).Guarded none := by
  have orderly := h.orderly.command key c
  unfold Schedule.command at *
  cases hs : q.session? key with
  | none => exact h
  | some s =>
      rw [hs] at orderly
      exact h.put (fun hr => ⟨_, hr, rfl⟩) rfl hs
        (Session.control_turns (h.orderly.proper hs) c).limits (by simp) orderly

theorem start (h : q.Guarded none) (there : (q.session? key).isSome = true) (direct : Bool) :
    (q.start key direct).1.Guarded none :=
  ⟨h.orderly.start there direct, h.safe, by simp, by simp, by simp⟩

end Guarded

end Schedule

/-! ## The service -/

namespace Service

/-- Some requests, with turns between them, lead to the service. -/
inductive Reachable : Service → Prop
  | empty (capacity : Nat) : Reachable { capacity }
  | request {v : Service} (r : Request) : Reachable v → Reachable (v.handle r).2
  | ticks {v : Service} (n : Nat) : Reachable v → Reachable (v.ticks n)

/-- What carrying out a deed does to the service. -/
inductive Performed (v : Service) (e : Entry) (s : Session) : Service → Prop
  | nothing : Performed v e s v
  | command (c : Control) : c = .step ∨ c = .pause ∨ c = .resume →
      Performed v e s (v.putSession e (s.control c).2)
  | reload : Performed v e s
      (((v.forgetRun e).cancelRun (v.run? e)).putSession e (s.control (.load s.source)).2)
  | start : Performed v e s (v.startRun e s).1
  | await : Performed v e s
      { (v.startRun e s).1 with
        schedule := (v.startRun e s).1.schedule.await (v.startRun e s).2 }

theorem controlled_eq (v : Service) (e : Entry) (s : Session) (c : Control) (field : String) :
    (v.controlled e s c field).2 = v.putSession e (s.control c).2 := by
  unfold controlled
  split <;> rename_i run <;> rw [run]

theorem performed (v : Service) (e : Entry) (s : Session) (deed : SessionDeed) :
    Performed v e s (v.perform e s deed).2 := by
  cases deed with
  | step =>
      unfold perform
      dsimp only
      split
      · exact .nothing
      · rw [controlled_eq]
        exact .command _ (.inl rfl)
  | pause =>
      rw [perform, controlled_eq]
      exact .command _ (.inr (.inl rfl))
  | resume =>
      rw [perform, controlled_eq]
      exact .command _ (.inr (.inr rfl))
  | reset =>
      have loaded : Performed v e s _ := .reload
      unfold perform
      dsimp only
      split <;> rename_i run <;> rwa [run] at loaded
  | run wait =>
      cases wait with
      | false => exact .start
      | true => exact .await

/-- What holds of the service between two requests. -/
def Guarded (v : Service) : Prop := v.schedule.Guarded none

namespace Guarded

variable {v : Service} {e : Entry} {s : Session} {c : Control}

/-- A session is put back after a control operation. -/
theorem put (h : v.Guarded) (hs : v.session? e = some s) (c : Control) :
    (v.putSession e (s.control c).2).Guarded := by
  have commanded := Schedule.Guarded.command h e.key c
  rwa [Schedule.command_of_some hs] at commanded

theorem forgetRun (h : v.Guarded) (e : Entry) : (v.forgetRun e).Guarded := h

theorem cancelRun (h : v.Guarded) (run : Option Nat) : (v.cancelRun run).Guarded := by
  cases run with
  | none => exact h
  | some id => exact Schedule.Guarded.cancelRun h id

theorem drop (h : v.Guarded) (e : Entry) : (v.drop e).Guarded := by
  unfold Service.drop
  refine cancelRun ?_ _
  split
  · rename_i s hs
    exact put h hs .close
  · exact h

theorem dismiss (h : v.Guarded) (e : Entry) : (v.dismiss e).Guarded :=
  drop (v := { v with entries := v.entries.filter (·.number ≠ e.number) }) h e

theorem register (h : v.Guarded) {settings : Settings} {loaded : Bool}
    (opened : settings.Opened loaded s) (safe : settings.limits.Safe) :
    (v.register s).1.Guarded := by
  have leave (leaving : List Entry) (v : Service) (h : v.Guarded) :
      (leaving.foldl Service.dismiss v).Guarded := by
    induction leaving generalizing v with
    | nil => exact h
    | cons e leaving ih => exact ih _ (h.dismiss e)
  exact leave _ _ (Schedule.Guarded.add h opened.proper opened.seat (opened.limits ▸ safe))

/-- The schedule of a program that was run in the turns of the caller. -/
theorem runInTurn (h : v.Guarded) {settings : Settings} (opened : settings.Opened true s)
    (safe : settings.limits.Safe) :
    ((v.schedule.addSession s).1.runInTurn (v.schedule.addSession s).2).2.Guarded
      (some (v.schedule.addSession s).2) :=
  (Schedule.Guarded.addOwn h (opened.live rfl) opened.seat (opened.limits ▸ safe)).runInTurn

theorem runOnce (h : v.Guarded) (code : String) (wishes : Datum) :
    (v.runOnce code wishes).2.Guarded := by
  unfold Service.runOnce
  cases opens : open? code wishes with
  | error fault => exact h
  | ok made =>
      obtain ⟨loaded, s⟩ := made
      obtain ⟨settings, capped, opened⟩ := Service.opened opens
      have safe := (Settings.safe_of_capped capped).1
      have ran : Schedule.Guarded none (if loaded then
          (v.schedule.addSession s).1.runInTurn (v.schedule.addSession s).2
          else (none, (v.schedule.addSession s).1)).2 := by
        cases loaded with
        | true => exact (h.runInTurn opened safe).release
        | false => exact Schedule.Guarded.add h opened.proper opened.seat (opened.limits ▸ safe)
      dsimp only
      generalize (if loaded then
          (v.schedule.addSession s).1.runInTurn (v.schedule.addSession s).2
          else (none, (v.schedule.addSession s).1)) = ended at ran
      split
      · exact ran
      · exact ran
      · rename_i last hs
        have closed := ran.command (v.schedule.addSession s).2 .close
        rwa [Schedule.command_of_some hs] at closed

theorem startRun (h : v.Guarded) (hs : v.session? e = some s) : (v.startRun e s).1.Guarded := by
  unfold Service.startRun
  split
  · split
    · exact h.put hs .resume
    · exact h
  · exact Schedule.Guarded.start h (by rw [show v.schedule.session? e.key = _ from hs]; rfl) false

theorem perform (h : v.Guarded) (hs : v.session? e = some s) (deed : SessionDeed) :
    (v.perform e s deed).2.Guarded := by
  have performed := v.performed e s deed
  generalize (v.perform e s deed).2 = v' at performed
  cases performed with
  | nothing => exact h
  | command c => exact h.put hs c
  | reload =>
      refine ((h.forgetRun e).cancelRun (v.run? e)).put ?_ (.load s.source)
      cases v.run? e with
      | none => exact hs
      | some id =>
          unfold Service.cancelRun Schedule.cancelRun
          dsimp only
          split
          · exact hs
          · exact hs
  | start => exact h.startRun hs
  | await => exact Schedule.Guarded.await (h.startRun hs) _

theorem withSession (h : v.Guarded) (id : String) {f : Entry → Session → Response × Service}
    (kept : ∀ e s, v.session? e = some s → (f e s).2.Guarded) : (v.withSession id f).2.Guarded := by
  unfold Service.withSession
  split
  · exact h
  · split
    · exact h
    · rename_i s hs
      exact kept _ s hs

theorem handle (h : v.Guarded) (r : Request) : (v.handle r).2.Guarded := by
  cases r with
  | compile code => exact h
  | run code settings => exact h.runOnce code settings
  | create code settings =>
      unfold Service.handle Service.create
      dsimp only
      split
      · exact h
      · rename_i loaded s opens
        obtain ⟨settings, capped, opened⟩ := Service.opened opens
        exact h.register opened (Settings.safe_of_capped capped).1
  | view id => exact h.withSession id fun _ _ _ => h
  | deed id deed => exact h.withSession id fun _ _ hs => h.perform hs deed
  | delete id => exact h.withSession id fun e _ _ => h.dismiss e

end Guarded

/-- Over every history of the service its sessions are proper and safe. -/
theorem Reachable.guarded {v : Service} (h : v.Reachable) : v.Guarded := by
  induction h with
  | empty capacity =>
      exact ⟨Schedule.Reachable.empty.orderly, by simp [Schedule.session?], by simp, by simp,
        by simp⟩
  | request r _ ih => exact ih.handle r
  | ticks n _ ih => exact Schedule.Guarded.ticks ih n

end Service

/-- Safety limits hold.  A turn enters the handler of an instruction exactly if the
instruction is handed over in it, once, after its step was counted within the limit.
Every program, at any moment of any run, has counted and entered no more than its
limits allow, and has never had more calls open.  A caller whose settings stand for
integers gets settings within fixed bounds, and every program of the service, under
an identity or run at once, is run under limits of 64 open calls and 10000 steps,
whatever was asked for. -/
theorem limits_hold :
    (∀ s t : Session, s.Enters t ↔ ∃ v scope i,
      Act.Asks (Act.advanceWith Act.plain) s v scope i ∧
        t = ((Act.advanceWith Act.plain (Act.perform Act.plain)).run s).2) ∧
    (∀ why s, Reached why s → 1 ≤ s.machine.limits.steps → 1 ≤ s.machine.limits.callDepth →
      (∃ n, Entered n s) ∧ s.Obeys s.machine.limits) ∧
    (∀ wishes : Datum, wishes.IsSettings → ∃ settings, Settings.capped wishes = .ok settings ∧
      (0 ≤ settings.speed ∧ settings.speed ≤ 5000) ∧
      ∀ code loaded s, Service.open? code wishes = .ok (loaded, s) →
        s.store.speed = settings.speed ∧ s.machine.limits = settings.limits ∧
          (loaded = true → s.Live)) ∧
    (∀ v : Service, v.Reachable →
      (∀ key s, v.schedule.session? key = some s →
        s.Vacant ∨ s.Live ∧ s.Obeys { callDepth := 64, steps := 10000 }) ∧
      ∀ code wishes s, Service.open? code wishes = .ok (true, s) →
        ∃ t, ((v.schedule.addSession s).1.runInTurn (v.schedule.addSession s).2).2.session?
            (v.schedule.addSession s).2 = some t ∧
          t.Live ∧ t.Obeys { callDepth := 64, steps := 10000 }) := by
  refine ⟨fun s t => Session.enters_iff, ?_, ?_, ?_⟩
  · intro why s reached steps callDepth
    exact ⟨reached.entered, Session.Live.obeys ⟨why, reached⟩ steps callDepth⟩
  · intro wishes convert
    obtain ⟨settings, capped⟩ := Settings.capped_ok convert
    refine ⟨settings, capped, (Settings.safe_of_capped capped).2, ?_⟩
    intro code loaded s opens
    obtain ⟨settings', capped', opened⟩ := Service.opened opens
    obtain rfl : settings' = settings := Except.ok.inj (capped'.symm.trans capped)
    exact ⟨opened.speed, opened.limits, opened.live⟩
  · intro v reachable
    have guarded := reachable.guarded
    refine ⟨fun key s hs => ?_, fun code wishes s opens => ?_⟩
    · rcases guarded.orderly.proper hs with live | vacant
      · exact .inr ⟨live, live.obeys_default (guarded.safe hs)⟩
      · exact .inl vacant
    · obtain ⟨settings, capped, opened⟩ := Service.opened opens
      have ran := guarded.runInTurn opened (Settings.safe_of_capped capped).1
      obtain ⟨t, ht⟩ := Option.isSome_iff_exists.mp (ran.there rfl)
      have live := ran.live rfl ht
      exact ⟨t, ht, live, live.obeys_default (ran.safe ht)⟩

/-- A caller that asks for too much. -/
def Datum.greedy : Datum :=
  .object
    [("speed_ms", .int 100000), ("max_steps", .float (.ofInt 1000000)),
      ("max_call_depth", .text "900")]

/-- A program that calls itself without end.  Its next instruction is handed over; it is
kept to limits of its own, and in the service it is stopped in time although more was
asked for. -/
theorem greed_is_capped :
    (∃ v scope i, Act.Asks (Act.advanceWith Act.plain)
      (Session.running "function f() { f(); }\nf();" ⟨2, 5⟩ 3) v scope i) ∧
    (Session.running "function f() { f(); }\nf();" ⟨2, 5⟩ 3).Obeys ⟨2, 5⟩ ∧
    (∃ settings, Settings.capped .greedy = .ok settings ∧ settings.speed ≤ 5000) ∧
    (∃ s, (Service.handle {} (.create "function f() { f(); }\nf();" .greedy)).2.schedule.session?
        0 = some s ∧ (s.Vacant ∨ s.Live ∧ s.Obeys { callDepth := 64, steps := 10000 })) ∧
    ∃ s t, Service.open? "function f() { f(); }\nf();" .greedy = .ok (true, s) ∧
      ((Schedule.addSession {} s).1.runInTurn 0).2.session? 0 = some t ∧
        t.Obeys { callDepth := 64, steps := 10000 } := by
  obtain ⟨enters, programs, settings, services⟩ := limits_hold
  refine ⟨?_, ?_, ?_, ?_, ?_⟩
  · -- a handler that does nothing lets the program go on, and one that faults ends it
    have differ : ((Act.advanceWith Act.plain fun _ _ => pure (.done none)).run
          (Session.running "function f() { f(); }\nf();" ⟨2, 5⟩ 3)).2.phase ≠
        ((Act.advanceWith Act.plain fun _ _ => throw .noUnit).run
          (Session.running "function f() { f(); }\nf();" ⟨2, 5⟩ 3)).2.phase := by
      decide +kernel
    obtain ⟨v, scope, i, asks, -⟩ := (enters _ _).mp
      ⟨rfl, _, _, fun same => differ (congrArg (·.2.phase) same)⟩
    exact ⟨v, scope, i, asks⟩
  · obtain ⟨why, reached⟩ : (Session.running "function f() { f(); }\nf();" ⟨2, 5⟩ 3).Live :=
      Session.running_live 3 (by decide +kernel)
    have limits : (Session.running "function f() { f(); }\nf();" ⟨2, 5⟩ 3).machine.limits =
      ⟨2, 5⟩ := by decide +kernel
    have obeys := (programs why _ reached (by rw [limits]; decide) (by rw [limits]; decide)).2
    rwa [limits] at obeys
  · have convert : Datum.greedy.IsSettings := by
      intro key hk wish hw
      simp only [List.mem_cons, List.not_mem_nil, or_false] at hk
      rcases hk with rfl | rfl | rfl
      · obtain rfl : wish = .int 100000 := Option.some.inj (hw.symm.trans rfl)
        exact ⟨100000, rfl⟩
      · obtain rfl : wish = .float (.ofInt 1000000) := Option.some.inj (hw.symm.trans rfl)
        exact ⟨1000000, by decide +kernel⟩
      · obtain rfl : wish = .text "900" := Option.some.inj (hw.symm.trans rfl)
        exact ⟨900, by decide +kernel⟩
    obtain ⟨settings, capped, speed, -⟩ := settings _ convert
    exact ⟨settings, capped, speed.2⟩
  · have there : ((Service.handle {} (.create "function f() { f(); }\nf();"
        .greedy)).2.schedule.session? 0).isSome = true := by decide +kernel
    obtain ⟨s, hs⟩ := Option.isSome_iff_exists.mp there
    exact ⟨s, hs, (services _ (.request _ (.empty 32))).1 0 s hs⟩
  · have there : (Service.open? "function f() { f(); }\nf();" .greedy).toOption.map (·.1) =
        some true := by decide +kernel
    rcases opens : Service.open? "function f() { f(); }\nf();" .greedy with fault | ⟨valid, s⟩
    · rw [opens] at there
      cases there
    · rw [opens] at there
      cases there
      obtain ⟨t, ht, -, obeys⟩ := (services {} (.empty 32)).2 _ _ s opens
      exact ⟨s, t, rfl, ht, obeys⟩

end Runloop
