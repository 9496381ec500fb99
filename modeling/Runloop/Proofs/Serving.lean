/-
# No request is refused by a session

Requests come in any order, and between any two of them the runs take turns
(`Interleaved`).  What `Schedule.Covered` says holds all along
(`Interleaved.covered`), so that what the service looks at before a step, the run
that it has noted and the phase, is at least what the session looks at.  A step is
answered, or turned down by the service itself (`guards_cover`).
-/
import Runloop.Proofs.Guarding

namespace Runloop

open Relation (ReflTransGen)

/-- The pace of a session is the one that was granted. -/
theorem Settings.Opened.moderate {settings : Settings} {loaded : Bool} {s : Session}
    (opened : settings.Opened loaded s) (speed : 0 ≤ settings.speed ∧ settings.speed ≤ 5000) :
    s.Moderate := by
  unfold Session.Moderate
  rwa [opened.speed]

namespace Service

variable {v : Service} {e : Entry} {s : Session}

/-! ## Sessions that are opened -/

theorem open?_eq {wishes : Datum} {settings : Settings}
    (capped : Settings.capped wishes = .ok settings) (code : String) :
    open? code wishes =
      match settings.session.blank.fed code with
      | (.error fault, _) => .error (.session fault)
      | (.ok loaded, s) => .ok (loaded, s) := by
  have vacant : settings.session.Vacant := Session.create_vacant ..
  have run : settings.session.run (fun host => Act.load host code) =
      settings.session.blank.fed code :=
    (Session.run_eq vacant.hooks).trans (Act.run_load vacant.current code)
  rw [open?, capped]
  dsimp only
  generalize settings.session.blank.fed code = loaded at run ⊢
  obtain ⟨fault | loaded, s⟩ := loaded
  · rw [run]
  · rw [run]

/-- A session that is opened has no run. -/
theorem free_of_open? {code : String} {wishes : Datum} {loaded : Bool}
    (opens : open? code wishes = .ok (loaded, s)) : s.machine.runActive = false := by
  obtain ⟨settings, capped, -⟩ := opened opens
  rw [open?_eq capped] at opens
  have turns := (settings.session.blank_fed_turns code).seat
  rcases fed : settings.session.blank.fed code with ⟨fault | ok, t⟩
  · rw [fed] at opens
    cases opens
  · rw [fed] at opens turns
    cases opens
    exact (congrArg Seat.runActive turns).symm

/-- Nobody is refused who asks for a session. -/
theorem open?_granted (code : String) (wishes : Datum) (f : LifecycleFault) :
    open? code wishes ≠ .error (.session (.lifecycle f)) := by
  intro refused
  cases capped : Settings.capped wishes with
  | error fault =>
      rw [open?, capped] at refused
      cases refused
  | ok settings =>
      rw [open?_eq capped] at refused
      rcases fed : settings.session.blank.fed code with ⟨fault | ok, t⟩
      · obtain ⟨n, eq, -⟩ := Session.fed_fault (congrArg Prod.fst fed)
        rw [fed, eq] at refused
        cases refused
      · rw [fed] at refused
        cases refused

/-! ## What lies between two requests -/

/-- The schedule is covered by the entries and the latest runs, and the numbers to come
are new. -/
structure Covered (v : Service) : Prop where
  schedule : v.schedule.Covered v.entries v.tasks none
  issued : ∀ e ∈ v.entries, e.number ≤ v.issued

theorem schedule_cancelRun (v : Service) (run : Option Nat) :
    (v.cancelRun run).schedule = v.schedule.endRun run := by
  cases run with
  | none => rfl
  | some id => rfl

theorem entries_cancelRun (v : Service) (run : Option Nat) :
    (v.cancelRun run).entries = v.entries := by
  cases run with
  | none => rfl
  | some id => rfl

theorem tasks_cancelRun (v : Service) (run : Option Nat) :
    (v.cancelRun run).tasks = v.tasks := by
  cases run with
  | none => rfl
  | some id => rfl

theorem issued_cancelRun (v : Service) (run : Option Nat) :
    (v.cancelRun run).issued = v.issued := by
  cases run with
  | none => rfl
  | some id => rfl

/-- A session that leaves is closed, and its run ended and forgotten. -/
theorem dismiss_eq (hs : v.session? e = some s) :
    v.dismiss e =
      ({ v with
        entries := v.entries.filter (·.number ≠ e.number)
        tasks := v.tasks.pop e.id
        schedule := v.schedule.command e.key .close } : Service).cancelRun (v.run? e) := by
  have same : (({ v with entries := v.entries.filter (·.number ≠ e.number) } : Service).forgetRun
    e).session? e = some s := hs
  unfold dismiss drop
  dsimp only
  rw [same, Schedule.command_of_some hs]
  rfl

/-- The entry of the session that comes next. -/
def newEntry (v : Service) : Entry :=
  { number := v.issued + 1, key := v.schedule.sessions.length }

/-- A session is taken in, and nobody has left yet. -/
def enter (v : Service) (s : Session) : Service :=
  { v with
    schedule := (v.schedule.addSession s).1
    entries := v.entries ++ [v.newEntry]
    issued := v.issued + 1 }

/-- Whoever is beyond the room of the service leaves, the oldest ones first. -/
theorem register_eq (v : Service) (s : Session) :
    (v.register s).1 =
      ((v.enter s).entries.take ((v.enter s).entries.length - v.capacity)).foldl dismiss
        (v.enter s) := rfl

namespace Covered

theorem there (h : v.Covered) (he : e ∈ v.entries) : ∃ s, v.session? e = some s :=
  Option.isSome_iff_exists.mp (h.schedule.there e he)

/-- A session is put back after a control operation. -/
theorem put (h : v.Covered) (hs : v.session? e = some s) {c : Control}
    (pace : ∀ speed, c ≠ .setSpeed speed) : (v.putSession e (s.control c).2).Covered := by
  have commanded := h.schedule.command e.key pace
  rw [Schedule.command_of_some hs] at commanded
  exact ⟨commanded, h.issued⟩

theorem dismiss (h : v.Covered) (he : e ∈ v.entries) : (v.dismiss e).Covered := by
  obtain ⟨s, hs⟩ := h.there he
  rw [dismiss_eq hs]
  refine ⟨?_, ?_⟩
  · rw [schedule_cancelRun, entries_cancelRun, tasks_cancelRun]
    exact h.schedule.leave he
  · rw [entries_cancelRun, issued_cancelRun]
    exact fun e' he' => h.issued e' (List.mem_of_mem_filter he')

theorem entries_dismiss (h : v.Covered) (he : e ∈ v.entries) :
    (v.dismiss e).entries = v.entries.filter (·.number ≠ e.number) := by
  obtain ⟨s, hs⟩ := h.there he
  rw [dismiss_eq hs, entries_cancelRun]

/-- Some sessions leave, each of them once. -/
theorem dismissAll {leaving : List Entry} (h : v.Covered) (there : ∀ e ∈ leaving, e ∈ v.entries)
    (once : (leaving.map Entry.number).Nodup) : (leaving.foldl Service.dismiss v).Covered := by
  induction leaving generalizing v with
  | nil => exact h
  | cons e leaving ih =>
      have he := there e List.mem_cons_self
      obtain ⟨other, once⟩ := List.nodup_cons.mp once
      refine ih (h.dismiss he) ?_ once
      intro e' he'
      rw [h.entries_dismiss he]
      refine List.mem_filter.mpr ⟨there e' (List.mem_cons_of_mem e he'), ?_⟩
      have distinct : e'.number ≠ e.number := fun same =>
        other (same ▸ List.mem_map_of_mem he')
      simpa using distinct

theorem enter (h : v.Covered) {code : String} {wishes : Datum} {loaded : Bool}
    (opens : open? code wishes = .ok (loaded, s)) : (v.enter s).Covered := by
  obtain ⟨settings, capped, opened⟩ := Service.opened opens
  obtain ⟨safe, moderate⟩ := Settings.safe_of_capped capped
  have free := free_of_open? opens
  have guarded := h.schedule.guarded.add opened.proper opened.seat (opened.limits ▸ safe)
  have added := h.schedule.extend guarded (opened.moderate moderate) free (by simp)
  have here : (v.schedule.addSession s).1.session? v.schedule.sessions.length = some s :=
    (Schedule.session?_addSession v.schedule s _).trans (if_pos rfl)
  have old (e' : Entry) (he' : e' ∈ v.entries) : e'.key ≠ v.schedule.sessions.length := by
    obtain ⟨t, ht⟩ := h.there he'
    exact Nat.ne_of_lt (List.getElem?_eq_some_iff.mp ht).1
  have noted := added.note (e := v.newEntry)
    (by rw [show v.newEntry.key = v.schedule.sessions.length from rfl, here]; rfl) old
    (fun e' he' => Nat.ne_of_lt (Nat.lt_succ_of_le (h.issued e' he')))
    (fun t ht active => by
      cases here.symm.trans ht
      exact absurd (active.symm.trans free) (by simp))
  refine ⟨noted, ?_⟩
  intro e' he'
  rcases List.mem_append.mp he' with before | new
  · exact Nat.le_succ_of_le (h.issued e' before)
  · exact Nat.le_of_eq (by rw [List.mem_singleton.mp new]; rfl)

theorem register (h : v.Covered) {code : String} {wishes : Datum} {loaded : Bool}
    (opens : open? code wishes = .ok (loaded, s)) : (v.register s).1.Covered := by
  have entered := h.enter opens
  rw [register_eq]
  exact entered.dismissAll (fun e he => List.mem_of_mem_take he)
    (entered.schedule.numbers.sublist ((List.take_sublist ..).map _))

/-- A program is run in the turns of the caller, by a session of its own that is
closed after it. -/
theorem runOnce_cases (h : v.Covered) {code : String} {wishes : Datum} {loaded : Bool}
    (opens : open? code wishes = .ok (loaded, s)) :
    ∃ own q, (v.schedule.addSession s).1.Covered v.entries v.tasks own ∧
      (∀ key ∈ own, key = v.schedule.sessions.length) ∧
      (q = (v.schedule.addSession s).1 ∨ own = some v.schedule.sessions.length ∧
        q = ((v.schedule.addSession s).1.runInTurn v.schedule.sessions.length).2) ∧
      ((v.runOnce code wishes).2 = { v with schedule := q } ∨
        (v.runOnce code wishes).2 =
          { v with schedule := q.command v.schedule.sessions.length .close }) := by
  obtain ⟨settings, capped, opened⟩ := Service.opened opens
  obtain ⟨safe, moderate⟩ := Settings.safe_of_capped capped
  have moderate : s.Moderate := opened.moderate moderate
  have free := free_of_open? opens
  have ended (fault? : Option Fault) (q : Schedule)
      (ran : (if loaded then
          (v.schedule.addSession s).1.runInTurn v.schedule.sessions.length
        else (none, (v.schedule.addSession s).1)) = (fault?, q)) :
      (v.runOnce code wishes).2 = { v with schedule := q } ∨
        (v.runOnce code wishes).2 =
          { v with schedule := q.command v.schedule.sessions.length .close } := by
    rw [Service.runOnce, opens]
    dsimp only [Schedule.addSession] at ran ⊢
    rw [ran]
    split
    · exact .inl rfl
    · exact .inl rfl
    · rename_i last hs
      exact .inr (by rw [Schedule.command_of_some hs])
  cases loaded with
  | true =>
      have guarded := h.schedule.guarded.addOwn (opened.live rfl) opened.seat
        (opened.limits ▸ safe)
      refine ⟨some v.schedule.sessions.length, _, h.schedule.extend guarded moderate free ?_,
        fun key own => (Option.some.inj own).symm, .inr ⟨rfl, rfl⟩,
        ended ((v.schedule.addSession s).1.runInTurn v.schedule.sessions.length).1 _ rfl⟩
      intro e he own
      obtain ⟨t, ht⟩ := h.there he
      have before := (List.getElem?_eq_some_iff.mp ht).1
      exact absurd (Option.some.inj own) (Nat.ne_of_gt before)
  | false =>
      have guarded := h.schedule.guarded.add opened.proper opened.seat (opened.limits ▸ safe)
      exact ⟨none, _, h.schedule.extend guarded moderate free (by simp), by simp,
        .inl rfl, ended none _ rfl⟩

/-- A program is run in the turns of the caller, under no identity. -/
theorem runOnce (h : v.Covered) (code : String) (wishes : Datum) :
    (v.runOnce code wishes).2.Covered := by
  cases opens : open? code wishes with
  | error fault =>
      rw [Service.runOnce, opens]
      exact h
  | ok made =>
      obtain ⟨own, q, added, -, ran, eq⟩ := h.runOnce_cases opens
      have covered : q.Covered v.entries v.tasks none := by
        rcases ran with rfl | ⟨rfl, rfl⟩
        · exact added.release
        · exact added.runInTurn.release
      rcases eq with eq | eq
      · rw [eq]
        exact ⟨covered, h.issued⟩
      · rw [eq]
        exact ⟨covered.command _ (by simp), h.issued⟩

/-- A latest run that is not under way is over. -/
theorem isDone_of_filter (isOver : (v.run? e).filter (fun id => !v.schedule.isDone id) = none) :
    ∀ id ∈ v.run? e, v.schedule.isDone id = true := by
  intro id hid
  simpa using Option.filter_eq_none_iff.mp isOver id hid

theorem startRun (h : v.Covered) (he : e ∈ v.entries) (hs : v.session? e = some s) :
    (v.startRun e s).1.Covered := by
  unfold Service.startRun
  split
  · split
    · exact h.put hs (by simp)
    · exact h
  · rename_i isOver
    exact ⟨h.schedule.start he (isDone_of_filter isOver), h.issued⟩

/-- The session of an entry whose run was ended is loaded again. -/
theorem reload (h : v.Covered) (he : e ∈ v.entries) (hs : v.session? e = some s) :
    (((v.forgetRun e).cancelRun (v.run? e)).putSession e
      (s.control (.load s.source)).2).Covered := by
  have loaded := h.schedule.reload he s.source
  have there : (v.schedule.endRun (v.run? e)).session? e.key = some s :=
    (Schedule.session?_endRun (v.run? e) e.key).trans hs
  rw [show v.tasks.get? e.id = v.run? e from rfl, Schedule.command_of_some there] at loaded
  refine ⟨?_, ?_⟩
  · show (((v.forgetRun e).cancelRun (v.run? e)).schedule.putSession e.key _).Covered
      ((v.forgetRun e).cancelRun (v.run? e)).entries
      ((v.forgetRun e).cancelRun (v.run? e)).tasks none
    rw [schedule_cancelRun, entries_cancelRun, tasks_cancelRun]
    exact loaded
  · show ∀ e' ∈ ((v.forgetRun e).cancelRun (v.run? e)).entries,
      e'.number ≤ ((v.forgetRun e).cancelRun (v.run? e)).issued
    rw [entries_cancelRun, issued_cancelRun]
    exact h.issued

theorem perform (h : v.Covered) (he : e ∈ v.entries) (hs : v.session? e = some s)
    (deed : SessionDeed) : (v.perform e s deed).2.Covered := by
  have performed := v.performed e s deed
  generalize (v.perform e s deed).2 = v' at performed
  cases performed with
  | nothing => exact h
  | command c which => exact h.put hs (by rcases which with rfl | rfl | rfl <;> simp)
  | reload => exact h.reload he hs
  | start => exact h.startRun he hs
  | await =>
      have started := h.startRun he hs
      exact ⟨(Schedule.Covered.lasting ..).await _ started.schedule, started.issued⟩

end Covered

/-! ## Answers -/

/-- The answer to a request that names a session comes from what there is. -/
theorem withSession_cases (h : v.Covered) (id : String) (f : Entry → Session → Response × Service) :
    (v.find? id = none ∧ v.withSession id f = (.notFound ("unknown session " ++ id), v)) ∨
      ∃ e s, v.find? id = some e ∧ e ∈ v.entries ∧ v.session? e = some s ∧
        v.withSession id f = f e s := by
  cases hf : v.find? id with
  | none => exact .inl ⟨rfl, by simp only [withSession, hf]⟩
  | some e =>
      have he : e ∈ v.entries := List.mem_of_find?_eq_some hf
      obtain ⟨s, hs⟩ := h.there he
      exact .inr ⟨e, s, rfl, he, hs, by simp only [withSession, hf, hs]⟩

theorem withSession_induct {P : Response × Service → Prop} (h : v.Covered) {id : String}
    {f : Entry → Session → Response × Service} (missing : ∀ detail, P (.notFound detail, v))
    (found : ∀ e s, e ∈ v.entries → v.session? e = some s → P (f e s)) :
    P (v.withSession id f) := by
  rcases withSession_cases h id f with ⟨-, eq⟩ | ⟨e, s, -, he, hs, eq⟩
  · rw [eq]
    exact missing _
  · rw [eq]
    exact found e s he hs

namespace Covered

/-- A session that would refuse a step is one that the service sees running. -/
theorem busy_of_active (h : v.Covered) (he : e ∈ v.entries) (hs : v.session? e = some s)
    (active : s.machine.runActive = true) : v.isBusy e = true := by
  obtain ⟨id, r, run, hr, on, -⟩ := h.schedule.noted_of_active he hs active
  have going : v.schedule.isDone id = false := by
    rw [Schedule.isDone, hr]
    exact on
  rw [isBusy, run?, run, Option.any_some, going]
  rfl

/-- What a caller is told of a run, now or when its wait is over. -/
theorem runView_granted (h : v.Covered) (e : Entry) (id : Nat) (waited : Bool)
    (f : LifecycleFault) :
    v.runView e id waited ≠ .failure (.session (.lifecycle f)) := by
  intro refused
  unfold runView at refused
  split at refused
  · rename_i owner fault s hr hs
    split at refused
    · cases refused
      exact (h.schedule.meek hr).granted f rfl
    · cases refused
  · cases refused
  · cases refused

/-- A step that the service lets through is taken. -/
theorem step_ok (h : v.Covered) (he : e ∈ v.entries) (hs : v.session? e = some s)
    (passes : ¬ (v.isBusy e = true ∧ s.phase = .running)) :
    ∃ body, (v.controlled e s .step "has_more").1 = .ok body := by
  have proper := h.schedule.guarded.orderly.proper hs
  unfold Service.controlled
  split
  · rename_i fault t run
    rcases proper.control_faults (congrArg Prod.fst run) with ⟨_, _, load, -⟩ |
      ⟨-, ⟨-, -, running, active⟩ | overpaced⟩
    · cases load
    · exact absurd ⟨h.busy_of_active he hs active, running⟩ passes
    · exact absurd overpaced ((h.schedule.moderate hs).not_overpaced fault)
  · exact ⟨_, rfl⟩
  · exact ⟨_, rfl⟩

/-- No operation but a step is refused. -/
theorem controlled_granted (h : v.Covered) (hs : v.session? e = some s) {c : Control}
    (other : c ≠ .step) (field : String) (f : LifecycleFault) :
    (v.controlled e s c field).1 ≠ .failure (.session (.lifecycle f)) := by
  intro refused
  unfold Service.controlled at refused
  split at refused
  · rename_i fault t run
    cases refused
    have proper := h.schedule.guarded.orderly.proper hs
    exact other (proper.control_refused (congrArg Prod.fst run)).2.1
  · cases refused
  · cases refused

/-- What is asked of a session that is there is answered, or turned down by the
service. -/
theorem perform_granted (h : v.Covered) (he : e ∈ v.entries) (hs : v.session? e = some s)
    (deed : SessionDeed) (f : LifecycleFault) :
    (v.perform e s deed).1 ≠ .failure (.session (.lifecycle f)) := by
  cases deed with
  | step =>
      intro refused
      unfold Service.perform at refused
      dsimp only at refused
      split at refused
      · cases refused
      · rename_i passes
        obtain ⟨body, eq⟩ := h.step_ok he hs (by simpa using passes)
        cases eq.symm.trans refused
  | pause => exact h.controlled_granted hs (by simp) "paused" f
  | resume => exact h.controlled_granted hs (by simp) "resumed" f
  | reset =>
      intro refused
      unfold Service.perform at refused
      dsimp only at refused
      split at refused
      · rename_i fault t run
        cases refused
        have proper := h.schedule.guarded.orderly.proper hs
        cases (proper.control_refused (congrArg Prod.fst run)).2.1
      · cases refused
  | run wait =>
      have after := h.perform he hs (.run wait)
      exact after.runView_granted e (v.startRun e s).2 wait f

theorem handle (h : v.Covered) (r : Request) : (v.handle r).2.Covered := by
  have named {id : String} {f : Entry → Session → Response × Service}
      (kept : ∀ e s, e ∈ v.entries → v.session? e = some s → (f e s).2.Covered) :
      (v.withSession id f).2.Covered :=
    withSession_induct (P := fun answer => answer.2.Covered) h (fun _ => h) kept
  cases r with
  | compile code => exact h
  | run code settings => exact h.runOnce code settings
  | create code settings =>
      unfold Service.handle Service.create
      dsimp only
      split
      · exact h
      · rename_i loaded s opens
        exact h.register opens
  | view id => exact named fun _ _ _ _ => h
  | deed id deed => exact named fun _ _ he hs => h.perform he hs deed
  | delete id => exact named fun _ _ he _ => h.dismiss he

theorem handle_granted (h : v.Covered) (r : Request) (f : LifecycleFault) :
    (v.handle r).1 ≠ .failure (.session (.lifecycle f)) := by
  have named {id : String} {act : Entry → Session → Response × Service}
      (granted : ∀ e s, e ∈ v.entries → v.session? e = some s →
        (act e s).1 ≠ .failure (.session (.lifecycle f))) :
      (v.withSession id act).1 ≠ .failure (.session (.lifecycle f)) :=
    withSession_induct (P := fun answer => answer.1 ≠ .failure (.session (.lifecycle f))) h
      (by simp) granted
  cases r with
  | compile code =>
      intro refused
      unfold Service.handle compileOnly at refused
      dsimp only at refused
      split at refused
      · cases refused
      · cases refused
      · cases refused
  | run code settings =>
      intro refused
      unfold Service.handle Service.runOnce at refused
      dsimp only at refused
      split at refused
      · cases refused
      · split at refused
        · cases refused
        · cases refused
        · cases refused
  | create code settings =>
      intro refused
      unfold Service.handle Service.create at refused
      dsimp only at refused
      split at refused
      · rename_i fault opens
        cases refused
        exact open?_granted code settings f opens
      · cases refused
  | view id => exact named fun _ _ _ _ => by simp [viewOf]
  | deed id deed => exact named fun _ _ he hs => h.perform_granted he hs deed f
  | delete id => exact named fun _ _ _ _ => by simp

end Covered

/-! ## Histories -/

/-- Lets the next job of a run or a timer have its turn.  If none is left, a new round
begins. -/
def turn (v : Service) : Service :=
  { v with
    schedule :=
      match v.schedule.ready with
      | [] => v.schedule.beginRound
      | job :: rest => (v.schedule.withReady rest).perform job }

/-- Something happens to a service. -/
inductive Step (v : Service) : Service → Prop
  | request (r : Request) : Step v (v.handle r).2
  | turn : Step v v.turn

/-- Some requests, and turns of the runs between any two of them, lead to the
service. -/
def Interleaved (v : Service) : Prop := ∃ capacity, ReflTransGen Step { capacity } v

theorem Covered.turn (h : v.Covered) : v.turn.Covered := by
  have lasts := Schedule.Covered.lasting v.entries v.tasks none
  refine ⟨?_, h.issued⟩
  unfold Service.turn
  dsimp only
  split
  · exact lasts.beginRound h.schedule
  · exact lasts.perform _ (lasts.withReady _ h.schedule)

theorem covered_empty (capacity : Nat) : Covered { capacity } where
  schedule :=
    { guarded := (Reachable.empty capacity).guarded
      keys := List.nodup_nil
      numbers := List.nodup_nil
      there := by simp
      apart := by simp
      known := by simp [Tasks.ids]
      owned := by simp
      noted := by simp [Schedule.run?]
      meek := by simp [Schedule.run?]
      moderate := by simp [Schedule.session?]
      manned := by simp }
  issued := by simp

theorem Interleaved.covered (h : v.Interleaved) : v.Covered := by
  obtain ⟨capacity, history⟩ := h
  induction history with
  | refl => exact covered_empty capacity
  | tail _ step ih =>
      cases step with
      | request r => exact ih.handle r
      | turn => exact ih.turn

theorem Interleaved.step {w : Service} (h : v.Interleaved) (step : v.Step w) : w.Interleaved := by
  obtain ⟨capacity, history⟩ := h
  exact ⟨capacity, history.tail step⟩

/-- The guards of the service cover those of its sessions.  Whatever requests have
come, with turns of the runs between any two of them, no run was refused by its
session, and no request is: not at once, and not when the run that it waits for is
over.  A step is turned down if there is no such session, or if its run is under way
and not paused; else it is taken. -/
theorem guards_cover (v : Service) (h : v.Interleaved) :
    (∀ id r f, v.schedule.run? id = some r → r.state ≠ .finished (some (.lifecycle f))) ∧
    (∀ request f, (v.handle request).1 ≠ .failure (.session (.lifecycle f))) ∧
    (∀ e id f, v.runView e id true ≠ .failure (.session (.lifecycle f))) ∧
    ∀ id,
      (v.find? id = none ∧ ∃ detail, (v.handle (.deed id .step)).1 = .notFound detail) ∨
      ∃ e s, v.find? id = some e ∧ v.session? e = some s ∧
        ((v.isBusy e = true ∧ s.phase = .running ∧
            ∃ detail, (v.handle (.deed id .step)).1 = .conflict detail) ∨
          (v.isBusy e = true → s.phase ≠ .running) ∧
            ∃ body, (v.handle (.deed id .step)).1 = .ok body) := by
  have covered := h.covered
  refine ⟨fun id r f hr => (covered.schedule.meek hr).granted f, covered.handle_granted,
    fun e id f => covered.runView_granted e id true f, ?_⟩
  intro id
  have asked : v.handle (.deed id .step) = v.withSession id fun e s => v.perform e s .step := rfl
  rw [asked]
  rcases withSession_cases covered id fun e s => v.perform e s .step with ⟨none, eq⟩ |
    ⟨e, s, found, he, hs, eq⟩
  · rw [eq]
    exact .inl ⟨none, _, rfl⟩
  · rw [eq]
    refine .inr ⟨e, s, found, hs, ?_⟩
    by_cases running : v.isBusy e = true ∧ s.phase = .running
    · refine .inl ⟨running.1, running.2, "session is running; pause it first", ?_⟩
      simp [perform, running]
    · obtain ⟨body, ok⟩ := covered.step_ok he hs running
      refine .inr ⟨fun busy phase => running ⟨busy, phase⟩, body, ?_⟩
      rw [← ok]
      simp [perform, running]

/-- A session in real time, whose run was asked for without waiting for it and has
had its first turn. -/
def underway : Service :=
  let wishes : Datum := .object [("realtime", .bool true), ("speed_ms", .int 0)]
  let created := (handle {} (.create "let x = 1;\nconsole.log(x);" wishes)).2
  (created.handle (.deed "s1" (.run false))).2.turn.turn

/-- What the service sees of a session. -/
def seen (v : Service) (id : String) : Option (Bool × Option Phase) :=
  (v.find? id).map fun e => (v.isBusy e, (v.session? e).map (·.phase))

/-- While a run goes on, a step is turned down; after a pause it is taken. -/
theorem underway_guarded :
    (∃ detail, (underway.handle (.deed "s1" .step)).1 = .conflict detail) ∧
    ∃ body, ((underway.handle (.deed "s1" .pause)).2.handle (.deed "s1" .step)).1 = .ok body := by
  have history : underway.Interleaved := by
    have empty : Interleaved {} := ⟨32, .refl⟩
    exact (((empty.step (.request _)).step (.request _)).step .turn).step .turn
  have running : underway.seen "s1" = some (true, some .running) := by decide +kernel
  have paused : (underway.handle (.deed "s1" .pause)).2.seen "s1" =
    some (true, some .paused) := by decide +kernel
  unfold seen at running paused
  refine ⟨?_, ?_⟩
  · obtain ⟨-, -, -, steps⟩ := guards_cover underway history
    rcases steps "s1" with ⟨none, -⟩ | ⟨e, s, found, hs, ⟨-, -, refused⟩ | ⟨other, -⟩⟩
    · rw [none] at running
      cases running
    · exact refused
    · rw [found, Option.map_some, hs, Option.map_some] at running
      obtain ⟨busy, phase⟩ := Prod.ext_iff.mp (Option.some.inj running)
      exact absurd (Option.some.inj phase) (other busy)
  · obtain ⟨-, -, -, steps⟩ := guards_cover _ (history.step (.request (.deed "s1" .pause)))
    rcases steps "s1" with ⟨none, -⟩ | ⟨e, s, found, hs, ⟨-, other, -⟩ | ⟨-, taken⟩⟩
    · rw [none] at paused
      cases paused
    · rw [found, Option.map_some, hs, Option.map_some, other] at paused
      cases (Prod.ext_iff.mp (Option.some.inj paused)).2
    · exact taken

end Service

end Runloop
