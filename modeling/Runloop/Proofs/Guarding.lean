/-
# The runs of a service are noted under its sessions

A session refuses a step while a run is going on, and a second run beside the
first.  The service looks at something else before it asks: at the latest run
that it has noted for the session, and at the phase.  Both come to the same,
because of what `Covered` says of the schedule of a service: a run that is not
over is noted under its session, one at most under each, and the place of a
session is taken only by such a run (`Manned`).  Runs are noted under identities, in a
map beside the registry (`Tasks`), and no identity stands there without its session.

It is kept by every job and every round (`Covered.lasting`), and by what requests
do: a control operation (`command`), a new session (`extend`, `note`), a new run
(`start`), and the end of a run with that of its session (`reload`, `leave`).
-/
import Runloop.Proofs.Caps
import Runloop.Proofs.Manning

namespace Runloop

open Relation (ReflTransGen)

/-! ## The pace -/

/-- Every number of milliseconds that a caller may ask for is a pace. -/
theorem Number.quotient_ok {n : Int} (low : 0 ≤ n) (high : n ≤ 5000) :
    ∃ w, Number.quotient n 1000 = .ok w := by
  have eq : Number.quotient n 1000 =
      if (Magnitude.ofRatio n.natAbs 1000).isInfinite then .error .quotientTooLarge
      else .ok (.signed (n < 0) (Magnitude.ofRatio n.natAbs 1000)) := rfl
  have finite : (Magnitude.ofRatio n.natAbs 1000).isInfinite = false := by
    have place : (Magnitude.ofRatio n.natAbs 1000).place ≤ (Magnitude.ofRatio 5000 1000).place :=
      Magnitude.placeOf_mono 1000 (Nat.mul_le_mul_right _ (by omega))
    have most : (Magnitude.ofRatio 5000 1000).place < Magnitude.top := by decide +kernel
    exact beq_false_of_ne (Nat.ne_of_lt (Nat.lt_of_le_of_lt place most))
  rw [finite] at eq
  exact ⟨_, eq⟩

namespace Session

variable {s t : Session}

/-- The pace is one that a caller may ask for. -/
def Moderate (s : Session) : Prop := 0 ≤ s.store.speed ∧ s.store.speed ≤ 5000

theorem Moderate.of_speed (h : s.Moderate) (speed : t.store.speed = s.store.speed) :
    t.Moderate := by
  unfold Moderate at *
  rwa [speed]

theorem Moderate.not_overpaced (h : s.Moderate) (fault : Fault) : ¬ s.Overpaced fault := by
  rintro ⟨n, -, fails⟩
  obtain ⟨w, ok⟩ := Number.quotient_ok h.1 h.2
  cases fails.symm.trans ok

/-- Only who sets another pace changes it. -/
theorem control_speed (h : s.Proper) {c : Control} (pace : ∀ speed, c ≠ .setSpeed speed) :
    (s.control c).2.store.speed = s.store.speed := by
  have drives (hc : c.drives = true) (live : s.Live → (s.control c).2.store.speed = s.store.speed) :
      (s.control c).2.store.speed = s.store.speed := by
    rcases h with alive | vacant
    · exact live alive
    · rw [vacant.control_same hc pace]
  cases c with
  | pause | resume | step =>
      exact drives rfl fun live => Strides.speed live (control_strides live rfl)
  | stop =>
      refine drives rfl fun live => ?_
      have same : Act.Within (Act.Same Store.speed) (Act.control Act.plain .stop) :=
        (Act.same_stop Act.aloof_speed).bind fun _ => .pure _
      unfold control
      rw [run_eq live.hooks]
      exact (same s).after
  | reset =>
      rw [control_reset h]
      rfl
  | close =>
      rw [control_close h]
      rfl
  | load source =>
      rw [control_load h]
      exact s.blank.fed_speed source
  | setSpeed speed => exact absurd rfl (pace speed)

theorem segment_speed (h : s.Proper) {state : RunState}
    (begun : state.generation? = some s.machine.generation → s.phase ≠ .idle) :
    (s.segment state).2.store.speed = s.store.speed := by
  rcases h with live | vacant
  · exact Strides.speed live (segment_strides live state)
  · rw [vacant.segment fun current => begun current vacant.idle]

theorem fire_speed (hooks : s.hooks = []) (id : String) :
    (s.run fun host => Act.fire host id).2.store.speed = s.store.speed := by
  rw [run_eq hooks, Act.run_fire, publish_store, (requeues_moveToCallbacks s.store id).same]
  rfl

end Session

/-! ## Runs -/

/-- A run that goes through its session, and was not refused by it. -/
structure RunState.Meek (state : RunState) : Prop where
  through : state ≠ .created true
  granted : ∀ f, state ≠ .finished (some (.lifecycle f))

theorem Run.woken_meek {key : Nat} {s : Session} {r : Run} (h : r.state.Meek) :
    (r.woken key s).state.Meek := by
  cases due : r.isDue key s with
  | false =>
      rw [woken_of_not_isDue due]
      exact h
  | true =>
      obtain ⟨generation, openings, -, -, -, eq⟩ := woken_of_isDue due
      rw [eq]
      exact ⟨by simp, by simp⟩

theorem Run.woken_isFinished (key : Nat) (s : Session) (r : Run) :
    (r.woken key s).state.isFinished = r.state.isFinished := by
  cases due : r.isDue key s with
  | false => rw [woken_of_not_isDue due]
  | true =>
      obtain ⟨generation, openings, waits, -, -, eq⟩ := woken_of_isDue due
      rw [eq, waits]
      rfl

theorem Entry.id_inj {e e' : Entry} (h : e.id = e'.id) : e.number = e'.number := numbered_inj h

theorem Entry.id_ne {e e' : Entry} (h : e.number ≠ e'.number) : e.id ≠ e'.id :=
  fun same => h (id_inj same)

namespace Tasks

variable (t : Tasks) (id other : String) (run : Nat)

theorem get?_pop : (t.pop id).get? other = if other = id then none else t.get? other := by
  unfold get? pop
  rw [List.find?_filter]
  split
  · rename_i same
    subst same
    simp
  · rename_i differs
    refine congrArg (Option.map _) (congrArg (List.find? · t.list) (funext fun x => ?_))
    by_cases here : x.1 = other
    · simp [here, differs]
    · simp [here]

theorem get?_set : (t.set id run).get? other = if other = id then some run else t.get? other := by
  split
  · rename_i same
    simp [get?, set, same]
  · rename_i differs
    have popped := t.get?_pop id other
    rw [if_neg differs] at popped
    rw [← popped]
    unfold get? set
    rw [List.find?_cons_of_neg (by simpa using Ne.symm differs)]

theorem mem_ids_pop : other ∈ (t.pop id).ids ↔ other ∈ t.ids ∧ other ≠ id := by
  simp only [ids, pop, List.mem_map, List.mem_filter, decide_eq_true_eq]
  constructor
  · rintro ⟨x, ⟨hx, differs⟩, rfl⟩
    exact ⟨⟨x, hx, rfl⟩, differs⟩
  · rintro ⟨⟨x, hx, rfl⟩, differs⟩
    exact ⟨x, ⟨hx, differs⟩, rfl⟩

theorem mem_ids_set : other ∈ (t.set id run).ids ↔ other = id ∨ other ∈ t.ids := by
  have popped := t.mem_ids_pop id other
  unfold ids at *
  rw [set, List.map_cons, List.mem_cons, popped]
  by_cases same : other = id <;> simp [same]

variable {t id}

theorem get?_of_not_mem_ids (h : id ∉ t.ids) : t.get? id = none := by
  unfold get?
  rw [Option.map_eq_none_iff, List.find?_eq_none]
  intro x hx same
  exact h (List.mem_map.mpr ⟨x, hx, by simpa using same⟩)

end Tasks

namespace Schedule

/-- What holds of the schedule of a service with these entries and these latest runs,
beside what `Guarded` says. -/
structure Covered (entries : List Entry) (tasks : Tasks) (own : Option Nat) (q : Schedule) :
    Prop where
  guarded : q.Guarded own
  keys : (entries.map Entry.key).Nodup
  numbers : (entries.map Entry.number).Nodup
  there : ∀ e ∈ entries, (q.session? e.key).isSome = true
  /-- The session that the caller runs in its own turns is under no identity. -/
  apart : ∀ e ∈ entries, e.key ∉ own
  /-- Runs are noted under identities of registered sessions only. -/
  known : ∀ name ∈ tasks.ids, ∃ e ∈ entries, e.id = name
  /-- The run that is noted under a session is its own. -/
  owned : ∀ e ∈ entries, ∀ id ∈ tasks.get? e.id, ∃ r, q.run? id = some r ∧ r.owner = e.key
  /-- A run that is not over is noted. -/
  noted : ∀ {id r}, q.run? id = some r → r.state.isFinished = false →
    ∃ e ∈ entries, e.key = r.owner ∧ tasks.get? e.id = some id
  meek : ∀ {id r}, q.run? id = some r → r.state.Meek
  moderate : ∀ {key s}, q.session? key = some s → s.Moderate
  manned : ∀ e ∈ entries, q.Manned e.key

/-- Every session and every run of `q'` comes from one of `q`, and none is lost. -/
structure Kin (q q' : Schedule) : Prop where
  there : ∀ {key}, (q.session? key).isSome = true → (q'.session? key).isSome = true
  sessions : ∀ {key t}, q'.session? key = some t →
    ∃ s, q.session? key = some s ∧ (s.Moderate → t.Moderate)
  kept : ∀ {id r}, q.run? id = some r → ∃ r', q'.run? id = some r' ∧ r'.owner = r.owner
  runs : ∀ {id r'}, q'.run? id = some r' → ∃ r, q.run? id = some r ∧ r'.owner = r.owner ∧
    (r.state.Meek → r'.state.Meek) ∧ (r'.state.isFinished = false → r.state.isFinished = false)

variable {q q' : Schedule} {entries : List Entry} {tasks : Tasks} {own : Option Nat}
  {key id : Nat}
  {s t : Session} {r : Run} {e e' : Entry}

namespace Kin

theorem refl (q : Schedule) : q.Kin q :=
  ⟨fun h => h, fun h => ⟨_, h, fun h => h⟩, fun h => ⟨_, h, rfl⟩,
    fun h => ⟨_, h, rfl, fun h => h, fun h => h⟩⟩

theorem trans {q'' : Schedule} (h : q.Kin q') (h' : q'.Kin q'') : q.Kin q'' := by
  refine ⟨fun there => h'.there (h.there there), ?_, ?_, ?_⟩
  · intro key u hu
    obtain ⟨t, ht, moderate'⟩ := h'.sessions hu
    obtain ⟨s, hs, moderate⟩ := h.sessions ht
    exact ⟨s, hs, fun m => moderate' (moderate m)⟩
  · intro id r hr
    obtain ⟨r', hr', own⟩ := h.kept hr
    obtain ⟨r'', hr'', own'⟩ := h'.kept hr'
    exact ⟨r'', hr'', own'.trans own⟩
  · intro id r'' hr''
    obtain ⟨r', hr', own', meek', on'⟩ := h'.runs hr''
    obtain ⟨r, hr, own, meek, on⟩ := h.runs hr'
    exact ⟨r, hr, own'.trans own, fun m => meek' (meek m), fun f => on (on' f)⟩

/-- A session is put back with its pace. -/
theorem put (hs : q.session? key = some s) (speed : t.store.speed = s.store.speed) :
    q.Kin (q.putSession key t) := by
  refine ⟨isSome_putSession, ?_, ?_, ?_⟩
  · intro k u hu
    rw [session?_putSession] at hu
    split at hu
    · rename_i same
      cases hu
      rw [same.1]
      exact ⟨s, hs, fun moderate => moderate.of_speed speed⟩
    · exact ⟨u, hu, fun moderate => moderate⟩
  · intro i r hr
    refine ⟨r.woken key t, ?_, Run.woken_owner r⟩
    rw [run?_putSession, hr]
    rfl
  · intro i r' hr'
    rw [run?_putSession] at hr'
    obtain ⟨r, hr, rfl⟩ := Option.map_eq_some_iff.mp hr'
    refine ⟨r, hr, Run.woken_owner r, Run.woken_meek, ?_⟩
    rw [Run.woken_isFinished]
    exact fun on => on

/-- A run gets another state. -/
theorem setRun (hr : q.run? id = some r) {state : RunState} (meek : state.Meek)
    (on : state.isFinished = false → r.state.isFinished = false) : q.Kin (q.setRun id state) := by
  refine ⟨fun there => there, fun hs => ⟨_, hs, fun moderate => moderate⟩, ?_, ?_⟩
  · intro i r₀ hr₀
    rw [run?_setRun]
    by_cases this : i = id
    · subst this
      obtain rfl : r = r₀ := Option.some.inj (hr.symm.trans hr₀)
      exact ⟨⟨r.owner, state⟩, by rw [if_pos rfl, hr]; rfl, rfl⟩
    · exact ⟨r₀, by rw [if_neg this, hr₀], rfl⟩
  · intro i r' hr'
    rw [run?_setRun, hr] at hr'
    split at hr'
    · rename_i this
      cases hr'
      exact ⟨r, this ▸ hr, rfl, fun _ => meek, on⟩
    · exact ⟨r', hr', rfl, fun meek => meek, fun on => on⟩

theorem cancelRun (id : Nat) : q.Kin (q.cancelRun id) := by
  unfold Schedule.cancelRun
  split
  · exact .refl q
  · rename_i on
    cases hr : q.run? id with
    | none => exact absurd (by simp [isDone, hr]) on
    | some r => exact setRun hr ⟨by simp, by simp⟩ (by simp [RunState.isFinished])

theorem command (ordered : q.Orderly) (key : Nat) {c : Control}
    (pace : ∀ speed, c ≠ .setSpeed speed) : q.Kin (q.command key c) := by
  cases hs : q.session? key with
  | none =>
      have same : q.command key c = q := by simp only [Schedule.command, hs]
      rw [same]
      exact .refl q
  | some s =>
      rw [command_of_some hs]
      exact put hs (Session.control_speed (ordered.proper hs) pace)

theorem beginRound (q : Schedule) : q.Kin q.beginRound := by
  have sessions (key : Nat) : q.beginRound.session? key = _ := session?_takeTimers q key
  refine ⟨?_, ?_, fun hr => ⟨_, hr, rfl⟩, fun hr => ⟨_, hr, rfl, fun h => h, fun h => h⟩⟩
  · intro key there
    rwa [sessions, Option.isSome_map]
  · intro key t ht
    rw [sessions] at ht
    obtain ⟨s, hs, rfl⟩ := Option.map_eq_some_iff.mp ht
    refine ⟨s, hs, fun moderate => moderate.of_speed ?_⟩
    split
    · rfl
    · rfl

end Kin

namespace Covered

theorem entry_eq_of_key (h : q.Covered entries tasks own) (he : e ∈ entries) (he' : e' ∈ entries)
    (same : e'.key = e.key) : e' = e :=
  List.inj_on_of_nodup_map h.keys he' he same

theorem entry_eq_of_number (h : q.Covered entries tasks own) (he : e ∈ entries) (he' : e' ∈ entries)
    (same : e'.number = e.number) : e' = e :=
  List.inj_on_of_nodup_map h.numbers he' he same

/-- What comes from a schedule that is covered is so, if it is still guarded and
manned. -/
theorem of_kin (h : q.Covered entries tasks own) (kin : q.Kin q') (guarded : q'.Guarded own)
    (manned : ∀ e ∈ entries, q'.Manned e.key) : q'.Covered entries tasks own where
  guarded := guarded
  keys := h.keys
  numbers := h.numbers
  there e he := kin.there (h.there e he)
  apart := h.apart
  known := h.known
  owned := by
    intro e he id hid
    obtain ⟨r, hr, own⟩ := h.owned e he id hid
    obtain ⟨r', hr', own'⟩ := kin.kept hr
    exact ⟨r', hr', own'.trans own⟩
  noted := by
    intro id r' hr' on
    obtain ⟨r, hr, own, -, on'⟩ := kin.runs hr'
    rw [own]
    exact h.noted hr (on' on)
  meek := by
    intro id r' hr'
    obtain ⟨r, hr, -, meek, -⟩ := kin.runs hr'
    exact meek (h.meek hr)
  moderate := by
    intro key t ht
    obtain ⟨s, hs, moderate⟩ := kin.sessions ht
    exact moderate (h.moderate hs)
  manned := manned

/-- A run that has its place is noted as the run of its session. -/
theorem noted_of_active (h : q.Covered entries tasks own) (he : e ∈ entries)
    (hs : q.session? e.key = some s) (active : s.machine.runActive = true) :
    ∃ id r, tasks.get? e.id = some id ∧ q.run? id = some r ∧ r.state.isFinished = false ∧
      r.state.generation? = some s.machine.generation := by
  obtain ⟨id, r, hr, own, current⟩ := h.manned e he s hs active
  have on : r.state.isFinished = false := by
    cases ended : r.state.isFinished with
    | false => rfl
    | true =>
        rw [RunState.generation?_of_isFinished ended] at current
        cases current
  obtain ⟨e', he', key, run⟩ := h.noted hr on
  obtain rfl := h.entry_eq_of_key he he' (key.trans own)
  exact ⟨id, r, run, hr, on, current⟩

/-- No run is refused: who begins is the only one, and nobody begins where there is
no program. -/
theorem segment_meek (h : q.Covered entries tasks own) (hr : q.run? id = some r)
    (hs : q.session? r.owner = some s) : (s.segment r.state).1.Meek := by
  have ordered := h.guarded.orderly
  have proper := ordered.proper hs
  have ran := (Session.segment_turns proper.hooks r.state).seat
  have begun : r.state.generation? = some s.machine.generation → s.phase ≠ .idle := by
    intro current
    exact ((ordered.seats hs).begun ((ordered.fit hr hs).active current)).1
  refine ⟨?_, ?_⟩
  · intro created
    obtain ⟨generation, sleeps⟩ := ran.sleeps (by rw [created]; rfl)
    cases created.symm.trans sleeps
  · intro f refused
    cases on : r.state.isFinished with
    | true =>
        cases hstate : r.state with
        | finished fault? =>
            rw [hstate] at ran refused
            exact (h.meek hr).granted f (hstate.trans (ran.1.symm.trans refused))
        | created | sleeping | waiting =>
            rw [hstate] at on
            cases on
    | false =>
        rcases (proper.segment_refused begun on refused).2 with ⟨⟨direct, created⟩, -, active⟩ |
          ⟨created, -⟩
        · obtain ⟨e, he, key, run⟩ := h.noted hr on
          obtain ⟨id', r', run', hr', -, current⟩ := h.noted_of_active he (key ▸ hs) active
          obtain rfl : id = id' := Option.some.inj (run.symm.trans run')
          obtain rfl : r = r' := Option.some.inj (hr.symm.trans hr')
          rw [created] at current
          cases current
        · exact (h.meek hr).through created

/-- A segment of a run. -/
theorem kin_segment (h : q.Covered entries tasks own) (hr : q.run? id = some r)
    (hs : q.session? r.owner = some s) :
    q.Kin ((q.setRun id (s.segment r.state).1).putSession r.owner (s.segment r.state).2) := by
  have ordered := h.guarded.orderly
  have proper := ordered.proper hs
  refine Kin.trans (Kin.setRun hr (h.segment_meek hr hs) ?_) (Kin.put hs ?_)
  · intro on
    cases ended : r.state.isFinished with
    | false => rfl
    | true =>
        cases hstate : r.state with
        | finished fault? =>
            have ran := (Session.segment_turns proper.hooks r.state).seat
            rw [hstate] at ran on
            rw [ran.1] at on
            cases on
        | created | sleeping | waiting =>
            rw [hstate] at ended
            cases ended
  · refine Session.segment_speed proper fun current => ?_
    exact ((ordered.seats hs).begun ((ordered.fit hr hs).active current)).1

theorem perform (h : q.Covered entries tasks own) (job : Job) :
    (q.perform job).Covered entries tasks own := by
  have ordered := h.guarded.orderly
  refine h.of_kin ?_ (h.guarded.perform job) fun e he => (h.manned e he).perform ordered job
  have performed := q.performed job
  generalize q.perform job = q' at performed
  cases performed with
  | nothing => exact .refl q
  | @gaveWay id generation r s hr hs sleeps =>
      have kin := h.kin_segment hr hs
      rw [sleeps] at kin
      exact ⟨kin.there, kin.sessions, kin.kept, kin.runs⟩
  | rests hr hs _ => exact h.kin_segment hr hs
  | fired hs _ => exact Kin.put hs (Session.fire_speed (ordered.proper hs).hooks _)

theorem withReady (h : q.Covered entries tasks own) (ready : List Job) :
    (q.withReady ready).Covered entries tasks own :=
  h.of_kin ⟨(Kin.refl q).there, (Kin.refl q).sessions, (Kin.refl q).kept, (Kin.refl q).runs⟩
    (h.guarded.withReady ready) h.manned

theorem lasting (entries : List Entry) (tasks : Tasks) (own : Option Nat) :
    Lasting (Covered entries tasks own) where
  withReady ready h := h.withReady ready
  perform job h := h.perform job
  beginRound h := h.of_kin (Kin.beginRound _) h.guarded.beginRound
    fun e he => (h.manned e he).beginRound

theorem command (h : q.Covered entries tasks none) (key : Nat) {c : Control}
    (pace : ∀ speed, c ≠ .setSpeed speed) : (q.command key c).Covered entries tasks none :=
  h.of_kin (Kin.command h.guarded.orderly key pace) (h.guarded.command key c)
    fun e he => (h.manned e he).command h.guarded.orderly key c

/-- A session that is added takes no part yet. -/
theorem extend (h : q.Covered entries tasks none) (guarded : (q.addSession t).1.Guarded own)
    (moderate : t.Moderate) (free : t.machine.runActive = false)
    (apart : ∀ e ∈ entries, e.key ∉ own) : (q.addSession t).1.Covered entries tasks own where
  guarded := guarded
  keys := h.keys
  numbers := h.numbers
  there := by
    intro e he
    rw [session?_addSession]
    split
    · rfl
    · exact h.there e he
  apart := apart
  known := h.known
  owned := h.owned
  noted := h.noted
  meek := h.meek
  moderate := by
    intro key s hs
    rw [session?_addSession] at hs
    split at hs
    · cases hs
      exact moderate
    · exact h.moderate hs
  manned e he := (h.manned e he).add free

/-- A session that is there, and has no entry, is put under a new number. -/
theorem note (h : q.Covered entries tasks none) (there : (q.session? e.key).isSome = true)
    (key : ∀ e' ∈ entries, e'.key ≠ e.key) (number : ∀ e' ∈ entries, e'.number ≠ e.number)
    (manned : q.Manned e.key) : q.Covered (entries ++ [e]) tasks none where
  guarded := h.guarded
  keys := by
    rw [List.map_append, List.map_singleton]
    refine h.keys.append (List.nodup_singleton _) ?_
    intro k old new
    obtain ⟨e', he', rfl⟩ := List.mem_map.mp old
    exact key e' he' (List.mem_singleton.mp new)
  numbers := by
    rw [List.map_append, List.map_singleton]
    refine h.numbers.append (List.nodup_singleton _) ?_
    intro k old new
    obtain ⟨e', he', rfl⟩ := List.mem_map.mp old
    exact number e' he' (List.mem_singleton.mp new)
  there := by
    intro e' he'
    rcases List.mem_append.mp he' with old | new
    · exact h.there e' old
    · rw [List.mem_singleton.mp new]
      exact there
  apart := by simp
  known := by
    intro name noted
    obtain ⟨e', he', named⟩ := h.known name noted
    exact ⟨e', List.mem_append_left _ he', named⟩
  owned := by
    -- nothing was noted under the new number
    have fresh : e.id ∉ tasks.ids := by
      intro noted
      obtain ⟨e', he', named⟩ := h.known e.id noted
      exact number e' he' (Entry.id_inj named)
    intro e' he' id hid
    rcases List.mem_append.mp he' with old | new
    · exact h.owned e' old id hid
    · rw [List.mem_singleton.mp new, Tasks.get?_of_not_mem_ids fresh] at hid
      cases hid
  noted := by
    intro id r hr on
    obtain ⟨e', he', noted⟩ := h.noted hr on
    exact ⟨e', List.mem_append_left _ he', noted⟩
  meek := h.meek
  moderate := h.moderate
  manned := by
    intro e' he'
    rcases List.mem_append.mp he' with old | new
    · exact h.manned e' old
    · rw [List.mem_singleton.mp new]
      exact manned

/-- The run of a session is over and forgotten, and its entry stays or is gone. -/
theorem retire {left : List Entry} (h : q.Covered entries tasks none) (he : e ∈ entries)
    (kin : q.Kin q') (guarded : q'.Guarded none) (sub : left.Sublist entries)
    (rest : ∀ e' ∈ entries, e'.number ≠ e.number → e' ∈ left)
    (ended : ∀ id ∈ tasks.get? e.id, ∀ r, q'.run? id = some r → r.state.isFinished = true)
    (manned : ∀ e' ∈ entries, q'.Manned e'.key) : q'.Covered left (tasks.pop e.id) none :=
  have covered : q'.Covered entries tasks none := h.of_kin kin guarded manned
  { guarded
    keys := h.keys.sublist (sub.map _)
    numbers := h.numbers.sublist (sub.map _)
    there := fun e' he' => covered.there e' (sub.subset he')
    apart := by simp
    known := by
      intro name noted
      obtain ⟨before, differs⟩ := (Tasks.mem_ids_pop ..).mp noted
      obtain ⟨e', he', rfl⟩ := h.known name before
      exact ⟨e', rest e' he' fun same => differs (by rw [Entry.id, same, Entry.id]), rfl⟩
    owned := by
      intro e' he' id hid
      rw [Tasks.get?_pop] at hid
      split at hid
      · cases hid
      · exact covered.owned e' (sub.subset he') id hid
    noted := by
      -- the run that is forgotten is over
      intro id r hr on
      obtain ⟨e', he', key, run⟩ := covered.noted hr on
      have other : e'.number ≠ e.number := by
        intro same
        obtain rfl := h.entry_eq_of_number he he' same
        exact absurd (on.symm.trans (ended id run r hr)) (by simp)
      refine ⟨e', rest e' he' other, key, ?_⟩
      rw [Tasks.get?_pop, if_neg (Entry.id_ne other)]
      exact run
    meek := covered.meek
    moderate := covered.moderate
    manned := fun e' he' => manned e' (sub.subset he') }

/-- A run is begun under a session whose latest one is over. -/
theorem start (h : q.Covered entries tasks none) (he : e ∈ entries)
    (isOver : ∀ id ∈ tasks.get? e.id, q.isDone id = true) :
    (q.start e.key false).1.Covered entries (tasks.set e.id q.runs.length) none where
  guarded := h.guarded.start (h.there e he) false
  keys := h.keys
  numbers := h.numbers
  there := h.there
  apart := by simp
  known := by
    intro name noted
    rcases (Tasks.mem_ids_set ..).mp noted with rfl | before
    · exact ⟨e, he, rfl⟩
    · exact h.known name before
  owned := by
    intro e' he' id hid
    rw [Tasks.get?_set] at hid
    split at hid
    · rename_i same
      obtain rfl := h.entry_eq_of_number he he' (Entry.id_inj same)
      cases hid
      exact ⟨⟨e'.key, .created false⟩, by rw [run?_start, if_pos rfl], rfl⟩
    · obtain ⟨r, hr, own⟩ := h.owned e' he' id hid
      refine ⟨r, ?_, own⟩
      rw [run?_start, if_neg (Nat.ne_of_lt (List.getElem?_eq_some_iff.mp hr).1), hr]
  noted := by
    intro id r hr on
    rw [run?_start] at hr
    split at hr
    · rename_i new
      cases hr
      refine ⟨e, he, rfl, ?_⟩
      rw [Tasks.get?_set, if_pos rfl, new]
    · obtain ⟨e', he', key, run⟩ := h.noted hr on
      refine ⟨e', he', key, ?_⟩
      have other : e'.number ≠ e.number := by
        intro same
        obtain rfl := h.entry_eq_of_number he he' same
        have done := isOver id run
        rw [isDone, hr] at done
        exact absurd (on.symm.trans done) (by simp)
      rw [Tasks.get?_set, if_neg (Entry.id_ne other)]
      exact run
  meek := by
    intro id r hr
    rw [run?_start] at hr
    split at hr
    · cases hr
      exact ⟨by simp, by simp⟩
    · exact h.meek hr
  moderate := h.moderate
  manned e' he' := (h.manned e' he').start e.key false

end Covered

/-- Ends the run that is noted, if there is one. -/
def endRun (q : Schedule) (run : Option Nat) : Schedule := run.elim q q.cancelRun

theorem Kin.endRun (run : Option Nat) : q.Kin (q.endRun run) := by
  cases run with
  | none => exact .refl q
  | some id => exact .cancelRun id

theorem Guarded.endRun (h : q.Guarded own) (run : Option Nat) : (q.endRun run).Guarded own := by
  cases run with
  | none => exact h
  | some id => exact h.cancelRun id

theorem session?_endRun (run : Option Nat) (key : Nat) :
    (q.endRun run).session? key = q.session? key := by
  cases run with
  | none => rfl
  | some id =>
      show (q.cancelRun id).session? key = _
      unfold Schedule.cancelRun
      split
      · rfl
      · rfl

/-- A run that was ended from outside is over. -/
theorem finished_of_endRun (hr : (q.endRun (some id)).run? id = some r) :
    r.state.isFinished = true := by
  change (q.cancelRun id).run? id = some r at hr
  unfold Schedule.cancelRun at hr
  split at hr
  · rename_i done
    rw [isDone, hr] at done
    exact done
  · rw [run?_setRun, if_pos rfl] at hr
    obtain ⟨r, -, rfl⟩ := Option.map_eq_some_iff.mp hr
    rfl

/-- A run that is ended from outside gives up no place but that of its own session. -/
theorem Manned.endRun {run : Option Nat} (h : q.Manned key)
    (other : ∀ s, q.session? key = some s → s.machine.runActive = true →
      ∀ id ∈ run, ∀ r, q.run? id = some r → r.owner ≠ key) : (q.endRun run).Manned key := by
  intro s hs active
  rw [session?_endRun] at hs
  have crewed := h s hs active
  cases run with
  | none => exact crewed
  | some id =>
      show (q.cancelRun id).Crewed key _
      unfold Schedule.cancelRun
      split
      · exact crewed
      · rename_i on
        cases hr : q.run? id with
        | none => exact absurd (by simp [isDone, hr]) on
        | some r => exact crewed.setRun hr fun own => absurd own (other s hs active id rfl r hr)

/-- A session in another place takes nobody's run. -/
theorem Manned.put_other {k : Nat} (h : q.Manned key) (other : key ≠ k) (t : Session) :
    (q.putSession k t).Manned key := by
  intro s hs active
  rw [session?_putSession, if_neg fun same => other same.1] at hs
  exact (h s hs active).put k t

/-- The place of a session that was reset is free. -/
theorem free_of_reset (ordered : q.Orderly) (hs : q.session? key = some s) {c : Control}
    (resets : c.drives = false) (ht : (q.command key c).session? key = some t) :
    t.machine.runActive = false := by
  rw [session?_command hs] at ht
  cases ht
  have cleared : (s.control c).2.seat = s.seat.cleared := by
    have turns := (Session.control_turns (ordered.proper hs) c).seat
    cases c with
    | reset | close | load source => exact turns
    | pause | resume | stop | step | setSpeed => cases resets
  exact (congrArg Seat.runActive cleared).trans (Seat.opened_runActive s.seat.voided)

namespace Covered

/-- The run that is noted under a session is of no other session. -/
theorem owner_ne (h : q.Covered entries tasks own) (he : e ∈ entries) (he' : e' ∈ entries)
    (other : e' ≠ e) (hid : id ∈ tasks.get? e.id) (hr : q.run? id = some r) : r.owner ≠ e'.key := by
  obtain ⟨r', hr', owner⟩ := h.owned e he id hid
  obtain rfl : r = r' := Option.some.inj (hr.symm.trans hr')
  intro same
  exact other (h.entry_eq_of_key he he' (same.symm.trans owner))

/-- A program is loaded again: the run that was noted is ended first. -/
theorem reload (h : q.Covered entries tasks none) (he : e ∈ entries) (source : String) :
    ((q.endRun (tasks.get? e.id)).command e.key (.load source)).Covered entries
      (tasks.pop e.id) none := by
  have guarded := h.guarded.endRun (tasks.get? e.id)
  obtain ⟨s, hs⟩ := Option.isSome_iff_exists.mp (h.there e he)
  have hs' : (q.endRun (tasks.get? e.id)).session? e.key = some s :=
    (session?_endRun (tasks.get? e.id) e.key).trans hs
  have kin : (q.endRun (tasks.get? e.id)).Kin
      ((q.endRun (tasks.get? e.id)).command e.key (.load source)) :=
    .command guarded.orderly e.key (by simp)
  refine h.retire he ((Kin.endRun (tasks.get? e.id)).trans kin) (guarded.command e.key _) (.refl _)
    (fun _ he' _ => he') ?_ ?_
  · intro id hid r' hr'
    obtain ⟨r, hr, -, -, on⟩ := kin.runs hr'
    rw [hid] at hr
    have isOver := finished_of_endRun hr
    cases ended : r'.state.isFinished with
    | true => rfl
    | false => exact absurd (isOver.symm.trans (on ended)) (by simp)
  · intro e' he'
    by_cases same : e' = e
    · subst same
      intro t ht active
      have free := free_of_reset guarded.orderly hs' rfl ht
      exact absurd (active.symm.trans free) (by simp)
    · refine Manned.command guarded.orderly (Manned.endRun (h.manned e' he') ?_) e.key _
      intro _ _ _ id hid r hr
      exact h.owner_ne he he' same hid hr

/-- A session leaves: it is closed, and then its run ended. -/
theorem leave (h : q.Covered entries tasks none) (he : e ∈ entries) :
    ((q.command e.key .close).endRun (tasks.get? e.id)).Covered
      (entries.filter (·.number ≠ e.number)) (tasks.pop e.id) none := by
  have guarded := h.guarded.command e.key .close
  obtain ⟨s, hs⟩ := Option.isSome_iff_exists.mp (h.there e he)
  have kin : q.Kin (q.command e.key .close) := .command h.guarded.orderly e.key (by simp)
  refine h.retire he (kin.trans (Kin.endRun (tasks.get? e.id))) (guarded.endRun (tasks.get? e.id))
    List.filter_sublist ?_ ?_ ?_
  · intro e' he' other
    exact List.mem_filter.mpr ⟨he', by simpa using other⟩
  · intro id hid r hr
    rw [hid] at hr
    exact finished_of_endRun hr
  · intro e' he'
    refine Manned.endRun (Manned.command h.guarded.orderly (h.manned e' he') e.key .close) ?_
    intro t ht active id hid r' hr'
    by_cases same : e' = e
    · subst same
      have free := free_of_reset h.guarded.orderly hs rfl ht
      exact absurd (active.symm.trans free) (by simp)
    · obtain ⟨r, hr, owner, -⟩ := kin.runs hr'
      rw [owner]
      exact h.owner_ne he he' same hid hr

/-- The caller runs a segment of a session of its own. -/
theorem segmentInTurn (h : q.Covered entries tasks (some key)) (hs : q.session? key = some s)
    (state : RunState) :
    (q.putSession key (s.segment state).2).Covered entries tasks (some key) := by
  have live := h.guarded.live rfl hs
  refine h.of_kin (Kin.put hs ?_) (h.guarded.segmentInTurn hs state) ?_
  · exact Strides.speed live (Session.segment_strides live state)
  · intro e he
    refine (h.manned e he).put_other ?_ _
    rintro rfl
    exact h.apart e he rfl

theorem runInTurn (h : q.Covered entries tasks (some key)) :
    (q.runInTurn key).2.Covered entries tasks (some key) :=
  (lasting entries tasks (some key)).runInTurn (fun state h hs => h.segmentInTurn hs state) h

theorem release (h : q.Covered entries tasks own) : q.Covered entries tasks none where
  guarded := h.guarded.release
  keys := h.keys
  numbers := h.numbers
  there := h.there
  apart := by simp
  known := h.known
  owned := h.owned
  noted := h.noted
  meek := h.meek
  moderate := h.moderate
  manned := h.manned

end Covered

end Schedule

end Runloop
