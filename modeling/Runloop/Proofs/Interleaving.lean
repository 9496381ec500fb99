/-
# Runs in any order

Sessions, their runs and the control operations on them are interleaved in any
way that the queue allows.  `Schedule.Step` is one thing that happens: a session
is created, a run is started, an operation is carried out between two segments,
the next job of the round is done, or a round begins.  A caller that gives way
goes through such steps (`steps_tick`), so `Reachable` covers every history.

Every step keeps a schedule `Orderly`: its sessions are, its runs fit them, and
of the runs of a session at most one is of the current generation.
-/
import Runloop.Schedule
import Runloop.Proofs.Order

namespace Runloop

open Relation (ReflTransGen)

namespace Schedule

/-- Carries out a control operation on a session, if it is there. -/
def command (q : Schedule) (key : Nat) (c : Control) : Schedule :=
  match q.session? key with
  | none => q
  | some s => q.putSession key (s.control c).2

/-- One thing that happens. -/
inductive Step (q : Schedule) : Schedule → Prop
  | create (speed : Int) (limits : Limits) (realtime : Bool) :
      Step q (q.addSession (.create speed limits realtime)).1
  | start {key : Nat} (direct : Bool) : (q.session? key).isSome = true →
      Step q (q.start key direct).1
  | command (key : Nat) (c : Control) : Step q (q.command key c)
  | job {job : Job} {rest : List Job} : q.ready = job :: rest →
      Step q (perform { q with ready := rest } job)
  | round : q.ready = [] → Step q q.beginRound

/-- Some history leads to the schedule. -/
def Reachable (q : Schedule) : Prop := ReflTransGen Step {} q

/-! ## Runs that are let go on -/

variable {q q' : Schedule} {key id : Nat} {s : Session} {r : Run}

theorem session?_set (t : Session) (k : Nat) :
    ({ q with sessions := q.sessions.set key t } : Schedule).session? k =
      if k = key ∧ (q.session? key).isSome then some t else q.session? k := by
  unfold session?
  rw [List.getElem?_set]
  by_cases h : key = k
  · subst h
    by_cases hk : key < q.sessions.length
    · simp [hk]
    · simp [hk]
  · simp [h, Ne.symm h]

theorem run?_setRun (state : RunState) (i : Nat) :
    (q.setRun id state).run? i =
      if i = id then (q.run? id).map fun r => { r with state } else q.run? i := by
  unfold run? setRun
  rw [List.getElem?_modify]
  by_cases h : id = i
  · subst h
    simp
  · simp [h, Ne.symm h]

end Schedule

namespace Run

variable {key : Nat} {s : Session}

/-- Whether a run of a session waits for a gate that was opened since. -/
def isDue (key : Nat) (s : Session) (r : Run) : Bool := r.owner = key && s.releases r.state

/-- A run of a session that waits for a gate which was opened is let go on. -/
def woken (key : Nat) (s : Session) (r : Run) : Run :=
  match r.state with
  | .waiting generation _ =>
    if r.isDue key s then { r with state := .sleeping generation } else r
  | _ => r

@[simp] theorem woken_owner (r : Run) : (r.woken key s).owner = r.owner := by
  unfold woken
  split
  · split
    · rfl
    · rfl
  · rfl

theorem woken_of_not_isDue {r : Run} (quiet : r.isDue key s = false) : r.woken key s = r := by
  unfold woken
  split
  · rw [if_neg (by rw [quiet]; exact Bool.false_ne_true)]
  · rfl

theorem woken_of_isDue {r : Run} (due : r.isDue key s = true) :
    ∃ generation openings, r.state = .waiting generation openings ∧
      openings < s.machine.openings ∧ r.owner = key ∧
        r.woken key s = ⟨key, .sleeping generation⟩ := by
  obtain ⟨owner, state⟩ := r
  cases state with
  | waiting generation openings =>
      have both : owner = key ∧ openings < s.machine.openings := by
        simpa [isDue, Session.releases] using due
      obtain ⟨rfl, later⟩ := both
      exact ⟨generation, openings, rfl, later, rfl, if_pos due⟩
  | created | sleeping | finished => simp [isDue, Session.releases] at due

@[simp] theorem woken_generation? (r : Run) :
    (r.woken key s).state.generation? = r.state.generation? := by
  cases due : r.isDue key s with
  | false => rw [woken_of_not_isDue due]
  | true =>
      obtain ⟨generation, openings, waits, -, -, eq⟩ := woken_of_isDue due
      rw [eq, waits]
      rfl

theorem isDue_woken (r : Run) : (r.woken key s).isDue key s = false := by
  cases due : r.isDue key s with
  | false => rw [woken_of_not_isDue due, due]
  | true =>
      obtain ⟨generation, openings, -, -, -, eq⟩ := woken_of_isDue due
      rw [eq]
      simp [isDue, Session.releases]

end Run

namespace Schedule

variable {q q' : Schedule} {key id : Nat} {s : Session} {r : Run}

/-- A run that is let go on is put in the queue. -/
theorem wakeRun_of_isDue (hr : q.run? id = some r) (due : r.isDue key s = true) :
    wakeRun key s q id = (q.setRun id (r.woken key s).state).enqueue (.run id) := by
  obtain ⟨generation, openings, waits, later, own, eq⟩ := Run.woken_of_isDue due
  obtain ⟨owner, state⟩ := r
  subst waits own
  unfold wakeRun
  rw [hr, eq]
  exact if_pos due

theorem wakeRun_of_not_isDue (quiet : ∀ r, q.run? id = some r → r.isDue key s = false) :
    wakeRun key s q id = q := by
  unfold wakeRun
  cases hr : q.run? id with
  | none => rfl
  | some r =>
      obtain ⟨owner, state⟩ := r
      cases state with
      | waiting generation openings =>
          have quiet := quiet _ hr
          exact if_neg (by rw [show (_ && _) = Run.isDue key s ⟨owner, _⟩ from rfl, quiet]; simp)
      | created | sleeping | finished => rfl

theorem run?_wakeRun (q : Schedule) (key : Nat) (s : Session) (id i : Nat) :
    (wakeRun key s q id).run? i =
      if i = id then (q.run? id).map (Run.woken key s) else q.run? i := by
  by_cases due : ∃ r, q.run? id = some r ∧ r.isDue key s = true
  · obtain ⟨r, hr, due⟩ := due
    rw [wakeRun_of_isDue hr due]
    show (q.setRun id _).run? i = _
    rw [run?_setRun, hr]
    split
    · show some (⟨r.owner, (r.woken key s).state⟩ : Run) = some (r.woken key s)
      rw [← @Run.woken_owner key s r]
    · rfl
  · have quiet : ∀ r, q.run? id = some r → r.isDue key s = false := by
      intro r hr
      exact Bool.eq_false_iff.mpr fun h => due ⟨r, hr, h⟩
    rw [wakeRun_of_not_isDue quiet]
    split
    · rename_i same
      subst same
      cases hr : q.run? i with
      | none => rfl
      | some r => exact congrArg some (Run.woken_of_not_isDue (quiet r hr)).symm
    · rfl

/-- Letting runs go on changes runs, and puts some of them in the queue. -/
theorem foldl_wakeRun_eq (key : Nat) (s : Session) (ids : List Nat) (q : Schedule) :
    ∃ (runs : List Run) (woken : List Nat),
      ids.foldl (wakeRun key s) q = { q with runs, next := q.next ++ woken.map .run } := by
  induction ids generalizing q with
  | nil => exact ⟨q.runs, [], by simp⟩
  | cons id ids ih =>
      rw [List.foldl_cons]
      by_cases due : ∃ r, q.run? id = some r ∧ r.isDue key s = true
      · obtain ⟨r, hr, due⟩ := due
        obtain ⟨runs, woken, eq⟩ := ih (wakeRun key s q id)
        refine ⟨runs, id :: woken, ?_⟩
        rw [eq, wakeRun_of_isDue hr due]
        simp [setRun, enqueue]
      · rw [wakeRun_of_not_isDue fun r hr => Bool.eq_false_iff.mpr fun h => due ⟨r, hr, h⟩]
        exact ih q

theorem run?_foldl_wakeRun (key : Nat) (s : Session) (ids : List Nat) (q : Schedule) (i : Nat) :
    (ids.foldl (wakeRun key s) q).run? i =
      if i ∈ ids then (q.run? i).map (Run.woken key s) else q.run? i := by
  induction ids generalizing q with
  | nil => simp
  | cons id ids ih =>
      rw [List.foldl_cons, ih, run?_wakeRun]
      by_cases same : i = id
      · subst same
        have again : Run.woken key s ∘ Run.woken key s = Run.woken key s := by
          funext r
          exact Run.woken_of_not_isDue r.isDue_woken
        simp [again]
      · simp [same]

theorem mem_next_foldl_wakeRun {ids : List Nat} (hi : id ∈ ids) (hr : q.run? id = some r)
    (due : r.isDue key s = true) : .run id ∈ (ids.foldl (wakeRun key s) q).next := by
  induction ids generalizing q with
  | nil => exact absurd hi List.not_mem_nil
  | cons j ids ih =>
      rw [List.foldl_cons]
      by_cases same : j = id
      · subst same
        obtain ⟨runs, woken, eq⟩ := foldl_wakeRun_eq key s ids (wakeRun key s q j)
        rw [eq, wakeRun_of_isDue hr due]
        simp [enqueue]
      · refine ih ((List.mem_cons.mp hi).resolve_left (Ne.symm same)) ?_
        rw [run?_wakeRun, if_neg (Ne.symm same), hr]

/-! ## A session is put back -/

theorem putSession_frame (q : Schedule) (key : Nat) (s : Session) :
    ∃ (runs : List Run) (woken : List Nat), q.putSession key s =
      { q with sessions := q.sessions.set key s, runs, next := q.next ++ woken.map .run } :=
  foldl_wakeRun_eq key s _ _

theorem session?_putSession (q : Schedule) (key : Nat) (s : Session) (k : Nat) :
    (q.putSession key s).session? k =
      if k = key ∧ (q.session? key).isSome then some s else q.session? k := by
  obtain ⟨runs, woken, eq⟩ := putSession_frame q key s
  rw [eq]
  exact session?_set s k

theorem run?_putSession (q : Schedule) (key : Nat) (s : Session) (i : Nat) :
    (q.putSession key s).run? i = (q.run? i).map (Run.woken key s) := by
  unfold putSession
  rw [run?_foldl_wakeRun]
  split
  · rfl
  · rename_i out
    have none : q.run? i = none :=
      List.getElem?_eq_none (Nat.le_of_not_lt fun h => out (List.mem_range.mpr h))
    rw [none]
    exact none

theorem mem_next_putSession (hr : q.run? id = some r) (due : r.isDue key s = true) :
    .run id ∈ (q.putSession key s).next := by
  refine mem_next_foldl_wakeRun (q := { q with sessions := q.sessions.set key s }) ?_ hr due
  exact List.mem_range.mpr (List.getElem?_eq_some_iff.mp hr).1

/-- If nobody is let go on, the session is put back and that is all. -/
theorem putSession_eq (quiet : ∀ id r, q.run? id = some r → r.isDue key s = false) :
    q.putSession key s = { q with sessions := q.sessions.set key s } := by
  unfold putSession
  generalize List.range q.runs.length = ids
  induction ids with
  | nil => rfl
  | cons id ids ih =>
      have same : wakeRun key s { q with sessions := q.sessions.set key s } id = _ :=
        wakeRun_of_not_isDue fun r hr => quiet id r hr
      rw [List.foldl_cons, same]
      exact ih

end Schedule

/-! ## Order -/

/-- A run stands with the new seat of its session once it was let go on if its
turn has come. -/
theorem RunState.Fits.woken {r : Run} {key : Nat} {t : Session} {a : Seat}
    (h : r.state.Fits a) (own : r.owner = key) (p : a.Passes t.seat) :
    (r.woken key t).state.Fits t.seat := by
  obtain ⟨owner, state⟩ := r
  obtain rfl : owner = key := own
  have early : ∀ generation ∈ state.generation?, generation ≤ t.seat.generation := by
    intro generation hg
    exact Nat.le_trans (h.early generation hg) p.generation
  have active : state.generation? = some t.seat.generation → t.seat.runActive = true := by
    intro current
    have same : t.seat.generation = a.generation :=
      Nat.le_antisymm (h.early _ current) p.generation
    exact p.active same (h.active (same ▸ current))
  refine ⟨?_, ?_, ?_⟩
  · rw [Run.woken_generation?]
    exact early
  · rw [Run.woken_generation?]
    exact active
  · intro generation openings still
    cases due : Run.isDue owner t ⟨owner, state⟩ with
    | true =>
        obtain ⟨_, _, -, -, -, eq⟩ := Run.woken_of_isDue due
        rw [eq] at still
        cases still
    | false =>
        rw [Run.woken_of_not_isDue due] at still
        obtain rfl : state = .waiting generation openings := still
        obtain ⟨rfl, rfl, closed⟩ := h.waits _ _ rfl
        have quiet : t.seat.openings = a.openings := by
          have : ¬ a.openings < t.machine.openings := by
            simpa [Run.isDue, Session.releases] using due
          exact Nat.le_antisymm (Nat.le_of_not_lt this) p.openings
        obtain ⟨same, shut⟩ := p.holds closed quiet
        exact ⟨same.symm, quiet.symm, shut⟩

namespace Schedule

/-- What holds of a schedule between two steps. -/
structure Orderly (q : Schedule) : Prop where
  proper : ∀ {key s}, q.session? key = some s → s.Proper
  seats : ∀ {key s}, q.session? key = some s → s.seat.Orderly
  fits : ∀ {id r}, q.run? id = some r → ∃ s, q.session? r.owner = some s ∧ r.state.Fits s.seat
  alone : ∀ {i j r r' s}, q.run? i = some r → q.run? j = some r' → r'.owner = r.owner →
    q.session? r.owner = some s → r.state.generation? = some s.machine.generation →
    r'.state.generation? = some s.machine.generation → j = i

variable {q q' : Schedule} {key id : Nat} {s t : Session} {r : Run}

theorem Orderly.fit (h : q.Orderly) (hr : q.run? id = some r) (hs : q.session? r.owner = some s) :
    r.state.Fits s.seat := by
  obtain ⟨s', hs', fits⟩ := h.fits hr
  obtain rfl : s' = s := Option.some.inj (hs'.symm.trans hs)
  exact fits

/-- What holds of a session that is put back, and held of all before, holds of all
after. -/
theorem forall_putSession {P : Session → Prop} (put : P t)
    (others : ∀ {k u}, q.session? k = some u → P u) {k : Nat} {u : Session}
    (hu : (q.putSession key t).session? k = some u) : P u := by
  rw [session?_putSession] at hu
  split at hu
  · cases hu
    exact put
  · exact others hu

theorem session?_putSession_of_some (hs : q.session? key = some s) (k : Nat) :
    (q.putSession key t).session? k = if k = key then some t else q.session? k := by
  rw [session?_putSession, hs]
  simp

/-- No session goes away when one is put back. -/
theorem isSome_putSession {k : Nat} (there : (q.session? k).isSome = true) :
    ((q.putSession key t).session? k).isSome = true := by
  rw [session?_putSession]
  split
  · rfl
  · exact there

/-- A session that was changed between two segments is put back. -/
theorem Orderly.put (h : q.Orderly) (hs : q.session? key = some s) (proper : t.Proper)
    (seat : t.seat.Orderly)
    (p : ∀ {i r}, q.run? i = some r → r.owner = key → s.seat.Passes t.seat) :
    (q.putSession key t).Orderly := by
  have sessions := session?_putSession_of_some (t := t) hs
  have runs {i : Nat} {r' : Run} (hr' : (q.putSession key t).run? i = some r') :
      ∃ r, q.run? i = some r ∧ r' = r.woken key t := by
    rw [run?_putSession] at hr'
    obtain ⟨r, hr, eq⟩ := Option.map_eq_some_iff.mp hr'
    exact ⟨r, hr, eq.symm⟩
  -- a run of the new generation was one of the old, which then is the same
  have current {i : Nat} {r : Run} (hr : q.run? i = some r) (own : r.owner = key)
      (hg : r.state.generation? = some t.machine.generation) :
      r.state.generation? = some s.machine.generation := by
    have early : t.machine.generation ≤ s.machine.generation :=
      (h.fit hr (own ▸ hs)).early _ hg
    have later : s.machine.generation ≤ t.machine.generation := (p hr own).generation
    rw [hg, Nat.le_antisymm early later]
  refine ⟨forall_putSession proper h.proper, forall_putSession seat h.seats, ?_, ?_⟩
  · intro i r' hr'
    obtain ⟨r, hr, rfl⟩ := runs hr'
    rw [sessions, Run.woken_owner]
    by_cases own : r.owner = key
    · exact ⟨t, if_pos own, (h.fit hr (own ▸ hs)).woken own (p hr own)⟩
    · have quiet : r.isDue key t = false := by simp [Run.isDue, own]
      rw [if_neg own, Run.woken_of_not_isDue quiet]
      exact h.fits hr
  · intro i j r₁ r₂ u h₁ h₂ own hu g₁ g₂
    obtain ⟨r₁, hr₁, rfl⟩ := runs h₁
    obtain ⟨r₂, hr₂, rfl⟩ := runs h₂
    rw [Run.woken_owner, Run.woken_owner] at own
    rw [sessions, Run.woken_owner] at hu
    rw [Run.woken_generation?] at g₁ g₂
    split at hu
    · rename_i owned
      cases hu
      exact h.alone hr₁ hr₂ own (owned ▸ hs) (current hr₁ owned g₁)
        (current hr₂ (own.trans owned) g₂)
    · exact h.alone hr₁ hr₂ own hu g₁ g₂

/-- A run that stands with the seat of its session does not wait in vain. -/
theorem not_isDue_of_fits {r : Run} (h : r.owner = key → r.state.Fits t.seat) :
    r.isDue key t = false := by
  cases due : r.isDue key t with
  | false => rfl
  | true =>
      obtain ⟨generation, openings, waits, later, own, -⟩ := Run.woken_of_isDue due
      obtain ⟨-, same, -⟩ := (h own).waits generation openings waits
      have same : openings = t.machine.openings := same
      omega

section Ran

variable {after : RunState} (h : q.Orderly) (hr : q.run? id = some r)
  (hs : q.session? r.owner = some s) (hran : Seat.Ran r.state after s.seat t.seat)

include h hr hs hran

/-- After a segment the runs of the session stand with its seat. -/
theorem Orderly.fits_ran {i : Nat} {r' : Run} (hr' : (q.setRun id after).run? i = some r')
    (own : r'.owner = r.owner) : r'.state.Fits t.seat := by
  rw [run?_setRun] at hr'
  split at hr'
  · rw [hr] at hr'
    cases hr'
    exact hran.fits (h.seats hs) (h.fit hr hs)
  · rename_i other
    refine hran.others (h.fit hr' (own ▸ hs)) ?_
    intro current current'
    exact other (h.alone hr hr' own hs current current')

/-- A segment lets nobody go on. -/
theorem Orderly.putSession_ran :
    (q.setRun id after).putSession r.owner t =
      { q.setRun id after with sessions := q.sessions.set r.owner t } := by
  refine putSession_eq fun i r' hr' => not_isDue_of_fits ?_
  intro own
  exact h.fits_ran hr hs hran hr' own

/-- If a run is current after its segment, no other run of the session is. -/
theorem Orderly.alone_ran {j : Nat} {r' : Run} (hr' : q.run? j = some r')
    (own : r'.owner = r.owner) (hg : after.generation? = some t.machine.generation)
    (hg' : r'.state.generation? = some t.machine.generation) : j = id := by
  have same : t.machine.generation = s.machine.generation := hran.generation
  rw [same] at hg'
  rcases hran.current hg with before | free
  · exact h.alone hr hr' own hs before hg'
  · have active := (h.fit hr' (own ▸ hs)).active hg'
    rw [active] at free
    cases free

/-- A segment of a run was run. -/
theorem Orderly.ran (proper : t.Proper) : ((q.setRun id after).putSession r.owner t).Orderly := by
  have there : (q.setRun id after).session? r.owner = some s := hs
  have sessions (k : Nat) : ((q.setRun id after).putSession r.owner t).session? k =
      if k = r.owner then some t else q.session? k := session?_putSession_of_some there k
  have runs (i : Nat) : ((q.setRun id after).putSession r.owner t).run? i =
      (q.setRun id after).run? i := by
    rw [h.putSession_ran hr hs hran]
    rfl
  have same : t.machine.generation = s.machine.generation := hran.generation
  refine ⟨forall_putSession (q := q.setRun id after) proper h.proper,
    forall_putSession (q := q.setRun id after) (hran.orderly (h.seats hs)) h.seats, ?_, ?_⟩
  · intro i r' hr'
    rw [runs] at hr'
    rw [sessions]
    by_cases own : r'.owner = r.owner
    · exact ⟨t, if_pos own, h.fits_ran hr hs hran hr' own⟩
    · rw [if_neg own]
      rw [run?_setRun] at hr'
      split at hr'
      · rw [hr] at hr'
        cases hr'
        exact absurd rfl own
      · exact h.fits hr'
  · intro i j r₁ r₂ u h₁ h₂ own hu g₁ g₂
    rw [runs, run?_setRun] at h₁ h₂
    rw [sessions] at hu
    split at h₁
    · rename_i first
      rw [hr] at h₁
      cases h₁
      rw [if_pos rfl] at hu
      cases hu
      split at h₂
      · rename_i second
        rw [first, second]
      · rename_i second
        exact absurd (h.alone_ran hr hs hran h₂ own g₁ g₂) second
    · rename_i first
      split at h₂
      · rw [hr] at h₂
        cases h₂
        rw [if_pos own.symm] at hu
        cases hu
        exact absurd (h.alone_ran hr hs hran h₁ own.symm g₂ g₁) first
      · split at hu
        · rename_i owned
          cases hu
          rw [same] at g₁ g₂
          exact h.alone h₁ h₂ own (owned ▸ hs) g₁ g₂
        · exact h.alone h₁ h₂ own hu g₁ g₂

end Ran

/-! ## Steps -/

theorem Orderly.enqueue (h : q.Orderly) (job : Job) : (q.enqueue job).Orderly :=
  ⟨h.proper, h.seats, h.fits, h.alone⟩

theorem command_of_some (hs : q.session? key = some s) (c : Control) :
    q.command key c = q.putSession key (s.control c).2 := by
  simp only [Schedule.command, hs]

theorem session?_command (hs : q.session? key = some s) (c : Control) :
    (q.command key c).session? key = some (s.control c).2 := by
  rw [command_of_some hs, session?_putSession, hs]
  exact if_pos ⟨rfl, rfl⟩

theorem Orderly.command (h : q.Orderly) (key : Nat) (c : Control) : (q.command key c).Orderly := by
  unfold Schedule.command
  cases hs : q.session? key with
  | none => exact h
  | some s =>
      have turns := Session.control_turns (h.proper hs) c
      exact h.put hs ((h.proper hs).control c) (turns.seat.orderly (h.seats hs))
        fun _ _ => turns.seat.passes (h.seats hs)

/-- What doing a job comes to. -/
inductive Performed (q : Schedule) : Job → Schedule → Prop
  /-- The run or its session is not there, or the timer was cancelled. -/
  | nothing {job : Job} :
      (∀ id r, job = .run id → q.run? id = some r → q.session? r.owner = none) →
      Performed q job q
  /-- The run gives way, and is put in the queue again. -/
  | gaveWay {id generation : Nat} {r : Run} {s : Session} : q.run? id = some r →
      q.session? r.owner = some s → (s.segment r.state).1 = .sleeping generation →
      Performed q (.run id)
        (((q.setRun id (.sleeping generation)).putSession r.owner (s.segment r.state).2).enqueue
          (.run id))
  /-- The run waits, or it is over. -/
  | rests {id : Nat} {r : Run} {s : Session} : q.run? id = some r →
      q.session? r.owner = some s → (∀ generation, (s.segment r.state).1 ≠ .sleeping generation) →
      Performed q (.run id)
        ((q.setRun id (s.segment r.state).1).putSession r.owner (s.segment r.state).2)
  | fired {key serial : Nat} {task : String} {s : Session} : q.session? key = some s →
      s.clock.isCancelled serial = false →
      Performed q (.timer key serial task)
        (q.putSession key (s.run fun host => Act.fire host task).2)

theorem performed (q : Schedule) (job : Job) : Performed q job (q.perform job) := by
  cases job with
  | run id =>
      cases hr : q.run? id with
      | none =>
          have same : q.perform (.run id) = q := by simp only [Schedule.perform, hr]
          rw [same]
          refine .nothing ?_
          rintro _ r ⟨⟩ hr'
          rw [hr] at hr'
          cases hr'
      | some r =>
          cases hs : q.session? r.owner with
          | none =>
              have same : q.perform (.run id) = q := by simp only [Schedule.perform, hr, hs]
              rw [same]
              refine .nothing ?_
              rintro _ r' ⟨⟩ hr'
              rw [hr] at hr'
              cases hr'
              exact hs
          | some s =>
              simp only [Schedule.perform, hr, hs]
              split
              · rename_i generation sleeps
                rw [sleeps]
                exact .gaveWay hr hs sleeps
              · rename_i rests
                exact .rests hr hs fun generation sleeps => rests generation sleeps
  | timer key serial task =>
      cases hs : q.session? key with
      | none =>
          have same : q.perform (.timer key serial task) = q := by
            simp only [Schedule.perform, hs]
          rw [same]
          exact .nothing fun _ _ h => by cases h
      | some s =>
          simp only [Schedule.perform, hs]
          split
          · exact .nothing fun _ _ h => by cases h
          · rename_i on
            exact .fired hs (by simpa using on)

/-- What a step comes to for a session. -/
inductive Evolved (q q' : Schedule) (key : Nat) (s : Session) : Session → Prop
  | still : Evolved q q' key s s
  | command (c : Control) : q' = q.command key c → Evolved q q' key s (s.control c).2
  | segment {id : Nat} {r : Run} : q.run? id = some r → r.owner = key →
      Evolved q q' key s (s.segment r.state).2
  | fire {serial : Nat} {task : String} : .timer key serial task ∈ q.ready →
      s.clock.isCancelled serial = false →
      Evolved q q' key s (s.run fun host => Act.fire host task).2
  | takeTimers : s.realtime = true →
      Evolved q q' key s { s with clock := { s.clock with queue := [] } }

theorem session?_takeTimers (q : Schedule) (key : Nat) :
    q.takeTimers.session? key = (q.session? key).map fun s =>
      if s.realtime then { s with clock := { s.clock with queue := [] } } else s := by
  unfold takeTimers session?
  exact List.getElem?_map ..

theorem session?_put_of_some {k : Nat} {t : Session} (hs : q.session? key = some s)
    (hk : q.session? k = some t) (u : Session) :
    (q.putSession k u).session? key = some (if key = k then u else s) := by
  rw [session?_putSession, hk, hs]
  by_cases same : key = k
  · simp [same]
  · simp [same]

/-- The job was the first one of the round of `q`. -/
theorem Performed.evolved {q₀ : Schedule} {job : Job} (h : Performed q₀ job q')
    (runs : q₀.runs = q.runs) (ready : job ∈ q.ready) (hs : q₀.session? key = some s) :
    ∃ t, q'.session? key = some t ∧ Evolved q q' key s t := by
  have ran {id : Nat} {r : Run} {u : Session} (after : RunState) (hr : q₀.run? id = some r)
      (hu : q₀.session? r.owner = some u) :
      ∃ t, ((q₀.setRun id after).putSession r.owner (u.segment r.state).2).session? key = some t ∧
        Evolved q q' key s t := by
    refine ⟨_, session?_put_of_some (q := q₀.setRun id after) hs hu _, ?_⟩
    by_cases same : key = r.owner
    · subst same
      obtain rfl : s = u := Option.some.inj (hs.symm.trans hu)
      rw [if_pos rfl]
      have here : q.run? id = some r := by
        rw [run?, ← runs]
        exact hr
      exact .segment here rfl
    · rw [if_neg same]
      exact .still
  cases h with
  | nothing => exact ⟨s, hs, .still⟩
  | gaveWay hr hu _ => exact ran _ hr hu
  | rests hr hu _ => exact ran _ hr hu
  | @fired k serial task u hu on =>
      refine ⟨_, session?_put_of_some hs hu _, ?_⟩
      by_cases same : key = k
      · subst same
        obtain rfl : s = u := Option.some.inj (hs.symm.trans hu)
        rw [if_pos rfl]
        exact .fire ready on
      · rw [if_neg same]
        exact .still

/-- A session that is there stays there, and this is what happens to it. -/
theorem Step.evolved (step : q.Step q') (hs : q.session? key = some s) :
    ∃ t, q'.session? key = some t ∧ Evolved q q' key s t := by
  cases step with
  | create speed limits realtime =>
      exact ⟨s, (List.getElem?_append_left (List.getElem?_eq_some_iff.mp hs).1).trans hs, .still⟩
  | start => exact ⟨s, hs, .still⟩
  | command k c =>
      cases hk : q.session? k with
      | none =>
          have same : q.command k c = q := by simp only [Schedule.command, hk]
          exact ⟨s, by rw [same]; exact hs, .still⟩
      | some u =>
          have put : q.command k c = q.putSession k (u.control c).2 := by
            simp only [Schedule.command, hk]
          refine ⟨_, by rw [put]; exact session?_put_of_some hs hk _, ?_⟩
          by_cases same : key = k
          · subst same
            obtain rfl : s = u := Option.some.inj (hs.symm.trans hk)
            rw [if_pos rfl]
            exact .command c rfl
          · rw [if_neg same]
            exact .still
  | @job job rest next =>
      refine (performed { q with ready := rest } job).evolved rfl ?_ hs
      rw [next]
      exact List.mem_cons_self
  | round _ =>
      refine ⟨_, (session?_takeTimers q key).trans (by rw [hs]; rfl), ?_⟩
      dsimp only
      split
      · rename_i realtime
        exact .takeTimers realtime
      · exact .still

theorem Orderly.segment (h : q.Orderly) (hr : q.run? id = some r)
    (hs : q.session? r.owner = some s) :
    ((q.setRun id (s.segment r.state).1).putSession r.owner (s.segment r.state).2).Orderly := by
  have turns := Session.segment_turns (h.proper hs).hooks r.state
  refine h.ran hr hs turns.seat ((h.proper hs).segment fun current => ?_)
  exact ((h.seats hs).begun ((h.fit hr hs).active current)).1

theorem Orderly.perform (h : q.Orderly) (job : Job) : (q.perform job).Orderly := by
  have performed := q.performed job
  generalize q.perform job = q' at performed
  cases performed with
  | nothing => exact h
  | @gaveWay id generation r s hr hs sleeps =>
      have ran := h.segment hr hs
      rw [sleeps] at ran
      exact ran.enqueue _
  | rests hr hs _ => exact h.segment hr hs
  | @fired key serial task s hs _ =>
      have stays : s.Turns Eq (s.run fun host => Act.fire host task).2 := by
        rw [Session.run_eq (h.proper hs).hooks]
        exact (Act.stays_fire task s).after
      refine h.put hs ((h.proper hs).fire task) ?_ fun _ _ => ?_
      · rw [← stays.seat]
        exact h.seats hs
      · rw [← stays.seat]
        exact .refl _

theorem Orderly.beginRound (h : q.Orderly) : q.beginRound.Orderly := by
  have sessions {k : Nat} {t : Session} (ht : q.beginRound.session? k = some t) :
      ∃ s clock, q.session? k = some s ∧ t = { s with clock } := by
    rw [show q.beginRound.session? k = q.takeTimers.session? k from rfl,
      session?_takeTimers] at ht
    obtain ⟨s, hs, eq⟩ := Option.map_eq_some_iff.mp ht
    split at eq
    · exact ⟨s, _, hs, eq.symm⟩
    · exact ⟨s, s.clock, hs, eq.symm⟩
  refine ⟨?_, ?_, ?_, ?_⟩
  · intro k t ht
    obtain ⟨s, clock, hs, rfl⟩ := sessions ht
    exact (h.proper hs).setClock clock
  · intro k t ht
    obtain ⟨s, clock, hs, rfl⟩ := sessions ht
    have seat : s.seat.Orderly := h.seats hs
    exact seat
  · intro id r hr
    obtain ⟨s, hs, fits⟩ := h.fits hr
    refine ⟨_, (session?_takeTimers q r.owner).trans (by rw [hs]; rfl), ?_⟩
    dsimp only
    split
    · exact fits
    · exact fits
  · intro i j r r' t hr hr' own ht g g'
    obtain ⟨s, clock, hs, rfl⟩ := sessions ht
    exact h.alone hr hr' own hs g g'

theorem session?_addSession (q : Schedule) (t : Session) (k : Nat) :
    (q.addSession t).1.session? k =
      if k = q.sessions.length then some t else q.session? k := by
  show (q.sessions ++ [t])[k]? = _
  rw [List.getElem?_append]
  split
  · rename_i old
    rw [if_neg (Nat.ne_of_lt old)]
    rfl
  · split
    · rename_i new
      simp [new]
    · rename_i old new
      rw [session?, List.getElem?_eq_none (by simp; omega), List.getElem?_eq_none (by omega)]

/-- No run is there of a session that is not. -/
theorem Orderly.owner_lt (h : q.Orderly) (hr : q.run? id = some r) :
    r.owner < q.sessions.length := by
  obtain ⟨s, hs, -⟩ := h.fits hr
  exact (List.getElem?_eq_some_iff.mp hs).1

theorem Orderly.add (h : q.Orderly) (proper : t.Proper) (seat : t.seat.Orderly) :
    (q.addSession t).1.Orderly := by
  have kept {i : Nat} {r : Run} (hr : q.run? i = some r) :
      (q.addSession t).1.session? r.owner = q.session? r.owner := by
    rw [session?_addSession, if_neg (Nat.ne_of_lt (h.owner_lt hr))]
  refine ⟨?_, ?_, ?_, ?_⟩
  · intro k u hu
    rw [session?_addSession] at hu
    split at hu
    · cases hu
      exact proper
    · exact h.proper hu
  · intro k u hu
    rw [session?_addSession] at hu
    split at hu
    · cases hu
      exact seat
    · exact h.seats hu
  · intro id r hr
    rw [kept hr]
    exact h.fits hr
  · intro i j r r' u hr hr' own hu g g'
    rw [kept hr] at hu
    exact h.alone hr hr' own hu g g'

theorem Orderly.create (h : q.Orderly) (speed : Int) (limits : Limits) (realtime : Bool) :
    (q.addSession (.create speed limits realtime)).1.Orderly :=
  h.add (.inr (Session.create_vacant speed limits realtime))
    (Seat.orderly_of_inactive rfl fun closed => by cases closed)

/-- A run is ended from outside. -/
theorem Orderly.setRun_finished (h : q.Orderly) (id : Nat) :
    (q.setRun id (.finished none)).Orderly := by
  refine ⟨h.proper, h.seats, ?_, ?_⟩
  · intro i r hr
    rw [run?_setRun] at hr
    split at hr
    · obtain ⟨r, there, rfl⟩ := Option.map_eq_some_iff.mp hr
      obtain ⟨s, hs, -⟩ := h.fits there
      exact ⟨s, hs, .of_none rfl _⟩
    · exact h.fits hr
  · intro i j r r' t hr hr' own ht g g'
    rw [run?_setRun] at hr hr'
    split at hr
    · obtain ⟨r, -, rfl⟩ := Option.map_eq_some_iff.mp hr
      cases g
    · split at hr'
      · obtain ⟨r', -, rfl⟩ := Option.map_eq_some_iff.mp hr'
        cases g'
      · exact h.alone hr hr' own ht g g'

theorem run?_start (q : Schedule) (key : Nat) (direct : Bool) (i : Nat) :
    (q.start key direct).1.run? i =
      if i = q.runs.length then some ⟨key, .created direct⟩ else q.run? i := by
  show (q.runs ++ [(⟨key, .created direct⟩ : Run)])[i]? = _
  rw [List.getElem?_append]
  split
  · rename_i old
    rw [if_neg (Nat.ne_of_lt old)]
    rfl
  · rename_i new
    split
    · rename_i last
      simp [last]
    · rename_i out
      rw [List.getElem?_eq_none (by simp; omega)]
      exact (List.getElem?_eq_none (Nat.le_of_not_lt new)).symm

theorem Orderly.start (h : q.Orderly) (there : (q.session? key).isSome = true) (direct : Bool) :
    (q.start key direct).1.Orderly := by
  obtain ⟨s, hs⟩ := Option.isSome_iff_exists.mp there
  refine ⟨h.proper, h.seats, ?_, ?_⟩
  · intro i r hr
    rw [run?_start] at hr
    split at hr
    · cases hr
      exact ⟨s, hs, .of_none rfl _⟩
    · exact h.fits hr
  · intro i j r r' t hr hr' own ht g g'
    rw [run?_start] at hr hr'
    split at hr
    · cases hr
      cases g
    · split at hr'
      · cases hr'
        cases g'
      · exact h.alone hr hr' own ht g g'

theorem Orderly.step {q' : Schedule} (h : q.Orderly) (step : q.Step q') : q'.Orderly := by
  cases step with
  | create speed limits realtime => exact h.create speed limits realtime
  | start direct there => exact h.start there direct
  | command key c => exact h.command key c
  | job _ =>
      refine Orderly.perform ?_ _
      exact ⟨h.proper, h.seats, h.fits, h.alone⟩
  | round _ => exact h.beginRound

theorem Reachable.orderly (h : q.Reachable) : q.Orderly := by
  induction h with
  | refl => exact ⟨by simp [session?], by simp [session?], by simp [run?], by simp [run?]⟩
  | tail _ step ih => exact ih.step step

/-! ## What a step comes to for a run -/

/-- A run stays what it is, or is let go on, or has a segment of its session. -/
def Continues (q : Schedule) (r r' : Run) : Prop :=
  r'.owner = r.owner ∧
    (r'.state = r.state ∨
      (∃ generation openings, r.state = .waiting generation openings ∧
        r'.state = .sleeping generation) ∨
      ∃ s, q.session? r.owner = some s ∧ r'.state = (s.segment r.state).1)

theorem Continues.refl (q : Schedule) (r : Run) : q.Continues r r := ⟨rfl, .inl rfl⟩

theorem continues_woken (q : Schedule) (key : Nat) (s : Session) (r : Run) :
    q.Continues r (r.woken key s) := by
  cases due : r.isDue key s with
  | false =>
      rw [Run.woken_of_not_isDue due]
      exact .refl q r
  | true =>
      obtain ⟨generation, openings, waits, -, own, eq⟩ := Run.woken_of_isDue due
      rw [eq]
      exact ⟨own.symm, .inr (.inl ⟨generation, openings, waits, rfl⟩)⟩

theorem continues_putSession (q₀ : Schedule) {key : Nat} {s : Session} (hr : q.run? id = some r) :
    ∃ r', (q.putSession key s).run? id = some r' ∧ q₀.Continues r r' :=
  ⟨r.woken key s, by rw [run?_putSession, hr]; rfl, continues_woken q₀ key s r⟩

theorem Orderly.continues_ran (h : q.Orderly) {i : Nat} {r₀ : Run} (hr₀ : q.run? i = some r₀)
    (hs : q.session? r₀.owner = some s) (hr : q.run? id = some r) :
    ∃ r', ((q.setRun i (s.segment r₀.state).1).putSession r₀.owner
      (s.segment r₀.state).2).run? id = some r' ∧ q.Continues r r' := by
  rw [h.putSession_ran hr₀ hs (Session.segment_turns (h.proper hs).hooks r₀.state).seat]
  show ∃ r', (q.setRun i (s.segment r₀.state).1).run? id = some r' ∧ _
  rw [run?_setRun]
  by_cases same : id = i
  · subst same
    obtain rfl : r₀ = r := Option.some.inj (hr₀.symm.trans hr)
    rw [if_pos rfl, hr]
    exact ⟨_, rfl, rfl, .inr (.inr ⟨s, hs, rfl⟩)⟩
  · rw [if_neg same, hr]
    exact ⟨r, rfl, .refl q r⟩

theorem Orderly.continues_perform (h : q.Orderly) (job : Job) (hr : q.run? id = some r) :
    ∃ r', (q.perform job).run? id = some r' ∧ q.Continues r r' := by
  have performed := q.performed job
  generalize q.perform job = q' at performed
  cases performed with
  | nothing => exact ⟨r, hr, .refl q r⟩
  | gaveWay hr₀ hs sleeps =>
      rw [← sleeps]
      exact h.continues_ran hr₀ hs hr
  | rests hr₀ hs _ => exact h.continues_ran hr₀ hs hr
  | fired => exact continues_putSession q hr

theorem Orderly.continues (h : q.Orderly) {q' : Schedule} (step : q.Step q')
    (hr : q.run? id = some r) : ∃ r', q'.run? id = some r' ∧ q.Continues r r' := by
  cases step with
  | create => exact ⟨r, hr, .refl q r⟩
  | start =>
      refine ⟨r, ?_, .refl q r⟩
      rw [run?_start, if_neg (Nat.ne_of_lt (List.getElem?_eq_some_iff.mp hr).1)]
      exact hr
  | command key c =>
      unfold Schedule.command
      cases q.session? key with
      | none => exact ⟨r, hr, .refl q r⟩
      | some s => exact continues_putSession q hr
  | @job job rest _ =>
      have ordered : ({ q with ready := rest } : Schedule).Orderly :=
        ⟨h.proper, h.seats, h.fits, h.alone⟩
      exact ordered.continues_perform job hr
  | round => exact ⟨r, hr, .refl q r⟩

end Schedule

/-! ## The queue -/

/-- Whether a run has a segment to run. -/
def RunState.isAwake : RunState → Bool
  | .created _ | .sleeping _ => true
  | .waiting _ _ | .finished _ => false

/-- The run that a job goes on with. -/
def Job.run? : Job → Option Nat
  | .run id => some id
  | .timer _ _ _ => none

/-- A segment leaves a run with a segment to run only if it gives way. -/
theorem Seat.Ran.sleeps {state after : RunState} {a b : Seat} (h : Ran state after a b)
    (awake : after.isAwake = true) : ∃ generation, after = .sleeping generation := by
  have turned {a : Seat} (ht : a.Turned after b) : ∃ generation, after = .sleeping generation := by
    rcases ht with ⟨sleeps, -⟩ | ⟨ended, -⟩
    · exact ⟨_, sleeps⟩
    · cases after with
      | finished => cases awake
      | created | sleeping | waiting => cases ended
  rcases h.cases with ⟨-, ended | ⟨-, -, rfl⟩⟩ | ⟨-, -, ht⟩ | ⟨-, ht⟩
  · cases after with
    | finished => cases awake
    | created | sleeping | waiting => cases ended
  · cases awake
  · exact turned ht
  · exact turned ht

namespace Schedule

variable {q q' : Schedule} {key id : Nat} {s : Session} {r : Run}

/-- Every run that has a segment to run is in the queue, save possibly one. -/
def QueuedBut (id? : Option Nat) (q : Schedule) : Prop :=
  ∀ i r, q.run? i = some r → r.state.isAwake = true → id? ≠ some i → .run i ∈ q.ready ++ q.next

theorem QueuedBut.put {id? : Option Nat} (h : q.QueuedBut id?) (key : Nat) (s : Session) :
    (q.putSession key s).QueuedBut id? := by
  intro i r' hr' awake other
  rw [run?_putSession] at hr'
  obtain ⟨r, hr, rfl⟩ := Option.map_eq_some_iff.mp hr'
  cases due : r.isDue key s with
  | true => exact List.mem_append.mpr (.inr (mem_next_putSession hr due))
  | false =>
      rw [Run.woken_of_not_isDue due] at awake
      obtain ⟨runs, woken, eq⟩ := putSession_frame q key s
      rw [eq]
      have there := h i r hr awake other
      simp only [List.mem_append] at there ⊢
      exact there.imp_right .inl

/-- A run that has no segment to run need not be in the queue. -/
theorem QueuedBut.rest (h : q.QueuedBut (some id)) {state : RunState}
    (rests : state.isAwake = false) : (q.setRun id state).QueuedBut none := by
  intro i r hr awake _
  rw [run?_setRun] at hr
  split at hr
  · obtain ⟨r, -, rfl⟩ := Option.map_eq_some_iff.mp hr
    exact absurd (rests.symm.trans awake) (by simp)
  · rename_i other
    exact h i r hr awake fun same => other (Option.some.inj same).symm

/-- A run that gives way is put in the queue again. -/
theorem QueuedBut.setRun (h : q.QueuedBut (some id)) (state : RunState) :
    (q.setRun id state).QueuedBut (some id) := by
  intro i r hr awake other
  rw [run?_setRun, if_neg (fun same => other (by rw [same]))] at hr
  exact h i r hr awake other

theorem QueuedBut.enqueue (h : q.QueuedBut (some id)) : (q.enqueue (.run id)).QueuedBut none := by
  intro i r hr awake _
  by_cases same : i = id
  · simp [Schedule.enqueue, same]
  · have there := h i r hr awake fun eq => same (Option.some.inj eq).symm
    simp only [Schedule.enqueue, List.mem_append] at there ⊢
    exact there.imp_right .inl

/-- The first job of the round is taken. -/
theorem QueuedBut.take {job : Job} {rest : List Job} (h : q.QueuedBut none)
    (next : q.ready = job :: rest) :
    ({ q with ready := rest } : Schedule).QueuedBut job.run? := by
  intro i r hr awake other
  have there := h i r hr awake (by simp)
  rw [next] at there
  rcases List.mem_append.mp there with ready | later
  · rcases List.mem_cons.mp ready with rfl | ready
    · exact absurd rfl other
    · exact List.mem_append.mpr (.inl ready)
  · exact List.mem_append.mpr (.inr later)

theorem QueuedBut.perform {job : Job} (ordered : q.Orderly) (h : q.QueuedBut job.run?) :
    (q.perform job).QueuedBut none := by
  have performed := q.performed job
  generalize q.perform job = q' at performed
  cases performed with
  | nothing gone =>
      cases job with
      | timer => exact h
      | run id =>
          intro i r hr awake _
          refine h i r hr awake fun same => ?_
          obtain ⟨s, hs, -⟩ := ordered.fits hr
          have none := gone i r (congrArg Job.run (Option.some.inj same)) hr
          exact absurd (none.symm.trans hs) (by simp)
  | gaveWay => exact ((h.setRun _).put _ _).enqueue
  | @rests id r s hr hs rests =>
      have ran := (Session.segment_turns (ordered.proper hs).hooks r.state).seat
      refine (h.rest ?_).put _ _
      cases awake : (s.segment r.state).1.isAwake with
      | false => rfl
      | true =>
          obtain ⟨generation, sleeps⟩ := ran.sleeps awake
          exact absurd sleeps (rests generation)
  | fired => exact h.put _ _

/-- Every run that has a segment to run is in the queue. -/
theorem Reachable.queued (h : q.Reachable) : q.QueuedBut none := by
  induction h with
  | refl =>
      intro i r hr
      cases hr
  | @tail q q' reached step ih =>
      cases step with
      | create => exact ih
      | @start key direct _ =>
          intro i r hr awake _
          rw [run?_start] at hr
          split at hr
          · rename_i new
            simp [Schedule.start, Schedule.enqueue, new]
          · have there := ih i r hr awake (by simp)
            simp only [Schedule.start, Schedule.enqueue, List.mem_append] at there ⊢
            exact there.imp_right .inl
      | command key c =>
          unfold Schedule.command
          cases q.session? key with
          | none => exact ih
          | some s => exact ih.put _ _
      | job next =>
          have ordered := Reachable.orderly reached
          exact (ih.take next).perform ⟨ordered.proper, ordered.seats, ordered.fits, ordered.alone⟩
      | round done =>
          intro i r hr awake _
          have there := ih i r hr awake (by simp)
          rw [done, List.nil_append] at there
          show Job.run i ∈ (q.next ++ q.dueTimers) ++ []
          simp [there]

/-! ## Giving way -/

/-- The schedule with other jobs left of this round. -/
def withReady (q : Schedule) (ready : List Job) : Schedule := { q with ready }

theorem wakeRun_withReady (ready : List Job) :
    wakeRun key s (q.withReady ready) id = (wakeRun key s q id).withReady ready := by
  unfold wakeRun
  rw [show (q.withReady ready).run? id = q.run? id from rfl]
  cases q.run? id with
  | none => rfl
  | some r =>
      obtain ⟨owner, state⟩ := r
      cases state with
      | waiting generation openings =>
          dsimp only
          split
          · rfl
          · rfl
      | created | sleeping | finished => rfl

theorem putSession_withReady (q : Schedule) (key : Nat) (s : Session) (ready : List Job) :
    (q.withReady ready).putSession key s = (q.putSession key s).withReady ready := by
  have folds (ids : List Nat) (q : Schedule) :
      ids.foldl (wakeRun key s) (q.withReady ready) =
        (ids.foldl (wakeRun key s) q).withReady ready := by
    induction ids generalizing q with
    | nil => rfl
    | cons id ids ih => rw [List.foldl_cons, List.foldl_cons, wakeRun_withReady, ih]
  exact folds _ { q with sessions := q.sessions.set key s }

/-- A job has no part in the jobs that are left of the round. -/
theorem perform_withReady (q : Schedule) (job : Job) (ready : List Job) :
    (q.withReady ready).perform job = (q.perform job).withReady ready := by
  cases job with
  | run id =>
      unfold Schedule.perform
      dsimp only
      rw [show (q.withReady ready).run? id = q.run? id from rfl]
      cases q.run? id with
      | none => rfl
      | some r =>
          dsimp only
          rw [show (q.withReady ready).session? r.owner = q.session? r.owner from rfl]
          cases q.session? r.owner with
          | none => rfl
          | some s =>
              dsimp only
              rw [show (q.withReady ready).setRun id (s.segment r.state).1 =
                (q.setRun id (s.segment r.state).1).withReady ready from rfl, putSession_withReady]
              split
              · rfl
              · rfl
  | timer key serial task =>
      unfold Schedule.perform
      dsimp only
      rw [show (q.withReady ready).session? key = q.session? key from rfl]
      cases q.session? key with
      | none => rfl
      | some s =>
          dsimp only
          rw [putSession_withReady]
          split
          · rfl
          · rfl

/-- Doing the first jobs of a round is doing them one after the other. -/
theorem steps_foldl_perform (jobs rest : List Job) (q : Schedule) (h : q.ready = jobs ++ rest) :
    ReflTransGen Step q (jobs.foldl perform (q.withReady rest)) ∧
      (jobs.foldl perform (q.withReady rest)).ready = rest := by
  induction jobs generalizing q with
  | nil =>
      have same : q.withReady rest = q := by
        unfold withReady
        rw [← List.nil_append rest, ← h]
      rw [List.foldl_nil, same]
      exact ⟨.refl, h⟩
  | cons job jobs ih =>
      have step : Step q ((q.withReady (jobs ++ rest)).perform job) := .job h
      rw [perform_withReady] at step
      obtain ⟨steps, ready⟩ := ih ((q.perform job).withReady (jobs ++ rest)) rfl
      rw [List.foldl_cons, perform_withReady]
      exact ⟨.head step steps, ready⟩

/-- A caller that gives way lets others do theirs, step by step. -/
theorem steps_tick (q : Schedule) : ReflTransGen Step q q.tick := by
  obtain ⟨finished, done⟩ := steps_foldl_perform q.ready [] q (List.append_nil _).symm
  have round : Step q.finishRound q.finishRound.beginRound := .round done
  have first := (steps_foldl_perform (q.finishRound.beginRound.ready.take q.next.length)
    (q.finishRound.beginRound.ready.drop q.next.length) q.finishRound.beginRound
    (List.take_append_drop ..).symm).1
  exact finished.trans (.head round first)

namespace Reachable

theorem empty : Reachable {} := .refl

theorem create (h : q.Reachable) (speed : Int) (limits : Limits) (realtime : Bool) :
    (q.addSession (.create speed limits realtime)).1.Reachable :=
  h.tail (.create speed limits realtime)

theorem start (h : q.Reachable) (there : (q.session? key).isSome = true) (direct : Bool) :
    (q.start key direct).1.Reachable :=
  h.tail (.start direct there)

theorem command (h : q.Reachable) (key : Nat) (c : Control) : (q.command key c).Reachable :=
  h.tail (.command key c)

theorem tick (h : q.Reachable) : q.tick.Reachable := h.trans (steps_tick q)

theorem round (h : q.Reachable) (done : q.ready.isEmpty = true) : q.beginRound.Reachable :=
  h.tail (.round (List.isEmpty_iff.mp done))

/-- The first job of the round is the turn of a run. -/
theorem turn (h : q.Reachable) (first : q.ready.head?.bind Job.run? = some id) :
    ((q.withReady q.ready.tail).perform (.run id)).Reachable := by
  obtain ⟨job, head, runs⟩ := Option.bind_eq_some_iff.mp first
  obtain ⟨rest, ready⟩ := List.head?_eq_some_iff.mp head
  cases job with
  | run i =>
      obtain rfl : i = id := Option.some.inj runs
      rw [ready]
      exact h.tail (.job ready)
  | timer => cases runs

end Reachable

end Schedule

end Runloop
