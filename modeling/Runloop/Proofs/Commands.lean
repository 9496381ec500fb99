/-
# Control operations drive

The operations that a caller has (load, step, pause, resume, stop, the pacing
delay, and the turns of a run) are made of the single things of `Drive`.  So
they lead from sessions that are reached to sessions that are reached, and since
those are sound, it makes no difference to any of them which reader looks names
up (`control_reader`, `segment_leads`).

Steps and the turns of a run keep to fewer things, the `Stride`s: above all they
end a program only when no work is left.
-/
import Runloop.Proofs.Code

namespace Runloop

open Relation (ReflTransGen)

/-- Whether a control operation drives the program that is loaded. -/
def Control.drives : Control → Bool
  | .pause | .resume | .stop | .step | .setSpeed _ => true
  | .reset | .close | .load _ => false

/-- Whether a control operation drives the program neither to its end nor at
another pace. -/
def Control.strides : Control → Bool
  | .pause | .resume | .step => true
  | _ => false

/-- A session that some run of a program comes to. -/
def Session.Live (s : Session) : Prop := ∃ why, Reached why s

namespace Session.Live

variable {s t : Session} {fault : Option Fault}

theorem drive (h : s.Live) (d : Drive s fault t) : t.Live := by
  obtain ⟨why, h⟩ := h
  exact ⟨_, h.drive d⟩

theorem steady (h : s.Live) (hph : s.phase ≠ .completed) : Steady s := by
  obtain ⟨why, h⟩ := h
  exact h.steady hph

theorem loaded (h : s.Live) : s.machine.loaded = true := by
  obtain ⟨why, h⟩ := h
  exact h.standing.loaded

end Session.Live

/-- One thing that a step or a turn of a run does with a program: it takes its
seat or leaves it, lets the pacing delay pass, takes a unit of work, runs it to
its next pause, and ends the program when no work is left. -/
inductive Stride (s : Session) : Session → Prop
  | phase {phase : Phase} : phase ≠ .completed → s.phase ≠ .completed →
      Stride s ((Act.setPhase Act.plain phase).run s).2
  | seat (gate : Option Bool) (openings : Nat) (runActive : Bool) :
      Stride s { s with machine := { s.machine with gate, openings, runActive } }
  | wait {delay : Double} : s.phase ≠ .completed → Number.quotient s.store.speed 1000 = .ok delay →
      Stride s ((Act.fireUntil Act.plain (s.clock.after delay)).run s).2
  | take : s.phase ≠ .completed → s.machine.unit = none → Stride s (Act.nextUnit.run s).2
  | advance {u : UnitOfWork} : s.phase ≠ .completed → s.machine.unit = some u →
      Stride s ((Act.advance Act.plain).run s).2
  | finish : s.phase ≠ .completed → s.hasMore = false →
      Stride s ((Act.finish Act.plain).run s).2

abbrev Strides : Session → Session → Prop := ReflTransGen Stride

/-- The unit of work that a segment leaves. -/
def Progress.rest (serial : Nat) : Progress → Option UnitOfWork
  | .paused work => some ⟨serial, work, false⟩
  | .ended => none

/-! ## Time -/

/-- The session after a timer was taken off its clock, and fired unless it was
cancelled. -/
def Session.passed (s : Session) (timer : Timer String) (clock : Clock String) : Session :=
  if clock.isCancelled timer.serial then { s with clock }
  else ({ s with clock } : Session).publish (s.store.moveToCallbacks timer.payload)

namespace Session

variable (s : Session) (timer : Timer String) (clock : Clock String)

theorem passed_clock : (s.passed timer clock).clock = clock := by
  unfold passed
  split
  · rfl
  · exact publish_clock ..

theorem passed_hooks : (s.passed timer clock).hooks = s.hooks := by
  unfold passed
  split
  · rfl
  · exact publish_hooks ..

theorem passed_machine : (s.passed timer clock).machine = s.machine := by
  unfold passed
  split
  · rfl
  · exact publish_machine ..

theorem passed_store :
    (s.passed timer clock).store =
      if clock.isCancelled timer.serial then s.store
      else (s.store.moveToCallbacks timer.payload).store := by
  unfold passed
  split
  · rfl
  · exact publish_store ..

end Session

namespace Act

variable {α β : Type} {s t : Session}

theorem run_fire (id : String) :
    (fire plain id).run s = (.ok ⟨⟩, s.publish (s.store.moveToCallbacks id)) := by
  unfold fire
  rw [run_bind, run_change rfl]
  rfl

/-- Letting time pass is taking the first timer that is due, as long as there is
one. -/
theorem run_fireUntil (target : Double) :
    (fireUntil plain target).run s =
      match s.clock.pop? target with
      | none => (.ok ⟨⟩, { s with clock := { s.clock with now := target } })
      | some (timer, clock) => (fireUntil plain target).run (s.passed timer clock) := by
  unfold fireUntil
  rw [run_loop, run_get_bind]
  cases hp : s.clock.pop? target with
  | none => rfl
  | some popped =>
      obtain ⟨timer, clock⟩ := popped
      -- each turn takes a timer off the clock, which is why the loop ends
      have shorter := Clock.length_pop? hp
      have fires : (do
          if !clock.isCancelled timer.serial then fire plain timer.payload
          return true : Act Bool).run { s with clock } = (.ok true, s.passed timer clock) := by
        unfold Session.passed
        cases clock.isCancelled timer.serial with
        | true => rfl
        | false =>
            show (fire plain timer.payload >>= fun _ => pure true : Act Bool).run _ = _
            rw [run_bind, run_fire]
            rfl
      have turn : (do
          set { s with clock }
          if !clock.isCancelled timer.serial then fire plain timer.payload
          return true : Act Bool).run s = (.ok true, s.passed timer clock) := fires
      rw [turn]
      dsimp only
      rw [if_pos]
      rw [Session.passed_clock, Session.passed_hooks]
      simp [Rank.lt, shorter]

/-- What one timer after the other keeps, and the time that comes at last, is
kept when time passes. -/
theorem fireUntil_induct {P : Session → Prop} {target : Double}
    (pop : ∀ s timer clock, P s → s.clock.pop? target = some (timer, clock) →
      P (s.passed timer clock))
    (arrive : ∀ s, P s → s.clock.pop? target = none →
      P { s with clock := { s.clock with now := target } })
    (hs : P s) : ∃ t, (fireUntil plain target).run s = (.ok ⟨⟩, t) ∧ P t := by
  generalize hn : s.clock.queue.length = n
  induction n using Nat.strongRecOn generalizing s with
  | ind n ih =>
      rw [run_fireUntil]
      cases hp : s.clock.pop? target with
      | none => exact ⟨_, rfl, arrive s hs hp⟩
      | some popped =>
          obtain ⟨timer, clock⟩ := popped
          have shorter : clock.queue.length < n := hn ▸ Clock.length_pop? hp
          exact ih _ shorter (pop s timer clock hs hp) (by rw [Session.passed_clock])

theorem fireUntil_live (h : s.Live) (target : Double) :
    ∃ t, (fireUntil plain target).run s = (.ok ⟨⟩, t) ∧ t.Live ∧ t.machine = s.machine ∧
      t.store.speed = s.store.speed := by
  refine fireUntil_induct
    (P := fun t => t.Live ∧ t.machine = s.machine ∧ t.store.speed = s.store.speed) ?_ ?_
    ⟨h, rfl, rfl⟩
  · rintro u timer clock ⟨live, hm, speed⟩ -
    have popped : ({ u with clock } : Session).Live := live.drive (.time clock)
    refine ⟨?_, (u.passed_machine timer clock).trans hm, ?_⟩
    · unfold Session.passed
      split
      · exact popped
      · have fired := popped.drive (.fire timer.payload)
        rwa [run_fire] at fired
    · rw [Session.passed_store]
      split
      · exact speed
      · rw [(requeues_moveToCallbacks u.store timer.payload).same]
        exact speed
  · rintro u ⟨live, hm, speed⟩ -
    exact ⟨live.drive (.time _), hm, speed⟩

/-! ## Parts of the store that stay as they are -/

/-- A part of the store that is not changed by code, as long as it counts no
steps, nor by showing whether a program runs. -/
structure Aloof (p : Store → β) : Prop where
  edits : ∀ {l : Licence} {α : Type} {store : Store} {c : Change α}, c.Edits l store →
    p c.store = p store
  track : ∀ store handle, p (store.trackTimer handle) = p store
  flags : ∀ store isRunning isPaused, p (store.setExecution isRunning isPaused).store = p store

theorem aloof_speed : Aloof Store.speed :=
  ⟨fun edits => edits.speed, fun _ _ => rfl, fun _ _ _ => rfl⟩

theorem aloof_step : Aloof fun store => store.state.currentStep :=
  ⟨fun edits => edits.step, fun _ _ => rfl, fun _ _ _ => rfl⟩

/-- From `s` to `t` a part of the store is the same. -/
def Same (p : Store → β) (s t : Session) : Prop := p t.store = p s.store

instance (p : Store → β) : IsPreorder Session (Same p) where
  refl _ := rfl
  trans _ _ _ h h' := h'.trans h

theorem same_modifyMachine {p : Store → β} (g : Machine → Machine) :
    Within (Same p) (modifyMachine g) := fun _ => rfl

section Same

variable {p : Store → β} (hp : Aloof p)

include hp

theorem Coded.same {l : Licence} {act : Act α} (h : Coded record l act)
    (count : l.counts = true → ∀ store : Store, p store.incrementStep.store = p store) :
    Within (Same p) act := by
  intro s
  refine h.keeps (I := Same p s) ⟨?_, ?_, ?_, ?_, ?_⟩ s rfl
  · intro _ t c edits ht
    exact ((congrArg p (Session.publish_store ..)).trans (hp.edits edits)).trans ht
  · intro t g _ ht
    exact ht
  · intro t bodies notices ht
    exact ht
  · intro _ t wait id ht
    exact (hp.track ..).trans ht
  · intro may t ht
    exact ((congrArg p (Session.publish_store ..)).trans (count may t.store)).trans ht

/-- Code that counts no steps. -/
theorem Coded.still {act : Act α} (h : Coded record ⟨false, false, true, true⟩ act) :
    Within (Same p) act :=
  h.same hp (by simp)

theorem same_setExecution (isRunning isPaused : Bool) :
    Within (Same p) (change plain fun s _ => s.setExecution isRunning isPaused) := by
  intro s
  rw [ends_change]
  exact (congrArg p (Session.publish_store ..)).trans (hp.flags ..)

theorem same_closeUnit : Within (Same p) (closeUnit plain) := by
  refine .machine fun m => (same_modifyMachine _).bind fun _ => ?_
  cases m.unit with
  | none => exact .pure _
  | some u =>
      refine .ite (((coded_abandon u.work).still hp).bind fun fault => ?_) (.pure _)
      cases fault with
      | none => exact .pure _
      | some fault => exact .throw fault

theorem same_finish : Within (Same p) (finish plain) := by
  refine (same_closeUnit hp).bind fun _ => (same_modifyMachine _).bind fun _ => ?_
  refine ((coded_setCurrentLine (-1)).still hp).bind fun _ => ?_
  exact (same_setExecution hp false false).bind fun _ => (coded_info _).still hp

theorem same_stop : Within (Same p) (stop plain) := by
  refine .machine fun m => .ite (.pure _) ?_
  refine (same_closeUnit hp).bind fun _ => (same_modifyMachine _).bind fun _ => ?_
  exact (same_setExecution hp false false).bind fun _ => same_modifyMachine _

theorem same_afterSegment (u : UnitOfWork) (generation : Nat) (r : Except Fault Progress) :
    Within (Same p) (afterSegment plain u generation r) := by
  have holds : Within (Same p) (holdsUnit u.serial) := .machine fun _ => .pure _
  rcases r with fault | work | _
  · refine Within.bind (.machine fun m => .ite ?_ (.pure _)) fun _ => .pure _
    refine (same_modifyMachine _).bind fun _ => ?_
    exact ((coded_error _).still hp).bind fun _ => same_finish hp
  · refine .machine fun m => Within.bind ?_ fun _ => .pure _
    refine holds.bind fun _ => .ite (same_modifyMachine _) ?_
    exact ((coded_abandon work).still hp).bind fun _ => .pure _
  · exact holds.bind fun _ => .first (same_modifyMachine _) (.pure _)

/-- Running a unit of work changes what its segment changes. -/
theorem advance_same {u : UnitOfWork} (hu : s.machine.unit = some u) (waits : u.running = false) :
    p ((advance plain).run s).2.store = p ((runSegment plain u.work).run (s.working u)).2.store := by
  rw [run_advance hu waits]
  exact (same_afterSegment hp u _ _ _).after

end Same

theorem advance_speed {u : UnitOfWork} (st : Steady s) (hu : s.machine.unit = some u) :
    ((advance plain).run s).2.store.speed = s.store.speed := by
  rw [advance_same aloof_speed hu (st.waits u hu)]
  exact ((coded_plainSegment u.work).same aloof_speed (fun _ _ => rfl) (s.working u)).after

/-- A segment faults, and the program is over, or else it leaves the rest of its
work. -/
theorem advance_cases {u : UnitOfWork} (st : Steady s) (hu : s.machine.unit = some u) :
    (∃ fault v t, (runSegment plain u.work).run (s.working u) = (.error fault, v) ∧
        (advance plain).run s = (.ok false, t) ∧ Beside v t ∧ t.machine.unit = none ∧
        t.phase = .completed) ∨
      ∃ p v, (runSegment plain u.work).run (s.working u) = (.ok p, v) ∧
        v.machine.driven = (s.working u).machine.driven ∧
        (advance plain).run s = (.ok (p.rest u.serial).isSome,
          v.holding (p.rest u.serial)) := by
  have run : (advance plain).run s = _ := run_advance hu (st.waits u hu)
  have driven := ((coded_plainSegment u.work).untouched (s.working u)).after.driven
  rcases segment : ((runSegment plain u.work).run (s.working u) : Except Fault Progress × Session)
    with ⟨fault | p, v⟩
  · rw [segment] at run driven
    obtain ⟨_, t, ends, rfl, beside, -, none, completed⟩ :=
      (ends_afterSegment_error fault driven).exists_ok
    exact .inl ⟨fault, v, t, rfl, run.trans ends, beside, none, completed⟩
  · rw [segment] at run driven
    refine .inr ⟨p, v, rfl, driven, run.trans ?_⟩
    dsimp only
    rw [run_afterSegment_ok driven]
    cases p <;> rfl

end Act

/-! ## Strides lead on -/

/-- A program without any work left has no unit of work. -/
theorem Session.Live.unit_of_hasMore {s : Session} (h : s.Live) (hph : s.phase ≠ .completed)
    (more : s.hasMore = false) : s.machine.unit = none := by
  have on : (s.machine.phase != .completed) = true := bne_iff_ne.mpr hph
  unfold Session.hasMore at more
  rw [h.loaded, on] at more
  simp only [Bool.true_and, Bool.or_eq_false_iff] at more
  exact Option.not_isSome_iff_eq_none.mp (by simp [more.1.1])

theorem Stride.live {s t : Session} (h : s.Live) (d : Stride s t) : t.Live := by
  cases d with
  | phase hne hph => exact h.drive (.phase hne hph)
  | seat gate openings runActive => exact h.drive (.seat gate openings runActive)
  | wait _ _ =>
      obtain ⟨t, run, live, -⟩ := Act.fireUntil_live h _
      rwa [run]
  | take hph hu => exact h.drive (.take hph hu)
  | advance hph hu => exact h.drive (.advance hph hu)
  | finish hph more => exact h.drive (.finish hph (h.unit_of_hasMore hph more))

theorem Strides.live {s t : Session} (h : s.Live) (d : Strides s t) : t.Live := by
  induction d with
  | refl => exact h
  | tail _ d ih => exact d.live ih

namespace Act

variable {α β : Type} {s t : Session}

/-! ## One rule for each way of building an operation -/

/-- From a session that is reached the operation strides to sessions that are
reached, and all readers agree on it. -/
structure Leads (act : Host → Act α) (s : Session) (Q : α → Session → Prop) : Prop where
  agrees : ∀ r : Reader, (act r.host).run s = (act plain).run s
  ends : Ends (act plain) s (fun a t => Strides s t ∧ Q a t) (fun _ t => Strides s t)

namespace Leads

theorem mono {act : Host → Act α} {Q R : α → Session → Prop} (h : Leads act s Q)
    (hQ : ∀ a t, Q a t → R a t) : Leads act s R :=
  ⟨h.agrees, h.ends.mono (fun a t ht => ⟨ht.1, hQ a t ht.2⟩) fun _ _ ht => ht⟩

theorem bind {x : Host → Act α} {f : α → Host → Act β} {Q : α → Session → Prop}
    {R : β → Session → Prop} (h : s.Live) (hx : Leads x s Q)
    (hf : ∀ a t, t.Live → Q a t → Leads (f a) t R) :
    Leads (fun host => x host >>= fun a => f a host) s R := by
  refine ⟨fun r => ?_, ?_⟩
  · have ends := hx.ends
    unfold Ends at ends
    rw [run_bind, run_bind, hx.agrees r]
    rcases hrun : ((x plain).run s : Except Fault α × Session) with ⟨fault | a, t⟩
    · rfl
    · rw [hrun] at ends
      exact (hf a t (ends.1.live h) ends.2).agrees r
  · rw [ends_bind]
    refine hx.ends.mono (fun a t ht => ?_) fun _ _ ht => ht
    refine (hf a t (ht.1.live h) ht.2).ends.mono ?_ ?_
    · intro b u hu
      exact ⟨ht.1.trans hu.1, hu.2⟩
    · intro f u hu
      exact ht.1.trans hu

theorem pure {Q : α → Session → Prop} {a : α} (hQ : Q a s) :
    Leads (fun _ => Pure.pure a) s Q :=
  ⟨fun _ => rfl, .refl, hQ⟩

theorem throw {Q : α → Session → Prop} {f : Fault} :
    Leads (fun _ => MonadExcept.throw f) s Q :=
  ⟨fun _ => rfl, .refl⟩

theorem get {f : Session → Host → Act β} {Q : β → Session → Prop} (h : Leads (f s) s Q) :
    Leads (fun host => MonadState.get >>= fun s => f s host) s Q :=
  ⟨h.agrees, h.ends⟩

theorem machine {f : Machine → Host → Act β} {Q : β → Session → Prop}
    (h : Leads (f s.machine) s Q) :
    Leads (fun host => Act.machine >>= fun m => f m host) s Q :=
  ⟨h.agrees, h.ends⟩

theorem ite {c : Prop} [Decidable c] {x y : Host → Act α} {Q : α → Session → Prop}
    (hx : c → Leads x s Q) (hy : ¬ c → Leads y s Q) :
    Leads (fun host => if c then x host else y host) s Q := by
  by_cases h : c
  · simpa only [if_pos h] using hx h
  · simpa only [if_neg h] using hy h

/-- An operation that is a single stride. -/
theorem stride {x : Host → Act α} {Q : α → Session → Prop} {a : α}
    (agrees : ∀ r : Reader, (x r.host).run s = (x plain).run s)
    (run : (x plain).run s = (.ok a, t)) (d : Stride s ((x plain).run s).2) (hQ : Q a t) :
    Leads x s Q := by
  rw [run] at d
  exact ⟨agrees, .of_answer run ⟨.single d, hQ⟩⟩

theorem loop {rank : Session → Rank} {body : Host → Act Bool} {I Q : Session → Prop}
    (turn : ∀ s, s.Live → I s → Leads body s (fun again t => if again then I t else Q t))
    (giveUp : ∀ s, s.Live → I s → Q s) (h : s.Live) (hs : I s) :
    Leads (fun host => Act.loop rank (body host)) s (fun _ t => Q t) := by
  refine ⟨fun r => ?_, ?_⟩
  · refine run_loop_congr (I := fun s => s.Live ∧ I s) (fun s hs => (turn s hs.1 hs.2).agrees r)
      (fun s hs => ?_) ⟨h, hs⟩
    refine (turn s hs.1 hs.2).ends.mono ?_ fun _ _ _ => trivial
    rintro again t ⟨path, next⟩ rfl
    exact ⟨path.live hs.1, next⟩
  · refine ends_loop (I := fun t => Strides s t ∧ I t) (Q := fun t => Strides s t ∧ Q t)
      (fun t ht => ?_) (fun t ht => ⟨ht.1, giveUp t (ht.1.live h) ht.2⟩) ⟨.refl, hs⟩
    refine (turn t (ht.1.live h) ht.2).ends.mono ?_ fun _ _ hu => ht.1.trans hu
    rintro again u ⟨path, next⟩
    cases again with
    | true => exact ⟨ht.1.trans path, next⟩
    | false => exact ⟨ht.1.trans path, next⟩

end Leads

/-! ## What readers have no part in -/

section Reader

variable (r : Reader)

theorem unwindAll_reader (calls : List Call) (fault : Option Fault) :
    unwindAll r.host calls fault = unwindAll plain calls fault := by
  induction calls generalizing fault with
  | nil => rfl
  | cons call outer ih =>
      unfold unwindAll
      simp only [ih]
      rfl

theorem abandon_reader (work : Work) : abandon r.host work = abandon plain work := by
  cases work with
  | inCall call point callers base => exact unwindAll_reader r _ _
  | _ => rfl

theorem closeUnit_reader : closeUnit r.host = closeUnit plain := by
  unfold closeUnit
  simp only [abandon_reader]

theorem finish_reader : finish r.host = finish plain := by
  unfold finish
  rw [closeUnit_reader]
  rfl

theorem stop_reader : stop r.host = stop plain := by
  unfold stop
  rw [closeUnit_reader]
  rfl

theorem afterSegment_reader (u : UnitOfWork) (generation : Nat) (end? : Except Fault Progress) :
    afterSegment r.host u generation end? = afterSegment plain u generation end? := by
  unfold afterSegment keepWork failUnit
  simp only [abandon_reader, finish_reader]
  rfl

end Reader

/-! ## Phases and units of work -/

theorem number_leads (r : Except NumberFault α) :
    Leads (fun _ => number r) s (fun a t => t = s ∧ r = .ok a) := by
  cases r with
  | ok a => exact .pure ⟨rfl, rfl⟩
  | error fault => exact .throw

theorem pacing_leads :
    Leads (fun _ => pacing) s
      (fun delay t => t = s ∧ Number.quotient s.store.speed 1000 = .ok delay) := by
  refine ⟨fun _ => rfl, ?_⟩
  unfold pacing
  rw [ends_bind, ends_store]
  exact (number_leads _).ends

theorem fireUntil_leads {delay : Double} (h : s.Live) (hph : s.phase ≠ .completed)
    (speed : Number.quotient s.store.speed 1000 = .ok delay) :
    Leads (fun host => fireUntil host (s.clock.after delay)) s
      (fun _ t => t.machine = s.machine ∧ t.store.speed = s.store.speed) := by
  obtain ⟨t, run, -, hm⟩ := fireUntil_live h (s.clock.after delay)
  exact .stride (fun _ => rfl) run (.wait hph speed) hm

theorem setPhase_leads {phase : Phase} (hne : phase ≠ .completed) (hph : s.phase ≠ .completed) :
    Leads (fun host => setPhase host phase) s (fun _ t => t.machine = { s.machine with phase }) := by
  obtain ⟨_, t, run, -, hm⟩ := (ends_setPhase (s := s) phase).exists_ok
  exact .stride (fun _ => rfl) run (.phase hne hph) hm

theorem seat_leads {f : Machine → Machine} (gate : Option Bool) (openings : Nat)
    (runActive : Bool) (hf : f s.machine = { s.machine with gate, openings, runActive }) :
    Leads (fun _ => modifyMachine f) s (fun _ t => t.machine = f s.machine) := by
  have d : Stride s ((modifyMachine f).run s).2 := by
    show Stride s { s with machine := f s.machine }
    rw [hf]
    exact .seat gate openings runActive
  exact .stride (fun _ => rfl) rfl d rfl

theorem nextUnit_leads (hph : s.phase ≠ .completed) (hu : s.machine.unit = none) :
    Leads (fun _ => nextUnit) s (fun _ t => t.machine.unit.isSome ∧ t.phase ≠ .completed ∧
      t.store = s.store) :=
  .stride (fun _ => rfl) rfl (.take hph hu) ⟨rfl, hph, rfl⟩

theorem finish_leads (h : s.Live) (hph : s.phase ≠ .completed) (more : s.hasMore = false) :
    Leads (fun host => finish host) s (fun _ _ => True) := by
  obtain ⟨_, t, run, -⟩ := (ends_finish (h.unit_of_hasMore hph more)).exists_ok
  exact .stride (fun r => by rw [finish_reader]) run (.finish hph more) trivial

theorem advance_leads (h : s.Live) (hph : s.phase ≠ .completed) (hu : s.machine.unit.isSome) :
    Leads (fun host => advance host) s
      (fun again t => t.store.speed = s.store.speed ∧
        if again then t.machine.unit.isSome ∧ t.phase ≠ .completed
        else t.machine.unit = none) := by
  obtain ⟨u, hu⟩ := Option.isSome_iff_exists.mp hu
  have st := h.steady hph
  obtain ⟨again, t, run, -, goesOn, ends⟩ := advance_tick st hph hu
  have speed := advance_speed st hu
  rw [run] at speed
  refine .stride (fun r => ?_) run (.advance hph hu) ⟨speed, ?_⟩
  · have known : ∀ task base, u.work.pending? = some (task, base) →
        (s.working u).Knows task.spec.closure :=
      fun task base hp => (Beside.holding s _).knows (st.known u hu task base hp)
    rw [run_advance hu (st.waits u hu), run_advance hu (st.waits u hu),
      (runSegment_segment (st.working hu) (st.fits u hu) known).1 r]
    simp only [afterSegment_reader]
  · cases again with
    | true => exact goesOn rfl
    | false => exact ends rfl

/-! ## Operations -/

theorem pause_leads (h : s.Live) : Leads (fun host => pause host) s (fun _ _ => True) := by
  refine .machine (.ite (fun _ => .pure trivial) fun on => ?_)
  have running : s.phase = .running := not_not.mp on
  refine .bind h (seat_leads _ _ _ rfl) fun _ t live ht => ?_
  refine .bind live (setPhase_leads (by simp) ?_) fun _ _ _ _ => .pure trivial
  simp [Session.phase, ht, show s.machine.phase = _ from running]

theorem resume_leads (h : s.Live) : Leads (fun host => resume host) s (fun _ _ => True) := by
  refine .machine (.ite (fun _ => .pure trivial) fun on => ?_)
  have paused : s.phase = .paused := not_not.mp on
  refine .bind h (setPhase_leads (by simp) (by simp [paused])) fun _ t live _ => ?_
  have opens : Leads (fun _ => openGate) t (fun _ _ => True) := by
    by_cases hg : t.machine.gate.isSome
    · refine (seat_leads (some true) (t.machine.openings + 1) t.machine.runActive ?_).mono
        fun _ _ _ => trivial
      exact if_pos hg
    · refine (seat_leads t.machine.gate t.machine.openings t.machine.runActive ?_).mono
        fun _ _ _ => trivial
      exact if_neg hg
  exact .bind live opens fun _ _ _ _ => .pure trivial

/-- Time passes at a pause of a step. -/
theorem elapse_leads {delay : Double} (h : s.Live) (hph : s.phase ≠ .completed)
    (speed : Number.quotient s.store.speed 1000 = .ok delay) :
    Leads (fun host => elapse host delay) s
      (fun _ t => t.machine = s.machine ∧ t.store.speed = s.store.speed) :=
  .get (.ite (fun _ => fireUntil_leads h hph speed) fun _ => .pure ⟨rfl, rfl⟩)

/-- The unit of work is run to its end, time passing at every pause. -/
def runUnit (host : Host) (delay : Double) : Act Unit :=
  loop Session.rank do
    if ← advance host then
      elapse host delay
      return true
    else return false

theorem runUnit_leads {delay : Double} (h : s.Live) (hph : s.phase ≠ .completed)
    (hu : s.machine.unit.isSome) (speed : Number.quotient s.store.speed 1000 = .ok delay) :
    Leads (fun host => runUnit host delay) s (fun _ _ => True) := by
  unfold runUnit
  refine .loop (I := fun t => t.phase ≠ .completed ∧ t.machine.unit.isSome ∧
      Number.quotient t.store.speed 1000 = .ok delay)
    (fun u live hu => ?_) (fun _ _ _ => trivial) h ⟨hph, hu, speed⟩
  refine .bind live (advance_leads live hu.1 hu.2.1) fun again t live ht => .ite (fun goes => ?_)
    fun _ => .pure trivial
  rw [if_pos goes] at ht
  have speed : Number.quotient t.store.speed 1000 = .ok delay := ht.1 ▸ hu.2.2
  refine .bind live (elapse_leads live ht.2.2 speed) fun _ v _ hv => .pure ?_
  rw [if_pos rfl, Session.phase, hv.1, hv.2]
  exact ⟨ht.2.2, ht.2.1, speed⟩

/-- What is left of a step when the program is on. -/
def stepUnit (host : Host) : Act Bool := do
  let delay ← pacing
  let generation := (← machine).generation
  if (← machine).unit.isNone then nextUnit
  loop Session.rank do
    if ← advance host then
      elapse host delay
      return true
    else return false
  let s ← get
  if s.machine.generation ≠ generation || s.machine.phase = .completed then return false
  else if s.hasMore then return true
  else
    finish host
    return false

/-- The end of a step, behind its unit of work. -/
def afterUnit (host : Host) (generation : Nat) : Act Bool := do
  let s ← get
  if s.machine.generation ≠ generation || s.machine.phase = .completed then return false
  else if s.hasMore then return true
  else
    finish host
    return false

theorem afterUnit_leads (h : s.Live) (generation : Nat) :
    Leads (fun host => afterUnit host generation) s (fun _ _ => True) := by
  unfold afterUnit
  refine .get (.ite (fun _ => .pure trivial) fun on => .ite (fun _ => .pure trivial)
    fun ended => ?_)
  have on : s.phase ≠ .completed := fun he => on (by simp [show s.machine.phase = _ from he])
  exact .bind h (finish_leads h on (by simpa using ended)) fun _ _ _ _ => .pure trivial

theorem stepUnit_leads (h : s.Live) (hph : s.phase ≠ .completed) :
    Leads (fun host => stepUnit host) s (fun _ _ => True) := by
  refine .bind h pacing_leads fun delay t _ ht => ?_
  obtain ⟨rfl, speed⟩ := ht
  refine .machine (.machine (.ite (fun hu => ?_) fun hu => ?_))
  · refine .bind h (nextUnit_leads hph (by simpa using hu)) fun _ u live hu => ?_
    exact .bind live (runUnit_leads live hu.2.1 hu.1 (hu.2.2 ▸ speed))
      fun _ _ live _ => afterUnit_leads live _
  · exact .bind h (runUnit_leads h hph (by simpa [Option.isSome_iff_ne_none] using hu) speed)
      fun _ _ live _ => afterUnit_leads live _

theorem step_leads (h : s.Live) : Leads (fun host => step host) s (fun _ _ => True) := by
  refine .machine (.ite (fun _ => .throw) fun _ => .ite (fun _ => .pure trivial) fun on =>
    .ite (fun _ => .throw) fun _ => .ite (fun idle => ?_) fun _ => ?_)
  · refine .bind h (setPhase_leads (by simp) on) fun _ t live ht => ?_
    exact stepUnit_leads live (by simp [Session.phase, ht])
  · exact stepUnit_leads h on

/-! ## Turns of a run -/

theorem pace_leads (h : s.Live) (hph : s.phase ≠ .completed) :
    Leads (fun host => pace host) s (fun _ _ => True) := by
  refine .bind h pacing_leads fun delay t live ht => .get (.ite (fun _ => ?_) fun _ => ?_)
  · obtain ⟨rfl, speed⟩ := ht
    exact (fireUntil_leads live hph speed).mono fun _ _ _ => trivial
  · exact .pure trivial

/-- Whether a run is over is only asked; if it is not, the program is on. -/
theorem isOver_leads (generation : Nat) :
    Leads (fun _ => isOver generation) s
      (fun ended t => t = s ∧ (ended = false → s.phase ≠ .completed)) := by
  refine .machine (.pure ⟨rfl, fun on he => ?_⟩)
  simp [show s.machine.phase = _ from he] at on

/-- A turn of a run, from where there is a unit of work. -/
def turnUnit (host : Host) (generation : Nat) : Act Bool := do
  let _ ← advance host
  if ← isOver generation then return false
  else
    pace host
    return true

theorem turnUnit_leads (h : s.Live) (hu : s.machine.unit.isSome) (hph : s.phase ≠ .completed)
    (generation : Nat) : Leads (fun host => turnUnit host generation) s (fun _ _ => True) := by
  unfold turnUnit
  refine .bind h (advance_leads h hph hu) fun _ v live _ => ?_
  refine .bind live (isOver_leads generation) fun ended w live hw => .ite
    (fun _ => .pure trivial) fun on => ?_
  obtain ⟨rfl, on'⟩ := hw
  exact .bind live (pace_leads live (on' (by simpa using on))) fun _ _ _ _ => .pure trivial

theorem runTurn_leads (h : s.Live) (generation : Nat) :
    Leads (fun host => runTurn host generation) s (fun _ _ => True) := by
  refine .bind h (isOver_leads generation) fun ended t live ht => .ite (fun _ => .pure trivial)
    fun on => ?_
  obtain ⟨rfl, on'⟩ := ht
  have hph := on' (by simpa using on)
  refine .get (.ite (fun out => ?_) fun _ => .ite (fun idle => ?_) fun busy => ?_)
  · have more : t.hasMore = false := by simpa using (Bool.and_eq_true_iff.mp out).2
    exact .bind h (finish_leads h hph more) fun _ _ _ _ => .pure trivial
  · exact .bind h (nextUnit_leads hph (Option.isNone_iff_eq_none.mp idle))
      fun _ _ live hu => turnUnit_leads live hu.1 hu.2.1 generation
  · exact turnUnit_leads h (by simpa [Option.isSome_iff_ne_none] using busy) hph generation

theorem leaveRun_leads (generation : Nat) :
    Leads (fun _ => leaveRun generation) s (fun _ _ => True) := by
  by_cases hg : s.machine.generation = generation
  · refine (seat_leads s.machine.gate s.machine.openings false ?_).mono fun _ _ _ => trivial
    exact if_pos hg
  · refine (seat_leads s.machine.gate s.machine.openings s.machine.runActive ?_).mono
      fun _ _ _ => trivial
    exact if_neg hg

theorem guardedTurn_leads (h : s.Live) (generation : Nat) :
    Leads (fun host => guardedTurn host generation) s (fun _ _ => True) := by
  have guarded : Leads (fun host => tryCatch (runTurn host generation) fun fault => do
      leaveRun generation
      throw fault) s (fun _ _ => True) := by
    have turn := runTurn_leads h generation
    refine ⟨fun r => ?_, ?_⟩
    · rw [run_tryCatch, run_tryCatch, turn.agrees r]
    · rw [ends_tryCatch]
      refine turn.ends.mono (fun _ _ ht => ht) fun fault t path => ?_
      have leaves : Leads (fun _ => do leaveRun generation; throw fault : Host → Act Bool) t
          (fun _ _ => True) :=
        .bind (path.live h) (leaveRun_leads generation) fun _ _ _ _ => .throw
      refine leaves.ends.mono ?_ ?_
      · intro _ u hu
        exact ⟨path.trans hu.1, trivial⟩
      · intro _ u hu
        exact path.trans hu
  refine .bind h guarded fun goesOn t live _ => .ite (fun _ => .pure trivial) fun _ => ?_
  exact .bind live (leaveRun_leads generation) fun _ _ _ _ => .pure trivial

theorem beginRun_leads (h : s.Live) (direct : Bool) :
    Leads (fun host => beginRun host direct) s (fun _ _ => True) := by
  refine .machine (.ite (fun _ => .ite (fun _ => .throw) fun _ => .pure trivial) fun _ =>
    .ite (fun _ => .pure trivial) fun on => .ite (fun _ => .throw) fun _ => ?_)
  refine .bind h (seat_leads (some true) s.machine.openings true rfl) fun _ t live ht => ?_
  have hph : t.phase ≠ .completed := by rwa [Session.phase, ht]
  refine .bind live (setPhase_leads (by simp) hph) fun _ u live _ => ?_
  exact guardedTurn_leads live _

theorem segment_leads (h : s.Live) (state : RunState) :
    Leads (fun host => segment host state) s (fun _ _ => True) := by
  have goesOn (generation : Nat) :
      Leads (fun host => continueRun host generation) s (fun _ _ => True) :=
    .machine (.ite (fun _ => .pure trivial) fun _ => guardedTurn_leads h generation)
  cases state with
  | created direct => exact beginRun_leads h direct
  | sleeping generation => exact goesOn generation
  | waiting generation openings => exact goesOn generation
  | finished fault? => exact .pure trivial

/-! ## Control operations -/

theorem control_leads (h : s.Live) {c : Control} (hc : c.strides = true) :
    Leads (fun host => control host c) s (fun _ _ => True) := by
  cases c with
  | pause => exact .bind h (pause_leads h) fun _ _ _ _ => .pure trivial
  | resume => exact .bind h (resume_leads h) fun _ _ _ _ => .pure trivial
  | step =>
      have steps : Leads (fun host => stepSession host) s (fun _ _ => True) :=
        .machine (.ite (fun _ => step_leads h) fun _ => .pure trivial)
      exact .bind h steps fun _ _ _ _ => .pure trivial
  | stop | setSpeed | reset | close | load => cases hc

/-- All readers agree on what drives a program. -/
theorem control_reader (h : s.Live) {c : Control} (hc : c.drives = true) (r : Reader) :
    (control r.host c).run s = (control plain c).run s := by
  cases c with
  | pause | resume | step => exact (control_leads h rfl).agrees r
  | stop =>
      show (stop r.host >>= _ : Act Answer).run s = (stop plain >>= _ : Act Answer).run s
      rw [stop_reader]
  | setSpeed speed => rfl
  | reset | close | load => cases hc

theorem run_control_live (h : s.Live) {c : Control} (hc : c.drives = true) :
    ((control plain c).run s).2.Live := by
  have strides {c : Control} (hc : c.strides = true) : ((control plain c).run s).2.Live := by
    have path := (control_leads h hc).ends
    exact (path.mono (fun _ _ ht => ht.1) fun _ _ ht => ht).after.live h
  cases c with
  | pause | resume | step => exact strides rfl
  | stop =>
      obtain ⟨_, t, run, -⟩ := (ends_stop h.steady).exists_ok
      have live : ((stop plain).run s).2.Live := h.drive .stop
      rw [run] at live
      show ((stop plain >>= fun _ => pure Answer.nothing : Act Answer).run s).2.Live
      rw [run_bind, run]
      exact live
  | setSpeed speed =>
      have live : ((setSpeed plain speed).run s).2.Live := h.drive (.speed speed)
      have run : (setSpeed plain speed).run s = _ := run_change rfl _
      rw [run] at live
      show ((setSpeed plain speed >>= fun _ => pure Answer.nothing : Act Answer).run s).2.Live
      rw [run_bind, run]
      exact live
  | reset | close | load => cases hc

/-! ## Loading -/

/-- No hook and no unit of work is there. -/
def Bare (s : Session) : Prop := s.hooks = [] ∧ s.machine.unit = none

theorem bare_publish {c : Change α} (h : Bare s) : Bare (s.publish c) :=
  ⟨(Session.publish_hooks ..).trans h.1, by rw [Session.publish_machine]; exact h.2⟩

theorem bare_change? {f : Store → Except StoreFault (Change α)} (h : Bare s) :
    Ends (change? plain f) s (fun _ t => Bare t) (fun _ t => Bare t) := by
  rw [ends_change?]
  split
  · exact bare_publish h
  · exact h

theorem bare_detach (h : Bare s) (id : String) :
    Ends (detach plain id) s (fun _ t => Bare t) (fun _ t => Bare t) := by
  unfold detach
  rw [ends_bind]
  exact (bare_change? h).mono (fun _ _ ht => ht) fun _ _ ht => ht

theorem bare_unwind (h : Bare s) (call : Call) :
    Ends (unwind plain call) s (fun _ t => Bare t) (fun _ t => Bare t) := by
  unfold unwind
  rw [ends_bind, ends_modifyMachine, ends_bind]
  refine Ends.mono (bare_change? ?_) (fun _ t ht => ?_) fun _ _ ht => ht
  · exact h
  rw [ends_bind]
  refine (bare_detach ht call.scope).mono (fun _ u hu => ?_) fun _ _ ht => ht
  exact ends_forM (I := Bare) (fun id _ v hv => bare_detach hv id) hu

theorem bare_unwindAll (h : Bare s) (calls : List Call) (fault : Option Fault) :
    Ends (unwindAll plain calls fault) s (fun _ t => Bare t) (fun _ t => Bare t) := by
  induction calls generalizing s fault with
  | nil => exact h
  | cons call outer ih =>
      unfold unwindAll
      rw [ends_bind]
      show Ends (if (s.machine.generation == call.generation) = true then do
          let fault ← tryCatch (do unwind plain call; return fault) fun later => return some later
          unwindAll plain outer fault
        else do
          let fault ← pure fault
          unwindAll plain outer fault) s _ _
      split
      · rw [ends_bind, ends_tryCatch, ends_bind]
        exact (bare_unwind h call).mono (fun _ t ht => ih ht _) fun _ t ht => ih ht _
      · exact ih h _

theorem bare_closeUnit (h : s.hooks = []) :
    Ends (closeUnit plain) s (fun _ t => Bare t) (fun _ t => Bare t) := by
  have bare : Bare (s.holding none) := ⟨h, rfl⟩
  unfold closeUnit
  rw [ends_bind, ends_machine]
  dsimp only
  rw [ends_bind, ends_modifyMachine]
  cases hu : s.machine.unit with
  | none => exact bare
  | some u =>
      obtain ⟨serial, work, running⟩ := u
      -- only a unit that waits is abandoned
      cases running with
      | true => exact bare
      | false =>
          change Ends (abandon plain work >>= _) (s.holding none) _ _
          rw [ends_bind]
          have closes : Ends (abandon plain work) (s.holding none) (fun _ t => Bare t)
              (fun _ t => Bare t) := by
            cases work with
            | inCall call point callers base => exact bare_unwindAll bare _ _
            | _ => exact bare
          refine closes.mono (fun fault t ht => ?_) fun _ _ ht => ht
          cases fault with
          | none => exact ht
          | some fault => exact ht

theorem bare_reset (h : s.hooks = []) :
    Ends (reset plain) s (fun _ t => Bare t) (fun _ _ => True) := by
  have clears {t : Session} (bare : Bare t) :
      Ends (clearStore plain) t (fun _ u => Bare u) (fun _ _ => True) := bare
  unfold reset resetMachine
  rw [ends_bind, ends_bind, ends_modifyMachine, ends_bind]
  refine Ends.mono (bare_closeUnit ?_) (fun _ t ht => ?_) fun _ _ _ => trivial
  · exact h
  unfold openGate
  rw [ends_bind, ends_modifyMachine, ends_bind]
  refine (clears ?_).mono (fun _ u hu => hu) fun _ _ _ => trivial
  refine ⟨ht.1, ?_⟩
  dsimp only
  split
  · exact ht.2
  · exact ht.2

/-- A source that loads is a program that is reached. -/
theorem load_reached {source : String} (h : s.hooks = [])
    (run : (load plain source).run s = (.ok true, t)) : Reached none t := by
  have loads : Ends (load plain source) s (fun ok u => ok = true → Reached none u)
      (fun _ _ => True) := by
    unfold load
    rw [ends_bind]
    refine (bare_reset h).mono (fun _ u hu => ?_) fun _ _ _ => trivial
    rw [ends_bind, ends_modify]
    split
    · rw [ends_bind]
      exact ends_log.mono (fun _ _ _ => by simp) fun _ _ h => h
    · split
      · trivial
      · rw [ends_bind, ends_modify, ends_bind]
        exact ends_log.mono (fun _ _ _ => by simp) fun _ _ h => h
      · rename_i compiled _
        rw [ends_bind, ends_modify, ends_bind]
        unfold Ends
        split
        · rename_i started
          refine fun _ => .load ?_ ?_ started
          · exact hu.1
          · exact hu.2
        · trivial
  exact loads.of_ok run rfl

end Act

namespace Session

variable {s t : Session}

theorem Live.hooks (h : s.Live) : s.hooks = [] := by
  obtain ⟨why, h⟩ := h
  by_cases hph : s.phase = .completed
  · obtain ⟨-, spilt, sound, -⟩ := h.standing.ended hph
    exact sound.held.hooks
  · exact (h.steady hph).sound.held.hooks

/-- Without hooks only the journal listens. -/
theorem run_eq {α : Type} {act : Host → Act α} (h : s.hooks = []) :
    s.run act = ((act Act.plain).run s : Except Fault α × Session) := by
  unfold run Act.withHooks
  rw [Act.run_get_bind, h]
  rfl

theorem control_setSpeed (h : s.hooks = []) (speed : Int) :
    s.control (.setSpeed speed) = (.ok .nothing, s.publish (s.store.setSpeed speed)) := by
  unfold control
  rw [run_eq h]
  rfl

theorem Live.setSpeed (h : s.Live) (speed : Int) : (s.publish (s.store.setSpeed speed)).Live := by
  have live := h.drive (.speed speed)
  rwa [show (Act.setSpeed Act.plain speed).run s = _ from Act.run_change rfl _] at live

/-- A source that loads is a program that some run comes to. -/
theorem load_live {source : String} (h : s.hooks = [])
    (run : s.control (.load source) = (.ok (.bool true), t)) : t.Live := by
  unfold control at run
  rw [run_eq h] at run
  have loads : Act.Ends (Act.control Act.plain (.load source)) s
      (fun answer u => answer = .bool true → u.Live) (fun _ _ => True) := by
    show Act.Ends (do return Act.Answer.bool (← Act.load Act.plain source)) s _ _
    rw [Act.ends_bind]
    unfold Act.Ends
    split
    · rename_i loaded u started
      intro answer
      cases answer
      exact ⟨none, Act.load_reached h started⟩
    · trivial
  exact loads.of_ok run rfl

/-- A control operation on a program leads on. -/
theorem control_live (h : s.Live) {c : Control} (hc : c.drives = true) : (s.control c).2.Live := by
  unfold control
  rw [run_eq h.hooks]
  exact Act.run_control_live h hc

/-- What keeps to strides is made of them. -/
theorem control_strides (h : s.Live) {c : Control} (hc : c.strides = true) :
    Strides s (s.control c).2 := by
  unfold control
  rw [run_eq h.hooks]
  exact ((Act.control_leads h hc).ends.mono (fun _ _ ht => ht.1) fun _ _ ht => ht).after

theorem segment_strides (h : s.Live) (state : RunState) : Strides s (s.segment state).2 := by
  have path := ((Act.segment_leads h state).ends.mono (fun _ _ ht => ht.1) fun _ _ ht => ht).after
  unfold segment
  rw [run_eq h.hooks]
  split <;> rename_i run <;> rwa [run] at path

/-- A segment of a run leads on. -/
theorem segment_live (h : s.Live) (state : RunState) : (s.segment state).2.Live := by
  exact (segment_strides h state).live h

/-! ## Runs of a source -/

/-- The session after so many segments of a run. -/
def segments : Nat → RunState → Session → Session
  | 0, _, s => s
  | n + 1, state, s => segments n (s.segment state).1 (s.segment state).2

/-- A new session, in real time and without any delay, that was asked to load a
source. -/
def loading (source : String) (limits : Limits) : Except Fault Act.Answer × Session :=
  (create 0 limits true).control (.load source)

/-- A run of a source after so many segments. -/
def running (source : String) (limits : Limits) (n : Nat) : Session :=
  (loading source limits).2.segments n (.created true)

theorem Live.segments (h : s.Live) (n : Nat) (state : RunState) : (s.segments n state).Live := by
  induction n generalizing s state with
  | zero => exact h
  | succ n ih => exact ih (segment_live h state) _

theorem running_live {source : String} {limits : Limits} (n : Nat)
    (loads : (loading source limits).1 = .ok (.bool true)) : (running source limits n).Live := by
  have loaded : (loading source limits).2.Live := load_live (s := create 0 limits true) rfl
    (Prod.ext loads rfl)
  exact loaded.segments n _

end Session

end Runloop
