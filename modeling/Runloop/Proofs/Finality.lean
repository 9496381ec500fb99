/-
# What a reset in the middle of a segment leaves

An intruder may reset a session, or load another program into it, while a segment
is being run.  From then on nothing is driven that was on: the step or the run
ends with the segment.  But the code that was interrupted goes on to its next
pause, and what it still does it does to what was cleared or newly loaded.
`Session.Trails` says what that comes to: the store is as its events tell, the
console has their lines, and timers may have been set; nothing else is touched.
-/
import Runloop.Proofs.Following
import Runloop.Proofs.Interruption
import Runloop.Proofs.Loading

namespace Runloop

/-- The line of the console that an event tells about. -/
def Event.entry? : Event → Option ConsoleEntry
  | .console entry => some entry
  | _ => none

/-- A control operation that leaves a session with no run and an empty or a newly
loaded store.  A source whose numbers cannot be read is refused. -/
def Control.Clears : Control → Prop
  | .reset => True
  | .load source => ∀ fault, compile source ≠ .error (.number fault)
  | _ => False

/-- From `v` to `t` only code ran, which told `l` and was driven by nothing. -/
structure Session.Trails (v : Session) (l : List Event) (t : Session) : Prop where
  journal : t.journal = l.reverse ++ v.journal
  state : t.store.state = v.store.state.learnAll l
  isRunning : t.store.state.isRunning = v.store.state.isRunning
  isPaused : t.store.state.isPaused = v.store.state.isPaused
  attached : t.attached = v.attached
  console : t.console = v.console ++ if v.attached then l.filterMap Event.entry? else []
  driven : t.machine.driven = v.machine.driven
  now : t.clock.now = v.clock.now
  cancelled : t.clock.cancelled = v.clock.cancelled
  /-- No timer is lost; one may have been set. -/
  timers : v.clock.queue.Sublist t.clock.queue
  source : t.source = v.source
  instructions : t.instructions = v.instructions
  errors : t.errors = v.errors

theorem Session.console_noted (s : Session) (e : Event) :
    (s.noted e).console = s.console ++ if s.attached then e.entry?.toList else [] := by
  cases e with
  | console entry =>
      unfold noted
      dsimp only
      split
      · exact s.console_cons entry
      · exact (List.append_nil _).symm
  | _ => simp [noted, console, Event.entry?]

namespace Session.Trails

variable {v t : Session} {l : List Event}

theorem refl (v : Session) : v.Trails [] v where
  journal := rfl
  state := rfl
  isRunning := rfl
  isPaused := rfl
  attached := rfl
  console := by simp
  driven := rfl
  now := rfl
  cancelled := rfl
  timers := .refl _
  source := rfl
  instructions := rfl
  errors := rfl

theorem store (h : v.Trails l t) {store : Store} (same : store.state = t.store.state) :
    v.Trails l { t with store } :=
  { h with
    state := same.trans h.state
    isRunning := (congrArg State.isRunning same).trans h.isRunning
    isPaused := (congrArg State.isPaused same).trans h.isPaused }

theorem tell (h : v.Trails l t) {store : Store} {e : Event}
    (learns : store.state = t.store.state.learn e)
    (isRunning : store.state.isRunning = t.store.state.isRunning)
    (isPaused : store.state.isPaused = t.store.state.isPaused) :
    v.Trails (l ++ [e]) ({ t with store }.noted e) := by
  have console := ({ t with store } : Session).console_noted e
  obtain ⟨lines, noted⟩ := ({ t with store } : Session).noted_eq e
  rw [noted] at console ⊢
  refine { h with
    journal := ?_, state := ?_, isRunning := isRunning.trans h.isRunning
    isPaused := isPaused.trans h.isPaused, console := console.trans ?_ }
  · rw [List.reverse_append]
    exact congrArg (e :: ·) h.journal
  · rw [State.learnAll_append, ← h.state]
    exact learns
  · show t.console ++ (if t.attached then _ else _) = _
    rw [h.console, h.attached]
    cases v.attached <;> cases e <;> simp [Event.entry?]

theorem note (h : v.Trails l t) {machine : Machine} (same : machine.driven = t.machine.driven) :
    v.Trails l { t with machine } :=
  { h with driven := same.trans h.driven }

end Session.Trails

theorem Timer.sublist_insert {α : Type} (t : Timer α) (queue : List (Timer α)) :
    queue.Sublist (t.insert queue) := by
  induction queue with
  | nil => exact List.nil_sublist _
  | cons u rest ih =>
      unfold Timer.insert
      split
      · exact List.sublist_cons_self _ _
      · exact ih.cons_cons u

theorem Session.Trails.timing {v t : Session} {l : List Event} (h : v.Trails l t) (wait : Double)
    (id : String) : v.Trails l (t.timing wait id) :=
  { h with timers := h.timers.trans (Timer.sublist_insert _ _) }

/-- In the middle of a segment of the generation `g` an intruder carried out an
operation, and the code went on from there. -/
def Session.Overtaken (when : Session → Bool) (deed : Control) (g : Nat) (t : Session) : Prop :=
  ∃ u a v l, when u = true ∧ u.busy = true ∧ u.machine.generation = g ∧
    (Act.control Act.plain deed).run u = (.ok a, v) ∧ v.machine.unit = none ∧
    v.machine.generation = g + 1 ∧ v.Trails l t

theorem Session.Overtaken.idle {when : Session → Bool} {deed : Control} {g : Nat} {t : Session}
    (h : t.Overtaken when deed g) : t.busy = false := by
  obtain ⟨u, a, v, l, -, -, -, -, none, -, trails⟩ := h
  have unit : t.machine.unit = v.machine.unit := (congrArg Machine.unit trails.driven :)
  unfold Session.busy
  rw [unit, none]
  rfl

/-- What code may do once its step has been counted. -/
def Licence.uncounted : Licence := ⟨false, true, true, true⟩

namespace Act

variable {when : Session → Bool} {deed : Control} {s t : Session} {g : Nat} {l : Licence} {α : Type}

theorem busy_current (busy : s.busy = true) : s.Current := by
  intro u hu waits
  unfold Session.busy at busy
  rw [Option.mem_def.mp hu] at busy
  exact absurd (waits.symm.trans busy) (by simp)

theorem fed_unit (source : String) : (s.blank.fed source).2.machine.unit = none := by
  rcases s.blank.fed_cases source with ⟨-, eq⟩ | ⟨fault, -, eq⟩ | ⟨e, -, eq⟩ | ⟨t, -, eq⟩
  · rw [eq]
    exact congrArg Machine.unit (Session.publish_machine ..)
  · rw [eq]
    rfl
  · rw [eq]
    exact congrArg Machine.unit (Session.publish_machine ..)
  · rw [eq]
    rfl

/-- Resetting and loading always come to an end in the middle of a segment, and
no unit of work and no run are left. -/
theorem run_clearing (clears : deed.Clears) (busy : s.busy = true) :
    ∃ a v, (control plain deed).run s = (.ok a, v) ∧ v.machine.unit = none ∧
      v.machine.generation = s.machine.generation + 1 := by
  have current := busy_current busy
  cases deed with
  | reset => exact ⟨_, _, run_bind_ok (run_reset current), rfl, rfl⟩
  | load source =>
      have turns := (s.blank_fed_turns source).seat
      have none := fed_unit (s := s) source
      have answers : ∃ b, (s.blank.fed source).1 = .ok b := by
        rcases s.blank.fed_cases source with ⟨-, eq⟩ | ⟨fault, hc, -⟩ | ⟨e, -, eq⟩ | ⟨t, -, eq⟩
        · exact ⟨_, congrArg Prod.fst eq⟩
        · exact absurd hc (clears fault)
        · exact ⟨_, congrArg Prod.fst eq⟩
        · exact ⟨_, congrArg Prod.fst eq⟩
      obtain ⟨b, answer⟩ := answers
      have run : (load plain source).run s = (.ok b, (s.blank.fed source).2) := by
        rw [run_load current, ← answer]
      exact ⟨_, _, run_bind_ok run, none, (congrArg Seat.generation turns).symm⟩
  | pause | resume | stop | close | step | setSpeed => exact clears.elim

/-- In the middle of a segment the operation comes to an end, and either changes
nothing of what drives the segment or leaves no unit of work and no run. -/
def Voiding (deed : Control) : Prop :=
  ∀ s : Session, s.busy = true → ∃ a v, (control plain deed).run s = (.ok a, v) ∧
    (v.machine.driven = s.machine.driven ∨
      v.machine.unit = none ∧ v.machine.generation = s.machine.generation + 1)

theorem voiding_of_clears (clears : deed.Clears) : Voiding deed := by
  intro s busy
  obtain ⟨a, v, run, void⟩ := run_clearing clears busy
  exact ⟨a, v, run, .inr void⟩

/-! ## Code that is interrupted -/

/-- The segment that began with `s` goes on, or it was overtaken. -/
def Unsettled (when : Session → Bool) (deed : Control) (s t : Session) : Prop :=
  t.machine.driven = s.machine.driven ∨ t.Overtaken when deed s.machine.generation

theorem Unsettled.busy (busy : s.busy = true) (h : t.machine.driven = s.machine.driven) :
    t.busy = true := by
  have unit : t.machine.unit = s.machine.unit := (congrArg Machine.unit h :)
  unfold Session.busy at *
  rwa [unit]

/-- Code that was overtaken goes on as code does, with nobody to disturb it. -/
theorem heeds_overtaken (counts : l.counts = false) :
    Heeds (intruding when deed) l (Session.Overtaken when deed g) where
  tells := by
    intro α t c edits ht
    have idle : ({ t with store := c.store } : Session).busy = false := ht.idle
    obtain ⟨u, a, v, l, hw, hb, hg, run, none, generation, trails⟩ := ht
    rcases edits.brief with ⟨silent, same⟩ | ⟨e, told, learns⟩
    · rw [silent]
      exact ⟨u, a, v, l, hw, hb, hg, run, none, generation, trails.store same⟩
    · rw [told]
      refine .of_answer (run_forM_intruding idle [e]) ?_
      exact ⟨u, a, v, l ++ [e], hw, hb, hg, run, none, generation,
        trails.tell learns edits.isRunning edits.isPaused⟩
  note := by
    rintro t f driven ⟨u, a, v, l, hw, hb, hg, run, none, generation, trails⟩
    exact ⟨u, a, v, l, hw, hb, hg, run, none, generation, trails.note (driven _)⟩
  compile := by
    rintro t bodies notices ⟨u, a, v, l, hw, hb, hg, run, none, generation, trails⟩
    exact ⟨u, a, v, l, hw, hb, hg, run, none, generation, { trails with }⟩
  timer := by
    rintro - t wait id ⟨u, a, v, l, hw, hb, hg, run, none, generation, trails⟩
    exact ⟨u, a, v, l, hw, hb, hg, run, none, generation, trails.timing wait id⟩
  count may := absurd (may.symm.trans counts) (by simp)

/-- An intruder may overtake code that is going on. -/
theorem going_tell (voids : Voiding deed) (busy : s.busy = true)
    (going : t.machine.driven = s.machine.driven) (e : Event) :
    Ends (intruding when deed e) t (fun _ u => Unsettled when deed s u)
      (fun _ u => Unsettled when deed s u) := by
  have still := Unsettled.busy busy going
  have driven : (t.noted e).machine.driven = s.machine.driven := by
    obtain ⟨lines, noted⟩ := t.noted_eq e
    rw [noted]
    exact going
  refine ends_intruding still e (fun _ => .inl driven) fun now => ?_
  have still := (noted_busy e).trans still
  have same : (t.noted e).machine.generation = s.machine.generation :=
    (congrArg Machine.generation driven :)
  obtain ⟨a, v, run, on | ⟨none, generation⟩⟩ := voids _ still
  · exact .of_answer run (.inl (on.trans driven))
  · rw [same] at generation
    exact .of_answer run (.inr ⟨_, a, v, [], now, still, same, run, none, generation, .refl v⟩)

/-- Whatever code does keeps its segment going on, or overtaken; counting steps
apart, which comes before anything is told. -/
theorem heeds_unsettled (voids : Voiding deed) (busy : s.busy = true) (counts : l.counts = false) :
    Heeds (intruding when deed) l (Unsettled when deed s) where
  tells := by
    rintro α t c edits (going | overtaken)
    · have going : ({ t with store := c.store } : Session).machine.driven = _ := going
      rcases edits.brief with ⟨silent, -⟩ | ⟨e, told, -⟩
      · rw [silent]
        exact .inl going
      · rw [told, List.forM_eq_forM, List.forM_cons, ends_bind]
        exact going_tell voids busy going e
    · exact ((heeds_overtaken counts).tells edits overtaken).mono (fun _ _ h => .inr h)
        fun _ _ h => .inr h
  note := by
    rintro t f driven (going | overtaken)
    · exact .inl ((driven _).trans going)
    · exact .inr ((heeds_overtaken counts).note driven overtaken)
  compile := by
    rintro t bodies notices (going | overtaken)
    · exact .inl going
    · exact .inr ((heeds_overtaken counts).compile bodies notices overtaken)
  timer may := by
    rintro t wait id (going | overtaken)
    · exact .inl going
    · exact .inr ((heeds_overtaken counts).timer may wait id overtaken)
  count may := absurd (may.symm.trans counts) (by simp)

/-! ## Segments that are interrupted -/

section Segments

variable (voids : Voiding deed) (busy : s.busy = true)
include voids busy

theorem unsettled_of_coded {act : Act α} (h : Coded (intruding when deed) .uncounted act)
    (ht : Unsettled when deed s t) :
    Ends act t (fun _ u => Unsettled when deed s u) (fun _ u => Unsettled when deed s u) :=
  h.heeds (heeds_unsettled voids busy rfl) t ht

theorem unsettled_inside (calls : List Call) {act : Act α} {Q : α → Session → Prop}
    (h : Ends act t Q fun _ u => Unsettled when deed s u) :
    Ends (inside (intruded when deed) calls act) t Q fun _ u => Unsettled when deed s u := by
  unfold inside
  rw [ends_tryCatch]
  refine h.mono (fun _ _ hu => hu) fun fault u hu => ?_
  rw [ends_bind]
  refine (unsettled_of_coded voids busy (coded_unwindAll calls (some fault)) hu).mono ?_
    fun _ _ hv => hv
  intro later v hv
  exact hv

/-- The step is counted before anything is told. -/
theorem unsettled_execute (scope : String) (i : Instruction)
    (going : t.machine.driven = s.machine.driven) :
    Ends (execute (intruded when deed) scope i) t (fun _ u => Unsettled when deed s u)
      (fun _ u => Unsettled when deed s u) := by
  have rest (step : Int) : Coded (intruding when deed) .uncounted (do
      let limit := (← machine).limits.steps
      if limit < step then throw (.halt (.stepLimit limit))
      if 0 < i.line then
        modifyMachine fun m => { m with line := i.line }
        change (intruded when deed) fun s _ => s.setCurrentLine i.line) := by
    refine coded_machine (fun m => .ite ((Coded.throw _).bind fun _ => ?_) ?_) fun _ _ => rfl
    all_goals
      refine .ite (Coded.bind (.note (fun _ => rfl) (fun _ _ => rfl) fun _ _ => rfl) fun _ => ?_)
        (.pure _)
      exact coded_setCurrentLine _
  have performs : Coded (intruding when deed) .uncounted (perform (intruded when deed) scope i) :=
    coded_perform (fun _ => rfl) rfl scope
  have counted : (change (intruded when deed) fun s _ => s.incrementStep).run t =
      (.ok t.store.incrementStep.value, { t with store := t.store.incrementStep.store }) := rfl
  rw [execute_eq, arrive, bind_assoc, ends_bind]
  exact .of_answer counted
    (unsettled_of_coded voids busy ((rest _).bind fun _ => performs) (.inl going))

theorem unsettled_runBody (call : Call) (callers : List Caller) (base : Base)
    (is : List Instruction) (going : t.machine.driven = s.machine.driven) :
    Ends (runBody (intruded when deed) call callers base is) t
      (fun _ u => Unsettled when deed s u) (fun _ u => Unsettled when deed s u) := by
  cases is with
  | nil =>
      exact unsettled_of_coded voids busy (coded_leave rfl call callers base .undefined) (.inl going)
  | cons i rest =>
      unfold runBody runBodyWith
      rw [ends_bind]
      refine (unsettled_inside voids busy _
        (unsettled_execute voids busy call.scope i going)).mono ?_ fun _ _ hu => hu
      intro r u hu
      cases r with
      | done returned => exact hu
      | calling inner body context finish => exact hu

/-- A segment goes on to its pause or its end, overtaken or not. -/
theorem unsettled_runSegment (work : Work) (going : t.machine.driven = s.machine.driven) :
    Ends (runSegment (intruded when deed) work) t (fun _ u => Unsettled when deed s u)
      (fun _ u => Unsettled when deed s u) := by
  have coded {act : Act Progress} (h : Coded (intruding when deed) .uncounted act) :=
    unsettled_of_coded voids busy h (.inl going)
  cases work with
  | instruction i =>
      unfold runSegment runSegmentWith
      rw [ends_bind, ends_machine, ends_bind]
      refine (unsettled_execute voids busy _ i going).mono ?_ fun _ _ hu => hu
      intro r u hu
      cases r with
      | done returned => exact hu
      | calling call body context finish => exact hu
  | pass => exact coded (coded_taking rfl rfl)
  | inCall call point callers base =>
      cases point with
      | entered body =>
          have compiles : Ends (instructionsOf body) t
              (fun _ u => u.machine.driven = s.machine.driven)
              (fun _ u => Unsettled when deed s u) := by
            unfold instructionsOf
            rw [ends_bind, ends_get]
            split
            · exact going
            · split
              · exact .inl going
              · exact going
          unfold runSegment runSegmentWith
          rw [ends_bind]
          refine (unsettled_inside voids busy _ compiles).mono ?_ fun _ _ hu => hu
          intro is u hu
          exact unsettled_runBody voids busy call callers base is hu
      | between returned rest =>
          cases returned with
          | some v => exact coded (coded_leave rfl call callers base v)
          | none => exact unsettled_runBody voids busy call callers base rest going
  | atPass point =>
      cases point with
      | beforeMicrotask task round => exact coded (coded_startTask task _)
      | beforeCallback task => exact coded (coded_startTask task _)
      | idle => exact .inl going
      | afterMicrotask round => exact coded (coded_taking rfl rfl)
      | afterCallback => exact coded (coded_taking rfl rfl)

end Segments

/-! ## Driving -/

/-- No segment is run, and the run is the one of the generation `g`. -/
def Resting (g : Nat) (t : Session) : Prop := t.busy = false ∧ t.machine.generation = g

/-- What does the same without an intruder, and there makes no run void, keeps a
session at rest. -/
theorem resting_of_unheard {act : Host → Act α} (unheard : Unheard act)
    (settles : Settles (act plain)) (hs : Resting g s) :
    Ends (act (intruded when deed)) s (fun _ t => Resting g t) (fun _ t => Resting g t) := by
  obtain ⟨same, idle⟩ := unheard when deed s hs.1
  have generation : ((act plain).run s).2.machine.generation = s.machine.generation :=
    (settles s).after.seat.generation
  refine .of_run same ?_
  unfold Ends
  split <;> rename_i run <;> rw [run] at idle generation <;> exact ⟨idle, generation.trans hs.2⟩

theorem resting_fault {u : UnitOfWork} {fault : Fault}
    (going : t.machine.driven = (s.working u).machine.driven) :
    Ends (afterSegment (intruded when deed) u s.machine.generation (.error fault)) t
      (fun again v => again = false ∧ Resting s.machine.generation v)
      (fun _ v => Resting s.machine.generation v) := by
  have generation : t.machine.generation = s.machine.generation :=
    (congrArg Machine.generation going :)
  have rest : Resting s.machine.generation (t.holding none) := ⟨rfl, generation⟩
  have reports : Unheard (fun host => do
      error host fault.report
      finish host) :=
    Unheard.bind (.change fun s now => s.logConsole "error" [fault.report] now) fun _ =>
      unheard_finish
  have settles : Settles (do error plain fault.report; finish plain) :=
    (coded_error _).stays.settles.bind fun _ => settles_finish
  unfold afterSegment failUnit
  rw [ends_bind, ends_bind, ends_machine, if_pos generation, ends_bind, ends_modifyMachine]
  refine (resting_of_unheard reports settles rest).mono ?_ fun _ _ hv => hv
  intro _ v hv
  exact ⟨rfl, hv⟩

theorem ends_unwindAll (host : Host) (calls : List Call) (fault : Option Fault) (s : Session) :
    Ends (unwindAll host calls fault) s (fun _ _ => True) (fun _ _ => False) := by
  induction calls generalizing fault s with
  | nil => trivial
  | cons call outer ih =>
      unfold unwindAll isCurrent
      rw [ends_bind, ends_bind, ends_machine]
      show Ends (if _ then _ else _) s _ _
      split
      · rw [ends_bind, ends_tryCatch]
        refine (Ends.of_self (do unwind host call; return fault) s).mono ?_ ?_
        · intro fault t _
          exact ih fault t
        · intro later t _
          exact ih (some later) t
      · exact ih fault s

/-- Giving up work never faults. -/
theorem ends_abandon (host : Host) (work : Work) (s : Session) :
    Ends (abandon host work) s (fun _ _ => True) (fun _ _ => False) := by
  cases work with
  | inCall call point callers base => exact ends_unwindAll host _ none s
  | _ => trivial

/-- Work of a segment that was overtaken is not kept. -/
theorem overtaken_afterSegment {u : UnitOfWork} (r : Except Fault Progress)
    (h : t.Overtaken when deed g) :
    Ends (afterSegment (intruded when deed) u g r) t
      (fun again v => again = false ∧ v.Overtaken when deed g) (fun _ _ => False) := by
  have void : t.machine.generation ≠ g := by
    obtain ⟨w, a, v, l, -, -, -, -, -, generation, trails⟩ := h
    have same : t.machine.generation = v.machine.generation :=
      (congrArg Machine.generation trails.driven :)
    omega
  have given : t.machine.unit = none := by
    obtain ⟨w, a, v, l, -, -, -, -, none, -, trails⟩ := h
    have same : t.machine.unit = v.machine.unit := (congrArg Machine.unit trails.driven :)
    exact same.trans none
  have holds (Q : Bool → Session → Prop) (hq : Q false t) :
      Ends (holdsUnit u.serial) t Q (fun _ _ => False) := by
    unfold holdsUnit
    rw [ends_bind, ends_machine, given]
    exact hq
  rcases r with fault | ⟨work⟩ | _
  · unfold afterSegment failUnit
    rw [ends_bind, ends_bind, ends_machine, if_neg void]
    exact ⟨rfl, h⟩
  · have abandons := ((coded_abandon work).heeds (heeds_overtaken (l := .uncounted) rfl) t h).and
      (ends_abandon (intruded when deed) work t)
    unfold afterSegment keepWork
    rw [ends_bind, ends_machine, beq_false_of_ne void, ends_bind, ends_bind]
    refine holds _ ?_
    rw [if_neg Bool.false_ne_true, ends_bind]
    refine abandons.mono ?_ ?_
    · rintro _ v ⟨hv, -⟩
      exact ⟨rfl, hv⟩
    · rintro _ v ⟨-, never⟩
      exact never
  · unfold afterSegment
    rw [ends_bind]
    exact holds _ ⟨rfl, h⟩

theorem resting_advance (voids : Voiding deed) (hs : Resting g s) (unit : s.machine.unit ≠ none) :
    Ends (advance (intruded when deed)) s
      (fun again t => Resting g t ∧ (again = true → t.phase = s.phase ∧ t.machine.unit ≠ none) ∨
        again = false ∧ t.Overtaken when deed g)
      (fun _ t => Resting g t) := by
  obtain ⟨idle, rfl⟩ := hs
  obtain ⟨u, hu⟩ := Option.ne_none_iff_exists'.mp unit
  have waits : u.running = false := by
    unfold Session.busy at idle
    rw [hu] at idle
    exact idle
  have segment : Ends (runSegment (intruded when deed) u.work) (s.working u) _ _ :=
    unsettled_runSegment voids (s := s.working u) rfl u.work rfl
  have run : (advance (intruded when deed)).run s = _ := run_advance hu waits
  unfold Ends at segment
  rcases hseg : ((runSegment (intruded when deed) u.work).run (s.working u) :
    Except Fault Progress × Session) with ⟨r, t⟩
  rw [hseg] at run segment
  have unsettled : Unsettled when deed (s.working u) t := by
    cases r with
    | ok p => exact segment
    | error fault => exact segment
  refine .of_run run ?_
  -- the program stays with its run unless it is overtaken in the middle of the segment
  rcases unsettled with going | overtaken
  · have generation : t.machine.generation = s.machine.generation :=
      (congrArg Machine.generation going :)
    have phase : t.machine.phase = s.machine.phase := (congrArg Machine.phase going :)
    cases r with
    | error fault =>
        refine (resting_fault going).mono ?_ fun _ _ hv => hv
        rintro again v ⟨rfl, hv⟩
        exact .inl ⟨hv, by simp⟩
    | ok p =>
        have rest (unit : Option UnitOfWork) (idle : (unit.any (·.running)) = false) :
            Resting s.machine.generation (t.holding unit) := ⟨idle, generation⟩
        cases p with
        | paused work =>
            have kept : (afterSegment (intruded when deed) u _ (.ok (.paused work))).run t = _ :=
              run_afterSegment_ok going
            exact .of_answer kept (.inl ⟨rest _ rfl, fun _ => ⟨phase, by simp [Session.holding]⟩⟩)
        | ended =>
            have gone : (afterSegment (intruded when deed) u _ (.ok .ended)).run t = _ :=
              run_afterSegment_ok going
            exact .of_answer gone (.inl ⟨rest _ rfl, by simp⟩)
  · refine (overtaken_afterSegment r overtaken).mono ?_ fun _ _ never => never.elim
    rintro again v ⟨rfl, hv⟩
    exact .inr ⟨rfl, hv⟩

theorem rides_resting (voids : Voiding deed) :
    Rides (intruded when deed) (Resting g) (Session.Overtaken when deed g) where
  setPhase := by
    intro s phase hs _ _
    refine .of_answer ((unheard_setPhase phase when deed s hs.1).1.trans (run_setPhase phase)) ?_
    exact ⟨hs, rfl⟩
  nextUnit := by
    intro s hs _ _
    exact ⟨⟨rfl, hs.2⟩, rfl, by simp⟩
  advance := by
    intro s hs on unit
    refine (resting_advance voids hs unit).mono ?_ fun _ _ ht => ht
    rintro again t (⟨ht, goesOn⟩ | ht)
    · exact .inl ⟨ht, fun again => ⟨(goesOn again).1 ▸ on, (goesOn again).2⟩⟩
    · exact .inr ht
  fireUntil := by
    intro s target hs _
    obtain ⟨t, run, machine⟩ : ∃ t, (fireUntil plain target).run s = (.ok ⟨⟩, t) ∧
        t.machine = s.machine :=
      fireUntil_induct (P := fun t => t.machine = s.machine)
        (fun u timer clock hu _ => (u.passed_machine timer clock).trans hu) (fun _ hu _ => hu) rfl
    refine .of_answer ((unheard_fireUntil target when deed s hs.1).1.trans run) ⟨?_, machine⟩
    unfold Resting Session.busy at *
    rwa [machine]
  finish := by
    intro s hs _ _
    exact resting_of_unheard unheard_finish settles_finish hs
  seat gate runActive hs := hs
  void := by
    rintro s t hs ⟨w, a, v, l, -, -, -, -, -, generation, trails⟩
    have same : t.machine.generation = v.machine.generation :=
      (congrArg Machine.generation trails.driven :)
    have := hs.2
    omega

/-- A step or a segment of a run in the middle of which the run became void ends
with it. -/
theorem overtaken_of_void (voids : Voiding deed) (idle : s.busy = false) :
    (∀ r t, (step (intruded when deed)).run s = (r, t) →
      t.machine.generation ≠ s.machine.generation →
      r = .ok false ∧ t.Overtaken when deed s.machine.generation) ∧
    ∀ state r t, (segment (intruded when deed) state).run s = (r, t) →
      t.machine.generation ≠ s.machine.generation →
      r = .ok (.finished none) ∧ t.Overtaken when deed s.machine.generation := by
  have rides : Rides (intruded when deed) _ _ := rides_resting (g := s.machine.generation) voids
  have rests : Resting s.machine.generation s := ⟨idle, rfl⟩
  refine ⟨fun r t run void => ?_, fun state r t run void => ?_⟩
  · have ends := rides.step rests
    unfold Ends at ends
    rw [run] at ends
    cases r with
    | error fault => exact absurd ends.2 void
    | ok more =>
        rcases ends with rest | ⟨rfl, overtaken⟩
        · exact absurd rest.2 void
        · exact ⟨rfl, overtaken⟩
  · have ends := rides.segment rests state
    unfold Ends at ends
    rw [run] at ends
    cases r with
    | error fault => exact absurd ends.2 void
    | ok state =>
        rcases ends with rest | ⟨rfl, overtaken⟩
        · exact absurd rest.2 void
        · exact ⟨rfl, overtaken⟩

end Act

/-- When an intruder resets the session or loads a program in the middle of a
segment, that segment is the last one, and all it still does is what its events
tell of and the timers it sets. -/
theorem clearing_midway_trails (when : Session → Bool) {deed : Control} (clears : deed.Clears)
    {s : Session} (idle : s.busy = false) :
    (∀ r t, (Act.step (Act.intruded when deed)).run s = (r, t) →
      t.machine.generation ≠ s.machine.generation →
      r = .ok false ∧ t.Overtaken when deed s.machine.generation) ∧
    ∀ state r t, (Act.segment (Act.intruded when deed) state).run s = (r, t) →
      t.machine.generation ≠ s.machine.generation →
      r = .ok (.finished none) ∧ t.Overtaken when deed s.machine.generation :=
  Act.overtaken_of_void (Act.voiding_of_clears clears) idle

/-- The latest event was about the event loop. -/
def Session.hearsLoop (s : Session) : Bool := s.journal.head?.any fun e => e.topic == .eventLoop

/-- A session whose program sets a timer. -/
def Session.belated : Session := (loading "setTimeout(() => \x7b\x7d, 100);" {}).2

/-- A run of it, when the session is reset as soon as the timer is told. -/
def Session.outlived : Except Fault RunState × Session :=
  (Act.segment (Act.intruded hearsLoop .reset) (.created true)).run belated

/-- The console and the store were cleared; then a line is written, and a timer is
set for a task that is gone. -/
theorem a_timer_outlives_a_reset :
    Session.outlived.1 = .ok (.finished none) ∧
      (∃ (v : Session) (l : List Event), v.console = [] ∧ v.store.state.loop.timers = [] ∧
        v.Trails l Session.outlived.2) ∧
      Session.outlived.2.console.map (·.text) = ["setTimeout registered (100ms)"] ∧
      Session.outlived.2.clock.pending = 1 ∧ Session.outlived.2.store.state.loop.timers = [] := by
  have clears : Control.reset.Clears := trivial
  have idle : Session.belated.busy = false := by decide +kernel
  have void : Session.outlived.2.machine.generation ≠ Session.belated.machine.generation := by
    decide +kernel
  obtain ⟨answer, u, a, v, l, -, busy, -, run, -, -, trails⟩ :=
    (clearing_midway_trails Session.hearsLoop clears idle).2 (.created true)
      Session.outlived.1 Session.outlived.2 rfl void
  have blank : v = u.blank := by
    have reset := Act.run_bind_ok (f := fun _ => pure Act.Answer.nothing)
      (Act.run_reset (Act.busy_current busy))
    exact congrArg Prod.snd (run.symm.trans reset)
  refine ⟨answer, ⟨v, l, by rw [blank]; rfl, by rw [blank]; rfl, trails⟩, ?_⟩
  decide +kernel

end Runloop
