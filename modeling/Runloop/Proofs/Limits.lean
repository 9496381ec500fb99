/-
# The limits of a run

A run is held within two limits, the number of instructions it executes and the
number of calls that are open at a time.  Both are looked at in one place only:
`execute` counts a step before it hands an instruction to its handler, and
`invoke` looks at the depth before it opens a call.

Where a handler is entered is found by giving the code other handlers than its own:
`Session.Enters` says that what comes of driving a session is not the same for all of
them.  A segment that executes no instruction counts no step, and does the same
whatever the handlers are (`Act.Rests`).  A segment that executes one counts one step
(`Act.Executes`), and hands the instruction over, once, if the count stays within the
limit (`Act.Asks`).  `Entered n s` says that `n` handlers were entered on the way to
`s`.

The open calls are bounded move by move (`Setting.Shallow`), so that no stack
that is ever told of is too high, also in the middle of a segment.
-/
import Runloop.Proofs.Commands

namespace Runloop

open Relation (ReflTransGen)

/-- How many steps were counted. -/
def Session.count (s : Session) : Nat := s.store.state.currentStep

/-! ## Handing instructions over -/

namespace Act

variable {α β : Type} {s s' t v : Session} {scope : String} {i : Instruction} {l : Licence}

/-- Code that may not count does not. -/
theorem Coded.countless {act : Act α} (h : Coded record l act) (quiet : l.counts = false)
    (s : Session) : (act.run s).2.count = s.count :=
  (h.same aloof_step (by simp [quiet]) s).after

/-- The step is counted, and is not one too many if the instruction is handed over. -/
theorem ends_arrive (i : Instruction) (s : Session) :
    Ends (arrive plain i) s
      (fun _ t => t.count = s.count + 1 ∧ (t.count : Int) ≤ s.machine.limits.steps)
      (fun _ t => t.count = s.count + 1) := by
  have counted : (s.publish s.store.incrementStep).count = s.count + 1 := rfl
  unfold arrive
  rw [ends_bind, ends_change, ends_bind, ends_machine]
  dsimp only
  split
  · exact counted
  · rename_i within
    have fits := Int.not_lt.mp within
    split
    · rw [ends_bind, ends_modifyMachine, ends_change]
      exact ⟨counted, fits⟩
    · exact ⟨counted, fits⟩

/-- A computation that is given handlers enters one, in `v`, where the step of the
instruction was counted within the limit.  What comes of the computation is made of what
comes of this handler; all the rest does not depend on handlers, and counts no step. -/
structure Asks (act : Handler → Act α) (s v : Session) (scope : String) (i : Instruction) :
    Prop where
  counted : v.count = s.count + 1
  fits : (v.count : Int) ≤ s.machine.limits.steps
  once : ∃ k : Except Fault Executed × Session → Except Fault α × Session,
    (∀ r, (k r).2.count = r.2.count) ∧
      ∀ handler, (act handler).run s = k ((handler scope i).run v)

/-- A computation that is given handlers executes an instruction: its step is one too
many, or its handler is entered. -/
inductive Executes (act : Handler → Act α) (s : Session) : Prop
  | stops {fault : Fault} {t : Session} : t.count = s.count + 1 →
      (∀ handler, (act handler).run s = (.error fault, t)) → Executes act s
  | asks {v : Session} {scope : String} {i : Instruction} : Asks act s v scope i →
      Executes act s

/-- A computation that is given handlers executes no instruction: it counts no step, and
does the same whatever the handlers are. -/
def Rests (act : Handler → Act α) (s : Session) : Prop :=
  ∃ r : Except Fault α × Session, r.2.count = s.count ∧ ∀ handler, (act handler).run s = r

theorem rests_of_coded {act : Act α} (h : Coded record l act) (quiet : l.counts = false)
    (s : Session) : Rests (fun _ => act) s :=
  ⟨act.run s, h.countless quiet s, fun _ => rfl⟩

/-- What is made of the outcome of a computation, without counting, asks for what that
one asks for. -/
theorem Asks.map {act : Handler → Act α} {act' : Handler → Act β} (h : Asks act s v scope i)
    (count : s.count = s'.count) (limits : s.machine.limits = s'.machine.limits)
    {g : Except Fault α × Session → Except Fault β × Session}
    (quiet : ∀ r, (g r).2.count = r.2.count)
    (same : ∀ handler, (act' handler).run s' = g ((act handler).run s)) :
    Asks act' s' v scope i := by
  obtain ⟨counted, fits, k, still, run⟩ := h
  refine ⟨counted.trans (congrArg (· + 1) count), limits ▸ fits, fun r => g (k r), ?_, ?_⟩
  · exact fun r => (quiet _).trans (still r)
  · intro handler
    rw [same, run]

/-- What an instruction does counts no other step. -/
theorem Asks.count {act : Handler → Act α} (h : Asks act s v scope i) :
    ((act (perform plain)).run s).2.count = v.count := by
  obtain ⟨-, -, k, still, run⟩ := h
  have performs : Coded record ⟨false, false, true, true⟩ (perform plain scope i) :=
    coded_perform (fun _ => rfl) rfl scope
  rw [run]
  exact (still _).trans (performs.countless rfl v)

/-- The handler that is entered shows in what comes of the computation. -/
theorem Asks.differ {act : Handler → Act α} (h : Asks act s v scope i) :
    ∃ handler handler' : Handler, (act handler).run s ≠ (act handler').run s := by
  obtain ⟨-, -, k, still, run⟩ := h
  -- a handler that counts a step of its own leaves another count behind
  refine ⟨fun _ _ => pure (.done none),
    fun _ _ => do
      let _ ← change plain fun s _ => s.incrementStep
      return .done none, fun same => ?_⟩
  have count := congrArg (·.2.count) same
  rw [run, run, still, still] at count
  exact absurd count (Nat.ne_of_lt (Nat.lt_succ_self v.count))

namespace Executes

variable {act : Handler → Act α}

theorem map {act' : Handler → Act β} (h : Executes act s) (count : s.count = s'.count)
    (limits : s.machine.limits = s'.machine.limits)
    {g : Except Fault α × Session → Except Fault β × Session}
    (quiet : ∀ r, (g r).2.count = r.2.count)
    (fails : ∀ fault t, ∃ fault', (g (.error fault, t)).1 = .error fault')
    (same : ∀ handler, (act' handler).run s' = g ((act handler).run s)) :
    Executes act' s' := by
  cases h with
  | @stops fault t counted run =>
      obtain ⟨fault', failed⟩ := fails fault t
      have still := (quiet (.error fault, t)).trans (counted.trans (congrArg (· + 1) count))
      exact .stops still fun handler => by rw [same, run]; exact Prod.ext failed rfl
  | asks asks => exact .asks (asks.map count limits quiet same)

/-- Only the run of a computation counts. -/
theorem of_run {act' : Handler → Act α} (h : Executes act s) (count : s.count = s'.count)
    (limits : s.machine.limits = s'.machine.limits)
    (same : ∀ handler, (act' handler).run s' = (act handler).run s) : Executes act' s' :=
  h.map count limits (fun _ => rfl) (fun fault _ => ⟨fault, rfl⟩) same

theorem bind (h : Executes act s) {f : α → Act β}
    (quiet : ∀ a t, ((f a).run t).2.count = t.count) :
    Executes (fun handler => act handler >>= f) s := by
  refine h.map rfl rfl (g := fun r : Except Fault α × Session => match r with
    | (.ok a, t) => (f a).run t
    | (.error fault, t) => (.error fault, t)) ?_ (fun fault _ => ⟨fault, rfl⟩) fun _ => run_bind
  rintro ⟨fault | a, t⟩
  · rfl
  · exact quiet a t

/-- The end of a fault's calls does not count. -/
theorem inside (h : Executes act s) (calls : List Call) :
    Executes (fun handler => Act.inside plain calls (act handler)) s := by
  have leaves (fault : Fault) : Coded record ⟨false, false, false, false⟩ (do
      throw ((← unwindAll plain calls (some fault)).getD fault) : Act α) :=
    (coded_unwindAll calls (some fault)).bind fun _ => .throw _
  refine h.map rfl rfl (g := fun r : Except Fault α × Session => match r with
    | (.ok a, t) => (.ok a, t)
    | (.error fault, t) =>
      (do throw ((← unwindAll plain calls (some fault)).getD fault) : Act α).run t)
    ?_ ?_ fun _ => run_tryCatch
  · rintro ⟨fault | a, t⟩
    · exact (leaves fault).countless rfl t
    · rfl
  · intro fault t
    dsimp only
    rw [run_bind]
    split
    · exact ⟨_, rfl⟩
    · exact ⟨_, rfl⟩

/-- An instruction that is executed by its own handler is counted, and was within the
limit if it is done. -/
theorem ends (h : Executes act s) :
    Ends (act (perform plain)) s
      (fun _ t => t.count = s.count + 1 ∧ (t.count : Int) ≤ s.machine.limits.steps)
      (fun _ t => t.count = s.count + 1) := by
  cases h with
  | stops counted run =>
      unfold Ends
      rw [run]
      exact counted
  | asks asks =>
      refine (Ends.of_after (P := fun t => t.count = _) asks.count).mono ?_ ?_
      · rintro _ t count
        rw [count]
        exact ⟨asks.counted, asks.fits⟩
      · rintro _ t count
        exact count.trans asks.counted

end Executes

theorem Rests.ends {act : Handler → Act α} (h : Rests act s) :
    Ends (act (perform plain)) s (fun _ t => t.count = s.count) (fun _ t => t.count = s.count) := by
  obtain ⟨r, count, run⟩ := h
  refine .of_after (P := fun t => t.count = s.count) ?_
  rw [run]
  exact count

/-! ## Segments -/

theorem executes_executeWith (scope : String) (i : Instruction) (s : Session) :
    Executes (fun handler => executeWith plain handler scope i) s := by
  rcases run : ((arrive plain i).run s : Except Fault Unit × Session) with ⟨fault | _, t⟩
  · exact .stops ((ends_arrive i s).of_error run) fun _ => run_bind_error run
  · obtain ⟨counted, fits⟩ := (ends_arrive i s).of_ok run
    exact .asks ⟨counted, fits, id, fun _ => rfl, fun _ => run_bind_ok run⟩

theorem executes_instruction (i : Instruction) (s : Session) :
    Executes (fun handler => runSegmentWith plain handler (.instruction i)) s := by
  have executes := executes_executeWith (s.machine.globalScope.getD "") i s
  refine .of_run (executes.bind (f := ?_) ?quiet) rfl rfl fun handler => ?same
  case same =>
    unfold runSegmentWith
    exact run_machine_bind
  case quiet =>
    intro r t
    cases r <;> rfl

theorem executes_runBody (call : Call) (callers : List Caller) (base : Base) (i : Instruction)
    (rest : List Instruction) (s : Session) :
    Executes (fun handler => runBodyWith plain handler call callers base (i :: rest)) s := by
  have executes := (executes_executeWith call.scope i s).inside (call :: openCalls callers)
  refine executes.bind fun r t => ?_
  cases r <;> rfl

/-- Nothing is counted when a body is compiled. -/
theorem coded_compiling (calls : List Call) (body : Body) :
    Coded record ⟨false, false, false, false⟩ (Act.inside plain calls (instructionsOf body)) :=
  coded_inside _ (.compile body)

/-- A body that is entered is compiled first. -/
theorem executes_entered {call : Call} {body : Body} {callers : List Caller} {base : Base}
    {rest : List Instruction}
    (run : (Act.inside plain (call :: openCalls callers) (instructionsOf body)).run s =
      (.ok (i :: rest), t)) :
    Executes (fun handler =>
      runSegmentWith plain handler (.inCall call (.entered body) callers base)) s := by
  have compiles := coded_compiling (call :: openCalls callers) body
  have count := compiles.countless rfl s
  rw [run] at count
  have driven := ((compiles.untouched s).of_ok run).driven
  exact (executes_runBody call callers base i rest t).of_run count
    (congrArg Machine.limits driven :) fun _ => run_bind_ok run

theorem rests_taking (round : Round) (ran : Bool) (s : Session) :
    Rests (fun _ => takeMicrotask plain round ran) s := by
  have takes : Coded record ⟨false, true, false, false⟩ (takeMicrotask plain round ran) :=
    coded_takeMicrotask rfl round ran
  exact rests_of_coded takes rfl s

theorem rests_pass (s : Session) :
    Rests (fun handler => runSegmentWith plain handler .pass) s :=
  rests_taking .first false s

/-- A segment executes one instruction, or none. -/
theorem rests_or_executes (work : Work) (s : Session) :
    Rests (fun handler => runSegmentWith plain handler work) s ∨
      Executes (fun handler => runSegmentWith plain handler work) s := by
  have leaving (call : Call) (callers : List Caller) (base : Base) (v : Value) :
      Coded record ⟨false, false, true, true⟩ (leave plain call callers base v) :=
    coded_leave rfl call callers base v
  have starting (task : Task) (base : Base) :
      Coded record ⟨false, false, false, false⟩ (startTask plain task base) :=
    coded_startTask task base
  cases work with
  | instruction i => exact .inr (executes_instruction i s)
  | pass => exact .inl (rests_pass s)
  | inCall call point callers base =>
      cases point with
      | entered body =>
          have count := (coded_compiling (call :: openCalls callers) body).countless rfl s
          rcases run : ((Act.inside plain (call :: openCalls callers) (instructionsOf body)).run s :
            Except Fault (List Instruction) × Session) with ⟨fault | _ | ⟨i, rest⟩, t⟩
          · rw [run] at count
            exact .inl ⟨_, count, fun _ => run_bind_error run⟩
          · rw [run] at count
            have left := (leaving call callers base .undefined).countless rfl t
            exact .inl ⟨_, left.trans count, fun _ => run_bind_ok run⟩
          · exact .inr (executes_entered run)
      | between returned rest =>
          cases returned with
          | some v => exact .inl (rests_of_coded (leaving call callers base v) rfl s)
          | none =>
              cases rest with
              | nil => exact .inl (rests_of_coded (leaving call callers base .undefined) rfl s)
              | cons i rest => exact .inr (executes_runBody call callers base i rest s)
  | atPass point =>
      cases point with
      | beforeMicrotask task round => exact .inl (rests_of_coded (starting task _) rfl s)
      | beforeCallback task => exact .inl (rests_of_coded (starting task _) rfl s)
      | idle => exact .inl ⟨_, rfl, fun _ => rfl⟩
      | afterMicrotask round => exact .inl (rests_taking round true s)
      | afterCallback => exact .inl (rests_taking .last true s)

end Act

/-! ## Handlers that are entered -/

/-- The next segment of `s` leads to `t` and enters the handler of an instruction: what
comes of it is not the same whatever the handlers of instructions are. -/
def Session.Enters (s t : Session) : Prop :=
  t = ((Act.advance Act.plain).run s).2 ∧
    ∃ handler handler' : Act.Handler,
      (Act.advanceWith Act.plain handler).run s ≠ (Act.advanceWith Act.plain handler').run s

/-- The sessions that a loaded program can come to, and how many handlers were
entered on the way since it was loaded. -/
inductive Entered : Nat → Session → Prop
  | load {s t : Session} {program : List Instruction} : s.hooks = [] → s.machine.unit = none →
      (Act.init Act.plain program).run s = (.ok ⟨⟩, t) → Entered 0 t
  | enter {n : Nat} {s t : Session} {fault : Option Fault} : Entered n s → Drive s fault t →
      s.Enters t → Entered (n + 1) t
  | other {n : Nat} {s t : Session} {fault : Option Fault} : Entered n s → Drive s fault t →
      ¬ s.Enters t → Entered n t

theorem Entered.live {n : Nat} {s : Session} (h : Entered n s) : s.Live := by
  induction h with
  | load hooks unit run => exact ⟨none, .load hooks unit run⟩
  | enter _ d _ ih | other _ d _ ih => exact ih.drive d

/-- On the way to every session that is reached some number of handlers were
entered. -/
theorem Reached.entered {why : Option Fault} {s : Session} (h : Reached why s) :
    ∃ n, Entered n s := by
  induction h with
  | load hooks unit run => exact ⟨0, .load hooks unit run⟩
  | @drive s t _ _ _ d ih =>
      obtain ⟨n, ih⟩ := ih
      by_cases enters : s.Enters t
      · exact ⟨n + 1, ih.enter d enters⟩
      · exact ⟨n, ih.other d enters⟩

/-! ## What driving does to the count -/

section Drive

variable {s t : Session} {fault : Option Fault}

/-- A unit of work that executes an instruction counts it, and goes on only
within the limit. -/
theorem Act.advance_executes {u : UnitOfWork} (st : Steady s) (hu : s.machine.unit = some u)
    (h : Executes (fun handler => runSegmentWith plain handler u.work) (s.working u)) :
    ((advance plain).run s).2.count = s.count + 1 ∧
      (((advance plain).run s).2.phase ≠ .completed →
        (((advance plain).run s).2.count : Int) ≤ s.machine.limits.steps) := by
  have segment : ((advance plain).run s).2.count = _ :=
    advance_same aloof_step hu (st.waits u hu)
  rcases advance_cases st hu with
    ⟨fault, v, t, run, advances, -, -, completed⟩ | ⟨p, v, run, -, advances⟩
  · rw [run] at segment
    refine ⟨segment.trans (h.ends.of_error run), fun on => absurd ?_ on⟩
    rw [advances]
    exact completed
  · rw [run] at segment
    obtain ⟨counted, fits⟩ := h.ends.of_ok run
    refine ⟨segment.trans counted, fun _ => ?_⟩
    rw [segment]
    exact fits

/-- Nothing but the execution of an instruction is counted. -/
theorem Drive.count (d : Drive s fault t) (st : s.phase ≠ .completed → Steady s) :
    t.count = s.count ∨
      s.phase ≠ .completed ∧ t.count = s.count + 1 ∧
        (t.phase ≠ .completed → (t.count : Int) ≤ s.machine.limits.steps) := by
  have still {act : Act Unit} (h : Act.Within (Act.Same fun store => store.state.currentStep) act) :
      (act.run s).2.count = s.count := (h s).after
  cases d with
  | time | seat | take => exact .inl rfl
  | fire id =>
      refine .inl ?_
      rw [Act.run_fire, Session.count, Session.publish_store, (requeues_moveToCallbacks ..).same]
      rfl
  | speed speed =>
      refine .inl ?_
      unfold Act.setSpeed
      rw [Act.run_change rfl, Session.count, Session.publish_store]
      rfl
  | phase _ _ =>
      exact .inl (still ((Act.same_modifyMachine _).bind fun _ =>
        Act.same_setExecution Act.aloof_step _ _))
  | finish _ _ => exact .inl (still (Act.same_finish Act.aloof_step))
  | stop => exact .inl (still (Act.same_stop Act.aloof_step))
  | @advance u hph hu =>
      rcases Act.rests_or_executes u.work (s.working u) with rests | executes
      · have segment := Act.advance_same Act.aloof_step hu ((st hph).waits u hu)
        exact .inl (segment.trans rests.ends.after)
      · exact .inr ⟨hph, Act.advance_executes (st hph) hu executes⟩

/-- A turn that enters a handler enters no more than this one. -/
theorem Session.Enters.asks (enters : s.Enters t) :
    ∃ v scope i, Act.Asks (Act.advanceWith Act.plain) s v scope i := by
  obtain ⟨-, handler, handler', differ⟩ := enters
  cases hu : s.machine.unit with
  | none =>
      refine absurd ?_ differ
      unfold Act.advanceWith
      rw [Act.run_machine_bind, Act.run_machine_bind, hu]
  | some u =>
      cases waits : u.running with
      | true =>
          refine absurd ?_ differ
          unfold Act.advanceWith
          rw [Act.run_machine_bind, Act.run_machine_bind, hu]
          simp only [waits, if_true]
      | false =>
          have run (handler : Act.Handler) :
              (Act.advanceWith Act.plain handler).run s = _ := Act.run_advanceWith handler hu waits
          have alike {r : Except Fault Progress × Session} (same : ∀ handler : Act.Handler,
              (Act.runSegmentWith Act.plain handler u.work).run (s.working u) = r) :
              (Act.advanceWith Act.plain handler).run s =
                (Act.advanceWith Act.plain handler').run s := by
            rw [run, run, same, same]
          rcases Act.rests_or_executes u.work (s.working u) with ⟨r, -, same⟩ |
            ⟨-, same⟩ | ⟨asks⟩
          · exact absurd (alike same) differ
          · exact absurd (alike same) differ
          · refine ⟨_, _, _, asks.map rfl rfl (g := fun r =>
              (Act.afterSegment Act.plain u s.machine.generation r.1).run r.2) (fun r => ?_) run⟩
            exact (Act.same_afterSegment Act.aloof_step u _ r.1 r.2).after

/-- A turn enters a handler exactly if an instruction is handed over in it. -/
theorem Session.enters_iff : s.Enters t ↔ ∃ v scope i,
    Act.Asks (Act.advanceWith Act.plain) s v scope i ∧
      t = ((Act.advanceWith Act.plain (Act.perform Act.plain)).run s).2 := by
  constructor
  · intro enters
    obtain ⟨v, scope, i, asks⟩ := enters.asks
    exact ⟨v, scope, i, asks, enters.1⟩
  · rintro ⟨v, scope, i, asks, rfl⟩
    exact ⟨rfl, asks.differ⟩

/-- A handler is entered within the limit, and its instruction is counted. -/
theorem Session.Enters.count (enters : s.Enters t) :
    t.count = s.count + 1 ∧ (t.count : Int) ≤ s.machine.limits.steps := by
  obtain ⟨v, scope, i, asks⟩ := enters.asks
  have same : t.count = v.count := (congrArg Session.count enters.1).trans asks.count
  rw [same]
  exact ⟨asks.counted, asks.fits⟩

end Drive

/-- A program that is on has counted no more steps than it may, and one that is
over one more at most. -/
theorem Reached.counted {why : Option Fault} {s : Session} (h : Reached why s)
    (limit : 0 ≤ s.machine.limits.steps) :
    (s.count : Int) ≤ s.machine.limits.steps + 1 ∧
      (s.phase ≠ .completed → (s.count : Int) ≤ s.machine.limits.steps) := by
  induction h with
  | @load s t program hooks unit run =>
      obtain ⟨-, rfl⟩ := Act.init_eq unit run
      have none : ((s.begun program).count : Int) = 0 := rfl
      rw [none]
      exact ⟨by omega, fun _ => limit⟩
  | @drive s t _ _ h d ih =>
      have k := Act.tick_of_drive h.standing d
      rw [k.limits] at limit ⊢
      obtain ⟨most, on⟩ := ih limit
      rcases d.count h.steady with same | ⟨before, counted, fits⟩
      · rw [same]
        exact ⟨most, fun after => on (k.on after).2⟩
      · have := on before
        exact ⟨by omega, fits⟩

/-- No more handlers are entered than steps may be counted. -/
theorem Entered.le {n : Nat} {s : Session} (h : Entered n s) (limit : 0 ≤ s.machine.limits.steps) :
    n ≤ s.count ∧ (n : Int) ≤ s.machine.limits.steps := by
  induction h with
  | load hooks unit run => exact ⟨Nat.zero_le _, limit⟩
  | @enter n s t fault h d enters ih =>
      obtain ⟨why, reached⟩ := h.live
      have k := Act.tick_of_drive reached.standing d
      rw [k.limits] at limit ⊢
      obtain ⟨counted, fits⟩ := enters.count
      have := (ih limit).1
      exact ⟨by omega, by omega⟩
  | @other n s t fault h d _ ih =>
      obtain ⟨why, reached⟩ := h.live
      have k := Act.tick_of_drive reached.standing d
      rw [k.limits] at limit ⊢
      obtain ⟨few, fits⟩ := ih limit
      rcases d.count reached.steady with same | ⟨-, counted, -⟩
      · exact ⟨same ▸ few, fits⟩
      · exact ⟨by omega, fits⟩

/-! ## Open calls -/

/-- The stack that an event tells of. -/
def Event.stack? : Event → Option (List Frame)
  | .callStack _ _ stack => some stack
  | _ => none

theorem Event.topic_ne_of_isAside {e : Event} (h : e.isAside = true) : e.topic ≠ .callStack := by
  cases e <;> simp_all [isAside, topic]

theorem length_modifyLast {α : Type} (f : α → α) (l : List α) :
    (modifyLast f l).length = l.length := by
  induction l with
  | nil => rfl
  | cons a l ih =>
      cases l with
      | nil => rfl
      | cons b l => exact congrArg (· + 1) ih

/-- From `s` to `t` no stack of more than so many frames was told of. -/
def Lower (height : Int) (s t : Session) : Prop :=
  ∃ l, t.trace = s.trace ++ l ∧ ∀ e ∈ l, ∀ stack ∈ e.stack?, (stack.length : Int) ≤ height

namespace Lower

variable {height : Int} {s t u : Session}

theorem refl (s : Session) : Lower height s s := ⟨[], (List.append_nil _).symm, by simp⟩

theorem trans (h : Lower height s t) (h' : Lower height t u) : Lower height s u := by
  obtain ⟨l, ht, hl⟩ := h
  obtain ⟨l', ht', hl'⟩ := h'
  refine ⟨l ++ l', by rw [ht', ht, List.append_assoc], fun e he => ?_⟩
  exact (List.mem_append.mp he).elim (hl e) (hl' e)

/-- Nothing was told about the stack. -/
theorem of_topic {l : List Event} (trace : t.trace = s.trace ++ l)
    (topic : ∀ e ∈ l, e.topic ≠ .callStack) : Lower height s t := by
  refine ⟨l, trace, fun e he stack hs => ?_⟩
  cases e with
  | callStack => exact absurd rfl (topic _ he)
  | _ => cases hs

theorem rescoped (h : Rescoped s t) : Lower height s t := by
  obtain ⟨l, trace, topic⟩ := h.trace
  exact of_topic trace fun e he => by simp [topic e he]

theorem beside (h : Beside s t) : Lower height s t := by
  obtain ⟨l, trace, quiet⟩ := h.trace
  exact of_topic trace fun e he => (Beside.topic_of_isQuiet (quiet e he)).2.2

/-- The stack that is there is told of. -/
theorem publish {α : Type} {c : Change α} {action : StackAction} {frame : Option Frame}
    (events : c.events = [.callStack action frame c.store.state.callStack])
    (low : (c.store.state.callStack.length : Int) ≤ height) : Lower height s (s.publish c) := by
  refine ⟨c.events, Session.trace_publish ?_, ?_⟩
  · rw [events]
    exact List.forall_mem_singleton.mpr rfl
  · rw [events]
    refine List.forall_mem_singleton.mpr fun stack hs => ?_
    cases Option.mem_some.mp hs
    exact low

end Lower

/-- No more calls are open than may be, and no higher stack was ever told of. -/
structure Setting.Shallow (a : Setting) : Prop where
  calls : (a.calls.length : Int) ≤ a.session.machine.limits.callDepth
  told : ∀ e ∈ a.session.trace, ∀ stack ∈ e.stack?,
    (stack.length : Int) ≤ a.session.machine.limits.callDepth + 1

namespace Setting.Shallow

variable {a b : Setting}

/-- Fewer calls, and no stack that is too high. -/
theorem lower {s t : Session} {calls calls' : List Call} {spilt spilt' : List String}
    (h : Shallow ⟨s, calls, spilt⟩) (limits : t.machine.limits = s.machine.limits)
    (low : Lower (s.machine.limits.callDepth + 1) s t)
    (fewer : (calls'.length : Int) ≤ s.machine.limits.callDepth) :
    Shallow ⟨t, calls', spilt'⟩ := by
  obtain ⟨l, trace, told⟩ := low
  refine ⟨by rw [limits]; exact fewer, fun e he => ?_⟩
  rw [limits]
  rw [trace] at he
  exact (List.mem_append.mp he).elim (h.told e) (told e)

theorem deed {scope : String} {s t : Session} {calls : List Call} (d : Deed scope s t)
    (h : Shallow ⟨s, calls, []⟩) (sound : Sound ⟨s, calls, []⟩) : Shallow ⟨t, calls, []⟩ := by
  obtain ⟨line, machine⟩ := d.machine
  refine h.lower (by rw [machine]) ?_ h.calls
  have height : (s.store.state.callStack.length : Int) ≤ s.machine.limits.callDepth + 1 := by
    rw [sound.held.stack.length]
    exact Int.add_le_add_right h.calls 1
  have aside {α : Type} {c : Change α} (deeds : ∀ e ∈ c.events, e.isDeed = true)
      (topic : ∀ e ∈ c.events, e.topic ≠ .callStack) :
      Lower (s.machine.limits.callDepth + 1) s (s.publish c) :=
    .of_topic (Deed.trace_of_events deeds) topic
  cases d with
  | reach | setClock | compile => exact .refl s
  | aside h =>
      refine aside (fun e he => e.isDeed_of_isAside (h.events e he)) fun e he => ?_
      exact Event.topic_ne_of_isAside (h.events e he)
  | function => exact aside (List.forall_mem_singleton.mpr rfl) (by simp [Store.allocate, Event.topic])
  | bind name b ha => exact aside (isDeed_of_rebinding ha) (by simp [Store.rebinding, Event.topic])
  | promise =>
      exact aside (List.forall_mem_singleton.mpr rfl) (by simp [Store.addMicrotask, Event.topic])
  | timer => exact aside (List.forall_mem_singleton.mpr rfl) (by simp [Store.addTimer, Event.topic])
  | @write action id text c name b ha =>
      have bound : Lower (s.machine.limits.callDepth + 1) s
          (s.publish (s.store.rebinding action c name b)) :=
        aside (isDeed_of_rebinding ha) (by simp [Store.rebinding, Event.topic])
      refine bound.trans ?_
      unfold Session.written
      dsimp only
      rw [Session.publish_store]
      unfold Store.updateFrameVariable
      split
      · exact .of_topic (Deed.trace_of_events (by simp)) (by simp)
      · refine .publish rfl ?_
        simpa [Store.setStack, Store.rebinding, Store.setScopes, length_modifyLast] using height

theorem move (m : Move a b) (h : Shallow a) (sound : Sound a) : Shallow b := by
  have limits : b.session.machine.limits = a.session.machine.limits :=
    (congrArg Machine.limits m.machine :)
  have height := sound.held.stack.length
  have depth := sound.held.depth
  cases m with
  | deed d => exact h.deed d sound
  | @enter s calls id name thisBinding line receiver _ shallow =>
      have opened := Rescoped.opening s id name
      have pushed : Lower (s.machine.limits.callDepth + 1) (s.opening id name)
          ((s.opening id name).publish
            ((s.opening id name).store.pushFrame name "function" thisBinding line)) := by
        refine .publish rfl ?_
        simp only [Store.pushFrame, Store.setStack, List.length_append, length_modifyLast,
          opened.stack, List.length_singleton]
        simp only at height depth
        omega
      refine h.lower limits ((Lower.rescoped opened).trans pushed) ?_
      simp only [List.length_cons]
      simp only at depth
      omega
  | @leave s call calls spilt =>
      have fewer : (calls.length : Int) ≤ s.machine.limits.callDepth := by
        have := h.calls
        simp only [List.length_cons] at this
        omega
      refine h.lower limits (Lower.trans ?_ (.rescoped (.foldl .shut call.closing s.popped))) fewer
      have top := List.getLast?_eq_some_getLast sound.held.stack.ne_nil
      refine ⟨_, Session.popped_trace top, List.forall_mem_singleton.mpr fun stack hs => ?_⟩
      cases Option.mem_some.mp hs
      rw [Session.popped_store]
      simp only [Store.setStack, length_modifyLast, List.length_dropLast]
      simp only [List.length_cons] at height
      omega
  | @spill s calls id name line _ => exact h.lower limits (.rescoped (.opening s id name)) h.calls

/-- What leaves the program alone. -/
theorem beside {s t : Session} {calls : List Call} {spilt : List String} (b : Beside s t)
    (h : Shallow ⟨s, calls, spilt⟩) : Shallow ⟨t, calls, spilt⟩ :=
  h.lower b.limits (.beside b) h.calls

/-- What changes the places of tasks. -/
theorem requeued {α : Type} {s : Session} {c : Change α} {calls : List Call}
    (r : c.Requeues s.store) (h : Shallow ⟨s, calls, []⟩) : Shallow ⟨s.publish c, calls, []⟩ := by
  refine h.lower (by rw [Session.publish_machine]) (.of_topic r.trace fun e he => ?_) h.calls
  simp [(r.events e he).1]

theorem lasting : Lasting Shallow :=
  .of_requeues (fun m sound h => h.move m sound) (fun b h => h.beside b)
    (fun r h => h.requeued r) fun h => ⟨h.calls, h.told⟩

/-- No call is open when a program has just been loaded. -/
theorem begun (s : Session) (program : List Instruction)
    (limit : 0 ≤ s.machine.limits.callDepth) : Shallow ⟨s.begun program, [], []⟩ := by
  refine ⟨limit, ?_⟩
  have height : (1 : Int) ≤ (s.begun program).machine.limits.callDepth + 1 :=
    Int.add_le_add_right limit 1
  simpa [Session.begun_trace, Event.stack?] using height

end Setting.Shallow

/-- Over every run no more calls are open than may be. -/
theorem Reached.shallow {why : Option Fault} {s : Session} (h : Reached why s)
    (limit : 0 ≤ s.machine.limits.callDepth) : Setting.Shallow ⟨s, s.calls, []⟩ := by
  refine (h.induct (P := fun _ s => 0 ≤ s.machine.limits.callDepth →
    Setting.Shallow ⟨s, s.calls, []⟩) ?_ ?_).2 limit
  · intro s program _ limit
    exact .begun s program limit
  · intro why fault s t standing ih k limit
    rw [k.limits] at limit
    exact Setting.Shallow.lasting.tick k standing (ih limit)

end Runloop
