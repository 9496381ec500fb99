/-
# What a segment can do

A segment takes a unit of work from one pause to the next.  `Segment` lists its
possible outcomes, each with everything that was done:

  * code ran, in the calls that were open or from the program (`within`);
  * the call of a task that was taken was entered (`start`);
  * the oldest microtask was taken, or, when there was none, the oldest
    callback (`microtask`, `callback`);
  * there was nothing to take (`nothing`, `idle`), or time had passed (`wake`).

`runSegment_segment` says that a segment of a sound session does one of these,
or faults and leaves all its calls, and that it does not matter for it how
names are looked up.  Whatever is said later about runs follows from this.
-/
import Runloop.Proofs.Evaluation

namespace Runloop

open Relation (ReflTransGen)

/-! ## Work -/

/-- The calls that work holds open, innermost first. -/
def Work.calls : Work → List Call
  | .inCall call _ callers _ => call :: Act.openCalls callers
  | _ => []

def Progress.calls : Progress → List Call
  | .paused work => work.calls
  | .ended => []

/-- Where running code comes from: an instruction of the program, or a task. -/
inductive Origin where
  | program
  | microtask (round : Round)
  | callback
deriving DecidableEq

def Base.origin : Base → Origin
  | .program _ _ _ => .program
  | .microtask round => .microtask round
  | .callback => .callback

/-- An instruction of the program waits for its call in the global scope. -/
def Base.Fits : Base → Prop
  | .program scope _ _ => scope = Store.scopeId 1
  | _ => True

/-- What waits for the outermost call waits in the scope that runs around it. -/
def Base.FitsIn (outer : List Call) : Base → Prop
  | .program scope _ _ => scope = innermost outer
  | _ => True

def Work.Fits : Work → Prop
  | .inCall _ _ _ base => base.Fits
  | _ => True

/-- Where the code comes from that work is in the middle of. -/
def Work.origin? : Work → Option Origin
  | .instruction _ => some .program
  | .inCall _ _ _ base => some base.origin
  | _ => none

/-- The task that work is about to run, and what will wait for its call. -/
def Work.pending? : Work → Option (Task × Base)
  | .atPass (.beforeMicrotask task round) => some (task, .microtask round)
  | .atPass (.beforeCallback task) => some (task, .callback)
  | _ => none

/-- The round of microtasks that work is about to go on with, and whether the
pass has run anything. -/
def Work.taking? : Work → Option (Round × Bool)
  | .pass => some (.first, false)
  | .atPass (.afterMicrotask round) => some (round, true)
  | .atPass .afterCallback => some (.last, true)
  | _ => none

/-- How code of an origin can stand after a segment. -/
def Origin.Leads (o : Origin) : Progress → Prop
  | .paused (.inCall _ _ _ base) => base.origin = o ∧ base.Fits
  | .paused (.atPass (.afterMicrotask round)) => o = .microtask round
  | .paused (.atPass .afterCallback) => o = .callback
  | .ended => o = .program
  | _ => False

theorem Work.calls_of_pending? {work : Work} {task : Task} {base : Base}
    (h : work.pending? = some (task, base)) : work.calls = [] := by
  cases work with
  | inCall => cases h
  | _ => rfl

theorem Work.calls_of_taking? {work : Work} {round : Round} {ran : Bool}
    (h : work.taking? = some (round, ran)) : work.calls = [] := by
  cases work with
  | inCall => cases h
  | _ => rfl

theorem Work.origin?_of_taking? {work : Work} {round : Round} {ran : Bool}
    (h : work.taking? = some (round, ran)) : work.origin? = none := by
  cases work with
  | pass | atPass => rfl
  | _ => cases h

theorem Task.label_isEmpty (task : Task) : task.label.isEmpty = false := by
  unfold Task.label
  split
  · simp
  · rename_i named
    exact Bool.eq_false_iff.mpr named

/-- The session with an information line. -/
def Session.said (s : Session) (text : String) : Session :=
  s.publish (s.store.logConsole "info" [text] s.now)

/-- Whether an event tells that a frame was pushed. -/
def Event.pushes : Event → Bool
  | .callStack .push (some _) _ => true
  | _ => false

/-- From `s` to `t` no frame was pushed. -/
def Unpushed (s t : Session) : Prop :=
  ∃ l, t.trace = s.trace ++ l ∧ ∀ e ∈ l, e.pushes = false

/-- From `s` to `t` the outermost of the open calls stays open, or no call is
made. -/
def Rooted (s : Session) (calls : List Call) (t : Session) (calls' : List Call) : Prop :=
  calls'.getLast? = calls.getLast? ∨ Unpushed s t

/-- The outcomes of a segment of work that begins in `s`. -/
inductive Segment (s : Session) : Work → Progress → Session → Prop
  | within {work : Work} {o : Origin} {p : Progress} {t : Session} : work.origin? = some o →
      Moves ⟨s, work.calls, []⟩ ⟨t, p.calls, []⟩ → o.Leads p →
      (o ≠ .program → Rooted s work.calls t p.calls) → Segment s work p t
  | start {work : Work} {task : Task} {base : Base} {id : String} {t : Session}
      (thisBinding : String) : work.pending? = some (task, base) →
      (s.callbackOf task).closure = some id → id ∈ idsOf (everOpened s.trace) →
      s.machine.depth < s.machine.limits.callDepth →
      Moves ⟨s.entered id task.label thisBinding 0 .undefined, [s.nextCall id 0], []⟩
        ⟨t, [s.nextCall id 0], []⟩ →
      Segment s work
        (.paused (.inCall (s.nextCall id 0) (.entered (s.callbackOf task).body) [] base)) t
  | microtask {work : Work} {round : Round} {ran : Bool} {task : Task} {rest : List Task} :
      work.taking? = some (round, ran) → s.store.state.loop.microtasks = task :: rest →
      Segment s work (.paused (.atPass (.beforeMicrotask task round)))
        ((s.publish s.store.nextMicrotask).said ("Executing microtask: " ++ task.spec.name))
  | callback {work : Work} {ran : Bool} {task : Task} {rest : List Task} :
      work.taking? = some (.first, ran) → s.store.state.loop.microtasks = [] →
      s.store.state.loop.callbacks = task :: rest →
      Segment s work (.paused (.atPass (.beforeCallback task)))
        ((s.publish s.store.nextCallback).said ("Executing callback: " ++ task.spec.name))
  | nothing {work : Work} {round : Round} {ran : Bool} : work.taking? = some (round, ran) →
      s.store.state.loop.microtasks = [] →
      (round = .first → s.store.state.loop.callbacks = [] ∧ ran = true) →
      Segment s work .ended s
  | idle {work : Work} : work.taking? = some (.first, false) →
      s.store.state.loop.microtasks = [] → s.store.state.loop.callbacks = [] →
      Segment s work (.paused (.atPass .idle)) s
  | wake : Segment s (.atPass .idle) .ended s

/-- What going on with the queues comes to: the oldest microtask is taken, or else, in a first
round, the oldest callback, or there is nothing to take. -/
inductive Taken (s : Session) : Round → Bool → Progress → Session → Prop
  | microtask {round : Round} {ran : Bool} {task : Task} {rest : List Task} :
      s.store.state.loop.microtasks = task :: rest →
      Taken s round ran (.paused (.atPass (.beforeMicrotask task round)))
        ((s.publish s.store.nextMicrotask).said ("Executing microtask: " ++ task.spec.name))
  | callback {ran : Bool} {task : Task} {rest : List Task} :
      s.store.state.loop.microtasks = [] → s.store.state.loop.callbacks = task :: rest →
      Taken s .first ran (.paused (.atPass (.beforeCallback task)))
        ((s.publish s.store.nextCallback).said ("Executing callback: " ++ task.spec.name))
  | nothing {round : Round} {ran : Bool} : s.store.state.loop.microtasks = [] →
      (round = .first → s.store.state.loop.callbacks = [] ∧ ran = true) →
      Taken s round ran .ended s
  | idle : s.store.state.loop.microtasks = [] → s.store.state.loop.callbacks = [] →
      Taken s .first false (.paused (.atPass .idle)) s

namespace Unpushed

variable {s t u : Session}

theorem trans (h : Unpushed s t) (h' : Unpushed t u) : Unpushed s u := by
  obtain ⟨l, ht, hl⟩ := h
  obtain ⟨l', ht', hl'⟩ := h'
  refine ⟨l ++ l', by rw [ht', ht, List.append_assoc], fun e he => ?_⟩
  exact (List.mem_append.mp he).elim (hl e) (hl' e)

theorem of_rescoped (h : Rescoped s t) : Unpushed s t := by
  obtain ⟨l, trace, topic⟩ := h.trace
  refine ⟨l, trace, fun e he => ?_⟩
  have := (topic e he).1
  cases e <;> first | rfl | simp [Event.topic] at this

/-- Leaving a call pushes no frame. -/
theorem left (call : Call) (stack : s.store.state.callStack ≠ []) : Unpushed s (s.left call) := by
  have popped : Unpushed s s.popped :=
    ⟨_, Session.popped_trace (List.getLast?_eq_some_getLast stack),
      List.forall_mem_singleton.mpr rfl⟩
  exact popped.trans (of_rescoped (.foldl .shut call.closing s.popped))

theorem setCurrentLine (s : Session) (line : Int) :
    Unpushed s (s.publish (s.store.setCurrentLine line)) := by
  refine ⟨[.currentLine line], Session.trace_publish ?_, List.forall_mem_singleton.mpr rfl⟩
  exact List.forall_mem_singleton.mpr rfl

end Unpushed

namespace Act

variable {α β : Type} {s : Session} {calls : List Call}

/-! ## Running code -/

/-- The answer of a computation, whatever it does, has a property. -/
def Answers (act : Act α) (P : α → Prop) : Prop :=
  ∀ s, Ends act s (fun a _ => P a) (fun _ _ => True)

theorem Answers.bind {x : Act α} {f : α → Act β} {P : β → Prop} (h : ∀ a, Answers (f a) P) :
    Answers (x >>= f) P := by
  intro s
  rw [ends_bind]
  unfold Ends
  split
  · exact h _ _
  · trivial

theorem Answers.pure {a : α} {P : α → Prop} (h : P a) : Answers (pure a) P := fun _ => h

theorem moving_inside_all {body : Host → Act α} {after : α → List Call}
    (h : Moving calls calls body after) :
    Moving [] calls (fun host => inside host calls (body host)) after :=
  moving_inside (by rwa [List.append_nil])

theorem fitsIn_nil {b : Base} (fits : b.Fits) : b.FitsIn [] := by
  cases b <;> exact fits

theorem moving_deliver (outer : List Call) (callers : List Caller) {b : Base}
    (fits : b.FitsIn outer) (v : Value) :
    Moving outer (openCalls callers ++ outer) (fun host => deliver host callers b v)
      (fun p => p.calls ++ outer) := by
  cases callers with
  | cons caller callers =>
      have goes : Moving (openCalls (caller :: callers) ++ outer)
          (openCalls (caller :: callers) ++ outer)
          (fun host => goOn host caller.call.scope caller.context caller.finish v)
          (Executed.opened (openCalls (caller :: callers) ++ outer)) :=
        moving_goOn caller.context caller.finish v
      refine (moving_inside goes).bind fun r => ?_
      cases r with
      | done returned => exact .pure rfl
      | calling call body context finish => exact .pure rfl
  | nil =>
      cases b with
      | program scope context finish =>
          cases fits
          refine (moving_goOn context finish v).bind fun r => ?_
          cases r with
          | done returned => exact .pure rfl
          | calling call body context finish => exact .pure rfl
      | microtask round => exact .pure rfl
      | callback => exact .pure rfl

theorem answers_deliver (host : Host) (callers : List Caller) {b : Base} (fits : b.Fits)
    (v : Value) : Answers (deliver host callers b v) b.origin.Leads := by
  cases callers with
  | cons caller outer =>
      refine .bind fun r => ?_
      cases r with
      | done returned => exact .pure ⟨rfl, fits⟩
      | calling call body context finish => exact .pure ⟨rfl, fits⟩
  | nil =>
      cases b with
      | program scope context finish =>
          refine .bind fun r => ?_
          cases r with
          | done returned => exact .pure rfl
          | calling call body context finish => exact .pure ⟨rfl, fits⟩
      | microtask round => exact .pure rfl
      | callback => exact .pure rfl

theorem moving_unwind {base : List Call} (call : Call) :
    Moving base (call :: calls) (fun host => unwind host call) (fun _ => calls) := by
  intro s sound
  have left (host : Host) (quiet : host.tell = record) := sound.held.run_unwind quiet
  refine ⟨fun r => (left r.host rfl).trans (left plain rfl).symm, ?_⟩
  unfold Ends
  rw [left plain rfl]
  exact .single .leave

/-- A call is left, and the line of its caller shown again. -/
theorem moving_end (call : Call) :
    Moving calls (call :: calls) (fun host => do
        if ← isCurrent call then unwind host call
        if 0 < call.line then change host fun s _ => s.setCurrentLine call.line)
      (fun _ => calls) := by
  have line : Moving calls calls
      (fun host => if 0 < call.line then change host fun s _ => s.setCurrentLine call.line
        else pure ⟨⟩) (fun _ => calls) :=
    .ite (.change fun _ => .aside (aside_setCurrentLine call.line)) (.stay _)
  intro s sound
  have current : (isCurrent call).run s = (.ok true, s) := by
    have same := sound.held.current call List.mem_cons_self
    show (Except.ok (s.machine.generation == call.generation), s) = _
    rw [same, beq_self_eq_true]
  refine .read (x := fun _ => isCurrent call) (fun _ => current) current ?_
  exact ((moving_unwind call).bind fun _ => line) s sound

theorem moving_leave (outer : List Call) (call : Call) (callers : List Caller) {b : Base}
    (fits : b.FitsIn outer) (v : Value) :
    Moving outer (call :: openCalls callers ++ outer) (fun host => leave host call callers b v)
      (fun p => p.calls ++ outer) :=
  (moving_inside (moving_end call)).bind fun _ => moving_deliver outer callers fits v

theorem answers_leave (host : Host) (call : Call) (callers : List Caller) {b : Base}
    (fits : b.Fits) (v : Value) : Answers (leave host call callers b v) b.origin.Leads :=
  .bind fun _ => answers_deliver host callers fits v

theorem moving_runBody (outer : List Call) (call : Call) (callers : List Caller) {b : Base}
    (fits : b.FitsIn outer) (is : List Instruction) :
    Moving outer (call :: openCalls callers ++ outer) (fun host => runBody host call callers b is)
      (fun p => p.calls ++ outer) := by
  cases is with
  | nil => exact moving_leave outer call callers fits .undefined
  | cons i rest =>
      have runs : Moving (call :: openCalls callers ++ outer) (call :: openCalls callers ++ outer)
          (fun host => execute host call.scope i)
          (Executed.opened (call :: openCalls callers ++ outer)) := moving_execute i
      refine (moving_inside runs).bind fun r => ?_
      cases r with
      | done returned => exact .pure rfl
      | calling inner body context finish => exact .pure rfl

theorem answers_runBody (host : Host) (call : Call) (callers : List Caller) {b : Base}
    (fits : b.Fits) (is : List Instruction) :
    Answers (runBody host call callers b is) b.origin.Leads := by
  cases is with
  | nil => exact answers_leave host call callers fits .undefined
  | cons i rest =>
      refine .bind fun r => ?_
      cases r with
      | done returned => exact .pure ⟨rfl, fits⟩
      | calling inner body context finish => exact .pure ⟨rfl, fits⟩

theorem moving_instruction (i : Instruction) :
    Moving [] [] (fun host => runSegment host (.instruction i)) Progress.calls := by
  intro s sound
  have global : s.machine.globalScope.getD "" = Store.scopeId 1 := by rw [sound.held.global]; rfl
  refine .read (x := fun _ => machine) (fun _ => rfl) rfl ?_
  rw [global]
  refine ((moving_execute i).bind fun r => ?_) s sound
  cases r with
  | done returned => exact .pure rfl
  | calling call body context finish => exact .pure rfl

theorem moving_inCall (outer : List Call) (call : Call) (point : Point) (callers : List Caller)
    {b : Base} (fits : b.FitsIn outer) :
    Moving outer (call :: openCalls callers ++ outer)
      (fun host => runSegment host (.inCall call point callers b)) (fun p => p.calls ++ outer) := by
  cases point with
  | entered body =>
      have compiles : Moving (call :: openCalls callers ++ outer)
          (call :: openCalls callers ++ outer) (fun _ => instructionsOf body)
          (fun _ => call :: openCalls callers ++ outer) := moving_instructionsOf body
      exact (moving_inside compiles).bind fun is => moving_runBody outer call callers fits is
  | between returned rest =>
      cases returned with
      | some v => exact moving_leave outer call callers fits v
      | none => exact moving_runBody outer call callers fits rest

theorem answers_inCall (host : Host) (call : Call) (point : Point) (callers : List Caller)
    {b : Base} (fits : b.Fits) :
    Answers (runSegment host (.inCall call point callers b)) b.origin.Leads := by
  cases point with
  | entered body => exact .bind fun is => answers_runBody host call callers fits is
  | between returned rest =>
      cases returned with
      | some v => exact answers_leave host call callers fits v
      | none => exact answers_runBody host call callers fits rest

theorem answers_instruction (sound : Sound ⟨s, [], []⟩) (i : Instruction) :
    Ends (runSegment plain (.instruction i)) s (fun p _ => Origin.program.Leads p)
      (fun _ _ => True) := by
  have global : s.machine.globalScope.getD "" = Store.scopeId 1 := by rw [sound.held.global]; rfl
  unfold runSegment runSegmentWith
  rw [ends_bind, ends_machine, global]
  refine Answers.bind (fun r => ?_) s
  cases r with
  | done returned => exact .pure rfl
  | calling call body context finish => exact .pure ⟨rfl, rfl⟩

/-- The call of a task ends: nothing else is called. -/
theorem rooted_leave (call : Call) (callers : List Caller) {b : Base} (task : b.origin ≠ .program)
    (v : Value) (sound : Sound ⟨s, call :: openCalls callers, []⟩) :
    Ends (leave plain call callers b v) s
      (fun p t => Rooted s (call :: openCalls callers) t p.calls) (fun _ _ => True) := by
  cases callers with
  | cons caller outer =>
      have stays : Answers (leave plain call (caller :: outer) b v) fun p =>
          p.calls.getLast? = (call :: openCalls (caller :: outer)).getLast? := by
        refine .bind fun _ => .bind fun r => ?_
        cases r with
        | done returned => exact .pure List.getLast?_cons_cons.symm
        | calling inner body context finish =>
            exact .pure (List.getLast?_cons_cons.trans List.getLast?_cons_cons.symm)
      exact (stays s).mono (fun p t h => .inl h) fun _ _ h => h
  | nil =>
      have returns (t : Session) (ht : Unpushed s t) :
          Ends (deliver plain [] b v) t (fun p t => Rooted s [call] t p.calls) (fun _ _ => True) := by
        cases b with
        | program => exact absurd rfl task
        | microtask round => exact .inr ht
        | callback => exact .inr ht
      have current : (s.machine.generation == call.generation) = true := by
        rw [sound.held.current call List.mem_cons_self, beq_self_eq_true]
      have left := Unpushed.left call sound.held.stack.ne_nil
      unfold leave inside
      rw [ends_bind, ends_tryCatch]
      refine Ends.mono (E := fun _ _ => True) (Q := fun _ t => Unpushed s t) ?_
        (fun _ => returns) fun f t _ => ?_
      · unfold isCurrent
        rw [ends_bind, ends_bind, ends_machine, ends_pure, if_pos current, ends_bind]
        refine .of_answer (sound.held.run_unwind rfl) ?_
        split
        · rw [ends_change]
          exact left.trans (.setCurrentLine _ _)
        · exact left
      · rw [ends_bind]
        unfold Ends
        split <;> trivial

theorem rooted_runBody (call : Call) (callers : List Caller) {b : Base}
    (task : b.origin ≠ .program) (is : List Instruction)
    (sound : Sound ⟨s, call :: openCalls callers, []⟩) :
    Ends (runBody plain call callers b is) s
      (fun p t => Rooted s (call :: openCalls callers) t p.calls) (fun _ _ => True) := by
  cases is with
  | nil => exact rooted_leave call callers task .undefined sound
  | cons i rest =>
      have stays : Answers (runBody plain call callers b (i :: rest)) fun p =>
          p.calls.getLast? = (call :: openCalls callers).getLast? := by
        refine .bind fun r => ?_
        cases r with
        | done returned => exact .pure rfl
        | calling inner body context finish => exact .pure List.getLast?_cons_cons
      exact (stays s).mono (fun p t h => .inl h) fun _ _ h => h

theorem rooted_inCall (call : Call) (point : Point) (callers : List Caller) {b : Base}
    (task : b.origin ≠ .program) (sound : Sound ⟨s, call :: openCalls callers, []⟩) :
    Ends (runSegment plain (.inCall call point callers b)) s
      (fun p t => Rooted s (call :: openCalls callers) t p.calls) (fun _ _ => True) := by
  cases point with
  | entered body =>
      have compiles : Ends (inside plain (call :: openCalls callers) (instructionsOf body)) s
          (fun _ t => t.trace = s.trace) (fun _ _ => True) := by
        unfold inside instructionsOf
        rw [ends_tryCatch, ends_bind, ends_get]
        split
        · exact rfl
        · split
          · rw [ends_throw, ends_bind]
            unfold Ends
            split <;> trivial
          · exact rfl
      have moves := (moving_inside_all (moving_instructionsOf body) s sound).ends
      refine ends_bind.mpr ((moves.and compiles).mono ?_ fun _ _ _ => trivial)
      rintro is t ⟨m, trace⟩
      refine (rooted_runBody call callers task is (sound.moves m)).mono ?_ fun _ _ h => h
      intro p u h
      unfold Rooted Unpushed at h ⊢
      rwa [trace] at h
  | between returned rest =>
      cases returned with
      | some v => exact rooted_leave call callers task v sound
      | none => exact rooted_runBody call callers task rest sound

/-- What a fault in a segment leaves behind: no call is open any more. -/
def Failed (s : Session) (work : Work) (f : Fault) (t : Session) : Prop :=
  ∃ spilt, Moves ⟨s, work.calls, []⟩ ⟨t, [], spilt⟩ ∧ (f.spills = false → spilt = [])

theorem segment_within {work : Work} {o : Origin} (ho : work.origin? = some o) (fits : work.Fits)
    (sound : Sound ⟨s, work.calls, []⟩) :
    (∀ r : Reader, (runSegment r.host work).run s = (runSegment plain work).run s) ∧
      Ends (runSegment plain work) s (Segment s work) (Failed s work) := by
  have both : At [] work.calls (fun host => runSegment host work) Progress.calls s ∧
      Ends (runSegment plain work) s (fun p _ => o.Leads p) (fun _ _ => True) := by
    cases work with
    | instruction i =>
        cases ho
        exact ⟨moving_instruction i s sound, answers_instruction sound i⟩
    | inCall call point callers b =>
        cases ho
        have moving := moving_inCall [] call point callers (fitsIn_nil fits)
        simp only [List.append_nil] at moving
        exact ⟨moving s sound,
          answers_inCall plain call point callers fits s⟩
    | pass => cases ho
    | atPass point => cases ho
  -- only code of a task is said to stay in its call
  have rooted : Ends (runSegment plain work) s
      (fun p t => o ≠ .program → Rooted s work.calls t p.calls) (fun _ _ => True) := by
    by_cases task : o = .program
    · unfold Ends
      split
      · exact fun other => absurd task other
      · trivial
    · cases work with
      | inCall call point callers b =>
          cases ho
          exact (rooted_inCall call point callers task sound).mono (fun _ _ h _ => h) fun _ _ h => h
      | instruction => exact absurd (Option.some_inj.mp ho).symm task
      | pass => cases ho
      | atPass point => cases ho
  obtain ⟨⟨agrees, ends⟩, leads⟩ := both
  refine ⟨agrees, (ends.and (leads.and rooted)).mono ?_ ?_⟩
  · rintro p t ⟨m, l, r⟩
    exact .within ho m l r
  · rintro f t ⟨⟨spilt, m, excused⟩, -⟩
    exact ⟨spilt, m, excused.clean⟩

/-! ## Tasks -/

theorem callName_label (task : Task) : callName task.label = task.label := by
  simp [callName, task.label_isEmpty]

/-- A segment that is about to run a task calls its function. -/
theorem run_pending {work : Work} {task : Task} {base : Base}
    (hp : work.pending? = some (task, base)) (host : Host) :
    (runSegment host work).run s =
      (do let call ← invoke host (s.callbackOf task) task.spec.args task.label 0 none
          return .paused (.inCall call (.entered (s.callbackOf task).body) [] base) :
            Act Progress).run s := by
  cases work with
  | atPass point =>
      cases point with
      | beforeMicrotask task round => cases hp; rfl
      | beforeCallback task => cases hp; rfl
      | _ => cases hp
  | _ => cases hp

theorem segment_start {work : Work} {task : Task} {base : Base}
    (hp : work.pending? = some (task, base)) (known : s.Knows task.spec.closure)
    (sound : Sound ⟨s, [], []⟩) :
    (∀ r : Reader, (runSegment r.host work).run s = (runSegment plain work).run s) ∧
      Ends (runSegment plain work) s (Segment s work) (Failed s work) := by
  have callable : s.Callable (s.callbackOf task) none := .task known
  obtain ⟨id, hid, hc⟩ := callable_knows (sound.placed rfl) callable
  obtain ⟨agrees, ends⟩ :=
    @invoke_enters s [] (s.callbackOf task) task.spec.args task.label 0 none id sound callable hc
      hid
  refine ⟨fun r => ?_, .of_run (run_pending hp plain) ?_⟩
  · rw [run_pending hp, run_pending hp, run_bind, run_bind, agrees r]
  · rw [ends_bind]
    refine ends.mono ?_ ?_
    · rintro _ t ⟨thisBinding, rfl, shallow, m⟩
      rw [callName_label] at m
      exact .start thisBinding hp hc hid shallow m
    · rintro f t ⟨spilt, m, excused⟩
      exact ⟨spilt, (Work.calls_of_pending? hp).symm ▸ m, excused.clean⟩

/-! ## Taking a task -/

theorem runSegment_of_taking? {work : Work} {round : Round} {ran : Bool}
    (ht : work.taking? = some (round, ran)) (host : Host) :
    runSegment host work = takeMicrotask host round ran := by
  cases work with
  | pass => cases ht; rfl
  | atPass point =>
      cases point with
      | afterMicrotask round => cases ht; rfl
      | afterCallback => cases ht; rfl
      | _ => cases ht
  | _ => cases ht

theorem runSegment_idle (host : Host) : runSegment host (.atPass .idle) = pure .ended := rfl

/-- A first round that has no microtask goes on with the callbacks. -/
theorem ends_takeCallback (ran : Bool) (none : s.store.state.loop.microtasks = []) :
    Ends (takeCallback plain ran) s (Taken s .first ran) (fun _ _ => False) := by
  unfold takeCallback
  rw [ends_bind, ends_change]
  cases queue : s.store.state.loop.callbacks with
  | cons task rest =>
      have taken : s.store.nextCallback.value = some task := by simp [Store.nextCallback, queue]
      rw [taken]
      exact .callback none queue
  | nil =>
      have same : s.store.nextCallback = ⟨s.store, Option.none, []⟩ := by
        simp [Store.nextCallback, queue]
      rw [same]
      cases ran with
      | true => exact .nothing none fun _ => ⟨queue, rfl⟩
      | false => exact .idle none queue

theorem ends_takeMicrotask (round : Round) (ran : Bool) :
    Ends (takeMicrotask plain round ran) s (Taken s round ran) (fun _ _ => False) := by
  unfold takeMicrotask
  rw [ends_bind, ends_change]
  cases queue : s.store.state.loop.microtasks with
  | cons task rest =>
      have taken : s.store.nextMicrotask.value = some task := by simp [Store.nextMicrotask, queue]
      rw [taken]
      exact .microtask queue
  | nil =>
      have same : s.store.nextMicrotask = ⟨s.store, none, []⟩ := by
        simp [Store.nextMicrotask, queue]
      rw [same]
      cases round with
      | first => exact ends_takeCallback ran queue
      | last => exact .nothing queue (by simp)

theorem segment_take {work : Work} {round : Round} {ran : Bool}
    (ht : work.taking? = some (round, ran)) :
    (∀ r : Reader, (runSegment r.host work).run s = (runSegment plain work).run s) ∧
      Ends (runSegment plain work) s (Segment s work) (Failed s work) := by
  simp only [runSegment_of_taking? ht]
  refine ⟨fun _ => rfl, (ends_takeMicrotask round ran).mono ?_ fun _ _ never => never.elim⟩
  intro p t taken
  cases taken with
  | microtask queue => exact .microtask ht queue
  | callback none queue => exact .callback ht none queue
  | nothing none rest => exact .nothing ht none rest
  | idle none empty => exact .idle ht none empty

/-- A segment of a sound session does what `Segment` lists, or it faults and
leaves its calls; and all readers agree on it. -/
theorem runSegment_segment {work : Work} (sound : Sound ⟨s, work.calls, []⟩) (fits : work.Fits)
    (known : ∀ task base, work.pending? = some (task, base) → s.Knows task.spec.closure) :
    (∀ r : Reader, (runSegment r.host work).run s = (runSegment plain work).run s) ∧
      Ends (runSegment plain work) s (Segment s work) (Failed s work) := by
  cases work with
  | instruction i => exact segment_within rfl fits sound
  | inCall call point callers base => exact segment_within rfl fits sound
  | pass => exact segment_take rfl
  | atPass point =>
      cases point with
      | beforeMicrotask task round => exact segment_start rfl (known task _ rfl) sound
      | beforeCallback task => exact segment_start rfl (known task _ rfl) sound
      | afterMicrotask round => exact segment_take rfl
      | afterCallback => exact segment_take rfl
      | idle =>
          refine ⟨fun r => ?_, .wake⟩
          rw [runSegment_idle, runSegment_idle]

end Act

end Runloop
