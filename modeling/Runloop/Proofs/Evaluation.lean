/-
# Calls, expressions and instructions

The rules of `Act.Moving` are carried through the interpreter, function by
function and along its recursion: opening and leaving calls, evaluating
expressions, going on in a context, executing instructions.  An evaluation that
waits for a call has opened exactly one, and it is the innermost.
-/
import Runloop.Proofs.Moving

namespace Runloop

/-! ## The calls that are open after an evaluation -/

def Evaluated.opened (calls : List Call) : Evaluated → List Call
  | .value _ => calls
  | .calling call _ _ => call :: calls

def Gathered.opened (calls : List Call) : Gathered → List Call
  | .values _ => calls
  | .calling call _ _ _ _ => call :: calls

def GatheredEntries.opened (calls : List Call) : GatheredEntries → List Call
  | .fields _ => calls
  | .calling call _ _ _ _ _ => call :: calls

def Executed.opened (calls : List Call) : Executed → List Call
  | .done _ => calls
  | .calling call _ _ _ => call :: calls

namespace Act

open Relation (ReflTransGen)

variable {α : Type} {s : Session} {base calls : List Call}

/-! ## Leaving calls -/

theorem run_unwindAll {host : Host} (quiet : host.tell = record) {inner : List Call}
    {spilt : List String} (h : Held s (inner ++ base) spilt) (fault : Option Fault) :
    (unwindAll host inner fault).run s = (.ok fault, inner.foldl Session.left s) := by
  induction inner generalizing s with
  | nil => rfl
  | cons call inner ih =>
      have current : (s.machine.generation == call.generation) = true := by
        simpa using (h.current call (by simp)).symm
      unfold unwindAll
      rw [run_bind]
      show (if (s.machine.generation == call.generation) = true then do
              let fault ← tryCatch (do unwind host call; return fault) fun later => return some later
              unwindAll host inner fault
            else do
              let fault ← pure fault
              unwindAll host inner fault : Act (Option Fault)).run s = _
      rw [if_pos current, run_bind, run_tryCatch, run_bind, h.run_unwind quiet]
      exact ih h.leave

theorem moves_left (inner : List Call) (spilt : List String) :
    Moves ⟨s, inner ++ base, spilt⟩ ⟨inner.foldl Session.left s, base, spilt⟩ := by
  induction inner generalizing s with
  | nil => exact .refl
  | cons call inner ih => exact .head .leave ih

/-- A fault inside of calls leaves them. -/
theorem moving_inside {inner : List Call} {body : Host → Act α} {after : α → List Call}
    (h : Moving (inner ++ base) calls body after) :
    Moving base calls (fun host => inside host inner (body host)) after := by
  intro s sound
  obtain ⟨agrees, ends⟩ := h s sound
  have quits (host : Host) (quiet : host.tell = record) {fault : Fault} {t : Session}
      {spilt : List String} (m : Moves ⟨s, calls, []⟩ ⟨t, inner ++ base, spilt⟩) :
      (do throw ((← unwindAll host inner (some fault)).getD fault) : Act α).run t =
        (.error fault, inner.foldl Session.left t) := by
    rw [run_bind, run_unwindAll quiet (sound.moves m).held]
    rfl
  refine ⟨fun r => ?_, ?_⟩
  · unfold Act.inside
    rw [run_tryCatch, run_tryCatch, agrees r]
    unfold Ends at ends
    rcases hrun : ((body plain).run s : Except Fault α × Session) with ⟨fault | a, t⟩
    · rw [hrun] at ends
      obtain ⟨spilt, m, -⟩ := ends
      exact (quits r.host rfl m).trans (quits plain rfl m).symm
    · rfl
  · unfold Act.inside
    rw [ends_tryCatch]
    refine ends.mono (fun _ _ m => m) ?_
    rintro fault t ⟨spilt, m, excused⟩
    unfold Ends
    rw [quits plain rfl m]
    exact ⟨spilt, m.trans (moves_left inner spilt), excused⟩

/-! ## Functions that can be called -/

/-- A value refers to a function that closes over a known scope, if to any. -/
theorem knows_functionOf? (sc : Scoped s) {v : Value} {f : FunctionValue}
    (h : s.functionOf? v = some f) : s.Knows f.closure := by
  unfold Session.functionOf? at h
  split at h
  · split at h
    · rename_i payload found
      obtain ⟨o, ho, e⟩ := Option.map_eq_some_iff.mp found
      have hp : o.payload = .function f := by
        obtain ⟨-, rfl⟩ := HeapEntry.mk.inj e
        cases h' : o.payload <;> simp_all [Value.function?]
      exact sc.functions o (List.mem_of_find?_eq_some ho) f hp
    · cases h
  · cases h

theorem knows_global (sc : Scoped s) : s.Knows s.machine.globalScope := by
  obtain ⟨c, hc, hid⟩ := List.mem_map.mp sc.globalOpen
  exact ⟨c.id, List.mem_map_of_mem (sc.part c hc), hid ▸ sc.global⟩

/-- A declared function closes over the global scope, and any other that a name
can denote is on the heap. -/
theorem knows_namedFunction? (sc : Scoped s) {find : Lookup} {name : String}
    {scope : Option String} {f : FunctionValue} (h : s.namedFunction? find name scope = some f) :
    s.Knows f.closure := by
  unfold Session.namedFunction? at h
  split at h
  · exact knows_functionOf? sc h
  · obtain ⟨d, -, rfl⟩ := Option.map_eq_some_iff.mp h
    exact knows_global sc

theorem knows_callbackOf (sc : Scoped s) {task : Task} (known : s.Knows task.spec.closure) :
    s.Knows (s.callbackOf task).closure := by
  unfold Session.callbackOf
  split
  · exact known
  · cases h : s.namedFunction? Session.findOpen task.spec.callbackName task.spec.closure with
    | none => exact known
    | some f => exact knows_namedFunction? sc h

/-- What can be called closes over a known scope. -/
theorem callable_knows (sc : Scoped s) {f : FunctionValue} {receiver : Option Value}
    (h : s.Callable f receiver) : s.Knows f.closure := by
  cases h with
  | value h => exact knows_functionOf? sc h
  | method id h => exact knows_functionOf? sc h
  | name h => exact knows_namedFunction? sc h
  | task known => exact knows_callbackOf sc known

/-! ## Opening calls -/

theorem moving_bindParams (params : List String) (args : List Value) :
    Moving calls calls (fun host => bindParams host (innermost calls) params args)
      (fun _ => calls) := by
  induction params generalizing args with
  | nil => exact .stay PUnit.unit
  | cons param params ih =>
      have parts (host : Host) : bindParams host (innermost calls) (param :: params) args =
          kindOf (args.head?.getD .undefined) >>= fun kind =>
            (change? host (fun s => s.addScopeVariable (innermost calls) param
              ⟨args.head?.getD .undefined, kind, "param"⟩) >>= fun _ =>
                showing host param (args.head?.getD .undefined)) >>= fun _ =>
            bindParams host (innermost calls) params (args.drop 1) := by
        simp only [bindParams, showing, bind_assoc]
      simp only [parts]
      refine (still_kindOf _).moving.bind fun kind => Moving.bind (fun s sound => ?_) fun _ => ih _
      have current := sound.held.current_innermost
      exact .shown current fun _ h => writes_add current h

theorem run_openScope {host : Host} (quiet : host.tell = record) {id : String} (name : String)
    (parent : host.parent (s.restored (s.reopened (some id))) (some id) = some id) :
    (openScope host (some id) name).run s =
      (.ok (((s.restored (s.reopened (some id))).store.createScope name "function" (some id)
          (s.restored (s.reopened (some id))).now).value, idsOf (s.reopened (some id))),
        s.opening id name) := by
  unfold openScope
  rw [run_bind, run_reattach quiet]
  dsimp only
  rw [run_get_bind, parent, run_bind, run_change quiet]
  rfl

theorem run_pushCall {host : Host} (quiet : host.tell = record) (id name thisBinding : String)
    (line : Int) (receiver : Value) :
    (pushCall host name thisBinding line receiver).run (s.opening id name) =
      (.ok ⟨⟩, s.entered id name thisBinding line receiver) := by
  unfold pushCall
  rw [run_bind, run_change quiet]
  rfl

/-- The receiver is shown, or there is nothing but the fault of showing it. -/
theorem run_receiverText (receiver : Option Value) :
    ∃ r, (receiverText receiver).run s = (r, s) ∧ ∀ f, r = .error f →
      ∃ v ∈ receiver, ∃ n, f = .number n ∧ v.display s.store.heapView = .error n := by
  cases receiver with
  | none => exact ⟨.ok "window", rfl, by simp⟩
  | some v =>
      have run : (receiverText (some v)).run s = (number (v.display s.store.heapView)).run s := rfl
      rw [run]
      cases shown : v.display s.store.heapView with
      | ok text => exact ⟨.ok text, rfl, by simp⟩
      | error fault =>
          refine ⟨.error (.number fault), rfl, ?_⟩
          rintro f ⟨⟩
          exact ⟨v, rfl, fault, rfl, shown⟩

theorem heapView_opening (s : Session) (id name : String) :
    (s.opening id name).store.heapView = s.store.heapView := by
  unfold Store.heapView Store.heapLookup? Store.heapObject?
  rw [(Rescoped.opening s id name).heap]

/-- What stays open is what would be closed by leaving the call. -/
theorem leftBehind_of_error {v : Value} {n : NumberFault} {id : String} {line : Int}
    (unshown : v.display s.store.heapView = .error n)
    (shallow : s.machine.depth < s.machine.limits.callDepth) :
    s.leftBehind (some id) (some v) = (s.nextCall id line).closing.reverse := by
  rw [Session.leftBehind, Option.map_some, unshown]
  simp [shallow, Call.closing, Session.nextCall]

section Invoke

variable {f : FunctionValue} {args : List Value} {name : String} {line : Int}
  {receiver : Option Value} {id : String}

/-- The depth is checked before anything is opened. -/
theorem run_invoke_of_deep (host : Host) (deep : s.machine.limits.callDepth ≤ s.machine.depth) :
    (invoke host f args name line receiver).run s = (.error (.halt .callDepth), s) := by
  have halts : checkDepth.run s = (.error (.halt .callDepth), s) := by
    show (if s.machine.limits.callDepth ≤ s.machine.depth then throw (.halt .callDepth)
      else pure ⟨⟩ : Act Unit).run s = _
    rw [if_pos deep]
    rfl
  unfold invoke
  rw [run_bind, halts]

theorem run_invoke {host : Host} (quiet : host.tell = record)
    (shallow : ¬ s.machine.limits.callDepth ≤ s.machine.depth) (hc : f.closure = some id)
    (parent : host.parent (s.restored (s.reopened (some id))) (some id) = some id)
    (counters : (s.restored (s.reopened (some id))).store.counters = s.store.counters) :
    (invoke host f args name line receiver).run s =
      (enterCall host f args (callName name) line receiver (s.nextCall id line).scope
        (s.nextCall id line).restored).run (s.opening id (callName name)) := by
  have passes : checkDepth.run s = (.ok ⟨⟩, s) := by
    show (if s.machine.limits.callDepth ≤ s.machine.depth then throw (.halt .callDepth)
      else pure ⟨⟩ : Act Unit).run s = _
    rw [if_neg shallow]
    rfl
  unfold invoke
  rw [run_bind, passes, hc]
  dsimp only
  rw [run_bind, run_openScope quiet _ parent]
  simp only [Store.createScope, counters]
  rfl

/-- Once the receiver is shown, there is the frame, and then the parameters. -/
theorem run_enterCall {host : Host} (quiet : host.tell = record) {thisBinding : String}
    (shown : (receiverText receiver).run (s.opening id name) =
      (.ok thisBinding, s.opening id name)) :
    (enterCall host f args name line receiver (s.nextCall id line).scope
        (s.nextCall id line).restored).run (s.opening id name) =
      (do inside host [s.nextCall id line]
            (bindParams host (s.nextCall id line).scope f.params args)
          return s.nextCall id line : Act Call).run
        (s.entered id name thisBinding line (receiver.getD .undefined)) := by
  have generation : (s.entered id name thisBinding line
      (receiver.getD .undefined)).machine.generation = (s.nextCall id line).generation := by
    obtain ⟨detached, hm⟩ := (Rescoped.opening s id name).machine
    simp [Session.entered, Session.nextCall, hm]
  unfold enterCall
  rw [run_bind, shown]
  dsimp only
  rw [run_bind, run_pushCall quiet]
  dsimp only
  rw [run_machine_bind, generation]
  rfl

theorem run_enterCall_of_error {host : Host} {fault : Fault}
    (shown : (receiverText receiver).run (s.opening id name) =
      (.error fault, s.opening id name)) (scope : String) (restored : List String) :
    (enterCall host f args name line receiver scope restored).run (s.opening id name) =
      (.error fault, s.opening id name) := by
  unfold enterCall
  rw [run_bind, shown]

/-- A call of a function that closes over a known scope is entered, unless the
limit on the depth or the display of the receiver is in the way. -/
theorem invoke_enters (sound : Sound ⟨s, calls, []⟩) (callable : s.Callable f receiver)
    (hc : f.closure = some id) (hid : id ∈ idsOf (everOpened s.trace)) :
    (∀ r : Reader, (invoke r.host f args name line receiver).run s =
        (invoke plain f args name line receiver).run s) ∧
      Ends (invoke plain f args name line receiver) s
        (fun call t => ∃ thisBinding, call = s.nextCall id line ∧
          s.machine.depth < s.machine.limits.callDepth ∧
          Moves
            ⟨s.entered id (callName name) thisBinding line (receiver.getD .undefined),
              call :: calls, []⟩
            ⟨t, call :: calls, []⟩)
        (fun f t => ∃ spilt, Moves ⟨s, calls, []⟩ ⟨t, calls, spilt⟩ ∧
          f.Excuses ⟨s, calls, []⟩ spilt) := by
  by_cases deep : s.machine.limits.callDepth ≤ s.machine.depth
  · refine ⟨fun r => (run_invoke_of_deep _ deep).trans (run_invoke_of_deep _ deep).symm, ?_⟩
    refine .of_run (run_invoke_of_deep plain deep) (y := throw (.halt .callDepth)) ?_
    exact ⟨[], .refl, .inl rfl⟩
  · have sc := sound.placed rfl
    obtain ⟨part, nested, -⟩ := sc.reopened hid
    obtain ⟨-, -, -, counters⟩ := sc.restored part nested
    have inside := sc.parent_eq hid
    have read (r : Reader) : (invoke r.host f args name line receiver).run s = _ :=
      run_invoke rfl deep hc ((r.parents _ _ inside.symm).trans inside) counters
    have walk : (invoke plain f args name line receiver).run s = _ :=
      run_invoke rfl deep hc inside counters
    obtain ⟨r, shown, unshown⟩ := run_receiverText (s := s.opening id (callName name)) receiver
    -- the scope of the call is open when its receiver fails to be displayed: it is spilt
    cases r with
    | error fault =>
        have read (r : Reader) := (read r).trans (run_enterCall_of_error shown _ _)
        have walk := walk.trans (run_enterCall_of_error shown _ _)
        refine ⟨fun r => (read r).trans walk.symm, .of_run (walk.trans rfl) (y := throw fault) ?_⟩
        refine ⟨_, .single (.spill (callName name) line hid), .inr ?_⟩
        obtain ⟨v, hv, n, rfl, displayed⟩ := unshown fault rfl
        obtain ⟨object, rfl⟩ := callable.receiver_eq_ref hv
        obtain rfl := Option.mem_def.mp hv
        rw [heapView_opening] at displayed
        refine ⟨s, calls, f, object, n, .refl, callable, rfl, displayed, ?_⟩
        rw [hc]
        exact (leftBehind_of_error displayed (Int.not_le.mp deep)).symm
    | ok thisBinding =>
        have read (r : Reader) := (read r).trans (run_enterCall rfl shown)
        have walk := walk.trans (run_enterCall rfl shown)
        have shallow := Int.not_le.mp deep
        have enters : Move ⟨s, calls, []⟩ ⟨_, s.nextCall id line :: calls, []⟩ :=
          .enter (callName name) thisBinding line (receiver.getD .undefined) hid shallow
        have inner := sound.move enters
        have params : Moving ([s.nextCall id line] ++ calls) (s.nextCall id line :: calls)
            (fun host => bindParams host (s.nextCall id line).scope f.params args)
            (fun _ => s.nextCall id line :: calls) := moving_bindParams f.params args
        obtain ⟨agrees, ends⟩ := moving_inside params _ inner
        refine ⟨fun r => (read r).trans (Eq.trans ?_ walk.symm), .of_run walk ?_⟩
        · rw [run_bind, run_bind, agrees r]
        · rw [ends_bind]
          refine ends.mono (fun _ t m => ⟨thisBinding, rfl, shallow, m⟩) ?_
          rintro fault t ⟨spilt, m, excused⟩
          exact ⟨spilt, .head enters m, excused.after (.single enters)⟩

theorem moving_invoke (sound : Sound ⟨s, calls, []⟩) (callable : s.Callable f receiver) :
    At calls calls (fun host => invoke host f args name line receiver)
      (fun call => call :: calls) s := by
  obtain ⟨id, hid, hc⟩ := callable_knows (sound.placed rfl) callable
  obtain ⟨agrees, ends⟩ :=
    @invoke_enters s calls f args name line receiver id sound callable hc hid
  refine ⟨agrees, ends.mono ?_ fun _ _ h => h⟩
  rintro _ t ⟨thisBinding, rfl, shallow, m⟩
  exact .head (.enter _ _ _ _ hid shallow) m

end Invoke

/-! ## Expressions -/

/-- The computation makes moves, and its answer tells whether a call is open. -/
abbrev Evaluating (calls : List Call) (act : Host → Act Evaluated) : Prop :=
  Moving calls calls act (Evaluated.opened calls)

theorem moving_value (v : Value) : Evaluating calls (fun _ => pure (.value v)) :=
  .pure rfl

theorem moving_done {a : Host → Act Value} (h : Moving calls calls a (fun _ => calls)) :
    Evaluating calls (fun host => done (a host)) :=
  h.bind fun v => moving_value v

theorem moving_andThen {part : Host → Act Evaluated} {place : ExprFrame}
    {next : Value → Host → Act Evaluated} (hp : Evaluating calls part)
    (hn : ∀ v, Evaluating calls (next v)) :
    Evaluating calls (fun host => andThen (part host) place fun v => next v host) := by
  refine hp.bind fun r => ?_
  cases r with
  | value v => exact hn v
  | calling call body context => exact .pure rfl

theorem moving_openCall (sound : Sound ⟨s, calls, []⟩) {f : FunctionValue}
    {receiver : Option Value} (callable : s.Callable f receiver) (args : List Value)
    (name : String) (line : Int) :
    At calls calls (fun host => openCall host f args name line receiver)
      (Evaluated.opened calls) s := by
  refine (moving_invoke sound callable).bind fun call t m => ?_
  have calling : Moving calls (call :: calls) (fun _ => pure (.calling call f.body []))
      (Evaluated.opened calls) := .pure rfl
  exact calling t (sound.moves m)

theorem moving_callNamed (name : String) (args : List Value) (line : Int) :
    Evaluating calls (fun host => callNamed host (innermost calls) name args line) := by
  intro s sound
  have sc := sound.placed rfl
  unfold callNamed
  refine .read (run_find sound name) (run_find_plain name _) ?_
  cases Session.findOpen s name (some (innermost calls)) with
  | some found =>
      refine .read (x := fun _ => asFunction? found.2.value) (fun _ => rfl) rfl ?_
      cases hf : s.functionOf? found.2.value with
      | some f => exact moving_openCall sound (.value hf) args name line
      | none => exact ((moving_error _).bind fun _ => moving_value _) s sound
  | none =>
      refine .read (x := fun _ => declared? name) (fun _ => rfl) rfl (.ite ?_ ?_)
      · have same (r : Reader) : s.namedFunction? r.find name none =
            s.namedFunction? plain.find name none := by
          unfold Session.namedFunction?
          rw [r.finds _ _ _ sc.find_none_eq]
          rfl
        refine .read (fun r => congrArg (fun f => (Except.ok f, s)) (same r)) rfl ?_
        cases hf : s.namedFunction? plain.find name none with
        | some f => exact moving_openCall sound (.name hf) args name line
        | none => exact (still_checkDepth.moving.bind fun _ => .throw _) s sound
      · exact ((moving_error _).bind fun _ => moving_value _) s sound

theorem moving_noMethod (target : Expr) (method : String) (receiver : Value) :
    Evaluating calls (fun host => noMethod host target method receiver) := by
  have shows (v : Value) : Evaluating calls (fun host => do
      let shown ← display v
      error host
        ("TypeError: Cannot read properties of " ++ shown ++ " (reading '" ++ method ++ "')")
      return .value .undefined) :=
    (still_display v).moving.bind fun _ => (moving_error _).bind fun _ => moving_value _
  cases receiver with
  | undefined => exact shows .undefined
  | null => exact shows .null
  | _ => exact (moving_error _).bind fun _ => moving_value _

theorem run_asFunction? {s : Session} (v : Value) :
    (asFunction? v).run s = (.ok (s.functionOf? v), s) :=
  rfl

theorem ends_asFunction? {s : Session} {Q : Option FunctionValue → Session → Prop}
    {E : Fault → Session → Prop} (v : Value) :
    Ends (asFunction? v) s Q E ↔ Q (s.functionOf? v) s :=
  Iff.rfl

theorem moving_callOn (target : Expr) (method : String) (args : List Value) (line : Int)
    (receiver : Value) :
    Evaluating calls (fun host => callOn host target method args line receiver) := by
  intro s sound
  unfold callOn
  have entry : ∃ r, (entryOf? receiver).run s = (.ok r, s) := by
    cases receiver <;> exact ⟨_, rfl⟩
  obtain ⟨r, run⟩ := entry
  refine .read (x := fun _ => entryOf? receiver) (fun _ => run) run ?_
  have missing (receiver : Value) :
      At calls calls (fun host => noMethod host target method receiver)
        (Evaluated.opened calls) s :=
    moving_noMethod target method receiver s sound
  have array (id : String) (items : List Value) (receiver : Value) :
      At calls calls (fun host =>
        if method = "push" || method = "pop" then done (changeArray host id items method args)
        else noMethod host target method receiver) (Evaluated.opened calls) s :=
    .ite (moving_done (moving_changeArray id items method args) s sound) (missing receiver)
  have called {member : Value} {f : FunctionValue} (hf : s.functionOf? member = some f)
      (id : String) :
      At calls calls (fun host => openCall host f args method line (some (.ref id)))
        (Evaluated.opened calls) s :=
    moving_openCall sound (.method id hf) args method line
  refine ⟨fun r => ?_, ?_⟩
  · dsimp only
    split
    · exact (array _ _ _).agrees r
    · rw [run_bind, run_bind, run_asFunction?]
      dsimp only
      split
      · exact (called ‹_› _).agrees r
      · exact (missing _).agrees r
    · exact (missing _).agrees r
  · dsimp only
    split
    · exact (array _ _ _).ends
    · rw [ends_bind, ends_asFunction?]
      split
      · exact (called ‹_› _).ends
      · exact (missing _).ends
    · exact (missing _).ends

theorem moving_callMethod (target : Expr) {evalTarget : Host → Act Evaluated}
    (ht : Evaluating calls evalTarget) (method : String) (args : List Value) (line : Int) :
    Evaluating calls (fun host =>
      callMethod host (innermost calls) target (evalTarget host) method args line) := by
  have onValue : Evaluating calls (fun host =>
      andThen (evalTarget host) (.receiver target method args line)
        (callOn host target method args line)) :=
    moving_andThen ht fun v => moving_callOn target method args line v
  cases target with
  | reference name =>
      refine (moving_find name).bind fun found => .ite ?_ (.ite (moving_value _) ?_)
      · exact (moving_logValues _ _).bind fun _ => moving_value _
      · refine (moving_isUnbound name).bind fun unbound => .ite ?_ onValue
        exact (moving_error _).bind fun _ => moving_value _
  | _ => exact onValue

theorem moving_afterLeft (op : BinaryOp) (left : Value) {evalRight : Host → Act Evaluated}
    (hr : Evaluating calls evalRight) :
    Evaluating calls (fun host => afterLeft op left (evalRight host)) := by
  unfold afterLeft
  refine .ite (moving_value _) (moving_andThen hr fun right => ?_)
  refine still_heapView.moving.bind fun heap => ?_
  exact (still_number _).moving.bind fun v => moving_value v

theorem moving_makeObject (fields : List (String × Value)) :
    Evaluating calls (fun host => makeObject host fields) :=
  moving_done (moving_allocate "object" (by simp))

theorem moving_array (items : List Value) :
    Evaluating calls (fun host => done (allocate host "array" (.list items))) :=
  moving_done (moving_allocate "array" (by simp))

theorem moving_typeof (v : Value) :
    Evaluating calls (fun _ => do return .value (.text (v.typeof (← heapView)))) :=
  still_heapView.moving.bind fun _ => moving_value _

mutual

theorem moving_eval (e : Expr) :
    Evaluating calls (fun host => eval host (innermost calls) e) := by
  cases e with
  | literal l =>
      simp only [eval]
      exact moving_value _
  | array items =>
      simp only [eval]
      refine (moving_evalAll [] items).bind fun r => ?_
      cases r with
      | values vs => exact moving_array vs
      | calling call body context before after => exact .pure rfl
  | object entries =>
      simp only [eval]
      refine (moving_evalEntries [] entries).bind fun r => ?_
      cases r with
      | fields fs => exact moving_makeObject fs
      | calling call body context before key after => exact .pure rfl
  | function f =>
      simp only [eval]
      exact moving_done (moving_allocateFunction rfl)
  | reference name =>
      simp only [eval]
      exact moving_done (moving_resolve name)
  | property target name source =>
      simp only [eval]
      exact moving_andThen (moving_eval target) fun v => moving_done (still_property v name).moving
  | call name args =>
      simp only [eval]
      refine (moving_evalAll [] args).bind fun r => ?_
      cases r with
      | values vs => exact still_machine.moving.bind fun m => moving_callNamed name vs m.line
      | calling call body context before after => exact .pure rfl
  | methodCall target name args =>
      simp only [eval]
      refine (moving_evalAll [] args).bind fun r => ?_
      cases r with
      | values vs =>
          exact still_machine.moving.bind fun m =>
            moving_callMethod target (moving_eval target) name vs m.line
      | calling call body context before after => exact .pure rfl
  | typeof operand =>
      simp only [eval]
      have rest : Evaluating calls (fun host =>
          andThen (eval host (innermost calls) operand) .typeof fun v => do
            return .value (.text (v.typeof (← heapView)))) :=
        moving_andThen (moving_eval operand) moving_typeof
      cases operand with
      | reference name =>
          exact (moving_isUnbound name).bind fun unbound => .ite (moving_value _) rest
      | _ => exact rest
  | unary op operand =>
      simp only [eval]
      exact moving_andThen (moving_eval operand) fun v => moving_value _
  | binary op left right =>
      simp only [eval]
      exact moving_andThen (moving_eval left) fun v => moving_afterLeft op v (moving_eval right)

theorem moving_evalAll (before : List Value) (items : List Expr) :
    Moving calls calls (fun host => evalAll host (innermost calls) before items)
      (Gathered.opened calls) := by
  cases items with
  | nil =>
      simp only [evalAll]
      exact .pure rfl
  | cons e rest =>
      simp only [evalAll]
      refine (moving_eval e).bind fun r => ?_
      cases r with
      | value v => exact moving_evalAll (before ++ [v]) rest
      | calling call body context => exact .pure rfl

theorem moving_evalEntries (before : List (String × Value)) (entries : List (String × Expr)) :
    Moving calls calls (fun host => evalEntries host (innermost calls) before entries)
      (GatheredEntries.opened calls) := by
  rcases entries with _ | ⟨⟨key, e⟩, rest⟩
  · simp only [evalEntries]
    exact .pure rfl
  · simp only [evalEntries]
    refine (moving_eval e).bind fun r => ?_
    cases r with
    | value v => exact moving_evalEntries (Datum.setField key v before) rest
    | calling call body context => exact .pure rfl

end

/-! ## Going on in a context -/

theorem moving_useItems (use : ItemsUse) (vs : List Value) :
    Evaluating calls (fun host => useItems host (innermost calls) use vs) := by
  cases use with
  | array => exact moving_array vs
  | call name line => exact (still_lineOf line).moving.bind fun n => moving_callNamed name vs n
  | method target name line =>
      exact (still_lineOf line).moving.bind fun n =>
        moving_callMethod target (moving_eval target) name vs n
  | console method => exact (moving_logValues _ _).bind fun _ => moving_value _
  | construct keyword name =>
      refine (Moving.change fun _ => .aside (aside_allocate "object" (by simp))).bind fun id => ?_
      exact (moving_bind _ _ _).bind fun _ => moving_value _

theorem moving_evalItems (use : ItemsUse) (before : List Value) (items : List Expr) :
    Evaluating calls (fun host => evalItems host (innermost calls) use before items) := by
  refine (moving_evalAll before items).bind fun r => ?_
  cases r with
  | values vs => exact moving_useItems use vs
  | calling call body context before after => exact .pure rfl

theorem moving_fillOne (place : ExprFrame) (v : Value) :
    Evaluating calls (fun host => fillOne host (innermost calls) place v) := by
  cases place with
  | items use before after => exact moving_evalItems use (before ++ [v]) after
  | entry before key after =>
      refine (moving_evalEntries (Datum.setField key v before) after).bind fun r => ?_
      cases r with
      | fields fs => exact moving_makeObject fs
      | calling call body context before key after => exact .pure rfl
  | property name => exact moving_done (still_property v name).moving
  | typeof => exact moving_typeof v
  | unary op => exact moving_value _
  | left op right => exact moving_afterLeft op v (moving_eval right)
  | right op left =>
      refine still_heapView.moving.bind fun heap => ?_
      exact (still_number _).moving.bind fun v => moving_value v
  | receiver target method args line => exact moving_callOn target method args line v

theorem moving_fill (context : List ExprFrame) (v : Value) :
    Evaluating calls (fun host => fill host (innermost calls) context v) := by
  induction context generalizing v with
  | nil => exact moving_value v
  | cons place outer ih =>
      refine (moving_fillOne place v).bind fun r => ?_
      cases r with
      | value v' => exact ih v'
      | calling call body context => exact .pure rfl

/-! ## Instructions -/

theorem moving_finishWith (finish : Finish) (v : Value) :
    Moving calls calls (fun host => finishWith host (innermost calls) finish v)
      (fun _ => calls) := by
  cases finish with
  | declare keyword name => exact (moving_bind _ _ _).bind fun _ => .stay _
  | assign name => exact (moving_assign name v).bind fun _ => .stay _
  | promise callback params =>
      refine (Moving.change fun _ => .promise rfl).bind fun task => ?_
      exact (moving_info _).bind fun _ => .stay _
  | «return» =>
      refine (still_display v).moving.bind fun shown => ?_
      exact (moving_info _).bind fun _ => .stay _
  | discard => exact .stay _

theorem moving_conclude (finish : Finish) {r : Host → Act Evaluated} (hr : Evaluating calls r) :
    Moving calls calls
      (fun host => do conclude host (innermost calls) finish (← r host))
      (Executed.opened calls) := by
  refine hr.bind fun r => ?_
  cases r with
  | value v => exact (moving_finishWith finish v).bind fun _ => .pure rfl
  | calling call body context => exact .pure rfl

theorem moving_startTimer (callback : Callback) (delay : Int) :
    Moving calls calls (fun host => startTimer host (innermost calls) callback delay)
      (fun _ => calls) := by
  refine (Moving.change fun _ => .timer rfl).bind fun task => ?_
  refine (moving_info _).bind fun _ => still_store.moving.bind fun store => ?_
  refine (still_number _).moving.bind fun wait => ?_
  intro s _
  refine ⟨fun _ => rfl, ?_⟩
  rw [ends_modify]
  exact .single (.deed (.setClock _ _))

theorem moving_perform (i : Instruction) :
    Moving calls calls (fun host => perform host (innermost calls) i)
      (Executed.opened calls) := by
  cases i with
  | hoisting functions vars => exact (moving_info _).bind fun _ => .pure rfl
  | functionDecl d =>
      refine (moving_allocateFunction rfl).bind fun v => ?_
      exact (moving_bind _ _ _).bind fun _ => .pure rfl
  | hoistedVar name line =>
      refine (still_ownBinding? _ _).moving.bind fun own => .ite ?_ (.pure rfl)
      exact (moving_bind _ _ _).bind fun _ => .pure rfl
  | declare keyword name value line => exact moving_conclude _ (moving_eval value)
  | assign name value line => exact moving_conclude _ (moving_eval value)
  | call name args line => exact moving_conclude _ (moving_evalItems _ _ _)
  | methodCall target method args line => exact moving_conclude _ (moving_evalItems _ _ _)
  | console method args line => exact moving_conclude _ (moving_evalItems _ _ _)
  | timer callback delay line => exact (moving_startTimer callback delay).bind fun _ => .pure rfl
  | promise callback params value line => exact moving_conclude _ (moving_eval value)
  | «return» value line => exact moving_conclude _ (moving_eval value)
  | construct keyword name constructor args line =>
      exact moving_conclude _ (moving_evalItems _ _ _)

theorem moving_reach (line : Int) :
    Moving calls calls (fun _ => modifyMachine fun m => { m with line }) (fun _ => calls) := by
  intro s _
  exact ⟨fun _ => rfl, .single (.deed (.reach line))⟩

theorem moving_arrive (i : Instruction) :
    Moving calls calls (fun host => arrive host i) (fun _ => calls) := by
  unfold arrive
  refine (Moving.change fun _ => .aside aside_incrementStep).bind fun step => ?_
  refine still_machine.moving.bind fun m => .ite ((still_throw _).moving.bind fun _ => ?_) ?_
  all_goals
    refine .ite ((moving_reach i.line).bind fun _ => ?_) (.stay _)
    exact Moving.change fun _ => .aside (aside_setCurrentLine i.line)

theorem moving_execute (i : Instruction) :
    Moving calls calls (fun host => execute host (innermost calls) i)
      (Executed.opened calls) :=
  (moving_arrive i).bind fun _ => moving_perform i

theorem moving_goOn (context : List ExprFrame) (finish : Finish) (v : Value) :
    Moving calls calls (fun host => goOn host (innermost calls) context finish v)
      (Executed.opened calls) :=
  moving_conclude finish (moving_fill context v)

end Act

end Runloop
