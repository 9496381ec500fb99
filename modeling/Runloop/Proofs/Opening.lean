/-
# Calls that are about to begin

Opening a call is the last thing that a segment does: whatever then waits for the call is
handed up without another change (`Act.Opens`).  So a session that stands before the body
of a call is the one in which the call was opened, up to what drives the program
(`Session.Resting`), and it is known for which function and with which arguments
(`Reached.opened`).  The scope of the call has the parameters bound to them, and nothing
else (`Session.Opened.bindings`).
-/
import Runloop.Proofs.Executing

namespace Runloop

/-! ## The call that an outcome waits to enter -/

def Evaluated.entering? : Evaluated → Option (Call × Body)
  | .value _ => none
  | .calling call body _ => some (call, body)

def Gathered.entering? : Gathered → Option (Call × Body)
  | .values _ => none
  | .calling call body _ _ _ => some (call, body)

def GatheredEntries.entering? : GatheredEntries → Option (Call × Body)
  | .fields _ => none
  | .calling call body _ _ _ _ => some (call, body)

def Executed.entering? : Executed → Option (Call × Body)
  | .done _ => none
  | .calling call body _ _ => some (call, body)

def Work.entering? : Work → Option (Call × Body)
  | .inCall call (.entered body) _ _ => some (call, body)
  | _ => none

theorem Work.entering?_eq_some {work : Work} {call : Call} {body : Body} :
    work.entering? = some (call, body) ↔
      ∃ callers base, work = .inCall call (.entered body) callers base := by
  refine ⟨fun enters => ?_, fun ⟨callers, base, stands⟩ => by rw [stands]; rfl⟩
  rcases work with _ | _ | ⟨_, point | _, callers, base⟩ | _ <;> cases enters
  exact ⟨callers, base, rfl⟩

def Progress.entering? : Progress → Option (Call × Body)
  | .paused work => work.entering?
  | .ended => none

/-- A call was opened for a function with these arguments, and that was the last thing. -/
def Session.Opened (t : Session) (call : Call) (f : FunctionValue) (args : List Value) : Prop :=
  ∃ s name line receiver, (Act.invoke Act.plain f args name line receiver).run s = (.ok call, t)

namespace Act

variable {α β : Type}

/-- The call that the answer waits to enter, if it waits for one, was just opened for a
function with that body. -/
def Opens (entering? : α → Option (Call × Body)) (act : Act α) : Prop :=
  ∀ s, Ends act s
    (fun a t => ∀ call body, entering? a = some (call, body) →
      ∃ f args, f.body = body ∧ t.Opened call f args)
    (fun _ _ => True)

namespace Opens

variable {before? : α → Option (Call × Body)} {entering? : β → Option (Call × Body)}

/-- An answer that waits for no call. -/
theorem rest {b : β} (none : entering? b = none) : Opens entering? (pure b) := by
  intro s call body waits
  rw [none] at waits
  cases waits

theorem throw (f : Fault) : Opens entering? (MonadExcept.throw f : Act β) := fun _ => trivial

theorem bind {x : Act α} {f : α → Act β} (h : ∀ a, Opens entering? (f a)) :
    Opens entering? (x >>= f) := by
  intro s
  rw [ends_bind]
  exact (Ends.of_self x s).mono (fun a t _ => h a t) fun _ _ _ => trivial

/-- A call that a part waits for is handed up as it is. -/
theorem handUp {x : Act α} {f : α → Act β} (hx : Opens before? x)
    (goesOn : ∀ a, before? a = none → Opens entering? (f a))
    (waits : ∀ a p, before? a = some p → ∃ b, f a = pure b ∧ entering? b = some p) :
    Opens entering? (x >>= f) := by
  intro s
  rw [ends_bind]
  refine (hx s).mono (fun a t opened => ?_) fun _ _ _ => trivial
  cases here : before? a with
  | none => exact goesOn a here t
  | some p =>
      obtain ⟨b, same, up⟩ := waits a p here
      rw [same, ends_pure]
      intro call body waiting
      exact opened call body (here.trans (up.symm.trans waiting))

theorem ite {c : Prop} [Decidable c] {x y : Act β} (hx : Opens entering? x)
    (hy : Opens entering? y) : Opens entering? (if c then x else y) := by
  split
  · exact hx
  · exact hy

theorem inside {calls : List Call} {x : Act β} (h : Opens entering? x) :
    Opens entering? (inside plain calls x) :=
  fun s => ends_inside (h s)

end Opens

/-! ## Expressions -/

theorem opens_value (v : Value) : Opens Evaluated.entering? (pure (.value v)) := .rest rfl

theorem opens_done (a : Act Value) : Opens Evaluated.entering? (done a) :=
  .bind opens_value

theorem opens_andThen {part : Act Evaluated} {place : ExprFrame} {next : Value → Act Evaluated}
    (hp : Opens Evaluated.entering? part) (hn : ∀ v, Opens Evaluated.entering? (next v)) :
    Opens Evaluated.entering? (andThen part place next) := by
  refine hp.handUp ?_ ?_
  · intro r none
    cases r with
    | value v => exact hn v
    | calling => cases none
  · intro r p some
    cases r with
    | value => cases some
    | calling call body context => exact ⟨_, rfl, some⟩

theorem opens_openCall (f : FunctionValue) (args : List Value) (name : String) (line : Int)
    (receiver : Option Value) :
    Opens Evaluated.entering? (openCall plain f args name line receiver) := by
  intro s
  rw [openCall, ends_bind]
  refine (Ends.of_self _ s).mono ?_ fun _ _ _ => trivial
  rintro call t run _ _ ⟨⟩
  exact ⟨f, args, rfl, s, name, line, receiver, run⟩

theorem opens_callNamed (scope name : String) (args : List Value) (line : Int) :
    Opens Evaluated.entering? (callNamed plain scope name args line) := by
  refine .bind fun found => ?_
  rcases found with - | ⟨owner, binding⟩
  · refine .bind fun declared => .ite (.bind fun f => ?_) (.bind fun _ => opens_value _)
    cases f with
    | some f => exact opens_openCall f args name line none
    | none => exact .bind fun _ => .throw _
  · refine .bind fun f => ?_
    cases f with
    | some f => exact opens_openCall f args name line none
    | none => exact .bind fun _ => opens_value _

theorem opens_noMethod (target : Expr) (method : String) (receiver : Value) :
    Opens Evaluated.entering? (noMethod plain target method receiver) := by
  cases receiver with
  | undefined | null => exact .bind fun _ => .bind fun _ => opens_value _
  | _ => exact .bind fun _ => opens_value _

theorem opens_callOn (target : Expr) (method : String) (args : List Value) (line : Int)
    (receiver : Value) :
    Opens Evaluated.entering? (callOn plain target method args line receiver) := by
  refine .bind fun entry => ?_
  split
  · exact .ite (opens_done _) (opens_noMethod target method _)
  · refine .bind fun f => ?_
    cases f with
    | some f => exact opens_openCall f args method line _
    | none => exact opens_noMethod target method _
  · exact opens_noMethod target method _

theorem opens_callMethod (scope : String) (target : Expr) {evalTarget : Act Evaluated}
    (ht : Opens Evaluated.entering? evalTarget) (method : String) (args : List Value)
    (line : Int) :
    Opens Evaluated.entering? (callMethod plain scope target evalTarget method args line) := by
  have onValue : Opens Evaluated.entering?
      (andThen evalTarget (.receiver target method args line)
        (callOn plain target method args line)) :=
    opens_andThen ht (opens_callOn target method args line)
  cases target with
  | reference name =>
      refine .bind fun found => .ite (.bind fun _ => opens_value _) (.ite (opens_value _) ?_)
      exact .bind fun unbound => .ite (.bind fun _ => opens_value _) onValue
  | _ => exact onValue

theorem opens_afterLeft (op : BinaryOp) (v : Value) {evalRight : Act Evaluated}
    (hr : Opens Evaluated.entering? evalRight) :
    Opens Evaluated.entering? (afterLeft op v evalRight) :=
  .ite (opens_value v) (opens_andThen hr fun _ => .bind fun _ => .bind opens_value)

/-- A list of expressions hands up the call that one of them waits for. -/
theorem opens_gathered {x : Act Gathered} {place : List Value → List Expr → ExprFrame}
    {next : List Value → Act Evaluated} (hx : Opens Gathered.entering? x)
    (hn : ∀ vs, Opens Evaluated.entering? (next vs)) :
    Opens Evaluated.entering? (do
      match ← x with
      | .values vs => next vs
      | .calling call body context before after =>
        return .calling call body (context ++ [place before after])) := by
  refine hx.handUp ?_ ?_
  · intro r none
    cases r with
    | values vs => exact hn vs
    | calling => cases none
  · intro r p some
    cases r with
    | values => cases some
    | calling call body context before after => exact ⟨_, rfl, some⟩

/-- So do the entries of an object. -/
theorem opens_entries {x : Act GatheredEntries} (hx : Opens GatheredEntries.entering? x) :
    Opens Evaluated.entering? (do
      match ← x with
      | .fields fs => makeObject plain fs
      | .calling call body context before key after =>
        return .calling call body (context ++ [.entry before key after])) := by
  refine hx.handUp ?_ ?_
  · intro r none
    cases r with
    | fields fs => exact opens_done _
    | calling => cases none
  · intro r p some
    cases r with
    | fields => cases some
    | calling call body context before key after => exact ⟨_, rfl, some⟩

mutual

theorem opens_eval (scope : String) (e : Expr) :
    Opens Evaluated.entering? (eval plain scope e) := by
  cases e with
  | literal l =>
      rw [eval]
      exact opens_value _
  | array items =>
      rw [eval]
      exact opens_gathered (opens_evalAll scope [] items) fun _ => opens_done _
  | object entries =>
      rw [eval]
      exact opens_entries (opens_evalEntries scope [] entries)
  | function f =>
      rw [eval]
      exact opens_done _
  | reference name =>
      rw [eval]
      exact opens_done _
  | property target name source =>
      rw [eval]
      exact opens_andThen (opens_eval scope target) fun _ => opens_done _
  | call name args =>
      rw [eval]
      refine opens_gathered (opens_evalAll scope [] args) fun vs => .bind fun m => ?_
      exact opens_callNamed scope name vs m.line
  | methodCall target name args =>
      rw [eval]
      refine opens_gathered (opens_evalAll scope [] args) fun vs => .bind fun m => ?_
      exact opens_callMethod scope target (opens_eval scope target) name vs m.line
  | typeof operand =>
      have rest : Opens Evaluated.entering? (andThen (eval plain scope operand) .typeof
          fun v => do return .value (.text (v.typeof (← heapView)))) :=
        opens_andThen (opens_eval scope operand) fun _ => .bind fun _ => opens_value _
      cases operand with
      | reference name =>
          rw [eval]
          exact .bind fun unbound => .ite (opens_value _) rest
      | _ =>
          simp only [eval]
          exact rest
  | unary op operand =>
      rw [eval]
      exact opens_andThen (opens_eval scope operand) fun _ => opens_value _
  | binary op left right =>
      rw [eval]
      exact opens_andThen (opens_eval scope left) fun v =>
        opens_afterLeft op v (opens_eval scope right)

theorem opens_evalAll (scope : String) (before : List Value) (items : List Expr) :
    Opens Gathered.entering? (evalAll plain scope before items) := by
  cases items with
  | nil =>
      rw [evalAll]
      exact .rest rfl
  | cons e rest =>
      rw [evalAll]
      refine (opens_eval scope e).handUp ?_ ?_
      · intro r none
        cases r with
        | value v => exact opens_evalAll scope _ rest
        | calling => cases none
      · intro r p some
        cases r with
        | value => cases some
        | calling call body context => exact ⟨_, rfl, some⟩

theorem opens_evalEntries (scope : String) (before : List (String × Value))
    (entries : List (String × Expr)) :
    Opens GatheredEntries.entering? (evalEntries plain scope before entries) := by
  rcases entries with _ | ⟨⟨key, e⟩, rest⟩
  · rw [evalEntries]
    exact .rest rfl
  · rw [evalEntries]
    refine (opens_eval scope e).handUp ?_ ?_
    · intro r none
      cases r with
      | value v => exact opens_evalEntries scope _ rest
      | calling => cases none
    · intro r p some
      cases r with
      | value => cases some
      | calling call body context => exact ⟨_, rfl, some⟩

end

theorem opens_useItems (scope : String) (use : ItemsUse) (vs : List Value) :
    Opens Evaluated.entering? (useItems plain scope use vs) := by
  cases use with
  | array => exact opens_done _
  | call name line => exact .bind fun line => opens_callNamed scope name vs line
  | method target name line =>
      exact .bind fun line => opens_callMethod scope target (opens_eval scope target) name vs line
  | console method => exact .bind fun _ => opens_value _
  | construct keyword name => exact .bind fun _ => .bind fun _ => opens_value _

theorem opens_evalItems (scope : String) (use : ItemsUse) (before : List Value)
    (items : List Expr) :
    Opens Evaluated.entering? (evalItems plain scope use before items) :=
  opens_gathered (opens_evalAll scope before items) (opens_useItems scope use)

theorem opens_fillOne (scope : String) (place : ExprFrame) (v : Value) :
    Opens Evaluated.entering? (fillOne plain scope place v) := by
  cases place with
  | items use before after => exact opens_evalItems scope use _ after
  | entry before key after => exact opens_entries (opens_evalEntries scope _ after)
  | property name => exact opens_done _
  | typeof => exact .bind fun _ => opens_value _
  | unary op => exact opens_value _
  | left op right => exact opens_afterLeft op v (opens_eval scope right)
  | right op left => exact .bind fun _ => .bind opens_value
  | receiver target method args line => exact opens_callOn target method args line v

theorem opens_fill (scope : String) (context : List ExprFrame) (v : Value) :
    Opens Evaluated.entering? (fill plain scope context v) := by
  induction context generalizing v with
  | nil => exact opens_value v
  | cons place outer ih =>
      refine (opens_fillOne scope place v).handUp ?_ ?_
      · intro r none
        cases r with
        | value v' => exact ih v'
        | calling => cases none
      · intro r p some
        cases r with
        | value => cases some
        | calling call body context => exact ⟨_, rfl, some⟩

/-! ## Instructions -/

theorem opens_conclude (scope : String) (finish : Finish) {x : Act Evaluated}
    (hx : Opens Evaluated.entering? x) :
    Opens Executed.entering? (do conclude plain scope finish (← x)) := by
  refine hx.handUp ?_ ?_
  · intro r none
    cases r with
    | value v => exact .bind fun _ => .rest rfl
    | calling => cases none
  · intro r p some
    cases r with
    | value => cases some
    | calling call body context => exact ⟨_, rfl, some⟩

theorem opens_perform (scope : String) (i : Instruction) :
    Opens Executed.entering? (perform plain scope i) := by
  have nothing : Opens Executed.entering? (pure (.done none) : Act Executed) := .rest rfl
  have items (use : ItemsUse) (args : List Expr) : Opens Executed.entering? (do
      conclude plain scope .discard (← evalItems plain scope use [] args)) :=
    opens_conclude scope _ (opens_evalItems scope use [] args)
  have value (finish : Finish) (e : Expr) : Opens Executed.entering? (do
      conclude plain scope finish (← eval plain scope e)) :=
    opens_conclude scope _ (opens_eval scope e)
  cases i with
  | hoisting functions vars => exact .bind fun _ => nothing
  | functionDecl d => exact .bind fun _ => .bind fun _ => nothing
  | hoistedVar name line => exact .bind fun own => .ite (.bind fun _ => nothing) nothing
  | declare keyword name e line => exact value _ e
  | assign name e line => exact value _ e
  | call name args line => exact items _ args
  | methodCall target method args line => exact items _ args
  | console method args line => exact items _ args
  | timer callback delay line => exact .bind fun _ => nothing
  | promise callback params e line => exact value _ e
  | «return» e line => exact value _ e
  | construct keyword name constructor args line => exact items _ args

theorem opens_execute (scope : String) (i : Instruction) :
    Opens Executed.entering? (execute plain scope i) := by
  rw [execute_eq]
  exact .bind fun _ => opens_perform scope i

theorem opens_goOn (scope : String) (context : List ExprFrame) (finish : Finish) (v : Value) :
    Opens Executed.entering? (goOn plain scope context finish v) :=
  opens_conclude scope finish (opens_fill scope context v)

/-! ## Segments -/

/-- What an instruction waits for is what its unit of work waits for. -/
theorem opens_executed {x : Act Executed} {done : Option Value → Progress}
    {wait : Call → Body → List ExprFrame → Finish → Work} (hx : Opens Executed.entering? x)
    (hd : ∀ r, (done r).entering? = none)
    (hw : ∀ call body context finish,
      (wait call body context finish).entering? = some (call, body)) :
    Opens Progress.entering? (do
      match ← x with
      | .done returned => return done returned
      | .calling call body context finish => return .paused (wait call body context finish)) := by
  refine hx.handUp ?_ ?_
  · intro r none
    cases r with
    | done returned => exact .rest (hd returned)
    | calling => cases none
  · intro r p some
    cases r with
    | done => cases some
    | calling call body context finish => exact ⟨_, rfl, (hw ..).trans some⟩

theorem opens_deliver (callers : List Caller) (base : Base) (v : Value) :
    Opens Progress.entering? (deliver plain callers base v) := by
  cases callers with
  | cons caller outer =>
      exact opens_executed (opens_goOn _ caller.context caller.finish v).inside (fun _ => rfl)
        fun _ _ _ _ => rfl
  | nil =>
      cases base with
      | program scope context finish =>
          exact opens_executed (opens_goOn scope context finish v) (fun _ => rfl)
            fun _ _ _ _ => rfl
      | microtask round => exact .rest rfl
      | callback => exact .rest rfl

theorem opens_leave (call : Call) (callers : List Caller) (base : Base) (v : Value) :
    Opens Progress.entering? (leave plain call callers base v) :=
  .bind fun _ => opens_deliver callers base v

theorem opens_runBody (call : Call) (callers : List Caller) (base : Base)
    (is : List Instruction) : Opens Progress.entering? (runBody plain call callers base is) := by
  cases is with
  | nil => exact opens_leave call callers base .undefined
  | cons i rest =>
      exact opens_executed (opens_execute call.scope i).inside (fun _ => rfl) fun _ _ _ _ => rfl

theorem opens_startTask (task : Task) (base : Base) :
    Opens Progress.entering? (startTask plain task base) := by
  intro s
  rw [startTask, ends_bind, ends_get, ends_bind]
  refine (Ends.of_self _ s).mono ?_ fun _ _ _ => trivial
  rintro call t run _ _ ⟨⟩
  exact ⟨_, _, rfl, s, _, _, _, run⟩

theorem opens_takeMicrotask (round : Round) (ran : Bool) :
    Opens Progress.entering? (takeMicrotask plain round ran) := by
  refine .bind fun found => ?_
  cases found with
  | some task => exact .bind fun _ => .rest rfl
  | none =>
      cases round with
      | last => exact .rest rfl
      | first =>
          refine .bind fun found => ?_
          cases found with
          | some task => exact .bind fun _ => .rest rfl
          | none =>
              refine .rest ?_
              split
              · rfl
              · rfl

/-- A segment that comes to stand before the body of a call has just opened the call. -/
theorem opens_runSegment (work : Work) : Opens Progress.entering? (runSegment plain work) := by
  cases work with
  | instruction i =>
      exact .bind fun m => opens_executed (opens_execute _ i) (fun _ => rfl) fun _ _ _ _ => rfl
  | pass => exact opens_takeMicrotask .first false
  | inCall call point callers base =>
      cases point with
      | entered body => exact .bind fun is => opens_runBody call callers base is
      | between returned rest =>
          cases returned with
          | some v => exact opens_leave call callers base v
          | none => exact opens_runBody call callers base rest
  | atPass point =>
      cases point with
      | beforeMicrotask task round => exact opens_startTask task _
      | afterMicrotask round => exact opens_takeMicrotask round true
      | beforeCallback task => exact opens_startTask task _
      | afterCallback => exact opens_takeMicrotask .last true
      | idle => exact .rest rfl

end Act

/-! ## What drives a program between its instructions -/

/-- From `s` to `t` the program has not moved on: its names, objects and work are as they
were. -/
structure Session.Resting (s t : Session) : Prop where
  scopes : t.store.state.scopes = s.store.state.scopes
  heap : t.store.state.heap = s.store.state.heap
  count : t.count = s.count
  unit : t.machine.unit = s.machine.unit
  program : t.machine.program = s.machine.program
  cursor : t.machine.cursor = s.machine.cursor
  bodies : t.bodies = s.bodies

namespace Session.Resting

variable {s t : Session}

theorem refl (s : Session) : s.Resting s := ⟨rfl, rfl, rfl, rfl, rfl, rfl, rfl⟩

theorem publish {α : Type} {c : Change α} (scopes : c.store.state.scopes = s.store.state.scopes)
    (heap : c.store.state.heap = s.store.state.heap)
    (step : c.store.state.currentStep = s.store.state.currentStep) :
    s.Resting (s.publish c) := by
  obtain ⟨lines, same⟩ := s.publish_eq c
  rw [same]
  exact ⟨scopes, heap, step, rfl, rfl, rfl, rfl⟩

end Session.Resting

/-- A program that is still on after something was done with it has rested, or has taken
up a unit of work, or has run one to its next pause. -/
theorem Drive.cases_on {s t : Session} {why fault : Option Fault} (d : Drive s fault t)
    (standing : Standing why s) (on : t.phase ≠ .completed) :
    s.phase ≠ .completed ∧ (s.Resting t ∨
      (s.machine.unit = none ∧
        t = s.taking (Act.upcoming s.machine.program s.machine.cursor).1
          (Act.upcoming s.machine.program s.machine.cursor).2) ∨
      ∃ u, s.machine.unit = some u ∧ t = ((Act.advance Act.plain).run s).2) := by
  refine ⟨((Act.tick_of_drive standing d).on on).2, ?_⟩
  cases d with
  | time clock => exact .inl ⟨rfl, rfl, rfl, rfl, rfl, rfl, rfl⟩
  | seat gate openings runActive => exact .inl ⟨rfl, rfl, rfl, rfl, rfl, rfl, rfl⟩
  | fire id =>
      rw [Act.run_fire]
      have moved := (requeues_moveToCallbacks s.store id).same
      exact .inl (.publish (by rw [moved]; rfl) (by rw [moved]; rfl) (by rw [moved]; rfl))
  | speed speed =>
      rw [Act.setSpeed, Act.run_change rfl]
      exact .inl (.publish rfl rfl rfl)
  | @phase phase _ _ =>
      let phased : Session := { s with machine := { s.machine with phase } }
      have run : (Act.setPhase Act.plain phase).run s =
          (.ok ⟨⟩, phased.publish (phased.store.setExecution
            (phase == .running || phase == .paused) (phase == .paused))) := by
        rw [Act.setPhase, Act.run_bind]
        exact Act.run_change (s := phased) rfl _
      have rests : phased.Resting (phased.publish (phased.store.setExecution
          (phase == .running || phase == .paused) (phase == .paused))) := .publish rfl rfl rfl
      rw [run]
      exact .inl ⟨rests.scopes, rests.heap, rests.count, rests.unit, rests.program, rests.cursor,
        rests.bodies⟩
  | take _ hu => exact .inr (.inl ⟨hu, Act.run_nextUnit⟩)
  | @advance u _ hu => exact .inr (.inr ⟨u, hu, rfl⟩)
  | finish _ hu =>
      obtain ⟨_, t, run, -, -, -, completed⟩ := (Act.ends_finish hu).exists_ok
      rw [run] at on
      exact absurd completed on
  | stop =>
      obtain ⟨_, t, run, -, ended⟩ := (Act.ends_stop standing.steady).exists_ok
      by_cases idle : s.phase = .idle
      · have same : (Act.stop Act.plain).run s = (.ok ⟨⟩, s) := by
          rw [Act.stop, Act.run_machine_bind, if_pos (by simp [show s.machine.phase = _ from idle])]
          rfl
        rw [same]
        exact .inl (.refl s)
      · rw [run] at on
        exact absurd (ended idle) on

/-- A session that stands before the body of a call has the scopes and the heap that it had
when the call was opened for a function with that body. -/
theorem Reached.opened {why : Option Fault} {s : Session} {u : UnitOfWork} {call : Call}
    {body : Body} (h : Reached why s) (hu : s.machine.unit = some u)
    (enters : u.work.entering? = some (call, body)) :
    ∃ (f : FunctionValue) (args : List Value) (t : Session), f.body = body ∧
      t.Opened call f args ∧ t.store.state.scopes = s.store.state.scopes ∧
      t.store.state.heap = s.store.state.heap := by
  induction h generalizing u with
  | load _ unit run =>
      obtain ⟨-, rfl⟩ := Act.init_eq unit run
      cases hu
  | @drive s t _ _ before d ih =>
      have on : t.phase ≠ .completed := fun completed =>
        absurd (hu.symm.trans ((before.drive d).standing.ended completed).1) (by simp)
      obtain ⟨running, rests | ⟨-, taken⟩ | ⟨u', hu', advances⟩⟩ := d.cases_on before.standing on
      · obtain ⟨f, args, v, same, opened, scopes, heap⟩ := ih (rests.unit.symm.trans hu) enters
        exact ⟨f, args, v, same, opened, scopes.trans rests.scopes.symm,
          heap.trans rests.heap.symm⟩
      · rw [taken] at hu
        cases hu
        rw [Act.upcoming] at enters
        split at enters
        · cases enters
        · cases enters
      · rcases Act.advance_cases (before.steady running) hu' with
          ⟨-, v, _, -, ends, -, none, -⟩ | ⟨p, v, run, -, ends⟩
        · rw [advances, ends, none] at hu
          cases hu
        · rw [ends] at advances
          rw [advances] at hu
          cases p with
          | ended => cases hu
          | paused work =>
              cases hu
              obtain ⟨f, args, same, opened⟩ :=
                (Act.opens_runSegment u'.work _).of_ok run call body enters
              exact ⟨f, args, v, same, opened, by rw [advances]; rfl, by rw [advances]; rfl⟩

/-! ## What a call begins with -/

namespace Act

variable {s : Session}

/-- Parameters open and close no scope. -/
theorem ends_bindParams_ids (scope : String) (params : List String) (args : List Value) :
    Ends (bindParams plain scope params args) s (fun _ t => t.store.scopeIds = s.store.scopeIds)
      (fun _ t => t.store.scopeIds = s.store.scopeIds) := by
  induction params generalizing s args with
  | nil => exact rfl
  | cons param params ih =>
      rw [bindParams, ends_bind, ends_kindOf, ends_bind, ends_change?]
      split
      · rename_i c added
        obtain ⟨d, -, rfl⟩ := addScopeVariable_inv added
        have bound (b : Binding) :
            (s.publish (s.store.rebinding .addVariable d param b)).store.scopeIds =
              s.store.scopeIds := by
          rw [Session.publish_store]
          apply map_modifyFirst
          intro c
          rfl
        have shown (t : Session) (value kind : String) :
            (t.publish (t.store.updateFrameVariable param value kind)).store.scopeIds =
              t.store.scopeIds := by
          rw [Session.publish_store, updateFrameVariable_store]
          rfl
        rw [ends_bind]
        refine (still_display _ _).mono ?_ ?_
        · rintro _ _ rfl
          rw [ends_bind, ends_kindOf, ends_bind, ends_change]
          refine (ih (args.drop 1)).mono ?_ ?_
          · exact fun _ t ids => ids.trans ((shown _ _ _).trans (bound _))
          · exact fun _ t ids => ids.trans ((shown _ _ _).trans (bound _))
        · rintro _ _ rfl
          exact bound _
      · rfl

/-- The scope of a call is the innermost one, and has no variables yet. -/
theorem ends_openScope (closure : Option String) (name : String) :
    Ends (openScope plain closure name) s
      (fun r t => ∃ outer, t.store.state.scopes = outer ++ [r.1] ∧ r.1.bindings = [])
      (fun _ _ => True) := by
  rw [openScope, ends_bind]
  refine (Ends.of_self _ s).mono ?_ fun _ _ _ => trivial
  intro restored t _
  rw [ends_bind, ends_get, ends_bind, ends_change, ends_pure, Session.publish_store]
  exact ⟨_, rfl, rfl⟩

/-- The frame of a call leaves the scopes alone. -/
theorem ends_pushCall (name thisBinding : String) (line : Int) (receiver : Value) :
    Ends (pushCall plain name thisBinding line receiver) s
      (fun _ t => t.store.state.scopes = s.store.state.scopes) (fun _ _ => False) := by
  rw [pushCall, ends_bind, ends_change, ends_modifyMachine, Session.publish_store]
  rfl

end Act

/-- The scope that was opened last is found under its identity. -/
theorem Session.valueIn?_innermost {s : Session} {outer : List Scope} {c : Scope}
    (scopes : s.store.state.scopes = outer ++ [c]) (nodup : s.store.scopeIds.Nodup)
    (name : String) : s.valueIn? c.id name = (c.binding? name).map (·.value) := by
  rw [Store.scopeIds, scopes, List.map_append] at nodup
  have absent : outer.find? (·.id == c.id) = none := by
    refine List.find?_eq_none.mpr fun d hd same => ?_
    refine List.disjoint_of_nodup_append nodup (List.mem_map_of_mem hd) ?_
    simpa using same
  have found : s.store.scope? c.id = some c := by
    rw [Store.scope?, scopes, List.find?_append, absent]
    simp
  rw [Session.valueIn?, found, Option.bind_some]

/-- In the scope of a call that was just opened the parameters are bound, the later of two
that have the same name, and nothing else. -/
theorem Session.Opened.bindings {t : Session} {call : Call} {f : FunctionValue}
    {args : List Value} (h : t.Opened call f args) (nodup : t.store.scopeIds.Nodup) :
    (∀ name, name ∉ f.params → t.valueIn? call.scope name = none) ∧
    ∀ front param back, f.params = front ++ param :: back → param ∉ back →
      t.valueIn? call.scope param = some (args[front.length]?.getD .undefined) := by
  obtain ⟨s, name, line, receiver, run⟩ := h
  have opens : Act.Ends (Act.invoke Act.plain f args name line receiver) s
      (fun call t => t.store.scopeIds.Nodup →
        (∀ name, name ∉ f.params → t.valueIn? call.scope name = none) ∧
        ∀ front param back, f.params = front ++ param :: back → param ∉ back →
          t.valueIn? call.scope param = some (args[front.length]?.getD .undefined))
      (fun _ _ => True) := by
    rw [Act.invoke, Act.ends_bind]
    refine (Act.still_checkDepth s).mono ?_ fun _ _ _ => trivial
    rintro _ _ rfl
    rw [Act.ends_bind]
    refine (Act.ends_openScope f.closure _).mono ?_ fun _ _ _ => trivial
    rintro ⟨scope, restored⟩ s₁ ⟨outer, scopes, empty⟩
    dsimp only at scopes empty ⊢
    rw [Act.enterCall, Act.ends_bind]
    refine (Act.Ends.of_self _ s₁).mono ?_ fun _ _ _ => trivial
    intro thisBinding s₂ shows
    obtain ⟨_, text, -⟩ := Act.run_receiverText (s := s₁) receiver
    obtain ⟨-, rfl⟩ := Prod.mk.inj (text.symm.trans shows)
    rw [Act.ends_bind]
    refine (Act.ends_pushCall _ _ _ _).mono ?_ fun _ _ h => h.elim
    intro _ s₃ pushed
    rw [Act.ends_bind, Act.ends_machine, Act.ends_bind]
    refine (Act.ends_inside ((Act.ends_bindParams f.params args).and
      (Act.ends_bindParams_ids scope.id f.params args) |>.mono (fun _ _ h => h) fun _ _ _ =>
        trivial)).mono ?_ fun _ _ _ => trivial
    rintro _ t ⟨⟨others, params⟩, ids⟩ nodup
    refine ⟨fun name out => ?_, params⟩
    rw [others name out, Session.valueIn?_innermost (pushed.trans scopes) (ids ▸ nodup),
      Scope.binding?, empty]
    rfl
  exact opens.of_ok run nodup

end Runloop
