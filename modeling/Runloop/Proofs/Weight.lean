/-
# The weight of work

A segment that executes no instruction still does something: it enters a call
that was waited for, or leaves one, takes a task, or finds that there is none.
Calls can be nested in expressions and a promise queues a microtask, so none of
the places of a program alone gets nearer to its end; their weights, together
with those of the tasks in the queues, do.

The calls that an expression can still make are bounded by the places where its
text makes one (`answers_eval`, `answers_fill`).  So whatever waits for a call is
lighter when it waits for the next one, and every segment that executes no
instruction leaves less to be done than there was (`ends_lighter`), as long as no
time passes.
-/
import Runloop.Proofs.Limits
import Runloop.Proofs.Callbacks

namespace Runloop

/-! ## Calls that expressions can still make -/

theorem total_append (l l' : List Nat) : total (l ++ l') = total l + total l' := by
  induction l with
  | nil => exact (Nat.zero_add _).symm
  | cons n rest ih => simp only [List.cons_append, total, ih, Nat.add_assoc]

@[simp] theorem contextCallSites_nil : contextCallSites [] = 0 := rfl

theorem contextCallSites_append (inner outer : List ExprFrame) :
    contextCallSites (inner ++ outer) = contextCallSites inner + contextCallSites outer := by
  unfold contextCallSites
  rw [List.map_append, total_append]

theorem contextCallSites_concat (inner : List ExprFrame) (place : ExprFrame) :
    contextCallSites (inner ++ [place]) = contextCallSites inner + place.callSites :=
  contextCallSites_append inner [place]

/-- A call was made, if any, and fewer than `n` can follow it. -/
def Evaluated.Fewer (n : Nat) : Evaluated → Prop
  | .value _ => True
  | .calling _ _ context => contextCallSites context < n

def Gathered.Fewer (n : Nat) : Gathered → Prop
  | .values _ => True
  | .calling _ _ context _ after => contextCallSites context + Expr.callSitesAll after < n

def GatheredEntries.Fewer (n : Nat) : GatheredEntries → Prop
  | .fields _ => True
  | .calling _ _ context _ _ after => contextCallSites context + Expr.callSitesEntries after < n

theorem Evaluated.Fewer.mono {n m : Nat} {r : Evaluated} (h : r.Fewer n) (le : n ≤ m) :
    r.Fewer m := by
  cases r with
  | value v => trivial
  | calling call body context => exact Nat.lt_of_lt_of_le h le

namespace Act

variable {α β : Type} {n : Nat} {scope : String}

theorem Answers.mono {act : Act α} {P Q : α → Prop} (h : Answers act P) (hPQ : ∀ a, P a → Q a) :
    Answers act Q :=
  fun s => (h s).mono (fun a _ => hPQ a) fun _ _ h => h

theorem Answers.then {x : Act α} {f : α → Act β} {P : α → Prop} {Q : β → Prop}
    (hx : Answers x P) (hf : ∀ a, P a → Answers (f a) Q) : Answers (x >>= f) Q := by
  intro s
  rw [ends_bind]
  exact (hx s).mono (fun a t ha => hf a ha t) fun _ _ h => h

theorem Answers.ite {c : Prop} [Decidable c] {x y : Act α} {P : α → Prop} (hx : Answers x P)
    (hy : Answers y P) : Answers (if c then x else y) P := by
  split
  · exact hx
  · exact hy

theorem answers_value (v : Value) : Answers (pure (.value v)) (Evaluated.Fewer n) :=
  .pure trivial

theorem answers_done (a : Act Value) : Answers (done a) (Evaluated.Fewer n) :=
  .bind answers_value

theorem answers_andThen {part : Act Evaluated} {place : ExprFrame} {next : Value → Act Evaluated}
    {k : Nat} (hp : Answers part (Evaluated.Fewer k)) (le : k + place.callSites ≤ n)
    (hn : ∀ v, Answers (next v) (Evaluated.Fewer n)) :
    Answers (andThen part place next) (Evaluated.Fewer n) := by
  refine hp.then fun r hr => ?_
  cases r with
  | value v => exact hn v
  | calling call body context =>
      refine .pure ?_
      show contextCallSites (context ++ [place]) < n
      rw [contextCallSites_concat]
      exact Nat.lt_of_lt_of_le (Nat.add_lt_add_right hr _) le

theorem answers_openCall (f : FunctionValue) (args : List Value) (name : String) (line : Int)
    (receiver : Option Value) :
    Answers (openCall plain f args name line receiver) (Evaluated.Fewer 1) :=
  .bind fun _ => .pure (by simp [Evaluated.Fewer])

theorem answers_callNamed (name : String) (args : List Value) (line : Int) :
    Answers (callNamed plain scope name args line) (Evaluated.Fewer 1) := by
  refine .bind fun found => ?_
  rcases found with _ | ⟨owner, binding⟩
  · refine .bind fun declared => .ite (.bind fun f? => ?_) (.bind fun _ => answers_value _)
    cases f? with
    | some f => exact answers_openCall f args name line none
    | none => exact .bind fun _ _ => trivial
  · refine .bind fun f? => ?_
    cases f? with
    | some f => exact answers_openCall f args name line none
    | none => exact .bind fun _ => answers_value _

theorem answers_noMethod (target : Expr) (method : String) (receiver : Value) :
    Answers (noMethod plain target method receiver) (Evaluated.Fewer n) := by
  unfold noMethod
  split
  · exact .bind fun _ => .bind fun _ => answers_value _
  · exact .bind fun _ => .bind fun _ => answers_value _
  · exact .bind fun _ => answers_value _

theorem answers_callOn (target : Expr) (method : String) (args : List Value) (line : Int)
    (receiver : Value) :
    Answers (callOn plain target method args line receiver) (Evaluated.Fewer 1) := by
  refine .bind fun entry => ?_
  split
  · exact .ite (answers_done _) (answers_noMethod target method _)
  · refine .bind fun f? => ?_
    cases f? with
    | some f => exact answers_openCall f args method line (some _)
    | none => exact answers_noMethod target method _
  · exact answers_noMethod target method receiver

theorem answers_callMethod (target : Expr) {evalTarget : Act Evaluated}
    (h : Answers evalTarget (Evaluated.Fewer target.callSites)) (method : String)
    (args : List Value) (line : Int) :
    Answers (callMethod plain scope target evalTarget method args line)
      (Evaluated.Fewer (1 + target.callSites)) := by
  have onValue : Answers (andThen evalTarget (.receiver target method args line)
      (callOn plain target method args line)) (Evaluated.Fewer (1 + target.callSites)) := by
    refine answers_andThen h (Nat.le_of_eq (Nat.add_comm _ _)) fun v => ?_
    exact (answers_callOn target method args line v).mono fun r hr => hr.mono (Nat.le_add_right ..)
  cases target with
  | reference name =>
      refine .bind fun found => .ite (.bind fun _ => answers_value _) (.ite (answers_value _) ?_)
      exact .bind fun unbound => .ite (.bind fun _ => answers_value _) onValue
  | _ => exact onValue

theorem answers_afterLeft (op : BinaryOp) (left : Value) {evalRight : Act Evaluated}
    (h : Answers evalRight (Evaluated.Fewer n)) :
    Answers (afterLeft op left evalRight) (Evaluated.Fewer n) := by
  unfold afterLeft
  refine .ite (answers_value _) (answers_andThen h (Nat.le_refl n) fun right => ?_)
  exact .bind fun heap => .bind fun v => answers_value v

mutual

/-- The calls that an expression makes are those of its text. -/
theorem answers_eval (e : Expr) : Answers (eval plain scope e) (Evaluated.Fewer e.callSites) := by
  cases e with
  | literal l =>
      simp only [eval]
      exact answers_value _
  | array items =>
      simp only [eval]
      refine (answers_evalAll [] items).then fun r hr => ?_
      cases r with
      | values vs => exact answers_done _
      | calling call body context before after =>
          refine .pure ?_
          simpa [Evaluated.Fewer, contextCallSites_concat, ExprFrame.callSites, ItemsUse.callSites,
            Expr.callSites, Gathered.Fewer] using hr
  | object entries =>
      simp only [eval]
      refine (answers_evalEntries [] entries).then fun r hr => ?_
      cases r with
      | fields fs => exact answers_done _
      | calling call body context before key after =>
          refine .pure ?_
          simpa [Evaluated.Fewer, contextCallSites_concat, ExprFrame.callSites, Expr.callSites,
            GatheredEntries.Fewer] using hr
  | function f =>
      simp only [eval]
      exact answers_done _
  | reference name =>
      simp only [eval]
      exact answers_done _
  | property target name source =>
      simp only [eval]
      exact answers_andThen (answers_eval target) (by simp [ExprFrame.callSites, Expr.callSites])
        fun v => answers_done _
  | call name args =>
      simp only [eval]
      refine (answers_evalAll [] args).then fun r hr => ?_
      cases r with
      | values vs =>
          refine .bind fun m => (answers_callNamed name vs m.line).mono fun r hr => hr.mono ?_
          simp [Expr.callSites]
      | calling call body context before after =>
          refine .pure ?_
          simp only [Gathered.Fewer] at hr
          simp only [Evaluated.Fewer, contextCallSites_concat, ExprFrame.callSites,
            ItemsUse.callSites, Expr.callSites]
          omega
  | methodCall target name args =>
      simp only [eval]
      refine (answers_evalAll [] args).then fun r hr => ?_
      cases r with
      | values vs =>
          refine .bind fun m => ?_
          refine (answers_callMethod target (answers_eval target) name vs m.line).mono fun r hr => ?_
          exact hr.mono (by simp [Expr.callSites])
      | calling call body context before after =>
          refine .pure ?_
          simp only [Gathered.Fewer] at hr
          simp only [Evaluated.Fewer, contextCallSites_concat, ExprFrame.callSites,
            ItemsUse.callSites, Expr.callSites]
          omega
  | typeof operand =>
      have rest : Answers (andThen (eval plain scope operand) .typeof fun v => do
          return .value (.text (v.typeof (← heapView)))) (Evaluated.Fewer operand.callSites) :=
        answers_andThen (answers_eval operand) (Nat.le_refl _) fun v =>
          .bind fun heap => answers_value _
      cases operand with
      | reference name =>
          simp only [eval] at rest ⊢
          exact .bind fun unbound => .ite (answers_value _) rest
      | _ =>
          simp only [eval] at rest ⊢
          exact rest
  | unary op operand =>
      simp only [eval]
      exact answers_andThen (answers_eval operand) (by simp [ExprFrame.callSites, Expr.callSites])
        fun v => answers_value _
  | binary op left right =>
      simp only [eval]
      refine answers_andThen (answers_eval left) (by simp [ExprFrame.callSites, Expr.callSites])
        fun v => ?_
      refine (answers_afterLeft op v (answers_eval right)).mono fun r hr => hr.mono ?_
      simp [Expr.callSites]

theorem answers_evalAll (before : List Value) (items : List Expr) :
    Answers (evalAll plain scope before items) (Gathered.Fewer (Expr.callSitesAll items)) := by
  cases items with
  | nil =>
      simp only [evalAll]
      exact .pure trivial
  | cons e rest =>
      simp only [evalAll]
      refine (answers_eval e).then fun r hr => ?_
      cases r with
      | value v =>
          refine (answers_evalAll (before ++ [v]) rest).mono fun r hr => ?_
          cases r with
          | values vs => trivial
          | calling call body context before after =>
              simp only [Gathered.Fewer, Expr.callSitesAll] at hr ⊢
              omega
      | calling call body context =>
          refine .pure ?_
          simp only [Evaluated.Fewer, Gathered.Fewer, Expr.callSitesAll] at hr ⊢
          omega

theorem answers_evalEntries (before : List (String × Value)) (entries : List (String × Expr)) :
    Answers (evalEntries plain scope before entries)
      (GatheredEntries.Fewer (Expr.callSitesEntries entries)) := by
  rcases entries with _ | ⟨⟨key, e⟩, rest⟩
  · simp only [evalEntries]
    exact .pure trivial
  · simp only [evalEntries]
    refine (answers_eval e).then fun r hr => ?_
    cases r with
    | value v =>
        refine (answers_evalEntries (Datum.setField key v before) rest).mono fun r hr => ?_
        cases r with
        | fields fs => trivial
        | calling call body context before key after =>
            simp only [GatheredEntries.Fewer, Expr.callSitesEntries] at hr ⊢
            omega
    | calling call body context =>
        refine .pure ?_
        simp only [Evaluated.Fewer, GatheredEntries.Fewer, Expr.callSitesEntries] at hr ⊢
        omega

end

/-! ## Calls that a context can still make -/

theorem answers_useItems (use : ItemsUse) (vs : List Value) :
    Answers (useItems plain scope use vs) (Evaluated.Fewer use.callSites) := by
  cases use with
  | array => exact answers_done _
  | call name line => exact .bind fun n => answers_callNamed name vs n
  | method target name line =>
      exact .bind fun n => answers_callMethod target (answers_eval target) name vs n
  | console method => exact .bind fun _ => answers_value _
  | construct keyword name => exact .bind fun id => .bind fun _ => answers_value _

theorem answers_evalItems (use : ItemsUse) (before : List Value) (items : List Expr) :
    Answers (evalItems plain scope use before items)
      (Evaluated.Fewer (use.callSites + Expr.callSitesAll items)) := by
  refine (answers_evalAll before items).then fun r hr => ?_
  cases r with
  | values vs =>
      exact (answers_useItems use vs).mono fun r hr => hr.mono (Nat.le_add_right ..)
  | calling call body context before after =>
      refine .pure ?_
      simp only [Gathered.Fewer] at hr
      simp only [Evaluated.Fewer, contextCallSites_concat, ExprFrame.callSites]
      omega

theorem answers_fillOne (place : ExprFrame) (v : Value) :
    Answers (fillOne plain scope place v) (Evaluated.Fewer place.callSites) := by
  cases place with
  | items use before after => exact answers_evalItems use (before ++ [v]) after
  | entry before key after =>
      refine (answers_evalEntries (Datum.setField key v before) after).then fun r hr => ?_
      cases r with
      | fields fs => exact answers_done _
      | calling call body context before key after =>
          refine .pure ?_
          simpa [Evaluated.Fewer, contextCallSites_concat, ExprFrame.callSites,
            GatheredEntries.Fewer] using hr
  | property name => exact answers_done _
  | typeof => exact .bind fun heap => answers_value _
  | unary op => exact answers_value _
  | left op right => exact answers_afterLeft op v (answers_eval right)
  | right op left => exact .bind fun heap => .bind fun v => answers_value v
  | receiver target method args line => exact answers_callOn target method args line v

/-- The calls that a context makes are those that it can still make. -/
theorem answers_fill (context : List ExprFrame) (v : Value) :
    Answers (fill plain scope context v) (Evaluated.Fewer (contextCallSites context)) := by
  induction context generalizing v with
  | nil => exact answers_value _
  | cons place outer ih =>
      have sites : contextCallSites (place :: outer) = place.callSites + contextCallSites outer :=
        rfl
      refine (answers_fillOne place v).then fun r hr => ?_
      cases r with
      | value v' => exact (ih v').mono fun r hr => hr.mono (by omega)
      | calling call body context =>
          refine .pure ?_
          simp only [Evaluated.Fewer] at hr ⊢
          rw [contextCallSites_append]
          omega

end Act

/-! ## Tasks in the queues -/

/-- The weight of the tasks in the queues. -/
def Session.queued (s : Session) : Nat :=
  20 * s.store.state.loop.timers.length + 10 * s.store.state.loop.callbacks.length +
    10 * s.store.state.loop.microtasks.length

/-- From `s` to `t` nothing has happened to tasks and timers. -/
structure Session.Undisturbed (s t : Session) : Prop where
  loop : t.store.state.loop = s.store.state.loop
  clock : t.clock = s.clock

namespace Act

variable {α : Type} {s : Session}

/-- Code without any licence. -/
theorem Coded.undisturbed {act : Act α} (h : Coded record ⟨false, false, false, false⟩ act)
    (s : Session) :
    Ends act s (fun _ t => s.Undisturbed t) (fun _ t => s.Undisturbed t) := by
  refine h.keeps ⟨?_, ?_, ?_, ?_, ?_⟩ s ⟨rfl, rfl⟩
  · intro _ t c edits h
    refine ⟨?_, (Session.publish_clock ..).trans h.clock⟩
    rw [Session.publish_store]
    exact (edits.loop rfl rfl rfl).trans h.loop
  · intro t g _ h
    exact ⟨h.loop, h.clock⟩
  · intro t bodies notices h
    exact ⟨h.loop, h.clock⟩
  · intro may
    cases may
  · intro may
    cases may

end Act

theorem Session.Undisturbed.queued {s t : Session} (h : s.Undisturbed t) : t.queued = s.queued := by
  unfold Session.queued
  rw [h.loop]

/-! ## Work gets lighter -/

def Progress.weight : Progress → Nat
  | .paused work => work.weight
  | .ended => 0

theorem Session.said_queued (s : Session) (text : String) : (s.said text).queued = s.queued := by
  unfold Session.queued Session.said
  rw [Session.publish_store]
  rfl

/-- A task that is taken is lighter than it was in its queue. -/
theorem Taken.lighter {s t : Session} {round : Round} {ran : Bool} {p : Progress}
    (h : Taken s round ran p t) :
    p.weight + t.queued < s.queued ∧ t.clock = s.clock ∨
      t = s ∧ p.weight ≤ (if ran then 0 else 1) ∧ s.store.state.loop.microtasks = [] ∧
        (round = .first → s.store.state.loop.callbacks = []) := by
  cases h with
  | microtask queue =>
      refine .inl ⟨?_, (Session.publish_clock ..).trans (Session.publish_clock ..)⟩
      rw [Session.said_queued, Session.queued, Session.queued, Session.publish_store]
      simp only [Store.nextMicrotask, queue, Store.setLoop, Progress.weight, Work.weight,
        Work.passWeight, List.length_cons]
      omega
  | callback none queue =>
      refine .inl ⟨?_, (Session.publish_clock ..).trans (Session.publish_clock ..)⟩
      rw [Session.said_queued, Session.queued, Session.queued, Session.publish_store]
      simp only [Store.nextCallback, queue, Store.setLoop, Progress.weight, Work.weight,
        Work.passWeight, List.length_cons]
      omega
  | nothing none rest => exact .inr ⟨rfl, Nat.zero_le _, none, fun first => (rest first).1⟩
  | idle none empty => exact .inr ⟨rfl, Nat.le_refl _, none, fun _ => empty⟩

/-- The weight of the call that an instruction waits for, and of its waiting. -/
def Executed.weight : Executed → Nat
  | .done _ => 0
  | .calling _ _ context finish => 4 + 3 * contextCallSites context + Work.finishWeight finish

namespace Act

variable {s : Session}

/-- A promise that has got its value queues a microtask. -/
theorem ends_finishWith (scope : String) (finish : Finish) (v : Value) :
    Ends (finishWith plain scope finish v) s
      (fun _ t => t.queued ≤ s.queued + Work.finishWeight finish ∧ t.clock = s.clock)
      (fun _ _ => True) := by
  have others (h : finish.queues = false) : Ends (finishWith plain scope finish v) s
      (fun _ t => t.queued ≤ s.queued + Work.finishWeight finish ∧ t.clock = s.clock)
      (fun _ _ => True) := by
    have coded : Coded record ⟨false, false, false, false⟩ (finishWith plain scope finish v) :=
      coded_finishWith scope (by simp [h]) v
    refine (coded.undisturbed s).mono (fun _ t ht => ⟨?_, ht.clock⟩) fun _ _ _ => trivial
    rw [ht.queued]
    exact Nat.le_add_right ..
  cases finish with
  | promise callback params =>
      unfold finishWith
      rw [ends_bind, ends_change]
      refine Ends.mono (((coded_info _).bind fun _ => .pure none).undisturbed _) ?_ fun _ _ _ =>
        trivial
      intro _ t ht
      refine ⟨?_, ht.clock.trans (Session.publish_clock ..)⟩
      rw [ht.queued, Session.queued, Session.queued, Session.publish_store]
      simp only [Store.addMicrotask, Store.setLoop, List.length_append, List.length_singleton,
        Work.finishWeight]
      omega
  | _ => exact others rfl

/-- Whatever waits for a call is lighter when it waits for the next one. -/
theorem ends_goOn (scope : String) (context : List ExprFrame) (finish : Finish) (v : Value) :
    Ends (goOn plain scope context finish v) s
      (fun r t => r.weight + t.queued ≤
          1 + 3 * contextCallSites context + Work.finishWeight finish + s.queued ∧
        t.clock = s.clock)
      (fun _ _ => True) := by
  unfold goOn
  rw [ends_bind]
  refine (((coded_fill scope context v).undisturbed s).and (answers_fill context v s)).mono ?_
    fun _ _ _ => trivial
  rintro r t ⟨still, fewer⟩
  cases r with
  | value w =>
      unfold conclude
      rw [ends_bind]
      refine (ends_finishWith scope finish w).mono ?_ fun _ _ _ => trivial
      rintro returned u ⟨le, clock⟩
      rw [still.queued] at le
      refine ⟨?_, clock.trans still.clock⟩
      simp only [Executed.weight]
      omega
  | calling call body rest =>
      refine ⟨?_, still.clock⟩
      simp only [Evaluated.Fewer] at fewer
      simp only [Executed.weight, still.queued]
      omega

/-- Whoever gets the value of a call is lighter than the call was. -/
theorem ends_deliver (callers : List Caller) (base : Base) (v : Value) :
    Ends (deliver plain callers base v) s
      (fun p t => p.weight + t.queued <
          1 + total (callers.map Work.callerWeight) + Work.baseWeight base + s.queued ∧
        t.clock = s.clock)
      (fun _ _ => True) := by
  cases callers with
  | cons caller outer =>
      unfold deliver
      rw [ends_bind]
      refine (ends_inside (ends_goOn ..)).mono ?_ fun _ _ _ => trivial
      rintro r t ⟨le, clock⟩
      cases r <;> refine ⟨?_, clock⟩ <;>
        simp only [Executed.weight, Progress.weight, Work.weight, Work.pointWeight, List.map_cons,
          total, Work.callerWeight] at le ⊢ <;>
        omega
  | nil =>
      cases base with
      | program scope context finish =>
          unfold deliver
          rw [ends_bind]
          refine (ends_goOn ..).mono ?_ fun _ _ _ => trivial
          rintro r t ⟨le, clock⟩
          cases r <;> refine ⟨?_, clock⟩ <;>
            simp only [Executed.weight, Progress.weight, Work.weight, Work.pointWeight,
              List.map_nil, total, Work.baseWeight] at le ⊢ <;>
            omega
      | microtask round =>
          refine ⟨?_, rfl⟩
          simp only [Progress.weight, Work.weight, Work.passWeight, Work.baseWeight, List.map_nil,
            total]
          omega
      | callback =>
          refine ⟨?_, rfl⟩
          simp only [Progress.weight, Work.weight, Work.passWeight, Work.baseWeight, List.map_nil,
            total]
          omega

theorem ends_leave (call : Call) (callers : List Caller) (base : Base) (v : Value) :
    Ends (leave plain call callers base v) s
      (fun p t => p.weight + t.queued <
          1 + total (callers.map Work.callerWeight) + Work.baseWeight base + s.queued ∧
        t.clock = s.clock)
      (fun _ _ => True) := by
  show Ends (leaving plain call callers >>= fun _ => deliver plain callers base v) s _ _
  rw [ends_bind]
  refine ((coded_leaving call callers).undisturbed s).mono ?_ fun _ _ _ => trivial
  rintro _ t still
  refine (ends_deliver callers base v).mono ?_ fun _ _ _ => trivial
  rintro p u ⟨lt, clock⟩
  rw [still.queued] at lt
  exact ⟨lt, clock.trans still.clock⟩

theorem ends_startTask (task : Task) {base : Base} (light : Work.baseWeight base = 4) :
    Ends (startTask plain task base) s
      (fun p t => p.weight + t.queued < 8 + s.queued ∧ t.clock = s.clock) (fun _ _ => True) := by
  unfold startTask
  rw [ends_bind, ends_get, ends_bind]
  refine ((coded_invoke ..).undisturbed s).mono ?_ fun _ _ _ => trivial
  intro call t still
  refine ⟨?_, still.clock⟩
  simp only [Progress.weight, Work.weight, Work.pointWeight, List.map_nil, total, light,
    still.queued]
  omega

theorem ends_taking (round : Round) (ran : Bool) {n : Nat} (heavy : if ran then 0 < n else 1 < n) :
    Ends (takeMicrotask plain round ran) s
      (fun p t => p.weight + t.queued < n + s.queued ∧ t.clock = s.clock) (fun _ _ => True) := by
  refine (ends_takeMicrotask round ran).mono ?_ fun _ _ never => never.elim
  intro p t taken
  rcases taken.lighter with ⟨lt, clock⟩ | ⟨rfl, least, -⟩
  · exact ⟨Nat.lt_of_lt_of_le lt (Nat.le_add_left ..), clock⟩
  · refine ⟨Nat.add_lt_add_right (Nat.lt_of_le_of_lt least ?_) _, rfl⟩
    cases ran <;> exact heavy

/-- A segment that counts no step leaves less to be done. -/
theorem ends_lighter (work : Work) :
    Ends (runSegment plain work) s
      (fun p t => t.count = s.count →
        p.weight + t.queued < work.weight + s.queued ∧ t.clock = s.clock)
      (fun _ _ => True) := by
  -- with the call goes at least the weight of the point that it stood at
  have left (call : Call) (point : Point) (callers : List Caller) (base : Base) (v : Value)
      {t : Session} (still : s.Undisturbed t) :
      Ends (leave plain call callers base v) t
        (fun p u => p.weight + u.queued <
            (Work.inCall call point callers base).weight + s.queued ∧ u.clock = s.clock)
        (fun _ _ => True) := by
    refine (ends_leave call callers base v).mono ?_ fun _ _ _ => trivial
    rintro p u ⟨lt, clock⟩
    rw [still.queued] at lt
    refine ⟨Nat.lt_of_lt_of_le lt ?_, clock.trans still.clock⟩
    have point : 1 ≤ Work.pointWeight point := by cases point <;> simp [Work.pointWeight]
    simp only [Work.weight]
    omega
  -- an instruction that is executed is counted
  have counting {act : Handler → Act Progress} {n : Nat} (executes : Executes act s) :
      Ends (act (perform plain)) s
        (fun p t => t.count = s.count → p.weight + t.queued < n ∧ t.clock = s.clock)
        (fun _ _ => True) := by
    refine executes.ends.mono ?_ fun _ _ _ => trivial
    rintro p t ⟨counted, -⟩ same
    omega
  have anyhow {act : Act Progress} {t : Session} {n : Nat}
      (h : Ends act t (fun p u => p.weight + u.queued < n ∧ u.clock = s.clock) fun _ _ => True) :
      Ends act t (fun p u => u.count = s.count → p.weight + u.queued < n ∧ u.clock = s.clock)
        (fun _ _ => True) :=
    h.mono (fun _ _ lighter _ => lighter) fun _ _ h => h
  cases work with
  | instruction i => exact counting (executes_instruction i s)
  | inCall call point callers base =>
      cases point with
      | entered body =>
          have compiles : Coded record ⟨false, false, false, false⟩
              (inside plain (call :: openCalls callers) (instructionsOf body)) :=
            coded_inside _ (.compile body)
          rcases run : ((inside plain (call :: openCalls callers) (instructionsOf body)).run s :
            Except Fault (List Instruction) × Session) with ⟨fault | _ | ⟨i, rest⟩, t⟩
          · exact .of_run (y := throw fault) (run_bind_error run) trivial
          · have still := (compiles.undisturbed s).of_ok run
            exact .of_run (run_bind_ok run)
              (anyhow (left call (.entered body) callers base .undefined still))
          · exact counting (executes_entered run)
      | between returned rest =>
          cases returned with
          | some v => exact anyhow (left call (.between (some v) rest) callers base v ⟨rfl, rfl⟩)
          | none =>
              cases rest with
              | nil =>
                  exact anyhow (left call (.between none []) callers base .undefined ⟨rfl, rfl⟩)
              | cons i rest => exact counting (executes_runBody call callers base i rest s)
  | pass => exact anyhow (ends_taking .first false (by decide))
  | atPass point =>
      cases point with
      | beforeMicrotask task round => exact anyhow (ends_startTask task rfl)
      | beforeCallback task => exact anyhow (ends_startTask task rfl)
      | afterMicrotask round => exact anyhow (ends_taking round true (show 0 < 4 by decide))
      | afterCallback => exact anyhow (ends_taking .last true (by decide))
      | idle => exact fun _ => ⟨Nat.add_lt_add_right (by decide) _, rfl⟩

end Act

end Runloop
