/-
# Calls that fail

A fault that comes up in a call ends the call, and every call around it in turn, on its way
out.  Each of them gives back what it had opened: the scopes that are open when the fault
has left a call are those that were open before the call.

There is one gap.  The scope of a call is opened before its receiver is shown, and only
after that is the call one that will be left.  So where the receiver of a method cannot be
shown, what was opened for the call stays open (`Session.leftBehind`).  What is said here
of every call that fails is exact about that: nothing else is ever left behind
(`failed_calls_restore`).
-/
import Runloop.Proofs.Commands
import Runloop.Proofs.Opening

namespace Runloop

/-! ## Where code runs -/

/-- Code runs, with these calls open: in the middle of a segment of a run. -/
def Session.Executing (b : Session) (calls : List Call) : Prop :=
  ∃ why s u, Reached why s ∧ s.machine.unit = some u ∧
    Moves ⟨s.working u, u.work.calls, []⟩ ⟨b, calls, []⟩

theorem Reached.working {why : Option Fault} {s : Session} {u : UnitOfWork} (h : Reached why s)
    (hu : s.machine.unit = some u) : Sound ⟨s.working u, u.work.calls, []⟩ := by
  have on : s.phase ≠ .completed := fun completed =>
    absurd (hu.symm.trans (h.standing.ended completed).1) (by simp)
  exact (h.steady on).working hu

theorem Session.Executing.sound {b : Session} {calls : List Call} (h : b.Executing calls) :
    Sound ⟨b, calls, []⟩ := by
  obtain ⟨why, s, u, reached, hu, moves⟩ := h
  exact (reached.working hu).moves moves

/-- The scopes that are open depend on the open calls only. -/
theorem Held.scopes_eq {b t : Session} {calls : List Call} {spilt : List String}
    (hb : Held b calls []) (ht : Held t calls spilt) :
    t.store.scopeIds = b.store.scopeIds ++ spilt := by
  rw [ht.scopes, hb.scopes, List.append_nil]

namespace Act

variable {s : Session} {calls : List Call}

/-! ## Calls that are not entered -/

section Invoke

variable {f : FunctionValue} {args : List Value} {name : String} {line : Int}
  {receiver : Option Value} {id : String}

theorem leftBehind_of_deep (deep : s.machine.limits.callDepth ≤ s.machine.depth)
    (closure : Option String) (receiver : Option Value) : s.leftBehind closure receiver = [] := by
  unfold Session.leftBehind
  split
  · exact if_neg (Int.not_lt.mpr deep)
  · rfl

theorem leftBehind_of_shown {thisBinding : String}
    (shown : (receiverText receiver).run (s.opening id name) = (.ok thisBinding, s.opening id name))
    (closure : Option String) : s.leftBehind closure receiver = [] := by
  cases receiver with
  | none => rfl
  | some v =>
      have run : (receiverText (some v)).run (s.opening id name) =
          (number (v.display (s.opening id name).store.heapView)).run (s.opening id name) := rfl
      rw [run, heapView_opening] at shown
      unfold Session.leftBehind
      rw [Option.map_some]
      cases displayed : v.display s.store.heapView with
      | ok text => rfl
      | error n =>
          rw [displayed] at shown
          cases shown

/-- A call that fails while its parameters are bound is left. -/
theorem ends_enter_scopeIds (sound : Sound ⟨s, calls, []⟩) (thisBinding : String)
    (hid : id ∈ idsOf (everOpened s.trace))
    (shallow : s.machine.depth < s.machine.limits.callDepth) :
    Ends (inside plain [s.nextCall id line]
        (bindParams plain (s.nextCall id line).scope f.params args))
      (s.entered id name thisBinding line (receiver.getD .undefined)) (fun _ _ => True)
      (fun _ t => t.store.scopeIds = s.store.scopeIds) := by
  have entered := sound.move
    (.enter name thisBinding line (receiver.getD .undefined) hid shallow)
  have params : Moving (s.nextCall id line :: calls) (s.nextCall id line :: calls)
      (fun host => bindParams host (s.nextCall id line).scope f.params args)
      (fun _ => s.nextCall id line :: calls) := moving_bindParams f.params args
  rw [inside, ends_tryCatch]
  refine ((params _ entered).ends.and (ends_bindParams_ids _ f.params args)).mono
    (fun _ _ _ => trivial) ?_
  rintro fault t ⟨⟨spilt, m, -⟩, ids⟩
  have held : Held t ([s.nextCall id line] ++ calls) spilt := (entered.moves m).held
  -- Binding parameters opens no scope, so nothing was spilt.
  have clean : spilt = [] := by
    have same := entered.held.scopes_eq held
    rw [ids] at same
    exact List.append_right_eq_self.mp same.symm
  rw [ends_bind]
  refine .of_answer (run_unwindAll rfl held (some fault)) ?_
  rw [ends_throw]
  have left := sound.held.scopes_eq held.leave
  rwa [clean, List.append_nil] at left

/-- A call that is not entered leaves behind what was opened for it if its receiver cannot
be shown, and otherwise nothing. -/
theorem ends_invoke_scopeIds (sound : Sound ⟨s, calls, []⟩) (callable : s.Callable f receiver) :
    Ends (invoke plain f args name line receiver) s (fun _ _ => True)
      (fun _ t => t.store.scopeIds = s.store.scopeIds ++ s.leftBehind f.closure receiver) := by
  have sc := sound.placed rfl
  obtain ⟨id, hid, hc⟩ := callable_knows sc callable
  by_cases deep : s.machine.limits.callDepth ≤ s.machine.depth
  · refine .of_run (run_invoke_of_deep plain deep) (y := throw (.halt .callDepth)) ?_
    rw [ends_throw, leftBehind_of_deep deep, List.append_nil]
  have shallow := Int.not_le.mp deep
  obtain ⟨part, nested, -⟩ := sc.reopened hid
  obtain ⟨-, -, -, counters⟩ := sc.restored part nested
  have walk : (invoke plain f args name line receiver).run s = _ :=
    run_invoke rfl deep hc (sc.parent_eq hid) counters
  obtain ⟨r, shown, unshown⟩ := run_receiverText (s := s.opening id (callName name)) receiver
  cases r with
  | error fault =>
      obtain ⟨v, hv, n, rfl, displayed⟩ := unshown fault rfl
      obtain rfl := Option.mem_def.mp hv
      rw [heapView_opening] at displayed
      refine .of_run (walk.trans (run_enterCall_of_error shown _ _)) (y := throw (.number n)) ?_
      rw [ends_throw, hc, leftBehind_of_error displayed shallow, (sc.opening _ hid).2]
  | ok thisBinding =>
      refine .of_run (walk.trans (run_enterCall rfl shown)) ?_
      rw [leftBehind_of_shown shown, List.append_nil, ends_bind]
      exact (ends_enter_scopeIds sound thisBinding hid shallow).mono (fun _ _ _ => trivial)
        fun _ _ h => h

end Invoke

/-! ## Inner calls by themselves

A fault leaves the open calls from the innermost one outward.  What the inner ones of them
come to is read off work that ends where they end. -/

section Inner

variable {α β : Type} {outer : List Call}

/-- Where `x` faults, `y` faults likewise, and then leaves the outer calls. -/
def FailsInside (outer calls : List Call) (x y : Act α) : Prop :=
  ∀ s, Sound ⟨s, calls, []⟩ → ∀ f t, x.run s = (.error f, t) →
    y.run s = (.error f, outer.foldl Session.left t)

theorem FailsInside.pure (a : α) (y : Act α) : FailsInside outer calls (pure a) y := by
  intro s _ f t run
  cases run

/-- A fault leaves the inner calls before it leaves the outer ones. -/
theorem FailsInside.bind {inner : List Call} {body : Host → Act α} {after : α → List Call}
    {k k' : α → Act β} (moving : Moving (inner ++ outer) calls body after)
    (next : ∀ a, FailsInside outer (after a) (k a) (k' a)) :
    FailsInside outer calls (inside plain inner (body plain) >>= k)
      (inside plain (inner ++ outer) (body plain) >>= k') := by
  intro s sound f t run
  have ends := (moving s sound).ends
  unfold Ends at ends
  rw [run_bind, inside, run_tryCatch] at run ⊢
  rcases hrun : ((body plain).run s : Except Fault α × Session) with ⟨fault | a, u⟩
  · rw [hrun] at ends run
    obtain ⟨spilt, m, -⟩ := ends
    have held := (sound.moves m).held
    have quits : ((unwindAll plain inner (some fault)).run u) =
        (.ok (some fault), inner.foldl Session.left u) := run_unwindAll rfl held (some fault)
    have all : Held u ((inner ++ outer) ++ []) spilt := by rwa [List.append_nil]
    have quitsAll : ((unwindAll plain (inner ++ outer) (some fault)).run u) =
        (.ok (some fault), (inner ++ outer).foldl Session.left u) :=
      run_unwindAll rfl all (some fault)
    dsimp only at run ⊢
    rw [run_bind, quits] at run
    rw [run_bind, quitsAll, List.foldl_append]
    cases run
    rfl
  · rw [hrun] at ends run
    exact next a u (sound.moves ends) f t run

theorem openCalls_append (inner callers : List Caller) :
    openCalls (inner ++ callers) = openCalls inner ++ openCalls callers :=
  List.map_append

theorem deliver_fails_inside (inner callers : List Caller) (b : Base) (v : Value) :
    FailsInside (openCalls callers) (openCalls inner ++ openCalls callers)
      (deliver plain inner .callback v) (deliver plain (inner ++ callers) b v) := by
  cases inner with
  | nil => exact .pure _ _
  | cons caller inner =>
      have goes : Moving (openCalls (caller :: inner) ++ openCalls callers)
          (openCalls (caller :: inner) ++ openCalls callers)
          (fun host => goOn host caller.call.scope caller.context caller.finish v)
          (Executed.opened (openCalls (caller :: inner) ++ openCalls callers)) :=
        moving_goOn caller.context caller.finish v
      have all : caller.call :: openCalls (inner ++ callers) =
          (caller.call :: openCalls inner) ++ openCalls callers := by
        rw [openCalls_append, List.cons_append]
      rw [List.cons_append, deliver, deliver, all]
      refine .bind goes fun r => ?_
      cases r with
      | done returned => exact .pure _ _
      | calling call body context finish => exact .pure _ _

theorem leave_fails_inside (call : Call) (inner callers : List Caller) (b : Base) (v : Value) :
    FailsInside (openCalls callers) (call :: openCalls inner ++ openCalls callers)
      (leave plain call inner .callback v) (leave plain call (inner ++ callers) b v) := by
  rw [leave, leave, openCalls_append]
  exact .bind (moving_end call) fun _ => deliver_fails_inside inner callers b v

theorem runBody_fails_inside (call : Call) (inner callers : List Caller) (b : Base)
    (is : List Instruction) :
    FailsInside (openCalls callers) (call :: openCalls inner ++ openCalls callers)
      (runBody plain call inner .callback is) (runBody plain call (inner ++ callers) b is) := by
  cases is with
  | nil => exact leave_fails_inside call inner callers b .undefined
  | cons i rest =>
      have runs : Moving (call :: openCalls inner ++ openCalls callers)
          (call :: openCalls inner ++ openCalls callers)
          (fun host => execute host call.scope i)
          (Executed.opened (call :: openCalls inner ++ openCalls callers)) := moving_execute i
      rw [runBody, runBodyWith, runBodyWith, openCalls_append, ← List.cons_append]
      refine .bind runs fun r => ?_
      cases r with
      | done returned => exact .pure _ _
      | calling inner body context finish => exact .pure _ _

/-- Where the inner calls of work fail by themselves, the work fails just so. -/
theorem inCall_fails_inside (call : Call) (point : Point) (inner callers : List Caller)
    (b : Base) :
    FailsInside (openCalls callers) (call :: openCalls inner ++ openCalls callers)
      (runSegment plain (.inCall call point inner .callback))
      (runSegment plain (.inCall call point (inner ++ callers) b)) := by
  cases point with
  | entered body =>
      have compiles : Moving (call :: openCalls inner ++ openCalls callers)
          (call :: openCalls inner ++ openCalls callers) (fun _ => instructionsOf body)
          (fun _ => call :: openCalls inner ++ openCalls callers) := moving_instructionsOf body
      rw [runSegment, runSegmentWith, runSegmentWith, openCalls_append, ← List.cons_append]
      exact .bind compiles fun is => runBody_fails_inside call inner callers b is
  | between returned rest =>
      cases returned with
      | some v => exact leave_fails_inside call inner callers b v
      | none => exact runBody_fails_inside call inner callers b rest

end Inner

end Act

/-! ## Every call that fails -/

/-- **A call that fails leaves the scopes as they were, but for what its receiver spills.**
Where code runs, a call that is not entered leaves open what was opened for it if its
receiver cannot be shown, and otherwise exactly the scopes that were open.  When a fault has
left a call that had been entered, with all calls inside of it, exactly the scopes are open
that were open before the call, and those that the call of a method left behind, if its
receiver could not be shown and this is the fault; and the fault goes on through the calls
around. -/
theorem failed_calls_restore {b : Session} {outer : List Call} (running : b.Executing outer) :
    (∀ f receiver, b.Callable f receiver → ∀ args name line fault t,
      (Act.invoke Act.plain f args name line receiver).run b = (.error fault, t) →
        t.store.scopeIds = b.store.scopeIds ++ b.leftBehind f.closure receiver) ∧
    ∀ why s u, Reached why s → s.machine.unit = some u → ∀ call point inner callers base,
      u.work = .inCall call point (inner ++ callers) base → Act.openCalls callers = outer →
      ∀ fault t, (Act.runSegment Act.plain (.inCall call point inner .callback)).run
          (s.working u) = (.error fault, t) →
        (∃ spilt, t.store.scopeIds = b.store.scopeIds ++ spilt ∧
          (spilt = [] ∨ ∃ c calls f id n, Moves ⟨s.working u, u.work.calls, []⟩ ⟨c, calls, []⟩ ∧
            c.Callable f (some (.ref id)) ∧ fault = .number n ∧
            (Value.ref id).display c.store.heapView = .error n ∧
            spilt = c.leftBehind f.closure (some (.ref id)))) ∧
        (Act.runSegment Act.plain u.work).run (s.working u) =
          (.error fault, outer.foldl Session.left t) := by
  refine ⟨fun f receiver callable args name line fault t run => ?_, ?_⟩
  · exact (Act.ends_invoke_scopeIds running.sound callable).of_error run
  · intro why s u h hu call point inner callers base work around fault t run
    subst around
    have sound := h.working hu
    have calls : u.work.calls = call :: Act.openCalls inner ++ Act.openCalls callers := by
      rw [work, Work.calls, Act.openCalls_append, List.cons_append]
    have fits : Base.callback.FitsIn (Act.openCalls callers) := trivial
    rw [calls] at sound
    obtain ⟨spilt, m, excused⟩ :=
      ((Act.moving_inCall _ call point inner fits) _ sound).ends.of_error run
    rw [← calls] at excused
    refine ⟨⟨spilt, running.sound.held.scopes_eq (sound.moves m).held, excused⟩, ?_⟩
    rw [work]
    exact Act.inCall_fails_inside call point inner callers base _ sound fault t run

/-! ### Two calls, and no third one -/

namespace Session

/-- The fault with which the innermost of the open calls fails by itself, and what it
leaves. -/
def innerFault? (s : Session) : Option (Fault × Session) :=
  match s.machine.unit with
  | some ⟨serial, .inCall call point callers base, running⟩ =>
    match ((Act.runSegment Act.plain (.inCall call point [] .callback)).run
        (s.working ⟨serial, .inCall call point callers base, running⟩) :
          Except Fault Progress × Session) with
    | (.error fault, t) => some (fault, t)
    | (.ok _, _) => none
  | _ => none

/-- A function that calls another one, where no third call is allowed. -/
def nesting (n : Nat) : Session :=
  .running ("let arr = [];\nlet o = \x7b arr: arr, m: function() \x7b \x7d \x7d;\n" ++
    "function g() \x7b o.m(); \x7d\nfunction f() \x7b g(); \x7d\nf();") { callDepth := 2 } n

/-- The session with other items in an array. -/
def refilled (s : Session) (id : String) (items : List Value) : Session :=
  match s.store.updateHeapValue id (.list items) with
  | .error _ => s
  | .ok c => s.publish c

theorem Executing.refilled {s : Session} {calls : List Call} (h : s.Executing calls)
    (id : String) (items : List Value) : (s.refilled id items).Executing calls := by
  obtain ⟨why, s₀, u, reached, hu, moves⟩ := h
  refine ⟨why, s₀, u, reached, hu, ?_⟩
  unfold Session.refilled
  split
  · exact moves
  · exact moves.tail (.deed (.aside (aside_updateHeapValue ‹_›)))

/-- In the function, after an integer was pushed that is too long to be shown. -/
def overfilled : Session :=
  match (nesting 6).machine.unit with
  | none => nesting 6
  | some u => ((nesting 6).working u).refilled "ref_3" [.number (.int (tenPow 4300))]

theorem nesting_live (n : Nat) : (nesting n).Live := running_live n (by decide +kernel)

/-- What calling the method comes to. -/
def overfilledCall : Option (Fault × Session) :=
  match overfilled.functionOf? (.ref "ref_4") with
  | none => none
  | some f =>
    match ((Act.invoke Act.plain f [] "m" 3 (some (.ref "ref_5"))).run overfilled :
        Except Fault Call × Session) with
    | (.error fault, t) => some (fault, t)
    | (.ok _, _) => none

theorem innerFault?_eq_some {s t : Session} {fault : Fault} (h : s.innerFault? = some (fault, t)) :
    ∃ u call point callers base, s.machine.unit = some u ∧
      u.work = .inCall call point callers base ∧
      (Act.runSegment Act.plain (.inCall call point [] .callback)).run (s.working u) =
        (.error fault, t) := by
  unfold innerFault? at h
  split at h
  · split at h
    · cases h
      exact ⟨_, _, _, _, _, ‹_›, rfl, ‹_›⟩
    · cases h
  · cases h

theorem overfilledCall_eq_some {t : Session} {fault : Fault}
    (h : overfilledCall = some (fault, t)) :
    ∃ f, overfilled.functionOf? (.ref "ref_4") = some f ∧
      (Act.invoke Act.plain f [] "m" 3 (some (.ref "ref_5"))).run overfilled =
        (.error fault, t) := by
  unfold overfilledCall at h
  split at h
  · cases h
  · rename_i f found
    split at h
    · rename_i run
      cases h
      exact ⟨f, found, run⟩
    · cases h

theorem overfilled_executing : overfilled.Executing (nesting 6).calls := by
  obtain ⟨why, h⟩ := nesting_live 6
  have one : (nesting 6).calls.length = 1 := by decide +kernel
  unfold overfilled
  cases hu : (nesting 6).machine.unit with
  | none =>
      rw [calls, hu] at one
      cases one
  | some u =>
      have calls : (nesting 6).calls = u.work.calls := by rw [calls, hu]; rfl
      rw [calls]
      exact Executing.refilled ⟨why, nesting 6, u, h, hu, .refl⟩ _ _

end Session

/-- The second call is halted when it calls the method, and the scopes are those of the
first one again.  If the method is called where its object cannot be shown, its scope stays
open. -/
theorem nesting_restores :
    (∃ t, (Session.nesting 7).innerFault? = some (.halt .callDepth, t) ∧
      t.store.scopeIds = ["scope_1", "scope_2"]) ∧
    (∃ t, Session.overfilledCall = some (.number .tooManyDigits, t) ∧
      t.store.scopeIds = ["scope_1", "scope_2", "scope_3"]) := by
  obtain ⟨why, h⟩ := Session.nesting_live 7
  obtain ⟨halts, around⟩ : (Session.nesting 7).innerFault?.map (·.1) = some (.halt .callDepth) ∧
      (Session.nesting 7).calls.tail = (Session.nesting 6).calls := by
    decide +kernel
  obtain ⟨scopes, left, fails⟩ : Session.overfilled.store.scopeIds = ["scope_1", "scope_2"] ∧
      (Session.overfilled.functionOf? (.ref "ref_4")).map (fun f =>
        Session.overfilled.leftBehind f.closure (some (.ref "ref_5"))) = some ["scope_3"] ∧
      Session.overfilledCall.map (·.1) = some (.number .tooManyDigits) := by
    decide +kernel
  obtain ⟨opening, within⟩ := failed_calls_restore Session.overfilled_executing
  constructor
  · obtain ⟨⟨fault, t⟩, found, rfl⟩ := Option.map_eq_some_iff.mp halts
    obtain ⟨u, call, point, callers, base, hu, work, run⟩ := Session.innerFault?_eq_some found
    rw [Session.calls, hu, Option.elim_some, work] at around
    obtain ⟨⟨spilt, ids, excuse⟩, -⟩ :=
      within why _ u h hu call point [] callers base work around _ t run
    have none : spilt = [] := by
      refine excuse.resolve_right ?_
      rintro ⟨c, calls, f, id, n, -, -, ⟨⟩, -⟩
    refine ⟨t, found, ?_⟩
    rw [ids, none, scopes, List.append_nil]
  · obtain ⟨⟨fault, t⟩, found, rfl⟩ := Option.map_eq_some_iff.mp fails
    obtain ⟨f, hf, run⟩ := Session.overfilledCall_eq_some found
    have behind : Session.overfilled.leftBehind f.closure (some (.ref "ref_5")) = ["scope_3"] := by
      rw [hf] at left
      exact Option.some.inj left
    refine ⟨t, found, ?_⟩
    rw [opening f _ (.method "ref_5" hf) [] "m" 3 _ t run, behind, scopes]
    rfl

end Runloop
