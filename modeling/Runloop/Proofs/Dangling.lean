/-
# No reference dangles

Between two segments every value is grounded that a session holds, and also every
one that its unit of work holds (`Session.Anchored`): in the places of an
expression that wait for a call, in a value that was returned, in a task that was
taken from its queue.  Whatever is done with a program keeps it so
(`Anchored.drive`), and so it holds in every session that the program can come to
(`no_reference_dangles`).
-/
import Runloop.Proofs.References

namespace Runloop

namespace Act

variable {ids : List String} {α : Type} {P : List String → α → Prop} {s : Session}

/-! ## Driving a program -/

/-- However the computation ends, the session is grounded, and nothing was taken off
its heap. -/
theorem Grounds.after {act : Act α} (h : Grounds ids act P) (grounded : s.Grounded [])
    (there : ids ⊆ s.store.heapIds) :
    (act.run s).2.Grounded [] ∧ s.store.heapIds ⊆ (act.run s).2.store.heapIds := by
  have ends := (h s grounded there).mono (fun _ _ after => after.1) fun _ _ after => after
  exact Ends.after (P := fun t => t.Grounded [] ∧ s.store.heapIds ⊆ t.store.heapIds) ends

theorem grounds_fire (id : String) : Grounds ids (fire plain id) fun _ _ => True := by
  refine Grounds.seq (.change fun store _ grounded _ => ?_) fun _ _ _ => .pure fun _ _ => trivial
  have r := requeues_moveToCallbacks store id
  rw [r.heapIds]
  exact ⟨r.grounded grounded, fun _ hid => hid, trivial⟩

theorem grounds_setSpeed (speed : Int) : Grounds ids (setSpeed plain speed) fun _ _ => True :=
  .aside fun _ _ => ⟨rfl, rfl, rfl, rfl⟩

theorem grounds_setPhase (phase : Phase) : Grounds ids (setPhase plain phase) fun _ _ => True :=
  Grounds.seq (.drive (fun _ => rfl) fun _ => rfl) fun _ _ _ => grounds_setExecution _ _

theorem grounds_closeUnit : Grounds ids (closeUnit plain) fun _ _ => True := by
  refine grounds_machine.bind fun m _ _ _ => ?_
  refine Grounds.seq (.drive (fun _ => rfl) fun _ => rfl) fun _ _ _ => ?_
  cases m.unit with
  | none => exact .pure fun _ _ => trivial
  | some u =>
      refine .ite ?_ (.pure fun _ _ => trivial)
      refine (grounds_abandon u.work).bind fun fault _ _ _ => ?_
      cases fault with
      | none => exact .pure fun _ _ => trivial
      | some fault => exact .throw fault

theorem grounds_finish : Grounds ids (finish plain) fun _ _ => True := by
  refine grounds_closeUnit.seq fun _ _ _ => ?_
  refine Grounds.seq (.drive (fun _ => rfl) fun _ => rfl) fun _ _ _ => ?_
  refine (grounds_setCurrentLine _).seq fun _ _ _ => ?_
  exact (grounds_setExecution _ _).seq fun _ _ _ => grounds_info _

theorem grounds_stop : Grounds ids (stop plain) fun _ _ => True := by
  refine grounds_machine.bind fun m _ _ _ => .ite (.pure fun _ _ => trivial) ?_
  refine grounds_closeUnit.seq fun _ _ _ => ?_
  refine Grounds.seq (.drive (fun _ => rfl) fun _ => rfl) fun _ _ _ => ?_
  refine (grounds_setExecution _ _).seq fun _ _ _ => ?_
  refine .drive (fun m => ?_) fun m => ?_
  · split
    · rfl
    · rfl
  · split
    · rfl
    · rfl

theorem grounds_afterSegment_error (u : UnitOfWork) (generation : Nat) (fault : Fault) :
    Grounds ids (afterSegment plain u generation (.error fault)) fun _ _ => True := by
  have fails : Grounds ids (failUnit plain generation fault) fun _ _ => True := by
    refine grounds_machine.bind fun m _ _ _ => .ite ?_ (.pure fun _ _ => trivial)
    refine Grounds.seq (.drive (fun _ => rfl) fun _ => rfl) fun _ _ _ => ?_
    exact (grounds_error _).seq fun _ _ _ => grounds_finish
  exact fails.seq fun _ _ _ => .pure fun _ _ => trivial

end Act

/-! ## Between two segments -/

/-- Every value that a session holds is grounded, and so is every one that its unit of
work holds. -/
structure Session.Anchored (s : Session) : Prop where
  grounded : s.Grounded []
  work : ∀ u ∈ s.machine.unit, u.work.Grounded s.store.heapIds

namespace Session

variable {s t : Session} {why fault : Option Fault}

theorem begun_anchored (s : Session) (program : List Instruction) : (s.begun program).Anchored where
  grounded :=
    { store :=
        { numbered := rfl
          objects := by simp [begun, cleared, Store.cleared, Store.empty, Store.createScope,
            Store.pushFrame, Store.setScopes, Store.setStack]
          scopes := by
            rw [begun_scopes]
            exact List.forall_mem_singleton.mpr fun _ hb => absurd hb List.not_mem_nil
          tasks := by simp [begun, cleared, Store.cleared, Store.empty, Store.createScope,
            Store.pushFrame, Store.setScopes, Store.setStack, EventLoop.tasks] }
      detached := by simp [begun, cleared]
      receivers := by simp [begun, cleared] }
  work := by simp [begun, cleared]

namespace Anchored

/-- The unit of work is left alone or given up. -/
theorem keep (h : s.Anchored) (after : t.Grounded [] ∧ s.store.heapIds ⊆ t.store.heapIds)
    (unit : t.machine.unit = s.machine.unit ∨ t.machine.unit = none) : t.Anchored := by
  refine ⟨after.1, fun u hu => ?_⟩
  rcases unit with same | none
  · rw [same] at hu
    exact (h.work u hu).mono after.2
  · rw [none] at hu
    cases hu

/-- A segment of the unit of work leaves other work, or ends it. -/
theorem advance {u : UnitOfWork} (h : s.Anchored) (hu : s.machine.unit = some u)
    (waits : u.running = false) : ((Act.advance Act.plain).run s).2.Anchored := by
  have working : (s.working u).Grounded [] :=
    ⟨h.grounded.store, h.grounded.detached, h.grounded.receivers⟩
  have segment := Act.grounds_runSegment (h.work u hu) (s.working u) working fun _ hid => hid
  have untouched := (Act.coded_plainSegment u.work).untouched (s.working u)
  rw [Act.run_advance hu waits]
  -- a fault ends the program; an answer may leave other work, whose values the segment vouches for
  rcases run : ((Act.runSegment Act.plain u.work).run (s.working u) :
    Except Fault Progress × Session) with ⟨fault | progress, t⟩
  · have after := segment.of_error run
    obtain ⟨_, t', run', -, -, -, none, -⟩ :=
      (Act.ends_afterSegment_error fault (untouched.of_error run).driven).exists_ok
    have ends := (Act.grounds_afterSegment_error u s.machine.generation fault).after after.1
      fun _ hid => hid
    rw [run'] at ends
    dsimp only
    rw [run']
    exact ⟨ends.1, by simp [none]⟩
  · obtain ⟨⟨after, grows⟩, answer⟩ := segment.of_ok run
    have grounded (unit : Option UnitOfWork) : (t.holding unit).Grounded [] :=
      ⟨after.store, after.detached, after.receivers⟩
    dsimp only
    rw [Act.run_afterSegment_ok (untouched.of_ok run).driven]
    cases progress with
    | paused work =>
        refine ⟨grounded _, ?_⟩
        rintro u' ⟨⟩
        exact answer
    | ended => exact ⟨grounded none, by simp [holding]⟩

/-- Whatever is done with a program, no reference is left without its object. -/
theorem drive (h : s.Anchored) (standing : Standing why s) (after : Standing (fault.or why) t)
    (d : Drive s fault t) : t.Anchored := by
  cases d with
  | time clock => exact ⟨⟨h.grounded.store, h.grounded.detached, h.grounded.receivers⟩, h.work⟩
  | fire id =>
      refine h.keep ((Act.grounds_fire id).after h.grounded fun _ hid => hid) (.inl ?_)
      unfold Act.fire
      rw [Act.run_bind, Act.run_change rfl]
      exact congrArg Machine.unit (publish_machine ..)
  | speed speed =>
      refine h.keep ((Act.grounds_setSpeed speed).after h.grounded fun _ hid => hid) (.inl ?_)
      unfold Act.setSpeed
      rw [Act.run_change rfl]
      exact congrArg Machine.unit (publish_machine ..)
  | @phase phase _ _ =>
      refine h.keep ((Act.grounds_setPhase phase).after h.grounded fun _ hid => hid) (.inl ?_)
      obtain ⟨_, t, run, -, machine⟩ := (Act.ends_setPhase phase).exists_ok
      rw [run]
      exact (congrArg Machine.unit machine :)
  | seat gate openings runActive =>
      exact ⟨⟨h.grounded.store, h.grounded.detached, h.grounded.receivers⟩, h.work⟩
  | take _ _ =>
      rw [Act.run_nextUnit]
      refine ⟨⟨h.grounded.store, h.grounded.detached, h.grounded.receivers⟩, ?_⟩
      rintro u ⟨⟩
      unfold Act.upcoming
      split
      · trivial
      · trivial
  | advance on hu => exact h.advance hu ((standing.steady on).waits _ hu)
  | finish _ hu =>
      refine h.keep (Act.grounds_finish.after h.grounded fun _ hid => hid) (.inr ?_)
      obtain ⟨_, t, run, -, -, none, -⟩ := (Act.ends_finish hu).exists_ok
      rw [run]
      exact none
  | stop =>
      refine h.keep (Act.grounds_stop.after h.grounded fun _ hid => hid) ?_
      by_cases idle : s.phase = .idle
      · -- a program that has not begun is not stopped
        have same : (Act.stop Act.plain).run s = (.ok ⟨⟩, s) := by
          unfold Act.stop
          rw [Act.run_machine_bind, if_pos (by simp [show s.machine.phase = _ from idle])]
          rfl
        rw [same]
        exact .inl rfl
      · obtain ⟨_, t, run, -, ended⟩ := (Act.ends_stop standing.steady).exists_ok
        rw [run] at after ⊢
        exact .inr (after.ended (ended idle)).1

end Anchored

end Session

theorem Reached.anchored {why : Option Fault} {s : Session} (h : Reached why s) : s.Anchored := by
  induction h with
  | load _ unit run =>
      obtain ⟨-, rfl⟩ := Act.init_eq unit run
      exact Session.begun_anchored _ _
  | drive before d ih => exact ih.drive before.standing (before.drive d).standing d

/-- No reference dangles.  In every session that a program can come to between two
segments, a variable of a scope, open or closed, an item of an array or a field of an
object, an argument of a task in a queue and a receiver of an open call is a scalar or
the reference of an object on the heap; and so is every value that the unit of work
keeps.  What an object is known to refer to is on the heap, is noted once, and includes
all that occurs in the object itself. -/
theorem no_reference_dangles {why : Option Fault} {s : Session} (h : Reached why s) :
    (∀ scope ∈ s.store.state.scopes ++ s.machine.detached.map (·.2), ∀ b ∈ scope.bindings,
      b.2.value.Grounded s.store.heapIds) ∧
    (∀ o ∈ s.store.state.heap, o.payload.Built s.store.heapIds ∧
      (∀ id ∈ o.references, id ∈ s.store.heapIds) ∧ o.references.Nodup ∧
      ∀ id, o.payload.Holds id → id ∈ o.references) ∧
    (∀ task ∈ s.store.state.loop.tasks, ∀ v ∈ task.spec.args, v.Grounded s.store.heapIds) ∧
    (∀ v ∈ s.machine.receivers, v.Grounded s.store.heapIds) ∧
    ∀ u ∈ s.machine.unit, u.work.Grounded s.store.heapIds := by
  obtain ⟨⟨store, detached, receivers⟩, work⟩ := h.anchored
  refine ⟨?_, ?_, store.tasks, receivers, work⟩
  · intro scope hs
    rcases List.mem_append.mp hs with live | closed
    · exact store.scopes scope live
    · obtain ⟨p, hp, rfl⟩ := List.mem_map.mp closed
      exact detached p hp
  · intro o ho
    obtain ⟨payload, known, once, noted⟩ := store.objects o ho
    exact ⟨payload, known, once, fun id hid => (noted id hid).resolve_right List.not_mem_nil⟩

/-- An array that holds itself after a call has added it, while a task waits that
takes it along. -/
def Session.entangled : Session :=
  .running ("let a = [];\nfunction add(p) \x7b a.push(p); return a; \x7d\n" ++
    "Promise.resolve(add(a)).then(r => r);") {} 7

/-- All that is named there is on the heap: by the array itself, by the scope of the
call that has ended, and by the task. -/
theorem entangled_grounded :
    Session.entangled.store.state.heap.map (fun o => (o.id, o.references)) =
      [("ref_1", []), ("ref_2", ["ref_2"])] ∧
    Session.entangled.store.state.loop.tasks.length = 1 ∧
    Session.entangled.machine.detached.length = 1 ∧
    (∀ scope ∈ Session.entangled.machine.detached.map (·.2), ∀ b ∈ scope.bindings,
      b.2.value.Grounded ["ref_1", "ref_2"]) ∧
    ∀ task ∈ Session.entangled.store.state.loop.tasks, ∀ v ∈ task.spec.args,
      v.Grounded ["ref_1", "ref_2"] := by
  obtain ⟨loads, heap, queued, closed⟩ :
      (Session.loading ("let a = [];\nfunction add(p) \x7b a.push(p); return a; \x7d\n" ++
        "Promise.resolve(add(a)).then(r => r);") {}).1 = .ok (.bool true) ∧
      Session.entangled.store.state.heap.map (fun o => (o.id, o.references)) =
        [("ref_1", []), ("ref_2", ["ref_2"])] ∧
      Session.entangled.store.state.loop.tasks.length = 1 ∧
      Session.entangled.machine.detached.length = 1 := by
    decide +kernel
  obtain ⟨why, reached⟩ : Session.entangled.Live := Session.running_live 7 loads
  obtain ⟨scopes, -, tasks, -, -⟩ := no_reference_dangles reached
  have ids : Session.entangled.store.heapIds = ["ref_1", "ref_2"] := by
    have first := congrArg (List.map Prod.fst) heap
    rwa [List.map_map] at first
  rw [ids] at scopes tasks
  refine ⟨heap, queued, closed, ?_, tasks⟩
  exact fun scope hs => scopes scope (List.mem_append_right _ hs)

end Runloop
