/-
# Names are read off the program text

Scopes are closed when their call returns, kept, opened again when a function
that closes over them is called, and closed once more; and a name is looked up
by scanning the open ones.  Over every run of every program this comes to the
same as never closing a scope and walking from child to parent
(`names_are_lexical`): no operation of a driver can tell the machine from a
reader, so the code never asks for a name or a parent where the two would
differ.

The order of the open scopes that makes this work, each inside an older one, is
there as long as code runs.  It can be lost in one way only, when a program is
ended because the receiver of a call could not be shown: then the scopes that
were opened for the call stay open, and they hang in the air unless they lie in
the global one.
-/
import Runloop.Proofs.Commands

namespace Runloop

/-- Every open scope but the global one lies in a scope that stands before it. -/
def Session.Inward (s : Session) : Prop :=
  ∀ before c after, s.store.state.scopes = before ++ c :: after → c.id ≠ Store.scopeId 1 →
    ∃ p ∈ idsOf before, c.parent = some p

section Inward

variable {s : Session} {calls : List Call} {spilt : List String}

/-- The global scope stands first. -/
theorem Held.global_first (h : Held s calls spilt) :
    ∃ c rest, s.store.state.scopes = c :: rest ∧ c.id = Store.scopeId 1 := by
  have scopes : s.store.state.scopes.map (·.id) = Store.scopeId 1 :: (openIds calls ++ spilt) :=
    h.scopes
  cases hs : s.store.state.scopes with
  | nil => simp [hs] at scopes
  | cons c rest =>
      rw [hs, List.map_cons] at scopes
      exact ⟨c, rest, rfl, (List.cons.inj scopes).1⟩

theorem Scoped.inward (h : Scoped s) (held : Held s calls spilt) : s.Inward := by
  intro before c after scopes hne
  have nested : Nested (c :: before.reverse) := by
    have := h.opened
    rw [scopes, List.reverse_append, List.reverse_cons, List.append_assoc] at this
    exact this.of_append
  generalize ho : before.reverse = older at nested
  cases nested with
  | root none =>
      obtain ⟨g, rest, first, hg⟩ := held.global_first
      rw [first, List.reverse_eq_nil_iff.mp ho] at scopes
      exact absurd ((List.cons.inj scopes).1 ▸ hg) hne
  | @inner _ _ p _ hp mem _ =>
      rw [← ho, idsOf, List.map_reverse, List.mem_reverse] at mem
      exact ⟨p, mem, hp⟩

/-- Where scopes hang together, each one but the first lies in the one before
it. -/
theorem Linked.parent {p : String} {l before after : List Scope} {d c : Scope}
    (h : Linked p l) (hl : l = before ++ d :: c :: after) : c.parent = some d.id := by
  induction before generalizing p l with
  | nil =>
      subst hl
      exact h.2.1
  | cons b before ih =>
      subst hl
      exact ih h.2 rfl

/-- What was spilt lies inward, if the first of it lies in the global scope. -/
theorem Sound.inward_of_second (h : Sound ⟨s, [], spilt⟩)
    (second : ∀ c, s.store.state.scopes[1]? = some c → c.parent = some (Store.scopeId 1)) :
    s.Inward := by
  intro before c after scopes hne
  obtain ⟨g, rest, first, hg⟩ := h.held.global_first
  obtain ⟨p, front, tail, split, ids, linked⟩ := h.strewn.linked
  -- the global scope is all that stands in front of what was spilt
  have tail_eq : rest = tail := by
    have all : idsOf (g :: rest) = Store.scopeId 1 :: spilt := first ▸ h.held.scopes
    have whole : [g] ++ rest = front ++ tail := first.symm.trans split
    have behind := congrArg List.length ((List.cons.inj all).2.trans ids.symm)
    exact (List.append_inj' whole (by simpa using behind)).2
  rw [first] at scopes
  cases before with
  | nil => exact absurd ((List.cons.inj scopes).1 ▸ hg) hne
  | cons g' before =>
      obtain ⟨rfl, hrest⟩ := List.cons.inj scopes
      rcases List.eq_nil_or_concat before with rfl | ⟨before, d, rfl⟩
      · refine ⟨Store.scopeId 1, by simp [hg], second c ?_⟩
        rw [first, hrest]
        rfl
      · have inside : tail = before ++ d :: c :: after := by
          rw [← tail_eq, hrest]
          simp
        exact ⟨d.id, by simp, linked.parent inside⟩

theorem Session.Inward.second (h : s.Inward) (held : Held s calls spilt) {c : Scope}
    (hc : s.store.state.scopes[1]? = some c) : c.parent = some (Store.scopeId 1) := by
  obtain ⟨g, rest, first, hg⟩ := held.global_first
  cases rest with
  | nil => simp [first] at hc
  | cons d rest =>
      rw [first] at hc
      cases hc
      have hne : c.id ≠ Store.scopeId 1 := by
        have nodup := held.nodup
        rw [Store.scopeIds, first, List.map_cons, List.map_cons, hg] at nodup
        exact fun e => (List.nodup_cons.mp nodup).1 (e ▸ List.mem_cons_self)
      obtain ⟨p, hp, parent⟩ := h [g] c rest first hne
      have : p = g.id := List.mem_singleton.mp hp
      rw [parent, this, hg]

end Inward

/-! ## All runs -/

namespace Reached

variable {why : Option Fault} {s : Session}

theorem sound (h : Reached why s) : ∃ spilt, Sound ⟨s, s.calls, spilt⟩ ∧
    (s.phase ≠ .completed ∨ (∀ f ∈ why, f.spills = false) → spilt = []) ∧
    (s.phase = .completed → s.calls = []) := by
  by_cases hph : s.phase = .completed
  · obtain ⟨hu, spilt, sound, clean⟩ := h.standing.ended hph
    have calls : s.calls = [] := Session.calls_of_none hu
    exact ⟨spilt, calls ▸ sound, fun on => clean (on.resolve_left fun hne => hne hph),
      fun _ => calls⟩
  · exact ⟨[], (h.steady hph).sound, fun _ => rfl, fun he => absurd he hph⟩

end Reached

/-- Whatever a driver does with a program goes as if names were read off the
program text, and scopes that are opened again are as they were closed. -/
theorem names_are_lexical {why : Option Fault} {s : Session} (h : Reached why s) :
    (∀ (r : Act.Reader) (c : Control), c.drives = true →
      (Act.control r.host c).run s = s.run fun host => Act.control host c) ∧
    (∀ (r : Act.Reader) (state : RunState),
      (Act.segment r.host state).run s = s.run fun host => Act.segment host state) ∧
    (s.phase ≠ .completed → ∀ id ∈ s.store.scopeIds, ∀ name,
      Session.findOpen s name (some id) = denoted? name (everOpened s.trace) id) ∧
    s.store.scopeIds.Nodup ∧ Faithful s.trace ∧
    ((∀ f ∈ why, f.spills = false) → s.Inward) ∧
    (s.Inward ↔ ∀ c, s.store.state.scopes[1]? = some c → c.parent = some (Store.scopeId 1)) := by
  obtain ⟨spilt, sound, clean, none⟩ := h.sound
  have live : s.Live := ⟨why, h⟩
  refine ⟨fun r c hc => ?_, fun r state => ?_, fun hph id hid name => ?_, sound.held.nodup,
    sound.strewn.faithful, fun ok => ?_, ?_⟩
  · rw [Session.run_eq live.hooks]
    exact Act.control_reader live hc r
  · rw [Session.run_eq live.hooks]
    exact (Act.segment_leads live state).agrees r
  · exact ((sound.placed (clean (.inl hph))).find_eq hid).symm
  · exact (sound.placed (clean (.inr ok))).inward sound.held
  · refine ⟨fun inward c hc => inward.second sound.held hc, fun second => ?_⟩
    by_cases hph : s.phase = .completed
    · exact (none hph ▸ sound : Sound ⟨s, [], spilt⟩).inward_of_second second
    · exact (sound.placed (clean (.inl hph))).inward sound.held

/-- A microtask that runs in the scope of a function that has returned. -/
def Session.reopening : Session :=
  .running ("function outer() \x7b let n = 0; Promise.resolve(1).then(v => console.log(n, v)); \x7d\n" ++
    "outer();") {} 8

/-- The scope is open again, in its place, and its variable is found there. -/
theorem reopening_is_lexical :
    Session.reopening.store.scopeIds = ["scope_1", "scope_2", "scope_3"] ∧
    Session.reopening.Inward ∧
    (denoted? "n" (everOpened Session.reopening.trace) "scope_3").map (·.1) = some "scope_2" := by
  obtain ⟨why, h⟩ : Session.reopening.Live := Session.running_live 8 (by decide +kernel)
  obtain ⟨-, -, reads, -, -, -, inward⟩ := names_are_lexical h
  obtain ⟨on, ids, second, found⟩ : Session.reopening.phase ≠ .completed ∧
      Session.reopening.store.scopeIds = ["scope_1", "scope_2", "scope_3"] ∧
      Session.reopening.store.state.scopes[1]?.bind (·.parent) = some (Store.scopeId 1) ∧
      (Session.findOpen Session.reopening "n" (some "scope_3")).map (·.1) = some "scope_2" := by
    decide +kernel
  refine ⟨ids, inward.mpr fun c hc => ?_, ?_⟩
  · rw [hc] at second
    exact second
  · rw [← reads on "scope_3" (by rw [ids]; simp) "n"]
    exact found

end Runloop
