/-
# Compiled bodies at hand

A body is compiled when it is first run, and what came of it stays at hand for the next
time, as long as there is room.  A session is honest if what it has at hand is what
compiling gives.  Then it makes no difference which bodies are at hand: code answers the
same, leaves the same behind, and stays honest (`Act.Coded.recalls`).

`Matches` is the general notion: two computations that answer the same on sessions that
are related, and leave related sessions behind.
-/
import Runloop.Proofs.Code

namespace Runloop

/-! ## Computations on related sessions -/

namespace Act

variable {α β : Type} {R : Session → Session → Prop}

/-- On related sessions the computations answer the same, and they leave related sessions
behind. -/
def Matches (R : Session → Session → Prop) (x y : Act α) : Prop :=
  ∀ s t, R s t → (y.run t).1 = (x.run s).1 ∧ R (x.run s).2 (y.run t).2

theorem Matches.pure (a : α) : Matches R (Pure.pure a : Act α) (Pure.pure a) := by
  intro s t related
  exact ⟨rfl, related⟩

theorem Matches.throw (fault : Fault) :
    Matches R (MonadExcept.throw fault : Act α) (MonadExcept.throw fault) := by
  intro s t related
  exact ⟨rfl, related⟩

theorem Matches.bind {x y : Act α} {f g : α → Act β} (first : Matches R x y)
    (next : ∀ a, Matches R (f a) (g a)) : Matches R (x >>= f) (y >>= g) := by
  intro s t related
  obtain ⟨same, after⟩ := first s t related
  rw [run_bind, run_bind]
  rcases hx : (x.run s : Except Fault α × Session) with ⟨r, s'⟩
  rcases hy : (y.run t : Except Fault α × Session) with ⟨r', t'⟩
  rw [hx, hy] at same after
  obtain rfl : r' = r := same
  cases r' with
  | error fault => exact ⟨rfl, after⟩
  | ok a => exact next a s' t' after

theorem Matches.recover {x y : Act α} {h k : Fault → Act α} (first : Matches R x y)
    (next : ∀ fault, Matches R (h fault) (k fault)) :
    Matches R (tryCatch x h) (tryCatch y k) := by
  intro s t related
  obtain ⟨same, after⟩ := first s t related
  rw [run_tryCatch, run_tryCatch]
  rcases hx : (x.run s : Except Fault α × Session) with ⟨r, s'⟩
  rcases hy : (y.run t : Except Fault α × Session) with ⟨r', t'⟩
  rw [hx, hy] at same after
  obtain rfl : r' = r := same
  cases r' with
  | error fault => exact next fault s' t' after
  | ok a => exact ⟨rfl, after⟩

theorem Matches.get {f g : Session → Act α}
    (next : ∀ s t, R s t → Matches R (f s) (g t)) : Matches R (get >>= f) (get >>= g) := by
  intro s t related
  exact next s t related s t related

end Act

/-! ## Honest sessions -/

/-- What compiling a body gives to run. -/
def Body.instructions (b : Body) : Except CompileFault (List Instruction) :=
  b.compile.map (·.instructions)

/-- What is at hand of bodies is what compiling them gives. -/
def Honest (bodies : List (Body × List Instruction)) : Prop :=
  ∀ p ∈ bodies, p.1.instructions = .ok p.2

theorem honest_nil : Honest [] := by
  intro p hp
  cases hp

theorem Honest.cons {bodies : List (Body × List Instruction)} {p : Body × List Instruction}
    (h : Honest bodies) (head : p.1.instructions = .ok p.2) : Honest (p :: bodies) := by
  intro p' hp
  rcases List.mem_cons.mp hp with rfl | hp
  · exact head
  · exact h p' hp

theorem Honest.mono {bodies bodies' : List (Body × List Instruction)} (h : Honest bodies)
    (fewer : bodies' ⊆ bodies) : Honest bodies' :=
  fun p hp => h p (fewer hp)

namespace Session

variable {s t : Session}

/-- The session with other bodies at hand, and with other notices of what was compiled. -/
def recalling (s : Session) (bodies : List (Body × List Instruction)) (notices : List String) :
    Session :=
  { s with bodies, notices }

/-- From `s` to `t` only what is at hand of bodies differs, and both are honest. -/
structure Recalled (s t : Session) : Prop where
  honest : Honest s.bodies
  honest' : Honest t.bodies
  eq : t = s.recalling t.bodies t.notices

theorem Recalled.refl (honest : Honest s.bodies) : s.Recalled s := ⟨honest, honest, rfl⟩

/-- What does not ask which bodies are at hand keeps sessions together. -/
theorem Recalled.map {f : Session → Session} (h : s.Recalled t)
    (apart : ∀ (s : Session) bodies notices,
      f (s.recalling bodies notices) = (f s).recalling bodies notices) :
    (f s).Recalled (f t) := by
  have recalls (s : Session) : (f s).bodies = s.bodies := by
    have same := congrArg Session.bodies (apart s s.bodies s.notices)
    exact same
  have notes (s : Session) : (f s).notices = s.notices := by
    have same := congrArg Session.notices (apart s s.bodies s.notices)
    exact same
  refine ⟨?_, ?_, ?_⟩
  · rw [recalls]
    exact h.honest
  · rw [recalls]
    exact h.honest'
  · rw [recalls, notes, ← apart, ← h.eq]

theorem noted_recalling (s : Session) (e : Event) (bodies : List (Body × List Instruction))
    (notices : List String) :
    (s.recalling bodies notices).noted e = (s.noted e).recalling bodies notices := by
  cases e with
  | console entry =>
      cases listens : s.attached with
      | true => simp [noted, recalling, listens]
      | false => simp [noted, recalling, listens]
  | _ => rfl

theorem publish_recalling {α : Type} (s : Session) (c : Change α)
    (bodies : List (Body × List Instruction)) (notices : List String) :
    (s.recalling bodies notices).publish c = (s.publish c).recalling bodies notices := by
  have told (l : List Event) (s : Session) :
      l.foldl noted (s.recalling bodies notices) =
        (l.foldl noted s).recalling bodies notices := by
    induction l generalizing s with
    | nil => rfl
    | cons e l ih => rw [List.foldl_cons, List.foldl_cons, noted_recalling, ih]
  exact told c.events { s with store := c.store }

theorem Recalled.publish {α : Type} (h : s.Recalled t) (c : Change α) :
    (s.publish c).Recalled (t.publish c) :=
  h.map (f := fun s => s.publish c) fun s => s.publish_recalling c

theorem Recalled.store (h : s.Recalled t) : t.store = s.store :=
  (congrArg Session.store h.eq :)

theorem Recalled.now (h : s.Recalled t) : t.now = s.now :=
  (congrArg Session.now h.eq :)

theorem Recalled.machine (h : s.Recalled t) : t.machine = s.machine :=
  (congrArg Session.machine h.eq :)

theorem Recalled.restored (h : s.Recalled t) (scopes : List Scope) :
    (s.restored scopes).Recalled (t.restored scopes) := by
  induction scopes generalizing s t with
  | nil => exact h
  | cons c scopes ih =>
      have first : (s.publish (s.store.restoreScope c)).Recalled
          (t.publish (t.store.restoreScope c)) := by
        rw [h.store]
        exact h.publish _
      exact ih first

theorem Recalled.reopened (h : s.Recalled t) (closure : Option String) :
    t.reopened closure = s.reopened closure := by
  rw [Session.reopened, h.store, h.machine]
  rfl

end Session

/-! ## Code does not see which bodies are at hand -/

namespace Act

open Session (Recalled)

variable {α : Type} {l : Licence} {s t : Session}

/-- What is answered about the instructions of a body. -/
def answerFor (body : Body) : Except Fault (List Instruction) :=
  body.instructions.mapError .compilation

/-- An honest session answers what compiling gives, whatever is at hand, and stays honest. -/
theorem run_instructionsOf (body : Body) (honest : Honest s.bodies) :
    ∃ bodies notices, Honest bodies ∧
      (instructionsOf body).run s = (answerFor body, s.recalling bodies notices) := by
  rw [instructionsOf, run_get_bind]
  cases found : s.bodies.find? (·.1 == body) with
  | some known =>
      -- a body that is known moves to the front; one that is not may push the oldest out
      have member := List.mem_of_find?_eq_some found
      obtain rfl : known.1 = body := by simpa using List.find?_some found
      have kept := honest.mono (List.filter_subset_self (p := (·.1 != known.1)) s.bodies)
      refine ⟨_, s.notices, kept.cons (honest _ member), ?_⟩
      rw [answerFor, honest _ member]
      rfl
  | none =>
      rw [answerFor, Body.instructions]
      cases compiled : body.compile with
      | error fault => exact ⟨s.bodies, s.notices, honest, rfl⟩
      | ok c =>
          refine ⟨_, _, (honest.mono (List.take_subset _ _)).cons ?_, rfl⟩
          rw [Body.instructions, compiled]
          rfl

theorem recalls_instructionsOf (body : Body) :
    Matches Recalled (instructionsOf body) (instructionsOf body) := by
  intro s t h
  obtain ⟨bodies, notices, honest, run⟩ := run_instructionsOf body h.honest
  obtain ⟨bodies', notices', honest', run'⟩ := run_instructionsOf body h.honest'
  rw [run, run', h.eq]
  exact ⟨rfl, honest, honest', rfl⟩

theorem recalls_change {f : Store → Double → Change α} :
    Matches Recalled (change plain f) (change plain f) := by
  intro s t h
  rw [run_change rfl, run_change rfl, h.store, h.now]
  exact ⟨rfl, h.publish _⟩

theorem recalls_change? {f : Store → Except StoreFault (Change α)} :
    Matches Recalled (change? plain f) (change? plain f) := by
  intro s t h
  rw [run_change? rfl, run_change? rfl, h.store]
  cases f s.store with
  | error fault => exact ⟨rfl, h⟩
  | ok c => exact ⟨rfl, h.publish c⟩

theorem recalls_modifyMachine (g : Machine → Machine) :
    Matches Recalled (modifyMachine g) (modifyMachine g) := by
  intro s t h
  exact ⟨rfl, h.map (f := fun s => { s with machine := g s.machine }) fun _ _ _ => rfl⟩

/-- Which bodies are at hand makes no difference to code, on honest sessions. -/
theorem Coded.recalls {act : Act α} (h : Coded record l act) : Matches Recalled act act := by
  induction h with
  | pure a => exact .pure a
  | throw fault => exact .throw fault
  | bind _ _ ihx ihf => exact ihx.bind ihf
  | recover _ _ ihx ihh => exact ihx.recover ihh
  | @look α f _ _ apart ih =>
      refine .get fun s t h => ?_
      rw [h.eq]
      exact (apart s t.bodies t.notices).symm ▸ ih s
  | change g _ _ => exact recalls_change.bind fun a => .pure (g a)
  | change? g _ _ => exact recalls_change?.bind fun a => .pure (g a)
  | @note g _ _ _ => exact recalls_modifyMachine g
  | reattach closure =>
      intro s t h
      rw [run_reattach rfl, run_reattach rfl, h.reopened]
      exact ⟨rfl, h.restored _⟩
  | detach scope =>
      rw [Act.detach]
      exact recalls_change?.bind fun closed => recalls_modifyMachine _
  | compile body => exact recalls_instructionsOf body
  | timer wait id _ =>
      intro s t h
      exact ⟨rfl, h.map (f := fun s => s.timing wait id) fun _ _ _ => rfl⟩
  | count _ => exact recalls_change
  | take _ _ => exact recalls_change

end Act

end Runloop
