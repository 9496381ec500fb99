/-
# Computations on a session, read backwards

A computation on a session ends with an answer or with a fault, and either way
it leaves a session behind.  `Act.Ends act s Q E` says so about one start `s`:
the answer and the session after it satisfy `Q`, the fault and the session
after it satisfy `E`.  There is one rule for each way of building a
computation, so that a property of a block of code comes apart into properties
of its lines.  Where one preorder `R` bounds what happens, whether there is a
fault or not, the rules are those of `Act.Within R`.

When nobody but the journal listens (`Host.plain`), a change of the store is
the new store together with its events in the journal (`Session.publish`), and
that is all it is.
-/
import Mathlib.Order.Defs.Unbundled
import Runloop.Run

namespace Runloop

namespace Act

variable {α β : Type} {s : Session} {E : Fault → Session → Prop}

/-- From `s` the computation ends with an answer for which `Q` holds, or with
a fault for which `E` holds. -/
def Ends (act : Act α) (s : Session) (Q : α → Session → Prop) (E : Fault → Session → Prop) :
    Prop :=
  match (act.run s : Except Fault α × Session) with
  | (.ok a, t) => Q a t
  | (.error f, t) => E f t

theorem Ends.mono {act : Act α} {Q Q' : α → Session → Prop} {E' : Fault → Session → Prop}
    (h : Ends act s Q E) (hQ : ∀ a t, Q a t → Q' a t) (hE : ∀ f t, E f t → E' f t) :
    Ends act s Q' E' := by
  unfold Ends at *
  split at h
  · exact hQ _ _ h
  · exact hE _ _ h

theorem Ends.and {act : Act α} {Q Q' : α → Session → Prop} {E' : Fault → Session → Prop}
    (h : Ends act s Q E) (h' : Ends act s Q' E') :
    Ends act s (fun a t => Q a t ∧ Q' a t) (fun f t => E f t ∧ E' f t) := by
  unfold Ends at *
  rcases hrun : (act.run s : Except Fault α × Session) with ⟨_ | _, t⟩
  · rw [hrun] at h h'
    exact ⟨h, h'⟩
  · rw [hrun] at h h'
    exact ⟨h, h'⟩

/-- Only the run of a computation counts. -/
theorem Ends.of_run {x y : Act α} {t : Session} {Q : α → Session → Prop}
    (run : x.run s = y.run t) (h : Ends y t Q E) : Ends x s Q E := by
  unfold Ends at *
  rwa [run]

theorem Ends.of_answer {act : Act α} {Q : α → Session → Prop} {a : α} {t : Session}
    (run : act.run s = (.ok a, t)) (h : Q a t) : Ends act s Q E := by
  unfold Ends
  rw [run]
  exact h

/-- The answer and the fault are those of the run. -/
theorem Ends.of_self (act : Act α) (s : Session) :
    Ends act s (fun a t => act.run s = (.ok a, t)) (fun f t => act.run s = (.error f, t)) := by
  unfold Ends
  split <;> assumption

/-- What holds at every end holds of the answer that the computation gives. -/
theorem Ends.of_ok {act : Act α} {Q : α → Session → Prop} {a : α} {t : Session}
    (h : Ends act s Q E) (run : act.run s = (.ok a, t)) : Q a t := by
  unfold Ends at h
  rw [run] at h
  exact h

theorem Ends.of_error {act : Act α} {Q : α → Session → Prop} {f : Fault} {t : Session}
    (h : Ends act s Q E) (run : act.run s = (.error f, t)) : E f t := by
  unfold Ends at h
  rw [run] at h
  exact h

/-- A computation that never faults has an answer. -/
theorem Ends.exists_ok {act : Act α} {Q : α → Session → Prop}
    (h : Ends act s Q fun _ _ => False) : ∃ a t, act.run s = (.ok a, t) ∧ Q a t := by
  unfold Ends at h
  split at h <;> rename_i run
  · exact ⟨_, _, run, h⟩
  · exact h.elim

/-- A property of the session alone, however the computation ends. -/
theorem Ends.after {act : Act α} {P : Session → Prop}
    (h : Ends act s (fun _ t => P t) (fun _ t => P t)) : P (act.run s).2 := by
  unfold Ends at h
  split at h <;> rename_i run <;> rw [run] <;> exact h

theorem Ends.of_after {act : Act α} {P : Session → Prop} (h : P (act.run s).2) :
    Ends act s (fun _ t => P t) (fun _ t => P t) := by
  unfold Ends
  split <;> rename_i run <;> rw [run] at h <;> exact h

/-! ## One rule for each way of building a computation -/

@[simp]
theorem ends_pure {a : α} {Q : α → Session → Prop} : Ends (pure a : Act α) s Q E ↔ Q a s :=
  Iff.rfl

@[simp]
theorem ends_throw {f : Fault} {Q : α → Session → Prop} :
    Ends (throw f : Act α) s Q E ↔ E f s :=
  Iff.rfl

@[simp]
theorem ends_get {Q : Session → Session → Prop} : Ends (get : Act Session) s Q E ↔ Q s s :=
  Iff.rfl

@[simp]
theorem ends_set {t : Session} {Q : PUnit → Session → Prop} :
    Ends (set t : Act PUnit) s Q E ↔ Q ⟨⟩ t :=
  Iff.rfl

@[simp]
theorem ends_modify {f : Session → Session} {Q : PUnit → Session → Prop} :
    Ends (modify f : Act PUnit) s Q E ↔ Q ⟨⟩ (f s) :=
  Iff.rfl

theorem run_bind {x : Act α} {f : α → Act β} :
    (x >>= f).run s =
      match (x.run s : Except Fault α × Session) with
      | (.ok a, t) => (f a).run t
      | (.error e, t) => (.error e, t) := by
  show (match (x.run s : Except Fault α × Session) with
    | (r, t) => ExceptT.bindCont f r t) = _
  rcases (x.run s : Except Fault α × Session) with ⟨_ | _, t⟩ <;> rfl

theorem run_bind_ok {x : Act α} {f : α → Act β} {a : α} {t : Session}
    (run : x.run s = (.ok a, t)) : (x >>= f).run s = (f a).run t := by
  rw [run_bind, run]

theorem run_bind_error {x : Act α} {f : α → Act β} {fault : Fault}
    (h : x.run s = (.error fault, t)) : (x >>= f).run s = (.error fault, t) := by
  rw [run_bind, h]

theorem run_get_bind {f : Session → Act β} : (get >>= f).run s = (f s).run s := rfl

@[simp]
theorem ends_bind {x : Act α} {f : α → Act β} {Q : β → Session → Prop} :
    Ends (x >>= f) s Q E ↔ Ends x s (fun a t => Ends (f a) t Q E) E := by
  unfold Ends
  rw [run_bind]
  rcases (x.run s : Except Fault α × Session) with ⟨_ | _, t⟩ <;> rfl

theorem run_tryCatch {x : Act α} {h : Fault → Act α} :
    (tryCatch x h).run s =
      match (x.run s : Except Fault α × Session) with
      | (.ok a, t) => (.ok a, t)
      | (.error e, t) => (h e).run t := by
  rw [ExceptT.run_tryCatch]
  show StateT.bind x.run _ s = _
  simp only [StateT.bind]
  rcases (x.run s : Except Fault α × Session) with ⟨_ | _, t⟩ <;> rfl

@[simp]
theorem ends_tryCatch {x : Act α} {h : Fault → Act α} {Q : α → Session → Prop} :
    Ends (tryCatch x h) s Q E ↔ Ends x s Q (fun f t => Ends (h f) t Q E) := by
  unfold Ends
  rw [run_tryCatch]
  rcases (x.run s : Except Fault α × Session) with ⟨_ | _, t⟩ <;> rfl

/-- A computation for every member of a list keeps what each single one keeps. -/
theorem ends_forM {I : Session → Prop} {f : α → Act PUnit} :
    ∀ {l : List α} {s : Session}, (∀ a ∈ l, ∀ s, I s → Ends (f a) s (fun _ t => I t) E) →
      I s → Ends (l.forM f) s (fun _ t => I t) E
  | [], _, _, hs => hs
  | a :: l, s, h, hs => by
      rw [List.forM_eq_forM, List.forM_cons, ends_bind]
      refine (h a List.mem_cons_self s hs).mono (fun _ t ht => ?_) (fun _ _ he => he)
      exact ends_forM (fun b hb => h b (List.mem_cons_of_mem _ hb)) ht

/-- A loop is its first turn and, if that asks for more and the rank goes down,
the loop again. -/
theorem run_loop {rank : Session → Rank} {body : Act Bool} :
    (loop rank body).run s =
      match (body.run s : Except Fault Bool × Session) with
      | (.error fault, t) => (.error fault, t)
      | (.ok false, t) => (.ok ⟨⟩, t)
      | (.ok true, t) => if (rank t).lt (rank s) then (loop rank body).run t else (.ok ⟨⟩, t) := by
  unfold loop
  simp only [ExceptT.run]
  rw [descend]
  rcases (body s : Except Fault Bool × Session) with ⟨fault | again, t⟩
  · rfl
  · cases again with
    | false => rfl
    | true => rfl

/-- What holds of a session if it holds of all of lower rank holds of all. -/
theorem rank_induction (rank : Session → Rank) {P : Session → Prop}
    (lower : ∀ s, (∀ t, (rank t).lt (rank s) = true → P t) → P s) (s : Session) : P s := by
  suffices ∀ r : Nat × Nat × Nat, ∀ s, (rank s).triple = r → P s from this _ s rfl
  intro r
  induction r using WellFounded.induction
      (Prod.lex ⟨_, Nat.lt_wfRel.wf⟩ (Prod.lex ⟨_, Nat.lt_wfRel.wf⟩ ⟨_, Nat.lt_wfRel.wf⟩)).wf with
  | _ r ih =>
      rintro s rfl
      exact lower s fun t lt => ih _ (Rank.lex_of_lt lt) t rfl

/-- A loop keeps what every turn of it keeps; `Q` holds when it is over, also
when it is over because the rank did not go down. -/
theorem ends_loop {rank : Session → Rank} {body : Act Bool} {I Q : Session → Prop}
    (turn : ∀ s, I s → Ends body s (fun again t => if again then I t else Q t) E)
    (giveUp : ∀ s, I s → Q s) (hs : I s) : Ends (loop rank body) s (fun _ t => Q t) E := by
  induction s using rank_induction rank with
  | lower s ih =>
      have next := turn s hs
      unfold Ends at next ⊢
      rw [run_loop]
      rcases run : (body.run s : Except Fault Bool × Session) with ⟨fault | again, t⟩
      · rw [run] at next
        exact next
      · rw [run] at next
        cases again with
        | false => exact next
        | true =>
            have ht : I t := next
            by_cases lt : (rank t).lt (rank s) = true
            · simp only [if_pos lt]
              exact ih t lt ht
            · simp only [if_neg lt]
              exact giveUp t ht

/-- Loops whose turns run alike run alike, as long as a turn keeps what makes
the next one run alike. -/
theorem run_loop_congr {rank : Session → Rank} {x y : Act Bool} {I : Session → Prop}
    (alike : ∀ s, I s → x.run s = y.run s)
    (turn : ∀ s, I s → Ends y s (fun again t => again = true → I t) fun _ _ => True) (hs : I s) :
    (loop rank x).run s = (loop rank y).run s := by
  induction s using rank_induction rank with
  | lower s ih =>
      have next := turn s hs
      unfold Ends at next
      rw [run_loop, run_loop, alike s hs]
      rcases run : (y.run s : Except Fault Bool × Session) with ⟨fault | again, t⟩
      · rfl
      · cases again with
        | false => rfl
        | true =>
            rw [run] at next
            by_cases lt : (rank t).lt (rank s) = true
            · simp only [if_pos lt]
              exact ih t lt (next rfl)
            · simp only [if_neg lt]

end Act

/-! ## Changes that only the journal hears of -/

namespace Session

/-- The session with an event in its journal, and in its console if it is a
line of it. -/
def noted (s : Session) (e : Event) : Session :=
  let s := { s with journal := e :: s.journal }
  match e with
  | .console entry => if s.attached then { s with lines := entry :: s.lines } else s
  | _ => s

/-- The session after a change of its store that is told to the journal. -/
def publish {α : Type} (s : Session) (c : Change α) : Session :=
  c.events.foldl noted { s with store := c.store }

section Noted

variable (s : Session) (e : Event) (l : List Event)

@[simp] theorem noted_journal : (s.noted e).journal = e :: s.journal := by
  unfold noted
  cases e with
  | console entry =>
      dsimp only
      split
      · rfl
      · rfl
  | _ => rfl

theorem noted_eq : ∃ lines, s.noted e = { s with journal := e :: s.journal, lines } := by
  cases e with
  | console entry =>
      by_cases h : s.attached
      · exact ⟨entry :: s.lines, by simp [noted, h]⟩
      · exact ⟨s.lines, by simp [noted, h]⟩
  | _ => exact ⟨s.lines, rfl⟩

theorem foldl_noted_eq :
    ∃ lines, l.foldl noted s = { s with journal := l.reverse ++ s.journal, lines } := by
  induction l generalizing s with
  | nil => exact ⟨s.lines, rfl⟩
  | cons e l ih =>
      obtain ⟨lines, h⟩ := noted_eq s e
      obtain ⟨lines', h'⟩ := ih { s with journal := e :: s.journal, lines }
      exact ⟨lines', by simp [h, h']⟩

end Noted

section Publish

variable {α : Type} (s : Session) (c : Change α)

/-- Publishing a change touches the store, the journal and the console only. -/
theorem publish_eq :
    ∃ lines, s.publish c =
      { s with store := c.store, journal := c.events.reverse ++ s.journal, lines } :=
  foldl_noted_eq { s with store := c.store } c.events

@[simp] theorem publish_store : (s.publish c).store = c.store := by
  obtain ⟨lines, h⟩ := publish_eq s c; rw [h]

@[simp] theorem publish_machine : (s.publish c).machine = s.machine := by
  obtain ⟨lines, h⟩ := publish_eq s c; rw [h]

@[simp] theorem publish_hooks : (s.publish c).hooks = s.hooks := by
  obtain ⟨lines, h⟩ := publish_eq s c; rw [h]

@[simp] theorem publish_attached : (s.publish c).attached = s.attached := by
  obtain ⟨lines, h⟩ := publish_eq s c; rw [h]

@[simp] theorem publish_clock : (s.publish c).clock = s.clock := by
  obtain ⟨lines, h⟩ := publish_eq s c; rw [h]

@[simp] theorem publish_journal : (s.publish c).journal = c.events.reverse ++ s.journal := by
  obtain ⟨lines, h⟩ := publish_eq s c; rw [h]

end Publish

end Session

namespace Act

/-- Code whose events go to the journal and nowhere else. -/
def plain : Host := .standard record

variable {α : Type} {s : Session} {E : Fault → Session → Prop}

theorem run_forM_record (l : List Event) :
    (l.forM record).run s = (.ok ⟨⟩, l.foldl Session.noted s) := by
  induction l generalizing s with
  | nil => rfl
  | cons e l ih => exact ih (s := s.noted e)

/-- A change of the store, told to whoever only records. -/
theorem run_change {host : Host} (quiet : host.tell = record) (f : Store → Double → Change α) :
    (change host f).run s = (.ok (f s.store s.now).value, s.publish (f s.store s.now)) := by
  unfold change
  rw [run_get_bind, run_bind]
  show (do (f s.store s.now).events.forM host.tell
           return (f s.store s.now).value : Act α).run
             { s with store := (f s.store s.now).store } = _
  rw [run_bind, quiet, run_forM_record]
  rfl

/-- A change that may not be possible, told to whoever only records. -/
theorem run_change? {host : Host} (quiet : host.tell = record)
    (f : Store → Except StoreFault (Change α)) :
    (change? host f).run s =
      match f s.store with
      | .ok c => (.ok c.value, s.publish c)
      | .error fault => (.error (.store fault), s) := by
  unfold change?
  rw [run_get_bind]
  cases f s.store with
  | error fault => rfl
  | ok c =>
      show (do set { s with store := c.store }
               c.events.forM host.tell
               return c.value : Act α).run s = _
      rw [run_bind]
      show (do c.events.forM host.tell
               return c.value : Act α).run { s with store := c.store } = _
      rw [run_bind, quiet, run_forM_record]
      rfl

theorem run_log (type : String) (args : List String) :
    (log plain type args).run s = (.ok ⟨⟩, s.publish (s.store.logConsole type args s.now)) :=
  run_change rfl _

@[simp]
theorem ends_change {f : Store → Double → Change α} {Q : α → Session → Prop} :
    Ends (change plain f) s Q E ↔ Q (f s.store s.now).value (s.publish (f s.store s.now)) := by
  unfold Ends
  rw [run_change rfl]

@[simp]
theorem ends_change? {f : Store → Except StoreFault (Change α)} {Q : α → Session → Prop} :
    Ends (change? plain f) s Q E ↔
      match f s.store with
      | .ok c => Q c.value (s.publish c)
      | .error fault => E (.store fault) s := by
  unfold Ends
  rw [run_change? rfl]
  cases f s.store <;> rfl

@[simp]
theorem ends_modifyMachine {f : Machine → Machine} {Q : PUnit → Session → Prop} :
    Ends (modifyMachine f) s Q E ↔ Q ⟨⟩ { s with machine := f s.machine } :=
  Iff.rfl

@[simp]
theorem ends_machine {Q : Machine → Session → Prop} : Ends machine s Q E ↔ Q s.machine s :=
  Iff.rfl

theorem run_machine_bind {β : Type} {f : Machine → Act β} :
    (machine >>= f).run s = (f s.machine).run s :=
  rfl

@[simp]
theorem ends_store {Q : Store → Session → Prop} : Ends store s Q E ↔ Q s.store s :=
  Iff.rfl

@[simp]
theorem ends_heapView {Q : HeapView → Session → Prop} :
    Ends heapView s Q E ↔ Q s.store.heapView s :=
  Iff.rfl

@[simp]
theorem ends_number {r : Except NumberFault α} {Q : α → Session → Prop} :
    Ends (number r) s Q E ↔
      match r with
      | .ok a => Q a s
      | .error fault => E (.number fault) s := by
  cases r <;> rfl

/-! ## However a computation ends -/

/-- Whether it answers or faults, the computation leads to where `R` leads. -/
def Within (R : Session → Session → Prop) (act : Act α) : Prop :=
  ∀ s, Ends act s (fun _ t => R s t) (fun _ t => R s t)

namespace Within

variable {β : Type} {R S : Session → Session → Prop}

theorem mono {act : Act α} (h : Within R act) (hR : ∀ {s t}, R s t → S s t) : Within S act := by
  intro s
  refine (h s).mono ?_ ?_
  · intro a t ht
    exact hR ht
  · intro f t ht
    exact hR ht

/-- What comes after a move within `R` stays within it. -/
theorem after [IsTrans Session R] {act : Act α} (h : Within R act) {s t : Session} (ht : R s t) :
    Ends act t (fun _ u => R s u) (fun _ u => R s u) := by
  refine (h t).mono ?_ ?_
  · intro a u hu
    exact trans_of R ht hu
  · intro f u hu
    exact trans_of R ht hu

theorem get {f : Session → Act α} (h : ∀ s, Within R (f s)) : Within R (MonadState.get >>= f) :=
  fun s => h s s

theorem machine {f : Machine → Act α} (h : ∀ m, Within R (f m)) : Within R (Act.machine >>= f) :=
  fun s => h s.machine s

theorem ite {c : Prop} [Decidable c] {x y : Act α} (hx : Within R x) (hy : Within R y) :
    Within R (if c then x else y) := by
  split
  · exact hx
  · exact hy

variable [IsPreorder Session R]

theorem pure (a : α) : Within R (Pure.pure a) := fun s => refl_of R s

theorem throw (f : Fault) : Within R (MonadExcept.throw f : Act α) := fun s => refl_of R s

theorem bind {x : Act α} {f : α → Act β} (hx : Within R x) (hf : ∀ a, Within R (f a)) :
    Within R (x >>= f) := by
  intro s
  rw [ends_bind]
  refine (hx s).mono ?_ fun _ _ h => h
  intro a t ht
  exact (hf a).after ht

theorem recover {x : Act α} {h : Fault → Act α} (hx : Within R x) (hh : ∀ f, Within R (h f)) :
    Within R (tryCatch x h) := by
  intro s
  rw [ends_tryCatch]
  refine (hx s).mono (fun _ _ h => h) ?_
  intro f t ht
  exact (hh f).after ht

/-- Something that is done first in one case only. -/
theorem first {c : Prop} [Decidable c] {x : Act β} {y : Act α} (hx : Within R x)
    (hy : Within R y) : Within R (if c then x >>= fun _ => y else y) :=
  .ite (hx.bind fun _ => hy) hy

theorem forM {items : List α} {f : α → Act PUnit} (h : ∀ a, Within R (f a)) :
    Within R (items.forM f) := by
  induction items with
  | nil => exact pure _
  | cons a items ih => exact (h a).bind fun _ => ih

theorem loop {rank : Session → Rank} {body : Act Bool} (h : Within R body) :
    Within R (Act.loop rank body) := by
  intro s
  refine ends_loop (I := R s) ?_ (fun _ ht => ht) (refl_of R s)
  intro t ht
  refine (h.after ht).mono ?_ fun _ _ h => h
  intro again u hu
  rw [ite_self]
  exact hu

end Within

end Act

end Runloop
