/-
# What the journal remembers

The journal holds every event.  Its part since the store was last cleared is
the `trace` of the program that is loaded, oldest event first, and the trace
alone says what every scope that was ever opened holds: a scope comes into it
when it is first opened, a write is a write, and closing a scope or opening it
again is no change at all.  On these scopes a name is looked up the way it is
read off the program text: in the scope itself, and else from the scope around
it (`denoted?`).

`Act.lexical` runs code by that reading: nothing it finds depends on which
scopes are open at the moment.  A `Reader` may do anything at all, but wherever
that reading comes to the same as the open scopes do, it must follow them.
-/
import Runloop.Proofs.Computation

namespace Runloop

/-- Whether an event begins a new history. -/
def Event.isReset : Event → Bool
  | .eventLoop .reset _ _ => true
  | _ => false

/-- The events since the store was last cleared, oldest first. -/
def Session.trace (s : Session) : List Event :=
  (s.journal.takeWhile fun e => !e.isReset).reverse

/-- A scope in which a name of the scope `id` was given a binding. -/
def Scope.binding (id name : String) (b : Binding) (scope : Scope) : Scope :=
  if scope.id = id then { scope with bindings := Datum.setField name b scope.bindings } else scope

/-- What an event adds to the scopes that were ever opened, latest first. -/
def noteScope (known : List Scope) : Event → List Scope
  | .scopes .create (some scope) _ _ =>
    if scope.id ∈ known.map (·.id) then known else scope :: known
  | .scopes .addVariable (some scope) _ (some name)
  | .scopes .updateVariable (some scope) _ (some name) =>
    (scope.binding? name).elim known fun b => known.map (Scope.binding scope.id name b)
  | _ => known

/-- Every scope that was ever opened, latest first, with what was last
written to it. -/
def everOpened (trace : List Event) : List Scope :=
  trace.foldl noteScope []

/-- What a name denotes from a scope: the scope's own variable, or else what
the name denotes from the scope around it, which was opened before it. -/
def denoted? (name : String) : List Scope → String → Option (String × Binding)
  | [], _ => none
  | scope :: older, id =>
    if scope.id = id then
      match scope.binding? name with
      | some b => some (id, b)
      | none => scope.parent.bind (denoted? name older)
    else denoted? name older id

/-- The scope that an event closes, if it is the one with an identity. -/
def Event.closed? (id : String) : Event → Option Scope
  | .scopes .destroy (some scope) _ _ => if scope.id = id then some scope else none
  | _ => none

/-- A scope as it was when it was last closed. -/
def lastClosed? (trace : List Event) (id : String) : Option Scope :=
  trace.reverse.findSome? (Event.closed? id)

namespace Act

/-- Code that looks names up among all scopes that were ever opened, child to
parent, and opens the scope of a call inside the scope its function closes
over, open or not. -/
def lexical : Host :=
  { tell := record
    find := fun s name scope =>
      (scope.or s.store.currentScope?).bind (denoted? name (everOpened s.trace))
    parent := fun _ closure => closure }

/-- A way of finding names and parents that goes with the open scopes wherever
those go with the program text, and is free elsewhere.  Code that cannot tell
a reader from the machine never asks where the two differ. -/
structure Reader where
  find : Lookup
  parent : Session → Option String → Option String
  finds : ∀ s name scope, lexical.find s name scope = Session.findOpen s name scope →
    find s name scope = Session.findOpen s name scope
  parents : ∀ s closure, lexical.parent s closure = s.openParent closure →
    parent s closure = s.openParent closure

def Reader.host (r : Reader) : Host := { tell := record, find := r.find, parent := r.parent }

/-- The program text itself is such a way. -/
def Reader.lexical : Reader :=
  { find := Act.lexical.find, parent := Act.lexical.parent
    finds := fun _ _ _ h => h, parents := fun _ _ h => h }

end Act

/-! ## The trace grows at its end -/

namespace Session

theorem trace_noted {s : Session} {e : Event} (h : e.isReset = false) :
    (s.noted e).trace = s.trace ++ [e] := by
  simp [trace, h]

theorem trace_foldl_noted {s : Session} {l : List Event} (h : ∀ e ∈ l, e.isReset = false) :
    (l.foldl noted s).trace = s.trace ++ l := by
  induction l generalizing s with
  | nil => simp
  | cons e l ih =>
      rw [List.foldl_cons, ih fun e he => h e (List.mem_cons_of_mem _ he),
        trace_noted (h e List.mem_cons_self), List.append_assoc]
      rfl

theorem trace_publish {α : Type} {s : Session} {c : Change α}
    (h : ∀ e ∈ c.events, e.isReset = false) : (s.publish c).trace = s.trace ++ c.events :=
  trace_foldl_noted h

end Session

/-- An event of a longer history is the one that was added, or one of those before. -/
theorem event_cases {trace before : List Event} {e e' : Event}
    (h : before ++ [e'] <+: trace ++ [e]) :
    before = trace ∧ e' = e ∨ before ++ [e'] <+: trace := by
  rcases List.prefix_concat_iff.mp h with all | earlier
  · obtain ⟨same, last⟩ := List.append_inj' all rfl
    exact .inl ⟨same, (List.cons.inj last).1⟩
  · exact .inr earlier

theorem everOpened_append (trace : List Event) (e : Event) :
    everOpened (trace ++ [e]) = noteScope (everOpened trace) e := by
  simp [everOpened]

theorem foldl_noteScope_of_topic {l : List Event} (h : ∀ e ∈ l, e.topic ≠ .scopes)
    (known : List Scope) : l.foldl noteScope known = known := by
  induction l with
  | nil => rfl
  | cons e l ih =>
      have first : noteScope known e = known := by
        have := h e List.mem_cons_self
        cases e <;> first | rfl | exact absurd rfl this
      rw [List.foldl_cons, first]
      exact ih fun e he => h e (List.mem_cons_of_mem _ he)

theorem lastClosed?_append (trace : List Event) (e : Event) (id : String) :
    lastClosed? (trace ++ [e]) id = (e.closed? id).or (lastClosed? trace id) := by
  simp only [lastClosed?, List.reverse_append, List.reverse_singleton, List.singleton_append,
    List.findSome?_cons]
  cases e.closed? id <;> rfl

end Runloop
