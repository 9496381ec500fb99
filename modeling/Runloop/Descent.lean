/-
Loops that end.  A loop over a state is allowed to go on only while the state
comes nearer to its end, which is measured by a rank of three numbers in
lexicographic order: a hook is used up, or an instruction is run, or work
is done.
-/

namespace Runloop

/-- The sum of a list of numbers. -/
def total : List Nat → Nat
  | [] => 0
  | n :: rest => n + total rest

/-- The rank of a state: a state of lower rank is nearer to its end. -/
structure Rank where
  hooks : Nat
  budget : Nat
  load : Nat
deriving DecidableEq, Repr

namespace Rank

def lt (a b : Rank) : Bool :=
  a.hooks < b.hooks ||
    (a.hooks == b.hooks && (a.budget < b.budget || (a.budget == b.budget && a.load < b.load)))

/-- The rank as a triple in lexicographic order. -/
def triple (r : Rank) : Nat × Nat × Nat := (r.hooks, r.budget, r.load)

theorem lex_of_lt {a b : Rank} (h : a.lt b = true) :
    Prod.Lex (· < ·) (Prod.Lex (· < ·) (· < ·)) a.triple b.triple := by
  simp only [lt, Bool.or_eq_true, Bool.and_eq_true, decide_eq_true_eq, beq_iff_eq] at h
  rcases h with h | ⟨e, h | ⟨e', h⟩⟩
  · exact .left _ _ h
  · simp only [triple, e]; exact .right _ (.left _ _ h)
  · simp only [triple, e, e']; exact .right _ (.right _ h)

end Rank

/-- What one turn of a loop comes to. -/
inductive Turn (α σ : Type) where
  | stop (answer : α) (state : σ)
  | again (state : σ)

/-- Repeats a turn while it asks for more and the rank goes down.  A turn that
asks for more without going down ends the loop with `giveUp`. -/
def descend {α σ : Type} (rank : σ → Rank) (giveUp : α) (turn : σ → Turn α σ) (s : σ) : α × σ :=
  match turn s with
  | .stop a s' => (a, s')
  | .again s' => if _h : (rank s').lt (rank s) then descend rank giveUp turn s' else (giveUp, s')
termination_by (rank s).triple
decreasing_by exact Rank.lex_of_lt _h

end Runloop
