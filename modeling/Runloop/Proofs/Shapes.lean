/-
# The tokens that a reader takes

Readers look ahead and back out of what they cannot finish; but what they take has
a simple form, for which no grammar is needed (`Shape`).  It is made up of single
tokens and of groups in brackets, in which the bodies of functions lie as stretches
of text that are not read yet.

A body in braces is closed by counting braces alone.  A concise body is whatever
its expression took.
-/
import Runloop.Compilation
import Runloop.Proofs.Scanning

namespace Runloop

/-! ## Bodies -/

/-- The body of a function literal. -/
def FunctionLiteral.kept (f : FunctionLiteral) : Body := ⟨f.body, f.linesBefore, f.concise⟩

/-- The body of a callback. -/
def Callback.kept (c : Callback) : Body := ⟨c.body, c.linesBefore, c.concise⟩

/-- The body of a declared function. -/
def FunctionDecl.kept (d : FunctionDecl) : Body := ⟨d.body, d.linesBefore, false⟩

/-- A block as a body. -/
def Grammar.Block.kept (b : Grammar.Block) : Body := ⟨b.body, b.linesBefore, false⟩

namespace Expr

mutual

/-- The bodies of the functions that are written in an expression. -/
def bodies : Expr → List Body
  | literal _ => []
  | array items => bodiesOf items
  | object entries => bodiesIn entries
  | function f => [f.kept]
  | call _ args => bodiesOf args
  | methodCall target _ args => bodies target ++ bodiesOf args
  | reference _ => []
  | property target _ _ => bodies target
  | typeof operand => bodies operand
  | unary _ operand => bodies operand
  | binary _ left right => bodies left ++ bodies right

def bodiesOf : List Expr → List Body
  | [] => []
  | e :: rest => bodies e ++ bodiesOf rest

def bodiesIn : List (String × Expr) → List Body
  | [] => []
  | (_, e) :: rest => bodies e ++ bodiesIn rest

end

end Expr

/-- The bodies of the functions that are written in an instruction. -/
def Instruction.bodies : Instruction → List Body
  | hoisting _ _ => []
  | functionDecl d => [d.kept]
  | hoistedVar _ _ => []
  | declare _ _ value _ => value.bodies
  | assign _ value _ => value.bodies
  | call _ args _ => Expr.bodiesOf args
  | methodCall _ _ args _ => Expr.bodiesOf args
  | console _ args _ => Expr.bodiesOf args
  | timer callback _ _ => [callback.kept]
  | promise callback _ value _ => callback.kept :: value.bodies
  | .return value _ => value.bodies
  | construct _ _ _ args _ => Expr.bodiesOf args

namespace Token

variable {t o c : Token}

/-- A bracket and the one that closes it. -/
def pairs (o c : Token) : Bool :=
  (o.isMark "(" && c.isMark ")") || (o.isMark "[" && c.isMark "]") ||
    (o.isMark "\x7b" && c.isMark "\x7d")

/-- A token that is no bracket. -/
def plain (t : Token) : Bool := !t.opens && !t.closes

theorem plain_of_kind (h : t.kind ≠ .mark) : t.plain = true := by
  simp [plain, opens, closes, isMark, h]

theorem plain_of_text (h : t.text ∉ brackets) : t.plain = true := by
  simp only [brackets, List.mem_cons, List.not_mem_nil, or_false, not_or] at h
  simp [plain, opens, closes, isMark, h]

theorem plain_of_spells {s : String} (spelled : t.spells s = true) (h : s ∉ brackets) :
    t.plain = true := by
  simp only [spells, Bool.and_eq_true, beq_iff_eq] at spelled
  exact plain_of_text (spelled.2 ▸ h)

end Token

namespace Grammar

/-! ## Blocks -/

theorem closingBrace_open {t : Token} (opens : t.isMark "\x7b" = true) (depth : Nat)
    (ts : List Token) : closingBrace depth (t :: ts) = closingBrace (depth + 1) ts := by
  cases depth <;> simp [closingBrace, opens]

theorem closingBrace_close {t : Token} (other : t.isMark "\x7b" = false)
    (closes : t.isMark "\x7d" = true) (depth : Nat) (ts : List Token) :
    closingBrace (depth + 1) (t :: ts) = closingBrace depth ts := by
  simp [closingBrace, other, closes]

theorem closingBrace_end {t : Token} (other : t.isMark "\x7b" = false)
    (closes : t.isMark "\x7d" = true) (ts : List Token) :
    closingBrace 0 (t :: ts) = some (t, ts) := by
  simp [closingBrace, other, closes]

theorem closingBrace_plain {t : Token} (other : t.isMark "\x7b" = false)
    (plain : t.isMark "\x7d" = false) (depth : Nat) (ts : List Token) :
    closingBrace depth (t :: ts) = closingBrace depth ts := by
  cases depth <;> simp [closingBrace, other, plain]

/-- A block is closed where it is, whatever follows. -/
theorem closingBrace_cases {depth : Nat} {ts rest : List Token} {c : Token}
    (h : closingBrace depth ts = some (c, rest)) :
    c.isMark "\x7d" = true ∧ ∃ inner, ts = inner ++ c :: rest ∧
      ∀ more, closingBrace depth (inner ++ c :: more) = some (c, more) := by
  induction ts generalizing depth with
  | nil => cases h
  | cons t ts ih =>
      cases opens : t.isMark "\x7b" with
      | true =>
          rw [closingBrace_open opens] at h
          obtain ⟨mark, inner, rfl, closed⟩ := ih h
          exact ⟨mark, t :: inner, rfl,
            fun more => (closingBrace_open opens ..).trans (closed more)⟩
      | false =>
      cases closes : t.isMark "\x7d" with
      | true =>
          cases depth with
          | zero =>
              rw [closingBrace_end opens closes] at h
              cases h
              exact ⟨closes, [], rfl, closingBrace_end opens closes⟩
          | succ depth =>
              rw [closingBrace_close opens closes] at h
              obtain ⟨mark, inner, rfl, closed⟩ := ih h
              exact ⟨mark, t :: inner, rfl, fun more =>
                (closingBrace_close opens closes ..).trans (closed more)⟩
      | false =>
          rw [closingBrace_plain opens closes] at h
          obtain ⟨mark, inner, rfl, closed⟩ := ih h
          exact ⟨mark, t :: inner, rfl, fun more =>
            (closingBrace_plain opens closes ..).trans (closed more)⟩

/-! ## Shapes -/

/-- The body in braces between two tokens. -/
def blockBody (source : List Char) (o c : Token) : Body :=
  ⟨slice source o.stop c.start, o.line - 1, false⟩

/-- The concise body from one token to another. -/
def conciseBody (source : List Char) (first last : Token) : Body :=
  ⟨slice source first.start last.stop, first.line - 1, true⟩

/-- What a reader takes, with the bodies that it keeps as text. -/
inductive Shape (source : List Char) : List Token → List Body → Prop
  | nil : Shape source [] []
  | single {t : Token} (plain : t.plain = true) : Shape source [t] []
  | append {ts us : List Token} {bs cs : List Body} (left : Shape source ts bs)
      (right : Shape source us cs) : Shape source (ts ++ us) (bs ++ cs)
  | group {o c : Token} {ts : List Token} {bs : List Body} (pair : o.pairs c = true)
      (inner : Shape source ts bs) : Shape source (o :: (ts ++ [c])) bs
  | block {o c : Token} {ts : List Token} (opens : o.isMark "\x7b" = true)
      (closed : closingBrace 0 (ts ++ [c]) = some (c, [])) :
      Shape source (o :: (ts ++ [c])) [blockBody source o c]
  | concise {a first last : Token} {ts : List Token} {bs : List Body}
      (arrow : a.spells "=>" = true) (inner : Shape source ts bs) (head : ts.head? = some first)
      (back : ts.getLast? = some last) : Shape source (a :: ts) [conciseBody source first last]

/-- The body is written in a hole of a template. -/
def InHole (t : Token) (b : Body) : Prop :=
  t.kind = .template ∧ ∃ cs e, .hole cs ∈ piecesOf t ∧ standalone (t.line - 1) cs = .ok e ∧
    b ∈ e.bodies

/-- Where a body comes from: it was kept as text, it lies in a hole of a template, or it
is the call of a callback that is named. -/
inductive Origin (taken : List Token) (kept : List Body) (b : Body) : Prop
  | kept (h : b ∈ kept)
  | hole {t : Token} (ht : t ∈ taken) (h : InHole t b)
  | call {t : Token} (ht : t ∈ taken) (h : t.kind = .word)
      (eq : b = ⟨t.text ++ "()", t.line - 1, false⟩)

/-- The tokens were taken for something with these bodies. -/
def Found (source : List Char) (taken : List Token) (bodies : List Body) : Prop :=
  ∃ kept, Shape source taken kept ∧ ∀ b ∈ bodies, Origin taken kept b

variable {source : List Char} {ts us : List Token} {bs cs : List Body} {t o c : Token}

theorem Origin.mono {taken taken' : List Token} {kept kept' : List Body} {b : Body}
    (h : Origin taken kept b) (more : ∀ t ∈ taken, t ∈ taken') (keeps : ∀ b ∈ kept, b ∈ kept') :
    Origin taken' kept' b := by
  cases h with
  | kept h => exact .kept (keeps b h)
  | hole ht h => exact .hole (more _ ht) h
  | call ht h eq => exact .call (more _ ht) h eq

namespace Found

theorem of_shape (h : Shape source ts bs) : Found source ts bs := ⟨bs, h, fun _ hb => .kept hb⟩

theorem fewer (h : Found source ts bs) (less : ∀ b ∈ cs, b ∈ bs) : Found source ts cs := by
  obtain ⟨kept, shape, origin⟩ := h
  exact ⟨kept, shape, fun b hb => origin b (less b hb)⟩

theorem nothing (h : Found source ts bs) : Found source ts [] := h.fewer (by simp)

theorem single (plain : t.plain = true) : Found source [t] [] := of_shape (.single plain)

theorem append (h : Found source ts bs) (h' : Found source us cs) :
    Found source (ts ++ us) (bs ++ cs) := by
  obtain ⟨kept, shape, origin⟩ := h
  obtain ⟨kept', shape', origin'⟩ := h'
  refine ⟨kept ++ kept', shape.append shape', fun b hb => ?_⟩
  rcases List.mem_append.mp hb with left | right
  · exact (origin b left).mono (fun _ => List.mem_append_left us) (fun _ => List.mem_append_left _)
  · exact (origin' b right).mono (fun _ => List.mem_append_right ts)
      (fun _ => List.mem_append_right _)

/-- A token more in front. -/
theorem cons (plain : t.plain = true) (h : Found source ts bs) : Found source (t :: ts) bs :=
  (single plain).append h

/-- Something more at the end, whose bodies are let go. -/
theorem extend (h : Found source ts bs) (h' : Found source us cs) : Found source (ts ++ us) bs :=
  (h.append h').fewer fun _ hb => List.mem_append_left cs hb

theorem group (pair : o.pairs c = true) (h : Found source ts bs) :
    Found source (o :: (ts ++ [c])) bs := by
  obtain ⟨kept, shape, origin⟩ := h
  refine ⟨kept, shape.group pair, fun b hb => (origin b hb).mono (fun t ht => ?_) (fun _ h => h)⟩
  exact List.mem_cons_of_mem o (List.mem_append_left _ ht)

end Found

end Grammar

end Runloop
