/-
# What is printed is read again

The reader of expressions inverts the printer, but for the source forms that property
accesses keep (`printed_reparsed`).

Readers go on behind what they have read, as far as they can: with operators of their
level, or with calls and accesses.  So it is said of the tokens of an expression not what
a reader makes of them alone, but that it comes to where it has read the expression and
goes on with what follows (`Stands`, `Target`).  Each way to build an expression from
smaller ones is one lemma about that; the printer puts them together (`Plain.fits`).
-/
import Runloop.Proofs.Printing
import Runloop.Proofs.Segmentation

namespace Runloop

namespace Expr

theorem erasedOf_eq_map (es : List Expr) : erasedOf es = es.map erased := by
  induction es with
  | nil => rfl
  | cons e es ih => rw [erasedOf, ih, List.map_cons]

theorem erasedIn_eq_map (entries : List (String × Expr)) :
    erasedIn entries = entries.map fun entry => (entry.1, entry.2.erased) := by
  induction entries with
  | nil => rfl
  | cons entry entries ih => rw [erasedIn, ih, List.map_cons]

end Expr

namespace Token

variable {t : Token} {s : String}

theorem kind_of_mark (h : t.lexeme = .mark s) : t.kind = .mark ∧ t.text = s :=
  Lexeme.mk.inj h

theorem kind_of_word (h : t.lexeme = .word s) : t.kind = .word ∧ t.text = s :=
  Lexeme.mk.inj h

theorem kind_of_operator (h : t.lexeme = ⟨.operator, s⟩) : t.kind = .operator ∧ t.text = s :=
  Lexeme.mk.inj h

theorem spells_mark (h : t.lexeme = .mark s) (s' : String) : t.spells s' = (s == s') := by
  simp [spells, kind_of_mark h]

theorem spells_word (h : t.lexeme = .word s) (s' : String) : t.spells s' = (s == s') := by
  simp [spells, kind_of_word h]

theorem isMark_of_lexeme (h : t.lexeme = .mark s) : t.isMark s = true := by
  simp [isMark, kind_of_mark h]

/-- Brackets that belong together. -/
theorem pairs_of_lexemes {o c : Token} {s' : String} (opens : o.lexeme = .mark s)
    (closes : c.lexeme = .mark s') (pair : (s, s') ∈ [("(", ")"), ("[", "]"), ("\x7b", "\x7d")]) :
    o.pairs c = true := by
  simp only [List.mem_cons, List.not_mem_nil, or_false, Prod.mk.injEq] at pair
  rcases pair with ⟨rfl, rfl⟩ | ⟨rfl, rfl⟩ | ⟨rfl, rfl⟩ <;>
    simp [pairs, isMark_of_lexeme opens, isMark_of_lexeme closes]

theorem unaryAt?_of_kind (h : t.kind ≠ .operator) : Grammar.unaryAt? t = none := if_neg h

end Token

namespace Grammar

variable {source : List Char} {ts us rest rest' : List Token} {t o c : Token} {e v : Expr}

/-! ## What readers give -/

/-- The reader gives the expression, but for source forms, and leaves the rest. -/
def Gives {n : Nat} (r : Except Stop (Parsed Expr n)) (e : Expr) (rest : List Token) : Prop :=
  ∃ e' last less, r = .ok ⟨e', last, rest, less⟩ ∧ e'.erased = e.erased

theorem Gives.widen {m n : Nat} {r : Except Stop (Parsed Expr m)} (h : Gives r v rest)
    (le : m ≤ n) : Gives (r >>= fun p => pure (p.widen le)) v rest := by
  obtain ⟨e, last, less, rfl, same⟩ := h
  exact ⟨e, last, _, rfl, same⟩

/-- The reader gives expressions, but for source forms, and leaves the rest. -/
def GivesAll {n : Nat} (r : Except Stop (Parsed (List Expr) n)) (es : List Expr)
    (rest : List Token) : Prop :=
  ∃ es' last less, r = .ok ⟨es', last, rest, less⟩ ∧
    es'.map Expr.erased = es.map Expr.erased

/-! ## Where readers stop -/

/-- The token is no arrow, continues no expression by a call or an access, and is no
operator from a level on. -/
structure StopsAt (k : Nat) (t : Token) : Prop where
  arrow : t.text ≠ "=>"
  dot : t.spells "." = false
  paren : t.spells "(" = false
  bracket : t.spells "[" = false
  operator : ∀ j, k ≤ j → operatorAt? j t = none

def Stops (k : Nat) (rest : List Token) : Prop := ∀ t ∈ rest.head?, StopsAt k t

/-- The next token is no arrow. -/
def NoArrow (rest : List Token) : Prop := ∀ t ∈ rest.head?, t.text ≠ "=>"

theorem Stops.mono {j k : Nat} (h : Stops j rest) (le : j ≤ k) : Stops k rest :=
  fun t ht => { h t ht with operator := fun i ki => (h t ht).operator i (Nat.le_trans le ki) }

theorem Stops.noArrow {k : Nat} (h : Stops k rest) : NoArrow rest := fun t ht => (h t ht).arrow

theorem noArrow_of_mark {s : String} (h : t.lexeme = .mark s) (other : s ≠ "=>")
    (rest : List Token) : NoArrow (t :: rest) := by
  rintro _ ⟨⟩
  exact (Token.kind_of_mark h).2 ▸ other

/-- Marks that close or separate end every expression. -/
theorem stops_mark {s : String} (h : t.lexeme = .mark s) (ends : s ∈ [")", "]", "\x7d", ",", ":"])
    (k : Nat) (rest : List Token) : Stops k (t :: rest) := by
  rintro _ ⟨⟩
  obtain ⟨kind, text⟩ := Token.kind_of_mark h
  simp only [List.mem_cons, List.not_mem_nil, or_false] at ends
  rcases ends with rfl | rfl | rfl | rfl | rfl <;>
    exact ⟨by simp [text], by simp [Token.spells, text], by simp [Token.spells, text],
      by simp [Token.spells, text], by simp [operatorAt?, kind]⟩

/-- An operator is that of its own level only. -/
theorem atLevel?_spelling (op : BinaryOp) (k : Nat) :
    BinaryOp.atLevel? k op.spelling = if k = op.level then some op else none := by
  by_cases same : k = op.level
  · subst same
    rw [if_pos rfl]
    cases op <;> rfl
  · rw [if_neg same, BinaryOp.atLevel?, List.find?_eq_none]
    rintro other - both
    simp only [Bool.and_eq_true, beq_iff_eq] at both
    have : other = op := by
      revert both
      cases other <;> cases op <;> simp [BinaryOp.spelling]
    exact same (this ▸ both.1.symm)

theorem operatorAt?_of_lexeme {op : BinaryOp} (h : t.lexeme = ⟨.operator, op.spelling⟩) (k : Nat) :
    operatorAt? k t = if k = op.level then some op else none := by
  obtain ⟨kind, text⟩ := Token.kind_of_operator h
  rw [operatorAt?, if_pos kind, text, atLevel?_spelling]

theorem level_lt_levels (op : BinaryOp) : op.level < BinaryOp.levels := by
  cases op <;> decide

/-- No operator binds more tightly than prefix operators. -/
theorem operatorAt?_levels (t : Token) : operatorAt? BinaryOp.levels t = none := by
  unfold operatorAt?
  split
  · rw [BinaryOp.atLevel?, List.find?_eq_none]
    rintro op - both
    simp only [Bool.and_eq_true, beq_iff_eq] at both
    exact absurd both.1 (Nat.ne_of_lt (level_lt_levels op))
  · rfl

/-- An operator ends what is bound more tightly. -/
theorem stops_operator {op : BinaryOp} (h : t.lexeme = ⟨.operator, op.spelling⟩)
    (rest : List Token) : Stops (op.level + 1) (t :: rest) := by
  rintro _ ⟨⟩
  have operator (j : Nat) (tighter : op.level + 1 ≤ j) : operatorAt? j t = none := by
    rw [operatorAt?_of_lexeme h, if_neg (by omega)]
  obtain ⟨-, text⟩ := Token.kind_of_operator h
  constructor
  case operator => exact operator
  all_goals
    cases op <;> simp [Token.spells, text, BinaryOp.spelling]

/-! ## Levels of operators -/

/-- The reader of a level comes to where it has read the expression from the tokens, and
goes on with what follows. -/
def Stands (source : List Char) (k : Nat) (ts : List Token) (e : Expr) : Prop :=
  ∀ rest v rest', Stops (k + 1) rest →
    (∀ e' last, e'.erased = e.erased → Gives (binaryRest source k e' last rest) v rest') →
      Gives (binary source k (ts ++ rest)) v rest'

theorem binaryRest_stops (source : List Char) {k : Nat} (stops : Stops k rest) (e : Expr)
    (last : Token) : ∃ less, binaryRest source k e last rest = .ok ⟨e, last, rest, less⟩ := by
  cases rest with
  | nil =>
      rw [binaryRest]
      exact ⟨_, rfl⟩
  | cons t more =>
      rw [binaryRest, (stops t rfl).operator k (Nat.le_refl k)]
      exact ⟨_, rfl⟩

namespace Stands

variable {k : Nat}

/-- What follows does not go on. -/
theorem gives (h : Stands source k ts e) (stops : Stops k rest) :
    Gives (binary source k (ts ++ rest)) e rest := by
  refine h rest e rest (stops.mono (Nat.le_succ k)) fun e' last same => ?_
  obtain ⟨less, read⟩ := binaryRest_stops source stops e' last
  exact ⟨e', last, less, read, same⟩

/-- What stands where a level is wanted stands where a looser one is. -/
theorem looser (h : Stands source (k + 1) ts e) (less : k < BinaryOp.levels) :
    Stands source k ts e := by
  intro rest v rest' stops next
  obtain ⟨e', last, fewer, read, same⟩ := h.gives stops
  rw [Grammar.binary, if_pos less, read]
  exact (next e' last same).widen _

/-- An operator between an operand of its level and a tighter one. -/
theorem binary {op : BinaryOp} {l r : Expr} (left : Stands source op.level ts l)
    (operator : t.lexeme = ⟨.operator, op.spelling⟩) (right : Stands source (op.level + 1) us r) :
    Stands source op.level (ts ++ t :: us) (.binary op l r) := by
  intro rest v rest' stops next
  rw [List.append_assoc]
  refine left _ v rest' (stops_operator operator _) fun l' last sameLeft => ?_
  obtain ⟨r', last', fewer, read, sameRight⟩ := right.gives stops
  rw [List.cons_append, binaryRest, operatorAt?_of_lexeme operator, if_pos rfl]
  dsimp only
  rw [read]
  exact (next _ last' (by simp [Expr.erased, sameLeft, sameRight])).widen _

/-- What a prefix operator stands before reads like one itself. -/
theorem of_unary (h : ∀ rest, Stops BinaryOp.levels rest →
    Gives (unary source (ts ++ rest)) e rest) : Stands source BinaryOp.levels ts e := by
  intro rest v rest' stops next
  have stops' : Stops BinaryOp.levels rest := fun t ht => by
    refine { stops t ht with operator := fun j le => ?_ }
    rcases Nat.eq_or_lt_of_le le with rfl | tighter
    · exact operatorAt?_levels t
    · exact (stops t ht).operator j tighter
  obtain ⟨e', last, less, read, same⟩ := h rest stops'
  obtain ⟨less', further⟩ := binaryRest_stops source stops' e' last
  obtain ⟨e'', last', less'', read', same'⟩ := next e' last same
  rw [further] at read'
  cases read'
  rw [Grammar.binary, if_neg (Nat.lt_irrefl _)]
  exact ⟨e', last, less, read, same'⟩

theorem unary_gives (h : Stands source BinaryOp.levels ts e) (stops : Stops BinaryOp.levels rest) :
    Gives (unary source (ts ++ rest)) e rest := by
  have gives := h.gives stops
  rwa [Grammar.binary, if_neg (Nat.lt_irrefl _)] at gives

theorem unary {op : UnaryOp} (h : Stands source BinaryOp.levels ts e)
    (operator : t.lexeme = ⟨.operator, op.spelling⟩) :
    Stands source BinaryOp.levels (t :: ts) (.unary op e) := by
  refine of_unary fun rest stops => ?_
  obtain ⟨kind, text⟩ := Token.kind_of_operator operator
  have noWord : t.spells "typeof" = false := by
    cases op <;> simp [Token.spells, text, UnaryOp.spelling]
  have isUnary : unaryAt? t = some op := by
    rw [unaryAt?, if_pos kind, text]
    cases op <;> rfl
  obtain ⟨e', last, less, read, same⟩ := h.unary_gives stops
  rw [List.cons_append, Grammar.unary, if_neg (by simp [noWord]), isUnary]
  dsimp only
  rw [read]
  exact ⟨.unary op e', last, _, rfl, by simp [Expr.erased, same]⟩

theorem typeof (h : Stands source BinaryOp.levels ts e) (word : t.lexeme = .word "typeof") :
    Stands source BinaryOp.levels (t :: ts) (.typeof e) := by
  refine of_unary fun rest stops => ?_
  have isWord : t.spells "typeof" = true := by
    rw [Token.spells_word word]
    exact beq_self_eq_true _
  obtain ⟨e', last, less, read, same⟩ := h.unary_gives stops
  rw [List.cons_append, Grammar.unary, if_pos isWord, read]
  exact ⟨.typeof e', last, _, rfl, by simp [Expr.erased, same]⟩

end Stands

/-! ## Calls and accesses -/

/-- The reader of expressions with calls and accesses comes to where it has read the
expression, and goes on with what follows. -/
structure Target (source : List Char) (ts : List Token) (e : Expr) : Prop where
  head : ∃ t us, ts = t :: us ∧ t.spells "typeof" = false ∧ unaryAt? t = none
  reads : ∀ rest v rest', NoArrow rest →
    (∀ start e' last, e'.erased = e.erased →
      Gives (suffixes source start e' last rest) v rest') →
      Gives (suffixed source (ts ++ rest)) v rest'

theorem suffixes_stops (source : List Char) {k : Nat} (stops : Stops k rest) (start : Nat)
    (e : Expr) (last : Token) :
    ∃ less, suffixes source start e last rest = .ok ⟨e, last, rest, less⟩ := by
  cases rest with
  | nil =>
      rw [suffixes]
      exact ⟨_, rfl⟩
  | cons t more =>
      have here := stops t rfl
      rw [suffixes, if_neg (by simp [here.dot]), if_neg (by simp [here.paren]),
        if_neg (by simp [here.bracket])]
      exact ⟨_, rfl⟩

namespace Target

theorem stands (h : Target source ts e) : Stands source BinaryOp.levels ts e := by
  refine Stands.of_unary fun rest stops => ?_
  have gives := h.reads rest e rest stops.noArrow fun start e' last same => by
    obtain ⟨less, read⟩ := suffixes_stops source stops start e' last
    exact ⟨e', last, less, read, same⟩
  obtain ⟨t, us, rfl, noTypeof, noUnary⟩ := h.head
  rw [List.cons_append] at gives ⊢
  rwa [Grammar.unary, if_neg (by simp [noTypeof]), noUnary]

/-- A primary expression. -/
theorem of_primary (noTypeof : t.spells "typeof" = false) (noUnary : unaryAt? t = none)
    (h : ∀ rest, NoArrow rest → Gives (primary source (t :: (us ++ rest))) e rest) :
    Target source (t :: us) e := by
  refine ⟨⟨t, us, rfl, noTypeof, noUnary⟩, fun rest v rest' noArrow next => ?_⟩
  obtain ⟨e', last, less, read, same⟩ := h rest noArrow
  rw [List.cons_append, suffixed, read]
  exact (next t.start e' last same).widen _

/-- What an access does to what is before it. -/
theorem suffixes_property {name : String} {start : Nat} {last : Token}
    (dot : o.lexeme = .mark ".") (word : t.lexeme = .word name)
    (next : ∀ text last, Gives (suffixes source start (.property e name text) last rest) v rest') :
    Gives (suffixes source start e last (o :: t :: rest)) v rest' := by
  obtain ⟨kind, spelling⟩ := Token.kind_of_word word
  rw [suffixes, if_pos (by rw [Token.spells_mark dot]; rfl), Grammar.name, if_pos kind, spelling]
  exact (next _ t).widen _

/-- A property of a target. -/
theorem property {name text : String} (h : Target source ts e) (dot : o.lexeme = .mark ".")
    (word : t.lexeme = .word name) : Target source (ts ++ [o, t]) (.property e name text) := by
  obtain ⟨u, us, rfl, noTypeof, noUnary⟩ := h.head
  refine ⟨⟨u, us ++ [o, t], rfl, noTypeof, noUnary⟩, fun rest v rest' noArrow next => ?_⟩
  rw [List.append_assoc]
  refine h.reads (o :: t :: rest) v rest' (noArrow_of_mark dot (by decide) _) ?_
  intro start e' last same
  refine suffixes_property dot word fun text' last' => ?_
  exact next start _ last' (by simp [Expr.erased, same])

end Target

/-! ## Lists of expressions -/

/-- The first token is no mark that closes a list. -/
def Starts (ts : List Token) : Prop :=
  ∃ t us, ts = t :: us ∧ t.spells ")" = false ∧ t.spells "]" = false

theorem Starts.nextIs {closing : String} (h : Starts ts) (closes : closing ∈ [")", "]"])
    (more : List Token) : nextIs closing (ts ++ more) = false := by
  obtain ⟨t, us, rfl, noParen, noBracket⟩ := h
  simp only [List.mem_cons, List.not_mem_nil, or_false] at closes
  rcases closes with rfl | rfl
  · exact noParen
  · exact noBracket

theorem expect_mark {s : String} (h : c.lexeme = .mark s) (rest : List Token) :
    expect s (c :: rest) = .ok ⟨c, c, rest, weight_lt_cons c rest⟩ := by
  rw [expect, if_pos (by rw [Token.spells_mark h]; exact beq_self_eq_true s)]

/-- Tokens that are read as expressions with commas between them, up to any mark that
closes them. -/
def Listed (source : List Char) (ts : List Token) (es : List Expr) : Prop :=
  ∀ c closing rest, c.lexeme = .mark closing → closing ∈ [")", "]"] →
    GivesAll (items source closing (ts ++ c :: rest)) es rest

namespace Listed

theorem nil : Listed source [] [] := by
  intro c closing rest mark _
  have next : nextIs closing (c :: rest) = true := by
    rw [nextIs, Token.spells_mark mark]
    exact beq_self_eq_true closing
  rw [List.nil_append, items, if_pos next, expect_mark mark]
  exact ⟨[], c, _, rfl, rfl⟩

/-- The last expression. -/
theorem single (h : Stands source 0 ts e) (start : Starts ts) : Listed source ts [e] := by
  intro c closing rest mark closes
  have ends : closing ∈ [")", "]", "\x7d", ",", ":"] := by
    simp only [List.mem_cons, List.not_mem_nil, or_false] at closes ⊢
    exact closes.elim .inl fun h => .inr (.inl h)
  have noComma : c.spells "," = false := by
    rw [Token.spells_mark mark]
    simp only [List.mem_cons, List.not_mem_nil, or_false] at closes
    rcases closes with rfl | rfl <;> rfl
  obtain ⟨e', last, less, read, same⟩ := h.gives (stops_mark mark ends 0 rest)
  rw [items, if_neg (by simp [start.nextIs closes]), expression, read]
  dsimp only [bind, Except.bind]
  rw [if_neg (by simp [noComma]), expect_mark mark]
  exact ⟨[e'], c, _, rfl, by simp [same]⟩

/-- An expression more in front. -/
theorem cons {es : List Expr} (h : Stands source 0 ts e) (start : Starts ts)
    (comma : t.lexeme = .mark ",") (later : Listed source us es) :
    Listed source (ts ++ t :: us) (e :: es) := by
  intro c closing rest mark closes
  obtain ⟨e', last, less, read, same⟩ :=
    h.gives (stops_mark comma (by simp) 0 (us ++ c :: rest))
  obtain ⟨es', last', less', read', same'⟩ := later c closing rest mark closes
  rw [List.append_assoc, List.cons_append, items, if_neg (by simp [start.nextIs closes]),
    expression, read]
  dsimp only [bind, Except.bind]
  rw [if_pos (by rw [Token.spells_mark comma]; rfl), read']
  exact ⟨e' :: es', last', _, rfl, by simp [same, same']⟩

end Listed

/-! ## Words and calls -/

/-- A word that names a variable is read as a reference to it. -/
theorem primary_variable (source : List Char) {name : String} (word : t.lexeme = .word name)
    (named : isVariable name = true) (noArrow : NoArrow rest) :
    ∃ less, primary source (t :: rest) = .ok ⟨.reference name, t, rest, less⟩ := by
  obtain ⟨kind, text⟩ := Token.kind_of_word word
  simp only [isVariable, Bool.and_eq_true, Bool.not_eq_true'] at named
  obtain ⟨⟨-, noReserved⟩, noLiteral⟩ := named
  have noNext : nextIs "=>" rest = false := by
    cases rest with
    | nil => rfl
    | cons u us =>
        have := noArrow u rfl
        simp [nextIs, Token.spells, this]
  rw [primary, kind]
  dsimp only
  rw [Grammar.word, text]
  split
  · cases noLiteral
  · cases noLiteral
  · cases noLiteral
  · cases noLiteral
  · cases noReserved
  · cases noReserved
  · rw [if_neg (by simp [noNext]), if_neg (by simp [noReserved])]
    exact ⟨weight_lt_cons t rest, rfl⟩

/-- What a call does to what is before it. -/
theorem suffixes_call {args : List Expr} {start : Nat} {last : Token}
    (paren : o.lexeme = .mark "(") (close : c.lexeme = .mark ")") (listed : Listed source us args)
    (next : ∀ args', args'.map Expr.erased = args.map Expr.erased →
      ∃ called, callOf e args' = .ok called ∧
        ∀ last, Gives (suffixes source start called last rest) v rest') :
    Gives (suffixes source start e last (o :: (us ++ c :: rest))) v rest' := by
  obtain ⟨args', last', less, read, same⟩ := listed c ")" rest close (by simp)
  obtain ⟨called, ok, further⟩ := next args' same
  rw [suffixes, if_neg (by rw [Token.spells_mark paren]; decide),
    if_pos (by rw [Token.spells_mark paren]; rfl), read]
  dsimp only [bind, Except.bind]
  rw [ok]
  exact (further last').widen _

namespace Target

variable {name : String} {args : List Expr} {p : Token}

/-- A variable is no operator. -/
theorem head_variable (word : t.lexeme = .word name) (named : isVariable name = true) :
    t.spells "typeof" = false ∧ unaryAt? t = none := by
  simp only [isVariable, Bool.and_eq_true, Bool.not_eq_true'] at named
  constructor
  · rw [Token.spells_word word, beq_eq_false_iff_ne]
    rintro rfl
    cases named.1.2
  · refine Token.unaryAt?_of_kind ?_
    rw [(Token.kind_of_word word).1]
    decide

theorem reference (word : t.lexeme = .word name) (named : isVariable name = true) :
    Target source [t] (.reference name) := by
  obtain ⟨noTypeof, noUnary⟩ := head_variable word named
  refine of_primary noTypeof noUnary fun rest noArrow => ?_
  obtain ⟨less, read⟩ := primary_variable source word named noArrow
  exact ⟨_, t, less, read, rfl⟩

theorem call (word : t.lexeme = .word name) (named : isVariable name = true)
    (paren : o.lexeme = .mark "(") (listed : Listed source us args) (close : c.lexeme = .mark ")") :
    Target source (t :: o :: (us ++ [c])) (.call name args) := by
  obtain ⟨noTypeof, noUnary⟩ := head_variable word named
  refine ⟨⟨t, _, rfl, noTypeof, noUnary⟩, fun rest v rest' noArrow next => ?_⟩
  have tokens : t :: o :: (us ++ [c]) ++ rest = t :: o :: (us ++ c :: rest) := by simp
  obtain ⟨less, read⟩ := primary_variable source word named
    (noArrow_of_mark paren (by decide) (us ++ c :: rest))
  rw [tokens, suffixed, read]
  refine Gives.widen (suffixes_call paren close listed fun args' same => ?_) _
  refine ⟨.call name args', rfl, fun last => next t.start _ last ?_⟩
  simp [Expr.erased, Expr.erasedOf_eq_map, same]

theorem methodCall (h : Target source ts e) (dot : o.lexeme = .mark ".")
    (word : t.lexeme = .word name) (paren : p.lexeme = .mark "(") (listed : Listed source us args)
    (close : c.lexeme = .mark ")") :
    Target source (ts ++ o :: t :: p :: (us ++ [c])) (.methodCall e name args) := by
  obtain ⟨u, vs, rfl, noTypeof, noUnary⟩ := h.head
  refine ⟨⟨u, vs ++ o :: t :: p :: (us ++ [c]), rfl, noTypeof, noUnary⟩, ?_⟩
  intro rest v rest' noArrow next
  have tokens : u :: vs ++ o :: t :: p :: (us ++ [c]) ++ rest =
      u :: vs ++ o :: t :: p :: (us ++ c :: rest) := by simp
  rw [tokens]
  refine h.reads _ v rest' (noArrow_of_mark dot (by decide) _) fun start e' last same => ?_
  refine suffixes_property dot word fun text' last' => ?_
  refine suffixes_call paren close listed fun args' same' => ⟨.methodCall e' name args', rfl, ?_⟩
  intro last''
  refine next start _ last'' ?_
  simp [Expr.erased, Expr.erasedOf_eq_map, same, same']

end Target

/-! ## Literals, arrays and objects -/

/-- A quoted text is the text. -/
theorem quotedText_quote {s : String} (h : t.text = quote s) : quotedText t = s :=
  Quotation.quotedText_write (h.trans (Lexeme.quote_eq s))

/-- Entries of objects without the source forms of their accesses. -/
def erasedEntry (entry : String × Expr) : String × Expr := (entry.1, entry.2.erased)

/-- Tokens that are read as entries with commas between them, up to the closing brace. -/
def Entered (source : List Char) (ts : List Token) (es : List (String × Expr)) : Prop :=
  ∀ c rest, c.lexeme = .mark "\x7d" → ∃ es' last less,
    entries source (ts ++ c :: rest) = .ok ⟨es', last, rest, less⟩ ∧
      es'.map erasedEntry = es.map erasedEntry

/-- A key of an object is read, and closes none. -/
theorem entryKey_of_lexeme {key : String} (h : t.lexeme = keyLexeme key) :
    entryKey t = .ok key ∧ t.spells "\x7d" = false := by
  unfold keyLexeme at h
  split at h
  · rename_i word
    refine ⟨?_, ?_⟩
    · obtain ⟨kind, text⟩ := Token.kind_of_word h
      rw [entryKey, kind, text]
    · rw [Token.spells_word h, beq_eq_false_iff_ne]
      rintro rfl
      revert word
      decide
  · obtain ⟨kind, text⟩ := Lexeme.mk.inj h
    rw [entryKey, kind]
    refine ⟨congrArg Except.ok (quotedText_quote text), ?_⟩
    simp [Token.spells, kind]

/-- The value of an entry behind its colon. -/
theorem entryValue_gives (t : Token) (key : String) (colon : o.lexeme = .mark ":")
    (h : Stands source 0 us e) (stops : Stops 0 rest) :
    Gives (entryValue source t key (o :: (us ++ rest))) e rest := by
  have gives := h.gives stops
  rw [entryValue, if_pos (by rw [Token.spells_mark colon]; rfl), expression]
  exact gives.widen _

namespace Entered

variable {key : String}

theorem nil : Entered source [] [] := by
  intro c rest mark
  rw [List.nil_append, entries, if_pos (by rw [Token.spells_mark mark]; rfl)]
  exact ⟨[], c, _, rfl, rfl⟩

theorem single (isKey : t.lexeme = keyLexeme key) (colon : o.lexeme = .mark ":")
    (h : Stands source 0 us e) : Entered source (t :: o :: us) [(key, e)] := by
  intro c rest mark
  obtain ⟨isEntry, other⟩ := entryKey_of_lexeme isKey
  obtain ⟨e', last, less, read, same⟩ := entryValue_gives t key colon h
    (stops_mark mark (by simp) 0 rest)
  rw [List.cons_append, List.cons_append, entries, if_neg (by simp [other]), isEntry]
  dsimp only [bind, Except.bind]
  rw [read]
  dsimp only [bind, Except.bind]
  rw [if_neg (by rw [Token.spells_mark mark]; decide), expect_mark mark]
  exact ⟨[(key, e')], c, _, rfl, by simp [erasedEntry, same]⟩

theorem cons {us' : List Token} {es : List (String × Expr)} (isKey : t.lexeme = keyLexeme key)
    (colon : o.lexeme = .mark ":") (h : Stands source 0 us e) (comma : c.lexeme = .mark ",")
    (later : Entered source us' es) :
    Entered source (t :: o :: (us ++ c :: us')) ((key, e) :: es) := by
  intro close rest mark
  obtain ⟨isEntry, other⟩ := entryKey_of_lexeme isKey
  obtain ⟨e', last, less, read, same⟩ := entryValue_gives t key colon h
    (stops_mark comma (by simp) 0 (us' ++ close :: rest))
  obtain ⟨es', last', less', read', same'⟩ := later close rest mark
  have tokens : t :: o :: (us ++ c :: us') ++ close :: rest =
      t :: o :: (us ++ c :: (us' ++ close :: rest)) := by simp
  rw [tokens, entries, if_neg (by simp [other]), isEntry]
  dsimp only [bind, Except.bind]
  rw [read]
  dsimp only [bind, Except.bind]
  rw [if_pos (by rw [Token.spells_mark comma]; rfl), read']
  exact ⟨(key, e') :: es', last', _, rfl, by simp [erasedEntry, same, same']⟩

end Entered

/-- A token that is read alone. -/
theorem Target.single (noTypeof : t.spells "typeof" = false) (kind : t.kind ≠ .operator)
    (h : ∀ rest, ∃ less, primary source (t :: rest) = .ok ⟨e, t, rest, less⟩) :
    Target source [t] e := by
  refine of_primary noTypeof (Token.unaryAt?_of_kind kind) fun rest _ => ?_
  obtain ⟨less, read⟩ := h rest
  exact ⟨e, t, less, read, rfl⟩

/-- A word that is a literal. -/
theorem Target.of_word {name : String} (h : t.lexeme = .word name) (other : name ≠ "typeof")
    (read : ∀ rest, ∃ less, word source t rest = .ok ⟨e, t, rest, less⟩) :
    Target source [t] e := by
  have kind := (Token.kind_of_word h).1
  have noTypeof : t.spells "typeof" = false := by
    rw [Token.spells_word h]
    exact beq_eq_false_iff_ne.mpr other
  refine .single noTypeof (by simp [kind]) fun rest => ?_
  rw [primary, kind]
  exact read rest

/-- A literal that is printed is read. -/
theorem Target.literal {value : Literal} (plain : (Expr.literal value).Plain)
    (h : t.lexeme = value.lexeme) : Target source [t] (.literal value) := by
  have text : t.text = value.lexeme.text := congrArg Lexeme.text h
  cases plain with
  | @int n short =>
      have kind : t.kind = .number := congrArg Lexeme.kind h
      change t.text = toString n at text
      refine .single (by simp [Token.spells, kind]) (by simp [kind]) fun rest => ?_
      rw [primary, kind]
      dsimp only
      rw [text, Lexeme.numberOf_toString short]
      exact ⟨_, rfl⟩
  | text s =>
      have kind : t.kind = .text := congrArg Lexeme.kind h
      refine .single (by simp [Token.spells, kind]) (by simp [kind]) fun rest => ?_
      rw [primary, kind]
      dsimp only
      rw [quotedText_quote text]
      exact ⟨_, rfl⟩
  | bool b =>
      refine .of_word h (by cases b <;> decide) fun rest => ?_
      rw [word, text]
      cases b <;> exact ⟨_, rfl⟩
  | null =>
      refine .of_word h (by decide) fun rest => ?_
      rw [word, text]
      exact ⟨_, rfl⟩
  | undefined =>
      refine .of_word h (by decide) fun rest => ?_
      rw [word, text]
      exact ⟨_, rfl⟩

/-- A mark that opens something is no operator. -/
theorem head_mark {s : String} (mark : o.lexeme = .mark s) (other : s ≠ "typeof") :
    o.spells "typeof" = false ∧ unaryAt? o = none := by
  refine ⟨by rw [Token.spells_mark mark]; exact beq_eq_false_iff_ne.mpr other, ?_⟩
  refine Token.unaryAt?_of_kind ?_
  rw [(Token.kind_of_mark mark).1]
  decide

theorem Target.array {es : List Expr} (opens : o.lexeme = .mark "[")
    (listed : Listed source us es) (closes : c.lexeme = .mark "]") :
    Target source (o :: (us ++ [c])) (.array es) := by
  obtain ⟨noTypeof, noUnary⟩ := head_mark opens (by decide)
  refine of_primary noTypeof noUnary fun rest _ => ?_
  obtain ⟨es', last, less, read, same⟩ := listed c "]" rest closes (by simp)
  obtain ⟨kind, text⟩ := Token.kind_of_mark opens
  rw [List.append_assoc, List.singleton_append, primary, kind]
  dsimp only
  rw [if_pos text, read]
  refine ⟨.array es', last, _, rfl, ?_⟩
  simp [Expr.erased, Expr.erasedOf_eq_map, same]

theorem Target.object {es : List (String × Expr)} (opens : o.lexeme = .mark "\x7b")
    (entered : Entered source us es) (closes : c.lexeme = .mark "\x7d") :
    Target source (o :: (us ++ [c])) (.object es) := by
  obtain ⟨noTypeof, noUnary⟩ := head_mark opens (by decide)
  refine of_primary noTypeof noUnary fun rest _ => ?_
  obtain ⟨es', last, less, read, same⟩ := entered c rest closes
  obtain ⟨kind, text⟩ := Token.kind_of_mark opens
  rw [List.append_assoc, List.singleton_append, primary, kind]
  dsimp only
  rw [if_neg (by rw [text]; decide), if_pos text, read]
  refine ⟨.object es', last, _, rfl, ?_⟩
  rw [Expr.erased, Expr.erased, Expr.erasedIn_eq_map, Expr.erasedIn_eq_map]
  exact congrArg Expr.object same

/-! ## Parentheses -/

/-- Whoever looks for the closing bracket passes over the tokens. -/
def Closed (ts : List Token) : Prop :=
  ∀ depth rest, arrowFollows (depth + 1) (ts ++ rest) = arrowFollows (depth + 1) rest

namespace Closed

theorem nil : Closed [] := fun _ _ => rfl

theorem append (h : Closed ts) (h' : Closed us) : Closed (ts ++ us) := by
  intro depth rest
  rw [List.append_assoc, h, h']

theorem cons (plain : t.plain = true) (h : Closed ts) : Closed (t :: ts) := by
  intro depth rest
  simp only [Token.plain, Bool.and_eq_true, Bool.not_eq_true'] at plain
  rw [List.cons_append, arrowFollows.eq_def]
  dsimp only
  rw [if_neg (by simp [plain.1]), if_neg (by simp [plain.2]), h]

theorem group (pair : o.pairs c = true) (h : Closed ts) : Closed (o :: (ts ++ [c])) := by
  intro depth rest
  have closes := Token.closes_of_pairs pair
  rw [List.cons_append, List.append_assoc, arrowFollows.eq_def]
  dsimp only
  rw [if_pos (Token.opens_of_pairs pair), h, List.singleton_append, arrowFollows.eq_def]
  dsimp only
  rw [if_neg (by simp [Token.opens_of_closes closes]), if_pos closes, if_neg (by omega),
    Nat.add_sub_cancel]

end Closed

/-- No arrow is found behind parentheses that none follows. -/
theorem arrowFollows_parens (opens : o.lexeme = .mark "(") (closed : Closed ts)
    (closes : c.lexeme = .mark ")") (noArrow : NoArrow rest) :
    arrowFollows 0 (o :: (ts ++ c :: rest)) = false := by
  have pair : o.pairs c = true := Token.pairs_of_lexemes opens closes (by simp)
  have isOpen := Token.opens_of_pairs pair
  have isClose := Token.closes_of_pairs pair
  rw [arrowFollows.eq_def]
  dsimp only
  rw [if_pos isOpen, closed, arrowFollows.eq_def]
  dsimp only
  rw [if_neg (by simp [Token.opens_of_closes isClose]), if_pos isClose, if_pos (by simp)]
  cases rest with
  | nil => rfl
  | cons t more => exact beq_eq_false_iff_ne.mpr (noArrow t rfl)

/-- An expression in parentheses. -/
theorem Target.parens (opens : o.lexeme = .mark "(") (closed : Closed ts)
    (h : Stands source 0 ts e) (closes : c.lexeme = .mark ")") :
    Target source (o :: (ts ++ [c])) e := by
  obtain ⟨noTypeof, noUnary⟩ := head_mark opens (by decide)
  refine of_primary noTypeof noUnary fun rest noArrow => ?_
  obtain ⟨e', last, less, read, same⟩ := h.gives (stops_mark closes (by simp) 0 rest)
  obtain ⟨kind, text⟩ := Token.kind_of_mark opens
  rw [List.append_assoc, List.singleton_append, primary, kind]
  dsimp only
  rw [if_neg (by rw [text]; decide), if_neg (by rw [text]; decide), if_pos text,
    if_neg (by simp [arrowFollows_parens opens closed closes noArrow]), expression, read]
  dsimp only [bind, Except.bind]
  rw [expect_mark closes]
  exact ⟨e', c, _, rfl, same⟩

/-! ## Everything that is printed -/

/-- The tokens can stand wherever an expression of a level is wanted. -/
structure Fits (source : List Char) (k : Nat) (ts : List Token) (e : Expr) : Prop where
  closed : Closed ts
  starts : Starts ts
  target : k = 7 → Target source ts e
  stands : k ≠ 7 → Stands source k ts e

namespace Fits

variable {k : Nat}

theorem of_target (closed : Closed ts) (starts : Starts ts) (h : Target source ts e) :
    Fits source 7 ts e := ⟨closed, starts, fun _ => h, fun other => absurd rfl other⟩

theorem of_stands (closed : Closed ts) (starts : Starts ts) (h : Stands source k ts e)
    (other : k ≠ 7) : Fits source k ts e :=
  ⟨closed, starts, fun same => absurd same other, fun _ => h⟩

/-- What fits where a level is wanted fits where a looser one is. -/
theorem looser (h : Fits source (k + 1) ts e) (less : k < 7) : Fits source k ts e := by
  refine of_stands h.closed h.starts ?_ (Nat.ne_of_lt less)
  rcases Nat.eq_or_lt_of_le (Nat.le_of_lt_succ less) with rfl | tighter
  · exact (h.target rfl).stands
  · exact (h.stands (by omega)).looser tighter

theorem mono {j : Nat} (h : Fits source k ts e) (le : j ≤ k) (bound : k ≤ 7) :
    Fits source j ts e := by
  induction k with
  | zero => rwa [Nat.le_zero.mp le]
  | succ k ih =>
      rcases Nat.eq_or_lt_of_le le with rfl | less
      · exact h
      · exact ih (h.looser bound) (Nat.le_of_lt_succ less) (by omega)

end Fits

theorem level_le (e : Expr) : e.level ≤ 7 := by
  cases e with
  | binary op => exact Nat.le_of_lt (Nat.lt_trans (level_lt_levels op) (by decide))
  | _ => simp [Expr.level]

/-- The tokens of an expression fit where its level is wanted, whatever text they are from. -/
def Readable (e : Expr) : Prop :=
  ∀ source ts, ts.map Token.lexeme = e.lexemes → Fits source e.level ts e

theorem map_lexeme_cons {l : Lexeme} {ls : List Lexeme} (h : ts.map Token.lexeme = l :: ls) :
    ∃ t us, ts = t :: us ∧ t.lexeme = l ∧ us.map Token.lexeme = ls := List.map_eq_cons_iff.mp h

theorem map_lexeme_append {ls ls' : List Lexeme} (h : ts.map Token.lexeme = ls ++ ls') :
    ∃ us vs, ts = us ++ vs ∧ us.map Token.lexeme = ls ∧ vs.map Token.lexeme = ls' :=
  List.map_eq_append_iff.mp h

theorem map_lexeme_single {l : Lexeme} (h : ts.map Token.lexeme = [l]) :
    ∃ t, ts = [t] ∧ t.lexeme = l := List.map_eq_singleton_iff.mp h

/-- Tokens between brackets. -/
theorem map_lexeme_bracketed {l l' : Lexeme} {ls : List Lexeme}
    (h : ts.map Token.lexeme = l :: (ls ++ [l'])) : ∃ o us c, ts = o :: (us ++ [c]) ∧
      o.lexeme = l ∧ us.map Token.lexeme = ls ∧ c.lexeme = l' := by
  obtain ⟨o, vs, rfl, opens, more⟩ := map_lexeme_cons h
  obtain ⟨us, ws, rfl, inner, last⟩ := map_lexeme_append more
  obtain ⟨c, rfl, closes⟩ := map_lexeme_single last
  exact ⟨o, us, c, rfl, opens, inner, closes⟩

/-- A mark that opens something starts a list. -/
theorem starts_mark {s : String} (h : o.lexeme = .mark s) (opens : s ∈ ["(", "[", "\x7b"])
    (us : List Token) : Starts (o :: us) := by
  refine ⟨o, us, rfl, ?_⟩
  rw [Token.spells_mark h, Token.spells_mark h]
  simp only [List.mem_cons, List.not_mem_nil, or_false] at opens
  rcases opens with rfl | rfl | rfl <;> decide

/-- The tokens of an expression, in parentheses if it needs them. -/
theorem Readable.wrapped (h : Readable e) (source : List Char) {k : Nat} (le : k ≤ 7)
    (eq : ts.map Token.lexeme = Expr.wrap k e.level e.lexemes) : Fits source k ts e := by
  unfold Expr.wrap at eq
  split at eq
  · obtain ⟨o, us, c, rfl, opens, inner, closes⟩ := map_lexeme_bracketed eq
    have fits := h source us inner
    have pair : o.pairs c = true := Token.pairs_of_lexemes opens closes (by simp)
    have starts : Starts (o :: (us ++ [c])) := starts_mark opens (by simp) _
    have loose := (fits.mono (Nat.zero_le _) (level_le e)).stands (by decide)
    exact (Fits.of_target (fits.closed.group pair) starts
      (Target.parens opens fits.closed loose closes)).mono le (Nat.le_refl 7)
  · rename_i tight
    exact (h source ts eq).mono (by omega) (level_le e)

theorem plain_mark {s : String} (h : t.lexeme = .mark s) (other : s ∉ Token.brackets) :
    t.plain = true :=
  Token.plain_of_text (by rwa [(Token.kind_of_mark h).2])

theorem plain_word {s : String} (h : t.lexeme = .word s) : t.plain = true :=
  Token.plain_of_kind (by rw [(Token.kind_of_word h).1]; decide)

/-- The tokens of expressions with commas between them. -/
theorem listed_of_readable (source : List Char) {es : List Expr} (h : ∀ e ∈ es, Readable e)
    (eq : ts.map Token.lexeme = Lexeme.commas (es.map Expr.lexemes)) :
    Listed source ts es ∧ Closed ts := by
  induction es generalizing ts with
  | nil =>
      obtain rfl := List.map_eq_nil_iff.mp eq
      exact ⟨.nil, .nil⟩
  | cons e es ih =>
      obtain ⟨here, later⟩ := List.forall_mem_cons.mp h
      have loose {us : List Token} (eq : us.map Token.lexeme = e.lexemes) : Fits source 0 us e :=
        (here source us eq).mono (Nat.zero_le _) (level_le e)
      cases es with
      | nil =>
          have fits := loose eq
          exact ⟨.single (fits.stands (by decide)) fits.starts, fits.closed⟩
      | cons e' es =>
          obtain ⟨us, vs, rfl, first, more⟩ := map_lexeme_append eq
          obtain ⟨t, ws, rfl, comma, second⟩ := map_lexeme_cons more
          have fits := loose first
          obtain ⟨listed, closed⟩ := ih later second
          refine ⟨.cons (fits.stands (by decide)) fits.starts comma listed, ?_⟩
          exact fits.closed.append (.cons (plain_mark comma (by decide)) closed)

/-- The tokens of entries with commas between them. -/
theorem entered_of_readable (source : List Char) {es : List (String × Expr)}
    (h : ∀ entry ∈ es, Readable entry.2)
    (eq : ts.map Token.lexeme = Lexeme.commas (es.map fun entry =>
      keyLexeme entry.1 :: .mark ":" :: entry.2.lexemes)) :
    Entered source ts es ∧ Closed ts := by
  induction es generalizing ts with
  | nil =>
      obtain rfl := List.map_eq_nil_iff.mp eq
      exact ⟨.nil, .nil⟩
  | cons entry es ih =>
      obtain ⟨key, e⟩ := entry
      obtain ⟨here, later⟩ := List.forall_mem_cons.mp h
      have loose {us : List Token} (eq : us.map Token.lexeme = e.lexemes) : Fits source 0 us e :=
        (here source us eq).mono (Nat.zero_le _) (level_le e)
      have plain {t : Token} (isKey : t.lexeme = keyLexeme key) : t.plain = true := by
        unfold keyLexeme at isKey
        split at isKey
        · exact plain_word isKey
        · exact Token.plain_of_kind (by
            rw [show t.kind = .text from (Lexeme.mk.inj isKey).1]
            decide)
      cases es with
      | nil =>
          obtain ⟨t, vs, rfl, isKey, more⟩ := map_lexeme_cons eq
          obtain ⟨o, us, rfl, colon, value⟩ := map_lexeme_cons more
          have fits := loose value
          refine ⟨.single isKey colon (fits.stands (by decide)), ?_⟩
          exact .cons (plain isKey) (.cons (plain_mark colon (by decide)) fits.closed)
      | cons entry' es =>
          obtain ⟨t, vs, rfl, isKey, more⟩ := map_lexeme_cons eq
          obtain ⟨o, ws, rfl, colon, more⟩ := map_lexeme_cons more
          obtain ⟨us, ws, rfl, value, more⟩ := map_lexeme_append more
          obtain ⟨c, us', rfl, comma, second⟩ := map_lexeme_cons more
          have fits := loose value
          obtain ⟨entered, closed⟩ := ih later second
          refine ⟨.cons isKey colon (fits.stands (by decide)) comma entered, ?_⟩
          exact .cons (plain isKey) (.cons (plain_mark colon (by decide))
            (fits.closed.append (.cons (plain_mark comma (by decide)) closed)))

/-- Arguments in parentheses. -/
theorem arguments_of_readable (source : List Char) {args : List Expr} (h : ∀ e ∈ args, Readable e)
    (eq : ts.map Token.lexeme =
      .mark "(" :: (Lexeme.commas (Expr.lexemesOf args) ++ [.mark ")"])) :
    ∃ o us c, ts = o :: (us ++ [c]) ∧ o.lexeme = .mark "(" ∧ Listed source us args ∧
      c.lexeme = .mark ")" ∧ Closed ts := by
  rw [Expr.lexemesOf_eq_map] at eq
  obtain ⟨o, us, c, rfl, opens, inner, closes⟩ := map_lexeme_bracketed eq
  obtain ⟨listed, closed⟩ := listed_of_readable source h inner
  have pair : o.pairs c = true := Token.pairs_of_lexemes opens closes (by simp)
  exact ⟨o, us, c, rfl, opens, listed, closes, closed.group pair⟩

/-- What is quoted, a number or no bracket starts a list. -/
theorem starts_of (h : t.kind = .number ∨ t.kind = .text ∨ t.text ∉ Token.brackets)
    (us : List Token) : Starts (t :: us) := by
  refine ⟨t, us, rfl, ?_⟩
  rcases h with kind | kind | text
  · simp [Token.spells, kind]
  · simp [Token.spells, kind]
  · simp only [Token.brackets, List.mem_cons, List.not_mem_nil, or_false, not_or] at text
    simp [Token.spells, text]

/-- A word starts a list. -/
theorem starts_word {name : String} (h : t.lexeme = .word name) (word : isWord name = true)
    (us : List Token) : Starts (t :: us) := by
  refine starts_of (.inr (.inr ?_)) us
  rw [(Token.kind_of_word h).2]
  intro bracket
  simp only [Token.brackets, List.mem_cons, List.not_mem_nil, or_false] at bracket
  rcases bracket with rfl | rfl | rfl | rfl | rfl | rfl <;> cases word

/-- More behind them leaves the first token as it is. -/
theorem Starts.append (h : Starts ts) (us : List Token) : Starts (ts ++ us) := by
  obtain ⟨t, vs, rfl, others⟩ := h
  exact ⟨t, vs ++ us, rfl, others⟩

namespace Readable

theorem literal {value : Literal} (plain : (Expr.literal value).Plain) :
    Readable (.literal value) := by
  intro source ts eq
  obtain ⟨t, rfl, single⟩ := map_lexeme_single eq
  have kind : t.kind = value.lexeme.kind := congrArg Lexeme.kind single
  have text : t.text = value.lexeme.text := congrArg Lexeme.text single
  have noMark : t.kind ≠ .mark := by
    rw [kind]
    cases plain <;> simp [Literal.lexeme, Lexeme.word]
  refine .of_target (.cons (Token.plain_of_kind noMark) .nil) (starts_of ?_ [])
    (Target.literal plain single)
  rw [kind, text]
  cases plain with
  | int | text => simp [Literal.lexeme]
  | bool b => exact .inr (.inr (by cases b <;> decide))
  | null | undefined => exact .inr (.inr (by decide))

theorem array {es : List Expr} (h : ∀ e ∈ es, Readable e) : Readable (.array es) := by
  intro source ts eq
  rw [Expr.lexemes, Expr.lexemesOf_eq_map] at eq
  obtain ⟨o, us, c, rfl, opens, inner, closes⟩ := map_lexeme_bracketed eq
  obtain ⟨listed, closed⟩ := listed_of_readable source h inner
  have pair : o.pairs c = true := Token.pairs_of_lexemes opens closes (by simp)
  exact .of_target (closed.group pair) (starts_mark opens (by decide) _)
    (Target.array opens listed closes)

theorem object {es : List (String × Expr)} (h : ∀ entry ∈ es, Readable entry.2) :
    Readable (.object es) := by
  intro source ts eq
  rw [Expr.lexemes, Expr.lexemesIn_eq_map] at eq
  obtain ⟨o, us, c, rfl, opens, inner, closes⟩ := map_lexeme_bracketed eq
  obtain ⟨entered, closed⟩ := entered_of_readable source h inner
  have pair : o.pairs c = true := Token.pairs_of_lexemes opens closes (by simp)
  exact .of_target (closed.group pair) (starts_mark opens (by decide) _)
    (Target.object opens entered closes)

theorem reference {name : String} (named : isVariable name = true) :
    Readable (.reference name) := by
  intro source ts eq
  obtain ⟨t, rfl, word⟩ := map_lexeme_single eq
  exact .of_target (.cons (plain_word word) .nil)
    (starts_word word (Lexeme.isWord_of_isVariable named) []) (Target.reference word named)

theorem call {name : String} {args : List Expr} (named : isVariable name = true)
    (h : ∀ e ∈ args, Readable e) : Readable (.call name args) := by
  intro source ts eq
  obtain ⟨t, vs, rfl, word, more⟩ := map_lexeme_cons eq
  obtain ⟨o, us, c, rfl, paren, listed, close, closed⟩ :=
    arguments_of_readable source h more
  exact .of_target (.cons (plain_word word) closed)
    (starts_word word (Lexeme.isWord_of_isVariable named) _)
    (Target.call word named paren listed close)

theorem property {name text : String} (h : Readable e) : Readable (.property e name text) := by
  intro source ts eq
  obtain ⟨us, vs, rfl, target, more⟩ := map_lexeme_append eq
  obtain ⟨o, ws, rfl, dot, more⟩ := map_lexeme_cons more
  obtain ⟨t, rfl, word⟩ := map_lexeme_single more
  have fits := h.wrapped source (Nat.le_refl 7) target
  refine .of_target (fits.closed.append ?_) (fits.starts.append _)
    (Target.property (fits.target rfl) dot word)
  exact .cons (plain_mark dot (by decide)) (.cons (plain_word word) .nil)

theorem methodCall {name : String} {args : List Expr} (h : Readable e)
    (h' : ∀ e ∈ args, Readable e) : Readable (.methodCall e name args) := by
  intro source ts eq
  obtain ⟨us, vs, rfl, target, more⟩ := map_lexeme_append eq
  obtain ⟨o, ws, rfl, dot, more⟩ := map_lexeme_cons more
  obtain ⟨t, ws, rfl, word, more⟩ := map_lexeme_cons more
  obtain ⟨p, us', c, rfl, paren, listed, close, closed⟩ :=
    arguments_of_readable source h' more
  have fits := h.wrapped source (Nat.le_refl 7) target
  refine .of_target (fits.closed.append ?_) (fits.starts.append _)
    (Target.methodCall (fits.target rfl) dot word paren listed close)
  exact .cons (plain_mark dot (by decide)) (.cons (plain_word word) closed)

theorem typeof (h : Readable e) : Readable (.typeof e) := by
  intro source ts eq
  obtain ⟨t, us, rfl, word, operand⟩ := map_lexeme_cons eq
  have fits := h.wrapped source (by decide) operand
  exact .of_stands (.cons (plain_word word) fits.closed) (starts_word word (by decide) us)
    (Stands.typeof (fits.stands (by decide)) word) (by simp [Expr.level])

theorem unary {op : UnaryOp} (h : Readable e) : Readable (.unary op e) := by
  intro source ts eq
  obtain ⟨t, us, rfl, operator, operand⟩ := map_lexeme_cons eq
  have fits := h.wrapped source (by decide) operand
  obtain ⟨kind, text⟩ := Token.kind_of_operator operator
  refine .of_stands (.cons (Token.plain_of_kind (by simp [kind])) fits.closed)
    (starts_of (.inr (.inr ?_)) us) (Stands.unary (fits.stands (by decide)) operator)
    (by simp [Expr.level])
  rw [text]
  cases op <;> decide

theorem binary {op : BinaryOp} {l r : Expr} (h : Readable l) (h' : Readable r) :
    Readable (.binary op l r) := by
  intro source ts eq
  obtain ⟨us, vs, rfl, left, more⟩ := map_lexeme_append eq
  obtain ⟨t, ws, rfl, operator, right⟩ := map_lexeme_cons more
  have bound : op.level < 6 := level_lt_levels op
  have fits := h.wrapped source (by omega) left
  have fits' := h'.wrapped source (by omega) right
  obtain ⟨kind, -⟩ := Token.kind_of_operator operator
  refine .of_stands (fits.closed.append (.cons (Token.plain_of_kind (by simp [kind])) fits'.closed))
    (fits.starts.append _) ?_ (by simp only [Expr.level]; omega)
  exact (fits.stands (by omega)).binary operator (fits'.stands (by omega))

end Readable

/-- A plain expression is read from its tokens. -/
theorem readable_of_plain (h : e.Plain) : Readable e := by
  induction h with
  | int short => exact .literal (.int short)
  | text s => exact .literal (.text s)
  | bool b => exact .literal (.bool b)
  | null => exact .literal .null
  | undefined => exact .literal .undefined
  | array _ ih => exact .array ih
  | object _ ih => exact .object ih
  | call named _ ih => exact .call named ih
  | methodCall _ _ _ ih ih' => exact ih.methodCall ih'
  | reference named => exact .reference named
  | property _ _ ih => exact ih.property
  | typeof _ ih => exact ih.typeof
  | unary _ ih => exact ih.unary
  | binary _ _ ih ih' => exact ih.binary ih'

end Grammar

/-- What is printed is read again.  The reader takes the whole text of a plain expression
for that expression, whatever lines are before the text; only the source forms of
property accesses may differ. -/
theorem printed_reparsed {e : Expr} (h : e.Plain) (linesBefore : Int) :
    ∃ e', parseExpression e.printed linesBefore = .ok e' ∧ e'.erased = e.erased := by
  obtain ⟨ts, tokenized, lexemes⟩ := h.tokenize linesBefore
  have fits := (Grammar.readable_of_plain h e.printed.toList ts lexemes).mono (Nat.zero_le _)
    (Grammar.level_le e)
  have stops : Grammar.Stops 0 [] := fun _ none => by cases none
  have gives := (fits.stands (by decide)).gives stops
  rw [List.append_nil] at gives
  obtain ⟨e', last, less, read, same⟩ := gives
  refine ⟨e', ?_, same⟩
  have whole : Grammar.standalone linesBefore e.printed.toList = .ok e' := by
    rw [Grammar.standalone]
    split
    · rename_i fault failed
      cases tokenized.symm.trans failed
    · rename_i ts' tokenized'
      obtain rfl := Except.ok.inj (tokenized.symm.trans tokenized')
      rw [Grammar.expression, read]
  rw [parseExpression, whole]

/-- A difference of differences, with a property of a sum. -/
def differences : Expr :=
  .binary .sub (.binary .sub (.reference "a") (.call "f" [.text "\n", .array []]))
    (.binary .sub (.unary .minus (.literal (.number (.int 12))))
      (.property (.binary .add (.reference "b") (.literal .null)) "if" "(b + null).if"))

/-- Only what is grouped to the right is in parentheses, and the target of the access. -/
theorem differences_reparsed :
    differences.printed = "a - f ( \"\\n\" , [ ] ) - ( - 12 - ( b + null ) . if )" ∧
    differences.Plain ∧ ∃ e, parseExpression differences.printed 0 = .ok e ∧
      e.erased = differences.erased := by
  have args : ∀ e ∈ [Expr.text "\n", .array []], e.Plain :=
    List.forall_mem_cons.mpr ⟨.text _, List.forall_mem_singleton.mpr (.array (by simp))⟩
  have target : (Expr.binary .add (.reference "b") (.literal .null)).Plain :=
    .binary (.reference (by decide)) .null
  have plain : differences.Plain :=
    .binary (.binary (.reference (by decide)) (.call (by decide) args))
      (.binary (.unary (.int (n := 12) (by decide))) (.property target (by decide)))
  exact ⟨by decide +kernel, plain, printed_reparsed plain 0⟩

end Runloop
