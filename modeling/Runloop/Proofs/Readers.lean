/-
# What readers of expressions take, and why they fail for good

A reader that gives a value has taken the tokens up to its last one, in the form of
`Shape`, and the value holds no bodies but those that it kept as text, or that are
in the holes of templates (`ofExpr`).  A reader that fails for the sake of a number
has come upon a number token, here or in a hole, that says no number (`Blames`).

Both are shown of all readers at once, by induction on how much text the tokens
stand for: `expression_sound` puts together one lemma for each reader, which says
what it comes to if all expressions in less text are sound.
-/
import Runloop.Proofs.Numerals
import Runloop.Proofs.Shapes

namespace Runloop.Grammar

variable {α β : Type} {source : List Char} {ts us rest all : List Token} {t c o : Token}

namespace Parsed

variable {n : Nat} (p : Parsed α n)

@[simp] theorem map_value (f : α → β) : (p.map f).value = f p.value := rfl

@[simp] theorem map_last (f : α → β) : (p.map f).last = p.last := rfl

@[simp] theorem map_rest (f : α → β) : (p.map f).rest = p.rest := rfl

end Parsed

/-! ## Outcomes -/

/-- A computation gives what is as `P` says, if it gives something; and if it fails for
the sake of a number, then as `E` says. -/
def Yields (r : Except Stop α) (P : α → Prop) (E : NumberFault → Prop) : Prop :=
  match r with
  | .ok a => P a
  | .error (.fatal (.number fault)) => E fault
  | .error _ => True

namespace Yields

variable {P : α → Prop} {Q : β → Prop} {E E' : NumberFault → Prop} {r : Except Stop α}

theorem refuse (why : Refusal) : Yields (Grammar.refuse why : Except Stop α) P E := trivial

theorem fail (e : SourceError) : Yields (Grammar.fail e : Except Stop α) P E := trivial

theorem mono (h : Yields r P E) {P' : α → Prop} (more : ∀ a, P a → P' a)
    (blame : ∀ fault, E fault → E' fault) : Yields r P' E' := by
  rcases r with (why | fault | fault) | a
  · trivial
  · trivial
  · exact blame fault h
  · exact more a h

theorem bind (h : Yields r P E) {f : α → Except Stop β} (next : ∀ a, P a → Yields (f a) Q E) :
    Yields (r >>= f) Q E := by
  rcases r with (why | fault | fault) | a
  · trivial
  · trivial
  · exact h
  · exact next a h

theorem map (h : Yields r P E) {f : α → β} (next : ∀ a, P a → Q (f a)) :
    Yields (r.map f) Q E := by
  rcases r with (why | fault | fault) | a
  · trivial
  · trivial
  · exact h
  · exact next a h

theorem of_ok (h : Yields r P E) {a : α} (eq : r = .ok a) : P a := by
  rw [eq] at h
  exact h

theorem of_error (h : Yields r P E) {fault : NumberFault}
    (eq : r = .error (.fatal (.number fault))) : E fault := by
  rw [eq] at h
  exact h

end Yields

/-! ## Blame -/

/-- A token of a text, or of a text in the hole of a template. -/
inductive Among : List Token → Token → Prop
  | here {ts : List Token} {t : Token} (h : t ∈ ts) : Among ts t
  | hole {ts us : List Token} {s t : Token} {cs : List Char} (h : s ∈ ts)
      (kind : s.kind = .template) (hole : .hole cs ∈ piecesOf s)
      (lexed : Token.ofChars (s.line - 1) cs = .ok us) (inner : Among us t) : Among ts t

/-- A number token says no number. -/
def Blames (ts : List Token) (fault : NumberFault) : Prop :=
  ∃ t, Among ts t ∧ t.kind = .number ∧ numberOf t.text = .error (.fatal (.number fault))

theorem Among.mono (h : Among ts t) (more : ∀ u ∈ ts, u ∈ us) : Among us t := by
  cases h with
  | here h => exact .here (more t h)
  | hole h kind hole lexed inner => exact .hole (more _ h) kind hole lexed inner

theorem Blames.mono {fault : NumberFault} (h : Blames ts fault) (more : ∀ u ∈ ts, u ∈ us) :
    Blames us fault := by
  obtain ⟨t, among, blamed⟩ := h
  exact ⟨t, among.mono more, blamed⟩

/-! ## Values -/

/-- An expression that was read from the tokens. -/
structure ofExpr (source : List Char) (taken : List Token) (e : Expr) : Prop where
  found : Found source taken e.bodies
  /-- A number is said by a token. -/
  said : ∀ n, e = .literal (.number n) → ∃ t ∈ taken, t.kind = .number ∧ numberOf t.text = .ok n

/-- Expressions that were read from the tokens. -/
def ofExprs (source : List Char) (taken : List Token) (es : List Expr) : Prop :=
  Found source taken (Expr.bodiesOf es)

/-- Entries that were read from the tokens. -/
def ofEntries (source : List Char) (taken : List Token) (es : List (String × Expr)) : Prop :=
  Found source taken (Expr.bodiesIn es)

/-- A function that was read from the tokens. -/
def ofFunction (source : List Char) (taken : List Token) (e : Expr) : Prop :=
  ∃ f, e = .function f ∧ Shape source taken [f.kept]

/-- A block that was read from the tokens. -/
def ofBlock (source : List Char) (taken : List Token) (b : Block) : Prop :=
  ∃ o inner c, taken = o :: (inner ++ [c]) ∧ o.isMark "\x7b" = true ∧
    closingBrace 0 (inner ++ [c]) = some (c, []) ∧ b.kept = blockBody source o c

/-- An arrow function that was read from the tokens, from its arrow on. -/
inductive ofArrow (source : List Char) : List Token → Expr → Prop
  | block {a : Token} {taken : List Token} {params : List String} {b : Block}
      (arrow : a.spells "=>" = true) (keeps : ofBlock source taken b) :
      ofArrow source (a :: taken) (functionOf params b true "")
  | concise {a first last : Token} {taken : List Token} {params : List String} {bodies : List Body}
      (arrow : a.spells "=>" = true) (found : Found source taken bodies)
      (head : taken.head? = some first) (back : taken.getLast? = some last) :
      ofArrow source (a :: taken) (conciseArrow source params first last)

/-- The tokens were taken, and nothing of them kept. -/
def passed (source : List Char) (taken : List Token) (_ : α) : Prop := Shape source taken []

/-- A token that is spelled in a way. -/
def spelled (s : String) (taken : List Token) (_ : α) : Prop :=
  ∃ t, taken = [t] ∧ t.spells s = true

/-- A word. -/
def named (taken : List Token) (_ : String) : Prop := ∃ t, taken = [t] ∧ t.kind = .word

/-- What was read took all of the tokens that are not left. -/
def Takes (Q : List Token → α → Prop) (all : List Token) {bound : Nat} (p : Parsed α bound) :
    Prop :=
  ∃ taken, all = taken ++ p.rest ∧ taken.getLast? = some p.last ∧ Q taken p.value

/-- The reader takes tokens for what it gives, or blames one of them. -/
def Sound (Q : List Token → α → Prop) (all : List Token) {bound : Nat}
    (r : Except Stop (Parsed α bound)) : Prop :=
  Yields r (Takes Q all) (Blames all)

namespace Sound

variable {Q : List Token → α → Prop} {Q' : List Token → β → Prop} {m n : Nat}

theorem refuse (why : Refusal) : Sound Q all (Grammar.refuse why : Except Stop (Parsed α n)) :=
  trivial

theorem fail (e : SourceError) : Sound Q all (Grammar.fail e : Except Stop (Parsed α n)) := trivial

theorem ok {value : α} {last : Token} {rest : List Token} {less : weight rest < n}
    (taken : List Token) (eq : all = taken ++ rest) (back : taken.getLast? = some last)
    (q : Q taken value) : Sound Q all (.ok ⟨value, last, rest, less⟩) := ⟨taken, eq, back, q⟩

/-- What goes on behind a reader. -/
theorem into {r : Except Stop (Parsed α n)} {E : NumberFault → Prop} {P : β → Prop}
    (h : Sound Q ts r) (blame : ∀ fault, Blames ts fault → E fault) {f : Parsed α n → Except Stop β}
    (next : ∀ value last rest less taken, ts = taken ++ rest → taken.getLast? = some last →
      Q taken value → Yields (f ⟨value, last, rest, less⟩) P E) : Yields (r >>= f) P E := by
  refine Yields.bind (Yields.mono h (fun _ h => h) blame) ?_
  rintro ⟨value, last, rest, less⟩ ⟨taken, eq, back, q⟩
  exact next value last rest less taken eq back q

/-- A reader that goes on behind another one. -/
theorem bind {r : Except Stop (Parsed α n)} (h : Sound Q ts r) (part : ∀ u ∈ ts, u ∈ all)
    {f : Parsed α n → Except Stop (Parsed β m)}
    (next : ∀ value last rest less taken, ts = taken ++ rest → taken.getLast? = some last →
      Q taken value → Sound Q' all (f ⟨value, last, rest, less⟩)) : Sound Q' all (r >>= f) :=
  h.into (fun _ blame => blame.mono part) next

theorem map {r : Except Stop (Parsed α n)} (h : Sound Q ts r) (part : ∀ u ∈ ts, u ∈ all)
    {f : Parsed α n → Parsed β m}
    (next : ∀ value last rest less taken, ts = taken ++ rest → taken.getLast? = some last →
      Q taken value → Sound Q' all (.ok (f ⟨value, last, rest, less⟩))) :
    Sound Q' all (r.map f) := by
  refine Yields.bind (Yields.mono h (fun _ h => h) fun _ blame => blame.mono part) ?_
  rintro ⟨value, last, rest, less⟩ ⟨taken, eq, back, q⟩
  exact next value last rest less taken eq back q

end Sound

/-- The last token is the last one behind others. -/
theorem last_append (front : List Token) {taken : List Token} {last : Token}
    (back : taken.getLast? = some last) : (front ++ taken).getLast? = some last := by
  rw [List.getLast?_append, back]
  rfl

/-- Tokens of a text. -/
def Lexes (ts : List Token) : Prop := ∀ t ∈ ts, t.Lexed

theorem Lexes.tail (h : Lexes (t :: ts)) : Lexes ts := fun u hu => h u (List.mem_cons_of_mem t hu)

theorem Lexes.right (h : Lexes (us ++ ts)) : Lexes ts :=
  fun u hu => h u (List.mem_append_right us hu)

/-! ## Single tokens -/

theorem expect_sound (s : String) (ts : List Token) : Sound (spelled s) ts (expect s ts) := by
  cases ts with
  | nil => exact .refuse _
  | cons t ts =>
      rw [expect]
      split
      · rename_i this
        exact .ok [t] rfl rfl ⟨t, rfl, this⟩
      · exact .refuse _

theorem name_sound (ts : List Token) : Sound named ts (name ts) := by
  cases ts with
  | nil => exact .refuse _
  | cons t ts =>
      rw [name]
      split
      · rename_i kind
        exact .ok [t] rfl rfl ⟨t, rfl, kind⟩
      · exact .refuse _

/-- A bracket that is spelled and the one that closes it. -/
theorem pairs_of_spells {s s' : String} (lexed : o.Lexed) (lexed' : c.Lexed)
    (opens : o.spells s = true) (closes : c.spells s' = true)
    (pair : (s, s') ∈ [("(", ")"), ("[", "]"), ("\x7b", "\x7d")]) : o.pairs c = true := by
  simp only [List.mem_cons, Prod.mk.injEq, List.not_mem_nil, or_false] at pair
  rcases pair with ⟨rfl, rfl⟩ | ⟨rfl, rfl⟩ | ⟨rfl, rfl⟩ <;>
    simp [Token.pairs, lexed.isMark opens (by decide), lexed'.isMark closes (by decide)]

/-! ## Parameters and blocks -/

/-- Something, and then the closing mark. -/
def closedBy (s : String) (Q : List Token → α → Prop) (taken : List Token) (a : α) : Prop :=
  ∃ inner c, taken = inner ++ [c] ∧ c.spells s = true ∧ Q inner a

theorem paramsRest_sound (source : List Char) (ts : List Token) :
    Sound (closedBy ")" (passed source)) ts (paramsRest ts) := by
  induction hn : ts.length using Nat.strongRecOn generalizing ts with
  | _ n ih =>
  subst hn
  cases ts with
  | nil => exact .refuse _
  | cons t ts =>
  rw [paramsRest.eq_def]
  dsimp only
  split
  · rename_i closes
    exact .ok [t] rfl rfl ⟨[], t, rfl, closes, .nil⟩
  · split
    · exact .refuse _
    · rename_i word
      have plain : t.plain = true := Token.plain_of_kind (by
        intro mark
        exact word (by simp [mark]))
      cases ts with
      | nil => exact .refuse _
      | cons c more =>
          dsimp only
          split
          · rename_i comma
            have shorter : more.length < (t :: c :: more).length := by
              simp only [List.length_cons]
              omega
            refine (ih more.length shorter more rfl).map (by simp +contextual) ?_
            rintro names last rest less taken rfl back ⟨inner, close, rfl, closes, shape⟩
            refine .ok (t :: c :: (inner ++ [close])) rfl (last_append [t, c] back)
              ⟨t :: c :: inner, close, rfl, closes, ?_⟩
            exact .append (.single plain) (.append
              (.single (Token.plain_of_spells comma (by decide))) shape)
          · split
            · rename_i closes
              exact .ok [t, c] rfl rfl ⟨[t], c, rfl, closes, .single plain⟩
            · exact .refuse _

theorem params_sound (source : List Char) (lexed : Lexes ts) :
    Sound (passed source) ts (params ts) := by
  cases ts with
  | nil => exact .refuse _
  | cons t ts =>
      rw [params]
      split
      · rename_i opens
        refine (paramsRest_sound source ts).map (by simp +contextual) ?_
        rintro names last rest less taken rfl back ⟨inner, close, rfl, closes, shape⟩
        refine .ok (t :: (inner ++ [close])) rfl (last_append [t] back) (shape.group ?_)
        exact pairs_of_spells (lexed t List.mem_cons_self) (lexed close (by simp)) opens closes
          (by simp)
      · exact .refuse _

theorem block_sound (source : List Char) (lexed : Lexes ts) :
    Sound (ofBlock source) ts (block source ts) := by
  cases ts with
  | nil => exact .refuse _
  | cons t ts =>
      rw [block]
      split
      · rename_i opens
        split
        · exact .fail _
        · rename_i close more closed
          obtain ⟨mark, inner, rfl, always⟩ := closingBrace_cases closed
          exact .ok (t :: (inner ++ [close])) (by simp) (last_append (t :: inner) rfl)
            ⟨t, inner, close, rfl, (lexed t List.mem_cons_self).isMark opens (by decide),
              always [], rfl⟩
      · exact .refuse _

/-! ## Parts of expressions -/

/-- A key in brackets has a name. -/
theorem keyName_ok {e : Expr} {taken : List Token} (h : ofExpr source taken e) :
    ∃ s, keyName e = .ok s := by
  unfold keyName
  split
  · exact ⟨_, rfl⟩
  · rename_i n
    obtain ⟨t, -, -, said⟩ := h.said n rfl
    obtain ⟨s, written⟩ := literalText_of_numberOf said
    rw [written]
    exact ⟨s, rfl⟩
  · exact ⟨_, rfl⟩

/-- An expression that is no number. -/
theorem ofExpr.of_found {e : Expr} {taken : List Token} (found : Found source taken e.bodies)
    (other : ∀ n, e ≠ .literal (.number n)) : ofExpr source taken e :=
  ⟨found, fun n same => absurd same (other n)⟩

/-- A token more in front. -/
theorem ofExpr.cons {e : Expr} {taken : List Token} (plain : t.plain = true)
    (h : ofExpr source taken e) : ofExpr source (t :: taken) e where
  found := .cons plain h.found
  said n same := by
    obtain ⟨u, hu, said⟩ := h.said n same
    exact ⟨u, List.mem_cons_of_mem t hu, said⟩

/-- What is called has the bodies of the callee and of the arguments. -/
theorem callOf_sound {callee : Expr} {args : List Expr} {E : NumberFault → Prop} :
    Yields (callOf callee args) (fun e =>
      (∀ b ∈ e.bodies, b ∈ callee.bodies ++ Expr.bodiesOf args) ∧
        ∀ n, e ≠ .literal (.number n)) E := by
  unfold callOf
  split
  · exact ⟨fun b hb => List.mem_append_right _ hb, fun n => by simp⟩
  · exact ⟨fun b hb => hb, fun n => by simp⟩
  · exact .refuse _

/-- Induction on how much text tokens stand for. -/
@[elab_as_elim]
theorem weight_induction {motive : List Token → Prop}
    (step : ∀ ts, (∀ us, weight us < weight ts → motive us) → motive ts) (ts : List Token) :
    motive ts :=
  (measure weight).wf.induction ts step

/-- Expressions in less text are sound. -/
def Soundness (n : Nat) : Prop :=
  ∀ source ts, weight ts < n → Lexes ts → Sound (ofExpr source) ts (expression source ts)

theorem Soundness.mono {m n : Nat} (h : Soundness n) (le : m ≤ n) : Soundness m :=
  fun source ts less => h source ts (Nat.lt_of_lt_of_le less le)

/-- Expressions between commas. -/
theorem items_sound (source : List Char) (closing : String) (h : Soundness (weight ts + 1))
    (lexed : Lexes ts) :
    Sound (closedBy closing (ofExprs source)) ts (items source closing ts) := by
  induction ts using weight_induction with
  | _ ts ih =>
  rw [items]
  split
  · refine (expect_sound closing ts).map (fun _ h => h) ?_
    rintro value last rest less taken rfl back ⟨c, rfl, closes⟩
    exact .ok [c] rfl back ⟨[], c, rfl, closes, .of_shape .nil⟩
  · refine (h source ts (Nat.lt_succ_self _) lexed).bind (fun _ h => h) ?_
    rintro e last rest less taken rfl back ofE
    dsimp only
    cases rest with
    | nil => exact .refuse _
    | cons c more =>
        have fewer : weight more < weight (taken ++ c :: more) :=
          Nat.lt_trans (weight_lt_cons c more) less
        dsimp only
        split
        · rename_i comma
          have plain : c.plain = true := Token.plain_of_spells comma (by decide)
          refine (ih more fewer (h.mono (Nat.succ_le_succ (Nat.le_of_lt fewer)))
            lexed.right.tail).bind (by simp +contextual) ?_
          rintro es last' rest' less' taken' rfl back' ⟨inner, close, rfl, closes, found⟩
          refine .ok (taken ++ c :: (inner ++ [close])) (by simp) ?_
            ⟨taken ++ c :: inner, close, by simp, closes, ?_⟩
          · exact last_append taken (last_append [c] back')
          · exact ofE.found.append (.cons plain found)
        · refine (expect_sound closing (c :: more)).bind (by simp +contextual) ?_
          rintro value last' rest' less' taken' eq back' ⟨c', rfl, closes⟩
          obtain ⟨rfl, rfl⟩ := List.cons.inj eq
          refine .ok (taken ++ [c]) (by simp) (last_append taken back') ⟨taken, c, rfl, closes, ?_⟩
          have := ofE.found
          rwa [← List.append_nil e.bodies] at this

/-! ## Functions -/

theorem ofFunction.expr {e : Expr} (h : ofFunction source us e) : ofExpr source us e := by
  obtain ⟨f, rfl, shape⟩ := h
  exact .of_found (.of_shape shape) fun n => by simp

theorem ofBlock.shape {b : Block} (h : ofBlock source us b) : Shape source us [b.kept] := by
  obtain ⟨o, inner, c, rfl, opens, closed, eq⟩ := h
  exact eq ▸ .block opens closed

/-- Parameters and a block are a function. -/
theorem functionOf_sound {params : List String} {b : Block} (first : List Token)
    {second : List Token} (passes : Shape source first []) (keeps : ofBlock source second b)
    (arrow : Bool) (name : String) :
    ofFunction source (first ++ second) (functionOf params b arrow name) :=
  ⟨_, rfl, passes.append keeps.shape⟩

theorem functionRest_sound (source : List Char) (lexed : Lexes ts) :
    Sound (ofExpr source) ts (functionRest source ts) := by
  cases ts with
  | nil => exact .refuse _
  | cons t ts =>
      rw [functionRest]
      split
      · rename_i kind
        refine (params_sound source lexed.tail).bind (by simp +contextual) ?_
        rintro ps last rest less taken rfl back passes
        dsimp only
        refine (block_sound source lexed.tail.right).bind (by simp +contextual) ?_
        rintro b last' rest' less' taken' rfl back' keeps
        have plain : t.plain = true := Token.plain_of_kind (by simp [kind])
        refine .ok (t :: (taken ++ taken')) (by simp) (last_append [t] (last_append taken back')) ?_
        exact (functionOf_sound (t :: taken) (.append (.single plain) passes) keeps ..).expr
      · refine (params_sound source lexed).bind (fun _ h => h) ?_
        rintro ps last rest less taken eq back passes
        rw [eq] at lexed
        dsimp only
        refine (block_sound source lexed.right).bind (by simp +contextual [eq]) ?_
        rintro b last' rest' less' taken' rfl back' keeps
        exact .ok (taken ++ taken') (by simp [eq]) (last_append taken back')
          (functionOf_sound taken passes keeps ..).expr

/-- What stands first is taken first. -/
theorem head?_of_taken {first : Token} {more taken : List Token} {last : Token}
    (eq : first :: more = taken ++ rest) (back : taken.getLast? = some last) :
    taken.head? = some first := by
  cases taken with
  | nil => cases back
  | cons t taken => rw [(List.cons.inj eq).1, List.head?_cons]

theorem ofArrow.function {e : Expr} (h : ofArrow source us e) : ofFunction source us e := by
  cases h with
  | block arrow keeps =>
      have plain := Token.plain_of_spells arrow (by decide)
      exact functionOf_sound [_] (.single plain) keeps true ""
  | concise arrow found head back =>
      obtain ⟨kept, shape, -⟩ := found
      exact ⟨_, rfl, .concise arrow shape head back⟩

/-- An arrow function from its arrow on. -/
theorem arrow_sound (source : List Char) (ps : List String) (h : Soundness (weight ts))
    (lexed : Lexes ts) : Sound (ofArrow source) ts (arrow source ps ts) := by
  rcases ts with - | ⟨t, - | ⟨first, more⟩⟩
  · rw [arrow]
    exact .refuse _
  · rw [arrow]
    split
    · exact .refuse _
    · exact .refuse _
  rw [arrow]
  split
  · exact .refuse _
  rename_i other
  have arrow : t.spells "=>" = true := by simpa using other
  split
  · refine (block_sound source lexed.tail).bind (fun _ h => List.mem_cons_of_mem t h) ?_
    rintro b last rest less taken eq back keeps
    exact .ok (t :: taken) (by simp [eq]) (last_append [t] back) (.block arrow keeps)
  · refine (h source (first :: more) (weight_lt_cons ..) lexed.tail).bind
      (fun _ h => List.mem_cons_of_mem t h) ?_
    rintro e last rest less taken eq back ofE
    have head := head?_of_taken eq back
    have stops : ofArrow source (t :: taken) (conciseArrow source ps first last) :=
      .concise arrow ofE.found head back
    dsimp only
    cases rest with
    | nil => exact .ok (t :: taken) (by simp [eq]) (last_append [t] back) stops
    | cons a rest' =>
        dsimp only
        split
        · rename_i assigns
          have operator : a.plain = true := Token.plain_of_kind (by
            simp only [isAssignment, Bool.and_eq_true, beq_iff_eq] at assigns
            simp [assigns.1])
          have fewer : weight rest' < weight (t :: first :: more) :=
            Nat.lt_trans (weight_lt_cons a rest') (Nat.lt_trans less (weight_lt_cons ..))
          have later : Lexes rest' := by
            have := lexed.tail
            rw [eq] at this
            exact this.right.tail
          refine (h source rest' fewer later).bind (by simp +contextual [eq]) ?_
          rintro value last' rest'' less' taken' rfl back' ofValue
          have back'' := last_append taken (last_append [a] back')
          have whole : t :: first :: more = t :: (taken ++ a :: taken') ++ rest'' := by simp [eq]
          refine .ok (t :: (taken ++ a :: taken')) whole (last_append [t] back'') ?_
          refine .concise arrow (ofE.found.append (.cons operator ofValue.found)) ?_ back''
          have inner : first :: more = taken ++ ([a] ++ taken') ++ rest'' := by simp [eq]
          exact head?_of_taken inner back''
        · exact .ok (t :: taken) (by simp [eq]) (last_append [t] back) stops

/-! ## Objects -/

/-- What is read behind a token that was taken before. -/
theorem entryValue_sound (source : List Char) (key : String) (h : Soundness (weight ts))
    (lexed : Lexes ts) (plain : t.plain = true) :
    Sound (ofExpr source) (t :: ts) (entryValue source t key ts) := by
  cases ts with
  | nil =>
      rw [entryValue]
      exact .refuse _
  | cons c more =>
      rw [entryValue]
      split
      · rename_i colon
        refine (h source more (weight_lt_cons ..) lexed.tail).bind (by simp +contextual) ?_
        rintro e last rest less taken rfl back ofE
        have plain' : c.plain = true := Token.plain_of_spells colon (by decide)
        exact .ok (t :: c :: taken) rfl (last_append [t, c] back) ((ofE.cons plain').cons plain)
      · split
        · exact .ok [t] rfl rfl (.of_found (.single plain) (by simp))
        · split
          · refine (params_sound source lexed).bind (fun _ h => List.mem_cons_of_mem t h) ?_
            rintro ps last rest less taken eq back passes
            rw [eq] at lexed
            dsimp only
            refine (block_sound source lexed.right).bind (by simp +contextual [eq]) ?_
            rintro b last' rest' less' taken' rfl back' keeps
            refine .ok (t :: (taken ++ taken')) (by simp [eq])
              (last_append [t] (last_append taken back')) ?_
            exact (functionOf_sound (t :: taken) (.append (.single plain) passes) keeps ..).expr
          · exact .refuse _

/-- The entries of an object, up to its closing brace. -/
theorem entries_sound (source : List Char) (h : Soundness (weight ts)) (lexed : Lexes ts) :
    Sound (closedBy "\x7d" (ofEntries source)) ts (entries source ts) := by
  induction ts using weight_induction with
  | _ ts ih =>
  cases ts with
  | nil =>
      rw [entries]
      exact .refuse _
  | cons t more =>
  rw [entries]
  split
  · rename_i closes
    exact .ok [t] rfl rfl ⟨[], t, rfl, closes, .of_shape .nil⟩
  · cases named : entryKey t with
    | error stop =>
        unfold entryKey at named
        split at named
        · cases named
        · cases named
        · cases named
        · cases named
          exact .refuse _
    | ok key =>
    have plain : t.plain = true := by
      refine Token.plain_of_kind fun mark => ?_
      rw [entryKey, mark] at named
      cases named
    refine (entryValue_sound source key (h.mono (weight_le_cons t more)) lexed.tail plain).bind
      (fun _ h => h) ?_
    rintro e last rest less taken eq back ofE
    dsimp only
    cases rest with
    | nil => exact .refuse _
    | cons c more' =>
        have fewer : weight more' < weight (t :: more) := by
          have := weight_lt_cons c more'
          have := weight_lt_cons t more
          omega
        have later : Lexes (c :: more') := by
          rw [eq] at lexed
          exact lexed.right
        dsimp only
        split
        · rename_i comma
          have plain' : c.plain = true := Token.plain_of_spells comma (by decide)
          refine (ih more' fewer (h.mono (Nat.le_of_lt fewer)) later.tail).bind
            (by simp +contextual [eq]) ?_
          rintro es last' rest' less' taken' rfl back' ⟨inner, close, rfl, closes, found⟩
          have whole : t :: more = taken ++ c :: (inner ++ [close]) ++ rest' := by simp [eq]
          refine .ok (taken ++ c :: (inner ++ [close])) whole
            (last_append taken (last_append [c] back'))
            ⟨taken ++ c :: inner, close, by simp, closes, ?_⟩
          exact ofE.found.append (.cons plain' found)
        · refine (expect_sound "\x7d" (c :: more')).bind (by simp +contextual [eq]) ?_
          rintro value last' rest' less' taken' eq' back' ⟨c', rfl, closes⟩
          obtain ⟨rfl, rfl⟩ := List.cons.inj eq'
          have whole : t :: more = taken ++ [c] ++ more' := by simp [eq]
          refine .ok (taken ++ [c]) whole (last_append taken back') ⟨taken, c, rfl, closes, ?_⟩
          have := ofE.found
          rwa [← List.append_nil e.bodies] at this

/-! ## Templates -/

theorem bodies_foldl_add (es : List Expr) (start : Expr) :
    (es.foldl (.binary .add) start).bodies = start.bodies ++ Expr.bodiesOf es := by
  induction es generalizing start with
  | nil => simp [Expr.bodiesOf]
  | cons e es ih => rw [List.foldl_cons, ih, Expr.bodies, Expr.bodiesOf, List.append_assoc]

theorem foldl_add_ne {es : List Expr} {start : Expr} (h : ∀ n, start ≠ .literal (.number n)) :
    ∀ n, es.foldl (.binary .add) start ≠ .literal (.number n) := by
  induction es generalizing start with
  | nil => exact h
  | cons e es ih => exact ih fun n => by simp

/-- The parts of a template are joined to a text. -/
theorem joinParts_sound (parts : List Expr) :
    (joinParts parts).bodies = Expr.bodiesOf parts ∧
      ∀ n, joinParts parts ≠ .literal (.number n) := by
  cases parts with
  | nil => exact ⟨rfl, fun n => by simp [joinParts, Expr.text]⟩
  | cons e es =>
      unfold joinParts
      dsimp only
      split
      · refine ⟨?_, foldl_add_ne fun n => by simp [Expr.text]⟩
        rw [bodies_foldl_add]
        rfl
      · refine ⟨?_, foldl_add_ne fun n => by simp⟩
        rw [bodies_foldl_add, Expr.bodiesOf]
        simp [Expr.text, Expr.bodies]

/-- A text of its own blames a token of its own. -/
theorem standalone_sound {cs : List Char} (h : Soundness (cs.length + 1)) (linesBefore : Int) :
    Yields (standalone linesBefore cs) (fun _ => True)
      (fun fault => ∃ ts, Token.ofChars linesBefore cs = .ok ts ∧ Blames ts fault) := by
  rw [standalone]
  split
  · exact .fail _
  · rename_i ts lexed
    obtain ⟨q, scanned⟩ := Token.Scanned.of_scan lexed
    have sound := h cs ts (Nat.lt_succ_of_le (weight_ofChars lexed)) scanned.lexed
    split
    · exact .fail _
    · rename_i fault failed
      cases fault with
      | source e => exact trivial
      | number fault => exact ⟨ts, lexed, Yields.of_error sound failed⟩
    · rename_i p read
      split
      · exact trivial
      · exact .fail _

theorem templateParts_sound (kind : t.kind = .template) {ps : List TemplatePiece}
    (h : Soundness (piecesWeight ps)) (among : ∀ p ∈ ps, p ∈ piecesOf t) :
    Yields (templateParts t ps) (fun es => ∀ b ∈ Expr.bodiesOf es, InHole t b) (Blames [t]) := by
  induction ps with
  | nil =>
      rw [templateParts]
      exact fun b hb => absurd hb List.not_mem_nil
  | cons p ps ih =>
      have rest := fun le => ih (h.mono le) fun p' hp' => among p' (List.mem_cons_of_mem p hp')
      cases p with
      | text cs =>
          rw [templateParts]
          refine (rest (by simp [piecesWeight])).bind fun es hes => ?_
          exact fun b hb => hes b (by simpa [Expr.bodiesOf, Expr.text, Expr.bodies] using hb)
      | openHole =>
          rw [templateParts]
          exact .fail _
      | hole cs =>
          rw [templateParts]
          have hole := among (.hole cs) List.mem_cons_self
          have less : cs.length + 1 ≤ piecesWeight (.hole cs :: ps) := by
            rw [piecesWeight]
            omega
          have alone := standalone_sound (h.mono less) (t.line - 1)
          cases read : standalone (t.line - 1) cs with
          | error stop =>
              rcases stop with why | fault | fault
              · trivial
              · trivial
              · obtain ⟨us, lexed, u, among, blamed⟩ := Yields.of_error alone read
                exact ⟨u, .hole (List.mem_singleton_self t) kind hole lexed among, blamed⟩
          | ok e =>
              refine Yields.bind (rest (by rw [piecesWeight]; omega)) fun es hes => ?_
              intro b hb
              rw [Expr.bodiesOf] at hb
              rcases List.mem_append.mp hb with here | later
              · exact ⟨kind, cs, e, hole, read, here⟩
              · exact hes b later

/-! ## Expressions -/

/-- A group in brackets, from what is taken of it behind the one that opens. -/
theorem closedBy.group {s s' : String} {Q : List Token → α → Prop} {taken : List Token} {a : α}
    {bodies : List Body} (h : closedBy s' Q taken a) (lexed : Lexes (o :: (taken ++ rest)))
    (opens : o.spells s = true)
    (pair : (s, s') ∈ [("(", ")"), ("[", "]"), ("\x7b", "\x7d")])
    (found : ∀ inner, Q inner a → Found source inner bodies) :
    Found source (o :: taken) bodies := by
  obtain ⟨inner, c, rfl, closes, q⟩ := h
  refine .group (pairs_of_spells (lexed o List.mem_cons_self) (lexed c ?_) opens closes pair)
    (found inner q)
  simp

theorem spells_of_text {s : String} (text : t.text = s)
    (kind : t.kind = .word ∨ t.kind = .operator ∨ t.kind = .mark) : t.spells s = true := by
  rcases kind with kind | kind | kind <;> simp [Token.spells, kind, text]

/-- An expression that starts with a word. -/
theorem word_sound (source : List Char) (kind : t.kind = .word) (h : Soundness (weight (t :: ts)))
    (lexed : Lexes (t :: ts)) : Sound (ofExpr source) (t :: ts) (word source t ts) := by
  have plain : t.plain = true := Token.plain_of_kind (by simp [kind])
  have alone {e : Expr} (none : e.bodies = []) (other : ∀ n, e ≠ .literal (.number n)) :
      Sound (ofExpr source) (t :: ts)
        (.ok ⟨e, t, ts, weight_lt_cons t ts⟩ : Reading Expr (t :: ts)) :=
    .ok [t] rfl rfl (.of_found (by rw [none]; exact .single plain) other)
  rw [word.eq_def]
  dsimp only
  split
  · exact alone rfl (by simp)
  · exact alone rfl (by simp)
  · exact alone rfl (by simp)
  · exact alone rfl (by simp [Expr.undefined])
  · refine (functionRest_sound source lexed.tail).map (fun _ h => List.mem_cons_of_mem t h) ?_
    rintro e last rest less taken rfl back ofE
    exact .ok (t :: taken) rfl (last_append [t] back) (ofE.cons plain)
  · refine (name_sound ts).bind (fun _ h => List.mem_cons_of_mem t h) ?_
    rintro ctor last rest less taken rfl back ⟨u, rfl, word⟩
    have plain' : u.plain = true := Token.plain_of_kind (by simp [word])
    have front : Found source [t, u] [] := .cons plain (.single plain')
    have stops : ofExpr source [t, u] (.object []) := .of_found front (by simp)
    dsimp only
    cases rest with
    | nil => exact .ok [t, u] rfl (last_append [t] back) stops
    | cons p rest' =>
        dsimp only
        split
        · rename_i opens
          have items := items_sound source ")"
            (h.mono (Nat.le_trans (weight_lt_cons p rest') (Nat.le_trans
              (weight_le_cons u _) (weight_le_cons t _)))) lexed.tail.tail.tail
          refine items.bind (by simp +contextual) ?_
          rintro es last' rest'' less' taken' rfl back' closed
          refine .ok (t :: u :: p :: taken') (by simp) (last_append [t, u, p] back')
            (.of_found ?_ (by simp))
          refine front.append (closed.group lexed.tail.tail opens
            (by simp) fun inner found => found.nothing)
        · exact .ok [t, u] rfl (last_append [t] back) stops
  · split
    · refine (arrow_sound source [t.text] (h.mono (weight_le_cons t ts)) lexed.tail).bind
        (fun _ h => List.mem_cons_of_mem t h) ?_
      rintro e last rest less taken rfl back ofE
      exact .ok (t :: taken) rfl (last_append [t] back) (ofE.function.expr.cons plain)
    · split
      · exact .refuse _
      · exact alone rfl (by simp)

/-- An expression that starts with its own first token. -/
theorem primary_sound (source : List Char) (h : Soundness (weight ts)) (lexed : Lexes ts) :
    Sound (ofExpr source) ts (primary source ts) := by
  cases ts with
  | nil =>
      rw [primary]
      exact .refuse _
  | cons t more =>
  have single {e : Expr} (found : Found source [t] e.bodies)
      (said : ∀ n, e = .literal (.number n) → t.kind = .number ∧ numberOf t.text = .ok n) :
      Sound (ofExpr source) (t :: more)
        (.ok ⟨e, t, more, weight_lt_cons t more⟩ : Reading Expr (t :: more)) :=
    .ok [t] rfl rfl ⟨found, fun n same => ⟨t, List.mem_singleton_self t, said n same⟩⟩
  rw [primary]
  split
  · rename_i kind
    have plain : t.plain = true := Token.plain_of_kind (by simp [kind])
    cases read : numberOf t.text with
    | error stop =>
        rcases stop with why | fault | fault
        · trivial
        · trivial
        · exact ⟨t, .here List.mem_cons_self, kind, read⟩
    | ok n =>
        refine single (.single plain) fun m same => ⟨kind, ?_⟩
        cases same
        exact read
  · rename_i kind
    exact single (.single (Token.plain_of_kind (by simp [kind]))) fun n same => by
      simp [Expr.text] at same
  · rename_i kind
    have plain : t.plain = true := Token.plain_of_kind (by simp [kind])
    have parts := templateParts_sound kind (h.mono (Nat.le_of_lt (piecesWeight_piecesOf t more)))
      fun _ hp => hp
    refine Yields.bind (Yields.mono parts (fun _ h => h) fun _ blame =>
      blame.mono fun u hu => ?_) fun es hes => ?_
    · rw [List.mem_singleton.mp hu]
      exact List.mem_cons_self
    · obtain ⟨bodies, other⟩ := joinParts_sound es
      refine single ⟨[], .single plain, fun b hb => ?_⟩ fun n same => absurd same (other n)
      rw [bodies] at hb
      exact .hole (List.mem_singleton_self t) (hes b hb)
  · rename_i kind
    exact word_sound source kind h lexed
  · rename_i number text template word
    have kind : t.kind = .word ∨ t.kind = .operator ∨ t.kind = .mark := by
      cases kind : t.kind <;> simp_all
    have inside := h.mono (Nat.succ_le_of_lt (weight_lt_cons t more))
    split
    -- An array, an object, or what stands in parentheses.
    · rename_i text
      refine (items_sound source "]" inside lexed.tail).bind
        (fun _ h => List.mem_cons_of_mem t h) ?_
      rintro es last rest less taken rfl back closed
      refine .ok (t :: taken) rfl (last_append [t] back) (.of_found ?_ (by simp))
      exact closed.group lexed (spells_of_text text kind) (by simp) fun inner found => found
    · split
      · rename_i text
        have entries := entries_sound source (h.mono (weight_le_cons t more)) lexed.tail
        refine entries.bind (fun _ h => List.mem_cons_of_mem t h) ?_
        rintro es last rest less taken rfl back closed
        refine .ok (t :: taken) rfl (last_append [t] back) (.of_found ?_ (by simp))
        exact closed.group lexed (spells_of_text text kind) (by simp) fun inner found => found
      · split
        · rename_i text
          split
          -- The parentheses are those of an arrow function, or a group.
          · refine (params_sound source lexed).bind (fun _ h => h) ?_
            rintro ps last rest less taken eq back passes
            dsimp only
            rw [eq] at lexed
            refine (arrow_sound source ps (h.mono (Nat.le_of_lt less)) lexed.right).bind
              (by simp +contextual [eq]) ?_
            rintro e last' rest' less' taken' rfl back' ofE
            obtain ⟨f, rfl, shape⟩ := ofE.function
            exact .ok (taken ++ taken') (by simp [eq]) (last_append taken back')
              (ofFunction.expr ⟨f, rfl, passes.append shape⟩)
          · refine (h source more (weight_lt_cons ..) lexed.tail).bind
              (fun _ h => List.mem_cons_of_mem t h) ?_
            rintro e last rest less taken rfl back ofE
            dsimp only
            refine (expect_sound ")" rest).bind (by simp +contextual) ?_
            rintro value last' rest' less' taken' rfl back' ⟨c, rfl, closes⟩
            have whole : t :: (taken ++ ([c] ++ rest')) = t :: (taken ++ [c]) ++ rest' := by simp
            refine .ok (t :: (taken ++ [c])) whole (last_append (t :: taken) back') ⟨?_, ?_⟩
            · refine .group (pairs_of_spells (lexed t List.mem_cons_self) (lexed c (by simp))
                (spells_of_text text kind) closes (by simp)) ofE.found
            · intro n same
              obtain ⟨u, hu, said⟩ := ofE.said n same
              exact ⟨u, by simp [hu], said⟩
        · exact .refuse _

/-- Calls and accesses behind an expression. -/
theorem suffixes_sound (source : List Char) (start : Nat) {e : Expr} {last : Token}
    {front : List Token} (h : Soundness (weight ts)) (lexed : Lexes (front ++ ts))
    (ofE : ofExpr source front e) (back : front.getLast? = some last) :
    Sound (ofExpr source) (front ++ ts) (suffixes source start e last ts) := by
  induction ts using weight_induction generalizing front e last with
  | _ ts ih =>
  cases ts with
  | nil =>
      rw [suffixes]
      exact .ok front rfl back ofE
  | cons t more =>
  rw [suffixes]
  split
  · rename_i point
    have plain : t.plain = true := Token.plain_of_spells point (by decide)
    refine (name_sound more).bind (by simp +contextual) ?_
    rintro n last' rest less taken rfl back' ⟨u, rfl, word⟩
    have plain' : u.plain = true := Token.plain_of_kind (by simp [word])
    dsimp only
    have eq : front ++ t :: ([u] ++ rest) = front ++ [t, u] ++ rest := by simp
    rw [eq] at lexed ⊢
    have fewer : weight rest < weight (t :: ([u] ++ rest)) :=
      Nat.lt_trans less (weight_lt_cons ..)
    refine (ih rest fewer (h.mono (Nat.le_of_lt fewer)) lexed (.of_found ?_ (by simp))
      (last_append front (last_append [t] back'))).bind (fun _ h => h) ?_
    · exact (ofE.found.append (.cons plain (.single plain'))).fewer (by simp [Expr.bodies])
    · rintro e' last'' rest' less' taken eq' back'' ofE'
      exact .ok taken eq' back'' ofE'
  split
  · rename_i opens
    have inside := items_sound source ")" (h.mono (weight_lt_cons t more))
      lexed.right.tail
    refine inside.bind (by simp +contextual) ?_
    rintro args last' rest less taken rfl back' closed
    dsimp only
    have group : Found source (t :: taken) (Expr.bodiesOf args) :=
      closed.group lexed.right opens (by simp) fun inner found => found
    refine Yields.bind callOf_sound ?_
    rintro called ⟨bodies, other⟩
    have eq : front ++ t :: (taken ++ rest) = front ++ (t :: taken) ++ rest := by simp
    rw [eq] at lexed ⊢
    have fewer : weight rest < weight (t :: (taken ++ rest)) :=
      Nat.lt_trans less (weight_lt_cons ..)
    refine (ih rest fewer (h.mono (Nat.le_of_lt fewer)) lexed
      (.of_found ((ofE.found.append group).fewer bodies) other)
      (last_append front (last_append [t] back'))).bind (fun _ h => h) ?_
    rintro e' last'' rest' less' taken' eq' back'' ofE'
    exact .ok taken' eq' back'' ofE'
  split
  · rename_i opens
    refine (h source more (weight_lt_cons ..) lexed.right.tail).bind (by simp +contextual) ?_
    rintro key last' rest less taken rfl back' ofKey
    dsimp only
    refine (expect_sound "]" rest).bind (by simp +contextual) ?_
    rintro value last'' rest' less' taken' rfl back'' ⟨c, rfl, closes⟩
    dsimp only
    obtain ⟨s, named⟩ := keyName_ok ofKey
    rw [named]
    have pair := pairs_of_spells (lexed t (by simp)) (lexed c (by simp)) opens closes (by simp)
    have eq : front ++ t :: (taken ++ ([c] ++ rest')) =
        front ++ (t :: (taken ++ [c])) ++ rest' := by simp
    rw [eq] at lexed ⊢
    have fewer : weight rest' < weight (t :: (taken ++ ([c] ++ rest'))) :=
      Nat.lt_trans less' (Nat.lt_trans less (weight_lt_cons ..))
    refine (ih rest' fewer (h.mono (Nat.le_of_lt fewer)) lexed (.of_found ?_ (by simp))
      (last_append front (last_append (t :: taken) back''))).bind (fun _ h => h) ?_
    · exact (ofE.found.append (ofKey.found.nothing.group pair)).fewer (by simp [Expr.bodies])
    · rintro e' last₁ rest₁ less₁ taken₁ eq₁ back₁ ofE'
      exact .ok taken₁ eq₁ back₁ ofE'
  · exact .ok front rfl back ofE

theorem suffixed_sound (source : List Char) (h : Soundness (weight ts)) (lexed : Lexes ts) :
    Sound (ofExpr source) ts (suffixed source ts) := by
  cases ts with
  | nil =>
      rw [suffixed]
      exact .refuse _
  | cons t more =>
      rw [suffixed]
      refine (primary_sound source h lexed).bind (fun _ h => h) ?_
      rintro e last rest less taken eq back ofE
      dsimp only
      rw [eq] at lexed
      refine (suffixes_sound source t.start (h.mono (Nat.le_of_lt less)) lexed ofE back).bind
        (by simp [eq]) ?_
      rintro e' last' rest' less' taken' eq' back' ofE'
      exact .ok taken' (eq.trans eq') back' ofE'

/-- An expression with its prefix operators. -/
theorem unary_sound (source : List Char) (h : Soundness (weight ts)) (lexed : Lexes ts) :
    Sound (ofExpr source) ts (unary source ts) := by
  induction ts using weight_induction with
  | _ ts ih =>
  cases ts with
  | nil =>
      rw [unary]
      exact .refuse _
  | cons t more =>
  have rest := fun lexed => ih more (weight_lt_cons t more) (h.mono (weight_le_cons t more)) lexed
  rw [unary]
  split
  · rename_i word
    have plain : t.plain = true := Token.plain_of_spells word (by decide)
    refine (rest lexed.tail).bind (fun _ h => List.mem_cons_of_mem t h) ?_
    rintro e last rest less taken rfl back ofE
    exact .ok (t :: taken) rfl (last_append [t] back) (.of_found (.cons plain ofE.found) (by simp))
  · split
    · rename_i op operator
      have plain : t.plain = true := by
        refine Token.plain_of_kind fun mark => ?_
        simp [unaryAt?, mark] at operator
      refine (rest lexed.tail).bind (fun _ h => List.mem_cons_of_mem t h) ?_
      rintro e last rest less taken rfl back ofE
      exact .ok (t :: taken) rfl (last_append [t] back)
        (.of_found (.cons plain ofE.found) (by simp))
    · exact suffixed_sound source h lexed

/-- Further operands of a level, if those of the next one are sound. -/
theorem binaryRest_sound (source : List Char) (level : Nat)
    (next : ∀ us, weight us < weight ts → Lexes us →
      Sound (ofExpr source) us (binary source (level + 1) us))
    {e : Expr} {last : Token} {front : List Token} (lexed : Lexes (front ++ ts))
    (ofE : ofExpr source front e) (back : front.getLast? = some last) :
    Sound (ofExpr source) (front ++ ts) (binaryRest source level e last ts) := by
  induction ts using weight_induction generalizing front e last with
  | _ ts ih =>
  cases ts with
  | nil =>
      rw [binaryRest]
      exact .ok front rfl back ofE
  | cons t more =>
  rw [binaryRest]
  split
  · exact .ok front rfl back ofE
  · rename_i op operator
    have plain : t.plain = true := by
      refine Token.plain_of_kind fun mark => ?_
      simp [operatorAt?, mark] at operator
    refine (next more (weight_lt_cons t more) lexed.right.tail).bind (by simp +contextual) ?_
    rintro right last' rest less taken rfl back' ofRight
    dsimp only
    have eq : front ++ t :: (taken ++ rest) = front ++ (t :: taken) ++ rest := by simp
    rw [eq] at lexed ⊢
    have fewer : weight rest < weight (t :: (taken ++ rest)) :=
      Nat.lt_trans less (weight_lt_cons ..)
    refine (ih rest fewer (fun us less => next us (Nat.lt_trans less fewer)) lexed
      (.of_found ?_ (by simp)) (last_append front (last_append [t] back'))).bind (fun _ h => h) ?_
    · exact ofE.found.append (.cons plain ofRight.found)
    · rintro e' last'' rest' less' taken' eq' back'' ofE'
      exact .ok taken' eq' back'' ofE'

/-- An expression of a level of binary operators. -/
theorem binary_sound (source : List Char) (h : Soundness (weight ts)) (lexed : Lexes ts)
    (level : Nat) : Sound (ofExpr source) ts (binary source level ts) := by
  induction hn : BinaryOp.levels - level generalizing level ts with
  | zero =>
      rw [binary, if_neg (by omega)]
      exact unary_sound source h lexed
  | succ n ih =>
      rw [binary, if_pos (by omega)]
      refine (ih h lexed (level + 1) (by omega)).bind (fun _ h => h) ?_
      rintro e last rest less taken rfl back ofE
      dsimp only
      refine (binaryRest_sound source level (fun us less' lexed' =>
        ih (h.mono (Nat.le_of_lt (Nat.lt_trans less' less))) lexed' (level + 1) (by omega))
        lexed ofE back).bind (fun _ h => h) ?_
      rintro e' last' rest' less' taken' eq' back' ofE'
      exact .ok taken' eq' back' ofE'

/-- Readers of expressions take what has the form of `Shape`, and blame number tokens
alone. -/
theorem expression_sound (source : List Char) (ts : List Token) (lexed : Lexes ts) :
    Sound (ofExpr source) ts (expression source ts) := by
  have all (n : Nat) : Soundness n := by
    induction n with
    | zero => exact fun source ts none => absurd none (Nat.not_lt_zero _)
    | succ n ih =>
        intro source ts less lexed
        rw [expression]
        exact binary_sound source (ih.mono (Nat.le_of_lt_succ less)) lexed 0
  exact all (weight ts + 1) source ts (Nat.lt_succ_self _) lexed

theorem soundness (n : Nat) : Soundness n :=
  fun source ts _ lexed => expression_sound source ts lexed

end Runloop.Grammar
