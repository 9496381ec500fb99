/-
# What readers of statements take, and why they fail for good

Statements are read as expressions are: the reader takes tokens in the form of
`Shape`, and the instructions have the bodies that were kept on the way.  All
instructions of a statement have the line of its first token
(`statement_sound`).

Beyond the numbers that expressions fail for, there is one that only a timer takes
offence at, namely a delay without end.
-/
import Runloop.Proofs.Readers

namespace Runloop.Grammar

variable {α β : Type} {source : List Char} {ts us rest all : List Token} {t c o : Token}

/-! ## Values -/

/-- A callback that was read from the tokens. -/
def ofCallback (source : List Char) (taken : List Token) (arg : CallbackArg) : Prop :=
  Found source taken [arg.callback.kept]

/-- An instruction that was read from the tokens, of a line. -/
structure ofInstruction (source : List Char) (line : Int) (taken : List Token) (i : Instruction) :
    Prop where
  found : Found source taken i.bodies
  line : i.line = line

/-- Instructions that were read from the tokens, all of one line. -/
structure ofInstructions (source : List Char) (line : Int) (taken : List Token)
    (is : List Instruction) : Prop where
  found : Found source taken (is.flatMap Instruction.bodies)
  line : ∀ i ∈ is, i.line = line

variable {line : Int} {i : Instruction} {is : List Instruction}

/-- A token more in front. -/
theorem ofInstruction.cons (h : ofInstruction source line us i) (plain : t.plain = true) :
    ofInstruction source line (t :: us) i := ⟨.cons plain h.found, h.line⟩

theorem ofInstruction.alone (h : ofInstruction source line us i) :
    ofInstructions source line us [i] where
  found := by simpa using h.found
  line := by simpa using h.line

theorem ofInstructions.cons (h : ofInstructions source line us is) (plain : t.plain = true) :
    ofInstructions source line (t :: us) is := ⟨.cons plain h.found, h.line⟩

/-! ## Arguments -/

theorem arguments_sound (source : List Char) (lexed : Lexes ts) :
    Sound (ofExprs source) ts (arguments source ts) := by
  unfold arguments
  refine (expect_sound "(" ts).bind (fun _ h => h) ?_
  rintro value last rest less taken rfl back ⟨o, rfl, opens⟩
  dsimp only
  refine (items_sound source ")" (soundness _) lexed.right).bind (by simp +contextual) ?_
  rintro es last' rest' less' taken rfl back' closed
  exact .ok (o :: taken) rfl (last_append [o] back')
    (closed.group lexed opens (by simp) fun inner found => found)

theorem callbackArg_sound (source : List Char) (lexed : Lexes ts) :
    Sound (ofCallback source) ts (callbackArg source ts) := by
  cases ts with
  | nil => exact .refuse _
  | cons t ts =>
      rw [callbackArg]
      split
      · rename_i this
        simp only [Bool.and_eq_true, decide_eq_true_eq] at this
        have word : t.kind = .word := this.1.1
        refine .ok [t] rfl rfl ⟨[], .single (Token.plain_of_kind (by simp [word])), fun b hb => ?_⟩
        exact .call (List.mem_singleton_self t) word (List.mem_singleton.mp hb)
      · refine (expression_sound source (t :: ts) lexed).bind (fun _ h => h) ?_
        rintro e last rest less taken eq back ofE
        dsimp only
        split
        · exact .ok taken eq back ofE.found
        · exact .refuse _

/-! ## Instructions -/

/-- The declared variables after a declaration keyword. -/
theorem declarators_sound (source : List Char) (keyword : DeclKeyword) (line : Int)
    (lexed : Lexes ts) :
    Sound (ofInstructions source line) ts (declarators source keyword line ts) := by
  induction ts using weight_induction with
  | _ ts ih =>
  rw [declarators]
  refine (name_sound ts).bind (fun _ h => h) ?_
  rintro n last rest less taken rfl back ⟨u, rfl, word⟩
  have plain : u.plain = true := Token.plain_of_kind (by simp [word])
  have bare : ofInstruction source line [u] (.declare keyword n .undefined line) :=
    ⟨.single plain, rfl⟩
  dsimp only
  refine Sound.bind (Q := ofInstruction source line) ?one (fun _ h => h) ?more
  case one =>
    cases rest with
    | nil => exact .ok [u] rfl back bare
    | cons eq more =>
    dsimp only
    split
    · exact .ok [u] rfl back bare
    rename_i equals
    have plain' : eq.plain = true :=
      Token.plain_of_spells (s := "=") (by simpa using equals) (by decide)
    have value : Sound (ofInstruction source line) ([u] ++ eq :: more) (do
        let p ← expression source more
        return (p.map fun e => Instruction.declare keyword n e line).widen
          (Nat.le_succ_of_le (weight_le_cons eq more))) := by
      refine (expression_sound source more lexed.right.tail).bind (by simp +contextual) ?_
      rintro e last' rest' less' taken' rfl back' ofE
      exact .ok (u :: eq :: taken') (by simp) (last_append [u, eq] back')
        ⟨.cons plain (.cons plain' ofE.found), rfl⟩
    rcases more with - | ⟨new, - | ⟨ctor, more'⟩⟩
    · exact value
    · exact value
    dsimp only
    split
    · rename_i constructs
      simp only [Bool.and_eq_true, decide_eq_true_eq] at constructs
      have plain₁ : new.plain = true := Token.plain_of_spells constructs.1.1 (by decide)
      have plain₂ : ctor.plain = true := Token.plain_of_kind (by simp [constructs.1.2])
      refine (arguments_sound source lexed.right.tail.tail.tail).bind (by simp +contextual) ?_
      rintro args last' rest' less' taken' rfl back' found
      exact .ok (u :: eq :: new :: ctor :: taken') (by simp)
        (last_append [u, eq, new, ctor] back')
        ⟨.cons plain (.cons plain' (.cons plain₁ (.cons plain₂ found))), rfl⟩
    · exact value
  case more =>
    rintro one last' rest' less' taken eq back' ofOne
    dsimp only
    rw [eq] at lexed
    cases rest' with
    | nil => exact .ok taken eq back' ofOne.alone
    | cons c more =>
    dsimp only
    split
    · rename_i comma
      have plain' : c.plain = true := Token.plain_of_spells comma (by decide)
      refine (ih more (weight_tail_lt less less') lexed.right.tail).bind
        (by simp +contextual [eq]) ?_
      rintro is last'' rest'' less'' taken'' rfl back'' ofMore
      refine .ok (taken ++ c :: taken'') (by simp [eq]) (last_append taken (last_append [c] back''))
        ⟨?_, List.forall_mem_cons.mpr ⟨ofOne.line, ofMore.line⟩⟩
      exact ofOne.found.append (.cons plain' ofMore.found)
    · exact .ok taken eq back' ofOne.alone

/-- The value after `return`; the word itself was taken before. -/
theorem returned_sound (source : List Char) (plain : t.plain = true) (lexed : Lexes ts) :
    Sound (ofInstruction source t.line) (t :: ts) (returned source t ts) := by
  have bare : ofInstruction source t.line [t] (.return .undefined t.line) := ⟨.single plain, rfl⟩
  unfold returned
  cases ts with
  | nil => exact .ok [t] rfl rfl bare
  | cons next more =>
      dsimp only
      split
      · exact .ok [t] rfl rfl bare
      · refine (expression_sound source (next :: more) lexed).bind
          (fun _ h => List.mem_cons_of_mem t h) ?_
        rintro e last rest less taken eq back ofE
        exact .ok (t :: taken) (by simp [eq]) (last_append [t] back) ⟨.cons plain ofE.found, rfl⟩

/-- Further arguments of a timer, behind what was taken before. -/
theorem extraArguments_sound (source : List Char) {front : List Token} {last : Token}
    {bodies : List Body} (found : Found source front bodies) (back : front.getLast? = some last)
    (lexed : Lexes (front ++ ts)) :
    Sound (fun taken _ => Found source taken bodies) (front ++ ts)
      (extraArguments source last ts) := by
  induction ts using weight_induction generalizing front last with
  | _ ts ih =>
  cases ts with
  | nil =>
      rw [extraArguments]
      exact .ok front rfl back found
  | cons c more =>
  rw [extraArguments]
  split
  · rename_i comma
    have plain : c.plain = true := Token.plain_of_spells comma (by decide)
    refine (expression_sound source more lexed.right.tail).bind (by simp +contextual) ?_
    rintro e last' rest less taken rfl back' ofE
    dsimp only
    have eq : front ++ c :: (taken ++ rest) = front ++ (c :: taken) ++ rest := by simp
    rw [eq] at lexed ⊢
    refine (ih rest (Nat.lt_trans less (weight_lt_cons ..)) (found.extend (.cons plain ofE.found))
      (last_append front (last_append [c] back')) lexed).bind (fun _ h => h) ?_
    rintro value last'' rest' less' taken' eq' back'' found'
    exact .ok taken' eq' back'' found'
  · exact .ok front rfl back found

/-- A number says no number, or one without end. -/
def Spoils (ts : List Token) (fault : NumberFault) : Prop :=
  Blames ts fault ∨ fault = .infiniteInteger ∧ ∃ t ∈ ts, t.Endless

/-- The only delay that is not to be had is one without end. -/
theorem delayOf_sound {e : Expr} (lexed : Lexes ts) (ofE : ofExpr source ts e) :
    Yields (delayOf e) (fun _ => True)
      (fun fault => fault = .infiniteInteger ∧ ∃ t ∈ ts, t.Endless) := by
  unfold delayOf
  split
  · rename_i n
    obtain ⟨t, ht, kind, said⟩ := ofE.said n rfl
    rcases numberOf_cases (lexed t ht) kind with ⟨m, int⟩ | ⟨-, none⟩ | ⟨x, float, isNumber, read⟩
    · obtain rfl : n = .int m := Except.ok.inj (said.symm.trans int)
      trivial
    · rw [said] at none
      cases none
    · obtain rfl : n = .float x := Except.ok.inj (said.symm.trans float)
      rw [Number.toInt, if_neg (by simp [isNumber])]
      cases infinite : x.isInfinite with
      | true => exact ⟨rfl, t, ht, kind, x, read, infinite⟩
      | false => trivial
  · trivial

/-- A timer after its name. -/
theorem timer_sound (source : List Char) (t : Token) (lexed : Lexes ts) :
    Yields (timer source t ts) (Takes (ofInstruction source t.line) ts) (Spoils ts) := by
  unfold timer
  have blame {us : List Token} (part : ∀ u ∈ us, u ∈ ts) (fault : NumberFault)
      (h : Blames us fault) : Spoils ts fault := .inl (h.mono part)
  refine (expect_sound "(" ts).into (blame fun _ h => h) ?_
  rintro value last rest less taken rfl back ⟨o, rfl, opens⟩
  dsimp only
  refine (callbackArg_sound source lexed.right).into (blame (by simp +contextual)) ?_
  rintro arg last₁ rest₁ less₁ front rfl back₁ ofArg
  dsimp only
  refine Yields.bind (P := Takes (fun taken _ => Found source taken [arg.callback.kept])
    (front ++ rest₁)) ?delayed ?closed
  case delayed =>
    cases rest₁ with
    | nil => exact ⟨front, rfl, back₁, ofArg⟩
    | cons c more =>
    dsimp only
    split
    · rename_i comma
      have plain : c.plain = true := Token.plain_of_spells comma (by decide)
      refine (expression_sound source more lexed.right.right.tail).into
        (blame (by simp +contextual)) ?_
      rintro e last₂ rest₂ less₂ taken rfl back₂ ofE
      dsimp only
      have inside : Lexes taken := fun u hu => lexed u (by simp [hu])
      refine Yields.bind (Yields.mono (delayOf_sound inside ofE) (fun _ h => h) ?_) fun d _ => ?_
      · rintro fault ⟨eq, u, hu, endless⟩
        exact .inr ⟨eq, u, by simp [hu], endless⟩
      · have eq : front ++ c :: (taken ++ rest₂) = front ++ (c :: taken) ++ rest₂ := by simp
        have behind := lexed.right
        rw [eq] at behind
        refine (extraArguments_sound source (ofArg.extend (.cons plain ofE.found))
          (last_append front (last_append [c] back₂)) behind).into
            (blame (by simp +contextual)) ?_
        rintro value last₃ rest₃ less₃ taken' eq' back₃ found
        exact ⟨taken', eq.trans eq', back₃, found⟩
    · exact ⟨front, rfl, back₁, ofArg⟩
  case closed =>
    rintro ⟨delay, last₂, rest₂, less₂⟩ ⟨taken, eq, back₂, found⟩
    dsimp only at eq found ⊢
    refine (expect_sound ")" rest₂).into (blame (by simp +contextual [eq])) ?_
    rintro value last₃ rest₃ less₃ taken' rfl back₃ ⟨c, rfl, closes⟩
    have whole : [o] ++ (front ++ rest₁) = o :: (taken ++ [c]) ++ rest₃ := by simp [eq]
    rw [eq] at lexed
    refine ⟨o :: (taken ++ [c]), whole, last_append (o :: taken) back₃, .group ?_ found, rfl⟩
    exact pairs_of_spells (lexed o (by simp)) (lexed c (by simp)) opens closes (by simp)

/-- A callback on a settled promise, after the promise's name. -/
theorem promise_sound (source : List Char) (t : Token) (lexed : Lexes ts) :
    Sound (ofInstruction source t.line) ts (promise source t ts) := by
  unfold promise
  refine (expect_sound "." ts).bind (fun _ h => h) ?_
  rintro _ last rest less taken rfl back ⟨point, rfl, spelled⟩
  have plain : point.plain = true := Token.plain_of_spells spelled (by decide)
  refine (name_sound rest).bind (by simp +contextual) ?_
  rintro resolve last₁ rest₁ less₁ taken₁ rfl back₁ ⟨u, rfl, word⟩
  have plain₁ : u.plain = true := Token.plain_of_kind (by simp [word])
  dsimp only
  split
  · exact .refuse _
  refine (arguments_sound source lexed.right.right).bind (by simp +contextual) ?_
  rintro args last₂ rest₂ less₂ taken₂ rfl back₂ found
  dsimp only
  refine (expect_sound "." rest₂).bind (by simp +contextual) ?_
  rintro _ last₃ rest₃ less₃ taken₃ rfl back₃ ⟨point', rfl, spelled'⟩
  have plain₃ : point'.plain = true := Token.plain_of_spells spelled' (by decide)
  refine (name_sound rest₃).bind (by simp +contextual) ?_
  rintro next last₄ rest₄ less₄ taken₄ rfl back₄ ⟨u', rfl, word'⟩
  have plain₄ : u'.plain = true := Token.plain_of_kind (by simp [word'])
  dsimp only
  split
  · exact .refuse _
  refine (expect_sound "(" rest₄).bind (by simp +contextual) ?_
  rintro _ last₅ rest₅ less₅ taken₅ rfl back₅ ⟨o, rfl, opens⟩
  dsimp only
  have behind : Lexes ([o] ++ rest₅) := lexed.right.right.right.right.right
  refine (callbackArg_sound source behind.right).bind (by simp +contextual) ?_
  rintro arg last₆ rest₆ less₆ taken₆ rfl back₆ ofArg
  dsimp only
  refine (expect_sound ")" rest₆).bind (by simp +contextual) ?_
  rintro _ last₇ rest₇ less₇ taken₇ rfl back₇ ⟨c, rfl, closes⟩
  have pair := pairs_of_spells (behind o (by simp)) (behind c (by simp)) opens closes (by simp)
  have front : Found source (point :: u :: taken₂) (Expr.bodiesOf args) :=
    .cons plain (.cons plain₁ found)
  have back : Found source (point' :: u' :: o :: (taken₆ ++ [c])) [arg.callback.kept] :=
    .cons plain₃ (.cons plain₄ (.group pair ofArg))
  refine .ok (point :: u :: taken₂ ++ point' :: u' :: o :: (taken₆ ++ [c])) (by simp)
    (last_append _ (last_append (point' :: u' :: o :: taken₆) back₇))
    ⟨(front.append back).fewer ?_, rfl⟩
  refine List.forall_mem_cons.mpr ⟨by simp, fun b hb => List.mem_append_left _ ?_⟩
  cases args with
  | nil => exact absurd hb (by simp [Expr.undefined, Expr.bodies])
  | cons value args => exact List.mem_append_left _ hb

/-- A method call after its target. -/
theorem methodOf_sound (source : List Char) (t : Token) (lexed : Lexes ts) :
    Sound (ofInstruction source t.line) ts (methodOf source t ts) := by
  unfold methodOf
  refine (expect_sound "." ts).bind (fun _ h => h) ?_
  rintro _ last rest less taken rfl back ⟨point, rfl, spelled⟩
  have plain : point.plain = true := Token.plain_of_spells spelled (by decide)
  refine (name_sound rest).bind (by simp +contextual) ?_
  rintro method last₁ rest₁ less₁ taken₁ rfl back₁ ⟨u, rfl, word⟩
  have plain₁ : u.plain = true := Token.plain_of_kind (by simp [word])
  dsimp only
  refine (arguments_sound source lexed.right.right).bind (by simp +contextual) ?_
  rintro args last₂ rest₂ less₂ taken₂ rfl back₂ found
  refine .ok (point :: u :: taken₂) (by simp) (last_append [point, u] back₂) ?_
  have whole : Found source (point :: u :: taken₂) (Expr.bodiesOf args) :=
    .cons plain (.cons plain₁ found)
  split
  · exact ⟨whole, rfl⟩
  · exact ⟨whole, rfl⟩

/-- An assignment after its target. -/
theorem assignment_sound (source : List Char) (t : Token) (lexed : Lexes ts)
    (assigns : ts.head?.any isAssignment = true) :
    Sound (ofInstruction source t.line) ts (assignment source t ts) := by
  cases ts with
  | nil => exact .refuse _
  | cons op ts =>
      have plain : op.plain = true := Token.plain_of_kind (by
        have : isAssignment op = true := assigns
        simp only [isAssignment, Bool.and_eq_true, beq_iff_eq] at this
        simp [this.1])
      rw [assignment]
      refine (expression_sound source ts lexed.tail).bind (by simp +contextual) ?_
      rintro e last rest less taken rfl back ofE
      refine .ok (op :: taken) rfl (last_append [op] back) ?_
      have whole : Found source (op :: taken) e.bodies := .cons plain ofE.found
      split
      · exact ⟨whole, rfl⟩
      · exact ⟨whole, rfl⟩

/-- A function declaration after its keyword. -/
theorem functionDeclaration_sound (source : List Char) (t : Token) (lexed : Lexes ts) :
    Sound (ofInstruction source t.line) ts (functionDeclaration source t ts) := by
  unfold functionDeclaration
  refine (name_sound ts).bind (fun _ h => h) ?_
  rintro n last rest less taken rfl back ⟨u, rfl, word⟩
  have plain : u.plain = true := Token.plain_of_kind (by simp [word])
  dsimp only
  refine (params_sound source lexed.right).bind (by simp +contextual) ?_
  rintro ps last₁ rest₁ less₁ taken₁ rfl back₁ passes
  dsimp only
  refine (block_sound source lexed.right.right).bind (by simp +contextual) ?_
  rintro b last₂ rest₂ less₂ taken₂ rfl back₂ keeps
  exact .ok (u :: (taken₁ ++ taken₂)) (by simp) (last_append [u] (last_append taken₁ back₂))
    ⟨.cons plain (.of_shape (passes.append keeps.shape)), rfl⟩

/-! ## Whole statements -/

/-- One instruction behind the word that starts its statement. -/
theorem Sound.behind {n : Nat} {r : Except Stop (Parsed Instruction n)} (plain : t.plain = true)
    (h : Sound (ofInstruction source line) ts r) {m : Nat} (le : n ≤ m) :
    Sound (ofInstructions source line) (t :: ts)
      (r.map fun p => (p.map ([·])).widen le) := by
  refine h.map (fun _ h => List.mem_cons_of_mem t h) ?_
  rintro i last rest less taken rfl back ofI
  exact .ok (t :: taken) rfl (last_append [t] back) (ofI.cons plain).alone

/-- The statement spoils the text for the sake of a number in it: a numeral, or the
delay of a timer. -/
inductive Ruins (t : Token) (ts : List Token) (fault : NumberFault) : Prop
  | numeral (h : Blames (t :: ts) fault)
  | delay (timer : t.spells "setTimeout" = true) (eq : fault = .infiniteInteger)
      (h : ∃ u ∈ ts, u.Endless)

/-- A statement that starts with a word and needs an end. -/
theorem wordStatement_sound (source : List Char) (word : t.kind = .word) (lexed : Lexes (t :: ts)) :
    Yields (wordStatement source t ts) (Takes (ofInstructions source t.line) (t :: ts))
      (Ruins t ts) := by
  have plain : t.plain = true := Token.plain_of_kind (by simp [word])
  have sound {r : Reading (List Instruction) (t :: ts)}
      (h : Sound (ofInstructions source t.line) (t :: ts) r) :
      Yields r (Takes (ofInstructions source t.line) (t :: ts)) (Ruins t ts) :=
    Yields.mono h (fun _ h => h) fun _ blame => .numeral blame
  have step (op : BinaryOp) {s : String} (other : s ∉ Token.brackets) :
      Sound (ofInstruction source t.line) ts
        ((expect s ts).map (·.map fun _ => stepBy op t) : Reading Instruction ts) := by
    refine (expect_sound s ts).map (fun _ h => h) ?_
    rintro _ last rest less taken rfl back ⟨u, rfl, spelled⟩
    exact .ok [u] rfl back ⟨.single (Token.plain_of_spells spelled other), rfl⟩
  unfold wordStatement
  dsimp only
  split
  · rename_i keyword declares
    refine sound ((declarators_sound source keyword t.line lexed.tail).map
      (fun _ h => List.mem_cons_of_mem t h) ?_)
    rintro is last rest less taken rfl back ofIs
    exact .ok (t :: taken) rfl (last_append [t] back) (ofIs.cons plain)
  split
  · refine sound ((returned_sound source plain lexed.tail).map (fun _ h => h) ?_)
    rintro i last rest less taken eq back ofI
    exact .ok taken eq back ofI.alone
  split
  · exact .refuse _
  split
  -- Only a timer has a fault that no expression in it has: its delay.
  · rename_i timer
    have starts : t.spells "setTimeout" = true := by
      simp only [Bool.and_eq_true, decide_eq_true_eq] at timer
      exact spells_of_text timer.1 (.inl word)
    refine Yields.map (Yields.mono (timer_sound source t lexed.tail) (fun _ h => h) ?_) ?_
    · rintro fault (blamed | ⟨eq, endless⟩)
      · exact .numeral (blamed.mono fun u hu => List.mem_cons_of_mem t hu)
      · exact .delay starts eq endless
    · rintro p ⟨taken, eq, back, ofI⟩
      exact ⟨t :: taken, congrArg (t :: ·) eq, last_append [t] back, (ofI.cons plain).alone⟩
  split
  · exact sound ((promise_sound source t lexed.tail).behind plain _)
  split
  · exact sound ((methodOf_sound source t lexed.tail).behind plain _)
  split
  · refine sound (Sound.behind plain ?_ _)
    refine (arguments_sound source lexed.tail).map (fun _ h => h) ?_
    rintro args last rest less taken rfl back found
    exact .ok taken rfl back ⟨found, rfl⟩
  split
  · exact sound ((methodOf_sound source t lexed.tail).behind plain _)
  split
  · rename_i assigns
    exact sound ((assignment_sound source t lexed.tail assigns).behind plain _)
  split
  · exact sound ((step .add (by decide)).behind plain _)
  split
  · exact sound ((step .sub (by decide)).behind plain _)
  · exact .refuse _

/-- The end of a statement takes a semicolon, if there is one. -/
theorem endStatement_takes {n : Nat} {p : Parsed (List Instruction) n} {E : NumberFault → Prop}
    (h : Takes (ofInstructions source line) all p) :
    Yields (endStatement p) (Takes (ofInstructions source line) all) E := by
  unfold endStatement
  split
  · exact h
  · rename_i t more left
    split
    · rename_i semicolon
      obtain ⟨taken, eq, back, ofIs⟩ := h
      rw [left] at eq
      have plain : t.plain = true := Token.plain_of_text (by
        simp only [Token.isMark, Bool.and_eq_true, beq_iff_eq] at semicolon
        rw [semicolon.2]
        decide)
      refine ⟨taken ++ [t], by simp [eq], last_append taken rfl, ?_, ofIs.line⟩
      exact ofIs.found.extend (.single plain)
    · split
      · exact h
      · exact .refuse _

/-- A statement takes what has the form of `Shape`, and its instructions have the line
of its first token; it spoils the whole text only for the sake of a number. -/
theorem statement_sound (source : List Char) (lexed : Lexes (t :: ts)) :
    Yields (statement source t ts) (Takes (ofInstructions source t.line) (t :: ts))
      (Ruins t ts) := by
  unfold statement
  split
  · rename_i semicolon
    have plain : t.plain = true := Token.plain_of_text (by
      simp only [Token.isMark, Bool.and_eq_true, beq_iff_eq] at semicolon
      rw [semicolon.2]
      decide)
    exact ⟨[t], rfl, rfl, .single plain, by simp⟩
  split
  · exact .refuse _
  rename_i word
  have word : t.kind = .word := by simpa using word
  have plain : t.plain = true := Token.plain_of_kind (by simp [word])
  split
  · exact Yields.mono ((functionDeclaration_sound source t lexed.tail).behind plain _)
      (fun _ h => h) fun _ blame => .numeral blame
  · exact Yields.bind (wordStatement_sound source word lexed) fun p takes =>
      endStatement_takes takes

end Runloop.Grammar
