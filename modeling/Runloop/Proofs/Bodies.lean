/-
# Bodies are read where they stand

The body of a function is cut out of a text and kept as text, to be read when the
function is called, with the number of lines before it and nothing else
(`Stretch`).  A body that was cut out of a body stands in the whole text all the
same, however often that has happened (`Captured`).

What is read of such a body is what stands in the text at its place: it has the
tokens that are there, on the same lines and as far behind one another
(`Captured.inPlace`).  So its instructions have the lines of the statements that
they were read from.
-/
import Runloop.Proofs.Segmentation

namespace Runloop

namespace Token

variable {source text : List Char} {ts inner : List Token} {linesBefore : Int} {k : Nat}

/-- What is read of a stretch is there in the whole text. -/
theorem InPlace.outer (h : InPlace source ts text linesBefore k)
    (lexed : ofChars linesBefore text = .ok inner) {u : Token} (hu : u ∈ inner) :
    ∃ t ∈ ts, within k (k + text.length) t = true ∧ seen k u = seen 0 t := by
  obtain ⟨inner', lexed', same⟩ := h.same
  obtain rfl : inner = inner' := Except.ok.inj (lexed.symm.trans lexed')
  have there : seen k u ∈ (ts.filter (within k (k + text.length))).map (seen 0) :=
    same ▸ List.mem_map_of_mem hu
  obtain ⟨t, ht, eq⟩ := List.mem_map.mp there
  exact ⟨t, (List.mem_filter.mp ht).1, (List.mem_filter.mp ht).2, eq.symm⟩

end Token

namespace Grammar

variable {source : List Char} {ts us front back : List Token} {b b' : Body} {k : Nat}

/-! ## Stretches -/

/-- A stretch of a text that is kept as the body of a function, and its offset: what is
between the braces of a block, or what stands behind an arrow. -/
inductive Stretch (source : List Char) (ts : List Token) : Body → Nat → Prop
  | block (front inner back : List Token) {o c : Token}
      (whole : ts = front ++ o :: (inner ++ c :: back)) (opens : o.isMark "\x7b" = true)
      (closed : closingBrace 0 (inner ++ [c]) = some (c, [])) :
      Stretch source ts (blockBody source o c) o.stop
  | concise (front inner back : List Token) {a first last : Token}
      (whole : ts = front ++ a :: (inner ++ back)) (arrow : a.spells "=>" = true)
      (head : inner.head? = some first) (tail : inner.getLast? = some last) :
      Stretch source ts (conciseBody source first last) first.start

theorem Stretch.widen (h : Stretch source us b k) (front back : List Token)
    (eq : ts = front ++ us ++ back) : Stretch source ts b k := by
  cases h with
  | block front' inner back' whole opens closed =>
      exact .block (front ++ front') inner (back' ++ back) (by simp [eq, whole]) opens closed
  | concise front' inner back' whole arrow head tail =>
      exact .concise (front ++ front') inner (back' ++ back) (by simp [eq, whole]) arrow head tail

/-- A stretch of what is taken first, behind other tokens. -/
theorem Stretch.behind (h : Stretch source us b k) (front : List Token) {rest : List Token}
    (eq : ts = us ++ rest) : Stretch source (front ++ ts) b k :=
  h.widen front rest (by rw [eq, List.append_assoc])

/-- Readers keep stretches of the text. -/
theorem Shape.stretch {bodies : List Body} (h : Shape source ts bodies) :
    ∀ b ∈ bodies, ∃ k, Stretch source ts b k := by
  induction h with
  | nil => simp
  | single => simp
  | @append ts us _ _ _ _ ih ih' =>
      intro b hb
      rcases List.mem_append.mp hb with left | right
      · obtain ⟨k, stretch⟩ := ih b left
        exact ⟨k, stretch.widen [] us rfl⟩
      · obtain ⟨k, stretch⟩ := ih' b right
        exact ⟨k, stretch.widen ts [] (List.append_nil _).symm⟩
  | @group o c ts bs pair _ ih =>
      intro b hb
      obtain ⟨k, stretch⟩ := ih b hb
      exact ⟨k, stretch.widen [o] [c] rfl⟩
  | block opens closed =>
      intro b hb
      rw [List.mem_singleton.mp hb]
      exact ⟨_, .block [] _ [] rfl opens closed⟩
  | concise arrow _ head tail =>
      intro b hb
      rw [List.mem_singleton.mp hb]
      exact ⟨_, .concise [] _ [] (by rw [List.append_nil]; rfl) arrow head tail⟩

/-- A block is kept behind its brace. -/
theorem ofBlock.stretch {bl : Block} (h : ofBlock source us bl) :
    ∃ o, us.head? = some o ∧ Stretch source us bl.kept o.stop := by
  obtain ⟨o, inner, c, rfl, opens, closed, eq⟩ := h
  exact ⟨o, rfl, eq ▸ .block [] inner [] rfl opens closed⟩

/-- An arrow function is kept behind the brace of its block, or from its first token on. -/
theorem ofArrow.stretch {a : Token} {e : Expr} (h : ofArrow source (a :: us) e) :
    ∃ f first, e = .function f ∧ us.head? = some first ∧
      Stretch source (a :: us) f.kept (if f.concise then first.start else first.stop) := by
  cases h with
  | block arrow keeps =>
      obtain ⟨o, head, stretch⟩ := keeps.stretch
      exact ⟨_, o, rfl, head, stretch.widen [a] [] (List.append_nil _).symm⟩
  | @concise _ first last _ _ _ arrow found head tail =>
      exact ⟨_, first, rfl, head, .concise [] us [] (by simp) arrow head tail⟩

/-! ## Reading a stretch -/

theorem slice_of_parts (front text back : List Char) :
    (slice (front ++ (text ++ back)) front.length (front.length + text.length)).toList = text := by
  rw [slice, List.drop_left, Nat.add_sub_cancel_left, List.take_left, String.toList_ofList]

/-- What is between two places of a scan is the stretch between their offsets. -/
theorem slice_of_scanned {p r r' : Place} {es between : List Char} {lo hi : Nat}
    (origin : p.offset = 0) (first : Token.Scanned p source us r (between ++ es))
    (second : Token.Scanned r (between ++ es) ts r' es)
    (start : r.offset = lo) (stop : r'.offset = hi) :
    (slice source lo hi).toList = between := by
  obtain ⟨front, eq, rfl⟩ := first.used
  obtain ⟨between', eq', rfl⟩ := second.used
  obtain rfl : between = between' := List.append_cancel_right eq'
  rw [Place.past_offset, origin, Nat.zero_add] at start
  rw [Place.past_offset, Place.past_offset, origin, Nat.zero_add] at stop
  rw [eq, ← start, ← stop]
  exact slice_of_parts front between es

/-- A stretch that is kept stands where it was cut out. -/
theorem Stretch.inPlace {linesBefore : Int} (lexed : Token.ofChars linesBefore source = .ok ts)
    (h : Stretch source ts b k) :
    Token.InPlace source ts b.text.toList b.linesBefore k := by
  obtain ⟨q, scanned⟩ := Token.Scanned.of_scan lexed
  cases h with
  | @block front inner back o c whole opens closed =>
      rw [whole] at scanned ⊢
      -- The text starts behind the opening brace, on its line, and stops before the other.
      obtain ⟨r, es, first, more, start, r₀, line, brace⟩ := scanned.behind
      obtain ⟨r', es', second, third, stop, -⟩ := more.before
      obtain ⟨between, rfl, -⟩ := second.used
      have text : o.text = "\x7b" := by
        simp only [Token.isMark, Bool.and_eq_true, beq_iff_eq] at opens
        exact opens.2
      have sameLine : r.line = o.line - 1 + 1 := by
        rw [brace, text, Int.sub_add_cancel, ← line]
        rfl
      have place := first.inPlace second third sameLine
      rw [blockBody, slice_of_scanned rfl first second start stop, ← start]
      simpa using place
  | @concise front inner back a first last whole arrow head tail =>
      rw [whole] at scanned ⊢
      obtain ⟨more, rfl⟩ : ∃ more, inner = first :: more := by
        cases inner with
        | nil => cases head
        | cons t more => exact ⟨more, by rw [Option.some.inj head]⟩
      obtain ⟨rest, split⟩ := List.getLast?_eq_some_iff.mp tail
      have before : front ++ a :: (first :: more ++ back) =
          front ++ [a] ++ first :: (more ++ back) := by simp
      have behind : first :: (more ++ back) = rest ++ last :: back := by
        rw [← List.cons_append, split, List.append_assoc]
        rfl
      rw [before] at scanned
      -- The text starts with its first token, and stops behind its last one.
      obtain ⟨r, es, first', onward, start, line⟩ := scanned.before
      rw [behind] at onward
      obtain ⟨r', es', second, third, stop, -⟩ := onward.behind
      obtain ⟨between, rfl, -⟩ := second.used
      have place := first'.inPlace second third (line.trans (Int.sub_add_cancel ..).symm)
      rw [conciseBody, slice_of_scanned rfl first' second start stop, ← start, split]
      simpa using place

/-- A concise body starts with its first token. -/
theorem Stretch.first (h : Stretch source ts b k) (concise : b.concise = true) :
    ∃ t ∈ ts, t.start = k ∧ t.line = b.linesBefore + 1 := by
  cases h with
  | block => cases concise
  | @concise front inner back a first last whole arrow head tail =>
      refine ⟨first, ?_, rfl, (Int.sub_add_cancel ..).symm⟩
      have := List.mem_of_mem_head? head
      simp [whole, this]

/-! ## Bodies in bodies -/

/-- A body that is cut out of a text that is preceded by some lines, or out of a body
that is, and where it stands in the text. -/
inductive Captured : String → Int → Body → Nat → Prop
  | here {text : String} {linesBefore : Int} {ts : List Token} {b : Body} {k : Nat}
      (tokens : Token.tokenize text linesBefore = .ok ts) (stretch : Stretch text.toList ts b k) :
      Captured text linesBefore b k
  | within {text : String} {linesBefore : Int} {b b' : Body} {k k' : Nat}
      (outer : Captured text linesBefore b k) (inner : Captured b.text b.linesBefore b' k') :
      Captured text linesBefore b' (k + k')

variable {text : String} {linesBefore : Int} {inner : List Token}

/-- Bodies are read where they stand. -/
theorem Captured.inPlace (h : Captured text linesBefore b k)
    (tokens : Token.tokenize text linesBefore = .ok ts) :
    Token.InPlace text.toList ts b.text.toList b.linesBefore k := by
  induction h generalizing ts with
  | here tokens' stretch =>
      obtain rfl := Except.ok.inj (tokens.symm.trans tokens')
      exact stretch.inPlace tokens
  | within _ _ ih ih' =>
      have place := ih tokens
      obtain ⟨inner, lexed, -⟩ := place.same
      exact place.trans lexed (ih' lexed)

theorem Captured.first (h : Captured text linesBefore b k) (concise : b.concise = true)
    (tokens : Token.tokenize text linesBefore = .ok ts) :
    ∃ t ∈ ts, t.start = k ∧ t.line = b.linesBefore + 1 := by
  induction h generalizing ts with
  | here tokens' stretch =>
      obtain rfl := Except.ok.inj (tokens.symm.trans tokens')
      exact stretch.first concise
  | @within text linesBefore b b' k k' outer _ _ ih' =>
      have place := outer.inPlace tokens
      obtain ⟨inner, lexed, -⟩ := place.same
      obtain ⟨u, hu, start, line⟩ := ih' concise lexed
      obtain ⟨t, ht, -, same⟩ := place.outer lexed hu
      simp only [Token.seen, Prod.mk.injEq] at same
      exact ⟨t, ht, by omega, same.2.2.2.2.symm.trans line⟩

/-- What becomes of a body that is read: it is captured, it lies in the hole of a
template, or it calls a callback that is named. -/
inductive Accounted (text : String) (linesBefore : Int) (ts : List Token) (b : Body) : Prop
  | captured {k : Nat} (h : Captured text linesBefore b k)
  | hole {t : Token} (ht : t ∈ ts) (h : InHole t b)
  | call {t : Token} (ht : t ∈ ts) (word : t.kind = .word)
      (eq : b = ⟨t.text ++ "()", t.line - 1, false⟩)

theorem InHole.congr {t u : Token} (h : InHole u b) (kind : u.kind = t.kind)
    (text : u.text = t.text) (line : u.line = t.line) : InHole t b := by
  obtain ⟨template, cs, e, hole, read, mem⟩ := h
  refine ⟨kind ▸ template, cs, e, ?_, line ▸ read, mem⟩
  rw [piecesOf, ← text]
  exact hole

/-- What is accounted for in a captured body is so in the text. -/
theorem Accounted.outward (h : Accounted b.text b.linesBefore inner b')
    (outer : Captured text linesBefore b k) (tokens : Token.tokenize text linesBefore = .ok ts)
    (lexed : Token.tokenize b.text b.linesBefore = .ok inner) :
    Accounted text linesBefore ts b' := by
  have there {u : Token} (hu : u ∈ inner) :
      ∃ t ∈ ts, u.kind = t.kind ∧ u.text = t.text ∧ u.line = t.line := by
    obtain ⟨t, ht, -, same⟩ := (outer.inPlace tokens).outer lexed hu
    simp only [Token.seen, Prod.mk.injEq] at same
    exact ⟨t, ht, same.1, same.2.1, same.2.2.2.2⟩
  cases h with
  | captured h => exact .captured (outer.within h)
  | hole hu h =>
      obtain ⟨t, ht, kind, text, line⟩ := there hu
      exact .hole ht (h.congr kind text line)
  | call hu word eq =>
      obtain ⟨t, ht, kind, text, line⟩ := there hu
      exact .call ht (kind ▸ word) (by rw [eq, text, line])

/-- What a reader finds in a text is accounted for. -/
theorem Found.accounted {taken : List Token} {bodies : List Body}
    (h : Found text.toList taken bodies) (front back : List Token)
    (eq : ts = front ++ taken ++ back) (tokens : Token.tokenize text linesBefore = .ok ts) :
    ∀ b ∈ bodies, Accounted text linesBefore ts b := by
  obtain ⟨kept, shape, origin⟩ := h
  have within (t : Token) (ht : t ∈ taken) : t ∈ ts := by simp [eq, ht]
  intro b hb
  cases origin b hb with
  | kept h =>
      obtain ⟨k, stretch⟩ := shape.stretch b h
      exact .captured (.here tokens (stretch.widen front back eq))
  | hole ht h => exact .hole (within _ ht) h
  | call ht word eq => exact .call (within _ ht) word eq

/-- The bodies of the instructions of a text are accounted for. -/
theorem statements_accounted {st : Statements} (tokens : Token.tokenize text linesBefore = .ok ts)
    (read : statements text linesBefore = .ok st) :
    ∀ i ∈ st.instructions, ∀ b ∈ i.bodies, Accounted text linesBefore ts b := by
  obtain ⟨ts', segs, tokens', lexed, cut, rfl⟩ := Cut.of_statements read
  obtain rfl : ts = ts' := Except.ok.inj (tokens.symm.trans tokens')
  intro i hi b hb
  obtain ⟨s, hs, inside⟩ := List.mem_flatMap.mp hi
  rcases cut.reads lexed s hs with none | ⟨t, us, first, ofIs⟩
  · rw [none] at inside
    cases inside
  · obtain ⟨before, behind, rfl⟩ := List.append_of_mem hs
    have whole : ts = before.flatMap Segment.tokens ++ (t :: us) ++
        behind.flatMap Segment.tokens := by
      rw [← cut.tokens, List.flatMap_append, List.flatMap_cons, first, List.append_assoc]
    exact ofIs.found.accounted _ _ whole tokens b (List.mem_flatMap.mpr ⟨i, inside, hb⟩)

/-- What a text that is an expression takes is all of it. -/
theorem parseExpression_found {e : Expr} (tokens : Token.tokenize text linesBefore = .ok ts)
    (read : parseExpression text linesBefore = .ok e) : Found text.toList ts e.bodies := by
  obtain ⟨q, scanned⟩ := Token.Scanned.of_scan tokens
  have sound := expression_sound text.toList ts scanned.lexed
  unfold parseExpression at read
  split at read
  · rename_i alone
    obtain rfl := Except.ok.inj read
    rw [standalone] at alone
    split at alone
    · cases alone
    rename_i ts' tokens'
    obtain rfl : ts = ts' := Except.ok.inj (tokens.symm.trans tokens')
    split at alone
    · cases alone
    · cases alone
    rename_i p read'
    split at alone
    · rename_i nothing
      obtain ⟨taken, eq, -, ofE⟩ := Yields.of_ok sound read'
      rw [nothing, List.append_nil] at eq
      rw [eq, ← Except.ok.inj alone]
      exact ofE.found
    · cases alone
  · cases read
  · cases read

end Grammar

/-! ## Instructions -/

namespace Instruction

/-- What comes of an instruction when declarations are lifted: it stays, or the function
that it declares is lifted, or room is made for its variable. -/
inductive Lifts : Instruction → Instruction → Prop
  | same (i : Instruction) : Lifts i i
  | function {i : Instruction} {d : FunctionDecl} (h : i.lifted? = some d) :
      Lifts i (.functionDecl d)
  | room {i : Instruction} {v : String × Int} (h : i.varName? = some v) :
      Lifts i (.hoistedVar v.1 v.2)

variable {i j : Instruction}

theorem Lifts.line (h : j.Lifts i) : i.line = j.line := by
  cases h with
  | same => rfl
  | function h =>
      unfold lifted? at h
      split at h
      · cases h
        rfl
      · cases h
  | room h =>
      unfold varName? at h
      split at h
      · cases h
        rfl
      · cases h
        rfl
      · cases h

theorem Lifts.bodies (h : j.Lifts i) : ∀ b ∈ i.bodies, b ∈ j.bodies := by
  cases h with
  | same => exact fun b hb => hb
  | function h =>
      unfold lifted? at h
      split at h
      · cases h
        exact fun b hb => hb
      · cases h
  | room => exact fun b hb => absurd hb List.not_mem_nil

end Instruction

theorem mem_firstOfEachName {p : String × Int} {ps : List (String × Int)}
    (h : p ∈ firstOfEachName ps) : p ∈ ps := by
  induction ps with
  | nil => exact h
  | cons q ps ih =>
      rcases List.mem_cons.mp h with rfl | later
      · exact List.mem_cons_self
      · exact List.mem_cons_of_mem q (ih (List.mem_filter.mp later).1)

/-- Lifting declarations adds nothing but a marker. -/
theorem hoist_cases {is : List Instruction} {i : Instruction} (h : i ∈ hoist is) :
    (∃ functions vars, i = .hoisting functions vars) ∨ ∃ j ∈ is, j.Lifts i := by
  have stays (h : i ∈ is.filter fun i => i.lifted?.isNone) : ∃ j ∈ is, j.Lifts i :=
    ⟨i, (List.mem_filter.mp h).1, .same i⟩
  unfold hoist at h
  dsimp only at h
  split at h
  · exact .inr (stays h)
  · rw [List.append_assoc, List.cons_append, List.mem_cons, List.mem_append, List.mem_append] at h
    rcases h with marker | function | room | rest
    · exact .inl ⟨_, _, marker⟩
    · obtain ⟨d, hd, rfl⟩ := List.mem_map.mp function
      obtain ⟨j, hj, lifted⟩ := List.mem_filterMap.mp hd
      exact .inr ⟨j, hj, .function lifted⟩
    · obtain ⟨v, hv, rfl⟩ := List.mem_map.mp room
      obtain ⟨j, hj, named⟩ := List.mem_filterMap.mp (mem_firstOfEachName hv)
      exact .inr ⟨j, (List.mem_filter.mp hj).1, .room named⟩
    · exact .inr (stays rest)

namespace Grammar

variable {ts : List Token} {b : Body} {k : Nat} {i : Instruction} {text : String}
  {linesBefore : Int}

/-- The line of an instruction in the text that its body stands in: the one of the first
token of the statement that it was read from, or of the body if that is a value.  The
marker of what was lifted has none. -/
inductive Dated (ts : List Token) (b : Body) (k : Nat) (i : Instruction) : Prop
  | marker {functions vars : List String} (eq : i = .hoisting functions vars)
  | statement {inner us : List Token} {segs : List Segment} {s : Segment} {t u : Token}
      {j : Instruction} (tokens : Token.tokenize b.text b.linesBefore = .ok inner)
      (cut : Cut b.text.toList inner segs) (hs : s ∈ segs) (first : s.tokens = u :: us)
      (hj : j ∈ s.instructions) (lifts : j.Lifts i) (ht : t ∈ ts)
      (there : Token.seen k u = Token.seen 0 t) (line : i.line = t.line)
  | value {t : Token} {e : Expr} (concise : b.concise = true)
      (read : parseExpression b.text b.linesBefore = .ok e) (eq : i = .return e t.line)
      (ht : t ∈ ts) (start : t.start = k)

/-- What a captured body is turned into: its instructions have the lines of the text, and
their own bodies are accounted for. -/
theorem Captured.compiled (h : Captured text linesBefore b k)
    (tokens : Token.tokenize text linesBefore = .ok ts) {c : CompiledBody}
    (compiled : b.compile = .ok c) :
    ∀ i ∈ c.instructions, Dated ts b k i ∧
      ∀ b' ∈ i.bodies, Accounted text linesBefore ts b' := by
  have place := h.inPlace tokens
  obtain ⟨inner, lexed, -⟩ := place.same
  unfold Body.compile at compiled
  cases read : statements b.text b.linesBefore with
  | error fault =>
      rw [read] at compiled
      cases compiled
  | ok st =>
  rw [read] at compiled
  have accounted := statements_accounted lexed read
  change (if _ then _ else _) = _ at compiled
  split at compiled
  -- A concise body that is an expression is returned; all others are lifted.
  · rename_i value
    split at compiled
    · rename_i e read'
      obtain rfl := Except.ok.inj compiled
      have concise : b.concise = true := by
        simp only [Bool.and_eq_true] at value
        exact value.1
      obtain ⟨t, ht, start, line⟩ := h.first concise tokens
      intro i hi
      rw [List.mem_singleton.mp hi]
      refine ⟨.value concise read' (by rw [line]) ht start, fun b' hb' => ?_⟩
      have found := parseExpression_found lexed read'
      exact (found.accounted [] [] (by simp) lexed b' hb').outward h tokens lexed
    · cases compiled
    · obtain rfl := Except.ok.inj compiled
      exact fun i hi => absurd hi List.not_mem_nil
  · obtain rfl := Except.ok.inj compiled
    intro i hi
    rcases hoist_cases hi with ⟨functions, vars, rfl⟩ | ⟨j, hj, lifts⟩
    · exact ⟨.marker rfl, fun b' hb' => absurd hb' List.not_mem_nil⟩
    · refine ⟨?_, fun b' hb' =>
        (accounted j hj b' (lifts.bodies b' hb')).outward h tokens lexed⟩
      obtain ⟨inner', segs, lexed', tokens', cut, rfl⟩ := Cut.of_statements read
      obtain rfl : inner = inner' := Except.ok.inj (lexed.symm.trans lexed')
      obtain ⟨s, hs, hj⟩ := List.mem_flatMap.mp hj
      rcases cut.reads tokens' s hs with none | ⟨u, us, first, ofIs⟩
      · rw [none] at hj
        cases hj
      · have hu : u ∈ inner := by
          rw [← cut.tokens]
          exact List.mem_flatMap.mpr ⟨s, hs, first ▸ List.mem_cons_self⟩
        obtain ⟨t, ht, -, there⟩ := place.outer lexed hu
        have same : u.line = t.line := congrArg (·.2.2.2.2) there
        exact .statement lexed cut hs first hj lifts ht there
          (lifts.line.trans ((ofIs.line j hj).trans same))

theorem head?_taken {taken rest : List Token} {o t : Token} (eq : o :: us = taken ++ rest)
    (head : taken.head? = some t) : t = o := by
  cases taken with
  | nil => cases head
  | cons u taken => rw [← Option.some.inj head, (List.cons.inj eq).1]

/-- A block that is read in a text is captured. -/
theorem block_captured {front more : List Token} {o : Token} {p : Parsed Block (weight (o :: more))}
    (tokens : Token.tokenize text linesBefore = .ok (front ++ o :: more))
    (read : block text.toList (o :: more) = .ok p) :
    Captured text linesBefore p.value.kept o.stop := by
  obtain ⟨q, scanned⟩ := Token.Scanned.of_scan tokens
  have lexed : Lexes (o :: more) := Lexes.right scanned.lexed
  obtain ⟨taken, eq, -, keeps⟩ := Yields.of_ok (block_sound text.toList lexed) read
  obtain ⟨o', head, stretch⟩ := keeps.stretch
  rw [head?_taken eq head] at stretch
  exact .here tokens (stretch.behind front eq)

/-- An arrow function that is read in a text is captured. -/
theorem arrow_captured {front more : List Token} {a first : Token} {ps : List String}
    {p : Parsed Expr (weight (a :: first :: more))}
    (tokens : Token.tokenize text linesBefore = .ok (front ++ a :: first :: more))
    (read : arrow text.toList ps (a :: first :: more) = .ok p) :
    ∃ f, p.value = .function f ∧
      Captured text linesBefore f.kept (if f.concise then first.start else first.stop) := by
  obtain ⟨q, scanned⟩ := Token.Scanned.of_scan tokens
  have lexed : Lexes (a :: first :: more) := Lexes.right scanned.lexed
  obtain ⟨taken, eq, back, ofE⟩ :=
    Yields.of_ok (arrow_sound text.toList ps (soundness _) lexed) read
  cases taken with
  | nil => cases back
  | cons a' us =>
      obtain ⟨f, first', value, head, stretch⟩ := ofE.stretch
      rw [head?_taken (List.cons.inj eq).2 head] at stretch
      exact ⟨f, value, .here tokens (stretch.behind front eq)⟩

/-- Bodies are read where they stand in the text, however deep they are in it: a block and
an arrow function are captured when they are read, as are the bodies that instructions
have; what is captured has just the tokens of the text that are in its place; and what it
is turned into has the lines of the text. -/
theorem bodies_in_place (tokens : Token.tokenize text linesBefore = .ok ts) :
    (∀ front o more p, ts = front ++ o :: more → block text.toList (o :: more) = .ok p →
      Captured text linesBefore p.value.kept o.stop) ∧
    (∀ front a first more ps p, ts = front ++ a :: first :: more →
      arrow text.toList ps (a :: first :: more) = .ok p → ∃ f, p.value = .function f ∧
        Captured text linesBefore f.kept (if f.concise then first.start else first.stop)) ∧
    (∀ st, statements text linesBefore = .ok st →
      ∀ i ∈ st.instructions, ∀ b ∈ i.bodies, Accounted text linesBefore ts b) ∧
    ∀ b k, Captured text linesBefore b k →
      Token.InPlace text.toList ts b.text.toList b.linesBefore k ∧
      ∀ c, b.compile = .ok c → ∀ i ∈ c.instructions,
        Dated ts b k i ∧ ∀ b' ∈ i.bodies, Accounted text linesBefore ts b' := by
  refine ⟨?_, ?_, fun st read => statements_accounted tokens read, fun b k captured =>
    ⟨captured.inPlace tokens, fun c compiled => captured.compiled tokens compiled⟩⟩
  · rintro front o more p rfl read
    exact block_captured tokens read
  · rintro front a first more ps p rfl read
    exact arrow_captured tokens read

/-- The body of a declared function, which starts on the first line and has its
instruction on the second. -/
theorem function_body_in_place :
    ∃ ts, Token.tokenize "function f() \x7b\n  g();\n\x7d" 0 = .ok ts ∧
      Captured "function f() \x7b\n  g();\n\x7d" 0 ⟨"\n  g();\n", 0, false⟩ 14 ∧
      Token.InPlace "function f() \x7b\n  g();\n\x7d".toList ts "\n  g();\n".toList 0 14 ∧
      ∃ c, Body.compile ⟨"\n  g();\n", 0, false⟩ = .ok c ∧
        c.instructions.map Instruction.line = [2] ∧
        ∀ i ∈ c.instructions, Dated ts ⟨"\n  g();\n", 0, false⟩ 14 i := by
  have reads : ((Token.tokenize "function f() \x7b\n  g();\n\x7d" 0).toOption.bind fun ts =>
      (ts.drop 4).head?.bind fun o =>
        (block "function f() \x7b\n  g();\n\x7d".toList (ts.drop 4)).toOption.map
          fun p => (o.stop, p.value.kept)) = some (14, ⟨"\n  g();\n", 0, false⟩) := by
    decide +kernel
  have compiles : (Body.compile ⟨"\n  g();\n", 0, false⟩).toOption.map
      (fun c => c.instructions.map Instruction.line) = some [2] := by decide +kernel
  cases tokens : Token.tokenize "function f() \x7b\n  g();\n\x7d" 0 with
  | error fault =>
      rw [tokens] at reads
      cases reads
  | ok ts =>
  rw [tokens, Except.toOption, Option.bind_some] at reads
  cases split : ts.drop 4 with
  | nil =>
      rw [split] at reads
      cases reads
  | cons o more =>
  rw [split, List.head?_cons, Option.bind_some] at reads
  cases read : block "function f() \x7b\n  g();\n\x7d".toList (o :: more) with
  | error stop =>
      rw [read] at reads
      cases reads
  | ok p =>
  rw [read] at reads
  obtain ⟨stop, kept⟩ := Prod.mk.inj (Option.some.inj reads)
  have whole : ts = ts.take 4 ++ o :: more := by rw [← split, List.take_append_drop]
  obtain ⟨blocks, -, -, places⟩ := bodies_in_place tokens
  have captured := blocks (ts.take 4) o more p whole read
  rw [stop, kept] at captured
  cases compiled : Body.compile ⟨"\n  g();\n", 0, false⟩ with
  | error fault =>
      rw [compiled] at compiles
      cases compiles
  | ok c =>
      rw [compiled] at compiles
      obtain ⟨place, dated⟩ := places _ _ captured
      exact ⟨ts, rfl, captured, place, c, rfl, Option.some.inj compiles,
        fun i hi => (dated c compiled i hi).1⟩

end Grammar

end Runloop
