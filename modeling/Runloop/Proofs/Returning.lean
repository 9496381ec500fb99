/-
# A concise body is read as what is returned

The body of a concise arrow function is cut out of the text as an expression, from its
first token to its last.  Read alone, it is the same expression (`parse_concise`), and it
is so behind the word `return` in a block, too (`statements_returning`).
-/
import Runloop.Proofs.Bodies
import Runloop.Proofs.Delimiting
import Runloop.Proofs.Skipping
import Runloop.Proofs.Transplanting

namespace Runloop.Grammar

open Token (Scanned seen)

variable {ts ts' us us' : List Token} {t : Token}

/-! ## Tokens of a stretch that was put elsewhere -/

namespace Transplant

variable {m : Transplant}

/-- What stands elsewhere in the same way is beside what stands here. -/
theorem Beside.of_seen (same : us.map (seen m.front.length) = ts.map (seen m.front'.length))
    (within : ∀ t ∈ ts, t.Lexed ∧ m.front.length ≤ t.start ∧ t.start ≤ t.stop ∧
      t.stop ≤ m.front.length + m.text.length) :
    m.Beside (ts ++ m.rest) (us ++ m.rest') := by
  induction ts generalizing us with
  | nil =>
      obtain rfl : us = [] := List.map_eq_nil_iff.mp same
      exact .rest rfl rfl
  | cons t ts ih =>
      cases us with
      | nil => cases same
      | cons u us =>
          obtain ⟨here, later⟩ := List.cons.inj same
          simp only [seen, Prod.mk.injEq] at here
          obtain ⟨kind, text, start, stop, line⟩ := here
          obtain ⟨lexed, low, order, high⟩ := within t List.mem_cons_self
          exact .cons ⟨kind, text, line, start, stop, low, order, high, lexed⟩
            (ih later fun u hu => within u (List.mem_cons_of_mem t hu))

theorem Beside.weight_le (h : m.Beside ts ts') : weight m.rest ≤ weight ts := by
  induction h with
  | rest eq => exact Nat.le_of_eq (congrArg weight eq.symm)
  | @cons t _ ts _ _ _ ih => exact Nat.le_trans ih (weight_le_cons t ts)

/-- Beside what stands behind the stretch in the one text is what does in the other. -/
theorem Beside.rest_eq (h : m.Beside m.rest ts') : ts' = m.rest' := by
  generalize same : m.rest = ts at h
  cases h with
  | rest _ eq' => exact eq'
  | cons _ beside =>
      have less := weight_lt_rest same.symm
      exact absurd less (Nat.not_lt.mpr beside.weight_le)

/-- An expression that is all of the stretch is all of it elsewhere. -/
theorem expression_elsewhere (beside : m.Beside ts ts') {p : Parsed Expr (weight ts)}
    (read : expression m.source ts = .ok p) (whole : p.rest = m.rest) :
    ∃ p', expression m.source' ts' = .ok p' ∧ p'.value = p.value ∧ p'.rest = m.rest' := by
  obtain ⟨p', read', agrees⟩ :=
    expression_follows beside p read (Nat.le_of_eq (congrArg weight whole.symm))
  have rest := agrees.rest
  rw [whole] at rest
  exact ⟨p', read', agrees.value.symm, rest.rest_eq⟩

end Transplant

/-! ## Where the expression of a concise body stands -/

section Concise

variable {text : String} {linesBefore : Int} {front more : List Token} {a first : Token}
  {q : Parsed Expr (weight (first :: more))}

/-- The text of an expression that is read, with its tokens scanned alone. -/
theorem scanned_of_expression
    (tokens : Token.tokenize text linesBefore = .ok (front ++ first :: more))
    (read : expression text.toList (first :: more) = .ok q) :
    ∃ (before inside behind : List Char) (taken : List Token) (r r' : Place),
      text.toList = before ++ (inside ++ behind) ∧ before.length = first.start ∧
      slice text.toList first.start q.last.stop = String.ofList inside ∧
      first :: more = taken ++ q.rest ∧ taken.getLast? = some q.last ∧
      Scanned r inside taken r' [] ∧ r.offset = first.start ∧ r.line = first.line ∧
      r'.offset = q.last.stop := by
  obtain ⟨end', scanned⟩ := Scanned.of_scan tokens
  have lexed : Lexes (first :: more) := Lexes.right scanned.lexed
  obtain ⟨taken, eq, back, -⟩ := Yields.of_ok (expression_sound text.toList _ lexed) read
  obtain ⟨r, es, before, onward, start, line⟩ := scanned.before
  obtain ⟨init, split⟩ := List.getLast?_eq_some_iff.mp back
  rw [eq, split, List.append_assoc] at onward
  obtain ⟨r', behind, inner, -, stop, -⟩ := onward.behind
  rw [← split] at inner
  obtain ⟨inside, rfl, -⟩ := inner.used
  obtain ⟨chars, whole, place⟩ := before.used
  refine ⟨chars, inside, behind, taken, r, r', whole, ?_, ?_, eq, back, inner.alone, start, line,
    stop⟩
  · rw [← start, place, Place.past_offset]
    exact (Nat.zero_add _).symm
  · rw [← slice_of_scanned rfl before inner start stop, String.ofList_toList]

/-- The expression is read elsewhere, behind other characters on the same line, if nothing
or semicolons stand behind it there. -/
theorem expression_elsewhere
    (tokens : Token.tokenize text linesBefore = .ok (front ++ first :: more))
    (read : expression text.toList (first :: more) = .ok q) :
    ∃ inside, slice text.toList first.start q.last.stop = String.ofList inside ∧
      ∀ (front' : List Char) (p' : Place), p'.offset = front'.length → p'.line = first.line →
        ∃ inner r last, Scanned p' inside inner r [] ∧ inner.getLast? = some last ∧
          last.stop = r.offset ∧ (∀ t ∈ inner.head?, t.line = first.line) ∧
          ∀ back' rest', (∀ t ∈ rest', t.isMark ";" = true) →
            ∃ p, expression (front' ++ (inside ++ back')) (inner ++ rest') = .ok p ∧
              p.value = q.value ∧ p.rest = rest' := by
  obtain ⟨before, inside, behind, taken, r, r', whole, length, cut, eq, back, scanned, start, line,
    stop⟩ := scanned_of_expression tokens read
  refine ⟨inside, cut, fun front' p' place sameLine => ?_⟩
  have offset : p'.offset + before.length = r.offset + front'.length := by omega
  obtain ⟨inner, r'', scanned', same⟩ := scanned.moved (sameLine.trans line.symm) offset
  obtain ⟨last, last', sameLast⟩ : ∃ last, inner.getLast? = some last ∧
      seen before.length last = seen front'.length q.last := by
    have := congrArg List.getLast? same
    rw [List.getLast?_map, List.getLast?_map, back] at this
    exact Option.map_eq_some_iff.mp this
  have far (s : Place) (cs : List Char) {us : List Token} {s' : Place}
      (h : Scanned s cs us s' []) : s'.offset = s.offset + cs.length := by
    obtain ⟨between, rfl, rfl⟩ := h.used
    rw [Place.past_offset, List.append_nil]
  refine ⟨inner, r'', last, scanned', last', ?_, ?_, fun back' rest' ends => ?_⟩
  · have := far _ _ scanned
    have := far _ _ scanned'
    simp only [seen, Prod.mk.injEq] at sameLast
    omega
  · intro t ht
    have := congrArg List.head? same
    rw [List.head?_map, List.head?_map, ht, head?_of_taken eq back] at this
    simp only [Option.map_some, Option.some_inj, seen, Prod.mk.injEq] at this
    exact this.2.2.2.2
  · let m : Transplant := ⟨inside, before, behind, q.rest, front', back', rest', ends⟩
    have beside : m.Beside (first :: more) (inner ++ rest') := by
      rw [eq]
      refine Transplant.Beside.of_seen (m := m) same fun t ht => ?_
      have bounds := scanned.bounds.2 t ht
      have := far _ _ scanned
      refine ⟨scanned.lexed t ht, (?_ : before.length ≤ t.start), ?_,
        (?_ : t.stop ≤ before.length + inside.length)⟩
      · omega
      · omega
      · omega
    rw [whole] at read
    exact Transplant.expression_elsewhere (m := m) beside read rfl

/-- Read alone, it is the same expression. -/
theorem parse_concise (tokens : Token.tokenize text linesBefore = .ok (front ++ first :: more))
    (read : expression text.toList (first :: more) = .ok q) :
    parseExpression (slice text.toList first.start q.last.stop) (first.line - 1) =
      .ok q.value := by
  obtain ⟨inside, cut, elsewhere⟩ := expression_elsewhere tokens read
  obtain ⟨inner, r, last, scanned, -, -, -, reads⟩ :=
    elsewhere [] (.first (first.line - 1)) rfl (Int.sub_add_cancel ..)
  have reads := reads [] [] (by simp)
  rw [List.append_nil, List.append_nil, List.nil_append] at reads
  obtain ⟨p, read', value, rest⟩ := reads
  have alone : standalone (first.line - 1) inside = .ok q.value := by
    rw [standalone]
    split
    · rename_i none
      cases none.symm.trans scanned.scan
    · rename_i ts lexed
      obtain rfl : ts = inner := Except.ok.inj (lexed.symm.trans scanned.scan)
      rw [read']
      dsimp only
      rw [rest, value]
  rw [cut, parseExpression, String.toList_ofList, alone]

end Concise

/-! ## Behind the word `return` -/

section Refused

variable {source : List Char} {t : Token} {more : List Token}

/-- No expression starts with a semicolon or a closing brace. -/
theorem expression_refused (mark : t.isMark ";" = true ∨ t.isMark "\x7d" = true) :
    ∃ stop, expression source (t :: more) = .error stop := by
  have ends : t.kind = .mark ∧ (t.text = ";" ∨ t.text = "\x7d") := by
    simpa [Token.isMark, ← and_or_left] using mark
  obtain ⟨kind, text⟩ := ends
  have primary : primary source (t :: more) = refuse (.unexpected t.text) := by
    rw [Grammar.primary, kind]
    rcases text with text | text
    · rw [text, if_neg (by decide), if_neg (by decide), if_neg (by decide)]
    · rw [text, if_neg (by decide), if_neg (by decide), if_neg (by decide)]
  have unary : unary source (t :: more) = refuse (.unexpected t.text) := by
    have other : t.spells "typeof" = false := by
      rcases text with text | text
      · simp [Token.spells, text]
      · simp [Token.spells, text]
    have none : unaryAt? t = none := if_neg (by simp [kind])
    rw [Grammar.unary, if_neg (by simp [other]), none]
    dsimp only
    rw [suffixed, primary]
    rfl
  have binary (n level : Nat) (left : BinaryOp.levels - level = n) :
      binary source level (t :: more) = refuse (.unexpected t.text) := by
    induction n generalizing level with
    | zero => rw [Grammar.binary, if_neg (by omega), unary]
    | succ n ih =>
        rw [Grammar.binary, if_pos (by omega), ih (level + 1) (by omega)]
        rfl
  exact ⟨_, (by rw [expression, binary _ 0 rfl]; rfl)⟩

theorem endStatement_semicolon {α : Type} {n : Nat} {p : Parsed α n} {semicolon : Token}
    {rest : List Token} (left : p.rest = semicolon :: rest)
    (ends : semicolon.isMark ";" = true) :
    ∃ s, endStatement p = .ok s ∧ s.value = p.value ∧ s.rest = rest := by
  rw [endStatement.eq_def]
  split
  · rename_i none
    cases left.symm.trans none
  · rename_i t more some
    obtain ⟨rfl, rfl⟩ := List.cons.inj (left.symm.trans some)
    rw [if_pos ends]
    exact ⟨_, rfl, rfl, rfl⟩

/-- What `return` gives stands on its line, up to a semicolon. -/
theorem statement_return {first semicolon : Token} {rest : List Token}
    (word : t.kind = .word) (text : t.text = "return") (line : first.line = t.line)
    {p : Parsed Expr (weight (first :: more))} (read : expression source (first :: more) = .ok p)
    (left : p.rest = semicolon :: rest) (ends : semicolon.isMark ";" = true) :
    ∃ s, statement source t (first :: more) = .ok s ∧ s.value = [.return p.value t.line] ∧
      s.rest = rest := by
  have goesOn : ¬ (t.line < first.line || first.isMark ";" || first.isMark "\x7d") = true := by
    intro stops
    simp only [line, Int.lt_irrefl, decide_false, Bool.false_or, Bool.or_eq_true] at stops
    obtain ⟨stop, refused⟩ : ∃ stop, expression source (first :: more) = .error stop :=
      expression_refused stops
    cases read.symm.trans refused
  have value : returned source t (first :: more) =
      .ok ((p.map fun e => .return e t.line).widen (Nat.le_succ _)) := by
    rw [returned, if_neg goesOn, read]
    rfl
  have worded : wordStatement source t (first :: more) =
      .ok ((p.map fun e => [.return e t.line]).widen (weight_le_cons t _)) := by
    rw [wordStatement, text]
    show (if "return" = "return" then _ else _) = _
    rw [if_pos rfl, value]
    rfl
  obtain ⟨s, ended, same, behind⟩ := endStatement_semicolon
    (p := (p.map fun e => [Instruction.return e t.line]).widen (weight_le_cons t _)) left ends
  refine ⟨s, ?_, same, behind⟩
  rw [statement, if_neg (by simp [Token.isMark, word]), if_neg (by simp [word]),
    if_neg (by simp [text]), worded]
  exact ended

end Refused

/-! ## The two forms of an arrow function -/

/-- What stands before the value in a block that returns it. -/
def beforeValue : List Char := [' ', 'r', 'e', 't', 'u', 'r', 'n', ' ']

/-- What stands behind it. -/
def behindValue : List Char := [';', ' ']

theorem toList_returning (inside : List Char) :
    (" return " ++ String.ofList inside ++ "; ").toList =
      beforeValue ++ (inside ++ behindValue) := by
  simp [beforeValue, behindValue]

theorem scanned_beforeValue (p : Place) (cs : List Char) :
    ∃ t : Token, t.kind = .word ∧ t.text = "return" ∧ t.line = p.line ∧
      Scanned p (beforeValue ++ cs) [t] (p.past beforeValue) cs := by
  have blank {q r : Place} {rest ds : List Char} {us : List Token}
      (h : Scanned (q.after ' ') rest us r ds) : Scanned q (' ' :: rest) us r ds :=
    @Scanned.gap _ _ ' ' [] _ _ _ rfl h
  have word : Token.pieceAt 'r' (['e', 't', 'u', 'r', 'n'] ++ (' ' :: cs)) =
      (.token .word, 5) := rfl
  exact ⟨_, rfl, rfl, rfl, blank (@Scanned.token _ _ 'r' ['e', 't', 'u', 'r', 'n'] _ _ _ _ word
    (blank .done))⟩

theorem scanned_behindValue (p : Place) :
    ∃ t : Token, ∃ q, t.isMark ";" = true ∧ Scanned p behindValue [t] q [] :=
  ⟨_, _, rfl, @Scanned.token _ _ ';' [] [' '] _ _ _ rfl (@Scanned.gap _ _ ' ' [] _ _ _ rfl .done)⟩

section Concise

variable {text : String} {linesBefore : Int} {front more : List Token} {first : Token}
  {q : Parsed Expr (weight (first :: more))}

/-- Read behind the word `return`, it is what is returned. -/
theorem statements_returning
    (tokens : Token.tokenize text linesBefore = .ok (front ++ first :: more))
    (read : expression text.toList (first :: more) = .ok q) :
    statements (" return " ++ slice text.toList first.start q.last.stop ++ "; ")
      (first.line - 1) = .ok ⟨[.return q.value first.line], []⟩ := by
  obtain ⟨inside, cut, elsewhere⟩ := expression_elsewhere tokens read
  obtain ⟨inner, r, last, scanned, back, stop, lines, reads⟩ := elsewhere beforeValue
    ((Place.first (first.line - 1)).past beforeValue) (Place.past_offset ..)
    (Int.sub_add_cancel ..)
  obtain ⟨t, word, spelled, line, before⟩ :=
    scanned_beforeValue (.first (first.line - 1)) (inside ++ behindValue)
  obtain ⟨semicolon, r', mark, behind⟩ := scanned_behindValue r
  have line : t.line = first.line := line.trans (Int.sub_add_cancel ..)
  have lexed : Token.tokenize (" return " ++ String.ofList inside ++ "; ") (first.line - 1) =
      .ok (t :: (inner ++ [semicolon])) := by
    rw [Token.tokenize, toList_returning]
    exact (before.append ((scanned.delimited back stop rfl).append behind)).scan
  cases inner with
  | nil => cases back
  | cons first' inner =>
  obtain ⟨p, read', value, rest⟩ := reads behindValue [semicolon] (by simp [mark])
  obtain ⟨s, returns, instructions, nothing⟩ :=
    statement_return word spelled ((lines first' rfl).trans line.symm) read' rest mark
  have cutUp := segments_recognized (t :: first' :: (inner ++ [semicolon])) returns
    (by rw [nothing, List.append_nil]; rfl)
  rw [nothing, segments, instructions, value, line] at cutUp
  rw [cut, statements, lexed, toList_returning]
  show (segments (beforeValue ++ (inside ++ behindValue))
    (t :: first' :: (inner.append [semicolon]))).map _ = _
  rw [cutUp]
  rfl

end Concise

end Runloop.Grammar
