/-
Statements from tokens.  A text is read statement by statement; one that
matches none of the recognized shapes is skipped up to a point where the
brackets are balanced again, and leaves a diagnostic in place of
instructions.
-/
import Runloop.Grammar.Expression
import Runloop.Instruction
import Runloop.Text.Lines

namespace Runloop

/-- A statement that was skipped: its line, why, and its first line of text. -/
structure Diagnostic where
  line : Int
  message : String
  text : String
deriving DecidableEq, Repr

/-- What a diagnostic says when it is logged. -/
def Diagnostic.notice (d : Diagnostic) : String :=
  "line " ++ toString d.line ++ ": " ++ d.message ++ ": " ++ d.text

namespace Grammar

/-! ## Skipping a statement -/

/-- Keywords whose statement goes on past the end of a line until its header
is closed. -/
def controlWords : List String := ["if", "else", "for", "while", "do", "switch", "try"]

/-- Keywords that continue a statement after the end of a block. -/
def continuationWords : List String := ["else", "catch", "finally", "while"]

/-- Whether the next token continues a statement after a block. -/
def continues : List Token → Bool
  | [] => false
  | t :: _ => t.kind == .word && continuationWords.contains t.text

/-- The last token of a skipped statement, and the tokens after it: `depth`
counts open brackets, `prev` is the token before, and `control` says that a
header is still open or a block has just been continued. -/
def skipRest : (depth : Nat) → (prev : Token) → (control : Bool) → List Token → Token × List Token
  | _, prev, _, [] => (prev, [])
  | depth, prev, control, t :: ts =>
    if depth = 0 && prev.line < t.line && !control then (prev, t :: ts)
    else if t.opens then skipRest (depth + 1) t control ts
    else if t.closes then
      if depth ≤ 1 then
        if t.isMark "\x7d" then
          if continues ts then skipRest 0 t true ts else (t, ts)
        else skipRest 0 t (if t.isMark ")" then false else control) ts
      else skipRest (depth - 1) t control ts
    else if t.isMark ";" && depth = 0 then (t, ts)
    else skipRest depth t control ts

/-- The last token of a skipped statement that starts with `t`, and the
tokens after it.  A semicolon or a stray closing bracket is a statement of
its own. -/
def skipStatement (t : Token) (ts : List Token) : Token × List Token :=
  if t.isMark ";" || t.closes then (t, ts)
  else
    skipRest (if t.opens then 1 else 0) t (t.kind == .word && controlWords.contains t.text) ts

theorem weight_skipRest (ts : List Token) :
    ∀ (depth : Nat) (prev : Token) (control : Bool),
      weight (skipRest depth prev control ts).2 ≤ weight ts := by
  induction ts with
  | nil => intro depth prev control; simp [skipRest]
  | cons t ts ih =>
    intro depth prev control
    have hw := weight_lt_cons t ts
    have step : ∀ d p c, weight (skipRest d p c ts).2 ≤ weight (t :: ts) := fun d p c =>
      Nat.le_trans (ih d p c) (Nat.le_of_lt hw)
    simp only [skipRest]
    split
    · exact Nat.le_refl _
    · split
      · exact step _ _ _
      · split
        · split
          · split
            · split
              · exact step _ _ _
              · exact Nat.le_of_lt hw
            · exact step _ _ _
          · exact step _ _ _
        · split
          · exact Nat.le_of_lt hw
          · exact step _ _ _

theorem weight_skipStatement (t : Token) (ts : List Token) :
    weight (skipStatement t ts).2 < weight (t :: ts) := by
  have hw := weight_lt_cons t ts
  simp only [skipStatement]
  split
  · exact hw
  · exact Nat.lt_of_le_of_lt (weight_skipRest ts _ _ _) hw

/-! ## Recognized statements -/

/-- A callback argument, with its parameters. -/
structure CallbackArg where
  callback : Callback
  params : List String
deriving DecidableEq, Repr

/-- A callback: a function written in place, or the name of one, which stands
for a body that calls it. -/
def callbackArg (source : List Char) : (ts : List Token) → Reading CallbackArg ts
  | [] => refuse .endOfInput
  | t :: ts => do
    if t.kind = .word && (nextIs "," ts || nextIs ")" ts) && !isReserved t.text then
      let callback :=
        { body := t.text ++ "()", name := t.text, linesBefore := t.line - 1, concise := false }
      return ⟨⟨callback, []⟩, t, ts, weight_lt_cons t ts⟩
    else
      let p ← expression source (t :: ts)
      match p.value with
      | .function f =>
        let callback :=
          { body := f.body, name := f.name, linesBefore := f.linesBefore, concise := f.concise }
        return p.map fun _ => ⟨callback, f.params⟩
      | _ => refuse .callbackNotFunction

/-- A list of arguments in parentheses. -/
def arguments (source : List Char) (ts : List Token) : Reading (List Expr) ts := do
  let ⟨_, _, rest, h⟩ ← expect "(" ts
  let p ← items source ")" rest
  return p.widen (Nat.le_of_lt h)

section

variable {ts rest rest' more : List Token} {c : Token}

/-- What is left after taking something, and then perhaps nothing, is less. -/
theorem weight_lt_of_succ (h : weight rest < weight ts) (h' : weight rest' < weight rest + 1) :
    weight rest' < weight ts :=
  Nat.lt_of_le_of_lt (Nat.le_of_lt_succ h') h

theorem weight_nil_lt (h : weight rest < weight ts) : weight [] < weight ts :=
  Nat.lt_of_le_of_lt (Nat.zero_le _) h

theorem weight_tail_lt (h : weight rest < weight ts) (h' : weight (c :: more) < weight rest + 1) :
    weight more < weight ts :=
  Nat.lt_trans (weight_lt_cons c more) (weight_lt_of_succ h h')

theorem weight_tail_le (h : weight rest < weight ts) (h' : weight (c :: more) < weight rest + 1) :
    weight more ≤ weight ts :=
  Nat.le_of_lt (weight_tail_lt h h')

theorem weight_le_cons₃ (a b c : Token) (more : List Token) :
    weight more ≤ weight (a :: b :: c :: more) :=
  Nat.le_trans (weight_le_cons c more)
    (Nat.le_trans (weight_le_cons b (c :: more)) (weight_le_cons a (b :: c :: more)))

theorem weight_lt_succ_nil : weight [] < weight [] + 1 := Nat.lt_succ_self _

theorem weight_lt_succ_cons (c : Token) (more : List Token) :
    weight (c :: more) < weight (c :: more) + 1 := Nat.lt_succ_self _

/-- What is left behind the head is less than the whole. -/
theorem weight_lt_cons_of_lt (c : Token) (h : weight rest < weight more) :
    weight rest < weight (c :: more) :=
  Nat.lt_trans h (weight_lt_cons c more)

theorem weight_succ_le_succ_cons (c : Token) (h : weight rest < weight more) :
    weight rest + 1 ≤ weight (c :: more) + 1 :=
  Nat.succ_le_succ (Nat.le_of_lt (weight_lt_cons_of_lt c h))

end

/-- The declared variables after a declaration keyword. -/
def declarators (source : List Char) (keyword : DeclKeyword) (line : Int) (ts : List Token) :
    Reading (List Instruction) ts := do
  let ⟨n, last, rest, h⟩ ← name ts
  let ⟨one, last', rest', h'⟩ ←
    show Except Stop (Parsed Instruction (weight rest + 1)) from
      match rest with
      | eq :: more =>
        if !eq.spells "=" then
          .ok ⟨.declare keyword n .undefined line, last, eq :: more, weight_lt_succ_cons eq more⟩
        else
          match more with
          | new :: ctor :: more' =>
            if new.spells "new" && ctor.kind = .word && nextIs "(" more' then do
              let p ← arguments source more'
              return (p.map fun args => .construct keyword n ctor.text args line).widen
                (Nat.le_succ_of_le (weight_le_cons₃ eq new ctor more'))
            else do
              let p ← expression source (new :: ctor :: more')
              return (p.map fun e => .declare keyword n e line).widen
                (Nat.le_succ_of_le (weight_le_cons eq (new :: ctor :: more')))
          | more => do
            let p ← expression source more
            return (p.map fun e => .declare keyword n e line).widen
              (Nat.le_succ_of_le (weight_le_cons eq more))
      | [] => .ok ⟨.declare keyword n .undefined line, last, [], weight_lt_succ_nil⟩
  match rest', h' with
  | [], _ => return ⟨[one], last', [], weight_nil_lt h⟩
  | c :: more, h' =>
    if c.spells "," then
      let p ← declarators source keyword line more
      return (p.map (one :: ·)).widen (weight_tail_le h h')
    else return ⟨[one], last', c :: more, weight_lt_of_succ h h'⟩
termination_by weight ts
decreasing_by exact weight_tail_lt h h'

/-- The value after `return`; none if the statement ends there. -/
def returned (source : List Char) (t : Token) (ts : List Token) :
    Except Stop (Parsed Instruction (weight ts + 1)) :=
  match ts with
  | [] => .ok ⟨.return .undefined t.line, t, [], weight_lt_succ_nil⟩
  | next :: more =>
    if t.line < next.line || next.isMark ";" || next.isMark "\x7d" then
      .ok ⟨.return .undefined t.line, t, next :: more, weight_lt_succ_cons next more⟩
    else do
      let p ← expression source (next :: more)
      return (p.map fun e => .return e t.line).widen (Nat.le_succ _)

/-- Further arguments of a timer; they are read and dropped. -/
def extraArguments (source : List Char) (last : Token) (ts : List Token) :
    Except Stop (Parsed Unit (weight ts + 1)) :=
  match ts with
  | [] => .ok ⟨(), last, [], weight_lt_succ_nil⟩
  | c :: more =>
    if c.spells "," then do
      let ⟨_, last', rest, h⟩ ← expression source more
      let p ← extraArguments source last' rest
      return p.widen (weight_succ_le_succ_cons c h)
    else .ok ⟨(), last, c :: more, weight_lt_succ_cons c more⟩
termination_by weight ts
decreasing_by exact weight_lt_cons_of_lt c h

/-- The delay an expression asks for: a number literal's integer part, and
zero for everything else. -/
def delayOf : Expr → Except Stop Int
  | .literal (.number n) =>
    match n.toInt with
    | .ok d => .ok (max 0 d)
    | .error fault => .error (.fatal (.number fault))
  | _ => .ok 0

/-- A timer after its name. -/
def timer (source : List Char) (t : Token) (ts : List Token) : Reading Instruction ts := do
  let ⟨_, _, rest, h⟩ ← expect "(" ts
  let ⟨arg, last, rest₁, h₁⟩ ← callbackArg source rest
  let ⟨delay, _, rest₂, h₂⟩ ←
    show Except Stop (Parsed Int (weight rest₁ + 1)) from
      match rest₁ with
      | [] => .ok ⟨0, last, [], weight_lt_succ_nil⟩
      | c :: more =>
        if c.spells "," then do
          let ⟨e, last', rest', h'⟩ ← expression source more
          let d ← delayOf e
          let p ← extraArguments source last' rest'
          return (p.map fun _ => d).widen (weight_succ_le_succ_cons c h')
        else .ok ⟨0, last, c :: more, weight_lt_succ_cons c more⟩
  let p ← expect ")" rest₂
  return (p.map fun _ => .timer arg.callback delay t.line).widen
    (Nat.le_of_lt (weight_lt_of_succ (Nat.lt_trans h₁ h) h₂))

/-- A callback on a settled promise, after the promise's name. -/
def promise (source : List Char) (t : Token) (ts : List Token) : Reading Instruction ts := do
  let ⟨_, _, rest, h⟩ ← expect "." ts
  let ⟨resolve, _, rest₁, h₁⟩ ← name rest
  if resolve ≠ "resolve" then refuse .notResolve
  else
    let ⟨args, _, rest₂, h₂⟩ ← arguments source rest₁
    let ⟨_, _, rest₃, h₃⟩ ← expect "." rest₂
    let ⟨next, _, rest₄, h₄⟩ ← name rest₃
    if next ≠ "then" then refuse .notThen
    else
      let ⟨_, _, rest₅, h₅⟩ ← expect "(" rest₄
      let ⟨arg, _, rest₆, h₆⟩ ← callbackArg source rest₅
      let p ← expect ")" rest₆
      let value := args.head?.getD .undefined
      let behind := Nat.lt_trans h₃ (Nat.lt_trans h₂ (Nat.lt_trans h₁ h))
      return (p.map fun _ => .promise arg.callback arg.params value t.line).widen
        (Nat.le_of_lt (Nat.lt_trans h₆ (Nat.lt_trans h₅ (Nat.lt_trans h₄ behind))))

/-- A method call after its target; the console's own methods are told apart. -/
def methodOf (source : List Char) (t : Token) (ts : List Token) : Reading Instruction ts := do
  let ⟨_, _, rest, h⟩ ← expect "." ts
  let ⟨method, _, rest₁, h₁⟩ ← name rest
  let p ← arguments source rest₁
  let build (args : List Expr) : Instruction :=
    match t.text, ConsoleMethod.ofSpelling? method with
    | "console", some m => .console m args t.line
    | target, _ => .methodCall target method args t.line
  return (p.map build).widen (by omega)

/-- An assignment after its target. -/
def assignment (source : List Char) (t : Token) : (ts : List Token) → Reading Instruction ts
  | [] => refuse .endOfInput
  | op :: ts => do
    let p ← expression source ts
    let build (value : Expr) : Instruction :=
      match compoundOp? op.text with
      | some b => .assign t.text (.binary b (.reference t.text) value) t.line
      | none => .assign t.text value t.line
    return (p.map build).widen (weight_le_cons op ts)

/-- The assignment that `++` or `--` stands for. -/
def stepBy (op : BinaryOp) (t : Token) : Instruction :=
  .assign t.text (.binary op (.reference t.text) (.literal (.number (.int 1)))) t.line

/-- The end of a statement after its last token: the end of the text, a
semicolon, or the end of the line. -/
def endStatement {α : Type} {n : Nat} (p : Parsed α n) : Except Stop (Parsed α n) :=
  match h : p.rest with
  | [] => .ok p
  | t :: more =>
    if t.isMark ";" then
      .ok { value := p.value, last := t, rest := more
            fewer := Nat.lt_trans (weight_lt_cons t more) (h ▸ p.fewer) }
    else if p.last.line < t.line then .ok p
    else refuse (.unexpectedAfter t.text)

/-- A function declaration after its keyword. -/
def functionDeclaration (source : List Char) (start : Token) (ts : List Token) :
    Reading Instruction ts := do
  let ⟨n, _, rest, h⟩ ← name ts
  let ⟨ps, _, rest₁, h₁⟩ ← params rest
  let p ← block source rest₁
  let build (b : Block) : Instruction :=
    .functionDecl
      { name := n, params := ps, body := b.body, line := start.line, endLine := b.endLine
        linesBefore := b.linesBefore, hoisted := false }
  return (p.map build).widen (by omega)

/-- A statement that starts with the word `t` and needs an end. -/
def wordStatement (source : List Char) (t : Token) (more : List Token) :
    Reading (List Instruction) (t :: more) :=
  let one (r : Reading Instruction more) : Reading (List Instruction) (t :: more) :=
    r.map fun p => (p.map ([·])).widen (weight_le_cons t more)
  match DeclKeyword.ofSpelling? t.text with
  | some keyword =>
    (declarators source keyword t.line more).map (·.widen (weight_le_cons t more))
  | none =>
    if t.text = "return" then
      (returned source t more).map fun p =>
        (p.map ([·])).widen (Nat.succ_le_of_lt (weight_lt_cons t more))
    else if isReserved t.text then refuse (.unsupportedStatement t.text)
    else if t.text = "setTimeout" && nextIs "(" more then one (timer source t more)
    else if t.text = "Promise" && nextIs "." more then one (promise source t more)
    else if t.text = "console" && nextIs "." more then one (methodOf source t more)
    else if nextIs "(" more then
      one ((arguments source more).map (·.map fun args => .call t.text args t.line))
    else if nextIs "." more && nextKindIs .word (more.drop 1) && nextIs "(" (more.drop 2) then
      one (methodOf source t more)
    else if more.head?.any isAssignment then one (assignment source t more)
    else if nextIs "++" more then one ((expect "++" more).map (·.map fun _ => stepBy .add t))
    else if nextIs "--" more then one ((expect "--" more).map (·.map fun _ => stepBy .sub t))
    else refuse (.unsupportedStart t.text)

/-- One statement. -/
def statement (source : List Char) (t : Token) (more : List Token) :
    Reading (List Instruction) (t :: more) :=
  if t.isMark ";" then .ok ⟨[], t, more, weight_lt_cons t more⟩
  else if t.kind ≠ .word then refuse (.unexpected t.text)
  else if t.text = "function" && nextKindIs .word more then
    (functionDeclaration source t more).map fun p =>
      (p.map ([·])).widen (weight_le_cons t more)
  else do
    let p ← wordStatement source t more
    endStatement p

/-! ## Whole texts -/

/-- What a stretch of tokens was read as. -/
inductive Verdict where
  | recognized (instructions : List Instruction)
  | skipped (diagnostic : Diagnostic)

/-- A stretch of tokens that makes up one statement, recognized or skipped. -/
structure Segment where
  tokens : List Token
  verdict : Verdict

/-- The diagnostic for a skipped statement from `first` to `last`. -/
def skippedFrom (source : List Char) (first last : Token) (why : Refusal) : Diagnostic :=
  { line := first.line
    message := "Unrecognized statement skipped (" ++ why.message ++ ")"
    text := String.ofList (Text.firstLine ((source.drop first.start).take (last.stop - first.start))) }

/-- The tokens cut into statements, up to the first fault that spoils the
whole text. -/
def segments (source : List Char) (ts : List Token) : Except CompileFault (List Segment) :=
  match ts with
  | [] => .ok []
  | t :: more =>
    match statement source t more with
    | .ok p => do
      let taken := (t :: more).take ((t :: more).length - p.rest.length)
      have := p.fewer
      return ⟨taken, .recognized p.value⟩ :: (← segments source p.rest)
    | .error (.refused why) => do
      let (last, rest) := skipStatement t more
      let taken := (t :: more).take ((t :: more).length - rest.length)
      return ⟨taken, .skipped (skippedFrom source t last why)⟩ ::
        (← segments source (skipStatement t more).2)
    | .error (.fatal fault) => .error fault
termination_by weight ts
decreasing_by
  · assumption
  · exact weight_skipStatement t more

/-- The instructions of a recognized stretch. -/
def Segment.instructions (s : Segment) : List Instruction :=
  match s.verdict with
  | .recognized is => is
  | .skipped _ => []

/-- The diagnostic of a skipped stretch. -/
def Segment.diagnostic? (s : Segment) : Option Diagnostic :=
  match s.verdict with
  | .recognized _ => none
  | .skipped d => some d

/-- What a text was read as: its statements' instructions in order, and a
diagnostic for each statement that was skipped. -/
structure Statements where
  instructions : List Instruction
  diagnostics : List Diagnostic

def Statements.ofSegments (ss : List Segment) : Statements :=
  { instructions := ss.flatMap Segment.instructions
    diagnostics := ss.filterMap Segment.diagnostic? }

/-- Reads the statements of a text preceded by `linesBefore` lines. -/
def statements (text : String) (linesBefore : Int) : Except CompileFault Statements :=
  match Token.tokenize text linesBefore with
  | .error e => .error (.source e)
  | .ok ts => (segments text.toList ts).map Statements.ofSegments

end Grammar

end Runloop
