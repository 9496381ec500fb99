/-
Value expressions from tokens: six levels of binary operators, each grouping
to the left, then prefix operators, then calls and property accesses after a
primary expression.  A hole of a template is a text of its own, shorter than
the template, and is read the same way.
-/
import Runloop.Grammar.Template
import Runloop.Expr

namespace Runloop.Grammar

/-- Words that name no variable. -/
def reservedWords : List String :=
  ["if", "else", "for", "while", "do", "switch", "case", "default", "break", "continue", "try",
    "catch", "finally", "throw", "class", "new", "typeof", "delete", "void", "in", "instanceof",
    "this", "import", "export", "yield", "await", "async", "function", "return", "var", "let",
    "const"]

def isReserved (word : String) : Bool := reservedWords.contains word

/-- The operator that an assignment operator applies first. -/
def compoundOp? : String → Option BinaryOp
  | "+=" => some .add
  | "-=" => some .sub
  | "*=" => some .mul
  | "/=" => some .div
  | "%=" => some .rem
  | _ => none

/-- An assignment operator, plain or compound. -/
def isAssignment (t : Token) : Bool :=
  t.kind == .operator && (t.text == "=" || (compoundOp? t.text).isSome)

/-- The number a token spells: a double if it has a point or an exponent. -/
def numberOf (text : String) : Except Stop Number :=
  if text.toList.any (fun c => c == '.' || c == 'e' || c == 'E') then
    .ok (.float ((Text.readDouble? text).getD .nan))
  else
    match Text.readInt text with
    | .ok n => .ok (.int n)
    | .error fault => .error (.fatal (.number (.numeral fault)))

/-- The binary operator of a level that a token is. -/
def operatorAt? (level : Nat) (t : Token) : Option BinaryOp :=
  if t.kind = .operator then BinaryOp.atLevel? level t.text else none

/-- The prefix operator that a token is. -/
def unaryAt? (t : Token) : Option UnaryOp :=
  if t.kind = .operator then UnaryOp.ofSpelling? t.text else none

/-- Whether an arrow follows the bracket that closes the one at the head. -/
def arrowFollows : Nat → List Token → Bool
  | _, [] => false
  | depth, t :: ts =>
    if t.opens then arrowFollows (depth + 1) ts
    else if t.closes then
      if depth ≤ 1 then
        match ts with
        | [] => false
        | next :: _ => next.text == "=>"
      else arrowFollows (depth - 1) ts
    else arrowFollows depth ts

/-- The name under which a key in brackets is looked up: only number and text
literals have one. -/
def keyName : Expr → Except Stop String
  | .literal (.text s) => .ok s
  | .literal (.number n) =>
    match n.literalText with
    | .ok s => .ok s
    | .error fault => .error (.fatal (.number fault))
  | _ => .ok ""

/-- The expression that calls `callee`; only names and properties are called. -/
def callOf (callee : Expr) (args : List Expr) : Except Stop Expr :=
  match callee with
  | .reference name => .ok (.call name args)
  | .property target name _ => .ok (.methodCall target name args)
  | _ => refuse .callTarget

/-- The concatenation of a template's parts, which is always a text. -/
def joinParts : List Expr → Expr
  | [] => .text ""
  | first :: rest =>
    let start :=
      match first with
      | .literal (.text s) => .text s
      | e => .binary .add (.text "") e
    rest.foldl (.binary .add) start

/-- A function with its body in braces. -/
def functionOf (params : List String) (b : Block) (arrow : Bool) (name : String) : Expr :=
  .function
    { params, body := b.body, arrow, name, linesBefore := b.linesBefore, concise := false }

/-- The rest of a function expression after its keyword. -/
def functionRest (source : List Char) : (ts : List Token) → Reading Expr ts
  | [] => refuse (.expected "(")
  | t :: ts => do
    if t.kind = .word then
      let ⟨ps, _, rest, h⟩ ← params ts
      let p ← block source rest
      return (p.map fun b => functionOf ps b false t.text).widen
        (by have := weight_lt_cons t ts; omega)
    else
      let ⟨ps, _, rest, h⟩ ← params (t :: ts)
      let p ← block source rest
      return (p.map fun b => functionOf ps b false "").widen (by omega)

/-- An arrow function whose body is the source of an expression or of one
assignment. -/
def conciseArrow (source : List Char) (params : List String) (first last : Token) : Expr :=
  .function
    { params, body := slice source first.start last.stop, arrow := true, name := ""
      linesBefore := first.line - 1, concise := true }

/-- The key of an object entry. -/
def entryKey (t : Token) : Except Stop String :=
  match t.kind with
  | .word | .number => .ok t.text
  | .text => .ok (quotedText t)
  | _ => refuse .objectKey

/-- The error for an expression that is not recognized in a text of its own. -/
def unsupported (linesBefore : Int) (cs : List Char) (why : Refusal) : SourceError :=
  { fault := .unsupportedExpression why, line := linesBefore + 1, column := none
    text := String.ofList (Text.trim cs) }

/-- The error for a token left over after the expression of a text. -/
def leftover (cs : List Char) (t : Token) : SourceError :=
  { fault := .unexpectedInExpression t.text, line := t.line, column := some t.column
    text := String.ofList (Text.trim cs) }

mutual

/-- An expression. -/
def expression (source : List Char) (ts : List Token) : Reading Expr ts :=
  binary source 0 ts
termination_by 16 * weight ts + 13
decreasing_by simp only [BinaryOp.levels]; omega

/-- An expression of a level of binary operators, or of a tighter one. -/
def binary (source : List Char) (level : Nat) (ts : List Token) : Reading Expr ts :=
  if level < BinaryOp.levels then do
    let ⟨left, last, rest, h⟩ ← binary source (level + 1) ts
    let p ← binaryRest source level left last rest
    return p.widen h
  else unary source ts
termination_by 16 * weight ts + 6 + (BinaryOp.levels - level)

/-- Further operands of a level after the left one. -/
def binaryRest (source : List Char) (level : Nat) (left : Expr) (last : Token)
    (ts : List Token) : Except Stop (Parsed Expr (weight ts + 1)) :=
  match ts with
  | [] => .ok ⟨left, last, [], Nat.lt_succ_self _⟩
  | t :: more =>
    match operatorAt? level t with
    | none => .ok ⟨left, last, t :: more, Nat.lt_succ_self _⟩
    | some op => do
      let ⟨right, last', rest, h⟩ ← binary source (level + 1) more
      let p ← binaryRest source level (.binary op left right) last' rest
      return p.widen (by simp only [weight_cons]; omega)
termination_by 16 * weight ts
decreasing_by all_goals (simp only [weight_cons, BinaryOp.levels]; omega)

/-- An expression with its prefix operators. -/
def unary (source : List Char) (ts : List Token) : Reading Expr ts :=
  match ts with
  | [] => refuse .endOfInput
  | t :: more =>
    if t.spells "typeof" then do
      let p ← unary source more
      return (p.map .typeof).widen (weight_le_cons t more)
    else
      match unaryAt? t with
      | some op => do
        let p ← unary source more
        return (p.map (.unary op)).widen (weight_le_cons t more)
      | none => suffixed source (t :: more)
termination_by 16 * weight ts + 5
decreasing_by all_goals (simp only [weight_cons]; omega)

/-- A primary expression with the calls and accesses after it. -/
def suffixed (source : List Char) (ts : List Token) : Reading Expr ts :=
  match ts with
  | [] => refuse .endOfInput
  | t :: more => do
    let ⟨e, last, rest, h⟩ ← primary source (t :: more)
    let p ← suffixes source t.start e last rest
    return p.widen h
termination_by 16 * weight ts + 4
decreasing_by all_goals omega

/-- Calls and accesses after an expression that starts at an offset. -/
def suffixes (source : List Char) (start : Nat) (e : Expr) (last : Token)
    (ts : List Token) : Except Stop (Parsed Expr (weight ts + 1)) :=
  match ts with
  | [] => .ok ⟨e, last, [], Nat.lt_succ_self _⟩
  | t :: more =>
    if t.spells "." then do
      let ⟨n, last', rest, h⟩ ← name more
      let p ← suffixes source start (.property e n (slice source start last'.stop)) last' rest
      return p.widen (by simp only [weight_cons]; omega)
    else if t.spells "(" then do
      let ⟨args, last', rest, h⟩ ← items source ")" more
      let called ← callOf e args
      let p ← suffixes source start called last' rest
      return p.widen (by simp only [weight_cons]; omega)
    else if t.spells "[" then do
      let ⟨key, _, rest, h⟩ ← expression source more
      let ⟨_, last', rest', h'⟩ ← expect "]" rest
      let n ← keyName key
      let p ← suffixes source start (.property e n (slice source start last'.stop)) last' rest'
      return p.widen (by simp only [weight_cons]; omega)
    else .ok ⟨e, last, t :: more, Nat.lt_succ_self _⟩
termination_by 16 * weight ts
decreasing_by all_goals (simp only [weight_cons]; omega)

/-- An expression that starts with its own first token. -/
def primary (source : List Char) (ts : List Token) : Reading Expr ts :=
  match ts with
  | [] => refuse .endOfInput
  | t :: more =>
    match t.kind with
    | .number => do
      let n ← numberOf t.text
      return ⟨.literal (.number n), t, more, weight_lt_cons t more⟩
    | .text => .ok ⟨.text (quotedText t), t, more, weight_lt_cons t more⟩
    | .template => do
      let parts ← templateParts t (piecesOf t)
      return ⟨joinParts parts, t, more, weight_lt_cons t more⟩
    | .word => word source t more
    | _ =>
      if t.text = "[" then do
        let p ← items source "]" more
        return (p.map .array).widen (weight_le_cons t more)
      else if t.text = "\x7b" then do
        let p ← entries source more
        return (p.map .object).widen (weight_le_cons t more)
      else if t.text = "(" then
        if arrowFollows 0 (t :: more) then do
          let ⟨ps, _, rest, h⟩ ← params (t :: more)
          let p ← arrow source ps rest
          return p.widen (Nat.le_of_lt h)
        else do
          let ⟨e, _, rest, h⟩ ← expression source more
          let ⟨_, last, rest', h'⟩ ← expect ")" rest
          return ⟨e, last, rest', by simp only [weight_cons]; omega⟩
      else refuse (.unexpected t.text)
termination_by 16 * weight ts + 3
decreasing_by
  · have := piecesWeight_piecesOf t more; omega
  · omega
  · simp only [weight_cons]; omega
  · simp only [weight_cons]; omega
  · omega
  · simp only [weight_cons]; omega

/-- An expression that starts with the word `t`. -/
def word (source : List Char) (t : Token) (more : List Token) : Reading Expr (t :: more) :=
  let alone (e : Expr) : Reading Expr (t :: more) := .ok ⟨e, t, more, weight_lt_cons t more⟩
  match t.text with
  | "true" => alone (.literal (.bool true))
  | "false" => alone (.literal (.bool false))
  | "null" => alone (.literal .null)
  | "undefined" => alone .undefined
  | "function" =>
    (functionRest source more).map (·.widen (weight_le_cons t more))
  | "new" => do
    let ⟨_, last, rest, h⟩ ← name more
    match rest, h with
    | [], _ => return ⟨.object [], last, [], by simp only [weight_cons, weight_nil]; omega⟩
    | p :: rest', h =>
      if p.spells "(" then
        let ⟨_, last', rest'', h'⟩ ← items source ")" rest'
        return ⟨.object [], last', rest'', by simp only [weight_cons] at *; omega⟩
      else return ⟨.object [], last, p :: rest', by simp only [weight_cons] at *; omega⟩
  | s =>
    if nextIs "=>" more then do
      let p ← arrow source [s] more
      return p.widen (weight_le_cons t more)
    else if isReserved s && s != "this" then refuse (.unexpectedKeyword s)
    else alone (.reference s)
termination_by 16 * weight (t :: more) + 2
decreasing_by all_goals (simp only [weight_cons] at *; omega)

/-- An arrow function from its arrow on. -/
def arrow (source : List Char) (ps : List String) (ts : List Token) : Reading Expr ts :=
  match ts with
  | [] => refuse (.expected "=>")
  | [t] => if t.spells "=>" then refuse .missingArrowBody else refuse (.expected "=>")
  | t :: first :: more =>
    if !t.spells "=>" then refuse (.expected "=>")
    else if first.spells "\x7b" then do
      let p ← block source (first :: more)
      return (p.map fun b => functionOf ps b true "").widen (weight_le_cons t _)
    else do
      let ⟨_, last, rest, h⟩ ← expression source (first :: more)
      match rest, h with
      | [], _ =>
        return ⟨conciseArrow source ps first last, last, [],
          by simp only [weight_cons, weight_nil]; omega⟩
      | a :: rest', h =>
        if isAssignment a then
          let ⟨_, last', rest'', h'⟩ ← expression source rest'
          return ⟨conciseArrow source ps first last', last', rest'',
            by simp only [weight_cons] at *; omega⟩
        else
          return ⟨conciseArrow source ps first last, last, a :: rest',
            by simp only [weight_cons] at *; omega⟩
termination_by 16 * weight ts
decreasing_by all_goals (simp only [weight_cons] at *; omega)

/-- Expressions between commas up to the closing mark; a comma may follow the
last. -/
def items (source : List Char) (closing : String) (ts : List Token) : Reading (List Expr) ts :=
  if nextIs closing ts then (expect closing ts).map (·.map fun _ => [])
  else do
    let ⟨e, _, rest, h⟩ ← expression source ts
    match rest, h with
    | [], _ => refuse (.expected closing)
    | c :: more, h =>
      if c.spells "," then
        let p ← items source closing more
        return (p.map (e :: ·)).widen (by simp only [weight_cons] at h; omega)
      else
        let p ← expect closing (c :: more)
        return (p.map fun _ => [e]).widen (Nat.le_of_lt h)
termination_by 16 * weight ts + 14
decreasing_by
  · omega
  · simp only [weight_cons] at *; omega

/-- The entries of an object up to its closing brace: a key with a value, a
name that stands for itself, or a method. -/
def entries (source : List Char) (ts : List Token) : Reading (List (String × Expr)) ts :=
  match ts with
  | [] => refuse .endOfInput
  | t :: more =>
    if t.spells "\x7d" then .ok ⟨[], t, more, weight_lt_cons t more⟩
    else do
      let key ← entryKey t
      let ⟨value, last, rest, h⟩ ← entryValue source t key more
      match rest, h with
      | [], _ => refuse (.expected "\x7d")
      | c :: more', h =>
        if c.spells "," then
          let p ← entries source more'
          return (p.map ((key, value) :: ·)).widen (by simp only [weight_cons] at *; omega)
        else
          let p ← expect "\x7d" (c :: more')
          return (p.map fun _ => [(key, value)]).widen (by simp only [weight_cons] at *; omega)
termination_by 16 * weight ts
decreasing_by all_goals (simp only [weight_cons] at *; omega)

/-- The value of an entry whose key is the token `t`; a name that stands for
itself takes no further token. -/
def entryValue (source : List Char) (t : Token) (key : String) (ts : List Token) :
    Except Stop (Parsed Expr (weight ts + 1)) :=
  match ts with
  | [] => refuse .objectEntry
  | c :: more =>
    if c.spells ":" then do
      let p ← expression source more
      return p.widen (by simp only [weight_cons]; omega)
    else if t.kind = .word && (c.spells "," || c.spells "\x7d") then
      .ok ⟨.reference key, t, c :: more, Nat.lt_succ_self _⟩
    else if t.kind = .word && c.spells "(" then do
      let ⟨ps, _, rest, h⟩ ← params (c :: more)
      let p ← block source rest
      return (p.map fun b => functionOf ps b false key).widen (by omega)
    else refuse .objectEntry
termination_by 16 * weight ts + 1
decreasing_by simp only [weight_cons]; omega

/-- The parts of a template: its runs of text, and the expressions in its
holes. -/
def templateParts (t : Token) (ps : List TemplatePiece) : Except Stop (List Expr) :=
  match ps with
  | [] => .ok []
  | .text cs :: rest => do return .text (String.ofList cs) :: (← templateParts t rest)
  | .hole cs :: rest => do
    let e ← standalone (t.line - 1) cs
    return e :: (← templateParts t rest)
  | .openHole :: _ =>
    fail { fault := .unterminatedHole, line := t.line, column := some t.column, text := t.text }
termination_by 16 * piecesWeight ps
decreasing_by all_goals (simp only [piecesWeight]; omega)

/-- The one expression that makes up a text preceded by `linesBefore` lines. -/
def standalone (linesBefore : Int) (cs : List Char) : Except Stop Expr :=
  match _h : Token.ofChars linesBefore cs with
  | .error e => fail e
  | .ok ts =>
    match expression cs ts with
    | .error (.refused why) => fail (unsupported linesBefore cs why)
    | .error (.fatal fault) => .error (.fatal fault)
    | .ok p =>
      match p.rest with
      | [] => .ok p.value
      | t :: _ => fail (leftover cs t)
termination_by 16 * cs.length + 14
decreasing_by have := weight_ofChars _h; omega

end

end Runloop.Grammar

namespace Runloop

/-- Parses a text that is one value expression. -/
def parseExpression (text : String) (linesBefore : Int) : Except CompileFault Expr :=
  match Grammar.standalone linesBefore text.toList with
  | .ok e => .ok e
  | .error (.fatal fault) => .error fault
  | .error (.refused why) => .error (.source (Grammar.unsupported linesBefore text.toList why))

end Runloop
