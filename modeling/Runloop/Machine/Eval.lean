/-
Evaluation of expressions.  An expression either has a value, or opens a call
and waits for it; then the places that wait are collected on the way out,
innermost first, and `fill` goes on from them when the call has its value.
-/
import Runloop.Machine.Call
import Runloop.Value.Operator

namespace Runloop

/-- What evaluating an expression comes to. -/
inductive Evaluated where
  | value (v : Value)
  | calling (call : Call) (body : Body) (context : List ExprFrame)

/-- What evaluating a list of expressions comes to: their values, or a call
in one of them, with the values before it and the expressions after it. -/
inductive Gathered where
  | values (vs : List Value)
  | calling (call : Call) (body : Body) (context : List ExprFrame) (before : List Value)
      (after : List Expr)

/-- What evaluating the entries of an object comes to. -/
inductive GatheredEntries where
  | fields (fs : List (String × Value))
  | calling (call : Call) (body : Body) (context : List ExprFrame)
      (before : List (String × Value)) (key : String) (after : List (String × Expr))

namespace Act

/-- Goes on with the value of a part of an expression, or notes the place
that waits for it. -/
def andThen (part : Act Evaluated) (place : ExprFrame) (next : Value → Act Evaluated) :
    Act Evaluated := do
  match ← part with
  | .value v => next v
  | .calling call body context => return .calling call body (context ++ [place])

/-- A value as the outcome of an evaluation. -/
def done (a : Act Value) : Act Evaluated := return .value (← a)

/-- The index that a property name spells: digits only.  Digit-like signs
that are not decimal digits are a fault. -/
def indexOf? (name : String) : Act (Option Int) := do
  if name.isEmpty || !name.toList.all Text.isDigitLike then return none
  match Text.readInt name with
  | .ok n => return some n
  | .error fault => throw (.number (.numeral fault))

/-- The element at an index, undefined past the end. -/
def elementAt? {α : Type} (items : List α) (index : Option Int) : Option α :=
  index.bind fun n => items[n.toNat]?

/-- A property of a value. -/
def property (target : Value) (name : String) : Act Value := do
  match target with
  | .text s =>
    if name = "length" then return .number (.int s.length)
    let i ← indexOf? name
    return (elementAt? s.toList i).elim .undefined fun c => .text (String.singleton c)
  | .ref id =>
    match (← store).heapLookup? id with
    | some ⟨"array", .list items⟩ =>
      if name = "length" then return .number (.int items.length)
      let i ← indexOf? name
      return (elementAt? items i).getD .undefined
    | some ⟨"object", .record fields⟩ =>
      return ((fields.find? (·.1 == name)).map (·.2)).getD .undefined
    | some ⟨"function", .function f⟩ =>
      return if name = "name" then .text f.name else .undefined
    | _ => return .undefined
  | _ => return .undefined

/-- How a call's target is named when it turns out not to have the method. -/
def targetLabel : Expr → String
  | .property _ _ source => source
  | .reference name => name
  | .call name _ => name
  | .methodCall _ name _ => name
  | .function f => f.name
  | _ => "value"

/-- The line of a call that is made now. -/
def lineOf : LineSource → Act Int
  | .fixed line => return line
  | .reached => return (← machine).line

variable (host : Host)

/-- Opens a call of a function value. -/
def openCall (f : FunctionValue) (args : List Value) (name : String) (line : Int)
    (receiver : Option Value) : Act Evaluated := do
  let call ← invoke host f args name line receiver
  return .calling call f.body []

/-- Calls the function that a name denotes; a name that denotes none is
reported and gives undefined. -/
def callNamed (scope name : String) (args : List Value) (line : Int) : Act Evaluated := do
  match ← find host name scope with
  | some (_, binding) =>
    match ← asFunction? binding.value with
    | some f => openCall host f args name line none
    | none =>
      error host ("TypeError: " ++ name ++ " is not a function")
      return .value .undefined
  | none =>
    if (← declared? name).isSome then
      match ← lookupFunction? host name with
      | some f => openCall host f args name line none
      | none =>
        checkDepth
        throw .noFunction
    else
      error host ("ReferenceError: " ++ name ++ " is not defined")
      return .value .undefined

/-- Appends to an array, or takes its last item. -/
def changeArray (id : String) (items : List Value) (method : String) (args : List Value) :
    Act Value := do
  let (items', result) : List Value × Value :=
    if method = "push" then (items ++ args, .number (.int (items ++ args).length))
    else (items.dropLast, items.getLast?.getD .undefined)
  change? host fun s => s.updateHeapValue id (.list items')
  (Value.list items').refs.forM fun child => change host fun s _ => s.addReference id child
  return result

/-- What the heap holds under a value. -/
def entryOf? (v : Value) : Act (Option HeapEntry) := do
  match v with
  | .ref id => return (← store).heapLookup? id
  | _ => return none

/-- Reports that a receiver does not have a method. -/
def noMethod (target : Expr) (method : String) (receiver : Value) : Act Evaluated := do
  match receiver with
  | .undefined | .null =>
    let shown ← display receiver
    error host
      ("TypeError: Cannot read properties of " ++ shown ++ " (reading '" ++ method ++ "')")
  | _ =>
    error host ("TypeError: " ++ targetLabel target ++ "." ++ method ++ " is not a function")
  return .value .undefined

/-- Calls a method of a receiver: the two of arrays, or a function that an
object holds. -/
def callOn (target : Expr) (method : String) (args : List Value) (line : Int) (receiver : Value) :
    Act Evaluated := do
  match receiver, ← entryOf? receiver with
  | .ref id, some ⟨"array", .list items⟩ =>
    if method = "push" || method = "pop" then done (changeArray host id items method args)
    else noMethod host target method receiver
  | .ref _, some ⟨"object", .record fields⟩ =>
    let member := ((fields.find? (·.1 == method)).map (·.2)).getD .null
    match ← asFunction? member with
    | some f => openCall host f args method line (some receiver)
    | none => noMethod host target method receiver
  | _, _ => noMethod host target method receiver

/-- Calls a method of the value of a target, given how the target is
evaluated.  The console and the known globals need no value; an unknown name
is reported. -/
def callMethod (scope : String) (target : Expr) (evalTarget : Act Evaluated) (method : String)
    (args : List Value) (line : Int) : Act Evaluated := do
  let onValue :=
    andThen evalTarget (.receiver target method args line) (callOn host target method args line)
  match target with
  | .reference name =>
    let bound := (← find host name scope).isSome
    if name = "console" && !bound then
      logValues host ((ConsoleMethod.ofSpelling? method).getD .log).spelling args
      return .value .undefined
    else if knownGlobals.contains name && !bound then return .value .undefined
    else if ← isUnbound host name scope then
      error host ("ReferenceError: " ++ name ++ " is not defined")
      return .value .undefined
    else onValue
  | _ => onValue

/-- The rest of a binary operation after its left operand; a logical operator
may not need the right one. -/
def afterLeft (op : BinaryOp) (left : Value) (evalRight : Act Evaluated) : Act Evaluated := do
  if (op = .and && !left.truthy) || (op = .or && left.truthy) then return .value left
  else
    andThen evalRight (.right op left) fun right => do
      return .value (← number (Value.applyBinary (← heapView) op left right))

/-- The object with the given fields. -/
def makeObject (fields : List (String × Value)) : Act Evaluated :=
  done (allocate host "object" (.record fields))

mutual

/-- Evaluates an expression in a scope. -/
def eval (scope : String) : Expr → Act Evaluated
  | .literal l => return .value (.ofLiteral l)
  | .array items => do
    match ← evalAll scope [] items with
    | .values vs => done (allocate host "array" (.list vs))
    | .calling call body context before after =>
      return .calling call body (context ++ [.items .array before after])
  | .object entries => do
    match ← evalEntries scope [] entries with
    | .fields fs => makeObject host fs
    | .calling call body context before key after =>
      return .calling call body (context ++ [.entry before key after])
  | .function f =>
    done (allocateFunction host
      { name := f.name, params := f.params, body := ⟨f.body, f.linesBefore, f.concise⟩
        line := 0, closure := some scope, arrow := f.arrow })
  | .reference name => done (resolve host name scope)
  | .property target name _ =>
    andThen (eval scope target) (.property name) fun v => done (property v name)
  | .call name args => do
    match ← evalAll scope [] args with
    | .values vs => callNamed host scope name vs (← machine).line
    | .calling call body context before after =>
      return .calling call body (context ++ [.items (.call name .reached) before after])
  | .methodCall target name args => do
    match ← evalAll scope [] args with
    | .values vs =>
      callMethod host scope target (eval scope target) name vs (← machine).line
    | .calling call body context before after =>
      return .calling call body (context ++ [.items (.method target name .reached) before after])
  | .typeof operand => do
    if let .reference name := operand then
      if ← isUnbound host name scope then return .value (.text "undefined")
    andThen (eval scope operand) .typeof fun v => do
      return .value (.text (v.typeof (← heapView)))
  | .unary op operand =>
    andThen (eval scope operand) (.unary op) fun v => return .value (Value.applyUnary op v)
  | .binary op left right =>
    andThen (eval scope left) (.left op right) fun v => afterLeft op v (eval scope right)

/-- Evaluates expressions one after the other, after those that have values. -/
def evalAll (scope : String) (before : List Value) : List Expr → Act Gathered
  | [] => return .values before
  | e :: rest => do
    match ← eval scope e with
    | .value v => evalAll scope (before ++ [v]) rest
    | .calling call body context => return .calling call body context before rest

/-- Evaluates the entries of an object; a later entry replaces an earlier one
of the same key. -/
def evalEntries (scope : String) (before : List (String × Value)) :
    List (String × Expr) → Act GatheredEntries
  | [] => return .fields before
  | (key, e) :: rest => do
    match ← eval scope e with
    | .value v => evalEntries scope (Datum.setField key v before) rest
    | .calling call body context => return .calling call body context before key rest

end

/-- Uses the values of a list of expressions. -/
def useItems (scope : String) (use : ItemsUse) (vs : List Value) : Act Evaluated := do
  match use with
  | .array => done (allocate host "array" (.list vs))
  | .call name line => callNamed host scope name vs (← lineOf line)
  | .method target name line =>
    callMethod host scope target (eval host scope target) name vs (← lineOf line)
  | .console method =>
    logValues host method.spelling vs
    return .value .undefined
  | .construct keyword name =>
    let id ← change host fun s now => s.allocate "object" (.record []) now
    bind host scope name (.ref id) keyword.spelling
    return .value .undefined

/-- Evaluates a list of expressions and uses their values. -/
def evalItems (scope : String) (use : ItemsUse) (before : List Value) (items : List Expr) :
    Act Evaluated := do
  match ← evalAll host scope before items with
  | .values vs => useItems host scope use vs
  | .calling call body context before after =>
    return .calling call body (context ++ [.items use before after])

/-- Goes on at a place that has got its value. -/
def fillOne (scope : String) (place : ExprFrame) (v : Value) : Act Evaluated := do
  match place with
  | .items use before after => evalItems host scope use (before ++ [v]) after
  | .entry before key after =>
    match ← evalEntries host scope (Datum.setField key v before) after with
    | .fields fs => makeObject host fs
    | .calling call body context before key after =>
      return .calling call body (context ++ [.entry before key after])
  | .property name => done (property v name)
  | .typeof => return .value (.text (v.typeof (← heapView)))
  | .unary op => return .value (Value.applyUnary op v)
  | .left op right => afterLeft op v (eval host scope right)
  | .right op left => return .value (← number (Value.applyBinary (← heapView) op left v))
  | .receiver target method args line => callOn host target method args line v

/-- Goes on with the value of a call through the places that wait for it. -/
def fill (scope : String) : List ExprFrame → Value → Act Evaluated
  | [], v => return .value v
  | place :: outer, v => do
    match ← fillOne host scope place v with
    | .value v' => fill scope outer v'
    | .calling call body context => return .calling call body (context ++ outer)

end Act

end Runloop
