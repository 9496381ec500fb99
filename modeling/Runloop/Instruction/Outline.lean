/-
The plain form of expressions and instructions, in which they are listed for
a caller: an object that starts with the kind and then has the fields in
their order.  The entries of an object literal become fields themselves, so
of equal keys the last value is kept; no entries at all are an empty list.
-/
import Runloop.Instruction
import Runloop.Datum

namespace Runloop

/-- An object with its kind in front. -/
def Datum.node (kind : String) (fields : List (String × Datum)) : Datum :=
  .object (("kind", .text kind) :: fields)

/-- The plain form of a literal. -/
def Literal.outline (l : Literal) : Datum :=
  let (type, value) : String × Datum :=
    match l with
    | number n => ("number", .number n)
    | text s => ("string", .text s)
    | bool b => ("boolean", .bool b)
    | null => ("null", .null)
    | undefined => ("undefined", .null)
  .node "literal" [("type", .text type), ("value", value)]

/-- The plain form of a function literal. -/
def FunctionLiteral.outline (f : FunctionLiteral) : Datum :=
  .node "function"
    [("params", .texts f.params), ("body", .text f.body), ("arrow", .bool f.arrow),
      ("name", .text f.name), ("body_offset", .int f.linesBefore), ("concise", .bool f.concise)]

/-- The plain form of outlined entries. -/
def Datum.entries : List (String × Datum) → Datum
  | [] => .list []
  | entries => .object (uniqueFields entries)

namespace Expr

mutual

/-- The plain form of an expression. -/
def outline : Expr → Datum
  | literal l => l.outline
  | array items => .node "array" [("elements", .list (outlineAll items))]
  | object entries => .node "object" [("entries", .entries (outlineEntries entries))]
  | function f => f.outline
  | call name args =>
    .node "call" [("name", .text name), ("args", .list (outlineAll args)), ("target", .null)]
  | methodCall target name args =>
    .node "call"
      [("name", .text name), ("args", .list (outlineAll args)), ("target", outline target)]
  | reference name => .node "reference" [("name", .text name)]
  | property target name source =>
    .node "propertyAccess"
      [("target", outline target), ("name", .text name), ("text", .text source)]
  | typeof operand => .node "typeof" [("operand", outline operand)]
  | unary op operand => .node "unary" [("op", .text op.spelling), ("operand", outline operand)]
  | binary op left right =>
    .node "binary"
      [("op", .text op.spelling), ("left", outline left), ("right", outline right)]

def outlineAll : List Expr → List Datum
  | [] => []
  | e :: rest => outline e :: outlineAll rest

def outlineEntries : List (String × Expr) → List (String × Datum)
  | [] => []
  | (key, e) :: rest => (key, outline e) :: outlineEntries rest

end

end Expr

namespace Instruction

/-- The fields of an instruction. -/
def fields : Instruction → List (String × Datum)
  | hoisting functions vars =>
    [("functions", .texts functions), ("variables", .texts vars), ("line", .int 0)]
  | functionDecl d =>
    [("name", .text d.name), ("params", .texts d.params), ("body", .text d.body),
      ("line", .int d.line), ("end_line", .int d.endLine), ("body_offset", .int d.linesBefore),
      ("hoisted", .bool d.hoisted)]
  | hoistedVar name line => [("name", .text name), ("line", .int line)]
  | declare keyword name value line =>
    [("declaration", .text keyword.spelling), ("name", .text name), ("value", value.outline),
      ("line", .int line)]
  | assign name value line =>
    [("name", .text name), ("value", value.outline), ("line", .int line)]
  | call name args line =>
    [("name", .text name), ("args", .list (Expr.outlineAll args)), ("line", .int line)]
  | methodCall target method args line =>
    [("target", .text target), ("method", .text method), ("args", .list (Expr.outlineAll args)),
      ("line", .int line)]
  | console method args line =>
    [("method", .text method.spelling), ("args", .list (Expr.outlineAll args)),
      ("line", .int line)]
  | timer c delay line =>
    [("callback", .text c.body), ("delay", .int delay), ("line", .int line),
      ("callback_name", .text c.name), ("body_offset", .int c.linesBefore),
      ("concise", .bool c.concise)]
  | promise c params value line =>
    [("callback", .text c.body), ("line", .int line), ("callback_name", .text c.name),
      ("body_offset", .int c.linesBefore), ("concise", .bool c.concise),
      ("params", .texts params), ("value", value.outline)]
  | .return value line => [("value", value.outline), ("line", .int line)]
  | construct keyword name constructor args line =>
    [("declaration", .text keyword.spelling), ("name", .text name),
      ("constructor", .text constructor), ("args", .list (Expr.outlineAll args)),
      ("line", .int line)]

/-- The plain form of an instruction. -/
def outline (i : Instruction) : Datum :=
  .node i.kind i.fields

end Instruction

end Runloop
