/-
Value expressions of the modeled language.
-/
import Runloop.Number

namespace Runloop

/-- A literal value. -/
inductive Literal where
  | number (n : Number)
  | text (s : String)
  | bool (b : Bool)
  | null
  | undefined
deriving DecidableEq

/-- The operators before an operand. -/
inductive UnaryOp where
  | not
  | minus
  | plus
deriving DecidableEq, Repr

/-- The operators between two operands. -/
inductive BinaryOp where
  | or
  | and
  | strictEq
  | strictNe
  | looseEq
  | looseNe
  | lt
  | gt
  | le
  | ge
  | add
  | sub
  | mul
  | div
  | rem
deriving DecidableEq, Repr

namespace UnaryOp

def spelling : UnaryOp → String
  | not => "!"
  | minus => "-"
  | plus => "+"

def all : List UnaryOp := [not, minus, plus]

def ofSpelling? (s : String) : Option UnaryOp :=
  all.find? (fun op => op.spelling == s)

end UnaryOp

namespace BinaryOp

def spelling : BinaryOp → String
  | or => "||"
  | and => "&&"
  | strictEq => "==="
  | strictNe => "!=="
  | looseEq => "=="
  | looseNe => "!="
  | lt => "<"
  | gt => ">"
  | le => "<="
  | ge => ">="
  | add => "+"
  | sub => "-"
  | mul => "*"
  | div => "/"
  | rem => "%"

def all : List BinaryOp :=
  [or, and, strictEq, strictNe, looseEq, looseNe, lt, gt, le, ge, add, sub, mul, div, rem]

def ofSpelling? (s : String) : Option BinaryOp :=
  all.find? (fun op => op.spelling == s)

/-- How tightly an operator binds, from the loosest level 0 to the tightest 5. -/
def level : BinaryOp → Nat
  | or => 0
  | and => 1
  | strictEq | strictNe | looseEq | looseNe => 2
  | lt | gt | le | ge => 3
  | add | sub => 4
  | mul | div | rem => 5

/-- The number of levels. -/
def levels : Nat := 6

/-- The operator of a level with a given spelling. -/
def atLevel? (level : Nat) (s : String) : Option BinaryOp :=
  all.find? (fun op => op.level == level && op.spelling == s)

end BinaryOp

/-- A function written in place.  Its body is kept as text, together with the
number of lines before it; `concise` marks an arrow without braces. -/
structure FunctionLiteral where
  params : List String
  body : String
  arrow : Bool
  name : String
  linesBefore : Int
  concise : Bool
deriving DecidableEq, Repr

/-- A value expression.  A property access keeps its source form. -/
inductive Expr where
  | literal (value : Literal)
  | array (items : List Expr)
  | object (entries : List (String × Expr))
  | function (f : FunctionLiteral)
  | call (name : String) (args : List Expr)
  | methodCall (target : Expr) (name : String) (args : List Expr)
  | reference (name : String)
  | property (target : Expr) (name : String) (source : String)
  | typeof (operand : Expr)
  | unary (op : UnaryOp) (operand : Expr)
  | binary (op : BinaryOp) (left right : Expr)

namespace Expr

instance : Inhabited Expr := ⟨.literal .undefined⟩

def undefined : Expr := .literal .undefined

def text (s : String) : Expr := .literal (.text s)

end Expr

end Runloop
