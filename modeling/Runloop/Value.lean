/-
Values of the simulated language.  Arrays, objects and functions live on the
heap and are handled through references; their payloads are lists, records
and function values.
-/
import Runloop.Compilation
import Runloop.Datum

namespace Runloop

/-- A function value.  Its closure is the scope it was created in, where its
free names are looked up. -/
structure FunctionValue where
  name : String
  params : List String
  body : Body
  line : Int
  closure : Option String
  arrow : Bool
deriving DecidableEq, Repr

/-- A value: a scalar, a reference to the heap, or the payload of a heap object. -/
inductive Value where
  | undefined
  | null
  | bool (b : Bool)
  | number (n : Number)
  | text (s : String)
  | ref (id : String)
  | function (f : FunctionValue)
  | list (items : List Value)
  | record (fields : List (String × Value))

/-- What the heap holds under an identity: a kind and a payload. -/
structure HeapEntry where
  kind : String
  payload : Value

/-- A view of a heap: how many objects it holds, and what is under an identity. -/
structure HeapView where
  size : Nat
  entry? : String → Option HeapEntry

namespace HeapView

/-- The heap without objects. -/
def empty : HeapView := ⟨0, fun _ => none⟩

end HeapView

namespace Value

instance : Inhabited Value := ⟨.undefined⟩

def nan : Value := .number .nan

/-- The value a literal stands for. -/
def ofLiteral : Literal → Value
  | .number n => .number n
  | .text s => .text s
  | .bool b => .bool b
  | .null => .null
  | .undefined => .undefined

/-- The kind shown next to a binding; a reference has the kind of its object. -/
def kind (heap : HeapView) : Value → String
  | undefined => "undefined"
  | null => "null"
  | ref id => ((heap.entry? id).map (·.kind)).getD "object"
  | function _ => "function"
  | bool _ => "boolean"
  | number _ => "number"
  | text _ => "string"
  | list _ => "array"
  | record _ => "object"

/-- The answer of the `typeof` operator. -/
def typeof (heap : HeapView) (v : Value) : String :=
  let k := v.kind heap
  if k = "null" || k = "array" then "object" else k

/-- Whether a value counts as true. -/
def truthy : Value → Bool
  | undefined | null => false
  | bool b => b
  | number n => n != .nan && !n.isZero
  | text s => !s.isEmpty
  | _ => true

/-- The number that a text stands for: zero for a blank one, NaN for one that
spells no number. -/
def numberOfText (s : String) : Number :=
  let t := Text.trimmed s
  if t.isEmpty then .int 0
  else
    match Text.readInt t with
    | .ok n => .int n
    | .error _ => .float ((Text.readDouble? t).getD .nan)

/-- The number that a value stands for. -/
def toNumber : Value → Number
  | undefined => .nan
  | null => .int 0
  | bool b => .int (if b then 1 else 0)
  | number n => n
  | text s => numberOfText s
  | _ => .nan

/-- The heap identities that a value names directly, each once. -/
def refs : Value → List String
  | ref id => [id]
  | list items => distinctNames (items.filterMap refOf?)
  | record fields => distinctNames (fields.filterMap fun f => refOf? f.2)
  | _ => []
where
  refOf? : Value → Option String
    | ref id => some id
    | _ => none

/-- The payload of a function object. -/
def function? : Value → Option FunctionValue
  | function f => some f
  | _ => none

end Value

end Runloop
