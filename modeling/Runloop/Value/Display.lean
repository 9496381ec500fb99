/-
How values are shown: the text a value turns into when it is concatenated,
and the form in which frames and the console show it.
-/
import Runloop.Value

namespace Runloop

namespace Value

/-! ## Text conversion -/

/-- What every composite value but an array or a function turns into. -/
def objectText : String := "[object Object]"

/-- The text of a value.  An array's text joins the texts of its items;
`depth` bounds how deep arrays are followed into one another, and where it is used
up the text has no end. -/
def textAt (heap : HeapView) : Nat → Value → Except NumberFault String
  | _, text s => .ok s
  | _, bool b => .ok (if b then "true" else "false")
  | _, number n => n.display
  | _, undefined => .ok "undefined"
  | _, null => .ok "null"
  | depth + 1, ref id =>
    match heap.entry? id with
    | some ⟨"array", list items⟩ => do
      return String.intercalate "," (← items.mapM (textAt heap depth))
    | some ⟨"function", function f⟩ => .ok ("function " ++ f.name ++ "() \x7b ... \x7d")
    | _ => .ok objectText
  | 0, ref _ => .error .endless
  | _, _ => .ok objectText

/-- The text of a value.  No chain of arrays that never returns to itself is
longer than the heap. -/
def toText (heap : HeapView) (v : Value) : Except NumberFault String :=
  v.textAt heap (heap.size + 1)

/-! ## Display -/

/-- What a reference shows when no more nesting is shown. -/
def abbreviated (e : HeapEntry) : String :=
  if e.kind = "array" then "[...]" else "\x7b...\x7d"

/-- The display of a function. -/
def functionText (f : FunctionValue) : String :=
  if f.name.isEmpty then "[Function]" else "[Function: " ++ f.name ++ "]"

/-- A short list inline. -/
def inlineList (items : List String) : String :=
  "[" ++ String.intercalate ", " items ++ "]"

/-- A short record inline. -/
def inlineRecord (fields : List (String × String)) : String :=
  "\x7b" ++ String.intercalate ", " (fields.map fun f => f.1 ++ ": " ++ f.2) ++ "\x7d"

/-- The number of items of a list that is too long to be shown inline. -/
def longList (count : Nat) : String :=
  "[" ++ toString count ++ " items]"

mutual

/-- The display of a value where no reference is followed any more. -/
def displayDeep (heap : HeapView) : Value → Except NumberFault String
  | undefined => .ok "undefined"
  | null => .ok "null"
  | bool b => .ok (if b then "true" else "false")
  | number n => n.display
  | text s => .ok ("\"" ++ s ++ "\"")
  | function f => .ok (functionText f)
  | ref id =>
    match heap.entry? id with
    | none => .ok ("<" ++ id ++ ">")
    | some e => .ok (abbreviated e)
  | list items =>
    if items.length ≤ 3 then (displayItems heap items).map inlineList
    else .ok (longList items.length)
  | record fields =>
    if fields.length ≤ 2 then (displayFields heap fields).map inlineRecord
    else .ok "\x7b...\x7d"

def displayItems (heap : HeapView) : List Value → Except NumberFault (List String)
  | [] => .ok []
  | v :: rest => do return (← displayDeep heap v) :: (← displayItems heap rest)

def displayFields (heap : HeapView) :
    List (String × Value) → Except NumberFault (List (String × String))
  | [] => .ok []
  | (key, v) :: rest => do
    return (key, ← displayDeep heap v) :: (← displayFields heap rest)

end

/-- The display of a value, following references through at most `depth`
levels of nesting. -/
def displayAt (heap : HeapView) : Nat → Value → Except NumberFault String
  | 0, v => displayDeep heap v
  | depth + 1, ref id =>
    match heap.entry? id with
    | none => .ok ("<" ++ id ++ ">")
    | some e => displayAt heap depth e.payload
  | depth + 1, list items =>
    if items.length ≤ 3 then (items.mapM (displayAt heap depth)).map inlineList
    else .ok (longList items.length)
  | depth + 1, record fields =>
    if fields.length ≤ 2 then
      (fields.mapM fun f => (displayAt heap depth f.2).map (f.1, ·)).map inlineRecord
    else .ok "\x7b...\x7d"
  | _ + 1, v => displayDeep heap v

/-- The display of a value in a frame: texts are quoted, short arrays and
objects are shown inline, and nesting is followed three levels deep. -/
def display (heap : HeapView) (v : Value) : Except NumberFault String :=
  v.displayAt heap 3

/-- The display of a console argument: a text stands without quotes. -/
def displayArgument (heap : HeapView) : Value → Except NumberFault String
  | text s => .ok s
  | v => v.display heap

/-! ## Spelling

How a value is written where it is logged as it is: a text and a reference
stand for themselves, and what a composite value holds is written so that the
kinds of values can be told apart. -/

/-- Texts between a pair of brackets. -/
def bracketed (opening closing : String) (items : List String) : String :=
  opening ++ String.intercalate ", " items ++ closing

/-- Parameter names between parentheses; a single one is followed by a comma. -/
def paramsSpelling : List String → String
  | [name] => "(" ++ Text.quoted name ++ ",)"
  | names => bracketed "(" ")" (names.map Text.quoted)

def boolSpelling (b : Bool) : String := if b then "True" else "False"

/-- A function with everything that it is made of. -/
def functionSpelling (f : FunctionValue) : String :=
  bracketed "FunctionValue(" ")"
    ["name=" ++ Text.quoted f.name, "params=" ++ paramsSpelling f.params,
      "body=" ++ Text.quoted f.body.text, "line=" ++ toString f.line,
      "closure=" ++ f.closure.elim "None" Text.quoted, "arrow=" ++ boolSpelling f.arrow,
      "body_offset=" ++ toString f.body.linesBefore, "concise=" ++ boolSpelling f.body.concise]

mutual

/-- The spelling of a value inside another one. -/
def innerSpelling : Value → Except NumberFault String
  | undefined => .ok "undefined"
  | null => .ok "None"
  | bool b => .ok (boolSpelling b)
  | number n => n.literalText
  | text s => .ok (Text.quoted s)
  | ref id => .ok ("HeapRef(id=" ++ Text.quoted id ++ ")")
  | function f => .ok (functionSpelling f)
  | list items => (itemSpellings items).map (bracketed "[" "]")
  | record fields => (fieldSpellings fields).map (bracketed "\x7b" "\x7d")

def itemSpellings : List Value → Except NumberFault (List String)
  | [] => .ok []
  | v :: rest => do return (← innerSpelling v) :: (← itemSpellings rest)

def fieldSpellings : List (String × Value) → Except NumberFault (List String)
  | [] => .ok []
  | (key, v) :: rest => do
    return (Text.quoted key ++ ": " ++ (← innerSpelling v)) :: (← fieldSpellings rest)

end

/-- The spelling of a value that is logged as it is. -/
def spelling : Value → Except NumberFault String
  | text s => .ok s
  | ref id => .ok id
  | v => v.innerSpelling

/-! ## Plain data -/

/-- The plain form of a function value, without its body. -/
def functionDatum (f : FunctionValue) : Datum :=
  .object
    [("name", .text f.name), ("params", .texts f.params), ("closure", .option .text f.closure),
      ("line", .int f.line), ("arrow", .bool f.arrow)]

/-- The plain form of a double: NaN and the infinities are texts. -/
def doubleDatum (x : Double) : Datum :=
  if x.isNan then .text "NaN"
  else if x.isInfinite then .text (if x.isNegative then "-Infinity" else "Infinity")
  else .float x

mutual

/-- The plain form of a value; undefined becomes null. -/
def toDatum : Value → Datum
  | undefined => .null
  | null => .null
  | bool b => .bool b
  | number (.int n) => .int n
  | number (.float x) => doubleDatum x
  | text s => .text s
  | ref id => .object [("$ref", .text id)]
  | function f => functionDatum f
  | list items => .list (itemsDatum items)
  | record fields => .object (fieldsDatum fields)

def itemsDatum : List Value → List Datum
  | [] => []
  | v :: rest => toDatum v :: itemsDatum rest

def fieldsDatum : List (String × Value) → List (String × Datum)
  | [] => []
  | (key, v) :: rest => (key, toDatum v) :: fieldsDatum rest

end

end Value

end Runloop
