/-
Plain data: what snapshots, events and instructions become when they are
handed to a caller.  Fields keep the order in which they were given.
-/
import Runloop.Number

namespace Runloop

/-- Plain data with ordered fields. -/
inductive Datum where
  | null
  | bool (b : Bool)
  | int (n : Int)
  | float (x : Double)
  | text (s : String)
  | list (items : List Datum)
  | object (fields : List (String × Datum))

namespace Datum

instance : Inhabited Datum := ⟨.null⟩

/-- A list of texts. -/
def texts (ss : List String) : Datum := .list (ss.map .text)

/-- A value that may be missing; a missing one is null. -/
def option {α : Type} (f : α → Datum) : Option α → Datum
  | none => .null
  | some a => f a

/-- A number; doubles stay doubles. -/
def number : Number → Datum
  | .int n => .int n
  | .float x => .float x

/-- Sets a field: the last value given to a key stands where the key came first. -/
def setField {α : Type} (key : String) (value : α) : List (String × α) → List (String × α)
  | [] => [(key, value)]
  | (k, v) :: rest => if k = key then (k, value) :: rest else (k, v) :: setField key value rest

/-- The fields with each key once. -/
def uniqueFields {α : Type} (fields : List (String × α)) : List (String × α) :=
  fields.foldl (fun acc f => setField f.1 f.2 acc) []

/-- The value of a field. -/
def field? (key : String) : Datum → Option Datum
  | object fields => (fields.find? (·.1 = key)).map (·.2)
  | _ => none

/-- The keys after setting a field: the old ones, and the new one last if it was missing. -/
theorem keys_setField {α : Type} (key : String) (value : α) (fields : List (String × α)) :
    (setField key value fields).map (·.1)
      = if key ∈ fields.map (·.1) then fields.map (·.1) else fields.map (·.1) ++ [key] := by
  induction fields with
  | nil => simp [setField]
  | cons f rest ih =>
    obtain ⟨k, v⟩ := f
    by_cases h : k = key
    · simp [setField, h]
    · have h' : ¬ key = k := fun e => h e.symm
      simp only [setField, h, if_false, List.map_cons, ih, List.mem_cons, h', false_or]
      split <;> simp

end Datum

end Runloop
