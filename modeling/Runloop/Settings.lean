/-
Settings of a run: the pacing delay, the limits and the kind of clock, from
the environment or from a caller who is not trusted.
-/
import Runloop.Session
import Runloop.Datum

namespace Runloop

/-- What a session is created with. -/
structure Settings where
  speed : Int := 1000
  limits : Limits := {}
  realtime : Bool := false
deriving DecidableEq, Repr

/-- A session without a program, under settings. -/
def Settings.session (s : Settings) : Session := .create s.speed s.limits s.realtime

/-- The pacing delay that the environment asks for, with a notice if its text
is no integer.  A negative delay counts as none. -/
def defaultSpeed (wish : Option String) : Int × List String :=
  match wish with
  | none => (1000, [])
  | some text =>
    match Text.readInt text with
    | .ok n => (max 0 n, [])
    | .error _ => (1000, ["ignoring invalid JSVIZ_SPEED_MS=" ++ Text.quoted text])

/-! ## Settings from a caller -/

/-- Why a setting is no integer. -/
inductive SettingFault where
  | number (fault : NumberFault)
  /-- A value of a kind that has no integer. -/
  | kind (name : String)
deriving DecidableEq, Repr

def SettingFault.message : SettingFault → String
  | number fault => fault.message
  | kind name =>
    "int() argument must be a string, a bytes-like object or a real number, not '" ++ name ++ "'"

namespace Datum

/-- The integer that a value stands for: the integer part of a number, or an
integer in text. -/
def toInt : Datum → Except SettingFault Int
  | null => .error (.kind "NoneType")
  | bool b => .ok (if b then 1 else 0)
  | int n => .ok n
  | float x =>
    match (Number.float x).toInt with
    | .ok n => .ok n
    | .error fault => .error (.number fault)
  | text s =>
    match Text.readInt s with
    | .ok n => .ok n
    | .error fault => .error (.number (.numeral fault))
  | list _ => .error (.kind "list")
  | object _ => .error (.kind "dict")

/-- Whether a value counts as true: all but nothing, zero and what is empty. -/
def isTrue : Datum → Bool
  | null => false
  | bool b => b
  | int n => n != 0
  | float x => !x.isZero
  | text s => !s.isEmpty
  | list items => !items.isEmpty
  | object fields => !fields.isEmpty

end Datum

namespace Settings

/-- The longest pacing delay that a caller may ask for, in milliseconds. -/
def maxSpeed : Int := 5000

/-- A setting as an integer between two bounds. -/
def bounded (wishes : Datum) (key : String) (default low high : Int) : Except SettingFault Int := do
  let wish ← ((wishes.field? key).getD (.int default)).toInt
  return min (max low wish) high

/-- The settings that a caller gets who asks for some: each is kept within
what is safe, and a missing one is the default. -/
def capped (wishes : Datum) : Except SettingFault Settings := do
  let safe : Settings := {}
  if !wishes.isTrue then return safe
  let speed ← bounded wishes "speed_ms" safe.speed 0 maxSpeed
  let steps ← bounded wishes "max_steps" safe.limits.steps 1 safe.limits.steps
  let callDepth ← bounded wishes "max_call_depth" safe.limits.callDepth 1 safe.limits.callDepth
  return { speed, limits := { callDepth, steps }
           realtime := ((wishes.field? "realtime").getD (.bool false)).isTrue }

end Settings

end Runloop
