/-
Requests to the service of sessions, and their reading from a method, a path
and a body of plain data.
-/
import Runloop.Datum

namespace Runloop

/-- What can be asked of a session. -/
inductive SessionDeed where
  | step
  /-- To run, and to answer only when the run is over or at once. -/
  | run (wait : Bool)
  | pause
  | resume
  | reset
deriving DecidableEq, Repr

/-- A request to the service. -/
inductive Request where
  | compile (code : String)
  | run (code : String) (settings : Datum)
  | create (code : String) (settings : Datum)
  | view (id : String)
  | deed (id : String) (deed : SessionDeed)
  | delete (id : String)

/-- Why something is no request. -/
inductive Rejection where
  /-- There is nothing under this method and path. -/
  | noRoute
  /-- The body does not fit. -/
  | unfit
deriving DecidableEq, Repr

/-- The words for a truth value, in small letters. -/
def trueWords : List String := ["1", "t", "y", "on", "yes", "true"]

def falseWords : List String := ["0", "f", "n", "no", "off", "false"]

/-- The truth value that plain data spells: itself, zero or one, or a word in
letters of any case. -/
def Datum.truth? : Datum → Option Bool
  | .bool b => some b
  | .int n => if n = 0 then some false else if n = 1 then some true else none
  | .float x =>
    if x.eq (.ofInt 0) then some false else if x.eq (.ofInt 1) then some true else none
  | .text s =>
    let word := String.ofList (s.toList.map Char.toLower)
    if trueWords.contains word then some true
    else if falseWords.contains word then some false
    else none
  | _ => none

namespace Request

/-- The text under a key of a body. -/
def textField (body : Datum) (key : String) : Except Rejection String :=
  match body.field? key with
  | some (.text s) => .ok s
  | _ => .error .unfit

/-- The settings of a body: an object, or nothing. -/
def settingsField (body : Datum) : Except Rejection Datum :=
  match body.field? "settings" with
  | none | some .null => .ok .null
  | some (.object fields) => .ok (.object fields)
  | some _ => .error .unfit

/-- Whether a body asks to wait; a missing body does, and so does one that
does not say. -/
def waitField (body : Datum) : Except Rejection Bool :=
  match body with
  | .null => .ok true
  | .object fields =>
    match (Datum.object fields).field? "wait" with
    | none => .ok true
    | some d =>
      match d.truth? with
      | some wait => .ok wait
      | none => .error .unfit
  | _ => .error .unfit

/-- Reads a request; a missing body is null. -/
def parse (method path : String) (body : Datum) : Except Rejection Request := do
  match method, path.splitOn "/" with
  | "POST", ["", "translate"] => return .compile (← textField body "code")
  | "POST", ["", "run"] => return .run (← textField body "code") (← settingsField body)
  | "POST", ["", "sessions"] => return .create (← textField body "code") (← settingsField body)
  | "GET", ["", "sessions", id] => return .view id
  | "DELETE", ["", "sessions", id] => return .delete id
  | "POST", ["", "sessions", id, "step"] => return .deed id .step
  | "POST", ["", "sessions", id, "run"] => return .deed id (.run (← waitField body))
  | "POST", ["", "sessions", id, "pause"] => return .deed id .pause
  | "POST", ["", "sessions", id, "resume"] => return .deed id .resume
  | "POST", ["", "sessions", id, "reset"] => return .deed id .reset
  | _, _ => throw .noRoute

end Request

end Runloop
