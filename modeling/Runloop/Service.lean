/-
The service: sessions under identities, kept from one request to the next.
It keeps as many sessions as it has room for; a new one drives out the
oldest.  Runs that were not waited for go on in the turns that later requests
leave them.
-/
import Runloop.Schedule
import Runloop.Settings
import Runloop.Session.View
import Runloop.Service.Request

namespace Runloop

/-- A registered session: its number, and its key in the schedule. -/
structure Entry where
  number : Nat
  key : Nat
deriving DecidableEq, Repr

/-- The identity by which callers know a session. -/
def Entry.id (e : Entry) : String := "s" ++ toString e.number

/-- The latest runs of sessions, under the identities of these. -/
structure Tasks where
  list : List (String × Nat) := []
deriving DecidableEq, Repr

namespace Tasks

/-- The identities under which a run is kept. -/
def ids (t : Tasks) : List String := t.list.map (·.1)

/-- The run that is kept under an identity. -/
def get? (t : Tasks) (id : String) : Option Nat := (t.list.find? (·.1 = id)).map (·.2)

/-- Forgets the run that is kept under an identity. -/
def pop (t : Tasks) (id : String) : Tasks := ⟨t.list.filter (·.1 ≠ id)⟩

/-- Keeps a run under an identity, in the place of an earlier one. -/
def set (t : Tasks) (id : String) (run : Nat) : Tasks := ⟨(id, run) :: (t.pop id).list⟩

end Tasks

/-- The service.  Entries are in the order of registration. -/
structure Service where
  schedule : Schedule := {}
  entries : List Entry := []
  tasks : Tasks := {}
  /-- How many sessions were registered so far. -/
  issued : Nat := 0
  /-- How many sessions are kept. -/
  capacity : Nat := 32

/-- Why a request fails for no fault of its form. -/
inductive ServiceFault where
  | setting (fault : SettingFault)
  | session (fault : Fault)
deriving DecidableEq, Repr

def ServiceFault.message : ServiceFault → String
  | setting fault => fault.message
  | session fault => fault.message

/-- The answer to a request. -/
inductive Response where
  | ok (body : Datum)
  | notFound (detail : String)
  | conflict (detail : String)
  | failure (fault : ServiceFault)

namespace Service

/-- The room that the environment asks for: at least one session, and
thirty-two if it does not name an integer. -/
def capacityFrom (wish : Option String) : Nat :=
  match wish.map Text.readInt with
  | some (.ok n) => (max 1 n).toNat
  | _ => 32

/-! ## The registry -/

def find? (v : Service) (id : String) : Option Entry := v.entries.find? (·.id = id)

/-- The session of an entry. -/
def session? (v : Service) (e : Entry) : Option Session := v.schedule.session? e.key

/-- Puts back a changed session. -/
def putSession (v : Service) (e : Entry) (s : Session) : Service :=
  { v with schedule := v.schedule.putSession e.key s }

/-- The latest run of a session. -/
def run? (v : Service) (e : Entry) : Option Nat := v.tasks.get? e.id

/-- Notes the latest run of a session. -/
def noteRun (v : Service) (e : Entry) (run : Nat) : Service :=
  { v with tasks := v.tasks.set e.id run }

/-- Forgets the latest run of a session. -/
def forgetRun (v : Service) (e : Entry) : Service := { v with tasks := v.tasks.pop e.id }

/-- Ends a run from outside. -/
def cancelRun (v : Service) (run : Option Nat) : Service :=
  match run with
  | some id => { v with schedule := v.schedule.cancelRun id }
  | none => v

/-- Forgets the run of a session that is not registered any more, closes the
session and ends the run. -/
def drop (v : Service) (e : Entry) : Service :=
  let run := v.run? e
  let v := v.forgetRun e
  let v :=
    match v.session? e with
    | some s => v.putSession e (s.control .close).2
    | none => v
  v.cancelRun run

/-- Takes a session out of the registry and drops it. -/
def dismiss (v : Service) (e : Entry) : Service :=
  ({ v with entries := v.entries.filter (·.number ≠ e.number) } : Service).drop e

/-- Registers a session under the next identity.  The oldest ones beyond the
capacity leave. -/
def register (v : Service) (s : Session) : Service × Entry :=
  let (schedule, key) := v.schedule.addSession s
  let e : Entry := { number := v.issued + 1, key }
  let entries := v.entries ++ [e]
  let leaving := entries.take (entries.length - v.capacity)
  (leaving.foldl dismiss { v with schedule, entries, issued := v.issued + 1 }, e)

/-! ## Requests without a session -/

/-- Compiles a source. -/
def compileOnly (code : String) : Response :=
  match compile code with
  | .error (.source e) =>
    let error : SessionError := ⟨e.message, e.line, e.column⟩
    .ok (.object [("instructions", .list []), ("diagnostics", .list []), ("errors", error.toDatum)])
  | .error fault => .failure (.session (.compilation fault))
  | .ok c =>
    .ok (.object
      [("instructions", .list (c.instructions.map Instruction.outline)),
        ("diagnostics", .list (c.diagnostics.map Diagnostic.toDatum)), ("errors", .null)])

/-- A new session with a source loaded, under a caller's settings. -/
def open? (code : String) (settings : Datum) : Except ServiceFault (Bool × Session) :=
  match Settings.capped settings with
  | .error fault => .error (.setting fault)
  | .ok settings =>
    match settings.session.run fun host => Act.load host code with
    | (.error fault, _) => .error (.session fault)
    | (.ok loaded, s) => .ok (loaded, s)

/-- The answer to a run that did not end well. -/
def runFailure (fault : ServiceFault) : Datum :=
  .object
    [("console", .list []), ("state", .null), ("steps", .int 0),
      ("errors", .object [("code", .text "SERVER_ERROR"), ("message", .text fault.message)])]

/-- The answer to a run. -/
def runReport (s : Session) : Datum :=
  .object
    [("console", s.consoleDatum), ("state", s.store.state.toDatum),
      ("steps", .int s.store.state.currentStep), ("errors", s.firstError)]

/-- Runs a source to its end, in the turns of the caller. -/
def runOnce (v : Service) (code : String) (settings : Datum) : Response × Service :=
  match open? code settings with
  | .error fault => (.ok (runFailure fault), v)
  | .ok (loaded, s) =>
    let (schedule, key) := v.schedule.addSession s
    let (fault?, schedule) := if loaded then schedule.runInTurn key else (none, schedule)
    match fault?, schedule.session? key with
    | some fault, _ => (.ok (runFailure (.session fault)), { v with schedule })
    | none, none => (.ok (runReport s), { v with schedule })
    | none, some ended =>
      (.ok (runReport ended),
        { v with schedule := schedule.putSession key (ended.control .close).2 })

/-! ## Requests to sessions -/

/-- Creates a session. -/
def create (v : Service) (code : String) (settings : Datum) : Response × Service :=
  match open? code settings with
  | .error fault => (.failure fault, v)
  | .ok (_, s) =>
    let (v, e) := v.register s
    (.ok (.object
      ([("session_id", .text e.id)] ++ s.programFields ++
        [("state", s.store.state.toDatum), ("errors", s.firstError)])), v)

/-- Whether the latest run of a session is still under way. -/
def isBusy (v : Service) (e : Entry) : Bool :=
  (v.run? e).any fun id => !v.schedule.isDone id

/-- The view of a session, after some fields of its own. -/
def viewOf (fields : List (String × Datum)) (s : Session) : Response :=
  .ok (.object (fields ++ s.viewFields))

/-- Carries out a control operation and answers with its result and a view. -/
def controlled (v : Service) (e : Entry) (s : Session) (c : Control) (field : String) :
    Response × Service :=
  match s.control c with
  | (.error fault, s) => (.failure (.session fault), v.putSession e s)
  | (.ok (.bool b), s) => (viewOf [(field, .bool b)] s, v.putSession e s)
  | (.ok .nothing, s) => (viewOf [] s, v.putSession e s)

/-- Lets a session run: a run under way goes on, or else a new one begins. -/
def startRun (v : Service) (e : Entry) (s : Session) : Service × Nat :=
  match (v.run? e).filter fun id => !v.schedule.isDone id with
  | some id =>
    if s.phase = .paused then (v.putSession e (s.control .resume).2, id) else (v, id)
  | none =>
    let (schedule, id) := v.schedule.start e.key false
    (({ v with schedule } : Service).noteRun e id, id)

/-- What a caller sees of a run that was started: the view of the session, or
the fault with which the run ended. -/
def runView (v : Service) (e : Entry) (id : Nat) (waited : Bool) : Response :=
  match v.schedule.run? id, v.session? e with
  | some ⟨_, .finished (some fault)⟩, some s =>
    if waited then .failure (.session fault) else viewOf [] s
  | _, some s => viewOf [] s
  | _, none => .notFound ("unknown session " ++ e.id)

/-- Carries out a deed on a session. -/
def perform (v : Service) (e : Entry) (s : Session) (deed : SessionDeed) : Response × Service :=
  match deed with
  | .step =>
    if v.isBusy e && s.phase = .running then
      (.conflict "session is running; pause it first", v)
    else v.controlled e s .step "has_more"
  | .pause => v.controlled e s .pause "paused"
  | .resume => v.controlled e s .resume "resumed"
  | .reset =>
    let v := (v.forgetRun e).cancelRun (v.run? e)
    match s.control (.load s.source) with
    | (.error fault, s) => (.failure (.session fault), v.putSession e s)
    | (.ok _, s) => (viewOf [] s, v.putSession e s)
  | .run wait =>
    let (v, id) := v.startRun e s
    let v := if wait then { v with schedule := v.schedule.await id } else v
    (v.runView e id wait, v)

/-- Answers a request that names a session. -/
def withSession (v : Service) (id : String) (f : Entry → Session → Response × Service) :
    Response × Service :=
  match v.find? id with
  | none => (.notFound ("unknown session " ++ id), v)
  | some e =>
    match v.session? e with
    | none => (.notFound ("unknown session " ++ id), v)
    | some s => f e s

/-- Answers a request. -/
def handle (v : Service) (r : Request) : Response × Service :=
  match r with
  | .compile code => (compileOnly code, v)
  | .run code settings => v.runOnce code settings
  | .create code settings => v.create code settings
  | .view id => v.withSession id fun _ s => (viewOf [] s, v)
  | .deed id deed => v.withSession id fun e s => v.perform e s deed
  | .delete id =>
    v.withSession id fun e _ => (.ok (.object [("deleted", .text id)]), v.dismiss e)

/-- Leaves some turns to the runs under way. -/
def ticks (v : Service) (n : Nat) : Service :=
  { v with schedule := v.schedule.ticks n }

end Service

end Runloop
