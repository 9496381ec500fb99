/-
Runs of a session, segment by segment.  A run goes on until no work is left,
and gives way to others after each segment; a run that finds the session
paused waits until the gate is opened.
-/
import Runloop.Session

namespace Runloop

/-- Where a run stands between two segments. -/
inductive RunState where
  /-- Not begun.  A run through the session passes over a session without a
  program; a `direct` one is refused by it. -/
  | created (direct : Bool)
  /-- Gave way after a segment of a generation. -/
  | sleeping (generation : Nat)
  /-- Waits for the gate since it was opened so many times. -/
  | waiting (generation : Nat) (openings : Nat)
  | finished (fault? : Option Fault)
deriving DecidableEq, Repr

namespace RunState

def isFinished : RunState → Bool
  | finished _ => true
  | _ => false

/-- A bound on the changes of state that run no segment of a program. -/
def weight : RunState → Nat
  | created _ => 3
  | sleeping _ => 2
  | waiting _ _ => 1
  | finished _ => 0

end RunState

namespace Act

variable (host : Host)

/-- Gives up the session's only place for a run, unless the run is void. -/
def leaveRun (generation : Nat) : Act Unit :=
  modifyMachine fun m => if m.generation = generation then { m with runActive := false } else m

/-- Whether a run of a generation is over. -/
def isOver (generation : Nat) : Act Bool := do
  let m ← machine
  return m.generation ≠ generation || m.phase = .completed

/-- Lets the pacing delay pass.  In real time timers fire before it is over
only if it takes any time. -/
def pace : Act Unit := do
  let delay ← pacing
  let s ← get
  if !s.realtime || Double.zero.lt delay then fireUntil host (s.clock.after delay)

/-- One turn of a run: work up to the next pause, and the pacing delay.
Answers whether the run goes on. -/
def runTurn (generation : Nat) : Act Bool := do
  if ← isOver generation then return false
  else
    let s ← get
    if s.machine.unit.isNone && !s.hasMore then
      finish host
      return false
    else
      if s.machine.unit.isNone then nextUnit
      let _ ← advance host
      if ← isOver generation then return false
      else
        pace host
        return true

/-- A turn of a run that leaves its place behind when it ends or faults. -/
def guardedTurn (generation : Nat) : Act RunState := do
  let goesOn ← tryCatch (runTurn host generation) fun fault => do
    leaveRun generation
    throw fault
  if goesOn then return .sleeping generation
  else
    leaveRun generation
    return .finished none

/-- Begins a run with its first turn.  There is place for one run at a time. -/
def beginRun (direct : Bool) : Act RunState := do
  let m ← machine
  if !m.loaded then
    if direct then throw (.lifecycle .notLoaded) else return .finished none
  else if m.phase = .completed then return .finished none
  else if m.runActive then throw (.lifecycle .alreadyRunning)
  else
    modifyMachine fun m => { m with gate := some true, runActive := true }
    setPhase host .running
    guardedTurn host m.generation

/-- Goes on with a run; in a paused session it waits for the gate. -/
def continueRun (generation : Nat) : Act RunState := do
  let m ← machine
  if m.phase = .paused && m.generation = generation then return .waiting generation m.openings
  else guardedTurn host generation

/-- The next segment of a run. -/
def segment (state : RunState) : Act RunState :=
  match state with
  | .created direct => beginRun host direct
  | .sleeping generation | .waiting generation _ => continueRun host generation
  | .finished fault? => return .finished fault?

end Act

namespace Session

/-- Runs the next segment of a run; a fault ends it. -/
def segment (s : Session) (state : RunState) : RunState × Session :=
  match s.run fun host => Act.segment host state with
  | (.ok state, s) => (state, s)
  | (.error fault, s) => (.finished (some fault), s)

/-- Whether a waiting run may go on. -/
def releases (s : Session) : RunState → Bool
  | .waiting _ openings => openings < s.machine.openings
  | _ => false

/-- Takes steps until no work is left, at most as many as asked for, and
lists what they answered. -/
def steps : Nat → Session → Except Fault (List Bool) × Session
  | 0, s => (.ok [], s)
  | n + 1, s =>
    match s.run fun host => Act.stepSession host with
    | (.error fault, s) => (.error fault, s)
    | (.ok false, s) => (.ok [false], s)
    | (.ok true, s) =>
      let (rest, s) := steps n s
      (rest.map (true :: ·), s)

/-- Takes steps until no work is left, and counts those that left some. -/
def stepAll (s : Session) : Except Fault Nat × Session :=
  let turn (p : Nat × Session) : Turn (Except Fault Unit) (Nat × Session) :=
    match p.2.run fun host => Act.stepSession host with
    | (.error fault, s) => .stop (.error fault) (p.1, s)
    | (.ok false, s) => .stop (.ok ()) (p.1, s)
    | (.ok true, s) => .again (p.1 + 1, s)
  let (r, count, s) := descend (fun p => p.2.rank) (.ok ()) turn (0, s)
  (r.map fun _ => count, s)

end Session

end Runloop
