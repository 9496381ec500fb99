/-
Driving a program: phases, units of work and their ends, single steps, and
the operations that pause, stop and reset a run.
-/
import Runloop.Machine.Segment

namespace Runloop

namespace Act

/-- Runs a loop of a session: a turn answers whether it asks for more. -/
def loop (rank : Session → Rank) (body : Act Bool) : Act Unit := fun s =>
  let turn (s : Session) : Turn (Except Fault Unit) Session :=
    match (body.run s : Except Fault Bool × Session) with
    | (.error fault, s') => .stop (.error fault) s'
    | (.ok false, s') => .stop (.ok ()) s'
    | (.ok true, s') => .again s'
  descend rank (.ok ()) turn s

variable (host : Host)

/-! ## Time -/

/-- Fires a timer of the clock: the callback of its task is queued. -/
def fire (taskId : String) : Act Unit := do
  let _ ← change host fun s _ => s.moveToCallbacks taskId

/-- Fires the timers that are due by a time, and moves the clock to it. -/
def fireUntil (target : Double) : Act Unit :=
  loop (fun s => ⟨s.hooks.length, s.clock.queue.length, 0⟩) do
    let s ← get
    match s.clock.pop? target with
    | none =>
      set { s with clock := { s.clock with now := target } }
      return false
    | some (timer, clock) =>
      set { s with clock }
      if !clock.isCancelled timer.serial then fire host timer.payload
      return true

/-- Lets time pass; in real time it passes by itself. -/
def elapse (delay : Double) : Act Unit := do
  let s ← get
  if !s.realtime then fireUntil host (s.clock.after delay)

/-- The pacing delay in seconds. -/
def pacing : Act Double := do
  number (Number.quotient (← store).speed 1000)

/-! ## Phases and units of work -/

def setPhase (phase : Phase) : Act Unit := do
  modifyMachine fun m => { m with phase }
  change host fun s _ =>
    s.setExecution (phase == .running || phase == .paused) (phase == .paused)

/-- Opens the gate for a paused run, if there is one. -/
def openGate : Act Unit :=
  modifyMachine fun m =>
    if m.gate.isSome then { m with gate := some true, openings := m.openings + 1 } else m

/-- Ends the unit of work.  A unit cannot be ended from inside itself. -/
def closeUnit : Act Unit := do
  let unit? := (← machine).unit
  modifyMachine fun m => { m with unit := none }
  if let some unit := unit? then
    if !unit.running then
      if let some fault ← abandon host unit.work then throw fault

/-- Ends the run: no line is highlighted any more and the console says so. -/
def finish : Act Unit := do
  closeUnit host
  modifyMachine fun m => { m with phase := .completed }
  change host fun s _ => s.setCurrentLine (-1)
  change host fun s _ => s.setExecution false false
  info host "Execution completed"

/-- Takes the next unit of work: the next instruction of the program, or else
a pass over the event loop. -/
def nextUnit : Act Unit :=
  modifyMachine fun m =>
    let (work, cursor) : Work × Nat :=
      match m.program[m.cursor]? with
      | some i => (.instruction i, m.cursor + 1)
      | none => (.pass, m.cursor)
    { m with unit := some ⟨m.units, work, false⟩, units := m.units + 1, cursor }

/-- Whether the unit of work is the one with a serial. -/
def holdsUnit (serial : Nat) : Act Bool :=
  return (← machine).unit.any (·.serial == serial)

/-- Ends the run with a fault, unless it is over already. -/
def failUnit (generation : Nat) (fault : Fault) : Act Unit := do
  if (← machine).generation = generation then
    modifyMachine fun m => { m with unit := none }
    error host fault.report
    finish host

/-- Keeps the work of a unit for its next segment; work of a unit that has
been given up meanwhile is abandoned. -/
def keepWork (serial : Nat) (work : Work) : Act Unit := do
  if ← holdsUnit serial then
    modifyMachine fun m => { m with unit := some ⟨serial, work, false⟩ }
  else
    let _ ← abandon host work

/-- Runs the unit of work to its next pause, whatever the handlers of
instructions are.  Answers whether it paused in the same run; a unit that ended
or faulted is gone. -/
def advanceWith (handler : Handler) : Act Bool := do
  let m ← machine
  let generation := m.generation
  match m.unit with
  | none =>
    failUnit host generation .noUnit
    return false
  | some unit =>
    if unit.running then
      failUnit host generation .unitRunning
      return false
    else
      modifyMachine fun m => { m with unit := some { unit with running := true } }
      let r ← tryCatch (do return Except.ok (← runSegmentWith host handler unit.work)) fun fault =>
        return Except.error fault
      match r with
      | .ok (.paused work) =>
        let same := (← machine).generation == generation
        keepWork host unit.serial work
        return same
      | .ok .ended =>
        if ← holdsUnit unit.serial then modifyMachine fun m => { m with unit := none }
        return false
      | .error fault =>
        failUnit host generation fault
        return false

/-- Runs the unit of work to its next pause. -/
def advance : Act Bool := advanceWith host (perform host)

/-! ## Control operations -/

/-- Clears the store, telling about each part, and cancels its timers. -/
def clearStore : Act Unit := do
  modify fun s =>
    let clock := s.store.timers.foldl (fun c serial => c.cancel serial) s.clock
    { s with clock, store := s.store.cleared }
  Store.resetEvents.forM fun event => do
    host.tell (event (← store))

/-- Loads a program and opens the global frame and scope. -/
def init (program : List Instruction) : Act Unit := do
  let m ← machine
  if m.phase ≠ .idle then throw (.lifecycle (.cannotInit m.phase))
  clearStore host
  let dropped := (← machine).unit
  modifyMachine fun m => { m with program, cursor := 0, unit := none }
  if let some unit := dropped then
    if !unit.running then
      let _ ← abandon host unit.work
  modifyMachine fun m => { m with detached := [], depth := 0, line := 0, receivers := [] }
  let _ ← change host fun s _ => s.pushFrame "Global" "global" "window" 0
  let scope ← change host fun s now => s.createScope "Global" "global" none now
  modifyMachine fun m => { m with globalScope := some scope.id, loaded := true }

/-- Runs one unit of work to its end, and answers whether work is left.  The
first step of an idle program makes it paused. -/
def step : Act Bool := do
  let m ← machine
  if !m.loaded then throw (.lifecycle .notLoaded)
  else if m.phase = .completed then return false
  else if m.phase = .running && m.runActive then throw (.lifecycle .runInProgress)
  else
    if m.phase = .idle then setPhase host .paused
    let delay ← pacing
    let generation := (← machine).generation
    if (← machine).unit.isNone then nextUnit
    loop Session.rank do
      if ← advance host then
        elapse host delay
        return true
      else return false
    let s ← get
    if s.machine.generation ≠ generation || s.machine.phase = .completed then return false
    else if s.hasMore then return true
    else
      finish host
      return false

/-- Pauses a running program. -/
def pause : Act Bool := do
  if (← machine).phase ≠ .running then return false
  else
    modifyMachine fun m => { m with gate := m.gate.map fun _ => false }
    setPhase host .paused
    return true

/-- Lets a paused program go on. -/
def resume : Act Bool := do
  if (← machine).phase ≠ .paused then return false
  else
    setPhase host .running
    openGate
    return true

/-- Ends a run without clearing anything. -/
def stop : Act Unit := do
  let m ← machine
  if m.phase = .idle || m.phase = .completed then return
  else
    -- the open calls end first, while the run still counts
    closeUnit host
    modifyMachine fun m =>
      { m with generation := m.generation + 1, runActive := false, phase := .completed }
    change host fun s _ => s.setExecution false false
    openGate

/-- Ends a run, cancels its timers and clears the store. -/
def resetMachine : Act Unit := do
  modifyMachine fun m => { m with generation := m.generation + 1, runActive := false }
  closeUnit host
  openGate
  clearStore host
  modifyMachine fun m =>
    { m with
      phase := .idle, loaded := false, program := [], cursor := 0, detached := [], depth := 0
      line := 0, receivers := [], globalScope := none }

end Act

end Runloop
