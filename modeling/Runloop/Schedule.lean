/-
Runs that take turns.  Jobs that are ready wait in a queue; a job that gives
way is put at its end, for the next round.  The caller has a turn like
everyone else: it runs between two jobs, and gives way by taking a place in
the queue itself.
-/
import Runloop.Run

namespace Runloop

/-- A run of a session, which is known by its place. -/
structure Run where
  owner : Nat
  state : RunState

/-- Something that is ready to be done: the next segment of a run, or a timer
whose time has come. -/
inductive Job where
  | run (id : Nat)
  | timer (owner : Nat) (serial : Nat) (task : String)

/-- Sessions and runs in the order in which they were created, the jobs left
of this round and those of the next. -/
structure Schedule where
  sessions : List Session := []
  runs : List Run := []
  ready : List Job := []
  next : List Job := []

namespace Schedule

/-! ## Sessions and runs -/

def session? (q : Schedule) (key : Nat) : Option Session := q.sessions[key]?

def run? (q : Schedule) (id : Nat) : Option Run := q.runs[id]?

/-- Whether a run is over; one that never was counts as over. -/
def isDone (q : Schedule) (id : Nat) : Bool :=
  (q.run? id).all (·.state.isFinished)

/-- Adds a session and answers its key. -/
def addSession (q : Schedule) (s : Session) : Schedule × Nat :=
  ({ q with sessions := q.sessions ++ [s] }, q.sessions.length)

/-- Gives a run another state. -/
def setRun (q : Schedule) (id : Nat) (state : RunState) : Schedule :=
  { q with runs := q.runs.modify id fun r => { r with state } }

/-- Puts a job at the end of the queue. -/
def enqueue (q : Schedule) (job : Job) : Schedule :=
  { q with next := q.next ++ [job] }

/-- Lets a waiting run go on if the gate of its session was opened. -/
def wakeRun (key : Nat) (s : Session) (q : Schedule) (id : Nat) : Schedule :=
  match q.run? id with
  | none => q
  | some r =>
    match r.state with
    | .waiting generation _ =>
      if r.owner = key && s.releases r.state then
        (q.setRun id (.sleeping generation)).enqueue (.run id)
      else q
    | _ => q

/-- Puts a changed session back; runs that its gate held are ready again. -/
def putSession (q : Schedule) (key : Nat) (s : Session) : Schedule :=
  (List.range q.runs.length).foldl (wakeRun key s) { q with sessions := q.sessions.set key s }

/-- Creates a run, which is ready but not begun. -/
def start (q : Schedule) (key : Nat) (direct : Bool) : Schedule × Nat :=
  let id := q.runs.length
  let created : Run := { owner := key, state := .created direct }
  (enqueue { q with runs := q.runs ++ [created] } (.run id), id)

/-- Ends a run from outside. -/
def cancelRun (q : Schedule) (id : Nat) : Schedule :=
  if q.isDone id then q else q.setRun id (.finished none)

/-! ## Rounds -/

/-- Does a job.  A run that gives way is put at the end of the queue, behind
the runs that its segment released. -/
def perform (q : Schedule) (job : Job) : Schedule :=
  match job with
  | .run id =>
    match q.run? id with
    | none => q
    | some r =>
      match q.session? r.owner with
      | none => q
      | some s =>
        let (state, s) := s.segment r.state
        let q := (q.setRun id state).putSession r.owner s
        match state with
        | .sleeping _ => q.enqueue (.run id)
        | _ => q
  | .timer key serial task =>
    match q.session? key with
    | none => q
    | some s =>
      if s.clock.isCancelled serial then q
      else q.putSession key (s.run fun host => Act.fire host task).2

/-- The timers of sessions in real time, all of them due. -/
def dueTimers (q : Schedule) : List Job :=
  q.sessions.zipIdx.flatMap fun (s, key) =>
    if s.realtime then s.clock.queue.map fun t => .timer key t.serial t.payload else []

/-- Takes the due timers off their clocks. -/
def takeTimers (q : Schedule) : Schedule :=
  { q with
    sessions := q.sessions.map fun s =>
      if s.realtime then { s with clock := { s.clock with queue := [] } } else s }

/-- Does all jobs of this round. -/
def finishRound (q : Schedule) : Schedule :=
  q.ready.foldl perform { q with ready := [] }

/-- Begins the next round: what was put in the queue, and the due timers. -/
def beginRound (q : Schedule) : Schedule :=
  { q.takeTimers with ready := q.next ++ q.dueTimers, next := [] }

/-- Does the first `n` jobs of this round. -/
def performFirst (q : Schedule) (n : Nat) : Schedule :=
  (q.ready.take n).foldl perform { q with ready := q.ready.drop n }

/-- The caller gives way once: the jobs left of this round are done, and then
those of the next round that were in the queue before the caller. -/
def tick (q : Schedule) : Schedule :=
  let place := q.next.length
  (q.finishRound.beginRound).performFirst place

def ticks : Nat → Schedule → Schedule
  | 0, q => q
  | n + 1, q => ticks n q.tick

/-! ## Waiting

A wait goes on only while the sessions come nearer to their ends. -/

/-- The rank of a schedule adds up the ranks of its sessions, and counts runs
that have not begun or wait. -/
def rank (q : Schedule) : Rank :=
  let ranks := q.sessions.map (·.rank)
  ⟨total (ranks.map (·.hooks)), total (ranks.map (·.budget)),
    total (ranks.map (·.load)) + total (q.runs.map (·.state.weight))⟩

/-- Does the jobs of a round until a run is over, and puts the caller in the
queue at that place.  Answers the place, if the run got over. -/
def performUntil (id : Nat) : List Job → Schedule → Option Nat × Schedule
  | [], q => (none, q)
  | job :: rest, q =>
    let q := q.perform job
    if q.isDone id then
      let place := q.next.length
      (some place, rest.foldl perform q)
    else performUntil id rest q

/-- Goes through whole rounds until a run is over.  The caller is put in the
queue when it ends, behind the runs that had their turn before it in that
round. -/
def roundsUntil (id : Nat) (q : Schedule) : Schedule :=
  let turn (q : Schedule) : Turn Unit Schedule :=
    match performUntil id q.ready { q with ready := [] } with
    | (some place, q) => .stop () (q.beginRound.performFirst place)
    | (none, q) => .again q.beginRound
  (descend rank () turn q).2

/-- Gives way until a run is over. -/
def await (id : Nat) (q : Schedule) : Schedule :=
  if q.isDone id then q
  else
    match performUntil id q.ready { q with ready := [] } with
    | (some place, q) => q.beginRound.performFirst place
    | (none, q) => roundsUntil id q.beginRound

/-- How a wait ends that does not outlast a pause. -/
inductive WaitEnd where
  | done
  | paused
  | failed (fault : Fault)
deriving DecidableEq, Repr

/-- Gives way until a run is over or its session is paused. -/
def waitFor (key id : Nat) (q : Schedule) : WaitEnd × Schedule :=
  let turn (q : Schedule) : Turn WaitEnd Schedule :=
    match q.run? id with
    | none | some ⟨_, .finished none⟩ => .stop .done q
    | some ⟨_, .finished (some fault)⟩ => .stop (.failed fault) q
    | some _ =>
      let q := q.tick
      if !q.isDone id && (q.session? key).any (·.phase == .paused) then .stop .paused q
      else .again q
  descend rank .done turn q

/-- Runs the program of a session in the caller's own turns: the caller gives
way where a run of its own would. -/
def runInTurn (key : Nat) (q : Schedule) : Option Fault × Schedule :=
  let turn (p : RunState × Schedule) : Turn (Option Fault) (RunState × Schedule) :=
    match p.2.session? key with
    | none => .stop none p
    | some s =>
      let (state, s) := s.segment p.1
      let q := p.2.putSession key s
      match state with
      | .finished fault? => .stop fault? (state, q)
      | _ => .again (state, q.tick)
  let rankOf (p : RunState × Schedule) : Rank :=
    let r := p.2.rank
    { r with load := r.load + p.1.weight }
  let (fault?, _, q) := descend rankOf none turn (.created false, q)
  (fault?, q)

end Schedule

/-- Runs the program of a session to its end. -/
def Session.runAll (s : Session) : Except Fault Unit × Session :=
  let (q, id) := ({ sessions := [s] } : Schedule).start 0 false
  let q := q.await id
  let ended := (q.session? 0).getD s
  match q.run? id with
  | some ⟨_, .finished (some fault)⟩ => (.error fault, ended)
  | _ => (.ok (), ended)

end Runloop
