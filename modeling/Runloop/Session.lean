/-
Sessions: one program under the control of one caller.  A session compiles
and loads a source text, keeps its console and its errors, and carries out
control operations, also those that hooks ask for in the middle of a
notification.
-/
import Runloop.Machine.Control

namespace Runloop

namespace Act

variable (host : Host)

/-- Ends everything and forgets the console, the errors and the program. -/
def reset : Act Unit := do
  resetMachine host
  modify fun s => { s with instructions := [], diagnostics := [], errors := [], lines := [] }

/-- Compiles and loads a source text.  Answers whether there is a program
to run; an error of the source is kept and written to the console. -/
def load (source : String) : Act Bool := do
  reset host
  modify fun s => { s with source }
  if (Text.trim source.toList).isEmpty then
    log host "warn" ["No code to execute"]
    return false
  else
    match compile source with
    | .error (.number fault) => throw (.compilation (.number fault))
    | .error (.source e) =>
      modify fun s => { s with errors := s.errors ++ [⟨e.message, e.line, e.column⟩] }
      error host ("Error: " ++ e.located)
      return false
    | .ok t =>
      modify fun s =>
        { s with
          notices := t.notices.reverse ++ s.notices
          instructions := t.instructions, diagnostics := t.diagnostics }
      init host t.instructions
      return true

/-- Runs one unit of work of a loaded program. -/
def stepSession : Act Bool := do
  if (← machine).loaded then step host else return false

/-- Resets and stops listening to the console. -/
def close : Act Unit := do
  reset host
  modify fun s => { s with attached := false }

/-- Sets the pacing delay. -/
def setSpeed (speed : Int) : Act Unit :=
  change host fun s _ => s.setSpeed speed

/-- What a control operation answers. -/
inductive Answer where
  | nothing
  | bool (b : Bool)
deriving DecidableEq, Repr

/-- Carries out a control operation. -/
def control (c : Control) : Act Answer := do
  match c with
  | .pause => return .bool (← pause host)
  | .resume => return .bool (← resume host)
  | .stop => stop host; return .nothing
  | .reset => reset host; return .nothing
  | .close => close host; return .nothing
  | .step => return .bool (← stepSession host)
  | .load source => return .bool (← load host source)
  | .setSpeed speed => setSpeed host speed; return .nothing

/-! ## Publishing -/

/-- Notes an event in the journal, and a line of the console in the session's
own console as long as it listens. -/
def record : Publisher := fun event =>
  modify fun s =>
    let s := { s with journal := event :: s.journal }
    match event with
    | .console entry => if s.attached then { s with lines := entry :: s.lines } else s
    | _ => s

/-- Whether a hook waits for an event like this. -/
def matchesHook (event : Event) (hook : Hook) : Bool :=
  event.topic.label == hook.topic &&
    (match hook.action with
      | none => true
      | some action => event.action? == some action) &&
    (match hook.text, event with
      | none, _ => true
      | some text, .console entry => entry.text == text
      | some _, _ => false)

/-- Tests hooks in order; one that matches and is still there is used up and
its operation carried out, with `inner` told about what happens. -/
def fireHooks (inner : Publisher) (event : Event) : List Hook → Act Unit
  | [] => return
  | hook :: rest => do
    let s ← get
    if s.hooks.contains hook && matchesHook event hook then
      set { s with hooks := s.hooks.erase hook }
      let _ ← control (.standard inner) hook.deed
    fireHooks inner event rest

/-- Publishes an event: it is recorded, and then the hooks that match are
carried out.  Each level of hooks inside hooks uses one up, so `depth` levels
are enough for as many hooks. -/
def publishAt : Nat → Publisher
  | 0 => record
  | depth + 1 => fun event => do
    record event
    fireHooks (publishAt depth) event (← get).hooks

/-- Runs a computation with all hooks in place. -/
def withHooks {α : Type} (act : Host → Act α) : Act α := do
  act (.standard (publishAt (← get).hooks.length))

end Act

namespace Session

/-- A session without a program. -/
def create (speed : Int) (limits : Limits) (realtime : Bool) : Session :=
  { store := .empty speed, clock := .starting .zero, realtime, machine := { limits } }

/-- Runs a computation on a session, with all hooks in place. -/
def run {α : Type} (s : Session) (act : Host → Act α) : Except Fault α × Session :=
  ((Act.withHooks act).run s : Except Fault α × Session)

/-- Carries out a control operation. -/
def control (s : Session) (c : Control) : Except Fault Act.Answer × Session :=
  s.run fun host => Act.control host c

/-- The texts of the console, with or without its information lines. -/
def consoleLines (s : Session) (includeInfo : Bool) : List String :=
  (s.console.filter fun e => includeInfo || e.type != "info").map (·.text)

end Session

end Runloop
