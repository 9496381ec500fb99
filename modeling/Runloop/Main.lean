/-
The program: reads the command line and the snippet, and prints what the
command leaves behind.
-/
import Runloop.CommandLine

namespace Runloop.CommandLine

/-- How the program is called. -/
def usage : String :=
  "usage: runloop [--log-level LEVEL] run FILE [--speed MS] [--realtime] [--trace] [--json] " ++
    "[--quiet-info]\n       runloop [--log-level LEVEL] translate FILE"

/-- The rest of a stream. -/
partial def readRest (stream : IO.FS.Stream) (before : String) : IO String := do
  let line ← stream.getLine
  if line.isEmpty then return before else readRest stream (before ++ line)

/-- The file that an invocation reads. -/
def Invocation.file? : Invocation → Option String
  | .run file _ | .compile file => some file
  | .serve _ _ => none

/-- Fetches what an invocation reads. -/
def fetch (i : Invocation) : IO Sources := do
  match i.file? with
  | none => return { stdin := "", file? := fun _ => none }
  | some "-" => return { stdin := ← readRest (← IO.getStdin) "", file? := fun _ => none }
  | some name =>
    let content ← try some <$> IO.FS.readFile name catch _ => pure none
    return { stdin := "", file? := fun _ => content }

/-- The wording of a failure. -/
def Failure.message : Failure → String
  | missingFile => "no such file"
  | fault f => f.message
  | noServer => "this program does not serve"

/-- Carries out a command line and answers the exit code. -/
def execute (args : List String) : IO UInt32 := do
  match Invocation.parse args with
  | .error .help =>
    IO.println usage
    return 0
  | .error .misuse =>
    IO.eprintln usage
    return 2
  | .ok invocation =>
    match invocation.perform (← fetch invocation) with
    | .error failure =>
      IO.eprintln failure.message
      return 1
    | .ok outcome =>
      IO.print outcome.stdout
      IO.eprint outcome.stderr
      return outcome.exitCode.toUInt32

end Runloop.CommandLine

def main (args : List String) : IO UInt32 := Runloop.CommandLine.execute args
