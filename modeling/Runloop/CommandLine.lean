/-
The command line: running a snippet and printing its console, or printing
the instructions that it is compiled to.
-/
import Runloop.CommandLine.Argument
import Runloop.Schedule
import Runloop.Session.View
import Runloop.Datum.Layout
import Runloop.Text.Lines

namespace Runloop.CommandLine

/-! ## Invocations -/

/-- How a snippet is run. -/
structure RunOptions where
  speed : Int := 0
  realtime : Bool := false
  trace : Bool := false
  json : Bool := false
  quietInfo : Bool := false
deriving DecidableEq, Repr

/-- What the command line asks for. -/
inductive Invocation where
  | run (file : String) (options : RunOptions)
  | compile (file : String)
  | serve (host : String) (port : Int)
deriving DecidableEq, Repr

/-- The arguments before the command. -/
def mainSpec : ArgumentSpec :=
  { options := [⟨"--log-level", .text⟩], operand := .command }

def runSpec : ArgumentSpec :=
  { options :=
      [⟨"--speed", .integer⟩, ⟨"--realtime", .flag⟩, ⟨"--trace", .flag⟩, ⟨"--json", .flag⟩,
        ⟨"--quiet-info", .flag⟩]
    operand := .one }

def compileSpec : ArgumentSpec := { options := [], operand := .one }

def serveSpec : ArgumentSpec :=
  { options := [⟨"--host", .text⟩, ⟨"--port", .integer⟩], operand := .none }

/-- The options of a run. -/
def runOptions (a : Arguments) : RunOptions :=
  { speed := a.integer "--speed" 0, realtime := a.has "--realtime", trace := a.has "--trace"
    json := a.has "--json", quietInfo := a.has "--quiet-info" }

/-- The invocation of a command with its arguments; nothing may be missing or
left over. -/
def Invocation.ofCommand (name : String) (args : List String) (extra : Bool) :
    Except Stop Invocation := do
  let settled (a : Arguments) (make : String → Invocation) : Except Stop Invocation :=
    match a.operand with
    | [file] => if a.extra || extra then .error .misuse else .ok (make file)
    | _ => .error .misuse
  match name with
  | "run" =>
    let a ← Arguments.read runSpec args
    settled a fun file => .run file (runOptions a)
  | "translate" =>
    let a ← Arguments.read compileSpec args
    settled a .compile
  | "serve" =>
    let a ← Arguments.read serveSpec args
    if a.extra || extra then .error .misuse
    else return .serve ((a.value? "--host").getD "127.0.0.1") (a.integer "--port" 8000)
  | _ => .error .misuse

/-- Reads the command line. -/
def Invocation.parse (args : List String) : Except Stop Invocation := do
  let a ← Arguments.read mainSpec args
  match a.operand with
  | name :: rest => ofCommand name rest a.extra
  | [] => .error .misuse

/-! ## Commands -/

/-- What a command leaves behind. -/
structure Outcome where
  exitCode : Nat
  stdout : String
  stderr : String
deriving DecidableEq, Repr

/-- Why a command breaks off. -/
inductive Failure where
  | missingFile
  | fault (fault : Fault)
  /-- Serving is left to another program. -/
  | noServer
deriving DecidableEq, Repr

/-- Where a snippet comes from. -/
structure Sources where
  stdin : String
  file? : String → Option String

/-- The text of a snippet.  A single dash stands for the standard input; the
line ends of files are unified. -/
def Sources.read (sources : Sources) (name : String) : Except Failure String :=
  if name = "-" then .ok sources.stdin
  else
    match sources.file? name with
    | some content => .ok (String.ofList (Text.unifyLineEnds content.toList))
    | none => .error .missingFile

/-- A line of the console; all but plain logs name their type. -/
def formatEntry (e : ConsoleEntry) : String :=
  if e.type = "log" then e.text else "[" ++ e.type ++ "] " ++ e.text

/-- A line of the trace: the topic and, if it has one, the action. -/
def formatEvent (e : Event) : String :=
  "# " ++ e.topic.label ++ e.action?.elim "" (" " ++ ·)

/-- Lines as text, each with its end. -/
def unlines (lines : List String) : String :=
  String.join (lines.map (· ++ "\n"))

/-- Whether a run failed: its source had an error, or its console shows one. -/
def hasFailed (s : Session) : Bool :=
  !s.errors.isEmpty || s.console.any (·.type = "error")

/-- The console lines that were written on the way. -/
def shownEntries (s : Session) (quietInfo : Bool) : List ConsoleEntry :=
  (s.entriesSince 0).filter fun e => !(quietInfo && e.type == "info")

/-- Turns a fault into a failure of the command. -/
def orFail {α : Type} (r : Except Fault α) : Except Failure α :=
  match r with
  | .ok a => .ok a
  | .error fault => .error (.fault fault)

/-- A datum as laid-out text, with a line end. -/
def layOut (d : Datum) : Except Failure String :=
  match d.indented with
  | .ok text => .ok (text ++ "\n")
  | .error fault => .error (.fault (.number fault))

/-- Runs a snippet to its end. -/
def runSnippet (source : String) (options : RunOptions) : Except Failure Outcome := do
  let (loaded, s) := (Session.create options.speed {} options.realtime).run
    fun host => Act.load host source
  let s ←
    if ← orFail loaded then
      let (ended, s) := s.runAll
      orFail ended
      pure s
    else pure s
  let shown := unlines ((shownEntries s options.quietInfo).map formatEntry)
  let final ← if options.json then layOut s.store.state.toDatum else pure ""
  return {
    exitCode := if hasFailed s then 1 else 0
    stdout := shown ++ final
    stderr := if options.trace then unlines (s.journal.reverse.map formatEvent) else "" }

/-- Compiles a snippet and lists its instructions. -/
def compileSnippet (source : String) : Except Failure Outcome :=
  match compile source with
  | .error (.source e) =>
    .ok { exitCode := 1, stdout := "", stderr := "TranslationError: " ++ e.located ++ "\n" }
  | .error (.number fault) => .error (.fault (.number fault))
  | .ok c => do
    let text ← layOut (.object
      [("instructions", .list (c.instructions.map Instruction.outline)),
        ("diagnostics", .list (c.diagnostics.map Diagnostic.toDatum))])
    return { exitCode := 0, stdout := text, stderr := "" }

/-- Carries out an invocation. -/
def Invocation.perform (i : Invocation) (sources : Sources) : Except Failure Outcome := do
  match i with
  | .run file options => runSnippet (← sources.read file) options
  | .compile file => compileSnippet (← sources.read file)
  | .serve _ _ => .error .noServer

end Runloop.CommandLine
