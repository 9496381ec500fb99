/-
What a session shows to its caller, as plain data.
-/
import Runloop.Session
import Runloop.Instruction.Outline

namespace Runloop

def Diagnostic.toDatum (d : Diagnostic) : Datum :=
  .object [("line", .int d.line), ("message", .text d.message), ("text", .text d.text)]

/-- An error of a source, with the code under which callers know it. -/
def SessionError.toDatum (e : SessionError) : Datum :=
  .object
    [("code", .text "TRANSLATION_ERROR"), ("message", .text e.message), ("line", .int e.line),
      ("column", .option (fun c : Nat => .int c) e.column)]

namespace Session

def consoleDatum (s : Session) : Datum := .list (s.console.map ConsoleEntry.toDatum)

/-- The phase, the state and the console. -/
def viewFields (s : Session) : List (String × Datum) :=
  [("phase", .text s.phase.label), ("state", s.store.state.toDatum), ("console", s.consoleDatum)]

/-- The view with the errors, or with nothing in their place. -/
def toDatum (s : Session) : Datum :=
  .object
    (s.viewFields ++
      [("errors",
        if s.errors.isEmpty then .null else .list (s.errors.map SessionError.toDatum))])

/-- The program as it was compiled. -/
def programFields (s : Session) : List (String × Datum) :=
  [("instructions", .list (s.instructions.map Instruction.outline)),
    ("diagnostics", .list (s.diagnostics.map Diagnostic.toDatum))]

/-- The first error, or nothing. -/
def firstError (s : Session) : Datum := .option SessionError.toDatum s.errors.head?

/-- The lines that were written to the console since the journal had a length. -/
def entriesSince (s : Session) (length : Nat) : List ConsoleEntry :=
  (s.journal.take (s.journal.length - length)).reverse.filterMap fun
    | .console entry => some entry
    | _ => none

end Session

end Runloop
