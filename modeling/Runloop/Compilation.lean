/-
From source text to the instructions that are run: the statements of the
text, with the functions and the `var` names they declare lifted to the
front.
-/
import Runloop.Grammar.Statement

namespace Runloop

/-! ## Hoisting -/

/-- The function that an instruction declares, marked as lifted. -/
def Instruction.lifted? : Instruction → Option FunctionDecl
  | functionDecl d => some { d with hoisted := true }
  | _ => none

/-- The name, and its line, that an instruction declares with `var`. -/
def Instruction.varName? : Instruction → Option (String × Int)
  | declare .var name _ line => some (name, line)
  | construct .var name _ _ line => some (name, line)
  | _ => none

/-- The pairs whose name has not come before. -/
def firstOfEachName : List (String × Int) → List (String × Int)
  | [] => []
  | p :: rest => p :: (firstOfEachName rest).filter (fun q => q.1 != p.1)

/-- The names in the order of their first occurrence. -/
def distinctNames : List String → List String
  | [] => []
  | n :: rest => n :: (distinctNames rest).filter (· != n)

/-- Lifts function declarations and `var` names to the front.  Functions move
entirely; a `var` name leaves its own instruction where it was and gets room
in front.  A marker with the lifted names leads if anything was lifted. -/
def hoist (is : List Instruction) : List Instruction :=
  let functions := is.filterMap Instruction.lifted?
  let rest := is.filter (fun i => i.lifted?.isNone)
  let vars := firstOfEachName (rest.filterMap Instruction.varName?)
  if functions.isEmpty && vars.isEmpty then rest
  else
    .hoisting (distinctNames (functions.map (·.name))) (vars.map (·.1)) ::
      functions.map .functionDecl ++ vars.map (fun v => .hoistedVar v.1 v.2) ++ rest

/-! ## Compilation -/

/-- A compiled program, with a diagnostic for each skipped statement. -/
structure Compilation where
  instructions : List Instruction
  diagnostics : List Diagnostic

/-- The notices that a compilation leaves in the log. -/
def Compilation.notices (t : Compilation) : List String :=
  t.diagnostics.map Diagnostic.notice

/-- Compiles a program. -/
def compile (source : String) : Except CompileFault Compilation :=
  (Grammar.statements source 0).map fun s =>
    { instructions := hoist s.instructions, diagnostics := s.diagnostics }

/-- The text of a function's body as it is kept until the function is called. -/
structure Body where
  text : String
  linesBefore : Int
  concise : Bool
deriving DecidableEq, Repr

/-- A compiled body, with the notices it leaves in the log. -/
structure CompiledBody where
  instructions : List Instruction
  notices : List String

/-- Compiles a body.  A concise arrow body that is no statement returns the
value of its expression; if it is no expression either, it does nothing. -/
def Body.compile (b : Body) : Except CompileFault CompiledBody := do
  let s ← Grammar.statements b.text b.linesBefore
  if b.concise && (!s.diagnostics.isEmpty || s.instructions.isEmpty) then
    match parseExpression b.text b.linesBefore with
    | .ok e => return { instructions := [.return e (b.linesBefore + 1)], notices := [] }
    | .error (.number fault) => throw (.number fault)
    | .error (.source _) =>
      let notice :=
        "line " ++ toString (b.linesBefore + 1) ++ ": unsupported arrow body skipped: " ++
          Text.trimmed b.text
      return { instructions := [], notices := [notice] }
  else
    return { instructions := hoist s.instructions, notices := s.diagnostics.map Diagnostic.notice }

end Runloop
