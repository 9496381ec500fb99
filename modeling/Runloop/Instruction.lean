/-
Instructions: what a program is turned into.  Each knows the line it came
from; the marker that leads hoisted declarations has line 0.
-/
import Runloop.Expr

namespace Runloop

/-- The keywords that declare a variable. -/
inductive DeclKeyword where
  | var
  | let_
  | const
deriving DecidableEq, Repr

def DeclKeyword.spelling : DeclKeyword → String
  | var => "var"
  | let_ => "let"
  | const => "const"

def DeclKeyword.ofSpelling? : String → Option DeclKeyword
  | "var" => some .var
  | "let" => some .let_
  | "const" => some .const
  | _ => none

/-- The console's methods. -/
inductive ConsoleMethod where
  | log
  | warn
  | error
  | info
deriving DecidableEq, Repr

def ConsoleMethod.spelling : ConsoleMethod → String
  | log => "log"
  | warn => "warn"
  | error => "error"
  | info => "info"

def ConsoleMethod.ofSpelling? : String → Option ConsoleMethod
  | "log" => some .log
  | "warn" => some .warn
  | "error" => some .error
  | "info" => some .info
  | _ => none

/-- A declared function; `linesBefore` counts the lines before its body. -/
structure FunctionDecl where
  name : String
  params : List String
  body : String
  line : Int
  endLine : Int
  linesBefore : Int
  hoisted : Bool
deriving DecidableEq, Repr

/-- A callback handed to a timer or a promise, as the text of its body. -/
structure Callback where
  body : String
  name : String
  linesBefore : Int
  concise : Bool
deriving DecidableEq, Repr

/-- An instruction. -/
inductive Instruction where
  /-- Announces the names that the following instructions lift. -/
  | hoisting (functions vars : List String)
  | functionDecl (decl : FunctionDecl)
  /-- Makes room for a variable that is declared further down. -/
  | hoistedVar (name : String) (line : Int)
  | declare (keyword : DeclKeyword) (name : String) (value : Expr) (line : Int)
  | assign (name : String) (value : Expr) (line : Int)
  | call (name : String) (args : List Expr) (line : Int)
  | methodCall (target method : String) (args : List Expr) (line : Int)
  | console (method : ConsoleMethod) (args : List Expr) (line : Int)
  /-- Registers a callback to run after a delay in milliseconds. -/
  | timer (callback : Callback) (delay : Int) (line : Int)
  /-- Registers a callback on a promise that already has its value. -/
  | promise (callback : Callback) (params : List String) (value : Expr) (line : Int)
  | return (value : Expr) (line : Int)
  | construct (keyword : DeclKeyword) (name constructor : String) (args : List Expr) (line : Int)

namespace Instruction

instance : Inhabited Instruction := ⟨.hoisting [] []⟩

/-- The line an instruction came from. -/
def line : Instruction → Int
  | hoisting _ _ => 0
  | functionDecl decl => decl.line
  | hoistedVar _ line => line
  | declare _ _ _ line => line
  | assign _ _ line => line
  | call _ _ line => line
  | methodCall _ _ _ line => line
  | console _ _ line => line
  | timer _ _ line => line
  | promise _ _ _ line => line
  | .return _ line => line
  | construct _ _ _ _ line => line

/-- The name of an instruction's kind in listings. -/
def kind : Instruction → String
  | hoisting _ _ => "hoistingPhase"
  | functionDecl _ => "functionDeclaration"
  | hoistedVar _ _ => "hoistedVar"
  | declare _ _ _ _ => "variableDeclaration"
  | assign _ _ _ => "assignment"
  | call _ _ _ => "functionCall"
  | methodCall _ _ _ _ => "methodCall"
  | console _ _ _ => "console"
  | timer _ _ _ => "setTimeout"
  | promise _ _ _ _ => "promise"
  | .return _ _ => "return"
  | construct _ _ _ _ _ => "newObject"

end Instruction

end Runloop
