/-
What can go wrong while a source text is read.  A refusal concerns one
statement, which is then skipped; an error concerns the whole text and says
where it was found.
-/
import Runloop.Number
import Runloop.Text.Quoted

namespace Runloop

/-- Why a statement or an expression matches none of the recognized shapes. -/
inductive Refusal where
  | endOfInput
  | expected (text : String)
  | expectedName
  | unexpected (text : String)
  | unexpectedAfter (text : String)
  | unexpectedKeyword (word : String)
  | unsupportedStatement (word : String)
  | unsupportedStart (word : String)
  | callbackNotFunction
  | notResolve
  | notThen
  | callTarget
  | missingArrowBody
  | objectKey
  | objectEntry
deriving DecidableEq, Repr

def Refusal.message : Refusal → String
  | endOfInput => "unexpected end of input"
  | expected text => "expected " ++ Text.quoted text
  | expectedName => "expected identifier"
  | unexpected text => "unexpected " ++ Text.quoted text
  | unexpectedAfter text => "unexpected " ++ Text.quoted text ++ " after statement"
  | unexpectedKeyword word => "unexpected keyword " ++ Text.quoted word
  | unsupportedStatement word => "unsupported statement " ++ Text.quoted word
  | unsupportedStart word => "unsupported statement starting with " ++ Text.quoted word
  | callbackNotFunction => "callback must be a function"
  | notResolve => "only Promise.resolve() is supported"
  | notThen => "expected .then()"
  | callTarget => "unsupported call target"
  | missingArrowBody => "missing arrow body"
  | objectKey => "bad object key"
  | objectEntry => "bad object entry"

/-- Why a whole text cannot be read. -/
inductive SourceFault where
  | unterminatedString
  | illegalCharacter (c : Char)
  | unclosedBody
  | unterminatedHole
  | unsupportedExpression (why : Refusal)
  | unexpectedInExpression (text : String)
deriving DecidableEq, Repr

def SourceFault.message : SourceFault → String
  | unterminatedString => "Unterminated string literal"
  | illegalCharacter c => "Illegal character " ++ Text.quoted (String.singleton c)
  | unclosedBody => "Unclosed function body"
  | unterminatedHole => "Unterminated template expression"
  | unsupportedExpression why => "Unsupported expression: " ++ why.message
  | unexpectedInExpression text => "Unexpected " ++ Text.quoted text ++ " in expression"

/-- A fault of a whole text, with the line, the column if it is known, and
the offending text. -/
structure SourceError where
  fault : SourceFault
  line : Int
  column : Option Nat
  text : String
deriving DecidableEq, Repr

def SourceError.message (e : SourceError) : String := e.fault.message

/-- The message with its line in front. -/
def SourceError.located (e : SourceError) : String :=
  "line " ++ toString e.line ++ ": " ++ e.message

/-- Why a text has no compilation: an error of the source, or a number that
cannot be held. -/
inductive CompileFault where
  | source (error : SourceError)
  | number (fault : NumberFault)
deriving DecidableEq, Repr

def CompileFault.message : CompileFault → String
  | source error => error.located
  | number fault => fault.message

/-- Why parsing stops: at the end of a statement's chances, or for good. -/
inductive Stop where
  | refused (why : Refusal)
  | fatal (fault : CompileFault)
deriving DecidableEq, Repr

end Runloop
