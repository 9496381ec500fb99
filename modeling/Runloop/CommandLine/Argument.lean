/-
Command line arguments.  An argument that begins with a dash is an option if
it can be; a long option may be cut short as long as one option is meant, and
may carry its value after an equals sign.  Everything after a lone double
dash is an operand.
-/
import Runloop.Text.Numeral

namespace Runloop.CommandLine

/-- What an option takes. -/
inductive OptionKind where
  | help
  | flag
  | text
  | integer
deriving DecidableEq, Repr

/-- A long option, named with its dashes. -/
structure OptionSpec where
  name : String
  kind : OptionKind
deriving DecidableEq, Repr

/-- The operands that are expected: none, one, or a command with all that
follows it. -/
inductive OperandKind where
  | none
  | one
  | command
deriving DecidableEq, Repr

/-- The arguments that a command takes, besides the one that asks for help. -/
structure ArgumentSpec where
  options : List OptionSpec
  operand : OperandKind

/-- Why no command is carried out. -/
inductive Stop where
  | help
  | misuse
deriving DecidableEq, Repr

/-- What an argument is taken for. -/
inductive Form where
  | separator
  | plain
  | option (spec : OptionSpec) (value : Option String)
  /-- An option that nobody knows. -/
  | unknown
  /-- A use of the short help option that makes no sense. -/
  | senseless
deriving DecidableEq, Repr

/-- The options of a command, help included. -/
def ArgumentSpec.all (spec : ArgumentSpec) : List OptionSpec := ⟨"--help", .help⟩ :: spec.options

/-- Splits a text at its first equals sign. -/
def splitValue (cs : List Char) : List Char × Option String :=
  match cs.span (· != '=') with
  | (name, []) => (name, none)
  | (name, _ :: value) => (name, some (String.ofList value))

/-- Whether a text looks like a negative number; one line end may follow. -/
def isNegativeNumber (cs : List Char) : Bool :=
  let bare := if cs.getLast? = some '\n' then cs.dropLast else cs
  match bare with
  | '-' :: number =>
    match number.span Text.isDigit with
    | (whole, []) => !whole.isEmpty
    | (_, '.' :: fraction) => !fraction.isEmpty && fraction.all Text.isDigit
    | _ => false
  | _ => false

/-- The form of an argument that no option explains. -/
def leftOver (cs : List Char) : Form :=
  if isNegativeNumber cs || cs.contains ' ' then .plain else .unknown

/-- The form of an argument before a lone double dash.  A cut option that may
mean several is misuse. -/
def formOf (spec : ArgumentSpec) (cs : List Char) : Except Stop Form :=
  match cs with
  | '-' :: '-' :: _ =>
    let (name, value) := splitValue cs
    match spec.all.find? (·.name.toList = name) with
    | some option => .ok (.option option value)
    | none =>
      match spec.all.filter (fun option => name.isPrefixOf option.name.toList) with
      | [] => .ok (leftOver cs)
      | [option] => .ok (.option option value)
      | _ => .error .misuse
  | ['-', 'h'] => .ok (.option ⟨"-h", .help⟩ none)
  | '-' :: 'h' :: '=' :: _ | '-' :: 'h' :: '-' :: _ => .ok .senseless
  | '-' :: 'h' :: _ => .ok (.option ⟨"-h", .help⟩ none)
  | '-' :: _ :: _ => .ok (leftOver cs)
  | _ => .ok .plain

/-- The forms of a list of arguments. -/
def formsOf (spec : ArgumentSpec) : List String → Except Stop (List (String × Form))
  | [] => .ok []
  | arg :: rest =>
    if arg = "--" then .ok ((arg, .separator) :: rest.map fun a => (a, .plain))
    else do
      let form ← formOf spec arg.toList
      return (arg, form) :: (← formsOf spec rest)

/-- What has been read: options with their values, the operand or the command
with its arguments, and whether anything was left over. -/
structure Arguments where
  given : List (String × String) := []
  operand : List String := []
  extra : Bool := false
deriving DecidableEq, Repr

namespace Arguments

/-- Whether a flag was given. -/
def has (a : Arguments) (name : String) : Bool := a.given.any (·.1 = name)

/-- The value that was given last. -/
def value? (a : Arguments) (name : String) : Option String :=
  (a.given.reverse.find? (·.1 = name)).map (·.2)

/-- Notes an option and its value. -/
def give (a : Arguments) (name value : String) : Arguments :=
  { a with given := a.given ++ [(name, value)] }

/-- The integer that was given last, if any was. -/
def integer (a : Arguments) (name : String) (default : Int) : Int :=
  match (a.value? name).map Text.readInt with
  | some (.ok n) => n
  | _ => default

end Arguments

/-- Notes the value of an option that takes one; an integer has to be one. -/
def takeValue (a : Arguments) (option : OptionSpec) (value : String) : Except Stop Arguments :=
  match option.kind, Text.readInt value with
  | .integer, .error _ => .error .misuse
  | _, _ => .ok (a.give option.name value)

/-- Whether an operand is still expected. -/
def expects (spec : ArgumentSpec) (a : Arguments) : Bool :=
  spec.operand != .none && a.operand.isEmpty

/-- Reads arguments from left to right. -/
def readForms (spec : ArgumentSpec) :
    List (String × Form) → Arguments → Except Stop Arguments
  | [], a => .ok a
  | (_, .senseless) :: _, _ => .error .misuse
  | (_, .unknown) :: rest, a => readForms spec rest { a with extra := true }
  | (_, .option option value?) :: rest, a =>
    match option.kind, value? with
    | .help, none => .error .help
    | .flag, none => readForms spec rest (a.give option.name "")
    | .help, some _ | .flag, some _ => .error .misuse
    | _, some value => do
      readForms spec rest (← takeValue a option value)
    | _, none =>
      match rest with
      | (value, .plain) :: rest => do
        readForms spec rest (← takeValue a option value)
      | _ => .error .misuse
  | (arg, .plain) :: (dashes, .separator) :: rest, a =>
    if !expects spec a then readForms spec rest { a with extra := true }
    else if spec.operand = .command then
      .ok { a with operand := arg :: dashes :: rest.map (·.1) }
    else readForms spec rest { a with operand := [arg] }
  | (arg, .plain) :: rest, a =>
    if !expects spec a then readForms spec rest { a with extra := true }
    else if spec.operand = .command then .ok { a with operand := arg :: rest.map (·.1) }
    else readForms spec rest { a with operand := [arg] }
  | (_, .separator) :: rest, a =>
    if spec.operand = .command then .error .misuse
    else if expects spec a && !rest.isEmpty then readForms spec rest a
    else readForms spec rest { a with extra := true }

/-- Reads the arguments of a command. -/
def Arguments.read (spec : ArgumentSpec) (args : List String) : Except Stop Arguments := do
  readForms spec (← formsOf spec args) {}

end Runloop.CommandLine
