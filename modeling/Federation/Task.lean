/-
  The training task and the command line handed to the external trainer.

  Every word that reaches the process boundary is checked against one small alphabet, and argument
  names may not begin with a dash, so that no value can pass for another option.
-/
import Federation.Error
import Federation.Identity
import Federation.NameMap
import Federation.Numeric.Decimal
import Federation.Text.Quote
import Federation.Text.Utf8

namespace Federation

def maxArgumentLength : Nat := 256

/-! ## Tasks -/

/-- The value of a named argument. -/
inductive ArgValue where
  | bool (b : Bool)
  | int (i : Int)
  | float (x : Double)
  | text (s : String)
  deriving DecidableEq, Repr

/-- How a value is written on the command line. -/
def ArgValue.display : ArgValue → String
  | bool b => if b then "true" else "false"
  | int i => toString i
  | float x => x.display
  | text s => s

structure TaskConfig where
  /-- The executable, or the script the interpreter runs. -/
  script : String
  interpreter : Option String
  /-- Rendered as `--name value`, in the order of the names. -/
  args : NameMap ArgValue
  deriving DecidableEq

def TaskConfig.default : TaskConfig := ⟨"", none, .empty⟩

/-! ## Checked words -/

def isSafeChar (c : Char) : Bool :=
  isAsciiAlphanumeric c || c = '.' || c = '/' || c = '-' || c = '_' || c = '='

/-- A word for the command line: 1 to 256 bytes of letters, digits and `./_=-`.  `what` names it in
the error. -/
def checkToken (what s : String) : Except FederationError String :=
  if s.isEmpty then .error (.invalidArgument (what ++ " is empty"))
  else if maxArgumentLength < utf8Length s then
    .error (.invalidArgument (what ++ s!" exceeds {maxArgumentLength} bytes"))
  else
    match s.toList.find? (!isSafeChar ·) with
    | some bad =>
      .error (.invalidArgument (what ++ " contains forbidden character " ++ quoteChar bad))
    | none => .ok s

/-- A path for the command line, given as raw bytes when it is given at all. -/
def checkPath (what : String) (path : Option (List UInt8)) : Except FederationError String :=
  match path with
  | none => .error (.invalidArgument (what ++ " path not set"))
  | some bytes =>
    match utf8Decode bytes with
    | none => .error (.invalidArgument (what ++ " path is not valid UTF-8"))
    | some s => checkToken what s

/-! ## Commands -/

/-- A trainer invocation in which every word has been checked. -/
structure TrainingCommand where
  program : String
  args : List String
  deriving DecidableEq, Repr

namespace TrainingCommand

def modelIn : String := "model-in"
def modelOut : String := "model-out"

/-- The option an argument name stands for. -/
def flag (name : String) : String := "--" ++ name

/-- One named argument as two words. -/
def renderArgument (name : String) (value : ArgValue) : Except FederationError (List String) := do
  let name ← checkToken "argument name" name
  if name.toList.head? = some '-' then
    .error (.invalidArgument ("argument name `" ++ name ++ "` must not start with '-'"))
  else if name = modelIn || name = modelOut then
    .error (.invalidArgument ("argument name `" ++ name ++ "` is reserved"))
  else
    let value ← checkToken name value.display
    return [flag name, value]

/-- Named arguments in order, up to the first that is refused. -/
def renderArguments : List (String × ArgValue) → Except FederationError (List String)
  | [] => .ok []
  | (name, value) :: rest => do
    let words ← renderArgument name value
    let others ← renderArguments rest
    return words ++ others

/-- The command of a task for a pair of model paths. -/
def build (task : TaskConfig) (pathIn pathOut : Option (List UInt8)) :
    Except FederationError TrainingCommand := do
  let script ← checkToken "script" task.script
  let pathIn ← checkPath modelIn pathIn
  let pathOut ← checkPath modelOut pathOut
  let (program, front) ←
    match task.interpreter with
    | some interpreter => do
      let program ← checkToken "interpreter" interpreter
      pure (program, [script])
    | none => pure (script, [])
  let named ← renderArguments task.args.entries
  return ⟨program, front ++ [flag modelIn, pathIn, flag modelOut, pathOut] ++ named⟩

end TrainingCommand

end Federation
