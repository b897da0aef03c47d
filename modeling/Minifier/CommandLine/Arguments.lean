import Minifier.Config
import Minifier.Text.Split

/-!
# Arguments

What the command line says: files, flags, and options with a value. No flag or option is given
twice, and the values that have to be numbers are.
-/

set_option autoImplicit false

namespace Minifier

/-- What is said by being there. -/
inductive Flag where
  /-- Output is printed. -/
  | stdout
  /-- The layout changes and nothing else. -/
  | prettyPrint
  | multiLine
  /-- A configuration file is written. -/
  | init
  /-- Messages have no colours. -/
  | plain
  /-- All diagnostics are shown, with their codes. -/
  | diagnostics
deriving DecidableEq, Repr

def Flag.ofName? : String → Option Flag
  | "stdout" => some stdout
  | "pretty-print" => some prettyPrint
  | "multi-line" => some multiLine
  | "init" => some init
  | "plain" => some plain
  | "diagnostics" => some diagnostics
  | _ => none

/-- What is said with a value. -/
inductive Choice where
  | config
  | outDir
  | indentSize
  | eval
  | rename
  | noRename
  | killSwitch
deriving DecidableEq, Repr

namespace Choice

def ofName? : String → Option Choice
  | "config" => some config
  | "out-dir" => some outDir
  | "indent-size" => some indentSize
  | "eval" => some eval
  | "rename" => some rename
  | "no-rename" => some noRename
  | "kill-switch" => some killSwitch
  | _ => none

/-- A decimal number of 64 bits, which may have a plus sign. -/
def number? (text : String) : Option Nat := do
  let chars := text.toList
  let value ← Yaml.digits? 10 (if chars.head? = some '+' then chars.tail else chars)
  if value < UInt64.size then some value else none

/-- Whether a value can be given: paths are not empty, and numbers are numbers. -/
def accepts (choice : Choice) (value : String) : Bool :=
  match choice with
  | config | outDir => !value.isEmpty
  | indentSize | killSwitch => (number? value).isSome
  | eval | rename | noRename => true

end Choice

/-- Why there is nothing to run. -/
inductive Refusal where
  | usage
  | help
  | version
deriving DecidableEq, Repr

structure Arguments where
  files : List String := []
  flags : List Flag := []
  choices : List (Choice × String) := []
deriving DecidableEq, Repr

namespace Arguments

def has (a : Arguments) (flag : Flag) : Bool := a.flags.contains flag

def value? (a : Arguments) (choice : Choice) : Option String := a.choices.lookup choice

def addFile (a : Arguments) (path : String) : Except Refusal Arguments :=
  if path.isEmpty then .error .usage else .ok { a with files := a.files ++ [path] }

def addFlag (a : Arguments) (flag : Flag) : Except Refusal Arguments :=
  if a.has flag then .error .usage else .ok { a with flags := a.flags ++ [flag] }

def addChoice (a : Arguments) (choice : Choice) (value : String) : Except Refusal Arguments :=
  if (a.value? choice).isSome || !choice.accepts value then .error .usage
  else .ok { a with choices := a.choices ++ [(choice, value)] }

/-- What a single argument is. -/
inductive Piece where
  | file (path : String)
  | flag (flag : Flag)
  /-- An option, with its value if that is in the same argument. -/
  | choice (choice : Choice) (value : Option String)
  /-- All that follows is files. -/
  | filesOnly
  | refused (why : Refusal)

/-- An argument that starts with two dashes: a name, and a value after an equals sign. -/
def longPiece (text : List Char) : Piece :=
  let name := String.ofList (text.takeWhile (· ≠ '='))
  let value := match text.dropWhile (· ≠ '=') with
    | [] => none
    | _ :: value => some (String.ofList value)
  match Choice.ofName? name with
  | some choice => .choice choice value
  | none =>
    if value.isSome then .refused .usage
    else match Flag.ofName? name with
      | some flag => .flag flag
      | none =>
        .refused (if name = "help" then .help else if name = "version" then .version else .usage)

/-- An argument that starts with one dash: a letter, and a value right after it. -/
def shortPiece : List Char → Piece
  | ['c'] => .choice .config none
  | 'c' :: '=' :: value => .choice .config (some (String.ofList value))
  | 'c' :: value => .choice .config (some (String.ofList value))
  | 'h' :: _ => .refused .help
  | 'V' :: _ => .refused .version
  | _ => .refused .usage

/-- What an argument is; a single dash is a file. -/
def pieceOf (argument : String) : Piece :=
  match argument.toList with
  | ['-', '-'] => .filesOnly
  | '-' :: '-' :: text => longPiece text
  | ['-'] => .file argument
  | '-' :: text => shortPiece text
  | _ => .file argument

/-- Whether an argument can be the value of the option before it. -/
def isValue (argument : String) : Bool :=
  match pieceOf argument with
  | .file _ => true
  | _ => false

/-- Reads arguments in their order, up to the first that is refused. -/
def parseFrom (a : Arguments) : List String → Except Refusal Arguments
  | [] => .ok a
  | argument :: rest =>
    match pieceOf argument with
    | .file path => do (← a.addFile path).parseFrom rest
    | .flag flag => do (← a.addFlag flag).parseFrom rest
    | .choice choice (some value) => do (← a.addChoice choice value).parseFrom rest
    | .choice choice none =>
      match rest with
      | [] => .error .usage
      | value :: rest =>
        if isValue value then do (← a.addChoice choice value).parseFrom rest else .error .usage
    | .filesOnly => rest.foldlM addFile a
    | .refused why => .error why

def parse (arguments : List String) : Except Refusal Arguments := parseFrom {} arguments

/-! ## Values laid over the configuration -/

/-- The treatment of `eval` under the name it has on the command line. -/
def evalTreatment? : String → Except String EvalTreatment
  | "ignore" => .ok .ignore
  | "immediate" => .ok .makeImmediateSafe
  | "all" => .ok .makeAllSafe
  | mode => .error s!"Invalid eval mode '{mode}'. Supported modes: ignore, immediate, all"

/-- The names to shorten, under the word for them on the command line. -/
def localRenaming? : String → Except String LocalRenaming
  | "all" => .ok .crunchAll
  | "none" => .ok .keepAll
  | "localization" => .ok .keepLocalizationVars
  | mode => .error s!"Invalid rename mode '{mode}'. Supported modes: all, none, localization"

/-- Names between commas, with blanks around them. -/
def names (text : String) : List String :=
  (((Text.split ',' text.toList).map Text.trim).filter (!·.isEmpty)).map String.ofList

/-- What the arguments lay over the configuration. -/
def overrides (a : Arguments) : Except String Overrides := do
  let pretty := a.has .prettyPrint
  let eval ← (a.value? .eval).mapM evalTreatment?
  let locals ← (a.value? .rename).mapM localRenaming?
  return {
    outputMode := if pretty || a.has .multiLine then some .multipleLines else none
    indentSize := (a.value? .indentSize).bind Choice.number?
    minifyCode := if pretty then some false else none
    evalTreatment := eval
    localRenaming := locals.or (if pretty then some .keepAll else none)
    noAutoRenames := (a.value? .noRename).map names
    killSwitch := ((a.value? .killSwitch).bind Choice.number?).map fun bits =>
      KillSwitch.named ⟨bits.toUInt64⟩
    outDir := a.value? .outDir
    pretty := if a.has .plain then some false else none }

end Arguments

end Minifier
