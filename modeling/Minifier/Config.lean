import Minifier.Yaml.Read

/-!
# Configuration

The settings of a run with the things around them: where output goes, how messages look, and which
files are meant. It is read from a file in JSON or YAML, and single values can be laid over it.
-/

set_option autoImplicit false

namespace Minifier

structure Config where
  settings : Settings := {}
  /-- The folder for output files; without one they stand beside their sources. -/
  outDir : Option String := none
  /-- Whether messages have colours and show the source. -/
  pretty : Bool := true
  included : List String := ["**/*.js"]
  excluded : List String := ["**/node_modules/**", "**/*.min.js"]
deriving DecidableEq, Repr

instance : Inhabited Config := ⟨{}⟩

namespace Config

def fieldNames : List String := ["codeSettings", "outDir", "pretty", "include", "exclude"]

/-- The configuration that a piece of data stands for. A file that does not say which files are
meant means none in particular. -/
def decode? {α : Type} (d : Dialect α) (a : α) : Option Config := do
  match ← (← d.fields? a).arrange? fieldNames with
  | [settings, outDir, pretty, included, excluded] => do
    let base : Config := {}
    return {
      settings := ← fieldOr base.settings (Settings.decode? d) settings
      outDir := ← fieldOr base.outDir d.optionalText? outDir
      pretty := ← fieldOr base.pretty d.bool? pretty
      included := ← fieldOr [] d.texts? included
      excluded := ← fieldOr base.excluded d.texts? excluded }
  | _ => none

/-- The configuration as it is written, all fields in their order. -/
def toJson (c : Config) : Json :=
  .object
    [("codeSettings", c.settings.toJson),
     ("outDir", .ofOption .string c.outDir),
     ("pretty", .bool c.pretty),
     ("include", .array (c.included.map .string)),
     ("exclude", .array (c.excluded.map .string))]

/-- The text of a file with the defaults. -/
def initialText : String := (toJson {}).pretty 0

/-- The notation of a configuration file. -/
inductive Format where
  | json
  | yaml
deriving DecidableEq, Repr

/-- The notation that the extension of a file name stands for. -/
def Format.ofExtension : Option String → Format
  | some "yaml" | some "yml" => yaml
  | _ => json

/-- Reads the text of a configuration file. -/
def read? (format : Format) (text : String) : Option Config :=
  match format with
  | .json => do decode? Json.dialect (← Json.read? text)
  | .yaml => do decode? Yaml.dialect (← Yaml.read? text)

end Config

/-- Values that are laid over a configuration. -/
structure Overrides where
  outputMode : Option OutputMode := none
  indentSize : Option Nat := none
  minifyCode : Option Bool := none
  evalTreatment : Option EvalTreatment := none
  localRenaming : Option LocalRenaming := none
  noAutoRenames : Option (List String) := none
  killSwitch : Option KillSwitch := none
  outDir : Option String := none
  pretty : Option Bool := none

/-- Reads overrides from a record of which any field may be missing. The error is the name of the
first field in the wrong form. -/
def Overrides.decode {α : Type} (d : Dialect α) (get? : String → Option α) :
    Except String Overrides := do
  let value {β : Type} (name : String) (decode : α → Option β) : Except String (Option β) :=
    match get? name with
    | none => .ok none
    | some a => match decode a with
      | some b => .ok (some b)
      | none => .error name
  return {
    outputMode := ← value "outputMode" (d.choiceOf? OutputMode.all OutputMode.name)
    indentSize := ← value "indentSize" d.nat?
    minifyCode := ← value "minifyCode" d.bool?
    evalTreatment := ← value "evalTreatment" (d.choiceOf? EvalTreatment.all EvalTreatment.name)
    localRenaming := ← value "localRenaming" (d.choiceOf? LocalRenaming.all LocalRenaming.name)
    noAutoRenames := ← value "noAutoRenames" d.texts?
    killSwitch := ← value "killSwitch" (Settings.killSwitch? d)
    outDir := ← value "outDir" d.text?
    pretty := ← value "pretty" d.bool? }

/-- Lays values over settings. Names to keep and switched-off transformations add up. -/
def Settings.override (s : Settings) (o : Overrides) : Settings :=
  { s with
    outputMode := o.outputMode.getD s.outputMode
    indentSize := o.indentSize.getD s.indentSize
    minifyCode := o.minifyCode.getD s.minifyCode
    evalTreatment := o.evalTreatment.getD s.evalTreatment
    localRenaming := o.localRenaming.getD s.localRenaming
    noAutoRenames := s.noAutoRenames ++ o.noAutoRenames.getD []
    killSwitch := s.killSwitch.union (o.killSwitch.getD .none) }

/-- Lays values over a configuration. -/
def Config.override (c : Config) (o : Overrides) : Config :=
  { c with
    settings := c.settings.override o
    outDir := o.outDir.or c.outDir
    pretty := o.pretty.getD c.pretty }

end Minifier
