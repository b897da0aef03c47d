import Minifier.Settings.KillSwitch

/-!
# Settings

What a user can choose about the output. The defaults make the smallest output; `Settings.pretty`
changes the layout only.
-/

set_option autoImplicit false

namespace Minifier

inductive OutputMode where
  | singleLine
  | multipleLines
deriving DecidableEq, Repr

/-- How much of the scopes around it a direct call of `eval` sees. -/
inductive EvalTreatment where
  /-- It sees no local name. -/
  | ignore
  /-- The function that calls it keeps its names. -/
  | makeImmediateSafe
  /-- So do all functions around. -/
  | makeAllSafe
deriving DecidableEq, Repr

/-- Which local names may be shortened. -/
inductive LocalRenaming where
  | keepAll
  /-- All but those that start with `L_`. -/
  | keepLocalizationVars
  | crunchAll
deriving DecidableEq, Repr

structure Settings where
  outputMode : OutputMode := .singleLine
  /-- The blanks for each level of nesting, if there are several lines. -/
  indentSize : Nat := 4
  /-- Whether the program is transformed at all. -/
  minifyCode : Bool := true
  evalTreatment : EvalTreatment := .makeImmediateSafe
  localRenaming : LocalRenaming := .crunchAll
  /-- Names that are never changed. -/
  noAutoRenames : List String := []
  preserveImportantComments : Bool := true
  removeUnneededCode : Bool := true
  reorderScopeDeclarations : Bool := true
  killSwitch : KillSwitch := .none
deriving DecidableEq, Repr

instance : Inhabited Settings := ⟨{}⟩

namespace Settings

/-- Settings that change the layout only. -/
def pretty : Settings :=
  { outputMode := .multipleLines, minifyCode := false, localRenaming := .keepAll }

/-- Whether a transformation is not switched off. -/
def allows (s : Settings) (t : Transformation) : Bool := !s.killSwitch.contains t

/-- Whether a transformation is made. -/
def applies (s : Settings) (t : Transformation) : Bool := s.minifyCode && s.allows t

/-- Whether a transformation that takes code away is made. -/
def removes (s : Settings) (t : Transformation) : Bool := s.removeUnneededCode && s.applies t

def disable (s : Settings) (t : Transformation) : Settings :=
  { s with killSwitch := s.killSwitch.insert t }

/-- Whether booleans are written `!0` and `!1`. -/
def shortBooleans (s : Settings) : Bool := s.applies .shortBooleans

def isMultiLine (s : Settings) : Bool := s.outputMode = .multipleLines

end Settings

/-! ## Names -/

def OutputMode.all : List OutputMode := [.singleLine, .multipleLines]

def OutputMode.name : OutputMode → String
  | singleLine => "singleLine"
  | multipleLines => "multipleLines"

def EvalTreatment.all : List EvalTreatment := [.ignore, .makeImmediateSafe, .makeAllSafe]

def EvalTreatment.name : EvalTreatment → String
  | ignore => "ignore"
  | makeImmediateSafe => "makeImmediateSafe"
  | makeAllSafe => "makeAllSafe"

def LocalRenaming.all : List LocalRenaming := [.keepAll, .keepLocalizationVars, .crunchAll]

def LocalRenaming.name : LocalRenaming → String
  | keepAll => "keepAll"
  | keepLocalizationVars => "keepLocalizationVars"
  | crunchAll => "crunchAll"

/-- The settings as they are written, all fields in their order. -/
def Settings.toJson (s : Settings) : Json :=
  .object
    [("outputMode", .string s.outputMode.name),
     ("indentSize", .ofNat s.indentSize),
     ("minifyCode", .bool s.minifyCode),
     ("evalTreatment", .string s.evalTreatment.name),
     ("localRenaming", .string s.localRenaming.name),
     ("noAutoRenames", .array (s.noAutoRenames.map .string)),
     ("preserveImportantComments", .bool s.preserveImportantComments),
     ("removeUnneededCode", .bool s.removeUnneededCode),
     ("reorderScopeDeclarations", .bool s.reorderScopeDeclarations),
     ("killSwitch", .string s.killSwitch.text)]

end Minifier
