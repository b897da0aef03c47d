import Minifier.Settings.Basic

/-!
# Reading settings

Settings are read from trees of data in more than one notation. A `Dialect` says what the data of a
notation can stand for: a text, a number, a list, a record. The settings are then read alike from
all of them. A field that is missing has its default, one that is not known is passed over, and one
that is given twice or in the wrong form makes the whole unreadable.
-/

set_option autoImplicit false

namespace Minifier

/-- The fields of a record, by name or in the order of their declaration. -/
inductive Fields (α : Type) where
  | named (members : List (String × α))
  | ordered (items : List α)

/-- What the data of a notation can stand for. -/
structure Dialect (α : Type) where
  isNull : α → Bool
  bool? : α → Option Bool
  /-- A number that is not negative and has 64 bits. -/
  nat? : α → Option Nat
  text? : α → Option String
  /-- The name of one of several choices. -/
  choice? : α → Option String
  list? : α → Option (List α)
  fields? : α → Option (Fields α)

namespace Dialect

variable {α β : Type}

def texts? (d : Dialect α) (a : α) : Option (List String) := do (← d.list? a).mapM d.text?

/-- One of several choices, by its name. -/
def choiceOf? (d : Dialect α) (all : List β) (name : β → String) (a : α) : Option β := do
  let chosen ← d.choice? a
  all.find? (name · = chosen)

/-- A text that may be left open. -/
def optionalText? (d : Dialect α) (a : α) : Option (Option String) :=
  if d.isNull a then some none else (d.text? a).map some

end Dialect

/-- Gives the fields of a record, in the order of their names, the data they have. Nothing comes
of a name given twice, or of more items than names. -/
def Fields.arrange? {α : Type} (names : List String) : Fields α → Option (List (Option α))
  | .named members => names.mapM fun name =>
    match members.filter (·.1 = name) with
    | [] => some none
    | [(_, value)] => some (some value)
    | _ => none
  | .ordered items =>
    if items.length ≤ names.length then
      some (items.map some ++ List.replicate (names.length - items.length) none)
    else none

/-- A field that may be missing. -/
def fieldOr {α β : Type} (fallback : β) (decode : α → Option β) : Option α → Option β
  | none => some fallback
  | some a => decode a

namespace Settings

def fieldNames : List String :=
  ["outputMode", "indentSize", "minifyCode", "evalTreatment", "localRenaming", "noAutoRenames",
   "preserveImportantComments", "removeUnneededCode", "reorderScopeDeclarations", "killSwitch"]

def killSwitch? {α : Type} (d : Dialect α) (a : α) : Option KillSwitch := do
  KillSwitch.ofText? (← d.text? a)

/-- The settings that a piece of data stands for. -/
def decode? {α : Type} (d : Dialect α) (a : α) : Option Settings := do
  match ← (← d.fields? a).arrange? fieldNames with
  | [outputMode, indentSize, minifyCode, evalTreatment, localRenaming, noAutoRenames,
      preserveImportantComments, removeUnneededCode, reorderScopeDeclarations, killSwitch] => do
    let base : Settings := {}
    let mode ← fieldOr base.outputMode (d.choiceOf? OutputMode.all OutputMode.name) outputMode
    let indent ← fieldOr base.indentSize d.nat? indentSize
    let minify ← fieldOr base.minifyCode d.bool? minifyCode
    let eval ← fieldOr base.evalTreatment
      (d.choiceOf? EvalTreatment.all EvalTreatment.name) evalTreatment
    let locals ← fieldOr base.localRenaming
      (d.choiceOf? LocalRenaming.all LocalRenaming.name) localRenaming
    let kept ← fieldOr base.noAutoRenames d.texts? noAutoRenames
    let comments ← fieldOr base.preserveImportantComments d.bool? preserveImportantComments
    let unneeded ← fieldOr base.removeUnneededCode d.bool? removeUnneededCode
    let reorder ← fieldOr base.reorderScopeDeclarations d.bool? reorderScopeDeclarations
    let kill ← fieldOr base.killSwitch (killSwitch? d) killSwitch
    some
      { outputMode := mode, indentSize := indent, minifyCode := minify, evalTreatment := eval,
        localRenaming := locals, noAutoRenames := kept, preserveImportantComments := comments,
        removeUnneededCode := unneeded, reorderScopeDeclarations := reorder, killSwitch := kill }
  | _ => none

end Settings

namespace Json

/-- One of several choices: its name, or an object with its name over nothing. -/
def choice? : Json → Option String
  | string value => some value
  | object [(name, null)] => some name
  | _ => none

def fields? : Json → Option (Fields Json)
  | object members => some (.named members)
  | array items => some (.ordered items)
  | _ => none

/-- JSON as a notation of settings. -/
def dialect : Dialect Json where
  isNull
    | null => true
    | _ => false
  bool? := bool?
  nat? := nat?
  text? := string?
  choice? := choice?
  list? := array?
  fields? := fields?

end Json

end Minifier
