import Minifier.Diagnostic
import Minifier.Scope.Basic
import Minifier.Scope.ShortName
import Minifier.Settings.Basic

/-!
# Choosing names

Variables of known scopes get short names, those mentioned most the shortest. A scope works from the
outside inwards: a variable may have any name that the scope itself does not need for something
else, including variables from further out that it or a scope inside it mentions, and that is not
the fixed name of a variable between it and a scope that mentions it.

The work goes in phases: report what is never mentioned, reserve the names that scopes have to leave
alone, give names, and last name what the renaming left without a name.
-/

set_option autoImplicit false

namespace Minifier

namespace ScopeTree

/-! ## What is never mentioned -/

/-- The report on a field of a known scope, if nothing mentions it. -/
def unusedReport (f : Field) : Option Diagnostic :=
  if f.isAlias || f.isGenerated || !f.isDeclared || 0 < f.refs then none
  else match f.kind with
    | .declared =>
      if f.isFunction then
        some (.of .unusedFunction f.span s!"Unused function '{f.name}'")
      else some (.of .unusedVariable f.span s!"Unused variable '{f.name}'")
    | .parameter => some (.of .unusedArgument f.span s!"Unused argument '{f.name}'")
    | _ => none

/-- The reports on the fields of all known scopes that are part of the program. -/
def unusedReports (t : ScopeTree) : List Diagnostic :=
  t.topDown.flatMap fun id =>
    let s := t.scope id
    if s.kind = .global || !s.isKnown || s.isDetached then []
    else s.fieldIds.filterMap fun f => unusedReport (t.field f)

/-- Reports the declared names that nothing mentions. -/
def analyze (t : ScopeTree) : Except PhaseError (ScopeTree × List Diagnostic) := do
  let t ← t.advance .unanalyzed .scopeAnalyzed
  return (t, t.unusedReports)

/-! ## Names to leave alone -/

/-- A function that is declared and never mentioned does not run. -/
def neverRuns (t : ScopeTree) (id : ScopeId) : Bool :=
  (t.scope id).functionField.any fun f => t.totalRefs f = 0

/-- What a scope that can look names up when it runs does to the scope around it. -/
def spreadUnknown (treatment : EvalTreatment) (t : ScopeTree) (id : ScopeId) : ScopeTree :=
  let s := t.scope id
  if treatment = .makeAllSafe && !s.isKnown && !t.neverRuns id then
    match s.parent with
    | some parent => t.modifyScope parent fun s => { s with isKnown := false }
    | none => t
  else t

/-- Reserves the names of the variables from further out that a scope mentions. -/
def reserveIn (t : ScopeTree) (id : ScopeId) : ScopeTree :=
  let mentioned := (t.scope id).fieldIds.filter fun f => (t.field f).isAlias && 0 < (t.field f).refs
  mentioned.foldl reserveAlias t

/-- Reserves names in all scopes, from the inside outwards. -/
def reserve (settings : Settings) (t : ScopeTree) : Except PhaseError ScopeTree := do
  let t ← t.advance .scopeAnalyzed .fieldsReserved
  return t.bottomUp.foldl (fun t id => (t.spreadUnknown settings.evalTreatment id).reserveIn id) t

/-! ## Short names -/

/-- Whether a field may get a short name. -/
def isCrunchable (settings : Settings) (f : Field) : Bool :=
  f.isGenerated ||
    (!f.isAlias && f.canCrunch &&
      !(settings.localRenaming = .keepLocalizationVars && "L_".isPrefixOf f.name) &&
      !settings.noAutoRenames.contains f.name)

/-- All aliases, each after the variable it stands for. -/
def aliasPairs (t : ScopeTree) : List (FieldId × FieldId) :=
  (t.fieldIds.filter fun id => (t.field id).isAlias).map fun id => (t.ultimate id, id)

/-- The names in a scope that do not change. -/
def fixedNames (settings : Settings) (t : ScopeTree) (id : ScopeId) : List String :=
  let s := t.scope id
  (s.fieldIds.map t.field).filterMap fun f =>
    if !f.isAlias && (!s.isKnown || !isCrunchable settings f) then some f.name else none

/-- The names under which a mention of a variable would be taken for another one: the fixed names
in the scopes between. -/
def shadowingNames (settings : Settings) (t : ScopeTree) (aliases : List (FieldId × FieldId))
    (id : FieldId) : List String :=
  (aliases.filter (·.1 = id)).flatMap fun pair =>
    (t.chainUpTo (t.field pair.2).scope (t.field id).scope).flatMap (t.fixedNames settings)

/-- The order in which fields get names: the most mentioned first, then the longest. -/
def namedBefore (f g : Field) : Bool :=
  if f.refs ≠ g.refs then g.refs < f.refs
  else if f.name.utf8ByteSize ≠ g.name.utf8ByteSize then g.name.utf8ByteSize < f.name.utf8ByteSize
  else f.name ≤ g.name

/-- Gives fields of one scope names, none of which is to be avoided there. -/
def giveNames (settings : Settings) (aliases : List (FieldId × FieldId)) :
    List FieldId → List String → ScopeTree → ScopeTree
  | [], _, t => t
  | id :: rest, avoid, t =>
    let name := ShortName.first (avoid ++ t.shadowingNames settings aliases id)
    giveNames settings aliases rest (name :: avoid)
      (t.modifyField id fun f => { f with crunchedName := some name })

/-- Gives the fields of a known scope short names. -/
def crunchScope (settings : Settings) (aliases : List (FieldId × FieldId)) (t : ScopeTree)
    (id : ScopeId) : ScopeTree :=
  let s := t.scope id
  if s.kind = .global || !s.isKnown then t
  else
    let (candidates, fixed) := s.fieldIds.partition fun f => isCrunchable settings (t.field f)
    let avoid := (fixed ++ s.verboten).map t.displayName
    let ordered := candidates.mergeSort fun f g => namedBefore (t.field f) (t.field g)
    giveNames settings aliases ordered avoid t

/-- Gives short names, from the outside inwards. -/
def crunch (settings : Settings) (t : ScopeTree) : Except PhaseError ScopeTree := do
  let t ← t.advance .literalsShortcut .renamed
  if !settings.minifyCode || settings.localRenaming = .keepAll then return t
  return t.topDown.foldl (crunchScope settings t.aliasPairs) t

/-! ## Names for shared literals -/

/-- A field that was made for a shared literal and has no name yet. -/
def isUnnamed (f : Field) : Bool := f.isGenerated && f.crunchedName.isNone

/-- The names in a scope and the scopes in it, but for one field and those without a name. -/
def namesInside (t : ScopeTree) (id : FieldId) : List String :=
  (t.subtree (t.field id).scope).flatMap fun s =>
    ((t.scope s).fieldIds.filter fun other =>
      other ≠ id && !isUnnamed (t.field (t.ultimate other))).map t.displayName

/-- Names the fields for shared literals that the renaming left out. -/
def nameGenerated (t : ScopeTree) : Except PhaseError ScopeTree := do
  let t ← t.advance .renamed .generatedNamesValidated
  let pending := t.fieldIds.filter fun id => isUnnamed (t.field id)
  return pending.foldl (fun t id =>
    let name := ShortName.first (t.namesInside id)
    t.modifyField id fun f => { f with crunchedName := some name }) t

end ScopeTree

end Minifier
