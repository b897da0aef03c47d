import Minifier.Diagnostic
import Minifier.Scope.Basic
import Minifier.Settings.Basic
import Minifier.Syntax.Nodes
import Minifier.Syntax.Walk

/-!
# Binding

`Program.bind` gives every construct that opens a scope its scope and every name its field. A first
walk makes the scopes and declares what they declare, wherever in the function it stands; a second
one looks up the names in use, so that a name may be used before its declaration. A name that is
declared nowhere becomes a variable of the global scope.
-/

set_option autoImplicit false

namespace Minifier

/-- Names that the surroundings of a program provide. -/
def predefinedGlobals : List String :=
  ["ActiveXObject", "Array", "Boolean", "Date", "Error", "EvalError", "Function", "Infinity",
   "JSON", "Math", "NaN", "Number", "Object", "RangeError", "ReferenceError", "RegExp", "String",
   "SyntaxError", "TypeError", "URIError", "XMLHttpRequest", "alert", "clearInterval",
   "clearTimeout", "confirm", "console", "decodeURI", "decodeURIComponent", "document",
   "encodeURI", "encodeURIComponent", "escape", "eval", "event", "frames", "history", "isFinite",
   "isNaN", "location", "navigator", "parent", "parseFloat", "parseInt", "prompt", "screen",
   "self", "setInterval", "setTimeout", "top", "undefined", "unescape", "window"]

namespace Bind

/-- A binding under way: the tree so far, what was reported, and the open scopes. -/
structure State where
  tree : ScopeTree
  report : Report
  /-- The open scopes, from the inside. -/
  stack : List ScopeId

abbrev Step := StateM State

def currentScope : Step ScopeId := return (← get).stack.headD ScopeTree.global

def tell (finding : Finding) (span : Span) (message : String) : Step Unit :=
  modify fun s => { s with report := s.report.push (.of finding span message) }

/-- Runs a change to the tree that answers something. -/
def onTree {α : Type} (change : ScopeTree → α × ScopeTree) : Step α := do
  let s ← get
  let (a, tree) := change s.tree
  set { s with tree }
  return a

def modifyTree (change : ScopeTree → ScopeTree) : Step Unit :=
  modify fun s => { s with tree := change s.tree }

def push (scope : ScopeId) : Step Unit := modify fun s => { s with stack := scope :: s.stack }

def pop : Step Unit := modify fun s => { s with stack := s.stack.tail }

/-! ## Declarations -/

/-- Declares a name in a scope, as by a statement of the program. -/
def declareIn (scope : ScopeId) (id : Ident) (kind : FieldKind) (isFunction : Bool)
    (position : Option Nat) : Step FieldId := do
  let field ← onTree (·.declare scope id.name kind id.span)
  modifyTree (·.modifyField field fun f =>
    { f with
      isDeclared := true
      isFunction := f.isFunction || isFunction
      position := position.or f.position })
  return field

def tellDuplicate (id : Ident) (what : String) : Step Unit :=
  tell .duplicateDeclaration id.span s!"Duplicate {what} '{id.name}'"

/-- Declares the name of a function declaration, which goes to the nearest function. -/
def declareFunction (scope : ScopeId) (id : Ident) : Step Ident := do
  let tree := (← get).tree
  let hoist := tree.functionScopeOf scope
  if ((tree.scope hoist).lookup id.name).any fun f => (tree.field f).isFunction then
    tellDuplicate id "function declaration"
  return { id with field := some (← declareIn hoist id .declared true none) }

def declareParams (scope : ScopeId) : List Ident → Nat → Step (List Ident)
  | [], _ => return []
  | id :: rest, position => do
    if (((← get).tree.scope scope).lookup id.name).isSome then tellDuplicate id "parameter"
    let field ← declareIn scope id .parameter false (some position)
    return { id with field := some field } :: (← declareParams scope rest (position + 1))

/-- Declares the name of a function expression in its own scope, unless it has a parameter of that
name. -/
def declareOwnName (scope : ScopeId) (id : Ident) : Step Ident := do
  if (((← get).tree.scope scope).lookup id.name).isSome then return id
  return { id with field := some (← declareIn scope id .functionName true none) }

def createInside (kind : ScopeKind) (span : Span) : Step ScopeId := do
  let around ← currentScope
  onTree (·.createScope kind around span)

def enterFunction (fn : Function) : Step Function := do
  let around ← currentScope
  let isDeclaration := fn.kind = .declaration
  let declared ← match fn.name with
    | some id => if isDeclaration then some <$> declareFunction around id else pure (some id)
    | none => pure none
  let scope ← createInside .function fn.span
  let functionField := if isDeclaration then declared.bind (·.field) else none
  modifyTree (·.modifyScope scope fun s => { s with functionField })
  let params ← declareParams scope fn.params 0
  let name ← match declared with
    | some id => if isDeclaration then pure (some id) else some <$> declareOwnName scope id
    | none => pure none
  let _ ← onTree (·.declare scope "arguments" .argumentsObject fn.span)
  push scope
  return { fn with name, params, scope := some scope }

def enterCatch (clause : CatchClause) : Step CatchClause := do
  let scope ← createInside .catchClause clause.span
  let field ← declareIn scope clause.param .declared false none
  push scope
  return { clause with param := { clause.param with field := some field }, scope := some scope }

def enterWith (span : Span) : Step (Option ScopeId) := do
  let scope ← createInside .withBody span
  push scope
  return some scope

def declareVar (id : Ident) : Step Ident := do
  let around ← currentScope
  let hoist := (← get).tree.functionScopeOf around
  return { id with field := some (← declareIn hoist id .declared false none) }

/-- The walk that makes scopes and declares names. -/
def declarations : Walk State where
  declare := declareVar
  enterFunction := enterFunction
  leaveFunction := fun fn => do pop; return fn
  enterCatch := enterCatch
  leaveCatch := pop
  enterWith := fun _ span => enterWith span
  leaveWith := pop

/-! ## Names in use -/

/-- The scope and the field that a name in use stands for. A name that nothing declares is declared
in the global scope, and reported unless it is predefined. -/
def findOrDeclare (scope : ScopeId) (isCallee : Bool) (id : Ident) : Step (ScopeId × FieldId) := do
  match (← get).tree.findVisible scope id.name with
  | some found => return found
  | none =>
    let isPredefined := predefinedGlobals.contains id.name
    let kind := if isPredefined then FieldKind.predefined else .undeclared
    let field ← onTree (·.declare ScopeTree.global id.name kind id.span)
    unless isPredefined do
      if isCallee then tell .undeclaredFunction id.span s!"Undeclared function '{id.name}'"
      else tell .undeclaredVariable id.span s!"Undeclared variable '{id.name}'"
    return (ScopeTree.global, field)

/-- Binds a name in use. A variable from further out is known through an alias; if a `with` body
lies between, the name may be a property of the object, so it has to stay. -/
def resolve (isCallee : Bool) (id : Ident) : Step Ident := do
  let scope ← currentScope
  let (foundScope, found) ← findOrDeclare scope isCallee id
  if foundScope = scope then return { id with field := some found }
  let tree := (← get).tree
  let crossed := tree.chainUpTo scope foundScope
  if crossed.any fun s => (tree.scope s).kind = .withBody then
    modifyTree (·.modifyField (tree.ultimate found) fun f => { f with canCrunch := false })
  return { id with field := some (← onTree (·.createAlias scope found)) }

/-- Marks the scopes from one to its function as those of a direct call of `eval`. -/
def evalMarked (treatment : EvalTreatment) (scope : ScopeId) (tree : ScopeTree) : ScopeTree :=
  let function := tree.functionScopeOf scope
  (tree.chainUpTo scope function ++ [function]).foldl (fun tree id =>
    tree.modifyScope id fun s =>
      { s with hasDirectEval := true, isKnown := s.isKnown && treatment = .ignore }) tree

def use (settings : Settings) (isCallee : Bool) (id : Ident) : Step Ident := do
  if isCallee && id.name = "eval" then
    let scope ← currentScope
    modifyTree (evalMarked settings.evalTreatment scope)
  resolve isCallee id

/-- Opens a scope that was made before. -/
def reenter (scope : Option ScopeId) : Step Unit := do
  let around ← currentScope
  push (scope.getD around)

/-- The walk that binds the names in use. -/
def references (settings : Settings) : Walk State where
  use := use settings
  enterFunction := fun fn => do reenter fn.scope; return fn
  leaveFunction := fun fn => do pop; return fn
  enterCatch := fun clause => do reenter clause.scope; return clause
  leaveCatch := pop
  enterWith := fun scope _ => do reenter scope; return scope
  leaveWith := pop

/-! ## Names of function expressions -/

/-- The variable around a function expression that has the name of the expression, if the program
declares it. -/
def namesake? (tree : ScopeTree) (field : Field) : Option FieldId := do
  if field.kind ≠ .functionName || field.isAlias then failure
  let parent ← (tree.scope field.scope).parent
  let (_, found) ← tree.findVisible parent field.name
  let outer := tree.ultimate found
  if (tree.field outer).isDeclared && !(tree.field outer).isForeign then some outer else failure

/-- Keeps the name of a function expression that is also a variable around it: old engines declare
the name around the expression, so both have to be written alike. -/
def keepAmbiguous (id : FieldId) : Step Unit := do
  let tree := (← get).tree
  let field := tree.field id
  match namesake? tree field with
  | none => pure ()
  | some outer =>
    tell .ambiguousFunctionName field.span
      s!"Function expression name '{field.name}' is also a variable in the enclosing scope"
    let keep (f : Field) : Field := { f with isAmbiguous := true, canCrunch := false }
    modifyTree fun tree => (tree.modifyField id keep).modifyField outer keep

def checkFunctionNames : Step Unit := do
  (← get).tree.fieldIds.forM keepAmbiguous

/-- Both walks and the check. -/
def bindProgram (settings : Settings) (p : Program) : Step Program := do
  let p := { p with scope := some ScopeTree.global }
  let p ← p.walk declarations
  let p ← p.walk (references settings)
  checkFunctionNames
  return p

end Bind

/-- A program, its scopes, and all that was reported about it. -/
structure BoundProgram where
  program : Program
  tree : ScopeTree
  report : Report

/-- Binds a program in a tree of its own. -/
def Program.bind (settings : Settings) (p : Program) : BoundProgram :=
  let (program, s) := Bind.bindProgram settings p ⟨.empty, #[], [ScopeTree.global]⟩
  ⟨program, s.tree, s.report⟩

/-- Counts all mentions anew. -/
def BoundProgram.recount (p : BoundProgram) : BoundProgram :=
  { p with tree := p.tree.recount p.program.uses }

end Minifier
