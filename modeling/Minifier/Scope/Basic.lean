import Minifier.Syntax.Tree

/-!
# Scopes and variables

A program has a scope for itself, one for each function, and one for each `catch` clause and `with`
body. Each scope has a table of the names it knows, and each name in a table a `Field`. A field is
either the variable itself, in the scope that declares it, or an alias: a scope that only mentions
a variable from further out has an alias that points outwards.
-/

set_option autoImplicit false

namespace Minifier

inductive ScopeKind where
  | global
  | function
  /-- The block of a `catch` clause; it has the parameter. -/
  | catchClause
  /-- The body of a `with` statement; names may be properties of its object. -/
  | withBody
deriving DecidableEq, Repr

/-- What a variable comes from. -/
inductive FieldKind where
  /-- A `var`, a function declaration, a `catch` parameter, or a shared literal. -/
  | declared
  | parameter
  /-- The `arguments` that every function has. -/
  | argumentsObject
  /-- The name of a function expression, known inside it only. -/
  | functionName
  /-- Mentioned, but declared nowhere. -/
  | undeclared
  /-- Supplied by the surroundings of a program. -/
  | predefined
deriving DecidableEq, Repr

/-- A variable as one scope knows it. -/
structure Field where
  name : String
  kind : FieldKind
  /-- The scope in whose table the field stands. -/
  scope : ScopeId
  /-- The field further out that an alias stands for. -/
  outer : Option FieldId := none
  /-- How often the field is mentioned, through aliases too. -/
  refs : Nat := 0
  /-- Whether the variable may get a shorter name. -/
  canCrunch : Bool := kind = .declared || kind = .parameter || kind = .functionName
  /-- The name it got. -/
  crunchedName : Option String := none
  isDeclared : Bool := false
  isFunction : Bool := false
  /-- The name of a function expression that is a variable around it too, or that variable. -/
  isAmbiguous : Bool := false
  /-- A variable that was made for a shared literal. -/
  isGenerated : Bool := false
  /-- The place of a parameter, from zero. -/
  position : Option Nat := none
  span : Span
deriving DecidableEq, Repr

instance : Inhabited Field := ⟨{ name := "", kind := .declared, scope := 0, span := .synthetic }⟩

def Field.isAlias (f : Field) : Bool := f.outer.isSome

/-- A variable of the surroundings rather than of the program. -/
def Field.isForeign (f : Field) : Bool := f.kind = .undeclared || f.kind = .predefined

structure Scope where
  kind : ScopeKind
  parent : Option ScopeId
  children : List ScopeId := []
  /-- The names and their fields, in the order in which they came. -/
  table : List (String × FieldId) := []
  /-- Variables from further out whose names may not be given away here. -/
  verboten : List FieldId := []
  /-- False if code of the scope can look names up when it runs. -/
  isKnown : Bool := kind ≠ .withBody
  hasDirectEval : Bool := false
  /-- The field of the function declaration that the scope belongs to. -/
  functionField : Option FieldId := none
  /-- The code of the scope has been taken out of the program. -/
  isDetached : Bool := false
  span : Span
deriving DecidableEq, Repr

instance : Inhabited Scope := ⟨{ kind := .global, parent := none, span := .synthetic }⟩

namespace Scope

/-- Whether `var` and function declarations go into the scope. -/
def isFunctionLevel (s : Scope) : Bool := s.kind = .function || s.kind = .global

def lookup (s : Scope) (name : String) : Option FieldId := s.table.lookup name

/-- The fields of the scope, in the order in which they came. -/
def fieldIds (s : Scope) : List FieldId := s.table.map (·.2)

end Scope

/-- How far the choice of names has come. Each phase follows the one before it. -/
inductive Phase where
  | unanalyzed
  | scopeAnalyzed
  | fieldsReserved
  | literalsShortcut
  | renamed
  | generatedNamesValidated
deriving DecidableEq, Repr

/-- The name in messages. -/
def Phase.label : Phase → String
  | unanalyzed => "Unanalyzed"
  | scopeAnalyzed => "ScopeAnalyzed"
  | fieldsReserved => "FieldsReserved"
  | literalsShortcut => "LiteralsShortcut"
  | renamed => "Renamed"
  | generatedNamesValidated => "GeneratedNamesValidated"

/-- A phase was asked for at the wrong time. -/
structure PhaseError where
  requested : Phase
  current : Phase
deriving DecidableEq, Repr

def PhaseError.message (e : PhaseError) : String :=
  s!"resolver phase {e.requested.label} requested while in {e.current.label}"

/-- All scopes and fields of a program. Both are known by their number; scope zero is global. -/
structure ScopeTree where
  scopes : Array Scope
  fields : Array Field
  phase : Phase
  /-- How many fields have been made for shared literals. -/
  generatedCount : Nat
deriving DecidableEq, Repr

namespace ScopeTree

/-- The number of the global scope. -/
def global : ScopeId := 0

/-- A tree with a global scope and nothing else. -/
def empty : ScopeTree :=
  { scopes := #[{ kind := .global, parent := none, span := .synthetic }], fields := #[],
    phase := .unanalyzed, generatedCount := 0 }

instance : Inhabited ScopeTree := ⟨empty⟩

def scope (t : ScopeTree) (id : ScopeId) : Scope := t.scopes[id]?.getD default

def field (t : ScopeTree) (id : FieldId) : Field := t.fields[id]?.getD default

def modifyScope (t : ScopeTree) (id : ScopeId) (f : Scope → Scope) : ScopeTree :=
  { t with scopes := t.scopes.modify id f }

def modifyField (t : ScopeTree) (id : FieldId) (f : Field → Field) : ScopeTree :=
  { t with fields := t.fields.modify id f }

/-- Goes from one phase to another. -/
def advance (t : ScopeTree) (before after : Phase) : Except PhaseError ScopeTree :=
  if t.phase = before then .ok { t with phase := after } else .error ⟨after, t.phase⟩

/-! ## Ways through the tree

A scope is created after its parent and an alias after what it stands for, so a way outwards is no
longer than the number it starts from. -/

/-- At most `fuel` scopes outwards from a scope. -/
def chainFrom (t : ScopeTree) : Nat → ScopeId → List ScopeId
  | 0, _ => []
  | fuel + 1, id =>
    match (t.scope id).parent with
    | none => [id]
    | some parent => id :: t.chainFrom fuel parent

/-- A scope and the scopes around it, from the inside. -/
def chain (t : ScopeTree) (id : ScopeId) : List ScopeId := t.chainFrom (id + 1) id

/-- The scopes from one outwards, up to but not including another. -/
def chainUpTo (t : ScopeTree) (id stop : ScopeId) : List ScopeId :=
  (t.chain id).takeWhile (· ≠ stop)

/-- Whether the first scope is the second or around it. -/
def isAncestorOrSelf (t : ScopeTree) (ancestor id : ScopeId) : Bool :=
  (t.chain id).contains ancestor

/-- The nearest function or global scope. -/
def functionScopeOf (t : ScopeTree) (id : ScopeId) : ScopeId :=
  ((t.chain id).find? fun s => (t.scope s).isFunctionLevel).getD id

/-- At most `fuel` fields outwards from a field. -/
def outwardsFrom (t : ScopeTree) : Nat → FieldId → List FieldId
  | 0, _ => []
  | fuel + 1, id =>
    match (t.field id).outer with
    | none => [id]
    | some outer => id :: t.outwardsFrom fuel outer

/-- A field and the fields that it stands for, up to the variable itself. -/
def outwards (t : ScopeTree) (id : FieldId) : List FieldId := t.outwardsFrom (id + 1) id

/-- The variable that a field stands for. -/
def ultimate (t : ScopeTree) (id : FieldId) : FieldId := (t.outwards id).getLastD id

/-- At most `fuel` levels of the scopes in a scope. -/
def subtreeFrom (t : ScopeTree) : Nat → ScopeId → List ScopeId
  | 0, _ => []
  | fuel + 1, id => id :: (t.scope id).children.flatMap (t.subtreeFrom fuel)

/-- A scope and all scopes in it, each before those inside it. -/
def subtree (t : ScopeTree) (id : ScopeId) : List ScopeId := t.subtreeFrom t.scopes.size id

/-- All scopes, each before those inside it. -/
def topDown (t : ScopeTree) : List ScopeId := t.subtree global

/-- All scopes, each after those inside it. -/
def bottomUp (t : ScopeTree) : List ScopeId := t.topDown.reverse

/-- The numbers of all fields. -/
def fieldIds (t : ScopeTree) : List FieldId := List.range t.fields.size

/-- The name that a field is written as. -/
def displayName (t : ScopeTree) (id : FieldId) : String :=
  let variable_ := t.field (t.ultimate id)
  variable_.crunchedName.getD variable_.name

/-- The name that a name is written as. -/
def nameOf (t : ScopeTree) (id : Ident) : String :=
  match id.field with
  | some field => t.displayName field
  | none => id.name

/-- How often the variable behind a field is mentioned. -/
def totalRefs (t : ScopeTree) (id : FieldId) : Nat := (t.field (t.ultimate id)).refs

/-- The innermost scope around and including one whose table has a name, and the field. -/
def findVisible (t : ScopeTree) (id : ScopeId) (name : String) : Option (ScopeId × FieldId) :=
  (t.chain id).findSome? fun s => ((t.scope s).lookup name).map (s, ·)

/-- Whether nothing in a scope or the scopes in it can look names up when it runs. -/
def isStatic (t : ScopeTree) (id : ScopeId) : Bool :=
  (t.subtree id).all fun s => (t.scope s).isKnown && !(t.scope s).hasDirectEval

/-- Whether the variables of a scope are seen from nowhere but the places that name them. -/
def isPrivate (t : ScopeTree) (scope : ScopeId) : Bool :=
  (t.scope scope).kind ≠ .global && t.isStatic scope

/-! ## Growing the tree -/

/-- A new scope inside another. -/
def createScope (t : ScopeTree) (kind : ScopeKind) (parent : ScopeId) (span : Span) :
    ScopeId × ScopeTree :=
  let id := t.scopes.size
  let t := t.modifyScope parent fun s => { s with children := s.children ++ [id] }
  (id, { t with scopes := t.scopes.push { kind, parent := some parent, span } })

/-- A new field in the table of its scope. -/
def addField (t : ScopeTree) (field : Field) : FieldId × ScopeTree :=
  let id := t.fields.size
  let t := t.modifyScope field.scope fun s => { s with table := s.table ++ [(field.name, id)] }
  (id, { t with fields := t.fields.push field })

/-- The field of a name in a scope, which is made if it is not there. -/
def declare (t : ScopeTree) (scope : ScopeId) (name : String) (kind : FieldKind) (span : Span) :
    FieldId × ScopeTree :=
  match (t.scope scope).lookup name with
  | some existing => (existing, t)
  | none => t.addField { name, kind, scope, span }

/-- The field through which a scope knows a variable from further out. -/
def createAlias (t : ScopeTree) (scope : ScopeId) (outer : FieldId) : FieldId × ScopeTree :=
  let target := t.field outer
  match (t.scope scope).lookup target.name with
  | some existing => (existing, t)
  | none =>
    t.addField
      { name := target.name, kind := target.kind, scope, span := target.span,
        outer := some outer, canCrunch := false }

/-- A new variable in a scope, under a name that no program can have. -/
def createGenerated (t : ScopeTree) (scope : ScopeId) : FieldId × ScopeTree :=
  let name := s!"generated {t.generatedCount}"
  let t := { t with generatedCount := t.generatedCount + 1 }
  let (id, t) := t.declare scope name .declared .synthetic
  (id, t.modifyField id fun f => { f with isGenerated := true, isDeclared := true })

/-! ## Mentions -/

def addRef (t : ScopeTree) (id : FieldId) : ScopeTree :=
  (t.outwards id).foldl (fun t id => t.modifyField id fun f => { f with refs := f.refs + 1 }) t

def removeRef (t : ScopeTree) (id : FieldId) : ScopeTree :=
  (t.outwards id).foldl (fun t id => t.modifyField id fun f => { f with refs := f.refs - 1 }) t

/-- Counts all mentions anew, from the names in use. -/
def recount (t : ScopeTree) (uses : List Ident) : ScopeTree :=
  let cleared := { t with fields := t.fields.map fun f => { f with refs := 0 } }
  (uses.filterMap (·.field)).foldl addRef cleared

/-! ## Marks -/

/-- Keeps the name of the variable behind an alias out of the scopes between the alias and the
declaration. -/
def reserveAlias (t : ScopeTree) (alias_ : FieldId) : ScopeTree :=
  let variable_ := t.ultimate alias_
  (t.chainUpTo (t.field alias_).scope (t.field variable_).scope).foldl
    (fun t id => t.modifyScope id fun s =>
      { s with
        verboten := if s.verboten.contains variable_ then s.verboten
          else s.verboten ++ [variable_] }) t

/-- Marks a scope and those in it as taken out of the program. -/
def detach (t : ScopeTree) (id : ScopeId) : ScopeTree :=
  (t.subtree id).foldl (fun t id => t.modifyScope id fun s => { s with isDetached := true }) t

end ScopeTree

end Minifier
