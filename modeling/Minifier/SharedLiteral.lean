import Minifier.Print.Tree
import Minifier.Scope.Bind
import Minifier.Simplify.Edited

/-!
# Shared literals

A string or number that a function contains often enough gets a variable: it is declared once, at
the top of the innermost function around all occurrences, and each occurrence becomes a mention of
the variable. Only the occurrences inside one outermost function are taken together. A negative
number counts as an occurrence of its magnitude, and the variable holds the sign that is written
more often.

Directives, property names, operands of `delete` and the strings that a `typeof` is compared with
stay literals.
-/

set_option autoImplicit false

namespace Minifier

/-- A value that can be shared. -/
inductive Literal where
  | string (value : String)
  | number (value : Number)
deriving DecidableEq, Repr

namespace Literal

/-- The text of the literal in a program. -/
def text : Literal → List Char
  | string value => Text.quoted value.toList
  | number value => value.literal

/-- The literal, or its negative. -/
def expr (negative : Bool) : Literal → Expr
  | string value => .synthetic (.string value)
  | number value => .number (if negative then value.negate else value)

/-- The literal that an expression is, and whether it is negated. -/
def of? : Expr → Option (Literal × Bool)
  | ⟨.string value, _⟩ => some (.string value, false)
  | ⟨.number value, _⟩ => some (.number value, false)
  | ⟨.unary .minus ⟨.number value, _⟩, _⟩ => some (.number value, true)
  | _ => none

end Literal

/-! ## Finding literals -/

/-- A literal, and the outermost scope around it that is not the global one. -/
structure LiteralKey where
  outermost : ScopeId
  literal : Literal
deriving DecidableEq, Repr

/-- A place where a literal is written. -/
structure Occurrence where
  key : LiteralKey
  scope : ScopeId
  negated : Bool
deriving DecidableEq, Repr

namespace LiteralWalk

variable {σ : Type}

/-- The state of a walk over literals: the scopes around the current place, from the inside, and a
state of the visitor. -/
structure State (σ : Type) where
  around : List (Option ScopeId)
  inner : σ

def enter (scope : Option ScopeId) : StateM (State σ) Unit :=
  modify fun s => { s with around := scope :: s.around }

def leave : StateM (State σ) Unit :=
  modify fun s => { s with around := s.around.tail }

/-- The occurrence that an expression at the current place is. -/
def occurrence? (around : List (Option ScopeId)) (e : Expr) : Option Occurrence := do
  let scopes := around.filterMap id
  let (literal, negated) ← Literal.of? e
  return ⟨⟨← scopes.reverse[1]?, literal⟩, ← scopes.head?, negated⟩

def isTypeof : Expr → Bool
  | ⟨.unary .typeof _, _⟩ => true
  | _ => false

/-- Whether an expression compares something with a `typeof`. -/
def comparesType : Form → Bool
  | .binary op left right =>
    (op = .equal || op = .notEqual || op = .strictEqual || op = .strictNotEqual) &&
      (isTypeof left || isTypeof right)
  | _ => false

/-- Whether an expression stays as it is, with all its parts. -/
def isSpared (around : Option Form) (e : Expr) : Bool :=
  match e.form with
  | .string _ => around.any comparesType
  | .unary .delete _ => true
  | _ => false

/-- Comes to an expression, which the visitor sees if it is an occurrence. -/
def atExpr (visit : Occurrence → Expr → StateM σ Expr) (around : Option Form) (e : Expr) :
    StateM (State σ) (Option Expr) := do
  let s ← get
  if isSpared around e then return some e
  match occurrence? s.around e with
  | some occurrence =>
    let (e, inner) := visit occurrence e s.inner
    set { s with inner }
    return some e
  | none => return if (Literal.of? e).isSome then some e else none

/-- The walk that shows every occurrence to a visitor, and every function when it is left. -/
def steps (visit : Occurrence → Expr → StateM σ Expr) (finish : Function → Function) :
    Walk (State σ) where
  expr? := atExpr visit
  enterFunction := fun fn => do enter fn.scope; return fn
  leaveFunction := fun fn => do leave; return finish fn
  enterCatch := fun clause => do enter clause.scope; return clause
  leaveCatch := leave
  enterWith := fun scope _ => do enter scope; return scope
  leaveWith := leave
  skips := Statement.isDirective

/-- Shows every occurrence in a program to a visitor. -/
def run (visit : Occurrence → Expr → StateM σ Expr) (finish : Function → Function) (p : Program)
    (state : σ) : Program × σ :=
  let (p, s) := p.walk (steps visit finish) ⟨[p.scope], state⟩
  (p, s.inner)

end LiteralWalk

/-- The places where literals are written that can be shared. -/
def Program.occurrences (p : Program) : List Occurrence :=
  let note (occurrence : Occurrence) (e : Expr) : StateM (Array Occurrence) Expr := do
    modify (·.push occurrence)
    return e
  (LiteralWalk.run note id p #[]).2.toList

/-! ## Deciding what to share -/

/-- A literal that gets a variable. -/
structure SharedLiteral where
  key : LiteralKey
  /-- The variable. -/
  field : FieldId
  /-- The function that declares it. -/
  owner : ScopeId
  /-- Whether it holds the negative of the literal. -/
  negative : Bool
deriving DecidableEq, Repr

/-- Whether a literal of some length is worth a variable if it is written so often: a mention takes
one character, and `var a=…;` has seven besides the literal. -/
def paysToShare (length count : Nat) : Bool :=
  1 < length && length + 7 < count * (length - 1)

namespace ScopeTree

/-- The innermost scope around two scopes. -/
def common (t : ScopeTree) (a b : ScopeId) : ScopeId :=
  ((t.chain a).find? fun s => t.isAncestorOrSelf s b).getD global

/-- The function that can declare a variable for some scopes. -/
def owner? (t : ScopeTree) : List ScopeId → Option ScopeId
  | [] => none
  | first :: rest =>
    let owner := t.functionScopeOf (rest.foldl t.common first)
    if t.isPrivate owner then some owner else none

/-- Makes a variable for a literal that is written at some places, if it pays. -/
def share? (t : ScopeTree) (key : LiteralKey) (places : List Occurrence) :
    Option (SharedLiteral × ScopeTree) := do
  guard (paysToShare (byteLength key.literal.text) places.length)
  let owner ← t.owner? (places.map (·.scope))
  let (field, t) := t.createGenerated owner
  let negative := places.length < 2 * places.countP (·.negated)
  return (⟨key, field, owner, negative⟩, t)

/-- Makes variables for all literals for which it pays, in the order of their first occurrences. -/
def shareAll (t : ScopeTree) (occurrences : List Occurrence) : List SharedLiteral × ScopeTree :=
  (occurrences.map (·.key)).eraseDups.foldl
    (fun (shared, t) key =>
      match t.share? key (occurrences.filter (·.key = key)) with
      | some (s, t) => (shared ++ [s], t)
      | none => (shared, t))
    ([], t)

/-! ## Mentioning the variables -/

/-- The field through which a scope mentions a variable from further out; every scope between them
knows it too. -/
def aliasFor (t : ScopeTree) (variable_ : FieldId) (scope : ScopeId) : FieldId × ScopeTree :=
  (t.chainUpTo scope (t.field variable_).scope).foldr
    (fun id (outer, t) => t.createAlias id outer) (variable_, t)

/-- Mentions a variable in a scope. -/
def mention (t : ScopeTree) (variable_ : FieldId) (scope : ScopeId) : FieldId × ScopeTree :=
  let (field, t) := t.aliasFor variable_ scope
  let t := if field = variable_ then t else t.reserveAlias field
  (field, t.addRef field)

end ScopeTree

namespace SharedLiteral

/-- The name of the variable, as a mention of a field. -/
def ident (s : SharedLiteral) (t : ScopeTree) (field : FieldId) : Ident :=
  ⟨(t.field s.field).name, .synthetic, some field⟩

def decl (s : SharedLiteral) (t : ScopeTree) : VarDecl :=
  ⟨s.ident t s.field, some (s.key.literal.expr s.negative), .synthetic⟩

/-- Puts a mention of the variable in the place of an occurrence. -/
def replace (shared : List SharedLiteral) (occurrence : Occurrence) (e : Expr) :
    StateM ScopeTree Expr := do
  match shared.find? (·.key = occurrence.key) with
  | none => return e
  | some s =>
    let t ← get
    let (field, t) := t.mention s.field occurrence.scope
    set t
    let mention : Expr := ⟨.ident (s.ident t field), e.span⟩
    return if occurrence.negated = s.negative then mention else .unary .minus mention

/-- Declares the variables that a function owns. -/
def declareIn (shared : List SharedLiteral) (t : ScopeTree) (fn : Function) : Function :=
  let owned := shared.filter fun s => fn.scope = some s.owner
  { fn with body := fn.body.declareFirst (owned.map (·.decl t)) }

end SharedLiteral

/-- Shares literals in a program whose names are being chosen: the variables for them are there
before the short names are. -/
def BoundProgram.shareLiterals (settings : Settings) (p : BoundProgram) :
    Except PhaseError (Edited BoundProgram) := do
  let tree ← p.tree.advance .fieldsReserved .literalsShortcut
  if settings.applies .shareLiterals then
    let (shared, tree) := tree.shareAll p.program.occurrences
    let (program, tree) := LiteralWalk.run (SharedLiteral.replace shared)
      (SharedLiteral.declareIn shared tree) p.program tree
    return ⟨{ p with program, tree }, !shared.isEmpty⟩
  else return pure { p with tree }

end Minifier
