import Minifier.Number.Basic
import Minifier.Span
import Minifier.Syntax.Operator
import Minifier.Token.Basic

/-!
# Syntax trees

Programs as trees of statements and expressions. A tree holds no parentheses and no white space,
but every node knows the span it was read from. Names and the constructs that open a scope have
room for what binding finds out: the variable of a name, the scope of a function, a `catch` clause
or a `with` body, each by its number.
-/

set_option autoImplicit false

namespace Minifier

/-- The number of a scope, in order of creation. -/
abbrev ScopeId := Nat

/-- The number of a variable record, in order of creation. -/
abbrev FieldId := Nat

/-- A name, declared or used, and the variable record it was bound to. -/
structure Ident where
  name : String
  span : Span
  field : Option FieldId := none
deriving DecidableEq, Repr

inductive PropertyKey where
  | name (text : String)
  | string (value : String)
  | number (value : Number)
deriving DecidableEq, Repr

inductive PropertyKind where
  | value | getter | setter
deriving DecidableEq, Repr

inductive FunctionKind where
  | declaration | expression | getter | setter
deriving DecidableEq, Repr

mutual

structure Expr where
  form : Form
  span : Span

inductive Form where
  | number (value : Number)
  | string (value : String)
  | regex (pattern flags : String)
  | boolean (value : Bool)
  | null
  | this
  | ident (id : Ident)
  /-- Absent items are holes, as in `[a,,b]`. -/
  | array (items : List (Option Expr))
  | object (properties : List Property)
  | function (fn : Function)
  | member (object : Expr) (name : String)
  | index (object : Expr) (key : Expr)
  | call (callee : Expr) (args : List Expr)
  /-- A constructor call may lack its argument list. -/
  | new (callee : Expr) (args : Option (List Expr))
  | unary (op : UnaryOp) (operand : Expr)
  | update (op : UpdateOp) (before : Bool) (operand : Expr)
  | binary (op : BinaryOp) (left right : Expr)
  | conditional (test yes no : Expr)

/-- A property of an object literal. The value of an accessor is its function. -/
structure Property where
  key : PropertyKey
  kind : PropertyKind
  value : Expr
  span : Span

structure Function where
  kind : FunctionKind
  name : Option Ident
  params : List Ident
  body : Block
  scope : Option ScopeId
  span : Span

/-- A statement list: the program, a function body, or anything between braces. -/
structure Block where
  statements : List Statement
  span : Span

structure VarDecl where
  name : Ident
  init : Option Expr
  span : Span

structure VarStatement where
  decls : List VarDecl
  span : Span

/-- What stands before the first semicolon of a `for` head. -/
inductive ForInit where
  | nothing
  | var (vars : VarStatement)
  | expr (e : Expr)

/-- What stands before the `in` of a `for` head. -/
inductive ForTarget where
  | var (decl : VarDecl)
  | expr (e : Expr)

/-- A clause of a `switch`; the default clause has no test. -/
structure SwitchCase where
  test : Option Expr
  body : List Statement
  span : Span

structure CatchClause where
  param : Ident
  body : Block
  scope : Option ScopeId
  span : Span

inductive Statement where
  | block (b : Block)
  | var (vars : VarStatement)
  | function (fn : Function)
  | expr (e : Expr)
  | ifElse (test : Expr) (yes : Statement) (no : Option Statement) (span : Span)
  | forLoop (init : ForInit) (test update : Option Expr) (body : Statement) (span : Span)
  | forIn (target : ForTarget) (object : Expr) (body : Statement) (span : Span)
  | whileLoop (test : Expr) (body : Statement) (span : Span)
  | doWhile (body : Statement) (test : Expr) (span : Span)
  | switch (subject : Expr) (cases : List SwitchCase) (span : Span)
  | tryCatch (block : Block) (handler : Option CatchClause) (finalizer : Option Block) (span : Span)
  | labeled (label : String) (body : Statement) (span : Span)
  | breakTo (label : Option String) (span : Span)
  | continueTo (label : Option String) (span : Span)
  | returnWith (value : Option Expr) (span : Span)
  | throw (value : Expr) (span : Span)
  | withObject (object : Expr) (body : Statement) (scope : Option ScopeId) (span : Span)
  | debugger (span : Span)
  | empty (span : Span)
  | comment (kind : CommentKind) (text : String) (span : Span)

end

structure Program where
  body : Block
  scope : Option ScopeId
  span : Span

instance : Inhabited Expr := ⟨⟨.null, .synthetic⟩⟩
instance : Inhabited Block := ⟨⟨[], .synthetic⟩⟩
instance : Inhabited Statement := ⟨.empty .synthetic⟩
instance : Inhabited Program := ⟨⟨⟨[], .synthetic⟩, none, .synthetic⟩⟩

/-- A program as it is read, not yet bound. -/
def Program.of (statements : List Statement) (span : Span) : Program :=
  ⟨⟨statements, span⟩, none, span⟩

end Minifier
