import Minifier.Syntax.Tree

/-!
# The nodes of a tree

`Program.nodes` lists the nodes of a program, each before its parts and the parts in the order of
their text. What a reader of the tree wants to know (the names, the names in use, the functions) is
a filter of this list.
-/

set_option autoImplicit false

namespace Minifier

/-- A node of a tree. An identifier is a node wherever it stands; as an expression it is the
expression first. -/
inductive Node where
  | block (b : Block)
  | statement (s : Statement)
  | expr (e : Expr)
  | function (fn : Function)
  | varDecl (d : VarDecl)
  | switchCase (c : SwitchCase)
  | catchClause (c : CatchClause)
  | property (p : Property)
  | ident (id : Ident)

mutual

def Expr.nodes : Expr → List Node
  | ⟨form, span⟩ => .expr ⟨form, span⟩ :: form.nodes

/-- The nodes below an expression of this form. -/
def Form.nodes : Form → List Node
  | .ident id => [.ident id]
  | .array items => itemNodes items
  | .object properties => propertyNodes properties
  | .function fn => fn.nodes
  | .member object _ => object.nodes
  | .index object key => object.nodes ++ key.nodes
  | .call callee args => callee.nodes ++ argNodes args
  | .new callee none => callee.nodes
  | .new callee (some args) => callee.nodes ++ argNodes args
  | .unary _ operand => operand.nodes
  | .update _ _ operand => operand.nodes
  | .binary _ left right => left.nodes ++ right.nodes
  | .conditional test yes no => test.nodes ++ yes.nodes ++ no.nodes
  | _ => []

def itemNodes : List (Option Expr) → List Node
  | [] => []
  | none :: rest => itemNodes rest
  | some e :: rest => e.nodes ++ itemNodes rest

def argNodes : List Expr → List Node
  | [] => []
  | e :: rest => e.nodes ++ argNodes rest

def propertyNodes : List Property → List Node
  | [] => []
  | ⟨key, kind, value, span⟩ :: rest =>
    .property ⟨key, kind, value, span⟩ :: value.nodes ++ propertyNodes rest

def Function.nodes : Function → List Node
  | ⟨kind, name, params, body, scope, span⟩ =>
    .function ⟨kind, name, params, body, scope, span⟩ :: (name.toList ++ params).map .ident ++
      body.nodes

def Block.nodes : Block → List Node
  | ⟨statements, span⟩ => .block ⟨statements, span⟩ :: statementNodes statements

def statementNodes : List Statement → List Node
  | [] => []
  | s :: rest => s.nodes ++ statementNodes rest

def VarDecl.nodes : VarDecl → List Node
  | ⟨name, none, span⟩ => [.varDecl ⟨name, none, span⟩, .ident name]
  | ⟨name, some init, span⟩ => .varDecl ⟨name, some init, span⟩ :: .ident name :: init.nodes

def declNodes : List VarDecl → List Node
  | [] => []
  | d :: rest => d.nodes ++ declNodes rest

def ForInit.nodes : ForInit → List Node
  | .nothing => []
  | .var ⟨decls, _⟩ => declNodes decls
  | .expr e => e.nodes

def ForTarget.nodes : ForTarget → List Node
  | .var decl => decl.nodes
  | .expr e => e.nodes

def optionalNodes : Option Expr → List Node
  | none => []
  | some e => e.nodes

def caseNodes : List SwitchCase → List Node
  | [] => []
  | ⟨test, body, span⟩ :: rest =>
    .switchCase ⟨test, body, span⟩ :: optionalNodes test ++ statementNodes body ++ caseNodes rest

def handlerNodes : Option CatchClause → List Node
  | none => []
  | some ⟨param, body, scope, span⟩ =>
    .catchClause ⟨param, body, scope, span⟩ :: .ident param :: body.nodes

def Statement.nodes (s : Statement) : List Node :=
  .statement s :: match s with
    | .block b => b.nodes
    | .var ⟨decls, _⟩ => declNodes decls
    | .function fn => fn.nodes
    | .expr e => e.nodes
    | .ifElse test yes none _ => test.nodes ++ yes.nodes
    | .ifElse test yes (some no) _ => test.nodes ++ yes.nodes ++ no.nodes
    | .forLoop init test update body _ =>
      init.nodes ++ optionalNodes test ++ optionalNodes update ++ body.nodes
    | .forIn target object body _ => target.nodes ++ object.nodes ++ body.nodes
    | .whileLoop test body _ => test.nodes ++ body.nodes
    | .doWhile body test _ => body.nodes ++ test.nodes
    | .switch subject cases _ => subject.nodes ++ caseNodes cases
    | .tryCatch block handler none _ => block.nodes ++ handlerNodes handler
    | .tryCatch block handler (some finalizer) _ =>
      block.nodes ++ handlerNodes handler ++ finalizer.nodes
    | .labeled _ body _ => body.nodes
    | .returnWith value _ => optionalNodes value
    | .throw value _ => value.nodes
    | .withObject object body _ _ => object.nodes ++ body.nodes
    | _ => []

end

def Program.nodes (p : Program) : List Node := p.body.nodes

namespace Node

/-- The name at a node, declared or in use. -/
def ident? : Node → Option Ident
  | ident id => some id
  | _ => none

/-- The name in use at a node: an identifier that is an expression. -/
def use? : Node → Option Ident
  | expr e => match e.form with
    | .ident id => some id
    | _ => none
  | _ => none

def function? : Node → Option Function
  | function fn => some fn
  | _ => none

end Node

/-- The names of a program, declared or in use. -/
def Program.idents (p : Program) : List Ident := p.nodes.filterMap Node.ident?

/-- The names in use in a program. -/
def Program.uses (p : Program) : List Ident := p.nodes.filterMap Node.use?

end Minifier
