import Minifier.Syntax.Nodes

/-!
# Marks

Binding leaves its results in a tree: fields at names, and scopes at functions, `catch` clauses and
`with` bodies. The marks of a tree are these places and nothing else, so that what a pass does to
the bindings of a program can be said without saying what it does to the program.

The marks of a program are read off its nodes (`Program.marks`). The marks of its parts are added up
along the tree, as proofs go (`Expr.marks` and the others), and come to the same (`Program.marks_eq`).
-/

set_option autoImplicit false

namespace Minifier

/-- A place in a tree that binding has something to say about. -/
inductive Mark where
  /-- A name, declared or in use. -/
  | name (id : Ident)
  /-- A name in use. It is also a name. -/
  | use (id : Ident)
  /-- The scope that a construct opens. -/
  | scope (id : ScopeId)
deriving DecidableEq

/-- The mark at a node itself. -/
def Node.mark? : Node → Option Mark
  | .ident id => some (.name id)
  | .expr ⟨.ident id, _⟩ => some (.use id)
  | .function fn => fn.scope.map .scope
  | .catchClause clause => clause.scope.map .scope
  | .statement (.withObject _ _ scope _) => scope.map .scope
  | _ => none

/-- The marks among some nodes. -/
def marksOf (nodes : List Node) : List Mark := nodes.filterMap Node.mark?

/-- The marks of a program. -/
def Program.marks (p : Program) : List Mark := marksOf p.nodes

/-- The mark of a scope that may be there. -/
def scopeMarks (scope : Option ScopeId) : List Mark := (scope.map Mark.scope).toList

/-! ## Marks along the tree -/

mutual

/-- The marks of an expression. -/
@[simp] def Expr.marks : Expr → List Mark
  | ⟨form, _⟩ => form.marks

/-- The marks of an expression of this form. -/
@[simp] def Form.marks : Form → List Mark
  | .ident id => [.use id, .name id]
  | .array items => itemMarks items
  | .object properties => propertyMarks properties
  | .function fn => fn.marks
  | .member object _ => object.marks
  | .index object key => object.marks ++ key.marks
  | .call callee args => callee.marks ++ argMarks args
  | .new callee none => callee.marks
  | .new callee (some args) => callee.marks ++ argMarks args
  | .unary _ operand => operand.marks
  | .update _ _ operand => operand.marks
  | .binary _ left right => left.marks ++ right.marks
  | .conditional test yes no => test.marks ++ yes.marks ++ no.marks
  | .number _ | .string _ | .regex _ _ | .boolean _ | .null | .this => []

/-- Of the items of an array. -/
@[simp] def itemMarks : List (Option Expr) → List Mark
  | [] => []
  | none :: rest => itemMarks rest
  | some e :: rest => e.marks ++ itemMarks rest

/-- Of the arguments of a call. -/
@[simp] def argMarks : List Expr → List Mark
  | [] => []
  | e :: rest => e.marks ++ argMarks rest

/-- Of the properties of an object. -/
@[simp] def propertyMarks : List Property → List Mark
  | [] => []
  | ⟨_, _, value, _⟩ :: rest => value.marks ++ propertyMarks rest

/-- Of a function: its scope, its names, and the body. -/
@[simp] def Function.marks : Function → List Mark
  | ⟨_, name, params, body, scope, _⟩ =>
    scopeMarks scope ++ (name.toList ++ params).map .name ++ body.marks

/-- Of a block. -/
@[simp] def Block.marks : Block → List Mark
  | ⟨statements, _⟩ => statementMarks statements

/-- Of a list of statements. -/
@[simp] def statementMarks : List Statement → List Mark
  | [] => []
  | s :: rest => s.marks ++ statementMarks rest

/-- Of a declaration. -/
@[simp] def VarDecl.marks : VarDecl → List Mark
  | ⟨name, init, _⟩ => .name name :: optionalMarks init

/-- Of the declarations of a `var` statement. -/
@[simp] def declMarks : List VarDecl → List Mark
  | [] => []
  | d :: rest => d.marks ++ declMarks rest

/-- Of what a `for` loop starts with. -/
@[simp] def ForInit.marks : ForInit → List Mark
  | .nothing => []
  | .var ⟨decls, _⟩ => declMarks decls
  | .expr e => e.marks

/-- Of what a `for`-`in` loop assigns to. -/
@[simp] def ForTarget.marks : ForTarget → List Mark
  | .var d => d.marks
  | .expr e => e.marks

/-- Of an expression that may be missing. -/
@[simp] def optionalMarks : Option Expr → List Mark
  | none => []
  | some e => e.marks

/-- Of a clause of a `switch`. -/
@[simp] def SwitchCase.marks : SwitchCase → List Mark
  | ⟨test, body, _⟩ => optionalMarks test ++ statementMarks body

/-- Of all its clauses. -/
@[simp] def caseMarks : List SwitchCase → List Mark
  | [] => []
  | clause :: rest => clause.marks ++ caseMarks rest

/-- Of a `catch` clause: its scope, its name, and the block. -/
@[simp] def handlerMarks : Option CatchClause → List Mark
  | none => []
  | some ⟨param, body, scope, _⟩ => scopeMarks scope ++ .name param :: body.marks

/-- Of a `finally` block. -/
@[simp] def finalizerMarks : Option Block → List Mark
  | none => []
  | some b => b.marks

/-- Of an `else` branch. -/
@[simp] def elseMarks : Option Statement → List Mark
  | none => []
  | some s => s.marks

/-- Of a statement. The scope of a `with` statement comes first, as among the nodes. -/
@[simp] def Statement.marks : Statement → List Mark
  | .block b => b.marks
  | .var ⟨decls, _⟩ => declMarks decls
  | .function fn => fn.marks
  | .expr e => e.marks
  | .ifElse test yes no _ => test.marks ++ yes.marks ++ elseMarks no
  | .forLoop init test update body _ =>
    init.marks ++ optionalMarks test ++ optionalMarks update ++ body.marks
  | .forIn target object body _ => target.marks ++ object.marks ++ body.marks
  | .whileLoop test body _ => test.marks ++ body.marks
  | .doWhile body test _ => body.marks ++ test.marks
  | .switch subject cases _ => subject.marks ++ caseMarks cases
  | .tryCatch block handler finalizer _ =>
    block.marks ++ handlerMarks handler ++ finalizerMarks finalizer
  | .labeled _ body _ => body.marks
  | .returnWith value _ => optionalMarks value
  | .throw value _ => value.marks
  | .withObject object body scope _ => scopeMarks scope ++ (object.marks ++ body.marks)
  | .breakTo _ _ | .continueTo _ _ | .debugger _ | .empty _ | .comment _ _ _ => []

end

@[simp] theorem Statement.marks_var (vars : VarStatement) :
    (Statement.var vars).marks = declMarks vars.decls := by
  cases vars
  rfl

@[simp] theorem statementMarks_append (a b : List Statement) :
    statementMarks (a ++ b) = statementMarks a ++ statementMarks b := by
  induction a with
  | nil => rfl
  | cons s a ih => simp [ih]

@[simp] theorem declMarks_append (a b : List VarDecl) :
    declMarks (a ++ b) = declMarks a ++ declMarks b := by
  induction a with
  | nil => rfl
  | cons d a ih => simp [ih]

/-! ## Marks of nodes -/

/-- A node comes before those after it. -/
theorem marksOf_cons (n : Node) (nodes : List Node) :
    marksOf (n :: nodes) = n.mark?.toList ++ marksOf nodes := by
  unfold marksOf
  cases h : n.mark? <;> simp [h]

/-- Names have the marks of names. -/
theorem marksOf_map_ident (ids : List Ident) : marksOf (ids.map .ident) = ids.map Mark.name := by
  induction ids with
  | nil => rfl
  | cons id ids ih => rw [List.map_cons, marksOf_cons, ih]; rfl

section Nodes

attribute [local simp] marksOf_cons marksOf_map_ident Node.mark? scopeMarks Expr.nodes Form.nodes itemNodes
  argNodes propertyNodes Function.nodes Block.nodes statementNodes VarDecl.nodes declNodes ForInit.nodes
  ForTarget.nodes optionalNodes caseNodes handlerNodes Statement.nodes

@[local simp] theorem marksOf_append (a b : List Node) : marksOf (a ++ b) = marksOf a ++ marksOf b :=
  List.filterMap_append

@[local simp] theorem marksOf_nil : marksOf [] = [] := rfl

mutual

/-- The marks of an expression are those of its nodes. The induction is on the tree. -/
theorem Expr.marks_eq : ∀ e : Expr, marksOf e.nodes = e.marks
  | ⟨form, span⟩ => form.marks_eq span

/-- The parts of a form, with the expression that it is. -/
theorem Form.marks_eq (span : Span) : ∀ form : Form, marksOf (Expr.nodes ⟨form, span⟩) = form.marks
  | .array items => by simp [itemMarks_eq items]
  | .object properties => by simp [propertyMarks_eq properties]
  | .function fn => by simp [fn.marks_eq]
  | .member object _ => by simp [object.marks_eq]
  | .index object key => by simp [object.marks_eq, key.marks_eq]
  | .call callee args => by simp [callee.marks_eq, argMarks_eq args]
  | .new callee none => by simp [callee.marks_eq]
  | .new callee (some args) => by simp [callee.marks_eq, argMarks_eq args]
  | .unary _ operand => by simp [operand.marks_eq]
  | .update _ _ operand => by simp [operand.marks_eq]
  | .binary _ left right => by simp [left.marks_eq, right.marks_eq]
  | .conditional test yes no => by simp [test.marks_eq, yes.marks_eq, no.marks_eq]
  | .ident _ | .number _ | .string _ | .regex _ _ | .boolean _ | .null | .this => rfl

/-- The items of an array. -/
theorem itemMarks_eq : ∀ items : List (Option Expr), marksOf (itemNodes items) = itemMarks items
  | [] => rfl
  | none :: rest => itemMarks_eq rest
  | some e :: rest => by simp [e.marks_eq, itemMarks_eq rest]

/-- The arguments of a call. -/
theorem argMarks_eq : ∀ args : List Expr, marksOf (argNodes args) = argMarks args
  | [] => rfl
  | e :: rest => by simp [e.marks_eq, argMarks_eq rest]

/-- The properties of an object. -/
theorem propertyMarks_eq : ∀ properties : List Property,
    marksOf (propertyNodes properties) = propertyMarks properties
  | [] => rfl
  | ⟨_, _, value, _⟩ :: rest => by simp [value.marks_eq, propertyMarks_eq rest]

/-- A function. -/
theorem Function.marks_eq : ∀ fn : Function, marksOf fn.nodes = fn.marks
  | ⟨_, _, _, body, _, _⟩ => by simp [body.marks_eq]

/-- A block. -/
theorem Block.marks_eq : ∀ b : Block, marksOf b.nodes = b.marks
  | ⟨statements, _⟩ => by simp [statementMarks_eq statements]

/-- A list of statements. -/
theorem statementMarks_eq : ∀ statements : List Statement,
    marksOf (statementNodes statements) = statementMarks statements
  | [] => rfl
  | s :: rest => by simp [s.marks_eq, statementMarks_eq rest]

/-- A declaration. -/
theorem VarDecl.marks_eq : ∀ d : VarDecl, marksOf d.nodes = d.marks
  | ⟨_, none, _⟩ => rfl
  | ⟨_, some init, _⟩ => by simp [init.marks_eq]

/-- Several declarations. -/
theorem declMarks_eq : ∀ decls : List VarDecl, marksOf (declNodes decls) = declMarks decls
  | [] => rfl
  | d :: rest => by simp [d.marks_eq, declMarks_eq rest]

/-- What a `for` loop starts with. -/
theorem ForInit.marks_eq : ∀ init : ForInit, marksOf init.nodes = init.marks
  | .nothing => rfl
  | .var ⟨decls, _⟩ => by simp [declMarks_eq decls]
  | .expr e => by simp [e.marks_eq]

/-- What a `for`-`in` loop assigns to. -/
theorem ForTarget.marks_eq : ∀ target : ForTarget, marksOf target.nodes = target.marks
  | .var d => by simp [d.marks_eq]
  | .expr e => by simp [e.marks_eq]

/-- An expression that may be missing. -/
theorem optionalMarks_eq : ∀ e : Option Expr, marksOf (optionalNodes e) = optionalMarks e
  | none => rfl
  | some e => by simp [e.marks_eq]

/-- The clauses of a `switch`. -/
theorem caseMarks_eq : ∀ cases : List SwitchCase, marksOf (caseNodes cases) = caseMarks cases
  | [] => rfl
  | ⟨test, body, _⟩ :: rest => by
    simp [optionalMarks_eq test, statementMarks_eq body, caseMarks_eq rest]

/-- A `catch` clause. -/
theorem handlerMarks_eq : ∀ handler : Option CatchClause,
    marksOf (handlerNodes handler) = handlerMarks handler
  | none => rfl
  | some ⟨_, body, _, _⟩ => by simp [body.marks_eq]

/-- A statement. -/
theorem Statement.marks_eq : ∀ s : Statement, marksOf s.nodes = s.marks
  | .block b => by simp [b.marks_eq]
  | .var ⟨decls, _⟩ => by simp [declMarks_eq decls]
  | .function fn => by simp [fn.marks_eq]
  | .expr e => by simp [e.marks_eq]
  | .ifElse test yes none _ => by simp [test.marks_eq, yes.marks_eq]
  | .ifElse test yes (some no) _ => by simp [test.marks_eq, yes.marks_eq, no.marks_eq]
  | .forLoop init test update body _ => by
    simp [init.marks_eq, optionalMarks_eq test, optionalMarks_eq update, body.marks_eq]
  | .forIn target object body _ => by simp [target.marks_eq, object.marks_eq, body.marks_eq]
  | .whileLoop test body _ => by simp [test.marks_eq, body.marks_eq]
  | .doWhile body test _ => by simp [test.marks_eq, body.marks_eq]
  | .switch subject cases _ => by simp [subject.marks_eq, caseMarks_eq cases]
  | .tryCatch block handler none _ => by simp [block.marks_eq, handlerMarks_eq handler]
  | .tryCatch block handler (some finalizer) _ => by
    simp [block.marks_eq, handlerMarks_eq handler, finalizer.marks_eq]
  | .labeled _ body _ => by simp [body.marks_eq]
  | .returnWith value _ => by simp [optionalMarks_eq value]
  | .throw value _ => by simp [value.marks_eq]
  | .withObject object body _ _ => by simp [object.marks_eq, body.marks_eq]
  | .breakTo .. | .continueTo .. | .debugger _ | .empty _ | .comment .. => rfl

end

end Nodes

/-! ## Whole programs -/

/-- The marks of a program are those of its body. -/
theorem Program.marks_eq (p : Program) : p.marks = p.body.marks := p.body.marks_eq

/-- A name is in use if it has that mark. -/
theorem mem_uses_iff (p : Program) (id : Ident) : id ∈ p.uses ↔ Mark.use id ∈ p.marks := by
  simp only [Program.uses, Program.marks, marksOf, List.mem_filterMap]
  refine exists_congr fun n => and_congr_right fun _ => ?_
  rcases n with _ | s | ⟨form, span⟩ | _ | _ | _ | _ | _ | _
  case statement => cases s <;> simp [Node.use?, Node.mark?]
  case expr => cases form <;> simp [Node.use?, Node.mark?]
  all_goals simp [Node.use?, Node.mark?]

end Minifier
