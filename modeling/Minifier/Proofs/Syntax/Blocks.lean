import Minifier.Proofs.Syntax.Related

/-!
# Changing the statement lists of blocks

`Program.mapBlocks` makes one change to the statement list of every block, from the inside outwards:
to the program itself, the bodies of functions, and whatever stands between braces. The clauses of a
`switch` and bodies without braces are no blocks.

A walk whose steps give their argument back, and change the list of a block in one way only, is such a
change (`Walk.Leaves.program`). What its steps do to the state is free, as long as it adds up.
-/

set_option autoImplicit false

namespace Minifier

/-! ## The change -/

section Change

variable (f : List Statement → List Statement)

mutual

/-- In an expression. -/
@[simp] def Expr.mapBlocks : Expr → Expr
  | ⟨form, span⟩ => ⟨form.mapBlocks, span⟩

/-- In the parts of a form. -/
@[simp] def Form.mapBlocks : Form → Form
  | .array items => .array (mapItemBlocks items)
  | .object properties => .object (mapPropertyBlocks properties)
  | .function fn => .function fn.mapBlocks
  | .member object name => .member object.mapBlocks name
  | .index object key => .index object.mapBlocks key.mapBlocks
  | .call callee args => .call callee.mapBlocks (mapArgBlocks args)
  | .new callee none => .new callee.mapBlocks none
  | .new callee (some args) => .new callee.mapBlocks (some (mapArgBlocks args))
  | .unary op operand => .unary op operand.mapBlocks
  | .update op before operand => .update op before operand.mapBlocks
  | .binary op left right => .binary op left.mapBlocks right.mapBlocks
  | .conditional test yes no => .conditional test.mapBlocks yes.mapBlocks no.mapBlocks
  | .number value => .number value
  | .string value => .string value
  | .regex pattern flags => .regex pattern flags
  | .boolean value => .boolean value
  | .null => .null
  | .this => .this
  | .ident id => .ident id

/-- In the items of an array. -/
@[simp] def mapItemBlocks : List (Option Expr) → List (Option Expr)
  | [] => []
  | none :: rest => none :: mapItemBlocks rest
  | some e :: rest => some e.mapBlocks :: mapItemBlocks rest

/-- In the arguments of a call. -/
@[simp] def mapArgBlocks : List Expr → List Expr
  | [] => []
  | e :: rest => e.mapBlocks :: mapArgBlocks rest

/-- In the properties of an object. -/
@[simp] def mapPropertyBlocks : List Property → List Property
  | [] => []
  | ⟨key, kind, value, span⟩ :: rest => ⟨key, kind, value.mapBlocks, span⟩ :: mapPropertyBlocks rest

/-- In a function. -/
@[simp] def Function.mapBlocks : Function → Function
  | ⟨kind, name, params, body, scope, span⟩ => ⟨kind, name, params, body.mapBlocks, scope, span⟩

/-- In a block. This is where the change is made. -/
@[simp] def Block.mapBlocks : Block → Block
  | ⟨statements, span⟩ => ⟨f (mapStatementBlocks statements), span⟩

/-- In a list of statements. -/
@[simp] def mapStatementBlocks : List Statement → List Statement
  | [] => []
  | s :: rest => s.mapBlocks :: mapStatementBlocks rest

/-- In a declaration. -/
@[simp] def VarDecl.mapBlocks : VarDecl → VarDecl
  | ⟨name, init, span⟩ => ⟨name, mapOptionalBlocks init, span⟩

/-- In several declarations. -/
@[simp] def mapDeclBlocks : List VarDecl → List VarDecl
  | [] => []
  | d :: rest => d.mapBlocks :: mapDeclBlocks rest

/-- In what a `for` loop starts with. -/
@[simp] def ForInit.mapBlocks : ForInit → ForInit
  | .nothing => .nothing
  | .var ⟨decls, span⟩ => .var ⟨mapDeclBlocks decls, span⟩
  | .expr e => .expr e.mapBlocks

/-- In what a `for`-`in` loop assigns to. -/
@[simp] def ForTarget.mapBlocks : ForTarget → ForTarget
  | .var decl => .var decl.mapBlocks
  | .expr e => .expr e.mapBlocks

/-- In an expression that may be missing. -/
@[simp] def mapOptionalBlocks : Option Expr → Option Expr
  | none => none
  | some e => some e.mapBlocks

/-- In the clauses of a `switch`. -/
@[simp] def mapCaseBlocks : List SwitchCase → List SwitchCase
  | [] => []
  | ⟨test, body, span⟩ :: rest =>
    ⟨mapOptionalBlocks test, mapStatementBlocks body, span⟩ :: mapCaseBlocks rest

/-- In a `catch` clause. -/
@[simp] def mapHandlerBlocks : Option CatchClause → Option CatchClause
  | none => none
  | some ⟨param, body, scope, span⟩ => some ⟨param, body.mapBlocks, scope, span⟩

/-- In a statement. -/
@[simp] def Statement.mapBlocks : Statement → Statement
  | .block b => .block b.mapBlocks
  | .var ⟨decls, span⟩ => .var ⟨mapDeclBlocks decls, span⟩
  | .function fn => .function fn.mapBlocks
  | .expr e => .expr e.mapBlocks
  | .ifElse test yes none span => .ifElse test.mapBlocks yes.mapBlocks none span
  | .ifElse test yes (some no) span => .ifElse test.mapBlocks yes.mapBlocks (some no.mapBlocks) span
  | .forLoop init test update body span =>
    .forLoop init.mapBlocks (mapOptionalBlocks test) (mapOptionalBlocks update) body.mapBlocks span
  | .forIn target object body span =>
    .forIn target.mapBlocks object.mapBlocks body.mapBlocks span
  | .whileLoop test body span => .whileLoop test.mapBlocks body.mapBlocks span
  | .doWhile body test span => .doWhile body.mapBlocks test.mapBlocks span
  | .switch subject cases span => .switch subject.mapBlocks (mapCaseBlocks cases) span
  | .tryCatch block handler none span =>
    .tryCatch block.mapBlocks (mapHandlerBlocks handler) none span
  | .tryCatch block handler (some finalizer) span =>
    .tryCatch block.mapBlocks (mapHandlerBlocks handler) (some finalizer.mapBlocks) span
  | .labeled label body span => .labeled label body.mapBlocks span
  | .breakTo label span => .breakTo label span
  | .continueTo label span => .continueTo label span
  | .returnWith value span => .returnWith (mapOptionalBlocks value) span
  | .throw value span => .throw value.mapBlocks span
  | .withObject object body scope span => .withObject object.mapBlocks body.mapBlocks scope span
  | .debugger span => .debugger span
  | .empty span => .empty span
  | .comment kind text span => .comment kind text span

end

/-- A program with one change to the statement lists of all its blocks. -/
def Program.mapBlocks (p : Program) : Program := { p with body := p.body.mapBlocks f }

end Change

/-! ## Walks that leave the rest alone -/

variable {σ τ α β : Type}

/-- A step that comes to a value, and keeps what is looked at of the state. -/
def Walk.Comes (kept : σ → τ) (a : α) (step : StateM σ α) : Prop :=
  ∀ s, (step s).1 = a ∧ kept (step s).2 = kept s

/-- A walk whose steps give their argument back, but for a change to the lists of blocks. A step that
is not given does. -/
structure Walk.Leaves (w : Walk σ) (f : List Statement → List Statement) (kept : σ → τ) : Prop where
  expr? : ∀ around e, Comes kept none (w.expr? around e) := by exact fun _ _ _ => ⟨rfl, rfl⟩
  use : ∀ isCallee id, Comes kept id (w.use isCallee id) := by exact fun _ _ _ => ⟨rfl, rfl⟩
  declare : ∀ id, Comes kept id (w.declare id) := by exact fun _ _ => ⟨rfl, rfl⟩
  enterFunction : ∀ fn, Comes kept fn (w.enterFunction fn) := by exact fun _ _ => ⟨rfl, rfl⟩
  leaveFunction : ∀ fn, Comes kept fn (w.leaveFunction fn) := by exact fun _ _ => ⟨rfl, rfl⟩
  enterCatch : ∀ clause, Comes kept clause (w.enterCatch clause) := by exact fun _ _ => ⟨rfl, rfl⟩
  leaveCatch : Comes kept () w.leaveCatch := by exact fun _ => ⟨rfl, rfl⟩
  enterWith : ∀ scope span, Comes kept scope (w.enterWith scope span) := by
    exact fun _ _ _ => ⟨rfl, rfl⟩
  leaveWith : Comes kept () w.leaveWith := by exact fun _ => ⟨rfl, rfl⟩
  skips : ∀ s, w.skips s = false := by exact fun _ => rfl
  statement : ∀ s, Comes kept s (w.statement s) := by exact fun _ _ => ⟨rfl, rfl⟩
  block : ∀ statements, Comes kept (f statements) (w.block statements) := by
    exact fun _ _ => ⟨rfl, rfl⟩
  switchCase : ∀ c, Comes kept c (w.switchCase c) := by exact fun _ _ => ⟨rfl, rfl⟩

namespace Walk

variable {w : Walk σ} {f : List Statement → List Statement} {kept : σ → τ}

/-- A step that does nothing. -/
theorem Comes.pure (a : α) : Comes kept a (Pure.pure a) := fun _ => ⟨rfl, rfl⟩

/-- Steps one after the other, the second with the value that the first comes to. -/
theorem Comes.bind {a : α} {b : β} {step : StateM σ α} {next : α → StateM σ β}
    (first : Comes kept a step) (second : Comes kept b (next a)) : Comes kept b (step >>= next) := by
  intro s
  obtain ⟨isA, same⟩ := first s
  obtain ⟨isB, same'⟩ := second (step s).2
  rw [← isA] at isB same'
  exact ⟨isB, same'.trans same⟩

/-- What is made of the value of a step. -/
theorem Comes.map {a : α} {step : StateM σ α} {g : α → β} (first : Comes kept a step) :
    Comes kept (g a) (step >>= fun a => Pure.pure (g a)) :=
  first.bind (.pure _)

namespace Leaves

variable (h : w.Leaves f kept)
include h

/-- The last of the parts of a statement, and the statement itself. -/
theorem ends {a : α} {step : StateM σ α} {g : α → Statement}
    (last : Comes kept a step) : Comes kept (g a) (step >>= fun a => pure (g a) >>= w.statement) :=
  last.bind (h.statement (g a))

set_option linter.unusedSectionVars false in
mutual

/-- The induction is on the tree, with the steps of the walk where they are taken. -/
theorem exprOf (around : Option Form) : ∀ e : Expr, Comes kept (e.mapBlocks f) (e.walk w around)
  | ⟨form, span⟩ => (h.expr? around ⟨form, span⟩).bind (formOf form).map

/-- A form. -/
theorem formOf : ∀ form : Form, Comes kept (form.mapBlocks f) (form.walk w)
  | .ident id => (h.use false id).map
  | .array items => (itemsOf _ items).map
  | .object properties => (propertiesOf _ properties).map
  | .function fn => (functionOf fn).map
  | .member object _ => (exprOf _ object).map
  | .index object key => (exprOf _ object).bind (exprOf _ key).map
  | .call callee args => by
    by_cases isName : ∃ id span, callee = ⟨.ident id, span⟩
    · obtain ⟨id, span, rfl⟩ := isName
      exact (h.use true id).bind (argsOf _ args).map
    · rw [Form.walk_call w callee args (by simpa using isName)]
      exact (exprOf _ callee).bind (argsOf _ args).map
  | .new callee none => (exprOf _ callee).map
  | .new callee (some args) => (exprOf _ callee).bind (argsOf _ args).map
  | .unary _ operand => (exprOf _ operand).map
  | .update _ _ operand => (exprOf _ operand).map
  | .binary _ left right => (exprOf _ left).bind (exprOf _ right).map
  | .conditional test yes no =>
    (exprOf _ test).bind ((exprOf _ yes).bind (exprOf _ no).map)
  | .number _ | .string _ | .regex _ _ | .boolean _ | .null | .this => .pure _

/-- The items of an array. -/
theorem itemsOf (around : Form) :
    ∀ items : List (Option Expr), Comes kept (mapItemBlocks f items) (walkItems w around items)
  | [] => .pure _
  | none :: rest => (itemsOf around rest).map
  | some e :: rest => (exprOf _ e).bind (itemsOf around rest).map

/-- The arguments of a call. -/
theorem argsOf (around : Form) :
    ∀ args : List Expr, Comes kept (mapArgBlocks f args) (walkArgs w around args)
  | [] => .pure _
  | e :: rest => (exprOf _ e).bind (argsOf around rest).map

/-- The properties of an object. -/
theorem propertiesOf (around : Form) : ∀ properties : List Property,
    Comes kept (mapPropertyBlocks f properties) (walkProperties w around properties)
  | [] => .pure _
  | ⟨_, _, value, _⟩ :: rest => (exprOf _ value).bind (propertiesOf around rest).map

/-- A function. -/
theorem functionOf : ∀ fn : Function, Comes kept (fn.mapBlocks f) (fn.walk w)
  | ⟨_, _, _, body, _, _⟩ =>
    (h.enterFunction _).bind ((blockOf body).bind (h.leaveFunction _))

/-- A block: its list is changed after all that is in it. -/
theorem blockOf : ∀ b : Block, Comes kept (b.mapBlocks f) (b.walk w)
  | ⟨statements, _⟩ => (statementsOf statements).bind (h.block _).map

/-- A list of statements. -/
theorem statementsOf : ∀ statements : List Statement,
    Comes kept (mapStatementBlocks f statements) (walkStatements w statements)
  | [] => .pure _
  | s :: rest => (statementOf s).bind (statementsOf rest).map

/-- A declaration. -/
theorem declOf : ∀ d : VarDecl, Comes kept (d.mapBlocks f) (d.walk w)
  | ⟨name, none, _⟩ => (h.declare name).map
  | ⟨name, some init, _⟩ => (h.declare name).bind (exprOf _ init).map

/-- Several declarations. -/
theorem declsOf : ∀ decls : List VarDecl, Comes kept (mapDeclBlocks f decls) (walkDecls w decls)
  | [] => .pure _
  | d :: rest => (declOf d).bind (declsOf rest).map

/-- What a `for` loop starts with. -/
theorem forInitOf : ∀ init : ForInit, Comes kept (init.mapBlocks f) (init.walk w)
  | .nothing => .pure _
  | .var ⟨decls, _⟩ => (declsOf decls).map
  | .expr e => (exprOf _ e).map

/-- What a `for`-`in` loop assigns to. -/
theorem forTargetOf : ∀ target : ForTarget, Comes kept (target.mapBlocks f) (target.walk w)
  | .var d => (declOf d).map
  | .expr e => (exprOf _ e).map

/-- An expression that may be missing. -/
theorem optionalOf : ∀ e : Option Expr, Comes kept (mapOptionalBlocks f e) (walkOptional w e)
  | none => .pure _
  | some e => (exprOf _ e).map

/-- The clauses of a `switch`. -/
theorem casesOf : ∀ cases : List SwitchCase, Comes kept (mapCaseBlocks f cases) (walkCases w cases)
  | [] => .pure _
  | ⟨test, body, _⟩ :: rest =>
    (optionalOf test).bind ((statementsOf body).bind ((h.switchCase _).bind (casesOf rest).map))

/-- A `catch` clause. -/
theorem handlerOf :
    ∀ handler : Option CatchClause, Comes kept (mapHandlerBlocks f handler) (walkHandler w handler)
  | none => .pure _
  | some ⟨_, body, _, _⟩ =>
    (h.enterCatch _).bind ((blockOf body).bind h.leaveCatch.map)

/-- A statement. -/
theorem statementOf (s : Statement) : Comes kept (s.mapBlocks f) (s.walk w) := by
  rw [Statement.walk, h.skips, if_neg Bool.false_ne_true]
  match s with
  | .block b => exact h.ends (blockOf b)
  | .var ⟨decls, _⟩ => exact h.ends (declsOf decls)
  | .function fn => exact h.ends (functionOf fn)
  | .expr e => exact h.ends (exprOf _ e)
  | .ifElse test yes none _ => exact (exprOf _ test).bind (h.ends (statementOf yes))
  | .ifElse test yes (some no) _ =>
    exact (exprOf _ test).bind ((statementOf yes).bind (h.ends (statementOf no)))
  | .forLoop init test update body _ =>
    exact (forInitOf init).bind ((optionalOf test).bind ((optionalOf update).bind
      (h.ends (statementOf body))))
  | .forIn target object body _ =>
    exact (forTargetOf target).bind ((exprOf _ object).bind (h.ends (statementOf body)))
  | .whileLoop test body _ => exact (exprOf _ test).bind (h.ends (statementOf body))
  | .doWhile body test _ => exact (statementOf body).bind (h.ends (exprOf _ test))
  | .switch subject cases _ => exact (exprOf _ subject).bind (h.ends (casesOf cases))
  | .tryCatch block clause none _ => exact (blockOf block).bind (h.ends (handlerOf clause))
  | .tryCatch block clause (some finalizer) _ =>
    exact (blockOf block).bind ((handlerOf clause).bind (h.ends (blockOf finalizer)))
  | .labeled _ body _ => exact h.ends (statementOf body)
  | .returnWith value _ => exact h.ends (optionalOf value)
  | .throw value _ => exact h.ends (exprOf _ value)
  | .withObject object body scope span =>
    exact (exprOf _ object).bind ((h.enterWith scope span).bind
      ((statementOf body).bind (h.ends h.leaveWith)))
  | .breakTo .. | .continueTo .. | .debugger _ | .empty _ | .comment .. => exact h.statement _

end

/-- Such a walk makes the change to a program, and nothing else. -/
theorem program (p : Program) : Comes kept (p.mapBlocks f) (p.walk w) :=
  (h.blockOf p.body).map

end Leaves

end Walk

/-- Without a change the program stays as it is. -/
theorem Program.mapBlocks_id (p : Program) : p.mapBlocks id = p := by
  have still : Walk.still.Leaves id fun _ => () := {}
  have walked := (still.program p ()).1
  rw [p.walk_still] at walked
  exact walked.symm

end Minifier
