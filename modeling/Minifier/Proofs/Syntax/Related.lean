import Mathlib.Algebra.Order.Group.Multiset
import Minifier.Proofs.Syntax.Census

/-!
# Two censuses of one tree

What two censuses find in a tree is related if all that they add up is (`Census.Relates`). This is what
tracking says of the walk that does nothing, which leaves every tree as it is (`Program.walk_still`).
So there is no second induction over trees: each field of `Census.Relates` is one of tracking.

The marks of a tree are one census of it (`Program.coe_marks`), so what holds of all marks can be
had for any other census.
-/

set_option autoImplicit false

namespace Minifier

open Multiset

variable (p : Program)

/-! ## The walk that does nothing -/

/-- A walk that changes nothing. -/
abbrev Walk.still : Walk Unit := {}

mutual

/-- An expression is given back as it is, whatever stands around it. -/
theorem Expr.walk_still (around : Option Form) : ∀ e : Expr, e.walk Walk.still around = pure e
  | ⟨form, _⟩ => by simp [Expr.walk, form.walk_still]

/-- A form, whose parts are. -/
theorem Form.walk_still : ∀ form : Form, form.walk Walk.still = pure form
  | .array items => by simp [Form.walk, walkItems_still _ items]
  | .object properties => by
    simp [Form.walk, walkProperties_still _ properties]
  | .function fn => by simp [Form.walk, fn.walk_still]
  | .member object _ => by simp [Form.walk, object.walk_still _]
  | .index object key => by
    simp [Form.walk, object.walk_still _, key.walk_still _]
  | .call callee args => by
    by_cases isName : ∃ id span, callee = ⟨.ident id, span⟩
    · obtain ⟨id, span, rfl⟩ := isName
      simp [Form.walk, walkArgs_still _ args]
    · rw [Form.walk_call Walk.still callee args (by simpa using isName)]
      simp [callee.walk_still _, walkArgs_still _ args]
  | .new callee none => by simp [Form.walk, callee.walk_still _]
  | .new callee (some args) => by
    simp [Form.walk, callee.walk_still _, walkArgs_still _ args]
  | .unary _ operand => by simp [Form.walk, operand.walk_still _]
  | .update _ _ operand => by simp [Form.walk, operand.walk_still _]
  | .binary _ left right => by
    simp [Form.walk, left.walk_still _, right.walk_still _]
  | .conditional test yes no => by
    simp [Form.walk, test.walk_still _, yes.walk_still _, no.walk_still _]
  | .ident _ | .number _ | .string _ | .regex _ _ | .boolean _ | .null | .this => rfl

/-- The items of an array. -/
theorem walkItems_still (around : Form) : ∀ items : List (Option Expr),
    walkItems Walk.still around items = pure items
  | [] => rfl
  | none :: rest => by simp [walkItems, walkItems_still around rest]
  | some e :: rest => by
    simp [walkItems, e.walk_still _, walkItems_still around rest]

/-- The arguments of a call. -/
theorem walkArgs_still (around : Form) : ∀ args : List Expr,
    walkArgs Walk.still around args = pure args
  | [] => rfl
  | e :: rest => by
    simp [walkArgs, e.walk_still _, walkArgs_still around rest]

/-- The properties of an object. -/
theorem walkProperties_still (around : Form) : ∀ properties : List Property,
    walkProperties Walk.still around properties = pure properties
  | [] => rfl
  | ⟨_, _, value, _⟩ :: rest => by
    simp [walkProperties, value.walk_still _, walkProperties_still around rest]

/-- A function. -/
theorem Function.walk_still : ∀ fn : Function, fn.walk Walk.still = pure fn
  | ⟨_, _, _, body, _, _⟩ => by simp [Function.walk, body.walk_still]

/-- A block. -/
theorem Block.walk_still : ∀ b : Block, b.walk Walk.still = pure b
  | ⟨statements, _⟩ => by simp [Block.walk, walkStatements_still statements]

/-- A list of statements. -/
theorem walkStatements_still : ∀ statements : List Statement,
    walkStatements Walk.still statements = pure statements
  | [] => rfl
  | st :: rest => by simp [walkStatements, st.walk_still, walkStatements_still rest]

/-- A declaration, with or without a value. -/
theorem VarDecl.walk_still : ∀ d : VarDecl, d.walk Walk.still = pure d
  | ⟨_, none, _⟩ => rfl
  | ⟨_, some init, _⟩ => by simp [VarDecl.walk, init.walk_still _]

/-- The declarations of a `var` statement. -/
theorem walkDecls_still : ∀ decls : List VarDecl, walkDecls Walk.still decls = pure decls
  | [] => rfl
  | d :: rest => by simp [walkDecls, d.walk_still, walkDecls_still rest]

/-- What a `for` loop starts with. -/
theorem ForInit.walk_still : ∀ init : ForInit, init.walk Walk.still = pure init
  | .nothing => rfl
  | .var ⟨decls, _⟩ => by simp [ForInit.walk, walkDecls_still decls]
  | .expr e => by simp [ForInit.walk, e.walk_still _]

/-- What a `for`-`in` loop assigns to. -/
theorem ForTarget.walk_still : ∀ target : ForTarget, target.walk Walk.still = pure target
  | .var d => by simp [ForTarget.walk, d.walk_still]
  | .expr e => by simp [ForTarget.walk, e.walk_still _]

/-- An expression that may be missing. -/
theorem walkOptional_still : ∀ e : Option Expr, walkOptional Walk.still e = pure e
  | none => rfl
  | some e => by simp [walkOptional, e.walk_still _]

/-- The clauses of a `switch`. -/
theorem walkCases_still : ∀ cases : List SwitchCase, walkCases Walk.still cases = pure cases
  | [] => rfl
  | ⟨test, body, _⟩ :: rest => by
    simp [walkCases, walkOptional_still test, walkStatements_still body, walkCases_still rest]

/-- A `catch` clause that may be missing. -/
theorem walkHandler_still : ∀ handler : Option CatchClause,
    walkHandler Walk.still handler = pure handler
  | none => rfl
  | some ⟨_, body, _, _⟩ => by simp [walkHandler, body.walk_still]

/-- A statement. -/
theorem Statement.walk_still (st : Statement) : st.walk Walk.still = pure st := by
  rw [Statement.walk]
  match st with
  | .block b => simp [b.walk_still]
  | .var ⟨decls, _⟩ => simp [walkDecls_still decls]
  | .function fn => simp [fn.walk_still]
  | .expr e => simp [e.walk_still _]
  | .ifElse test yes none _ => simp [test.walk_still _, yes.walk_still]
  | .ifElse test yes (some no) _ =>
    simp [test.walk_still _, yes.walk_still, no.walk_still]
  | .forLoop init test update body _ =>
    simp [init.walk_still, walkOptional_still test, walkOptional_still update, body.walk_still]
  | .forIn target object body _ =>
    simp [target.walk_still, object.walk_still _, body.walk_still]
  | .whileLoop test body _ => simp [test.walk_still _, body.walk_still]
  | .doWhile body test _ => simp [test.walk_still _, body.walk_still]
  | .switch subject cases _ => simp [subject.walk_still _, walkCases_still cases]
  | .tryCatch block handler none _ => simp [block.walk_still, walkHandler_still handler]
  | .tryCatch block handler (some finalizer) _ =>
    simp [block.walk_still, walkHandler_still handler, finalizer.walk_still]
  | .labeled _ body _ => simp [body.walk_still]
  | .returnWith value _ => simp [walkOptional_still value]
  | .throw value _ => simp [value.walk_still _]
  | .withObject object body _ _ => simp [object.walk_still _, body.walk_still]
  | .breakTo .. | .continueTo .. | .debugger _ | .empty _ | .comment .. => rfl

end

/-- The walk that does nothing gives a program back. -/
theorem Program.walk_still : p.walk Walk.still = pure p := by
  simp [Program.walk, p.body.walk_still]

/-! ## Related censuses -/

variable {M N : Type} [AddMonoid M] [AddMonoid N]

/-- The steps of two censuses are related. A step that is not given is. -/
structure Census.Relates (c : Census M) (d : Census N) (R : M → N → Prop) : Prop where
  zero : R 0 0
  add : ∀ {a a₁ b b₁}, R a a₁ → R b b₁ → R (a + b) (a₁ + b₁)
  line : ∀ {a b} e, R a b → R (c.line e a) (d.line e b) := by intro _ _ _ h; exact h
  inner : ∀ {a b}, R a b → R (c.inner a) (d.inner b) := by intro _ _ h; exact h
  list : ∀ {a b}, R a b → R (c.list a) (d.list b) := by intro _ _ h; exact h
  /-- Neither census has an answer for an expression, or what they find in it is related. -/
  expr : ∀ around e, c.expr? around e = none ∧ d.expr? around e = none ∨
    R (e.census c around) (e.census d around) := by intros; exact .inl ⟨rfl, rfl⟩
  quiet : ∀ around id span, Expr.census d around ⟨.ident id, span⟩ = d.use false id := by
    intros; rfl
  use : ∀ isCallee id, R (c.use isCallee id) (d.use isCallee id)
  declare : ∀ id, R (c.declare id) (d.declare id)
  function : ∀ fn : Function, R (fn.body.census c) (fn.body.census d) →
    R (c.function fn (fn.body.census c)) (d.function fn (fn.body.census d))
  handler : ∀ clause : CatchClause, R (clause.body.census c) (clause.body.census d) →
    R (c.handler clause (clause.body.census c)) (d.handler clause (clause.body.census d))
  withBody : ∀ {a b} scope, R a b → R (c.withBody scope a) (d.withBody scope b)

namespace Census.Relates

variable {c : Census M} {d : Census N} {R : M → N → Prop}

variable (h : c.Relates d R)
include h

/-- Related censuses track the walk that does nothing: before and after are the same tree. -/
theorem tracks : c.Tracks d Walk.still fun _ a b _ => R a b where
  zero _ := h.zero
  add := h.add
  line e _ _ known := by
    rw [e.walk_still] at known ⊢
    exact h.line e known
  inner := h.inner
  list := h.list
  unanswered around around' form span _ carries _ := by
    have same : around' = around := by
      cases carries with
      | top => rfl
      | within form s => rw [form.walk_still]; rfl
    rw [form.walk_still, same]
    exact ⟨rfl, h.expr around ⟨form, span⟩⟩
  quiet := h.quiet
  use isCallee id _ := h.use isCallee id
  declare id _ := h.declare id
  function fn body _ _ walks known := by
    rw [fn.body.walk_still] at walks
    cases walks
    cases fn
    exact h.function _ known
  handler clause body _ _ walks known := by
    rw [clause.body.walk_still] at walks
    cases walks
    cases clause
    exact h.handler _ known
  withBody scope _ _ _ _ _ := h.withBody scope

/-- Two censuses whose steps are related find related things in a program. -/
theorem related (p : Program) : R (p.census c) (p.census d) := by
  have whole := h.tracks.program p ()
  rwa [p.walk_still] at whole

/-- The same, for an expression on its own. -/
theorem related_expr (e : Expr) : R (e.census c none) (e.census d none) := by
  have whole := h.tracks.exprOf .top e ()
  rwa [e.walk_still] at whole

/-- The same, for a block. -/
theorem related_block (b : Block) : R (b.census c) (b.census d) := by
  have whole := h.tracks.blockOf b ()
  rwa [b.walk_still] at whole

/-- The same, for a function. -/
theorem related_function (fn : Function) : R (fn.census c) (fn.census d) := by
  have whole := h.tracks.functionOf fn ()
  rwa [fn.walk_still] at whole

/-- The same, for a statement. -/
theorem related_statement (s : Statement) : R (s.census c) (s.census d) := by
  have whole := h.tracks.statementOf s ()
  rwa [s.walk_still] at whole

end Census.Relates

/-! ## Marks -/

/-- The marks of a tree, added up. -/
def markCensus : Census (Multiset Mark) where
  use _ id := ([.use id, .name id] : List Mark)
  declare id := ([.name id] : List Mark)
  function fn body := (fn.headMarks : Multiset Mark) + body
  handler clause body := (clause.headMarks : Multiset Mark) + body
  withBody scope body := (scopeMarks scope : Multiset Mark) + body

/-- For marks, a name that is called is a name in use like any other. -/
theorem markCensus_callee (around : Option Form) (called : Expr) :
    markCensus.callee called (called.census markCensus around) = called.census markCensus around := by
  obtain ⟨form, span⟩ := called
  cases form <;> rfl

mutual

/-- The marks of an expression are a census of it, whatever stands around it. -/
theorem Expr.coe_marks (around : Option Form) : ∀ e : Expr,
    (e.marks : Multiset Mark) = e.census markCensus around
  | ⟨form, span⟩ => by
    have parts := form.coe_marks
    simpa [markCensus] using parts

/-- So are those of a form. -/
theorem Form.coe_marks : ∀ form : Form, (form.marks : Multiset Mark) = form.census markCensus
  | .ident _ => rfl
  | .array items => by simp [← coe_itemMarks _ items]
  | .object properties => by simp [← coe_propertyMarks _ properties]
  | .function fn => by simp [fn.coe_marks]
  | .member object _ => by simp [← object.coe_marks _]
  | .index object key => by simp [← coe_add, ← object.coe_marks _, ← key.coe_marks _]
  | .call callee args => by
    simp [← coe_add, callee.coe_marks (some (.call callee args)), markCensus_callee,
      ← coe_argMarks _ args]
  | .new callee none => by simp [← callee.coe_marks _]
  | .new callee (some args) => by simp [← coe_add, ← callee.coe_marks _, ← coe_argMarks _ args]
  | .unary _ operand => by simp [← operand.coe_marks _]
  | .update _ _ operand => by simp [← operand.coe_marks _]
  | .binary _ left right => by simp [← coe_add, ← left.coe_marks _, ← right.coe_marks _]
  | .conditional test yes no => by
    simp [← coe_add, ← test.coe_marks _, ← yes.coe_marks _, ← no.coe_marks _, add_assoc]
  | .number _ | .string _ | .regex _ _ | .boolean _ | .null | .this => rfl

/-- The items of an array. -/
theorem coe_itemMarks (around : Form) : ∀ items : List (Option Expr),
    (itemMarks items : Multiset Mark) = itemCensus markCensus around items
  | [] => rfl
  | none :: rest => by simp [coe_itemMarks around rest]
  | some e :: rest => by simp [← coe_add, ← e.coe_marks _, coe_itemMarks around rest]

/-- The arguments of a call. -/
theorem coe_argMarks (around : Form) : ∀ args : List Expr,
    (argMarks args : Multiset Mark) = argCensus markCensus around args
  | [] => rfl
  | e :: rest => by simp [← coe_add, ← e.coe_marks _, coe_argMarks around rest]

/-- The properties of an object. -/
theorem coe_propertyMarks (around : Form) : ∀ properties : List Property,
    (propertyMarks properties : Multiset Mark) = propertyCensus markCensus around properties
  | [] => rfl
  | ⟨_, _, value, _⟩ :: rest => by
    simp [← coe_add, ← value.coe_marks _, coe_propertyMarks around rest]

/-- A function, with the marks of its head. -/
theorem Function.coe_marks : ∀ fn : Function, (fn.marks : Multiset Mark) = fn.census markCensus
  | ⟨kind, name, params, body, scope, span⟩ => by
    have whole := Function.marks_withBody ⟨kind, name, params, body, scope, span⟩ body
    rw [whole, ← coe_add, body.coe_marks]
    rfl

/-- A block. -/
theorem Block.coe_marks : ∀ b : Block, (b.marks : Multiset Mark) = b.census markCensus
  | ⟨statements, _⟩ => by simp [coe_statementMarks statements, markCensus]

/-- A list of statements. -/
theorem coe_statementMarks : ∀ statements : List Statement,
    (statementMarks statements : Multiset Mark) = statementCensus markCensus statements
  | [] => rfl
  | s :: rest => by simp [← coe_add, s.coe_marks, coe_statementMarks rest]

/-- A declaration, with its name. -/
theorem VarDecl.coe_marks : ∀ d : VarDecl, (d.marks : Multiset Mark) = d.census markCensus
  | ⟨name, init, _⟩ => by
    have parts := coe_optionalMarks init
    simpa [markCensus, ← cons_coe, ← singleton_add] using parts

/-- The declarations of a `var` statement. -/
theorem coe_declMarks : ∀ decls : List VarDecl,
    (declMarks decls : Multiset Mark) = declCensus markCensus decls
  | [] => rfl
  | d :: rest => by simp [← coe_add, d.coe_marks, coe_declMarks rest]

/-- What a `for` loop starts with. -/
theorem ForInit.coe_marks : ∀ init : ForInit, (init.marks : Multiset Mark) = init.census markCensus
  | .nothing => rfl
  | .var ⟨decls, _⟩ => by simp [coe_declMarks decls]
  | .expr e => by simp [← e.coe_marks _]

/-- What a `for`-`in` loop assigns to. -/
theorem ForTarget.coe_marks : ∀ target : ForTarget,
    (target.marks : Multiset Mark) = target.census markCensus
  | .var d => by simp [d.coe_marks]
  | .expr e => by simp [← e.coe_marks _]

/-- An expression that may be missing. -/
theorem coe_optionalMarks : ∀ e : Option Expr,
    (optionalMarks e : Multiset Mark) = optionalCensus markCensus e
  | none => rfl
  | some e => by simp [← e.coe_marks _]

/-- The clauses of a `switch`. -/
theorem coe_caseMarks : ∀ cases : List SwitchCase,
    (caseMarks cases : Multiset Mark) = caseCensus markCensus cases
  | [] => rfl
  | ⟨test, body, _⟩ :: rest => by
    simp [← coe_add, coe_optionalMarks test, coe_statementMarks body, coe_caseMarks rest,
      markCensus, add_assoc]

/-- A `catch` clause, with the marks of its head. -/
theorem coe_handlerMarks : ∀ handler : Option CatchClause,
    (handlerMarks handler : Multiset Mark) = handlerCensus markCensus handler
  | none => rfl
  | some ⟨param, body, scope, span⟩ => by
    have whole := CatchClause.marks_withBody ⟨param, body, scope, span⟩ body
    rw [whole, ← coe_add, body.coe_marks]
    rfl

/-- A `finally` block. -/
theorem coe_finalizerMarks : ∀ finalizer : Option Block,
    (finalizerMarks finalizer : Multiset Mark) = finalizerCensus markCensus finalizer
  | none => rfl
  | some b => by simp [b.coe_marks]

/-- An `else` branch. -/
theorem coe_elseMarks : ∀ no : Option Statement,
    (elseMarks no : Multiset Mark) = elseCensus markCensus no
  | none => rfl
  | some s => by simp [s.coe_marks, markCensus]

/-- A statement. The scope of a `with` body is the only mark out of order. -/
theorem Statement.coe_marks : ∀ s : Statement, (s.marks : Multiset Mark) = s.census markCensus
  | .block b => by simp [b.coe_marks, markCensus]
  | .var ⟨decls, _⟩ => by simp [coe_declMarks decls]
  | .function fn => by simp [fn.coe_marks, markCensus]
  | .expr e => by simp [e.coe_marks none, markCensus]
  | .ifElse test yes no _ => by
    simp [← coe_add, test.coe_marks none, yes.coe_marks, coe_elseMarks no, markCensus, add_assoc]
  | .forLoop init test update body _ => by
    simp [← coe_add, init.coe_marks, coe_optionalMarks test, coe_optionalMarks update,
      body.coe_marks, markCensus, add_assoc]
  | .forIn target object body _ => by
    simp [← coe_add, target.coe_marks, object.coe_marks none, body.coe_marks, markCensus, add_assoc]
  | .whileLoop test body _ => by simp [← coe_add, test.coe_marks none, body.coe_marks, markCensus]
  | .doWhile body test _ => by simp [← coe_add, test.coe_marks none, body.coe_marks, markCensus]
  | .switch subject cases _ => by
    simp [← coe_add, subject.coe_marks none, coe_caseMarks cases, markCensus]
  | .tryCatch block handler finalizer _ => by
    simp [← coe_add, block.coe_marks, coe_handlerMarks handler, coe_finalizerMarks finalizer,
      markCensus, add_assoc]
  | .labeled _ body _ => by simp [body.coe_marks, markCensus]
  | .returnWith value _ => by simp [coe_optionalMarks value, markCensus]
  | .throw value _ => by simp [value.coe_marks none, markCensus]
  | .withObject object body scope _ => by
    simp [← coe_add, object.coe_marks none, body.coe_marks, markCensus]
    ac_rfl
  | .breakTo .. | .continueTo .. | .debugger _ | .empty _ | .comment .. => rfl

end

/-- The marks of a program are a census of it. -/
theorem Program.coe_marks : (p.marks : Multiset Mark) = p.census markCensus := by
  rw [p.marks_eq]
  exact p.body.coe_marks

end Minifier
