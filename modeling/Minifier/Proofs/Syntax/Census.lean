import Mathlib.Algebra.Group.Defs
import Minifier.Proofs.Syntax.Walk
import Minifier.Syntax.Expr

/-!
# Censuses

A census adds up what is in a tree: names in use, names that are declared, and the functions, `catch`
clauses and `with` bodies around them. What is added up is free to choose, as long as there is a sum:
a list of places, a count for one variable, or a function of where the tree stands. A census may have
an answer of its own for an expression, given the one around it.

A walk changes both a tree and its state. `Census.Tracks` says of a relation between the state and
the census before and those after that every step of a walk fits into it, and `Tracks.program` that
the whole walk then does. The census before and the one after need not count the same. Unlike the
marks of a tree, a census knows where things stand.
-/

set_option autoImplicit false

namespace Minifier

/-- How to count the parts of a tree. -/
structure Census (M : Type) where
  /-- An answer for an expression as a whole, with the one around it. -/
  expr? : Option Form → Expr → Option M := fun _ _ => none
  /-- A name in use; the flag says that it is what a call calls. -/
  use : Bool → Ident → M
  /-- The name of a `var` declaration. -/
  declare : Ident → M
  /-- A function, given what is in its body. -/
  function : Function → M → M
  /-- A `catch` clause, given what is in its block. -/
  handler : CatchClause → M → M
  /-- The body of a `with` statement, given what is in it. -/
  withBody : Option ScopeId → M → M
  /-- An expression that is a statement. -/
  line : Expr → M → M := fun _ m => m
  /-- A statement that is neither an expression nor a `var` statement, and each statement in one. -/
  inner : M → M := id
  /-- The statements of a block. -/
  list : M → M := id

/-- What a call calls, given what that comes to as an expression. A name that is called is no
expression of its own. -/
def Census.callee {M : Type} (c : Census M) (called : Expr) (m : M) : M :=
  (called.ident?.map (c.use true)).getD m

/-- Anything else that is called is an expression. -/
theorem Census.callee_of_ne {M : Type} (c : Census M) {called : Expr}
    (other : ∀ id span, called ≠ ⟨.ident id, span⟩) (m : M) : c.callee called m = m := by
  obtain ⟨form, span⟩ := called
  cases form with
  | ident id => exact absurd rfl (other id span)
  | _ => rfl

variable {σ M N : Type} [AddMonoid M] [AddMonoid N]

/-! ## Counting -/

section Counting

variable (c : Census M)

mutual

/-- What is in an expression, unless there is an answer for it. -/
@[simp] def Expr.census (around : Option Form) : Expr → M
  | ⟨form, span⟩ => (c.expr? around ⟨form, span⟩).getD form.census

/-- What is in a form. -/
@[simp] def Form.census : Form → M
  | .ident id => c.use false id
  | .array items => itemCensus (.array items) items
  | .object properties => propertyCensus (.object properties) properties
  | .function fn => fn.census
  | .member object name => object.census (some (.member object name))
  | .index object key =>
    object.census (some (.index object key)) + key.census (some (.index object key))
  | .call callee args =>
    c.callee callee (callee.census (some (.call callee args))) + argCensus (.call callee args) args
  | .new callee none => callee.census (some (.new callee none))
  | .new callee (some args) =>
    callee.census (some (.new callee (some args))) + argCensus (.new callee (some args)) args
  | .unary op operand => operand.census (some (.unary op operand))
  | .update op before operand => operand.census (some (.update op before operand))
  | .binary op left right =>
    left.census (some (.binary op left right)) + right.census (some (.binary op left right))
  | .conditional test yes no =>
    test.census (some (.conditional test yes no)) + yes.census (some (.conditional test yes no)) +
      no.census (some (.conditional test yes no))
  | .number _ | .string _ | .regex _ _ | .boolean _ | .null | .this => 0

/-- In the items of an array. -/
@[simp] def itemCensus (around : Form) : List (Option Expr) → M
  | [] => 0
  | none :: rest => itemCensus around rest
  | some e :: rest => e.census (some around) + itemCensus around rest

/-- In the arguments of a call. -/
@[simp] def argCensus (around : Form) : List Expr → M
  | [] => 0
  | e :: rest => e.census (some around) + argCensus around rest

/-- In the properties of an object. -/
@[simp] def propertyCensus (around : Form) : List Property → M
  | [] => 0
  | ⟨_, _, value, _⟩ :: rest => value.census (some around) + propertyCensus around rest

/-- In a function. -/
@[simp] def Function.census : Function → M
  | ⟨kind, name, params, body, scope, span⟩ =>
    c.function ⟨kind, name, params, body, scope, span⟩ body.census

/-- In a block. -/
@[simp] def Block.census : Block → M
  | ⟨statements, _⟩ => c.list (statementCensus statements)

/-- In a list of statements. -/
@[simp] def statementCensus : List Statement → M
  | [] => 0
  | s :: rest => s.census + statementCensus rest

/-- In a declaration. -/
@[simp] def VarDecl.census : VarDecl → M
  | ⟨name, init, _⟩ => c.declare name + optionalCensus init

/-- In several declarations. -/
@[simp] def declCensus : List VarDecl → M
  | [] => 0
  | d :: rest => d.census + declCensus rest

/-- In what a `for` loop starts with. -/
@[simp] def ForInit.census : ForInit → M
  | .nothing => 0
  | .var ⟨decls, _⟩ => declCensus decls
  | .expr e => e.census none

/-- In what a `for`-`in` loop assigns to. -/
@[simp] def ForTarget.census : ForTarget → M
  | .var decl => decl.census
  | .expr e => e.census none

/-- In an expression that may be missing. -/
@[simp] def optionalCensus : Option Expr → M
  | none => 0
  | some e => e.census none

/-- In the clauses of a `switch`. -/
@[simp] def caseCensus : List SwitchCase → M
  | [] => 0
  | ⟨test, body, _⟩ :: rest =>
    optionalCensus test + c.inner (statementCensus body) + caseCensus rest

/-- In a `catch` clause. -/
@[simp] def handlerCensus : Option CatchClause → M
  | none => 0
  | some ⟨param, body, scope, span⟩ => c.handler ⟨param, body, scope, span⟩ body.census

/-- In a `finally` block. -/
@[simp] def finalizerCensus : Option Block → M
  | none => 0
  | some b => b.census

/-- In an `else` branch. -/
@[simp] def elseCensus : Option Statement → M
  | none => 0
  | some s => c.inner s.census

/-- In a statement. -/
@[simp] def Statement.census : Statement → M
  | .var ⟨decls, _⟩ => declCensus decls
  | .expr e => c.line e (e.census none)
  | .block b => c.inner b.census
  | .function fn => c.inner fn.census
  | .ifElse test yes no _ => c.inner (test.census none + c.inner yes.census + elseCensus no)
  | .forLoop init test update body _ =>
    c.inner (init.census + optionalCensus test + optionalCensus update + c.inner body.census)
  | .forIn target object body _ =>
    c.inner (target.census + object.census none + c.inner body.census)
  | .whileLoop test body _ => c.inner (test.census none + c.inner body.census)
  | .doWhile body test _ => c.inner (c.inner body.census + test.census none)
  | .switch subject cases _ => c.inner (subject.census none + caseCensus cases)
  | .tryCatch block handler finalizer _ =>
    c.inner (block.census + handlerCensus handler + finalizerCensus finalizer)
  | .labeled _ body _ => c.inner (c.inner body.census)
  | .returnWith value _ => c.inner (optionalCensus value)
  | .throw value _ => c.inner (value.census none)
  | .withObject object body scope _ =>
    c.inner (object.census none + c.withBody scope (c.inner body.census))
  | .breakTo _ _ | .continueTo _ _ | .debugger _ | .empty _ | .comment _ _ _ => c.inner 0

end

/-- A clause of a `switch`. -/
def SwitchCase.census (clause : SwitchCase) : M :=
  optionalCensus c clause.test + c.inner (statementCensus c clause.body)

/-- What is in a program. -/
def Program.census (p : Program) : M := p.body.census c

/-- A function is counted with what is in its body. -/
theorem Function.census_eq (fn : Function) : fn.census c = c.function fn (fn.body.census c) := by
  cases fn
  rfl

/-- Clauses are counted one by one. -/
theorem caseCensus_cons (clause : SwitchCase) (rest : List SwitchCase) :
    caseCensus c (clause :: rest) = clause.census c + caseCensus c rest := by
  cases clause
  simp [SwitchCase.census]

end Counting

/-! ## Counting along a walk -/

/-- A walk leaves a name only where there was one. -/
theorem Form.walk_ident {w : Walk σ} {form : Form} {s : σ} {id : Ident}
    (isName : (form.walk w s).1 = .ident id) : ∃ id', form = .ident id' := by
  cases form with
  | ident id' => exact ⟨id', rfl⟩
  | call callee args =>
    by_cases isName' : ∃ id span, callee = ⟨.ident id, span⟩
    · obtain ⟨id, span, rfl⟩ := isName'
      cases isName
    · rw [Form.walk_call w callee args (by simpa using isName')] at isName
      cases isName
  | new callee args => cases args <;> cases isName
  | _ => cases isName

/-- An expression that is a name only after a walk: it is the answer of a step. -/
theorem Expr.walk_ident {w : Walk σ} {around : Option Form} {e : Expr} {s : σ} {id : Ident} {span : Span}
    (other : ∀ id span, e ≠ ⟨.ident id, span⟩) (isName : (e.walk w around s).1 = ⟨.ident id, span⟩) :
    (w.expr? around e s).1 = some ⟨.ident id, span⟩ ∧ (e.walk w around s).2 = (w.expr? around e s).2 := by
  obtain ⟨form, span'⟩ := e
  simp only [Expr.walk, bind, StateT.bind, pure] at isName ⊢
  generalize w.expr? around ⟨form, span'⟩ s = r at isName ⊢
  obtain ⟨answer, s₁⟩ := r
  cases answer with
  | some e => exact ⟨congrArg some isName, rfl⟩
  | none =>
    obtain ⟨id', rfl⟩ := Form.walk_ident (congrArg Expr.form isName)
    exact absurd rfl (other id' span')

/-- What is around an expression, before and after a walk. -/
inductive Walk.Carries (w : Walk σ) : Option Form → Option Form → Prop
  | top : w.Carries none none
  | within (form : Form) (s : σ) : w.Carries (some form) (some (form.walk w s).1)

namespace Census

/-- Every step of a walk fits into a relation between the state and the census before and those
after. A step that is not given does. -/
structure Tracks (c : Census M) (c' : Census N) (w : Walk σ) (P : σ → M → N → σ → Prop) : Prop where
  zero : ∀ s, P s 0 0 s
  add : ∀ {s s₁ s₂ a a₁ b b₁}, P s a a₁ s₁ → P s₁ b b₁ s₂ → P s (a + b) (a₁ + b₁) s₂
  line : ∀ e s, w.skips (.expr e) = false →
    P s (e.census c none) ((e.walk w none s).1.census c' none) (e.walk w none s).2 →
    P s (c.line e (e.census c none))
      (c'.line (e.walk w none s).1 ((e.walk w none s).1.census c' none)) (e.walk w none s).2 := by
    intro _ _ _ h; exact h
  inner : ∀ {s s₁ a a₁}, P s a a₁ s₁ → P s (c.inner a) (c'.inner a₁) s₁ := by intro _ _ _ _ h; exact h
  list : ∀ {s s₁ a a₁}, P s a a₁ s₁ → P s (c.list a) (c'.list a₁) s₁ := by intro _ _ _ _ h; exact h
  answered : ∀ around around' e s e', w.Carries around around' → (w.expr? around e s).1 = some e' →
    P s (e.census c around) (e'.census c' around') (w.expr? around e s).2 := by
    intro _ _ _ _ _ _ h; cases h
  /-- An expression that a step has no answer for, a census has none for either, or its answers do
  fit. -/
  unanswered : ∀ around around' form span s, w.Carries around around' →
    (w.expr? around ⟨form, span⟩ s).1 = none → (w.expr? around ⟨form, span⟩ s).2 = s ∧
      (c.expr? around ⟨form, span⟩ = none ∧ c'.expr? around' ⟨(form.walk w s).1, span⟩ = none ∨
        P s (Expr.census c around ⟨form, span⟩)
          (Expr.census c' around' ⟨(form.walk w s).1, span⟩) (form.walk w s).2) := by
    intros; exact ⟨rfl, .inl ⟨rfl, rfl⟩⟩
  /-- A name that is the answer of a step may be called. -/
  called : ∀ around e s id span, (w.expr? around e s).1 = some ⟨.ident id, span⟩ →
    P s (e.census c around) (c'.use false id) (w.expr? around e s).2 →
    P s (e.census c around) (c'.use true id) (w.expr? around e s).2 := by
    intro _ _ _ _ _ isAnswer h; first | exact h | cases isAnswer
  quiet : ∀ around id span, Expr.census c' around ⟨.ident id, span⟩ = c'.use false id := by
    intros; rfl
  use : ∀ isCallee id s,
    P s (c.use isCallee id) (c'.use isCallee (w.use isCallee id s).1) (w.use isCallee id s).2
  declare : ∀ id s, P s (c.declare id) (c'.declare (w.declare id s).1) (w.declare id s).2
  function : ∀ fn body s s₁, fn.body.walk w (w.enterFunction fn s).2 = (body, s₁) →
    P (w.enterFunction fn s).2 (fn.body.census c) (body.census c') s₁ →
    let left := w.leaveFunction { (w.enterFunction fn s).1 with body } s₁
    P s (fn.census c) (left.1.census c') left.2
  handler : ∀ clause body s s₁, clause.body.walk w (w.enterCatch clause s).2 = (body, s₁) →
    P (w.enterCatch clause s).2 (clause.body.census c) (body.census c') s₁ →
    P s (handlerCensus c (some clause))
      (handlerCensus c' (some { (w.enterCatch clause s).1 with body })) (w.leaveCatch s₁).2
  withBody : ∀ scope span s s₁ a b, P (w.enterWith scope span s).2 a b s₁ →
    P s (c.withBody scope a) (c'.withBody (w.enterWith scope span s).1 b) (w.leaveWith s₁).2
  skipped : ∀ st s, w.skips st = true → P s (st.census c) (st.census c') s := by
    intro _ _ h; cases h
  statement : ∀ a st s s₁, P s a (st.census c') s₁ →
    P s a ((w.statement st s₁).1.census c') (w.statement st s₁).2 := by intro _ _ _ _ h; exact h
  block : ∀ a b s s₁, P s a (c'.list (statementCensus c' b)) s₁ →
    P s a (c'.list (statementCensus c' (w.block b s₁).1)) (w.block b s₁).2 := by
    intro _ _ _ _ h; exact h
  switchCase : ∀ a clause s s₁, P s a (clause.census c') s₁ →
    P s a ((w.switchCase clause s₁).1.census c') (w.switchCase clause s₁).2 := by
    intro _ _ _ _ h; exact h

namespace Tracks

variable {c : Census M} {c' : Census N} {w : Walk σ} {P : σ → M → N → σ → Prop}

variable (h : c.Tracks c' w P)
include h

/-- What is called, if it was no name before the walk: it is one now only if a step says so. -/
theorem callee {around around' : Option Form} {e : Expr} {s : σ}
    (other : ∀ id span, e ≠ ⟨.ident id, span⟩)
    (whole : P s (e.census c around) ((e.walk w around s).1.census c' around') (e.walk w around s).2) :
    P s (e.census c around)
      (c'.callee (e.walk w around s).1 ((e.walk w around s).1.census c' around'))
      (e.walk w around s).2 := by
  by_cases isName : ∃ id span, (e.walk w around s).1 = ⟨.ident id, span⟩
  · obtain ⟨id, span, isName⟩ := isName
    have answered := Expr.walk_ident other isName
    rw [isName, h.quiet] at whole
    rw [isName]
    rw [answered.2] at whole ⊢
    exact h.called around e s id span answered.1 whole
  · rwa [Census.callee_of_ne c' (by simpa using isName)]

set_option linter.unusedSectionVars false in
mutual

/-- The induction is on the tree; one case for each construct, and the steps of the walk where they
are taken. -/
theorem exprOf {around around' : Option Form} (carries : w.Carries around around') :
    ∀ (e : Expr) (s : σ),
    P s (e.census c around) ((e.walk w around s).1.census c' around') (e.walk w around s).2
  | ⟨form, span⟩, s => by
    have answered := h.answered around around' ⟨form, span⟩ s
    have unanswered := h.unanswered around around' form span s carries
    simp only [Expr.walk, bind, StateT.bind, pure]
    generalize w.expr? around ⟨form, span⟩ s = r at answered unanswered ⊢
    obtain ⟨answer, s₁⟩ := r
    cases answer with
    | some e => exact answered e carries rfl
    | none =>
      obtain ⟨same, ⟨own, own'⟩ | fits⟩ := unanswered rfl
      · obtain rfl : s₁ = s := same
        have parts := formOf form s₁
        have whole : P s₁ ((c.expr? around ⟨form, span⟩).getD (form.census c))
            ((c'.expr? around' ⟨(form.walk w s₁).1, span⟩).getD ((form.walk w s₁).1.census c'))
            (form.walk w s₁).2 := by rwa [own, own']
        exact whole
      · obtain rfl : s₁ = s := same
        exact fits
termination_by structural tree => tree

/-- A form, by its parts. -/
theorem formOf : ∀ (form : Form) (s : σ),
    P s (form.census c) ((form.walk w s).1.census c') (form.walk w s).2
  | .ident id, s => h.use false id s
  | .array items, s => itemsOf (.within (.array items) s) items s
  | .object properties, s => propertiesOf (.within (.object properties) s) properties s
  | .function fn, s => functionOf fn s
  | .member object name, s => exprOf (.within (.member object name) s) object s
  | .index object key, s =>
    have carries := .within (.index object key) s
    h.add (exprOf carries object s) (exprOf carries key _)
  | .call callee args, s => by
    by_cases isName : ∃ id span, callee = ⟨.ident id, span⟩
    · obtain ⟨id, span, rfl⟩ := isName
      exact h.add (h.use true id s) (argsOf (.within (.call ⟨.ident id, span⟩ args) s) args
        (w.use true id s).2)
    · have other : ∀ id span, callee ≠ ⟨.ident id, span⟩ := by simpa using isName
      have carries := Walk.Carries.within (w := w) (.call callee args) s
      rw [Form.walk_call w callee args other] at carries ⊢
      refine h.add ?_ (argsOf carries args _)
      rw [Census.callee_of_ne c other]
      exact h.callee other (exprOf carries callee s)
  | .new callee none, s => exprOf (.within (.new callee none) s) callee s
  | .new callee (some args), s =>
    have carries := .within (.new callee (some args)) s
    h.add (exprOf carries callee s) (argsOf carries args _)
  | .unary op operand, s => exprOf (.within (.unary op operand) s) operand s
  | .update op before operand, s => exprOf (.within (.update op before operand) s) operand s
  | .binary op left right, s =>
    have carries := .within (.binary op left right) s
    h.add (exprOf carries left s) (exprOf carries right _)
  | .conditional test yes no, s =>
    have carries := .within (.conditional test yes no) s
    h.add (h.add (exprOf carries test s) (exprOf carries yes _)) (exprOf carries no _)
  | .number _, s | .string _, s | .regex _ _, s | .boolean _, s | .null, s | .this, s => h.zero s
termination_by structural tree => tree

/-- The items of an array. -/
theorem itemsOf {around around' : Form}
    (carries : w.Carries (some around) (some around')) : ∀ (items : List (Option Expr)) (s : σ),
    P s (itemCensus c around items) (itemCensus c' around' (walkItems w around items s).1)
      (walkItems w around items s).2
  | [], s => h.zero s
  | none :: rest, s => itemsOf carries rest s
  | some e :: rest, s => h.add (exprOf carries e s) (itemsOf carries rest _)
termination_by structural tree => tree

/-- The arguments of a call. -/
theorem argsOf {around around' : Form}
    (carries : w.Carries (some around) (some around')) : ∀ (args : List Expr) (s : σ),
    P s (argCensus c around args) (argCensus c' around' (walkArgs w around args s).1)
      (walkArgs w around args s).2
  | [], s => h.zero s
  | e :: rest, s => h.add (exprOf carries e s) (argsOf carries rest _)
termination_by structural tree => tree

/-- The properties of an object. -/
theorem propertiesOf {around around' : Form} (carries : w.Carries (some around) (some around')) :
    ∀ (properties : List Property) (s : σ), P s (propertyCensus c around properties)
      (propertyCensus c' around' (walkProperties w around properties s).1)
      (walkProperties w around properties s).2
  | [], s => h.zero s
  | ⟨_, _, value, _⟩ :: rest, s => h.add (exprOf carries value s) (propertiesOf carries rest _)
termination_by structural tree => tree

/-- A function, by its body. -/
theorem functionOf : ∀ (fn : Function) (s : σ),
    P s (fn.census c) ((fn.walk w s).1.census c') (fn.walk w s).2
  | ⟨_, _, _, body, _, _⟩, s => h.function _ _ s _ rfl (blockOf body _)
termination_by structural tree => tree

/-- A block. -/
theorem blockOf : ∀ (b : Block) (s : σ), P s (b.census c) ((b.walk w s).1.census c') (b.walk w s).2
  | ⟨statements, _⟩, s => h.block _ _ s _ (h.list (statementsOf statements s))
termination_by structural tree => tree

/-- A list of statements. -/
theorem statementsOf : ∀ (statements : List Statement) (s : σ),
    P s (statementCensus c statements) (statementCensus c' (walkStatements w statements s).1)
      (walkStatements w statements s).2
  | [], s => h.zero s
  | st :: rest, s => h.add (statementOf st s) (statementsOf rest _)
termination_by structural tree => tree

/-- A declaration. -/
theorem declOf : ∀ (d : VarDecl) (s : σ), P s (d.census c) ((d.walk w s).1.census c') (d.walk w s).2
  | ⟨name, none, _⟩, s => h.add (h.declare name s) (h.zero _)
  | ⟨name, some init, _⟩, s => h.add (h.declare name s) (exprOf .top init _)
termination_by structural tree => tree

/-- Several declarations. -/
theorem declsOf : ∀ (decls : List VarDecl) (s : σ),
    P s (declCensus c decls) (declCensus c' (walkDecls w decls s).1) (walkDecls w decls s).2
  | [], s => h.zero s
  | d :: rest, s => h.add (declOf d s) (declsOf rest _)
termination_by structural tree => tree

/-- What a `for` loop starts with. -/
theorem forInitOf : ∀ (init : ForInit) (s : σ),
    P s (init.census c) ((init.walk w s).1.census c') (init.walk w s).2
  | .nothing, s => h.zero s
  | .var ⟨decls, _⟩, s => declsOf decls s
  | .expr e, s => exprOf .top e s
termination_by structural tree => tree

/-- What a `for`-`in` loop assigns to. -/
theorem forTargetOf : ∀ (target : ForTarget) (s : σ),
    P s (target.census c) ((target.walk w s).1.census c') (target.walk w s).2
  | .var d, s => declOf d s
  | .expr e, s => exprOf .top e s
termination_by structural tree => tree

/-- An expression that may be missing. -/
theorem optionalOf : ∀ (e : Option Expr) (s : σ),
    P s (optionalCensus c e) (optionalCensus c' (walkOptional w e s).1) (walkOptional w e s).2
  | none, s => h.zero s
  | some e, s => exprOf .top e s
termination_by structural tree => tree

/-- The clauses of a `switch`. -/
theorem casesOf : ∀ (cases : List SwitchCase) (s : σ),
    P s (caseCensus c cases) (caseCensus c' (walkCases w cases s).1) (walkCases w cases s).2
  | [], s => h.zero s
  | ⟨test, body, span⟩ :: rest, s => by
    have parts := h.add (optionalOf test s) (h.inner (statementsOf body _))
    have clause := h.switchCase _ ⟨_, _, span⟩ s _ parts
    have whole := h.add clause (casesOf rest _)
    rwa [← caseCensus_cons] at whole
termination_by structural tree => tree

/-- A `catch` clause. -/
theorem handlerOf : ∀ (handler : Option CatchClause) (s : σ),
    P s (handlerCensus c handler) (handlerCensus c' (walkHandler w handler s).1)
      (walkHandler w handler s).2
  | none, s => h.zero s
  | some ⟨_, body, _, _⟩, s => h.handler _ _ s _ rfl (blockOf body _)
termination_by structural tree => tree

/-- A statement. The walk may rewrite it once its parts are done. -/
theorem statementOf (st : Statement) (s : σ) :
    P s (st.census c) ((st.walk w s).1.census c') (st.walk w s).2 := by
  rw [Statement.walk]
  split
  · rename_i skips
    exact h.statement _ st s s (h.skipped st s skips)
  match st with
  | .block b => exact h.statement _ _ s _ (h.inner (blockOf b s))
  | .var ⟨decls, span⟩ => exact h.statement _ _ s _ (declsOf decls s)
  | .function fn => exact h.statement _ _ s _ (h.inner (functionOf fn s))
  | .expr e => exact h.statement _ _ s _ (h.line e s (eq_false_of_ne_true ‹_›) (exprOf .top e s))
  | .ifElse test yes none span =>
    have parts := h.add (exprOf .top test s) (h.inner (statementOf yes _))
    exact h.statement _ _ s _ (h.inner (h.add parts (h.zero _)))
  | .ifElse test yes (some no) span =>
    have parts := h.add (exprOf .top test s) (h.inner (statementOf yes _))
    exact h.statement _ _ s _ (h.inner (h.add parts (h.inner (statementOf no _))))
  | .forLoop init test update body span =>
    have head := h.add (h.add (forInitOf init s) (optionalOf test _)) (optionalOf update _)
    exact h.statement _ _ s _ (h.inner (h.add head (h.inner (statementOf body _))))
  | .forIn target object body span =>
    have head := h.add (forTargetOf target s) (exprOf .top object _)
    exact h.statement _ _ s _ (h.inner (h.add head (h.inner (statementOf body _))))
  | .whileLoop test body span =>
    exact h.statement _ _ s _
      (h.inner (h.add (exprOf .top test s) (h.inner (statementOf body _))))
  | .doWhile body test span =>
    exact h.statement _ _ s _
      (h.inner (h.add (h.inner (statementOf body s)) (exprOf .top test _)))
  | .switch subject cases span =>
    exact h.statement _ _ s _ (h.inner (h.add (exprOf .top subject s) (casesOf cases _)))
  | .tryCatch block handler none span =>
    have parts := h.add (blockOf block s) (handlerOf handler _)
    exact h.statement _ _ s _ (h.inner (h.add parts (h.zero _)))
  | .tryCatch block handler (some finalizer) span =>
    have parts := h.add (blockOf block s) (handlerOf handler _)
    exact h.statement _ _ s _ (h.inner (h.add parts (blockOf finalizer _)))
  | .labeled label body span =>
    exact h.statement _ _ s _ (h.inner (h.inner (statementOf body s)))
  | .returnWith value span => exact h.statement _ _ s _ (h.inner (optionalOf value s))
  | .throw value span => exact h.statement _ _ s _ (h.inner (exprOf .top value s))
  | .withObject object body scope span =>
    have outside := exprOf .top object s
    have inside := h.withBody scope span (object.walk w none s).2 _ _ _ (h.inner (statementOf body _))
    exact h.statement _ _ s _ (h.inner (h.add outside inside))
  | .breakTo .. | .continueTo .. | .debugger _ | .empty _ | .comment .. =>
    exact h.statement _ _ s s (h.inner (h.zero s))
termination_by structural st

end

/-- What every step of a walk fits into, the walk does. -/
theorem program (p : Program) (s : σ) :
    P s (p.census c) ((p.walk w s).1.census c') (p.walk w s).2 :=
  h.blockOf p.body s

end Tracks

end Census

end Minifier
