import Minifier.Proofs.Syntax.Related
import Minifier.Syntax.Statement

/-!
# Names replaced by their values

If every mention of a variable is replaced by what the variable holds and its declaration is left
out, the variable is undone. `Program.inlined` does this for all names that have a value.

Spans are left out too, and a number is read as it is written: a negative one is a minus before its
magnitude, and a minus before a minus before a number cancels it. So `- -5` and `5` read alike, and
`-x` with `-5` for `x` reads like both. A `var` statement in a list that declares nothing is nothing.

A walk that puts other expressions in place of some, but such that they read alike, leaves the
reading of a program as it is (`Walk.Reads.program`).
-/

set_option autoImplicit false

namespace Minifier

/-! ## Signs -/

namespace Number

variable (x : Number)

/-- The sign bit is the highest one. -/
theorem isNegative_eq_msb : x.isNegative = x.bits.toBitVec.msb := by
  rw [BitVec.msb_eq_decide]
  rfl

theorem isNegative_negate : x.negate.isNegative = !x.isNegative := by
  rw [isNegative_eq_msb, isNegative_eq_msb]
  show (x.bits.toBitVec ^^^ 0x8000000000000000#64).msb = _
  rw [BitVec.msb_xor]
  exact Bool.xor_true _

@[simp] theorem negate_negate : x.negate.negate = x := by
  have cancels : x.bits ^^^ 0x8000000000000000 ^^^ 0x8000000000000000 = x.bits := by
    rw [UInt64.xor_assoc, UInt64.xor_self, UInt64.xor_zero]
  exact congrArg Number.mk cancels

/-- A number as it is written: a negative one has a minus. -/
def signed (value : Number) : Expr :=
  if value.isNegative then .synthetic (.unary .minus (.number value.negate)) else .number value

end Number

/-- A minus before an expression, which cancels the one before a number. -/
def Expr.minus : Expr → Expr
  | ⟨.unary .minus ⟨.number value, span⟩, _⟩ => ⟨.number value, span⟩
  | e => .synthetic (.unary .minus e)

theorem Number.minus_signed (value : Number) : value.signed.minus = value.negate.signed := by
  unfold signed
  rw [isNegative_negate]
  cases value.isNegative
  · rw [if_neg Bool.false_ne_true, if_pos (by rfl), negate_negate]
    rfl
  · rw [if_pos rfl, if_neg (by decide)]
    rfl

/-! ## Inlining -/

/-- A name without its place. -/
def Ident.unspanned (id : Ident) : Ident := { id with span := .synthetic }

/-- A `var` statement that declares nothing. -/
def Statement.declaresNothing : Statement → Bool
  | .var ⟨[], _⟩ => true
  | _ => false

section Inlining

variable (value : Ident → Option Expr)

mutual

/-- The expression as it reads when the names that have a value are replaced by it. -/
def Expr.inlined : Expr → Expr
  | ⟨form, _⟩ => form.inlined

/-- A form becomes an expression, as a name may become a literal. -/
def Form.inlined : Form → Expr
  | .ident id => (value id).getD (.synthetic (.ident id.unspanned))
  | .number x => x.signed
  | .unary op operand =>
    if op = .minus then operand.inlined.minus
    else .synthetic (.unary op operand.inlined)
  | .array items => .synthetic (.array (inlinedItems items))
  | .object properties => .synthetic (.object (inlinedProperties properties))
  | .function fn => .synthetic (.function fn.inlined)
  | .member object name => .synthetic (.member object.inlined name)
  | .index object key => .synthetic (.index object.inlined key.inlined)
  | .call callee args => .synthetic (.call callee.inlined (inlinedArgs args))
  | .new callee none => .synthetic (.new callee.inlined none)
  | .new callee (some args) =>
    .synthetic (.new callee.inlined (some (inlinedArgs args)))
  | .update op before operand => .synthetic (.update op before operand.inlined)
  | .binary op left right => .synthetic (.binary op left.inlined right.inlined)
  | .conditional test yes no =>
    .synthetic (.conditional test.inlined yes.inlined no.inlined)
  | .string text => .synthetic (.string text)
  | .regex pattern flags => .synthetic (.regex pattern flags)
  | .boolean b => .synthetic (.boolean b)
  | .null => .synthetic .null
  | .this => .synthetic .this

/-- In the items of an array. -/
def inlinedItems : List (Option Expr) → List (Option Expr)
  | [] => []
  | none :: rest => none :: inlinedItems rest
  | some e :: rest => some e.inlined :: inlinedItems rest

/-- In the arguments of a call. -/
def inlinedArgs : List Expr → List Expr
  | [] => []
  | e :: rest => e.inlined :: inlinedArgs rest

/-- In the properties of an object. -/
def inlinedProperties : List Property → List Property
  | [] => []
  | ⟨key, kind, e, _⟩ :: rest =>
    ⟨key, kind, e.inlined, .synthetic⟩ :: inlinedProperties rest

/-- In a function. -/
def Function.inlined : Function → Function
  | ⟨kind, name, params, body, scope, _⟩ =>
    ⟨kind, name.map Ident.unspanned, params.map Ident.unspanned, body.inlined, scope, .synthetic⟩

/-- In a block. -/
def Block.inlined : Block → Block
  | ⟨statements, _⟩ => ⟨inlinedStatements statements, .synthetic⟩

/-- In a list of statements. -/
def inlinedStatements : List Statement → List Statement
  | [] => []
  | s :: rest =>
    if s.inlined.declaresNothing then inlinedStatements rest
    else s.inlined :: inlinedStatements rest

/-- In a declaration. -/
def VarDecl.inlined : VarDecl → VarDecl
  | ⟨name, init, _⟩ => ⟨name.unspanned, inlinedOptional init, .synthetic⟩

/-- The declarations of names that have no value. -/
def inlinedDecls : List VarDecl → List VarDecl
  | [] => []
  | d :: rest =>
    if (value d.name).isSome then inlinedDecls rest
    else d.inlined :: inlinedDecls rest

/-- In what a `for` loop starts with. -/
def ForInit.inlined : ForInit → ForInit
  | .nothing => .nothing
  | .var ⟨decls, _⟩ => .var ⟨inlinedDecls decls, .synthetic⟩
  | .expr e => .expr e.inlined

/-- In what a `for`-`in` loop assigns to. -/
def ForTarget.inlined : ForTarget → ForTarget
  | .var d => .var d.inlined
  | .expr e => .expr e.inlined

/-- In an expression that may be missing. -/
def inlinedOptional : Option Expr → Option Expr
  | none => none
  | some e => some e.inlined

/-- In the clauses of a `switch`. -/
def inlinedCases : List SwitchCase → List SwitchCase
  | [] => []
  | ⟨test, body, _⟩ :: rest =>
    ⟨inlinedOptional test, inlinedStatements body, .synthetic⟩ :: inlinedCases rest

/-- In a `catch` clause. -/
def inlinedHandler : Option CatchClause → Option CatchClause
  | none => none
  | some ⟨param, body, scope, _⟩ => some ⟨param.unspanned, body.inlined, scope, .synthetic⟩

/-- In a `finally` block. -/
def inlinedFinalizer : Option Block → Option Block
  | none => none
  | some b => some b.inlined

/-- In an `else` branch. -/
def inlinedElse : Option Statement → Option Statement
  | none => none
  | some s => some s.inlined

/-- In a statement. -/
def Statement.inlined : Statement → Statement
  | .block b => .block b.inlined
  | .var ⟨decls, _⟩ => .var ⟨inlinedDecls decls, .synthetic⟩
  | .function fn => .function fn.inlined
  | .expr e => .expr e.inlined
  | .ifElse test yes no _ =>
    .ifElse test.inlined yes.inlined (inlinedElse no) .synthetic
  | .forLoop init test update body _ =>
    .forLoop init.inlined (inlinedOptional test) (inlinedOptional update) body.inlined .synthetic
  | .forIn target object body _ =>
    .forIn target.inlined object.inlined body.inlined .synthetic
  | .whileLoop test body _ => .whileLoop test.inlined body.inlined .synthetic
  | .doWhile body test _ => .doWhile body.inlined test.inlined .synthetic
  | .switch subject cases _ =>
    .switch subject.inlined (inlinedCases cases) .synthetic
  | .tryCatch block handler finalizer _ =>
    .tryCatch block.inlined (inlinedHandler handler) (inlinedFinalizer finalizer) .synthetic
  | .labeled label body _ => .labeled label body.inlined .synthetic
  | .breakTo label _ => .breakTo label .synthetic
  | .continueTo label _ => .continueTo label .synthetic
  | .returnWith e _ => .returnWith (inlinedOptional e) .synthetic
  | .throw e _ => .throw e.inlined .synthetic
  | .withObject object body scope _ =>
    .withObject object.inlined body.inlined scope .synthetic
  | .debugger _ => .debugger .synthetic
  | .empty _ => .empty .synthetic
  | .comment kind text _ => .comment kind text .synthetic

end

/-- The program as it reads when the names that have a value are replaced by it and not declared. -/
def Program.inlined (p : Program) : Program := ⟨p.body.inlined value, p.scope, .synthetic⟩

end Inlining

/-! ## Walks that keep the reading -/

/-- Names have the same values in two ways. -/
def Agree (value value' : Ident → Option Expr) (marks : List Mark) : Prop :=
  ∀ id, .name id ∈ marks → value' id = value id

/-- Values that agree on two lists of marks agree on both together. -/
theorem agree_append {value value' : Ident → Option Expr} {a b : List Mark} :
    Agree value value' (a ++ b) ↔ Agree value value' a ∧ Agree value value' b := by
  simp only [Agree, List.mem_append, or_imp, forall_and]

/-- Every step of a walk leaves a tree that reads alike, as long as its state is in order. A step
that is not given does. -/
structure Walk.Reads {σ : Type} (w : Walk σ) (holds : σ → Prop)
    (value value' : Ident → Option Expr) : Prop where
  expr? : ∀ around e s, holds s → Agree value value' e.marks → holds (w.expr? around e s).2 ∧
    ∀ e', (w.expr? around e s).1 = some e' → e'.inlined value' = e.inlined value
  use : ∀ isCallee id s, w.use isCallee id s = (id, s) := by intros; rfl
  declare : ∀ id s, w.declare id s = (id, s) := by intros; rfl
  enterFunction : ∀ fn s, holds s → holds (w.enterFunction fn s).2 ∧ (w.enterFunction fn s).1 = fn
  leaveFunction : ∀ fn s, holds s → holds (w.leaveFunction fn s).2 ∧
    (w.leaveFunction fn s).1.inlined value' = fn.inlined value'
  enterCatch : ∀ clause s, holds s →
    holds (w.enterCatch clause s).2 ∧ (w.enterCatch clause s).1 = clause
  leaveCatch : ∀ s, holds s → holds (w.leaveCatch s).2
  enterWith : ∀ scope span s, holds s →
    holds (w.enterWith scope span s).2 ∧ (w.enterWith scope span s).1 = scope
  leaveWith : ∀ s, holds s → holds (w.leaveWith s).2
  skips : ∀ st, w.skips st = true → Agree value value' st.marks →
    st.inlined value' = st.inlined value := by intro _ h; cases h
  statement : ∀ st s, w.statement st s = (st, s) := by intros; rfl
  block : ∀ b s, w.block b s = (b, s) := by intros; rfl
  switchCase : ∀ clause s, w.switchCase clause s = (clause, s) := by intros; rfl

/-- A step that keeps the state in order and comes to what is wanted. -/
def Walk.Gives {σ α : Type} (holds : σ → Prop) (step : StateM σ α) (wanted : α → Prop) : Prop :=
  ∀ s, holds s → holds (step s).2 ∧ wanted (step s).1

namespace Walk

variable {σ α β : Type} {w : Walk σ} {holds : σ → Prop} {value value' : Ident → Option Expr}

namespace Gives

variable {step : StateM σ α} {wanted : α → Prop} {wanted' : β → Prop}

/-- A step that does nothing. -/
theorem pure {a : α} (isWanted : wanted a) : Gives holds (Pure.pure a) wanted :=
  fun _ inOrder => ⟨inOrder, isWanted⟩

/-- A step, and what follows for every answer that is wanted. -/
theorem bind {next : α → StateM σ β} (first : Gives holds step wanted)
    (rest : ∀ a, wanted a → Gives holds (next a) wanted') : Gives holds (step >>= next) wanted' := by
  intro s inOrder
  obtain ⟨inOrder₁, isWanted⟩ := first s inOrder
  exact rest _ isWanted _ inOrder₁

/-- What is made of an answer. -/
theorem map {f : α → β} (first : Gives holds step wanted)
    (made : ∀ a, wanted a → wanted' (f a) := by simp_all) :
    Gives holds (step >>= fun a => Pure.pure (f a)) wanted' :=
  first.bind fun a isWanted => pure (made a isWanted)

/-- A step that gives its argument back, as most do. -/
theorem same {f : α → StateM σ α} (leaves : ∀ a s, f a s = (a, s)) {a : α} (isWanted : wanted a) :
    Gives holds (f a) wanted := by
  intro s inOrder
  rw [leaves]
  exact ⟨inOrder, isWanted⟩

end Gives

namespace Reads

attribute [local simp] Expr.inlined Form.inlined inlinedItems inlinedArgs inlinedProperties Block.inlined
  inlinedStatements VarDecl.inlined inlinedDecls ForInit.inlined ForTarget.inlined inlinedOptional
  inlinedCases inlinedFinalizer inlinedElse Statement.inlined

variable (h : w.Reads holds value value')
include h

/-- The last of the parts of a statement, and the statement itself. -/
theorem ends {step : StateM σ α} {wanted : α → Prop} {f : α → Statement}
    {st : Statement} (last : Gives holds step wanted)
    (made : ∀ a, wanted a → (f a).inlined value' = st := by simp_all) :
    Gives holds (step >>= fun a => Pure.pure (f a) >>= w.statement) (·.inlined value' = st) :=
  last.bind fun a isWanted => .same h.statement (made a isWanted)

set_option linter.unusedSectionVars false in
mutual

/-- The induction is on the tree. The state stays in order along the walk, and the parts of a tree
read alike, so the tree does. -/
theorem exprOf (around : Option Form) : ∀ e : Expr,
    Agree value value' e.marks → Gives holds (e.walk w around) (·.inlined value' = e.inlined value)
  | ⟨form, span⟩, agree => by
    intro s inOrder
    have answered := h.expr? around ⟨form, span⟩ s inOrder agree
    simp only [Expr.walk, StateT.bind, bind, Pure.pure]
    generalize w.expr? around ⟨form, span⟩ s = r at answered ⊢
    obtain ⟨answer, s₁⟩ := r
    cases answer with
    | some e => exact ⟨answered.1, answered.2 e rfl⟩
    | none => exact formOf form (by simpa using agree) s₁ answered.1

/-- A form. -/
theorem formOf : ∀ form : Form, Agree value value' form.marks →
    Gives holds (form.walk w) (·.inlined value' = form.inlined value)
  | .ident id, agree => (Gives.same (h.use false) rfl).map fun | _, rfl => by simp [agree id (by simp)]
  | .array items, agree => (itemsOf _ items agree).map
  | .object properties, agree => (propertiesOf _ properties agree).map
  | .function fn, agree => (functionOf fn agree).map
  | .member object _, agree => (exprOf _ object agree).map
  | .index object key, agree => by
    rw [Form.marks, agree_append] at agree
    exact (exprOf _ object agree.1).bind fun _ _ => (exprOf _ key agree.2).map
  | .call callee args, agree => by
    rw [Form.marks, agree_append] at agree
    by_cases isName : ∃ id span, callee = ⟨.ident id, span⟩
    · obtain ⟨id, span, rfl⟩ := isName
      have same := agree.1 id (by simp)
      exact (Gives.same (h.use true) rfl).bind fun | _, rfl => (argsOf _ args agree.2).map
    · rw [Form.walk_call w callee args (by simpa using isName)]
      exact (exprOf _ callee agree.1).bind fun _ _ => (argsOf _ args agree.2).map
  | .new callee none, agree => (exprOf _ callee agree).map
  | .new callee (some args), agree => by
    rw [Form.marks, agree_append] at agree
    exact (exprOf _ callee agree.1).bind fun _ _ => (argsOf _ args agree.2).map
  | .unary _ operand, agree => (exprOf _ operand agree).map
  | .update _ _ operand, agree => (exprOf _ operand agree).map
  | .binary _ left right, agree => by
    rw [Form.marks, agree_append] at agree
    exact (exprOf _ left agree.1).bind fun _ _ => (exprOf _ right agree.2).map
  | .conditional test yes no, agree => by
    rw [Form.marks, agree_append, agree_append] at agree
    exact (exprOf _ test agree.1.1).bind fun _ _ => (exprOf _ yes agree.1.2).bind fun _ _ =>
      (exprOf _ no agree.2).map
  | .number _, _ | .string _, _ | .regex _ _, _ | .boolean _, _ | .null, _ | .this, _ => .pure rfl

/-- The items of an array. -/
theorem itemsOf (around : Form) : ∀ items : List (Option Expr),
    Agree value value' (itemMarks items) →
    Gives holds (walkItems w around items) (inlinedItems value' · = inlinedItems value items)
  | [], _ => .pure rfl
  | none :: rest, agree => (itemsOf around rest agree).map
  | some e :: rest, agree => by
    rw [itemMarks, agree_append] at agree
    exact (exprOf _ e agree.1).bind fun _ _ => (itemsOf around rest agree.2).map

/-- The arguments of a call. -/
theorem argsOf (around : Form) : ∀ args : List Expr, Agree value value' (argMarks args) →
    Gives holds (walkArgs w around args) (inlinedArgs value' · = inlinedArgs value args)
  | [], _ => .pure rfl
  | e :: rest, agree => by
    rw [argMarks, agree_append] at agree
    exact (exprOf _ e agree.1).bind fun _ _ => (argsOf around rest agree.2).map

/-- The properties of an object. -/
theorem propertiesOf (around : Form) : ∀ properties : List Property,
    Agree value value' (propertyMarks properties) → Gives holds (walkProperties w around properties)
      (inlinedProperties value' · = inlinedProperties value properties)
  | [], _ => .pure rfl
  | ⟨_, _, e, _⟩ :: rest, agree => by
    rw [propertyMarks, agree_append] at agree
    exact (exprOf _ e agree.1).bind fun _ _ => (propertiesOf around rest agree.2).map

/-- A function, from entering to leaving it. -/
theorem functionOf : ∀ fn : Function, Agree value value' fn.marks →
    Gives holds (fn.walk w) (·.inlined value' = fn.inlined value)
  | ⟨kind, name, params, body, scope, span⟩, agree => by
    rw [Function.marks, agree_append] at agree
    intro s inOrder
    have entered := h.enterFunction ⟨kind, name, params, body, scope, span⟩ s inOrder
    have inside := blockOf body agree.2 _ entered.1
    have left (body' : Block) := h.leaveFunction ⟨kind, name, params, body', scope, span⟩ _ inside.1
    show holds (w.leaveFunction { (w.enterFunction _ s).1 with body := _ } _).2 ∧
      Function.inlined value' (w.leaveFunction { (w.enterFunction _ s).1 with body := _ } _).1 = _
    rw [entered.2]
    refine ⟨(left _).1, (left _).2.trans ?_⟩
    exact congrArg (fun body => (⟨kind, _, _, body, scope, .synthetic⟩ : Function)) inside.2

/-- A block. -/
theorem blockOf : ∀ b : Block, Agree value value' b.marks →
    Gives holds (b.walk w) (·.inlined value' = b.inlined value)
  | ⟨statements, _⟩, agree => (statementsOf statements agree).bind fun _ _ =>
    (Gives.same h.block rfl).map

/-- A list of statements. -/
theorem statementsOf : ∀ statements : List Statement,
    Agree value value' (statementMarks statements) →
    Gives holds (walkStatements w statements) (inlinedStatements value' · = inlinedStatements value statements)
  | [], _ => .pure rfl
  | st :: rest, agree => by
    rw [statementMarks, agree_append] at agree
    exact (statementOf st agree.1).bind fun _ _ => (statementsOf rest agree.2).map

/-- A declaration. -/
theorem declOf : ∀ d : VarDecl, Agree value value' d.marks →
    Gives holds (d.walk w) fun d' => d'.name = d.name ∧ d'.inlined value' = d.inlined value
  | ⟨_, none, _⟩, _ => (Gives.same h.declare rfl).map
  | ⟨_, some init, _⟩, agree => (Gives.same h.declare rfl).bind fun _ _ =>
    (exprOf _ init fun id mem => agree id (by simp [mem])).map

/-- Several declarations. -/
theorem declsOf : ∀ decls : List VarDecl, Agree value value' (declMarks decls) →
    Gives holds (walkDecls w decls) (inlinedDecls value' · = inlinedDecls value decls)
  | [], _ => .pure rfl
  | d :: rest, agree => by
    rw [declMarks, agree_append] at agree
    have same : value' d.name = value d.name := agree.1 d.name (by cases d; simp)
    exact (declOf d agree.1).bind fun _ _ => (declsOf rest agree.2).map

/-- What a `for` loop starts with. -/
theorem forInitOf : ∀ init : ForInit, Agree value value' init.marks →
    Gives holds (init.walk w) (·.inlined value' = init.inlined value)
  | .nothing, _ => .pure rfl
  | .var ⟨decls, _⟩, agree => (declsOf decls agree).map
  | .expr e, agree => (exprOf _ e agree).map

/-- What a `for`-`in` loop assigns to. -/
theorem forTargetOf : ∀ target : ForTarget, Agree value value' target.marks →
    Gives holds (target.walk w) (·.inlined value' = target.inlined value)
  | .var d, agree => (declOf d agree).map
  | .expr e, agree => (exprOf _ e agree).map

/-- An expression that may be missing. -/
theorem optionalOf : ∀ e : Option Expr, Agree value value' (optionalMarks e) →
    Gives holds (walkOptional w e) (inlinedOptional value' · = inlinedOptional value e)
  | none, _ => .pure rfl
  | some e, agree => (exprOf _ e agree).map

/-- The clauses of a `switch`. -/
theorem casesOf : ∀ cases : List SwitchCase, Agree value value' (caseMarks cases) →
    Gives holds (walkCases w cases) (inlinedCases value' · = inlinedCases value cases)
  | [], _ => .pure rfl
  | ⟨test, body, _⟩ :: rest, agree => by
    rw [caseMarks, SwitchCase.marks, agree_append, agree_append] at agree
    exact (optionalOf test agree.1.1).bind fun _ _ => (statementsOf body agree.1.2).bind fun _ _ =>
      (Gives.same h.switchCase rfl).bind fun | _, rfl => (casesOf rest agree.2).map

/-- A `catch` clause. -/
theorem handlerOf : ∀ handler : Option CatchClause, Agree value value' (handlerMarks handler) →
    Gives holds (walkHandler w handler) (inlinedHandler value' · = inlinedHandler value handler)
  | none, _ => .pure rfl
  | some ⟨param, body, scope, span⟩, agree => by
    intro s inOrder
    have entered := h.enterCatch ⟨param, body, scope, span⟩ s inOrder
    have inside := blockOf body (fun id mem => agree id (by simp [mem])) _ entered.1
    refine ⟨h.leaveCatch _ inside.1, ?_⟩
    show inlinedHandler value' (some { (w.enterCatch _ s).1 with body := _ }) = _
    rw [entered.2]
    exact congrArg (fun body => some (⟨param.unspanned, body, scope, .synthetic⟩ : CatchClause))
      inside.2

/-- A statement. -/
theorem statementOf (st : Statement) (agree : Agree value value' st.marks) :
    Gives holds (st.walk w) (·.inlined value' = st.inlined value) := by
  rw [Statement.walk]
  split
  · rename_i skips
    exact .same h.statement (h.skips st skips agree)
  match st with
  | .block b => exact h.ends (blockOf b agree)
  | .var ⟨decls, _⟩ => exact h.ends (declsOf decls agree)
  | .function fn => exact h.ends (functionOf fn agree)
  | .expr e => exact h.ends (exprOf _ e agree)
  | .ifElse test yes none _ =>
    rw [Statement.marks, agree_append, agree_append] at agree
    exact (exprOf _ test agree.1.1).bind fun _ _ => h.ends (statementOf yes agree.1.2)
  | .ifElse test yes (some no) _ =>
    rw [Statement.marks, agree_append, agree_append] at agree
    exact (exprOf _ test agree.1.1).bind fun _ _ => (statementOf yes agree.1.2).bind fun _ _ =>
      h.ends (statementOf no agree.2)
  | .forLoop init test update body _ =>
    rw [Statement.marks, agree_append, agree_append, agree_append] at agree
    exact (forInitOf init agree.1.1.1).bind fun _ _ => (optionalOf test agree.1.1.2).bind fun _ _ =>
      (optionalOf update agree.1.2).bind fun _ _ => h.ends (statementOf body agree.2)
  | .forIn target object body _ =>
    rw [Statement.marks, agree_append, agree_append] at agree
    exact (forTargetOf target agree.1.1).bind fun _ _ => (exprOf _ object agree.1.2).bind fun _ _ =>
      h.ends (statementOf body agree.2)
  | .whileLoop test body _ =>
    rw [Statement.marks, agree_append] at agree
    exact (exprOf _ test agree.1).bind fun _ _ => h.ends (statementOf body agree.2)
  | .doWhile body test _ =>
    rw [Statement.marks, agree_append] at agree
    exact (statementOf body agree.1).bind fun _ _ => h.ends (exprOf _ test agree.2)
  | .switch subject cases _ =>
    rw [Statement.marks, agree_append] at agree
    exact (exprOf _ subject agree.1).bind fun _ _ => h.ends (casesOf cases agree.2)
  | .tryCatch block handler none _ =>
    rw [Statement.marks, agree_append, agree_append] at agree
    exact (blockOf block agree.1.1).bind fun _ _ => h.ends (handlerOf handler agree.1.2)
  | .tryCatch block handler (some finalizer) _ =>
    rw [Statement.marks, agree_append, agree_append] at agree
    exact (blockOf block agree.1.1).bind fun _ _ => (handlerOf handler agree.1.2).bind fun _ _ =>
      h.ends (blockOf finalizer agree.2)
  | .labeled _ body _ =>
    exact h.ends (statementOf body agree)
  | .returnWith e _ => exact h.ends (optionalOf e agree)
  | .throw e _ => exact h.ends (exprOf _ e agree)
  | .withObject object body scope span =>
    rw [Statement.marks, agree_append, agree_append] at agree
    have entered : Gives holds (w.enterWith scope span) (· = scope) := h.enterWith scope span
    have left : Gives holds w.leaveWith fun _ => True := fun s inOrder => ⟨h.leaveWith s inOrder, trivial⟩
    exact (exprOf _ object agree.2.1).bind fun _ _ => entered.bind fun _ _ =>
      (statementOf body agree.2.2).bind fun _ _ => h.ends left
  | .breakTo .. | .continueTo .. | .debugger _ | .empty _ | .comment .. => exact .same h.statement rfl

end

/-- A walk whose steps leave trees that read alike leaves a program that reads alike. -/
theorem program (p : Program) (s : σ) (inOrder : holds s)
    (agree : Agree value value' p.marks) : (p.walk w s).1.inlined value' = p.inlined value :=
  congrArg (fun body => (⟨body, p.scope, .synthetic⟩ : Program)) (h.blockOf p.body (p.marks_eq ▸ agree) s inOrder).2

end Reads

end Walk

end Minifier
