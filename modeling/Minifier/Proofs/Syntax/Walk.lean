import Minifier.Proofs.Syntax.Marks
import Minifier.Syntax.Walk

/-!
# Walks in step

Two walks over the same tree visit the same places in the same order, whatever they make of the
tree, as long as they agree on which expressions to answer for and which statements to skip. What
every pair of steps preserves is then preserved by the walks as a whole, and so are the marks that
the second one leaves in its tree (`InStep.program`).

`Bond` is what is preserved: a relation between the two states, an order in which they only grow,
and the marks that are in order in given states. The walk of interest is the second one. The first
may be the walk that does nothing, if there is only one walk to speak of (`Bond.alone`).
-/

set_option autoImplicit false

namespace Minifier

variable {σ τ α β γ δ : Type}

/-- What two walks preserve together. -/
structure Bond (σ τ : Type) where
  /-- The relation between the states. -/
  holds : σ → τ → Prop
  /-- How the states may have changed since an earlier moment. -/
  grows : σ → τ → σ → τ → Prop
  /-- Whether a mark is in order. -/
  fits : σ → τ → Mark → Prop
  refl : ∀ s t, grows s t s t
  trans : ∀ {s t s₁ t₁ s₂ t₂}, grows s t s₁ t₁ → grows s₁ t₁ s₂ t₂ → grows s t s₂ t₂
  /-- A mark that is in order stays so. -/
  mono : ∀ {s t s₁ t₁ mark}, grows s t s₁ t₁ → fits s t mark → fits s₁ t₁ mark

namespace Bond

variable {part more : List Mark}

/-- Two steps preserve a bond: if the marks `before` are in order, then so are the marks that
`after` finds in the answer of the second. -/
def Keeps (B : Bond σ τ) (before : List Mark) (m : StateM σ α) (n : StateM τ β)
    (after : β → List Mark) : Prop :=
  ∀ s t, B.holds s t → (∀ mark ∈ before, B.fits s t mark) →
    B.holds (m s).2 (n t).2 ∧ B.grows s t (m s).2 (n t).2 ∧
      ∀ mark ∈ after (n t).1, B.fits (m s).2 (n t).2 mark

variable {B : Bond σ τ} {before : List Mark} {m : StateM σ α} {n : StateM τ β} {f : α → StateM σ γ}
  {g : β → StateM τ δ} {middle : β → List Mark} {after : δ → List Mark}

/-- Steps that do nothing. -/
theorem Keeps.pure {after : β → List Mark} (a : α) {b : β}
    (known : ∀ mark ∈ after b, mark ∈ before) :
    B.Keeps before (Pure.pure a : StateM σ α) (Pure.pure b : StateM τ β) after := by
  intro s t holds fits
  exact ⟨holds, B.refl s t, fun mark mem => fits mark (known mark mem)⟩

/-- What was in order before the first steps and what they left in order are there for the next. -/
theorem Keeps.bind (first : B.Keeps before m n middle)
    (next : ∀ a b, B.Keeps (before ++ middle b) (f a) (g b) after) :
    B.Keeps before (m >>= f) (n >>= g) after := by
  intro s t holds fits
  obtain ⟨holds₁, grows₁, fits₁⟩ := first s t holds fits
  have known : ∀ mark ∈ before ++ middle (n t).1, B.fits (m s).2 (n t).2 mark := by
    intro mark mem
    rcases List.mem_append.mp mem with old | new
    · exact B.mono grows₁ (fits mark old)
    · exact fits₁ mark new
  obtain ⟨holds₂, grows₂, fits₂⟩ := next (m s).1 (n t).1 _ _ holds₁ known
  exact ⟨holds₂, B.trans grows₁ grows₂, fits₂⟩

/-- More may be in order than matters. -/
theorem Keeps.of_subset {after : β → List Mark} (keeps : B.Keeps before m n after)
    (known : ∀ mark ∈ before, mark ∈ more) : B.Keeps more m n after :=
  fun s t holds fits => keeps s t holds fun mark mem => fits mark (known mark mem)

/-- A first step, to which some of the marks matter, and what comes after it. -/
theorem Keeps.next (first : B.Keeps part m n middle)
    (next : ∀ a b, B.Keeps (before ++ middle b) (f a) (g b) after)
    (known : ∀ mark ∈ part, mark ∈ before := by simp_all) : B.Keeps before (m >>= f) (n >>= g) after :=
  (first.of_subset known).bind next

/-- A last step, and what is made of its answer. -/
theorem Keeps.last {f : α → γ} {g : β → δ} (last : B.Keeps part m n middle)
    (known : ∀ mark ∈ part, mark ∈ before := by simp_all)
    (made : ∀ b, ∀ mark ∈ after (g b), mark ∈ before ++ middle b := by simp_all) :
    B.Keeps before (m >>= fun a => Pure.pure (f a)) (n >>= fun b => Pure.pure (g b)) after :=
  last.next (fun a b => Keeps.pure (f a) (made b)) known

/-! ### A single walk

What one walk preserves is a bond with the walk that does nothing. -/

/-- A bond of one walk, from what it says about the state of that walk. -/
def alone (inv : τ → Prop) (grows : τ → τ → Prop) (fits : τ → Mark → Prop)
    (refl : ∀ t, grows t t) (trans : ∀ {t t₁ t₂}, grows t t₁ → grows t₁ t₂ → grows t t₂)
    (mono : ∀ {t t₁ mark}, grows t t₁ → fits t mark → fits t₁ mark) : Bond Unit τ where
  holds _ := inv
  grows _ t _ := grows t
  fits _ := fits
  refl _ := refl
  trans := trans
  mono := mono

section Alone

variable {B : Bond Unit τ}

/-- One step preserves a bond. -/
def Runs (B : Bond Unit τ) (before : List Mark) (n : StateM τ β) (after : β → List Mark) :
    Prop := B.Keeps before (Pure.pure () : StateM Unit Unit) n after

/-- A step that does nothing. -/
theorem Runs.pure {after : β → List Mark} {b : β} (known : ∀ mark ∈ after b, mark ∈ before) :
    B.Runs before (Pure.pure b) after :=
  Keeps.pure () known

/-- One step after another. -/
theorem Runs.bind (first : B.Runs before n middle)
    (next : ∀ b, B.Runs (before ++ middle b) (g b) after) : B.Runs before (n >>= g) after :=
  Keeps.bind first fun _ b => next b

/-- What is made of an answer. -/
theorem Runs.map {f : β → δ} (runs : B.Runs before n middle)
    (known : ∀ b, ∀ mark ∈ after (f b), mark ∈ middle b) : B.Runs before (f <$> n) after :=
  runs.bind fun b => Runs.pure fun mark mem => List.mem_append_right _ (known b mark mem)

/-- The state may be looked at, for marks that are in order in it. -/
theorem Runs.read {g : τ → StateM τ δ} (facts : τ → List Mark)
    (known : ∀ t, B.holds () t → (∀ mark ∈ before, B.fits () t mark) →
      ∀ mark ∈ facts t, B.fits () t mark)
    (next : ∀ t, B.Runs (before ++ facts t) (g t) after) : B.Runs before (get >>= g) after := by
  intro s t holds fits
  refine next t s t holds fun mark mem => ?_
  rcases List.mem_append.mp mem with old | new
  · exact fits mark old
  · exact known t holds fits mark new

/-- More may be in order than matters. -/
theorem Runs.of_subset {after : β → List Mark} (runs : B.Runs before n after)
    (known : ∀ mark ∈ before, mark ∈ more) : B.Runs more n after :=
  Keeps.of_subset runs known

/-- A first step, to which some of the marks matter, and what comes after it. -/
theorem Runs.next
    (first : B.Runs part n middle) (next : ∀ b, B.Runs (before ++ middle b) (g b) after)
    (known : ∀ mark ∈ part, mark ∈ before := by simp_all) : B.Runs before (n >>= g) after :=
  Keeps.next first (fun _ b => next b) known

/-- A last step, and what is made of its answer. -/
theorem Runs.last {g : β → δ}
    (last : B.Runs part n middle) (known : ∀ mark ∈ part, mark ∈ before := by simp_all)
    (made : ∀ b, ∀ mark ∈ after (g b), mark ∈ before ++ middle b := by simp_all) :
    B.Runs before (n >>= fun b => Pure.pure (g b)) after :=
  last.next (fun b => Runs.pure (made b)) known

theorem Runs.keeps {after : β → List Mark} (runs : B.Runs before n after) (a : α) :
    B.Keeps before (Pure.pure a : StateM Unit α) n after := runs

end Alone

end Bond

/-- The marks of a function but for those in its body. -/
def Function.headMarks (fn : Function) : List Mark :=
  scopeMarks fn.scope ++ (fn.name.toList ++ fn.params).map .name

/-- The marks of a `catch` clause but for those in its body. -/
def CatchClause.headMarks (clause : CatchClause) : List Mark :=
  scopeMarks clause.scope ++ [.name clause.param]

/-- A function has the marks of its head and those of its body. -/
theorem Function.marks_withBody (fn : Function) (body : Block) :
    Function.marks { fn with body } = fn.headMarks ++ body.marks := by
  simp [Function.headMarks]

theorem Function.headMarks_subset {fn : Function} : ∀ mark ∈ fn.headMarks, mark ∈ fn.marks := by
  intro mark mem
  obtain ⟨kind, name, params, body, scope, span⟩ := fn
  rw [Function.marks]
  exact List.mem_append_left _ mem

/-- So does a `catch` clause. -/
theorem CatchClause.marks_withBody (clause : CatchClause) (body : Block) :
    handlerMarks (some { clause with body }) = clause.headMarks ++ body.marks := by
  simp [CatchClause.headMarks]

theorem CatchClause.headMarks_subset {clause : CatchClause} :
    ∀ mark ∈ clause.headMarks, mark ∈ handlerMarks (some clause) := by
  intro mark mem
  obtain ⟨param, body, scope, span⟩ := clause
  rw [handlerMarks, List.append_cons]
  exact List.mem_append_left _ mem

/-- A callee that is no name is visited as any expression is. -/
theorem Form.walk_call (w : Walk σ) (callee : Expr) (args : List Expr)
    (other : ∀ id span, callee ≠ ⟨.ident id, span⟩) : (Form.call callee args).walk w = (do
      let callee' ← callee.walk w (some (.call callee args))
      return .call callee' (← walkArgs w (.call callee args) args)) := by
  rw [Form.walk]
  exact other

/-- Every pair of steps of two walks preserves a bond. A step that is not given does. -/
structure InStep (B : Bond σ τ) (w : Walk σ) (v : Walk τ) : Prop where
  skips : w.skips = v.skips := by rfl
  /-- Both answer for the same expressions. -/
  answers : ∀ around e s t, B.holds s t → (∀ mark ∈ e.marks, B.fits s t mark) →
    (w.expr? around e s).1.isSome = (v.expr? around e t).1.isSome := by intros; rfl
  expr? : ∀ around e, B.Keeps e.marks (w.expr? around e) (v.expr? around e) optionalMarks := by
    intros; exact Bond.Keeps.pure _ (by simp)
  use : ∀ isCallee id, B.Keeps [.use id, .name id] (w.use isCallee id) (v.use isCallee id)
    fun id => [.use id, .name id] := by intros; exact Bond.Keeps.pure _ (by simp)
  declare : ∀ id, B.Keeps [.name id] (w.declare id) (v.declare id) fun id => [.name id] := by
    intros; exact Bond.Keeps.pure _ (by simp)
  enterFunction : ∀ fn, B.Keeps fn.marks (w.enterFunction fn) (v.enterFunction fn)
    Function.headMarks := by intros; exact Bond.Keeps.pure _ Function.headMarks_subset
  leaveFunction : ∀ fn fn', B.Keeps fn'.marks (w.leaveFunction fn) (v.leaveFunction fn')
    Function.marks := by intros; exact Bond.Keeps.pure _ (by simp)
  enterCatch : ∀ clause, B.Keeps (handlerMarks (some clause)) (w.enterCatch clause)
    (v.enterCatch clause) CatchClause.headMarks := by
    intros; exact Bond.Keeps.pure _ CatchClause.headMarks_subset
  leaveCatch : B.Keeps [] w.leaveCatch v.leaveCatch fun _ => [] := by
    exact Bond.Keeps.pure _ (by simp)
  enterWith : ∀ scope span, B.Keeps (scopeMarks scope) (w.enterWith scope span)
    (v.enterWith scope span) scopeMarks := by intros; exact Bond.Keeps.pure _ (by simp)
  leaveWith : B.Keeps [] w.leaveWith v.leaveWith fun _ => [] := by
    exact Bond.Keeps.pure _ (by simp)
  statement : ∀ s s', B.Keeps s'.marks (w.statement s) (v.statement s') Statement.marks := by
    intros; exact Bond.Keeps.pure _ (by simp)
  block : ∀ b b', B.Keeps (statementMarks b') (w.block b) (v.block b') statementMarks := by
    intros; exact Bond.Keeps.pure _ (by simp)
  switchCase : ∀ c c', B.Keeps c'.marks (w.switchCase c) (v.switchCase c') SwitchCase.marks := by
    intros; exact Bond.Keeps.pure _ (by simp)

namespace InStep

open Bond

variable {B : Bond σ τ} {w : Walk σ} {v : Walk τ}

variable (h : InStep B w v)
include h

/-- The last of the parts of a statement, and the statement itself. -/
theorem ends {before part : List Mark} {m : StateM σ α} {n : StateM τ β}
    {f : α → Statement} {g : β → Statement} {middle : β → List Mark} (last : B.Keeps part m n middle)
    (known : ∀ mark ∈ part, mark ∈ before := by simp_all)
    (made : ∀ b, ∀ mark ∈ (g b).marks, mark ∈ before ++ middle b := by simp_all) :
    B.Keeps before (m >>= fun a => pure (f a) >>= w.statement)
      (n >>= fun b => pure (g b) >>= v.statement) Statement.marks :=
  last.next (fun a b => (h.statement (f a) (g b)).of_subset (made b)) known

set_option linter.unusedSectionVars false in
mutual

/-- The induction is on the tree that both walks go through; one case for each construct. -/
theorem exprOf (around : Option Form) : ∀ e : Expr,
    B.Keeps e.marks (e.walk w around) (e.walk v around) Expr.marks
  | ⟨form, span⟩ => by
    intro s t holds fits
    have same := h.answers around ⟨form, span⟩ s t holds fits
    obtain ⟨holds₁, grows₁, fits₁⟩ := h.expr? around ⟨form, span⟩ s t holds fits
    have inside : ∀ mark ∈ form.marks,
        B.fits (w.expr? around ⟨form, span⟩ s).2 (v.expr? around ⟨form, span⟩ t).2 mark := by
      intro mark mem
      exact B.mono grows₁ (fits mark (by simpa using mem))
    simp only [Expr.walk, bind, StateT.bind, pure]
    generalize w.expr? around ⟨form, span⟩ s = r, v.expr? around ⟨form, span⟩ t = q at *
    obtain ⟨answer, s₁⟩ := r
    obtain ⟨answer', t₁⟩ := q
    match answer, answer', same with
    | some _, some _, _ => exact ⟨holds₁, grows₁, fits₁⟩
    | none, none, _ =>
      obtain ⟨holds₂, grows₂, fits₂⟩ := formOf form s₁ t₁ holds₁ inside
      exact ⟨holds₂, B.trans grows₁ grows₂, fits₂⟩

/-- A form. -/
theorem formOf : ∀ form : Form, B.Keeps form.marks (form.walk w) (form.walk v) Form.marks
  | .ident id => (h.use false id).last
  | .array items => (itemsOf _ items).last
  | .object properties => (propertiesOf _ properties).last
  | .function fn => (functionOf fn).last
  | .member object _ => (exprOf _ object).last
  | .index object key => (exprOf _ object).next fun _ _ => (exprOf _ key).last
  | .call callee args => by
    by_cases isName : ∃ id span, callee = ⟨.ident id, span⟩
    · obtain ⟨id, span, rfl⟩ := isName
      exact (h.use true id).next fun _ _ => (argsOf _ args).last
    · have other : ∀ id span, callee ≠ ⟨.ident id, span⟩ := by simpa using isName
      rw [Form.walk_call w callee args other, Form.walk_call v callee args other]
      exact (exprOf _ callee).next fun _ _ => (argsOf _ args).last
  | .new callee none => (exprOf _ callee).last
  | .new callee (some args) => (exprOf _ callee).next fun _ _ => (argsOf _ args).last
  | .unary _ operand => (exprOf _ operand).last
  | .update _ _ operand => (exprOf _ operand).last
  | .binary _ left right => (exprOf _ left).next fun _ _ => (exprOf _ right).last
  | .conditional test yes no =>
    (exprOf _ test).next fun _ _ => (exprOf _ yes).next fun _ _ => (exprOf _ no).last
  | .number _ | .string _ | .regex _ _ | .boolean _ | .null | .this => Keeps.pure _ (by simp)

/-- The items of an array. -/
theorem itemsOf (around : Form) : ∀ items : List (Option Expr),
    B.Keeps (itemMarks items) (walkItems w around items) (walkItems v around items) itemMarks
  | [] => Keeps.pure _ (by simp)
  | none :: rest => (itemsOf around rest).last
  | some e :: rest => (exprOf _ e).next fun _ _ => (itemsOf _ rest).last

/-- The arguments of a call. -/
theorem argsOf (around : Form) : ∀ args : List Expr,
    B.Keeps (argMarks args) (walkArgs w around args) (walkArgs v around args) argMarks
  | [] => Keeps.pure _ (by simp)
  | e :: rest => (exprOf _ e).next fun _ _ => (argsOf _ rest).last

/-- The properties of an object. -/
theorem propertiesOf (around : Form) : ∀ properties : List Property,
    B.Keeps (propertyMarks properties) (walkProperties w around properties)
      (walkProperties v around properties) propertyMarks
  | [] => Keeps.pure _ (by simp)
  | ⟨key, kind, value, span⟩ :: rest => (exprOf _ value).next fun _ _ => (propertiesOf _ rest).last

/-- A function. -/
theorem functionOf : ∀ fn : Function, B.Keeps fn.marks (fn.walk w) (fn.walk v) Function.marks
  | ⟨kind, name, params, body, scope, span⟩ => by
    refine (h.enterFunction _).bind fun fn fn' => ?_
    refine (blockOf body).next fun body body' => ?_
    exact (h.leaveFunction _ _).of_subset (by rw [Function.marks_withBody]; simp_all)

/-- A block. -/
theorem blockOf : ∀ b : Block, B.Keeps b.marks (b.walk w) (b.walk v) Block.marks
  | ⟨statements, span⟩ => (statementsOf statements).next fun _ _ => (h.block _ _).last

/-- A list of statements. -/
theorem statementsOf : ∀ statements : List Statement,
    B.Keeps (statementMarks statements) (walkStatements w statements) (walkStatements v statements)
      statementMarks
  | [] => Keeps.pure _ (by simp)
  | s :: rest => (statementOf s).next fun _ _ => (statementsOf rest).last

/-- A declaration. -/
theorem declOf : ∀ d : VarDecl, B.Keeps d.marks (d.walk w) (d.walk v) VarDecl.marks
  | ⟨name, none, span⟩ => (h.declare name).last
  | ⟨name, some init, span⟩ => (h.declare name).next fun _ _ => (exprOf _ init).last

/-- Several declarations. -/
theorem declsOf : ∀ decls : List VarDecl,
    B.Keeps (declMarks decls) (walkDecls w decls) (walkDecls v decls) declMarks
  | [] => Keeps.pure _ (by simp)
  | d :: rest => (declOf d).next fun _ _ => (declsOf rest).last

/-- What a `for` loop starts with. -/
theorem forInitOf : ∀ init : ForInit, B.Keeps init.marks (init.walk w) (init.walk v) ForInit.marks
  | .nothing => Keeps.pure _ (by simp)
  | .var ⟨decls, span⟩ => (declsOf decls).last
  | .expr e => (exprOf _ e).last

/-- What a `for`-`in` loop assigns to. -/
theorem forTargetOf : ∀ target : ForTarget,
    B.Keeps target.marks (target.walk w) (target.walk v) ForTarget.marks
  | .var d => (declOf d).last
  | .expr e => (exprOf _ e).last

/-- An expression that may be missing. -/
theorem optionalOf : ∀ e : Option Expr,
    B.Keeps (optionalMarks e) (walkOptional w e) (walkOptional v e) optionalMarks
  | none => Keeps.pure _ (by simp)
  | some e => (exprOf _ e).last

/-- The clauses of a `switch`. -/
theorem casesOf : ∀ cases : List SwitchCase,
    B.Keeps (caseMarks cases) (walkCases w cases) (walkCases v cases) caseMarks
  | [] => Keeps.pure _ (by simp)
  | ⟨test, body, span⟩ :: rest =>
    (optionalOf test).next fun _ _ => (statementsOf body).next fun _ _ => (h.switchCase _ _).next fun _ _ =>
      (casesOf rest).last

/-- A `catch` clause. -/
theorem handlerOf : ∀ handler : Option CatchClause,
    B.Keeps (handlerMarks handler) (walkHandler w handler) (walkHandler v handler) handlerMarks
  | none => Keeps.pure _ (by simp)
  | some ⟨param, body, scope, span⟩ => by
    refine (h.enterCatch _).bind fun clause clause' => ?_
    refine (blockOf body).next fun body body' => ?_
    refine (h.leaveCatch.of_subset (by simp)).bind fun _ _ => ?_
    exact Keeps.pure _ (by rw [CatchClause.marks_withBody]; simp_all)

/-- A statement. -/
theorem statementOf (s : Statement) : B.Keeps s.marks (s.walk w) (s.walk v) Statement.marks := by
  rw [Statement.walk, Statement.walk, h.skips]
  split
  · exact h.statement s s
  match s with
  | .block b => exact h.ends (blockOf b)
  | .var ⟨decls, span⟩ => exact h.ends (declsOf decls)
  | .function fn => exact h.ends (functionOf fn)
  | .expr e => exact h.ends (exprOf _ e)
  | .ifElse test yes none span => exact (exprOf _ test).next fun _ _ => h.ends (statementOf yes)
  | .ifElse test yes (some no) span =>
    refine (exprOf _ test).next fun _ _ => (statementOf yes).next fun _ _ => ?_
    exact h.ends (statementOf no)
  | .forLoop init test update body span =>
    refine (forInitOf init).next fun _ _ => (optionalOf test).next fun _ _ => ?_
    exact (optionalOf update).next fun _ _ => h.ends (statementOf body)
  | .forIn target object body span =>
    refine (forTargetOf target).next fun _ _ => (exprOf _ object).next fun _ _ => ?_
    exact h.ends (statementOf body)
  | .whileLoop test body span => exact (exprOf _ test).next fun _ _ => h.ends (statementOf body)
  | .doWhile body test span => exact (statementOf body).next fun _ _ => h.ends (exprOf _ test)
  | .switch subject cases span => exact (exprOf _ subject).next fun _ _ => h.ends (casesOf cases)
  | .tryCatch block handler none span =>
    exact (blockOf block).next fun _ _ => h.ends (handlerOf handler)
  | .tryCatch block handler (some finalizer) span =>
    refine (blockOf block).next fun _ _ => (handlerOf handler).next fun _ _ => ?_
    exact h.ends (blockOf finalizer)
  | .labeled label body span => exact h.ends (statementOf body)
  | .returnWith value span => exact h.ends (optionalOf value)
  | .throw value span => exact h.ends (exprOf _ value)
  | .withObject object body scope span =>
    refine (exprOf _ object).next fun _ _ => (h.enterWith scope span).next fun _ _ => ?_
    refine (statementOf body).next fun _ _ => h.leaveWith.next fun _ _ => ?_
    refine (h.statement _ _).of_subset ?_
    simp only [Statement.marks, List.mem_append]
    grind
  | .breakTo .. | .continueTo .. | .debugger _ | .empty _ | .comment .. =>
    exact (h.statement _ _).of_subset (by simp)

end

/-- What every pair of steps preserves, the walks preserve. -/
theorem program (p : Program) : B.Keeps p.marks (p.walk w) (p.walk v) Program.marks := by
  rw [p.marks_eq]
  exact (h.blockOf p.body).bind fun _ _ => Keeps.pure _ (by simp_all [Program.marks_eq])

end InStep

end Minifier
