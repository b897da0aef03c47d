import Minifier.DeclarationOrder
import Minifier.Proofs.Parse.Unbound
import Minifier.Proofs.Syntax.Blocks
import Minifier.SharedLiteral
import Minifier.Simplify.Pass

/-!
# With everything switched off

The kill switch has a bit for each transformation. With all of them set, no pass changes a program, its
scopes or the report (`BoundProgram.passes_of_switchedOff`), although the passes run. One change has
no bit: empty statements are taken out of the lists of blocks (`Program.withoutEmpty`).

Each rule is shown to do nothing by its own bit, and a walk whose rules do nothing changes nothing.
-/

set_option autoImplicit false

namespace Minifier

open Settings

/-- The program without the empty statements in its blocks. Those in the clauses of a `switch` and
those that are a body stay. -/
def Program.withoutEmpty (p : Program) : Program :=
  p.mapBlocks fun statements => statements.filter fun s => !s.isEmpty

/-- Every transformation is switched off. -/
def KillSwitch.IsFull (k : KillSwitch) : Prop := ∀ t, k.contains t = true

/-- A rule that does not apply leaves its argument alone. -/
@[simp] theorem Edited.when_false {α : Type} (rule : α → Edited α) (a : α) :
    Edited.when false rule a = pure a := rfl

/-- What has not been edited is handed on. -/
@[simp] theorem Edited.pure_bind {α β : Type} (a : α) (f : α → Edited β) : pure a >>= f = f a := by
  show (⟨(f a).value, false || (f a).changed⟩ : Edited β) = f a
  rw [Bool.false_or]

/-! ## Rules that do not apply -/

section Rules

variable {settings : Settings} (full : settings.killSwitch.IsFull)
include full

/-- No transformation applies if all of them are switched off. -/
theorem Settings.applies_of_isFull (t : Transformation) : settings.applies t = false := by
  simp [applies, allows, full t]

/-- Nothing is removed either. -/
theorem Settings.removes_of_isFull (t : Transformation) : settings.removes t = false := by
  simp [removes, applies_of_isFull full]

/-- Expressions stay as they are. -/
theorem Settings.reduce_of_isFull (slot : Slot) (condition : Bool)
    (e : Expr) : settings.reduce slot condition e = pure e := by
  rw [reduce, applies_of_isFull full, Edited.when_false]

/-- Declarations stay where they are. -/
theorem Block.orderDeclarations_of_isFull (b : Block) : b.orderDeclarations settings = pure b := by
  obtain ⟨statements, span⟩ := b
  simp [orderDeclarations, applies_of_isFull full]

/-- No `if` becomes an expression. -/
theorem Statement.ifExpr?_of_isFull (s : Statement) : s.ifExpr? settings = none := by
  cases s with
  | ifElse test yes no span =>
    cases no <;> simp [ifExpr?, applies_of_isFull full]
  | _ => rfl

/-- An `if` keeps its test and its branches. -/
theorem Statement.simplifyIf_of_isFull (s : Statement) : s.simplifyIf settings = pure s := by
  cases s with
  | ifElse test yes no span =>
    simp [simplifyIf, simplifyBranches, reduce_of_isFull full,
      removes_of_isFull full, applies_of_isFull full, ifExpr?_of_isFull full,
      shorterOf]
  | _ => rfl

/-- A `while` loop stays one. -/
theorem Statement.simplifyWhile_of_isFull (s : Statement) : s.simplifyWhile settings = pure s := by
  cases s with
  | whileLoop test body span =>
    simp [simplifyWhile, reduce_of_isFull full, removes_of_isFull full]
  | _ => rfl

/-- No clause of a `switch` is found to be redundant. -/
theorem redundantCase?_of_isFull (cases : List SwitchCase) :
    redundantCase? settings cases = none := by
  have never (hasDefault isLast : Bool) (c : SwitchCase) :
      c.isRedundant settings hasDefault isLast = false := by
    unfold SwitchCase.isRedundant
    split <;> simp [applies_of_isFull full]
  simp [redundantCase?, never]

/-- The clauses of a `switch` stay, and there is nothing to report. -/
theorem simplifyCases_of_isFull (cases : List SwitchCase) :
    simplifyCases settings cases = (pure cases, []) := by
  have none_ (fuel : Nat) : dropRedundant settings fuel cases = (pure cases, []) := by
    cases fuel <;> simp [dropRedundant, redundantCase?_of_isFull full]
  have untrimmed (clauses : List SwitchCase) :
      Edited.when (settings.applies .dropTrailingBreak) dropTrailingBreak clauses = ⟨clauses, false⟩ := by
    rw [applies_of_isFull full]
    rfl
  simp only [simplifyCases, untrimmed, none_]
  rfl

/-- Neighbouring returns are not folded. -/
theorem foldReturns_of_isFull (statements : List Statement) :
    foldReturns settings statements = pure statements := by
  induction statements with
  | nil => rfl
  | cons s rest ih =>
    rw [foldReturns, ih, Edited.pure_bind]
    cases rest <;> simp [consReturn, applies_of_isFull full]

/-- The end of a function stays. -/
theorem simplifyEnd_of_isFull (statements : List Statement) :
    simplifyEnd settings statements = pure statements := by
  simp [simplifyEnd, applies_of_isFull full]

/-! ## The passes -/

/-- The walk that orders the bodies of functions changes nothing. -/
theorem orderInFunctions_leaves : (orderInFunctions settings).Leaves id fun _ => () where
  leaveFunction fn _ := by
    obtain ⟨kind, name, params, body, scope, span⟩ := fn
    refine ⟨?_, rfl⟩
    show (⟨kind, name, params, (body.orderDeclarations settings).value, scope, span⟩ : Function) = _
    rw [Block.orderDeclarations_of_isFull full]
    rfl

/-- The first pass gives a program back. -/
theorem BoundProgram.orderDeclarations_of_isFull
    (b : BoundProgram) : (b.orderDeclarations settings).value = b := by
  have program : (b.program.orderDeclarations settings).value = b.program := by
    unfold Program.orderDeclarations
    split
    · have walked := ((orderInFunctions_leaves full).program b.program false).1
      rw [Program.mapBlocks_id] at walked
      generalize b.program.walk (orderInFunctions settings) false = r at walked ⊢
      obtain ⟨program, changed⟩ := r
      obtain rfl : program = b.program := walked
      simp only [Block.orderDeclarations_of_isFull full]
      rfl
    · rfl
  show ({ b with program := _ } : BoundProgram) = b
  rw [program]

end Rules

namespace Simplify

/-- What a simplification makes of the scopes and of the report. -/
def State.findings (s : State) : ScopeTree × Report := (s.tree, s.report)

open Walk (Comes)

/-- Taking over an edit comes to its value, and finds nothing. -/
theorem comes_take {α : Type} (edited : Edited α) : Comes State.findings edited.value (take edited) :=
  fun _ => ⟨rfl, rfl⟩

/-- Nothing to report is no finding. -/
theorem comes_tell_nil : Comes State.findings () (tell []) :=
  fun s => ⟨rfl, congrArg (s.tree, ·) Array.appendList_nil⟩

variable {settings : Settings} (full : settings.killSwitch.IsFull)
include full

/-- An expression comes through. -/
theorem comes_reduce (slot : Slot) (condition : Bool) (e : Expr) :
    Comes State.findings e (reduce settings slot condition e) := by
  rw [reduce, reduce_of_isFull full]
  exact comes_take _

/-- So does one that may be missing. -/
theorem comes_reduceOptional (condition : Bool) (e : Option Expr) :
    Comes State.findings e (reduceOptional settings condition e) := by
  cases e with
  | none => exact .pure _
  | some e => exact (comes_reduce full .top condition e).map

/-- A declaration keeps its value. -/
theorem comes_reduceDecl (d : VarDecl) : Comes State.findings d (reduceDecl settings d) := by
  obtain ⟨_, init, _⟩ := d
  cases init with
  | none => exact .pure _
  | some init => exact (comes_reduce full .item false init).map

/-- So do several. -/
theorem comes_reduceDecls (decls : List VarDecl) :
    Comes State.findings decls (decls.mapM (reduceDecl settings)) := by
  induction decls with
  | nil => exact .pure _
  | cons d rest ih =>
    rw [List.mapM_cons]
    exact (comes_reduceDecl full d).bind ih.map

/-- A return keeps its value, even if that is `undefined`. -/
theorem comes_plainReturn (value : Option Expr) :
    Comes State.findings value (plainReturn settings value) := by
  simp only [plainReturn, applies_of_isFull full, Bool.false_and, Bool.false_eq_true, if_false]
  exact fun _ => ⟨rfl, rfl⟩

/-- Statements that are never executed stay. -/
theorem comes_dropDead (statements : List Statement) :
    Comes State.findings statements (dropDead settings statements) := by
  rw [dropDead, removes_of_isFull full]
  exact .pure _

/-- Of a list of statements only the empty ones go. This is the one rule without a switch. -/
theorem comes_list (statements : List Statement) :
    Comes State.findings (statements.filter fun s => !s.isEmpty) (list settings statements) := by
  simp only [list, applies_of_isFull full, removes_of_isFull full,
    Edited.when_false, takeWith, Bool.false_eq_true, if_false]
  refine (comes_take _).bind ((comes_take (dropEmpty _)).bind ((comes_dropDead full _).bind ?_))
  refine (comes_take _).bind ((comes_take _).bind ((Comes.pure _).bind ((Comes.pure _).bind ?_)))
  rw [foldReturns_of_isFull full]
  exact comes_take _

/-- A statement comes through, whatever its kind. -/
theorem comes_statement (s : Statement) : Comes State.findings s (statement settings s) := by
  have reduced := comes_reduce full
  cases s with
  | ifElse test yes no span =>
    rw [statement, Statement.simplifyIf_of_isFull full]
    exact comes_take _
  | whileLoop test body span =>
    rw [statement, Statement.simplifyWhile_of_isFull full]
    exact comes_take _
  | expr e => exact (reduced _ _ e).map
  | var vars =>
    obtain ⟨decls, span⟩ := vars
    exact (comes_reduceDecls full decls).map
  | doWhile body test span => exact (reduced _ _ test).map
  | forLoop init test update body span =>
    have parts := comes_reduceOptional full true
    have rest (init : ForInit) : Comes State.findings (Statement.forLoop init test update body span) (do
        let test ← reduceOptional settings true test
        let update ← reduceOptional settings true update
        return Statement.forLoop init test update body span) := (parts test).bind (parts update).map
    cases init with
    | expr e => exact (reduced _ _ e).bind (rest _)
    | _ => exact rest _
  | forIn target object body span => exact (reduced _ _ object).map
  | switch subject cases span =>
    refine (reduced _ _ subject).bind ?_
    rw [simplifyCases_of_isFull full]
    exact comes_tell_nil.bind (comes_take _).map
  | returnWith value span =>
    exact (comes_reduceOptional full false value).bind (comes_plainReturn full value).map
  | throw value span => exact (reduced _ _ value).map
  | withObject object body scope span => exact (reduced _ _ object).map
  | _ => exact .pure _

/-- A function keeps its end and its parameters. -/
theorem comes_functionEnd (fn : Function) : Comes State.findings fn (functionEnd settings fn) := by
  obtain ⟨kind, name, params, ⟨statements, _⟩, scope, span⟩ := fn
  simp only [functionEnd, simplifyEnd_of_isFull full, removes_of_isFull full,
    Bool.false_and, Bool.false_eq_true, if_false]
  exact fun _ => ⟨rfl, rfl⟩

/-- The rules of simplification only drop the empty statements of blocks. -/
theorem rules_leaves : (rules settings).Leaves
    (fun statements => statements.filter fun s => !s.isEmpty) State.findings where
  leaveFunction := comes_functionEnd full
  statement := comes_statement full
  block := comes_list full
  switchCase c := by
    obtain ⟨test, body, span⟩ := c
    exact (comes_dropDead full body).map

end Simplify

/-- With every transformation switched off, ordering declarations leaves a program as it is,
simplifying takes the empty statements out of its blocks, and sharing literals only comes to the next
phase. Neither scopes nor the report change. -/
theorem BoundProgram.passes_of_switchedOff (settings : Settings) (b : BoundProgram)
    (minifies : settings.minifyCode = true) (full : settings.killSwitch.IsFull) :
    (b.orderDeclarations settings).value = b ∧
      (b.simplify settings).value = { b with program := b.program.withoutEmpty } ∧
      (b.tree.phase = .fieldsReserved → ∃ shared, b.shareLiterals settings = .ok shared ∧
        shared.value = { b with tree := { b.tree with phase := .literalsShortcut } }) := by
  refine ⟨b.orderDeclarations_of_isFull full, ?_, fun phase => ?_⟩
  · have walked := (Simplify.rules_leaves full).program b.program ⟨b.tree, b.report, false⟩
    unfold simplify
    rw [if_pos minifies]
    generalize b.program.walk (Simplify.rules settings) ⟨b.tree, b.report, false⟩ = r at walked
    obtain ⟨program, tree, report, changed⟩ := r
    obtain ⟨rfl, ⟨⟩⟩ := walked
    rfl
  · refine ⟨pure { b with tree := { b.tree with phase := .literalsShortcut } }, ?_, rfl⟩
    simp only [shareLiterals, ScopeTree.advance, if_pos phase, applies_of_isFull full]
    rfl

/-- Empty statements, a negated test whose branches both return, braces around one statement, a clause
that ends in a `break` and a long number that is written twice. -/
theorem passes_of_switchedOff_nested : ∃ tokens p,
    Token.scan "function f(a){;if(!a){return 1;}else return 12345678;{a=1};switch(a){case 12345678:;break}}" =
      .ok tokens ∧ Program.parse tokens = .ok p ∧
    let settings : Settings := { killSwitch := ⟨0xFFFFFF⟩ }
    let bound := p.bind settings
    let b := { bound with tree := { bound.tree with phase := .fieldsReserved } }
    settings.killSwitch.IsFull ∧ (b.orderDeclarations settings).value = b ∧
      (b.simplify settings).value = { b with program := b.program.withoutEmpty } ∧
      ∃ shared, b.shareLiterals settings = .ok shared ∧
        shared.value = { b with tree := { b.tree with phase := .literalsShortcut } } := by
  obtain ⟨tokens, p, isScanned, isParsed⟩ := Program.exists_of_isReadable (by decide +kernel :
    Program.isReadable "function f(a){;if(!a){return 1;}else return 12345678;{a=1};switch(a){case 12345678:;break}}" = true)
  have full : KillSwitch.IsFull ⟨0xFFFFFF⟩ := by
    intro t
    cases t <;> decide
  refine ⟨tokens, p, isScanned, isParsed, full, ?_⟩
  obtain ⟨ordered, simplified, shared⟩ := BoundProgram.passes_of_switchedOff
    { killSwitch := ⟨0xFFFFFF⟩ } _ rfl full
  exact ⟨ordered, simplified, shared rfl⟩

end Minifier
