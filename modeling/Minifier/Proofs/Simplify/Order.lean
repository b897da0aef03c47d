import Minifier.Proofs.Simplify.Census

/-!
# What the order of declarations leaves of a tree

Where a declaration with an initializer leaves a list, an assignment stays. By a census that does not
mind that a declared name is mentioned, a tree comes to no more when its declarations are put in order
(`Program.census_orderDeclarations_le`). Functions only move, and a name that is gathered twice is
declared once.
-/

set_option autoImplicit false

namespace Minifier

variable {M : Type} [AddCommMonoid M] {c : Census M} {le : M → M → Prop}

/-! ## One list -/

namespace Block

variable (settings : Settings) (b : Block)

/-- The list with its bare blocks opened, if they are. -/
def opened : List Statement :=
  (Edited.when (settings.applies .unnestBlocks) unnestBlocks b.statements).value

/-- The rules one after the other: functions and declarations are moved to the place where the list had
its insertion point before. -/
theorem orderDeclarations_steps (motive : List Statement → Prop) (held : Nat → List Statement → Prop)
    (final : List Statement → Prop) (start : motive (b.opened settings))
    (join : ∀ l, motive l → motive (joinVars l).value)
    (hoist : ∀ l index, insertionPoint ⟨l, b.span⟩ = index → motive l → held index l ∧
      (settings.applies .moveFunctions → held index (hoistFunctions index l).value))
    (gather : ∀ index l, held index l → final l ∧ final (gatherVars index l).value) :
    final (b.orderDeclarations settings).value.statements := by
  simp only [orderDeclarations, Edited.value_bind, Edited.value_pure]
  rw [← opened]
  have joined := Edited.when_value motive (settings.applies .joinVars) joinVars _ start (join _ start)
  generalize (Edited.when (settings.applies .joinVars) joinVars (b.opened settings)).value = l at joined
  obtain ⟨stays, moves⟩ := hoist l _ rfl joined
  have hoisted : held (insertionPoint ⟨l, b.span⟩) (Edited.when (settings.applies .moveFunctions)
      (hoistFunctions (insertionPoint ⟨l, b.span⟩)) l).value := by
    unfold Edited.when
    split
    next applies => exact moves applies
    next => exact stays
  exact Edited.when_value final _ _ _ (gather _ _ hoisted).1 (gather _ _ hoisted).2

end Block

section Order

variable (sheds : c.Sheds le) (assigns : ∀ id, le (c.declare id + c.use false id) (c.declare id))
include sheds assigns

/-- An initializer that is left behind as an assignment mentions the declared name. -/
theorem declCensus_assignments_le (around : Form) (decls : List VarDecl) :
    le (declCensus c (decls.map VarDecl.nameOnly) +
      argCensus c around (decls.filterMap VarDecl.assignment?)) (declCensus c decls) := by
  have plain := sheds.toIsPlain
  induction decls with
  | nil => simpa using sheds.refl 0
  | cons d rest ih =>
    obtain ⟨name, init, span⟩ := d
    cases init with
    | none =>
      have first := sheds.add (sheds.refl (c.declare name)) ih
      have skips : ((⟨name, none, span⟩ : VarDecl) :: rest).filterMap VarDecl.assignment? =
        rest.filterMap VarDecl.assignment? := rfl
      simpa [skips, VarDecl.nameOnly, add_assoc] using first
    | some init =>
      have first := sheds.add (sheds.add (assigns name) (sheds.refl (init.census c none))) ih
      have order : c.declare name + c.use false name + init.census c none +
          (declCensus c (rest.map VarDecl.nameOnly) +
            argCensus c around (rest.filterMap VarDecl.assignment?)) =
          declCensus c (((⟨name, some init, span⟩ : VarDecl) :: rest).map VarDecl.nameOnly) +
            argCensus c around (((⟨name, some init, span⟩ : VarDecl) :: rest).filterMap
              VarDecl.assignment?) := by
        have assigned := Expr.census_span plain (.binary .assign ⟨.ident name, name.span⟩ init) span
        rw [Expr.census_binary plain, Expr.census_ident plain,
          ← Expr.census_around plain (some around)] at assigned
        simp only [List.map_cons, List.filterMap_cons, VarDecl.nameOnly, VarDecl.assignment?,
          Option.map_some, declCensus, argCensus, VarDecl.census, optionalCensus, add_zero]
        refine Eq.trans ?_ (congrArg (fun m => _ + (m + _)) assigned.symm)
        ac_rfl
      rw [order] at first
      simpa using first

/-- Declarations that leave a statement, and what stays of it. -/
theorem Statement.census_leaving_le (s : Statement) :
    le (declCensus c s.leavingDecls + statementCensus c s.staying) (s.census c) := by
  have plain := sheds.toIsPlain
  cases s with
  | var vars =>
    obtain ⟨decls, span⟩ := vars
    simp only [Statement.leavingDecls, Statement.staying]
    split
    · simpa using sheds.refl _
    · split
      · have parts := declCensus_assignments_le sheds assigns .null decls
        cases found : Expr.sequence? (decls.filterMap VarDecl.assignment?) with
        | none =>
          have nothing : decls.filterMap VarDecl.assignment? = [] := by
            cases assigned : decls.filterMap VarDecl.assignment? with
            | nil => rfl
            | cons e rest =>
              rw [assigned] at found
              cases found
          simpa [nothing] using parts
        | some e =>
          rw [← Expr.census_sequence plain .null found, ← Expr.census_span plain e span] at parts
          simpa [plain.line] using parts
      · simpa using sheds.refl _
  | _ => simpa [Statement.leavingDecls, Statement.staying] using sheds.refl _

omit assigns sheds in
theorem Statement.bare_leavingDecls (s : Statement) : ∀ d ∈ s.leavingDecls, d.init = none := by
  unfold Statement.leavingDecls
  split
  · rename_i vars
    split
    · rename_i bare
      intro d mem
      have none := List.length_eq_zero_iff.mp bare
      have := List.filter_eq_nil_iff.mp none d mem
      simpa using this
    · split
      · simp [VarDecl.nameOnly]
      · simp
  · simp

theorem census_gatherInto_le (first : VarStatement) (created : Bool) (rest : List Statement) :
    le (statementCensus c (gatherInto first created rest).value)
      (declCensus c first.decls + statementCensus c rest) := by
  have bare : ∀ d ∈ rest.flatMap Statement.leavingDecls, d.init = none := by
    intro d mem
    obtain ⟨s, -, leaves⟩ := List.mem_flatMap.mp mem
    exact s.bare_leavingDecls d leaves
  have gathered := declCensus_foldl_addDecl_le sheds _ bare first.decls
  have leaving : le (declCensus c (rest.flatMap Statement.leavingDecls) +
      statementCensus c (rest.flatMap Statement.staying)) (statementCensus c rest) := by
    clear bare gathered
    induction rest with
    | nil => simpa using sheds.refl 0
    | cons s rest ih =>
      have parts := sheds.add (s.census_leaving_le sheds assigns) ih
      rw [add_add_add_comm] at parts
      simpa using parts
  have whole : le (declCensus c ((rest.flatMap Statement.leavingDecls).foldl addDecl first.decls) +
      statementCensus c (rest.flatMap Statement.staying))
      (declCensus c first.decls + statementCensus c rest) := by
    refine sheds.trans (sheds.add gathered (sheds.refl _)) ?_
    rw [add_assoc]
    exact sheds.add (sheds.refl _) leaving
  simp only [gatherInto]
  split
  · rename_i none
    rw [List.isEmpty_iff.mp none] at whole
    simpa using whole
  · simpa using whole

theorem census_gatherVars_le (index : Nat) (statements : List Statement) :
    le (statementCensus c (gatherVars index statements).value) (statementCensus c statements) := by
  unfold gatherVars
  split
  · exact sheds.refl _
  · have whole : statements = statements.take index ++
        ((statements.drop index).span Statement.isFunction).1 ++
        ((statements.drop index).span Statement.isFunction).2 := by
      simp [List.span_eq_takeWhile_dropWhile]
    generalize (statements.drop index).span Statement.isFunction = parts at whole ⊢
    obtain ⟨functions, rest⟩ := parts
    simp only at whole ⊢
    have sum := congrArg (statementCensus c) whole
    rw [statementCensus_append] at sum
    rw [statementCensus_append, sum]
    refine sheds.add (sheds.refl _) ?_
    split
    · rename_i first rest
      obtain ⟨decls, span⟩ := first
      exact census_gatherInto_le sheds assigns ⟨decls, span⟩ false rest
    · simpa using census_gatherInto_le sheds assigns ⟨[], .synthetic⟩ true rest

theorem Block.census_orderDeclarations_le (settings : Settings) (b : Block) :
    le ((b.orderDeclarations settings).value.census c) (b.census c) := by
  have whole (b : Block) : b.census c = statementCensus c b.statements := by
    cases b
    exact sheds.list _
  rw [whole, whole b]
  let Same (l : List Statement) : Prop := statementCensus c l = statementCensus c b.statements
  refine b.orderDeclarations_steps settings Same (fun _ => Same)
    (fun l => le (statementCensus c l) (statementCensus c b.statements))
    (Edited.when_value Same _ _ _ rfl (statementCensus_unnestAll sheds.toIsPlain _))
    (fun l same => (statementCensus_joinVars l).trans same)
    (fun l index _ same => ⟨same, fun _ => (statementCensus_perm (perm_hoistFunctions index l)).trans same⟩)
    fun index l same => ?_
  rw [← same]
  exact ⟨sheds.refl _, census_gatherVars_le sheds assigns index l⟩

end Order

/-! ## All functions -/

section OrderWithin

variable (sheds : c.ShedsWithin le) (assigns : ∀ id, le (c.declare id + c.use false id) (c.declare id))
include sheds assigns

theorem orderInFunctions_tracks (settings : Settings) :
    c.Tracks c (orderInFunctions settings) fun _ a b _ => le b a where
  zero _ := sheds.refl 0
  add first second := sheds.add first second
  line e _ _ less := by simpa [sheds.line] using less
  inner less := by simpa [sheds.inner] using less
  list less := by simpa [sheds.list] using less
  unanswered _ _ _ _ _ _ _ :=
    ⟨rfl, Expr.census_answers sheds.toIsPlain (fun a b => le b a) (sheds.refl 0) _ _ _ _⟩
  quiet around id span := Expr.census_ident sheds.toIsPlain around id span
  use _ id _ := sheds.refl _
  declare id _ := sheds.refl _
  function fn body s s₁ _ less := by
    obtain ⟨kind, name, params, body', scope, span⟩ := fn
    have ordered := body.census_orderDeclarations_le sheds.toSheds assigns settings
    exact sheds.function ⟨kind, name, params, body', scope, span⟩ params
      (body.orderDeclarations settings).value (sheds.trans ordered less)
  handler clause body s s₁ _ less := by
    obtain ⟨param, body', scope, span⟩ := clause
    exact sheds.handler ⟨param, body', scope, span⟩ body less
  withBody scope _ _ _ _ _ less := sheds.withBody scope less

theorem Program.census_orderDeclarations_le (settings : Settings) (p : Program) :
    le ((p.orderDeclarations settings).value.census c) (p.census c) := by
  unfold Program.orderDeclarations
  split
  · have inside := (orderInFunctions_tracks sheds assigns settings).program p false
    exact sheds.trans (Block.census_orderDeclarations_le sheds.toSheds assigns settings _) inside
  · exact sheds.refl _

end OrderWithin

end Minifier
