import Minifier.Proofs.Simplify.DeadCode
import Minifier.Proofs.Simplify.Order

/-!
# What the order of declarations moves

A statement list is read through its bare blocks: what stands in a block stands in the list. Then each
statement has some effects, declares some names by `var`, and may be a function declaration. A function
declaration has no effect, a `var` statement assigns its initializers, and an expression statement
evaluates the operands of its commas, one after the other.

Putting the declarations of a list in order moves function declarations and names, but no effects: the
list has the same effects in the same order, and declares the same names.
-/

set_option autoImplicit false

namespace Minifier

open Statement List

variable {statements : List Statement} (index : Nat) (rest : List Statement) (first : VarStatement)
  (created : Bool) (s : Statement) (name : String)

/-! ## Through bare blocks -/

section Through

variable {α : Type} (own : Statement → List α)

mutual

/-- What a statement has, or what the statements of a bare block have. -/
def Statement.through : Statement → List α
  | .block ⟨statements, _⟩ => throughBlocks statements
  | s => own s

/-- What the statements of a list have, one after the other, through bare blocks. -/
def throughBlocks : List Statement → List α
  | [] => []
  | s :: rest => s.through ++ throughBlocks rest

end

@[simp] theorem throughBlocks_append (a b : List Statement) :
    throughBlocks own (a ++ b) = throughBlocks own a ++ throughBlocks own b := by
  induction a with
  | nil => simp [throughBlocks]
  | cons s rest ih => simp [throughBlocks, ih]

theorem throughBlocks_eq_flatMap (statements : List Statement) :
    throughBlocks own statements = statements.flatMap (through own) := by
  induction statements with
  | nil => rfl
  | cons s rest ih => rw [throughBlocks, ih, flatMap_cons]

theorem Statement.through_of_ne {s : Statement} (bare : ∀ b, s ≠ .block b) : s.through own = own s := by
  cases s
  case block b => exact absurd rfl (bare b)
  all_goals rfl

/-- Opening the blocks of a list changes nothing for those who look through them. -/
theorem throughBlocks_unnestAll (statements : List Statement) :
    throughBlocks own (unnestAll statements) = throughBlocks own statements := by
  have opens : OpensBlocks fun a b => throughBlocks own a = throughBlocks own b := {
    nil := rfl
    append first second := by simp [first, second]
    bare _ _ := rfl
    block same := by simp [same, throughBlocks, Statement.through] }
  exact opens.unnestAll statements

end Through

/-! ## What each rule keeps -/

section Rules

variable {α : Type} {has : Statement → List α}

/-- What a list has stays, if two joined statements have what they had before. -/
theorem flatMap_joinVars
    (joins : ∀ a b : VarStatement, has (.var ⟨a.decls ++ b.decls, a.span.combine b.span⟩) =
      has (.var a) ++ has (.var b)) (statements : List Statement) :
    (joinVars statements).value.flatMap has = statements.flatMap has := by
  have from_ : ∀ rest s, (joinFrom joinVars? s rest).flatMap has = has s ++ rest.flatMap has := by
    intro rest s
    fun_induction joinFrom joinVars? s rest with
    | case1 => simp
    | case2 s next rest joined found ih =>
      unfold joinVars? at found
      split at found
      · cases found
        rw [ih, joins, flatMap_cons, append_assoc]
      · cases found
    | case3 s next rest found ih => rw [flatMap_cons, ih, flatMap_cons]
  cases statements with
  | nil => rfl
  | cons s rest => exact from_ rest s

/-- Of all statements only those of one kind count, if the others have nothing. -/
theorem flatMap_filter {kind : Statement → Bool}
    (nothing : ∀ s ∈ statements, kind s = false → has s = []) :
    (statements.filter kind).flatMap has = statements.flatMap has := by
  induction statements with
  | nil => rfl
  | cons s rest ih =>
    rw [forall_mem_cons] at nothing
    cases isKind : kind s with
    | true => rw [filter_cons_of_pos isKind, flatMap_cons, flatMap_cons, ih nothing.2]
    | false =>
      rw [filter_cons_of_neg (by simp [isKind]), flatMap_cons, nothing.1 isKind, ih nothing.2,
        nil_append]

/-- Functions move to an index among the other statements. -/
theorem hoistFunctions_cases (statements : List Statement) :
    (hoistFunctions index statements).value = statements ∨ (hoistFunctions index statements).value =
        (statements.filter (!·.isFunction)).take index ++ statements.filter isFunction ++
          (statements.filter (!·.isFunction)).drop index := by
  unfold hoistFunctions
  split
  · exact .inl rfl
  · right
    simp [Edited.value_of, partition_eq_filter_filter, Function.comp_def]

/-- What a list has stays if functions have nothing. -/
theorem flatMap_hoistFunctions (nothing : ∀ fn, has (.function fn) = []) (index : Nat)
    (statements : List Statement) :
    (hoistFunctions index statements).value.flatMap has = statements.flatMap has := by
  have none : ∀ s : Statement, s.isFunction = true → has s = [] := by
    intro s isFunction
    cases s
    case function fn => exact nothing fn
    all_goals cases isFunction
  obtain same | moved := hoistFunctions_cases index statements
  · rw [same]
  · have functions : (statements.filter isFunction).flatMap has = [] := by
      rw [flatMap_eq_nil_iff]
      intro s mem
      exact none s (of_mem_filter mem)
    rw [moved, flatMap_append, flatMap_append, functions, append_nil,
      ← flatMap_append, take_append_drop]
    exact flatMap_filter fun s _ isFunction => none s (by simpa using isFunction)

/-- What a list has stays if nothing but functions has any of it. -/
theorem flatMap_hoistFunctions_of_functions
    (nothing : ∀ s ∈ statements, s.isFunction = false → has s = []) (index : Nat) :
    (hoistFunctions index statements).value.flatMap has = statements.flatMap has := by
  obtain same | moved := hoistFunctions_cases index statements
  · rw [same]
  · have others : ∀ s ∈ statements.filter (!·.isFunction), has s = [] := by
      intro s mem
      obtain ⟨mem, isFunction⟩ := mem_filter.mp mem
      exact nothing s mem (by simpa using isFunction)
    have before : ((statements.filter (!·.isFunction)).take index).flatMap has = [] :=
      flatMap_eq_nil_iff.mpr fun s mem => others s (mem_of_mem_take mem)
    have after : ((statements.filter (!·.isFunction)).drop index).flatMap has = [] :=
      flatMap_eq_nil_iff.mpr fun s mem => others s (mem_of_mem_drop mem)
    rw [moved, flatMap_append, flatMap_append, before, after, nil_append, append_nil]
    exact flatMap_filter nothing

/-- The statement that gathers names, and those behind it; it is a new one if no `var` statement is in
its place. -/
theorem gatherVars_cases (statements : List Statement) :
    gatherVars index statements = pure statements ∨
      ∃ front rest first created, gatherVars index statements =
          ⟨front ++ (gatherInto first created rest).value, (gatherInto first created rest).changed⟩ ∧
        front = statements.take index ++ (statements.drop index).takeWhile isFunction ∧
        (created = true ∧ first.decls = [] ∧ statements = front ++ rest ∧
            (∀ vars more, rest ≠ .var vars :: more) ∨
          created = false ∧ statements = front ++ .var first :: rest) := by
  unfold gatherVars
  split
  · exact .inl rfl
  · right
    have whole : statements.take index ++ (statements.drop index).takeWhile isFunction ++
        (statements.drop index).dropWhile isFunction = statements := by
      rw [append_assoc, takeWhile_append_dropWhile, take_append_drop]
    rw [span_eq_takeWhile_dropWhile]
    dsimp only
    split
    next first rest isVar =>
      rw [isVar] at whole
      exact ⟨_, rest, first, false, rfl, rfl, .inr ⟨rfl, whole.symm⟩⟩
    next rest notVar =>
      exact ⟨_, _, ⟨[], .synthetic⟩, true, rfl, rfl, .inl ⟨rfl, rfl, whole.symm, notVar⟩⟩

theorem value_gatherInto : (gatherInto first created rest).value =
      (if ((rest.flatMap leavingDecls).foldl addDecl first.decls).isEmpty then []
        else [.var { first with decls := (rest.flatMap leavingDecls).foldl addDecl first.decls }]) ++
        rest.flatMap staying := by
  unfold gatherInto
  dsimp only
  split <;> rfl

theorem init_leavingDecls {rest : List Statement} : ∀ d ∈ rest.flatMap leavingDecls, d.init = none := by
  intro d mem
  obtain ⟨s, -, leaves⟩ := mem_flatMap.mp mem
  exact s.bare_leavingDecls d leaves

/-- What a list has stays, if a `var` statement has nothing of the names without initializers in it,
and what stays of a statement has what the statement has. -/
theorem flatMap_gatherVars (bare : ∀ vars : VarStatement, vars.decls = [] → has (.var vars) = [])
    (added : ∀ (vars : VarStatement) (more : List VarDecl), (∀ d ∈ more, d.init = none) →
      has (.var { vars with decls := more.foldl addDecl vars.decls }) = has (.var vars))
    (stays : ∀ s, s.staying.flatMap has = has s) (index : Nat) (statements : List Statement) :
    (gatherVars index statements).value.flatMap has = statements.flatMap has := by
  have gathered (first : VarStatement) (created : Bool) (rest : List Statement) :
      (gatherInto first created rest).value.flatMap has = has (.var first) ++ rest.flatMap has := by
    have behind : (rest.flatMap staying).flatMap has = rest.flatMap has := by
      rw [flatMap_assoc]
      simp only [stays]
    have ahead := added first (rest.flatMap leavingDecls) init_leavingDecls
    rw [value_gatherInto, flatMap_append, behind]
    split
    next empty => rw [← ahead, bare _ (isEmpty_iff.mp empty), flatMap_nil]
    next => rw [flatMap_singleton, ahead]
  obtain same | ⟨front, rest, first, created, value, -, whole⟩ := gatherVars_cases index statements
  · rw [same]
    rfl
  · rw [value, flatMap_append, gathered]
    obtain ⟨-, none, rfl, -⟩ | ⟨-, rfl⟩ := whole
    · rw [bare first none, nil_append, flatMap_append]
    · rw [flatMap_append, flatMap_cons]

end Rules

/-! ## Effects -/

/-- Something that a statement does. -/
inductive Effect where
  /-- Evaluates an expression of this form. -/
  | value (form : Form)
  | statement (s : Statement)

/-- The operands of the commas of an expression. -/
def Expr.operands : Expr → List Expr
  | ⟨.binary .comma left right, _⟩ => left.operands ++ right.operands
  | e => [e]

/-- The assignment of the initializer. -/
def VarDecl.effects (d : VarDecl) : List Effect :=
  d.init.toList.map fun init => .value (.binary .assign ⟨.ident d.name, d.name.span⟩ init)

/-- What a statement that is no bare block does. -/
def Statement.effects : Statement → List Effect
  | function _ => []
  | var vars => vars.decls.flatMap VarDecl.effects
  | expr e => e.operands.map (.value ·.form)
  | s => [.statement s]

/-- What the statements of a list do, one after the other, through bare blocks. -/
def effectsOf (statements : List Statement) : List Effect := throughBlocks effects statements

/-- The names that a `var` statement declares. -/
def Statement.varNames : Statement → List String
  | var vars => vars.decls.map (·.name.name)
  | _ => []

/-- The names that the `var` statements of a list declare, through bare blocks. -/
def directNames (statements : List Statement) : Finset String :=
  (throughBlocks varNames statements).toFinset

/-- The functions that are declared in a list, through bare blocks. -/
def directFunctions (statements : List Statement) : List Function :=
  throughBlocks ownFunction statements

theorem Expr.operands_binary (left right : Expr) :
    (binary .comma left right).operands = left.operands ++ right.operands := by
  rw [binary, operands]

/-- Expressions joined by commas, none of which has commas itself. -/
theorem Expr.operands_sequence {e : Expr} : ∀ {es : List Expr}, (∀ e ∈ es, e.operands = [e]) →
    sequence? es = some e → e.operands = es
  | first :: rest, plain, joined => by
    cases joined
    rw [forall_mem_cons] at plain
    have all : ∀ (rest : List Expr) (first : Expr), (∀ e ∈ rest, e.operands = [e]) →
        (rest.foldl (binary .comma) first).operands = first.operands ++ rest := by
      intro rest
      induction rest with
      | nil => simp
      | cons next rest ih =>
        intro first plain
        rw [forall_mem_cons] at plain
        rw [foldl_cons, ih _ plain.2, operands_binary, plain.1, append_assoc]
        rfl
    rw [all rest first plain.2, plain.1]
    rfl

theorem VarDecl.effects_eq (d : VarDecl) :
    d.effects = d.assignment?.toList.map fun e => .value e.form := by
  cases init : d.init <;> simp [effects, assignment?, init]

theorem VarDecl.operands_assignment {d : VarDecl} {e : Expr} (found : d.assignment? = some e) :
    e.operands = [e] := by
  obtain ⟨init, -, rfl⟩ := Option.map_eq_some_iff.mp found
  simp [Expr.operands]

theorem effects_assignments (decls : List VarDecl) :
    (decls.filterMap VarDecl.assignment?).map (fun e => Effect.value e.form) =
      decls.flatMap VarDecl.effects := by
  induction decls with
  | nil => rfl
  | cons d rest ih =>
    rw [flatMap_cons, ← ih, d.effects_eq]
    cases found : d.assignment? <;> simp [found]

/-- Nothing is assigned to names without initializers. -/
theorem effects_of_bare {decls : List VarDecl} (bare : ∀ d ∈ decls, d.init = none) :
    decls.flatMap VarDecl.effects = [] := by
  rw [flatMap_eq_nil_iff]
  intro d mem
  simp [VarDecl.effects, bare d mem]

theorem effects_foldl_addDecl {more : List VarDecl} (bare : ∀ d ∈ more, d.init = none)
    (decls : List VarDecl) :
    (more.foldl addDecl decls).flatMap VarDecl.effects = decls.flatMap VarDecl.effects := by
  induction more generalizing decls with
  | nil => rfl
  | cons d rest ih =>
    rw [forall_mem_cons] at bare
    rw [foldl_cons, ih bare.2]
    unfold addDecl
    split
    · rfl
    · have nothing : [d].flatMap VarDecl.effects = [] := effects_of_bare (by simpa using bare.1)
      rw [flatMap_append, nothing, append_nil]

/-- The span of an expression has no part in what it does. -/
theorem Expr.operands_span (e : Expr) (span : Span) :
    (Expr.operands { e with span }).map (fun e => Effect.value e.form) =
      e.operands.map fun e => .value e.form := by
  obtain ⟨form, old⟩ := e
  cases form
  case binary op left right => cases op <;> simp [operands]
  all_goals simp [operands]

/-- Initializers that stay behind as assignments. -/
theorem effects_sequence (vars : VarStatement) :
    (((Expr.sequence? (vars.decls.filterMap VarDecl.assignment?)).map fun e =>
      Statement.expr { e with span := vars.span }).toList).flatMap (through effects) =
      vars.decls.flatMap VarDecl.effects := by
  have plain : ∀ e ∈ vars.decls.filterMap VarDecl.assignment?, e.operands = [e] := by
    intro e mem
    obtain ⟨d, -, found⟩ := mem_filterMap.mp mem
    exact VarDecl.operands_assignment found
  rw [← effects_assignments]
  generalize vars.decls.filterMap VarDecl.assignment? = assignments at plain
  cases assignments with
  | nil => rfl
  | cons first rest =>
    have operands := Expr.operands_sequence plain rfl
    show through effects (.expr _) ++ [] = _
    rw [append_nil, through_of_ne _ (by simp), effects, Expr.operands_span, operands]

/-- The initializers of a statement whose names leave it stay behind. -/
theorem Statement.effects_staying : s.staying.flatMap (through effects) = s.through effects := by
  unfold staying
  split
  next vars =>
    rw [through_of_ne _ (by simp), effects]
    split
    next bare =>
      have none : ∀ d ∈ vars.decls, d.init = none := by
        intro d mem
        have := filter_eq_nil_iff.mp (length_eq_zero_iff.mp bare) d mem
        simpa using this
      rw [effects_of_bare none, flatMap_nil]
    next =>
      split
      · exact effects_sequence vars
      · rw [flatMap_singleton, through_of_ne _ (by simp), effects]
  next => rw [flatMap_singleton]

/-! ## Names -/

theorem mem_leavingDecls_staying :
    ((∃ d ∈ s.leavingDecls, d.name.name = name) ∨ name ∈ s.staying.flatMap (through varNames)) ↔
      name ∈ s.through varNames := by
  unfold leavingDecls staying
  split
  next vars =>
    rw [through_of_ne _ (by simp), varNames, mem_map]
    split
    · simp
    · split
      · have nothing : ∀ e : Option Expr, name ∉ ((e.map fun e =>
            Statement.expr { e with span := vars.span }).toList).flatMap (through varNames) := by
          intro e
          cases e <;> simp [through, varNames]
        simp [nothing, VarDecl.nameOnly]
      · simp [through, varNames]
  next notVar => simp

theorem mem_varNames_gatherInto :
    name ∈ (gatherInto first created rest).value.flatMap (through varNames) ↔
      name ∈ (Statement.var first).through varNames ∨ name ∈ rest.flatMap (through varNames) := by
  have added : (∃ d ∈ (rest.flatMap leavingDecls).foldl addDecl first.decls, d.name.name = name) ↔
      (∃ d ∈ first.decls, d.name.name = name) ∨ ∃ d ∈ rest.flatMap leavingDecls, d.name.name = name := by
    have same := congrArg (name ∈ ·) (toFinset_foldl_addDecl first.decls (rest.flatMap leavingDecls))
    simpa [or_and_right, exists_or] using same
  have behind : ((∃ d ∈ rest.flatMap leavingDecls, d.name.name = name) ∨
      name ∈ (rest.flatMap staying).flatMap (through varNames)) ↔
      name ∈ rest.flatMap (through varNames) := by
    simp only [mem_flatMap (f := through varNames) (l := rest), ← mem_leavingDecls_staying,
      flatMap_assoc, mem_flatMap (l := rest)]
    constructor
    · rintro (⟨d, ⟨s, mem, leaves⟩, isName⟩ | ⟨s, mem, stays⟩)
      · exact ⟨s, mem, .inl ⟨d, leaves, isName⟩⟩
      · exact ⟨s, mem, .inr stays⟩
    · rintro ⟨s, mem, ⟨d, leaves, isName⟩ | stays⟩
      · exact .inl ⟨d, ⟨s, mem, leaves⟩, isName⟩
      · exact .inr ⟨s, mem, stays⟩
  have ahead : name ∈ (if ((rest.flatMap leavingDecls).foldl addDecl first.decls).isEmpty then []
      else [Statement.var { first with
        decls := (rest.flatMap leavingDecls).foldl addDecl first.decls }]).flatMap (through varNames) ↔
      ∃ d ∈ (rest.flatMap leavingDecls).foldl addDecl first.decls, d.name.name = name := by
    split
    next empty => simp [isEmpty_iff.mp empty]
    next => simp [through, varNames]
  rw [value_gatherInto, flatMap_append, mem_append, ahead, added, ← behind, or_assoc,
    through_of_ne _ (by simp), varNames, mem_map]

theorem directNames_gatherVars (statements : List Statement) :
    directNames (gatherVars index statements).value = directNames statements := by
  ext name
  rw [directNames, directNames, mem_toFinset, mem_toFinset, throughBlocks_eq_flatMap,
    throughBlocks_eq_flatMap]
  obtain same | ⟨front, rest, first, created, value, -, whole⟩ := gatherVars_cases index statements
  · rw [same]
    rfl
  · rw [value, flatMap_append, mem_append, mem_varNames_gatherInto]
    obtain ⟨-, none, rfl, -⟩ | ⟨-, rfl⟩ := whole
    · simp [through, varNames, none]
    · simp

/-! ## One list -/

namespace Block

variable (settings : Settings) (b : Block)

/-- What holds when blocks are opened and is kept by each of the other rules holds in the end. -/
theorem orderDeclarations_induction {motive : List Statement → Prop} (start : motive (b.opened settings))
    (join : ∀ statements, motive statements → motive (joinVars statements).value)
    (hoist : settings.applies .moveFunctions → ∀ index statements, motive statements →
      motive (hoistFunctions index statements).value)
    (gather : ∀ index statements, motive statements → motive (gatherVars index statements).value) :
    motive (b.orderDeclarations settings).value.statements :=
  b.orderDeclarations_steps settings motive (fun _ => motive) motive start join
    (fun l index _ known => ⟨known, fun applies => hoist applies index l known⟩)
    fun index l known => ⟨known, gather index l known⟩

theorem throughBlocks_opened {α : Type} (own : Statement → List α) :
    throughBlocks own (b.opened settings) = throughBlocks own b.statements :=
  Edited.when_value (fun statements => throughBlocks own statements = throughBlocks own b.statements)
    _ _ _ rfl (throughBlocks_unnestAll own _)

theorem effectsOf_orderDeclarations :
    effectsOf (b.orderDeclarations settings).value.statements = effectsOf b.statements := by
  refine orderDeclarations_induction settings b
    (motive := fun statements => effectsOf statements = effectsOf b.statements)
    (throughBlocks_opened settings b effects) ?_ ?_ ?_ <;>
    intros <;> rename_i same <;> rw [← same] <;> simp only [effectsOf]
  · simp only [throughBlocks_eq_flatMap]
    exact flatMap_joinVars (fun a b => by simp [through, effects]) _
  · simp only [throughBlocks_eq_flatMap]
    exact flatMap_hoistFunctions (fun fn => by simp [through, effects]) _ _
  · simp only [throughBlocks_eq_flatMap]
    refine flatMap_gatherVars (fun vars none => ?_) (fun vars more bare => ?_) effects_staying _ _
    · simp [through, effects, none]
    · simp only [through, effects, effects_foldl_addDecl bare]

theorem directNames_orderDeclarations :
    directNames (b.orderDeclarations settings).value.statements = directNames b.statements := by
  refine orderDeclarations_induction settings b
    (motive := fun statements => directNames statements = directNames b.statements)
    (congrArg List.toFinset (throughBlocks_opened settings b varNames)) ?_ ?_ ?_ <;>
    intros <;> rename_i same <;> rw [← same]
  · simp only [directNames, throughBlocks_eq_flatMap]
    rw [flatMap_joinVars fun a b => by simp [through, varNames]]
  · simp only [directNames, throughBlocks_eq_flatMap]
    rw [flatMap_hoistFunctions fun fn => by simp [through, varNames]]
  · exact directNames_gatherVars _ _

end Block

/-! ## Functions -/

section Functions

variable {α : Type} {has : Statement → List α} (vars : ∀ vars, has (.var vars) = [])
  (exprs : ∀ e, has (.expr e) = [])
include vars

theorem flatMap_joinVars_of_vars (statements : List Statement) :
    (joinVars statements).value.flatMap has = statements.flatMap has :=
  flatMap_joinVars (fun a b => by simp [vars]) statements

include exprs in
theorem flatMap_gatherVars_of_vars (index : Nat) (statements : List Statement) :
    (gatherVars index statements).value.flatMap has = statements.flatMap has := by
  refine flatMap_gatherVars (fun _ _ => vars _) (fun _ _ _ => by rw [vars, vars]) (fun s => ?_) _ _
  unfold staying
  split
  · rename_i declared
    rw [vars, flatMap_eq_nil_iff]
    intro s mem
    split at mem
    · cases mem
    · split at mem
      · obtain ⟨e, -, rfl⟩ := Option.map_eq_some_iff.mp (Option.mem_toList.mp mem)
        exact exprs _
      · rw [mem_singleton.mp mem, vars]
  · rw [flatMap_singleton]

end Functions

/-- The bare block that a statement is. -/
def Statement.ownBlock : Statement → List Block
  | block b => [b]
  | _ => []

/-- A list without bare blocks is looked at as it is. -/
theorem throughBlocks_of_no_blocks {α : Type} (own : Statement → List α)
    (none : statements.flatMap ownBlock = []) :
    throughBlocks own statements = statements.flatMap own := by
  rw [throughBlocks_eq_flatMap]
  refine flatMap_congr fun s mem => through_of_ne own ?_
  rintro b rfl
  have := flatMap_eq_nil_iff.mp none _ mem
  cases this

/-- No block is left when blocks are opened. -/
theorem blocks_unnestAll (statements : List Statement) :
    (unnestAll statements).flatMap ownBlock = [] := by
  have opens : OpensBlocks fun a _ => a.flatMap ownBlock = [] := {
    nil := rfl
    append first second := by simp [first, second]
    bare s notBlock := by cases s <;> simp_all [ownBlock]
    block same := same }
  exact opens.unnestAll statements

namespace Block

variable (settings : Settings) (b : Block)

/-- Functions that stand in one list, and not in blocks of it, keep their order. -/
theorem functions_orderDeclarations :
    (b.orderDeclarations settings).value.statements.flatMap ownFunction =
      (b.opened settings).flatMap ownFunction := by
  refine orderDeclarations_induction settings b (motive := fun statements =>
    statements.flatMap ownFunction = (b.opened settings).flatMap ownFunction) rfl ?_ ?_ ?_ <;>
    intros <;> rename_i same <;> rw [← same]
  · exact flatMap_joinVars_of_vars (fun _ => rfl) _
  · refine flatMap_hoistFunctions_of_functions (fun s _ other => ?_) _
    cases s
    case function => cases other
    all_goals rfl
  · exact flatMap_gatherVars_of_vars (fun _ => rfl) (fun _ => rfl) _ _

/-- So do the blocks of the list, if they are not opened. -/
theorem blocks_orderDeclarations :
    (b.orderDeclarations settings).value.statements.flatMap ownBlock =
      (b.opened settings).flatMap ownBlock := by
  refine orderDeclarations_induction settings b (motive := fun statements =>
    statements.flatMap ownBlock = (b.opened settings).flatMap ownBlock) rfl ?_ ?_ ?_ <;>
    intros <;> rename_i same <;> rw [← same]
  · exact flatMap_joinVars_of_vars (fun _ => rfl) _
  · exact flatMap_hoistFunctions (fun _ => rfl) _ _
  · exact flatMap_gatherVars_of_vars (fun _ => rfl) (fun _ => rfl) _ _

/-- If blocks are opened, functions keep their order also across blocks. -/
theorem directFunctions_of_unnest (unnests : settings.applies .unnestBlocks) :
    directFunctions (b.orderDeclarations settings).value.statements = directFunctions b.statements := by
  have flat : (b.opened settings).flatMap ownBlock = [] := by
    rw [opened, Edited.when, if_pos unnests]
    exact blocks_unnestAll b.statements
  have open_ := throughBlocks_opened settings b ownFunction
  have functions := functions_orderDeclarations settings b
  have blocks := blocks_orderDeclarations settings b
  rw [flat] at blocks
  rw [directFunctions, directFunctions, ← open_, throughBlocks_of_no_blocks _ flat,
    throughBlocks_of_no_blocks _ blocks, functions]

/-- So do they if they are not moved. -/
theorem directFunctions_of_not_move (stays : ¬settings.applies .moveFunctions) :
    directFunctions (b.orderDeclarations settings).value.statements = directFunctions b.statements := by
  refine orderDeclarations_induction settings b
    (motive := fun statements => directFunctions statements = directFunctions b.statements)
    (throughBlocks_opened settings b ownFunction) ?_ (fun moves => absurd moves stays) ?_ <;>
    intros <;> rename_i same <;> rw [← same] <;>
    simp only [directFunctions, throughBlocks_eq_flatMap]
  · exact flatMap_joinVars_of_vars (fun _ => rfl) _
  · exact flatMap_gatherVars_of_vars (fun _ => rfl) (fun _ => rfl) _ _

end Block

end Minifier
