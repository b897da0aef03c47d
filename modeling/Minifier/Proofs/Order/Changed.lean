import Minifier.Proofs.Order.Effects
import Minifier.Proofs.Outcome
import Minifier.Proofs.Parse.Unbound
import Minifier.Proofs.Syntax.Walk

/-!
# Whether the order of declarations changed anything

Each rule says whether it did something, and the pass says so if one of them did. A rule that did
something leaves a list of another shape: without its blocks, with fewer `var` statements, with its
functions together, or with a `var` statement where there was none. No later rule restores the shape,
and putting the declarations of nested functions in order does not touch it. So the pass says that it
changed a program exactly if the program is another one (`Program.changed_orderDeclarations`), and
what it changes are declarations (`orderDeclarations_moves_declarations`).

There is one exception: a `var` statement that declares nothing may vanish without notice. No program
that is read from a text has one.
-/

set_option autoImplicit false

namespace Minifier

open Edited Statement

open List hiding span

variable {index : Nat} {rest : List Statement} {s : Statement} (first : VarStatement) (created : Bool)

/-! ## Outlines -/

/-- The kinds of statements that putting declarations in order tells apart. -/
inductive Outline where
  | block
  | function
  | var (isEmpty : Bool)
  | other
deriving DecidableEq

/-- The outline of a `var` statement. -/
def Outline.isVar : Outline → Bool
  | var _ => true
  | _ => false

namespace Statement

/-- The outline of a statement. -/
def outline : Statement → Outline
  | block _ => .block
  | function _ => .function
  | var vars => .var vars.decls.isEmpty
  | _ => .other

theorem isFunction_outline (s : Statement) : s.isFunction = decide (s.outline = .function) := by
  cases s <;> simp [isFunction, outline]

theorem isVar_outline (s : Statement) : s.isVar = s.outline.isVar := by
  cases s <;> rfl

end Statement

/-- Two lists of the same shape. -/
def SameOutline (a b : List Statement) : Prop := a.map outline = b.map outline

namespace SameOutline

variable {a b : List Statement}

/-- Lists of one outline have as many `var` statements. -/
theorem countP_isVar (alike : SameOutline a b) : a.countP isVar = b.countP isVar := by
  have counted := congrArg (List.countP Outline.isVar) alike
  simpa only [countP_map, Function.comp_def, ← isVar_outline] using counted

/-- Whether functions are in place can be told from shapes. -/
theorem functionsInPlace (alike : SameOutline a b) (index : Nat) :
    functionsInPlace index a = functionsInPlace index b := by
  have told : ∀ statements : List Statement, Minifier.functionsInPlace index statements =
      (!((statements.map outline).take index).any (· = .function) &&
        !(((statements.map outline).drop index).dropWhile (· = .function)).any (· = .function)) := by
    intro statements
    unfold Minifier.functionsInPlace
    rw [← map_take, ← map_drop, dropWhile_map]
    simp only [any_map, Function.comp_def, ← isFunction_outline]
  rw [told, told, alike]

end SameOutline

/-! ## Blocks -/

theorem Statement.unnested_of_no_block (none : s.ownBlock = []) : s.unnested = [s] := by
  cases s
  case block => cases none
  all_goals simp [unnested]

section Rules

variable {statements : List Statement}

/-- Without blocks there is nothing to open. -/
theorem unnestAll_of_no_blocks (none : statements.flatMap ownBlock = []) :
    unnestAll statements = statements := by
  induction statements with
  | nil => simp only [unnestAll]
  | cons s rest ih =>
    obtain ⟨first, more⟩ := append_eq_nil_iff.mp none
    rw [unnestAll, unnested_of_no_block first, ih more, singleton_append]

/-- Opening blocks changes a list that has one. -/
theorem changed_unnestBlocks (statements : List Statement) :
    (unnestBlocks statements).changed = true ↔ statements.flatMap ownBlock ≠ [] := by
  induction statements with
  | nil => simp [unnestBlocks]
  | cons s rest ih => cases s <;> simp_all [unnestBlocks, ownBlock]

theorem SameOutline.no_blocks {a b : List Statement} (alike : SameOutline a b)
    (none : a.flatMap ownBlock = []) : b.flatMap ownBlock = [] := by
  rw [flatMap_eq_nil_iff] at none ⊢
  intro s mem
  have listed : s.outline ∈ a.map outline := alike ▸ mem_map_of_mem mem
  obtain ⟨t, isThere, same⟩ := mem_map.mp listed
  have plain := none t isThere
  cases s
  case block => cases t <;> simp_all [outline, ownBlock]
  all_goals rfl

/-! ## `var` statements -/

/-- Each time two statements are joined there is one `var` statement less. -/
theorem countP_joinFrom (s : Statement) (rest : List Statement) :
    (joinFrom joinVars? s rest).countP isVar + (rest.length + 1) =
        (s :: rest).countP isVar + (joinFrom joinVars? s rest).length ∧
      (joinFrom joinVars? s rest).length ≤ rest.length + 1 := by
  fun_induction joinFrom joinVars? s rest with
  | case1 s => simp
  | case2 s next rest joined found ih =>
    obtain ⟨first, second, rfl, rfl, rfl⟩ := joinVars?_eq_some found
    simp only [countP_cons, isVar, length_cons, if_true] at ih ⊢
    omega
  | case3 s next rest found ih =>
    simp only [countP_cons, length_cons] at ih ⊢
    omega

/-- Joining `var` statements leaves fewer. -/
theorem countP_joinVars (changed : (joinVars statements).changed = true) :
    (joinVars statements).value.countP isVar < statements.countP isVar := by
  cases statements with
  | nil => cases changed
  | cons s rest =>
    have shorter : (joinFrom joinVars? s rest).length ≠ rest.length + 1 := by
      simpa [joinVars, joinNeighbours] using changed
    have counted := countP_joinFrom s rest
    simp only [joinVars, joinNeighbours]
    omega

/-- If nothing is joined, the list is as it was. -/
theorem value_joinFrom (same : (joinFrom joinVars? s rest).length = rest.length + 1) :
    joinFrom joinVars? s rest = s :: rest := by
  fun_induction joinFrom joinVars? s rest with
  | case1 => rfl
  | case2 s next rest joined found ih =>
    have shorter := (countP_joinFrom joined rest).2
    simp only [length_cons] at same
    omega
  | case3 s next rest found ih => rw [ih (by simpa using same)]

/-- If none are joined the list is as it was. -/
theorem value_joinVars (same : (joinVars statements).changed = false) :
    (joinVars statements).value = statements := by
  cases statements with
  | nil => rfl
  | cons s rest => exact value_joinFrom (by simpa [joinVars, joinNeighbours] using same)

/-! ## Functions -/

/-- Moving functions leaves the `var` statements. -/
theorem countP_hoistFunctions (index : Nat) (statements : List Statement) :
    (hoistFunctions index statements).value.countP isVar = statements.countP isVar := by
  obtain same | moved := hoistFunctions_cases index statements
  · rw [same]
  · have whole := countP_eq_countP_filter_add statements isVar isFunction
    have parts : (((statements.filter (!·.isFunction)).take index) ++
        (statements.filter (!·.isFunction)).drop index).countP isVar =
        (statements.filter (!·.isFunction)).countP isVar := by rw [take_append_drop]
    rw [countP_append] at parts
    rw [moved, countP_append, countP_append, whole]
    omega

/-- If none are moved the list is as it was. -/
theorem value_hoistFunctions (same : (hoistFunctions index statements).changed = false) :
    (hoistFunctions index statements).value = statements := by
  unfold hoistFunctions at same ⊢
  split
  · rfl
  next outOfPlace => simp [outOfPlace, Edited.of] at same

/-- Functions that stand together at an index, and nowhere else, are in place. -/
theorem functionsInPlace_append {before functions after : List Statement}
    (noneBefore : ∀ s ∈ before, s.isFunction = false) (all : ∀ s ∈ functions, s.isFunction = true)
    (noneAfter : ∀ s ∈ after, s.isFunction = false) :
    functionsInPlace before.length (before ++ functions ++ after) = true := by
  have rest : (functions ++ after).dropWhile isFunction = after.dropWhile isFunction :=
    dropWhile_append_of_pos all
  have sublist := (dropWhile_sublist (l := after) isFunction).subset
  simp only [functionsInPlace, append_assoc, take_left, drop_left, rest,
    Bool.and_eq_true, Bool.not_eq_true', any_eq_false, Bool.not_eq_true]
  exact ⟨noneBefore, fun s mem => noneAfter s (sublist mem)⟩

/-- Functions that are moved were not in place, and are then. -/
theorem functionsInPlace_hoistFunctions
    (inside : index ≤ (statements.partition isFunction).2.length)
    (changed : (hoistFunctions index statements).changed = true) :
    functionsInPlace index statements = false ∧
      functionsInPlace index (hoistFunctions index statements).value = true := by
  unfold hoistFunctions at changed ⊢
  split at changed
  · cases changed
  next outOfPlace =>
    refine ⟨by simpa using outOfPlace, ?_⟩
    rw [if_neg outOfPlace]
    generalize parts : statements.partition isFunction = split at inside ⊢
    obtain ⟨functions, rest⟩ := split
    rw [partition_eq_filter_filter] at parts
    obtain ⟨rfl, rfl⟩ := Prod.mk.inj parts
    have others : ∀ s ∈ statements.filter (not ∘ isFunction), s.isFunction = false := by
      intro s mem
      simpa using of_mem_filter mem
    have placed := functionsInPlace_append
      (fun s mem => others s (mem_of_mem_take (i := index) mem))
      (fun s mem => of_mem_filter (l := statements) mem)
      (fun s mem => others s (mem_of_mem_drop (i := index) mem))
    rwa [length_take_of_le inside] at placed

/-! ## Gathered names -/

/-- A `var` statement whose names leave it is none any more. -/
theorem Statement.countP_staying (s : Statement) :
    s.staying.countP isVar + (if s.givesDecls then 1 else 0) = if s.isVar then 1 else 0 := by
  cases s
  case var vars =>
    simp only [staying, givesDecls, isVar, if_true]
    split
    next none => simp [none]
    next =>
      split
      next few =>
        have assigned : ∀ e : Option Expr, ((e.map fun e =>
            Statement.expr { e with span := vars.span }).toList).countP isVar = 0 := by
          intro e
          cases e <;> rfl
        rw [assigned]
        simp [few]
      next many => simp [many, isVar]
  all_goals rfl

theorem countP_flatMap_staying (rest : List Statement) :
    (rest.flatMap staying).countP isVar + rest.countP givesDecls = rest.countP isVar := by
  induction rest with
  | nil => rfl
  | cons s rest ih =>
    have first := s.countP_staying
    rw [flatMap_cons, countP_append, countP_cons, countP_cons]
    omega

theorem Statement.givesDecls_of_leavingDecls {d : VarDecl} (mem : d ∈ s.leavingDecls) :
    s.givesDecls = true := by
  unfold leavingDecls at mem
  split at mem
  next vars =>
    split at mem
    next none => simp [givesDecls, none]
    next =>
      split at mem
      next few => simp [givesDecls, few]
      next => cases mem
  next => cases mem

/-- The outcome of gathering the names of the statements behind one: whether it did anything, and what
is left. -/
theorem changed_gatherInto (rest : List Statement) :
    (gatherInto first created rest).changed = (rest.any givesDecls ||
      (created && !((rest.flatMap leavingDecls).foldl addDecl first.decls).isEmpty)) := by
  unfold gatherInto
  dsimp only
  split
  next empty => simp [empty]
  next nonempty => simp [nonempty]

theorem countP_gatherInto_of_gives (gives : rest.any givesDecls = true) :
    (gatherInto first created rest).value.countP isVar ≤ rest.countP isVar := by
  have counted := countP_flatMap_staying rest
  have positive : 0 < rest.countP givesDecls := by
    rw [countP_pos_iff]
    exact any_eq_true.mp gives
  rw [value_gatherInto, countP_append]
  split
  · simp only [countP_nil]
    omega
  · simp only [countP_singleton, isVar, if_true]
    omega

/-- If no statement gives its names, nothing is gathered. -/
theorem flatMap_of_no_gives (none : rest.any givesDecls = false) :
    rest.flatMap leavingDecls = [] ∧ rest.flatMap staying = rest := by
  induction rest with
  | nil => exact ⟨rfl, rfl⟩
  | cons s rest ih =>
    rw [any_cons, Bool.or_eq_false_iff] at none
    have leaves : s.leavingDecls = [] := by
      rw [eq_nil_iff_forall_not_mem]
      intro d mem
      rw [givesDecls_of_leavingDecls mem] at none
      cases none.1
    have stays : s.staying = [s] := by
      cases s
      case var vars =>
        have many : ¬vars.initializerCount ≤ 2 := by simpa [givesDecls] using none.1
        simp only [staying]
        rw [if_neg (by omega), if_neg many]
      all_goals rfl
    rw [flatMap_cons, flatMap_cons, leaves, stays, (ih none.2).1, (ih none.2).2]
    exact ⟨rfl, rfl⟩

/-- Gathering names never adds to the `var` statements. -/
theorem countP_gatherVars (index : Nat) (statements : List Statement) :
    (gatherVars index statements).value.countP isVar ≤ statements.countP isVar := by
  obtain same | ⟨front, rest, first, created, gathered, -, whole⟩ := gatherVars_cases index statements
  · rw [same]
    exact le_rfl
  · rw [gathered]
    dsimp only
    rw [countP_append]
    cases gives : rest.any givesDecls with
    | true =>
      have fewer := countP_gatherInto_of_gives first created gives
      obtain ⟨-, -, rfl, -⟩ | ⟨-, rfl⟩ := whole
      · rw [countP_append]
        omega
      · rw [countP_append, countP_cons]
        omega
    | false =>
      obtain ⟨leaves, stays⟩ := flatMap_of_no_gives gives
      rw [value_gatherInto, leaves, stays]
      obtain ⟨-, none, rfl, -⟩ | ⟨-, rfl⟩ := whole
      · simp [none]
      · rw [countP_append, countP_append, countP_cons]
        split
        · simp
        · simp [isVar]
          omega

/-- A `var` statement in front of a list that starts with none changes its outline. -/
theorem not_sameOutline_cons {vars : VarStatement} {behind : List Statement}
    (notVar : ∀ vars more, rest ≠ .var vars :: more) : ¬SameOutline (.var vars :: behind) rest := by
  intro same
  cases rest with
  | nil => cases same
  | cons s more =>
    have first := (List.cons.inj same).1
    cases s
    case var other => exact notVar other more rfl
    all_goals cases first

/-- Gathering declarations shows in the outline. -/
theorem not_sameOutline_gatherVars (changed : (gatherVars index statements).changed = true) :
    ¬SameOutline (gatherVars index statements).value statements := by
  intro same
  obtain pure_ | ⟨front, rest, first, created, gathered, -, whole⟩ := gatherVars_cases index statements
  · rw [pure_] at changed
    cases changed
  rw [gathered] at changed same
  dsimp only at changed same
  rw [changed_gatherInto, Bool.or_eq_true, Bool.and_eq_true] at changed
  have counted := same.countP_isVar
  have moved := countP_flatMap_staying rest
  have positive (gives : rest.any givesDecls = true) : 0 < rest.countP givesDecls :=
    countP_pos_iff.mpr (any_eq_true.mp gives)
  rw [value_gatherInto] at counted same
  obtain ⟨rfl, none, rfl, notVar⟩ | ⟨rfl, rfl⟩ := whole
  · split at counted
    next empty =>
      have gives := changed.resolve_right (by simp [empty])
      have := positive gives
      simp only [nil_append, countP_append] at counted
      omega
    next nonempty =>
      rw [if_neg nonempty, SameOutline] at same
      simp only [map_append] at same
      exact not_sameOutline_cons notVar (append_cancel_left same)
  · have gives := changed.resolve_right (by simp)
    have := positive gives
    simp only [countP_append, countP_cons, isVar, if_true] at counted
    split at counted
    · simp only [countP_nil] at counted
      omega
    · simp only [countP_cons, countP_nil, isVar, if_true] at counted
      omega

/-- If gathering did nothing, the list is as it was, unless it drops a statement that declares
nothing. -/
theorem value_gatherVars (declares : ∀ s ∈ statements, s.outline ≠ .var true)
    (same : (gatherVars index statements).changed = false) :
    (gatherVars index statements).value = statements := by
  obtain pure_ | ⟨front, rest, first, created, gathered, -, whole⟩ := gatherVars_cases index statements
  · rw [pure_]
    rfl
  rw [gathered] at same ⊢
  dsimp only at same ⊢
  rw [changed_gatherInto, Bool.or_eq_false_iff] at same
  obtain ⟨leaves, stays⟩ := flatMap_of_no_gives same.1
  rw [value_gatherInto, leaves, stays]
  obtain ⟨-, none, rfl, -⟩ | ⟨-, rfl⟩ := whole
  · simp [none]
  · have nonempty : first.decls.isEmpty ≠ true := by
      intro empty
      exact declares (.var first) (by simp) (by rw [outline, empty])
    rw [foldl_nil, if_neg nonempty]
    cases first
    rfl

theorem isFunction_staying {kept : Statement} (other : s.isFunction = false) (mem : kept ∈ s.staying) :
    kept.isFunction = false := by
  cases s
  case var vars =>
    simp only [staying] at mem
    split at mem
    · cases mem
    · split at mem
      · obtain ⟨e, -, rfl⟩ := Option.map_eq_some_iff.mp (Option.mem_toList.mp mem)
        rfl
      · rw [mem_singleton.mp mem]
        rfl
  all_goals rwa [mem_singleton.mp mem]

/-- Functions that are in place stay there. -/
theorem functionsInPlace_gatherVars (inside : index ≤ statements.length)
    (placed : functionsInPlace index statements = true) :
    functionsInPlace index (gatherVars index statements).value = true := by
  obtain pure_ | ⟨front, rest, first, created, gathered, isFront, whole⟩ :=
    gatherVars_cases index statements
  · rw [pure_]
    exact placed
  rw [gathered]
  dsimp only
  simp only [functionsInPlace, Bool.and_eq_true, Bool.not_eq_true', any_eq_false,
    Bool.not_eq_true] at placed
  have behind : ∀ s ∈ rest, s.isFunction = false := by
    have cut : statements = front ++ (statements.drop index).dropWhile isFunction := by
      rw [isFront, append_assoc, takeWhile_append_dropWhile, take_append_drop]
    intro s mem
    apply placed.2
    obtain ⟨-, -, parts, -⟩ | ⟨-, parts⟩ := whole
    · rwa [append_cancel_left (cut.symm.trans parts)]
    · rw [append_cancel_left (cut.symm.trans parts)]
      exact mem_cons_of_mem _ mem
  have after : ∀ s ∈ (gatherInto first created rest).value, s.isFunction = false := by
    rw [value_gatherInto]
    intro s mem
    obtain mem | mem := mem_append.mp mem
    · split at mem
      · cases mem
      · rw [mem_singleton.mp mem]
        rfl
    · obtain ⟨t, isThere, stays⟩ := mem_flatMap.mp mem
      exact isFunction_staying (behind t isThere) stays
  have done := functionsInPlace_append placed.1
    (all_eq_true.mp (all_takeWhile (l := statements.drop index))) after
  rwa [length_take_of_le inside, ← isFront] at done

end Rules

/-! ## One list -/

namespace Edited

variable {α : Type} {applies : Bool} {rule : α → Edited α} {a : α}

/-- A rule that changed something was applied. -/
theorem when_of_changed (changed : (Edited.when applies rule a).changed = true) :
    (rule a).changed = true ∧ (Edited.when applies rule a).value = (rule a).value := by
  unfold Edited.when at changed ⊢
  split at changed
  next applied =>
    rw [if_pos applied]
    exact ⟨changed, rfl⟩
  next => cases changed

/-- A rule that changed nothing leaves its argument, if it does so where it is applied. -/
theorem when_of_same (same : (Edited.when applies rule a).changed = false)
    (leaves : (rule a).changed = false → (rule a).value = a) :
    (Edited.when applies rule a).value = a := by
  unfold Edited.when at same ⊢
  split
  next applied =>
    rw [if_pos applied] at same
    exact leaves same
  next => rfl

end Edited

namespace Block

variable (settings : Settings) (b : Block)

/-- The rules one after the other, as far as the settings apply them. -/
structure Staged (x₁ x₂ x₃ x₄ : Edited (List Statement)) : Prop where
  unnest : x₁ = Edited.when (settings.applies .unnestBlocks) unnestBlocks b.statements
  join : x₂ = Edited.when (settings.applies .joinVars) joinVars x₁.value
  hoist : x₃ = Edited.when (settings.applies .moveFunctions)
    (hoistFunctions (insertionPoint { b with statements := x₂.value })) x₂.value
  gather : x₄ = Edited.when (settings.applies .gatherVars)
    (gatherVars (insertionPoint { b with statements := x₂.value })) x₃.value
  value : (b.orderDeclarations settings).value = { b with statements := x₄.value }
  changed : (b.orderDeclarations settings).changed =
    (x₁.changed || x₂.changed || x₃.changed || x₄.changed)

/-- The rules are run one after another. -/
theorem exists_staged : ∃ x₁ x₂ x₃ x₄, b.Staged settings x₁ x₂ x₃ x₄ := by
  refine ⟨_, _, _, _, rfl, rfl, rfl, rfl, rfl, ?_⟩
  simp [orderDeclarations, Bind.bind, Pure.pure, Bool.or_assoc]

namespace Staged

variable {settings : Settings} {b : Block} {x₁ x₂ x₃ x₄ : Edited (List Statement)}
  (staged : b.Staged settings x₁ x₂ x₃ x₄)
include staged

/-- Nothing opened. -/
theorem value_unnest (same : x₁.changed = false) : x₁.value = b.statements := by
  rw [staged.unnest] at same ⊢
  refine when_of_same same fun same => unnestAll_of_no_blocks ?_
  by_contra some
  rw [(changed_unnestBlocks b.statements).mpr some] at same
  cases same

/-- Nothing joined. -/
theorem value_join (same : x₂.changed = false) : x₂.value = x₁.value := by
  rw [staged.join] at same ⊢
  exact when_of_same same value_joinVars

/-- Nothing moved. -/
theorem value_hoist (same : x₃.changed = false) : x₃.value = x₂.value := by
  rw [staged.hoist] at same ⊢
  exact when_of_same same value_hoistFunctions

/-- Nothing gathered. -/
theorem value_gather (declares : ∀ s ∈ x₃.value, s.outline ≠ .var true) (same : x₄.changed = false) :
    x₄.value = x₃.value := by
  rw [staged.gather] at same ⊢
  exact when_of_same same (value_gatherVars declares)

/-- Once blocks are opened none is left. -/
theorem blocks_of_changed (changed : x₁.changed = true) :
    b.statements.flatMap ownBlock ≠ [] ∧ x₄.value.flatMap ownBlock = [] := by
  have kept := blocks_orderDeclarations settings b
  rw [staged.value, opened, ← staged.unnest] at kept
  rw [staged.unnest] at changed kept
  obtain ⟨changed, value⟩ := when_of_changed changed
  refine ⟨(changed_unnestBlocks _).mp changed, kept.trans ?_⟩
  rw [value]
  exact blocks_unnestAll b.statements

/-- Once statements are joined there are fewer of them for good. -/
theorem vars_of_changed (changed : x₂.changed = true) :
    x₄.value.countP isVar < x₁.value.countP isVar := by
  rw [staged.join] at changed
  obtain ⟨changed, value⟩ := when_of_changed changed
  have joined := countP_joinVars changed
  rw [← value, ← staged.join] at joined
  have hoisted : x₃.value.countP isVar = x₂.value.countP isVar := by
    rw [staged.hoist]
    exact when_value
      (fun statements : List Statement => statements.countP isVar = x₂.value.countP isVar)
      _ _ _ rfl (countP_hoistFunctions _ _)
  have gathered : x₄.value.countP isVar ≤ x₃.value.countP isVar := by
    rw [staged.gather]
    exact when_value
      (fun statements : List Statement => statements.countP isVar ≤ x₃.value.countP isVar)
      _ _ _ le_rfl (countP_gatherVars _ _)
  omega

/-- Once functions are moved to their place they stay there. -/
theorem functions_of_changed (changed : x₃.changed = true) : ∃ index,
    functionsInPlace index x₂.value = false ∧ functionsInPlace index x₄.value = true := by
  rw [staged.hoist] at changed
  obtain ⟨changed, value⟩ := when_of_changed changed
  have inside := insertionPoint_le_rest { b with statements := x₂.value }
  obtain ⟨before, after⟩ := functionsInPlace_hoistFunctions inside changed
  rw [← value, ← staged.hoist] at after
  refine ⟨_, before, ?_⟩
  rw [staged.gather]
  refine when_value (fun statements => functionsInPlace _ statements = true) _ _ _ after ?_
  refine functionsInPlace_gatherVars ?_ after
  rw [staged.hoist, value, length_hoistFunctions]
  exact (takeWhile_sublist _).length_le

end Staged

/-- A list that was changed has another outline: no later rule restores what an earlier one did. -/
theorem not_sameOutline_orderDeclarations (changed : (b.orderDeclarations settings).changed = true) :
    ¬SameOutline (b.orderDeclarations settings).value.statements b.statements := by
  intro same
  obtain ⟨x₁, x₂, x₃, x₄, staged⟩ := b.exists_staged settings
  rw [staged.value] at same
  change SameOutline x₄.value b.statements at same
  rw [staged.changed] at changed
  by_cases first : x₁.changed = true
  · obtain ⟨some, none⟩ := staged.blocks_of_changed first
    exact some (same.no_blocks none)
  have unnested := staged.value_unnest (by simpa using first)
  by_cases second : x₂.changed = true
  · have fewer := staged.vars_of_changed second
    rw [unnested, same.countP_isVar] at fewer
    exact lt_irrefl _ fewer
  have joined := staged.value_join (by simpa using second)
  by_cases third : x₃.changed = true
  · obtain ⟨index, before, after⟩ := staged.functions_of_changed third
    rw [joined, unnested, ← same.functionsInPlace, after] at before
    cases before
  have hoisted := staged.value_hoist (by simpa using third)
  have fourth : x₄.changed = true := by simpa [first, second, third] using changed
  rw [staged.gather] at fourth same
  obtain ⟨gathered, value⟩ := when_of_changed fourth
  rw [value] at same
  refine not_sameOutline_gatherVars gathered ?_
  rwa [hoisted, joined, unnested] at same ⊢

/-- A list that was not changed is as it was, if its `var` statements declare something. -/
theorem value_orderDeclarations (declares : ∀ s ∈ b.statements, s.outline ≠ .var true)
    (same : (b.orderDeclarations settings).changed = false) :
    (b.orderDeclarations settings).value = b := by
  obtain ⟨x₁, x₂, x₃, x₄, staged⟩ := b.exists_staged settings
  rw [staged.changed, Bool.or_eq_false_iff, Bool.or_eq_false_iff, Bool.or_eq_false_iff] at same
  obtain ⟨⟨⟨first, second⟩, third⟩, fourth⟩ := same
  have whole : x₃.value = b.statements := by
    rw [staged.value_hoist third, staged.value_join second, staged.value_unnest first]
  rw [staged.value, staged.value_gather (whole ▸ declares) fourth, whole]
  cases b
  rfl

end Block

/-! ## Nested functions -/

/-- A step of the walk, given whether all before it is as it was, tells whether its answer is too. -/
def Tells {α : Type} (earlier : Prop) (same : α → Prop) (step : StateM Bool α) : Prop :=
  ∀ told, ∃ changed, (step told).2 = (told || changed) ∧
    (same (step told).1 ↔ earlier ∧ changed = false)

namespace Tells

variable {α β : Type} {earlier : Prop} {P : α → Prop} {Q : β → Prop}

/-- A step that changes nothing. -/
theorem pure {a : α} (same : P a ↔ earlier) : Tells earlier P (pure a) := by
  intro told
  refine ⟨false, (Bool.or_false told).symm, ?_⟩
  rw [and_iff_left rfl]
  exact same

/-- Two steps tell of what both change. -/
theorem bind {step : StateM Bool α} {next : α → StateM Bool β} (first : Tells True P step)
    (second : ∀ told, Tells (earlier ∧ P (step told).1) Q (next (step told).1)) :
    Tells earlier Q (step >>= next) := by
  intro told
  obtain ⟨changed, isTold, same⟩ := first told
  obtain ⟨changed', isTold', same'⟩ := second told (step told).2
  refine ⟨changed || changed', ?_, ?_⟩
  · show (next (step told).1 (step told).2).2 = _
    rw [isTold', isTold, Bool.or_assoc]
  · show Q (next (step told).1 (step told).2).1 ↔ _
    rw [same', same, true_and, Bool.or_eq_false_iff, and_assoc]

end Tells

/-- Every `var` statement among some nodes declares something. -/
def AllDeclare (nodes : List Node) : Prop :=
  ∀ vars, Node.statement (.var vars) ∈ nodes → vars.decls ≠ []

namespace AllDeclare

variable {a b : List Node} {n : Node}

theorem left (all : AllDeclare (a ++ b)) : AllDeclare a :=
  fun vars mem => all vars (mem_append_left b mem)

theorem right (all : AllDeclare (a ++ b)) : AllDeclare b :=
  fun vars mem => all vars (mem_append_right a mem)

theorem tail (all : AllDeclare (n :: a)) : AllDeclare a :=
  fun vars mem => all vars (mem_cons_of_mem n mem)

end AllDeclare

/-- Every `var` statement of a program that was read declares something. -/
theorem Program.allDeclare_of_parse {tokens : List Token} {p : Program}
    (isParsed : Program.parse tokens = .ok p) : AllDeclare p.nodes :=
  fun vars mem =>
    (@isRead_of_parse (fun _ => True) _ _ (fun _ _ _ _ => trivial) isParsed _ mem).declares vars rfl

section Walk

variable (settings : Settings)

theorem isEmpty_walkDecls (decls : List VarDecl) (told : Bool) :
    (walkDecls (orderInFunctions settings) decls told).1.isEmpty = decls.isEmpty := by
  cases decls <;> rfl

/-- The walk changes what is in a statement, not its shape. -/
theorem Statement.outline_walk (s : Statement) (told : Bool) :
    (s.walk (orderInFunctions settings) told).1.outline = s.outline := by
  rw [Statement.walk]
  match s with
  | .var ⟨decls, _⟩ => exact congrArg Outline.var (isEmpty_walkDecls settings decls told)
  | .block _ | .function _ | .expr _ | .ifElse _ _ none _ | .ifElse _ _ (some _) _ | .forLoop ..
  | .forIn .. | .whileLoop .. | .doWhile .. | .switch .. | .tryCatch _ _ none _
  | .tryCatch _ _ (some _) _ | .labeled .. | .returnWith .. | .throw .. | .withObject ..
  | .breakTo .. | .continueTo .. | .debugger _ | .empty _ | .comment .. => rfl

/-- Walking statements leaves the outline of their list. -/
theorem sameOutline_walkStatements : ∀ (statements : List Statement) (told : Bool),
    SameOutline (walkStatements (orderInFunctions settings) statements told).1 statements
  | [], _ => rfl
  | s :: rest, told => by
    have first := s.outline_walk settings told
    have more := sameOutline_walkStatements rest (s.walk (orderInFunctions settings) told).2
    rw [walkStatements]
    exact congrArg₂ List.cons first more

/-- So does walking a block. -/
theorem Block.sameOutline_walk (b : Block) (told : Bool) :
    SameOutline (b.walk (orderInFunctions settings) told).1.statements b.statements := by
  cases b
  exact sameOutline_walkStatements settings _ told

/-- No `var` statement of a parsed list is empty. -/
theorem outline_of_allDeclare {statements : List Statement}
    (all : AllDeclare (statementNodes statements)) : ∀ s ∈ statements, s.outline ≠ .var true := by
  induction statements with
  | nil => exact fun s mem => (not_mem_nil mem).elim
  | cons s rest ih =>
    intro t mem
    obtain rfl | mem := mem_cons.mp mem
    · cases t with
      | var vars =>
        intro empty
        refine all vars (mem_append_left _ ?_) (by simpa [outline] using empty)
        cases vars
        exact mem_cons_self
      | _ => simp [outline]
    · exact ih all.right t mem

/-- Putting a list in order tells whether it is as it was before its parts were visited: what the
visit changed cannot be changed back. -/
theorem Block.orderDeclarations_eq_iff {walked b : Block}
    (outline : SameOutline walked.statements b.statements)
    (declares : ∀ s ∈ b.statements, s.outline ≠ .var true) :
    (walked.orderDeclarations settings).value = b ↔
      walked = b ∧ (walked.orderDeclarations settings).changed = false := by
  have declares' : ∀ s ∈ walked.statements, s.outline ≠ .var true := by
    intro s mem empty
    have mem' : s.outline ∈ b.statements.map Statement.outline := by
      rw [← outline]
      exact mem_map_of_mem mem
    obtain ⟨t, isIn, same⟩ := mem_map.mp mem'
    exact declares t isIn (same.trans empty)
  constructor
  · intro value
    have unchanged : (walked.orderDeclarations settings).changed = false := by
      by_contra changed
      refine not_sameOutline_orderDeclarations settings _ (Bool.eq_true_of_not_eq_false changed) ?_
      rw [value]
      exact outline.symm
    exact ⟨(value_orderDeclarations settings _ declares' unchanged).symm.trans value, unchanged⟩
  · rintro ⟨rfl, unchanged⟩
    exact value_orderDeclarations settings _ declares unchanged

variable {settings : Settings}

namespace Tells

variable {earlier : Prop}

/-- A step that does nothing. -/
theorem skip {α β : Type} {Q : β → Prop} {a : α} {next : α → StateM Bool β}
    (second : Tells earlier Q (next a)) : Tells earlier Q (Pure.pure a >>= next) := second

/-- The last of the parts of a node. -/
theorem last {α β : Type} {a : α} {step : StateM Bool α} {g : α → β} {Q : β → Prop}
    (first : Tells True (· = a) step) (whole : ∀ a', Q (g a') ↔ earlier ∧ a' = a) :
    Tells earlier Q (step >>= fun a' => Pure.pure (g a')) :=
  first.bind fun _ => .pure (whole _)

/-- The last of the parts of a statement. -/
theorem ends {α : Type} {a : α} {step : StateM Bool α} {g : α → Statement} {Q : Statement → Prop}
    (first : Tells True (· = a) step) (whole : ∀ a', Q (g a') ↔ earlier ∧ a' = a) :
    Tells earlier Q (step >>= fun a' => Pure.pure (g a') >>= (orderInFunctions settings).statement) :=
  first.bind fun _ => .pure (whole _)

mutual

/-- The induction is on the tree: a node is as it was if its parts are, and the walk tells of each
part. -/
theorem expr (around : Option Form) : ∀ e : Expr, AllDeclare e.nodes →
    Tells True (· = e) (e.walk (orderInFunctions settings) around)
  | ⟨f, _⟩, all => .skip ((form f all.tail).last (by simp))

/-- A form. -/
theorem form : ∀ f : Form, AllDeclare f.nodes →
    Tells True (· = f) (f.walk (orderInFunctions settings))
  | .ident _, _ => .skip (.pure (by simp))
  | .array elements, all => (items _ elements all).last (by simp)
  | .object members, all => (properties _ members all).last (by simp)
  | .function fn, all => (functionOf fn all).last (by simp)
  | .member object _, all => (expr _ object all).last (by simp)
  | .index object key, all =>
    (expr _ object all.left).bind fun _ => (expr _ key all.right).last (by simp)
  | .call callee arguments, all => by
    by_cases isName : ∃ id span, callee = ⟨.ident id, span⟩
    · obtain ⟨id, span, rfl⟩ := isName
      exact .skip ((args _ arguments all.right).last (by simp))
    · rw [Form.walk_call _ callee arguments (by simpa using isName)]
      exact (expr _ callee all.left).bind fun _ => (args _ arguments all.right).last (by simp)
  | .new callee none, all => (expr _ callee all).last (by simp)
  | .new callee (some arguments), all =>
    (expr _ callee all.left).bind fun _ => (args _ arguments all.right).last (by simp)
  | .unary _ operand, all => (expr _ operand all).last (by simp)
  | .update _ _ operand, all => (expr _ operand all).last (by simp)
  | .binary _ left right, all =>
    (expr _ left all.left).bind fun _ => (expr _ right all.right).last (by simp)
  | .conditional test yes no, all =>
    (expr _ test all.left.left).bind fun _ => (expr _ yes all.left.right).bind fun _ =>
      (expr _ no all.right).last (by simp [and_assoc])
  | .number _, _ | .string _, _ | .regex _ _, _ | .boolean _, _ | .null, _ | .this, _ =>
    .pure (by simp)

/-- The items of an array. -/
theorem items (around : Form) : ∀ items : List (Option Expr), AllDeclare (itemNodes items) →
    Tells True (· = items) (walkItems (orderInFunctions settings) around items)
  | [], _ => .pure (by simp)
  | none :: rest, all => (items around rest all).last (by simp)
  | some e :: rest, all =>
    (expr _ e all.left).bind fun _ => (items around rest all.right).last (by simp)

/-- The arguments of a call. -/
theorem args (around : Form) : ∀ args : List Expr, AllDeclare (argNodes args) →
    Tells True (· = args) (walkArgs (orderInFunctions settings) around args)
  | [], _ => .pure (by simp)
  | e :: rest, all => (expr _ e all.left).bind fun _ => (args around rest all.right).last (by simp)

/-- The properties of an object. -/
theorem properties (around : Form) : ∀ properties : List Property,
    AllDeclare (propertyNodes properties) →
    Tells True (· = properties) (walkProperties (orderInFunctions settings) around properties)
  | [], _ => .pure (by simp)
  | ⟨_, _, value, _⟩ :: rest, all =>
    (expr _ value all.left.tail).bind fun _ => (properties around rest all.right).last (by simp)

/-- A function: its body is put in order once its parts are. -/
theorem functionOf : ∀ fn : Function, AllDeclare fn.nodes →
    Tells True (· = fn) (fn.walk (orderInFunctions settings))
  | ⟨kind, name, params, ⟨body, bodySpan⟩, scope, span⟩, all => by
    refine .skip ((blockOf ⟨body, bodySpan⟩ all.right).bind fun told => ?_)
    -- The shape of the body is what it was, whatever the walk changed in it.
    have whole := Block.orderDeclarations_eq_iff settings
      (Block.sameOutline_walk settings ⟨body, bodySpan⟩ told) (outline_of_allDeclare all.right.tail)
    intro told'
    refine ⟨_, rfl, ?_⟩
    rw [true_and, ← whole]
    exact ⟨congrArg Function.body, congrArg (Function.mk kind name params · scope span)⟩

/-- A block. -/
theorem blockOf : ∀ b : Block, AllDeclare b.nodes →
    Tells True (· = b) (b.walk (orderInFunctions settings))
  | ⟨body, _⟩, all => (statements body all.tail).bind fun _ => .skip (.pure (by simp))

/-- A list of statements. -/
theorem statements : ∀ statements : List Statement, AllDeclare (statementNodes statements) →
    Tells True (· = statements) (walkStatements (orderInFunctions settings) statements)
  | [], _ => .pure (by simp)
  | s :: rest, all =>
    (statementOf s all.left).bind fun _ => (statements rest all.right).last (by simp)

/-- A declaration. -/
theorem declOf : ∀ d : VarDecl, AllDeclare d.nodes →
    Tells True (· = d) (d.walk (orderInFunctions settings))
  | ⟨_, none, _⟩, _ => .skip (.pure (by simp))
  | ⟨_, some init, _⟩, all => .skip ((expr _ init all.tail.tail).last (by simp))

/-- Several declarations. -/
theorem decls : ∀ decls : List VarDecl, AllDeclare (declNodes decls) →
    Tells True (· = decls) (walkDecls (orderInFunctions settings) decls)
  | [], _ => .pure (by simp)
  | d :: rest, all => (declOf d all.left).bind fun _ => (decls rest all.right).last (by simp)

/-- What a `for` loop starts with. -/
theorem forInit : ∀ init : ForInit, AllDeclare init.nodes →
    Tells True (· = init) (init.walk (orderInFunctions settings))
  | .nothing, _ => .pure (by simp)
  | .var ⟨list, _⟩, all => (decls list all).last (by simp)
  | .expr e, all => (expr _ e all).last (by simp)

/-- What a `for`-`in` loop assigns to. -/
theorem forTarget : ∀ target : ForTarget, AllDeclare target.nodes →
    Tells True (· = target) (target.walk (orderInFunctions settings))
  | .var d, all => (declOf d all).last (by simp)
  | .expr e, all => (expr _ e all).last (by simp)

/-- An expression that may be missing. -/
theorem optional : ∀ e : Option Expr, AllDeclare (optionalNodes e) →
    Tells True (· = e) (walkOptional (orderInFunctions settings) e)
  | none, _ => .pure (by simp)
  | some e, all => (expr _ e all).last (by simp)

/-- The clauses of a `switch`. -/
theorem clauses : ∀ clauses : List SwitchCase, AllDeclare (caseNodes clauses) →
    Tells True (· = clauses) (walkCases (orderInFunctions settings) clauses)
  | [], _ => .pure (by simp)
  | ⟨test, body, _⟩ :: rest, all =>
    (optional test all.left.left.tail).bind fun _ => (statements body all.left.right).bind fun _ =>
      .skip ((clauses rest all.right).last (by simp [and_assoc]))

/-- A `catch` clause. -/
theorem handlerOf : ∀ handler : Option CatchClause, AllDeclare (handlerNodes handler) →
    Tells True (· = handler) (walkHandler (orderInFunctions settings) handler)
  | none, _ => .pure (by simp)
  | some ⟨_, body, _, _⟩, all =>
    .skip ((blockOf body all.tail.tail).bind fun _ => .skip (.pure (by simp)))

/-- A statement. -/
theorem statementOf (s : Statement) (all : AllDeclare s.nodes) :
    Tells True (· = s) (s.walk (orderInFunctions settings)) := by
  rw [Statement.walk, if_neg (by exact Bool.false_ne_true)]
  match s, all with
  | .block b, all => exact (blockOf b all.tail).ends (by simp)
  | .var ⟨list, _⟩, all => exact (decls list all.tail).ends (by simp)
  | .function fn, all => exact (functionOf fn all.tail).ends (by simp)
  | .expr e, all => exact (expr _ e all.tail).ends (by simp)
  | .ifElse test yes none _, all =>
    exact (expr _ test all.tail.left).bind fun _ => (statementOf yes all.tail.right).ends (by simp)
  | .ifElse test yes (some no) _, all =>
    exact (expr _ test all.tail.left.left).bind fun _ =>
      (statementOf yes all.tail.left.right).bind fun _ =>
      (statementOf no all.tail.right).ends (by simp [and_assoc])
  | .forLoop init test update body _, all =>
    exact (forInit init all.tail.left.left.left).bind fun _ =>
      (optional test all.tail.left.left.right).bind fun _ =>
      (optional update all.tail.left.right).bind fun _ =>
      (statementOf body all.tail.right).ends (by simp [and_assoc])
  | .forIn target object body _, all =>
    exact (forTarget target all.tail.left.left).bind fun _ =>
      (expr _ object all.tail.left.right).bind fun _ =>
      (statementOf body all.tail.right).ends (by simp [and_assoc])
  | .whileLoop test body _, all =>
    exact (expr _ test all.tail.left).bind fun _ => (statementOf body all.tail.right).ends (by simp)
  | .doWhile body test _, all =>
    exact (statementOf body all.tail.left).bind fun _ => (expr _ test all.tail.right).ends (by simp)
  | .switch subject cases _, all =>
    exact (expr _ subject all.tail.left).bind fun _ => (clauses cases all.tail.right).ends (by simp)
  | .tryCatch body handler none _, all =>
    exact (blockOf body all.tail.left).bind fun _ => (handlerOf handler all.tail.right).ends (by simp)
  | .tryCatch body handler (some finalizer) _, all =>
    exact (blockOf body all.tail.left.left).bind fun _ =>
      (handlerOf handler all.tail.left.right).bind fun _ =>
      (blockOf finalizer all.tail.right).ends (by simp [and_assoc])
  | .labeled _ body _, all => exact (statementOf body all.tail).ends (by simp)
  | .returnWith value _, all => exact (optional value all.tail).ends (by simp)
  | .throw value _, all => exact (expr _ value all.tail).ends (by simp)
  | .withObject object body _ _, all =>
    exact (expr _ object all.tail.left).bind fun _ =>
      .skip ((statementOf body all.tail.right).bind fun _ => .skip (.pure (by simp)))
  | .breakTo .., _ | .continueTo .., _ | .debugger _, _ | .empty _, _ | .comment .., _ =>
    exact .pure (by simp)

end

end Tells

/-- The pass says that it changed a program exactly if the program is another one. -/
theorem Program.changed_orderDeclarations (p : Program) (all : AllDeclare p.nodes) :
    (p.orderDeclarations settings).changed = true ↔ (p.orderDeclarations settings).value ≠ p := by
  rw [Program.orderDeclarations]
  split
  · obtain ⟨⟨statements, span⟩, scope, programSpan⟩ := p
    obtain ⟨changed, isTold, same⟩ := @Tells.blockOf settings ⟨statements, span⟩ all false
    have whole := Block.orderDeclarations_eq_iff settings
      (Block.sameOutline_walk settings ⟨statements, span⟩ false) (outline_of_allDeclare all.tail)
    beta_reduce at same
    set walked := Block.walk (orderInFunctions settings) ⟨statements, span⟩ false
    show (walked.2 || (walked.1.orderDeclarations settings).changed) = true ↔
      ¬(Program.mk (walked.1.orderDeclarations settings).value scope programSpan = _)
    rw [Program.mk.injEq, and_iff_left ⟨rfl, rfl⟩, whole, same, isTold, true_and, Bool.false_or,
      Bool.or_eq_true, not_and_or, Bool.not_eq_false, Bool.not_eq_false]
  · simp

end Walk

/-! ## Only declarations move -/

/-- Putting declarations in order keeps what a list does and the variables and functions that it
declares, and tells of a change. Functions keep their order also across bare blocks if blocks are
opened or functions are left where they are. If neither, functions move ahead of the blocks, and
those of the list and the blocks keep their order among themselves. -/
theorem orderDeclarations_moves_declarations (settings : Settings) :
    (∀ b : Block, let after := (b.orderDeclarations settings).value.statements
      effectsOf after = effectsOf b.statements ∧ directNames after = directNames b.statements ∧
        (settings.applies .unnestBlocks ∨ ¬settings.applies .moveFunctions →
          directFunctions after = directFunctions b.statements) ∧
        (¬settings.applies .unnestBlocks →
          after.flatMap ownFunction = b.statements.flatMap ownFunction ∧
            after.flatMap ownBlock = b.statements.flatMap ownBlock)) ∧
      ∀ p : Program, AllDeclare p.nodes →
        ((p.orderDeclarations settings).changed = true ↔
          (p.orderDeclarations settings).value ≠ p) := by
  refine ⟨fun b => ⟨b.effectsOf_orderDeclarations settings,
    b.directNames_orderDeclarations settings, ?_, ?_⟩, Program.changed_orderDeclarations⟩
  · rintro (unnests | stays)
    · exact b.directFunctions_of_unnest settings unnests
    · exact b.directFunctions_of_not_move settings stays
  · intro closed
    have opened : b.opened settings = b.statements := by
      rw [Block.opened, Edited.when, if_neg closed]
      rfl
    rw [b.functions_orderDeclarations, b.blocks_orderDeclarations, opened]
    exact ⟨rfl, rfl⟩

private def bareIdent (name : String) : Ident := ⟨name, .synthetic, none⟩

/-- `{function f(a){}}var x;function f(b){}` -/
private def declaredTwice : Block :=
  let taking (param : String) : Statement :=
    .function ⟨.declaration, some (bareIdent "f"), [bareIdent param], ⟨[], .synthetic⟩, none,
      .synthetic⟩
  ⟨[.block ⟨[taking "a"], .synthetic⟩, .var ⟨[⟨bareIdent "x", none, .synthetic⟩], .synthetic⟩,
    taking "b"], .synthetic⟩

theorem orderDeclarations_moves_declarations_sample :
    let p : Program := ⟨declaredTwice, none, .synthetic⟩
    AllDeclare p.nodes ∧ (p.orderDeclarations {}).value ≠ p ∧
      directFunctions (declaredTwice.orderDeclarations {}).value.statements =
        directFunctions declaredTwice.statements := by
  intro p
  have declares : AllDeclare p.nodes := by
    intro vars mem
    have isVar : vars = ⟨[⟨bareIdent "x", none, .synthetic⟩], .synthetic⟩ := by
      simpa [p, Program.nodes, declaredTwice, Block.nodes, statementNodes, nodes, Function.nodes,
        declNodes, VarDecl.nodes] using mem
    rw [isVar]
    exact cons_ne_nil _ _
  have moves := orderDeclarations_moves_declarations {}
  exact ⟨declares, (moves.2 p declares).mp rfl, (moves.1 declaredTwice).2.2.1 (.inl rfl)⟩

/-- A `var` statement without declarations, then `x` and `var a=0,b=0,c=0`. -/
private def emptyVar : Program :=
  let zero (name : String) : VarDecl := ⟨bareIdent name, some (.number .zero), .synthetic⟩
  ⟨⟨[.var ⟨[], .synthetic⟩, .expr (.synthetic (.ident (bareIdent "x"))),
    .var ⟨[zero "a", zero "b", zero "c"], .synthetic⟩], .synthetic⟩, none, .synthetic⟩

/-- If blocks are not opened, `function f(b){}` comes to stand before the block and is no longer the
last function of its name. And a `var` statement that declares nothing vanishes without notice. -/
theorem orderDeclarations_unkept :
    directFunctions (declaredTwice.orderDeclarations (Settings.disable {} .unnestBlocks)).value.statements ≠
        directFunctions declaredTwice.statements ∧
      (emptyVar.orderDeclarations {}).changed = false ∧ (emptyVar.orderDeclarations {}).value ≠ emptyVar := by
  refine ⟨fun same => ?_, rfl, fun same => ?_⟩
  · have params := congrArg (List.map fun fn : Function => fn.params.map (·.name)) same
    revert params
    decide
  · have lengths := congrArg (·.body.statements.length) same
    revert lengths
    decide

end Minifier
