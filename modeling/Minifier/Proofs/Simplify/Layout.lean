import Mathlib.Algebra.Order.Monoid.Unbundled.Pow
import Minifier.Proofs.Scope.Lookup
import Minifier.Proofs.Simplify.Bindings
import Minifier.Proofs.Syntax.Related

/-!
# Shrinking a program keeps its layout

The order of declarations and the rules of simplification drop parts of a program and move others,
but nothing leaves the function that it is in: by any census that knows of functions only, a
program comes to no more when it is shrunk (`BoundProgram.census_shrink_le`).

So a shrunk program has each of its scopes at one place at most, and in the functions that the scope
is in (`BoundProgram.IsLaidOut`). A function that is declared in a `catch` clause or a `with` body
may have left it, though, and its scope is not told.
-/

set_option autoImplicit false

namespace Minifier

open Multiset

variable (around : List Opening) (settings : Settings) (p : BoundProgram)

variable {M : Type} [AddCommMonoid M] {c : Census M} {le : M → M → Prop}

/-! ## The rules -/

section Rules

variable (sheds : c.ShedsWithin le)
include sheds

theorem Simplify.rules_tracks (functions : ∀ fn : Function, le 0 (fn.census c))
    (declarations : ∀ id, le 0 (c.declare id)) (settings : Settings) :
    c.Tracks c (Simplify.rules settings) fun _ a b _ => le b a := by
  have fits : Simplify.Fits settings c c le fun _ a b _ => le b a := {
    zero := fun _ => sheds.refl 0
    add := fun first second => sheds.add first second
    expr := fun _ _ e e' _ _ _ =>
      Expr.census_answers sheds.toIsPlain (fun a b => le b a) (sheds.refl 0) _ _ e e'
    less := fun known less => sheds.trans less known
    use := fun _ _ _ => sheds.refl _
    declare := fun _ _ => sheds.refl _
    function := fun fn body s s₁ _ less => by
      obtain ⟨kind, name, params', body', scope, span⟩ := fn
      obtain ⟨statements, bodySpan⟩ := body
      obtain ⟨-, params, isEnd, -⟩ := Simplify.functionEnd_cases settings
        ⟨kind, name, params', ⟨statements, bodySpan⟩, scope, span⟩ s₁
      have ends : le (statementCensus c (simplifyEnd settings statements).value) (body'.census c) := by
        rw [census_simplifyEnd sheds.toIsPlain]
        simpa [sheds.list] using less
      rw [isEnd]
      simpa [sheds.list] using sheds.function ⟨kind, name, params', body', scope, span⟩ params
        ⟨(simplifyEnd settings statements).value, bodySpan⟩ ends
    handler := fun clause body _ _ _ _ less => sheds.handler clause body less
    withBody := fun scope _ _ _ _ less => sheds.withBody scope less
    dropFunctions := fun l known =>
      sheds.trans (ScopeTree.census_dropFunctions_le sheds.toSheds functions _ l) known
    returnInitializer := fun l known =>
      sheds.trans (ScopeTree.census_returnInitializer_le sheds.toSheds declarations _ l) known }
  exact fits.tracks sheds.toIsPlain sheds.toSheds

/-- A simplified program comes to no more than it did. -/
theorem BoundProgram.census_simplify_le (functions : ∀ fn : Function, le 0 (fn.census c))
    (declarations : ∀ id, le 0 (c.declare id)) (settings : Settings) (p : BoundProgram) :
    le ((p.simplify settings).value.program.census c) (p.program.census c) := by
  unfold BoundProgram.simplify
  split
  · exact (Simplify.rules_tracks sheds functions declarations settings).program p.program _
  · exact sheds.refl _

end Rules

/-! ## Layout -/

/-- A construct that opens a scope, in the functions around it, from the inside. -/
structure Spot where
  around : List (Option ScopeId)
  isFunction : Bool
  scope : Option ScopeId

/-- The constructs that open scopes, given the functions around. -/
def layout : Census (List (Option ScopeId) → Multiset Spot) where
  use _ _ := 0
  declare _ := 0
  function fn body around := {⟨around, true, fn.scope⟩} + body (fn.scope :: around)
  handler clause body around := {⟨around, false, clause.scope⟩} + body around
  withBody scope body around := {⟨around, false, scope⟩} + body around

theorem layout_sheds : layout.ShedsWithin fun a b => ∀ around, a around ≤ b around where
  refl _ _ := le_refl _
  trans first second around := le_trans (first around) (second around)
  add first second around := add_le_add (first around) (second around)
  expr _ _ := zero_le _
  again _ _ := zero_le _
  function fn _ _ _ _ less around := add_le_add (le_refl _) (less _)
  handler _ _ _ _ less around := add_le_add (le_refl _) (less around)
  withBody _ _ _ less around := add_le_add (le_refl _) (less around)
  ofHandler _ _ _ around := le_add_of_nonneg_left (zero_le _)
  ofWithBody _ _ _ around := le_add_of_nonneg_left (zero_le _)

namespace Program

/-- The constructs of a program that open scopes. -/
def spots (p : Program) : Multiset Spot := p.census layout []

end Program

theorem BoundProgram.spots_simplify_le : (p.simplify settings).value.program.spots ≤ p.program.spots :=
  p.census_simplify_le layout_sheds (fun _ _ => zero_le _) (fun _ _ => zero_le _) settings []

theorem BoundProgram.spots_orderDeclarations_le :
    (p.orderDeclarations settings).value.program.spots ≤ p.program.spots :=
  p.program.census_orderDeclarations_le layout_sheds (fun _ _ => le_refl _) settings []

/-! ### Layout and scopes -/

/-- The scopes of some functions, and the global one. -/
def scopesOf (around : List (Option ScopeId)) : List ScopeId :=
  around.filterMap id ++ [ScopeTree.global]

/-- The functions around a scope in a tree are those around its construct. -/
def Spot.IsLaid (t : ScopeTree) (spot : Spot) : Prop :=
  ∃ scope, spot.scope = some scope ∧ scope < t.scopes.size ∧
    (t.chain scope).filter (fun s => (t.scope s).isFunctionLevel) =
      scopesOf (if spot.isFunction then some scope :: spot.around else spot.around)

/-- The constructs of a program open scopes of the tree, each at one place, where the tree has it. -/
structure BoundProgram.IsLaidOut (b : BoundProgram) : Prop where
  laid : ∀ spot ∈ b.program.spots, spot.IsLaid b.tree
  nodup : (b.program.spots.map Spot.scope).Nodup

namespace BoundProgram.IsLaidOut

variable {b b' : BoundProgram}

/-- A program that has fewer constructs, over a tree of the same shape. -/
theorem of_le (laidOut : b.IsLaidOut) (fewer : b'.program.spots ≤ b.program.spots)
    (same : ScopeTree.SameShape b.tree b'.tree) : b'.IsLaidOut where
  laid spot mem := by
    obtain ⟨scope, isScope, bound, functions⟩ := laidOut.laid spot (mem_of_le fewer mem)
    refine ⟨scope, isScope, same.scopes_size ▸ bound, ?_⟩
    rw [same.chain, ← functions]
    refine List.filter_congr fun s _ => ?_
    simp only [Scope.isFunctionLevel, same.kind]
  nodup := nodup_of_le (map_le_map fewer) laidOut.nodup

end BoundProgram.IsLaidOut

/-! ### After binding -/

/-- The construct that stands at a site. -/
def Site.spot? (site : Site) : Option Spot :=
  match site.item with
  | .opening o => some ⟨(functionsOf site.around).map (·.scope), o.kind = .function, o.scope⟩
  | _ => none

theorem filterMap_spot_declared (ids : List Ident) :
    (declared around ids).filterMap Site.spot? = 0 := by
  simp [declared, Site.spot?]

theorem filterMap_spot_opened (o : Opening) (outer inner : List Ident)
    (body : List Opening → Multiset Site) :
    (opened o outer inner body around).filterMap Site.spot? =
      {⟨(functionsOf around).map (·.scope), o.kind = .function, o.scope⟩} +
        (body (o :: around)).filterMap Site.spot? := by
  have here : Multiset.filterMap Site.spot? {⟨around, .opening o⟩} =
      {⟨(functionsOf around).map (·.scope), o.kind = .function, o.scope⟩} := by
    rw [← coe_singleton, filterMap_coe]
    simp [Site.spot?]
  simp only [opened, filterMap_add, here, filterMap_spot_declared, add_zero]

theorem survey_relates_layout : survey.Relates layout fun a b =>
    ∀ around, (a.2 around).filterMap Site.spot? = b ((functionsOf around).map (·.scope)) where
  zero _ := by simp
  add first second around := by
    rw [Prod.snd_add, Pi.add_apply, Pi.add_apply, filterMap_add, first, second]
  use _ id around := by
    show Multiset.filterMap Site.spot? {⟨around, .use id⟩} = 0
    rw [← coe_singleton, filterMap_coe]
    rfl
  declare _ _ := filterMap_spot_declared _ _
  function _ related around := by
    show (opened _ _ _ _ around).filterMap Site.spot? = _
    rw [filterMap_spot_opened, related]
    rfl
  handler _ related around := by
    show (opened _ _ _ _ around).filterMap Site.spot? = _
    rw [filterMap_spot_opened, related]
    rfl
  withBody scope related around := by
    show (opened _ _ _ _ around).filterMap Site.spot? = _
    rw [filterMap_spot_opened, related]
    rfl

theorem Program.filterMap_spot_sites (p : Program) : p.sites.filterMap Site.spot? = p.spots :=
  survey_relates_layout.related p []

namespace BoundProgram.IsScoped

open ScopeTree

variable {b : BoundProgram}

/-- The functions among the scopes around a site are those of the functions around it. -/
theorem filter_scopesAround (surveyed : b.IsScoped) : ∀ {around : List Opening} {item : Item},
    ⟨around, item⟩ ∈ b.program.sites →
    (scopesAround around).filter (fun s => (b.tree.scope s).isFunctionLevel) =
      scopesAround (functionsOf around)
  | [], _, _ => by
    have isGlobal := (surveyed.formed.isGlobal_iff global surveyed.formed.nonempty).mpr rfl
    simp [scopesAround, functionsOf, Scope.isFunctionLevel, isGlobal]
  | o :: rest, _, mem => by
    have outer := b.program.opening_mem_sites mem rfl
    obtain ⟨scope, isScope, isKind, isParent, -⟩ := surveyed.openings _ outer o rfl
    have notGlobal : (b.tree.scope scope).kind ≠ .global := by
      rw [Ne, surveyed.formed.isGlobal_iff scope (lt_size_of_parent isParent)]
      rintro rfl
      exact Nat.not_lt_zero _ (surveyed.formed.parentsFirst _ _ isParent)
    have further := surveyed.filter_scopesAround outer
    have step (around : List Opening) : scopesAround (o :: around) = scope :: scopesAround around := by
      simp [scopesAround, isScope]
    rw [step, List.filter_cons, further]
    by_cases isFunction : o.kind = .function
    · simp [Scope.isFunctionLevel, functionsOf, isKind, isFunction, ← step]
    · rw [isKind] at notGlobal
      simp [Scope.isFunctionLevel, functionsOf, isKind, isFunction, notGlobal]

/-- Binding lays a program out. -/
theorem isLaidOut (surveyed : b.IsScoped) : b.IsLaidOut where
  laid spot mem := by
    rw [← Program.filterMap_spot_sites] at mem
    obtain ⟨⟨around, item⟩, isSite, isSpot⟩ := (mem_filterMap _ _).mp mem
    unfold Site.spot? at isSpot
    split at isSpot
    case h_2 => cases isSpot
    rename_i o isOpening
    cases isSpot
    obtain rfl : item = .opening o := isOpening
    obtain ⟨scope, isScope, isKind, isParent, -⟩ := surveyed.openings _ isSite o rfl
    refine ⟨scope, isScope, lt_size_of_parent isParent, ?_⟩
    have inside := surveyed.filter_scopesAround isSite
    rw [chain_of_parent surveyed.formed.parentsFirst isParent, List.filter_cons,
      surveyed.chain_innermost isSite, inside]
    have notGlobal : (b.tree.scope scope).kind ≠ .global := by
      rw [Ne, surveyed.formed.isGlobal_iff scope (lt_size_of_parent isParent)]
      rintro rfl
      exact Nat.not_lt_zero _ (surveyed.formed.parentsFirst _ _ isParent)
    have same : scopesOf ((functionsOf around).map (·.scope)) = scopesAround (functionsOf around) := by
      simp [scopesOf, scopesAround, List.filterMap_map]
    rw [isKind] at notGlobal
    by_cases isFunction : o.kind = .function
    · simp [Scope.isFunctionLevel, isKind, isFunction, ← same, scopesOf]
    · simp [Scope.isFunctionLevel, isKind, isFunction, notGlobal, same]
  nodup := by
    have scopes : b.program.spots.map Spot.scope = (b.program.sites.filterMap Site.scope?).map some := by
      rw [← Program.filterMap_spot_sites, map_filterMap, map_filterMap]
      have each : ∀ site ∈ b.program.sites, (site.spot?.map Spot.scope) = site.scope?.map some := by
        rintro ⟨around, item⟩ isSite
        cases item with
        | opening o =>
          obtain ⟨scope, isScope, -⟩ := surveyed.openings _ isSite o rfl
          simp [Site.spot?, Site.scope?, isScope]
        | _ => rfl
      generalize b.program.sites = sites at each
      induction sites using Quotient.inductionOn with
      | _ sites => exact congrArg Multiset.ofList (List.filterMap_congr each)
    rw [scopes, surveyed.scopes]
    refine Multiset.Nodup.map (Option.some_injective _) ?_
    exact coe_nodup.mpr List.nodup_range'

end BoundProgram.IsScoped

end Minifier
