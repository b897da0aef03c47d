import Minifier.Proofs.Literal.Plan

/-!
# The function that declares a variable for a literal

The scopes of all occurrences of a literal are taken together one after another, each time by a
search outwards. No search is cut short, since every way outwards ends in the global scope
(`getLast?_chain`). What comes out is the innermost scope around all occurrences, whatever their
order (`innermost_foldl_common`, `foldl_common_of_perm`), and the nearest function of that is the
innermost function around them (`Innermost.functionScopeOf`).
-/

set_option autoImplicit false

namespace Minifier.ScopeTree

variable {t t' : ScopeTree} {first : ScopeId} {rest scopes : List ScopeId}

/-- A way outwards ends in the global scope. -/
theorem getLast?_chain (formed : t.WellFormed) {s : ScopeId} (valid : s < t.scopes.size) :
    (t.chain s).getLast? = some global := by
  induction s using chain_induction formed.parentsFirst with
  | top s isTop =>
    rw [chain_of_no_parent isTop, formed.rooted s valid isTop]
    rfl
  | inner s parent isParent ih =>
    have lower := formed.parentsFirst s parent isParent
    rw [chain_of_parent formed.parentsFirst isParent, List.getLast?_cons, ih (Nat.lt_trans lower valid)]
    rfl

/-- Scopes have the same in common in every order. -/
theorem foldl_common_of_perm (formed : t.WellFormed) (valid : ∀ s ∈ first :: rest, s < t.scopes.size)
    {first' : ScopeId} {rest' : List ScopeId} (perm : (first' :: rest').Perm (first :: rest)) :
    rest'.foldl t.common first' = rest.foldl t.common first := by
  have valid' : ∀ s ∈ first' :: rest', s < t.scopes.size := by
    intro s mem
    exact valid s (perm.subset mem)
  have same (d : ScopeId) :
      Within t (rest'.foldl t.common first') d ↔ Within t (rest.foldl t.common first) d := by
    rw [within_foldl_common_iff formed valid', within_foldl_common_iff formed valid]
    simp only [perm.mem_iff]
  exact ((same _).mpr (.refl _)).antisymm formed.parentsFirst ((same _).mp (.refl _))

/-- The innermost scope of some sort around all of some scopes. -/
structure Innermost (t : ScopeTree) (sort : Scope → Bool) (scopes : List ScopeId) (x : ScopeId) :
    Prop where
  isSort : sort (t.scope x) = true
  around : ∀ s ∈ scopes, Within t s x
  /-- It is inside all others. -/
  inside : ∀ d, sort (t.scope d) = true → (∀ s ∈ scopes, Within t s d) → Within t x d

theorem innermost_foldl_common (formed : t.WellFormed)
    (valid : ∀ s ∈ first :: rest, s < t.scopes.size) :
    Innermost t (fun _ => true) (first :: rest) (rest.foldl t.common first) where
  isSort := rfl
  around := (within_foldl_common_iff formed valid).mp (.refl _)
  inside _ _ := (within_foldl_common_iff formed valid).mpr

namespace Innermost

/-- Between the innermost scope and its nearest function there is no other function. -/
theorem functionScopeOf (formed : t.WellFormed) {x : ScopeId} (valid : x < t.scopes.size)
    (innermost : Innermost t (fun _ => true) scopes x) :
    Innermost t Scope.isFunctionLevel scopes (t.functionScopeOf x) := by
  refine ⟨isFunctionLevel_functionScopeOf formed valid, fun s mem => ?_, fun d level around => ?_⟩
  · exact (innermost.around s mem).trans (within_functionScopeOf formed.parentsFirst x)
  · obtain ⟨owner, found, -, -, outer⟩ := exists_find?_chain
      (p := fun s => (t.scope s).isFunctionLevel) formed.parentsFirst (innermost.inside d rfl around) level
    rwa [ScopeTree.functionScopeOf, found]

/-- A scope of the sort that is further in leaves one of the scopes outside. -/
theorem exists_outside (ordered : t.ParentsFirst) {sort : Scope → Bool} {x d : ScopeId}
    (innermost : Innermost t sort scopes x) (isSort : sort (t.scope d) = true)
    (within : Within t d x) (ne : d ≠ x) : ∃ s ∈ scopes, ¬ Within t s d := by
  by_contra none
  push Not at none
  have around := innermost.inside d isSort none
  exact ne (within.antisymm ordered around)

end Innermost

theorem owner_share? {key : LiteralKey} {places : List Occurrence} {s : SharedLiteral}
    (isPlaces : places.map (·.scope) = first :: rest) (found : t.share? key places = some (s, t')) :
    s.owner = t.functionScopeOf (rest.foldl t.common first) := by
  obtain ⟨owner, isOwner, -, rfl⟩ := share?_eq_some found
  obtain ⟨_, _, same, isFunction, -⟩ := owner?_eq_some isOwner
  rw [isPlaces] at same
  cases same
  exact isFunction.symm

/-- No search outwards is cut short. Scopes taken together in any order give the innermost scope
around them all, and the variable for a literal goes to the nearest function of that: it is around
all occurrences, and no function further in is. -/
theorem innermost_owner (formed : t.WellFormed) (first : ScopeId) (rest : List ScopeId)
    (valid : ∀ s ∈ first :: rest, s < t.scopes.size) :
    let inner := rest.foldl t.common first
    let owner := t.functionScopeOf inner
    (∀ s < t.scopes.size, (t.chain s).getLast? = some global ∧
      ∀ fuel, s < fuel → t.chainFrom fuel s = t.chain s) ∧
    Innermost t (fun _ => true) (first :: rest) inner ∧
    (∀ first' rest', (first' :: rest').Perm (first :: rest) → rest'.foldl t.common first' = inner) ∧
    Innermost t Scope.isFunctionLevel (first :: rest) owner ∧
    (∀ d, (t.scope d).isFunctionLevel = true → Within t d owner → d ≠ owner →
      ∃ s ∈ first :: rest, ¬ Within t s d) ∧
    ∀ key places s t', places.map (·.scope) = first :: rest → t.share? key places = some (s, t') →
      s.owner = owner := by
  intro inner owner
  have ordered := formed.parentsFirst
  have innermost : Innermost t (fun _ => true) (first :: rest) inner := innermost_foldl_common formed valid
  have bound : inner < t.scopes.size :=
    Nat.lt_of_le_of_lt ((innermost.around first List.mem_cons_self).le ordered)
      (valid first List.mem_cons_self)
  have isOwner : Innermost t Scope.isFunctionLevel (first :: rest) owner :=
    innermost.functionScopeOf formed bound
  refine ⟨fun s inTree => ⟨getLast?_chain formed inTree, fun fuel enough => ?_⟩, innermost,
    fun _ _ perm => foldl_common_of_perm formed valid perm, isOwner,
    fun d level within ne => isOwner.exists_outside ordered level within ne,
    fun key places s t' isPlaces found => owner_share? isPlaces found⟩
  exact chainFrom_of_lt ordered enough (Nat.lt_succ_self s)

/-- Two functions in a `catch` clause of a function. -/
def inCatch : ScopeTree :=
  let t := (empty.createScope .function global .synthetic).2
  let t := (t.createScope .catchClause 1 .synthetic).2
  ((t.createScope .function 2 .synthetic).2.createScope .function 2 .synthetic).2

theorem wellFormed_inCatch : inCatch.WellFormed := by
  have outside := wellFormed_empty.createScope (by decide : global < _) (by decide : .function ≠ _) .synthetic
  have clause := outside.createScope (by decide : 1 < _) (by decide : .catchClause ≠ _) .synthetic
  have first := clause.createScope (by decide : 2 < _) (by decide : .function ≠ _) .synthetic
  exact first.createScope (by decide : 2 < _) (by decide : .function ≠ _) .synthetic

/-- What both functions mention has the clause around it, and goes to the function around that. -/
theorem innermost_owner_inCatch :
    Innermost inCatch (fun _ => true) [3, 4] 2 ∧ [3].foldl inCatch.common 4 = 2 ∧
      Innermost inCatch Scope.isFunctionLevel [3, 4] 1 ∧
      let key : LiteralKey := ⟨1, .string "0123456789"⟩
      ∃ s t', inCatch.share? key [⟨key, 3, false⟩, ⟨key, 4, false⟩] = some (s, t') ∧ s.owner = 1 := by
  obtain ⟨-, innermost, order, owner, -, shared⟩ := innermost_owner wellFormed_inCatch 3 [4] (by decide)
  refine ⟨innermost, order 4 [3] (.swap 3 4 []), owner, ?_⟩
  intro key
  cases found : inCatch.share? key [⟨key, 3, false⟩, ⟨key, 4, false⟩] with
  | none => exact absurd found (by decide +kernel)
  | some r => exact ⟨r.1, r.2, rfl, shared key _ r.1 r.2 rfl found⟩

end Minifier.ScopeTree
