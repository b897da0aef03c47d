import Mathlib.Data.List.TakeDrop
import Minifier.Scope.Basic

/-!
# Ways through the scopes

Scopes are numbered as they are created, so a scope has a higher number than the scope around it,
and an alias a higher number than what it stands for. From these two facts alone the ways through a
tree of scopes are what they should be: `chain` has the scopes around a scope (`mem_chain_iff`),
`chainUpTo` those below a given one (`mem_chainUpTo_iff`), `subtree` the scopes inside a scope
(`mem_subtree_iff`), none before one that it is inside of (`pairwise_subtree`), and `ultimate` is
the variable at the end of the aliases (`ultimate_of_alias`).
-/

set_option autoImplicit false

namespace Minifier.ScopeTree

open List

variable {s parent : ScopeId} {f : FieldId} {name : String}

variable {t : ScopeTree}

/-- A relation that every step keeps is kept by all of them together. -/
theorem relates_foldl {α : Type} {R : ScopeTree → ScopeTree → Prop} (refl : ∀ t, R t t)
    (trans : ∀ {a b c}, R a b → R b c → R a c) {f : ScopeTree → α → ScopeTree}
    (step : ∀ t a, R t (f t a)) (l : List α) (t : ScopeTree) : R t (l.foldl f t) := by
  induction l generalizing t with
  | nil => exact refl t
  | cons a l ih => exact trans (step t a) (ih (f t a))

/-- A scope is inside another, or the same. -/
inductive Within (t : ScopeTree) : ScopeId → ScopeId → Prop where
  | refl (s : ScopeId) : Within t s s
  | step {s parent d : ScopeId} : (t.scope s).parent = some parent → Within t parent d → Within t s d

/-- Every scope has a higher number than the scope around it. -/
def ParentsFirst (t : ScopeTree) : Prop := ∀ s parent, (t.scope s).parent = some parent → parent < s

/-- Every alias has a higher number than the field it stands for. -/
def OutersFirst (t : ScopeTree) : Prop := ∀ f outer, (t.field f).outer = some outer → outer < f

/-! ## Scopes around a scope -/

namespace Within

theorem trans {a b c : ScopeId} (first : Within t a b) (second : Within t b c) : Within t a c := by
  induction first with
  | refl => exact second
  | step isParent _ ih => exact .step isParent (ih second)

theorem le (ordered : t.ParentsFirst) {a b : ScopeId} (within : Within t a b) : b ≤ a := by
  induction within with
  | refl => exact Nat.le_refl _
  | step isParent _ ih => exact Nat.le_trans ih (Nat.le_of_lt (ordered _ _ isParent))

/-- The scopes around a scope are inside each other. -/
theorem total {a b c : ScopeId} (first : Within t a b) (second : Within t a c) :
    Within t b c ∨ Within t c b := by
  induction first with
  | refl => exact Or.inl second
  | step isParent rest ih =>
    cases second with
    | refl => exact Or.inr (.step isParent rest)
    | step isParent' rest' =>
      rw [isParent] at isParent'
      cases isParent'
      exact ih rest'

/-- Of two scopes around a scope, the one with the higher number is the inner one. -/
theorem of_le (ordered : t.ParentsFirst) {a b c : ScopeId} (first : Within t a b)
    (second : Within t a c) (le : c ≤ b) : Within t b c := by
  rcases total first second with inner | outer
  · exact inner
  · have : b = c := Nat.le_antisymm (outer.le ordered) le
    exact this ▸ .refl b

theorem antisymm (ordered : t.ParentsFirst) {a b : ScopeId} (first : Within t a b)
    (second : Within t b a) : a = b :=
  Nat.le_antisymm (second.le ordered) (first.le ordered)

/-- The last step into a scope. -/
theorem exists_child {a b : ScopeId} (within : Within t a b) (ne : a ≠ b) :
    ∃ child, (t.scope child).parent = some b ∧ Within t a child := by
  induction within with
  | refl => exact absurd rfl ne
  | @step s parent d isParent rest ih =>
    by_cases same : parent = d
    · exact ⟨s, same ▸ isParent, .refl s⟩
    · obtain ⟨child, isChild, inner⟩ := ih same
      exact ⟨child, isChild, .step isParent inner⟩

end Within

theorem within_of_no_parent {a b : ScopeId} (top : (t.scope a).parent = none)
    (within : Within t a b) : b = a := by
  cases within with
  | refl => rfl
  | step isParent _ => rw [top] at isParent; cases isParent

theorem within_iff_of_parent {a b : ScopeId} (isParent : (t.scope a).parent = some parent) :
    Within t a b ↔ b = a ∨ Within t parent b := by
  constructor
  · rintro (_ | ⟨isParent', rest⟩)
    · exact Or.inl rfl
    · rw [isParent] at isParent'
      cases isParent'
      exact Or.inr rest
  · rintro (rfl | rest)
    · exact .refl b
    · exact .step isParent rest

/-! ## The chain -/

theorem chainFrom_succ (t : ScopeTree) (fuel : Nat) (s : ScopeId) :
    t.chainFrom (fuel + 1) s = match (t.scope s).parent with
      | none => [s]
      | some parent => s :: t.chainFrom fuel parent := rfl

theorem chainFrom_of_lt (ordered : t.ParentsFirst) : ∀ {fuel more s : Nat}, s < fuel → s < more →
    t.chainFrom fuel s = t.chainFrom more s
  | 0, _, _, enough, _ => absurd enough (Nat.not_lt_zero _)
  | _, 0, _, _, enough => absurd enough (Nat.not_lt_zero _)
  | fuel + 1, more + 1, s, enough, enough' => by
    rw [chainFrom_succ, chainFrom_succ]
    split
    · rfl
    · rename_i parent isParent
      have lower := ordered s parent isParent
      have first := Nat.lt_of_lt_of_le lower (Nat.le_of_lt_succ enough)
      have second := Nat.lt_of_lt_of_le lower (Nat.le_of_lt_succ enough')
      exact congrArg (s :: ·) (chainFrom_of_lt ordered first second)

theorem chain_of_no_parent (top : (t.scope s).parent = none) : t.chain s = [s] := by
  rw [chain, chainFrom_succ, top]

section Ordered

variable (ordered : t.ParentsFirst)
include ordered

theorem chain_of_parent (isParent : (t.scope s).parent = some parent) :
    t.chain s = s :: t.chain parent := by
  have lower := ordered s parent isParent
  have same := chainFrom_of_lt ordered lower (Nat.lt_succ_self parent)
  rw [chain, chainFrom_succ, isParent]
  exact congrArg (s :: ·) same

/-- The scopes around a scope, by induction on their number. -/
theorem chain_induction {motive : ScopeId → Prop} (top : ∀ s, (t.scope s).parent = none → motive s)
    (inner : ∀ s parent, (t.scope s).parent = some parent → motive parent → motive s)
    (s : ScopeId) : motive s := by
  induction s using Nat.strongRecOn with
  | _ s ih =>
    cases isParent : (t.scope s).parent with
    | none => exact top s isParent
    | some parent => exact inner s parent isParent (ih parent (ordered s parent isParent))

theorem mem_chain_iff {d : ScopeId} : d ∈ t.chain s ↔ Within t s d := by
  induction s using chain_induction ordered with
  | top s isTop =>
    rw [chain_of_no_parent isTop, mem_singleton]
    exact ⟨fun same => same ▸ .refl d, within_of_no_parent isTop⟩
  | inner s parent isParent ih =>
    rw [chain_of_parent ordered isParent, mem_cons, within_iff_of_parent isParent, ih]

/-- The numbers of a chain go down. -/
theorem pairwise_chain (s : ScopeId) : (t.chain s).Pairwise fun a b => b < a := by
  induction s using chain_induction ordered with
  | top s isTop =>
    rw [chain_of_no_parent isTop]
    exact pairwise_singleton _ _
  | inner s parent isParent ih =>
    rw [chain_of_parent ordered isParent]
    refine pairwise_cons.mpr ⟨fun d mem => ?_, ih⟩
    have below := ((mem_chain_iff ordered).mp mem).le ordered
    exact Nat.lt_of_le_of_lt below (ordered s parent isParent)

theorem isAncestorOrSelf_iff {ancestor : ScopeId} :
    t.isAncestorOrSelf ancestor s = true ↔ Within t s ancestor := by
  rw [isAncestorOrSelf, contains_iff_mem, mem_chain_iff ordered]

/-- A search outwards that could end at a scope ends there or further in. -/
theorem exists_find?_chain {p : ScopeId → Bool} {d : ScopeId}
    (around : Within t s d) (hit : p d = true) :
    ∃ x, (t.chain s).find? p = some x ∧ p x = true ∧ Within t s x ∧ Within t x d := by
  induction around with
  | refl s =>
    refine ⟨s, ?_, hit, .refl s, .refl s⟩
    unfold chain chainFrom
    split <;> simp [hit]
  | @step s parent d isParent rest ih =>
    rw [chain_of_parent ordered isParent, List.find?_cons]
    cases here : p s with
    | true => exact ⟨s, rfl, here, .refl s, .step isParent rest⟩
    | false =>
      obtain ⟨x, found, holds, inner, outer⟩ := ih hit
      exact ⟨x, found, holds, .step isParent inner, outer⟩

omit ordered in
theorem chainUpTo_self (t : ScopeTree) (s : ScopeId) : t.chainUpTo s s = [] := by
  unfold chainUpTo chain chainFrom
  split <;> simp

theorem chainUpTo_of_parent {d : ScopeId}
    (isParent : (t.scope s).parent = some parent) (ne : s ≠ d) :
    t.chainUpTo s d = s :: t.chainUpTo parent d := by
  simp [chainUpTo, chain_of_parent ordered isParent, ne]

/-- The scopes from one outwards up to another are those of the first that have a higher number than
the second. -/
theorem mem_chainUpTo_iff {d x : ScopeId} (within : Within t s d) :
    x ∈ t.chainUpTo s d ↔ Within t s x ∧ d < x := by
  induction within with
  | refl s =>
    simp only [chainUpTo_self, not_mem_nil, false_iff, not_and, Nat.not_lt]
    exact fun within => within.le ordered
  | @step s parent d isParent rest ih =>
    have below : d < s := Nat.lt_of_le_of_lt (rest.le ordered) (ordered s parent isParent)
    rw [chainUpTo_of_parent ordered isParent (Nat.ne_of_gt below), mem_cons, ih,
      within_iff_of_parent isParent]
    constructor
    · rintro (rfl | ⟨inner, lt⟩)
      · exact ⟨Or.inl rfl, below⟩
      · exact ⟨Or.inr inner, lt⟩
    · rintro ⟨rfl | inner, lt⟩
      · exact Or.inl rfl
      · exact Or.inr ⟨inner, lt⟩

/-! ## Visible names -/

/-- The field that is found is in the innermost scope that has the name. -/
theorem findVisible_eq_some {x : ScopeId} (found : t.findVisible s name = some (x, f)) :
    Within t s x ∧ (t.scope x).lookup name = some f ∧
      ∀ y, Within t s y → x < y → (t.scope y).lookup name = none := by
  obtain ⟨before, a, after, whole, hit, miss⟩ := List.findSome?_eq_some_iff.mp found
  simp only [Option.map_eq_some_iff, Prod.mk.injEq] at hit
  obtain ⟨g, isField, rfl, rfl⟩ := hit
  have mem : ∀ y, y ∈ t.chain s ↔ Within t s y := fun y => mem_chain_iff ordered
  refine ⟨(mem a).mp (by simp [whole]), isField, fun y within inner => ?_⟩
  have inChain := (mem y).mpr within
  have sorted := pairwise_chain ordered s
  rw [whole] at inChain sorted
  rcases mem_append.mp inChain with earlier | later
  · simpa using miss y earlier
  · rcases mem_cons.mp later with rfl | later
    · exact absurd inner (Nat.lt_irrefl _)
    · have lower := (pairwise_cons.mp (pairwise_append.mp sorted).2.1).1 y later
      exact absurd inner (Nat.lt_asymm lower)

theorem findVisible_eq_none (missing : t.findVisible s name = none)
    {y : ScopeId} (within : Within t s y) : (t.scope y).lookup name = none := by
  have miss := List.findSome?_eq_none_iff.mp missing y ((mem_chain_iff ordered).mpr within)
  simpa using miss

/-- The nearest function is around a scope. -/
theorem within_functionScopeOf (s : ScopeId) : Within t s (t.functionScopeOf s) := by
  unfold functionScopeOf
  cases found : (t.chain s).find? fun s => (t.scope s).isFunctionLevel with
  | none => exact .refl s
  | some d => exact (mem_chain_iff ordered).mp (mem_of_find?_eq_some found)

end Ordered

/-! ## Scopes inside a scope -/

/-- The children of every scope are the scopes that have it around them. -/
def ChildrenAgree (t : ScopeTree) : Prop :=
  ∀ s child, child ∈ (t.scope s).children ↔ (t.scope child).parent = some s

theorem within_of_mem_subtreeFrom (agree : t.ChildrenAgree) {fuel : Nat} : ∀ {s x : ScopeId},
    x ∈ t.subtreeFrom fuel s → Within t x s := by
  induction fuel with
  | zero => intro s x mem; cases mem
  | succ fuel ih =>
    intro s x mem
    rcases mem_cons.mp mem with rfl | inner
    · exact .refl x
    · obtain ⟨child, isChild, inside⟩ := mem_flatMap.mp inner
      exact (ih inside).trans (.step ((agree s child).mp isChild) (.refl s))

/-- A scope inside another is at most as many levels down as their numbers differ. -/
theorem mem_subtreeFrom_of_within (ordered : t.ParentsFirst) (agree : t.ChildrenAgree) :
    ∀ {fuel s x : Nat}, Within t x s → x < s + fuel → x ∈ t.subtreeFrom fuel s
  | 0, s, x, within, enough => absurd (within.le ordered) (Nat.not_le_of_lt enough)
  | fuel + 1, s, x, within, enough => by
    by_cases same : x = s
    · subst same
      exact mem_cons_self
    · obtain ⟨child, isChild, inside⟩ := within.exists_child same
      have lower : s + 1 ≤ child := ordered child s isChild
      have bound : x < child + fuel := by
        refine Nat.lt_of_lt_of_le enough ?_
        rw [← Nat.add_assoc, Nat.add_right_comm]
        exact Nat.add_le_add_right lower fuel
      refine mem_cons_of_mem _ (mem_flatMap.mpr ⟨child, (agree s child).mpr isChild, ?_⟩)
      exact mem_subtreeFrom_of_within ordered agree inside bound

theorem scope_of_size_le (out : t.scopes.size ≤ s) : t.scope s = default := by
  unfold scope
  rw [Array.getElem?_eq_none out]
  rfl

/-- Only scopes of the tree have a scope around them. -/
theorem lt_size_of_parent (isParent : (t.scope s).parent = some parent) : s < t.scopes.size := by
  apply Nat.lt_of_not_le
  intro out
  rw [scope_of_size_le out] at isParent
  cases isParent

theorem Within.lt_size {d : ScopeId} (within : Within t s d) (valid : d < t.scopes.size) :
    s < t.scopes.size := by
  cases within with
  | refl => exact valid
  | step isParent _ => exact lt_size_of_parent isParent

theorem mem_subtree_iff (ordered : t.ParentsFirst) (agree : t.ChildrenAgree) {x : ScopeId}
    (valid : s < t.scopes.size) : x ∈ t.subtree s ↔ Within t x s := by
  refine ⟨within_of_mem_subtreeFrom agree, fun within => ?_⟩
  have bound := within.lt_size valid
  exact mem_subtreeFrom_of_within ordered agree within (Nat.lt_of_lt_of_le bound (Nat.le_add_left _ _))

/-- Two scopes with the same scope around them have nothing in common. -/
theorem disjoint_siblings (ordered : t.ParentsFirst) {a b x : ScopeId}
    (first : (t.scope a).parent = some s) (second : (t.scope b).parent = some s)
    (inFirst : Within t x a) (inSecond : Within t x b) : a = b := by
  have lower {a b : ScopeId} (isParent : (t.scope a).parent = some s)
      (isParent' : (t.scope b).parent = some s) (within : Within t a b) : b = a := by
    rcases (within_iff_of_parent isParent).mp within with same | around
    · exact same
    · exact absurd (ordered b s isParent') (Nat.not_lt_of_le (around.le ordered))
  rcases inFirst.total inSecond with inner | outer
  · exact (lower first second inner).symm
  · exact lower second first outer

/-- No scope stands before a scope that it is inside of, and none stands there twice. -/
theorem pairwise_subtreeFrom (ordered : t.ParentsFirst) (agree : t.ChildrenAgree)
    (distinct : ∀ s, (t.scope s).children.Nodup) (fuel : Nat) : ∀ s : ScopeId,
    (t.subtreeFrom fuel s).Pairwise fun a b => ¬ Within t a b := by
  induction fuel with
  | zero => intro s; exact List.Pairwise.nil
  | succ fuel ih =>
    intro s
    refine pairwise_cons.mpr ⟨fun b mem around => ?_, ?_⟩
    · obtain ⟨child, isChild, inside⟩ := mem_flatMap.mp mem
      have lower := ordered child s ((agree s child).mp isChild)
      have above := (within_of_mem_subtreeFrom agree inside).le ordered
      exact Nat.lt_irrefl s (Nat.lt_of_lt_of_le lower (Nat.le_trans above (around.le ordered)))
    · rw [pairwise_flatMap]
      refine ⟨fun child _ => ih child, ?_⟩
      refine (distinct s).imp_of_mem fun {a b} inA inB ne x inX y inY around => ne ?_
      have inFirst := within_of_mem_subtreeFrom agree inX
      have inSecond := around.trans (within_of_mem_subtreeFrom agree inY)
      exact disjoint_siblings ordered ((agree s a).mp inA) ((agree s b).mp inB) inFirst inSecond

/-! ## Aliases and what they stand for -/

theorem outwardsFrom_succ (t : ScopeTree) (fuel : Nat) (f : FieldId) :
    t.outwardsFrom (fuel + 1) f = match (t.field f).outer with
      | none => [f]
      | some outer => f :: t.outwardsFrom fuel outer := rfl

theorem outwardsFrom_of_lt (ordered : t.OutersFirst) : ∀ {fuel more f : Nat}, f < fuel → f < more →
    t.outwardsFrom fuel f = t.outwardsFrom more f
  | 0, _, _, enough, _ => absurd enough (Nat.not_lt_zero _)
  | _, 0, _, _, enough => absurd enough (Nat.not_lt_zero _)
  | fuel + 1, more + 1, f, enough, enough' => by
    rw [outwardsFrom_succ, outwardsFrom_succ]
    split
    · rfl
    · rename_i outer isOuter
      have lower := ordered f outer isOuter
      have first := Nat.lt_of_lt_of_le lower (Nat.le_of_lt_succ enough)
      have second := Nat.lt_of_lt_of_le lower (Nat.le_of_lt_succ enough')
      exact congrArg (f :: ·) (outwardsFrom_of_lt ordered first second)

theorem outwards_of_variable (isVariable : (t.field f).outer = none) : t.outwards f = [f] := by
  rw [outwards, outwardsFrom_succ, isVariable]

theorem outwards_of_alias (ordered : t.OutersFirst) {outer : FieldId}
    (isAlias : (t.field f).outer = some outer) : t.outwards f = f :: t.outwards outer := by
  have lower := ordered f outer isAlias
  have same := outwardsFrom_of_lt ordered lower (Nat.lt_succ_self outer)
  rw [outwards, outwardsFrom_succ, isAlias]
  exact congrArg (f :: ·) same

theorem ultimate_of_variable (isVariable : (t.field f).outer = none) : t.ultimate f = f := by
  simp [ultimate, outwards_of_variable isVariable]

theorem ultimate_of_alias (ordered : t.OutersFirst) {outer : FieldId}
    (isAlias : (t.field f).outer = some outer) : t.ultimate f = t.ultimate outer := by
  have rest : t.outwards outer ≠ [] := by
    rw [outwards, outwardsFrom_succ]
    split <;> simp
  unfold ultimate
  rw [outwards_of_alias ordered isAlias]
  obtain ⟨first, more, whole⟩ := exists_cons_of_ne_nil rest
  rw [whole]
  rfl

theorem alias_induction (ordered : t.OutersFirst) {motive : FieldId → Prop}
    (isVariable : ∀ f, (t.field f).outer = none → motive f)
    (isAlias : ∀ f outer, (t.field f).outer = some outer → motive outer → motive f)
    (f : FieldId) : motive f := by
  induction f using Nat.strongRecOn with
  | _ f ih =>
    cases found : (t.field f).outer with
    | none => exact isVariable f found
    | some outer => exact isAlias f outer found (ih outer (ordered f outer found))

/-- The variable behind a field is no alias. -/
theorem outer_ultimate (ordered : t.OutersFirst) (f : FieldId) :
    (t.field (t.ultimate f)).outer = none := by
  induction f using alias_induction ordered with
  | isVariable f found => rwa [ultimate_of_variable found]
  | isAlias f outer found ih => rwa [ultimate_of_alias ordered found]

end Minifier.ScopeTree
