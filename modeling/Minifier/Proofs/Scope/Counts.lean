import Minifier.Proofs.Simplify.Bindings

/-!
# Counts of mentions

A mention of a field counts for every field on its way outwards, so the count of a variable is the
number of mentions that it is behind. Counting all mentions anew changes nothing but the counts
(`recounts_recount`) and makes each the number of mentions whose way outwards it is on
(`refs_recount`). This is the measure that the shortest names are given by.
-/

set_option autoImplicit false

namespace Minifier.ScopeTree

open List

variable {g f : FieldId}

variable {t : ScopeTree}

section Ordered

variable (ordered : t.OutersFirst)
include ordered

/-- A variable is on the way outwards of the fields that it is behind, once. -/
theorem count_outwards (isVariable : (t.field g).outer = none) (f : FieldId) :
    (t.outwards f).count g = if t.ultimate f = g then 1 else 0 := by
  induction f using alias_induction ordered with
  | isVariable f found =>
    rw [outwards_of_variable found, ultimate_of_variable found, count_singleton]
    simp
  | isAlias f outer found ih =>
    have other : f ≠ g := by
      rintro rfl
      rw [isVariable] at found
      cases found
    rw [outwards_of_alias ordered found, ultimate_of_alias ordered found, count_cons_of_ne other, ih]

omit ordered in
/-- Changing the counts of some fields one after the other, by adding or by taking away. -/
theorem refs_foldl (change : Nat → Nat → Nat) (zero : ∀ n, change n 0 = n)
    (add : ∀ n a b, change (change n a) b = change n (b + a)) (l : List FieldId) (t : ScopeTree)
    (bound : g < t.fields.size) :
    ((l.foldl (fun t id => t.modifyField id fun f => { f with refs := change f.refs 1 }) t).field
      g).refs = change (t.field g).refs (l.count g) := by
  induction l generalizing t with
  | nil => exact (zero _).symm
  | cons f l ih =>
    have step : ((t.modifyField f fun f => { f with refs := change f.refs 1 }).field g).refs =
        change (t.field g).refs (if f = g then 1 else 0) := by
      rw [field_modifyField]
      by_cases same : f = g
      · rw [if_pos ⟨same, same ▸ bound⟩, if_pos same]
      · rw [if_neg fun both => same both.1, if_neg same, zero]
    rw [foldl_cons, ih _ (by rwa [fields_size_modifyField]), step, add, count_cons]
    simp only [beq_iff_eq]

/-- A mention counts once for the variable behind it, and for no other variable. -/
theorem refs_addRef (bound : g < t.fields.size)
    (isVariable : (t.field g).outer = none) (f : FieldId) :
    ((t.addRef f).field g).refs = (t.field g).refs + if t.ultimate f = g then 1 else 0 := by
  rw [addRef, refs_foldl (· + ·) Nat.add_zero (by omega) _ _ bound, count_outwards ordered isVariable]

/-- A mention that is taken back counts once for the variable behind it, as far as it had counts. -/
theorem refs_removeRef (bound : g < t.fields.size)
    (isVariable : (t.field g).outer = none) (f : FieldId) :
    ((t.removeRef f).field g).refs = (t.field g).refs - if t.ultimate f = g then 1 else 0 := by
  rw [removeRef, refs_foldl (· - ·) Nat.sub_zero (by omega) _ _ bound, count_outwards ordered isVariable]

/-! ## Ways outwards -/

theorem le_of_mem_outwards (mem : g ∈ t.outwards f) : g ≤ f := by
  induction f using alias_induction ordered with
  | isVariable f found =>
    rw [outwards_of_variable found, mem_singleton] at mem
    exact Nat.le_of_eq mem
  | isAlias f outer found ih =>
    rw [outwards_of_alias ordered found] at mem
    rcases mem_cons.mp mem with rfl | further
    · exact Nat.le_refl _
    · exact Nat.le_trans (ih further) (Nat.le_of_lt (ordered f outer found))

theorem nodup_outwards (f : FieldId) : (t.outwards f).Nodup := by
  induction f using alias_induction ordered with
  | isVariable f found =>
    rw [outwards_of_variable found]
    exact nodup_singleton f
  | isAlias f outer found ih =>
    rw [outwards_of_alias ordered found]
    refine nodup_cons.mpr ⟨fun mem => ?_, ih⟩
    exact Nat.not_le_of_lt (ordered f outer found) (le_of_mem_outwards ordered mem)

/-- A way outwards stays as it is when the tree grows. -/
theorem Extends.outwards {t' : ScopeTree} (extends_ : Extends t t')
    (ordered' : t'.OutersFirst) (bound : f < t.fields.size) : t'.outwards f = t.outwards f := by
  induction f using alias_induction ordered with
  | isVariable f found =>
    rw [outwards_of_variable found, outwards_of_variable ((extends_.outer f bound).trans found)]
  | isAlias f outer found ih =>
    rw [outwards_of_alias ordered found,
      outwards_of_alias ordered' ((extends_.outer f bound).trans found),
      ih (Nat.lt_trans (ordered f outer found) bound)]

/-- A mention counts once for each field on its way outwards. -/
theorem refs_addRef_outwards {m : FieldId} (bound : m < t.fields.size) (f : FieldId) :
    ((t.addRef m).field f).refs = (t.field f).refs + if f ∈ t.outwards m then 1 else 0 := by
  by_cases inside : f < t.fields.size
  · rw [addRef, refs_foldl (· + ·) Nat.add_zero (by omega) _ _ inside, (nodup_outwards ordered m).count]
  · have out : f ∉ t.outwards m := fun mem =>
      inside (Nat.lt_of_le_of_lt (le_of_mem_outwards ordered mem) bound)
    have out' : (t.addRef m).fields.size ≤ f := by
      rw [(trims_addRef t m).fields_size]
      exact Nat.le_of_not_lt inside
    rw [if_neg out, field_of_size_le (Nat.le_of_not_lt inside), field_of_size_le out', Nat.add_zero]

end Ordered

/-! ## Counting anew -/

/-- A change to a tree that only changes counts. -/
structure Recounts (t t' : ScopeTree) : Prop where
  scopes : t'.scopes = t.scopes
  fields_size : t'.fields.size = t.fields.size
  field : ∀ f, t'.field f = { t.field f with refs := (t'.field f).refs }
  phase : t'.phase = t.phase
  generatedCount : t'.generatedCount = t.generatedCount

namespace Recounts

variable {t' t'' : ScopeTree}

theorem refl (t : ScopeTree) : Recounts t t := ⟨rfl, rfl, fun _ => rfl, rfl, rfl⟩

theorem trans (first : Recounts t t') (second : Recounts t' t'') : Recounts t t'' where
  scopes := second.scopes.trans first.scopes
  fields_size := second.fields_size.trans first.fields_size
  field f := by rw [second.field f, first.field f]
  phase := second.phase.trans first.phase
  generatedCount := second.generatedCount.trans first.generatedCount

/-- Without a change to the counts there is none. -/
theorem eq (recounts : Recounts t t') (refs : ∀ f, (t'.field f).refs = (t.field f).refs) : t' = t := by
  have same (f : FieldId) : t'.field f = t.field f := by
    rw [recounts.field f, refs f]
  have fields : t'.fields = t.fields := by
    refine Array.ext recounts.fields_size fun f bound bound' => ?_
    have isSame := same f
    simpa [ScopeTree.field, bound, bound'] using isSame
  obtain ⟨_, _, _, _⟩ := t'
  obtain ⟨_, _, _, _⟩ := t
  rw [ScopeTree.mk.injEq]
  exact ⟨recounts.scopes, fields, recounts.phase, recounts.generatedCount⟩

end Recounts

theorem recounts_addRef (t : ScopeTree) (m : FieldId) : Recounts t (t.addRef m) := by
  have step (t : ScopeTree) (f : FieldId) :
      Recounts t (t.modifyField f fun f => { f with refs := f.refs + 1 }) := by
    refine ⟨rfl, by simp, fun g => ?_, rfl, rfl⟩
    rw [field_modifyField]
    split <;> rfl
  exact relates_foldl .refl .trans step _ t

theorem field_clearRefs (t : ScopeTree) (f : FieldId) :
    ScopeTree.field { t with fields := t.fields.map fun f => { f with refs := 0 } } f =
      { t.field f with refs := 0 } := by
  simp only [ScopeTree.field, Array.getElem?_map]
  cases t.fields[f]? <;> rfl

theorem recounts_recount (t : ScopeTree) (uses : List Ident) : Recounts t (t.recount uses) := by
  have cleared : Recounts t { t with fields := t.fields.map fun f => { f with refs := 0 } } :=
    ⟨rfl, by simp, fun f => by rw [field_clearRefs], rfl, rfl⟩
  exact cleared.trans (relates_foldl Recounts.refl Recounts.trans recounts_addRef _ _)

theorem refs_foldl_addRef (ordered : t.OutersFirst) {mentions : List FieldId}
    (bound : ∀ m ∈ mentions, m < t.fields.size) (f : FieldId) :
    ((mentions.foldl addRef t).field f).refs =
      (t.field f).refs + mentions.countP (f ∈ t.outwards ·) := by
  induction mentions generalizing t with
  | nil => rfl
  | cons m mentions ih =>
    have same := (trims_addRef t m).toSameShape
    have ordered' : (t.addRef m).OutersFirst := fun g outer isOuter =>
      ordered g outer (same.outer g ▸ isOuter)
    rw [foldl_cons, ih ordered' fun m' mem => same.fields_size ▸ bound m' (mem_cons_of_mem _ mem),
      refs_addRef_outwards ordered (bound m mem_cons_self), countP_cons]
    simp only [same.outwards, decide_eq_true_eq]
    omega

/-- After counting anew, the count of a field is the number of mentions whose way outwards it is on. -/
theorem refs_recount (ordered : t.OutersFirst) {uses : List Ident}
    (bound : ∀ m ∈ uses.filterMap (·.field), m < t.fields.size) (f : FieldId) :
    ((t.recount uses).field f).refs = (uses.filterMap (·.field)).countP (f ∈ t.outwards ·) := by
  have same := (trims_clearRefs t).toSameShape
  have ordered' : OutersFirst { t with fields := t.fields.map fun f => { f with refs := 0 } } :=
    fun g outer isOuter => ordered g outer (same.outer g ▸ isOuter)
  unfold recount
  rw [refs_foldl_addRef ordered' fun m mem => same.fields_size ▸ bound m mem, field_clearRefs]
  simp only [same.outwards, Nat.zero_add]

end Minifier.ScopeTree
