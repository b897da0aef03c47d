import Minifier.Proofs.Scope.Counts
import Minifier.Proofs.SharedLiteral

/-!
# Which literals are shared

Each literal that is shared gets a variable of its own, in a function around all its occurrences and
not yet mentioned (`ScopeTree.Plan`). A mention of it is one of that variable only
(`ScopeTree.Plan.mention`). The plan grows by one literal at a time, and what is known of the variables
before stays true, since a new variable is a new field.
-/

set_option autoImplicit false

namespace Minifier.ScopeTree

open List

variable {t t' : ScopeTree}

/-! ## New variables -/

namespace Prepared

theorem field_createGenerated (prepared : t.Prepared) (owner : ScopeId) (f : FieldId) :
    (t.createGenerated owner).2.field f = if f = t.fields.size then
        { t.generatedField owner with isGenerated := true, isDeclared := true }
      else t.field f := by
  rw [prepared.createGenerated_eq, field_modifyField, field_addField, fields_size_addField]
  by_cases isNew : f = t.fields.size
  · subst isNew
    rw [if_pos ⟨rfl, Nat.lt_succ_self _⟩, if_pos rfl, if_pos rfl]
  · rw [if_neg fun both => isNew both.1.symm, if_neg isNew, if_neg isNew]
    rfl

theorem sameMarks_createGenerated (prepared : t.Prepared) (owner : ScopeId) :
    SameMarks t (t.createGenerated owner).2 := by
  rw [prepared.createGenerated_eq]
  have added := SameMarks.addField { t with generatedCount := t.generatedCount + 1 } (t.generatedField owner)
  exact ⟨added.kind, added.isKnown, added.functionField⟩

end Prepared

theorem isFunctionLevel_functionScopeOf (formed : t.WellFormed) {s : ScopeId}
    (valid : s < t.scopes.size) : (t.scope (t.functionScopeOf s)).isFunctionLevel = true := by
  obtain ⟨owner, found, level, -⟩ := exists_find?_chain (p := fun s => (t.scope s).isFunctionLevel)
    formed.parentsFirst (formed.within_global valid) formed.isFunctionLevel_global
  rwa [functionScopeOf, found]

/-- Variables for literals are declared by functions whose names are known. -/
theorem private_owner (formed : t.WellFormed) {scopes : List ScopeId} {owner : ScopeId}
    (valid : ∀ s ∈ scopes, s < t.scopes.size) (found : t.owner? scopes = some owner) :
    (t.scope owner).kind = .function ∧ (t.scope owner).isKnown = true := by
  have inside := (within_owner formed valid found).1
  obtain ⟨first, rest, rfl, isOwner, isPrivate⟩ := owner?_eq_some found
  have around := (within_foldl_common_iff formed valid).mp (.refl _) first mem_cons_self
  have lower := Nat.lt_of_le_of_lt (around.le formed.parentsFirst) (valid first mem_cons_self)
  have level := isOwner ▸ isFunctionLevel_functionScopeOf formed lower
  simp only [ScopeTree.isPrivate, isStatic, Bool.and_eq_true, all_eq_true, decide_eq_true_eq]
    at isPrivate
  refine ⟨by simpa [Scope.isFunctionLevel, isPrivate.1] using level, ?_⟩
  have own := (mem_subtree_iff formed.parentsFirst formed.childrenAgree inside).mpr (.refl _)
  exact (isPrivate.2 _ own).1

/-! ## The plan -/

/-- What sharing some literals adds to a tree. -/
structure Plan (start : ScopeTree) (occurrences : List Occurrence) (shared : List SharedLiteral)
    (t : ScopeTree) : Prop where
  prepared : t.Prepared
  grows : Grows start t
  marks : SameMarks start t
  serves : ∀ s ∈ shared, t.Serves occurrences s
  owner : ∀ s ∈ shared, (start.scope s.owner).kind = .function ∧ (start.scope s.owner).isKnown = true
  isNew : ∀ s ∈ shared, start.fields.size ≤ s.field
  isWritten : ∀ s ∈ shared, ∃ o ∈ occurrences, o.key = s.key
  negative : ∀ s ∈ shared, s.negative =
    decide ((occurrences.filter (·.key = s.key)).length <
      2 * (occurrences.filter (·.key = s.key)).countP (·.negated))
  generated : ∀ f, (t.field f).isGenerated = true ↔ ∃ s ∈ shared, s.field = f
  unmentioned : ∀ s ∈ shared, (t.field s.field).refs = 0
  fields : (shared.map (·.field)).Nodup
  keys : (shared.map (·.key)).Nodup

namespace Plan

variable {start : ScopeTree} {occurrences : List Occurrence} {shared : List SharedLiteral}

theorem nil (prepared : start.Prepared) (ungenerated : ∀ f, (start.field f).isGenerated = false) :
    Plan start occurrences [] start where
  prepared := prepared
  grows := .refl start
  marks := .refl start
  serves _ mem := nomatch mem
  owner _ mem := nomatch mem
  isNew _ mem := nomatch mem
  isWritten _ mem := nomatch mem
  negative _ mem := nomatch mem
  generated f := by simp [ungenerated]
  unmentioned _ mem := nomatch mem
  fields := nodup_nil
  keys := nodup_nil

/-- One more literal. -/
theorem share (plan : Plan start occurrences shared t)
    (valid : ∀ o ∈ occurrences, o.scope < start.scopes.size) {key : LiteralKey}
    (isNew : key ∉ shared.map (·.key)) {s : SharedLiteral}
    (found : t.share? key (occurrences.filter (·.key = key)) = some (s, t')) :
    s.key = key ∧ Plan start occurrences (shared ++ [s]) t' := by
  have valid' : ∀ o ∈ occurrences, o.scope < t.scopes.size := fun o mem =>
    plan.grows.same_size ▸ valid o mem
  obtain ⟨prepared', grows', isServed⟩ := plan.prepared.share valid' found
  obtain ⟨owner, isOwner, rfl, rfl⟩ := share?_eq_some found
  have places : ∀ x ∈ (occurrences.filter (·.key = key)).map (·.scope), x < t.scopes.size := by
    simp only [mem_map, mem_filter]
    rintro _ ⟨o, ⟨mem, _⟩, rfl⟩
    exact valid' o mem
  have isField : (t.createGenerated owner).1 = t.fields.size := by
    rw [plan.prepared.createGenerated_eq]
  have old {s : SharedLiteral} (mem : s ∈ shared) : s.field ≠ t.fields.size :=
    Nat.ne_of_lt (plan.serves s mem).1.bound
  refine ⟨rfl, prepared', plan.grows.trans grows',
    plan.marks.trans (plan.prepared.sameMarks_createGenerated owner), ?_, ?_, ?_, ?_, ?_, ?_, ?_, ?_, ?_⟩
  · simp only [forall_mem_append, forall_mem_singleton]
    exact ⟨fun s mem => grows'.serves plan.prepared.formed valid' (plan.serves s mem), isServed⟩
  · simp only [forall_mem_append, forall_mem_singleton]
    refine ⟨plan.owner, ?_⟩
    rw [← plan.marks.kind, ← plan.marks.isKnown]
    exact private_owner plan.prepared.formed places isOwner
  · simp only [forall_mem_append, forall_mem_singleton]
    refine ⟨plan.isNew, ?_⟩
    rw [isField]
    exact plan.grows.fields_size
  · simp only [forall_mem_append, forall_mem_singleton]
    refine ⟨plan.isWritten, ?_⟩
    cases isPlaces : occurrences.filter (·.key = key) with
    | nil =>
      rw [isPlaces] at isOwner
      cases isOwner
    | cons o rest =>
      have mem : o ∈ occurrences.filter (·.key = key) := isPlaces ▸ mem_cons_self
      obtain ⟨isOccurrence, isKey⟩ := mem_filter.mp mem
      exact ⟨o, isOccurrence, by simpa using isKey⟩
  · simp only [forall_mem_append, forall_mem_singleton]
    exact ⟨plan.negative, trivial⟩
  · intro f
    rw [plan.prepared.field_createGenerated]
    simp only [mem_append, mem_singleton, or_and_right, exists_or, exists_eq_left, isField]
    by_cases isLast : f = t.fields.size
    · simp [isLast]
    · rw [if_neg isLast, plan.generated]
      simp [Ne.symm isLast]
  · simp only [forall_mem_append, forall_mem_singleton]
    refine ⟨fun s mem => ?_, ?_⟩
    · rw [plan.prepared.field_createGenerated, if_neg (old mem)]
      exact plan.unmentioned s mem
    · rw [plan.prepared.field_createGenerated, isField, if_pos rfl]
      rfl
  · rw [map_append, nodup_append]
    refine ⟨plan.fields, nodup_singleton _, fun f mem g isLast => ?_⟩
    obtain ⟨s, isShared, rfl⟩ := mem_map.mp mem
    rw [mem_singleton.mp isLast]
    exact isField ▸ old isShared
  · rw [map_append, nodup_append]
    refine ⟨plan.keys, nodup_singleton _, fun f mem g isLast => ?_⟩
    rw [mem_singleton.mp isLast]
    rintro rfl
    exact isNew mem

end Plan

theorem nodup_eraseDups {α : Type} [DecidableEq α] (l : List α) : l.eraseDups.Nodup := by
  induction length : l.length using Nat.strongRecOn generalizing l with
  | _ n ih =>
    cases l with
    | nil => exact nodup_nil
    | cons a l =>
      rw [eraseDups_cons, nodup_cons, mem_eraseDups]
      refine ⟨by simp, ih _ ?_ _ rfl⟩
      rw [← length, length_cons]
      exact Nat.lt_succ_of_le (length_filter_le _ _)

/-- Sharing all literals for which it pays is planned. -/
theorem plan_shareAll (prepared : t.Prepared) (ungenerated : ∀ f, (t.field f).isGenerated = false)
    {occurrences : List Occurrence} (valid : ∀ o ∈ occurrences, o.scope < t.scopes.size) :
    Plan t occurrences (t.shareAll occurrences).1 (t.shareAll occurrences).2 := by
  unfold ScopeTree.shareAll
  have distinct := nodup_eraseDups (occurrences.map (·.key))
  generalize (occurrences.map (·.key)).eraseDups = keys at distinct
  have plan : Plan t occurrences (([], t) : List SharedLiteral × ScopeTree).1
    (([], t) : List SharedLiteral × ScopeTree).2 := .nil prepared ungenerated
  -- the keys that are left are not among those that have been dealt with
  have others : ∀ key ∈ keys, key ∉ (([], t) : List SharedLiteral × ScopeTree).1.map (·.key) := by simp
  generalize (([], t) : List SharedLiteral × ScopeTree) = r at plan others ⊢
  induction keys generalizing r with
  | nil => exact plan
  | cons key keys ih =>
    obtain ⟨shared, now⟩ := r
    obtain ⟨missing, distinct⟩ := nodup_cons.mp distinct
    rw [foldl_cons]
    cases found : now.share? key (occurrences.filter (·.key = key)) with
    | none =>
      simp only [found]
      exact ih distinct _ plan fun key mem => others key (mem_cons_of_mem _ mem)
    | some r =>
      obtain ⟨s, next⟩ := r
      simp only [found]
      obtain ⟨isKey, plan'⟩ := plan.share valid (others key mem_cons_self) found
      refine ih distinct _ plan' fun other mem => ?_
      rw [map_append, mem_append, not_or]
      refine ⟨others other (mem_cons_of_mem _ mem), ?_⟩
      rw [map_singleton, mem_singleton, isKey]
      rintro rfl
      exact missing mem

/-! ## Mentions -/

/-- Only aliases are added. -/
structure Aliased (t t' : ScopeTree) : Prop where
  size : t.fields.size ≤ t'.fields.size
  field : ∀ f < t.fields.size, t'.field f = t.field f
  isGenerated : ∀ f, (t'.field f).isGenerated = (t.field f).isGenerated
  marks : SameMarks t t'

theorem Aliased.refl (t : ScopeTree) : Aliased t t :=
  ⟨Nat.le_refl _, fun _ _ => rfl, fun _ => rfl, .refl t⟩

theorem Aliased.trans {t'' : ScopeTree} (first : Aliased t t') (second : Aliased t' t'') :
    Aliased t t'' where
  size := Nat.le_trans first.size second.size
  field f bound :=
    (second.field f (Nat.lt_of_lt_of_le bound first.size)).trans (first.field f bound)
  isGenerated f := (second.isGenerated f).trans (first.isGenerated f)
  marks := first.marks.trans second.marks

theorem aliased_createAlias (t : ScopeTree) (s : ScopeId) (outer : FieldId) :
    Aliased t (t.createAlias s outer).2 := by
  cases found : (t.scope s).lookup (t.field outer).name with
  | some existing =>
    rw [createAlias_of_found found]
    exact .refl t
  | none =>
    rw [createAlias_of_missing found]
    refine ⟨?_, fun f bound => field_addField_of_lt t _ bound, fun f => ?_, .addField t _⟩
    · rw [fields_size_addField]
      exact Nat.le_succ _
    · rw [field_addField]
      split
      · rename_i isNew
        rw [field_of_size_le (Nat.le_of_eq isNew.symm)]
        rfl
      · rfl

theorem aliased_aliasFor (t : ScopeTree) (v : FieldId) (s : ScopeId) :
    Aliased t (t.aliasFor v s).2 := by
  unfold aliasFor
  induction t.chainUpTo s (t.field v).scope with
  | nil => exact .refl t
  | cons id rest ih =>
    rw [foldr_cons]
    exact ih.trans (aliased_createAlias _ id _)

/-- A mention of a variable for a literal, from a scope inside the one that owns it. -/
structure Mentions (t : ScopeTree) (v : FieldId) (s : ScopeId) (f : FieldId)
    (t' : ScopeTree) : Prop where
  bound : f < t'.fields.size
  scope : (t'.field f).scope = s
  ultimate : t'.ultimate f = v
  /-- It counts for the variable, and for no other one. -/
  refs : ∀ g < t.fields.size, (t.field g).outer = none →
    (t'.field g).refs = (t.field g).refs + if v = g then 1 else 0
  isGenerated : ∀ g, (t'.field g).isGenerated = (t.field g).isGenerated
  marks : SameMarks t t'

theorem Prepared.mentions (prepared : t.Prepared) {s owner : ScopeId} {v : FieldId}
    (shared : t.IsShared v owner) (within : Within t s owner) :
    Mentions t v s (t.mention v s).1 (t.mention v s).2 := by
  obtain ⟨prepared₁, -, bound₁, isScope₁, ultimate₁⟩ := prepared.aliasFor shared within
  have aliased := aliased_aliasFor t v s
  unfold ScopeTree.mention
  generalize t.aliasFor v s = r at *
  obtain ⟨f, t₁⟩ := r
  dsimp only at *
  -- reserving an alias changes no field
  have reserved : ∃ t₂, (if f = v then t₁ else t₁.reserveAlias f) = t₂ ∧ Reserves t₁ t₂ ∧
      SameMarks t₁ t₂ := by
    split
    · exact ⟨_, rfl, .refl t₁, .refl t₁⟩
    · exact ⟨_, rfl, reserves_reserveAlias t₁ f, sameMarks_reserveAlias t₁ f⟩
  obtain ⟨t₂, isReserved, reserves, marks⟩ := reserved
  rw [isReserved]
  have tended := (trims_addRef t₂ f).toTended
  have ordered := (reserves.toSameShape.wellFormed prepared₁.formed).outersFirst
  refine ⟨?_, ?_, ?_, fun g bound isVariable => ?_, fun g => ?_,
    (aliased.marks.trans marks).trans (trims_addRef t₂ f).toSameMarks⟩
  · rw [tended.fields_size, reserves.fields_size]
    exact bound₁
  · rw [tended.scope, reserves.scope, isScope₁]
  · rw [tended.toSameShape.ultimate, reserves.toSameShape.ultimate, ultimate₁]
  · have same := aliased.field g bound
    have isVariable₂ : (t₂.field g).outer = none := by rw [reserves.outer, same, isVariable]
    have bound₂ : g < t₂.fields.size := reserves.fields_size ▸ Nat.lt_of_lt_of_le bound aliased.size
    rw [refs_addRef ordered bound₂ isVariable₂, reserves.refs, same, reserves.toSameShape.ultimate,
      ultimate₁]
  · rw [tended.isGenerated, reserves.isGenerated, aliased.isGenerated]

end Minifier.ScopeTree
