import Minifier.Proofs.Scope.Reserve
import Minifier.Proofs.Simplify.Bindings
import Minifier.SharedLiteral

/-!
# Variables for shared literals

The variables that are made for shared literals have names that no program has and that no two of
them share, so they are in the way of nothing and every alias of such a name stands for the one
variable that has it. A tree whose names are being chosen is `Prepared`; making a variable for a
literal (`Prepared.createGenerated`) and mentioning it from a scope inside the one that owns it
(`Prepared.mention`) keep it so.
-/

set_option autoImplicit false

namespace Minifier.ScopeTree

variable {t t' t'' : ScopeTree}

/-- A tree whose names are being chosen, before the first is. -/
structure Prepared (t : ScopeTree) : Prop where
  formed : t.WellFormed
  lexical : t.Lexical
  unnamed : ∀ f, (t.field f).crunchedName = none
  verbotenOuter : t.VerbotenOuter
  generated_variable : ∀ f, (t.field f).isGenerated = true → (t.field f).outer = none
  /-- Names that a program cannot have are made for literals. -/
  numbered : ∀ f < t.fields.size, ¬ IsPlain (t.field f).name →
    ∃ k < t.generatedCount, (t.field f).name = s!"generated {k}"
  /-- A name that a program cannot have is the name of a single variable. -/
  single : ∀ f < t.fields.size, ∀ g < t.fields.size, (t.field f).outer = none →
    (t.field g).outer = none → ¬ IsPlain (t.field f).name → (t.field f).name = (t.field g).name →
    f = g

/-- What stays as it is when a tree grows: its scopes and fields, and what its scopes leave alone. -/
structure Grows (t t' : ScopeTree) : Prop extends Extends t t' where
  same_size : t'.scopes.size = t.scopes.size
  verboten : ∀ s, (t.scope s).verboten ⊆ (t'.scope s).verboten
  phase : t'.phase = t.phase

namespace Grows

theorem refl (t : ScopeTree) : Grows t t := ⟨.refl t, rfl, fun _ => List.Subset.refl _, rfl⟩

theorem trans (first : Grows t t') (second : Grows t' t'') : Grows t t'' where
  toExtends := first.toExtends.trans second.toExtends
  same_size := second.same_size.trans first.same_size
  verboten s := List.Subset.trans (first.verboten s) (second.verboten s)
  phase := second.phase.trans first.phase

theorem of_tended (tended : Tended t t') : Grows t t' where
  toExtends := .of_sameShape tended.toSameShape
  same_size := tended.scopes_size
  verboten s := by rw [tended.verboten]; exact List.Subset.refl _
  phase := tended.phase

theorem of_reserves (reserves : Reserves t t') : Grows t t' where
  toExtends := .of_sameShape reserves.toSameShape
  same_size := reserves.scopes_size
  verboten := reserves.verboten
  phase := reserves.phase

theorem addField (t : ScopeTree) (field : Field) : Grows t (t.addField field).2 where
  toExtends := .addField t field
  same_size := scopes_size_addField t field
  verboten s := by
    rw [scope_addField]
    split <;> exact List.Subset.refl _
  phase := rfl

/-- What is reserved stays reserved. -/
theorem reserved (grows : Grows t t') (formed : t.WellFormed) (formed' : t'.WellFormed)
    {f : FieldId} (bound : f < t.fields.size) (known : t.Reserved f) : t'.Reserved f := by
  have lower := Nat.lt_of_le_of_lt (formed.ultimate_le f) bound
  intro x within below
  rw [grows.ultimate formed.outersFirst formed'.outersFirst bound] at below ⊢
  rw [grows.scope _ lower] at below
  rw [grows.scope f bound, grows.within_iff formed.parentsFirst (formed.scope_lt f bound)] at within
  exact grows.verboten x (known x within below)

end Grows

namespace Prepared

variable (prepared : t.Prepared)
include prepared

theorem of_sameShape (same : SameShape t t')
    (unnamed : ∀ f, (t'.field f).crunchedName = (t.field f).crunchedName)
    (generated : ∀ f, (t'.field f).isGenerated = true → (t'.field f).outer = none)
    (count : t.generatedCount ≤ t'.generatedCount) (outer : t'.VerbotenOuter) : t'.Prepared where
  formed := same.wellFormed prepared.formed
  lexical := same.lexical prepared.lexical
  unnamed f := (unnamed f).trans (prepared.unnamed f)
  verbotenOuter := outer
  generated_variable := generated
  numbered f bound notPlain := by
    rw [same.name] at notPlain ⊢
    obtain ⟨k, lower, isName⟩ := prepared.numbered f (same.fields_size ▸ bound) notPlain
    exact ⟨k, Nat.lt_of_lt_of_le lower count, isName⟩
  single f bound g bound' := by
    rw [same.outer, same.outer, same.name, same.name]
    exact prepared.single f (same.fields_size ▸ bound) g (same.fields_size ▸ bound')

theorem tended (tended : Tended t t') : t'.Prepared :=
  prepared.of_sameShape tended.toSameShape tended.crunchedName
    (fun f isGenerated => (tended.outer f).trans
      (prepared.generated_variable f ((tended.isGenerated f).symm.trans isGenerated)))
    (Nat.le_of_eq tended.generatedCount.symm) (tended.verbotenOuter tended.verboten prepared.verbotenOuter)

theorem withPhase (phase : Phase) : { t with phase }.Prepared :=
  have same := sameShape_withPhase t phase
  prepared.of_sameShape same (fun _ => rfl) prepared.generated_variable (Nat.le_refl _)
    (same.verbotenOuter (fun _ => rfl) prepared.verbotenOuter)

theorem reserveAlias {f : FieldId} (bound : f < t.fields.size) : (t.reserveAlias f).Prepared := by
  have same := reserves_reserveAlias t f
  refine prepared.of_sameShape same.toSameShape same.crunchedName (fun g isGenerated => ?_)
    (Nat.le_of_eq same.generatedCount.symm) (prepared.verbotenOuter.reserveAlias prepared.formed bound)
  rw [same.outer]
  exact prepared.generated_variable g ((same.isGenerated g).symm.trans isGenerated)

/-- Aliases of a name that no program has stand for the one variable of that name. -/
theorem ultimate_eq {f g : FieldId} (bound : f < t.fields.size) (bound' : g < t.fields.size)
    (isVariable : (t.field g).outer = none) (notPlain : ¬ IsPlain (t.field g).name)
    (name : (t.field f).name = (t.field g).name) : t.ultimate f = g := by
  have formed := prepared.formed
  refine (prepared.single g bound' (t.ultimate f) (Nat.lt_of_le_of_lt (formed.ultimate_le f) bound)
    isVariable (outer_ultimate formed.outersFirst f) notPlain ?_).symm
  rw [formed.ultimate_name, name]

theorem verbotenOuter_addField (field : Field) : (t.addField field).2.VerbotenOuter := by
  intro s u mem
  have old : u ∈ (t.scope s).verboten := by
    rw [scope_addField] at mem
    split at mem <;> exact mem
  obtain ⟨bound, isVariable, within, lower⟩ := prepared.verbotenOuter s u old
  rw [fields_size_addField, field_addField_of_lt t field bound, within_addField]
  exact ⟨Nat.lt_succ_of_lt bound, isVariable, within, lower⟩

/-- A new field, if its name is plain or made for a literal. -/
theorem addField {field : Field} (admits : t.Admits field) (lexical : (t.addField field).2.Lexical)
    (isNew : field.crunchedName = none ∧ field.isGenerated = false)
    (numbered : ¬ IsPlain field.name → ∃ k < t.generatedCount, field.name = s!"generated {k}")
    (single : field.outer = none → ¬ IsPlain field.name → ∀ g < t.fields.size,
      (t.field g).name ≠ field.name) : (t.addField field).2.Prepared where
  formed := prepared.formed.addField admits
  lexical := lexical
  unnamed f := by
    rw [field_addField]
    split
    · exact isNew.1
    · exact prepared.unnamed f
  verbotenOuter := prepared.verbotenOuter_addField field
  generated_variable f isGenerated := by
    rw [field_addField] at isGenerated ⊢
    split at isGenerated
    · rw [isNew.2] at isGenerated
      cases isGenerated
    · rename_i isOld
      rw [if_neg isOld]
      exact prepared.generated_variable f isGenerated
  numbered f bound := by
    rw [fields_size_addField] at bound
    rw [field_addField]
    split
    · exact numbered
    · exact prepared.numbered f (Nat.lt_of_le_of_ne (Nat.le_of_lt_succ bound) ‹_›)
  single f bound g bound' := by
    rw [fields_size_addField] at bound bound'
    have old {h : FieldId} (isBound : h < t.fields.size + 1) (isOld : h ≠ t.fields.size) :
        h < t.fields.size := Nat.lt_of_le_of_ne (Nat.le_of_lt_succ isBound) isOld
    rw [field_addField, field_addField]
    split <;> split
    · rename_i isNewF isNewG
      intros
      exact isNewF.trans isNewG.symm
    · rename_i isNewF isOldG
      intro isVariable _ notPlain name
      exact absurd name.symm (single isVariable notPlain g (old bound' isOldG))
    · rename_i isOldF isNewG
      intro _ isVariable notPlain name
      exact absurd name (single isVariable (name ▸ notPlain) f (old bound isOldF))
    · rename_i isOldF isOldG
      exact prepared.single f (old bound isOldF) g (old bound' isOldG)

end Prepared

/-! ## A new variable -/

/-- A variable that was made for a literal, in the scope that owns it. -/
structure IsShared (t : ScopeTree) (f : FieldId) (owner : ScopeId) : Prop where
  bound : f < t.fields.size
  isVariable : (t.field f).outer = none
  scope : (t.field f).scope = owner
  notPlain : ¬ IsPlain (t.field f).name

theorem Grows.isShared (grows : Grows t t') {f : FieldId} {owner : ScopeId}
    (shared : t.IsShared f owner) : t'.IsShared f owner where
  bound := Nat.lt_of_lt_of_le shared.bound grows.fields_size
  isVariable := (grows.outer f shared.bound).trans shared.isVariable
  scope := (grows.scope f shared.bound).trans shared.scope
  notPlain := by rw [grows.name f shared.bound]; exact shared.notPlain

theorem not_isPlain_generated (k : Nat) : ¬ IsPlain s!"generated {k}" := by
  have blank : ' ' ∈ (toString "generated ").toList := by decide
  simp [IsPlain, String.toList_append, blank]

theorem generated_injective {k n : Nat} (same : s!"generated {k}" = s!"generated {n}") : k = n := by
  have digits : Nat.toDigits 10 k = Nat.toDigits 10 n := by
    have : k.repr = n.repr := by simpa using same
    rw [Nat.repr_eq_ofList_toDigits, Nat.repr_eq_ofList_toDigits] at this
    exact String.ofList_injective this
  have value (m : Nat) := Nat.ofDigitChars_toDigits (b := 10) (n := m) (by decide) (by decide)
  rw [← value k, digits, value n]

/-- The variable that is made next for a literal. -/
def generatedField (t : ScopeTree) (owner : ScopeId) : Field :=
  { name := s!"generated {t.generatedCount}", kind := .declared, scope := owner, span := .synthetic }

namespace Prepared

variable (prepared : t.Prepared)
include prepared

/-- No field has the name of the next variable that is made for a literal. -/
theorem name_ne_generated {g : FieldId} (bound : g < t.fields.size) :
    (t.field g).name ≠ s!"generated {t.generatedCount}" := by
  intro same
  obtain ⟨k, lower, isName⟩ := prepared.numbered g bound (same ▸ not_isPlain_generated _)
  exact Nat.lt_irrefl _ (generated_injective (isName.symm.trans same) ▸ lower)

/-- A variable for a literal is a new field. -/
theorem createGenerated_eq (owner : ScopeId) : t.createGenerated owner = (t.fields.size,
      (({ t with generatedCount := t.generatedCount + 1 } : ScopeTree).addField
        (t.generatedField owner)).2.modifyField t.fields.size fun f =>
          { f with isGenerated := true, isDeclared := true }) := by
  let next : ScopeTree := { t with generatedCount := t.generatedCount + 1 }
  have missing : (next.scope owner).lookup s!"generated {t.generatedCount}" = none :=
    prepared.formed.lookup_eq_none.mpr fun g bound _ => prepared.name_ne_generated bound
  simp only [ScopeTree.createGenerated]
  rw [declare_of_missing missing]
  rfl

theorem createGenerated {owner : ScopeId} (valid : owner < t.scopes.size) :
    (t.createGenerated owner).2.Prepared ∧ Grows t (t.createGenerated owner).2 ∧
      (t.createGenerated owner).2.IsShared (t.createGenerated owner).1 owner := by
  -- a tree that expects one literal more
  let next : ScopeTree := { t with generatedCount := t.generatedCount + 1 }
  have same : SameShape t next :=
    ⟨rfl, rfl, fun _ => rfl, fun _ => rfl, fun _ => rfl, fun _ => rfl, fun _ => rfl, fun _ => rfl,
      fun _ => rfl⟩
  have start : next.Prepared := prepared.of_sameShape same (fun _ => rfl)
    prepared.generated_variable (Nat.le_succ _)
    (same.verbotenOuter (fun _ => rfl) prepared.verbotenOuter)
  let field := t.generatedField owner
  have notPlain : ¬ IsPlain field.name := not_isPlain_generated _
  have isNew : ∀ g < next.fields.size, (next.field g).name ≠ field.name :=
    fun g bound => prepared.name_ne_generated bound
  have missing : (next.scope owner).lookup field.name = none :=
    start.formed.lookup_eq_none.mpr fun g bound _ => isNew g bound
  have admits : next.Admits field := ⟨valid, missing, fun _ isOuter => nomatch isOuter⟩
  have lexical : (next.addField field).2.Lexical := by
    refine start.lexical.addField start.formed admits ?_ fun _ isOuter => nomatch isOuter
    intro _ f bound sameName _
    exact absurd sameName (isNew f bound)
  have added := start.addField admits lexical ⟨rfl, rfl⟩
    (fun _ => ⟨t.generatedCount, Nat.lt_succ_self _, rfl⟩) (fun _ _ => isNew)
  have grown : Grows t (next.addField field).2 :=
    .trans ⟨.of_sameShape same, rfl, fun _ => List.Subset.refl _, rfl⟩ (.addField next field)
  rw [prepared.createGenerated_eq owner]
  have isNamed : SameShape (next.addField field).2 _ := sameShape_modifyField _ t.fields.size
    (fun f => { f with isGenerated := true, isDeclared := true }) fun _ => ⟨rfl, rfl, rfl⟩
  have isField : (next.addField field).2.field t.fields.size = field := by
    rw [field_addField]
    exact if_pos rfl
  have last : t.fields.size < (next.addField field).2.fields.size := by
    rw [fields_size_addField]
    exact Nat.lt_succ_self _
  refine ⟨added.of_sameShape isNamed ?_ ?_ (Nat.le_refl _)
    (isNamed.verbotenOuter (fun _ => rfl) added.verbotenOuter),
    grown.trans ⟨.of_sameShape isNamed, rfl, fun _ => List.Subset.refl _, rfl⟩, ?_⟩
  · intro f
    rw [field_modifyField]
    split <;> rfl
  · intro f isGenerated
    rw [isNamed.outer]
    rw [field_modifyField] at isGenerated
    split at isGenerated
    · rename_i isNew
      rw [← isNew.1, isField]
      rfl
    · exact added.generated_variable f isGenerated
  · refine ⟨isNamed.fields_size ▸ last, ?_, ?_, ?_⟩
    · rw [isNamed.outer, isField]
      rfl
    · rw [isNamed.scope, isField]
      rfl
    · rw [isNamed.name, isField]
      exact notPlain

end Prepared

/-! ## Mentions -/

namespace Prepared

variable {v : FieldId}

variable (prepared : t.Prepared)
include prepared

/-- An alias in a scope to a field of the scope around it, for a name that no program has. -/
theorem createAlias {s parent owner : ScopeId} {outer : FieldId}
    (isParent : (t.scope s).parent = some parent) (shared : t.IsShared v owner)
    (bound : outer < t.fields.size) (isScope : (t.field outer).scope = parent)
    (ultimate : t.ultimate outer = v) :
    (t.createAlias s outer).2.Prepared ∧ Grows t (t.createAlias s outer).2 ∧
      (t.createAlias s outer).1 < (t.createAlias s outer).2.fields.size ∧
      ((t.createAlias s outer).2.field (t.createAlias s outer).1).scope = s ∧
      (t.createAlias s outer).2.ultimate (t.createAlias s outer).1 = v := by
  have formed := prepared.formed
  have name : (t.field outer).name = (t.field v).name := by
    rw [← ultimate, formed.ultimate_name]
  cases found : (t.scope s).lookup (t.field outer).name with
  | some existing =>
    obtain ⟨bound', isScope', isName⟩ := formed.lookup_eq_some.mp found
    rw [createAlias_of_found found]
    refine ⟨prepared, .refl t, bound', isScope', ?_⟩
    exact prepared.ultimate_eq bound' shared.bound shared.isVariable shared.notPlain
      (isName.trans name)
  | none =>
    have notPlain : ¬ IsPlain (t.aliasField s outer).name := by
      show ¬ IsPlain (t.field outer).name
      rw [name]
      exact shared.notPlain
    have admits : t.Admits (t.aliasField s outer) := by
      refine ⟨lt_size_of_parent isParent, found, ?_⟩
      rintro _ ⟨⟩
      rw [isScope]
      exact ⟨bound, rfl, .step isParent (.refl parent), formed.parentsFirst s parent isParent⟩
    have lexical : (t.addField (t.aliasField s outer)).2.Lexical := by
      refine prepared.lexical.addField formed admits (fun isVariable => nomatch isVariable) ?_
      rintro _ ⟨⟩ g bound' isVariable sameName _
      -- the only variable of the name is the one behind the alias
      have isOne : t.ultimate outer = g :=
        prepared.ultimate_eq bound bound' isVariable (sameName ▸ notPlain) sameName.symm
      rw [← isOne]
      exact formed.within_ultimate outer
    have prepared' := prepared.addField admits lexical ⟨rfl, rfl⟩
      (fun _ => name ▸ prepared.numbered v shared.bound shared.notPlain)
      (fun isVariable => nomatch isVariable)
    rw [createAlias_of_missing found]
    have isNew : (t.addField (t.aliasField s outer)).1 = t.fields.size := rfl
    have grows := Grows.addField t (t.aliasField s outer)
    refine ⟨prepared', grows, ?_, ?_, ?_⟩
    · rw [isNew, fields_size_addField]
      exact Nat.lt_succ_self _
    · rw [isNew, field_addField, if_pos rfl]
      rfl
    · have isAlias : ((t.addField (t.aliasField s outer)).2.field t.fields.size).outer =
          some outer := by
        rw [field_addField, if_pos rfl]
        rfl
      rw [isNew, ultimate_of_alias prepared'.formed.outersFirst isAlias,
        grows.ultimate formed.outersFirst prepared'.formed.outersFirst bound, ultimate]

/-- The aliases for a variable, from the scope that owns it inwards. -/
theorem aliasFor {s owner : ScopeId} (shared : t.IsShared v owner) (within : Within t s owner) :
    (t.aliasFor v s).2.Prepared ∧ Grows t (t.aliasFor v s).2 ∧
      (t.aliasFor v s).1 < (t.aliasFor v s).2.fields.size ∧
      ((t.aliasFor v s).2.field (t.aliasFor v s).1).scope = s ∧
      (t.aliasFor v s).2.ultimate (t.aliasFor v s).1 = v := by
  have ordered := prepared.formed.parentsFirst
  unfold ScopeTree.aliasFor
  rw [shared.scope]
  induction within with
  | refl owner =>
    rw [chainUpTo_self]
    exact ⟨prepared, .refl t, shared.bound, shared.scope, ultimate_of_variable shared.isVariable⟩
  | @step s parent owner isParent within ih =>
    have inside : s ≠ owner := by
      rintro rfl
      exact absurd (within.le ordered) (Nat.not_le_of_lt (ordered s parent isParent))
    rw [chainUpTo_of_parent ordered isParent inside, List.foldr_cons]
    obtain ⟨prepared₁, grows₁, bound₁, isScope₁, ultimate₁⟩ := ih shared
    have isParent₁ := (grows₁.parent s (lt_size_of_parent isParent)).trans isParent
    obtain ⟨prepared₂, grows₂, rest⟩ :=
      prepared₁.createAlias isParent₁ (grows₁.isShared shared) bound₁ isScope₁ ultimate₁
    exact ⟨prepared₂, grows₁.trans grows₂, rest⟩

/-- A mention of a variable, from a scope inside the one that owns it. -/
theorem mention {s owner : ScopeId} (shared : t.IsShared v owner) (within : Within t s owner) :
    (t.mention v s).2.Prepared ∧ Grows t (t.mention v s).2 ∧
      (t.mention v s).2.HasNamed (t.mention v s).1 (t.field v).name ∧
      (t.mention v s).2.Reserved (t.mention v s).1 := by
  obtain ⟨prepared₁, grows₁, bound₁, -, ultimate₁⟩ := prepared.aliasFor shared within
  unfold ScopeTree.mention
  generalize t.aliasFor v s = r at *
  obtain ⟨f, t₁⟩ := r
  dsimp only at *
  have named : t₁.HasNamed f (t.field v).name := by
    refine ⟨bound₁, ?_⟩
    rw [← prepared₁.formed.ultimate_name, ultimate₁, grows₁.name _ shared.bound]
  have tended (t : ScopeTree) (f : FieldId) := (trims_addRef t f).toTended
  split
  · rename_i isVariable
    subst isVariable
    have known := reserved_of_variable prepared₁.formed
      ((grows₁.outer f shared.bound).trans shared.isVariable)
    refine ⟨prepared₁.tended (tended t₁ f), grows₁.trans (.of_tended (tended t₁ f)),
      (Grows.of_tended (tended t₁ f)).hasNamed named, ?_⟩
    exact (Grows.of_tended (tended t₁ f)).reserved prepared₁.formed
      (prepared₁.tended (tended t₁ f)).formed bound₁ known
  · have grows₂ := Grows.of_reserves (reserves_reserveAlias t₁ f)
    have prepared₂ := prepared₁.reserveAlias bound₁
    have grows₃ := Grows.of_tended (tended (t₁.reserveAlias f) f)
    have prepared₃ := prepared₂.tended (tended (t₁.reserveAlias f) f)
    refine ⟨prepared₃, (grows₁.trans grows₂).trans grows₃, (grows₂.trans grows₃).hasNamed named, ?_⟩
    exact grows₃.reserved prepared₂.formed prepared₃.formed
      (Nat.lt_of_lt_of_le bound₁ grows₂.fields_size) (reserved_reserveAlias prepared₁.formed bound₁)

end Prepared

end Minifier.ScopeTree
