import Minifier.Proofs.Scope.Rename

/-!
# Names that cannot be taken for each other

A mention of a variable is taken for another one if a scope between the two has a variable that is
written alike. `InWay` says which variables could be in the way of a mention. Those of one name never
are, since a mention is bound to the innermost variable of its name (`Prepared.names_apart`); the
choice of short names keeps it so (`Prepared.crunch_apart`), and so do the names that are given last
to the variables for shared literals (`nameGenerated_apart`).
-/

set_option autoImplicit false

namespace Minifier.ScopeTree

open List

variable {t t' : ScopeTree}

/-- A variable other than the one that a field stands for, in a scope between the two. -/
structure InWay (t : ScopeTree) (f v : FieldId) : Prop where
  bound : v < t.fields.size
  isVariable : (t.field v).outer = none
  other : v ≠ t.ultimate f
  inside : Within t (t.field f).scope (t.field v).scope
  around : Within t (t.field v).scope (t.field (t.ultimate f)).scope

theorem SameShape.inWay_iff (same : SameShape t t') {f v : FieldId} :
    t'.InWay f v ↔ t.InWay f v := by
  constructor
  · rintro ⟨bound, isVariable, other, inside, around⟩
    simp only [same.scope, same.within_iff, same.ultimate, same.fields_size, same.outer] at *
    exact ⟨bound, isVariable, other, inside, around⟩
  · rintro ⟨bound, isVariable, other, inside, around⟩
    refine ⟨?_, ?_, ?_, ?_, ?_⟩ <;>
      simpa only [same.scope, same.within_iff, same.ultimate, same.fields_size, same.outer]

theorem WellFormed.displayName_ultimate (formed : t.WellFormed) (f : FieldId) :
    t.displayName (t.ultimate f) = t.displayName f := by
  simp only [displayName, ultimate_of_variable (outer_ultimate formed.outersFirst f)]

/-- Variables in the way of each other have different names to begin with. -/
theorem Prepared.names_apart (prepared : t.Prepared) {f v : FieldId} (bound : f < t.fields.size)
    (inWay : t.InWay f v) : (t.field v).name ≠ (t.field f).name := by
  have formed := prepared.formed
  intro same
  have innermost := prepared.lexical f bound v inWay.bound inWay.isVariable same inWay.inside
  have outermost := inWay.around.le formed.parentsFirst
  refine inWay.other (formed.eq_of_name_eq inWay.bound ?_ (Nat.le_antisymm innermost outermost) ?_)
  · exact Nat.lt_of_le_of_lt (formed.ultimate_le f) bound
  · rw [same, formed.ultimate_name]

/-! ## Short names -/

/-- A fixed name in the way of a mention is one under which it would be taken for another. -/
theorem Prepared.mem_shadowingNames (prepared : t.Prepared) {settings : Settings} {f v : FieldId}
    (bound : f < t.fields.size) (inWay : t.InWay f v)
    (strict : (t.field (t.ultimate f)).scope < (t.field v).scope)
    (isFixed : ¬ t.GetsName settings v) :
    (t.field v).name ∈ t.shadowingNames settings t.aliasPairs (t.ultimate f) := by
  have formed := prepared.formed
  have isAlias : (t.field f).isAlias = true := by
    cases found : (t.field f).outer with
    | some outer => simp [Field.isAlias, found]
    | none =>
      rw [ultimate_of_variable found] at strict
      exact absurd (inWay.inside.le formed.parentsFirst) (Nat.not_le_of_lt strict)
  have isPair : (t.ultimate f, f) ∈ t.aliasPairs.filter (·.1 = t.ultimate f) := by
    simp [aliasPairs, fieldIds, bound, isAlias]
  have between : (t.field v).scope ∈ t.chainUpTo (t.field f).scope (t.field (t.ultimate f)).scope :=
    (mem_chainUpTo_iff formed.parentsFirst (formed.within_ultimate f)).mpr ⟨inWay.inside, strict⟩
  refine mem_flatMap.mpr ⟨_, isPair, mem_flatMap.mpr ⟨_, between, ?_⟩⟩
  have inTable : v ∈ (t.scope (t.field v).scope).fieldIds :=
    formed.mem_fieldIds.mpr ⟨inWay.bound, rfl⟩
  have notAlias : (t.field v).isAlias = false := by simp [Field.isAlias, inWay.isVariable]
  have notGlobal : (t.scope (t.field v).scope).kind ≠ .global := by
    rw [Ne, formed.isGlobal_iff _ (formed.scope_lt v inWay.bound)]
    intro isGlobal
    rw [isGlobal] at strict
    exact Nat.not_lt_zero _ strict
  have stays : (!(t.scope (t.field v).scope).isKnown || !isCrunchable settings (t.field v)) =
      true := by
    by_contra changes
    refine isFixed ⟨inWay.bound, ?_, notGlobal, ?_⟩ <;> simp_all
  refine mem_filterMap.mpr ⟨_, mem_map_of_mem inTable, ?_⟩
  simp only [notAlias, Bool.not_false, stays, Bool.and_true, if_true]

/-- Short names keep variables apart that are in the way of a mention whose name is reserved. -/
theorem Prepared.settled_apart (prepared : t.Prepared) (settings : Settings) (renames : Renames t t')
    (settled : ∀ g, t.GetsName settings g → t'.Settled settings t.aliasPairs g)
    (others : ∀ g, ¬ t.GetsName settings g → (t'.field g).crunchedName = none) {f v : FieldId}
    (bound : f < t.fields.size) (reserved : t.Reserved f) (inWay : t.InWay f v) :
    t'.displayName v ≠ t'.displayName f := by
  have same := renames.sameShape
  have formed := same.wellFormed prepared.formed
  have bound' := Nat.lt_of_le_of_lt (prepared.formed.ultimate_le f) bound
  have isVariable : (t'.field v).outer = none := (same.outer v).trans inWay.isVariable
  have isUltimate : (t'.field (t.ultimate f)).outer = none := by
    rw [same.outer]
    exact outer_ultimate prepared.formed.outersFirst f
  rw [← formed.displayName_ultimate f, same.ultimate]
  have le := inWay.around.le prepared.formed.parentsFirst
  by_cases gets : t.GetsName settings v
  · -- the inner one has a new name, and its scope leaves the outer one alone
    obtain ⟨name, isName, _, notVerboten, apart⟩ := settled v gets
    rw [displayName_of_named isVariable isName]
    simp only [same.scope, same.fields_size, renames.scope_eq] at notVerboten apart
    rcases Nat.lt_or_eq_of_le le with strict | beside
    · exact (notVerboten _ (reserved _ inWay.inside strict)).symm
    · exact (apart _ bound' beside (Ne.symm inWay.other)).symm
  · have fixed : t'.displayName v = (t.field v).name := by
      rw [displayName_of_unnamed formed, same.name]
      rw [same.ultimate, ultimate_of_variable inWay.isVariable]
      exact others v gets
    by_cases gets' : t.GetsName settings (t.ultimate f)
    · -- the outer one has a new name, and keeps away from the fixed ones in the way
      obtain ⟨name, isName, notShadowing, _, apart⟩ := settled _ gets'
      rw [displayName_of_named isUltimate isName]
      simp only [same.scope, same.fields_size, renames.shadowingNames_eq] at notShadowing apart
      rcases Nat.lt_or_eq_of_le le with strict | beside
      · rw [fixed]
        rintro rfl
        exact notShadowing (prepared.mem_shadowingNames bound inWay strict gets)
      · exact apart v inWay.bound beside.symm inWay.other
    · rw [fixed, displayName_of_unnamed formed, same.name, prepared.formed.ultimate_name]
      · exact prepared.names_apart bound inWay
      · rw [same.ultimate, ultimate_of_variable (outer_ultimate prepared.formed.outersFirst f)]
        exact others _ gets'

/-- Whether each mention through one of some fields is written unlike all that is in its way. -/
def Apart (t : ScopeTree) (mentioned : FieldId → Prop) : Prop :=
  ∀ f, mentioned f → ∀ v, t.InWay f v → t.displayName v ≠ t.displayName f

/-- Giving short names succeeds in its phase, and keeps what is reserved apart. -/
theorem Prepared.crunch_apart (prepared : t.Prepared) (settings : Settings)
    (phase : t.phase = .literalsShortcut) :
    ∃ t', t.crunch settings = .ok t' ∧ Renames { t with phase := .renamed } t' ∧
      t'.Apart fun f => f < t.fields.size ∧ t.Reserved f := by
  let start : ScopeTree := { t with phase := .renamed }
  have advanced : t.advance .literalsShortcut .renamed = .ok start := if_pos phase
  have prepared := prepared.withPhase .renamed
  have same : SameShape t start := sameShape_withPhase t .renamed
  unfold crunch
  rw [advanced]
  simp only [bind, Except.bind]
  split
  · refine ⟨start, rfl, .refl start, fun f ⟨bound, _⟩ v inWay => ?_⟩
    have unnamed (g : FieldId) : start.displayName g = (start.field g).name :=
      displayName_of_unnamed prepared.formed (prepared.unnamed _)
    rw [unnamed, unnamed]
    exact prepared.names_apart bound inWay
  · obtain ⟨renames, settled, others⟩ := prepared.crunch_settled settings start.aliasPairs
    refine ⟨_, rfl, renames, fun f ⟨bound, reserved⟩ v inWay => ?_⟩
    exact prepared.settled_apart settings renames settled others bound
      (same.reserved (fun _ => List.Subset.refl _) reserved) (renames.sameShape.inWay_iff.mp inWay)

/-! ## Names for shared literals -/

/-- Whether a mention is written unlike what is in its way, once both have names. -/
def ApartIfNamed (t : ScopeTree) (f v : FieldId) : Prop :=
  isUnnamed (t.field (t.ultimate f)) = true ∨ isUnnamed (t.field v) = true ∨
    t.displayName v ≠ t.displayName f

theorem mem_namesInside (formed : t.WellFormed) {id f : FieldId} (bound : id < t.fields.size)
    (bound' : f < t.fields.size) (within : Within t (t.field f).scope (t.field id).scope)
    (ne : f ≠ id) (isNamed : isUnnamed (t.field (t.ultimate f)) = false) :
    t.displayName f ∈ t.namesInside id := by
  have inside : (t.field f).scope ∈ t.subtree (t.field id).scope :=
    (mem_subtree_iff formed.parentsFirst formed.childrenAgree (formed.scope_lt id bound)).mpr within
  have inTable : f ∈ (t.scope (t.field f).scope).fieldIds := formed.mem_fieldIds.mpr ⟨bound', rfl⟩
  refine mem_flatMap.mpr ⟨_, inside, mem_map_of_mem (mem_filter.mpr ⟨inTable, ?_⟩)⟩
  simp [ne, isNamed]

/-- One more variable gets a name, which none in the scopes inside its own has. -/
theorem apartIfNamed_nameField (formed : t.WellFormed) {id : FieldId} (bound : id < t.fields.size)
    (isVariable : (t.field id).outer = none) {f v : FieldId} (bound' : f < t.fields.size)
    (inWay : t.InWay f v) (apart : t.ApartIfNamed f v) : (t.modifyField id fun g =>
      { g with crunchedName := some (ShortName.first (t.namesInside id)) }).ApartIfNamed f v := by
  have free := ShortName.first_not_mem (t.namesInside id)
  generalize ShortName.first (t.namesInside id) = name at free ⊢
  have renames := Renames.nameField t id name
  have named : ((t.modifyField id fun g => { g with crunchedName := some name }).field
      id).crunchedName = some name := by
    rw [field_modifyField, if_pos ⟨rfl, bound⟩]
  have others {g : FieldId} (ne : g ≠ id) :
      (t.modifyField id fun g => { g with crunchedName := some name }).field g = t.field g := by
    rw [field_modifyField, if_neg fun same => ne same.1.symm]
  generalize (t.modifyField id fun g => { g with crunchedName := some name }) = t' at *
  have same := renames.sameShape
  have isVariable' := (same.outer id).trans isVariable
  have keeps {g : FieldId} (ne : t.ultimate g ≠ id) : t'.displayName g = t.displayName g :=
    renames.displayName_eq (by rw [others ne])
  have isOther : t.ultimate v ≠ t.ultimate f := by
    rw [ultimate_of_variable inWay.isVariable]
    exact inWay.other
  unfold ApartIfNamed
  rw [same.ultimate]
  by_cases isOuter : t.ultimate f = id
  · have ne : v ≠ id := isOuter ▸ inWay.other
    rw [others ne]
    by_cases isNamed : isUnnamed (t.field v) = true
    · exact .inr (.inl isNamed)
    · refine .inr (.inr fun isSame => free ?_)
      rw [keeps (isOuter ▸ isOther), ← (same.wellFormed formed).displayName_ultimate f,
        same.ultimate, isOuter, displayName_of_named isVariable' named] at isSame
      rw [← isSame]
      refine mem_namesInside formed bound inWay.bound (isOuter ▸ inWay.around) ne ?_
      simpa [ultimate_of_variable inWay.isVariable] using isNamed
  · rw [others isOuter]
    by_cases isInner : v = id
    · subst isInner
      by_cases isNamed : isUnnamed (t.field (t.ultimate f)) = true
      · exact .inl isNamed
      · refine .inr (.inr fun isSame => free ?_)
        rw [displayName_of_named isVariable' named, keeps isOuter] at isSame
        rw [isSame]
        refine mem_namesInside formed bound bound' inWay.inside ?_ (by simpa using isNamed)
        rintro rfl
        exact isOuter (ultimate_of_variable isVariable)
    · rw [others isInner, keeps (by rwa [ultimate_of_variable inWay.isVariable]), keeps isOuter]
      exact apart

/-- The names for shared literals succeed in their phase, and leave no mention without one. -/
theorem nameGenerated_apart (formed : t.WellFormed) (phase : t.phase = .renamed)
    (generated_variable : ∀ f, (t.field f).isGenerated = true → (t.field f).outer = none)
    {mentioned : FieldId → Prop} (bounds : ∀ f, mentioned f → f < t.fields.size)
    (apart : t.Apart mentioned) :
    ∃ t', t.nameGenerated = .ok t' ∧ Renames { t with phase := .generatedNamesValidated } t' ∧
      t'.Apart mentioned := by
  let start : ScopeTree := { t with phase := .generatedNamesValidated }
  have advanced : t.advance .renamed .generatedNamesValidated = .ok start := if_pos phase
  have same : SameShape t start := sameShape_withPhase t _
  -- those that are still without a name are those whose turn is to come
  have run : ∀ (rest : List FieldId) (now : ScopeTree),
      (∀ id ∈ rest, id < t.fields.size ∧ (t.field id).outer = none) → Renames start now →
      (∀ g, isUnnamed (now.field g) = true → g ∈ rest) →
      (∀ f, mentioned f → ∀ v, t.InWay f v → now.ApartIfNamed f v) →
      ∃ last, rest.foldl (fun t id => t.modifyField id fun f =>
          { f with crunchedName := some (ShortName.first (t.namesInside id)) }) now = last ∧
        Renames start last ∧ last.Apart mentioned := by
    intro rest
    induction rest with
    | nil =>
      intro now _ renames named apart
      have shape := same.trans renames.sameShape
      refine ⟨now, rfl, renames, fun f isMentioned v inWay => ?_⟩
      rcases apart f isMentioned v (shape.inWay_iff.mp inWay) with unnamed | unnamed | differ
      · exact (nomatch named _ unnamed)
      · exact (nomatch named _ unnamed)
      · exact differ
    | cons id rest ih =>
      intro now isPending renames waiting apart
      obtain ⟨bound, isVariable⟩ := isPending id mem_cons_self
      have shape := same.trans renames.sameShape
      rw [← shape.fields_size] at bound
      rw [← shape.outer] at isVariable
      refine ih _ (fun g mem => isPending g (mem_cons_of_mem _ mem))
        (renames.trans (.nameField ..)) (fun g unnamed => ?_) (fun f isMentioned v inWay => ?_)
      · rw [field_modifyField] at unnamed
        split at unnamed
        · simp [isUnnamed] at unnamed
        · rename_i isOther
          refine (mem_cons.mp (waiting g unnamed)).resolve_left fun isId => ?_
          exact isOther ⟨isId.symm, isId ▸ bound⟩
      · exact apartIfNamed_nameField (shape.wellFormed formed) bound isVariable
          (shape.fields_size ▸ bounds f isMentioned) (shape.inWay_iff.mpr inWay)
          (apart f isMentioned v inWay)
  have isPending : ∀ id ∈ start.fieldIds.filter (fun id => isUnnamed (start.field id)),
      id < t.fields.size ∧ (t.field id).outer = none := by
    intro id mem
    obtain ⟨bound, unnamed⟩ := mem_filter.mp mem
    simp only [isUnnamed, Bool.and_eq_true] at unnamed
    exact ⟨mem_range.mp bound, generated_variable id unnamed.1⟩
  have all : ∀ g, isUnnamed (start.field g) = true →
      g ∈ start.fieldIds.filter fun id => isUnnamed (start.field id) := by
    intro g unnamed
    refine mem_filter.mpr ⟨mem_range.mpr (Nat.lt_of_not_le fun out => ?_), unnamed⟩
    rw [field_of_size_le out] at unnamed
    exact absurd unnamed (by decide)
  have display (g : FieldId) : start.displayName g = t.displayName g := by
    simp only [displayName, same.ultimate]
    rfl
  obtain ⟨last, isLast, renames, isApart⟩ := run _ start isPending (.refl start) all
    fun f isMentioned v inWay => .inr (.inr (by
      rw [display, display]
      exact apart f isMentioned v inWay))
  refine ⟨last, ?_, renames, isApart⟩
  unfold nameGenerated
  rw [advanced]
  exact congrArg Except.ok isLast

end Minifier.ScopeTree
