import Minifier.Proofs.Scope.Generated
import Minifier.Proofs.Scope.ShortName

/-!
# What the choice of names leaves apart

Scopes get their names from the outside inwards, so a scope knows the names of all variables from
further out when its own turn comes, and they do not change any more. Each new name keeps away from
the other names of its scope, from the names that the scope leaves alone, and from the fixed names in
the scopes between a variable and where it is mentioned (`Settled`); when all scopes have had their
turn, this holds of every variable that got a name (`crunch_settled`).
-/

set_option autoImplicit false

namespace Minifier.ScopeTree

open List

variable {settings : Settings} {aliases : List (FieldId × FieldId)} {f : FieldId}

variable {t t' t'' : ScopeTree}

/-! ## Changes that only give names -/

/-- A change to a tree that only gives names. -/
structure Renames (t t' : ScopeTree) : Prop where
  scopes : t'.scopes = t.scopes
  fields_size : t'.fields.size = t.fields.size
  field : ∀ f, t'.field f = { t.field f with crunchedName := (t'.field f).crunchedName }
  phase : t'.phase = t.phase

namespace Renames

theorem refl (t : ScopeTree) : Renames t t := ⟨rfl, rfl, fun _ => rfl, rfl⟩

theorem trans (first : Renames t t') (second : Renames t' t'') : Renames t t'' where
  scopes := second.scopes.trans first.scopes
  fields_size := second.fields_size.trans first.fields_size
  field f := by rw [second.field f, first.field f]
  phase := second.phase.trans first.phase

variable (renames : Renames t t')
include renames

theorem scope_eq (s : ScopeId) : t'.scope s = t.scope s := by
  rw [ScopeTree.scope, renames.scopes, ScopeTree.scope]

theorem sameShape : SameShape t t' where
  scopes_size := congrArg Array.size renames.scopes
  fields_size := renames.fields_size
  parent s := by rw [renames.scope_eq]
  children s := by rw [renames.scope_eq]
  table s := by rw [renames.scope_eq]
  kind s := by rw [renames.scope_eq]
  name f := by rw [renames.field]
  scope f := by rw [renames.field]
  outer f := by rw [renames.field]

omit renames in
theorem nameField (t : ScopeTree) (id : FieldId) (name : String) :
    Renames t (t.modifyField id fun f => { f with crunchedName := some name }) where
  scopes := rfl
  fields_size := by simp
  field f := by
    rw [field_modifyField]
    split <;> rfl
  phase := rfl

theorem isCrunchable_eq (settings : Settings) (f : FieldId) :
    isCrunchable settings (t'.field f) = isCrunchable settings (t.field f) := by
  rw [renames.field]
  rfl

theorem fixedNames_eq (settings : Settings) : fixedNames settings t' = fixedNames settings t := by
  funext s
  have same (f : FieldId) : (t'.field f).isAlias = (t.field f).isAlias ∧
      (t'.field f).name = (t.field f).name := by
    rw [renames.field]
    exact ⟨rfl, rfl⟩
  simp only [fixedNames, renames.scope_eq, filterMap_map, Function.comp_def, same,
    renames.isCrunchable_eq]

theorem shadowingNames_eq (settings : Settings) (aliases : List (FieldId × FieldId)) (f : FieldId) :
    t'.shadowingNames settings aliases f = t.shadowingNames settings aliases f := by
  have same := renames.sameShape
  simp only [shadowingNames, same.scope, same.chainUpTo, renames.fixedNames_eq]

theorem displayName_eq {f : FieldId}
    (same : (t'.field (t.ultimate f)).crunchedName = (t.field (t.ultimate f)).crunchedName) :
    t'.displayName f = t.displayName f := by
  simp only [displayName, renames.sameShape.ultimate, renames.sameShape.name, same]

end Renames

/-! ## The names of one scope -/

/-- Fields that are given names get different ones, and none that is to be avoided. -/
theorem giveNames_spec (settings : Settings) (aliases : List (FieldId × FieldId))
    {ids : List FieldId} (avoid : List String) (distinct : ids.Nodup)
    (bound : ∀ g ∈ ids, g < t.fields.size) : Renames t (giveNames settings aliases ids avoid t) ∧
      (∀ g, g ∉ ids → ((giveNames settings aliases ids avoid t).field g).crunchedName =
        (t.field g).crunchedName) ∧ ∀ g ∈ ids, ∃ name,
        ((giveNames settings aliases ids avoid t).field g).crunchedName = some name ∧
        name ∉ avoid ∧ name ∉ t.shadowingNames settings aliases g ∧ ∀ h ∈ ids, h ≠ g →
          ((giveNames settings aliases ids avoid t).field h).crunchedName ≠ some name := by
  induction ids generalizing avoid t with
  | nil => exact ⟨.refl t, fun _ _ => rfl, fun _ mem => (nomatch mem)⟩
  | cons id rest ih =>
    simp only [giveNames]
    have free := ShortName.first_not_mem (avoid ++ t.shadowingNames settings aliases id)
    generalize ShortName.first (avoid ++ t.shadowingNames settings aliases id) = name at free ⊢
    obtain ⟨isNew, distinct'⟩ := nodup_cons.mp distinct
    have first := Renames.nameField t id name
    have isNamed : ((t.modifyField id fun f => { f with crunchedName := some name }).field
        id).crunchedName = some name := by
      rw [field_modifyField, if_pos ⟨rfl, bound id mem_cons_self⟩]
    obtain ⟨renames, others, named⟩ := ih (name :: avoid) distinct'
      (t := t.modifyField id fun f => { f with crunchedName := some name })
      (fun g mem => first.fields_size ▸ bound g (mem_cons_of_mem _ mem))
    have head := (others id isNew).trans isNamed
    refine ⟨first.trans renames, fun g notMem => ?_, fun g mem => ?_⟩
    · obtain ⟨ne, notInRest⟩ := not_or.mp (mt mem_cons.mpr notMem)
      rw [others g notInRest, field_modifyField, if_neg fun same => ne same.1.symm]
    · rcases mem_cons.mp mem with rfl | inRest
      · refine ⟨name, head, fun mem => free (mem_append_left _ mem),
          fun mem => free (mem_append_right _ mem), fun h mem ne => ?_⟩
        have inRest := (mem_cons.mp mem).resolve_left ne
        obtain ⟨other, isOther, notAvoided, _⟩ := named h inRest
        rw [isOther]
        rintro ⟨⟩
        exact notAvoided mem_cons_self
      · obtain ⟨other, isOther, notAvoided, notShadowing, apart⟩ := named g inRest
        rw [first.shadowingNames_eq] at notShadowing
        refine ⟨other, isOther, fun mem => notAvoided (mem_cons_of_mem _ mem), notShadowing,
          fun h mem ne => ?_⟩
        rcases mem_cons.mp mem with rfl | inRest'
        · rw [head]
          rintro ⟨⟩
          exact notAvoided mem_cons_self
        · exact apart h inRest' ne

/-- Whether a field gets a name when its scope has its turn. -/
def GetsName (settings : Settings) (t : ScopeTree) (f : FieldId) : Prop :=
  f < t.fields.size ∧ isCrunchable settings (t.field f) = true ∧
    (t.scope (t.field f).scope).kind ≠ .global ∧ (t.scope (t.field f).scope).isKnown = true

theorem Renames.getsName_iff (renames : Renames t t') (settings : Settings) (f : FieldId) :
    t'.GetsName settings f ↔ t.GetsName settings f := by
  unfold GetsName
  rw [renames.fields_size, renames.isCrunchable_eq, renames.sameShape.scope, renames.scope_eq]

/-- A scope gives names to those of its fields that get one, apart from what it avoids. -/
theorem crunchScope_spec (settings : Settings) (aliases : List (FieldId × FieldId))
    (formed : t.WellFormed) (x : ScopeId) : Renames t (t.crunchScope settings aliases x) ∧
      (∀ g, (t.GetsName settings g → (t.field g).scope ≠ x) →
        ((t.crunchScope settings aliases x).field g).crunchedName = (t.field g).crunchedName) ∧
      ∀ g, t.GetsName settings g → (t.field g).scope = x → ∃ name,
        ((t.crunchScope settings aliases x).field g).crunchedName = some name ∧
        name ∉ t.shadowingNames settings aliases g ∧
        (∀ u ∈ (t.scope x).verboten, t.displayName u ≠ name) ∧
        ∀ h < t.fields.size, (t.field h).scope = x → h ≠ g →
          if isCrunchable settings (t.field h) then
            ((t.crunchScope settings aliases x).field h).crunchedName ≠ some name
          else t.displayName h ≠ name := by
  simp only [crunchScope]
  split
  · rename_i spared
    refine ⟨.refl t, fun _ _ => rfl, ?_⟩
    rintro g ⟨_, _, notGlobal, isKnown⟩ rfl
    simp [notGlobal, isKnown] at spared
  · rename_i known
    simp only [partition_eq_filter_filter]
    generalize isOrdered : List.mergeSort _ _ = ordered
    have mem_ordered (g : FieldId) : g ∈ ordered ↔
        g < t.fields.size ∧ (t.field g).scope = x ∧ isCrunchable settings (t.field g) = true := by
      rw [← isOrdered, mem_mergeSort, mem_filter, formed.mem_fieldIds, and_assoc]
    have distinct : ordered.Nodup := by
      rw [← isOrdered]
      exact (mergeSort_perm _ _).nodup_iff.mpr ((formed.fieldIds_nodup x).filter _)
    obtain ⟨renames, others, named⟩ := giveNames_spec settings aliases
      (((List.filter (not ∘ fun f => isCrunchable settings (t.field f)) (t.scope x).fieldIds) ++
        (t.scope x).verboten).map t.displayName) distinct fun g mem => ((mem_ordered g).mp mem).1
    refine ⟨renames, fun g spared => others g fun mem => ?_, ?_⟩
    · obtain ⟨bound, isScope, crunchable⟩ := (mem_ordered g).mp mem
      refine spared ⟨bound, crunchable, ?_⟩ isScope
      rw [isScope]
      simpa using known
    · rintro g ⟨bound, crunchable, _⟩ isScope
      obtain ⟨name, isName, notAvoided, notShadowing, apart⟩ :=
        named g ((mem_ordered g).mpr ⟨bound, isScope, crunchable⟩)
      refine ⟨name, isName, notShadowing, fun u mem same => ?_, fun h bound' isScope' ne => ?_⟩
      · exact notAvoided (mem_map.mpr ⟨u, mem_append_right _ mem, same⟩)
      · split
        · rename_i crunchable'
          exact apart h ((mem_ordered h).mpr ⟨bound', isScope', crunchable'⟩) ne
        · rename_i notCrunchable
          refine fun same => notAvoided (mem_map.mpr ⟨h, mem_append_left _ ?_, same⟩)
          rw [mem_filter, formed.mem_fieldIds]
          exact ⟨⟨bound', isScope'⟩, by simpa using notCrunchable⟩

/-! ## All scopes -/

/-- A field has a name that keeps away from all it could be taken for. -/
def Settled (settings : Settings) (aliases : List (FieldId × FieldId)) (t : ScopeTree)
    (g : FieldId) : Prop :=
  ∃ name, (t.field g).crunchedName = some name ∧ name ∉ t.shadowingNames settings aliases g ∧
    (∀ u ∈ (t.scope (t.field g).scope).verboten, t.displayName u ≠ name) ∧
    ∀ h < t.fields.size, (t.field h).scope = (t.field g).scope → h ≠ g → t.displayName h ≠ name

/-- How far the choice of names has come: some scopes have had their turn. -/
structure Progress (settings : Settings) (aliases : List (FieldId × FieldId))
    (start t : ScopeTree) (turns : List ScopeId) : Prop where
  renames : Renames start t
  settled : ∀ g, start.GetsName settings g → (start.field g).scope ∈ turns →
    t.Settled settings aliases g
  waiting : ∀ g, (start.GetsName settings g → (start.field g).scope ∉ turns) →
    (t.field g).crunchedName = none

theorem Prepared.isVariable_of_crunchable (prepared : t.Prepared)
    (crunchable : isCrunchable settings (t.field f) = true) : (t.field f).outer = none := by
  simp only [isCrunchable, Bool.or_eq_true, Bool.and_eq_true, Bool.not_eq_true'] at crunchable
  rcases crunchable with isGenerated | ⟨⟨⟨notAlias, _⟩, _⟩, _⟩
  · exact prepared.generated_variable f isGenerated
  · simpa [Field.isAlias] using notAlias

theorem displayName_of_named {name : String} (isVariable : (t.field f).outer = none)
    (isName : (t.field f).crunchedName = some name) : t.displayName f = name := by
  simp only [displayName, ultimate_of_variable isVariable, isName, Option.getD_some]

theorem displayName_of_unnamed (formed : t.WellFormed)
    (unnamed : (t.field (t.ultimate f)).crunchedName = none) : t.displayName f = (t.field f).name := by
  simp only [displayName, unnamed, Option.getD_none, formed.ultimate_name]

/-- A name stays apart from others as long as they stay as they are. -/
theorem Settled.of_renames {g : FieldId} (settled : t.Settled settings aliases g)
    (renames : Renames t t') (own : (t'.field g).crunchedName = (t.field g).crunchedName)
    (verboten : ∀ u ∈ (t.scope (t.field g).scope).verboten, t'.displayName u = t.displayName u)
    (beside : ∀ h, (t.field h).scope = (t.field g).scope → t'.displayName h = t.displayName h) :
    t'.Settled settings aliases g := by
  obtain ⟨name, isName, notShadowing, notVerboten, apart⟩ := settled
  unfold Settled
  simp only [renames.shadowingNames_eq, renames.sameShape.scope, renames.scope_eq,
    renames.fields_size]
  refine ⟨name, own.trans isName, notShadowing, fun u mem => ?_, fun h bound isScope ne => ?_⟩
  · rw [verboten u mem]
    exact notVerboten u mem
  · rw [beside h isScope]
    exact apart h bound isScope ne

/-- The turn of a scope, after those around it and before those inside it. -/
theorem Progress.crunchScope {start : ScopeTree} {turns : List ScopeId} {x : ScopeId}
    (prepared : start.Prepared) (progress : Progress settings aliases start t turns)
    (later : ∀ y ∈ turns, ¬ Within start y x) :
    Progress settings aliases start (t.crunchScope settings aliases x) (turns ++ [x]) := by
  have same := progress.renames.sameShape
  have formed := same.wellFormed prepared.formed
  obtain ⟨renames, others, named⟩ := crunchScope_spec settings aliases formed x
  generalize t.crunchScope settings aliases x = t' at *
  have same' := renames.sameShape
  have getsName (g : FieldId) := progress.renames.getsName_iff settings g
  have outer := same.verbotenOuter (fun s => by rw [progress.renames.scope_eq])
    prepared.verbotenOuter
  -- variables of other scopes keep their names
  have keeps {f : FieldId} (elsewhere : (t.field (t.ultimate f)).scope ≠ x) :
      t'.displayName f = t.displayName f :=
    renames.displayName_eq (others _ fun _ => elsewhere)
  refine ⟨progress.renames.trans renames, fun g gets mem => ?_, fun g spared => ?_⟩
  · rcases mem_append.mp mem with old | new
    · -- what had its turn before is not inside this scope, so nothing that it sees changes
      rw [← same.scope] at old
      have outside {y : ScopeId} (around : Within t (t.field g).scope y) : y ≠ x :=
        fun isHere => later _ old (isHere ▸ same.within_iff.mp around)
      refine (progress.settled g gets (same.scope g ▸ old)).of_renames renames
        (others g fun _ => outside (.refl _)) (fun u isVerboten => keeps ?_)
        (fun h isScope => keeps (outside (isScope ▸ formed.within_ultimate h)))
      obtain ⟨_, isVariable, within, _⟩ := outer _ u isVerboten
      rw [ultimate_of_variable isVariable]
      exact outside within
    · have isHere : (t.field g).scope = x := (same.scope g).trans (mem_singleton.mp new)
      have gets := (getsName g).mpr gets
      obtain ⟨name, isName, notShadowing, notVerboten, apart⟩ := named g gets isHere
      unfold Settled
      simp only [renames.shadowingNames_eq, same'.scope, renames.scope_eq, renames.fields_size,
        isHere]
      refine ⟨name, isName, notShadowing, fun u isVerboten => ?_, fun h bound isScope ne => ?_⟩
      · obtain ⟨_, isVariable, _, lower⟩ := outer _ u isVerboten
        rw [keeps]
        · exact notVerboten u isVerboten
        · rw [ultimate_of_variable isVariable]
          exact Nat.ne_of_lt lower
      · have apart := apart h bound isScope ne
        split at apart
        · rename_i crunchable
          have isVariable : (t'.field h).outer = none := by
            rw [same'.outer, same.outer]
            rw [progress.renames.isCrunchable_eq] at crunchable
            exact prepared.isVariable_of_crunchable crunchable
          have gets' : t.GetsName settings h := by
            refine ⟨bound, crunchable, ?_⟩
            rw [isScope, ← isHere]
            exact gets.2.2
          obtain ⟨name', isName', _⟩ := named h gets' isScope
          rw [displayName_of_named isVariable isName']
          rintro rfl
          exact apart isName'
        · rename_i notCrunchable
          refine fun isName => apart (isName ▸ (renames.displayName_eq (others _ ?_)).symm)
          intro gets' isScope'
          -- a variable of this scope is the field itself, which does not get a name
          have isVariable := formed.isVariable_of_scope_eq (isScope'.trans isScope.symm)
          rw [ultimate_of_variable isVariable] at gets'
          exact notCrunchable gets'.2.1
  · rw [others g fun gets isHere => ?_]
    · exact progress.waiting g fun gets mem => spared gets (mem_append_left _ mem)
    · refine spared ((getsName g).mp gets) (mem_append_right _ ?_)
      rw [← same.scope, isHere]
      exact mem_singleton_self x

/-- After all turns, every field that gets a name has one that keeps away from what it could be taken
for, and no other field has a name. -/
theorem Prepared.crunch_settled (prepared : t.Prepared) (settings : Settings)
    (aliases : List (FieldId × FieldId)) :
    let t' := t.topDown.foldl (ScopeTree.crunchScope settings aliases) t
    Renames t t' ∧ (∀ g, t.GetsName settings g → t'.Settled settings aliases g) ∧
      ∀ g, ¬ t.GetsName settings g → (t'.field g).crunchedName = none := by
  have formed := prepared.formed
  have ordered : t.topDown.Pairwise fun a b => ¬ Within t a b :=
    pairwise_subtreeFrom formed.parentsFirst formed.childrenAgree formed.childrenDistinct _ _
  have run : ∀ (turns rest : List ScopeId) (now : ScopeTree),
      (turns ++ rest).Pairwise (fun a b => ¬ Within t a b) →
      Progress settings aliases t now turns →
      Progress settings aliases t (rest.foldl (ScopeTree.crunchScope settings aliases) now)
        (turns ++ rest) := by
    intro turns rest
    induction rest generalizing turns with
    | nil => simp
    | cons x rest ih =>
      intro now ordered progress
      have later : ∀ y ∈ turns, ¬ Within t y x := fun y mem =>
        (pairwise_append.mp ordered).2.2 y mem x mem_cons_self
      rw [append_cons] at ordered ⊢
      exact ih _ _ ordered (progress.crunchScope prepared later)
  have progress := run [] t.topDown t ordered
    ⟨.refl t, fun _ _ mem => (nomatch mem), fun g _ => prepared.unnamed g⟩
  refine ⟨progress.renames, fun g gets => progress.settled g gets ?_, fun g spared => ?_⟩
  · exact mem_topDown formed (formed.scope_lt g gets.1)
  · exact progress.waiting g fun gets => absurd gets spared

theorem advance_eq_ok {before after : Phase} :
    t.advance before after = .ok t' ↔ t.phase = before ∧ { t with phase := after } = t' := by
  unfold advance
  split <;> simp [*]

/-- Short names are given in their phase, to nothing but what may get one. -/
theorem Prepared.of_crunch (prepared : t.Prepared) (isShort : t.crunch settings = .ok t') :
    t.phase = .literalsShortcut ∧ Renames { t with phase := .renamed } t' ∧
      ∀ g, (t'.field g).crunchedName ≠ none → t.GetsName settings g := by
  unfold crunch at isShort
  cases advanced : t.advance .literalsShortcut .renamed with
  | error _ =>
    rw [advanced] at isShort
    cases isShort
  | ok start =>
    rw [advanced] at isShort
    obtain ⟨phase, rfl⟩ := advance_eq_ok.mp advanced
    have prepared := prepared.withPhase .renamed
    simp only [bind, Except.bind] at isShort
    split at isShort
    · obtain rfl := Except.ok.inj isShort
      exact ⟨phase, .refl _, fun g isNamed => absurd (prepared.unnamed g) isNamed⟩
    · obtain rfl := Except.ok.inj isShort
      obtain ⟨renames, -, others⟩ := prepared.crunch_settled settings
        ({ t with phase := .renamed } : ScopeTree).aliasPairs
      refine ⟨phase, renames, fun g isNamed => ?_⟩
      exact Classical.byContradiction fun spared => isNamed (others g spared)

/-- The last names are given in their phase, to nothing but variables for literals. -/
theorem of_nameGenerated (isLast : t.nameGenerated = .ok t') :
    t.phase = .renamed ∧ Renames { t with phase := .generatedNamesValidated } t' ∧
      ∀ g, (t'.field g).crunchedName ≠ none →
        (t.field g).crunchedName ≠ none ∨ (t.field g).isGenerated = true := by
  unfold nameGenerated at isLast
  cases advanced : t.advance .renamed .generatedNamesValidated with
  | error _ =>
    rw [advanced] at isLast
    cases isLast
  | ok start =>
    rw [advanced] at isLast
    obtain ⟨phase, rfl⟩ := advance_eq_ok.mp advanced
    obtain rfl := Except.ok.inj isLast
    refine ⟨phase, ?_⟩
    refine List.foldlRecOn (motive := fun now : ScopeTree =>
      Renames { t with phase := .generatedNamesValidated } now ∧ ∀ g, (now.field g).crunchedName ≠ none →
        (t.field g).crunchedName ≠ none ∨ (t.field g).isGenerated = true) _ _
      ⟨.refl _, fun g isNamed => .inl isNamed⟩ ?_
    rintro now ⟨renames, known⟩ id isPending
    refine ⟨renames.trans (.nameField ..), fun g isNamed => ?_⟩
    rw [field_modifyField] at isNamed
    split at isNamed
    · rename_i isHere
      have unnamed := (mem_filter.mp isPending).2
      rw [isHere.1, isUnnamed, Bool.and_eq_true] at unnamed
      exact .inr unnamed.1
    · exact known g isNamed

end Minifier.ScopeTree
