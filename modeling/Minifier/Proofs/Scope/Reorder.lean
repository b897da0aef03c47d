import Mathlib.Data.List.Sort
import Mathlib.Data.String.Basic
import Mathlib.Logic.Equiv.Basic
import Minifier.Proofs.Scope.Rename

/-!
# Short names do not depend on order

Two trees may have the same scopes and fields under other numbers, with tables, children and names to
leave alone in another order. The short names are the same in both (`crunch_reorders`).

Within a scope the fields get their names in an order that the tables do not matter for, since no two
fields of a scope have the same name (`Reorders.mergeSort_eq`), and each name depends on what it has to
avoid as a set. The scopes themselves come in different orders, but what a scope gives away depends on
names from further out only, which are settled when its turn comes: its names are those that it would
give away once more at the end (`crunchScope_settled`). So the names of two trees can be compared from
the outside inwards (`Reorders.agree_of_settled`).
-/

set_option autoImplicit false

namespace Minifier.ScopeTree

open List

variable (settings : Settings)

variable {σ : ScopeId ≃ ScopeId} {φ : FieldId ≃ FieldId} {t t' u u' : ScopeTree}

/-! ## Trees that differ in order -/

/-- Two trees have the same scopes and fields under other numbers, up to the order of tables, children
and names to leave alone, and up to the names that were given. -/
structure Reorders (σ : ScopeId ≃ ScopeId) (φ : FieldId ≃ FieldId) (t t' : ScopeTree) : Prop where
  scope_lt : ∀ s, σ s < t'.scopes.size ↔ s < t.scopes.size
  field_lt : ∀ f, φ f < t'.fields.size ↔ f < t.fields.size
  scope : ∀ s < t.scopes.size, t'.scope (σ s) = { t.scope s with
    parent := (t.scope s).parent.map σ
    functionField := (t.scope s).functionField.map φ
    children := (t'.scope (σ s)).children
    table := (t'.scope (σ s)).table
    verboten := (t'.scope (σ s)).verboten }
  children : ∀ s < t.scopes.size, (t'.scope (σ s)).children.Perm ((t.scope s).children.map σ)
  table : ∀ s < t.scopes.size,
    (t'.scope (σ s)).table.Perm ((t.scope s).table.map fun entry => (entry.1, φ entry.2))
  verboten : ∀ s < t.scopes.size, ∀ f, φ f ∈ (t'.scope (σ s)).verboten ↔ f ∈ (t.scope s).verboten
  field : ∀ f < t.fields.size, t'.field (φ f) = { t.field f with
    scope := σ (t.field f).scope
    outer := (t.field f).outer.map φ
    crunchedName := (t'.field (φ f)).crunchedName }

/-- A field and the one that corresponds to it have the same short name. -/
def Agree (φ : FieldId ≃ FieldId) (t t' : ScopeTree) (f : FieldId) : Prop :=
  (t'.field (φ f)).crunchedName = (t.field f).crunchedName

namespace Reorders

theorem of_renames (h : Reorders σ φ t t') (renames : Renames t u) (renames' : Renames t' u') :
    Reorders σ φ u u' where
  scope_lt s := by
    rw [renames.sameShape.scopes_size, renames'.sameShape.scopes_size]
    exact h.scope_lt s
  field_lt f := by
    rw [renames.fields_size, renames'.fields_size]
    exact h.field_lt f
  scope s bound := by
    rw [renames.scope_eq, renames'.scope_eq]
    exact h.scope s (renames.sameShape.scopes_size ▸ bound)
  children s bound := by
    rw [renames.scope_eq, renames'.scope_eq]
    exact h.children s (renames.sameShape.scopes_size ▸ bound)
  table s bound := by
    rw [renames.scope_eq, renames'.scope_eq]
    exact h.table s (renames.sameShape.scopes_size ▸ bound)
  verboten s bound := by
    rw [renames.scope_eq, renames'.scope_eq]
    exact h.verboten s (renames.sameShape.scopes_size ▸ bound)
  field f bound := by
    rw [renames'.field (φ f), h.field f (renames.fields_size ▸ bound), renames.field f]

theorem refl (t : ScopeTree) : Reorders (.refl _) (.refl _) t t where
  scope_lt _ := Iff.rfl
  field_lt _ := Iff.rfl
  scope s _ := by simp
  children s _ := by simp
  table s _ := by simp
  verboten _ _ _ := Iff.rfl
  field f _ := by simp

section Places

variable {f : FieldId} {s : ScopeId}

variable (h : Reorders σ φ t t')
include h

theorem parent (bound : s < t.scopes.size) : (t'.scope (σ s)).parent = (t.scope s).parent.map σ := by
  rw [h.scope s bound]

theorem kind (bound : s < t.scopes.size) : (t'.scope (σ s)).kind = (t.scope s).kind := by
  rw [h.scope s bound]

theorem isKnown (bound : s < t.scopes.size) : (t'.scope (σ s)).isKnown = (t.scope s).isKnown := by
  rw [h.scope s bound]

theorem chain (formed : t.WellFormed) (formed' : t'.WellFormed) (bound : s < t.scopes.size) :
    t'.chain (σ s) = (t.chain s).map σ := by
  induction s using chain_induction formed.parentsFirst with
  | top s isTop =>
    have isTop' : (t'.scope (σ s)).parent = none := by rw [h.parent bound, isTop]; rfl
    rw [chain_of_no_parent isTop, chain_of_no_parent isTop', map_singleton]
  | inner s parent isParent ih =>
    have isParent' : (t'.scope (σ s)).parent = some (σ parent) := by rw [h.parent bound, isParent]; rfl
    rw [chain_of_parent formed.parentsFirst isParent, chain_of_parent formed'.parentsFirst isParent',
      ih (Nat.lt_trans (formed.parentsFirst s parent isParent) bound), map_cons]

theorem chainUpTo (formed : t.WellFormed) (formed' : t'.WellFormed) (bound : s < t.scopes.size)
    (stop : ScopeId) : t'.chainUpTo (σ s) (σ stop) = (t.chainUpTo s stop).map σ := by
  rw [ScopeTree.chainUpTo, h.chain formed formed' bound, takeWhile_map, ScopeTree.chainUpTo]
  congr 2
  funext x
  simp

theorem outer (bound : f < t.fields.size) : (t'.field (φ f)).outer = (t.field f).outer.map φ := by
  rw [h.field f bound]

theorem scopeOf (bound : f < t.fields.size) : (t'.field (φ f)).scope = σ (t.field f).scope := by
  rw [h.field f bound]

theorem ultimate (formed : t.WellFormed) (formed' : t'.WellFormed) (bound : f < t.fields.size) :
    t'.ultimate (φ f) = φ (t.ultimate f) := by
  induction f using alias_induction formed.outersFirst with
  | isVariable f found =>
    have found' : (t'.field (φ f)).outer = none := by rw [h.outer bound, found]; rfl
    rw [ultimate_of_variable found, ultimate_of_variable found']
  | isAlias f outer found ih =>
    have found' : (t'.field (φ f)).outer = some (φ outer) := by rw [h.outer bound, found]; rfl
    rw [ultimate_of_alias formed.outersFirst found, ultimate_of_alias formed'.outersFirst found',
      ih (Nat.lt_trans (formed.outersFirst f outer found) bound)]

theorem displayName (formed : t.WellFormed) (formed' : t'.WellFormed) (bound : f < t.fields.size)
    (agree : Agree φ t t' (t.ultimate f)) : t'.displayName (φ f) = t.displayName f := by
  have bound' := Nat.lt_of_le_of_lt (formed.ultimate_le f) bound
  have name : (t'.field (φ (t.ultimate f))).name = (t.field (t.ultimate f)).name := by
    rw [h.field _ bound']
  simp only [ScopeTree.displayName, h.ultimate formed formed' bound, name]
  rw [agree]

theorem fieldIds (bound : s < t.scopes.size) :
    (t'.scope (σ s)).fieldIds.Perm ((t.scope s).fieldIds.map φ) := by
  have perm := (h.table s bound).map (·.2)
  rw [map_map] at perm
  rw [Scope.fieldIds, Scope.fieldIds, map_map]
  exact perm

theorem isAlias (bound : f < t.fields.size) : (t'.field (φ f)).isAlias = (t.field f).isAlias := by
  simp [Field.isAlias, h.outer bound]

theorem isCrunchable (settings : Settings) (bound : f < t.fields.size) :
    isCrunchable settings (t'.field (φ f)) = isCrunchable settings (t.field f) := by
  have same := h.isAlias bound
  rw [h.field f bound] at same ⊢
  simp only [ScopeTree.isCrunchable, same]

theorem getsName_iff (settings : Settings) (formed : t.WellFormed) (bound : f < t.fields.size) :
    t'.GetsName settings (φ f) ↔ t.GetsName settings f := by
  have inside := formed.scope_lt f bound
  unfold GetsName
  rw [h.field_lt, h.isCrunchable settings bound, h.scopeOf bound, h.kind inside, h.isKnown inside]

/-- Fixed names come in the order of the table. -/
theorem fixedNames (settings : Settings) (formed : t.WellFormed) (bound : s < t.scopes.size) :
    (t'.fixedNames settings (σ s)).Perm (t.fixedNames settings s) := by
  simp only [ScopeTree.fixedNames, h.isKnown bound, filterMap_map]
  refine ((h.fieldIds bound).filterMap _).trans (.of_eq ?_)
  rw [filterMap_map]
  refine filterMap_congr fun f mem => ?_
  have inside := (formed.mem_fieldIds.mp mem).1
  have name : (t'.field (φ f)).name = (t.field f).name := by rw [h.field f inside]
  simp only [Function.comp_apply, h.isAlias inside, h.isCrunchable settings inside, name]

theorem mem_aliasPairs (formed : t.WellFormed) (formed' : t'.WellFormed) {alias_ : FieldId} :
    (φ f, φ alias_) ∈ t'.aliasPairs ↔ (f, alias_) ∈ t.aliasPairs := by
  simp only [aliasPairs, ScopeTree.fieldIds, mem_map, mem_filter, mem_range, Prod.mk.injEq]
  constructor
  · rintro ⟨_, ⟨bound, isAlias⟩, same, rfl⟩
    have inside := (h.field_lt alias_).mp bound
    rw [h.ultimate formed formed' inside] at same
    exact ⟨alias_, ⟨inside, h.isAlias inside ▸ isAlias⟩, φ.injective same, rfl⟩
  · rintro ⟨_, ⟨bound, isAlias⟩, rfl, rfl⟩
    exact ⟨φ _, ⟨(h.field_lt _).mpr bound, (h.isAlias bound).trans isAlias⟩,
      h.ultimate formed formed' bound, rfl⟩

/-- The aliases of a variable may come in another order. -/
theorem shadowingNames (settings : Settings) (formed : t.WellFormed) (formed' : t'.WellFormed)
    (bound : f < t.fields.size) (name : String) :
    name ∈ t'.shadowingNames settings t'.aliasPairs (φ f) ↔
      name ∈ t.shadowingNames settings t.aliasPairs f := by
  have between {alias_ : FieldId} (inside : alias_ < t.fields.size) :
      (∃ s' ∈ t'.chainUpTo (t'.field (φ alias_)).scope (t'.field (φ f)).scope,
        name ∈ t'.fixedNames settings s') ↔
      ∃ s ∈ t.chainUpTo (t.field alias_).scope (t.field f).scope, name ∈ t.fixedNames settings s := by
    have lower := formed.scope_lt alias_ inside
    rw [h.scopeOf inside, h.scopeOf bound, h.chainUpTo formed formed' lower]
    simp only [mem_map, exists_exists_and_eq_and]
    refine exists_congr fun s => and_congr_right fun mem => ?_
    have within := (mem_chain_iff formed.parentsFirst).mp (takeWhile_subset _ mem)
    exact (h.fixedNames settings formed
      (Nat.lt_of_le_of_lt (within.le formed.parentsFirst) lower)).mem_iff
  have alias_lt {g alias_ : FieldId} (mem : (g, alias_) ∈ t.aliasPairs) : alias_ < t.fields.size := by
    simp only [aliasPairs, ScopeTree.fieldIds, mem_map, mem_filter, mem_range, Prod.mk.injEq] at mem
    obtain ⟨_, ⟨inside, -⟩, -, rfl⟩ := mem
    exact inside
  simp only [ScopeTree.shadowingNames, mem_flatMap, mem_filter, decide_eq_true_eq, Prod.exists]
  constructor
  · rintro ⟨g', alias', ⟨mem, rfl⟩, around⟩
    obtain ⟨alias_, rfl⟩ := φ.surjective alias'
    have mem := (h.mem_aliasPairs formed formed').mp mem
    exact ⟨f, alias_, ⟨mem, rfl⟩, (between (alias_lt mem)).mp around⟩
  · rintro ⟨g, alias_, ⟨mem, rfl⟩, around⟩
    exact ⟨φ g, φ alias_, ⟨(h.mem_aliasPairs formed formed').mpr mem, rfl⟩, (between (alias_lt mem)).mpr around⟩

end Places

end Reorders

/-! ## The order within a scope -/

theorem namedBefore_iff (f g : Field) : namedBefore f g = true ↔
    g.refs < f.refs ∨ g.refs = f.refs ∧ (g.name.utf8ByteSize < f.name.utf8ByteSize ∨
      g.name.utf8ByteSize = f.name.utf8ByteSize ∧ f.name ≤ g.name) := by
  unfold namedBefore
  split
  · rename_i refs
    simp [Ne.symm refs]
  · rename_i refs
    split
    · rename_i size
      simp_all [Ne.symm size]
    · simp_all

theorem namedBefore_total (f g : Field) : (namedBefore f g || namedBefore g f) = true := by
  rw [Bool.or_eq_true, namedBefore_iff, namedBefore_iff]
  rcases Nat.lt_trichotomy f.refs g.refs with refs | refs | refs <;>
    rcases Nat.lt_trichotomy f.name.utf8ByteSize g.name.utf8ByteSize with size | size | size <;>
    first | omega | skip
  rcases String.le_total f.name g.name with le | le
  · exact .inl (.inr ⟨refs.symm, .inr ⟨size.symm, le⟩⟩)
  · exact .inr (.inr ⟨refs, .inr ⟨size, le⟩⟩)

theorem namedBefore_trans (f g k : Field) (first : namedBefore f g = true) (second : namedBefore g k = true) :
    namedBefore f k = true := by
  rw [namedBefore_iff] at first second ⊢
  rcases first with lower | ⟨same, lower | ⟨size, le⟩⟩ <;>
    rcases second with lower' | ⟨same', lower' | ⟨size', le'⟩⟩ <;> first | omega | skip
  exact .inr ⟨same'.trans same, .inr ⟨size'.trans size, String.le_trans le le'⟩⟩

theorem namedBefore_antisymm {f g : Field} (first : namedBefore f g = true)
    (second : namedBefore g f = true) : f.name = g.name := by
  rw [namedBefore_iff] at first second
  rcases first with lower | ⟨same, lower | ⟨size, le⟩⟩ <;>
    rcases second with lower' | ⟨same', lower' | ⟨size', le'⟩⟩ <;> first | omega | skip
  exact String.le_antisymm le le'

/-- The fields of a scope have different names, so there is one order in which they get short ones. -/
theorem Reorders.mergeSort_eq (h : Reorders σ φ t t') (formed : t.WellFormed) {s : ScopeId}
    {fields fields' : List FieldId} (perm : fields'.Perm (fields.map φ)) (here : fields ⊆ (t.scope s).fieldIds) :
    fields'.mergeSort (fun f g => namedBefore (t'.field f) (t'.field g)) =
      (fields.mergeSort fun f g => namedBefore (t.field f) (t.field g)).map φ := by
  let before (u : ScopeTree) (f g : FieldId) : Bool := namedBefore (u.field f) (u.field g)
  have sorted (u : ScopeTree) (l : List FieldId) : (l.mergeSort (before u)).Pairwise (before u · ·) :=
    pairwise_mergeSort (fun f g k => namedBefore_trans (u.field f) (u.field g) (u.field k))
      (fun f g => namedBefore_total (u.field f) (u.field g)) l
  have place {f : FieldId} (mem : f ∈ fields) := formed.mem_fieldIds.mp (here mem)
  have before_eq {f g : FieldId} (mem : f ∈ fields) (mem' : g ∈ fields) :
      before t' (φ f) (φ g) = before t f g := by
    show namedBefore _ _ = namedBefore _ _
    rw [h.field f (place mem).1, h.field g (place mem').1]
    rfl
  have perm' : (fields'.mergeSort (before t')).Perm ((fields.mergeSort (before t)).map φ) :=
    (mergeSort_perm _ _).trans (perm.trans ((mergeSort_perm _ _).map φ).symm)
  refine List.Perm.eq_of_pairwise ?_ (sorted t' fields') ?_ perm'
  · intro f' g' mem mem' first second
    obtain ⟨f, inF, rfl⟩ := mem_map.mp (perm'.mem_iff.mp mem)
    obtain ⟨g, inG, rfl⟩ := mem_map.mp mem'
    rw [mem_mergeSort] at inF inG
    rw [before_eq inF inG] at first
    rw [before_eq inG inF] at second
    refine congrArg φ (formed.eq_of_name_eq ?_ ?_ ?_ (namedBefore_antisymm first second))
    · exact (place inF).1
    · exact (place inG).1
    · exact (place inF).2.trans (place inG).2.symm
  · refine pairwise_map.mpr ((sorted t fields).imp_of_mem fun {f g} inF inG isBefore => ?_)
    rw [mem_mergeSort] at inF inG
    rw [before_eq inF inG]
    exact isBefore

/-! ## The names of one scope -/

/-- Corresponding fields get the same names as long as these have to avoid the same. -/
theorem agree_giveNames (settings : Settings) {aliases aliases' : List (FieldId × FieldId)}
    {ids : List FieldId} {avoid avoid' : List String} (distinct : ids.Nodup)
    (bound : ∀ g ∈ ids, g < t.fields.size ∧ φ g < t'.fields.size)
    (avoids : ∀ name, name ∈ avoid' ↔ name ∈ avoid)
    (shadows : ∀ g ∈ ids, ∀ name, name ∈ t'.shadowingNames settings aliases' (φ g) ↔
      name ∈ t.shadowingNames settings aliases g) :
    ∀ g ∈ ids, Agree φ (giveNames settings aliases ids avoid t)
      (giveNames settings aliases' (ids.map φ) avoid' t') g := by
  induction ids generalizing avoid avoid' t t' with
  | nil => exact fun _ mem => nomatch mem
  | cons id rest ih =>
    obtain ⟨isNew, distinct'⟩ := nodup_cons.mp distinct
    have sameName : ShortName.first (avoid' ++ t'.shadowingNames settings aliases' (φ id)) =
        ShortName.first (avoid ++ t.shadowingNames settings aliases id) := by
      refine ShortName.first_congr fun name => ?_
      rw [mem_append, mem_append, avoids, shadows id mem_cons_self]
    simp only [map_cons, giveNames, sameName]
    generalize ShortName.first (avoid ++ t.shadowingNames settings aliases id) = name
    have first := Renames.nameField t id name
    have first' := Renames.nameField t' (φ id) name
    have bound_rest : ∀ g ∈ rest, g < (t.modifyField id fun f => { f with crunchedName := some name }).fields.size ∧
        φ g < (t'.modifyField (φ id) fun f => { f with crunchedName := some name }).fields.size := by
      intro g mem
      rw [first.fields_size, first'.fields_size]
      exact bound g (mem_cons_of_mem _ mem)
    have isNew' : φ id ∉ rest.map φ := by
      rwa [mem_map_of_injective φ.injective]
    have others := (giveNames_spec settings aliases (name :: avoid) distinct' fun g mem => (bound_rest g mem).1).2.1
    have others' := (giveNames_spec settings aliases' (name :: avoid')
      (distinct'.map φ.injective) (t := t'.modifyField (φ id) fun f => { f with crunchedName := some name })
      (by
        simp only [mem_map]
        rintro _ ⟨g, mem, rfl⟩
        exact (bound_rest g mem).2)).2.1
    intro g mem
    rcases mem_cons.mp mem with rfl | inRest
    · have inside := bound g mem_cons_self
      rw [Agree, others g isNew, others' (φ g) isNew', field_modifyField, field_modifyField,
        if_pos ⟨rfl, inside.2⟩, if_pos ⟨rfl, inside.1⟩]
    · refine ih distinct' bound_rest (fun x => ?_) (fun k inRest' x => ?_) g inRest
      · rw [mem_cons, mem_cons, avoids]
      · rw [first.shadowingNames_eq, first'.shadowingNames_eq]
        exact shadows k (mem_cons_of_mem _ inRest') x

theorem Reorders.filter_fieldIds (h : Reorders σ φ t t') (formed : t.WellFormed) {s : ScopeId}
    (bound : s < t.scopes.size) (keeps : Field → Bool)
    (same : ∀ f < t.fields.size, keeps (t'.field (φ f)) = keeps (t.field f)) :
    ((t'.scope (σ s)).fieldIds.filter fun f => keeps (t'.field f)).Perm
      (((t.scope s).fieldIds.filter fun f => keeps (t.field f)).map φ) := by
  refine ((h.fieldIds bound).filter _).trans (.of_eq ?_)
  rw [filter_map]
  refine congrArg _ (filter_congr fun f mem => ?_)
  exact same f (formed.mem_fieldIds.mp mem).1

/-- What a scope gives away depends on the names from further out, and on those in it that do not
change. -/
theorem Reorders.agree_crunchScope (h : Reorders σ φ t t') (settings : Settings) (formed : t.WellFormed)
    (formed' : t'.WellFormed) (outer : t.VerbotenOuter) {s : ScopeId} (bound : s < t.scopes.size)
    (around : ∀ f < t.fields.size, Within t s (t.field f).scope →
      (t.GetsName settings f → (t.field f).scope ≠ s) → Agree φ t t' f)
    {g : FieldId} (inside : g < t.fields.size) (isHere : (t.field g).scope = s) :
    Agree φ (t.crunchScope settings t.aliasPairs s) (t'.crunchScope settings t'.aliasPairs (σ s)) g := by
  by_cases gets : t.GetsName settings g
  · have notSpared : ¬ ((t.scope s).kind = .global || !(t.scope s).isKnown) = true := by
      obtain ⟨-, -, notGlobal, isKnown⟩ := gets
      rw [isHere] at notGlobal isKnown
      simp [notGlobal, isKnown]
    have candidates := h.filter_fieldIds formed bound (ScopeTree.isCrunchable settings)
      fun f => h.isCrunchable settings
    have fixed := h.filter_fieldIds formed bound (fun f => !ScopeTree.isCrunchable settings f)
      fun f inside => congrArg _ (h.isCrunchable settings inside)
    have place {f : FieldId} (mem : f ∈ ((t.scope s).fieldIds.filter fun f =>
        ScopeTree.isCrunchable settings (t.field f)).mergeSort
          fun f g => namedBefore (t.field f) (t.field g)) := by
      rw [mem_mergeSort, mem_filter] at mem
      exact formed.mem_fieldIds.mp mem.1
    have notSpared' : ¬ ((t'.scope (σ s)).kind = .global || !(t'.scope (σ s)).isKnown) = true := by
      rwa [h.kind bound, h.isKnown bound]
    -- names that do not change are those of the scope itself or come from further out
    have sameName {f : FieldId} (mem : f ∈ (t.scope s).fieldIds)
        (isFixed : ScopeTree.isCrunchable settings (t.field f) = false) :
        t'.displayName (φ f) = t.displayName f := by
      obtain ⟨inside, isScope⟩ := formed.mem_fieldIds.mp mem
      refine h.displayName formed formed' inside
        (around _ (Nat.lt_of_le_of_lt (formed.ultimate_le f) inside) ?_ fun gets isHere => ?_)
      · rw [← isScope]
        exact formed.within_ultimate f
      · have isVariable := formed.isVariable_of_scope_eq (isHere.trans isScope.symm)
        rw [ultimate_of_variable isVariable] at gets
        rw [gets.2.1] at isFixed
        cases isFixed
    have sameName' {f : FieldId} (mem : f ∈ (t.scope s).verboten) :
        t'.displayName (φ f) = t.displayName f := by
      obtain ⟨inside, isVariable, within, lower⟩ := outer s f mem
      refine h.displayName formed formed' inside ?_
      rw [ultimate_of_variable isVariable]
      exact around f inside within fun _ => Nat.ne_of_lt lower
    simp only [ScopeTree.crunchScope, if_neg notSpared, if_neg notSpared', partition_eq_filter_filter]
    rw [h.mergeSort_eq formed candidates (filter_subset_self _)]
    refine agree_giveNames settings ?_ (fun f mem => ?_) (fun name => ?_) (fun f mem name => ?_) g ?_
    · exact (mergeSort_perm _ _).nodup_iff.mpr ((formed.fieldIds_nodup s).filter _)
    · have inside := (place mem).1
      exact ⟨inside, (h.field_lt f).mpr inside⟩
    · simp only [mem_map, mem_append]
      constructor
      · rintro ⟨f', mem | mem, rfl⟩
        · obtain ⟨f, isFixed, rfl⟩ := mem_map.mp (fixed.mem_iff.mp mem)
          obtain ⟨isField, notCrunchable⟩ := mem_filter.mp isFixed
          exact ⟨f, .inl isFixed, (sameName isField (by simpa using notCrunchable)).symm⟩
        · obtain ⟨f, rfl⟩ := φ.surjective f'
          have isVerboten := (h.verboten s bound f).mp mem
          exact ⟨f, .inr isVerboten, (sameName' isVerboten).symm⟩
      · rintro ⟨f, mem | mem, rfl⟩
        · obtain ⟨isField, notCrunchable⟩ := mem_filter.mp mem
          exact ⟨φ f, .inl (fixed.mem_iff.mpr (mem_map_of_mem mem)),
            sameName isField (by simpa using notCrunchable)⟩
        · exact ⟨φ f, .inr ((h.verboten s bound f).mpr mem), sameName' mem⟩
    · exact h.shadowingNames settings formed formed' (place mem).1 name
    · rw [mem_mergeSort, mem_filter, formed.mem_fieldIds]
      exact ⟨⟨inside, isHere⟩, gets.2.1⟩
  · have others := (crunchScope_spec settings t.aliasPairs formed s).2.1 g fun gets' => absurd gets' gets
    have others' := (crunchScope_spec settings t'.aliasPairs formed' (σ s)).2.1 (φ g) fun gets' =>
      absurd ((h.getsName_iff settings formed inside).mp gets') gets
    rw [Agree, others, others']
    exact around g inside (isHere ▸ .refl _) fun gets' => absurd gets' gets

/-! ## All scopes -/

theorem Renames.aliasPairs_eq (renames : Renames t t') : t'.aliasPairs = t.aliasPairs := by
  have same := renames.sameShape
  simp only [aliasPairs, ScopeTree.fieldIds, renames.fields_size, Field.isAlias, same.outer, same.ultimate]

/-- The names of a scope are those that it would give away now. -/
def NamesSettled (settings : Settings) (t : ScopeTree) (s : ScopeId) : Prop :=
  ∀ g < t.fields.size, (t.field g).scope = s →
    ((t.crunchScope settings t.aliasPairs s).field g).crunchedName = (t.field g).crunchedName

/-- What a scope would give away does not change with names that it does not see. -/
theorem Renames.crunchScope_eq (renames : Renames t t') {settings : Settings} {s : ScopeId}
    (formed : t.WellFormed) (outer : t.VerbotenOuter) (bound : s < t.scopes.size)
    (around : ∀ f < t.fields.size, Within t s (t.field f).scope →
      (t.GetsName settings f → (t.field f).scope ≠ s) → (t'.field f).crunchedName = (t.field f).crunchedName)
    {g : FieldId} (inside : g < t.fields.size) (isHere : (t.field g).scope = s) :
    ((t'.crunchScope settings t'.aliasPairs s).field g).crunchedName =
      ((t.crunchScope settings t.aliasPairs s).field g).crunchedName := by
  have h : Reorders (.refl _) (.refl _) t t' := (Reorders.refl t).of_renames (.refl t) renames
  exact h.agree_crunchScope settings formed (renames.sameShape.wellFormed formed) outer bound around
    inside isHere

/-- How far the choice of names has come: the names of the scopes that had their turn are settled. -/
structure Settling (settings : Settings) (start t : ScopeTree) (turns : List ScopeId) : Prop where
  renames : Renames start t
  settled : ∀ s ∈ turns, t.NamesSettled settings s
  waiting : ∀ g, ¬ start.GetsName settings g → (t.field g).crunchedName = (start.field g).crunchedName

theorem Settling.crunchScope {settings : Settings} {start : ScopeTree} {turns : List ScopeId}
    {x : ScopeId} (formed : start.WellFormed) (outer : start.VerbotenOuter)
    (settling : Settling settings start t turns) (bound : ∀ s ∈ turns ++ [x], s < start.scopes.size)
    (later : ∀ y ∈ turns, ¬ Within start y x) :
    Settling settings start (t.crunchScope settings start.aliasPairs x) (turns ++ [x]) := by
  have same := settling.renames.sameShape
  have formed := same.wellFormed formed
  have outer := same.verbotenOuter (fun s => by rw [settling.renames.scope_eq]) outer
  rw [← settling.renames.aliasPairs_eq]
  obtain ⟨renames, others, -⟩ := crunchScope_spec settings t.aliasPairs formed x
  refine ⟨settling.renames.trans renames, fun s mem g inside isHere => ?_, fun g spared => ?_⟩
  · rw [renames.fields_size] at inside
    rw [renames.sameShape.scope] at isHere
    have valid : s < t.scopes.size := same.scopes_size ▸ bound s mem
    rcases mem_append.mp mem with old | new
    · -- a scope that had its turn is not inside this one, so it sees no name that changes
      have elsewhere {y : ScopeId} (within : Within t s y) : y ≠ x := fun isTurn =>
        later s old (isTurn ▸ same.within_iff.mp within)
      rw [renames.crunchScope_eq formed outer valid
        (fun f _ within _ => others f fun _ => elsewhere within) inside isHere,
        settling.settled s old g inside isHere]
      exact (others g fun _ => isHere ▸ elsewhere (.refl s)).symm
    · obtain rfl := mem_singleton.mp new
      exact renames.crunchScope_eq formed outer valid (fun f _ _ spared => others f spared) inside isHere
  · rw [others g fun gets => absurd ((settling.renames.getsName_iff settings g).mp gets) spared]
    exact settling.waiting g spared

/-- After all turns, the names of every scope are those that it would give away once more. -/
theorem crunchScope_settled (formed : t.WellFormed) (outer : t.VerbotenOuter) :
    Settling settings t (t.topDown.foldl (ScopeTree.crunchScope settings t.aliasPairs) t) t.topDown := by
  have ordered : t.topDown.Pairwise fun a b => ¬ Within t a b :=
    pairwise_subtreeFrom formed.parentsFirst formed.childrenAgree formed.childrenDistinct _ _
  have valid : ∀ s ∈ t.topDown, s < t.scopes.size := fun s mem =>
    ((mem_subtree_iff formed.parentsFirst formed.childrenAgree formed.nonempty).mp mem).lt_size formed.nonempty
  have run : ∀ (turns rest : List ScopeId) (now : ScopeTree),
      (turns ++ rest).Pairwise (fun a b => ¬ Within t a b) → (∀ s ∈ turns ++ rest, s < t.scopes.size) →
      Settling settings t now turns →
      Settling settings t (rest.foldl (ScopeTree.crunchScope settings t.aliasPairs) now) (turns ++ rest) := by
    intro turns rest
    induction rest generalizing turns with
    | nil => simp
    | cons x rest ih =>
      intro now ordered valid settling
      have later : ∀ y ∈ turns, ¬ Within t y x := fun y mem =>
        (pairwise_append.mp ordered).2.2 y mem x mem_cons_self
      rw [append_cons] at ordered valid ⊢
      exact ih _ _ ordered valid (settling.crunchScope formed outer
        (fun s mem => valid s (mem_append_left _ mem)) later)
  exact run [] t.topDown t ordered valid ⟨.refl t, fun _ mem => (nomatch mem), fun _ _ => rfl⟩

/-- Settled names are the same in two trees, from the outside inwards. -/
theorem Reorders.agree_of_settled (h : Reorders σ φ t t') (settings : Settings) (formed : t.WellFormed)
    (formed' : t'.WellFormed) (outer : t.VerbotenOuter)
    (settled : ∀ s < t.scopes.size, t.NamesSettled settings s)
    (settled' : ∀ s < t'.scopes.size, t'.NamesSettled settings s)
    (waiting : ∀ f < t.fields.size, ¬ t.GetsName settings f → Agree φ t t' f) :
    ∀ f < t.fields.size, Agree φ t t' f := by
  suffices scopes : ∀ s, ∀ f < t.fields.size, (t.field f).scope = s → Agree φ t t' f from
    fun f inside => scopes _ f inside rfl
  intro s
  induction s using Nat.strongRecOn with
  | ind s ih =>
    rintro f inside isHere
    have bound : s < t.scopes.size := isHere ▸ formed.scope_lt f inside
    have again := h.agree_crunchScope settings formed formed' outer bound
      (fun g isField within spared => by
        by_cases gets : t.GetsName settings g
        · exact ih _ (Nat.lt_of_le_of_ne (within.le formed.parentsFirst) (spared gets)) g isField rfl
        · exact waiting g isField gets) inside isHere
    have own := settled s bound f inside isHere
    have own' := settled' (σ s) ((h.scope_lt s).mpr bound) (φ f) ((h.field_lt f).mpr inside)
      ((h.scopeOf inside).trans (congrArg σ isHere))
    exact own'.symm.trans (again.trans own)

/-- Corresponding fields of two trees that differ in order get the same short names. -/
theorem crunch_reorders (settings : Settings) {σ : ScopeId ≃ ScopeId} {φ : FieldId ≃ FieldId}
    {t t' : ScopeTree} (formed : t.WellFormed) (formed' : t'.WellFormed) (outer : t.VerbotenOuter)
    (outer' : t'.VerbotenOuter) (phase : t.phase = .literalsShortcut) (phase' : t'.phase = .literalsShortcut)
    (reorders : Reorders σ φ t t')
    (named : ∀ f < t.fields.size, (t'.field (φ f)).crunchedName = (t.field f).crunchedName) :
    ∃ short short', t.crunch settings = .ok short ∧ t'.crunch settings = .ok short' ∧
      Reorders σ φ short short' ∧ ∀ f < short.fields.size,
        (short'.field (φ f)).crunchedName = (short.field f).crunchedName := by
  let start : ScopeTree := { t with phase := .renamed }
  let start' : ScopeTree := { t' with phase := .renamed }
  have advanced : t.advance .literalsShortcut .renamed = .ok start := if_pos phase
  have advanced' : t'.advance .literalsShortcut .renamed = .ok start' := if_pos phase'
  have same : SameShape t start := sameShape_withPhase _ _
  have same' : SameShape t' start' := sameShape_withPhase _ _
  have reorders : Reorders σ φ start start' := { reorders with }
  simp only [crunch, advanced, advanced', bind, Except.bind]
  split
  · exact ⟨start, start', rfl, rfl, reorders, named⟩
  · have formed := same.wellFormed formed
    have formed' := same'.wellFormed formed'
    have outer : start.VerbotenOuter := same.verbotenOuter (fun _ => rfl) outer
    have settling := crunchScope_settled settings formed outer
    have settling' := crunchScope_settled settings formed'
      (same'.verbotenOuter (fun _ => rfl) outer')
    refine ⟨_, _, rfl, rfl, reorders.of_renames settling.renames settling'.renames, ?_⟩
    have shape := settling.renames.sameShape
    have shape' := settling'.renames.sameShape
    refine (reorders.of_renames settling.renames settling'.renames).agree_of_settled settings
      (shape.wellFormed formed) (shape'.wellFormed formed')
      (shape.verbotenOuter (fun s => by rw [settling.renames.scope_eq]) outer) (fun s bound => ?_)
      (fun s bound => ?_) (fun f inside spared => ?_)
    · exact settling.settled s (mem_topDown formed (shape.scopes_size ▸ bound))
    · exact settling'.settled s (mem_topDown formed' (shape'.scopes_size ▸ bound))
    · rw [shape.fields_size] at inside
      rw [settling.renames.getsName_iff] at spared
      rw [Agree, settling.waiting f spared, settling'.waiting (φ f)
        (mt (reorders.getsName_iff settings formed inside).mp spared)]
      exact named f inside

/-- A function with two functions inside. -/
def twoInside : ScopeTree :=
  let t := (empty.createScope .function global .synthetic).2
  let t := ((t.createScope .function 1 .synthetic).2.createScope .function 1 .synthetic).2
  { t with phase := .literalsShortcut }

theorem wellFormed_twoInside : twoInside.WellFormed := by
  have outside := wellFormed_empty.createScope (by decide : global < _) (by decide : .function ≠ _) .synthetic
  have first := outside.createScope (by decide : 1 < _) (by decide : .function ≠ _) .synthetic
  have second := first.createScope (by decide : 1 < _) (by decide : .function ≠ _) .synthetic
  exact (sameShape_withPhase _ _).wellFormed second

/-- Fields that come in some order, with the name behind an alias left alone. -/
def withFields (fields : List Field) (alias_ : FieldId) : ScopeTree :=
  (fields.foldl (fun t field => (t.addField field).2) twoInside).reserveAlias alias_

def sampleField (name : String) (scope : ScopeId) (outer : Option FieldId) : Field :=
  { name, kind := .declared, scope, outer, refs := 1, canCrunch := outer.isNone, span := .synthetic }

/-- Two variables, one of which a function inside mentions, and a variable of the other function. -/
def sample : ScopeTree :=
  withFields [sampleField "value" 1 none, sampleField "other" 1 none, sampleField "value" 2 (some 0),
    sampleField "x" 3 none] 2

/-- The same in another order. -/
def sample' : ScopeTree :=
  withFields [sampleField "other" 1 none, sampleField "value" 1 none, sampleField "x" 2 none,
    sampleField "value" 3 (some 1)] 3

theorem swap_lt {a b n : Nat} (left : a < n) (right : b < n) (k : Nat) : Equiv.swap a b k < n ↔ k < n := by
  rw [Equiv.swap_apply_def]
  split
  · omega
  · split <;> omega

theorem reorders_sample :
    Reorders (Equiv.swap 2 3) ((Equiv.swap 0 1).trans (Equiv.swap 2 3)) sample sample' where
  scope_lt s := swap_lt (n := 4) (by decide) (by decide) s
  field_lt f := (swap_lt (n := 4) (by decide) (by decide) _).trans (swap_lt (by decide) (by decide) f)
  scope := by decide +kernel
  children := by decide +kernel
  table := by decide +kernel
  verboten s bound f := by
    have lower : s < 4 := bound
    obtain rfl | others : s = 2 ∨ s = 0 ∨ s = 1 ∨ s = 3 := by omega
    · have lists : (sample'.scope (Equiv.swap 2 3 2)).verboten = [1] ∧ (sample.scope 2).verboten = [0] := by
        decide +kernel
      rw [lists.1, lists.2, mem_singleton, mem_singleton, ← Equiv.eq_symm_apply]
      rfl
    · obtain rfl | rfl | rfl := others <;> exact ⟨fun mem => (nomatch mem), fun mem => (nomatch mem)⟩
  field := by decide +kernel

theorem wellFormed_sample : sample.WellFormed := by
  refine (reserves_reserveAlias _ _).toSameShape.wellFormed (WellFormed.addField (WellFormed.addField
    (WellFormed.addField (WellFormed.addField wellFormed_twoInside ?_) ?_) ?_) ?_)
  · exact ⟨by decide, by decide, fun _ isOuter => nomatch isOuter⟩
  · exact ⟨by decide, by decide, fun _ isOuter => nomatch isOuter⟩
  · refine ⟨by decide, by decide, ?_⟩
    rintro _ ⟨⟩
    exact ⟨by decide, by decide, .step rfl (.refl 1), by decide⟩
  · exact ⟨by decide, by decide, fun _ isOuter => nomatch isOuter⟩

theorem wellFormed_sample' : sample'.WellFormed := by
  refine (reserves_reserveAlias _ _).toSameShape.wellFormed (WellFormed.addField (WellFormed.addField
    (WellFormed.addField (WellFormed.addField wellFormed_twoInside ?_) ?_) ?_) ?_)
  · exact ⟨by decide, by decide, fun _ isOuter => nomatch isOuter⟩
  · exact ⟨by decide, by decide, fun _ isOuter => nomatch isOuter⟩
  · exact ⟨by decide, by decide, fun _ isOuter => nomatch isOuter⟩
  · refine ⟨by decide, by decide, ?_⟩
    rintro _ ⟨⟩
    exact ⟨by decide, by decide, .step rfl (.refl 1), by decide⟩

/-- Variables of one function and functions inside it in two orders. -/
theorem crunch_reorders_sample : ∃ short short', sample.crunch {} = .ok short ∧
    sample'.crunch {} = .ok short' ∧
      Reorders (Equiv.swap 2 3) ((Equiv.swap 0 1).trans (Equiv.swap 2 3)) short short' ∧
      ∀ f < short.fields.size, (short'.field ((Equiv.swap 0 1).trans (Equiv.swap 2 3) f)).crunchedName =
        (short.field f).crunchedName := by
  have outer : sample.VerbotenOuter := by
    intro s u mem
    rcases s with _ | _ | _ | _ | s
    case succ.succ.zero =>
      obtain rfl := mem_singleton.mp mem
      exact ⟨by decide, by decide, .step rfl (.refl 1), by decide⟩
    all_goals cases mem
  have outer' : sample'.VerbotenOuter := by
    intro s u mem
    rcases s with _ | _ | _ | _ | s
    case succ.succ.succ.zero =>
      obtain rfl := mem_singleton.mp mem
      exact ⟨by decide, by decide, .step rfl (.refl 1), by decide⟩
    all_goals cases mem
  exact crunch_reorders {} wellFormed_sample wellFormed_sample' outer outer' rfl rfl reorders_sample
    (by decide +kernel)

end Minifier.ScopeTree
