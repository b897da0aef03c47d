import Mathlib.Data.List.Nodup
import Minifier.Proofs.Scope.Within

/-!
# Well-formed trees of scopes

A tree of scopes is well-formed if its two lists agree with each other: scopes and the scopes around
them, tables and the fields in them, aliases and what they stand for. Making a scope or a field keeps
a tree well-formed (`createScope`, `addField`), and so does every change that leaves these parts
alone, which is all that is done to a tree otherwise (`SameShape`).
-/

set_option autoImplicit false

namespace Minifier.ScopeTree

open List

variable {t t' t'' : ScopeTree} {field : Field} (f : Field → Field) (s parent : ScopeId)
  (kind : ScopeKind) (id : FieldId) (span : Span) (g : FieldId)

/-- The two lists of a tree agree with each other. -/
structure WellFormed (t : ScopeTree) : Prop where
  nonempty : 0 < t.scopes.size
  parentsFirst : t.ParentsFirst
  /-- Only the global scope has no scope around it. -/
  rooted : ∀ s < t.scopes.size, (t.scope s).parent = none → s = global
  isGlobal_iff : ∀ s < t.scopes.size, (t.scope s).kind = .global ↔ s = global
  childrenAgree : t.ChildrenAgree
  childrenDistinct : ∀ s, (t.scope s).children.Nodup
  /-- A field stands in the table of its scope under its name, and nowhere else. -/
  mem_table : ∀ s name f, (name, f) ∈ (t.scope s).table ↔
    f < t.fields.size ∧ (t.field f).scope = s ∧ (t.field f).name = name
  namesDistinct : ∀ s, ((t.scope s).table.map (·.1)).Nodup
  scope_lt : ∀ f < t.fields.size, (t.field f).scope < t.scopes.size
  outersFirst : t.OutersFirst
  outer_name : ∀ f outer, (t.field f).outer = some outer → (t.field outer).name = (t.field f).name
  /-- An alias stands for a field of a scope further out. -/
  outer_within : ∀ f outer, (t.field f).outer = some outer →
    Within t (t.field f).scope (t.field outer).scope ∧ (t.field outer).scope < (t.field f).scope

/-! ## Reading what was written -/

section Reading

variable (t)

/-- Only the scope that is changed reads differently. -/
theorem scope_modifyScope (id s : ScopeId) (f : Scope → Scope) : (t.modifyScope id f).scope s =
      if id = s ∧ s < t.scopes.size then f (t.scope s) else t.scope s := by
  simp only [scope, modifyScope, Array.getElem?_modify]
  by_cases same : id = s
  · by_cases bound : s < t.scopes.size
    · simp [same, bound]
    · simp [same, bound]
  · simp [same]

/-- Only the field that is changed reads differently. -/
theorem field_modifyField : (t.modifyField id f).field g =
      if id = g ∧ g < t.fields.size then f (t.field g) else t.field g := by
  simp only [field, modifyField, Array.getElem?_modify]
  by_cases same : id = g
  · by_cases bound : g < t.fields.size
    · simp [same, bound]
    · simp [same, bound]
  · simp [same]

@[simp] theorem field_modifyScope (id : ScopeId) (f : Scope → Scope) :
    (t.modifyScope id f).field g = t.field g := rfl

@[simp] theorem scope_modifyField : (t.modifyField id f).scope s = t.scope s := rfl

@[simp] theorem scopes_size_modifyScope (id : ScopeId) (f : Scope → Scope) :
    (t.modifyScope id f).scopes.size = t.scopes.size := by
  simp [modifyScope]

@[simp] theorem fields_size_modifyField : (t.modifyField id f).fields.size = t.fields.size := by
  simp [modifyField]

@[simp] theorem fields_modifyScope (id : ScopeId) (f : Scope → Scope) :
    (t.modifyScope id f).fields = t.fields := rfl

@[simp] theorem scopes_modifyField : (t.modifyField id f).scopes = t.scopes := rfl

end Reading

/-- A number out of range reads as a default. -/
theorem field_of_size_le {f : FieldId} (out : t.fields.size ≤ f) : t.field f = default := by
  unfold field
  rw [Array.getElem?_eq_none out]
  rfl

/-! ## Changes that keep the shape -/

/-- Two trees have the same scopes inside each other and the same fields in them. -/
structure SameShape (t t' : ScopeTree) : Prop where
  scopes_size : t'.scopes.size = t.scopes.size
  fields_size : t'.fields.size = t.fields.size
  parent : ∀ s, (t'.scope s).parent = (t.scope s).parent
  children : ∀ s, (t'.scope s).children = (t.scope s).children
  table : ∀ s, (t'.scope s).table = (t.scope s).table
  kind : ∀ s, (t'.scope s).kind = (t.scope s).kind
  name : ∀ f, (t'.field f).name = (t.field f).name
  scope : ∀ f, (t'.field f).scope = (t.field f).scope
  outer : ∀ f, (t'.field f).outer = (t.field f).outer

namespace SameShape

@[refl] theorem refl (t : ScopeTree) : SameShape t t :=
  ⟨rfl, rfl, fun _ => rfl, fun _ => rfl, fun _ => rfl, fun _ => rfl, fun _ => rfl, fun _ => rfl,
    fun _ => rfl⟩

theorem symm (same : SameShape t t') : SameShape t' t where
  scopes_size := same.scopes_size.symm
  fields_size := same.fields_size.symm
  parent s := (same.parent s).symm
  children s := (same.children s).symm
  table s := (same.table s).symm
  kind s := (same.kind s).symm
  name f := (same.name f).symm
  scope f := (same.scope f).symm
  outer f := (same.outer f).symm

theorem trans (first : SameShape t t') (second : SameShape t' t'') : SameShape t t'' where
  scopes_size := second.scopes_size.trans first.scopes_size
  fields_size := second.fields_size.trans first.fields_size
  parent s := (second.parent s).trans (first.parent s)
  children s := (second.children s).trans (first.children s)
  table s := (second.table s).trans (first.table s)
  kind s := (second.kind s).trans (first.kind s)
  name f := (second.name f).trans (first.name f)
  scope f := (second.scope f).trans (first.scope f)
  outer f := (second.outer f).trans (first.outer f)

variable (same : SameShape t t')
include same

/-- Scopes stay inside each other. -/
theorem within {a b : ScopeId} (inside : Within t a b) : Within t' a b := by
  induction inside with
  | refl => exact .refl _
  | step isParent _ ih => exact .step ((same.parent _).trans isParent) ih

theorem within_iff {a b : ScopeId} : Within t' a b ↔ Within t a b :=
  ⟨same.symm.within, same.within⟩

/-- The scopes around a scope are the same. -/
theorem chain (s : ScopeId) : t'.chain s = t.chain s := by
  have step : ∀ fuel s, t'.chainFrom fuel s = t.chainFrom fuel s := by
    intro fuel
    induction fuel with
    | zero => intro s; rfl
    | succ fuel ih =>
      intro s
      simp only [chainFrom, same.parent s, ih]
  exact step (s + 1) s

theorem chainUpTo (s stop : ScopeId) : t'.chainUpTo s stop = t.chainUpTo s stop := by
  rw [ScopeTree.chainUpTo, same.chain, ScopeTree.chainUpTo]

/-- Aliases lead to the same fields. -/
theorem outwards (f : FieldId) : t'.outwards f = t.outwards f := by
  have step : ∀ fuel f, t'.outwardsFrom fuel f = t.outwardsFrom fuel f := by
    intro fuel
    induction fuel with
    | zero => intro f; rfl
    | succ fuel ih =>
      intro f
      simp only [outwardsFrom, same.outer f, ih]
  exact step (f + 1) f

/-- They stand for the same variables. -/
theorem ultimate (f : FieldId) : t'.ultimate f = t.ultimate f := by
  rw [ScopeTree.ultimate, same.outwards, ScopeTree.ultimate]

theorem isAlias (f : FieldId) : (t'.field f).isAlias = (t.field f).isAlias := by
  rw [Field.isAlias, same.outer, Field.isAlias]

/-- Tables have the same fields. -/
theorem lookup (s : ScopeId) (name : String) :
    (t'.scope s).lookup name = (t.scope s).lookup name := by
  rw [Scope.lookup, same.table, Scope.lookup]

/-- A name is found in the same place. -/
theorem findVisible (s : ScopeId) (name : String) :
    t'.findVisible s name = t.findVisible s name := by
  simp only [ScopeTree.findVisible, same.chain, same.lookup]

/-- A tree of the same shape is as well-formed. -/
theorem wellFormed (formed : t.WellFormed) : t'.WellFormed where
  nonempty := same.scopes_size ▸ formed.nonempty
  parentsFirst s parent isParent := formed.parentsFirst s parent (same.parent s ▸ isParent)
  rooted s bound top := formed.rooted s (same.scopes_size ▸ bound) (same.parent s ▸ top)
  isGlobal_iff s bound := by
    rw [same.kind]
    exact formed.isGlobal_iff s (same.scopes_size ▸ bound)
  childrenAgree s child := by
    rw [same.children, same.parent]
    exact formed.childrenAgree s child
  childrenDistinct s := same.children s ▸ formed.childrenDistinct s
  mem_table s name f := by
    rw [same.table, same.fields_size, same.scope, same.name]
    exact formed.mem_table s name f
  namesDistinct s := same.table s ▸ formed.namesDistinct s
  scope_lt f bound := by
    rw [same.scope, same.scopes_size]
    exact formed.scope_lt f (same.fields_size ▸ bound)
  outersFirst f outer isOuter := formed.outersFirst f outer (same.outer f ▸ isOuter)
  outer_name f outer isOuter := by
    rw [same.name, same.name]
    exact formed.outer_name f outer (same.outer f ▸ isOuter)
  outer_within f outer isOuter := by
    rw [same.scope, same.scope, same.within_iff]
    exact formed.outer_within f outer (same.outer f ▸ isOuter)

end SameShape

/-- A change to a scope that leaves its place and its table alone. -/
theorem sameShape_modifyScope (t : ScopeTree) (id : ScopeId) (f : Scope → Scope)
    (keeps : ∀ s, (f s).parent = s.parent ∧ (f s).children = s.children ∧ (f s).table = s.table ∧
      (f s).kind = s.kind) : SameShape t (t.modifyScope id f) := by
  refine ⟨by simp, rfl, ?_, ?_, ?_, ?_, fun _ => rfl, fun _ => rfl, fun _ => rfl⟩ <;> intro s <;> rw [scope_modifyScope] <;> split <;> simp [keeps]

/-- A change to a field that leaves its name and its place alone. -/
theorem sameShape_modifyField (t : ScopeTree) (id : FieldId) (f : Field → Field)
    (keeps : ∀ g, (f g).name = g.name ∧ (f g).scope = g.scope ∧ (f g).outer = g.outer) :
    SameShape t (t.modifyField id f) := by
  refine ⟨rfl, by simp, fun _ => rfl, fun _ => rfl, fun _ => rfl, fun _ => rfl, ?_, ?_, ?_⟩ <;>
    intro g <;> rw [field_modifyField] <;> split <;> simp [keeps]

/-- The phase is no part of the shape. -/
theorem sameShape_withPhase (t : ScopeTree) (phase : Phase) : SameShape t { t with phase } :=
  ⟨rfl, rfl, fun _ => rfl, fun _ => rfl, fun _ => rfl, fun _ => rfl, fun _ => rfl, fun _ => rfl,
    fun _ => rfl⟩

/-! ## What follows for tables -/

namespace WellFormed

variable {name : String}

variable (formed : t.WellFormed)
include formed

/-- Every scope is inside the global one. -/
theorem within_global {s : ScopeId} (bound : s < t.scopes.size) : Within t s global := by
  induction s using chain_induction formed.parentsFirst with
  | top s isTop => exact formed.rooted s bound isTop ▸ .refl _
  | inner s parent isParent ih =>
    have lower := formed.parentsFirst s parent isParent
    exact .step isParent (ih (Nat.lt_trans lower bound))

theorem isFunctionLevel_global : (t.scope global).isFunctionLevel = true := by
  simp [Scope.isFunctionLevel, (formed.isGlobal_iff global formed.nonempty).mpr rfl]

/-- The fields of a scope are those that name it as theirs. -/
theorem mem_fieldIds {s : ScopeId} {f : FieldId} :
    f ∈ (t.scope s).fieldIds ↔ f < t.fields.size ∧ (t.field f).scope = s := by
  simp only [Scope.fieldIds, mem_map, Prod.exists, exists_eq_right]
  constructor
  · rintro ⟨name, mem⟩
    have known := (formed.mem_table s name f).mp mem
    exact ⟨known.1, known.2.1⟩
  · rintro ⟨bound, isScope⟩
    exact ⟨(t.field f).name, (formed.mem_table s _ f).mpr ⟨bound, isScope, rfl⟩⟩

/-- A scope has at most one field of a name. -/
theorem eq_of_name_eq {f g : FieldId} (bound : f < t.fields.size) (bound' : g < t.fields.size)
    (scope : (t.field f).scope = (t.field g).scope) (name : (t.field f).name = (t.field g).name) :
    f = g := by
  have first := (formed.mem_table _ _ f).mpr ⟨bound, scope, name⟩
  have second := (formed.mem_table _ _ g).mpr ⟨bound', rfl, rfl⟩
  have same := inj_on_of_nodup_map (formed.namesDistinct _) first second rfl
  exact congrArg Prod.snd same

/-- A name is found if a field of the scope has it. -/
theorem lookup_eq_some {s : ScopeId} {f : FieldId} : (t.scope s).lookup name = some f ↔
      f < t.fields.size ∧ (t.field f).scope = s ∧ (t.field f).name = name := by
  rw [← formed.mem_table s name f, Scope.lookup, lookup_eq_some_iff]
  constructor
  · rintro ⟨before, after, whole, _⟩
    rw [whole]
    exact mem_append_right _ mem_cons_self
  · intro mem
    obtain ⟨before, after, whole⟩ := append_of_mem mem
    refine ⟨before, after, whole, fun p inBefore => ?_⟩
    have distinct := formed.namesDistinct s
    rw [whole, map_append, nodup_append] at distinct
    have ne := distinct.2.2 p.1 (mem_map.mpr ⟨p, inBefore, rfl⟩) name (by simp)
    simpa using ne.symm

/-- It is not found if none has. -/
theorem lookup_eq_none {s : ScopeId} : (t.scope s).lookup name = none ↔
      ∀ f < t.fields.size, (t.field f).scope = s → (t.field f).name ≠ name := by
  rw [Option.eq_none_iff_forall_ne_some]
  refine forall_congr' fun f => ?_
  rw [Ne, formed.lookup_eq_some]
  tauto

/-- A scope has each of its fields once. -/
theorem fieldIds_nodup (s : ScopeId) : (t.scope s).fieldIds.Nodup := by
  have distinct := pairwise_map.mp (formed.namesDistinct s)
  refine pairwise_map.mpr (distinct.imp_of_mem fun {p q} inP inQ ne same => ne ?_)
  have first := (formed.mem_table s p.1 p.2).mp inP
  have second := (formed.mem_table s q.1 q.2).mp inQ
  rw [← first.2.2, ← second.2.2, same]

/-- An alias has the name of its variable. -/
theorem ultimate_name (f : FieldId) : (t.field (t.ultimate f)).name = (t.field f).name := by
  induction f using alias_induction formed.outersFirst with
  | isVariable f found => rw [ultimate_of_variable found]
  | isAlias f outer found ih =>
    rw [ultimate_of_alias formed.outersFirst found, ih, formed.outer_name f outer found]

/-- A variable is older than its aliases. -/
theorem ultimate_le (f : FieldId) : t.ultimate f ≤ f := by
  induction f using alias_induction formed.outersFirst with
  | isVariable f found => exact Nat.le_of_eq (ultimate_of_variable found)
  | isAlias f outer found ih =>
    rw [ultimate_of_alias formed.outersFirst found]
    exact Nat.le_trans ih (Nat.le_of_lt (formed.outersFirst f outer found))

/-- The scope of a variable is around the scopes of its aliases. -/
theorem within_ultimate (f : FieldId) :
    Within t (t.field f).scope (t.field (t.ultimate f)).scope := by
  induction f using alias_induction formed.outersFirst with
  | isVariable f found => rw [ultimate_of_variable found]; exact .refl _
  | isAlias f outer found ih =>
    rw [ultimate_of_alias formed.outersFirst found]
    exact (formed.outer_within f outer found).1.trans ih

/-- An alias stands in another scope than its variable. -/
theorem ultimate_scope_lt {f outer : FieldId} (isAlias : (t.field f).outer = some outer) :
    (t.field (t.ultimate f)).scope < (t.field f).scope := by
  rw [ultimate_of_alias formed.outersFirst isAlias]
  exact Nat.lt_of_le_of_lt ((formed.within_ultimate outer).le formed.parentsFirst)
    (formed.outer_within f outer isAlias).2

/-- A field in the scope of its variable is that variable. -/
theorem isVariable_of_scope_eq {f : FieldId}
    (same : (t.field (t.ultimate f)).scope = (t.field f).scope) : (t.field f).outer = none := by
  cases found : (t.field f).outer with
  | none => rfl
  | some outer => exact absurd same (Nat.ne_of_lt (formed.ultimate_scope_lt found))

end WellFormed

/-! ## Making scopes and fields -/

theorem scope_empty : empty.scope s = default := by
  by_cases isGlobal : s = 0
  · subst isGlobal
    rfl
  · exact scope_of_size_le (Nat.one_le_iff_ne_zero.mpr isGlobal)

theorem field_empty (f : FieldId) : empty.field f = default := field_of_size_le (Nat.zero_le f)

/-- The global scope alone is well-formed. -/
theorem wellFormed_empty : empty.WellFormed where
  nonempty := Nat.one_pos
  parentsFirst s parent isParent := by rw [scope_empty] at isParent; cases isParent
  rooted s bound _ := Nat.lt_one_iff.mp bound
  isGlobal_iff s bound := by
    rw [scope_empty]
    exact ⟨fun _ => Nat.lt_one_iff.mp bound, fun _ => rfl⟩
  childrenAgree s child := by
    rw [scope_empty, scope_empty]
    exact ⟨fun mem => (nomatch mem), fun isParent => (nomatch isParent)⟩
  childrenDistinct s := by rw [scope_empty]; exact nodup_nil
  mem_table s name f := by
    rw [scope_empty]
    exact ⟨fun mem => (nomatch mem), fun known => absurd known.1 (Nat.not_lt_zero f)⟩
  namesDistinct s := by rw [scope_empty]; exact nodup_nil
  scope_lt f bound := absurd bound (Nat.not_lt_zero f)
  outersFirst f outer isOuter := by rw [field_empty] at isOuter; cases isOuter
  outer_name f outer isOuter := by rw [field_empty] at isOuter; cases isOuter
  outer_within f outer isOuter := by rw [field_empty] at isOuter; cases isOuter

/-- A new scope is the last, and a child of the one around it. -/
theorem scope_createScope (t : ScopeTree) : (t.createScope kind parent span).2.scope s =
      if s = t.scopes.size then { kind, parent := some parent, span }
      else if parent = s ∧ s < t.scopes.size then
        { t.scope s with children := (t.scope s).children ++ [t.scopes.size] }
      else t.scope s := by
  have size : (t.modifyScope parent fun s =>
      { s with children := s.children ++ [t.scopes.size] }).scopes.size = t.scopes.size := by simp
  have read := scope_modifyScope t parent s fun s =>
    { s with children := s.children ++ [t.scopes.size] }
  unfold scope at read ⊢
  simp only [createScope, Array.getElem?_push, size]
  by_cases isNew : s = t.scopes.size
  · simp [isNew]
  · simp only [isNew, if_false]
    exact read

theorem scopes_size_createScope (t : ScopeTree) (kind : ScopeKind) (parent : ScopeId)
    (span : Span) : (t.createScope kind parent span).2.scopes.size = t.scopes.size + 1 := by
  simp [createScope]

theorem fields_createScope (t : ScopeTree) : (t.createScope kind parent span).2.fields = t.fields := rfl

theorem parent_createScope (t : ScopeTree) : ((t.createScope kind parent span).2.scope s).parent =
      if s = t.scopes.size then some parent else (t.scope s).parent := by
  rw [scope_createScope]
  split
  · rfl
  · split <;> rfl

/-- The scopes from before stay inside each other. -/
theorem within_createScope {kind : ScopeKind} {parent : ScopeId} {span : Span} {a b : ScopeId}
    (within : Within t a b) : Within (t.createScope kind parent span).2 a b := by
  induction within with
  | refl => exact .refl _
  | @step s around d isParent _ ih =>
    refine .step ?_ ih
    rw [parent_createScope, if_neg (Nat.ne_of_lt (lt_size_of_parent isParent))]
    exact isParent

/-- A new scope inside another. -/
theorem WellFormed.createScope (formed : t.WellFormed) {kind : ScopeKind} {parent : ScopeId}
    (bound : parent < t.scopes.size) (notGlobal : kind ≠ .global) (span : Span) :
    (t.createScope kind parent span).2.WellFormed := by
  have old {s : ScopeId} (isOld : s < t.scopes.size + 1) (notNew : s ≠ t.scopes.size) :
      s < t.scopes.size := Nat.lt_of_le_of_ne (Nat.le_of_lt_succ isOld) notNew
  have table : ∀ s, ((t.createScope kind parent span).2.scope s).table = (t.scope s).table := by
    intro s
    rw [scope_createScope]
    split
    · rename_i isNew
      rw [isNew, scope_of_size_le (Nat.le_refl _)]
      rfl
    · split <;> rfl
  have children : ∀ s child, child ∈ ((t.createScope kind parent span).2.scope s).children ↔
      child ∈ (t.scope s).children ∨ parent = s ∧ child = t.scopes.size := by
    intro s child
    rw [scope_createScope]
    split
    · rename_i isNew
      have ne : parent ≠ t.scopes.size := Nat.ne_of_lt bound
      rw [isNew, scope_of_size_le (Nat.le_refl _)]
      simp only [ne, false_and, or_false]
      rfl
    · split
      · rename_i isParent
        simp [isParent.1]
      · rename_i notParent
        have : ¬ (parent = s ∧ child = t.scopes.size) := fun both =>
          notParent ⟨both.1, both.1 ▸ bound⟩
        simp [this]
  constructor
  case nonempty => rw [scopes_size_createScope]; exact Nat.succ_pos _
  case parentsFirst =>
    intro s around isParent
    rw [parent_createScope] at isParent
    split at isParent
    · rename_i isNew
      cases isParent
      exact isNew ▸ bound
    · exact formed.parentsFirst s around isParent
  case rooted =>
    intro s isOld top
    rw [scopes_size_createScope] at isOld
    rw [parent_createScope] at top
    split at top
    · cases top
    · exact formed.rooted s (old isOld ‹_›) top
  case isGlobal_iff =>
    intro s isOld
    rw [scopes_size_createScope] at isOld
    rw [scope_createScope]
    split
    · rename_i isNew
      have : s ≠ global := fun same => Nat.lt_irrefl 0 (by
        have := formed.nonempty
        rwa [← isNew, same] at this)
      simp [notGlobal, this]
    · have := formed.isGlobal_iff s (old isOld ‹_›)
      split <;> exact this
  case childrenAgree =>
    intro s child
    rw [children, parent_createScope, formed.childrenAgree s child]
    split
    · rename_i isNew
      rw [isNew, scope_of_size_le (Nat.le_refl _)]
      have : (default : Scope).parent = none := rfl
      simp [this]
    · rename_i isOld
      simp [isOld]
  case childrenDistinct =>
    intro s
    have fresh : t.scopes.size ∉ (t.scope s).children := fun mem =>
      Nat.lt_irrefl _ (lt_size_of_parent ((formed.childrenAgree s _).mp mem))
    rw [scope_createScope]
    split
    · exact nodup_nil
    · split
      · exact nodup_append.mpr ⟨formed.childrenDistinct s, nodup_singleton _, by
          rintro a mem b isNew rfl
          exact fresh (mem_singleton.mp isNew ▸ mem)⟩
      · exact formed.childrenDistinct s
  case mem_table =>
    intro s name f
    rw [table]
    exact formed.mem_table s name f
  case namesDistinct => intro s; rw [table]; exact formed.namesDistinct s
  case scope_lt =>
    intro f isField
    rw [scopes_size_createScope]
    exact Nat.lt_succ_of_lt (formed.scope_lt f isField)
  case outersFirst => exact formed.outersFirst
  case outer_name => exact formed.outer_name
  case outer_within =>
    intro f outer isOuter
    have known := formed.outer_within f outer isOuter
    exact ⟨within_createScope known.1, known.2⟩

section Adding

variable (t) (field)

/-- A new field stands at the end of its table. -/
theorem scope_addField : (t.addField field).2.scope s = if field.scope = s ∧ s < t.scopes.size then
        { t.scope s with table := (t.scope s).table ++ [(field.name, t.fields.size)] }
      else t.scope s :=
  scope_modifyScope t field.scope s _

/-- It is the last of the fields. -/
theorem field_addField (f : FieldId) :
    (t.addField field).2.field f = if f = t.fields.size then field else t.field f := by
  unfold ScopeTree.field
  simp only [addField, Array.getElem?_push, fields_modifyScope]
  split <;> rfl

theorem scopes_size_addField : (t.addField field).2.scopes.size = t.scopes.size := by
  simp [addField]

theorem fields_size_addField : (t.addField field).2.fields.size = t.fields.size + 1 := by
  simp [addField]

theorem field_addField_of_lt {f : FieldId}
    (isOld : f < t.fields.size) : (t.addField field).2.field f = t.field f := by
  rw [field_addField, if_neg (Nat.ne_of_lt isOld)]

/-- A new field does not change where its scope stands. -/
theorem place_addField (s : ScopeId) : ((t.addField field).2.scope s).parent = (t.scope s).parent ∧
      ((t.addField field).2.scope s).children = (t.scope s).children ∧
      ((t.addField field).2.scope s).kind = (t.scope s).kind := by
  rw [scope_addField]
  split <;> exact ⟨rfl, rfl, rfl⟩

end Adding

/-- A new field moves no scope. -/
theorem within_addField {a b : ScopeId} : Within (t.addField field).2 a b ↔ Within t a b := by
  constructor
  · intro within
    induction within with
    | refl => exact .refl _
    | step isParent _ ih => exact .step ((place_addField t field _).1 ▸ isParent) ih
  · intro within
    induction within with
    | refl => exact .refl _
    | step isParent _ ih => exact .step ((place_addField t field _).1 ▸ isParent) ih

/-- A name that is not there yet gets a new field. -/
theorem declare_of_missing {s : ScopeId} {name : String} (missing : (t.scope s).lookup name = none)
    (kind : FieldKind) (span : Span) :
    t.declare s name kind span = t.addField { name, kind, scope := s, span } := by
  rw [declare, missing]

/-- A scope that has the name needs no alias. -/
theorem createAlias_of_found {s : ScopeId} {outer f : FieldId}
    (found : (t.scope s).lookup (t.field outer).name = some f) : t.createAlias s outer = (f, t) := by
  simp only [createAlias, found]

/-- The field of an alias in a scope. -/
def aliasField (t : ScopeTree) (s : ScopeId) (outer : FieldId) : Field :=
  { name := (t.field outer).name, kind := (t.field outer).kind, scope := s,
    span := (t.field outer).span, outer := some outer, canCrunch := false }

/-- One that has not gets it. -/
theorem createAlias_of_missing {s : ScopeId} {outer : FieldId}
    (missing : (t.scope s).lookup (t.field outer).name = none) :
    t.createAlias s outer = t.addField (t.aliasField s outer) := by
  simp only [createAlias, missing, aliasField]

/-- What a new field has to fulfil: its scope does not have the name yet, and if it is an alias then
it stands for a field of that name further out. -/
structure Admits (t : ScopeTree) (field : Field) : Prop where
  scope_lt : field.scope < t.scopes.size
  isNew : (t.scope field.scope).lookup field.name = none
  outer : ∀ outer, field.outer = some outer → outer < t.fields.size ∧
    (t.field outer).name = field.name ∧ Within t field.scope (t.field outer).scope ∧
    (t.field outer).scope < field.scope

/-- A variable that its scope does not declare yet. -/
theorem Admits.variable {s : ScopeId} {name : String} {kind : FieldKind} {span : Span}
    (bound : s < t.scopes.size) (isNew : (t.scope s).lookup name = none) :
    t.Admits { name, kind, scope := s, span } := by
  refine ⟨bound, isNew, fun outer isOuter => ?_⟩
  cases isOuter

/-- A new field in the table of its scope. -/
theorem WellFormed.addField (formed : t.WellFormed) (admits : t.Admits field) :
    (t.addField field).2.WellFormed := by
  have noDefault {f outer : FieldId} (isOuter : (t.field f).outer = some outer) :
      f < t.fields.size := by
    apply Nat.lt_of_not_le
    intro out
    rw [field_of_size_le out] at isOuter
    cases isOuter
  constructor
  case nonempty => rw [scopes_size_addField]; exact formed.nonempty
  case parentsFirst =>
    intro s parent isParent
    exact formed.parentsFirst s parent ((place_addField t field s).1 ▸ isParent)
  case rooted =>
    intro s bound top
    rw [scopes_size_addField] at bound
    exact formed.rooted s bound ((place_addField t field s).1 ▸ top)
  case isGlobal_iff =>
    intro s bound
    rw [scopes_size_addField] at bound
    rw [(place_addField t field s).2.2]
    exact formed.isGlobal_iff s bound
  case childrenAgree =>
    intro s child
    rw [(place_addField t field s).2.1, (place_addField t field child).1]
    exact formed.childrenAgree s child
  case childrenDistinct =>
    intro s
    rw [(place_addField t field s).2.1]
    exact formed.childrenDistinct s
  case mem_table =>
    intro s name f
    have old := formed.mem_table s name f
    rw [fields_size_addField, field_addField, scope_addField]
    by_cases isNew : f = t.fields.size
    · have fresh : ¬ (name, f) ∈ (t.scope s).table := fun mem =>
        Nat.lt_irrefl _ (isNew ▸ (old.mp mem).1)
      simp only [isNew, if_true, Nat.lt_succ_self, true_and]
      rw [isNew] at fresh
      split
      · rename_i here
        simp [fresh, here.1, eq_comm]
      · rename_i elsewhere
        have : field.scope ≠ s := fun same => elsewhere ⟨same, same ▸ admits.scope_lt⟩
        simp [fresh, this]
    · have bound : f < t.fields.size + 1 ↔ f < t.fields.size :=
        ⟨fun lt => Nat.lt_of_le_of_ne (Nat.le_of_lt_succ lt) isNew, Nat.lt_succ_of_lt⟩
      simp only [isNew, if_false, bound]
      split
      · simp [old, isNew]
      · exact old
  case namesDistinct =>
    intro s
    rw [scope_addField]
    split
    · rename_i here
      have fresh : field.name ∉ (t.scope s).table.map (·.1) := by
        intro mem
        obtain ⟨⟨name, f⟩, inTable, same⟩ := mem_map.mp mem
        have known := (formed.mem_table s name f).mp inTable
        exact formed.lookup_eq_none.mp admits.isNew f known.1 (known.2.1.trans here.1.symm)
          (known.2.2.trans same)
      rw [map_append]
      refine nodup_append.mpr ⟨formed.namesDistinct s, nodup_singleton _, ?_⟩
      rintro a mem b isName rfl
      obtain rfl : a = field.name := mem_singleton.mp isName
      exact fresh mem
    · exact formed.namesDistinct s
  case scope_lt =>
    intro f bound
    rw [fields_size_addField] at bound
    rw [field_addField, scopes_size_addField]
    split
    · exact admits.scope_lt
    · exact formed.scope_lt f (Nat.lt_of_le_of_ne (Nat.le_of_lt_succ bound) ‹_›)
  case outersFirst =>
    intro f outer isOuter
    rw [field_addField] at isOuter
    split at isOuter
    · rename_i isNew
      exact isNew ▸ (admits.outer outer isOuter).1
    · exact formed.outersFirst f outer isOuter
  case outer_name =>
    intro f outer isOuter
    rw [field_addField t field f] at isOuter ⊢
    by_cases isNew : f = t.fields.size
    · rw [if_pos isNew] at isOuter ⊢
      have known := admits.outer outer isOuter
      rw [field_addField_of_lt t field known.1]
      exact known.2.1
    · rw [if_neg isNew] at isOuter ⊢
      have bound := Nat.lt_trans (formed.outersFirst f outer isOuter) (noDefault isOuter)
      rw [field_addField_of_lt t field bound]
      exact formed.outer_name f outer isOuter
  case outer_within =>
    intro f outer isOuter
    rw [within_addField]
    rw [field_addField t field f] at isOuter ⊢
    by_cases isNew : f = t.fields.size
    · rw [if_pos isNew] at isOuter ⊢
      have known := admits.outer outer isOuter
      rw [field_addField_of_lt t field known.1]
      exact known.2.2
    · rw [if_neg isNew] at isOuter ⊢
      have bound := Nat.lt_trans (formed.outersFirst f outer isOuter) (noDefault isOuter)
      rw [field_addField_of_lt t field bound]
      exact formed.outer_within f outer isOuter

end Minifier.ScopeTree
