import Minifier.Proofs.Scope.WellFormed

/-!
# Lexical scoping

A tree of scopes is lexical if the variable behind a field is always the innermost variable of its
name around the scope of the field. This is what makes aliases stand for what the program means:
no scope between an alias and its variable has a variable of the name. Declaring a variable where no
alias passes and adding an alias to the field that is visible keep a tree lexical.

A tree is fresh after binding: lexical, with nothing reserved and nothing named, and with names that
a program can have. All that is done before names are chosen keeps it fresh (`Tended`).
-/

set_option autoImplicit false

namespace Minifier.ScopeTree

variable {name : String} {kind : ScopeKind} {parent s : ScopeId} {field : Field} {f : FieldId}

variable {t t' t'' : ScopeTree}

/-! ## Trees that grow -/

/-- A tree has the scopes and fields of another where they were, and maybe more. -/
structure Extends (t t' : ScopeTree) : Prop where
  scopes_size : t.scopes.size ≤ t'.scopes.size
  fields_size : t.fields.size ≤ t'.fields.size
  parent : ∀ s < t.scopes.size, (t'.scope s).parent = (t.scope s).parent
  name : ∀ f < t.fields.size, (t'.field f).name = (t.field f).name
  scope : ∀ f < t.fields.size, (t'.field f).scope = (t.field f).scope
  outer : ∀ f < t.fields.size, (t'.field f).outer = (t.field f).outer

namespace Extends

theorem refl (t : ScopeTree) : Extends t t :=
  ⟨Nat.le_refl _, Nat.le_refl _, fun _ _ => rfl, fun _ _ => rfl, fun _ _ => rfl, fun _ _ => rfl⟩

theorem trans (first : Extends t t') (second : Extends t' t'') : Extends t t'' where
  scopes_size := Nat.le_trans first.scopes_size second.scopes_size
  fields_size := Nat.le_trans first.fields_size second.fields_size
  parent s bound := (second.parent s (Nat.lt_of_lt_of_le bound first.scopes_size)).trans
    (first.parent s bound)
  name f bound := (second.name f (Nat.lt_of_lt_of_le bound first.fields_size)).trans
    (first.name f bound)
  scope f bound := (second.scope f (Nat.lt_of_lt_of_le bound first.fields_size)).trans
    (first.scope f bound)
  outer f bound := (second.outer f (Nat.lt_of_lt_of_le bound first.fields_size)).trans
    (first.outer f bound)

theorem of_sameShape (same : SameShape t t') : Extends t t' where
  scopes_size := Nat.le_of_eq same.scopes_size.symm
  fields_size := Nat.le_of_eq same.fields_size.symm
  parent s _ := same.parent s
  name f _ := same.name f
  scope f _ := same.scope f
  outer f _ := same.outer f

theorem addField (t : ScopeTree) (field : Field) : Extends t (t.addField field).2 where
  scopes_size := Nat.le_of_eq (scopes_size_addField t field).symm
  fields_size := by rw [fields_size_addField]; exact Nat.le_succ _
  parent s _ := (place_addField t field s).1
  name f bound := by rw [field_addField_of_lt t field bound]
  scope f bound := by rw [field_addField_of_lt t field bound]
  outer f bound := by rw [field_addField_of_lt t field bound]

theorem createScope (t : ScopeTree) (kind : ScopeKind) (parent : ScopeId) (span : Span) :
    Extends t (t.createScope kind parent span).2 where
  scopes_size := by rw [scopes_size_createScope]; exact Nat.le_succ _
  fields_size := Nat.le_refl _
  parent s bound := by rw [parent_createScope, if_neg (Nat.ne_of_lt bound)]
  name _ _ := rfl
  scope _ _ := rfl
  outer _ _ := rfl

/-- Old scopes are inside each other as before. -/
theorem within_iff (extends_ : Extends t t') (ordered : t.ParentsFirst) {a b : ScopeId}
    (bound : a < t.scopes.size) : Within t' a b ↔ Within t a b := by
  constructor
  · intro within
    induction within with
    | refl => exact .refl _
    | @step s parent d isParent _ ih =>
      rw [extends_.parent s bound] at isParent
      exact .step isParent (ih (Nat.lt_trans (ordered s parent isParent) bound))
  · intro within
    induction within with
    | refl => exact .refl _
    | @step s parent d isParent _ ih =>
      refine .step ((extends_.parent s bound).trans isParent) (ih ?_)
      exact Nat.lt_trans (ordered s parent isParent) bound

/-- Old fields stand for the same variables. -/
theorem ultimate (extends_ : Extends t t') (ordered : t.OutersFirst) (ordered' : t'.OutersFirst)
    {f : FieldId} (bound : f < t.fields.size) : t'.ultimate f = t.ultimate f := by
  induction f using alias_induction ordered with
  | isVariable f found =>
    rw [ultimate_of_variable found, ultimate_of_variable ((extends_.outer f bound).trans found)]
  | isAlias f outer found ih =>
    rw [ultimate_of_alias ordered found,
      ultimate_of_alias ordered' ((extends_.outer f bound).trans found)]
    exact ih (Nat.lt_trans (ordered f outer found) bound)

end Extends

/-- A field is there and has a name. -/
def HasNamed (t : ScopeTree) (f : FieldId) (name : String) : Prop :=
  f < t.fields.size ∧ (t.field f).name = name

theorem Extends.hasNamed (extends_ : Extends t t') (known : t.HasNamed f name) : t'.HasNamed f name :=
  ⟨Nat.lt_of_lt_of_le known.1 extends_.fields_size, (extends_.name f known.1).trans known.2⟩

theorem hasNamed_addField (t : ScopeTree) (field : Field) :
    (t.addField field).2.HasNamed (t.addField field).1 field.name := by
  have isNew : (t.addField field).1 = t.fields.size := rfl
  rw [HasNamed, fields_size_addField, field_addField, isNew]
  exact ⟨Nat.lt_succ_self _, by rw [if_pos rfl]⟩

/-! ## Innermost variables -/

/-- The variable behind a field is the innermost one of its name. -/
def Lexical (t : ScopeTree) : Prop :=
  ∀ f < t.fields.size, ∀ g < t.fields.size, (t.field g).outer = none →
    (t.field g).name = (t.field f).name → Within t (t.field f).scope (t.field g).scope →
    (t.field g).scope ≤ (t.field (t.ultimate f)).scope

/-- Only the shape matters. -/
theorem SameShape.lexical (same : SameShape t t') (lexical : t.Lexical) : t'.Lexical := by
  intro f bound g bound' isVariable name within
  rw [same.fields_size] at bound bound'
  rw [same.outer] at isVariable
  rw [same.name, same.name] at name
  rw [same.scope, same.scope, same.within_iff] at within
  rw [same.ultimate, same.scope, same.scope]
  exact lexical f bound g bound' isVariable name within

/-- A new field keeps a tree lexical: a variable if it is not in the way of an alias, and an alias
if every variable of the name around it is around what it stands for. -/
theorem Lexical.addField (lexical : t.Lexical) (formed : t.WellFormed) {field : Field}
    (admits : t.Admits field)
    (aside : field.outer = none → ∀ f < t.fields.size, (t.field f).name = field.name →
      Within t (t.field f).scope field.scope → field.scope ≤ (t.field (t.ultimate f)).scope)
    (nearest : ∀ outer, field.outer = some outer → ∀ g < t.fields.size, (t.field g).outer = none →
      (t.field g).name = field.name → Within t field.scope (t.field g).scope →
      Within t (t.field outer).scope (t.field g).scope) : (t.addField field).2.Lexical := by
  have formed' := formed.addField admits
  have grown := Extends.addField t field
  have old {f : FieldId} (bound : f < t.fields.size + 1) (isOld : f ≠ t.fields.size) :
      f < t.fields.size := Nat.lt_of_le_of_ne (Nat.le_of_lt_succ bound) isOld
  have ultimate_old {f : FieldId} (bound : f < t.fields.size) :
      ((t.addField field).2.field ((t.addField field).2.ultimate f)).scope =
        (t.field (t.ultimate f)).scope := by
    rw [grown.ultimate formed.outersFirst formed'.outersFirst bound]
    exact grown.scope _ (Nat.lt_of_le_of_lt (formed.ultimate_le f) bound)
  intro f bound g bound' isVariable name within
  rw [fields_size_addField] at bound bound'
  rw [within_addField] at within
  by_cases newF : f = t.fields.size
  · by_cases newG : g = t.fields.size
    · -- the new variable itself
      have own := ultimate_of_variable isVariable
      rw [newG] at own isVariable ⊢
      exact Nat.le_of_eq (by rw [newF, own])
    · rw [field_addField_of_lt t field (old bound' newG)] at isVariable name within ⊢
      rw [newF, field_addField, if_pos rfl] at name within
      cases isAlias : field.outer with
      | none =>
        have alone : ((t.addField field).2.field f).outer = none := by
          rw [field_addField, if_pos newF, isAlias]
        rw [ultimate_of_variable alone, field_addField, if_pos newF]
        exact within.le formed.parentsFirst
      | some outer =>
        have isAlias' : ((t.addField field).2.field f).outer = some outer := by
          rw [field_addField, if_pos newF, isAlias]
        have known := admits.outer outer isAlias
        rw [ultimate_of_alias formed'.outersFirst isAlias', ultimate_old known.1]
        refine lexical outer known.1 g (old bound' newG) isVariable (name.trans known.2.1.symm) ?_
        exact nearest outer isAlias g (old bound' newG) isVariable name within
  · rw [ultimate_old (old bound newF)]
    rw [field_addField_of_lt t field (old bound newF)] at name within
    by_cases newG : g = t.fields.size
    · rw [newG, field_addField, if_pos rfl] at isVariable name within ⊢
      exact aside isVariable f (old bound newF) name.symm within
    · rw [field_addField_of_lt t field (old bound' newG)] at isVariable name within ⊢
      exact lexical f (old bound newF) g (old bound' newG) isVariable name within

/-- A new scope has no fields yet. -/
theorem Lexical.createScope (lexical : t.Lexical) (formed : t.WellFormed)
    (bound : parent < t.scopes.size) (notGlobal : kind ≠ .global) (span : Span) :
    (t.createScope kind parent span).2.Lexical := by
  have formed' := formed.createScope bound notGlobal span
  have grown := Extends.createScope t kind parent span
  intro f bound g bound' isVariable name within
  rw [grown.ultimate formed.outersFirst formed'.outersFirst bound]
  refine lexical f bound g bound' isVariable name ?_
  exact (grown.within_iff formed.parentsFirst (formed.scope_lt f bound)).mp within

/-! ## Fresh trees -/

/-- A change to a tree before names are chosen: mentions are counted and marks are set. -/
structure Tended (t t' : ScopeTree) : Prop extends SameShape t t' where
  generatedCount : t'.generatedCount = t.generatedCount
  isGenerated : ∀ f, (t'.field f).isGenerated = (t.field f).isGenerated
  crunchedName : ∀ f, (t'.field f).crunchedName = (t.field f).crunchedName
  verboten : ∀ s, (t'.scope s).verboten = (t.scope s).verboten
  phase : t'.phase = t.phase

namespace Tended

theorem refl (t : ScopeTree) : Tended t t :=
  ⟨.refl t, rfl, fun _ => rfl, fun _ => rfl, fun _ => rfl, rfl⟩

theorem trans (first : Tended t t') (second : Tended t' t'') : Tended t t'' where
  toSameShape := first.toSameShape.trans second.toSameShape
  generatedCount := second.generatedCount.trans first.generatedCount
  isGenerated f := (second.isGenerated f).trans (first.isGenerated f)
  crunchedName f := (second.crunchedName f).trans (first.crunchedName f)
  verboten s := (second.verboten s).trans (first.verboten s)
  phase := second.phase.trans first.phase

end Tended

theorem tended_modifyScope (t : ScopeTree) (id : ScopeId) (f : Scope → Scope)
    (keeps : ∀ s, (f s).parent = s.parent ∧ (f s).children = s.children ∧ (f s).table = s.table ∧
      (f s).kind = s.kind ∧ (f s).verboten = s.verboten) : Tended t (t.modifyScope id f) where
  toSameShape := sameShape_modifyScope t id f fun s => by simp [keeps]
  generatedCount := rfl
  isGenerated _ := rfl
  crunchedName _ := rfl
  verboten s := by rw [scope_modifyScope]; split <;> simp [keeps]
  phase := rfl

theorem tended_modifyField (t : ScopeTree) (id : FieldId) (f : Field → Field)
    (keeps : ∀ g, (f g).name = g.name ∧ (f g).scope = g.scope ∧ (f g).outer = g.outer ∧
      (f g).isGenerated = g.isGenerated ∧ (f g).crunchedName = g.crunchedName) :
    Tended t (t.modifyField id f) where
  toSameShape := sameShape_modifyField t id f fun g => by simp [keeps]
  generatedCount := rfl
  isGenerated g := by rw [field_modifyField]; split <;> simp [keeps]
  crunchedName g := by rw [field_modifyField]; split <;> simp [keeps]
  verboten _ := rfl
  phase := rfl

/-- What the scopes are stays: whether their names can be looked up when they run, and the functions
that they belong to. -/
structure SameMarks (t t' : ScopeTree) : Prop where
  kind : ∀ s, (t'.scope s).kind = (t.scope s).kind
  isKnown : ∀ s, (t'.scope s).isKnown = (t.scope s).isKnown
  functionField : ∀ s, (t'.scope s).functionField = (t.scope s).functionField

namespace SameMarks

theorem refl (t : ScopeTree) : SameMarks t t := ⟨fun _ => rfl, fun _ => rfl, fun _ => rfl⟩

theorem trans (first : SameMarks t t') (second : SameMarks t' t'') : SameMarks t t'' where
  kind s := (second.kind s).trans (first.kind s)
  isKnown s := (second.isKnown s).trans (first.isKnown s)
  functionField s := (second.functionField s).trans (first.functionField s)

theorem modifyScope (t : ScopeTree) (id : ScopeId) (f : Scope → Scope)
    (keeps : ∀ s, (f s).kind = s.kind ∧ (f s).isKnown = s.isKnown ∧
      (f s).functionField = s.functionField) : SameMarks t (t.modifyScope id f) where
  kind s := by rw [scope_modifyScope]; split <;> simp [keeps]
  isKnown s := by rw [scope_modifyScope]; split <;> simp [keeps]
  functionField s := by rw [scope_modifyScope]; split <;> simp [keeps]

theorem modifyField (t : ScopeTree) (id : FieldId) (f : Field → Field) :
    SameMarks t (t.modifyField id f) := ⟨fun _ => rfl, fun _ => rfl, fun _ => rfl⟩

theorem addField (t : ScopeTree) (field : Field) : SameMarks t (t.addField field).2 where
  kind s := by rw [scope_addField]; split <;> rfl
  isKnown s := by rw [scope_addField]; split <;> rfl
  functionField s := by rw [scope_addField]; split <;> rfl

end SameMarks

/-- A change to a bound tree while its program is made smaller: only counts change, and what is said
of functions that are taken out. -/
structure Trims (t t' : ScopeTree) : Prop extends Tended t t', SameMarks t t'

namespace Trims

theorem of_sameMarks (tended : Tended t t') (marks : SameMarks t t') : Trims t t' :=
  { tended, marks with }

theorem refl (t : ScopeTree) : Trims t t := of_sameMarks (.refl t) (.refl t)

theorem trans (first : Trims t t') (second : Trims t' t'') : Trims t t'' :=
  of_sameMarks (first.toTended.trans second.toTended) (first.toSameMarks.trans second.toSameMarks)

theorem modifyField (t : ScopeTree) (id : FieldId) (f : Field → Field)
    (keeps : ∀ g, (f g).name = g.name ∧ (f g).scope = g.scope ∧ (f g).outer = g.outer ∧
      (f g).isGenerated = g.isGenerated ∧ (f g).crunchedName = g.crunchedName) :
    Trims t (t.modifyField id f) :=
  of_sameMarks (tended_modifyField t id f keeps) (.modifyField t id f)

end Trims

/-- A name that a program can have. The names that are made for shared literals have a blank. -/
def IsPlain (name : String) : Prop := ' ' ∉ name.toList

instance (name : String) : Decidable (IsPlain name) := inferInstanceAs (Decidable (¬ _))

/-- A tree after binding. -/
structure Fresh (t : ScopeTree) : Prop where
  formed : t.WellFormed
  lexical : t.Lexical
  unnamed : ∀ f, (t.field f).crunchedName = none
  ungenerated : ∀ f, (t.field f).isGenerated = false
  unreserved : ∀ s, (t.scope s).verboten = []
  plain : ∀ f < t.fields.size, IsPlain (t.field f).name
  generatedCount : t.generatedCount = 0
  phase : t.phase = .unanalyzed

/-- What is tended stays fresh. -/
theorem Tended.fresh (tended : Tended t t') (fresh : t.Fresh) : t'.Fresh where
  formed := tended.wellFormed fresh.formed
  lexical := tended.lexical fresh.lexical
  unnamed f := (tended.crunchedName f).trans (fresh.unnamed f)
  ungenerated f := (tended.isGenerated f).trans (fresh.ungenerated f)
  unreserved s := (tended.verboten s).trans (fresh.unreserved s)
  plain f bound := by
    rw [tended.name]
    exact fresh.plain f (tended.fields_size ▸ bound)
  generatedCount := tended.generatedCount.trans fresh.generatedCount
  phase := tended.phase.trans fresh.phase

/-- There are no names yet. -/
theorem fresh_empty : empty.Fresh where
  formed := wellFormed_empty
  lexical := fun f bound => absurd bound (Nat.not_lt_zero f)
  unnamed f := by rw [field_empty]; rfl
  ungenerated f := by rw [field_empty]; rfl
  unreserved s := by rw [scope_empty]; rfl
  plain := fun f bound => absurd bound (Nat.not_lt_zero f)
  generatedCount := rfl
  phase := rfl

/-- A new scope has none. -/
theorem Fresh.createScope (fresh : t.Fresh) (bound : parent < t.scopes.size)
    (notGlobal : kind ≠ .global) (span : Span) : (t.createScope kind parent span).2.Fresh where
  formed := fresh.formed.createScope bound notGlobal span
  lexical := fresh.lexical.createScope fresh.formed bound notGlobal span
  unnamed := fresh.unnamed
  ungenerated := fresh.ungenerated
  unreserved s := by
    rw [scope_createScope]
    split
    · rfl
    · split <;> exact fresh.unreserved s
  plain := fresh.plain
  generatedCount := fresh.generatedCount
  phase := fresh.phase

/-- A new field has its own name only. -/
theorem Fresh.addField (fresh : t.Fresh) (admits : t.Admits field)
    (lexical : (t.addField field).2.Lexical) (plain : IsPlain field.name)
    (isNew : field.crunchedName = none ∧ field.isGenerated = false) : (t.addField field).2.Fresh where
  formed := fresh.formed.addField admits
  lexical := lexical
  unnamed f := by
    rw [field_addField]
    split
    · exact isNew.1
    · exact fresh.unnamed f
  ungenerated f := by
    rw [field_addField]
    split
    · exact isNew.2
    · exact fresh.ungenerated f
  unreserved s := by
    rw [scope_addField]
    split <;> exact fresh.unreserved s
  plain f bound := by
    rw [fields_size_addField] at bound
    rw [field_addField]
    split
    · exact plain
    · exact fresh.plain f (Nat.lt_of_le_of_ne (Nat.le_of_lt_succ bound) ‹_›)
  generatedCount := fresh.generatedCount
  phase := fresh.phase

/-- No field is an alias, as long as only declarations have been looked at. -/
def HasNoAlias (t : ScopeTree) : Prop := ∀ f, (t.field f).outer = none

/-- Without aliases each field is a variable. -/
theorem ultimate_of_hasNoAlias (noAlias : t.HasNoAlias) (f : FieldId) : t.ultimate f = f :=
  ultimate_of_variable (noAlias f)

/-- Declaring a name where it is in nobody's way. -/
theorem Fresh.declare (fresh : t.Fresh) (bound : s < t.scopes.size) (plain : IsPlain name)
    (aside : t.HasNoAlias ∨ s = global) (kind : FieldKind) (span : Span) :
    (t.declare s name kind span).2.Fresh ∧ Extends t (t.declare s name kind span).2 ∧
      (t.declare s name kind span).2.HasNamed (t.declare s name kind span).1 name := by
  unfold ScopeTree.declare
  cases found : (t.scope s).lookup name with
  | some existing =>
    have known := fresh.formed.lookup_eq_some.mp found
    exact ⟨fresh, .refl t, known.1, known.2.2⟩
  | none =>
    have admits : t.Admits { name, kind, scope := s, span } := .variable bound found
    refine ⟨fresh.addField admits ?_ plain ⟨rfl, rfl⟩, .addField t _, ?_⟩
    · refine fresh.lexical.addField fresh.formed admits ?_ fun outer isOuter => nomatch isOuter
      intro _ f _ _ within
      rcases aside with noAlias | rfl
      · rw [ultimate_of_hasNoAlias noAlias]
        exact within.le fresh.formed.parentsFirst
      · exact Nat.zero_le _
    · exact hasNamed_addField t _

/-- A name that is not visible in a scope is so once it is declared in the global scope. -/
theorem findVisible_declare_global (formed : t.WellFormed) (bound : s < t.scopes.size)
    (missing : t.findVisible s name = none) (kind : FieldKind) (span : Span) :
    (t.declare global name kind span).2.findVisible s name =
      some (global, (t.declare global name kind span).1) := by
  have isNew := findVisible_eq_none formed.parentsFirst missing (formed.within_global bound)
  simp only [ScopeTree.declare, isNew]
  have admits : t.Admits { name, kind, scope := global, span } := .variable formed.nonempty isNew
  have formed' := formed.addField admits
  generalize added : t.addField { name, kind, scope := global, span } = r at formed' ⊢
  have number : r.1 = t.fields.size := by rw [← added]; rfl
  have there : (r.2.scope global).lookup name = some r.1 := by
    rw [formed'.lookup_eq_some, number, ← added, fields_size_addField, field_addField, if_pos rfl]
    exact ⟨Nat.lt_succ_self _, rfl, rfl⟩
  have visible : r.2.findVisible s name ≠ none := by
    intro absent
    have within : Within r.2 s global := by
      rw [← added, within_addField]
      exact formed.within_global bound
    have gone := findVisible_eq_none formed'.parentsFirst absent within
    rw [there] at gone
    cases gone
  obtain ⟨⟨x, f⟩, found⟩ := Option.ne_none_iff_exists'.mp visible
  obtain ⟨within, isField, _⟩ := findVisible_eq_some formed'.parentsFirst found
  obtain ⟨isBound, isScope, isName⟩ := formed'.lookup_eq_some.mp isField
  have same : f = r.1 := by
    rw [number]
    apply Classical.byContradiction
    intro isOld
    rw [← added, fields_size_addField] at isBound
    have isBound := Nat.lt_of_le_of_ne (Nat.le_of_lt_succ isBound) isOld
    rw [← added, field_addField, if_neg isOld] at isScope isName
    rw [← added, within_addField] at within
    have absent := findVisible_eq_none formed.parentsFirst missing within
    exact formed.lookup_eq_none.mp absent f isBound isScope isName
  rw [found, ← isScope, same, number, ← added, field_addField, if_pos rfl]

theorem HasNoAlias.declare (noAlias : t.HasNoAlias) (s : ScopeId) (name : String)
    (kind : FieldKind) (span : Span) : (t.declare s name kind span).2.HasNoAlias := by
  intro f
  unfold ScopeTree.declare
  split
  · exact noAlias f
  · rw [field_addField]
    split
    · rfl
    · exact noAlias f

/-- An alias for the field of a name that is visible in a scope. -/
theorem Fresh.createAlias (fresh : t.Fresh) {x : ScopeId} (bound : s < t.scopes.size)
    (found : t.findVisible s name = some (x, f)) (ne : x ≠ s) :
    (t.createAlias s f).2.Fresh ∧ Extends t (t.createAlias s f).2 ∧
      (t.createAlias s f).2.HasNamed (t.createAlias s f).1 name := by
  obtain ⟨within, isField, inner⟩ := findVisible_eq_some fresh.formed.parentsFirst found
  obtain ⟨bound', isScope, isName⟩ := fresh.formed.lookup_eq_some.mp isField
  have lower : x < s := Nat.lt_of_le_of_ne (within.le fresh.formed.parentsFirst) ne
  have missing : (t.scope s).lookup (t.field f).name = none := by
    rw [isName]
    exact inner s (.refl s) lower
  unfold ScopeTree.createAlias
  simp only [missing]
  refine ⟨fresh.addField ?admits ?lexical (fresh.plain f bound') ⟨rfl, rfl⟩, .addField t _, ?_⟩
  case admits =>
    refine ⟨bound, missing, fun outer isOuter => ?_⟩
    cases isOuter
    exact ⟨bound', rfl, isScope ▸ within, isScope ▸ lower⟩
  case lexical =>
    refine fresh.lexical.addField fresh.formed ?_ (fun isVariable => nomatch isVariable) ?_
    · refine ⟨bound, missing, fun outer isOuter => ?_⟩
      cases isOuter
      exact ⟨bound', rfl, isScope ▸ within, isScope ▸ lower⟩
    · intro outer isOuter g isBound _ sameName around
      cases isOuter
      rw [isScope]
      refine within.of_le fresh.formed.parentsFirst around (Nat.le_of_not_lt fun between => ?_)
      have none_there := inner _ around between
      rw [← isName] at none_there
      exact fresh.formed.lookup_eq_none.mp none_there g isBound rfl sameName
  · rw [← isName]
    exact hasNamed_addField t _

end Minifier.ScopeTree
