import Mathlib.Logic.Relation
import Minifier.Proofs.Hygiene
import Minifier.Proofs.Literal.Shared

/-!
# The stages of a program

Between binding and printing a program is counted, put in order, simplified, and given names, in steps
each of which is made at most once or as often as one likes. `Program.Reaches` says which states it
can come to, whatever the settings of the steps are and in whatever order they are made, as far as the
phases allow. In all of them the scopes are a tree with one table entry for each field, names stand for
what they did, and only variables of scopes that are known have been given other names
(`BoundProgram.IsSound`).
-/

set_option autoImplicit false

namespace Minifier

open ScopeTree

variable {p : Program} {t : ScopeTree} {f : FieldId}

/-! ## Steps -/

/-- One step that is made with a bound program, under some settings. -/
inductive BoundProgram.Step : BoundProgram → BoundProgram → Prop where
  | recount (b : BoundProgram) : Step b b.recount
  | orderDeclarations (settings : Settings) (b : BoundProgram) :
    Step b (b.orderDeclarations settings).value
  | simplify (settings : Settings) (b : BoundProgram) : Step b (b.simplify settings).value
  | analyze {b b' : BoundProgram} : b.analyze = .ok b' → Step b b'
  | reserve {settings : Settings} {b b' : BoundProgram} :
    b.onTree (·.reserve settings) = .ok b' → Step b b'
  | shareLiterals {settings : Settings} {b : BoundProgram} {e : Edited BoundProgram} :
    b.shareLiterals settings = .ok e → Step b e.value
  | crunch {settings : Settings} {b b' : BoundProgram} :
    b.onTree (·.crunch settings) = .ok b' → Step b b'
  | nameGenerated {b b' : BoundProgram} : b.onTree (·.nameGenerated) = .ok b' → Step b b'

/-- The states that a program comes to, from binding on. -/
def Program.Reaches (p : Program) (b : BoundProgram) : Prop :=
  ∃ settings, Relation.ReflTransGen BoundProgram.Step (p.bind settings) b

theorem bind_eq_ok {ε α β : Type} {x : Except ε α} {f : α → Except ε β} {b : β} :
    x >>= f = .ok b ↔ ∃ a, x = .ok a ∧ f a = .ok b := by
  cases x <;> simp [bind, Except.bind]

theorem Program.Reaches.step {b b' : BoundProgram} (reaches : p.Reaches b) (step : b.Step b') :
    p.Reaches b' := by
  obtain ⟨settings, steps⟩ := reaches
  exact ⟨settings, steps.tail step⟩

/-- Shrinking is made of steps. -/
theorem Program.Reaches.shrink {b : BoundProgram} (reaches : p.Reaches b) (settings : Settings) :
    p.Reaches (b.shrink settings) := by
  unfold BoundProgram.shrink
  have counted := reaches.step (.recount b)
  split
  · have ordered := counted.step (.orderDeclarations settings _)
    exact (ordered.step (.simplify settings _)).step (.recount _)
  · exact counted

/-- Choosing names is made of steps. -/
theorem Program.Reaches.chooseNames {b named : BoundProgram} (reaches : p.Reaches b)
    {settings : Settings} (isNamed : b.chooseNames settings = .ok named) : p.Reaches named := by
  simp only [BoundProgram.chooseNames, bind_eq_ok] at isNamed
  obtain ⟨analyzed, isAnalyzed, reserved, isReserved, shared, isShared, short, isShort, isLast⟩ := isNamed
  have ready := (reaches.step (.analyze isAnalyzed)).step (.reserve isReserved)
  exact ((ready.step (.shareLiterals isShared)).step (.crunch isShort)).step (.nameGenerated isLast)

/-! ## What holds at all stages -/

/-- Whether no literal is shared yet. -/
def Phase.isUnshared : Phase → Bool
  | unanalyzed | scopeAnalyzed | fieldsReserved => true
  | _ => false

/-- Whether no name is given yet. -/
def Phase.isUnnamed : Phase → Bool
  | renamed | generatedNamesValidated => false
  | _ => true

/-- A variable that may be written under another name than its own. -/
structure ScopeTree.IsRenamable (t : ScopeTree) (f : FieldId) : Prop where
  isVariable : (t.field f).outer = none
  notGlobal : (t.scope (t.field f).scope).kind ≠ .global
  isKnown : (t.scope (t.field f).scope).isKnown = true

theorem ScopeTree.IsRenamable.of_sameMarks {t' : ScopeTree} (renamable : t.IsRenamable f)
    (marks : SameMarks t t') (scope : (t'.field f).scope = (t.field f).scope)
    (outer : (t'.field f).outer = (t.field f).outer) : t'.IsRenamable f where
  isVariable := outer.trans renamable.isVariable
  notGlobal := by rw [scope, marks.kind]; exact renamable.notGlobal
  isKnown := by rw [scope, marks.isKnown]; exact renamable.isKnown

/-- What holds of a program after binding and whatever step comes then. -/
structure BoundProgram.IsSound (b : BoundProgram) : Prop where
  scope : b.program.scope = some global
  valid : ∀ mark ∈ b.program.marks, mark.Valid b.tree
  formed : b.tree.WellFormed
  verbotenOuter : b.tree.VerbotenOuter
  named : ∀ f, (b.tree.field f).crunchedName ≠ none → b.tree.IsRenamable f
  generated : ∀ f, (b.tree.field f).isGenerated = true → b.tree.IsRenamable f
  prepared : b.tree.phase.isUnnamed = true → b.tree.Prepared
  ungenerated : b.tree.phase.isUnshared = true → ∀ f, (b.tree.field f).isGenerated = false
  laidOut : b.tree.phase.isUnshared = true → b.IsLaidOut

namespace BoundProgram.IsSound

variable {settings : Settings} {e : Edited BoundProgram} {tree : ScopeTree}

variable {b b' : BoundProgram}

theorem of_bind {p : Program} (unbound : p.IsUnbound) (settings : Settings) :
    (p.bind settings).IsSound := by
  have bound := Program.bind_isBound settings unbound
  have fresh := bound.fresh
  have outer : (p.bind settings).tree.VerbotenOuter := by
    intro s u mem
    rw [fresh.unreserved] at mem
    cases mem
  exact {
    scope := bound.scope
    valid := bound.valid
    formed := fresh.formed
    verbotenOuter := outer
    named := fun f isNamed => absurd (fresh.unnamed f) isNamed
    generated := fun f isGenerated => by
      rw [fresh.ungenerated] at isGenerated
      cases isGenerated
    prepared := fun _ => fresh.prepared (.refl _) (fun _ => rfl) (fun _ => rfl) outer
    ungenerated := fun _ => fresh.ungenerated
    laidOut := fun _ => (p.bind_isScoped settings).1.isLaidOut }

variable (sound : b.IsSound)
include sound

/-- A program that is made smaller. -/
theorem of_trims (trims : b.Trims b')
    (fewer : b'.program.spots ≤ b.program.spots) : b'.IsSound := by
  have tended := trims.tree.toTended
  have same := tended.toSameShape
  have keeps {f : FieldId} (renamable : b.tree.IsRenamable f) : b'.tree.IsRenamable f :=
    renamable.of_sameMarks trims.tree.toSameMarks (same.scope f) (same.outer f)
  exact {
    scope := trims.scope.trans sound.scope
    valid := trims.valid
    formed := same.wellFormed sound.formed
    verbotenOuter := same.verbotenOuter tended.verboten sound.verbotenOuter
    named := fun f isNamed => keeps (sound.named f (tended.crunchedName f ▸ isNamed))
    generated := fun f isGenerated => keeps (sound.generated f (tended.isGenerated f ▸ isGenerated))
    prepared := fun isUnnamed => (sound.prepared (tended.phase ▸ isUnnamed)).tended tended
    ungenerated := fun isUnshared f =>
      (tended.isGenerated f).trans (sound.ungenerated (tended.phase ▸ isUnshared) f)
    laidOut := fun isUnshared => (sound.laidOut (tended.phase ▸ isUnshared)).of_le fewer same }

theorem analyze (isAnalyzed : b.analyze = .ok b') : b'.IsSound := by
  simp only [BoundProgram.analyze, ScopeTree.analyze, bind_eq_ok, advance_eq_ok] at isAnalyzed
  obtain ⟨_, ⟨_, ⟨phase, rfl⟩, ⟨⟩⟩, ⟨⟩⟩ := isAnalyzed
  have same := sameShape_withPhase b.tree .scopeAnalyzed
  exact {
    scope := sound.scope
    valid := fun mark mem => (sound.valid mark mem).extends (.of_sameShape same)
    formed := same.wellFormed sound.formed
    verbotenOuter := same.verbotenOuter (fun _ => rfl) sound.verbotenOuter
    named := fun f isNamed => { sound.named f isNamed with }
    generated := fun f isGenerated => { sound.generated f isGenerated with }
    prepared := fun _ => (sound.prepared (by rw [phase]; rfl)).withPhase _
    ungenerated := fun _ => sound.ungenerated (by rw [phase]; rfl)
    laidOut := fun _ => (sound.laidOut (by rw [phase]; rfl)).of_le (le_refl _) same }

/-- Before names are reserved no variable has another name, so it does not matter which scopes become
unknown. -/
theorem reserve (isReserved : b.onTree (·.reserve settings) = .ok b') : b'.IsSound := by
  obtain ⟨tree, isTree, ⟨⟩⟩ := bind_eq_ok.mp isReserved
  have phase : b.tree.phase = .scopeAnalyzed := by
    simp only [ScopeTree.reserve, bind_eq_ok, advance_eq_ok] at isTree
    obtain ⟨_, ⟨phase, _⟩, _⟩ := isTree
    exact phase
  obtain ⟨reserved, isReserved', reserves, outer, -⟩ :=
    reserve_reserved settings sound.formed sound.verbotenOuter phase
  obtain rfl := Except.ok.inj (isReserved'.symm.trans isTree)
  have same := (sameShape_withPhase b.tree .fieldsReserved).trans reserves.toSameShape
  have prepared := sound.prepared (by rw [phase]; rfl)
  have ungenerated := sound.ungenerated (by rw [phase]; rfl)
  have unnamed (f : FieldId) : (reserved.field f).crunchedName = (b.tree.field f).crunchedName :=
    reserves.crunchedName f
  have without (f : FieldId) : (reserved.field f).isGenerated = false :=
    (reserves.isGenerated f).trans (ungenerated f)
  exact {
    scope := sound.scope
    valid := fun mark mem => (sound.valid mark mem).extends (.of_sameShape same)
    formed := same.wellFormed sound.formed
    verbotenOuter := outer
    named := fun f isNamed => absurd ((unnamed f).trans (prepared.unnamed f)) isNamed
    generated := fun f isGenerated => by
      rw [without] at isGenerated
      cases isGenerated
    prepared := fun _ => prepared.of_sameShape same unnamed
      (fun f isGenerated => by
        rw [without] at isGenerated
        cases isGenerated)
      (Nat.le_of_eq reserves.generatedCount.symm) outer
    ungenerated := fun _ => without
    laidOut := fun _ => (sound.laidOut (by rw [phase]; rfl)).of_le (le_refl _) same }

omit sound in
theorem phase_of_shareLiterals (isShared : b.shareLiterals settings = .ok e) :
    b.tree.phase = .fieldsReserved := by
  simp only [BoundProgram.shareLiterals, bind_eq_ok, advance_eq_ok] at isShared
  obtain ⟨_, ⟨phase, _⟩, _⟩ := isShared
  exact phase

omit sound in
/-- A variable for a literal is one of a function whose names are known. -/
theorem isRenamable_of_shares {shared : List SharedLiteral} (shares : b.Shares b' shared tree)
    {f : FieldId} (isGenerated : (b'.tree.field f).isGenerated = true) : b'.tree.IsRenamable f := by
  rw [shares.mentioned.isGenerated] at isGenerated
  obtain ⟨s, isShared, rfl⟩ := (shares.plan.generated f).mp isGenerated
  obtain ⟨served, -⟩ := shares.plan.serves s isShared
  have grown := shares.mentioned.grows
  have marks := shares.plan.marks.trans shares.mentioned.marks
  obtain ⟨isFunction, isKnown⟩ := shares.plan.owner s isShared
  have scope := (grown.scope _ served.bound).trans served.scope
  refine ⟨(grown.outer _ served.bound).trans served.isVariable, ?_, ?_⟩
  · rw [scope, marks.kind, isFunction]
    decide
  · rw [scope, marks.isKnown, isKnown]

theorem shareLiterals (isShared : b.shareLiterals settings = .ok e) : e.value.IsSound := by
  have phase := phase_of_shareLiterals isShared
  have prepared := sound.prepared (by rw [phase]; rfl)
  have kept : ∀ mark ∈ b.program.marks, mark.Kept False b.tree := fun mark mem =>
    ⟨sound.formed, sound.valid mark mem, False.elim⟩
  obtain ⟨q, isQ, prepared', phase', kept'⟩ := b.shareLiterals_prepared settings prepared phase
    sound.scope kept
  obtain ⟨q', shared, tree, isQ', shares⟩ := b.exists_shares settings prepared phase
    (sound.ungenerated (by rw [phase]; rfl)) sound.scope sound.valid
  obtain rfl := Except.ok.inj (isQ.symm.trans isShared)
  obtain rfl := Except.ok.inj (isQ'.symm.trans isShared)
  exact {
    scope := shares.scope.trans sound.scope
    valid := fun mark mem => (kept' mark mem).valid
    formed := prepared'.formed
    verbotenOuter := prepared'.verbotenOuter
    named := fun f isNamed => absurd (prepared'.unnamed f) isNamed
    generated := fun f => isRenamable_of_shares shares
    prepared := fun _ => prepared'
    ungenerated := fun isUnshared => by
      rw [phase'] at isUnshared
      cases isUnshared
    laidOut := fun isUnshared => by
      rw [phase'] at isUnshared
      cases isUnshared }

/-- Giving names to variables that may have them. -/
theorem of_renames {phase : Phase} (isNamed : phase.isUnnamed = false)
    (renames : Renames { b.tree with phase } tree)
    (known : ∀ f, (tree.field f).crunchedName ≠ none → b.tree.IsRenamable f) :
    IsSound { b with tree } := by
  have same := (sameShape_withPhase b.tree phase).trans renames.sameShape
  have scope_eq (s : ScopeId) : tree.scope s = b.tree.scope s := renames.scope_eq s
  have marks : SameMarks b.tree tree :=
    ⟨fun s => by rw [scope_eq], fun s => by rw [scope_eq], fun s => by rw [scope_eq]⟩
  have keeps {f : FieldId} (renamable : b.tree.IsRenamable f) : tree.IsRenamable f :=
    renamable.of_sameMarks marks (same.scope f) (same.outer f)
  have isPhase : tree.phase = phase := renames.phase
  exact {
    scope := sound.scope
    valid := fun mark mem => (sound.valid mark mem).extends (.of_sameShape same)
    formed := same.wellFormed sound.formed
    verbotenOuter := same.verbotenOuter (fun s => by rw [scope_eq]) sound.verbotenOuter
    named := fun f isNamed => keeps (known f isNamed)
    generated := fun f isGenerated => by
      rw [renames.field] at isGenerated
      exact keeps (sound.generated f isGenerated)
    prepared := fun isUnnamed => by
      rw [isPhase, isNamed] at isUnnamed
      cases isUnnamed
    ungenerated := fun isUnshared => by
      rw [isPhase] at isUnshared
      cases phase <;> cases isNamed <;> cases isUnshared
    laidOut := fun isUnshared => by
      rw [isPhase] at isUnshared
      cases phase <;> cases isNamed <;> cases isUnshared }

theorem crunch (isShort : b.onTree (·.crunch settings) = .ok b') : b'.IsSound := by
  obtain ⟨tree, isTree, ⟨⟩⟩ := bind_eq_ok.mp isShort
  have phase : b.tree.phase = .literalsShortcut := by
    simp only [ScopeTree.crunch, bind_eq_ok, advance_eq_ok] at isTree
    obtain ⟨_, ⟨phase, _⟩, _⟩ := isTree
    exact phase
  have prepared := sound.prepared (by rw [phase]; rfl)
  obtain ⟨-, renames, gets⟩ := prepared.of_crunch isTree
  refine sound.of_renames rfl renames fun f isNamed => ?_
  obtain ⟨-, crunchable, notGlobal, isKnown⟩ := gets f isNamed
  exact ⟨prepared.isVariable_of_crunchable crunchable, notGlobal, isKnown⟩

theorem nameGenerated (isLast : b.onTree (·.nameGenerated) = .ok b') : b'.IsSound := by
  obtain ⟨tree, isTree, ⟨⟩⟩ := bind_eq_ok.mp isLast
  obtain ⟨-, renames, known⟩ := of_nameGenerated isTree
  refine sound.of_renames rfl renames fun f isNamed => ?_
  exact (known f isNamed).elim (sound.named f) (sound.generated f)

/-- Every step keeps it. -/
theorem step (step : b.Step b') : b'.IsSound := by
  cases step with
  | recount => exact sound.of_trims (trims_recount sound.valid) (le_refl _)
  | orderDeclarations settings =>
    exact sound.of_trims (trims_orderDeclarations sound.valid settings)
      (b.spots_orderDeclarations_le settings)
  | simplify settings =>
    exact sound.of_trims (trims_simplify sound.valid settings) (b.spots_simplify_le settings)
  | analyze isAnalyzed => exact sound.analyze isAnalyzed
  | reserve isReserved => exact sound.reserve isReserved
  | shareLiterals isShared => exact sound.shareLiterals isShared
  | crunch isShort => exact sound.crunch isShort
  | nameGenerated isLast => exact sound.nameGenerated isLast

/-- Names are chosen in steps that leave the program and the places of its scopes as they are, but for
the one that shares literals. -/
theorem exists_shareLiterals {named : BoundProgram} (isNamed : b.chooseNames settings = .ok named) :
    ∃ (held : BoundProgram) (e : Edited BoundProgram), held.IsSound ∧ held.program = b.program ∧
      SameShape b.tree held.tree ∧
      ScopeTree.reserve settings { b.tree with phase := .scopeAnalyzed } = .ok held.tree ∧
      held.shareLiterals settings = .ok e ∧ named.program = e.value.program ∧
      SameShape e.value.tree named.tree ∧ ∀ s, named.tree.scope s = e.value.tree.scope s := by
  simp only [BoundProgram.chooseNames, bind_eq_ok] at isNamed
  obtain ⟨analyzed, isAnalyzed, held, isReserved, e, isShared, short, isShort, isLast⟩ := isNamed
  have sound₁ := sound.analyze isAnalyzed
  have sound₂ := sound₁.reserve isReserved
  have sound₃ := sound₂.shareLiterals isShared
  simp only [BoundProgram.analyze, ScopeTree.analyze, bind_eq_ok, advance_eq_ok] at isAnalyzed
  obtain ⟨_, ⟨_, ⟨-, rfl⟩, ⟨⟩⟩, ⟨⟩⟩ := isAnalyzed
  obtain ⟨reserved, isTree, reserves, -, -⟩ :=
    reserve_reserved settings sound₁.formed sound₁.verbotenOuter rfl
  obtain ⟨_, isTree', ⟨⟩⟩ := bind_eq_ok.mp isReserved
  obtain rfl := Except.ok.inj (isTree.symm.trans isTree')
  obtain ⟨tree, isCrunched, ⟨⟩⟩ := bind_eq_ok.mp isShort
  obtain ⟨tree', isGenerated, ⟨⟩⟩ := bind_eq_ok.mp isLast
  have phase : e.value.tree.phase.isUnnamed = true := by
    simp only [ScopeTree.crunch, bind_eq_ok, advance_eq_ok] at isCrunched
    obtain ⟨_, ⟨phase, _⟩, _⟩ := isCrunched
    rw [phase]
    rfl
  obtain ⟨-, crunched, -⟩ := (sound₃.prepared phase).of_crunch isCrunched
  obtain ⟨-, generated, -⟩ := of_nameGenerated isGenerated
  refine ⟨_, e, sound₂, rfl, ?_, isTree, isShared, rfl, ?_, fun s => ?_⟩
  · exact (sameShape_withPhase b.tree .scopeAnalyzed).trans
      ((sameShape_withPhase _ .fieldsReserved).trans reserves.toSameShape)
  · exact ((sameShape_withPhase _ .renamed).trans crunched.sameShape).trans
      ((sameShape_withPhase _ .generatedNamesValidated).trans generated.sameShape)
  · exact (generated.scope_eq s).trans (crunched.scope_eq s)

end BoundProgram.IsSound

/-- It holds at all stages. -/
theorem Program.Reaches.isSound {b : BoundProgram} (reaches : p.Reaches b) (unbound : p.IsUnbound) :
    b.IsSound := by
  obtain ⟨settings, steps⟩ := reaches
  induction steps with
  | refl => exact .of_bind unbound settings
  | tail _ step ih => exact ih.step step

/-! ## The representation of scopes and fields -/

/-- A scope around another one. -/
def ScopeTree.IsProperAncestor (t : ScopeTree) (ancestor s : ScopeId) : Prop :=
  t.isAncestorOrSelf ancestor s = true ∧ ancestor ≠ s

/-- The scopes and the fields of a tree, which refer to each other by number, fit together. -/
structure ScopeTree.IsConsistent (t : ScopeTree) : Prop where
  /-- The scopes are one tree, with the global scope as its root. -/
  root : global < t.scopes.size ∧ (t.scope global).parent = none
  rooted : ∀ s < t.scopes.size, t.isAncestorOrSelf global s = true
  parent_lt : ∀ s parent, (t.scope s).parent = some parent → parent < s
  child_iff : ∀ s child, child ∈ (t.scope s).children ↔ (t.scope child).parent = some s
  children_nodup : ∀ s, (t.scope s).children.Nodup
  /-- A field is in the table of its scope, once and under its name, and in no other table. -/
  stored : ∀ f < t.fields.size, ∀ s name, (t.scope s).table.count (name, f) =
    if s = (t.field f).scope ∧ name = (t.field f).name then 1 else 0
  table_lt : ∀ s, ∀ f ∈ (t.scope s).fieldIds, s < t.scopes.size ∧ f < t.fields.size
  /-- An alias stands for a field of the same name further out, and in the end for a variable. -/
  outer : ∀ f outer, (t.field f).outer = some outer → outer < t.fields.size ∧
    (t.field outer).name = (t.field f).name ∧
    t.IsProperAncestor (t.field outer).scope (t.field f).scope ∧ t.ultimate f = t.ultimate outer
  ultimate : ∀ f, (t.field (t.ultimate f)).isAlias = false ∧
    ((t.field f).isAlias = false → t.ultimate f = f)
  /-- Only variables of known scopes inside the global one have other names. -/
  named : ∀ f, (t.field f).crunchedName ≠ none → (t.field f).isAlias = false ∧
    (t.scope (t.field f).scope).isKnown = true ∧ (t.field f).scope ≠ global
  verboten : ∀ s, ∀ u ∈ (t.scope s).verboten, u < t.fields.size ∧ (t.field u).isAlias = false ∧
    t.IsProperAncestor (t.field u).scope s

/-- A program whose names are those of their fields, over scopes and fields that fit together. -/
structure BoundProgram.IsConsistent (b : BoundProgram) : Prop where
  tree : b.tree.IsConsistent
  linked : ∀ id, .name id ∈ b.program.marks → ∀ f, id.field = some f →
    f < b.tree.fields.size ∧ (b.tree.field f).name = id.name

/-- The table of a scope has an entry for each of its fields. -/
theorem ScopeTree.WellFormed.count_table (formed : t.WellFormed) (bound : f < t.fields.size)
    (s : ScopeId) (name : String) : (t.scope s).table.count (name, f) =
      if s = (t.field f).scope ∧ name = (t.field f).name then 1 else 0 := by
  have distinct : (t.scope s).table.Nodup := List.Nodup.of_map _ (formed.namesDistinct s)
  have known : (name, f) ∈ (t.scope s).table ↔ s = (t.field f).scope ∧ name = (t.field f).name := by
    rw [formed.mem_table]
    constructor
    · rintro ⟨_, rfl, rfl⟩
      exact ⟨rfl, rfl⟩
    · rintro ⟨rfl, rfl⟩
      exact ⟨bound, rfl, rfl⟩
  rw [distinct.count]
  simp only [known]

theorem ScopeTree.WellFormed.isProperAncestor (formed : t.WellFormed) {a s : ScopeId}
    (within : Within t s a) (lower : a < s) : t.IsProperAncestor a s :=
  ⟨(isAncestorOrSelf_iff formed.parentsFirst).mpr within, Nat.ne_of_lt lower⟩

theorem BoundProgram.IsSound.isConsistent {b : BoundProgram} (sound : b.IsSound) : b.IsConsistent := by
  have formed := sound.formed
  have top : (b.tree.scope global).parent = none := by
    cases isParent : (b.tree.scope global).parent with
    | none => rfl
    | some parent => exact absurd (formed.parentsFirst _ _ isParent) (Nat.not_lt_zero _)
  have isVariable {f : FieldId} : (b.tree.field f).isAlias = false ↔ (b.tree.field f).outer = none := by
    simp [Field.isAlias]
  refine ⟨⟨⟨formed.nonempty, top⟩, fun s bound => ?_, formed.parentsFirst, formed.childrenAgree,
    formed.childrenDistinct, fun f bound => formed.count_table bound, fun s f mem => ?_,
    fun f outer isOuter => ?_, fun f => ?_, fun f isNamed => ?_, fun s u mem => ?_⟩, fun id mem => ?_⟩
  · exact (isAncestorOrSelf_iff formed.parentsFirst).mpr (formed.within_global bound)
  · obtain ⟨bound, rfl⟩ := formed.mem_fieldIds.mp mem
    exact ⟨formed.scope_lt f bound, bound⟩
  · have bound : f < b.tree.fields.size := by
      apply Nat.lt_of_not_le
      intro out
      rw [field_of_size_le out] at isOuter
      cases isOuter
    obtain ⟨within, lower⟩ := formed.outer_within f outer isOuter
    exact ⟨Nat.lt_trans (formed.outersFirst f outer isOuter) bound, formed.outer_name f outer isOuter,
      formed.isProperAncestor within lower, ultimate_of_alias formed.outersFirst isOuter⟩
  · exact ⟨isVariable.mpr (outer_ultimate formed.outersFirst f),
      fun notAlias => ultimate_of_variable (isVariable.mp notAlias)⟩
  · obtain ⟨outer, notGlobal, isKnown⟩ := sound.named f isNamed
    refine ⟨isVariable.mpr outer, isKnown, fun isGlobal => notGlobal ?_⟩
    rw [isGlobal]
    exact (formed.isGlobal_iff global formed.nonempty).mpr rfl
  · obtain ⟨bound, outer, within, lower⟩ := sound.verbotenOuter s u mem
    exact ⟨bound, isVariable.mpr outer, formed.isProperAncestor within lower⟩
  · exact sound.valid (.name id) mem

/-- Scopes, fields and names of a program that was read fit together at all stages, and the stages on
the way to the printed program are among them. -/
theorem Program.consistent_of_parse {source : String} {tokens : List Token} {p : Program}
    (isScanned : Token.scan source = .ok tokens) (isParsed : Program.parse tokens = .ok p) :
    (∀ b, p.Reaches b → b.IsConsistent) ∧
      ∀ settings, p.Reaches (p.bind settings) ∧ p.Reaches ((p.bind settings).shrink settings) ∧
        ∃ named, ((p.bind settings).shrink settings).chooseNames settings = .ok named ∧
          p.Reaches named := by
  have unbound := Program.isUnbound_of_parse isScanned isParsed
  refine ⟨fun b reaches => (reaches.isSound unbound).isConsistent, fun settings => ?_⟩
  have start : p.Reaches (p.bind settings) := ⟨settings, .refl⟩
  obtain ⟨named, isNamed, -⟩ := Program.exists_chooseNames settings unbound
  exact ⟨start, start.shrink settings, named, isNamed, (start.shrink settings).chooseNames isNamed⟩

/-- Functions, a `catch` clause and a `with` body. -/
theorem consistent_nested_scopes : ∃ tokens p,
    Token.scan "function f(o){try{o(12345678,12345678)}catch(e){with(o)return function(x){return e+x+12345678}}}" =
      .ok tokens ∧ Program.parse tokens = .ok p ∧ (p.bind {}).IsConsistent ∧
    ∃ named, ((p.bind {}).shrink {}).chooseNames {} = .ok named ∧ named.IsConsistent := by
  obtain ⟨tokens, p, isScanned, isParsed⟩ := Program.exists_of_isReadable (by decide +kernel :
    Program.isReadable "function f(o){try{o(12345678,12345678)}catch(e){with(o)return function(x){return e+x+12345678}}}" = true)
  obtain ⟨consistent, stages⟩ := Program.consistent_of_parse isScanned isParsed
  obtain ⟨start, -, named, isNamed, reached⟩ := stages {}
  exact ⟨tokens, p, isScanned, isParsed, consistent _ start, named, isNamed, consistent _ reached⟩

end Minifier
