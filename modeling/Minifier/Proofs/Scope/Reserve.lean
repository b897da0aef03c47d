import Minifier.Proofs.Scope.Lexical
import Minifier.Scope.Rename

/-!
# Reserving names

A field is reserved if all scopes from its own outwards, up to that of its variable, keep away from
the name of the variable. Reserving the names of a tree reserves every alias that is mentioned
(`reserve_reserved`); from then on scopes only learn of more names to keep away from. Scopes are taken
from the outermost inwards, and what one step reserves stays reserved in all later ones.
-/

set_option autoImplicit false

namespace Minifier.ScopeTree

open List

variable {f : FieldId} (treatment : EvalTreatment)

variable {t t' t'' : ScopeTree}

/-- The scopes between a field and its variable leave the name of the variable alone. -/
def Reserved (t : ScopeTree) (f : FieldId) : Prop :=
  ∀ x, Within t (t.field f).scope x → (t.field (t.ultimate f)).scope < x →
    t.ultimate f ∈ (t.scope x).verboten

/-- Only variables from further out are left alone. -/
def VerbotenOuter (t : ScopeTree) : Prop :=
  ∀ s, ∀ u ∈ (t.scope s).verboten, u < t.fields.size ∧ (t.field u).outer = none ∧
    Within t s (t.field u).scope ∧ (t.field u).scope < s

theorem SameShape.verbotenOuter (same : SameShape t t')
    (verboten : ∀ s, (t'.scope s).verboten = (t.scope s).verboten) (outer : t.VerbotenOuter) :
    t'.VerbotenOuter := by
  intro s u mem
  rw [same.fields_size, same.outer, same.scope, same.within_iff]
  exact outer s u (verboten s ▸ mem)

theorem SameShape.reserved (same : SameShape t t')
    (verboten : ∀ s, (t.scope s).verboten ⊆ (t'.scope s).verboten) (known : t.Reserved f) :
    t'.Reserved f := by
  intro x within lower
  rw [same.ultimate, same.scope] at lower
  rw [same.scope, same.within_iff] at within
  rw [same.ultimate]
  exact verboten x (known x within lower)

/-- A change to a tree that only adds names to leave alone. -/
structure Reserves (t t' : ScopeTree) : Prop extends SameShape t t' where
  generatedCount : t'.generatedCount = t.generatedCount
  isGenerated : ∀ f, (t'.field f).isGenerated = (t.field f).isGenerated
  crunchedName : ∀ f, (t'.field f).crunchedName = (t.field f).crunchedName
  refs : ∀ f, (t'.field f).refs = (t.field f).refs
  phase : t'.phase = t.phase
  verboten : ∀ s, (t.scope s).verboten ⊆ (t'.scope s).verboten

namespace Reserves

theorem refl (t : ScopeTree) : Reserves t t :=
  ⟨.refl t, rfl, fun _ => rfl, fun _ => rfl, fun _ => rfl, rfl, fun _ => List.Subset.refl _⟩

theorem trans (first : Reserves t t') (second : Reserves t' t'') : Reserves t t'' where
  toSameShape := first.toSameShape.trans second.toSameShape
  generatedCount := second.generatedCount.trans first.generatedCount
  isGenerated f := (second.isGenerated f).trans (first.isGenerated f)
  crunchedName f := (second.crunchedName f).trans (first.crunchedName f)
  refs f := (second.refs f).trans (first.refs f)
  phase := second.phase.trans first.phase
  verboten s := List.Subset.trans (first.verboten s) (second.verboten s)

theorem keeps (reserves : Reserves t t') {f : FieldId} (known : t.Reserved f) : t'.Reserved f :=
  reserves.toSameShape.reserved reserves.verboten known

end Reserves

theorem reserves_modifyScope (t : ScopeTree) (id : ScopeId) (f : Scope → Scope)
    (keeps : ∀ s, (f s).parent = s.parent ∧ (f s).children = s.children ∧ (f s).table = s.table ∧
      (f s).kind = s.kind ∧ s.verboten ⊆ (f s).verboten) : Reserves t (t.modifyScope id f) where
  toSameShape := sameShape_modifyScope t id f fun s => by simp [keeps]
  generatedCount := rfl
  isGenerated _ := rfl
  crunchedName _ := rfl
  refs _ := rfl
  phase := rfl
  verboten s := by
    rw [scope_modifyScope]
    split
    · exact (keeps _).2.2.2.2
    · exact List.Subset.refl _

/-! ## One alias -/

/-- Adds a variable to those that a scope leaves alone. -/
theorem mem_verboten_add (t : ScopeTree) (scopes : List ScopeId) (u w : FieldId) (s : ScopeId) :
    w ∈ ((scopes.foldl (fun t id => t.modifyScope id fun s =>
      { s with verboten := if s.verboten.contains u then s.verboten else s.verboten ++ [u] }) t).scope
        s).verboten ↔
      w ∈ (t.scope s).verboten ∨ w = u ∧ s ∈ scopes ∧ s < t.scopes.size := by
  induction scopes generalizing t with
  | nil => simp
  | cons id rest ih =>
    rw [foldl_cons, ih, scopes_size_modifyScope, scope_modifyScope]
    by_cases here : id = s ∧ s < t.scopes.size
    · obtain ⟨rfl, bound⟩ := here
      simp only [bound, and_self, if_true, mem_cons, true_or, and_true]
      by_cases known : (t.scope id).verboten.contains u
      · have mem : u ∈ (t.scope id).verboten := by simpa using known
        simp only [known, if_true]
        grind
      · simp only [known]
        simp
        grind
    · rw [if_neg here, mem_cons]
      constructor
      · rintro (old | ⟨same, mem, bound⟩)
        · exact .inl old
        · exact .inr ⟨same, .inr mem, bound⟩
      · rintro (old | ⟨same, rfl | mem, bound⟩)
        · exact .inl old
        · exact absurd ⟨rfl, bound⟩ here
        · exact .inr ⟨same, mem, bound⟩

theorem mem_verboten_reserveAlias (t : ScopeTree) (f w : FieldId) (s : ScopeId) :
    w ∈ ((t.reserveAlias f).scope s).verboten ↔ w ∈ (t.scope s).verboten ∨
      w = t.ultimate f ∧ s ∈ t.chainUpTo (t.field f).scope (t.field (t.ultimate f)).scope ∧
        s < t.scopes.size :=
  mem_verboten_add t _ _ w s

theorem reserves_reserveAlias (t : ScopeTree) (f : FieldId) : Reserves t (t.reserveAlias f) := by
  refine relates_foldl .refl .trans (fun t id => ?_) _ t
  refine reserves_modifyScope t id _ fun s => ⟨rfl, rfl, rfl, rfl, ?_⟩
  simp only
  split
  · exact List.Subset.refl _
  · exact subset_append_left _ _

theorem sameMarks_reserveAlias (t : ScopeTree) (f : FieldId) : SameMarks t (t.reserveAlias f) := by
  refine relates_foldl .refl .trans (fun t id => ?_) _ t
  exact .modifyScope t id _ fun _ => ⟨rfl, rfl, rfl⟩

theorem reserved_reserveAlias (formed : t.WellFormed) (bound : f < t.fields.size) :
    (t.reserveAlias f).Reserved f := by
  have same := reserves_reserveAlias t f
  intro x within lower
  rw [same.ultimate, same.scope] at lower
  rw [same.scope, same.within_iff] at within
  rw [same.ultimate, mem_verboten_reserveAlias]
  refine .inr ⟨rfl, ?_, ?_⟩
  · exact (mem_chainUpTo_iff formed.parentsFirst (formed.within_ultimate f)).mpr ⟨within, lower⟩
  · exact Nat.lt_of_le_of_lt (within.le formed.parentsFirst) (formed.scope_lt f bound)

theorem VerbotenOuter.reserveAlias (outer : t.VerbotenOuter) (formed : t.WellFormed)
    (bound : f < t.fields.size) : (t.reserveAlias f).VerbotenOuter := by
  have same := reserves_reserveAlias t f
  intro s u mem
  rw [same.fields_size, same.outer, same.scope, same.within_iff]
  rcases (mem_verboten_reserveAlias t f u s).mp mem with old | ⟨rfl, between, _⟩
  · exact outer s u old
  · have around := formed.within_ultimate f
    obtain ⟨within, lower⟩ := (mem_chainUpTo_iff formed.parentsFirst around).mp between
    refine ⟨Nat.lt_of_le_of_lt (formed.ultimate_le f) bound, outer_ultimate formed.outersFirst f,
      ?_, lower⟩
    exact within.of_le formed.parentsFirst around (Nat.le_of_lt lower)

/-- A variable has no scopes between itself and itself. -/
theorem reserved_of_variable (formed : t.WellFormed) (isVariable : (t.field f).outer = none) :
    t.Reserved f := by
  intro x within lower
  rw [ultimate_of_variable isVariable] at lower
  exact absurd lower (Nat.not_lt_of_le (within.le formed.parentsFirst))

/-! ## All scopes -/

theorem reserves_spreadUnknown (t : ScopeTree) (s : ScopeId) :
    Reserves t (t.spreadUnknown treatment s) := by
  simp only [spreadUnknown]
  split
  · split
    · exact reserves_modifyScope t _ _ fun _ => ⟨rfl, rfl, rfl, rfl, List.Subset.refl _⟩
    · exact .refl t
  · exact .refl t

theorem verboten_spreadUnknown (t : ScopeTree) (id s : ScopeId) :
    ((t.spreadUnknown treatment id).scope s).verboten = (t.scope s).verboten := by
  simp only [spreadUnknown]
  split
  · split
    · rw [scope_modifyScope]
      split <;> rfl
    · rfl
  · rfl

theorem reserves_reserveIn (t : ScopeTree) (s : ScopeId) : Reserves t (t.reserveIn s) :=
  relates_foldl .refl .trans reserves_reserveAlias _ t

/-- Reserving aliases one after the other reserves each of them. -/
theorem reserved_foldl (formed : t.WellFormed) (outer : t.VerbotenOuter) {fields : List FieldId}
    (bounds : ∀ f ∈ fields, f < t.fields.size) : (fields.foldl reserveAlias t).VerbotenOuter ∧
      ∀ f ∈ fields, (fields.foldl reserveAlias t).Reserved f := by
  induction fields generalizing t with
  | nil => exact ⟨outer, fun _ mem => (nomatch mem)⟩
  | cons f rest ih =>
    have same := reserves_reserveAlias t f
    have bound := bounds f mem_cons_self
    obtain ⟨outer', reserved⟩ := ih (same.wellFormed formed) (outer.reserveAlias formed bound)
      fun g mem => same.fields_size.symm ▸ bounds g (mem_cons_of_mem _ mem)
    refine ⟨outer', fun g mem => ?_⟩
    rcases mem_cons.mp mem with rfl | mem
    · exact (relates_foldl Reserves.refl Reserves.trans reserves_reserveAlias rest _).keeps (reserved_reserveAlias formed bound)
    · exact reserved g mem

/-- One scope on the way: what it mentions gets reserved. -/
theorem reserved_reserveIn (formed : t.WellFormed) (outer : t.VerbotenOuter) (s : ScopeId) :
    (t.reserveIn s).VerbotenOuter ∧
      ∀ f < t.fields.size, (t.field f).scope = s → 0 < (t.field f).refs →
        (t.reserveIn s).Reserved f := by
  have mentioned : ∀ f ∈ (t.scope s).fieldIds.filter fun f =>
      (t.field f).isAlias && 0 < (t.field f).refs, f < t.fields.size := by
    intro f mem
    exact (formed.mem_fieldIds.mp (mem_filter.mp mem).1).1
  obtain ⟨outer', reserved⟩ := reserved_foldl formed outer mentioned
  refine ⟨outer', fun f bound isScope counted => ?_⟩
  cases isAlias : (t.field f).outer with
  | none =>
    have same := reserves_reserveIn t s
    exact reserved_of_variable (same.wellFormed formed) ((same.outer f).trans isAlias)
  | some around =>
    refine reserved f (mem_filter.mpr ⟨formed.mem_fieldIds.mpr ⟨bound, isScope⟩, ?_⟩)
    simp [Field.isAlias, isAlias, counted]

theorem reserves_step (t : ScopeTree) (s : ScopeId) :
    Reserves t ((t.spreadUnknown treatment s).reserveIn s) :=
  (reserves_spreadUnknown treatment t s).trans (reserves_reserveIn _ s)

theorem reserved_scopes (formed : t.WellFormed) (outer : t.VerbotenOuter) (scopes : List ScopeId) :
    (scopes.foldl (fun t s => (t.spreadUnknown treatment s).reserveIn s) t).VerbotenOuter ∧
      ∀ f < t.fields.size, (t.field f).scope ∈ scopes → 0 < (t.field f).refs →
        (scopes.foldl (fun t s => (t.spreadUnknown treatment s).reserveIn s) t).Reserved f := by
  induction scopes generalizing t with
  | nil => exact ⟨outer, fun _ _ mem => (nomatch mem)⟩
  | cons s rest ih =>
    have spread := reserves_spreadUnknown treatment t s
    have outer₁ : (t.spreadUnknown treatment s).VerbotenOuter :=
      spread.verbotenOuter (verboten_spreadUnknown treatment t s) outer
    have same := reserves_step treatment t s
    obtain ⟨outer₂, reserved₂⟩ := reserved_reserveIn (spread.wellFormed formed) outer₁ s
    obtain ⟨outer₃, reserved₃⟩ := ih (same.wellFormed formed) outer₂
    refine ⟨outer₃, fun f bound mem counted => ?_⟩
    rcases mem_cons.mp mem with here | later
    · refine (relates_foldl Reserves.refl Reserves.trans (reserves_step treatment) rest _).keeps (reserved₂ f ?_ ?_ ?_)
      · exact spread.fields_size.symm ▸ bound
      · exact (spread.scope f).trans here
      · exact (spread.refs f).symm ▸ counted
    · refine reserved₃ f ?_ ?_ ?_
      · exact same.fields_size.symm ▸ bound
      · exact (same.scope f).symm ▸ later
      · exact (same.refs f).symm ▸ counted

theorem mem_topDown (formed : t.WellFormed) {s : ScopeId} (bound : s < t.scopes.size) :
    s ∈ t.topDown :=
  (mem_subtree_iff formed.parentsFirst formed.childrenAgree formed.nonempty).mpr
    (formed.within_global bound)

/-- Reserving succeeds in its phase, and reserves every field that is mentioned. -/
theorem reserve_reserved (settings : Settings) (formed : t.WellFormed) (outer : t.VerbotenOuter)
    (phase : t.phase = .scopeAnalyzed) :
    ∃ t', t.reserve settings = .ok t' ∧ Reserves { t with phase := .fieldsReserved } t' ∧
      t'.VerbotenOuter ∧ ∀ f < t.fields.size, 0 < (t.field f).refs → t'.Reserved f := by
  have advanced : t.advance .scopeAnalyzed .fieldsReserved =
      .ok { t with phase := .fieldsReserved } := if_pos phase
  have same := sameShape_withPhase t .fieldsReserved
  have formed' := same.wellFormed formed
  refine ⟨_, by rw [reserve, advanced]; rfl, relates_foldl Reserves.refl Reserves.trans (reserves_step _) _ _, ?_⟩
  obtain ⟨outer', reserved⟩ := reserved_scopes settings.evalTreatment formed'
    (same.verbotenOuter (fun _ => rfl) outer) (ScopeTree.bottomUp { t with phase := .fieldsReserved })
  refine ⟨outer', fun f bound counted => reserved f bound ?_ counted⟩
  exact mem_reverse.mpr (mem_topDown formed' (formed.scope_lt f bound))

end Minifier.ScopeTree
