import Minifier.Proofs.Scope.Lookup
import Minifier.Proofs.Scope.Reserve

/-!
# Scopes that are looked into when they run

A direct call of `eval` gets at names by their text, so the scopes around it become unknown and keep
their names. Binding marks those up to the function of the call (`isKnown_evalMarked`). If all names
around are to be safe, reserving names takes the mark further out, past every function that may run
(`reserve_spreads`). No step makes a scope known again (`Blurs`).
-/

set_option autoImplicit false

namespace Minifier

open List

namespace ScopeTree

variable (treatment : EvalTreatment)

variable {t t' t'' : ScopeTree}

/-! ## Scopes around a call -/

/-- The scopes from one outwards, up to its function or the global scope. -/
inductive InFunction (t : ScopeTree) (s : ScopeId) : ScopeId → Prop where
  | here : InFunction t s s
  | around {x parent : ScopeId} : InFunction t s x → (t.scope x).isFunctionLevel = false →
      (t.scope x).parent = some parent → InFunction t s parent

/-- The scopes whose names a direct call of `eval` in a scope can get at: those in its function, and
if all are to be safe, those further out too, except past a function that never runs. -/
inductive SeenFrom (treatment : EvalTreatment) (t : ScopeTree) (s : ScopeId) : ScopeId → Prop where
  | own {x : ScopeId} : InFunction t s x → SeenFrom treatment t s x
  | outer {x parent : ScopeId} : SeenFrom treatment t s x → treatment = .makeAllSafe →
      t.neverRuns x = false → (t.scope x).parent = some parent → SeenFrom treatment t s parent

/-! ## Changes that make scopes unknown -/

/-- A change to a tree that leaves its scopes where they are and makes none known. -/
structure Blurs (t t' : ScopeTree) : Prop where
  scopes_size : t'.scopes.size = t.scopes.size
  parent : ∀ s, (t'.scope s).parent = (t.scope s).parent
  kind : ∀ s, (t'.scope s).kind = (t.scope s).kind
  unknown : ∀ s, (t.scope s).isKnown = false → (t'.scope s).isKnown = false

namespace Blurs

theorem refl (t : ScopeTree) : Blurs t t := ⟨rfl, fun _ => rfl, fun _ => rfl, fun _ unknown => unknown⟩

theorem trans (first : Blurs t t') (second : Blurs t' t'') : Blurs t t'' where
  scopes_size := second.scopes_size.trans first.scopes_size
  parent s := (second.parent s).trans (first.parent s)
  kind s := (second.kind s).trans (first.kind s)
  unknown s unknown := second.unknown s (first.unknown s unknown)

theorem of_sameMarks (same : SameShape t t') (marks : SameMarks t t') : Blurs t t' where
  scopes_size := same.scopes_size
  parent := same.parent
  kind := same.kind
  unknown s unknown := (marks.isKnown s).trans unknown

theorem addField (t : ScopeTree) (field : Field) : Blurs t (t.addField field).2 where
  scopes_size := scopes_size_addField t field
  parent s := (place_addField t field s).1
  kind s := (place_addField t field s).2.2
  unknown s unknown := ((SameMarks.addField t field).isKnown s).trans unknown

theorem declare (t : ScopeTree) (s : ScopeId) (name : String) (kind : FieldKind) (span : Span) :
    Blurs t (t.declare s name kind span).2 := by
  unfold ScopeTree.declare
  split
  · exact refl t
  · exact addField t _

theorem createAlias (t : ScopeTree) (s : ScopeId) (outer : FieldId) :
    Blurs t (t.createAlias s outer).2 := by
  simp only [ScopeTree.createAlias]
  split
  · exact refl t
  · exact addField t _

theorem modifyScope (t : ScopeTree) (id : ScopeId) (f : Scope → Scope)
    (keeps : ∀ s, (f s).parent = s.parent ∧ (f s).kind = s.kind ∧
      (s.isKnown = false → (f s).isKnown = false)) : Blurs t (t.modifyScope id f) where
  scopes_size := scopes_size_modifyScope t id f
  parent s := by rw [scope_modifyScope]; split <;> simp [keeps]
  kind s := by rw [scope_modifyScope]; split <;> simp [keeps]
  unknown s unknown := by
    rw [scope_modifyScope]
    split
    · exact (keeps _).2.2 unknown
    · exact unknown

theorem chain (blurs : Blurs t t') (s : ScopeId) : t'.chain s = t.chain s := by
  have step : ∀ fuel s, t'.chainFrom fuel s = t.chainFrom fuel s := by
    intro fuel
    induction fuel with
    | zero => exact fun _ => rfl
    | succ fuel ih =>
      intro s
      simp only [chainFrom, blurs.parent, ih]
  exact step _ s

theorem functionScopeOf (blurs : Blurs t t') (s : ScopeId) :
    t'.functionScopeOf s = t.functionScopeOf s := by
  simp only [ScopeTree.functionScopeOf, blurs.chain, Scope.isFunctionLevel, blurs.kind]

theorem inFunction (blurs : Blurs t t') {s x : ScopeId} (inside : InFunction t' s x) :
    InFunction t s x := by
  induction inside with
  | here => exact .here
  | around _ level isParent ih =>
    refine .around ih ?_ (blurs.parent _ ▸ isParent)
    rw [← level]
    simp only [Scope.isFunctionLevel, blurs.kind]

end Blurs

/-! ## Marks of a call -/

theorem InFunction.within {s x : ScopeId} (inside : InFunction t s x) : Within t s x := by
  induction inside with
  | here => exact .refl s
  | around _ _ isParent ih => exact ih.trans (.step isParent (.refl _))

theorem InFunction.functionScopeOf (formed : t.WellFormed) {s x : ScopeId} (inside : InFunction t s x) :
    t.functionScopeOf x = t.functionScopeOf s := by
  induction inside with
  | here => rfl
  | around _ level isParent ih => exact (formed.functionScopeOf_of_parent isParent level).symm.trans ih

/-- The scopes that a call marks are those in its function. -/
theorem InFunction.mem (formed : t.WellFormed) {s x : ScopeId} (inside : InFunction t s x) :
    x ∈ t.chainUpTo s (t.functionScopeOf s) ++ [t.functionScopeOf s] := by
  have within := within_functionScopeOf formed.parentsFirst x
  rw [inside.functionScopeOf formed] at within
  rw [mem_append, mem_singleton,
    mem_chainUpTo_iff formed.parentsFirst (within_functionScopeOf formed.parentsFirst s)]
  rcases Nat.lt_or_eq_of_le (within.le formed.parentsFirst) with lower | same
  · exact .inl ⟨inside.within, lower⟩
  · exact .inr same.symm

theorem blurs_evalMarked (s : ScopeId) (t : ScopeTree) : Blurs t (Bind.evalMarked treatment s t) := by
  refine relates_foldl .refl .trans (fun t id => ?_) _ t
  exact .modifyScope t id _ fun s => ⟨rfl, rfl, fun unknown => by simp [unknown]⟩

/-- A call makes the scopes in its function unknown, whatever else was marked before. -/
theorem isKnown_evalMarked {treatment : EvalTreatment} (isTreated : treatment ≠ .ignore)
    (formed : t.WellFormed) (blurs : Blurs t t') {s x : ScopeId} (bound : s < t.scopes.size)
    (inside : InFunction t s x) : ((Bind.evalMarked treatment s t').scope x).isKnown = false := by
  have mem := inside.mem formed
  have bound : x < t'.scopes.size := by
    rw [blurs.scopes_size]
    exact Nat.lt_of_le_of_lt (inside.within.le formed.parentsFirst) bound
  simp only [Bind.evalMarked, chainUpTo, blurs.chain, blurs.functionScopeOf]
  rw [chainUpTo] at mem
  generalize (t.chain s).takeWhile (· ≠ t.functionScopeOf s) ++ [t.functionScopeOf s] = scopes at mem
  clear blurs
  induction scopes generalizing t' with
  | nil => cases mem
  | cons id rest ih =>
    rw [foldl_cons]
    rcases mem_cons.mp mem with rfl | later
    · refine (relates_foldl Blurs.refl Blurs.trans (fun t id => ?_) rest _).unknown x ?_
      · exact .modifyScope t id _ fun s => ⟨rfl, rfl, fun unknown => by simp [unknown]⟩
      · rw [scope_modifyScope, if_pos ⟨rfl, bound⟩]
        simp [isTreated]
    · exact ih (by rwa [scopes_size_modifyScope]) later

/-! ## Marks that go outwards -/

theorem sameMarks_reserveIn (t : ScopeTree) (s : ScopeId) : SameMarks t (t.reserveIn s) :=
  relates_foldl .refl .trans sameMarks_reserveAlias _ t

theorem functionField_spreadUnknown (t : ScopeTree) (id s : ScopeId) :
    ((t.spreadUnknown treatment id).scope s).functionField = (t.scope s).functionField := by
  simp only [spreadUnknown]
  split
  · split
    · rw [scope_modifyScope]
      split <;> rfl
    · rfl
  · rfl

theorem blurs_spreadUnknown (t : ScopeTree) (id : ScopeId) :
    Blurs t (t.spreadUnknown treatment id) := by
  simp only [spreadUnknown]
  split
  · split
    · exact .modifyScope t _ _ fun _ => ⟨rfl, rfl, fun _ => rfl⟩
    · exact .refl t
  · exact .refl t

/-- Only the scope around one may become unknown because of it. -/
theorem isKnown_spreadUnknown {id s : ScopeId} (other : (t.scope id).parent ≠ some s) :
    ((t.spreadUnknown treatment id).scope s).isKnown = (t.scope s).isKnown := by
  simp only [spreadUnknown]
  split
  · split
    · rename_i parent isParent
      rw [scope_modifyScope, if_neg]
      rintro ⟨rfl, _⟩
      exact other isParent
    · rfl
  · rfl

theorem isKnown_spreadUnknown_parent {id parent : ScopeId} (ordered : t.ParentsFirst)
    (unknown : (t.scope id).isKnown = false) (runs : t.neverRuns id = false)
    (isParent : (t.scope id).parent = some parent) :
    ((t.spreadUnknown .makeAllSafe id).scope parent).isKnown = false := by
  have bound : parent < t.scopes.size :=
    Nat.lt_trans (ordered id parent isParent) (lt_size_of_parent isParent)
  simp [spreadUnknown, unknown, runs, isParent, scope_modifyScope, bound]

/-- What one scope does while names are reserved. -/
theorem blurs_step (t : ScopeTree) (s : ScopeId) :
    Blurs t ((t.spreadUnknown treatment s).reserveIn s) :=
  (blurs_spreadUnknown treatment t s).trans
    (.of_sameMarks (reserves_reserveIn _ s).toSameShape (sameMarks_reserveIn _ s))

/-- Whether a function runs depends on counts only. -/
theorem SameShape.neverRuns (same : SameShape t t') (refs : ∀ f, (t'.field f).refs = (t.field f).refs)
    {s : ScopeId} (owner : (t'.scope s).functionField = (t.scope s).functionField) :
    t'.neverRuns s = t.neverRuns s := by
  have total (f : FieldId) : t'.totalRefs f = t.totalRefs f := by
    rw [totalRefs, totalRefs, same.ultimate, refs]
  rw [ScopeTree.neverRuns, ScopeTree.neverRuns, owner]
  exact congrArg (Option.any · _) (funext fun f => by rw [total])

theorem neverRuns_step (t : ScopeTree) (id s : ScopeId) :
    ((t.spreadUnknown treatment id).reserveIn id).neverRuns s = t.neverRuns s := by
  have same := reserves_step treatment t id
  refine same.toSameShape.neverRuns same.refs ?_
  rw [(sameMarks_reserveIn _ id).functionField, functionField_spreadUnknown]

/-- Once a scope has had its turn, it makes the scope around it unknown if it is so itself: it comes
after the scopes inside it, so no later one marks it. -/
theorem unknown_parent_foldl (ordered : t.ParentsFirst) {scopes : List ScopeId}
    (outwards : scopes.Pairwise fun a b => ¬ Within t b a) :
    let t' := scopes.foldl (fun t s => (t.spreadUnknown .makeAllSafe s).reserveIn s) t
    ∀ s ∈ scopes, ∀ parent, (t'.scope s).isKnown = false → t.neverRuns s = false →
      (t.scope s).parent = some parent → (t'.scope parent).isKnown = false := by
  induction scopes generalizing t with
  | nil => exact fun _ mem => (nomatch mem)
  | cons id rest ih =>
    intro t' s mem parent unknown runs isParent
    obtain ⟨first, later⟩ := pairwise_cons.mp outwards
    have step := blurs_step .makeAllSafe t id
    have shape := (reserves_step .makeAllSafe t id).toSameShape
    rcases mem_cons.mp mem with rfl | mem
    · have own : (t.scope s).parent ≠ some s := fun same =>
        Nat.lt_irrefl s (ordered s s same)
      have untouched : ∀ (l : List ScopeId) (t₁ : ScopeTree), SameShape t t₁ →
          (∀ b ∈ l, ¬ Within t b s) →
          ((l.foldl (fun t s => (t.spreadUnknown .makeAllSafe s).reserveIn s) t₁).scope s).isKnown =
            (t₁.scope s).isKnown := by
        intro l
        induction l with
        | nil => exact fun _ _ _ => rfl
        | cons b l ih =>
          intro t₁ same outside
          have apart : (t₁.scope b).parent ≠ some s := by
            rw [same.parent]
            exact fun isParent => outside b mem_cons_self (.step isParent (.refl s))
          refine (ih _ (same.trans (reserves_step .makeAllSafe t₁ b).toSameShape)
            fun b mem => outside b (mem_cons_of_mem _ mem)).trans ?_
          rw [(sameMarks_reserveIn _ b).isKnown, isKnown_spreadUnknown _ apart]
      have before : (t.scope s).isKnown = false := by
        rw [← isKnown_spreadUnknown .makeAllSafe own,
          ← (sameMarks_reserveIn _ s).isKnown, ← untouched rest _ shape first]
        exact unknown
      refine (relates_foldl Blurs.refl Blurs.trans (blurs_step .makeAllSafe) rest _).unknown parent ?_
      rw [(sameMarks_reserveIn _ s).isKnown]
      exact isKnown_spreadUnknown_parent ordered before runs isParent
    · have ordered' : ((t.spreadUnknown .makeAllSafe id).reserveIn id).ParentsFirst := fun s parent isParent =>
        ordered s parent (shape.parent s ▸ isParent)
      refine ih ordered' (later.imp fun apart within => apart ((shape.within_iff).mp within)) s mem parent
        unknown ?_ ?_
      · rw [neverRuns_step, runs]
      · rw [shape.parent, isParent]

/-- Reserving names makes scopes unknown from the inside outwards. -/
theorem reserve_spreads {settings : Settings} (formed : t.WellFormed)
    (isReserved : t.reserve settings = .ok t') :
    Blurs t t' ∧ (settings.evalTreatment = .makeAllSafe → ∀ s parent, (t'.scope s).isKnown = false →
      t.neverRuns s = false → (t.scope s).parent = some parent →
      (t'.scope parent).isKnown = false) := by
  by_cases phase : t.phase = .scopeAnalyzed
  case neg =>
    rw [reserve, advance, if_neg phase] at isReserved
    cases isReserved
  rw [reserve, advance, if_pos phase] at isReserved
  obtain rfl := Except.ok.inj isReserved
  let t₀ : ScopeTree := { t with phase := .fieldsReserved }
  have same := sameShape_withPhase t .fieldsReserved
  have blurs := relates_foldl Blurs.refl Blurs.trans (blurs_step settings.evalTreatment) t₀.bottomUp t₀
  refine ⟨⟨blurs.scopes_size, blurs.parent, blurs.kind, blurs.unknown⟩, ?_⟩
  intro isSafe s parent unknown runs isParent
  have formed₀ : t₀.WellFormed := same.wellFormed formed
  have outwards : t₀.bottomUp.Pairwise fun a b => ¬ Within t₀ b a :=
    pairwise_reverse.mpr (pairwise_subtreeFrom formed₀.parentsFirst formed₀.childrenAgree
      formed₀.childrenDistinct _ _)
  have mem : s ∈ t₀.bottomUp := mem_reverse.mpr (mem_topDown formed₀ (lt_size_of_parent isParent))
  have spread := unknown_parent_foldl formed₀.parentsFirst outwards s mem parent
  rw [isSafe] at unknown ⊢
  exact spread unknown ((same.neverRuns (fun _ => rfl) rfl).trans runs) isParent

end ScopeTree

end Minifier
