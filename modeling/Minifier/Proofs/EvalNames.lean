import Minifier.Proofs.Stages

/-!
# Names that `eval` can get at

The text that a direct call of `eval` runs may mention any variable around the call. The scopes
around it are unknown from binding on, reserving names takes that outwards if all are to be safe, and
a variable of an unknown scope is written under its own name (`Program.eval_sees_source_names`).
-/

set_option autoImplicit false

namespace Minifier

open ScopeTree

variable {b named : BoundProgram} {settings : Settings}

/-- After names are reserved, scopes stay as they are, fields keep their places and names, and no
call of `eval` is added. -/
theorem BoundProgram.IsSound.exists_reserved (sound : b.IsSound)
    (isNamed : b.chooseNames settings = .ok named) :
    ∃ reserved, ScopeTree.reserve settings { b.tree with phase := .scopeAnalyzed } = .ok reserved ∧
      SameShape b.tree reserved ∧ Extends reserved named.tree ∧ SameMarks reserved named.tree ∧
      named.program.evalScopes = b.program.evalScopes := by
  obtain ⟨held, e, sound', isHeld, same, isReserved, isShared, isProgram, renamed, scopes⟩ :=
    sound.exists_shareLiterals isNamed
  have phase := phase_of_shareLiterals isShared
  obtain ⟨q, _, tree, isQ, shares⟩ := exists_shares settings (sound'.prepared (by rw [phase]; rfl)) phase
    (sound'.ungenerated (by rw [phase]; rfl)) sound'.scope sound'.valid
  obtain rfl := Except.ok.inj (isQ.symm.trans isShared)
  have grown : Extends held.tree q.value.tree :=
    ((Extends.of_sameShape (sameShape_withPhase held.tree .literalsShortcut)).trans
      shares.plan.grows.toExtends).trans shares.mentioned.grows.toExtends
  have marks := shares.plan.marks.trans shares.mentioned.marks
  refine ⟨held.tree, isReserved, same, grown.trans (.of_sameShape renamed), ?_, ?_⟩
  · exact ⟨fun s => by rw [scopes]; exact marks.kind s, fun s => by rw [scopes]; exact marks.isKnown s,
      fun s => by rw [scopes]; exact marks.functionField s⟩
  · rw [isProgram, ← isHeld]
    exact shares.evalScopes

/-- A scope that is not in the tree has none around it. -/
theorem ScopeTree.SeenFrom.eq_of_size_le {t : ScopeTree} {treatment : EvalTreatment} {s x : ScopeId}
    (seen : t.SeenFrom treatment s x) (out : t.scopes.size ≤ s) : x = s := by
  have top {y parent : ScopeId} (isParent : (t.scope y).parent = some parent) : y ≠ s := fun same =>
    Nat.not_lt.mpr out (same ▸ lt_size_of_parent isParent)
  induction seen with
  | own inside =>
    induction inside with
    | here => rfl
    | around _ _ isParent ih => exact absurd ih (top isParent)
  | outer _ _ _ isParent ih => exact absurd ih (top isParent)

/-- The scopes that calls of `eval` see are unknown when names are given. -/
theorem BoundProgram.IsSound.isKnown_of_seenFrom (sound : b.IsSound)
    (isNamed : b.chooseNames settings = .ok named) {s x : ScopeId}
    (marked : ∀ y, InFunction b.tree s y → (b.tree.scope y).isKnown = false)
    (seen : b.tree.SeenFrom settings.evalTreatment s x) : (named.tree.scope x).isKnown = false := by
  obtain ⟨reserved, isReserved, -, -, marks, -⟩ := sound.exists_reserved isNamed
  have analyzed := sameShape_withPhase b.tree .scopeAnalyzed
  obtain ⟨blurs, spreads⟩ := reserve_spreads (analyzed.wellFormed sound.formed) isReserved
  rw [marks.isKnown]
  induction seen with
  | own inside => exact blurs.unknown _ (marked _ inside)
  | outer _ isSafe runs isParent ih =>
    exact spreads isSafe _ _ ih ((analyzed.neverRuns (fun _ => rfl) rfl).trans runs) isParent

/-- Under every treatment of `eval` but to ignore it, a program that was read gets its names such
that a variable of an unknown scope keeps its own, and so does every variable in a scope that a direct
call of `eval` sees. No other calls than those of the bound program are left. -/
theorem Program.eval_sees_source_names {source : String} {tokens : List Token} {p : Program}
    (isScanned : Token.scan source = .ok tokens) (isParsed : Program.parse tokens = .ok p)
    {settings : Settings} (isTreated : settings.evalTreatment ≠ .ignore) :
    let bound := p.bind settings
    let small := bound.shrink settings
    ∃ named, small.chooseNames settings = .ok named ∧
      named.program.evalScopes ≤ bound.program.evalScopes ∧
      (∀ f, (named.tree.scope (named.tree.field f).scope).isKnown = false →
        (named.tree.field f).crunchedName = none) ∧
      ∀ s, some s ∈ bound.program.evalScopes → ∀ x, small.tree.SeenFrom settings.evalTreatment s x →
        ∀ f name, bound.tree.IsVariable f x name → named.tree.displayName f = name := by
  intro bound small
  have unbound := Program.isUnbound_of_parse isScanned isParsed
  have isBound : bound.IsBound := Program.bind_isBound settings unbound
  have reached : p.Reaches small := .shrink ⟨settings, .refl⟩ settings
  obtain ⟨named, isNamed, -⟩ := Program.exists_chooseNames settings unbound
  have sound := reached.isSound unbound
  have sound' := (reached.chooseNames isNamed).isSound unbound
  obtain ⟨reserved, -, same, grown, -, calls⟩ := sound.exists_reserved isNamed
  have trims : Trims bound.tree small.tree := (BoundProgram.trims_shrink isBound.valid settings).tree
  have blurs := Blurs.of_sameMarks trims.toSameShape trims.toSameMarks
  have kept (f : FieldId) (unknown : (named.tree.scope (named.tree.field f).scope).isKnown = false) :
      (named.tree.field f).crunchedName = none := by
    by_contra isNamed
    rw [(sound'.named f isNamed).isKnown] at unknown
    cases unknown
  refine ⟨named, isNamed, ?_, kept, ?_⟩
  · rw [calls]
    exact bound.evalScopes_shrink_le settings
  · intro s isCalled x seen f name ⟨isField, isScope, isName, isVariable⟩
    have whole := trims.toSameShape.trans same
    have isField' : f < reserved.fields.size := whole.fields_size ▸ isField
    have isOuter : (named.tree.field f).outer = none := by
      rw [grown.outer f isField', whole.outer, isVariable]
    have isScope' : (named.tree.field f).scope = x := by
      rw [grown.scope f isField', whole.scope, isScope]
    have known : s < bound.tree.scopes.size := by
      apply Nat.lt_of_not_le
      intro out
      obtain rfl := seen.eq_of_size_le (trims.scopes_size ▸ out)
      exact Nat.not_lt.mpr out (isScope ▸ isBound.fresh.formed.scope_lt f isField)
    have unknown : (named.tree.scope x).isKnown = false := by
      refine sound.isKnown_of_seenFrom isNamed (fun y inside => ?_) seen
      exact blurs.unknown y (p.bind_isKnown isTreated known isCalled (blurs.inFunction inside))
    rw [displayName, ultimate_of_variable isOuter, kept f (by rw [isScope', unknown])]
    exact (grown.name f isField').trans ((whole.name f).trans isName)

/-- A call of `eval` in a `catch` clause of an inner function. -/
theorem eval_sees_nested_scopes :
    let settings : Settings := { evalTreatment := .makeAllSafe }
    ∃ tokens p, Token.scan "function f(a){function g(b){try{b(a)}catch(e){eval(b)}}g(a)}f(1)" = .ok tokens ∧
      Program.parse tokens = .ok p ∧
      ∃ named, ((p.bind settings).shrink settings).chooseNames settings = .ok named ∧
        ∀ s, some s ∈ (p.bind settings).program.evalScopes → ∀ x,
          ((p.bind settings).shrink settings).tree.SeenFrom .makeAllSafe s x →
          ∀ f name, (p.bind settings).tree.IsVariable f x name → named.tree.displayName f = name := by
  intro settings
  obtain ⟨tokens, p, isScanned, isParsed⟩ := Program.exists_of_isReadable (by decide +kernel :
    Program.isReadable "function f(a){function g(b){try{b(a)}catch(e){eval(b)}}g(a)}f(1)" = true)
  have isTreated : settings.evalTreatment ≠ .ignore := by decide
  obtain ⟨named, isNamed, -, -, kept⟩ := Program.eval_sees_source_names isScanned isParsed isTreated
  exact ⟨tokens, p, isScanned, isParsed, named, isNamed, kept⟩

end Minifier
