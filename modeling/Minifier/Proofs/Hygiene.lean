import Minifier.Proofs.Parse.Unbound
import Minifier.Proofs.Scope.Hygiene
import Minifier.Proofs.SharedLiteral

/-!
# Hygiene

The names that a program is written with are such that each mention is of the variable it was bound
to: between a mention and its variable, no other variable is written alike. This holds of every
program that can be read and under all settings (`Program.hygienic_of_parse`).

The proof follows a program through the steps that are made with it. Reading leaves plain names,
binding a fresh tree in which a mention is of the innermost variable of its name, and shrinking keeps
it so; then names are reserved for all that is mentioned, variables for shared literals are added
under names of their own, and short names are given, the last of them to those variables.
-/

set_option autoImplicit false

namespace Minifier

open ScopeTree

variable {p : BoundProgram}

/-- Each name in use is that of a variable in a scope around it, and no other variable in the scopes
up to that one is written like it. -/
def BoundProgram.Hygienic (p : BoundProgram) : Prop :=
  ∀ id ∈ p.program.uses, ∀ f ∈ id.field,
    let scope := (p.tree.field f).scope
    let variable_ := p.tree.ultimate f
    let declaring := (p.tree.field variable_).scope
    f < p.tree.fields.size ∧ declaring ∈ p.tree.chain scope ∧
      ∀ v < p.tree.fields.size,
        (p.tree.field v).scope ∈ p.tree.chainUpTo scope declaring ++ [declaring] →
        (p.tree.field v).isAlias = false → v ≠ variable_ →
        p.tree.displayName v ≠ p.tree.displayName variable_

/-- Names that are apart are hygienic. -/
theorem BoundProgram.hygienic_of_apart (formed : p.tree.WellFormed) {mentioned : FieldId → Prop}
    (apart : p.tree.Apart mentioned)
    (uses : ∀ id ∈ p.program.uses, ∀ f ∈ id.field, f < p.tree.fields.size ∧ mentioned f) :
    p.Hygienic := by
  intro id isUse f isField
  obtain ⟨bound, isMentioned⟩ := uses id isUse f isField
  have ordered := formed.parentsFirst
  have around := formed.within_ultimate f
  refine ⟨bound, (mem_chain_iff ordered).mpr around, fun v bound' between notAlias ne => ?_⟩
  rw [formed.displayName_ultimate]
  have isVariable : (p.tree.field v).outer = none := by simpa [Field.isAlias] using notAlias
  obtain ⟨inside, outside⟩ : Within p.tree (p.tree.field f).scope (p.tree.field v).scope ∧
      Within p.tree (p.tree.field v).scope (p.tree.field (p.tree.ultimate f)).scope := by
    rcases List.mem_append.mp between with inner | isDeclaring
    · obtain ⟨inside, lower⟩ := (mem_chainUpTo_iff ordered around).mp inner
      exact ⟨inside, inside.of_le ordered around (Nat.le_of_lt lower)⟩
    · rw [List.mem_singleton.mp isDeclaring]
      exact ⟨around, .refl _⟩
  exact apart f isMentioned v ⟨bound', isVariable, ne, inside, outside⟩

/-- A fresh tree whose names have been reserved is prepared. -/
theorem ScopeTree.Fresh.prepared {t t' : ScopeTree} (fresh : t.Fresh) (same : SameShape t t')
    (unnamed : ∀ f, (t'.field f).crunchedName = (t.field f).crunchedName)
    (ungenerated : ∀ f, (t'.field f).isGenerated = (t.field f).isGenerated)
    (outer : t'.VerbotenOuter) : t'.Prepared where
  formed := same.wellFormed fresh.formed
  lexical := same.lexical fresh.lexical
  unnamed f := (unnamed f).trans (fresh.unnamed f)
  verbotenOuter := outer
  generated_variable f isGenerated := by
    rw [ungenerated, fresh.ungenerated] at isGenerated
    cases isGenerated
  numbered f bound notPlain := by
    rw [same.name] at notPlain
    exact absurd (fresh.plain f (same.fields_size ▸ bound)) notPlain
  single f bound _ _ _ _ notPlain := by
    rw [same.name] at notPlain
    exact absurd (fresh.plain f (same.fields_size ▸ bound)) notPlain

/-- A program whose names are about to be chosen: what it mentions is reserved. -/
structure BoundProgram.IsReserved (p : BoundProgram) : Prop where
  prepared : p.tree.Prepared
  phase : p.tree.phase = .fieldsReserved
  scope : p.program.scope = some global
  kept : ∀ mark ∈ p.program.marks, mark.Kept True p.tree
  ungenerated : ∀ f, (p.tree.field f).isGenerated = false

/-- The steps up to there succeed once, and leave the program and its scopes as they are. -/
theorem BoundProgram.IsBound.exists_reserved (bound : p.IsBound) (settings : Settings)
    (counted : ∀ id ∈ p.program.uses, ∀ f ∈ id.field, 0 < (p.tree.field f).refs) :
    ∃ analyzed reserved, p.analyze = .ok analyzed ∧
      analyzed.onTree (·.reserve settings) = .ok reserved ∧ reserved.IsReserved ∧
      reserved.program = p.program ∧ SameShape p.tree reserved.tree := by
  have fresh := bound.fresh
  let analyzed : ScopeTree := { p.tree with phase := .scopeAnalyzed }
  have isAnalyzed : p.tree.analyze = .ok (analyzed, analyzed.unusedReports) := by
    simp only [ScopeTree.analyze, advance, fresh.phase]
    rfl
  have same : SameShape p.tree analyzed := sameShape_withPhase _ _
  obtain ⟨reserved, isReserved, reserves, outer, isKnown⟩ := reserve_reserved settings
    (same.wellFormed fresh.formed)
    (fun s u mem => by
      have unreserved : (analyzed.scope s).verboten = [] := fresh.unreserved s
      rw [unreserved] at mem
      cases mem) rfl
  have same' : SameShape p.tree reserved :=
    same.trans ((sameShape_withPhase _ _).trans reserves.toSameShape)
  have prepared : reserved.Prepared :=
    fresh.prepared same' reserves.crunchedName reserves.isGenerated outer
  -- all that the program mentions is reserved, since it is counted
  have kept : ∀ mark ∈ p.program.marks, mark.Kept True reserved := by
    intro mark mem
    have valid := bound.valid mark mem
    refine ⟨prepared.formed, valid.extends (.of_sameShape same'), ?_⟩
    rintro - id f rfl isField
    exact isKnown f (valid f isField).1 (counted id ((mem_uses_iff _ id).mpr mem) f isField)
  refine ⟨⟨p.program, analyzed, p.report ++ analyzed.unusedReports⟩,
    ⟨p.program, reserved, p.report ++ analyzed.unusedReports⟩, ?_, ?_,
    ⟨prepared, reserves.phase, bound.scope, kept, fun f => ?_⟩, rfl, same'⟩
  · simp only [BoundProgram.analyze, isAnalyzed, bind, Except.bind, pure, Except.pure]
  · simp only [BoundProgram.onTree, isReserved, bind, Except.bind, pure, Except.pure]
  · exact (reserves.isGenerated f).trans (fresh.ungenerated f)

/-- Choosing names succeeds once, and leaves a program in which no name is taken for another. -/
theorem BoundProgram.IsBound.chooseNames_hygienic (bound : p.IsBound) (settings : Settings)
    (counted : ∀ id ∈ p.program.uses, ∀ f ∈ id.field, 0 < (p.tree.field f).refs) :
    ∃ named, p.chooseNames settings = .ok named ∧ named.Hygienic := by
  obtain ⟨analyzed, reserved, isAnalyzed, isReserved, ready, -, -⟩ :=
    bound.exists_reserved settings counted
  obtain ⟨shared, isShared, prepared', phase', kept'⟩ :=
    reserved.shareLiterals_prepared settings ready.prepared ready.phase ready.scope ready.kept
  obtain ⟨short, isShort, renames, apart⟩ := prepared'.crunch_apart settings phase'
  have shape : SameShape shared.value.tree short :=
    (sameShape_withPhase _ _).trans renames.sameShape
  obtain ⟨last, isLast, renames', apart'⟩ := nameGenerated_apart (shape.wellFormed prepared'.formed)
    renames.phase
    (fun f isGenerated => by
      rw [renames.field] at isGenerated
      rw [shape.outer]
      exact prepared'.generated_variable f isGenerated)
    (fun f isMentioned => by rw [shape.fields_size]; exact isMentioned.1) apart
  have shape' : SameShape shared.value.tree last :=
    shape.trans ((sameShape_withPhase _ _).trans renames'.sameShape)
  refine ⟨{ shared.value with tree := last }, ?_, ?_⟩
  · simp only [BoundProgram.chooseNames, isAnalyzed, isReserved, isShared, bind, Except.bind]
    simp only [BoundProgram.onTree, isShort, isLast, bind, Except.bind, pure, Except.pure]
  · refine BoundProgram.hygienic_of_apart (shape'.wellFormed prepared'.formed) apart' ?_
    intro id isUse f isField
    have kept := kept' (.use id) ((mem_uses_iff _ id).mp isUse)
    have lower := (kept.valid f isField).1
    exact ⟨shape'.fields_size ▸ lower, lower, kept.reserved trivial id f rfl isField⟩

/-- Names can be chosen for what is left of a program, and no name is taken for another. -/
theorem Program.exists_chooseNames (settings : Settings) {p : Program} (unbound : p.IsUnbound) :
    ∃ named, ((p.bind settings).shrink settings).chooseNames settings = .ok named ∧
      named.Hygienic := by
  have bound := Program.bind_isBound settings unbound
  refine (bound.shrink settings).chooseNames_hygienic settings fun id isUse f isField => ?_
  exact bound.refs_shrink_pos settings isUse isField

/-- Every program that can be read gets names, and no name is taken for another. -/
theorem Program.hygienic_of_parse (settings : Settings) {source : String} {tokens : List Token}
    {p : Program} (isScanned : Token.scan source = .ok tokens)
    (isParsed : Program.parse tokens = .ok p) :
    ∃ named, ((p.bind settings).shrink settings).chooseNames settings = .ok named ∧
      named.Hygienic :=
  Program.exists_chooseNames settings (Program.isUnbound_of_parse isScanned isParsed)

/-- A parameter that is mentioned from inside a function, a `catch` clause and a `with` body. -/
theorem hygienic_nested_scopes : ∃ tokens p,
    Token.scan "function f(x){try{x()}catch(e){return function(y){with(x)return y+e+x}}}" =
      .ok tokens ∧ Program.parse tokens = .ok p ∧
    ∃ named, ((p.bind {}).shrink {}).chooseNames {} = .ok named ∧ named.Hygienic := by
  obtain ⟨tokens, p, isScanned, isParsed⟩ := Program.exists_of_isReadable (by decide +kernel :
    Program.isReadable
      "function f(x){try{x()}catch(e){return function(y){with(x)return y+e+x}}}" = true)
  exact ⟨tokens, p, isScanned, isParsed, Program.hygienic_of_parse {} isScanned isParsed⟩

end Minifier
