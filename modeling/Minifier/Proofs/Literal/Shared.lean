import Minifier.Proofs.EvalCalls
import Minifier.Proofs.Literal.Mentioned

/-!
# What sharing literals makes of a program

Sharing literals is planned from the occurrences that one walk collects and carried out by another
one. `BoundProgram.Shares` says what is known of the outcome, under all settings; where literals are
not shared, no variable is made for any (`BoundProgram.exists_shares`).
-/

set_option autoImplicit false

namespace Minifier

open SharedLiteral LiteralWalk ScopeTree

variable {shared : List SharedLiteral} {p : Program} {text : String}

/-! ## Signs of texts -/

/-- A text has no sign. -/
theorem Program.negated_eq_false {o : Occurrence} (mem : o ∈ p.occurrences)
    (isText : o.key.literal = .string text) : o.negated = false := by
  have isFound : .literal o ∈ p.found := by
    rw [← mem_written, written, ← p.coe_occurrences]
    exact mem
  obtain ⟨scopes, e, isOccurrence⟩ := p.isWritten_of_found _ isFound
  exact (Literal.inlined_of? (Literal.of?_of_occurrence isOccurrence) fun _ => none).2 text isText

theorem ScopeTree.Plan.negative_eq_false {start t : ScopeTree}
    (plan : Plan start p.occurrences shared t) {s : SharedLiteral} (mem : s ∈ shared)
    (isText : s.key.literal = .string text) : s.negative = false := by
  rw [plan.negative s mem, decide_eq_false_iff_not]
  have none_ : (p.occurrences.filter (·.key = s.key)).countP (·.negated) = 0 := by
    rw [List.countP_eq_zero]
    intro o isOccurrence isNegated
    obtain ⟨isOccurrence, isKey⟩ := List.mem_filter.mp isOccurrence
    have isKey : o.key = s.key := by simpa using isKey
    rw [p.negated_eq_false isOccurrence (isKey ▸ isText)] at isNegated
    cases isNegated
  rw [none_]
  exact Nat.not_lt_zero _

/-- Variables for different literals have different names. -/
theorem ScopeTree.Plan.eq_of_name_eq {start t : ScopeTree} {occurrences : List Occurrence}
    (plan : Plan start occurrences shared t) :
    ∀ s ∈ shared, ∀ s' ∈ shared, (t.field s.field).name = (t.field s'.field).name → s = s' := by
  intro s mem s' mem' isName
  obtain ⟨served, -⟩ := plan.serves s mem
  obtain ⟨served', -⟩ := plan.serves s' mem'
  exact List.inj_on_of_nodup_map plan.fields mem mem' (plan.prepared.single _ served.bound _
    served'.bound served.isVariable served'.isVariable served.notPlain isName)

/-! ## The outcome -/

/-- The names at the sites of a program are among its marks. -/
theorem Program.ident_of_site {around : List Opening} {site : Site} {id : Ident}
    (mem : site ∈ (p.census survey).2 around) (isName : site.item.ident? = some id) :
    .name id ∈ p.marks := by
  have known := survey_relates_marks.related p around site mem id isName
  rwa [← p.coe_marks, Multiset.mem_coe] at known

/-- A program before and after its literals are shared, with the variables for them and the tree in
which they were made. -/
structure BoundProgram.Shares (p q : BoundProgram) (shared : List SharedLiteral) (tree : ScopeTree) :
    Prop where
  scope : q.program.scope = p.program.scope
  plan : Plan { p.tree with phase := .literalsShortcut } p.program.occurrences shared tree
  mentioned : SharedLiteral.Mentioned shared p.tree.fields.size [some global] tree
    (written p.program.found) (q.program.census survey).2 q.tree
  declared : SharedLiteral.Declared shared tree p.tree.fields.size
    (q.program.census survey, q.program.functions)
  inlined : q.program.inlined (SharedLiteral.valueNamed shared tree) =
    p.program.inlined (SharedLiteral.valueNamed shared tree)
  spared : q.program.sparedExprs = p.program.sparedExprs
  spots : q.program.spots = p.program.spots
  evalScopes : q.program.evalScopes = p.program.evalScopes

/-- Sharing literals succeeds in its phase. -/
theorem BoundProgram.exists_shares (settings : Settings) {p : BoundProgram}
    (prepared : p.tree.Prepared) (phase : p.tree.phase = .fieldsReserved)
    (ungenerated : ∀ f, (p.tree.field f).isGenerated = false)
    (own : p.program.scope = some global) (valid : ∀ mark ∈ p.program.marks, mark.Valid p.tree) :
    ∃ q shared tree, p.shareLiterals settings = .ok q ∧ p.Shares q.value shared tree := by
  let start : ScopeTree := { p.tree with phase := .literalsShortcut }
  have advanced : p.tree.advance .fieldsReserved .literalsShortcut = .ok start := if_pos phase
  have prepared : start.Prepared := prepared.withPhase _
  have isOld {id : Ident} (mem : .name id ∈ p.program.marks) : id.IsOld p.tree.fields.size :=
    fun f isField => (valid _ mem f isField).1
  unfold BoundProgram.shareLiterals
  rw [advanced]
  simp only [bind, Except.bind]
  split
  case isFalse =>
    refine ⟨_, [], start, rfl, rfl, .nil prepared ungenerated, ?_, ?_, rfl, rfl, rfl, rfl⟩
    · refine .of_unshared prepared (fun _ _ _ mem => nomatch mem) fun around site mem id isUse => ?_
      exact isOld (Program.ident_of_site mem (by rw [isUse]; rfl))
    · refine .of_old (fun _ mem => nomatch mem) (survey_tracks_nested.program p.program ())
        fun around site mem id isName => ?_
      exact isOld (Program.ident_of_site mem isName)
  case isTrue =>
    have own_lt : ∀ id, p.program.scope = some id → id < start.scopes.size := by
      intro id isScope
      rw [own] at isScope
      cases isScope
      exact prepared.formed.nonempty
    have inside : ∀ o ∈ p.program.occurrences, o.scope < start.scopes.size :=
      Program.scope_occurrences_lt own_lt fun id mem => valid _ mem
    have plan := plan_shareAll prepared ungenerated inside
    generalize start.shareAll p.program.occurrences = r at plan
    obtain ⟨shared, tree⟩ := r
    dsimp only at plan
    have names : ∀ id, .name id ∈ p.program.found → id.IsOld p.tree.fields.size := fun id mem =>
      isOld (p.program.isWritten_of_found _ mem)
    have inside' : ∀ o ∈ p.program.occurrences, o.scope < tree.scopes.size := fun o mem =>
      plan.grows.same_size ▸ inside o mem
    have mentioned := (follows_mentioned plan.serves plan.fields plan.keys
      plan.prepared.formed inside').run p.program tree names
      (fun o mem => by rwa [← Multiset.mem_coe, p.program.coe_occurrences]) plan.prepared (.refl tree)
    have placed : Follows inventory SharedLiteral.placing _ (SharedLiteral.declareIn shared tree) _ :=
      follows_declared plan.fields plan.isNew
    have declared := placed.run p.program tree names
    rw [own] at mentioned
    have sites := Program.census_pair survey_isSimple functions_isSimple
      (run (SharedLiteral.replace shared) (SharedLiteral.declareIn shared tree) p.program tree).1
    rw [sites] at mentioned declared
    refine ⟨_, shared, tree, rfl, rfl, plan, ?_, declared, ?_, ?_, ?_, ?_⟩
    · have found : p.program.census inventory [some global] = p.program.found := by
        rw [Program.found, own]
      rw [← found]
      exact mentioned
    · exact inlined_run plan.eq_of_name_eq (fun s mem => (plan.serves s mem).1.bound)
        (fun s mem text => plan.negative_eq_false mem) p.program
    · exact sparedExprs_run shared tree p.program tree
    · exact spots_run shared tree p.program tree
    · refine evalScopes_run (fun s mem => ?_) p.program
      have served := (plan.serves s mem).1
      exact ⟨served.bound, fun isEval => served.notPlain (isEval ▸ by decide)⟩

end Minifier
