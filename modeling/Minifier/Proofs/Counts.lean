import Minifier.Proofs.Stages
import Minifier.Proofs.Syntax.Mentions

/-!
# Counts at the end

The mentions in a program are counted before names are chosen, and those that come in with shared
literals are counted one by one, for every field on their way outwards. The outcome is the same as
counting all mentions of the final program anew (`Program.counts_of_parse`). Every stage between
either leaves mentions and counts alone or adds the same to both (`BoundProgram.IsCounted`).
-/

set_option autoImplicit false

namespace Minifier

open Program LiteralWalk ScopeTree Multiset

/-! ## Mentions that come in -/

namespace ScopeTree

variable {t t' t'' : ScopeTree}

/-- Tables and aliases refer to fields that are there. -/
structure IsLinked (t : ScopeTree) : Prop where
  outersFirst : t.OutersFirst
  table : ∀ s, ∀ f ∈ (t.scope s).fieldIds, f < t.fields.size

theorem WellFormed.isLinked (formed : t.WellFormed) : t.IsLinked where
  outersFirst := formed.outersFirst
  table _ _ mem := (formed.mem_fieldIds.mp mem).1

theorem IsLinked.of_sameShape (linked : t.IsLinked) (same : SameShape t t') : t'.IsLinked where
  outersFirst f outer isOuter := linked.outersFirst f outer (same.outer f ▸ isOuter)
  table s f mem := by
    rw [Scope.fieldIds, same.table] at mem
    rw [same.fields_size]
    exact linked.table s f mem

theorem IsLinked.lookup (linked : t.IsLinked) {s : ScopeId} {name : String} {f : FieldId}
    (found : (t.scope s).lookup name = some f) : f < t.fields.size := by
  obtain ⟨before, after, whole, -⟩ := List.lookup_eq_some_iff.mp found
  refine linked.table s f ?_
  rw [Scope.fieldIds, whole, List.map_append]
  exact List.mem_append_right _ List.mem_cons_self

theorem IsLinked.addField (linked : t.IsLinked) {field : Field}
    (outer : ∀ outer, field.outer = some outer → outer < t.fields.size) :
    (t.addField field).2.IsLinked where
  outersFirst f outer' isOuter := by
    rw [field_addField] at isOuter
    split at isOuter
    · rename_i isNew
      exact isNew ▸ outer outer' isOuter
    · exact linked.outersFirst f outer' isOuter
  table s f mem := by
    rw [fields_size_addField]
    rw [scope_addField] at mem
    split at mem
    · simp only [Scope.fieldIds, List.map_append, List.mem_append, List.map_cons, List.map_nil,
        List.mem_singleton] at mem
      rcases mem with old | rfl
      · exact Nat.lt_succ_of_lt (linked.table s f old)
      · exact Nat.lt_succ_self _
    · exact Nat.lt_succ_of_lt (linked.table s f mem)

/-- A tree grows, and some mentions are counted that were not there before. -/
structure Records (t : ScopeTree) (fresh : Multiset FieldId) (t' : ScopeTree) : Prop
    extends Extends t t' where
  linked : t'.IsLinked
  bound : ∀ m ∈ fresh, m < t'.fields.size
  refs : ∀ f, (t'.field f).refs = (t.field f).refs + fresh.countP (f ∈ t'.outwards ·)

namespace Records

variable {v : FieldId}

variable {a b : Multiset FieldId}

variable (linked : t.IsLinked)
include linked

theorem of_sameShape (same : SameShape t t')
    (refs : ∀ f, (t'.field f).refs = (t.field f).refs) : Records t 0 t' where
  toExtends := .of_sameShape same
  linked := linked.of_sameShape same
  bound _ mem := nomatch notMem_zero _ mem
  refs := refs

theorem refl : Records t 0 t := of_sameShape linked (.refl t) fun _ => rfl

omit linked in
/-- What is on the way outwards of a mention does not change when the tree grows further. -/
theorem trans (first : Records t a t') (second : Records t' b t'') : Records t (a + b) t'' where
  toExtends := first.toExtends.trans second.toExtends
  linked := second.linked
  bound m mem := (mem_add.mp mem).elim
    (fun old => Nat.lt_of_lt_of_le (first.bound m old) second.fields_size) (second.bound m)
  refs f := by
    have same : a.countP (f ∈ t''.outwards ·) = a.countP (f ∈ t'.outwards ·) := by
      refine countP_congr rfl fun m mem => ?_
      rw [second.outwards first.linked.outersFirst second.linked.outersFirst (first.bound m mem)]
    rw [second.refs, first.refs, countP_add, same, Nat.add_assoc]

omit linked in
theorem silent (first : Records t 0 t') (second : Records t' b t'') : Records t b t'' :=
  zero_add b ▸ first.trans second

theorem addField {field : Field} (outer : ∀ outer, field.outer = some outer → outer < t.fields.size)
    (unmentioned : field.refs = 0) : Records t 0 (t.addField field).2 where
  toExtends := .addField t field
  linked := linked.addField outer
  bound _ mem := nomatch notMem_zero _ mem
  refs f := by
    rw [field_addField]
    split
    · rename_i isNew
      rw [unmentioned, field_of_size_le (Nat.le_of_eq isNew.symm)]
      rfl
    · rfl

theorem addRef {m : FieldId} (bound : m < t.fields.size) : Records t {m} (t.addRef m) := by
  have same := (trims_addRef t m).toSameShape
  refine ⟨.of_sameShape same, linked.of_sameShape same, fun _ mem => ?_, fun f => ?_⟩
  · rw [mem_singleton.mp mem, same.fields_size]
    exact bound
  · rw [refs_addRef_outwards linked.outersFirst bound, ← cons_zero, countP_cons,
      countP_zero, Nat.zero_add, same.outwards]

theorem createAlias (s : ScopeId) {outer : FieldId} (bound : outer < t.fields.size) :
    Records t 0 (t.createAlias s outer).2 ∧
      (t.createAlias s outer).1 < (t.createAlias s outer).2.fields.size := by
  cases found : (t.scope s).lookup (t.field outer).name with
  | some existing =>
    rw [createAlias_of_found found]
    exact ⟨.refl linked, linked.lookup found⟩
  | none =>
    rw [createAlias_of_missing found]
    refine ⟨.addField linked ?_ rfl, ?_⟩
    · rintro _ ⟨⟩
      exact bound
    · rw [fields_size_addField]
      exact Nat.lt_succ_self _

theorem aliasFor (bound : v < t.fields.size) (s : ScopeId) : Records t 0 (t.aliasFor v s).2 ∧
      (t.aliasFor v s).1 < (t.aliasFor v s).2.fields.size := by
  unfold ScopeTree.aliasFor
  induction t.chainUpTo s (t.field v).scope with
  | nil => exact ⟨.refl linked, bound⟩
  | cons s scopes ih =>
    rw [List.foldr_cons]
    obtain ⟨further, isBound⟩ := createAlias ih.1.linked s ih.2
    exact ⟨ih.1.silent further, isBound⟩

/-- A mention of a variable is counted once for each field on its way outwards. -/
theorem mention (bound : v < t.fields.size) (s : ScopeId) :
    Records t {(t.mention v s).1} (t.mention v s).2 := by
  obtain ⟨aliased, isBound⟩ := aliasFor linked bound s
  unfold ScopeTree.mention
  generalize t.aliasFor v s = r at *
  obtain ⟨f, t₁⟩ := r
  dsimp only at *
  split
  · exact aliased.silent (addRef aliased.linked isBound)
  · have same := reserves_reserveAlias t₁ f
    have reserved := of_sameShape aliased.linked same.toSameShape same.refs
    exact aliased.silent (reserved.silent (addRef reserved.linked (same.fields_size ▸ isBound)))

theorem declare (s : ScopeId) (name : String) (kind : FieldKind) (span : Span) :
    Records t 0 (t.declare s name kind span).2 ∧
      (t.declare s name kind span).1 < (t.declare s name kind span).2.fields.size := by
  unfold ScopeTree.declare
  split
  · rename_i existing found
    exact ⟨.refl linked, linked.lookup found⟩
  · refine ⟨.addField linked (fun _ isOuter => nomatch isOuter) rfl, ?_⟩
    rw [fields_size_addField]
    exact Nat.lt_succ_self _

theorem createGenerated (owner : ScopeId) : Records t 0 (t.createGenerated owner).2 ∧
      (t.createGenerated owner).1 < (t.createGenerated owner).2.fields.size := by
  let next : ScopeTree := { t with generatedCount := t.generatedCount + 1 }
  have same : SameShape t next :=
    ⟨rfl, rfl, fun _ => rfl, fun _ => rfl, fun _ => rfl, fun _ => rfl, fun _ => rfl, fun _ => rfl,
      fun _ => rfl⟩
  have start : Records t 0 next := of_sameShape linked same fun _ => rfl
  obtain ⟨declared, isBound⟩ := declare start.linked owner s!"generated {t.generatedCount}" .declared
    .synthetic
  simp only [ScopeTree.createGenerated]
  generalize next.declare owner s!"generated {t.generatedCount}" .declared .synthetic = r at declared isBound ⊢
  obtain ⟨f, t₁⟩ := r
  have marked := sameShape_modifyField t₁ f (fun f => { f with isGenerated := true, isDeclared := true })
    fun _ => ⟨rfl, rfl, rfl⟩
  refine ⟨(start.silent declared).silent (of_sameShape declared.linked marked fun g => ?_), ?_⟩
  · rw [field_modifyField]
    split <;> rfl
  · rw [marked.fields_size]
    exact isBound

theorem shareAll (occurrences : List Occurrence) : Records t 0 (t.shareAll occurrences).2 ∧
      ∀ s ∈ (t.shareAll occurrences).1, s.field < (t.shareAll occurrences).2.fields.size := by
  unfold ScopeTree.shareAll
  generalize (occurrences.map (·.key)).eraseDups = keys
  let Inv (r : List SharedLiteral × ScopeTree) : Prop :=
    Records t 0 r.2 ∧ ∀ s ∈ r.1, s.field < r.2.fields.size
  have start : Inv ([], t) := ⟨.refl linked, fun _ mem => nomatch mem⟩
  refine List.foldlRecOn (motive := Inv) keys _ start ?_
  rintro ⟨shared, now⟩ ⟨records, known⟩ key -
  dsimp only at records known ⊢
  split
  · rename_i s next found
    obtain ⟨owner, -, rfl, rfl⟩ := share?_eq_some found
    obtain ⟨further, isBound⟩ := createGenerated records.linked owner
    refine ⟨records.silent further, fun s mem => ?_⟩
    rcases List.mem_append.mp mem with old | new
    · exact Nat.lt_of_lt_of_le (known s old) further.fields_size
    · rw [List.mem_singleton.mp new]
      exact isBound
  · exact ⟨records, known⟩

end Records

end ScopeTree

/-- The mentions that the walk over literals puts into a program are those that it counts. -/
theorem SharedLiteral.follows_mentions (shared : List SharedLiteral) (tree : ScopeTree) :
    Follows mentions mentions (replace shared) (declareIn shared tree) fun _ t a b t₁ =>
      t.IsLinked → (∀ s ∈ shared, s.field < t.fields.size) → ∃ fresh, b = a + fresh ∧ Records t fresh t₁ where
  zero _ t linked _ := ⟨0, rfl, .refl linked⟩
  add := by
    intro _ t t₁ t₂ a a₁ b b₁ first second linked known
    obtain ⟨fresh, rfl, records⟩ := first linked known
    obtain ⟨fresh', rfl, records'⟩ := second records.linked fun s mem =>
      Nat.lt_of_lt_of_le (known s mem) records.fields_size
    exact ⟨fresh + fresh', add_add_add_comm .., records.trans records'⟩
  directive e _ t _ linked _ := ⟨0, (add_zero _).symm, .refl linked⟩
  spared around around' e _ t _ linked _ := by
    obtain ⟨form, span⟩ := e
    exact ⟨0, (add_zero _).symm, .refl linked⟩
  literal around around' e scopes t _ isLiteral linked known := by
    rw [Literal.census_eq_zero (fun _ _ => rfl) isLiteral]
    obtain ⟨same, -⟩ | ⟨o, s, -, isShared, mention⟩ := visited_cases shared scopes e t
    · rw [same, Literal.census_eq_zero (fun _ _ => rfl) isLiteral]
      exact ⟨0, rfl, .refl linked⟩
    · rw [mention, census_mentionAt fun _ _ => rfl]
      exact ⟨_, (zero_add _).symm,
        .mention linked (known s (List.mem_of_find?_eq_some isShared)) o.scope⟩
  use _ id _ t linked _ := ⟨0, (add_zero _).symm, .refl linked⟩
  declare id _ t linked _ := ⟨0, rfl, .refl linked⟩
  function fn body _ t t₁ related linked known := by
    obtain ⟨kind, name, params, body', scope, span⟩ := fn
    obtain ⟨fresh, same, records⟩ := related linked known
    have owned := census_declareIn (c := mentions) (fun _ => rfl) (fun _ => .inl rfl) shared tree
      ⟨kind, name, params, body, scope, span⟩
    rw [List.sum_eq_zero (by simp [mentions]), zero_add] at owned
    exact ⟨fresh, owned.trans same, records⟩
  handler clause body _ t t₁ related linked known := by
    obtain ⟨param, body', scope, span⟩ := clause
    exact related linked known
  withBody scope a b _ t t₁ related linked known := related linked known

/-! ## Programs whose mentions are counted -/

/-- The count of each field is the number of mentions whose way outwards it is on. -/
structure BoundProgram.IsCounted (b : BoundProgram) : Prop where
  linked : b.tree.IsLinked
  bound : ∀ m ∈ b.program.census mentions, m < b.tree.fields.size
  refs : ∀ f, (b.tree.field f).refs = (b.program.census mentions).countP (f ∈ b.tree.outwards ·)

namespace BoundProgram

variable {b b' : BoundProgram}

theorem IsSound.mentions_lt (sound : b.IsSound) :
    ∀ m ∈ b.program.uses.filterMap (·.field), m < b.tree.fields.size := by
  intro m mem
  obtain ⟨id, isUse, isField⟩ := List.mem_filterMap.mp mem
  exact (sound.valid (.use id) ((mem_uses_iff _ id).mp isUse) m isField).1

theorem IsSound.isCounted_recount (sound : b.IsSound) : b.recount.IsCounted := by
  have shape := (trims_recount sound.valid).tree.toSameShape
  refine ⟨sound.formed.isLinked.of_sameShape shape, fun m mem => ?_, fun f => ?_⟩
  · rw [← coe_mentions] at mem
    exact shape.fields_size ▸ sound.mentions_lt m mem
  · rw [← coe_mentions, coe_countP]
    simp only [shape.outwards]
    exact refs_recount sound.formed.outersFirst sound.mentions_lt f

namespace IsCounted

variable {settings : Settings}

variable (counted : b.IsCounted)
include counted

theorem of_sameShape (program : b'.program = b.program) (same : SameShape b.tree b'.tree)
    (refs : ∀ f, (b'.tree.field f).refs = (b.tree.field f).refs) : b'.IsCounted where
  linked := counted.linked.of_sameShape same
  bound m mem := by
    rw [program] at mem
    exact same.fields_size ▸ counted.bound m mem
  refs f := by
    rw [refs, program]
    simp only [same.outwards]
    exact counted.refs f

/-- Mentions that are counted as they come in. -/
theorem of_records {fresh : Multiset FieldId}
    (program : b'.program.census mentions = b.program.census mentions + fresh)
    (records : Records b.tree fresh b'.tree) : b'.IsCounted := by
  have all : Records { b.tree with fields := b.tree.fields.map fun f => { f with refs := 0 } }
      (b.program.census mentions) b.tree := by
    have same := (trims_clearRefs b.tree).toSameShape.symm
    refine ⟨.of_sameShape same, counted.linked, counted.bound, fun f => ?_⟩
    rw [field_clearRefs, Nat.zero_add]
    exact counted.refs f
  have whole := all.trans records
  refine ⟨whole.linked, fun m mem => whole.bound m (program ▸ mem), fun f => ?_⟩
  rw [whole.refs, program, field_clearRefs, Nat.zero_add]

theorem shareLiterals {e : Edited BoundProgram}
    (isShared : b.shareLiterals settings = .ok e) : e.value.IsCounted := by
  simp only [BoundProgram.shareLiterals, bind_eq_ok, advance_eq_ok] at isShared
  obtain ⟨start, ⟨-, rfl⟩, isShared⟩ := isShared
  have same := sameShape_withPhase b.tree .literalsShortcut
  split at isShared
  · cases isShared
    have started := Records.of_sameShape counted.linked same fun _ => rfl
    obtain ⟨planned, known⟩ := Records.shareAll started.linked b.program.occurrences
    obtain ⟨fresh, program, records⟩ :=
      (SharedLiteral.follows_mentions _ _).run b.program _ planned.linked known
    exact counted.of_records program ((started.silent planned).silent records)
  · cases isShared
    exact counted.of_sameShape rfl same fun _ => rfl

theorem analyze (isAnalyzed : b.analyze = .ok b') : b'.IsCounted := by
  simp only [BoundProgram.analyze, ScopeTree.analyze, bind_eq_ok, advance_eq_ok] at isAnalyzed
  obtain ⟨_, ⟨_, ⟨-, rfl⟩, ⟨⟩⟩, ⟨⟩⟩ := isAnalyzed
  exact counted.of_sameShape rfl (sameShape_withPhase _ _) fun _ => rfl

theorem reserve (isReserved : b.onTree (·.reserve settings) = .ok b') : b'.IsCounted := by
  simp only [BoundProgram.onTree, ScopeTree.reserve, bind_eq_ok, advance_eq_ok] at isReserved
  obtain ⟨_, ⟨_, ⟨-, rfl⟩, ⟨⟩⟩, ⟨⟩⟩ := isReserved
  have reserves := relates_foldl Reserves.refl Reserves.trans (reserves_step settings.evalTreatment)
    (ScopeTree.bottomUp { b.tree with phase := .fieldsReserved }) { b.tree with phase := .fieldsReserved }
  exact counted.of_sameShape rfl ((sameShape_withPhase _ _).trans reserves.toSameShape) reserves.refs

theorem of_renames {phase : Phase} {tree : ScopeTree}
    (renames : Renames { b.tree with phase } tree) : IsCounted { b with tree } := by
  refine counted.of_sameShape rfl ((sameShape_withPhase _ _).trans renames.sameShape) fun f => ?_
  show (tree.field f).refs = _
  rw [renames.field f]
  rfl

/-- Choosing names leaves all mentions counted. -/
theorem chooseNames {p : Program} (unbound : p.IsUnbound)
    (reaches : p.Reaches b) (isNamed : b.chooseNames settings = .ok b') : b'.IsCounted := by
  simp only [BoundProgram.chooseNames, bind_eq_ok] at isNamed
  obtain ⟨analyzed, isAnalyzed, reserved, isReserved, shared, isShared, short, isShort, isLast⟩ := isNamed
  have literals := ((counted.analyze isAnalyzed).reserve isReserved).shareLiterals isShared
  have sound := ((((reaches.step (.analyze isAnalyzed)).step (.reserve isReserved)).step
    (.shareLiterals isShared)).isSound unbound)
  obtain ⟨tree, isTree, ⟨⟩⟩ := bind_eq_ok.mp isShort
  obtain ⟨tree', isTree', ⟨⟩⟩ := bind_eq_ok.mp isLast
  have phase : shared.value.tree.phase = .literalsShortcut := by
    simp only [ScopeTree.crunch, bind_eq_ok, advance_eq_ok] at isTree
    obtain ⟨_, ⟨phase, -⟩, -⟩ := isTree
    exact phase
  obtain ⟨-, renames, -⟩ := (sound.prepared (by rw [phase]; rfl)).of_crunch isTree
  obtain ⟨-, renames', -⟩ := of_nameGenerated isTree'
  exact (literals.of_renames renames).of_renames renames'

/-- Counting anew what is counted changes nothing. -/
theorem recount_eq : b.recount = b := by
  obtain ⟨program, tree, report⟩ := b
  have recounts := recounts_recount tree program.uses
  have same : tree.recount program.uses = tree := recounts.eq fun f => by
    rw [counted.refs, ← coe_mentions, coe_countP]
    refine refs_recount counted.linked.outersFirst (fun m mem => counted.bound m ?_) f
    rwa [← coe_mentions]
  exact congrArg (BoundProgram.mk program · report) same

end IsCounted

/-- What shrinking leaves is counted. -/
theorem isCounted_shrink {p : Program} (unbound : p.IsUnbound) (settings : Settings) :
    ((p.bind settings).shrink settings).IsCounted := by
  have start : p.Reaches (p.bind settings) := ⟨settings, .refl⟩
  unfold shrink
  split
  · have ordered := (start.step (.recount _)).step (.orderDeclarations settings _)
    exact ((ordered.step (.simplify settings _)).isSound unbound).isCounted_recount
  · exact (start.isSound unbound).isCounted_recount

end BoundProgram

/-- In the program that is printed, counting all mentions anew changes nothing: the count of each field
is the number of mentions whose way outwards it is on, those of shared literals included. -/
theorem Program.counts_of_parse (settings : Settings) {source : String} {tokens : List Token} {p : Program}
    (isScanned : Token.scan source = .ok tokens) (isParsed : Program.parse tokens = .ok p) :
    ∃ named, ((p.bind settings).shrink settings).chooseNames settings = .ok named ∧
      named.recount = named ∧ ∀ f < named.tree.fields.size, (named.tree.field f).refs =
        (named.program.uses.filterMap (·.field)).countP (f ∈ named.tree.outwards ·) := by
  have unbound := isUnbound_of_parse isScanned isParsed
  obtain ⟨named, isNamed, -⟩ := exists_chooseNames settings unbound
  have reaches : p.Reaches (p.bind settings) := ⟨settings, .refl⟩
  have counted := (BoundProgram.isCounted_shrink unbound settings).chooseNames unbound
    (reaches.shrink settings) isNamed
  refine ⟨named, isNamed, counted.recount_eq, fun f _ => ?_⟩
  rw [counted.refs, ← coe_mentions, coe_countP]

/-- A literal that is shared is mentioned through two functions. -/
theorem counts_nested_literals : ∃ tokens p,
    Token.scan "function f(g){g(12345678);return function(x){g(x,12345678,12345678)}}" = .ok tokens ∧
      Program.parse tokens = .ok p ∧
    ∃ named, ((p.bind {}).shrink {}).chooseNames {} = .ok named ∧ named.recount = named ∧
      ∀ f < named.tree.fields.size, (named.tree.field f).refs =
        (named.program.uses.filterMap (·.field)).countP (f ∈ named.tree.outwards ·) := by
  obtain ⟨tokens, p, isScanned, isParsed⟩ := exists_of_isReadable (by decide +kernel :
    Program.isReadable "function f(g){g(12345678);return function(x){g(x,12345678,12345678)}}" = true)
  exact ⟨tokens, p, isScanned, isParsed, counts_of_parse {} isScanned isParsed⟩

end Minifier
