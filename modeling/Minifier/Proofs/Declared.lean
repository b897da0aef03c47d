import Minifier.Proofs.Counts
import Minifier.Proofs.Simplify.Owned

/-!
# No dangling variables

In the program that is printed, every mention of a variable that the source declares is inside the
function that the variable belongs to, and that function still declares it
(`Program.declared_of_parse`). A function that nothing mentions may go, and so may a parameter or a
variable that is only returned, but never the last declaration of something that is still mentioned.

Variables of the program itself are never taken out. For those of a function, nothing strays from
binding to the end of the rules; literals that get variables come in with declarations of their own and
leave the others where they are.
-/

set_option autoImplicit false

namespace Minifier

open Program Hoisted LiteralWalk ScopeTree Multiset

/-- A function that has a scope declares a variable, or the program does for the global scope. -/
def Program.Declares (p : Program) (scope : ScopeId) (v : FieldId) : Prop :=
  (scope = global ∧ (hoistsOf p.body.statements).Declares v) ∨
    ∃ fn ∈ p.functions, fn.scope = some scope ∧ fn.Declares v

/-- What is declared has a site. -/
theorem Program.site_of_declares {p : Program} {scope : ScopeId} {v : FieldId}
    (declares : p.Declares scope v) : ∃ place id, ⟨place, .declares id⟩ ∈ p.sites ∧
      id.field = some v ∧ ownerAt place = scope := by
  rcases declares with ⟨rfl, declares⟩ | ⟨fn, mem, isScope, declares⟩
  · obtain ⟨id, hoisted, isField⟩ := declares.exists_mem
    obtain ⟨place, isSite, owner⟩ := Block.site_of_hoists hoisted []
    exact ⟨place, id, isSite, isField, owner⟩
  · obtain ⟨around, less⟩ := (survey_relates_functions.related p []).2 fn mem
    obtain ⟨place, id, isSite, known⟩ := fn.site_of_declares isScope declares around
    exact ⟨place, id, mem_of_le less isSite, known⟩

/-! ## Shrinking -/

theorem Function.Hosts.settled {t₀ : ScopeTree} {v : FieldId} {name : String} {counted : ℕ}
    {fn : Function} (hosts : fn.Hosts t₀ v name counted) : fn.Settled t₀ v :=
  .inl (hosts.declares.imp_right fun has => has.declares hosts.fair)

theorem Program.sustains_orderDeclarations (name : String) (v : FieldId) (settings : Settings)
    (p : Program) : Sustains name v False (statementCensus hoisting p.body.statements)
      (statementCensus hoisting (p.orderDeclarations settings).value.body.statements) := by
  unfold Program.orderDeclarations
  split
  · rw [← Block.census_hoisting, ← Block.census_hoisting]
    have inside : Sustains name v False _ _ :=
      (orderInFunctions_tracks hoisting_sheds hoisting_assigns settings).blockOf p.body false
    exact inside.trans id
      (Block.census_orderDeclarations_le hoisting_sheds.toSheds hoisting_assigns settings _)
  · exact .refl _

namespace BoundProgram.IsScoped

variable {b : BoundProgram} (surveyed : b.IsScoped) {v : FieldId} {scope : ScopeId} {name : String}
include surveyed

/-- What is declared in a scope is a variable of it. -/
theorem isVariable_of_declares (declares : b.program.Declares scope v) :
    b.tree.IsVariable v scope (b.tree.field v).name := by
  obtain ⟨place, id, mem, isField, owner⟩ := site_of_declares declares
  obtain ⟨f, isField', isBound, isScope, -, isVariable⟩ := surveyed.declares _ mem id rfl
  obtain rfl := Option.some.inj (isField.symm.trans isField')
  exact ⟨isBound, isScope.trans owner, rfl, isVariable⟩

/-- After counting anew, all mentions of a variable are counted. -/
theorem mentionsOf_le_refs (sound : b.IsSound) (isVariable : (b.tree.field v).outer = none) :
    b.program.census (mentionsOf b.tree v) ≤ (b.recount.tree.field v).refs := by
  have counted := sound.isCounted_recount
  have shape := (trims_recount sound.valid).tree.toSameShape
  rw [counted.refs, mentions_relates_mentionsOf.related b.program]
  refine Nat.le_of_eq (countP_congr rfl fun m _ => ?_)
  have once := count_outwards surveyed.formed.outersFirst isVariable m
  rw [shape.outwards, ← List.one_le_count_iff, once]
  by_cases isUltimate : b.tree.ultimate m = v <;> simp [isUltimate]

/-- Nothing strays from a function when a program shrinks. -/
theorem keeps_shrink_function (sound : b.IsSound) (settings : Settings) {fn : Function}
    (mem : fn ∈ b.program.functions) (isScope : fn.scope = some scope) (declares : fn.Declares v) :
    ((b.shrink settings).program.census survey).Keeps b.tree v scope [] := by
  have isVariable := surveyed.isVariable_of_declares (.inr ⟨fn, mem, isScope, declares⟩)
  have isFunction : (b.tree.scope scope).kind = .function := by
    obtain ⟨around, less⟩ := (survey_relates_functions.related b.program []).2 fn mem
    cases fn
    obtain ⟨_, isScope', isKind, -⟩ :=
      surveyed.openings _ (mem_of_le less (mem_opened.mpr (.inl rfl))) _ rfl
    obtain rfl := Option.some.inj (isScope.symm.trans isScope')
    exact isKind
  obtain ⟨noStray, once⟩ := surveyed.strays_eq_zero isVariable isFunction mem isScope declares
  have settles : ((b.shrink settings).program.census
      (strays b.tree v scope (·.Settled b.tree v))).1 = 0 := by
    unfold BoundProgram.shrink
    split
    · rename_i isMinified
      let name := (b.tree.field v).name
      let counted := b.program.census (mentionsOf b.tree v)
      have ordered := b.program.strays_orderDeclarations b.tree v scope name counted settings
      have shape := (trims_recount sound.valid).tree.toSameShape
      have settled := (rules_settle scope surveyed.formed.outersFirst isVariable.1 isVariable.2.2.2 name counted
        settings).program (b.program.orderDeclarations settings).value
          ⟨b.recount.tree, b.recount.report, false⟩ shape
      have kept := settled.inside (ordered.1 noStray) (ordered.2.trans once)
        (surveyed.mentionsOf_le_refs sound isVariable.2.2.2)
      show (((b.recount.orderDeclarations settings).value.simplify settings).value.program.census (strays ..)).1 = 0
      rw [BoundProgram.simplify, if_pos isMinified]
      exact kept
    · exact ((strays_mono fun fn hosts => hosts.settled).related b.program).1 noStray
  exact (strays_relates_survey b.tree v scope).related _ [] settles

/-- What the program declares, it declares when it shrinks. -/
theorem keeps_shrink_global (sound : b.IsSound) (settings : Settings)
    (declares : (hoistsOf b.program.body.statements).Declares v) :
    ((b.shrink settings).program.census survey).Keeps b.tree v global [] := by
  have site {id : Ident} (mem : id ∈ (hoistsOf b.program.body.statements).vars ∨
      id ∈ (hoistsOf b.program.body.statements).functions) :
      ∃ place, ⟨place, .declares id⟩ ∈ b.program.sites ∧ ownerAt place = global :=
    Block.site_of_hoists mem []
  have isVariable := surveyed.isVariable_of_declares (.inl ⟨rfl, declares⟩)
  have fair : (hoistsOf b.program.body.statements).Fair (b.tree.field v).name v := by
    intro id mem isName
    obtain ⟨place, isSite, owner⟩ := site (.inl mem)
    exact surveyed.field_of_declares isVariable isSite owner isName
  have has : (hoistsOf b.program.body.statements).Has (b.tree.field v).name v := by
    refine declares.imp_left fun ⟨id, mem, isField⟩ => ⟨id, mem, ?_⟩
    obtain ⟨place, isSite, -⟩ := site (.inl mem)
    obtain ⟨f, isField', -, -, isName, -⟩ := surveyed.declares _ isSite id rfl
    rw [← isName, Option.some.inj (isField.symm.trans isField')]
  have unspent {t : ScopeTree} (shape : SameShape b.tree t) : ¬ IsSpent b.tree v t := by
    intro spent
    refine (spent shape).2 ?_
    rw [shape.kind, shape.scope, isVariable.2.1]
    exact (surveyed.formed.isGlobal_iff global surveyed.formed.nonempty).mpr rfl
  have kept : (hoistsOf (b.shrink settings).program.body.statements).Declares v := by
    unfold BoundProgram.shrink
    split
    · rename_i isMinified
      have ordered := b.program.sustains_orderDeclarations (b.tree.field v).name v settings
      have valid := (trims_orderDeclarations (trims_recount sound.valid).valid settings).valid
      have shape := ((trims_recount sound.valid).tree.trans (trims_simplify valid settings).tree).toSameShape
      have rules := ((Simplify.rules_sustains surveyed.formed.outersFirst isVariable.2.2.2 settings
        (b.tree.field v).name).blockOf (b.program.orderDeclarations settings).value.body
          ⟨b.recount.tree, b.recount.report, false⟩).2
      show (hoistsOf ((b.recount.orderDeclarations settings).value.simplify
        settings).value.program.body.statements).Declares v
      rw [Block.census_hoisting, Block.census_hoisting] at rules
      rw [BoundProgram.simplify, if_pos isMinified] at shape ⊢
      rcases rules.has (ordered.fair fair) ((ordered.has fair has).resolve_right fun none => none) with has | spent
      · exact has.declares (rules.fair (ordered.fair fair))
      · exact absurd spent (unspent shape)
    · exact has.declares fair
  intro mention mem mentioned
  obtain ⟨id, hoisted, isField⟩ := kept.exists_mem
  obtain ⟨place, isSite, owner⟩ := Block.site_of_hoists hoisted []
  exact ⟨List.mem_append_right _ (List.mem_singleton_self _), place, id, isSite, isField, owner⟩

end BoundProgram.IsScoped

/-! ## Sharing literals -/

/-- What a construct is for the names in it, apart from what it declares. -/
def Opening.post (o : Opening) : ScopeKind × Option ScopeId := (o.kind, o.scope)

section Posts

variable {around around' : List Opening} (same : around.map Opening.post = around'.map Opening.post)
include same

theorem scopesAround_congr : scopesAround around = scopesAround around' := by
  have posts (around : List Opening) :
      scopesAround around = (around.map Opening.post).filterMap (·.2) ++ [global] := by
    rw [List.filterMap_map]
    rfl
  rw [posts, posts, same]

theorem ownerAt_congr : ownerAt around = ownerAt around' := by
  have functions (around : List Opening) : (functionsOf around).map Opening.post =
      (around.map Opening.post).filter (·.1 = .function) := by
    rw [List.filter_map]
    rfl
  have inside : (functionsOf around).map Opening.post = (functionsOf around').map Opening.post := by
    rw [functions, functions, same]
  exact congrArg (·.headD global) (scopesAround_congr inside)

end Posts

/-- A part of a program has the declarations of another in the same places, and its names in use but
for new ones. -/
structure Survey.Retells (isNew : Ident → Prop) (m m' : Survey) : Prop where
  uses : ∀ around around', around.map Opening.post = around'.map Opening.post → ∀ site' ∈ m'.2 around',
    ∀ id, site'.item = .use id → isNew id ∨ ∃ site ∈ m.2 around, site.item = .use id ∧
      site.around.map Opening.post = site'.around.map Opening.post
  declares : ∀ around around', around.map Opening.post = around'.map Opening.post → ∀ site ∈ m.2 around,
    ∀ id, site.item = .declares id → ∃ site' ∈ m'.2 around', site'.item = .declares id ∧
      site'.around.map Opening.post = site.around.map Opening.post

namespace Survey.Retells

variable {isNew : Ident → Prop} {a a' b b' : Survey}

theorem zero : Retells isNew 0 0 where
  uses _ _ _ _ mem := by simp at mem
  declares _ _ _ _ mem := by simp at mem

theorem add (first : Retells isNew a a') (second : Retells isNew b b') :
    Retells isNew (a + b) (a' + b') where
  uses around around' same site' mem id isUse := by
    rcases mem_add.mp mem with left | right
    · exact (first.uses around around' same site' left id isUse).imp_right fun ⟨site, isSite, known⟩ =>
        ⟨site, mem_add.mpr (.inl isSite), known⟩
    · exact (second.uses around around' same site' right id isUse).imp_right fun ⟨site, isSite, known⟩ =>
        ⟨site, mem_add.mpr (.inr isSite), known⟩
  declares around around' same site mem id isDeclared := by
    rcases mem_add.mp mem with left | right
    · obtain ⟨site', isSite, known⟩ := first.declares around around' same site left id isDeclared
      exact ⟨site', mem_add.mpr (.inl isSite), known⟩
    · obtain ⟨site', isSite, known⟩ := second.declares around around' same site right id isDeclared
      exact ⟨site', mem_add.mpr (.inr isSite), known⟩

theorem use (isCallee : Bool) (id : Ident) : Retells isNew (survey.use isCallee id) (survey.use isCallee id) where
  uses around around' same site' mem id' isUse := by
    obtain rfl := mem_singleton.mp mem
    exact .inr ⟨_, mem_singleton_self _, isUse, same⟩
  declares _ _ _ site mem _ isDeclared := by
    obtain rfl := mem_singleton.mp mem
    cases isDeclared

/-- A new name in use. -/
theorem fresh {id : Ident} (known : isNew id) : Retells isNew 0 (survey.use false id) where
  uses around around' same site' mem id' isUse := by
    obtain rfl := mem_singleton.mp mem
    obtain rfl := Item.use.inj isUse
    exact .inl known
  declares _ _ _ _ mem := by simp at mem

/-- With more declarations. -/
theorem declaring (retells : Retells isNew a a') (names : Multiset String) (more : List Ident) :
    Retells isNew a (names, fun around => declared around more + a'.2 around) where
  uses around around' same site' mem id isUse := by
    refine retells.uses around around' same site' ((mem_add.mp mem).resolve_left fun mem => ?_) id isUse
    obtain ⟨_, _, rfl⟩ := List.mem_map.mp mem
    cases isUse
  declares around around' same site mem id isDeclared := by
    obtain ⟨site', isSite, known⟩ := retells.declares around around' same site mem id isDeclared
    exact ⟨site', mem_add.mpr (.inr isSite), known⟩

/-- A construct in the same place. -/
theorem opened {o o' : Opening} (same : o.post = o'.post) (inBody : Retells isNew a a')
    (names names' : Multiset String) (outer inner : List Ident) :
    Retells isNew (names, opened o outer inner a.2) (names', opened o' outer inner a'.2) where
  uses around around' sameAround site' mem id isUse := by
    have inside : (o :: around).map Opening.post = (o' :: around').map Opening.post := by
      rw [List.map_cons, List.map_cons, same, sameAround]
    rcases mem_opened.mp mem with rfl | ⟨_, _, rfl⟩ | ⟨_, _, rfl⟩ | isSite
    · cases isUse
    · cases isUse
    · cases isUse
    · exact (inBody.uses _ _ inside site' isSite id isUse).imp_right fun ⟨site, isSite, known⟩ =>
        ⟨site, mem_opened.mpr (.inr (.inr (.inr isSite))), known⟩
  declares around around' sameAround site mem id isDeclared := by
    have inside : (o :: around).map Opening.post = (o' :: around').map Opening.post := by
      rw [List.map_cons, List.map_cons, same, sameAround]
    rcases mem_opened.mp mem with rfl | ⟨id', isId, rfl⟩ | ⟨id', isId, rfl⟩ | mem
    · cases isDeclared
    · exact ⟨_, mem_opened.mpr (.inr (.inl ⟨id', isId, rfl⟩)), isDeclared, sameAround.symm⟩
    · exact ⟨_, mem_opened.mpr (.inr (.inr (.inl ⟨id', isId, rfl⟩))), isDeclared, inside.symm⟩
    · obtain ⟨site', isSite, known⟩ := inBody.declares _ _ inside site mem id isDeclared
      exact ⟨site', mem_opened.mpr (.inr (.inr (.inr isSite))), known⟩

theorem declare (id : Ident) : Retells isNew (survey.declare id) (survey.declare id) where
  uses _ _ _ site' mem _ isUse := by
    obtain rfl := List.mem_singleton.mp mem
    cases isUse
  declares around around' same site mem id' isDeclared := by
    obtain rfl := List.mem_singleton.mp mem
    exact ⟨_, List.mem_singleton_self _, isDeclared, same.symm⟩

end Survey.Retells

/-- A program retells itself. -/
theorem survey_relates_retells (isNew : Ident → Prop) :
    survey.Relates survey fun m m' => m.Retells isNew m' where
  zero := .zero
  add first second := first.add second
  use isCallee id := .use isCallee id
  declare id := .declare id
  function fn inBody := inBody.opened rfl _ _ _ _
  handler clause inBody := inBody.opened rfl _ _ _ _
  withBody _ inBody := inBody.opened rfl _ _ _ _

/-- A name of one of the variables for literals. -/
def SharedLiteral.IsName (shared : List SharedLiteral) (tree : ScopeTree) (id : Ident) : Prop :=
  ∃ s ∈ shared, id.name = (tree.field s.field).name

/-- The walk over literals leaves all declarations where they are, and adds names of its own only. -/
theorem SharedLiteral.follows_retells (shared : List SharedLiteral) (tree : ScopeTree) :
    Follows survey survey (replace shared) (declareIn shared tree) fun _ t m m' t₁ => t.IsLinked →
      (∀ s ∈ shared, t.HasNamed s.field (tree.field s.field).name) → t₁.IsLinked ∧ Extends t t₁ ∧
        m.Retells (IsName shared tree) m' where
  zero _ t linked _ := ⟨linked, .refl t, .zero⟩
  add := by
    intro _ t t₁ t₂ a a₁ b b₁ first second linked known
    obtain ⟨linked₁, extends₁, retells₁⟩ := first linked known
    obtain ⟨linked₂, extends₂, retells₂⟩ := second linked₁ fun s mem => extends₁.hasNamed (known s mem)
    exact ⟨linked₂, extends₁.trans extends₂, retells₁.add retells₂⟩
  directive e _ t _ linked _ := by
    refine ⟨linked, .refl t, ?_⟩
    have same := (survey_relates_retells (IsName shared tree)).related_expr e
    cases e
    exact same
  spared around around' e _ t _ linked _ := by
    refine ⟨linked, .refl t, ?_⟩
    have same := (survey_relates_retells (IsName shared tree)).related_expr e
    cases e
    exact same
  literal around around' e scopes t _ isLiteral linked known := by
    rw [Literal.census_eq_zero (fun _ _ => rfl) isLiteral]
    obtain ⟨same, -⟩ | ⟨o, s, -, isShared, mention⟩ := visited_cases shared scopes e t
    · rw [same, Literal.census_eq_zero (fun _ _ => rfl) isLiteral]
      exact ⟨linked, .refl t, .zero⟩
    · rw [mention, census_mentionAt fun _ _ => rfl]
      have mem := List.mem_of_find?_eq_some isShared
      have records := Records.mention linked (known s mem).1 o.scope
      exact ⟨records.linked, records.toExtends, .fresh ⟨s, mem, (records.toExtends.hasNamed (known s mem)).2⟩⟩
  use isCallee id _ t linked _ := ⟨linked, .refl t, .use isCallee id⟩
  declare id _ t linked _ := ⟨linked, .refl t, .declare id⟩
  function fn body _ t t₁ related linked known := by
    obtain ⟨linked₁, extends₁, retells⟩ := related linked known
    refine ⟨linked₁, extends₁, ?_⟩
    have onTop := (Census.pair_relates_fst (d := functions) survey_isSimple).related_block
      (declareIn shared tree { fn with body }).body
    rw [placing_declareIn, ← (Census.pair_relates_fst (d := functions) survey_isSimple).related_block body] at onTop
    have inBody : Survey.Retells (IsName shared tree) (fn.body.census survey)
        ((declareIn shared tree { fn with body }).body.census survey) := by
      rw [onTop]
      exact retells.declaring _ _
    cases fn
    refine .opened ?_ inBody _ _ _ _
    rfl
  handler clause body _ t t₁ related linked known := by
    obtain ⟨linked₁, extends₁, retells⟩ := related linked known
    cases clause
    exact ⟨linked₁, extends₁, retells.opened rfl _ _ _ _⟩
  withBody scope a b _ t t₁ related linked known := by
    obtain ⟨linked₁, extends₁, retells⟩ := related linked known
    exact ⟨linked₁, extends₁, retells.opened rfl _ _ _ _⟩

theorem Survey.Keeps.of_sameShape {m : Survey} {t t' : ScopeTree} {v : FieldId} {scope : ScopeId}
    {around : List Opening} (keeps : m.Keeps t v scope around) (same : SameShape t t') :
    m.Keeps t' v scope around := by
  intro site mem mentioned
  refine keeps site mem ?_
  simpa only [Site.mentions, same.ultimate] using mentioned

namespace BoundProgram.IsSound

variable {b named : BoundProgram} {settings : Settings} {v : FieldId} {scope : ScopeId}

theorem keeps_shareLiterals (sound : b.IsSound) {e : Edited BoundProgram}
    (isShared : b.shareLiterals settings = .ok e) (bound : v < b.tree.fields.size)
    (plain : IsPlain (b.tree.field v).name)
    (keeps : (b.program.census survey).Keeps b.tree v scope []) :
    (e.value.program.census survey).Keeps e.value.tree v scope [] := by
  have sound' := sound.shareLiterals isShared
  have phase := phase_of_shareLiterals isShared
  simp only [BoundProgram.shareLiterals, bind_eq_ok, advance_eq_ok] at isShared
  obtain ⟨start, ⟨-, rfl⟩, isShared⟩ := isShared
  have same := sameShape_withPhase b.tree .literalsShortcut
  split at isShared
  · cases isShared
    have prepared := (sound.prepared (by rw [phase]; rfl)).withPhase .literalsShortcut
    have inside : ∀ o ∈ b.program.occurrences, o.scope < b.tree.scopes.size := by
      refine scope_occurrences_lt (fun id isScope => ?_) fun id mem => sound.valid _ mem
      obtain rfl := Option.some.inj (sound.scope.symm.trans isScope)
      exact sound.formed.nonempty
    have plan := plan_shareAll prepared (sound.ungenerated (by rw [phase]; rfl)) inside
    have linked := (Records.shareAll (sound.formed.isLinked.of_sameShape same) b.program.occurrences).1.linked
    obtain ⟨-, grown, retells⟩ := (SharedLiteral.follows_retells _ _).run b.program _ linked
      fun s mem => ⟨(plan.serves s mem).1.bound, rfl⟩
    have extends_ := (Extends.of_sameShape same).trans (plan.grows.toExtends.trans grown)
    intro site mem mentioned
    obtain ⟨around, id | _ | _⟩ := site
    case declares | opening => cases mentioned
    obtain ⟨f, isField, isUltimate⟩ := (Option.any_eq_true ..).mp mentioned
    have isUltimate := of_decide_eq_true isUltimate
    rcases retells.uses [] [] rfl _ mem id rfl with ⟨s, isShared, isName⟩ | ⟨site, isSite, isUse, samePosts⟩
    · obtain ⟨-, name⟩ := sound'.valid _ (ident_of_site mem rfl) f isField
      have own := sound'.formed.ultimate_name f
      rw [isUltimate, name, extends_.name _ bound, isName] at own
      exact absurd (own ▸ plain) (plan.serves s isShared).1.notPlain
    · obtain ⟨old, -⟩ := sound.valid _ (ident_of_site isSite (by rw [isUse]; rfl)) f isField
      rw [extends_.ultimate sound.formed.outersFirst sound'.formed.outersFirst old] at isUltimate
      obtain ⟨inside, place, id', isDeclared, isVariable, owner⟩ := keeps site isSite (by
        simp [Site.mentions, isUse, isField, isUltimate])
      obtain ⟨site', isSite', isDeclares, samePosts'⟩ := retells.declares [] [] rfl _ isDeclared id' rfl
      refine ⟨scopesAround_congr samePosts ▸ inside, site'.around, id', ?_, isVariable,
        (ownerAt_congr samePosts').trans owner⟩
      rwa [← isDeclares]
  · cases isShared
    exact keeps.of_sameShape same

/-- Choosing names keeps what is declared. -/
theorem keeps_chooseNames (sound : b.IsSound) (isNamed : b.chooseNames settings = .ok named)
    (bound : v < b.tree.fields.size) (plain : IsPlain (b.tree.field v).name)
    (keeps : (b.program.census survey).Keeps b.tree v scope []) :
    (named.program.census survey).Keeps named.tree v scope [] := by
  obtain ⟨held, e, sound', same, shape, -, isShared, same', shape', -⟩ :=
    sound.exists_shareLiterals isNamed
  rw [← same] at keeps
  rw [same']
  exact (sound'.keeps_shareLiterals isShared (shape.fields_size ▸ bound) (shape.name _ ▸ plain)
    (keeps.of_sameShape shape)).of_sameShape shape'

/-- Choosing names leaves each scope to one construct. -/
theorem nodup_chooseNames (sound : b.IsSound) (isNamed : b.chooseNames settings = .ok named) :
    (named.program.spots.map Spot.scope).Nodup := by
  obtain ⟨held, e, sound', -, -, -, isShared, same', -⟩ := sound.exists_shareLiterals isNamed
  have phase := phase_of_shareLiterals isShared
  obtain ⟨e', _, _, isShared', shares⟩ := exists_shares settings (sound'.prepared (by rw [phase]; rfl)) phase
    (sound'.ungenerated (by rw [phase]; rfl)) sound'.scope sound'.valid
  obtain rfl := Except.ok.inj (isShared.symm.trans isShared')
  rw [same', shares.spots]
  exact (sound'.laidOut (by rw [phase]; rfl)).nodup

end BoundProgram.IsSound

/-! ## The printed program -/

/-- In the program that is printed, a mention of a variable that a function or the program declared when
names were bound is inside that function, and there is a declaration of the variable left in it. No two
constructs have the same scope. -/
theorem Program.declared_of_parse (settings : Settings) {source : String} {tokens : List Token} {p : Program}
    (isScanned : Token.scan source = .ok tokens) (isParsed : Program.parse tokens = .ok p) :
    ∃ named, ((p.bind settings).shrink settings).chooseNames settings = .ok named ∧
      (named.program.spots.map Spot.scope).Nodup ∧
      ∀ scope v, (p.bind settings).program.Declares scope v →
        ∀ around id f, ⟨around, .use id⟩ ∈ named.program.sites → id.field = some f →
          named.tree.ultimate f = v →
          scope ∈ scopesAround around ∧ ∃ place declared, ⟨place, .declares declared⟩ ∈ named.program.sites ∧
            declared.field = some v ∧ ownerAt place = scope := by
  have unbound := isUnbound_of_parse isScanned isParsed
  have bound := bind_isBound settings unbound
  have start : p.Reaches (p.bind settings) := ⟨settings, .refl⟩
  obtain ⟨named, isNamed, -⟩ := exists_chooseNames settings unbound
  have small := (start.shrink settings).isSound unbound
  refine ⟨named, isNamed, small.nodup_chooseNames isNamed, ?_⟩
  intro scope v declares around id f mem isField isUltimate
  obtain ⟨surveyed, -⟩ := p.bind_isScoped settings
  have isVariable := surveyed.isVariable_of_declares declares
  have same := (bound.tended_shrink settings).toSameShape
  have keeps : (((p.bind settings).shrink settings).program.census survey).Keeps (p.bind settings).tree
      v scope [] := by
    rcases declares with ⟨rfl, declares⟩ | ⟨fn, isFn, isScope, declares⟩
    · exact surveyed.keeps_shrink_global (start.isSound unbound) settings declares
    · exact surveyed.keeps_shrink_function (start.isSound unbound) settings isFn isScope declares
  have kept := small.keeps_chooseNames isNamed (same.fields_size ▸ isVariable.1)
    (same.name _ ▸ bound.fresh.plain _ isVariable.1) (keeps.of_sameShape same)
  exact kept ⟨around, .use id⟩ mem (by simp [Site.mentions, isField, isUltimate])

/-- A function that nothing mentions, parameters, and a variable that is returned. -/
theorem declared_trimmed_function : ∃ tokens p,
    Token.scan "function f(a,b){function g(){}var x=a;if(a)for(var y in x)x=y;return function h(c,d){return h(c,x)}}" =
      .ok tokens ∧ Program.parse tokens = .ok p ∧
    ∃ named, ((p.bind {}).shrink {}).chooseNames {} = .ok named ∧
      (named.program.spots.map Spot.scope).Nodup ∧
      ∀ scope v, (p.bind {}).program.Declares scope v →
        ∀ around id f, ⟨around, .use id⟩ ∈ named.program.sites → id.field = some f →
          named.tree.ultimate f = v →
          scope ∈ scopesAround around ∧ ∃ place declared, ⟨place, .declares declared⟩ ∈ named.program.sites ∧
            declared.field = some v ∧ ownerAt place = scope := by
  obtain ⟨tokens, p, isScanned, isParsed⟩ := exists_of_isReadable (by decide +kernel :
    Program.isReadable
      "function f(a,b){function g(){}var x=a;if(a)for(var y in x)x=y;return function h(c,d){return h(c,x)}}" = true)
  exact ⟨tokens, p, isScanned, isParsed, declared_of_parse {} isScanned isParsed⟩

end Minifier
