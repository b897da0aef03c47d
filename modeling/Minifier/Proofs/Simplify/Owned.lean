import Minifier.Proofs.Literal.Placed
import Minifier.Proofs.Scope.Lookup
import Minifier.Proofs.Simplify.Strays

/-!
# Mentions and declarations at their sites

What a function hoists is declared at a site inside it, with no other function between
(`survey_relates_hoisting`). So binding links all of it to variables of the function, and as every
mention of a variable is inside the construct of its scope, nothing strays in a bound program
(`BoundProgram.IsScoped.strays_eq_zero`).

When nothing strays after the rules, the sites of the program say so: around every mention of a
variable is the scope that it belongs to, and in that scope it is still declared
(`strays_relates_survey`).
-/

set_option autoImplicit false

namespace Minifier

open ScopeTree Multiset

variable {fn : Function} (t : ScopeTree)

/-! ## What a function hoists -/

/-- A name that is hoisted is declared at a site that is in the same functions. -/
theorem survey_relates_hoisting : survey.Relates hoisting fun m ids =>
    ∀ around, ∀ id ∈ ids.1 + ids.2, ∃ place, ⟨place, .declares id⟩ ∈ m.2 around ∧
      functionsOf place = functionsOf around where
  zero _ _ mem := by cases mem
  add := by
    intro a a₁ b b₁ first second around id mem
    rw [Prod.fst_add, Prod.snd_add, add_add_add_comm] at mem
    rcases mem_add.mp mem with left | right
    · obtain ⟨place, isSite, same⟩ := first around id left
      exact ⟨place, mem_add.mpr (.inl isSite), same⟩
    · obtain ⟨place, isSite, same⟩ := second around id right
      exact ⟨place, mem_add.mpr (.inr isSite), same⟩
  use _ _ _ _ mem := by cases mem
  expr _ _ := by
    -- nothing is hoisted out of an expression
    refine .inr fun around id mem => ?_
    rw [Expr.census_of_silent (fun _ _ => rfl)] at mem
    cases mem
  declare id around id' mem := by
    obtain rfl := mem_singleton.mp (add_zero ({id} : Multiset Ident) ▸ mem)
    exact ⟨around, List.mem_singleton_self _, rfl⟩
  function fn _ around id mem := ⟨around, mem_opened.mpr (.inr (.inl ⟨id, mem, rfl⟩)), rfl⟩
  handler clause known around id mem := by
    obtain ⟨place, isSite, same⟩ := known _ id mem
    exact ⟨place, mem_opened.mpr (.inr (.inr (.inr isSite))), same⟩
  withBody scope known around id mem := by
    obtain ⟨place, isSite, same⟩ := known (withOpening scope :: around) id mem
    exact ⟨place, mem_opened.mpr (.inr (.inr (.inr isSite))), same⟩

/-- What a block hoists has a site. -/
theorem Block.site_of_hoists {b : Block} {id : Ident}
    (mem : id ∈ (hoistsOf b.statements).vars ∨ id ∈ (hoistsOf b.statements).functions)
    (around : List Opening) : ∃ place, ⟨place, .declares id⟩ ∈ (b.census survey).2 around ∧
      ownerAt place = ownerAt around := by
  obtain ⟨place, isSite, same⟩ := survey_relates_hoisting.related_block b around id (by
    rw [b.census_hoisting, statementCensus_hoisting]
    exact mem_add.mpr mem)
  exact ⟨place, isSite, congrArg innermost same⟩

theorem Hoisted.Declares.exists_mem {h : Hoisted} {v : FieldId} (declares : h.Declares v) :
    ∃ id, (id ∈ h.vars ∨ id ∈ h.functions) ∧ id.field = some v := by
  rcases declares with ⟨id, mem, isField⟩ | ⟨id, mem, isField⟩
  · exact ⟨id, .inl mem, isField⟩
  · exact ⟨id, .inr mem, isField⟩

theorem Function.ownerAt_opening {scope : ScopeId} (isScope : fn.scope = some scope)
    (hoisted : Multiset String) (around : List Opening) :
    ownerAt (fn.opening hoisted :: around) = scope :=
  (ownerAt_cons isScope around).trans (if_pos rfl)

/-- What a function declares has a site in it. -/
theorem Function.site_of_declares {scope : ScopeId} {v : FieldId}
    (isScope : fn.scope = some scope) (declares : fn.Declares v) (around : List Opening) :
    ∃ place id, ⟨place, .declares id⟩ ∈ (fn.census survey).2 around ∧ id.field = some v ∧
      ownerAt place = scope := by
  have owner := ownerAt_opening isScope (fn.body.census survey).1 around
  obtain ⟨kind, name, params, body, fnScope, span⟩ := fn
  rcases declares with ⟨id, isLocal, isField⟩ | declares
  · exact ⟨_, id, mem_opened.mpr (.inr (.inr (.inl ⟨id, isLocal, rfl⟩))), isField, owner⟩
  · obtain ⟨id, hoisted, isField⟩ := declares.exists_mem
    obtain ⟨place, isSite, same⟩ := Block.site_of_hoists hoisted _
    exact ⟨place, id, mem_opened.mpr (.inr (.inr (.inr isSite))), isField, same.trans owner⟩

/-! ## Mentions -/

/-- Whether a variable is mentioned at a site. -/
def Site.mentions (t : ScopeTree) (v : FieldId) (site : Site) : Bool :=
  match site.item with
  | .use id => id.field.any fun f => t.ultimate f = v
  | _ => false

theorem countP_mentions_opened (v : FieldId) (o : Opening) (outer inner : List Ident)
    (body : List Opening → Multiset Site) (around : List Opening) :
    (opened o outer inner body around).countP (·.mentions t v) =
      (body (o :: around)).countP (·.mentions t v) := by
  have declared (around : List Opening) (ids : List Ident) :
      (declared around ids).countP (·.mentions t v) = 0 := by
    rw [Minifier.declared, coe_countP, List.countP_map]
    exact List.countP_eq_zero.mpr fun _ _ => Bool.false_ne_true
  have here : Multiset.countP (fun site : Site => site.mentions t v = true)
      {⟨around, .opening o⟩} = 0 := by
    refine countP_eq_zero.mpr fun site mem => ?_
    rw [mem_singleton.mp mem]
    exact Bool.false_ne_true
  simp only [opened, countP_add, declared, here, Nat.zero_add]

theorem mem_body_of_mentions {t : ScopeTree} {v : FieldId} {o : Opening} {outer inner : List Ident}
    {body : List Opening → Multiset Site} {around : List Opening} {site : Site}
    (mem : site ∈ opened o outer inner body around) (mentioned : site.mentions t v = true) :
    site ∈ body (o :: around) := by
  rcases mem_opened.mp mem with rfl | ⟨_, _, rfl⟩ | ⟨_, _, rfl⟩ | inBody
  · cases mentioned
  · cases mentioned
  · cases mentioned
  · exact inBody

theorem survey_relates_mentionsOf (v : FieldId) : survey.Relates (mentionsOf t v) fun m n =>
      ∀ around, n = (m.2 around).countP (·.mentions t v) where
  zero _ := rfl
  add := by
    intro a a₁ b b₁ first second around
    rw [Prod.snd_add, Pi.add_apply, countP_add, ← first, ← second]
  use isCallee id around := by
    show (if _ then 1 else 0) = Multiset.countP _ {(⟨around, .use id⟩ : Site)}
    rw [← cons_zero, countP_cons, countP_zero, Nat.zero_add]
    rfl
  declare id around := by
    refine (countP_eq_zero.mpr fun site mem => ?_).symm
    rw [List.mem_singleton.mp mem]
    exact Bool.false_ne_true
  function fn same around := (same _).trans (countP_mentions_opened t v _ _ _ _ around).symm
  handler clause same around := (same _).trans (countP_mentions_opened t v _ _ _ _ around).symm
  withBody scope same around := (same _).trans (countP_mentions_opened t v _ _ _ _ around).symm

/-! ## Bound programs -/

theorem ownerAt_mem_scopesAround (around : List Opening) : ownerAt around ∈ scopesAround around := by
  have head : ownerAt around ∈ scopesAround (functionsOf around) := by
    unfold ownerAt innermost
    cases isList : scopesAround (functionsOf around) with
    | nil => simp [scopesAround] at isList
    | cons scope rest => exact List.mem_cons_self
  refine List.mem_append.mpr ((List.mem_append.mp head).imp_left fun mem => ?_)
  obtain ⟨o, isFunction, isScope⟩ := List.mem_filterMap.mp mem
  exact List.mem_filterMap.mpr ⟨o, (List.mem_filter.mp isFunction).1, isScope⟩

theorem use_of_mentionsOf {t : ScopeTree} {v : FieldId} {id : Ident}
    (mentioned : (mentionsOf t v).use false id ≠ 0) : ∃ f, id.field = some f ∧ t.ultimate f = v := by
  simp only [mentionsOf, ne_eq, ite_eq_right_iff, Nat.one_ne_zero, imp_false, Decidable.not_not,
    Option.any_eq_true, decide_eq_true_eq] at mentioned
  exact mentioned

namespace BoundProgram.IsScoped

variable {b : BoundProgram} (surveyed : b.IsScoped) {around : List Opening} {id : Ident}
  {v : FieldId} {scope : ScopeId} {name : String}
include surveyed

/-- A mention is inside the scope of the variable. -/
theorem mem_scopesAround_of_use {f : FieldId} (mem : ⟨around, .use id⟩ ∈ b.program.sites)
    (isField : id.field = some f) :
    (b.tree.field (b.tree.ultimate f)).scope ∈ scopesAround around := by
  obtain ⟨_, isField', known⟩ := surveyed.uses _ mem id rfl
  obtain rfl := Option.some.inj (isField.symm.trans isField')
  obtain ⟨bound, isScope, -⟩ := surveyed.formed.lookup_eq_some.mp known
  rw [← surveyed.chain_innermost mem, mem_chain_iff surveyed.formed.parentsFirst]
  have within := surveyed.formed.within_ultimate f
  rwa [isScope] at within

/-- A declaration is of a variable of the function around it. -/
theorem owner_of_declares (mem : ⟨around, .declares id⟩ ∈ b.program.sites)
    (mentioned : (mentionsOf b.tree v).use false id ≠ 0) :
    (b.tree.field v).name = id.name ∧ (b.tree.field v).scope = ownerAt around := by
  obtain ⟨f, isField, -, isScope, isName, isVariable⟩ := surveyed.declares _ mem id rfl
  obtain ⟨_, isField', isUltimate⟩ := use_of_mentionsOf mentioned
  obtain rfl := Option.some.inj (isField.symm.trans isField')
  rw [ultimate_of_variable isVariable] at isUltimate
  rw [← isUltimate]
  exact ⟨isName, isScope⟩

/-- A name that a function declares is linked to the variable of that name. -/
theorem field_of_declares (isVariable : b.tree.IsVariable v scope name)
    (mem : ⟨around, .declares id⟩ ∈ b.program.sites) (owner : ownerAt around = scope)
    (isName : id.name = name) : id.field = some v := by
  obtain ⟨f, isField, isBound, isScope, isName', -⟩ := surveyed.declares _ mem id rfl
  have found := surveyed.formed.lookup_eq_some.mpr ⟨isBound, isScope.trans owner, isName'.trans isName⟩
  have found' := surveyed.formed.lookup_eq_some.mpr ⟨isVariable.1, isVariable.2.1, isVariable.2.2.1⟩
  rw [isField, ← found, found']

theorem scopes_nodup : (b.program.sites.filterMap Site.scope?).Nodup := by
  rw [surveyed.scopes, coe_nodup]
  exact List.nodup_range'

end BoundProgram.IsScoped

section Opened

variable {o : Opening} {outer inner : List Ident} {body : List Opening → Multiset Site}
  {around : List Opening}

theorem le_opened : body (o :: around) ≤ opened o outer inner body around := le_add_left _ _

theorem filterMap_le_opened :
    (body (o :: around)).filterMap Site.scope? ≤ (opened o outer inner body around).filterMap Site.scope? :=
  filterMap_le_filterMap _ le_opened

theorem apart_of_opened {scope : ScopeId}
    (apart : scope ∉ (opened o outer inner body around).filterMap Site.scope?) :
    o.scope ≠ some scope ∧ scope ∉ (body (o :: around)).filterMap Site.scope? := by
  rw [filterMap_opened, mem_add, not_or] at apart
  exact ⟨fun isScope => apart.1 (by simp [isScope]), apart.2⟩

end Opened

/-- Functions are at their sites. -/
theorem survey_relates_functions : survey.Relates functions fun m fns => ∀ around,
    fns.filterMap (·.scope) ≤ (m.2 around).filterMap Site.scope? ∧
      ∀ fn ∈ fns, ∃ place, (fn.census survey).2 place ≤ m.2 around where
  zero _ := ⟨zero_le _, fun _ mem => by cases mem⟩
  add := by
    intro a a₁ b b₁ first second around
    obtain ⟨scopes, sites⟩ := first around
    obtain ⟨scopes', sites'⟩ := second around
    rw [Prod.snd_add, Pi.add_apply, filterMap_add, filterMap_add]
    refine ⟨add_le_add scopes scopes', fun fn mem => ?_⟩
    rcases mem_add.mp mem with left | right
    · obtain ⟨place, less⟩ := sites fn left
      exact ⟨place, less.trans (le_add_right _ _)⟩
    · obtain ⟨place, less⟩ := sites' fn right
      exact ⟨place, less.trans (le_add_left _ _)⟩
  use _ _ _ := ⟨zero_le _, fun _ mem => by cases mem⟩
  declare _ _ := ⟨zero_le _, fun _ mem => by cases mem⟩
  function fn known around := by
    have here : Multiset.filterMap (·.scope) {fn} = Multiset.ofList fn.scope.toList := by
      rw [← coe_singleton, filterMap_coe]
      cases isScope : fn.scope <;> simp [isScope]
    obtain ⟨scopes, sites⟩ := known (fn.opening (fn.body.census survey).1 :: around)
    refine ⟨?_, fun fn' mem => ?_⟩
    · show Multiset.filterMap _ ({fn} + _) ≤ (opened _ _ _ _ _).filterMap _
      rw [filterMap_add, here, filterMap_opened]
      exact add_le_add (le_refl _) scopes
    · rcases mem_add.mp mem with isFn | inner
      · rw [mem_singleton.mp isFn, Function.census_eq]
        exact ⟨around, le_refl _⟩
      · obtain ⟨place, less⟩ := sites fn' inner
        exact ⟨place, less.trans le_opened⟩
  handler clause known around := by
    refine ⟨(known _).1.trans filterMap_le_opened, fun fn mem => ?_⟩
    obtain ⟨place, less⟩ := (known _).2 fn mem
    exact ⟨place, less.trans le_opened⟩
  withBody _ known _ := by
    refine ⟨(known _).1.trans filterMap_le_opened, fun fn mem => ?_⟩
    obtain ⟨place, less⟩ := (known _).2 fn mem
    exact ⟨place, less.trans le_opened⟩

/-- No two functions have the same scope. -/
theorem BoundProgram.IsScoped.eq_of_scope_eq {b : BoundProgram} (surveyed : b.IsScoped) {fn' : Function}
    {scope : ScopeId} (mem : fn ∈ b.program.functions) (isScope : fn.scope = some scope)
    (mem' : fn' ∈ b.program.functions) (isScope' : fn'.scope = some scope) : fn = fn' := by
  have less : b.program.functions.filterMap (·.scope) ≤ b.program.sites.filterMap Site.scope? :=
    (survey_relates_functions.related b.program []).1
  have distinct := nodup_of_le less surveyed.scopes_nodup
  by_contra other
  obtain ⟨rest, whole⟩ := exists_cons_of_mem mem
  rw [whole, filterMap_cons_some _ _ _ isScope, nodup_cons] at distinct
  rw [whole, mem_cons] at mem'
  have later := mem'.resolve_left (Ne.symm other)
  exact distinct.1 ((mem_filterMap _ _).mpr ⟨fn', later, isScope'⟩)

/-- A function owns what is hoisted in it. -/
theorem BoundProgram.IsScoped.ne_ownerAt {b : BoundProgram} (surveyed : b.IsScoped) {o : Opening}
    {outer inner : List Ident} {body : List Opening → Multiset Site} {around : List Opening} {scope : ScopeId}
    (less : opened o outer inner body around ≤ b.program.sites) (isFunction : o.kind = .function)
    (other : o.scope ≠ some scope) : scope ≠ ownerAt (o :: around) := by
  obtain ⟨scope', isScope, -⟩ := surveyed.openings _ (mem_of_le less (mem_opened.mpr (.inl rfl))) o rfl
  rw [ownerAt_cons isScope, if_pos isFunction]
  rintro rfl
  exact other isScope

/-! ## Declarations in inner functions -/

section Traces

variable {b : BoundProgram} (surveyed : b.IsScoped) (v : FieldId)
include surveyed

/-- Away from the function of a variable there is no `var` of it. -/
theorem survey_relates_traces : survey.Relates (traces b.tree v) fun m n =>
    ∀ around, m.2 around ≤ b.program.sites → (b.tree.field v).scope ≠ ownerAt around →
      (b.tree.field v).scope ∉ (m.2 around).filterMap Site.scope? → n.2 = 0 where
  zero _ _ _ _ := rfl
  add := by
    intro a a₁ b b₁ first second around less away apart
    rw [Prod.snd_add, Pi.add_apply] at less apart
    rw [filterMap_add, mem_add, not_or] at apart
    rw [Prod.snd_add, first around ((le_add_right _ _).trans less) away apart.1,
      second around ((le_add_left _ _).trans less) away apart.2]
  use _ _ _ _ _ _ := rfl
  declare id around less away _ := by
    by_contra mentioned
    exact away (surveyed.owner_of_declares (mem_of_le less (List.mem_singleton_self _)) mentioned).2
  function fn known around less _ apart := by
    have inside := apart_of_opened apart
    exact known _ (le_opened.trans less) (surveyed.ne_ownerAt less rfl inside.1) inside.2
  handler clause known around less away apart :=
    known _ (le_opened.trans less) away (apart_of_opened apart).2
  withBody _ known _ less away apart :=
    known _ (le_opened.trans less) away (apart_of_opened apart).2

theorem survey_relates_innerTraces : survey.Relates (innerTraces b.tree v) fun m n =>
    ∀ around, m.2 around ≤ b.program.sites →
      (b.tree.field v).scope ∉ (m.2 around).filterMap Site.scope? → n.2 = 0 where
  zero _ _ _ := rfl
  add := by
    intro a a₁ b b₁ first second around less apart
    rw [Prod.snd_add, Pi.add_apply] at less apart
    rw [filterMap_add, mem_add, not_or] at apart
    rw [Prod.snd_add, first around ((le_add_right _ _).trans less) apart.1,
      second around ((le_add_left _ _).trans less) apart.2]
  use _ _ _ _ _ := rfl
  declare _ _ _ _ := rfl
  function fn _ around less apart := by
    have inside := apart_of_opened apart
    exact (survey_relates_traces surveyed v).related_block fn.body _ (le_opened.trans less)
      (surveyed.ne_ownerAt less rfl inside.1) inside.2
  handler clause known around less apart := known _ (le_opened.trans less) (apart_of_opened apart).2
  withBody _ known _ less apart := known _ (le_opened.trans less) (apart_of_opened apart).2

end Traces

/-! ## Nothing strays after binding -/

namespace BoundProgram.IsScoped

variable {around : List Opening} {o : Opening}

variable {b : BoundProgram} (surveyed : b.IsScoped) {v : FieldId} {scope : ScopeId} {name : String}
include surveyed

/-- The function of a scope declares the variables of the scope, and is the only one that does. -/
theorem hosts {fn : Function} (isVariable : b.tree.IsVariable v scope name)
    (isScope : fn.scope = some scope) (declares : fn.Declares v)
    (less : (fn.census survey).2 around ≤ b.program.sites) :
    fn.Hosts b.tree v name (b.program.census (mentionsOf b.tree v)) := by
  have all := (survey_relates_mentionsOf b.tree v).related b.program []
  have here := (survey_relates_mentionsOf b.tree v).related_function fn around
  have fewer := countP_le_of_le (fun site => site.mentions b.tree v = true) less
  obtain ⟨kind, fnName, params, body, _, span⟩ := fn
  obtain rfl := isScope
  let o : Opening := Function.opening ⟨kind, fnName, params, body, some scope, span⟩ (body.census survey).1
  have whole : (body.census survey).2 (o :: around) ≤ b.program.sites := le_opened.trans less
  have owner : ownerAt (o :: around) = scope := Function.ownerAt_opening rfl _ around
  have site {id : Ident} (mem : id ∈ (hoistsOf body.statements).vars ∨ id ∈ (hoistsOf body.statements).functions) :
      ∃ place, ⟨place, .declares id⟩ ∈ b.program.sites ∧ ownerAt place = scope := by
    obtain ⟨place, isSite, same⟩ := Block.site_of_hoists mem (o :: around)
    exact ⟨place, mem_of_le whole isSite, same.trans owner⟩
  have named : (hoistsOf body.statements).Named b.tree v name := by
    intro id mem mentioned
    obtain ⟨place, isSite, -⟩ := site (.inl mem)
    exact (surveyed.owner_of_declares isSite mentioned).1.symm.trans isVariable.2.2.1
  have once : scope ∉ ((body.census survey).2 (o :: around)).filterMap Site.scope? := by
    have distinct := nodup_of_le (filterMap_le_filterMap _ less) surveyed.scopes_nodup
    have distinct : ((opened o _ _ _ around).filterMap Site.scope?).Nodup := distinct
    rw [filterMap_opened] at distinct
    exact (nodup_cons.mp distinct).1
  refine ⟨fun id mem isName => ?_, named, declares.imp_right fun declares => ?_, ?_, ?_⟩
  · obtain ⟨place, isSite, isOwner⟩ := site (.inl mem)
    exact surveyed.field_of_declares isVariable isSite isOwner isName
  · refine declares.imp_left fun ⟨id, mem, isField⟩ => ⟨id, mem, named id mem ?_⟩
    simp [mentionsOf, isField, ultimate_of_variable isVariable.2.2.2]
  · refine (survey_relates_innerTraces surveyed v).related_block body (o :: around) whole ?_
    rw [isVariable.2.1]
    exact once
  · rw [here]
    exact fewer.trans (Nat.le_of_eq all.symm)

omit surveyed in
theorem not_mem_scopesAround_cons (other : o.scope ≠ some scope) (away : scope ∉ scopesAround around) :
    scope ∉ scopesAround (o :: around) := by
  intro mem
  refine away ?_
  rcases List.mem_append.mp mem with inside | isGlobal
  · obtain ⟨o', isOpening, isScope⟩ := List.mem_filterMap.mp inside
    rcases List.mem_cons.mp isOpening with rfl | outer
    · exact absurd isScope other
    · exact List.mem_append_left _ (List.mem_filterMap.mpr ⟨o', outer, isScope⟩)
  · exact List.mem_append_right _ isGlobal

/-- A construct that is no function does not have the scope of one. -/
theorem scope_ne_of_kind {outer inner : List Ident} {body : List Opening → Multiset Site}
    (less : opened o outer inner body around ≤ b.program.sites)
    (isFunction : (b.tree.scope scope).kind = .function) (other : o.kind ≠ .function) :
    o.scope ≠ some scope := by
  obtain ⟨scope', isScope, isKind, -⟩ :=
    surveyed.openings _ (mem_of_le less (mem_opened.mpr (.inl rfl))) o rfl
  intro same
  obtain rfl := Option.some.inj (isScope.symm.trans same)
  exact other (isKind.symm.trans isFunction)

/-- A bound program has no strays, and each scope is of one function at most. -/
theorem pair_relates_strays (isVariable : b.tree.IsVariable v scope name)
    (isFunction : (b.tree.scope scope).kind = .function)
    {good : Function → Prop} (isGood : ∀ fn ∈ b.program.functions, fn.scope = some scope →
      ∀ around, (fn.census survey).2 around ≤ b.program.sites → good fn) :
    (survey.pair functions).Relates (strays b.tree v scope good) fun m n =>
      ∀ around, m.1.2 around ≤ b.program.sites → m.2 ≤ b.program.functions →
        n.2 ≤ ((m.1.2 around).filterMap Site.scope?).count scope ∧ (scope ∉ scopesAround around → n.1 = 0) where
  zero _ _ _ := ⟨Nat.zero_le _, fun _ => rfl⟩
  add := by
    intro a a₁ b b₁ first second around less fewer
    have left := first around ((le_add_right _ _).trans less) ((le_add_right _ _).trans fewer)
    have right := second around ((le_add_left _ _).trans less) ((le_add_left _ _).trans fewer)
    refine ⟨?_, fun away => Nat.add_eq_zero_iff.mpr ⟨left.2 away, right.2 away⟩⟩
    show _ ≤ Multiset.count scope ((a.1.2 around + b.1.2 around).filterMap _)
    rw [filterMap_add, count_add]
    exact Nat.add_le_add left.1 right.1
  use isCallee id around less _ := by
    refine ⟨Nat.zero_le _, fun away => ?_⟩
    by_contra mentioned
    obtain ⟨f, isField, rfl⟩ := use_of_mentionsOf mentioned
    have inside := surveyed.mem_scopesAround_of_use
      (mem_of_le less (mem_singleton_self _)) isField
    exact away (isVariable.2.1 ▸ inside)
  declare id around less _ := by
    refine ⟨Nat.zero_le _, fun away => ?_⟩
    by_contra mentioned
    have owner := surveyed.owner_of_declares (mem_of_le less (List.mem_singleton_self _)) mentioned
    exact away (isVariable.2.1 ▸ owner.2 ▸ ownerAt_mem_scopesAround around)
  function fn known around less fewer := by
    simp only [← Function.census_eq] at less fewer ⊢
    have isSurvey := (Census.pair_relates_fst (d := functions) survey_isSimple).related_function fn
    have isFn : fn ∈ b.program.functions := mem_of_le fewer (by
      cases fn
      exact mem_add.mpr (.inl (mem_singleton_self _)))
    by_cases isScope : fn.scope = some scope
    · obtain ⟨noStray, owns⟩ := strays_function_of_scope b.tree v good isScope
      refine ⟨?_, fun _ => noStray.mpr (isGood fn isFn isScope around (isSurvey ▸ less))⟩
      rw [owns]
      obtain ⟨kind, fnName, params, body, _, span⟩ := fn
      obtain rfl := isScope
      have inside := known _ (le_opened.trans less) ((le_add_left _ _).trans fewer)
      show _ ≤ Multiset.count scope ((opened _ _ _ _ around).filterMap _)
      rw [filterMap_opened, count_add, Nat.add_comm]
      exact Nat.add_le_add (Nat.le_of_eq (count_singleton_self scope).symm) inside.1
    · rw [strays_function_of_ne isScope]
      cases fn
      have inside := known _ (le_opened.trans less) ((le_add_left _ _).trans fewer)
      exact ⟨inside.1.trans (count_le_of_le _ filterMap_le_opened),
        fun away => inside.2 (not_mem_scopesAround_cons isScope away)⟩
  handler clause known around less fewer := by
    have inside := known _ (le_opened.trans less) fewer
    refine ⟨inside.1.trans (count_le_of_le _ filterMap_le_opened), fun away => inside.2 ?_⟩
    exact not_mem_scopesAround_cons (surveyed.scope_ne_of_kind less isFunction ScopeKind.noConfusion) away
  withBody scope' known around less fewer := by
    have inside := known _ (le_opened.trans less) fewer
    refine ⟨inside.1.trans (count_le_of_le _ filterMap_le_opened), fun away => inside.2 ?_⟩
    exact not_mem_scopesAround_cons (surveyed.scope_ne_of_kind less isFunction ScopeKind.noConfusion) away

theorem strays_eq_zero (isVariable : b.tree.IsVariable v scope name)
    (isFunction : (b.tree.scope scope).kind = .function) {fn : Function} (mem : fn ∈ b.program.functions)
    (isScope : fn.scope = some scope) (declares : fn.Declares v) :
    let found := b.program.census (strays b.tree v scope
      (·.Hosts b.tree v name (b.program.census (mentionsOf b.tree v))))
    found.1 = 0 ∧ found.2 ≤ 1 := by
  intro found
  have known := (surveyed.pair_relates_strays isVariable isFunction fun fn' mem' isScope' _ less =>
    surveyed.hosts isVariable isScope' (surveyed.eq_of_scope_eq mem isScope mem' isScope' ▸ declares)
      less).related b.program []
  rw [Program.census_pair survey_isSimple functions_isSimple] at known
  obtain ⟨owned, noStray⟩ := known (le_refl _) (le_refl _)
  refine ⟨noStray fun isGlobal => ?_, owned.trans (nodup_iff_count_le_one.mp surveyed.scopes_nodup _)⟩
  obtain rfl := List.mem_singleton.mp isGlobal
  rw [(surveyed.formed.isGlobal_iff global surveyed.formed.nonempty).mpr rfl] at isFunction
  cases isFunction

end BoundProgram.IsScoped

/-! ## Kept declarations -/

/-- Around every mention of a variable is its scope, and there it is declared. -/
def Survey.Keeps (m : Survey) (t : ScopeTree) (v : FieldId) (scope : ScopeId)
    (around : List Opening) : Prop :=
  ∀ site ∈ m.2 around, site.mentions t v = true → scope ∈ scopesAround site.around ∧
    ∃ place id, ⟨place, .declares id⟩ ∈ m.2 around ∧ id.field = some v ∧ ownerAt place = scope

theorem Survey.Keeps.opened {m : Survey} {t : ScopeTree} {v : FieldId} {scope : ScopeId}
    {around : List Opening} {o : Opening} (keeps : m.Keeps t v scope (o :: around))
    (hoisted : Multiset String) (outer inner : List Ident) :
    Survey.Keeps (hoisted, opened o outer inner m.2) t v scope around := by
  intro site mem mentioned
  obtain ⟨inside, place, id, isSite, declares⟩ := keeps site (mem_body_of_mentions mem mentioned) mentioned
  exact ⟨inside, place, id, mem_opened.mpr (.inr (.inr (.inr isSite))), declares⟩

/-- If nothing strays, then declarations are kept. -/
theorem strays_relates_survey (v : FieldId) (scope : ScopeId) :
    (strays t v scope (·.Settled t v)).Relates survey fun n m =>
      ∀ around, n.1 = 0 → m.Keeps t v scope around where
  zero _ _ _ mem := by simp at mem
  add := by
    intro a a₁ b b₁ first second around none site mem mentioned
    obtain ⟨none₁, none₂⟩ := Nat.add_eq_zero_iff.mp none
    rcases mem_add.mp mem with left | right
    · obtain ⟨inside, place, id, isSite, declares⟩ := first around none₁ site left mentioned
      exact ⟨inside, place, id, mem_add.mpr (.inl isSite), declares⟩
    · obtain ⟨inside, place, id, isSite, declares⟩ := second around none₂ site right mentioned
      exact ⟨inside, place, id, mem_add.mpr (.inr isSite), declares⟩
  use isCallee id around none site mem mentioned := by
    obtain rfl := mem_singleton.mp mem
    have once : (mentionsOf t v).use isCallee id = 1 := if_pos mentioned
    exact absurd (once.symm.trans none) Nat.one_ne_zero
  declare id around _ site mem mentioned := by
    rw [List.mem_singleton.mp mem] at mentioned
    cases mentioned
  function fn known around none := by
    simp only [← Function.census_eq] at none ⊢
    by_cases isScope : fn.scope = some scope
    · have settled := (strays_function_of_scope t v (·.Settled t v) isScope).1.mp none
      have counted := (survey_relates_mentionsOf t v).related_function fn around
      have nested := survey_tracks_nested.blockOf fn.body ()
      obtain ⟨kind, name, params, body, _, span⟩ := fn
      obtain rfl := isScope
      intro site mem mentioned
      refine ⟨?_, ?_⟩
      · obtain ⟨inner, isAround, -⟩ := nested _ site (mem_body_of_mentions mem mentioned)
        rw [isAround]
        exact List.mem_append_left _ (List.mem_filterMap.mpr ⟨_, List.mem_append_right _ List.mem_cons_self, rfl⟩)
      · rcases settled with declares | unmentioned
        · exact Function.site_of_declares rfl declares around
        · rw [unmentioned] at counted
          exact absurd mentioned (countP_eq_zero.mp counted.symm site mem)
    · rw [strays_function_of_ne isScope] at none
      cases fn
      exact (known _ none).opened _ _ _
  handler clause known around none := (known _ none).opened _ _ _
  withBody _ known around none := (known _ none).opened _ _ _

end Minifier
