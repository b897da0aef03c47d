import Minifier.Proofs.Parse.Unbound
import Minifier.Proofs.Scope.Declarations

/-!
# Names stand for what is declared around them

The second walk of binding looks names up in tables that it fills itself, with aliases and with the
variables that nothing declares. What it finds does not depend on that: a name stands for the
variable of that name in the nearest scope around it that declares one, and for a variable of the
surroundings if there is none (`Program.bind_resolves`).
-/

set_option autoImplicit false

namespace Minifier

open Multiset

namespace ScopeTree

variable {t t' t'' : ScopeTree}

/-! ## Trees that names are looked up in -/

/-- A tree after some names have been looked up. All that is new are aliases, and variables of the
surroundings in the global scope. -/
structure Refers (t t' : ScopeTree) : Prop where
  formed : t'.WellFormed
  grown : Extends t t'
  scopes : t'.scopes.size = t.scopes.size
  kind : ∀ s, (t'.scope s).kind = (t.scope s).kind
  fieldKind : ∀ f < t.fields.size, (t'.field f).kind = (t.field f).kind
  introduced : ∀ f, t.fields.size ≤ f → f < t'.fields.size → (t'.field f).outer = none →
    (t'.field f).scope = global ∧ (t'.field f).isForeign = true

namespace Refers

variable {s : ScopeId} {name : String} {f : FieldId}

theorem refl (formed : t.WellFormed) : Refers t t where
  formed := formed
  grown := .refl t
  scopes := rfl
  kind _ := rfl
  fieldKind _ _ := rfl
  introduced _ old bound := absurd bound (Nat.not_lt.mpr old)

theorem trans (first : Refers t t') (second : Refers t' t'') : Refers t t'' where
  formed := second.formed
  grown := first.grown.trans second.grown
  scopes := second.scopes.trans first.scopes
  kind s := (second.kind s).trans (first.kind s)
  fieldKind f bound := (second.fieldKind f (Nat.lt_of_lt_of_le bound first.grown.fields_size)).trans
    (first.fieldKind f bound)
  introduced f new bound isVariable := by
    by_cases known : f < t'.fields.size
    · rw [second.grown.outer f known] at isVariable
      have old := first.introduced f new known isVariable
      rwa [second.grown.scope f known, Field.isForeign, second.fieldKind f known, ← Field.isForeign]
    · exact second.introduced f (Nat.le_of_not_lt known) bound isVariable

/-- Marks at scopes and fields look nothing up. -/
theorem marked (formed : t.WellFormed) (same : SameShape t t')
    (kind : ∀ f, (t'.field f).kind = (t.field f).kind) : Refers t t' where
  formed := same.wellFormed formed
  grown := .of_sameShape same
  scopes := same.scopes_size
  kind := same.kind
  fieldKind f _ := kind f
  introduced _ old bound := absurd (same.fields_size ▸ bound) (Nat.not_lt.mpr old)

theorem addField (formed : t.WellFormed) {field : Field} (admits : t.Admits field)
    (aside : field.outer = none → field.scope = global ∧ field.isForeign = true) :
    Refers t (t.addField field).2 where
  formed := formed.addField admits
  grown := .addField t field
  scopes := scopes_size_addField t field
  kind s := (place_addField t field s).2.2
  fieldKind f bound := by rw [field_addField_of_lt t field bound]
  introduced f old bound isVariable := by
    rw [fields_size_addField] at bound
    obtain rfl : f = t.fields.size := Nat.le_antisymm (Nat.le_of_lt_succ bound) old
    rw [field_addField, if_pos rfl] at isVariable ⊢
    exact aside isVariable

/-- A field that was in a table stays there. -/
theorem lookup (refers : Refers t t') (formed : t.WellFormed)
    (found : (t.scope s).lookup name = some f) : (t'.scope s).lookup name = some f := by
  obtain ⟨bound, isScope, isName⟩ := formed.lookup_eq_some.mp found
  refine refers.formed.lookup_eq_some.mpr ⟨Nat.lt_of_lt_of_le bound refers.grown.fields_size, ?_, ?_⟩
  · rw [refers.grown.scope f bound, isScope]
  · rw [refers.grown.name f bound, isName]

theorem isVariable (refers : Refers t t') (bound : f < t.fields.size) :
    t'.IsVariable f s name ↔ t.IsVariable f s name := by
  simp only [IsVariable, bound, Nat.lt_of_lt_of_le bound refers.grown.fields_size,
    refers.grown.scope f bound, refers.grown.name f bound, refers.grown.outer f bound]

/-- No scope but the global one gets variables. -/
theorem hasVariable (refers : Refers t t') (formed : t.WellFormed) (inner : s ≠ global)
    (name : String) : t'.hasVariable s name = true ↔ t.hasVariable s name = true := by
  rw [refers.formed.hasVariable_iff, formed.hasVariable_iff]
  constructor
  · rintro ⟨f, isVariable⟩
    by_cases bound : f < t.fields.size
    · exact ⟨f, (refers.isVariable bound).mp isVariable⟩
    · have new := refers.introduced f (Nat.le_of_not_lt bound) isVariable.1 isVariable.2.2.2
      exact absurd (isVariable.2.1.symm.trans new.1) inner
  · rintro ⟨f, isVariable⟩
    exact ⟨f, (refers.isVariable isVariable.1).mpr isVariable⟩

end Refers

theorem WellFormed.lookup_addField (formed : t.WellFormed) {field : Field} (admits : t.Admits field) :
    ((t.addField field).2.scope field.scope).lookup field.name = some (t.addField field).1 := by
  refine (formed.addField admits).lookup_eq_some.mpr ?_
  have isNew : (t.addField field).1 = t.fields.size := rfl
  rw [fields_size_addField, field_addField, isNew, if_pos rfl]
  exact ⟨Nat.lt_succ_self _, rfl, rfl⟩

end ScopeTree

namespace Bind

open ScopeTree

variable {s₁ : State} (settings : Settings)

/-- A state of the second walk. -/
structure State.IsReferring (s : State) : Prop where
  formed : s.tree.WellFormed
  isOpen : ∀ scope ∈ s.stack, scope < s.tree.scopes.size

theorem State.IsReferring.current_lt {s : State} (referring : s.IsReferring) :
    s.current < s.tree.scopes.size := by
  unfold State.current
  cases stack : s.stack with
  | nil => exact referring.formed.nonempty
  | cons scope rest => exact referring.isOpen scope (by simp [stack])

/-- A step that looks names up. -/
structure Finds (s s' : State) : Prop where
  stack : s'.stack = s.stack
  tree : Refers s.tree s'.tree

theorem Finds.trans {s s₂ : State} (first : Finds s s₁) (second : Finds s₁ s₂) : Finds s s₂ :=
  ⟨second.stack.trans first.stack, first.tree.trans second.tree⟩

theorem Finds.isReferring {s s' : State} (finds : Finds s s') (referring : s.IsReferring) :
    s'.IsReferring :=
  ⟨finds.tree.formed, fun scope mem => finds.tree.scopes ▸ referring.isOpen scope (finds.stack ▸ mem)⟩

variable {s : State}

theorem finds_findOrDeclare (referring : s.IsReferring) (isCallee : Bool) (id : Ident) :
    let r := findOrDeclare s.current isCallee id s
    Finds s r.2 ∧ r.2.tree.findVisible s.current id.name = some r.1 := by
  cases visible : s.tree.findVisible s.current id.name with
  | some found =>
    rw [findOrDeclare_of_visible visible]
    exact ⟨⟨rfl, .refl referring.formed⟩, visible⟩
  | none =>
    obtain ⟨kind, report, foreign, answer⟩ := findOrDeclare_of_missing visible isCallee
    rw [answer]
    refine ⟨⟨rfl, ?_⟩,
      findVisible_declare_global referring.formed referring.current_lt visible kind id.span⟩
    have isNew := findVisible_eq_none referring.formed.parentsFirst visible
      (referring.formed.within_global referring.current_lt)
    show Refers s.tree (s.tree.declare global id.name kind id.span).2
    rw [declare_of_missing isNew]
    refine .addField referring.formed ⟨referring.formed.nonempty, isNew, fun _ isOuter => (nomatch isOuter)⟩ ?_
    exact fun _ => ⟨rfl, by simp [Field.isForeign, foreign.symm]⟩

theorem finds_resolve (referring : s.IsReferring) (isCallee : Bool) (id : Ident) :
    let r := resolve isCallee id s
    Finds s r.2 ∧ r.1.name = id.name ∧ ∃ f, r.1.field = some f ∧
      (r.2.tree.scope s.current).lookup id.name = some f := by
  obtain ⟨finds, visible⟩ := finds_findOrDeclare referring isCallee id
  have answers := resolve_cases isCallee id s
  simp only [show s.stack.headD global = s.current from rfl] at answers
  generalize findOrDeclare s.current isCallee id s = r at finds visible answers
  have formed := finds.tree.formed
  obtain ⟨within, isField, inner⟩ := findVisible_eq_some formed.parentsFirst visible
  rcases answers with ⟨same, answer⟩ | ⟨ne, t, tended, kinds, answer⟩
  · rw [answer]
    exact ⟨finds, rfl, _, rfl, same ▸ isField⟩
  · rw [answer]
    have marked := Refers.marked formed tended.toSameShape kinds
    obtain ⟨bound, isScope, isName⟩ := marked.formed.lookup_eq_some.mp (marked.lookup formed isField)
    have lower : r.1.1 < s.current := Nat.lt_of_le_of_ne (within.le formed.parentsFirst) ne
    have missing : (t.scope s.current).lookup (t.field r.1.2).name = none := by
      rw [isName, tended.lookup]
      exact inner s.current (.refl _) lower
    have admits : t.Admits (t.aliasField s.current r.1.2) := by
      refine ⟨?_, missing, fun outer isOuter => ?_⟩
      · rw [marked.scopes, finds.tree.scopes]
        exact referring.current_lt
      · cases isOuter
        exact ⟨bound, rfl, isScope ▸ tended.within within, isScope ▸ lower⟩
    have added := Refers.addField marked.formed admits fun isVariable => (nomatch isVariable)
    rw [createAlias_of_missing missing]
    refine ⟨⟨finds.stack, (finds.tree.trans marked).trans added⟩, rfl, _, rfl, ?_⟩
    have known := marked.formed.lookup_addField admits
    rwa [show (t.aliasField s.current r.1.2).name = id.name from isName] at known

theorem fields_evalMarked (treatment : EvalTreatment) (scope : ScopeId) (t : ScopeTree) :
    (evalMarked treatment scope t).fields = t.fields := by
  simp only [evalMarked]
  generalize t.chainUpTo scope (t.functionScopeOf scope) ++ [t.functionScopeOf scope] = scopes
  induction scopes generalizing t with
  | nil => rfl
  | cons id rest ih => exact ih _

theorem finds_evalMarked (referring : s.IsReferring) :
    Finds s { s with tree := evalMarked settings.evalTreatment s.current s.tree } := by
  refine ⟨rfl, .marked referring.formed (tended_evalMarked _ _ _).toSameShape fun f => ?_⟩
  show ((evalMarked _ _ _).fields[f]?.getD default).kind = _
  rw [fields_evalMarked]
  rfl

theorem use_cases (isCallee : Bool) (id : Ident) (s : State) :
    use settings isCallee id s = resolve isCallee id s ∨ use settings isCallee id s =
      resolve isCallee id { s with tree := evalMarked settings.evalTreatment s.current s.tree } := by
  unfold use
  split
  · exact .inr rfl
  · exact .inl rfl

theorem finds_use (settings : Settings) (referring : s.IsReferring) (isCallee : Bool) (id : Ident) :
    let r := use settings isCallee id s
    Finds s r.2 ∧ r.1.name = id.name ∧ ∃ f, r.1.field = some f ∧
      (r.2.tree.scope s.current).lookup id.name = some f := by
  rcases use_cases settings isCallee id s with same | marks
  · rw [same]
    exact finds_resolve referring isCallee id
  · have marked := finds_evalMarked settings referring
    obtain ⟨finds, known⟩ := finds_resolve (marked.isReferring referring) isCallee id
    rw [marks]
    exact ⟨marked.trans finds, known⟩

/-! ## Parts of a program -/

/-- All constructs among some sites have scopes that are there. -/
def State.HasScopes (s : State) (sites : Multiset Site) : Prop :=
  ∀ site ∈ sites, ∀ scope, site.scope? = some scope → scope < s.tree.scopes.size

/-- The names in use of a part have been looked up: nothing else is changed, and each name is linked
to a field in the table of the scope it is in. -/
structure Referred (around : List Opening) (s : State) (before part : Survey) (s' : State) : Prop where
  finds : Finds s s'
  alike : before.Alike part
  others : ∀ site, (∀ id, site.item ≠ .use id) → (site ∈ part.2 around ↔ site ∈ before.2 around)
  scopes : (part.2 around).filterMap Site.scope? = (before.2 around).filterMap Site.scope?
  uses : ∀ site ∈ part.2 around, ∀ id, site.item = .use id →
    ∃ f, id.field = some f ∧ (s'.tree.scope (innermost site.around)).lookup id.name = some f

variable {around : List Opening}

/-- A part without names in use. -/
theorem Referred.unused {part : Survey} (referring : s.IsReferring) (alike : part.Alike part)
    (unused : ∀ site ∈ part.2 around, ∀ id, site.item ≠ .use id) : Referred around s part part s where
  finds := ⟨rfl, .refl referring.formed⟩
  alike := alike
  others _ _ := Iff.rfl
  scopes := rfl
  uses site mem id isUse := absurd isUse (unused site mem id)

theorem Referred.add {a a' b b' : Survey} {s₂ : State} (first : Referred around s a a' s₁)
    (second : Referred around s₁ b b' s₂) : Referred around s (a + b) (a' + b') s₂ where
  finds := first.finds.trans second.finds
  alike := first.alike.add second.alike
  others site notUse := by
    simp only [Prod.snd_add, Pi.add_apply, mem_add, first.others site notUse,
      second.others site notUse]
  scopes := by
    simp only [Prod.snd_add, Pi.add_apply, filterMap_add, first.scopes, second.scopes]
  uses site mem id isUse := by
    rcases mem_add.mp mem with left | right
    · obtain ⟨f, isField, known⟩ := first.uses site left id isUse
      exact ⟨f, isField, second.finds.tree.lookup first.finds.tree.formed known⟩
    · exact second.uses site right id isUse

/-- A construct whose scope is opened again. -/
theorem Referred.opened {s₁ : State} {before body : Survey} {o o' : Opening} {outer inner : List Ident}
    {hoisted hoisted' : Multiset String} (sameHoisted : hoisted = hoisted') (same : o = o')
    (inBody : Referred (o :: around) { s with stack := o.scope.getD s.current :: s.stack } before body s₁) :
    Referred around s (hoisted, opened o outer inner before.2) (hoisted', opened o' outer inner body.2)
      (pop s₁).2 where
  finds := ⟨by show s₁.stack.tail = s.stack; rw [inBody.finds.stack, List.tail_cons], inBody.finds.tree⟩
  alike := inBody.alike.opened sameHoisted (same ▸ rfl) rfl rfl
  others site notUse := by simp only [mem_opened, ← same, inBody.others site notUse]
  scopes := by simp only [filterMap_opened, ← same, inBody.scopes]
  uses site mem id isUse := by
    subst same
    rcases mem_opened.mp mem with rfl | ⟨_, _, rfl⟩ | ⟨_, _, rfl⟩ | inside
    · cases isUse
    · cases isUse
    · cases isUse
    · exact inBody.uses site inside id isUse

theorem Referred.use (settings : Settings) (referring : s.IsReferring)
    (fits : innermost around = s.current) (isCallee : Bool) (id : Ident) :
    let r := Bind.use settings isCallee id s
    Referred around s (survey.use isCallee id) (survey.use isCallee r.1) r.2 := by
  intro r
  obtain ⟨finds, name, f, isField, known⟩ := finds_use settings referring isCallee id
  have scopeless (id : Ident) : Multiset.filterMap Site.scope? {⟨around, .use id⟩} = 0 := by
    rw [← coe_singleton, filterMap_coe]
    rfl
  refine ⟨finds, .use name.symm, fun site notUse => ?_, (scopeless _).trans (scopeless _).symm, ?_⟩
  · simp only [survey, mem_singleton]
    constructor
    · rintro rfl
      exact absurd rfl (notUse r.1)
    · rintro rfl
      exact absurd rfl (notUse id)
  · intro site mem id' isUse
    obtain rfl := mem_singleton.mp mem
    cases isUse
    refine ⟨f, isField, ?_⟩
    show (r.2.tree.scope (innermost around)).lookup r.1.name = some f
    rw [fits, name]
    exact known

/-- What is needed of a state to look up the names of a part. -/
structure Ready (around : List Opening) (s : State) (part : Survey) : Prop where
  referring : s.IsReferring
  fits : innermost around = s.current
  scopes : s.HasScopes (part.2 around)

theorem Ready.left {a b : Survey} (ready : Ready around s (a + b)) : Ready around s a :=
  ⟨ready.referring, ready.fits, fun site mem => ready.scopes site (mem_add.mpr (.inl mem))⟩

theorem Ready.right {a a' b : Survey} (ready : Ready around s (a + b))
    (first : Referred around s a a' s₁) : Ready around s₁ b where
  referring := first.finds.isReferring ready.referring
  fits := by rw [ready.fits, State.current, State.current, first.finds.stack]
  scopes site mem scope isScope := by
    rw [first.finds.tree.scopes]
    exact ready.scopes site (mem_add.mpr (.inr mem)) scope isScope

theorem Ready.inside {body : Survey} {o : Opening} {outer inner : List Ident}
    {hoisted : Multiset String} (ready : Ready around s (hoisted, opened o outer inner body.2)) :
    Ready (o :: around) { s with stack := o.scope.getD s.current :: s.stack } body where
  referring := by
    refine ⟨ready.referring.formed, fun scope mem => ?_⟩
    rcases List.mem_cons.mp mem with rfl | old
    · cases isScope : o.scope with
      | none => exact ready.referring.current_lt
      | some scope => exact ready.scopes _ (mem_opened.mpr (.inl rfl)) scope isScope
    · exact ready.referring.isOpen scope old
  fits := by
    show _ = o.scope.getD s.current
    rw [← ready.fits]
    cases isScope : o.scope <;> simp [innermost, scopesAround, isScope]
  scopes site mem := ready.scopes site (mem_opened.mpr (.inr (.inr (.inr mem))))

/-- The second walk looks names up part by part. -/
theorem references_referred : survey.Tracks survey (references settings)
    fun s before part s' => ∀ around, Ready around s before → Referred around s before part s' where
  zero _ _ ready := .unused ready.referring .refl_zero fun _ mem => by simp at mem
  add first second around ready :=
    have left := first around ready.left
    left.add (second around (ready.right left))
  use isCallee id _ _ ready := .use settings ready.referring ready.fits isCallee id
  declare id s around ready := by
    refine .unused ready.referring (.declare rfl) fun site mem => ?_
    obtain rfl : site = ⟨around, .declares id⟩ := by simpa [survey, declared] using mem
    intro id' isUse
    cases isUse
  function fn body s s₁ _ inBody := by
    intro left around ready
    obtain ⟨kind, name, params, old, scope, span⟩ := fn
    have known := inBody _ (Ready.inside ready)
    exact known.opened rfl (congrArg (Function.opening _) known.alike.hoisted)
  handler clause body s s₁ _ inBody := by
    intro around ready
    obtain ⟨param, old, scope, span⟩ := clause
    have known := inBody _ (Ready.inside ready)
    exact known.opened known.alike.hoisted rfl
  withBody scope span s s₁ a b inBody := by
    intro around ready
    have known := inBody _ (Ready.inside ready)
    exact known.opened known.alike.hoisted rfl

/-! ## Names of function expressions -/

theorem finds_keepAmbiguous (formed : s.tree.WellFormed) (f : FieldId) : Finds s (keepAmbiguous f s).2 := by
  have marks (t : ScopeTree) (formed : t.WellFormed) (f : FieldId) :
      Refers t (t.modifyField f fun f => { f with isAmbiguous := true, canCrunch := false }) := by
    refine .marked formed (tended_keepName t f).toSameShape fun g => ?_
    rw [field_modifyField]
    split <;> rfl
  unfold keepAmbiguous
  simp only [Bind.bind, StateT.bind, get, getThe, MonadStateOf.get, StateT.get, pure]
  cases namesake? s.tree (s.tree.field f) with
  | none => exact ⟨rfl, .refl formed⟩
  | some outer =>
    have first := marks s.tree formed f
    exact ⟨rfl, first.trans (marks _ first.formed _)⟩

theorem finds_checkFunctionNames (formed : s.tree.WellFormed) : Finds s (checkFunctionNames s).2 := by
  have each (fields : List FieldId) : ∀ s : State, s.tree.WellFormed →
      Finds s ((fields.forM keepAmbiguous : Step Unit) s).2 := by
    induction fields with
    | nil => exact fun s formed => ⟨rfl, .refl formed⟩
    | cons f rest ih =>
      intro s formed
      have first := finds_keepAmbiguous formed f
      exact first.trans (ih _ first.tree.formed)
  exact each _ s formed

end Bind

/-! ## Bound programs -/

open ScopeTree

/-- Scopes, declarations and names in use of a bound program are as its survey says. -/
structure BoundProgram.IsScoped (b : BoundProgram) : Prop where
  formed : b.tree.WellFormed
  /-- Every scope but the global one belongs to one construct. -/
  scopes : b.program.sites.filterMap Site.scope? = Multiset.ofList (List.range' 1 (b.tree.scopes.size - 1))
  openings : ∀ site ∈ b.program.sites, ∀ o, site.item = .opening o →
    ∃ scope, o.scope = some scope ∧ (b.tree.scope scope).kind = o.kind ∧
      (b.tree.scope scope).parent = some (innermost site.around) ∧
      ∀ name, b.tree.hasVariable scope name = true ↔ name ∈ o.names
  hoisted : ∀ name, name ∈ b.program.hoisted ↔
    ∃ f, b.tree.IsVariable f global name ∧ (b.tree.field f).isForeign = false
  declares : ∀ site ∈ b.program.sites, ∀ id, site.item = .declares id →
    ∃ f, id.field = some f ∧ b.tree.IsVariable f (ownerAt site.around) id.name
  uses : ∀ site ∈ b.program.sites, ∀ id, site.item = .use id →
    ∃ f, id.field = some f ∧ (b.tree.scope (innermost site.around)).lookup id.name = some f

namespace Bind

/-- The state that binding starts from. -/
def start : State := ⟨.empty, #[], [global]⟩

theorem isDeclaring_start : start.IsDeclaring :=
  ⟨bare_empty, fun scope mem => by obtain rfl := List.mem_singleton.mp mem; decide⟩

theorem fits_start : Fits [] start := ⟨rfl, (functionScopeOf_of_level (by decide)).symm⟩

end Bind

namespace Bind

/-- After the first walk the global scope has what the program hoists. -/
theorem Declared.global_iff {part : Survey} {s₁ : State} (declared : Declared start part s₁) (name : String) :
    name ∈ part.1 ↔ ∃ f, s₁.tree.IsVariable f global name := by
  have none : ¬ start.tree.hasVariable global name = true := by
    rw [isDeclaring_start.bare.hasVariable_iff]
    rintro ⟨f, bound, _⟩
    exact Nat.not_lt_zero f bound
  have known := declared.tree.has global isDeclaring_start.current_lt name
  rw [declared.tree.bare.formed.hasVariable_iff] at known
  rw [known, or_iff_right none, ← fits_start.owner]
  exact (and_iff_right rfl).symm

/-- After the first walk names can be looked up. -/
theorem Declared.ready {part : Survey} {s₁ : State} (declared : Declared start part s₁) :
    Ready [] s₁ part := by
  have declaring := declared.isDeclaring isDeclaring_start
  refine ⟨⟨declaring.bare.formed, declaring.isOpen⟩, ?_, fun site mem scope isScope => ?_⟩
  · rw [fits_start.current, State.current, State.current, declared.stack]
  · unfold Site.scope? at isScope
    split at isScope
    · obtain ⟨scope', isScope', -, bound, -⟩ := declared.openings [] fits_start site mem _ ‹_›
      rw [isScope] at isScope'
      cases isScope'
      exact bound
    · cases isScope

/-- All that the first walk makes of a program is still there when its names are looked up. -/
theorem isScoped {b : BoundProgram} {s₁ s₂ : State} {before : Survey}
    (declared : Declared start before s₁) (referred : Referred [] s₁ before (b.program.census survey) s₂)
    (found : Refers s₂.tree b.tree) : b.IsScoped := by
  have refers := referred.finds.tree.trans found
  have formed := declared.tree.bare.formed
  constructor
  · exact refers.formed
  · have same := referred.scopes.trans (declared.scopes [])
    rw [refers.scopes]
    exact same
  · intro site mem o isOpening
    have mem := (referred.others site (fun id isUse => by rw [isOpening] at isUse; cases isUse)).mp mem
    obtain ⟨scope, isScope, new, bound, kind, parent, names⟩ :=
      declared.openings [] fits_start site mem o isOpening
    refine ⟨scope, isScope, (refers.kind scope).trans kind, ?_, fun name => ?_⟩
    · rw [refers.grown.parent scope bound, parent]
    · exact (refers.hasVariable formed (Nat.ne_of_gt new) name).trans (names name)
  · intro name
    show name ∈ (b.program.census survey).1 ↔ _
    rw [← referred.alike.hoisted, declared.global_iff]
    constructor
    · rintro ⟨f, isVariable⟩
      refine ⟨f, (refers.isVariable isVariable.1).mpr isVariable, ?_⟩
      rw [Field.isForeign, refers.fieldKind f isVariable.1]
      exact declared.tree.bare.ours f isVariable.1
    · rintro ⟨f, isVariable, ours⟩
      by_cases old : f < s₁.tree.fields.size
      · exact ⟨f, (refers.isVariable old).mp isVariable⟩
      · have new := refers.introduced f (Nat.le_of_not_lt old) isVariable.1 isVariable.2.2.2
        rw [ours] at new
        cases new.2
  · intro site mem id isDecl
    have mem := (referred.others site (fun id isUse => by rw [isDecl] at isUse; cases isUse)).mp mem
    obtain ⟨f, isField, isVariable⟩ := declared.declares [] fits_start site mem id isDecl
    exact ⟨f, isField, (refers.isVariable isVariable.1).mpr isVariable⟩
  · intro site mem id isUse
    obtain ⟨f, isField, known⟩ := referred.uses site mem id isUse
    exact ⟨f, isField, found.lookup referred.finds.tree.formed known⟩

end Bind

/-- Binding makes the scopes that the text of a program asks for, and changes nothing but links. -/
theorem Program.bind_isScoped (settings : Settings) (p : Program) :
    (p.bind settings).IsScoped ∧ (p.census survey).Alike ((p.bind settings).program.census survey) := by
  let p₀ : Program := { p with scope := some global }
  let r₁ := p₀.walk Bind.declarations Bind.start
  obtain ⟨declared, alike⟩ := Bind.declarations_declared.program p₀ Bind.start Bind.isDeclaring_start
  have referred := (Bind.references_referred settings).program r₁.1 r₁.2 [] declared.ready
  have checked := Bind.finds_checkFunctionNames referred.finds.tree.formed
  exact ⟨Bind.isScoped (b := p.bind settings) declared referred checked.tree, alike.trans referred.alike⟩

namespace BoundProgram.IsScoped

variable {b : BoundProgram}

/-- The scopes around a site are those of the constructs around it. -/
theorem chain_innermost (surveyed : b.IsScoped) : ∀ {around : List Opening} {item : Item},
    ⟨around, item⟩ ∈ b.program.sites → b.tree.chain (innermost around) = scopesAround around
  | [], _, _ => by
    have isTop : (b.tree.scope global).parent = none := by
      cases isParent : (b.tree.scope global).parent with
      | none => rfl
      | some parent => exact absurd (surveyed.formed.parentsFirst _ _ isParent) (Nat.not_lt_zero parent)
    exact chain_of_no_parent isTop
  | o :: rest, _, mem => by
    have outer := b.program.opening_mem_sites mem rfl
    obtain ⟨scope, isScope, -, parent, -⟩ := surveyed.openings _ outer o rfl
    rw [innermost_cons isScope, chain_of_parent surveyed.formed.parentsFirst parent,
      surveyed.chain_innermost outer]
    simp [scopesAround, isScope]

/-- A variable in one of the scopes around a site is declared by one of the constructs around it, or
it is global. -/
theorem declared_of_isVariable (surveyed : b.IsScoped) : ∀ {around : List Opening} {item : Item},
    ⟨around, item⟩ ∈ b.program.sites → ∀ {f : FieldId} {scope : ScopeId} {name : String},
    b.tree.IsVariable f scope name → scope ∈ scopesAround around →
    (∃ o ∈ around, name ∈ o.names) ∨ scope = global
  | [], _, _, _, _, _, _, isAround => .inr (List.mem_singleton.mp isAround)
  | o :: rest, _, mem, f, scope, name, isVariable, isAround => by
    have outer := b.program.opening_mem_sites mem rfl
    obtain ⟨scope', isScope, -, -, names⟩ := surveyed.openings _ outer o rfl
    have split : scope = scope' ∨ scope ∈ scopesAround rest := by
      simpa [scopesAround, isScope] using isAround
    rcases split with rfl | further
    · have has := surveyed.formed.hasVariable_iff.mpr ⟨f, isVariable⟩
      exact .inl ⟨o, List.mem_cons_self, (names name).mp has⟩
    · refine (surveyed.declared_of_isVariable outer isVariable further).imp_left ?_
      rintro ⟨o', isThere, declares⟩
      exact ⟨o', List.mem_cons_of_mem o isThere, declares⟩

end BoundProgram.IsScoped

/-- In a lexical tree the variable behind a field is the one in the nearest scope that has one. -/
theorem ScopeTree.Lexical.find?_chain {t : ScopeTree} (lexical : t.Lexical) (formed : t.WellFormed)
    {f : FieldId} (bound : f < t.fields.size) :
    (t.chain (t.field f).scope).find? (t.hasVariable · (t.field f).name) =
      some (t.field (t.ultimate f)).scope := by
  have around := (mem_chain_iff formed.parentsFirst).mpr (formed.within_ultimate f)
  obtain ⟨inner, outer, whole⟩ := List.append_of_mem around
  have isVariable : t.IsVariable (t.ultimate f) (t.field (t.ultimate f)).scope (t.field f).name :=
    ⟨Nat.lt_of_le_of_lt (formed.ultimate_le f) bound, rfl, formed.ultimate_name f,
      outer_ultimate formed.outersFirst f⟩
  refine List.find?_eq_some_iff_append.mpr ⟨formed.hasVariable_iff.mpr ⟨_, isVariable⟩, inner, outer, whole, ?_⟩
  intro scope nearer
  rw [Bool.not_eq_true', ← Bool.not_eq_true, formed.hasVariable_iff]
  rintro ⟨g, isBound, rfl, sameName, isVariable⟩
  have decreasing := pairwise_chain formed.parentsFirst (t.field f).scope
  rw [whole] at decreasing
  have lower := (List.pairwise_append.mp decreasing).2.2 _ nearer _ List.mem_cons_self
  have within := (mem_chain_iff formed.parentsFirst).mp (whole ▸ List.mem_append_left _ nearer)
  exact Nat.not_lt.mpr (lexical f bound g isBound isVariable sameName within) lower

/-- What a name in use stands for: it has a field in the table of the scope it is in, and the
variable behind that field is the one of its name in the nearest scope around it that has one. That
is a variable of the surroundings if nothing around the name declares it. -/
def BoundProgram.Resolves (b : BoundProgram) (around : List Opening) (id : Ident) : Prop :=
  ∃ f scope, id.field = some f ∧ (b.tree.scope (innermost around)).lookup id.name = some f ∧
    b.tree.IsVariable (b.tree.ultimate f) scope id.name ∧
    (scopesAround around).find? (b.tree.hasVariable · id.name) = some scope ∧
    ((∀ o ∈ around, id.name ∉ o.names) → id.name ∉ b.program.hoisted →
      scope = global ∧ (b.tree.field (b.tree.ultimate f)).isForeign = true)

theorem BoundProgram.IsScoped.resolves {b : BoundProgram} (surveyed : b.IsScoped) (lexical : b.tree.Lexical)
    {around : List Opening} {id : Ident} (mem : ⟨around, .use id⟩ ∈ b.program.sites) :
    b.Resolves around id := by
  obtain ⟨f, isField, known⟩ := surveyed.uses _ mem id rfl
  obtain ⟨bound, isScope, isName⟩ := surveyed.formed.lookup_eq_some.mp known
  have nearest := lexical.find?_chain surveyed.formed bound
  rw [isScope, isName, surveyed.chain_innermost mem] at nearest
  have isVariable : b.tree.IsVariable (b.tree.ultimate f) (b.tree.field (b.tree.ultimate f)).scope id.name :=
    ⟨Nat.lt_of_le_of_lt (surveyed.formed.ultimate_le f) bound, rfl,
      (surveyed.formed.ultimate_name f).trans isName, outer_ultimate surveyed.formed.outersFirst f⟩
  refine ⟨f, _, isField, known, isVariable, nearest, fun undeclared unhoisted => ?_⟩
  rcases surveyed.declared_of_isVariable mem isVariable (List.mem_of_find?_eq_some nearest) with
    ⟨o, isAround, declares⟩ | isGlobal
  · exact absurd declares (undeclared o isAround)
  · refine ⟨isGlobal, ?_⟩
    rw [isGlobal] at isVariable
    exact eq_true_of_ne_false fun ours => unhoisted ((surveyed.hoisted _).mpr ⟨_, isVariable, ours⟩)

/-- Binding a program that can be read is lexical lookup over hoisted declarations: its scopes have
the variables that the constructs of its text declare, and its names stand for what is declared
nearest around them. -/
theorem Program.bind_resolves (settings : Settings) {source : String} {tokens : List Token}
    {p : Program} (isScanned : Token.scan source = .ok tokens)
    (isParsed : Program.parse tokens = .ok p) :
    let b := p.bind settings
    (b.program.hoisted = p.hoisted ∧ b.program.sites.map Site.unlinked = p.sites.map Site.unlinked) ∧
      b.IsScoped ∧ ∀ around id, ⟨around, .use id⟩ ∈ b.program.sites → b.Resolves around id := by
  intro b
  obtain ⟨surveyed, alike⟩ := p.bind_isScoped settings
  have bound := Program.bind_isBound settings (Program.isUnbound_of_parse isScanned isParsed)
  refine ⟨⟨alike.hoisted.symm, (alike.sites [] [] rfl).symm⟩, surveyed, fun around id mem => ?_⟩
  exact surveyed.resolves bound.fresh.lexical mem

/-- A name that is used before its `var`, from inside a function, a `catch` clause and a `with` body,
and a parameter that hides the name of its function. -/
theorem bind_resolves_hoisted : ∃ tokens p,
    Token.scan "function f(){try{x()}catch(e){with(e)g=function h(h){x(h,e,y)}}if(g)var x=f}" =
      .ok tokens ∧ Program.parse tokens = .ok p ∧
    (((p.bind {}).program.hoisted = p.hoisted ∧
        (p.bind {}).program.sites.map Site.unlinked = p.sites.map Site.unlinked) ∧
      (p.bind {}).IsScoped ∧
      ∀ around id, ⟨around, .use id⟩ ∈ (p.bind {}).program.sites → (p.bind {}).Resolves around id) := by
  obtain ⟨tokens, p, isScanned, isParsed⟩ := Program.exists_of_isReadable (by decide +kernel :
    Program.isReadable "function f(){try{x()}catch(e){with(e)g=function h(h){x(h,e,y)}}if(g)var x=f}" = true)
  exact ⟨tokens, p, isScanned, isParsed, Program.bind_resolves {} isScanned isParsed⟩

end Minifier
