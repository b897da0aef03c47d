import Minifier.Proofs.Scope.Bind
import Minifier.Proofs.Syntax.Survey

/-!
# What the first walk declares

After the first walk of binding the variables of a scope are exactly the names that the survey of
the program says its construct declares, and every construct has a scope of its own, inside the
scope of the construct around it (`Bind.declarations_declared`). The relation is local: it says what
a part of a program adds to the tree, so that parts can be put together.
-/

set_option autoImplicit false

namespace Minifier

open Multiset

namespace ScopeTree

variable {s parent : ScopeId} {name : String}

variable {t t' t'' : ScopeTree}

/-- A field is a variable of a scope under a name. -/
def IsVariable (t : ScopeTree) (f : FieldId) (s : ScopeId) (name : String) : Prop :=
  f < t.fields.size ∧ (t.field f).scope = s ∧ (t.field f).name = name ∧ (t.field f).outer = none

/-- A scope has a variable under a name, and not only an alias. -/
def hasVariable (t : ScopeTree) (s : ScopeId) (name : String) : Bool :=
  ((t.scope s).lookup name).any fun f => !(t.field f).isAlias

theorem WellFormed.hasVariable_iff (formed : t.WellFormed) :
    t.hasVariable s name = true ↔ ∃ f, t.IsVariable f s name := by
  simp only [hasVariable, Option.any_eq_true, formed.lookup_eq_some, Field.isAlias,
    Bool.not_eq_true', Option.isSome_eq_false_iff, Option.isNone_iff_eq_none, IsVariable]
  exact exists_congr fun f => by simp only [and_assoc]

/-- A tree that only declarations have been made in: nothing is an alias, and nothing is foreign. -/
structure Bare (t : ScopeTree) : Prop where
  formed : t.WellFormed
  noAlias : t.HasNoAlias
  ours : ∀ f < t.fields.size, (t.field f).isForeign = false

theorem bare_empty : empty.Bare where
  formed := wellFormed_empty
  noAlias f := by rw [field_empty]; rfl
  ours f bound := absurd bound (Nat.not_lt_zero f)

theorem Bare.hasVariable_iff (bare : t.Bare) : t.hasVariable s name = true ↔
      ∃ f < t.fields.size, (t.field f).scope = s ∧ (t.field f).name = name := by
  rw [bare.formed.hasVariable_iff]
  exact exists_congr fun f => by simp [IsVariable, bare.noAlias f]

/-! ## Trees that only get more declarations -/

/-- A tree after some declarations: the scopes that were there have the variables they had and
those that are new. -/
structure Declares (t : ScopeTree) (new : ScopeId → String → Prop) (t' : ScopeTree) : Prop where
  bare : t'.Bare
  grown : Extends t t'
  kind : ∀ s < t.scopes.size, (t'.scope s).kind = (t.scope s).kind
  has : ∀ s < t.scopes.size, ∀ name,
    t'.hasVariable s name = true ↔ t.hasVariable s name = true ∨ new s name

namespace Declares

variable {new more : ScopeId → String → Prop}

theorem refl (bare : t.Bare) : Declares t (fun _ _ => False) t where
  bare := bare
  grown := .refl t
  kind _ _ := rfl
  has s _ name := by simp

theorem trans (first : Declares t new t') (second : Declares t' more t'') :
    Declares t (fun s name => new s name ∨ more s name) t'' where
  bare := second.bare
  grown := first.grown.trans second.grown
  kind s bound := (second.kind s (Nat.lt_of_lt_of_le bound first.grown.scopes_size)).trans
    (first.kind s bound)
  has s bound name := by
    rw [second.has s (Nat.lt_of_lt_of_le bound first.grown.scopes_size),
      first.has s bound, or_assoc]

theorem congr (declares : Declares t new t')
    (same : ∀ s < t.scopes.size, ∀ name, new s name ↔ more s name) : Declares t more t' where
  bare := declares.bare
  grown := declares.grown
  kind := declares.kind
  has s bound name := by rw [declares.has s bound, same s bound]

/-- A variable stays one. -/
theorem isVariable (declares : Declares t new t') {f : FieldId} {s : ScopeId} {name : String}
    (known : t.IsVariable f s name) : t'.IsVariable f s name := by
  obtain ⟨bound, isScope, isName, outer⟩ := known
  refine ⟨Nat.lt_of_lt_of_le bound declares.grown.fields_size, ?_, ?_, ?_⟩
  · rw [declares.grown.scope f bound, isScope]
  · rw [declares.grown.name f bound, isName]
  · rw [declares.grown.outer f bound, outer]

end Declares

theorem Extends.chain (grown : Extends t t') (ordered : t.ParentsFirst) (ordered' : t'.ParentsFirst)
    (bound : s < t.scopes.size) : t'.chain s = t.chain s := by
  induction s using chain_induction ordered with
  | top s isTop =>
    rw [chain_of_no_parent isTop, chain_of_no_parent ((grown.parent s bound).trans isTop)]
  | inner s parent isParent ih =>
    have isParent' := (grown.parent s bound).trans isParent
    rw [chain_of_parent ordered isParent, chain_of_parent ordered' isParent']
    exact congrArg (s :: ·) (ih (Nat.lt_trans (ordered s parent isParent) bound))

/-! ## The nearest function -/

theorem functionScopeOf_of_level (level : (t.scope s).isFunctionLevel = true) :
    t.functionScopeOf s = s := by
  unfold functionScopeOf ScopeTree.chain chainFrom
  split <;> simp [level]

/-- A scope that takes no declarations leaves them to the scope around it. -/
theorem WellFormed.functionScopeOf_of_parent (formed : t.WellFormed)
    (isParent : (t.scope s).parent = some parent) (level : (t.scope s).isFunctionLevel = false) :
    t.functionScopeOf s = t.functionScopeOf parent := by
  have bound := Nat.lt_trans (formed.parentsFirst s parent isParent) (lt_size_of_parent isParent)
  obtain ⟨owner, found, -⟩ := exists_find?_chain (p := fun s => (t.scope s).isFunctionLevel)
    formed.parentsFirst (formed.within_global bound) formed.isFunctionLevel_global
  simp only [functionScopeOf, chain_of_parent formed.parentsFirst isParent, List.find?_cons, level,
    found, Option.getD_some]

/-- The nearest function does not change when scopes and fields are added. -/
theorem WellFormed.functionScopeOf_extends (formed : t.WellFormed) (formed' : t'.WellFormed)
    (grown : Extends t t') (kind : ∀ s < t.scopes.size, (t'.scope s).kind = (t.scope s).kind)
    (bound : s < t.scopes.size) : t'.functionScopeOf s = t.functionScopeOf s := by
  induction s using chain_induction formed.parentsFirst with
  | top s isTop =>
    have isGlobal := (formed.isGlobal_iff s bound).mpr (formed.rooted s bound isTop)
    have level : (t.scope s).isFunctionLevel = true := by simp [Scope.isFunctionLevel, isGlobal]
    have level' : (t'.scope s).isFunctionLevel = true := by
      simp [Scope.isFunctionLevel, kind s bound, isGlobal]
    rw [functionScopeOf_of_level level, functionScopeOf_of_level level']
  | inner s parent isParent ih =>
    have sameLevel : (t'.scope s).isFunctionLevel = (t.scope s).isFunctionLevel := by
      simp only [Scope.isFunctionLevel, kind s bound]
    cases level : (t.scope s).isFunctionLevel with
    | true =>
      rw [functionScopeOf_of_level level, functionScopeOf_of_level (sameLevel.trans level)]
    | false =>
      have isParent' := (grown.parent s bound).trans isParent
      rw [formed.functionScopeOf_of_parent isParent level,
        formed'.functionScopeOf_of_parent isParent' (sameLevel.trans level)]
      exact ih (Nat.lt_trans (formed.parentsFirst s parent isParent) bound)

theorem Declares.functionScopeOf {new : ScopeId → String → Prop} (declares : Declares t new t')
    (formed : t.WellFormed) (bound : s < t.scopes.size) : t'.functionScopeOf s = t.functionScopeOf s :=
  formed.functionScopeOf_extends declares.bare.formed declares.grown declares.kind bound

/-! ## Single declarations -/

theorem Bare.declare (bare : t.Bare) (bound : s < t.scopes.size) (name : String) {kind : FieldKind}
    (ours : kind ≠ .undeclared ∧ kind ≠ .predefined) (span : Span) :
    Declares t (fun s' name' => s' = s ∧ name' = name) (t.declare s name kind span).2 ∧
      (t.declare s name kind span).2.IsVariable (t.declare s name kind span).1 s name := by
  cases found : (t.scope s).lookup name with
  | some f =>
    have same : t.declare s name kind span = (f, t) := by simp only [ScopeTree.declare, found]
    have known := bare.formed.lookup_eq_some.mp found
    have isVariable : t.IsVariable f s name := ⟨known.1, known.2.1, known.2.2, bare.noAlias f⟩
    rw [same]
    refine ⟨⟨bare, .refl t, fun _ _ => rfl, fun s' _ name' => ⟨.inl, ?_⟩⟩, isVariable⟩
    rintro (had | ⟨rfl, rfl⟩)
    · exact had
    · exact bare.formed.hasVariable_iff.mpr ⟨f, isVariable⟩
  | none =>
    have admits : t.Admits { name, kind, scope := s, span } := .variable bound found
    rw [declare_of_missing found]
    have bare' : (t.addField { name, kind, scope := s, span }).2.Bare := by
      refine ⟨bare.formed.addField admits, fun f => ?_, fun f bound => ?_⟩
      · rw [field_addField]
        split
        · rfl
        · exact bare.noAlias f
      · rw [fields_size_addField] at bound
        rw [field_addField]
        split
        · simp [Field.isForeign, ours]
        · exact bare.ours f (Nat.lt_of_le_of_ne (Nat.le_of_lt_succ bound) ‹_›)
    refine ⟨⟨bare', .addField t _, fun s' _ => (place_addField t _ s').2.2, fun s' _ name' => ?_⟩, ?_⟩
    · rw [bare'.hasVariable_iff, bare.hasVariable_iff, fields_size_addField]
      constructor
      · rintro ⟨f, isBound, isScope, isName⟩
        rw [field_addField] at isScope isName
        by_cases isNew : f = t.fields.size
        · rw [if_pos isNew] at isScope isName
          exact .inr ⟨isScope.symm, isName.symm⟩
        · rw [if_neg isNew] at isScope isName
          exact .inl ⟨f, Nat.lt_of_le_of_ne (Nat.le_of_lt_succ isBound) isNew, isScope, isName⟩
      · rintro (⟨f, isBound, isScope, isName⟩ | ⟨rfl, rfl⟩)
        · refine ⟨f, Nat.lt_succ_of_lt isBound, ?_⟩
          rw [field_addField_of_lt t _ isBound]
          exact ⟨isScope, isName⟩
        · refine ⟨t.fields.size, Nat.lt_succ_self _, ?_⟩
          rw [field_addField, if_pos rfl]
          exact ⟨rfl, rfl⟩
    · have isNew : (t.addField { name, kind, scope := s, span }).1 = t.fields.size := rfl
      rw [IsVariable, fields_size_addField, field_addField, isNew, if_pos rfl]
      exact ⟨Nat.lt_succ_self _, rfl, rfl, rfl⟩

theorem scopes_size_declare (t : ScopeTree) (s : ScopeId) (name : String) (kind : FieldKind)
    (span : Span) : (t.declare s name kind span).2.scopes.size = t.scopes.size := by
  unfold ScopeTree.declare
  split
  · rfl
  · exact scopes_size_addField _ _

/-- Marks at scopes and fields declare nothing. -/
theorem Bare.marked (bare : t.Bare) (same : SameShape t t')
    (kind : ∀ f, (t'.field f).kind = (t.field f).kind) : Declares t (fun _ _ => False) t' where
  bare := by
    refine ⟨same.wellFormed bare.formed, fun f => (same.outer f).trans (bare.noAlias f), ?_⟩
    intro f bound
    simpa only [Field.isForeign, kind] using bare.ours f (same.fields_size ▸ bound)
  grown := .of_sameShape same
  kind s _ := same.kind s
  has s _ name := by simp only [hasVariable, same.lookup, same.isAlias, or_false]

theorem Bare.modifyField (bare : t.Bare) (id : FieldId) {f : Field → Field}
    (keeps : ∀ g, (f g).name = g.name ∧ (f g).scope = g.scope ∧ (f g).outer = g.outer ∧
      (f g).kind = g.kind) : Declares t (fun _ _ => False) (t.modifyField id f) := by
  refine bare.marked (sameShape_modifyField t id f fun g => by simp [keeps]) fun g => ?_
  rw [field_modifyField]
  split <;> simp [keeps]

/-- A new scope starts without variables. -/
theorem Bare.createScope (bare : t.Bare) {kind : ScopeKind} (bound : parent < t.scopes.size)
    (notGlobal : kind ≠ .global) (span : Span) :
    Declares t (fun _ _ => False) (t.createScope kind parent span).2 ∧
      ∀ name, (t.createScope kind parent span).2.hasVariable t.scopes.size name = false := by
  have bare' : (t.createScope kind parent span).2.Bare :=
    ⟨bare.formed.createScope bound notGlobal span, bare.noAlias, bare.ours⟩
  refine ⟨⟨bare', .createScope t kind parent span, fun s old => ?_, fun s old name => ?_⟩, ?_⟩
  · rw [scope_createScope, if_neg (Nat.ne_of_lt old)]
    split <;> rfl
  · rw [bare'.hasVariable_iff, bare.hasVariable_iff, or_false]
    rfl
  · intro name
    rw [← Bool.not_eq_true, bare'.hasVariable_iff]
    rintro ⟨f, isBound, isScope, -⟩
    exact Nat.ne_of_lt (bare.formed.scope_lt f isBound) isScope

end ScopeTree

/-! ## Steps that declare -/

namespace Bind

open ScopeTree

variable {outside : ScopeId → String → Prop} {scope : ScopeId} {kind : ScopeKind}
  {names : String → Prop} {s' s₀ : State} {part : Survey}

/-- The innermost open scope. -/
def State.current (s : State) : ScopeId := s.stack.headD global

/-- The function that a `var` goes to. -/
def State.owner (s : State) : ScopeId := s.tree.functionScopeOf s.current

/-- A state of the first walk. -/
structure State.IsDeclaring (s : State) : Prop where
  bare : s.tree.Bare
  isOpen : ∀ scope ∈ s.stack, scope < s.tree.scopes.size

theorem State.IsDeclaring.current_lt {s : State} (declaring : s.IsDeclaring) :
    s.current < s.tree.scopes.size := by
  unfold State.current
  cases stack : s.stack with
  | nil => exact declaring.bare.formed.nonempty
  | cons scope rest => exact declaring.isOpen scope (by simp [stack])

theorem State.IsDeclaring.owner_lt {s : State} (declaring : s.IsDeclaring) :
    s.owner < s.tree.scopes.size :=
  fits_functionScopeOf declaring.bare.formed declaring.current_lt

/-- A step that declares names and opens no scope. -/
structure Adds (s : State) (new : ScopeId → String → Prop) (s' : State) : Prop where
  stack : s'.stack = s.stack
  tree : Declares s.tree new s'.tree
  scopes : s'.tree.scopes.size = s.tree.scopes.size

namespace Adds

variable {s s₁ s₂ : State} {new more : ScopeId → String → Prop}

theorem refl (bare : s.tree.Bare) : Adds s (fun _ _ => False) s := ⟨rfl, .refl bare, rfl⟩

theorem trans (first : Adds s new s₁) (second : Adds s₁ more s₂) :
    Adds s (fun scope name => new scope name ∨ more scope name) s₂ where
  stack := second.stack.trans first.stack
  tree := first.tree.trans second.tree
  scopes := second.scopes.trans first.scopes

theorem congr (adds : Adds s new s₁) (same : ∀ scope name, new scope name ↔ more scope name) :
    Adds s more s₁ :=
  ⟨adds.stack, adds.tree.congr fun scope _ name => same scope name, adds.scopes⟩

theorem current (adds : Adds s new s₁) : s₁.current = s.current := by
  rw [State.current, adds.stack, State.current]

end Adds

variable {s : State}

/-- Declaring one name. -/
theorem adds_declareIn (bare : s.tree.Bare) (bound : scope < s.tree.scopes.size) (id : Ident)
    (kind : FieldKind) (ours : kind ≠ .undeclared ∧ kind ≠ .predefined) (isFunction : Bool)
    (position : Option Nat) : let r := declareIn scope id kind isFunction position s
    Adds s (fun s' name => s' = scope ∧ name = id.name) r.2 ∧ r.2.tree.IsVariable r.1 scope id.name := by
  obtain ⟨declares, isVariable⟩ := bare.declare bound id.name ours id.span
  have sizes := scopes_size_declare s.tree scope id.name kind id.span
  have marked := declares.bare.modifyField (s.tree.declare scope id.name kind id.span).1
    (f := fun f => { f with isDeclared := true, isFunction := f.isFunction || isFunction,
                            position := position.or f.position }) fun _ => ⟨rfl, rfl, rfl, rfl⟩
  exact ⟨⟨rfl, (declares.trans marked).congr fun _ _ _ => by simp, sizes⟩,
    marked.isVariable isVariable⟩

/-- Declaring a function. -/
theorem adds_declareFunction (bare : s.tree.Bare) (bound : scope < s.tree.scopes.size) (id : Ident) :
    let r := declareFunction scope id s
    Adds s (fun s' name => s' = s.tree.functionScopeOf scope ∧ name = id.name) r.2 ∧
      r.1.name = id.name ∧ ∃ f, r.1.field = some f ∧
        r.2.tree.IsVariable f (s.tree.functionScopeOf scope) id.name := by
  have hoist := fits_functionScopeOf bare.formed bound
  unfold declareFunction
  simp only [Bind.bind, StateT.bind, get, getThe, MonadStateOf.get, StateT.get, pure]
  split
  · obtain ⟨⟨stack, tree, scopes⟩, isVariable⟩ := adds_declareIn
      (s := (tellDuplicate id "function declaration" s).2) bare hoist id .declared
      (by decide) true none
    exact ⟨⟨stack, tree, scopes⟩, rfl, _, rfl, isVariable⟩
  · obtain ⟨adds, isVariable⟩ := adds_declareIn bare hoist id .declared (by decide) true none
    exact ⟨adds, rfl, _, rfl, isVariable⟩

/-- Names that are all declared in one scope. -/
def AllDeclared (t : ScopeTree) (scope : ScopeId) (ids : List Ident) : Prop :=
  ∀ id ∈ ids, ∃ f, id.field = some f ∧ t.IsVariable f scope id.name

theorem AllDeclared.declares {t t' : ScopeTree} {ids : List Ident} {new : ScopeId → String → Prop}
    (all : AllDeclared t scope ids) (declares : Declares t new t') : AllDeclared t' scope ids := by
  intro id mem
  obtain ⟨f, bound, isVariable⟩ := all id mem
  exact ⟨f, bound, declares.isVariable isVariable⟩

/-- Declaring parameters. -/
theorem adds_declareParams (params : List Ident) :
    ∀ {s : State} (_ : s.tree.Bare) (_ : scope < s.tree.scopes.size) (position : Nat),
    let r := declareParams scope params position s
    Adds s (fun s' name => s' = scope ∧ name ∈ params.map (·.name)) r.2 ∧
      r.1.map (·.name) = params.map (·.name) ∧ AllDeclared r.2.tree scope r.1 := by
  induction params with
  | nil =>
    intro s bare bound position
    exact ⟨(Adds.refl bare).congr (by simp), rfl, fun _ mem => (nomatch mem)⟩
  | cons id rest ih =>
    intro s bare bound position
    -- whether or not a duplicate is reported, the tree is the same
    have declares (s₁ : State) (tree : s₁.tree = s.tree) (stack : s₁.stack = s.stack) :
        let r := (do
          let field ← declareIn scope id .parameter false (some position)
          return { id with field := some field } :: (← declareParams scope rest (position + 1)) :
          Step (List Ident)) s₁
        Adds s (fun s' name => s' = scope ∧ name ∈ (id :: rest).map (·.name)) r.2 ∧
          r.1.map (·.name) = (id :: rest).map (·.name) ∧ AllDeclared r.2.tree scope r.1 := by
      obtain ⟨first, isVariable⟩ := adds_declareIn (s := s₁) (tree ▸ bare) (tree ▸ bound) id
        .parameter (by decide) false (some position)
      obtain ⟨others, names, all⟩ := ih first.tree.bare (first.scopes.symm ▸ tree ▸ bound) (position + 1)
      have both := first.trans others
      refine ⟨⟨both.stack.trans stack, ?_, both.scopes.trans (by rw [tree])⟩, ?_, ?_⟩
      · rw [← tree]
        exact both.tree.congr fun s' _ name => by simp [← and_or_left]
      · exact congrArg (id.name :: ·) names
      · intro id' mem
        rcases List.mem_cons.mp mem with rfl | later
        · exact ⟨_, rfl, others.tree.isVariable isVariable⟩
        · exact all id' later
    unfold declareParams
    simp only [Bind.bind, StateT.bind, get, getThe, MonadStateOf.get, StateT.get, pure]
    split
    · exact declares (tellDuplicate id "parameter" s).2 rfl rfl
    · exact declares s rfl rfl

/-- Declaring the own name of a function. -/
theorem adds_declareOwnName (bare : s.tree.Bare) (bound : scope < s.tree.scopes.size) (id : Ident) :
    let r := declareOwnName scope id s
    Adds s (fun s' name => s' = scope ∧ name = id.name) r.2 ∧ r.1.name = id.name ∧
      (s.tree.hasVariable scope id.name = false → AllDeclared r.2.tree scope [r.1]) := by
  unfold declareOwnName
  simp only [Bind.bind, StateT.bind, get, getThe, MonadStateOf.get, StateT.get, pure]
  split
  · rename_i found
    obtain ⟨f, isField⟩ := Option.isSome_iff_exists.mp found
    have known := bare.formed.lookup_eq_some.mp isField
    have had : s.tree.hasVariable scope id.name = true :=
      bare.hasVariable_iff.mpr ⟨f, known.1, known.2.1, known.2.2⟩
    refine ⟨⟨rfl, ⟨bare, .refl _, fun _ _ => rfl, fun s' _ name => ⟨.inl, ?_⟩⟩, rfl⟩, rfl, ?_⟩
    · rintro (old | ⟨rfl, rfl⟩)
      · exact old
      · exact had
    · intro missing
      rw [had] at missing
      cases missing
  · obtain ⟨adds, isVariable⟩ := adds_declareIn bare bound id .functionName (by decide) true none
    refine ⟨adds, rfl, fun _ id' mem => ?_⟩
    obtain rfl := List.mem_singleton.mp mem
    exact ⟨_, rfl, isVariable⟩

/-- Declaring a variable. -/
theorem adds_declareVar (declaring : s.IsDeclaring) (id : Ident) :
    let r := declareVar id s
    Adds s (fun s' name => s' = s.owner ∧ name = id.name) r.2 ∧ r.1.name = id.name ∧
      AllDeclared r.2.tree s.owner [r.1] := by
  obtain ⟨adds, isVariable⟩ :=
    adds_declareIn declaring.bare declaring.owner_lt id .declared (by decide) false none
  refine ⟨adds, rfl, fun id' mem => ?_⟩
  obtain rfl := List.mem_singleton.mp mem
  exact ⟨_, rfl, isVariable⟩

/-! ## Steps that open a scope -/

/-- A scope has been made in the innermost open one, with some variables. -/
structure Makes (s : State) (kind : ScopeKind) (names : String → Prop)
    (outside : ScopeId → String → Prop) (s' : State) : Prop where
  stack : s'.stack = s.stack
  tree : Declares s.tree outside s'.tree
  scopes : s'.tree.scopes.size = s.tree.scopes.size + 1
  kind : (s'.tree.scope s.tree.scopes.size).kind = kind
  parent : (s'.tree.scope s.tree.scopes.size).parent = some s.current
  names : ∀ name, s'.tree.hasVariable s.tree.scopes.size name = true ↔ names name

theorem makes_createInside (declaring : s.IsDeclaring) (before : Adds s outside s₀)
    (notGlobal : kind ≠ .global) (span : Span) :
    Makes s kind (fun _ => False) outside (createInside kind span s₀).2 := by
  have bound : s₀.current < s₀.tree.scopes.size := by
    rw [before.current, before.scopes]
    exact declaring.current_lt
  obtain ⟨declares, missing⟩ := before.tree.bare.createScope bound notGlobal span
  have tree : (createInside kind span s₀).2.tree = (s₀.tree.createScope kind s₀.current span).2 := rfl
  constructor
  · exact before.stack
  · exact (before.tree.trans declares).congr fun _ _ _ => by simp
  · rw [tree, scopes_size_createScope, before.scopes]
  · rw [tree, scope_createScope, if_pos before.scopes.symm]
  · rw [tree, parent_createScope, if_pos before.scopes.symm, before.current]
  · intro name
    rw [tree, ← before.scopes, missing]
    simp

/-- More variables for the scope that has been made. -/
theorem Makes.adds {s₁ s₂ : State} {more : String → Prop} (makes : Makes s kind names outside s₁)
    (adds : Adds s₁ (fun s' name => s' = s.tree.scopes.size ∧ more name) s₂) :
    Makes s kind (fun name => names name ∨ more name) outside s₂ := by
  have isNew : s.tree.scopes.size < s₁.tree.scopes.size := by rw [makes.scopes]; omega
  constructor
  · exact adds.stack.trans makes.stack
  · refine (makes.tree.trans adds.tree).congr fun s' bound name => or_iff_left ?_
    exact fun ⟨same, _⟩ => Nat.ne_of_lt bound same
  · exact adds.scopes.trans makes.scopes
  · rw [adds.tree.kind _ isNew, makes.kind]
  · rw [adds.tree.grown.parent _ isNew, makes.parent]
  · intro name
    rw [adds.tree.has _ isNew, makes.names]
    simp

theorem Makes.congr {more : String → Prop} (makes : Makes s kind names outside s')
    (same : ∀ name, names name ↔ more name) : Makes s kind more outside s' :=
  { makes with names := fun name => (makes.names name).trans (same name) }

theorem Makes.marked {s₁ s₂ : State} (makes : Makes s kind names outside s₁)
    (marks : Adds s₁ (fun _ _ => False) s₂) : Makes s kind names outside s₂ := by
  have adds : Adds s₁ (fun s' _ => s' = s.tree.scopes.size ∧ False) s₂ := marks.congr (by simp)
  exact (makes.adds adds).congr fun name => iff_of_eq (or_false _)

theorem Makes.isBound (makes : Makes s kind names outside s') :
    s.tree.scopes.size < s'.tree.scopes.size := by
  rw [makes.scopes]
  exact Nat.lt_succ_self _

/-- Makes the scope of a function, with its parameters. -/
def openFunction (fn : Function) (functionField : Option FieldId) :
    Step (ScopeId × List Ident) := do
  let scope ← createInside .function fn.span
  modifyTree (·.modifyScope scope fun s => { s with functionField })
  let params ← declareParams scope fn.params 0
  return (scope, params)

/-- Opening a function. -/
theorem makes_openFunction (declaring : s.IsDeclaring) (before : Adds s outside s₀) (fn : Function)
    (functionField : Option FieldId) : let r := openFunction fn functionField s₀
    r.1.1 = s.tree.scopes.size ∧ Makes s .function (· ∈ fn.params.map (·.name)) outside r.2 ∧
      r.1.2.map (·.name) = fn.params.map (·.name) ∧
      AllDeclared r.2.tree s.tree.scopes.size r.1.2 := by
  let made := createInside .function fn.span s₀
  let marked := modifyTree (·.modifyScope made.1 fun s => { s with functionField }) made.2
  have isNew : made.1 = s.tree.scopes.size := before.scopes
  have makes := makes_createInside declaring before (by decide : ScopeKind.function ≠ .global) fn.span
  have marks : Adds made.2 (fun _ _ => False) marked.2 := by
    refine ⟨rfl, makes.tree.bare.marked ?_ fun _ => rfl, scopes_size_modifyScope _ _ _⟩
    exact sameShape_modifyScope _ _ _ fun _ => ⟨rfl, rfl, rfl, rfl⟩
  have makes : Makes s .function (fun _ => False) outside marked.2 := makes.marked marks
  obtain ⟨adds, names, all⟩ := adds_declareParams fn.params makes.tree.bare
    (isNew.symm ▸ makes.isBound) 0
  have inside := adds.congr fun s' name => by rw [isNew]
  refine ⟨isNew, (makes.adds inside).congr fun name => iff_of_eq (false_or _), names, ?_⟩
  rw [← isNew]
  exact all

theorem adds_declareArguments (bare : s.tree.Bare) (bound : scope < s.tree.scopes.size) (span : Span) :
    Adds s (fun s' name => s' = scope ∧ name = "arguments")
      (onTree (·.declare scope "arguments" .argumentsObject span) s).2 := by
  have ours : FieldKind.argumentsObject ≠ .undeclared ∧ FieldKind.argumentsObject ≠ .predefined :=
    (by decide)
  exact ⟨rfl, (bare.declare bound "arguments" ours span).1, scopes_size_declare _ _ _ _ _⟩

/-- What becomes of the name of a function around it. -/
def nameAround (fn : Function) (around : ScopeId) : Step (Option Ident) :=
  match fn.name with
  | some id => if fn.kind = .declaration then some <$> declareFunction around id else pure (some id)
  | none => pure none

/-- What becomes of the name of a function in its own scope. -/
def nameInside (fn : Function) (declared : Option Ident) (scope : ScopeId) : Step (Option Ident) :=
  match declared with
  | some id => if fn.kind = .declaration then pure (some id) else some <$> declareOwnName scope id
  | none => pure none

theorem enterFunction_eq (fn : Function) : enterFunction fn = (do
    let around ← currentScope
    let declared ← nameAround fn around
    let (scope, params) ← openFunction fn
      (if fn.kind = .declaration then declared.bind (·.field) else none)
    let name ← nameInside fn declared scope
    let _ ← onTree (·.declare scope "arguments" .argumentsObject fn.span)
    push scope
    return { fn with name, params, scope := some scope }) := by
  obtain ⟨kind, name, params, body, scope, span⟩ := fn
  unfold enterFunction nameAround nameInside
  cases name with
  | none => rfl
  | some id => by_cases isDeclaration : kind = .declaration <;> simp only [isDeclaration] <;> rfl

section Declaring

variable (declaring : s.IsDeclaring)
include declaring

theorem adds_nameAround (fn : Function) :
    let r := nameAround fn s.current s
    Adds s (fun s' name => s' = s.owner ∧ name ∈ fn.hoistedName.map (·.name)) r.2 ∧
      r.1.map (·.name) = fn.name.map (·.name) ∧
      (fn.kind = .declaration → AllDeclared r.2.tree s.owner r.1.toList) := by
  have start := Adds.refl declaring.bare
  obtain ⟨kind, name, params, body, scope, span⟩ := fn
  unfold nameAround Function.hoistedName
  cases name with
  | none => exact ⟨start.congr (by simp), rfl, fun _ _ mem => (nomatch mem)⟩
  | some id =>
    by_cases isDeclaration : kind = .declaration
    · simp only [isDeclaration, if_true]
      obtain ⟨adds, isName, f, isField, isVariable⟩ :=
        adds_declareFunction declaring.bare declaring.current_lt id
      refine ⟨adds.congr (by simp [State.owner]), congrArg some isName, fun _ id' mem => ?_⟩
      obtain rfl := List.mem_singleton.mp mem
      exact ⟨f, isField, isName.symm ▸ isVariable⟩
    · simp only [isDeclaration, if_false]
      exact ⟨start.congr (by simp), rfl, fun contra => contra.elim⟩

omit declaring in
theorem adds_nameInside (bare : s.tree.Bare) (bound : scope < s.tree.scopes.size) (fn : Function)
    (declared : Option Ident) : let r := nameInside fn declared scope s
    Adds s (fun s' name => s' = scope ∧ name ∈ (Function.ownName { fn with name := declared }).map (·.name)) r.2 ∧
      r.1.map (·.name) = declared.map (·.name) ∧ (fn.kind = .declaration → r.1 = declared) ∧
      (fn.kind ≠ .declaration → ∀ id ∈ r.1.toList, s.tree.hasVariable scope id.name = false →
        AllDeclared r.2.tree scope [id]) := by
  have start := Adds.refl bare
  obtain ⟨kind, name, params, body, _, span⟩ := fn
  unfold nameInside Function.ownName
  cases declared with
  | none => exact ⟨start.congr (by simp), rfl, fun _ => rfl, fun _ _ mem => (nomatch mem)⟩
  | some id =>
    by_cases isDeclaration : kind = .declaration
    · simp only [isDeclaration, if_true]
      exact ⟨start.congr (by simp), rfl, fun _ => rfl, fun contra => absurd rfl contra⟩
    · simp only [isDeclaration, if_false]
      obtain ⟨adds, isName, all⟩ := adds_declareOwnName bare bound id
      refine ⟨adds.congr (by simp), congrArg some isName, fun contra => contra.elim, ?_⟩
      intro _ id' mem missing
      obtain rfl := List.mem_singleton.mp mem
      exact all (isName ▸ missing)

/-- What is entered with a function: a scope with what its head declares, and the name of a function
declaration outside it. -/
theorem makes_enterFunction (fn : Function) :
    let r := enterFunction fn s
    Makes s .function (fun name => name ∈ (fn.params ++ fn.ownName).map (·.name) ∨ name = "arguments")
        (fun s' name => s' = s.owner ∧ name ∈ fn.hoistedName.map (·.name)) (pop r.2).2 ∧
      r.2.stack = s.tree.scopes.size :: s.stack ∧ r.1.scope = some s.tree.scopes.size ∧
      r.1.hoistedName.map (·.name) = fn.hoistedName.map (·.name) ∧
      r.1.params.map (·.name) = fn.params.map (·.name) ∧
      r.1.ownName.map (·.name) = fn.ownName.map (·.name) ∧
      AllDeclared r.2.tree s.owner r.1.hoistedName ∧
      AllDeclared r.2.tree s.tree.scopes.size r.1.locals := by
  obtain ⟨outside, sameName, hoists⟩ := adds_nameAround declaring fn
  generalize answer : nameAround fn s.current s = around at outside sameName hoists
  obtain ⟨declared, s₀⟩ := around
  obtain ⟨isNew, makes, paramNames, params⟩ := makes_openFunction declaring outside fn
    (if fn.kind = .declaration then declared.bind (·.field) else none)
  generalize opened : openFunction fn _ s₀ = r₁ at isNew makes paramNames params
  obtain ⟨⟨scope, ps⟩, s₁⟩ := r₁
  obtain rfl : scope = s.tree.scopes.size := isNew
  obtain ⟨owns, ownName, keeps, all⟩ := adds_nameInside makes.tree.bare makes.isBound fn declared
  generalize named : nameInside fn declared s.tree.scopes.size s₁ = r₂ at owns ownName keeps all
  obtain ⟨name, s₂⟩ := r₂
  have makes' := makes.adds owns
  have more := adds_declareArguments makes'.tree.bare makes'.isBound fn.span
  generalize last : onTree (·.declare s.tree.scopes.size "arguments" .argumentsObject fn.span) s₂ = r₃
    at more
  obtain ⟨_, s₃⟩ := r₃
  have made := makes'.adds more
  have run : enterFunction fn s = ({ fn with name, params := ps, scope := some s.tree.scopes.size },
      { s₃ with stack := s.tree.scopes.size :: s₃.stack }) := by
    have current : currentScope s = (s.current, s) := rfl
    rw [enterFunction_eq]
    simp only [Bind.bind, StateT.bind, current, answer, opened, named, last]
    rfl
  have isName : name.map (·.name) = fn.name.map (·.name) := ownName.trans sameName
  rw [run]
  refine ⟨made.congr fun name => ?_, congrArg (_ :: ·) made.stack, rfl, ?_, paramNames, ?_, ?_, ?_⟩
  · rw [Function.map_ownName, List.map_append, Function.map_ownName, List.mem_append, sameName]
  · rw [Function.map_hoistedName, Function.map_hoistedName, isName]
  · rw [Function.map_ownName, Function.map_ownName, isName]
  · -- the name of a declaration is declared before its scope is made
    have before : s₀.IsDeclaring := by
      refine ⟨outside.tree.bare, fun scope mem => ?_⟩
      rw [outside.scopes]
      exact declaring.isOpen scope (outside.stack ▸ mem)
    obtain ⟨-, fromThere, -⟩ := makes_openFunction before (.refl before.bare) fn
      (if fn.kind = .declaration then declared.bind (·.field) else none)
    rw [opened] at fromThere
    intro id mem
    by_cases isDeclaration : fn.kind = .declaration
    · have known := ((hoists isDeclaration).declares fromThere.tree).declares owns.tree
      obtain rfl : name = declared := keeps isDeclaration
      refine known.declares more.tree id ?_
      simpa [Function.hoistedName, isDeclaration] using mem
    · simp [Function.hoistedName, isDeclaration] at mem
  · intro id mem
    rcases List.mem_append.mp mem with isParam | isOwn
    · exact ((params.declares owns.tree).declares more.tree) id isParam
    · obtain ⟨isOwn, hidden⟩ := List.mem_filter.mp isOwn
      by_cases isDeclaration : fn.kind = .declaration
      · simp [Function.ownName, isDeclaration] at isOwn
      · have isOwn : id ∈ name.toList := by simpa [Function.ownName, isDeclaration] using isOwn
        have missing : s₁.tree.hasVariable s.tree.scopes.size id.name = false := by
          rw [← Bool.not_eq_true, makes.names, ← paramNames]
          intro isThere
          obtain ⟨param, isParam, same⟩ := List.mem_map.mp isThere
          exact of_decide_eq_true (List.all_eq_true.mp hidden param isParam) same
        exact (all isDeclaration id isOwn missing).declares more.tree id (by simp)

/-- Entering a handler. -/
theorem makes_enterCatch (clause : CatchClause) :
    let r := enterCatch clause s
    Makes s .catchClause (· = clause.param.name) (fun scope _ => scope = s.owner ∧ False) (pop r.2).2 ∧
      r.2.stack = s.tree.scopes.size :: s.stack ∧ r.1.scope = some s.tree.scopes.size ∧
      r.1.param.name = clause.param.name := by
  have start := (Adds.refl declaring.bare).congr fun scope _ => (and_false (scope = s.owner)).symm.to_iff
  have makes := makes_createInside declaring start (by decide : ScopeKind.catchClause ≠ .global)
    clause.span
  obtain ⟨adds, -⟩ := adds_declareIn makes.tree.bare makes.isBound clause.param .declared
    (by decide) false none
  have made := makes.adds adds
  exact ⟨made.congr fun name => iff_of_eq (false_or _), congrArg (_ :: ·) made.stack, rfl, rfl⟩

/-- Entering a `with`. -/
theorem makes_enterWith (span : Span) :
    let r := enterWith span s
    Makes s .withBody (fun _ => False) (fun scope _ => scope = s.owner ∧ False) (pop r.2).2 ∧
      r.2.stack = s.tree.scopes.size :: s.stack ∧ r.1 = some s.tree.scopes.size := by
  have start := (Adds.refl declaring.bare).congr fun scope _ => (and_false (scope = s.owner)).symm.to_iff
  have makes := makes_createInside declaring start (by decide : ScopeKind.withBody ≠ .global) span
  exact ⟨makes, congrArg (_ :: ·) makes.stack, rfl⟩

/-! ## Parts of a program -/

/-- What is around a part of a program when the walk comes to it. -/
structure Fits (around : List Opening) (s : State) : Prop where
  current : innermost around = s.current
  owner : ownerAt around = s.owner

/-- A part of a program has been declared: its hoisted names in the function around it, and each of
its constructs in a scope of its own. -/
structure Declared (s : State) (part : Survey) (s' : State) : Prop where
  stack : s'.stack = s.stack
  tree : Declares s.tree (fun scope name => scope = s.owner ∧ name ∈ part.1) s'.tree
  /-- Every scope that was made belongs to one construct. -/
  scopes : ∀ around, (part.2 around).filterMap Site.scope? =
    Multiset.ofList (List.range' s.tree.scopes.size (s'.tree.scopes.size - s.tree.scopes.size))
  openings : ∀ around, Fits around s → ∀ site ∈ part.2 around, ∀ o, site.item = .opening o →
    ∃ scope, o.scope = some scope ∧ s.tree.scopes.size ≤ scope ∧ scope < s'.tree.scopes.size ∧
      (s'.tree.scope scope).kind = o.kind ∧
      (s'.tree.scope scope).parent = some (innermost site.around) ∧
      ∀ name, s'.tree.hasVariable scope name = true ↔ name ∈ o.names
  declares : ∀ around, Fits around s → ∀ site ∈ part.2 around, ∀ id, site.item = .declares id →
    ∃ f, id.field = some f ∧ s'.tree.IsVariable f (ownerAt site.around) id.name

theorem Declared.isDeclaring (declared : Declared s part s') : s'.IsDeclaring := by
  refine ⟨declared.tree.bare, fun scope mem => ?_⟩
  exact Nat.lt_of_lt_of_le (declaring.isOpen scope (declared.stack ▸ mem)) declared.tree.grown.scopes_size

theorem Declared.owner (declared : Declared s part s') : s'.owner = s.owner := by
  have current : s'.current = s.current := by rw [State.current, declared.stack, State.current]
  rw [State.owner, current]
  exact declared.tree.functionScopeOf declaring.bare.formed declaring.current_lt

/-- One part after another. -/
theorem Declared.add {a b : Survey} {s₁ s₂ : State}
    (first : Declared s a s₁) (second : Declared s₁ b s₂) : Declared s (a + b) s₂ := by
  have owner := first.owner declaring
  have le₁ := first.tree.grown.scopes_size
  have le₂ := second.tree.grown.scopes_size
  have fits {around : List Opening} (fits : Fits around s) : Fits around s₁ :=
    ⟨by rw [fits.current, State.current, State.current, first.stack], by rw [fits.owner, owner]⟩
  constructor
  · exact second.stack.trans first.stack
  · refine (first.tree.trans second.tree).congr fun scope _ name => ?_
    rw [owner, Prod.fst_add, mem_add, and_or_left]
  · intro around
    have sum : s₂.tree.scopes.size - s.tree.scopes.size =
        (s₁.tree.scopes.size - s.tree.scopes.size) + (s₂.tree.scopes.size - s₁.tree.scopes.size) := by
      omega
    rw [Prod.snd_add, Pi.add_apply, filterMap_add, first.scopes, second.scopes, sum,
      ← List.range'_append_1, Nat.add_sub_cancel' le₁, coe_add]
  · intro around isFit site mem o isOpening
    rcases mem_add.mp mem with left | right
    · obtain ⟨scope, isScope, new, bound, kind, parent, names⟩ :=
        first.openings around isFit site left o isOpening
      refine ⟨scope, isScope, new, Nat.lt_of_lt_of_le bound le₂, ?_, ?_, fun name => ?_⟩
      · rw [second.tree.kind scope bound, kind]
      · rw [second.tree.grown.parent scope bound, parent]
      · rw [second.tree.has scope bound, names]
        refine or_iff_left fun isOwner => ?_
        rw [owner] at isOwner
        exact Nat.not_lt.mpr new (isOwner.1 ▸ declaring.owner_lt)
    · obtain ⟨scope, isScope, new, rest⟩ := second.openings around (fits isFit) site right o isOpening
      exact ⟨scope, isScope, Nat.le_trans le₁ new, rest⟩
  · intro around isFit site mem id isDecl
    rcases mem_add.mp mem with left | right
    · obtain ⟨f, isField, isVariable⟩ := first.declares around isFit site left id isDecl
      exact ⟨f, isField, second.tree.isVariable isVariable⟩
    · exact second.declares around (fits isFit) site right id isDecl

omit declaring in
theorem Fits.inside {around : List Opening} {s₁ : State} {o : Opening} (fits : Fits around s)
    (isScope : o.scope = some scope) (current : s₁.current = scope)
    (owner : s₁.owner = if o.kind = .function then scope else s.owner) : Fits (o :: around) s₁ :=
  ⟨(innermost_cons isScope around).trans current.symm, by
    rw [ownerAt_cons isScope, owner, fits.owner]⟩

theorem Makes.isDeclaring {s₁ : State} (makes : Makes s kind names outside (pop s₁).2)
    (stack : s₁.stack = s.tree.scopes.size :: s.stack) : s₁.IsDeclaring := by
  refine ⟨makes.tree.bare, fun scope mem => ?_⟩
  rw [stack] at mem
  rcases List.mem_cons.mp mem with rfl | old
  · exact makes.isBound
  · exact Nat.lt_of_lt_of_le (declaring.isOpen scope old) makes.tree.grown.scopes_size

/-- Where the declarations inside a new scope go: to a function, and through anything else. -/
theorem Makes.owner {s₁ : State} (makes : Makes s kind names outside (pop s₁).2)
    (stack : s₁.stack = s.tree.scopes.size :: s.stack) (notGlobal : kind ≠ .global) :
    s₁.owner = if kind = .function then s.tree.scopes.size else s.owner := by
  have current : s₁.current = s.tree.scopes.size := by rw [State.current, stack, List.headD_cons]
  rw [State.owner, current]
  by_cases isFunction : kind = .function
  · rw [if_pos isFunction]
    refine functionScopeOf_of_level (t := s₁.tree) ?_
    simp [Scope.isFunctionLevel, show (s₁.tree.scope _).kind = kind from makes.kind, isFunction]
  · rw [if_neg isFunction]
    have level : (s₁.tree.scope s.tree.scopes.size).isFunctionLevel = false := by
      simp [Scope.isFunctionLevel, show (s₁.tree.scope _).kind = kind from makes.kind, isFunction,
        notGlobal]
    exact (makes.tree.bare.formed.functionScopeOf_of_parent makes.parent level).trans
      (makes.tree.functionScopeOf declaring.bare.formed declaring.current_lt)

/-- A construct that opens a scope, from its head and its body. -/
theorem Declared.opening {s₁ s₂ : State} {outside : String → Prop} {body : Survey} (kind : ScopeKind)
    (whole : Multiset String) (o : Opening) (outer inner : List Ident)
    (makes : Makes s kind names (fun scope name => scope = s.owner ∧ outside name) (pop s₁).2)
    (stack : s₁.stack = s.tree.scopes.size :: s.stack) (notGlobal : kind ≠ .global)
    (inBody : Declared s₁ body s₂) (isKind : o.kind = kind)
    (isScope : o.scope = some s.tree.scopes.size)
    (declares : ∀ name, name ∈ o.names ↔ names name ∨ kind = .function ∧ name ∈ body.1)
    (hoists : ∀ name, name ∈ whole ↔ outside name ∨ kind ≠ .function ∧ name ∈ body.1)
    (outerDeclared : AllDeclared s₁.tree s.owner outer)
    (innerDeclared : kind = .function ∧ AllDeclared s₁.tree s.tree.scopes.size inner ∨ inner = []) :
    Declared s (whole, opened o outer inner body.2) (pop s₂).2 := by
  have owner := makes.owner declaring stack notGlobal
  have current : s₁.current = s.tree.scopes.size := by rw [State.current, stack, List.headD_cons]
  have size₁ : s₁.tree.scopes.size = s.tree.scopes.size + 1 := makes.scopes
  have isNew : s.tree.scopes.size < s₁.tree.scopes.size := makes.isBound
  have tree₁ : Declares s.tree (fun scope name => scope = s.owner ∧ outside name) s₁.tree := makes.tree
  have grown := inBody.tree.grown.scopes_size
  constructor
  · show s₂.stack.tail = s.stack
    rw [inBody.stack, stack, List.tail_cons]
  · refine (tree₁.trans inBody.tree).congr fun scope bound name => ?_
    rw [owner, hoists]
    by_cases isFunction : kind = .function
    · simp [isFunction, Nat.ne_of_lt bound]
    · simp [isFunction, and_or_left]
  · intro around
    have sum : (pop s₂).2.tree.scopes.size - s.tree.scopes.size =
        (s₂.tree.scopes.size - s₁.tree.scopes.size) + 1 := by
      show s₂.tree.scopes.size - _ = _
      omega
    rw [filterMap_opened, inBody.scopes, sum, List.range'_succ, size₁, isScope]
    rfl
  · intro around fits site mem o' isOpening
    rcases mem_opened.mp mem with rfl | ⟨_, _, rfl⟩ | ⟨_, _, rfl⟩ | inside
    · cases isOpening
      refine ⟨_, isScope, Nat.le_refl _, Nat.lt_of_lt_of_le isNew grown, ?_, ?_, fun name => ?_⟩
      · rw [isKind]
        exact (inBody.tree.kind _ isNew).trans makes.kind
      · rw [fits.current]
        exact (inBody.tree.grown.parent _ isNew).trans makes.parent
      · rw [declares, ← makes.names name]
        refine (inBody.tree.has _ isNew name).trans (or_congr_right ?_)
        rw [owner]
        by_cases isFunction : kind = .function
        · simp [isFunction]
        · simp [isFunction, Nat.ne_of_gt declaring.owner_lt]
    · cases isOpening
    · cases isOpening
    · obtain ⟨scope, known, new, rest⟩ :=
        inBody.openings (o :: around) (fits.inside isScope current (isKind ▸ owner)) site inside o' isOpening
      exact ⟨scope, known, Nat.le_trans (Nat.le_of_lt isNew) new, rest⟩
  · intro around fits site mem id isDecl
    rcases mem_opened.mp mem with rfl | ⟨_, isOuter, rfl⟩ | ⟨_, isInner, rfl⟩ | inside
    · cases isDecl
    · cases isDecl
      rw [fits.owner]
      exact (outerDeclared.declares inBody.tree) id isOuter
    · cases isDecl
      rcases innerDeclared with ⟨isFunction, all⟩ | rfl
      · rw [ownerAt_cons isScope, isKind, if_pos isFunction]
        exact (all.declares inBody.tree) id isInner
      · cases isInner
    · exact inBody.declares (o :: around) (fits.inside isScope current (isKind ▸ owner)) site inside id isDecl

/-- Nothing is declared by nothing. -/
theorem Declared.refl : Declared s 0 s where
  stack := rfl
  tree := (Declares.refl declaring.bare).congr fun _ _ _ => by simp
  scopes around := by simp
  openings _ _ _ mem := by simp at mem
  declares _ _ _ mem := by simp at mem

/-- A name that stands in a part without declaring anything. -/
theorem Declared.use (isCallee : Bool) (id : Ident) : Declared s (survey.use isCallee id) s where
  stack := rfl
  tree := (Declares.refl declaring.bare).congr fun _ _ _ => by simp [survey]
  scopes around := by
    show Multiset.filterMap Site.scope? {⟨around, .use id⟩} = _
    rw [← coe_singleton, filterMap_coe]
    simp [Site.scope?]
  openings _ _ _ mem _ isOpening := by
    obtain rfl := mem_singleton.mp mem
    cases isOpening
  declares _ _ _ mem _ isDecl := by
    obtain rfl := mem_singleton.mp mem
    cases isDecl

/-- A variable. -/
theorem Declared.var (id : Ident) :
    Declared s (survey.declare (declareVar id s).1) (declareVar id s).2 := by
  obtain ⟨adds, isName, all⟩ := adds_declareVar declaring id
  constructor
  · exact adds.stack
  · exact adds.tree.congr fun scope _ name => by simp [survey, isName]
  · intro around
    rw [adds.scopes, Nat.sub_self]
    exact filterMap_declared around _
  · intro around fits site mem o isOpening
    obtain rfl : site = ⟨around, .declares (declareVar id s).1⟩ := by simpa [survey, declared] using mem
    cases isOpening
  · intro around fits site mem id' isDecl
    obtain rfl : site = ⟨around, .declares (declareVar id s).1⟩ := by simpa [survey, declared] using mem
    cases isDecl
    rw [fits.owner]
    exact all _ (List.mem_singleton_self _)

end Declaring

/-- The first walk declares a program part by part, and changes links only. -/
theorem declarations_declared : survey.Tracks survey declarations fun s before part s' =>
    s.IsDeclaring → Declared s part s' ∧ before.Alike part where
  zero _ declaring := ⟨.refl declaring, .refl_zero⟩
  add first second declaring := by
    obtain ⟨declared, alike⟩ := first declaring
    obtain ⟨declared', alike'⟩ := second (declared.isDeclaring declaring)
    exact ⟨declared.add declaring declared', alike.add alike'⟩
  use isCallee id _ declaring := ⟨.use declaring isCallee id, .use rfl⟩
  declare id _ declaring := ⟨.var declaring id, .declare (adds_declareVar declaring id).2.1.symm⟩
  function fn body s s₁ _ inBody := by
    intro left declaring
    obtain ⟨makes, stack, isScope, hoisted, params, own, outer, inner⟩ := makes_enterFunction declaring fn
    have entered := Makes.isDeclaring declaring makes stack
    let fn' : Function := { (enterFunction fn s).1 with body }
    have params' : fn'.params.map (·.name) = fn.params.map (·.name) := params
    have own' : fn'.ownName.map (·.name) = fn.ownName.map (·.name) := own
    constructor
    · refine .opening declaring .function _ _ _ _ makes stack (by decide) (inBody entered).1 rfl isScope
        (fun name => ?_) (fun name => ?_) outer (.inl ⟨rfl, inner⟩)
      · show name ∈ Multiset.ofList ((fn'.params ++ fn'.ownName).map (·.name)) + {"arguments"} + _ ↔ _
        rw [List.map_append, params', own', ← List.map_append]
        simp only [mem_add, mem_coe, mem_singleton, true_and]
      · rw [mem_coe]
        simp only [ne_eq, not_true_eq_false, false_and, or_false]
        exact iff_of_eq (congrArg (name ∈ ·) hoisted)
    · have alike := (inBody entered).2
      have whole : Survey.Alike (survey.function fn (fn.body.census survey))
          (survey.function fn' (body.census survey)) := by
        refine alike.opened (congrArg _ hoisted.symm) ?_ hoisted.symm ?_
        · simp only [Opening.unlinked, Function.opening, List.map_append, params', own', alike.hoisted]
        · rw [Function.map_locals, Function.map_locals, params', own']
      obtain ⟨kind, name, ps, _, scope, span⟩ := fn
      exact whole
  handler clause body s s₁ _ inBody := by
    intro declaring
    obtain ⟨makes, stack, isScope, isName⟩ := makes_enterCatch declaring clause
    have entered := Makes.isDeclaring declaring makes stack
    refine ⟨.opening declaring .catchClause _ _ _ _ makes stack (by decide) (inBody entered).1 rfl isScope
      (fun name => ?_) (by simp) (fun _ mem => nomatch mem) (.inr rfl), ?_⟩
    · simp only [CatchClause.opening, mem_singleton, reduceCtorEq, false_and, or_false]
      exact iff_of_eq (congrArg (name = ·) isName)
    · obtain ⟨param, _, scope, span⟩ := clause
      exact (inBody entered).2.opened (inBody entered).2.hoisted rfl rfl rfl
  withBody scope span s s₁ a b inBody := by
    intro declaring
    obtain ⟨makes, stack, isScope⟩ := makes_enterWith declaring span
    have entered := Makes.isDeclaring declaring makes stack
    exact ⟨.opening declaring .withBody _ _ _ _ makes stack (by decide) (inBody entered).1 rfl isScope
      (by simp [withOpening]) (by simp) (fun _ mem => nomatch mem) (.inr rfl),
      (inBody entered).2.opened (inBody entered).2.hoisted rfl rfl rfl⟩

end Bind

end Minifier
