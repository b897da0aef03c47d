import Minifier.Proofs.Literal.Replaced

/-!
# Where variables for literals stand

A function that owns variables for literals declares them on top of its body, and nothing else does
(`SharedLiteral.Declared`). The mentions of a variable are in scopes inside the one that owns it, and
there are as many as the literal was written (`SharedLiteral.Mentioned`).

Both follow the walk that replaces the literals. What is said of a part of the program depends on the
names in it being names from before: a name is old if its field is.
-/

set_option autoImplicit false

namespace Minifier

open LiteralWalk ScopeTree Multiset

variable {id : Ident} {site : Site} {ids : List Ident} (around : List Opening) (f : FieldId)

variable {M N : Type} [AddMonoid M] [AddMonoid N]

/-! ## Two censuses at once -/

/-- A census that has no answers of its own and takes statements as they come. -/
structure Census.IsSimple (c : Census M) : Prop where
  quiet : ∀ around e, c.expr? around e = none
  line : ∀ e m, c.line e m = m
  inner : ∀ m, c.inner m = m
  list : ∀ m, c.list m = m

theorem Census.IsSimple.census_ident {c : Census M} (simple : c.IsSimple) {around : Option Form}
    (id : Ident) {span : Span} : Expr.census c around ⟨.ident id, span⟩ = c.use false id := by
  rw [Expr.census, simple.quiet]
  rfl

/-- Two censuses taken together. -/
def Census.pair (c : Census M) (d : Census N) : Census (M × N) where
  use isCallee id := (c.use isCallee id, d.use isCallee id)
  declare id := (c.declare id, d.declare id)
  function fn m := (c.function fn m.1, d.function fn m.2)
  handler clause m := (c.handler clause m.1, d.handler clause m.2)
  withBody scope m := (c.withBody scope m.1, d.withBody scope m.2)

section Pair

variable {c : Census M} {d : Census N}

theorem Census.pair_relates_fst (simple : c.IsSimple) : (c.pair d).Relates c fun a b => b = a.1 where
  zero := rfl
  add first second := congrArg₂ (· + ·) first second
  line _ same := (simple.line _ _).trans same
  inner same := (simple.inner _).trans same
  list same := (simple.list _).trans same
  expr _ _ := .inl ⟨rfl, simple.quiet _ _⟩
  quiet _ id _ := simple.census_ident id
  use _ _ := rfl
  declare _ := rfl
  function _ same := congrArg (c.function _) same
  handler _ same := congrArg (c.handler _) same
  withBody scope same := congrArg (c.withBody scope) same

theorem Census.pair_relates_snd (simple : d.IsSimple) : (c.pair d).Relates d fun a b => b = a.2 where
  zero := rfl
  add first second := congrArg₂ (· + ·) first second
  line _ same := (simple.line _ _).trans same
  inner same := (simple.inner _).trans same
  list same := (simple.list _).trans same
  expr _ _ := .inl ⟨rfl, simple.quiet _ _⟩
  quiet _ id _ := simple.census_ident id
  use _ _ := rfl
  declare _ := rfl
  function _ same := congrArg (d.function _) same
  handler _ same := congrArg (d.handler _) same
  withBody scope same := congrArg (d.withBody scope) same

theorem Program.census_pair (simple : c.IsSimple) (simple' : d.IsSimple) (p : Program) :
    p.census (c.pair d) = (p.census c, p.census d) :=
  Prod.ext ((Census.pair_relates_fst simple).related p).symm
    ((Census.pair_relates_snd simple').related p).symm

end Pair

/-! ## Functions and what stands on top of them -/

/-- All functions in a tree. -/
def functions : Census (Multiset Function) where
  use _ _ := 0
  declare _ := 0
  function fn body := {fn} + body
  handler _ body := body
  withBody _ body := body

theorem functions_isSimple : functions.IsSimple :=
  ⟨fun _ _ => rfl, fun _ _ => rfl, fun _ => rfl, fun _ => rfl⟩

theorem survey_isSimple : survey.IsSimple :=
  ⟨fun _ _ => rfl, fun _ _ => rfl, fun _ => rfl, fun _ => rfl⟩

/-- All functions of a program. -/
def Program.functions (p : Program) : Multiset Function := p.census Minifier.functions

/-- The declarations of the `var` statement at the insertion point of a block. -/
def Block.topDecls (b : Block) : List VarDecl :=
  match b.statements.drop b.insertionPoint with
  | .var vars :: _ => vars.decls
  | _ => []

/-- The statements before the insertion point. -/
def Statement.isHead (s : Statement) : Bool :=
  s.isDirective || match s with
    | .comment .important _ _ => true
    | _ => false

theorem Block.topDecls_declareFirst (b : Block) (decls : List VarDecl) :
    (b.declareFirst decls).topDecls = decls ++ b.topDecls := by
  obtain ⟨statements, span⟩ := b
  cases decls with
  | nil => rfl
  | cons d decls =>
    have point (statements : List Statement) (span : Span) :
        Block.insertionPoint ⟨statements, span⟩ = (statements.takeWhile (·.isHead)).length := rfl
    have front : statements.take (Block.insertionPoint ⟨statements, span⟩) =
        statements.takeWhile (·.isHead) :=
      (List.prefix_iff_eq_take.mp (List.takeWhile_prefix _)).symm
    -- the new declarations stand where the head ends, so the insertion point is the same
    have top (vars : VarStatement) (rest : List Statement) :
        Block.topDecls ⟨statements.takeWhile (·.isHead) ++ .var vars :: rest, span⟩ = vars.decls := by
      have same : ((statements.takeWhile (·.isHead) ++ .var vars :: rest).takeWhile (·.isHead)) =
          statements.takeWhile (·.isHead) := by
        rw [List.takeWhile_append_of_pos (List.all_eq_true.mp List.all_takeWhile)]
        simp [Statement.isHead, Statement.isDirective]
      unfold topDecls
      rw [point, same, List.drop_left]
    unfold declareFirst
    dsimp only
    rw [front, topDecls.eq_1 ⟨statements, span⟩]
    dsimp only
    cases statements.drop (Block.insertionPoint ⟨statements, span⟩) with
    | nil => exact (top ..).trans (List.append_nil _).symm
    | cons s rest =>
      cases s with
      | var vars => exact top ..
      | _ => exact (top ..).trans (List.append_nil _).symm

/-! ## Old names -/

/-- A name from before: its field, if it has one, is below a bound. -/
def Ident.IsOld (old : Nat) (id : Ident) : Prop := ∀ f, id.field = some f → f < old

/-- The name at a site. -/
def Item.ident? : Item → Option Ident
  | .use id => some id
  | .declares id => some id
  | .opening _ => none

theorem ident_of_mem_declared {around : List Opening} (mem : site ∈ declared around ids)
    (isName : site.item.ident? = some id) : id ∈ ids := by
  simp only [declared, mem_coe, List.mem_map] at mem
  obtain ⟨id', isId, rfl⟩ := mem
  obtain rfl := Option.some.inj isName
  exact isId

theorem ident_of_mem_opened {o : Opening} {outer inner : List Ident}
    {body : List Opening → Multiset Site} {around : List Opening}
    (mem : site ∈ opened o outer inner body around) (isName : site.item.ident? = some id) :
    id ∈ outer ∨ id ∈ inner ∨ site ∈ body (o :: around) := by
  rcases mem_opened.mp mem with rfl | ⟨id', isId, rfl⟩ | ⟨id', isId, rfl⟩ | inBody
  · cases isName
  · exact .inl (Option.some.inj isName ▸ isId)
  · exact .inr (.inl (Option.some.inj isName ▸ isId))
  · exact .inr (.inr inBody)

theorem Function.name_mem_headMarks {fn : Function} (mem : id ∈ fn.hoistedName ∨ id ∈ fn.locals) :
    .name id ∈ fn.headMarks := by
  have known : id ∈ fn.name.toList ++ fn.params := by
    rw [List.mem_append]
    rcases mem with hoisted | isLocal
    · unfold hoistedName at hoisted
      split at hoisted
      · exact .inl hoisted
      · cases hoisted
    · rcases List.mem_append.mp isLocal with param | own
      · exact .inr param
      · have own := (List.mem_filter.mp own).1
        unfold ownName at own
        split at own
        · cases own
        · exact .inl own
  exact List.mem_append_right _ (List.mem_map_of_mem known)

/-- The names at the sites of a tree are among its marks. -/
theorem survey_relates_marks : survey.Relates markCensus fun a b =>
    ∀ around, ∀ site ∈ a.2 around, ∀ id, site.item.ident? = some id → .name id ∈ b where
  zero _ _ mem := by simp at mem
  add first second around site mem id isName := by
    rcases mem_add.mp mem with left | right
    · exact mem_add.mpr (.inl (first around site left id isName))
    · exact mem_add.mpr (.inr (second around site right id isName))
  use _ id around site mem id' isName := by
    obtain rfl := mem_singleton.mp mem
    obtain rfl := Option.some.inj isName
    show _ ∈ ([.use id, .name id] : List Mark)
    simp
  declare id around site mem id' isName := by
    obtain rfl := List.mem_singleton.mp (ident_of_mem_declared mem isName)
    exact List.mem_cons_self
  function fn related around site mem id isName := by
    refine mem_add.mpr ?_
    rcases ident_of_mem_opened mem isName with outer | inner | inBody
    · exact .inl (Function.name_mem_headMarks (.inl outer))
    · exact .inl (Function.name_mem_headMarks (.inr inner))
    · exact .inr (related _ site inBody id isName)
  handler clause related around site mem id isName := by
    refine mem_add.mpr ?_
    rcases ident_of_mem_opened mem isName with outer | inner | inBody
    · cases outer
    · cases inner
    · exact .inr (related _ site inBody id isName)
  withBody scope related around site mem id isName := by
    refine mem_add.mpr ?_
    rcases ident_of_mem_opened mem isName with outer | inner | inBody
    · cases outer
    · cases inner
    · exact .inr (related _ site inBody id isName)

theorem Expr.ident_of_site {e : Expr} {around : Option Form} {place : List Opening}
    (mem : site ∈ (e.census survey around).2 place) (isName : site.item.ident? = some id) :
    .name id ∈ e.marks := by
  have known := survey_relates_marks.related_expr e place site (by cases e; exact mem) id isName
  rwa [← Expr.coe_marks] at known

/-! ## Declarations -/

/-- Whether a site declares a variable. -/
def Site.declaresField (f : FieldId) (site : Site) : Bool :=
  match site.item with
  | .declares id => id.field = some f
  | _ => false

/-- Whether a function with some scope stands at a site. -/
def Site.opensFunction (scope : ScopeId) (site : Site) : Bool :=
  match site.item with
  | .opening o => o.kind = .function && o.scope = some scope
  | _ => false

theorem countP_declared (ids : List Ident) :
    (declared around ids).countP (·.declaresField f) = ids.countP (·.field = some f) := by
  rw [declared, coe_countP, List.countP_map]
  simp [Function.comp_def, Site.declaresField]

theorem countP_opensFunction_declared (scope : ScopeId) (ids : List Ident) :
    (declared around ids).countP (·.opensFunction scope) = 0 := by
  rw [declared, coe_countP, List.countP_map]
  exact List.countP_eq_zero.mpr fun _ _ => Bool.false_ne_true

theorem countP_opening (o : Opening) :
    Multiset.countP (fun site : Site => site.declaresField f = true) {⟨around, .opening o⟩} = 0 := by
  refine countP_eq_zero.mpr fun site mem => ?_
  rw [mem_singleton.mp mem]
  exact Bool.false_ne_true

theorem countP_of_old {old : Nat} (areOld : ∀ id ∈ ids, id.IsOld old) {f : FieldId} (isNew : old ≤ f) :
    ids.countP (·.field = some f) = 0 := by
  refine List.countP_eq_zero.mpr fun id mem isField => ?_
  exact absurd (areOld id mem f (by simpa using isField)) (Nat.not_lt_of_le isNew)

namespace SharedLiteral

variable (shared : List SharedLiteral) (tree : ScopeTree) (old : Nat)

/-- Where the variables for literals are declared in a part of a program. -/
structure Declared (m : Survey × Multiset Function) : Prop where
  nested : m.1.IsNested
  /-- A function that owns a variable and has a new name in it declares the variable on top. -/
  onTop : ∀ around, ∀ site ∈ m.1.2 around, ∀ id, site.item = .use id → ¬ id.IsOld old →
    ∀ inner, site.around = inner ++ around → ∀ o ∈ inner, o.kind = .function → ∀ s ∈ shared,
      o.scope = some s.owner →
        (∃ fn ∈ m.2, fn.scope = some s.owner ∧ s.decl tree ∈ fn.body.topDecls) ∧
          ∃ site ∈ m.1.2 around, site.declaresField s.field = true
  /-- Nothing else declares it. -/
  once : ∀ around, ∀ s ∈ shared, (m.1.2 around).countP (·.declaresField s.field) ≤
    (m.1.2 around).countP (·.opensFunction s.owner)

variable {shared tree old}

namespace Declared

variable {o : Opening}

variable {m m' : Survey × Multiset Function}

theorem add (first : Declared shared tree old m) (second : Declared shared tree old m') :
    Declared shared tree old (m + m') where
  nested := first.nested.add second.nested
  onTop around site mem id isUse isNew inner isInner o inside isFunction s isShared owns := by
    rcases mem_add.mp mem with left | right
    · obtain ⟨⟨fn, isFn, top⟩, site', isSite, declares⟩ := first.onTop around site left id isUse isNew
        inner isInner o inside isFunction s isShared owns
      exact ⟨⟨fn, mem_add.mpr (.inl isFn), top⟩, site', mem_add.mpr (.inl isSite), declares⟩
    · obtain ⟨⟨fn, isFn, top⟩, site', isSite, declares⟩ := second.onTop around site right id isUse isNew
        inner isInner o inside isFunction s isShared owns
      exact ⟨⟨fn, mem_add.mpr (.inr isFn), top⟩, site', mem_add.mpr (.inr isSite), declares⟩
  once around s isShared := by
    show (m.1.2 around + m'.1.2 around).countP _ ≤ (m.1.2 around + m'.1.2 around).countP _
    rw [countP_add, countP_add]
    exact Nat.add_le_add (first.once around s isShared) (second.once around s isShared)

/-- A part with old names only. -/
theorem of_old (isNew : ∀ s ∈ shared, old ≤ s.field) (nested : m.1.IsNested)
    (areOld : ∀ around, ∀ site ∈ m.1.2 around, ∀ id, site.item.ident? = some id → id.IsOld old) :
    Declared shared tree old m where
  nested := nested
  onTop around site mem id isUse isNew := absurd (areOld around site mem id (by rw [isUse]; rfl)) isNew
  once around s isShared := by
    have none_ : (m.1.2 around).countP (·.declaresField s.field) = 0 := by
      refine countP_eq_zero.mpr fun site mem declares => ?_
      unfold Site.declaresField at declares
      split at declares
      · rename_i id isItem
        have isOld := areOld around site mem id (by rw [isItem]; rfl)
        exact absurd (isOld s.field (by simpa using declares)) (Nat.not_lt_of_le (isNew s isShared))
      · cases declares
    rw [none_]
    exact Nat.zero_le _

/-- The constructs around a site in the body of a construct. -/
theorem split_around {body : Survey} (nested : body.IsNested) {around : List Opening} {site : Site}
    (mem : site ∈ body.2 (o :: around)) {inner : List Opening}
    (isInner : site.around = inner ++ around) :
    ∃ inner', site.around = inner' ++ o :: around ∧ inner = inner' ++ [o] := by
  obtain ⟨inner', whole, -⟩ := nested (o :: around) site mem
  refine ⟨inner', whole, ?_⟩
  have same : inner ++ around = (inner' ++ [o]) ++ around := by
    rw [← isInner, whole, List.append_assoc, List.singleton_append]
  exact List.append_cancel_right same

/-- The mentions in the body of a construct. -/
theorem use_of_mem_opened {outer inner : List Ident} {body : List Opening → Multiset Site}
    {around : List Opening} {site : Site} {id : Ident} (mem : site ∈ opened o outer inner body around)
    (isUse : site.item = .use id) : site ∈ body (o :: around) := by
  rcases mem_opened.mp mem with rfl | ⟨_, _, rfl⟩ | ⟨_, _, rfl⟩ | inBody
  · cases isUse
  · cases isUse
  · cases isUse
  · exact inBody

/-- Inside a construct that is no function. -/
theorem opened (declared : Declared shared tree old m) (hoisted : Multiset String)
    (notFunction : o.kind ≠ .function) :
    Declared shared tree old ((hoisted, opened o [] [] m.1.2), m.2) where
  nested := declared.nested.opened _ _ _ _
  onTop around site mem id isUse isNew inner isInner o' inside isFunction s isShared owns := by
    have inBody := use_of_mem_opened mem isUse
    obtain ⟨inner', isInner', rfl⟩ := split_around declared.nested inBody isInner
    rcases List.mem_append.mp inside with further | here
    · obtain ⟨top, site', isSite, declares⟩ := declared.onTop _ site inBody id isUse isNew inner'
        isInner' o' further isFunction s isShared owns
      exact ⟨top, site', mem_opened.mpr (.inr (.inr (.inr isSite))), declares⟩
    · rw [List.mem_singleton.mp here] at isFunction
      exact absurd isFunction notFunction
  once around s isShared := by
    have body := declared.once (o :: around) s isShared
    simp only [Minifier.opened, countP_add, countP_declared, countP_opensFunction_declared,
      List.countP_nil]
    rw [countP_opening]
    omega

/-- In a function that declares the variables that it owns. -/
theorem function (fields : (shared.map (·.field)).Nodup) (isNew : ∀ s ∈ shared, old ≤ s.field)
    (declared : Declared shared tree old m) (fn : Function)
    (areOld : ∀ id, .name id ∈ fn.headMarks → id.IsOld old)
    (onTop : ∀ s ∈ shared, fn.scope = some s.owner → s.decl tree ∈ fn.body.topDecls)
    (hoisted inside : Multiset String) :
    Declared shared tree old ((hoisted, Minifier.opened (fn.opening inside) fn.hoistedName fn.locals fun around =>
      Minifier.declared around
        ((shared.filter fun s => fn.scope = some s.owner).map fun s => s.ident tree s.field) +
        m.1.2 around), {fn} + m.2) where
  nested := by
    have owned : Survey.IsNested (0, fun around => Minifier.declared around
        ((shared.filter fun s => fn.scope = some s.owner).map fun s => s.ident tree s.field)) := by
      intro place site mem
      simp only [Minifier.declared, mem_coe, List.mem_map] at mem
      obtain ⟨_, _, rfl⟩ := mem
      exact ⟨[], rfl, by simp⟩
    exact (owned.add declared.nested).opened _ _ _ _
  onTop around site mem id isUse isNew inner isInner o isInside isFunction s isShared owns := by
    dsimp only at mem ⊢
    rcases mem_add.mp (use_of_mem_opened mem isUse) with isDeclared | inBody
    · simp only [Minifier.declared, mem_coe, List.mem_map] at isDeclared
      obtain ⟨_, _, rfl⟩ := isDeclared
      cases isUse
    obtain ⟨inner', isInner', rfl⟩ := split_around declared.nested inBody isInner
    rcases List.mem_append.mp isInside with further | here
    · obtain ⟨⟨fn', isFn, top⟩, site', isSite, declares⟩ := declared.onTop _ site inBody id isUse isNew
        inner' isInner' o further isFunction s isShared owns
      exact ⟨⟨fn', mem_add.mpr (.inr isFn), top⟩, site',
        mem_opened.mpr (.inr (.inr (.inr (mem_add.mpr (.inr isSite))))), declares⟩
    · rw [List.mem_singleton.mp here] at owns
      refine ⟨⟨fn, mem_add.mpr (.inl (mem_singleton_self _)), owns,
        onTop s isShared owns⟩, ⟨fn.opening inside :: around, .declares (s.ident tree s.field)⟩, ?_, ?_⟩
      · refine mem_opened.mpr (.inr (.inr (.inr (mem_add.mpr (.inl ?_)))))
        refine mem_coe.mpr (List.mem_map_of_mem (List.mem_map_of_mem ?_))
        exact List.mem_filter.mpr ⟨isShared, decide_eq_true owns⟩
      · simp [Site.declaresField, ident]
  once around s isShared := by
    have body := declared.once (fn.opening inside :: around) s isShared
    have outer : fn.hoistedName.countP (·.field = some s.field) = 0 :=
      countP_of_old (fun id mem => areOld id (Function.name_mem_headMarks (.inl mem))) (isNew s isShared)
    have inner : fn.locals.countP (·.field = some s.field) = 0 :=
      countP_of_old (fun id mem => areOld id (Function.name_mem_headMarks (.inr mem))) (isNew s isShared)
    -- a function declares a variable once if it owns it, and otherwise not at all
    have own : ((shared.filter fun s => fn.scope = some s.owner).map fun s => s.ident tree s.field).countP
        (·.field = some s.field) ≤
        Multiset.countP (fun site : Site => site.opensFunction s.owner = true) {⟨around, .opening (fn.opening inside)⟩} := by
      rw [List.countP_map, List.countP_filter]
      by_cases owns : fn.scope = some s.owner
      · have opens : Multiset.countP (fun site : Site => site.opensFunction s.owner = true)
            {⟨around, .opening (fn.opening inside)⟩} = 1 := by
          rw [← cons_zero, countP_cons_of_pos]
          · rfl
          · simp [Site.opensFunction, Function.opening, owns]
        rw [opens]
        have single := List.nodup_iff_count_le_one.mp fields s.field
        rw [List.count, List.countP_map] at single
        refine Nat.le_trans (List.countP_mono_left fun s' _ both => ?_) single
        obtain ⟨same, -⟩ : s'.field = s.field ∧ fn.scope = some s'.owner := by
          simpa [ident] using both
        simpa using same
      · refine Nat.le_trans (Nat.le_of_eq (List.countP_eq_zero.mpr fun s' isShared' both => ?_))
          (Nat.zero_le _)
        obtain ⟨same, owns'⟩ : s'.field = s.field ∧ fn.scope = some s'.owner := by
          simpa [ident] using both
        have isOne := List.inj_on_of_nodup_map fields isShared' isShared same
        exact owns (isOne ▸ owns')
    simp only [Minifier.opened, countP_add, countP_declared, countP_opensFunction_declared,
      countP_opening, outer, inner]
    omega

/-- A mention. -/
theorem use (shared : List SharedLiteral) (tree : ScopeTree) (old : Nat) (id : Ident)
    (functions : Multiset Function) :
    Declared shared tree old ((0, fun around => {⟨around, .use id⟩}), functions) where
  nested around site mem := by
    obtain rfl := mem_singleton.mp mem
    exact ⟨[], rfl, by simp⟩
  onTop around site mem id' isUse isNew inner isInner o inside := by
    obtain rfl := mem_singleton.mp mem
    obtain rfl : inner = [] := by simpa using isInner
    cases inside
  once around s isShared := by
    refine Nat.le_trans (Nat.le_of_eq (countP_eq_zero.mpr fun site mem => ?_)) (Nat.zero_le _)
    obtain rfl := mem_singleton.mp mem
    exact Bool.false_ne_true

end Declared

/-- The survey of a part of a program, and its functions. -/
abbrev placing : Census (Survey × Multiset Function) := survey.pair functions

theorem placing_expr (e : Expr) (around : Option Form) :
    e.census placing around = (e.census survey none, e.census functions none) := by
  have sites := (Census.pair_relates_fst (d := functions) survey_isSimple).related_expr e
  have inside := (Census.pair_relates_snd (c := survey) functions_isSimple).related_expr e
  rw [sites, inside]
  cases e
  rfl

theorem placing_string {e : Expr} (isString : e.isString = true) : e.census placing none = 0 := by
  obtain ⟨form, span⟩ := e
  cases form with
  | string _ => rfl
  | _ => cases isString

theorem sum_declare_placing (ids : List Ident) : (ids.map placing.declare).sum =
      ((Multiset.ofList (ids.map (·.name)), fun around => declared around ids), 0) := by
  induction ids with
  | nil => rfl
  | cons id ids ih =>
    rw [List.map_cons, List.sum_cons, ih]
    rfl

theorem placing_declareIn (shared : List SharedLiteral) (tree : ScopeTree) (fn : Function) :
    let owned := (shared.filter fun s => fn.scope = some s.owner).map fun s => s.ident tree s.field
    let body := fn.body.census placing
    (declareIn shared tree fn).body.census placing =
      ((Multiset.ofList (owned.map (·.name)) + body.1.1, fun around => declared around owned + body.1.2 around),
        body.2) := by
  intro owned body
  have sum := sum_declare_placing owned
  rw [List.map_map] at sum
  have whole : (declareIn shared tree fn).body.census placing = _ + body :=
    census_declareIn (fun _ => rfl) (fun _ => .inl rfl) shared tree fn
  rw [whole]
  exact (congrArg (· + body) sum).trans (congrArg (Prod.mk _) (zero_add body.2))

/-- The walk that replaces literals declares the variables for them on top of the functions that own
them. -/
theorem follows_declared (fields : (shared.map (·.field)).Nodup)
    (isNew : ∀ s ∈ shared, old ≤ s.field) :
    Follows inventory placing (replace shared) (declareIn shared tree) fun scopes _ a b _ =>
      (∀ id, .name id ∈ a scopes → id.IsOld old) → Declared shared tree old b where
  zero _ _ _ := .of_old isNew (fun _ _ mem => nomatch mem) fun _ _ mem => nomatch mem
  add first second areOld :=
    (first fun id mem => areOld id (mem_add.mpr (.inl mem))).add
      (second fun id mem => areOld id (mem_add.mpr (.inr mem)))
  quiet _ _ := inventory_quiet
  line := inventory_line
  directive e scopes t isString _ := by
    show Declared shared tree old (e.census placing none)
    rw [placing_string isString]
    exact .of_old isNew (fun _ _ mem => nomatch mem) fun _ _ mem => nomatch mem
  spared around around' e scopes t isSpared areOld := by
    rw [inventory_spared isSpared] at areOld
    rw [placing_expr]
    refine .of_old isNew (survey_tracks_nested.exprOf .top e ()) fun place site mem id isName => ?_
    exact areOld id (mem_namesAmong.mpr ⟨id, Expr.ident_of_site mem isName, rfl⟩)
  literal around around' e scopes t _ isLiteral _ := by
    obtain ⟨same, -⟩ | ⟨o, s, -, -, mention⟩ := visited_cases shared scopes e t
    · rw [same, Literal.census_eq_zero (fun _ _ => rfl) isLiteral]
      exact .of_old isNew (fun _ _ mem => nomatch mem) fun _ _ mem => nomatch mem
    · rw [mention, census_mentionAt fun _ _ => rfl]
      exact .use shared tree old _ _
  use _ id _ _ _ := .use shared tree old id _
  declare id scopes _ areOld := by
    refine .of_old isNew (fun place site mem => ?_) fun place site mem id' isName => ?_
    · obtain rfl : site = ⟨place, .declares id⟩ := by simpa [placing, Census.pair, survey, declared] using mem
      exact ⟨[], rfl, by simp⟩
    · obtain rfl := List.mem_singleton.mp (ident_of_mem_declared mem isName)
      exact areOld id' (mem_namesAmong.mpr ⟨id', List.mem_singleton_self _, rfl⟩)
  function fn body scopes t t₁ declared areOld := by
    obtain ⟨kind, name, params, body', scope, span⟩ := fn
    have inBody := declared fun id mem => areOld id (mem_add.mpr (.inr mem))
    show Declared shared tree old (placing.function (declareIn shared tree
      ⟨kind, name, params, body, scope, span⟩)
      ((declareIn shared tree ⟨kind, name, params, body, scope, span⟩).body.census placing))
    rw [placing_declareIn]
    refine inBody.function fields isNew (declareIn shared tree ⟨kind, name, params, body, scope, span⟩)
      (fun id mem => ?_) (fun s isShared owns => ?_) _ _
    · exact areOld id (mem_add.mpr (.inl (mem_namesAmong.mpr ⟨id, mem, rfl⟩)))
    · show s.decl tree ∈ (body.declareFirst _).topDecls
      rw [Block.topDecls_declareFirst]
      refine List.mem_append_left _ (List.mem_map_of_mem ?_)
      exact List.mem_filter.mpr ⟨isShared, decide_eq_true owns⟩
  handler clause body scopes t t₁ declared areOld := by
    obtain ⟨param, body', scope, span⟩ := clause
    exact (declared fun id mem => areOld id (mem_add.mpr (.inr mem))).opened _
      (by simp [CatchClause.opening])
  withBody scope a b scopes t t₁ declared areOld := (declared areOld).opened _ (by simp [withOpening])

end SharedLiteral

end Minifier
