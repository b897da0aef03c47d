import Mathlib.Data.Multiset.AddSub
import Minifier.Proofs.Simplify.Order
import Minifier.Proofs.Syntax.Survey

/-!
# What rewriting leaves of the declarations

A function declares the names of the `var` statements and function declarations in it, wherever they
stand. A rule may drop one of several declarations of a name, or move it, but not the last one
(`Sustains`). The rules that ask the scopes are the exception: they drop declarations of variables that
nothing mentions. So what is left of a list either declares a variable still, or something holds that
was waited for.

What statements declare is a census that passes over expressions (`hoisting`), and all that is known of
censuses that do not mind what is dropped holds of it (`hoisting_sheds`).

A declaration that is dropped has the name of one that stays. For it to declare the same variable,
the names of the list have to be fair: all declarations of one name are of one variable.
-/

set_option autoImplicit false

namespace Minifier

open Multiset

variable {d : VarDecl} {decls more : List VarDecl} {statements : List Statement}

/-- The names that statements declare for the function around them. -/
structure Hoisted where
  vars : List Ident
  functions : List Ident

namespace Hoisted

/-- A `var` of a name is one of the variable. -/
def Fair (name : String) (v : FieldId) (h : Hoisted) : Prop :=
  ∀ id ∈ h.vars, id.name = name → id.field = some v

/-- A variable is declared: there is a `var` of its name or a function declaration. -/
def Has (name : String) (v : FieldId) (h : Hoisted) : Prop :=
  (∃ id ∈ h.vars, id.name = name) ∨ ∃ id ∈ h.functions, id.field = some v

end Hoisted

/-- What a list hoists. -/
def hoistsOf (statements : List Statement) : Hoisted :=
  ⟨(varDeclsOf statements).map (·.name), (functionDeclsOf statements).flatMap (·.hoistedName)⟩

/-! ## Names that are hoisted -/

/-- The names of `var` statements, and those of function declarations. -/
def hoisting : Census (Multiset Ident × Multiset Ident) where
  expr? _ _ := some 0
  use _ _ := 0
  declare id := ({id}, 0)
  function fn _ := (0, fn.hoistedName)
  handler _ m := m
  withBody _ m := m

theorem Block.census_hoisting (b : Block) : b.census hoisting = statementCensus hoisting b.statements := by
  cases b
  rfl

theorem survivorCensus_hoisting (decls : List VarDecl) (functions : List Function) :
    survivorCensus hoisting decls functions =
      (↑(decls.map (·.name)), ↑(functions.flatMap (·.hoistedName))) := by
  have names : declCensus hoisting (decls.map VarDecl.nameOnly) = (↑(decls.map (·.name)), 0) := by
    induction decls with
    | nil => rfl
    | cons d rest ih =>
      simp only [List.map_cons, declCensus, ih]
      rfl
  have declared : statementCensus hoisting (functions.map Statement.function) =
      (0, ↑(functions.flatMap (·.hoistedName))) := by
    induction functions with
    | nil => rfl
    | cons fn rest ih =>
      cases fn
      simp only [List.map_cons, statementCensus, ih]
      rfl
  rw [survivorCensus, names, declared, Prod.mk_add_mk, add_zero, zero_add]

theorem hoisting_isPlain : hoisting.IsPlain where
  expr? := .inr ⟨fun _ _ => rfl, fun _ _ => rfl⟩

/-- The names are those of the declarations that are collected. -/
theorem statementCensus_hoisting (statements : List Statement) : statementCensus hoisting statements =
    (↑(hoistsOf statements).vars, ↑(hoistsOf statements).functions) := by
  have passes : hoisting.Passes Eq :=
    { hoisting_isPlain with
      refl := fun _ => rfl
      trans := Eq.trans
      add := congrArg₂ (· + ·)
      expr := fun e => (Expr.census_of_silent (fun _ _ => rfl) none e).symm
      handler := fun _ _ _ _ same => same
      withBody := fun _ _ _ same => same
      ofHandler := fun _ _ _ => rfl
      ofWithBody := fun _ _ _ => rfl }
  rw [← survivorCensus_le_statements passes statements, survivorCensus_hoisting]
  rfl

theorem mem_vars_hoistsOf {id : Ident} :
    id ∈ (hoistsOf statements).vars ↔ id ∈ (statementCensus hoisting statements).1 := by
  rw [statementCensus_hoisting]
  exact Iff.rfl

theorem mem_declCensus_hoisting (mem : d ∈ decls) : d.name ∈ (declCensus hoisting decls).1 := by
  induction decls with
  | nil => cases mem
  | cons first rest ih =>
    rcases List.mem_cons.mp mem with rfl | mem
    · obtain ⟨id, _ | e, span⟩ := d
      all_goals
        exact mem_add.mpr (.inl (mem_add.mpr (.inl (mem_singleton_self id))))
    · exact mem_add.mpr (.inr (ih mem))

theorem mem_statementCensus_hoisting {id : Ident} {s : Statement} (mem : s ∈ statements)
    (hoists : id ∈ (s.census hoisting).1) : id ∈ (statementCensus hoisting statements).1 := by
  induction statements with
  | nil => cases mem
  | cons first rest ih =>
    rcases List.mem_cons.mp mem with rfl | mem
    · exact mem_add.mpr (.inl hoists)
    · exact mem_add.mpr (.inr (ih mem))

/-! ## Sustaining a declaration -/

/-- No name is declared that was not, and a variable that is declared stays so, unless something
holds. -/
structure Sustains (name : String) (v : FieldId) (given : Prop)
    (a b : Multiset Ident × Multiset Ident) : Prop where
  sub : ∀ id ∈ b.1, id ∈ a.1
  keeps : (∀ id ∈ a.1, id.name = name → id.field = some v) →
    ((∃ id ∈ a.1, id.name = name) ∨ ∃ id ∈ a.2, id.field = some v) →
    ((∃ id ∈ b.1, id.name = name) ∨ ∃ id ∈ b.2, id.field = some v) ∨ given

namespace Sustains

variable {name : String} {v : FieldId} {given given' : Prop}
  {a a' b b' c : Multiset Ident × Multiset Ident}

theorem refl (a : Multiset Ident × Multiset Ident) : Sustains name v given a a :=
  ⟨fun _ mem => mem, fun _ has => .inl has⟩

theorem of_eq (same : b = a) : Sustains name v given a b := same ▸ refl b

theorem trans (first : Sustains name v given a b) (later : given → given')
    (second : Sustains name v given' b c) : Sustains name v given' a c where
  sub id mem := first.sub id (second.sub id mem)
  keeps fair has := (first.keeps fair has).elim (second.keeps fun id mem => fair id (first.sub id mem))
    fun known => .inr (later known)

theorem add (first : Sustains name v given a b) (later : given → given')
    (second : Sustains name v given' a' b') : Sustains name v given' (a + a') (b + b') where
  sub id mem := mem_add.mpr ((mem_add.mp mem).imp (first.sub id) (second.sub id))
  keeps fair has := by
    have left := first.keeps fun id mem => fair id (mem_add.mpr (.inl mem))
    have right := second.keeps fun id mem => fair id (mem_add.mpr (.inr mem))
    simp only [Prod.fst_add, Prod.snd_add, mem_add, or_and_right, exists_or] at has ⊢
    rcases has with (has | has) | has | has
    · exact (left (.inl has)).imp (Or.imp .inl .inl) later
    · exact (right (.inl has)).imp_left (Or.imp .inr .inr)
    · exact (left (.inr has)).imp (Or.imp .inl .inl) later
    · exact (right (.inr has)).imp_left (Or.imp .inr .inr)

variable {l l' : List Statement}

theorem fair (sustains : Sustains name v given (statementCensus hoisting l)
    (statementCensus hoisting l')) (fair : (hoistsOf l).Fair name v) :
    (hoistsOf l').Fair name v := by
  rw [statementCensus_hoisting, statementCensus_hoisting] at sustains
  exact fun id mem => fair id (sustains.sub id mem)

theorem has (sustains : Sustains name v given (statementCensus hoisting l)
    (statementCensus hoisting l')) (fair : (hoistsOf l).Fair name v)
    (has : (hoistsOf l).Has name v) : (hoistsOf l').Has name v ∨ given := by
  rw [statementCensus_hoisting, statementCensus_hoisting] at sustains
  exact sustains.keeps fair has

theorem fair_of_eq (same : statementCensus hoisting l' = statementCensus hoisting l)
    (fair : (hoistsOf l).Fair name v) : (hoistsOf l').Fair name v :=
  have sustains : Sustains name v False _ _ := .of_eq same
  sustains.fair fair

end Sustains

section Sheds

variable {name : String} {v : FieldId} {given : Prop}

/-- A name is declared once or twice, and functions are moved as they are. -/
theorem hoisting_sheds : hoisting.ShedsWithin fun b a => Sustains name v given a b where
  toIsPlain := hoisting_isPlain
  refl := .refl
  trans second first := first.trans id second
  add first second := first.add id second
  expr e := .of_eq (Expr.census_of_silent (fun _ _ => rfl) none e).symm
  handler _ _ _ _ less := less
  withBody _ _ _ less := less
  ofHandler _ _ _ := .refl _
  ofWithBody _ _ _ := .refl _
  again {id id'} same := by
    refine ⟨fun _ mem => mem_add.mpr (.inl mem), fun _ has => .inl (has.imp_left ?_)⟩
    rintro ⟨other, mem, isName⟩
    refine ⟨id, mem_singleton_self id, ?_⟩
    rcases mem_add.mp mem with mem | mem
    · rwa [← mem_singleton.mp mem]
    · rw [same, ← mem_singleton.mp mem, isName]
  function _ _ _ _ _ _ := .refl _

/-- A declaration that leaves an assignment behind is still there. -/
theorem hoisting_assigns (id : Ident) : Sustains name v given (hoisting.declare id)
    (hoisting.declare id + hoisting.use false id) :=
  .of_eq (add_zero _)

end Sheds

/-! ## Names that are declared once -/

theorem mem_addDecl_of_mem {next : VarDecl} (mem : d ∈ decls) : d ∈ addDecl decls next := by
  unfold addDecl
  split
  · exact mem
  · exact List.mem_append_left _ mem

theorem exists_mem_addDecl (decls : List VarDecl) (d : VarDecl) :
    ∃ d' ∈ addDecl decls d, d'.name.name = d.name.name := by
  unfold addDecl
  split
  · rename_i known
    obtain ⟨d', mem, same⟩ := List.any_eq_true.mp known
    exact ⟨d', mem, by simpa using same⟩
  · exact ⟨d, by simp, rfl⟩

theorem mem_addDecl {e : VarDecl} (mem : d ∈ addDecl decls e) : d ∈ decls ∨ d = e := by
  unfold addDecl at mem
  split at mem
  · exact Or.inl mem
  · simpa using mem

theorem mem_foldl_addDecl : ∀ {decls : List VarDecl},
    d ∈ more.foldl addDecl decls → d ∈ decls ∨ d ∈ more := by
  induction more with
  | nil => intro decls mem; exact Or.inl mem
  | cons e more ih =>
    intro decls mem
    rcases ih mem with old | new
    · rcases mem_addDecl old with old | rfl
      · exact Or.inl old
      · exact Or.inr List.mem_cons_self
    · exact Or.inr (List.mem_cons_of_mem _ new)

theorem mem_foldl_addDecl_of_mem : ∀ {decls : List VarDecl},
    d ∈ decls → d ∈ more.foldl addDecl decls := by
  induction more with
  | nil => exact id
  | cons next more ih => exact fun mem => ih (mem_addDecl_of_mem mem)

/-- Every name is still declared when those that are there are left out. -/
theorem exists_mem_foldl_addDecl : ∀ {decls : List VarDecl},
    d ∈ decls ++ more → ∃ d' ∈ more.foldl addDecl decls, d'.name.name = d.name.name := by
  induction more with
  | nil =>
    intro decls mem
    exact ⟨d, by simpa using mem, rfl⟩
  | cons next more ih =>
    intro decls mem
    have kept : ∀ {d}, d ∈ addDecl decls next → d ∈ more.foldl addDecl (addDecl decls next) :=
      fun mem => mem_foldl_addDecl_of_mem mem
    rcases List.mem_append.mp mem with old | new
    · exact ⟨d, kept (mem_addDecl_of_mem old), rfl⟩
    · rcases List.mem_cons.mp new with rfl | later
      · obtain ⟨d', mem', same⟩ := exists_mem_addDecl decls d
        exact ⟨d', kept mem', same⟩
      · exact ih (List.mem_append_right _ later)

end Minifier
