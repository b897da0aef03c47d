import Mathlib.Data.List.TakeWhile
import Minifier.Proofs.Simplify.Gathered

/-!
# The function of a variable

A variable belongs to the function whose parameter it is, whose own name it is, or that declares it.
Shrinking a program either leaves a declaration in that function, or no mention of the variable
(`Function.Ordered.functionEnd`). The counts say that a mention is left if one is, as long as the
function starts from all of them.
-/

set_option autoImplicit false

namespace Minifier

open Hoisted ScopeTree List

/-! ## Declarations -/

/-- Statements declare a variable for the function around them. -/
def Hoisted.Declares (h : Hoisted) (v : FieldId) : Prop :=
  (∃ id ∈ h.vars, id.field = some v) ∨ ∃ id ∈ h.functions, id.field = some v

theorem Hoisted.Declares.of_eq {l l' : List Statement} {v : FieldId}
    (declares : (hoistsOf l).Declares v)
    (same : statementCensus hoisting l' = statementCensus hoisting l) :
    (hoistsOf l').Declares v := by
  rw [statementCensus_hoisting, statementCensus_hoisting, Prod.mk.injEq, Multiset.coe_eq_coe,
    Multiset.coe_eq_coe] at same
  refine declares.imp ?_ ?_
  · exact fun ⟨id, mem, isField⟩ => ⟨id, same.1.mem_iff.mpr mem, isField⟩
  · exact fun ⟨id, mem, isField⟩ => ⟨id, same.2.mem_iff.mpr mem, isField⟩

theorem Hoisted.Has.declares {name : String} {v : FieldId} {h : Hoisted}
    (has : h.Has name v) (fair : h.Fair name v) : h.Declares v :=
  has.imp_left fun ⟨id, mem, isName⟩ => ⟨id, mem, fair id mem isName⟩

namespace Function

/-- A variable is a parameter of a function, or the name that a function expression has for itself. -/
def HasLocal (fn : Function) (v : FieldId) : Prop :=
  ∃ id ∈ fn.locals, id.field = some v

/-- A function declares a variable. -/
def Declares (fn : Function) (v : FieldId) : Prop :=
  fn.HasLocal v ∨ (hoistsOf fn.body.statements).Declares v

/-- The function of a variable, with its declarations in order: it declares the variable, and all
mentions in it are counted, but for those that are assigned to after a declaration that it starts with. -/
structure Ordered (t₀ : ScopeTree) (v : FieldId) (name : String) (counted : ℕ) (fn : Function) :
    Prop where
  fair : (hoistsOf fn.body.statements).Fair name v
  declares : fn.HasLocal v ∨ (hoistsOf fn.body.statements).Has name v
  counts : statementCensus (mentionsOf t₀ v) fn.body.statements ≤ counted ∨
    Leads name fn.body.statements ∧ weightOf (mentionsOf t₀ v) fn.body.statements ≤ counted

end Function

/-! ## The order of declarations -/

/-- The mentions of a variable in a tree, and the `var` declarations of it. -/
def traces (t₀ : ScopeTree) (v : FieldId) : Census (ℕ × ℕ) where
  use isCallee id := ((mentionsOf t₀ v).use isCallee id, 0)
  declare id := (0, (mentionsOf t₀ v).use false id)
  function _ body := body
  handler _ body := body
  withBody _ body := body

/-- The mentions of a variable in a tree, and the `var` declarations of it in the functions in the tree. -/
def innerTraces (t₀ : ScopeTree) (v : FieldId) : Census (ℕ × ℕ) where
  use isCallee id := ((mentionsOf t₀ v).use isCallee id, 0)
  declare _ := 0
  function fn _ := fn.body.census (traces t₀ v)
  handler _ body := body
  withBody _ body := body

/-- Without a declaration there comes none, and no mention. -/
def Fainter (a b : ℕ × ℕ) : Prop := b.2 = 0 → a.2 = 0 ∧ a.1 ≤ b.1

/-- What a walk makes of a function, given what it makes of the body. -/
theorem Function.walk_of_body {σ : Type} {w : Walk σ} {fn : Function} {body : Block} {s s₁ : σ}
    (walks : fn.body.walk w (w.enterFunction fn s).2 = (body, s₁)) :
    fn.walk w s = w.leaveFunction { (w.enterFunction fn s).1 with body } s₁ := by
  obtain ⟨kind, name, params, body', scope, span⟩ := fn
  have whole : Function.walk w ⟨kind, name, params, body', scope, span⟩ s = w.leaveFunction
    { (w.enterFunction ⟨kind, name, params, body', scope, span⟩ s).1 with
      body := (body'.walk w (w.enterFunction ⟨kind, name, params, body', scope, span⟩ s).2).1 }
    (body'.walk w (w.enterFunction ⟨kind, name, params, body', scope, span⟩ s).2).2 := rfl
  rw [whole, walks]

section Traces

variable {t₀ : ScopeTree} {v : FieldId}

theorem Fainter.refl (a : ℕ × ℕ) : Fainter a a := fun none => ⟨none, Nat.le_refl _⟩

theorem Fainter.add {a a' b b' : ℕ × ℕ} (first : Fainter a a') (second : Fainter b b') :
    Fainter (a + b) (a' + b') := by
  intro none
  obtain ⟨none₁, none₂⟩ := Nat.add_eq_zero_iff.mp none
  obtain ⟨first, less⟩ := first none₁
  obtain ⟨second, less'⟩ := second none₂
  exact ⟨Nat.add_eq_zero_iff.mpr ⟨first, second⟩, Nat.add_le_add less less'⟩

theorem traces_sheds : (traces t₀ v).ShedsWithin Fainter where
  refl := .refl
  trans first second none := ⟨(first (second none).1).1, (first (second none).1).2.trans (second none).2⟩
  add first second := first.add second
  expr _ _ := ⟨rfl, Nat.zero_le _⟩
  again _ none := ⟨(Nat.add_eq_zero_iff.mp none).1, Nat.zero_le _⟩
  function _ _ _ _ _ less := less
  handler _ _ _ _ less := less
  withBody _ _ _ less := less
  ofHandler _ _ _ := .refl _
  ofWithBody _ _ _ := .refl _

theorem traces_relates_mentionsOf : (traces t₀ v).Relates (mentionsOf t₀ v) fun a b => b = a.1 where
  zero := rfl
  add first second := by rw [first, second, Prod.fst_add]
  use _ _ := rfl
  declare _ := rfl
  function fn same := same
  handler clause same := same
  withBody _ same := same

theorem innerTraces_relates_mentionsOf : (innerTraces t₀ v).Relates (mentionsOf t₀ v)
    fun a b => b = a.1 where
  zero := rfl
  add first second := by rw [first, second, Prod.fst_add]
  use _ _ := rfl
  declare _ := rfl
  function fn _ := traces_relates_mentionsOf.related_block _
  handler clause same := same
  withBody _ same := same

theorem orderInFunctions_tracks_innerTraces (settings : Settings) :
    (innerTraces t₀ v).Tracks (innerTraces t₀ v) (orderInFunctions settings)
      fun _ a b _ => Fainter b a where
  zero _ := .refl 0
  add first second := first.add second
  use _ _ _ := .refl _
  declare _ _ := .refl _
  function fn body s s₁ walks _ := by
    have assigns (id : Ident) : Fainter ((traces t₀ v).declare id + (traces t₀ v).use false id)
        ((traces t₀ v).declare id) := fun none => ⟨none, Nat.le_of_eq ((Nat.zero_add _).trans none)⟩
    have whole := (orderInFunctions_tracks traces_sheds assigns settings).functionOf fn s
    rw [Function.walk_of_body walks] at whole
    cases fn
    exact whole
  handler clause body _ _ _ less := by
    cases clause
    exact less
  withBody _ _ _ _ _ _ less := less

end Traces

namespace Function

/-- The function of a variable as binding leaves it: it declares the variable, under one name, and no
function in it does. -/
structure Hosts (t₀ : ScopeTree) (v : FieldId) (name : String) (counted : ℕ) (fn : Function) :
    Prop where
  fair : (hoistsOf fn.body.statements).Fair name v
  named : (hoistsOf fn.body.statements).Named t₀ v name
  declares : fn.HasLocal v ∨ (hoistsOf fn.body.statements).Has name v
  inner : (fn.body.census (innerTraces t₀ v)).2 = 0
  counts : fn.census (mentionsOf t₀ v) ≤ counted

variable {t₀ : ScopeTree} {v : FieldId} {name : String} {counted : ℕ} {fn : Function}

theorem Hosts.ordered (hosts : fn.Hosts t₀ v name counted) : fn.Ordered t₀ v name counted where
  fair := hosts.fair
  declares := hosts.declares
  counts := .inl (fn.mentionsOf_eq ▸ hosts.counts)

theorem Hosts.orderDeclarations (hosts : fn.Hosts t₀ v name counted) (settings : Settings)
    {s s₁ : Bool} {body : Block} (walks : fn.body.walk (orderInFunctions settings) s = (body, s₁)) :
    Ordered t₀ v name counted { fn with body := (body.orderDeclarations settings).value } := by
  have inside : Sustains name v False _ _ :=
    (orderInFunctions_tracks hoisting_sheds hoisting_assigns settings).blockOf fn.body s
  have fainter := (orderInFunctions_tracks_innerTraces settings).blockOf (c := innerTraces t₀ v) fn.body s
  rw [walks] at inside fainter
  have whole := inside.trans id
    (body.census_orderDeclarations_le hoisting_sheds.toSheds hoisting_assigns settings)
  simp only [Block.census_hoisting] at inside whole
  have less : statementCensus (mentionsOf t₀ v) body.statements ≤ counted := by
    rw [← body.mentionsOf_eq, innerTraces_relates_mentionsOf.related_block body]
    refine (fainter hosts.inner).2.trans ?_
    rw [← innerTraces_relates_mentionsOf.related_block fn.body, fn.body.mentionsOf_eq, ← fn.mentionsOf_eq]
    exact hosts.counts
  refine ⟨whole.fair hosts.fair, hosts.declares.imp_right fun has => ?_, ?_⟩
  · exact (whole.has hosts.fair has).resolve_right id
  · have named : (hoistsOf body.statements).Named t₀ v name := fun id mem =>
      hosts.named id (mem_vars_hoistsOf.mpr (inside.sub id (mem_vars_hoistsOf.mp mem)))
    refine (body.counts_orderDeclarations settings named).imp ?_ ?_
    · exact fun fewer => fewer.trans less
    · exact fun ⟨leads, fewer⟩ => ⟨leads, fewer.trans less⟩

end Function

/-! ## The rules -/

/-- A parameter that is dropped has no mention. -/
theorem ScopeTree.mem_neededParams {t : ScopeTree} {params : List Ident} {id : Ident} {field : FieldId}
    (mem : id ∈ params) (isField : id.field = some field) (isMentioned : t.totalRefs field ≠ 0) :
    id ∈ t.neededParams params := by
  unfold neededParams
  rw [mem_reverse]
  have whole := takeWhile_append_dropWhile (l := params.reverse)
    (p := fun id => id.field.any fun field => t.totalRefs field = 0)
  have mem' : id ∈ params.reverse := mem_reverse.mpr mem
  rw [← whole, mem_append] at mem'
  refine mem'.resolve_left fun dropped => isMentioned ?_
  have isUnused := mem_takeWhile_imp dropped
  simpa [isField] using isUnused

/-- A function with fewer parameters has the name that it had for itself. -/
theorem Function.mem_locals_of_subset {fn : Function} {params : List Ident} {body : Block} {id : Ident}
    (fewer : ∀ param ∈ params, param ∈ fn.params) (stays : id ∈ fn.params → id ∈ params)
    (mem : id ∈ fn.locals) : id ∈ Function.locals { fn with params, body } := by
  rcases mem_append.mp mem with isParam | isOwn
  · exact mem_append_left _ (stays isParam)
  · obtain ⟨isOwn, isFree⟩ := mem_filter.mp isOwn
    refine mem_append_right _ (mem_filter.mpr ⟨isOwn, ?_⟩)
    exact all_eq_true.mpr fun param mem => all_eq_true.mp isFree param (fewer param mem)

namespace Function.Ordered

variable {t₀ : ScopeTree} {v : FieldId} {name : String} {counted : ℕ} {fn : Function}
  (ordered : t₀.OutersFirst) (bound : v < t₀.fields.size)
  (isVariable : (t₀.field v).outer = none)
include ordered bound isVariable

/-- If all mentions are counted, then a declaration goes only if they do. -/
theorem walk_of_counted (host : fn.Ordered t₀ v name counted) (settings : Settings)
    (s : Simplify.State) (shape : SameShape t₀ s.tree) (counts : counted ≤ (s.tree.field v).refs)
    (all : statementCensus (mentionsOf t₀ v) fn.body.statements ≤ counted) :
    let walked := fn.body.walk (Simplify.rules settings) s
    SameShape t₀ walked.2.tree ∧
    ((hoistsOf fn.body.statements).Has name v →
      (hoistsOf walked.1.statements).Declares v ∨ (walked.2.tree.field v).refs = 0) ∧
    statementCensus (mentionsOf t₀ v) walked.1.statements ≤ (walked.2.tree.field v).refs := by
  have sustains := (Simplify.rules_sustains ordered isVariable settings name).blockOf fn.body s
  have balances := (Simplify.rules_balance ordered bound isVariable settings).blockOf fn.body s
  obtain ⟨shape', -, balance⟩ := balances shape
  rw [Block.mentionsOf_eq, Block.mentionsOf_eq] at balance
  rw [Block.census_hoisting, Block.census_hoisting] at sustains
  refine ⟨shape', fun has => ?_, by omega⟩
  rcases sustains.2.has host.fair has with has | spent
  · exact .inl (has.declares (sustains.2.fair host.fair))
  · exact .inr (spent shape').1

/-- If the body starts with a declaration, then that one goes only if all mentions do. -/
theorem walk_of_leads (host : fn.Ordered t₀ v name counted) (settings : Settings)
    (s : Simplify.State) (shape : SameShape t₀ s.tree) (counts : counted ≤ (s.tree.field v).refs)
    (leads : Leads name fn.body.statements)
    (less : weightOf (mentionsOf t₀ v) fn.body.statements ≤ counted) :
    let walked := fn.body.walk (Simplify.rules settings) s
    (hoistsOf walked.1.statements).Declares v ∨
      statementCensus (mentionsOf t₀ v) walked.1.statements = 0 := by
  obtain ⟨kind, fnName, params, ⟨statements, bodySpan⟩, scope, span⟩ := fn
  simp only at less
  have sustains := (Simplify.rules_sustains ordered isVariable settings name).statementsOf statements s
  obtain ⟨shape', -, balance⟩ := balances_weight ordered bound isVariable settings statements s shape
  have keeps : Simplify.Keeps t₀ v name _ _ :=
    ⟨shape', sustains.2.fair host.fair, .inl ⟨leads.walkStatements settings s, by omega⟩⟩
  have kept := Simplify.keeps_list ordered bound isVariable settings keeps
  exact kept.known.imp_left fun ⟨leads, _⟩ => (leads.has v).declares kept.fair

/-- The function of a variable after it was simplified: it declares the variable, or there is no mention
in it. -/
theorem functionEnd (host : fn.Ordered t₀ v name counted) (settings : Settings)
    {s s₁ : Simplify.State} {body : Block} (shape : SameShape t₀ s.tree)
    (counts : counted ≤ (s.tree.field v).refs)
    (walks : fn.body.walk (Simplify.rules settings) s = (body, s₁)) :
    let left := (Simplify.functionEnd settings { fn with body } s₁).1
    left.Declares v ∨ left.census (mentionsOf t₀ v) = 0 := by
  intro left
  obtain ⟨-, params, isEnd, areParams⟩ := Simplify.functionEnd_cases settings { fn with body } s₁
  have hoists : statementCensus hoisting left.body.statements = statementCensus hoisting body.statements := by
    simp only [left, isEnd]
    exact census_simplifyEnd hoisting_isPlain settings body.statements
  have mentioned : left.census (mentionsOf t₀ v) =
      statementCensus (mentionsOf t₀ v) body.statements := by
    simp only [left, Function.mentionsOf_functionEnd]
    exact Function.mentionsOf_eq { fn with body }
  have inBody (declares : (hoistsOf body.statements).Declares v) : left.Declares v :=
    .inr (declares.of_eq hoists)
  rw [mentioned]
  rcases host.counts with all | ⟨leads, less⟩
  · obtain ⟨shape', keeps, counted⟩ :=
      host.walk_of_counted ordered bound isVariable settings s shape counts all
    rw [walks] at shape' keeps counted
    rcases host.declares with ⟨id, mem, isField⟩ | has
    · by_cases none : s₁.tree.totalRefs v = 0
      · rw [totalRefs, shape'.ultimate, ultimate_of_variable isVariable] at none
        exact .inr (Nat.le_zero.mp (none ▸ counted))
      · have stays : id ∈ left.locals := by
          simp only [left, isEnd]
          refine mem_locals_of_subset ?_ ?_ mem
          · rcases areParams with rfl | rfl
            · exact fun _ mem => mem
            · exact s₁.tree.neededParams_subset fn.params
          · intro isParam
            rcases areParams with rfl | rfl
            · exact isParam
            · exact mem_neededParams isParam isField none
        exact .inl (.inl ⟨id, stays, isField⟩)
    · rcases keeps has with declares | none
      · exact .inl (inBody declares)
      · exact .inr (Nat.le_zero.mp (none ▸ counted))
  · have kept := host.walk_of_leads ordered bound isVariable settings s shape counts leads less
    rw [walks] at kept
    exact kept.imp_left inBody

end Function.Ordered

end Minifier
