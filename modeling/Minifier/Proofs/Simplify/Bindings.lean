import Minifier.Minify
import Minifier.Proofs.Scope.Bind
import Minifier.Proofs.Simplify.Order
import Minifier.Proofs.Syntax.Related

/-!
# Shrinking a program keeps its bindings

Neither the order of declarations nor the rules of simplification touch what binding has found out:
the tree of scopes stays fresh, with counts and marks of its own, and all names and scopes of the
program are still in it (`BoundProgram.IsBound.shrink`). At the end every mention is counted, so a
field that the program mentions has a count (`BoundProgram.IsBound.refs_shrink_pos`).
-/

set_option autoImplicit false

namespace Minifier

open ScopeTree Multiset

/-! ## Counting mentions -/

namespace ScopeTree

variable (t : ScopeTree) (statements : List Statement) (f : FieldId)

/-- Counting a mention. -/
theorem trims_addRef : Trims t (t.addRef f) := by
  refine relates_foldl .refl .trans (fun t id => ?_) _ t
  exact Trims.modifyField t id _ fun _ => ⟨rfl, rfl, rfl, rfl, rfl⟩

/-- Taking one back. -/
theorem trims_removeRef : Trims t (t.removeRef f) := by
  refine relates_foldl .refl .trans (fun t id => ?_) _ t
  exact Trims.modifyField t id _ fun _ => ⟨rfl, rfl, rfl, rfl, rfl⟩

theorem trims_detach (s : ScopeId) : Trims t (t.detach s) := by
  refine relates_foldl .refl .trans (fun t id => ?_) _ t
  exact .of_sameMarks (tended_modifyScope t id _ fun _ => ⟨rfl, rfl, rfl, rfl, rfl⟩)
    (.modifyScope t id _ fun _ => ⟨rfl, rfl, rfl⟩)

theorem trims_clearRefs : Trims t { t with fields := t.fields.map fun f => { f with refs := 0 } } := by
  have read : ∀ f, ScopeTree.field { t with fields := t.fields.map fun f => { f with refs := 0 } } f =
      if f < t.fields.size then { t.field f with refs := 0 } else t.field f := by
    intro f
    simp only [ScopeTree.field, Array.getElem?_map]
    by_cases bound : f < t.fields.size <;> simp [bound]
  refine ⟨⟨⟨rfl, by simp, fun _ => rfl, fun _ => rfl, fun _ => rfl, fun _ => rfl, ?_, ?_, ?_⟩, rfl,
    ?_, ?_, fun _ => rfl, rfl⟩, fun _ => rfl, fun _ => rfl⟩ <;> intro f <;> rw [read] <;> split <;> rfl

/-- Counting anew. -/
theorem trims_recount (uses : List Ident) : Trims t (t.recount uses) :=
  (trims_clearRefs t).trans (relates_foldl Trims.refl Trims.trans trims_addRef _ _)

theorem trims_release (s : Statement) : Trims t (t.release s) :=
  (relates_foldl Trims.refl Trims.trans trims_removeRef _ t).trans (relates_foldl Trims.refl Trims.trans trims_detach _ _)

/-- Dropping functions. -/
theorem trims_dropFunctions : Trims t (t.dropFunctions statements).2 := by
  induction statements generalizing t with
  | nil => exact .refl t
  | cons s rest ih =>
    unfold dropFunctions
    extract_lets isUnused
    split
    · exact (trims_release t s).trans (ih _)
    · exact ih t

/-- Returning a value at once. -/
theorem trims_returnInitializer : Trims t (t.returnInitializer statements).2 := by
  unfold returnInitializer
  split
  · split
    · rename_i init mention v found
      refine (trims_removeRef t mention).trans ?_
      exact Trims.modifyField _ v _ fun _ => ⟨rfl, rfl, rfl, rfl, rfl⟩
    · exact .refl t
  · exact .refl t

end ScopeTree

namespace ScopeTree

/-- A step that takes no mention back, taken again and again. -/
theorem refs_le_foldl {α : Type} {step : ScopeTree → α → ScopeTree} {g : FieldId}
    (keeps : ∀ t a, (t.field g).refs ≤ ((step t a).field g).refs) (l : List α) (t : ScopeTree) :
    (t.field g).refs ≤ ((l.foldl step t).field g).refs := by
  induction l generalizing t with
  | nil => exact Nat.le_refl _
  | cons a l ih => exact Nat.le_trans (keeps t a) (ih (step t a))

theorem refs_le_count (t : ScopeTree) (f g : FieldId) :
    (t.field g).refs ≤ ((t.modifyField f fun f => { f with refs := f.refs + 1 }).field g).refs := by
  rw [field_modifyField]
  split
  · exact Nat.le_succ _
  · exact Nat.le_refl _

theorem refs_le_addRef (t : ScopeTree) (f g : FieldId) :
    (t.field g).refs ≤ ((t.addRef f).field g).refs :=
  refs_le_foldl (fun t f => refs_le_count t f g) _ t

theorem refs_addRef_pos {t : ScopeTree} {f : FieldId} (bound : f < t.fields.size) :
    0 < ((t.addRef f).field f).refs := by
  obtain ⟨rest, whole⟩ : ∃ rest, t.outwards f = f :: rest := by
    unfold outwards outwardsFrom
    split <;> exact ⟨_, rfl⟩
  have counted : 0 < ((t.modifyField f fun f => { f with refs := f.refs + 1 }).field f).refs := by
    rw [field_modifyField, if_pos ⟨rfl, bound⟩]
    exact Nat.succ_pos _
  unfold addRef
  rw [whole, List.foldl_cons]
  exact Nat.lt_of_lt_of_le counted (refs_le_foldl (fun t g => refs_le_count t g f) rest _)

/-- A field that is mentioned has a count. -/
theorem refs_recount_pos {t : ScopeTree} {uses : List Ident} {id : Ident} {f : FieldId}
    (isUse : id ∈ uses) (isField : id.field = some f) (bound : f < t.fields.size) :
    0 < ((t.recount uses).field f).refs := by
  have mem : f ∈ uses.filterMap (·.field) := List.mem_filterMap.mpr ⟨id, isUse, isField⟩
  obtain ⟨before, after, whole⟩ := List.append_of_mem mem
  have same := (trims_clearRefs t).trans (relates_foldl Trims.refl Trims.trans trims_addRef before _)
  unfold recount
  simp only
  rw [whole, List.foldl_append, List.foldl_cons]
  refine Nat.lt_of_lt_of_le (refs_addRef_pos ?_) (refs_le_foldl (fun t g => refs_le_addRef t g f) after _)
  exact same.fields_size.symm ▸ bound

end ScopeTree

/-! ## The rules

A rule may drop, copy and move the parts of a tree, but it never makes up a name or a scope: marks that
were in order before it are in order after it. -/

/-- Some marks are in order if others are. -/
def Fitting (fits : Mark → Prop) (a b : Multiset Mark) : Prop :=
  (∀ mark ∈ b, fits mark) → ∀ mark ∈ a, fits mark

namespace Fitting

variable {fits : Mark → Prop} {a a' b b' : Multiset Mark}

theorem add (first : Fitting fits a a') (second : Fitting fits b b') :
    Fitting fits (a + b) (a' + b') := by
  intro known mark mem
  rcases mem_add.mp mem with here | here
  · exact first (fun mark mem => known mark (mem_add.mpr (.inl mem))) mark here
  · exact second (fun mark mem => known mark (mem_add.mpr (.inr mem))) mark here

theorem left (a b : Multiset Mark) : Fitting fits a (a + b) :=
  fun known mark mem => known mark (mem_add.mpr (.inl mem))

theorem right (a b : Multiset Mark) : Fitting fits b (a + b) :=
  fun known mark mem => known mark (mem_add.mpr (.inr mem))

theorem zero (b : Multiset Mark) : Fitting fits 0 b :=
  fun _ _ mem => absurd mem (notMem_zero _)

end Fitting

/-- Marks may be left out. -/
theorem markCensus_sheds (fits : Mark → Prop) : markCensus.Sheds (Fitting fits) where
  refl _ known := known
  trans first second known := first (second known)
  add := .add
  expr _ := .zero _
  again _ := .left _ _
  handler _ _ _ _ less := .add (fun known => known) less
  withBody _ _ _ less := .add (fun known => known) less
  ofHandler _ _ _ := .right _ _
  ofWithBody _ _ _ := .right _ _

namespace Simplify

open Bond

/-- What is preserved of the tree and the marks, by the two rules that change the tree and so by
all. -/
structure Law where
  holds : ScopeTree → Prop
  grows : ScopeTree → ScopeTree → Prop
  fits : ScopeTree → Mark → Prop
  refl : ∀ t, grows t t
  trans : ∀ {t t₁ t₂}, grows t t₁ → grows t₁ t₂ → grows t t₂
  mono : ∀ {t t₁ mark}, grows t t₁ → fits t mark → fits t₁ mark
  dropFunctions : ∀ t statements, holds t → (∀ mark ∈ statementMarks statements, fits t mark) →
    holds (t.dropFunctions statements).2 ∧ grows t (t.dropFunctions statements).2
  returnInitializer : ∀ t statements, holds t →
    (∀ mark ∈ statementMarks statements, fits t mark) →
    holds (t.returnInitializer statements).2 ∧ grows t (t.returnInitializer statements).2

/-- The bond of the rules under a law. -/
def Law.bond (law : Law) : Bond Unit State :=
  .alone (fun s => law.holds s.tree) (fun s s' => law.grows s.tree s'.tree)
    (fun s => law.fits s.tree) (fun s => law.refl s.tree) law.trans law.mono

/-- The rules only trim the tree. -/
def trimming : Law where
  holds _ := True
  grows := Trims
  fits t mark := mark.Valid t
  refl := .refl
  trans first second := first.trans second
  mono grown valid := valid.extends (.of_sameShape grown.toSameShape)
  dropFunctions t statements _ _ := ⟨trivial, trims_dropFunctions t statements⟩
  returnInitializer t statements _ _ := ⟨trivial, trims_returnInitializer t statements⟩

/-- A step that leaves the scopes as they are, and marks in order. -/
theorem Law.runs_of_yields {law : Law} {α : Type} {m : Step α} {before : List Mark} {after : α → List Mark}
    (yields : ∀ fits : Mark → Prop, (∀ mark ∈ before, fits mark) →
      Yields m fun a => ∀ mark ∈ after a, fits mark) : law.bond.Runs before m after := by
  intro _ s holds known
  obtain ⟨tree, marks⟩ := yields (law.fits s.tree) known s
  show law.holds (m s).2.tree ∧ law.grows s.tree (m s).2.tree ∧
    ∀ mark ∈ after (m s).1, law.fits (m s).2.tree mark
  rw [tree]
  exact ⟨holds, law.refl s.tree, marks⟩

section Marks

variable (settings : Settings)

variable {fits : Mark → Prop}

theorem marks_statement (s : Statement) (known : ∀ mark ∈ s.marks, fits mark) :
    Yields (statement settings s) fun s' => ∀ mark ∈ s'.marks, fits mark := by
  refine (yields_statement (markCensus_sheds fits) settings s).imp fun s' fitting => ?_
  rw [← s'.coe_marks, ← s.coe_marks] at fitting
  exact fitting known

theorem marks_dropDead (test : Option Expr) (body : List Statement) (span : Span)
    (known : ∀ mark ∈ SwitchCase.marks ⟨test, body, span⟩, fits mark) :
    Yields (do return (⟨test, ← dropDead settings body, span⟩ : SwitchCase))
      fun clause => ∀ mark ∈ clause.marks, fits mark := by
  refine (yields_dropDead (markCensus_sheds fits) settings body).bind fun body' fitting => .pure ?_
  rw [← coe_statementMarks, ← coe_statementMarks] at fitting
  simp only [SwitchCase.marks, List.mem_append, or_imp, forall_and] at known ⊢
  exact ⟨known.1, fitting known.2⟩

theorem marks_functionEnd (fn : Function) (known : ∀ mark ∈ fn.marks, fits mark) :
    Yields (functionEnd settings fn) fun fn' => ∀ mark ∈ fn'.marks, fits mark := by
  intro s
  obtain ⟨tree, params, isEnd, isParams⟩ := functionEnd_cases settings fn s
  obtain ⟨kind, name, params', ⟨statements, bodySpan⟩, scope, span⟩ := fn
  refine ⟨tree, ?_⟩
  have ends := census_simplifyEnd (markCensus_sheds fits).toIsPlain settings statements
  rw [← coe_statementMarks, ← coe_statementMarks, coe_eq_coe] at ends
  have kept : params ⊆ params' := by
    rcases isParams with rfl | rfl
    · exact List.Subset.refl _
    · exact s.tree.neededParams_subset params'
  rw [isEnd]
  intro mark mem
  refine known mark ?_
  simp only [Function.marks, Block.marks, List.map_append, List.mem_append, List.mem_map,
    ends.mem_iff] at mem ⊢
  refine mem.imp_left (Or.imp_right (Or.imp_right ?_))
  rintro ⟨id, isParam, same⟩
  exact ⟨id, kept isParam, same⟩

end Marks

/-- What one rule for a statement list preserves of the tree and of the marks, all of them do. -/
theorem runs_list (law : Law) (settings : Settings) (statements : List Statement) :
    law.bond.Runs (statementMarks statements) (list settings statements) statementMarks := by
  intro _ s holds known
  let Kept (t : ScopeTree) (l : List Statement) : Prop :=
    law.holds t ∧ law.grows s.tree t ∧ ∀ mark ∈ statementMarks l, law.fits t mark
  have fewer {t : ScopeTree} {l l' : List Statement} (less : Fitting (law.fits t)
      (statementCensus markCensus l') (statementCensus markCensus l)) (kept : Kept t l) : Kept t l' := by
    rw [← coe_statementMarks, ← coe_statementMarks] at less
    exact ⟨kept.1, kept.2.1, less kept.2.2⟩
  have same {t : ScopeTree} {l l' : List Statement}
      (equal : statementCensus markCensus l' = statementCensus markCensus l) : Kept t l → Kept t l' :=
    fewer ((markCensus_sheds _).of_eq equal)
  have plain := (markCensus_sheds (law.fits s.tree)).toIsPlain
  have asked {t t' : ScopeTree} {l l' : List Statement} (kept : Kept t l)
      (grown : law.holds t' ∧ law.grows t t') (less : Fitting (law.fits t)
        (statementCensus markCensus l') (statementCensus markCensus l)) : Kept t' l' :=
    ⟨grown.1, law.trans kept.2.1 grown.2,
      fun mark mem => law.mono grown.2 ((fewer less kept).2.2 mark mem)⟩
  refine list_induct (motive := Kept) (fun _ l => same (statementCensus_unnestAll plain l))
    (fun _ l => same (statementCensus_dropEmpty plain l))
    (fun _ l => fewer (census_dropUnreachable_le (markCensus_sheds _) l))
    (fun _ l => same (statementCensus_joinVars l)) (fun _ l => same (statementCensus_joinComments plain l))
    (fun t l kept => asked kept (law.dropFunctions t l kept.1 kept.2.2)
      (census_dropFunctions_le (markCensus_sheds _) (fun _ => .zero _) t l))
    (fun t l kept => asked kept (law.returnInitializer t l kept.1 kept.2.2)
      (census_returnInitializer_le (markCensus_sheds _) (fun _ => .zero _) t l))
    (fun settings _ l => same (census_foldReturns plain settings l)) settings statements s
    ⟨holds, law.refl s.tree, known⟩

/-- The rules keep a law of marks and trim the tree. -/
theorem rules_inStep (law : Law) (settings : Settings) : InStep law.bond {} (rules settings) where
  leaveFunction fn fn' := (law.runs_of_yields fun _ => marks_functionEnd settings fn').keeps fn
  statement s s' := (law.runs_of_yields fun _ => marks_statement settings s').keeps s
  block b b' := (runs_list law settings b').keeps b
  switchCase c c' := by
    obtain ⟨test, body, span⟩ := c'
    exact (law.runs_of_yields fun _ => marks_dropDead settings test body span).keeps c

end Simplify

/-! ## The whole -/

namespace BoundProgram

/-- A program made smaller: its names and scopes are still in the tree, which is trimmed only. -/
structure Trims (p q : BoundProgram) : Prop where
  tree : p.tree.Trims q.tree
  scope : q.program.scope = p.program.scope
  valid : ∀ mark ∈ q.program.marks, mark.Valid q.tree

theorem Trims.trans {p q r : BoundProgram} (first : p.Trims q) (second : q.Trims r) : p.Trims r :=
  ⟨first.tree.trans second.tree, second.scope.trans first.scope, second.valid⟩

theorem IsBound.of_trims {p q : BoundProgram} (bound : p.IsBound) (trims : p.Trims q) : q.IsBound :=
  ⟨trims.tree.toTended.fresh bound.fresh, trims.scope.trans bound.scope, trims.valid⟩

section Steps

variable {p : BoundProgram} (valid : ∀ mark ∈ p.program.marks, mark.Valid p.tree)
  (settings : Settings)
include valid

theorem trims_recount : p.Trims p.recount where
  tree := ScopeTree.trims_recount p.tree _
  scope := rfl
  valid mark mem :=
    (valid mark mem).extends (.of_sameShape (ScopeTree.trims_recount p.tree _).toSameShape)

/-- Simplification trims. -/
theorem trims_simplify : p.Trims (p.simplify settings).value := by
  unfold BoundProgram.simplify
  split
  · obtain ⟨_, trims, valid⟩ := (Simplify.rules_inStep Simplify.trimming settings).program p.program ()
      ⟨p.tree, p.report, false⟩ trivial valid
    exact ⟨trims, rfl, valid⟩
  · exact ⟨.refl _, rfl, valid⟩

/-- A name that was declared may be mentioned, since a mention is in order if a name is. -/
theorem trims_orderDeclarations : p.Trims (p.orderDeclarations settings).value := by
  have isScope : (p.program.orderDeclarations settings).value.scope = p.program.scope := by
    unfold Program.orderDeclarations
    split <;> rfl
  have assigns (id : Ident) : Fitting (·.Valid p.tree) (markCensus.declare id + markCensus.use false id)
      (markCensus.declare id) := by
    intro known mark mem
    have isName := known (.name id) (by simp [markCensus])
    obtain rfl | rfl : mark = .name id ∨ mark = .use id := by
      simp [markCensus] at mem
      tauto
    · exact isName
    · exact isName
  have ordered (b : Block) (known : ∀ mark ∈ b.marks, mark.Valid p.tree) :
      ∀ mark ∈ (b.orderDeclarations settings).value.marks, mark.Valid p.tree := by
    have fitting := b.census_orderDeclarations_le (markCensus_sheds _) assigns settings
    rw [← Block.coe_marks, ← Block.coe_marks] at fitting
    exact fitting known
  refine ⟨.refl _, isScope, ?_⟩
  show ∀ mark ∈ (p.program.orderDeclarations settings).value.marks, mark.Valid p.tree
  unfold Program.orderDeclarations
  split
  · let names : Bond Unit Bool := .alone (fun _ => True) (fun _ _ => True)
      (fun _ mark => mark.Valid p.tree) (fun _ => trivial) (fun _ _ => trivial) (fun _ valid => valid)
    have inStep : InStep names {} (orderInFunctions settings) := {
      leaveFunction := fun fn fn' => by
        intro _ changed _ known
        refine ⟨trivial, trivial, ?_⟩
        obtain ⟨kind, name, params, body, scope, span⟩ := fn'
        show ∀ mark ∈ Function.marks
          ⟨kind, name, params, (body.orderDeclarations settings).value, scope, span⟩, mark.Valid p.tree
        rw [Function.marks, List.forall_mem_append] at known ⊢
        exact ⟨known.1, ordered body known.2⟩ }
    obtain ⟨_, _, valid⟩ := inStep.program p.program () false trivial valid
    rw [Program.marks_eq] at valid ⊢
    exact ordered _ valid
  · exact valid

/-- So do both passes. -/
theorem trims_shrink : p.Trims (p.shrink settings) := by
  unfold BoundProgram.shrink
  split
  · have counted := trims_recount valid
    have ordered := trims_orderDeclarations counted.valid settings
    have simple := trims_simplify ordered.valid settings
    exact ((counted.trans ordered).trans simple).trans (trims_recount simple.valid)
  · exact trims_recount valid

end Steps

end BoundProgram

namespace BoundProgram.IsBound

variable {p : BoundProgram} (bound : p.IsBound) (settings : Settings)
include bound

theorem shrink : (p.shrink settings).IsBound :=
  bound.of_trims (trims_shrink bound.valid settings)

theorem tended_shrink : Tended p.tree (p.shrink settings).tree :=
  (trims_shrink bound.valid settings).tree.toTended

/-- After shrinking, every field that the program mentions has a count. -/
theorem refs_shrink_pos {id : Ident} {f : FieldId} (isUse : id ∈ (p.shrink settings).program.uses)
    (isField : id.field = some f) : 0 < ((p.shrink settings).tree.field f).refs := by
  obtain ⟨q, whole, isBound⟩ : ∃ q : BoundProgram, p.shrink settings = q.recount ∧ q.IsBound := by
    unfold BoundProgram.shrink
    split
    · have counted := trims_recount bound.valid
      have ordered := trims_orderDeclarations counted.valid settings
      have simple := trims_simplify ordered.valid settings
      exact ⟨_, rfl, bound.of_trims ((counted.trans ordered).trans simple)⟩
    · exact ⟨p, rfl, bound⟩
  rw [whole] at isUse ⊢
  have valid := isBound.valid (.use id) ((mem_uses_iff q.program id).mp isUse)
  exact refs_recount_pos isUse isField (valid f isField).1

end BoundProgram.IsBound

end Minifier
