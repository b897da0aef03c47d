import Minifier.Proofs.Scope.Counts
import Minifier.Proofs.Simplify.Hoisted

/-!
# Shrinking a program sustains its declarations

Most rules of simplification drop no declaration but one of several. Two rules ask the scopes first: a
function that nothing mentions goes, and so does a variable whose only mention is where it is returned.
By then the count of the variable has come to nothing (`ScopeTree.IsSpent`), which never happens to a
variable of the program. So the whole walk sustains a declaration or spends the variable
(`Simplify.rules_sustains`).
-/

set_option autoImplicit false

namespace Minifier

/-! ## Rules that ask the scopes -/

namespace ScopeTree

variable {t₀ t : ScopeTree} {name : String} {v : FieldId}

/-- A tree of a given shape has no mention of a variable left, and it is not one of the program. -/
def IsSpent (t₀ : ScopeTree) (v : FieldId) (t : ScopeTree) : Prop :=
  SameShape t₀ t → (t.field v).refs = 0 ∧ (t.scope (t.field v).scope).kind ≠ .global

/-- A change to a tree that adds no mention. -/
structure Lowers (t t' : ScopeTree) : Prop where
  shape : SameShape t t'
  refs : ∀ f, (t'.field f).refs ≤ (t.field f).refs

namespace Lowers

variable {t' t'' : ScopeTree}

theorem refl (t : ScopeTree) : Lowers t t := ⟨.refl t, fun _ => Nat.le_refl _⟩

theorem trans (first : Lowers t t') (second : Lowers t' t'') : Lowers t t'' :=
  ⟨first.shape.trans second.shape, fun f => Nat.le_trans (second.refs f) (first.refs f)⟩

theorem modifyField (t : ScopeTree) (id : FieldId) (f : Field → Field)
    (keeps : ∀ g, (f g).name = g.name ∧ (f g).scope = g.scope ∧ (f g).outer = g.outer ∧ (f g).refs ≤ g.refs) :
    Lowers t (t.modifyField id f) where
  shape := sameShape_modifyField t id f fun g => by simp [keeps g]
  refs g := by
    rw [field_modifyField]
    split
    · exact (keeps _).2.2.2
    · exact Nat.le_refl _

theorem isSpent (lowers : Lowers t t') (spent : IsSpent t₀ v t) : IsSpent t₀ v t' := by
  intro shape
  obtain ⟨none, notGlobal⟩ := spent (shape.trans lowers.shape.symm)
  refine ⟨Nat.le_zero.mp (none ▸ lowers.refs v), ?_⟩
  rwa [lowers.shape.scope, lowers.shape.kind]

end Lowers

theorem lowers_removeRef (t : ScopeTree) (f : FieldId) : Lowers t (t.removeRef f) :=
  relates_foldl .refl .trans (fun t id => .modifyField t id (fun f => { f with refs := f.refs - 1 })
    fun _ => ⟨rfl, rfl, rfl, Nat.sub_le _ _⟩) _ t

theorem lowers_detach (t : ScopeTree) (s : ScopeId) : Lowers t (t.detach s) :=
  relates_foldl .refl .trans (fun t id => ⟨sameShape_modifyScope t id _ fun _ => by simp, fun _ => Nat.le_refl _⟩) _ t

theorem lowers_release (t : ScopeTree) (s : Statement) : Lowers t (t.release s) :=
  (relates_foldl Lowers.refl Lowers.trans lowers_removeRef _ t).trans (relates_foldl .refl .trans lowers_detach _ _)

theorem lowers_dropFunctions (t : ScopeTree) (statements : List Statement) :
    Lowers t (t.dropFunctions statements).2 := by
  induction statements generalizing t with
  | nil => exact .refl t
  | cons s rest ih =>
    rcases t.dropFunctions_cons s rest with ⟨fn, -, -, -, tree⟩ | ⟨-, tree⟩
    · exact tree ▸ (lowers_release t s).trans (ih _)
    · exact tree ▸ ih t

theorem lowers_returnInitializer (t : ScopeTree) (statements : List Statement) :
    Lowers t (t.returnInitializer statements).2 := by
  unfold returnInitializer
  split
  · split
    · rename_i init mention v found
      refine (lowers_removeRef t mention).trans ?_
      exact .modifyField _ v _ fun _ => ⟨rfl, rfl, rfl, Nat.le_refl _⟩
    · exact .refl t
  · exact .refl t

/-- The end of a list that returns a variable as soon as it has its value. -/
structure Returned where
  before : List Statement
  name : Ident
  init : Expr
  mention : Ident
  spans : Span × Span × Span × Span

namespace Returned

def declaration (r : Returned) : Statement := .var ⟨[⟨r.name, some r.init, r.spans.1⟩], r.spans.2.1⟩

def last (r : Returned) : Statement := .returnWith (some ⟨.ident r.mention, r.spans.2.2.1⟩) r.spans.2.2.2

def statements (r : Returned) : List Statement := r.before ++ [r.declaration, r.last]

/-- The mention is the only one of the variable, which only the code around it can see. -/
structure Holds (t : ScopeTree) (r : Returned) (mention v : FieldId) : Prop where
  isMention : r.mention.field = some mention
  behind : t.ultimate mention = v
  isName : ∃ field, r.name.field = some field ∧ t.ultimate field = v
  isPrivate : t.isPrivate (t.field v).scope = true
  only : t.totalRefs v = 1

end Returned

/-- Either nothing is returned at once, or the value takes the place of the variable. -/
theorem returnInitializer_cases (t : ScopeTree) (statements : List Statement) :
    ((t.returnInitializer statements).1.value = statements ∧ (t.returnInitializer statements).2 = t) ∨
    ∃ (r : Returned) (mention v : FieldId), statements = r.statements ∧ r.Holds t mention v ∧
      (t.returnInitializer statements).1.value = r.before ++
        [.returnWith (some r.init) (r.declaration.span.combine r.last.span)] ∧
      (t.returnInitializer statements).2 =
        (t.removeRef mention).modifyField v fun f => { f with isDeclared := false } := by
  unfold returnInitializer
  split
  · rename_i last declaration before reversed
    have whole : statements = before.reverse ++ [declaration, last] := by
      simpa using congrArg List.reverse reversed
    split
    · rename_i init mention v found
      unfold returnedInitializer? at found
      split at found
      · rename_i name value span span' id idSpan span''
        simp only [bind, Option.bind_eq_some_iff] at found
        obtain ⟨m, isMention, field, isField, found⟩ := found
        simp only [Option.ite_none_right_eq_some, Option.some.injEq, Prod.mk.injEq, Bool.and_eq_true,
          decide_eq_true_eq] at found
        obtain ⟨⟨⟨⟨same, -⟩, isPrivate⟩, only⟩, rfl, rfl, rfl⟩ := found
        refine .inr ⟨⟨before.reverse, name, value, id, span, span', idSpan, span''⟩, m, t.ultimate field,
          whole, ⟨isMention, same.symm, ⟨field, isField, rfl⟩, isPrivate, only⟩, rfl, rfl⟩
      · cases found
    · exact .inl ⟨rfl, rfl⟩
  · exact .inl ⟨rfl, rfl⟩

section Spending

variable (ordered : t₀.OutersFirst) (isVariable : (t₀.field v).outer = none)
include ordered isVariable

omit ordered in
/-- A function that goes was the declaration of a variable that nothing mentions. -/
theorem isSpent_of_isUnusedFunction {fn : Function} {id : Ident} (isUnused : t.isUnusedFunction fn = true)
    (isName : id ∈ fn.hoistedName) (isField : id.field = some v) : IsSpent t₀ v t := by
  intro shape
  have isName : fn.name = some id := by
    unfold Function.hoistedName at isName
    split at isName
    · exact Option.mem_toList.mp isName
    · cases isName
  have isVariable' : t.ultimate v = v := by
    rw [shape.ultimate, ultimate_of_variable isVariable]
  simp only [isUnusedFunction, isName, Option.bind_some, isField, Option.any_some, Bool.and_eq_true,
    isPrivate, decide_eq_true_eq, totalRefs, isVariable'] at isUnused
  exact ⟨isUnused.2, isUnused.1.1⟩

omit ordered in
theorem sustains_dropFunctions (t : ScopeTree) (statements : List Statement) :
    Sustains name v (IsSpent t₀ v (t.dropFunctions statements).2)
      (statementCensus hoisting statements)
      (statementCensus hoisting (t.dropFunctions statements).1.value) := by
  induction statements generalizing t with
  | nil => exact .refl _
  | cons s rest ih =>
    rcases t.dropFunctions_cons s rest with ⟨fn, rfl, isUnused, kept, tree⟩ | ⟨kept, tree⟩
    · have goes : Sustains name v (IsSpent t₀ v (t.release (.function fn)))
          ((Statement.function fn).census hoisting) 0 := by
        cases fn
        refine ⟨fun _ mem => (nomatch mem), fun _ has => .inr ?_⟩
        rcases has with ⟨id, mem, -⟩ | ⟨id, mem, isField⟩
        · exact nomatch mem
        · exact (lowers_release t _).isSpent (isSpent_of_isUnusedFunction isVariable isUnused mem isField)
      rw [kept, tree, ← zero_add (statementCensus hoisting (dropFunctions _ rest).1.value)]
      exact goes.add (lowers_dropFunctions _ rest).isSpent (ih _)
    · rw [kept, tree]
      exact (Sustains.refl (s.census hoisting)).add id (ih t)

/-- A variable that is returned at once loses its only mention. -/
theorem Returned.Holds.isSpent {r : Returned} {mention returned : FieldId}
    (holds : r.Holds t mention returned) (isField : r.name.field = some v) : IsSpent t₀ v
      ((t.removeRef mention).modifyField returned fun f => { f with isDeclared := false }) := by
  intro shape
  have lowers : Lowers t
      ((t.removeRef mention).modifyField returned fun f => { f with isDeclared := false }) :=
    (lowers_removeRef t mention).trans (.modifyField _ _ _ fun _ => ⟨rfl, rfl, rfl, Nat.le_refl _⟩)
  have shape' := shape.trans lowers.shape.symm
  have isVariable' := (shape'.outer v).trans isVariable
  obtain rfl : returned = v := by
    obtain ⟨field, isField', behind⟩ := holds.isName
    obtain rfl : field = v := Option.some.inj (isField'.symm.trans isField)
    rw [← behind, ultimate_of_variable isVariable']
  have only : (t.field returned).refs = 1 := by
    simpa only [totalRefs, ultimate_of_variable isVariable'] using holds.only
  have bound : returned < t.fields.size := by
    by_contra out
    rw [field_of_size_le (Nat.le_of_not_lt out)] at only
    cases only
  have ordered' : t.OutersFirst := fun g outer isOuter => ordered g outer (shape'.outer g ▸ isOuter)
  have refs := refs_removeRef ordered' bound isVariable' mention
  rw [if_pos holds.behind, only] at refs
  have notGlobal : (t.scope (t.field returned).scope).kind ≠ .global := by
    have known := holds.isPrivate
    simp only [ScopeTree.isPrivate, Bool.and_eq_true, decide_eq_true_eq] at known
    exact known.1
  constructor
  · rw [field_modifyField]
    split <;> exact refs
  · rwa [lowers.shape.scope, lowers.shape.kind]

theorem sustains_returnInitializer (t : ScopeTree) (statements : List Statement) :
    Sustains name v (IsSpent t₀ v (t.returnInitializer statements).2)
      (statementCensus hoisting statements)
      (statementCensus hoisting (t.returnInitializer statements).1.value) := by
  rcases t.returnInitializer_cases statements with ⟨same, -⟩ | ⟨r, mention, returned, rfl, holds, value, tree⟩
  · rw [same]
    exact .refl _
  · have declared : r.declaration.census hoisting = ({r.name}, 0) := by
      show hoisting.declare r.name + r.init.census hoisting none + 0 = _
      rw [Expr.census_of_silent fun _ _ => rfl, add_zero, add_zero]
      rfl
    have nothing (e : Expr) (span : Span) : (Statement.returnWith (some e) span).census hoisting = 0 :=
      Expr.census_of_silent (fun _ _ => rfl) none e
    have goes : Sustains name v (IsSpent t₀ v ((t.removeRef mention).modifyField returned
        fun f => { f with isDeclared := false })) ({r.name}, 0) 0 := by
      refine ⟨fun _ mem => (nomatch mem), fun fair has => .inr (holds.isSpent ordered isVariable ?_)⟩
      rcases has with ⟨id, mem, isName⟩ | ⟨id, mem, -⟩
      · obtain rfl : id = r.name := Multiset.mem_singleton.mp mem
        exact fair _ mem isName
      · exact nomatch mem
    rw [value, tree, Returned.statements, Returned.last]
    simp only [statementCensus_append, statementCensus, declared, nothing, add_zero]
    simpa using (Sustains.refl (statementCensus hoisting r.before)).add id goes

end Spending

end ScopeTree

/-! ## The rules -/

namespace Simplify

variable {t₀ : ScopeTree} {name : String} {v : FieldId} {given : Prop}

/-- The rules add no mention. -/
def lowering : Law where
  holds _ := True
  grows := ScopeTree.Lowers
  fits _ _ := True
  refl := .refl
  trans first second := first.trans second
  mono _ _ := trivial
  dropFunctions t statements _ _ := ⟨trivial, t.lowers_dropFunctions statements⟩
  returnInitializer t statements _ _ := ⟨trivial, t.lowers_returnInitializer statements⟩

open ScopeTree

/-- The rules sustain a declaration until nothing mentions the variable, and that stays so. -/
theorem rules_sustains (ordered : t₀.OutersFirst) (isVariable : (t₀.field v).outer = none)
    (settings : Settings) (name : String) :
    hoisting.Tracks hoisting (rules settings) fun s a b s' =>
      (IsSpent t₀ v s.tree → IsSpent t₀ v s'.tree) ∧
        Sustains name v (IsSpent t₀ v s'.tree) a b := by
  have fits : Fits settings hoisting hoisting (fun b a => Sustains name v False a b)
      fun t a b t' => (IsSpent t₀ v t → IsSpent t₀ v t') ∧
        Sustains name v (IsSpent t₀ v t') a b := {
    zero := fun _ => ⟨id, .refl _⟩
    add := fun first second => ⟨second.1 ∘ first.1, first.2.add second.1 second.2⟩
    expr := fun _ _ e e' s _ walks => by
      have lowers := ((rules_inStep lowering settings).formOf e.form () s trivial fun _ _ => trivial).2.1
      rw [walks] at lowers
      refine .inr ⟨lowers.isSpent, .of_eq ?_⟩
      rw [Expr.census_of_silent fun _ _ => rfl, Expr.census_of_silent fun _ _ => rfl]
    less := fun known less => ⟨known.1, known.2.trans id (less.trans False.elim (.refl _))⟩
    use := fun _ _ _ => ⟨id, .refl _⟩
    declare := fun _ _ => ⟨id, .refl _⟩
    function := fun fn body s s₁ _ known => by
      obtain ⟨kind, name, params, body', scope, span⟩ := fn
      obtain ⟨-, params', isEnd, -⟩ := functionEnd_cases settings ⟨kind, name, params, body, scope, span⟩ s₁
      rw [isEnd]
      exact ⟨known.1, .refl _⟩
    handler := fun _ _ _ _ _ _ known => known
    withBody := fun _ _ _ _ _ known => known
    dropFunctions := fun {t t' a} l known =>
      have lowers := t'.lowers_dropFunctions l
      ⟨lowers.isSpent ∘ known.1, known.2.trans lowers.isSpent (sustains_dropFunctions isVariable t' l)⟩
    returnInitializer := fun {t t' a} l known =>
      have lowers := t'.lowers_returnInitializer l
      ⟨lowers.isSpent ∘ known.1,
        known.2.trans lowers.isSpent (sustains_returnInitializer ordered isVariable t' l)⟩ }
  exact fits.tracks hoisting_isPlain hoisting_sheds.toSheds

end Simplify

end Minifier
