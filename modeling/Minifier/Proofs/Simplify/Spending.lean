import Mathlib.Algebra.GroupWithZero.Nat
import Minifier.Proofs.Simplify.Sustained
import Minifier.Proofs.Syntax.Mentions

/-!
# Counts while a program is simplified

The rules that ask the scopes go by counts of mentions. A function that is dropped takes its mentions
with it, so a count falls by no more than what is gone from the program (`Simplify.rules_balance`): a
variable that has no more counts than mentions never has fewer.

The order of declarations leaves assignments behind, and their mentions are in no count. What is
known of a list then is that all mentions but these are counted (`weightOf`), and that the list starts
with a declaration of the variable (`Leads`).
-/

set_option autoImplicit false

namespace Minifier

open ScopeTree

/-! ## Mentions of one variable -/

/-- How often a variable is mentioned in a tree. -/
def mentionsOf (t : ScopeTree) (v : FieldId) : Census ℕ where
  use _ id := if id.field.any fun f => t.ultimate f = v then 1 else 0
  declare _ := 0
  function _ body := body
  handler _ body := body
  withBody _ body := body

variable {t₀ t t' t'' : ScopeTree} {v : FieldId}

theorem mentionsOf_sheds : (mentionsOf t₀ v).Sheds (· ≤ ·) where
  refl := Nat.le_refl
  trans := Nat.le_trans
  add := Nat.add_le_add
  expr _ := Nat.zero_le _
  again _ := Nat.zero_le _
  handler _ _ _ _ less := less
  withBody _ _ _ less := less
  ofHandler _ _ _ := Nat.le_refl _
  ofWithBody _ _ _ := Nat.le_refl _

theorem mentionsOf_isPlain : (mentionsOf t₀ v).IsPlain := mentionsOf_sheds.toIsPlain

theorem Block.mentionsOf_eq (b : Block) :
    b.census (mentionsOf t₀ v) = statementCensus (mentionsOf t₀ v) b.statements := by
  cases b
  rfl

theorem Function.mentionsOf_eq (fn : Function) :
    fn.census (mentionsOf t₀ v) = statementCensus (mentionsOf t₀ v) fn.body.statements := by
  obtain ⟨_, _, _, body, _, _⟩ := fn
  exact body.mentionsOf_eq

theorem mentions_relates_mentionsOf : mentions.Relates (mentionsOf t₀ v)
    fun a b => b = a.countP (t₀.ultimate · = v) where
  zero := rfl
  add := by
    intro a a₁ b b₁ first second
    rw [Multiset.countP_add, first, second]
  use isCallee id := by
    obtain ⟨name, span, field⟩ := id
    cases field with
    | none => rfl
    | some f =>
      show (if decide (t₀.ultimate f = v) then 1 else 0) = Multiset.countP _ {f}
      by_cases same : t₀.ultimate f = v <;> simp [← Multiset.cons_zero, same]
  declare id := rfl
  function fn same := same
  handler clause same := same
  withBody _ same := same

theorem Statement.mentionsOf_eq (s : Statement) : s.census (mentionsOf t₀ v) =
      ((s.nodes.filterMap Node.use?).filterMap (·.field)).countP (t₀.ultimate · = v) := by
  rw [mentions_relates_mentionsOf.related_statement s, ← s.coe_mentions, Multiset.coe_countP]

/-! ## Balances -/

/-- From a tree of scopes to the next, while some mentions of a variable become fewer: the count of the
variable falls by no more than its mentions do. -/
def Balances (t₀ : ScopeTree) (v : FieldId) (t : ScopeTree) (a b : ℕ) (t' : ScopeTree) : Prop :=
  SameShape t₀ t → SameShape t₀ t' ∧ (t'.field v).refs ≤ (t.field v).refs ∧
    (t.field v).refs + b ≤ (t'.field v).refs + a

namespace Balances

variable {a a' b b' c : ℕ}

theorem of_le (less : b ≤ a) : Balances t₀ v t a b t :=
  fun shape => ⟨shape, Nat.le_refl _, Nat.add_le_add_left less _⟩

theorem trans (first : Balances t₀ v t a b t') (second : Balances t₀ v t' b c t'') :
    Balances t₀ v t a c t'' := by
  intro shape
  obtain ⟨shape', lower, balance⟩ := first shape
  obtain ⟨shape'', lower', balance'⟩ := second shape'
  exact ⟨shape'', by omega, by omega⟩

theorem add (first : Balances t₀ v t a b t') (second : Balances t₀ v t' a' b' t'') :
    Balances t₀ v t (a + a') (b + b') t'' := by
  intro shape
  obtain ⟨shape', lower, balance⟩ := first shape
  obtain ⟨shape'', lower', balance'⟩ := second shape'
  exact ⟨shape'', by omega, by omega⟩

theorem le (balances : Balances t₀ v t a b t') (shape : SameShape t₀ t) : b ≤ a := by
  obtain ⟨-, lower, balance⟩ := balances shape
  omega

end Balances

theorem field_foldl_detach (l : List ScopeId) (t : ScopeTree) (f : FieldId) :
    (l.foldl detach t).field f = t.field f := by
  have marked (l : List ScopeId) (t : ScopeTree) : (l.foldl (fun t id => t.modifyScope id fun s =>
      { s with isDetached := true }) t).field f = t.field f := by
    induction l generalizing t with
    | nil => rfl
    | cons s l ih => exact ih _
  induction l generalizing t with
  | nil => rfl
  | cons s l ih => exact (ih _).trans (marked _ t)

theorem ScopeTree.Returned.mentionsOf_statements (r : Returned) :
    statementCensus (mentionsOf t₀ v) r.statements =
      statementCensus (mentionsOf t₀ v) r.before + r.init.census (mentionsOf t₀ v) none +
        (mentionsOf t₀ v).use false r.mention := by
  rw [Returned.statements, statementCensus_append]
  simp [Returned.declaration, Returned.last, mentionsOf, Nat.add_assoc]

/-- The variable that is returned at once is mentioned there, and nowhere else. -/
theorem ScopeTree.Returned.Holds.of_isField {r : Returned} {mention returned : FieldId}
    (holds : r.Holds t mention returned) (shape : SameShape t₀ t)
    (isVariable : (t₀.field v).outer = none) (isField : r.name.field = some v) :
    (mentionsOf t₀ v).use false r.mention = 1 ∧ (t.field v).refs = 1 := by
  have isVariable' := (shape.outer v).trans isVariable
  obtain ⟨field, isField', behind⟩ := holds.isName
  obtain rfl : field = v := Option.some.inj (isField'.symm.trans isField)
  rw [ultimate_of_variable isVariable'] at behind
  obtain rfl : field = returned := behind
  have mentioned := holds.behind
  have only := holds.only
  rw [shape.ultimate] at mentioned
  rw [totalRefs, ultimate_of_variable isVariable'] at only
  exact ⟨by simp [mentionsOf, holds.isMention, mentioned], only⟩

section Scopes

variable (ordered : t₀.OutersFirst) (bound : v < t₀.fields.size)
  (isVariable : (t₀.field v).outer = none)
include ordered bound isVariable

theorem refs_removeRef_of_shape (shape : SameShape t₀ t) (f : FieldId) :
    ((t.removeRef f).field v).refs = (t.field v).refs - if t₀.ultimate f = v then 1 else 0 := by
  have ordered' : t.OutersFirst := fun g outer isOuter => ordered g outer (shape.outer g ▸ isOuter)
  rw [refs_removeRef ordered' (shape.fields_size ▸ bound) ((shape.outer _).trans isVariable),
    shape.ultimate]

theorem balances_removeRef (f : FieldId) :
    Balances t₀ v t (if t₀.ultimate f = v then 1 else 0) 0 (t.removeRef f) := by
  intro shape
  have refs := refs_removeRef_of_shape ordered bound isVariable shape f
  exact ⟨shape.trans (lowers_removeRef t f).shape, (lowers_removeRef t f).refs _, by omega⟩

theorem balances_release (s : Statement) :
    Balances t₀ v t (s.census (mentionsOf t₀ v)) 0 (t.release s) := by
  rw [s.mentionsOf_eq]
  have removed (l : List FieldId) (t : ScopeTree) :
      Balances t₀ v t (l.countP (t₀.ultimate · = v)) 0 (l.foldl removeRef t) := by
    induction l generalizing t with
    | nil => exact .of_le (Nat.le_refl _)
    | cons f l ih =>
      have first := (balances_removeRef ordered bound isVariable (t := t) f).add (ih (t.removeRef f))
      rw [List.countP_cons, Nat.add_comm]
      simpa using first
  have detached (l : List ScopeId) (t : ScopeTree) : Balances t₀ v t 0 0 (l.foldl detach t) := by
    intro shape
    have lowers := relates_foldl Lowers.refl Lowers.trans lowers_detach l t
    have same := field_foldl_detach l t v
    exact ⟨shape.trans lowers.shape, lowers.refs _, by rw [same]⟩
  exact (removed _ t).trans (detached _ _)

/-- Dropping functions balances every total in which a function counts for its mentions. -/
theorem balances_sum_dropFunctions (value : Statement → ℕ)
    (isCensus : ∀ fn, value (.function fn) = (Statement.function fn).census (mentionsOf t₀ v))
    (statements : List Statement) : Balances t₀ v t (statements.map value).sum
      ((t.dropFunctions statements).1.value.map value).sum (t.dropFunctions statements).2 := by
  induction statements generalizing t with
  | nil => exact .of_le (Nat.le_refl _)
  | cons s rest ih =>
    rcases t.dropFunctions_cons s rest with ⟨fn, rfl, -, kept, tree⟩ | ⟨kept, tree⟩
    · rw [kept, tree, List.map_cons, List.sum_cons, isCensus,
        ← Nat.zero_add (List.sum (List.map value (dropFunctions _ rest).1.value))]
      exact (balances_release ordered bound isVariable (.function fn)).add ih
    · rw [kept, tree]
      exact (Balances.of_le (Nat.le_refl _)).add ih

theorem balances_dropFunctions (statements : List Statement) :
    Balances t₀ v t (statementCensus (mentionsOf t₀ v) statements)
      (statementCensus (mentionsOf t₀ v) (t.dropFunctions statements).1.value)
      (t.dropFunctions statements).2 := by
  rw [statementCensus_eq_sum, statementCensus_eq_sum]
  exact balances_sum_dropFunctions ordered bound isVariable _ (fun _ => rfl) statements

theorem balances_returnInitializer (statements : List Statement) :
    Balances t₀ v t (statementCensus (mentionsOf t₀ v) statements)
      (statementCensus (mentionsOf t₀ v) (t.returnInitializer statements).1.value)
      (t.returnInitializer statements).2 := by
  rcases t.returnInitializer_cases statements with ⟨same, tree⟩ | ⟨r, mention, returned, rfl, holds, value, tree⟩
  · rw [same, tree]
    exact .of_le (Nat.le_refl _)
  · have removed := balances_removeRef ordered bound isVariable (t := t) mention
    have marked : Balances t₀ v (t.removeRef mention) 0 0
        ((t.removeRef mention).modifyField returned fun f => { f with isDeclared := false }) := by
      intro shape
      have lowers : Lowers (t.removeRef mention) _ := .modifyField _ returned
        (fun f => { f with isDeclared := false }) fun _ => ⟨rfl, rfl, rfl, Nat.le_refl _⟩
      refine ⟨shape.trans lowers.shape, lowers.refs _, ?_⟩
      rw [field_modifyField]
      split <;> exact Nat.le_refl _
    have kept : Balances t₀ v t (statementCensus (mentionsOf t₀ v) r.before +
        r.init.census (mentionsOf t₀ v) none) _ t := .of_le (Nat.le_refl _)
    have whole := kept.add (removed.trans marked)
    have isUse : (mentionsOf t₀ v).use false r.mention =
        if t₀.ultimate mention = v then 1 else 0 := by
      simp [mentionsOf, holds.isMention]
    rw [value, tree, r.mentionsOf_statements, isUse]
    simpa [mentionsOf] using whole


/-! ## The rules -/

omit ordered bound isVariable in
theorem Function.mentionsOf_functionEnd (settings : Settings) (fn : Function) (s : Simplify.State) :
    (Simplify.functionEnd settings fn s).1.census (mentionsOf t₀ v) =
      fn.census (mentionsOf t₀ v) := by
  obtain ⟨kind, name, params', ⟨statements, bodySpan⟩, scope, span⟩ := fn
  obtain ⟨-, params, isEnd, -⟩ := Simplify.functionEnd_cases settings
    ⟨kind, name, params', ⟨statements, bodySpan⟩, scope, span⟩ s
  rw [isEnd]
  exact census_simplifyEnd mentionsOf_isPlain settings statements

/-- While a program is simplified, the count of a variable falls by no more than its mentions. -/
theorem Simplify.rules_balance (settings : Settings) :
    (mentionsOf t₀ v).Tracks (mentionsOf t₀ v) (rules settings)
      fun s a b s' => Balances t₀ v s.tree a b s'.tree := by
  have fits : Fits settings (mentionsOf t₀ v) (mentionsOf t₀ v) (· ≤ ·) (Balances t₀ v) := {
    zero := fun _ => .of_le (Nat.le_refl _)
    add := fun first second => first.add second
    less := fun known less => known.trans (.of_le less)
    use := fun _ _ _ => .of_le (Nat.le_refl _)
    declare := fun _ _ => .of_le (Nat.le_refl _)
    function := fun fn body s s₁ _ balances => by
      rw [Function.mentionsOf_functionEnd]
      cases fn
      exact balances
    handler := fun _ _ _ _ _ _ balances => balances
    withBody := fun _ _ _ _ _ balances => balances
    dropFunctions := fun l known => known.trans (balances_dropFunctions ordered bound isVariable l)
    returnInitializer := fun l known => known.trans (balances_returnInitializer ordered bound isVariable l) }
  exact fits.tracks mentionsOf_isPlain mentionsOf_sheds

end Scopes

end Minifier
