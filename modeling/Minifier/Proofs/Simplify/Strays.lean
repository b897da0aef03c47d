import Minifier.Proofs.Simplify.Hosted

/-!
# Mentions stay with their declarations

A mention of a variable strays if it is outside the function that the variable belongs to, or if that
function is not as it should be. Binding leaves no strays, and neither does any step by which a program
is made smaller: the order of declarations (`Program.strays_orderDeclarations`), and the rules
(`rules_settle`).

The function of a variable must not be there twice, so functions of its scope are counted too. Outside
of the function there are no mentions, so all counts are still there when the rules come to it.
-/

set_option autoImplicit false

namespace Minifier

open ScopeTree

/-- The mentions and declarations of a variable outside the function of its scope, and that function if
it is not as it should be; and how often the function is there. -/
noncomputable def strays (t₀ : ScopeTree) (v : FieldId) (scope : ScopeId) (good : Function → Prop) :
    Census (ℕ × ℕ) where
  use isCallee id := ((mentionsOf t₀ v).use isCallee id, 0)
  declare id := ((mentionsOf t₀ v).use false id, 0)
  function fn body := open scoped Classical in
    if fn.scope = some scope then (if good fn then 0 else 1, body.2 + 1) else body
  handler _ body := body
  withBody _ body := body

/-- Without strays there come none, and no function of the scope comes in. -/
def FewerStrays (a b : ℕ × ℕ) : Prop := (b.1 = 0 → a.1 = 0) ∧ a.2 ≤ b.2

theorem FewerStrays.refl (a : ℕ × ℕ) : FewerStrays a a := ⟨id, Nat.le_refl _⟩

theorem FewerStrays.trans {a b c : ℕ × ℕ} (first : FewerStrays a b) (second : FewerStrays b c) :
    FewerStrays a c :=
  ⟨first.1 ∘ second.1, first.2.trans second.2⟩

theorem FewerStrays.add {a a' b b' : ℕ × ℕ} (first : FewerStrays a a') (second : FewerStrays b b') :
    FewerStrays (a + b) (a' + b') := by
  refine ⟨fun none => ?_, Nat.add_le_add first.2 second.2⟩
  obtain ⟨none₁, none₂⟩ := Nat.add_eq_zero_iff.mp none
  exact Nat.add_eq_zero_iff.mpr ⟨first.1 none₁, second.1 none₂⟩

theorem FewerStrays.zero (a : ℕ × ℕ) : FewerStrays 0 a := ⟨fun _ => rfl, Nat.zero_le _⟩

section Strays

variable {fn : Function}

variable {t₀ : ScopeTree} {v : FieldId} {scope : ScopeId} {good good' : Function → Prop}

theorem strays_sheds : (strays t₀ v scope good).Sheds FewerStrays where
  refl := .refl
  trans := .trans
  add := .add
  expr _ := .zero _
  again _ := ⟨fun none => (Nat.add_eq_zero_iff.mp none).1, Nat.zero_le _⟩
  handler _ _ _ _ less := less
  withBody _ _ _ less := less
  ofHandler _ _ _ := .refl _
  ofWithBody _ _ _ := .refl _

theorem strays_assigns (id : Ident) :
    FewerStrays ((strays t₀ v scope good).declare id + (strays t₀ v scope good).use false id)
      ((strays t₀ v scope good).declare id) :=
  ⟨fun none => Nat.add_eq_zero_iff.mpr ⟨none, none⟩, Nat.zero_le _⟩

theorem strays_function_of_scope (t₀ : ScopeTree) (v : FieldId) (good : Function → Prop)
    (isScope : fn.scope = some scope) : ((fn.census (strays t₀ v scope good)).1 = 0 ↔ good fn) ∧
      (fn.census (strays t₀ v scope good)).2 = (fn.body.census (strays t₀ v scope good)).2 + 1 := by
  obtain ⟨kind, name, params, body, scope', span⟩ := fn
  obtain rfl : scope' = some scope := isScope
  by_cases isGood : good ⟨kind, name, params, body, some scope, span⟩ <;> simp [strays, isGood]

theorem strays_function_of_ne (other : fn.scope ≠ some scope) :
    fn.census (strays t₀ v scope good) = fn.body.census (strays t₀ v scope good) := by
  obtain ⟨kind, name, params, body, scope', span⟩ := fn
  replace other : scope' ≠ some scope := other
  simp [strays, other]

/-- Where there are no strays, and no function of the scope, there is no mention. -/
theorem strays_relates_mentionsOf : (strays t₀ v scope good).Relates (mentionsOf t₀ v)
    fun a b => a = 0 → b = 0 where
  zero _ := rfl
  add := by
    intro a a₁ b b₁ first second none
    obtain ⟨none₁, none₂⟩ : a = 0 ∧ b = 0 := by
      have := Prod.ext_iff.mp none
      simp only [Prod.fst_add, Prod.snd_add, Prod.fst_zero, Prod.snd_zero, Nat.add_eq_zero_iff] at this
      exact ⟨Prod.ext this.1.1 this.2.1, Prod.ext this.1.2 this.2.2⟩
    rw [first none₁, second none₂]
  use isCallee id none := congrArg Prod.fst none
  declare _ _ := rfl
  function fn known none := by
    rw [← Function.census_eq] at none
    by_cases isScope : fn.scope = some scope
    · have twice := (strays_function_of_scope t₀ v good isScope).2
      rw [none] at twice
      cases twice
    · exact known ((strays_function_of_ne isScope).symm.trans none)
  handler clause known := known
  withBody _ known := known

/-- What holds of a function by its own count, holds by the count of its body. -/
theorem strays_function {fn left : Function} (sameScope : left.scope = fn.scope)
    (better : good fn → good' left)
    (inside : FewerStrays (left.body.census (strays t₀ v scope good'))
      (fn.body.census (strays t₀ v scope good))) :
    FewerStrays (left.census (strays t₀ v scope good')) (fn.census (strays t₀ v scope good)) := by
  by_cases isScope : fn.scope = some scope
  · have before := strays_function_of_scope t₀ v good isScope
    have after := strays_function_of_scope t₀ v good' (sameScope.trans isScope)
    refine ⟨fun none => after.1.mpr (better (before.1.mp none)), ?_⟩
    rw [before.2, after.2]
    exact Nat.succ_le_succ inside.2
  · rw [strays_function_of_ne isScope, strays_function_of_ne (sameScope ▸ isScope)]
    exact inside

/-- Nothing strays that did not, if more functions are as they should be. -/
theorem strays_mono (better : ∀ fn, good fn → good' fn) :
    (strays t₀ v scope good).Relates (strays t₀ v scope good') fun a b => FewerStrays b a where
  zero := .refl _
  add first second := first.add second
  use _ _ := .refl _
  declare _ := .refl _
  function fn known := by
    simp only [← Function.census_eq]
    exact strays_function rfl (better _) known
  handler clause known := known
  withBody _ known := known

/-! ## The order of declarations -/

/-- The order of declarations lets nothing stray, if it turns the function of a variable into one that is
as it should be. -/
theorem orderInFunctions_tracks_strays (settings : Settings)
    (orders : ∀ (fn : Function) body s s₁, good fn → fn.body.walk (orderInFunctions settings) s = (body, s₁) →
      good' { fn with body := (body.orderDeclarations settings).value }) :
    (strays t₀ v scope good).Tracks (strays t₀ v scope good') (orderInFunctions settings)
      fun _ a b _ => FewerStrays b a where
  zero _ := .refl _
  add first second := first.add second
  use _ _ _ := .refl _
  declare _ _ := .refl _
  function fn body s s₁ walks known := by
    refine strays_function rfl (fun isGood => orders fn body _ s₁ isGood walks) ?_
    exact (body.census_orderDeclarations_le strays_sheds strays_assigns settings).trans known
  handler clause body _ _ _ known := by
    cases clause
    exact known
  withBody _ _ _ _ _ _ known := known

variable (t₀ v scope) in
/-- After the declarations are put in order, the function of a variable is in order. -/
theorem Program.strays_orderDeclarations (name : String) (counted : ℕ) (settings : Settings) (p : Program) :
    FewerStrays
      ((p.orderDeclarations settings).value.census (strays t₀ v scope (·.Ordered t₀ v name counted)))
      (p.census (strays t₀ v scope (·.Hosts t₀ v name counted))) := by
  unfold Program.orderDeclarations
  split
  · have tracks : (strays t₀ v scope (·.Hosts t₀ v name counted)).Tracks
        (strays t₀ v scope (·.Ordered t₀ v name counted)) _ _ :=
      orderInFunctions_tracks_strays settings fun _ _ _ _ hosts walks => hosts.orderDeclarations settings walks
    exact (Block.census_orderDeclarations_le strays_sheds strays_assigns settings _).trans
      (tracks.program p false)
  · exact (strays_mono fun fn hosts => hosts.ordered).related p

/-! ## The rules -/

/-- The function of a variable after it was simplified. -/
def Function.Settled (t₀ : ScopeTree) (v : FieldId) (fn : Function) : Prop :=
  fn.Declares v ∨ fn.census (mentionsOf t₀ v) = 0

/-- From a tree of scopes to the next, while a piece of a program is simplified: nothing strays if nothing
did and all mentions are counted. Pieces without the function of the variable leave the count as it is. -/
structure Settles (t₀ : ScopeTree) (v : FieldId) (counted : ℕ) (t : ScopeTree) (a b : ℕ × ℕ)
    (t' : ScopeTree) : Prop where
  shape : SameShape t₀ t'
  owners : b.2 ≤ a.2
  outside : a = 0 → b.1 = 0 ∧ (t.field v).refs ≤ (t'.field v).refs
  inside : a.1 = 0 → a.2 ≤ 1 → counted ≤ (t.field v).refs → b.1 = 0

namespace Settles

variable {counted : ℕ} {t t' t'' : ScopeTree} {a a' b b' : ℕ × ℕ}

theorem of_fewer (shape : SameShape t₀ t) (fewer : FewerStrays b a) :
    Settles t₀ v counted t a b t where
  shape := shape
  owners := fewer.2
  outside none := ⟨fewer.1 (congrArg Prod.fst none), Nat.le_refl _⟩
  inside none _ _ := fewer.1 none

theorem add (first : Settles t₀ v counted t a b t') (second : Settles t₀ v counted t' a' b' t'') :
    Settles t₀ v counted t (a + a') (b + b') t'' := by
  have parts (none : (a + a').1 = 0) : a.1 = 0 ∧ a'.1 = 0 := Nat.add_eq_zero_iff.mp none
  have both (none : b.1 = 0) (none' : b'.1 = 0) : (b + b').1 = 0 := Nat.add_eq_zero_iff.mpr ⟨none, none'⟩
  refine ⟨second.shape, Nat.add_le_add first.owners second.owners, fun none => ?_, fun none once counts => ?_⟩
  · obtain ⟨none₁, none₂⟩ := parts (congrArg Prod.fst none)
    obtain ⟨away₁, away₂⟩ := Nat.add_eq_zero_iff.mp (congrArg Prod.snd none)
    obtain ⟨kept₁, refs₁⟩ := first.outside (Prod.ext none₁ away₁)
    obtain ⟨kept₂, refs₂⟩ := second.outside (Prod.ext none₂ away₂)
    exact ⟨both kept₁ kept₂, refs₁.trans refs₂⟩
  · obtain ⟨none₁, none₂⟩ := parts none
    have once : a.2 + a'.2 ≤ 1 := once
    -- The function is in one of the two pieces at most, and the other one leaves the count alone.
    by_cases away : a.2 = 0
    · obtain ⟨kept, refs⟩ := first.outside (Prod.ext none₁ away)
      exact both kept (second.inside none₂ (by omega) (counts.trans refs))
    · have away' : a'.2 = 0 := by omega
      exact both (first.inside none₁ (by omega) counts) (second.outside (Prod.ext none₂ away')).1

/-- A rule that takes away mentions only where there are some. -/
theorem less (known : Settles t₀ v counted t a b t') (shape : SameShape t₀ t'') (fewer : FewerStrays b' b)
    (counts : b = 0 → (t'.field v).refs ≤ (t''.field v).refs) :
    Settles t₀ v counted t a b' t'' where
  shape := shape
  owners := fewer.2.trans known.owners
  outside none := by
    obtain ⟨noStray, refs⟩ := known.outside none
    refine ⟨fewer.1 noStray, refs.trans (counts (Prod.ext noStray ?_))⟩
    exact Nat.le_zero.mp (known.owners.trans (Nat.le_of_eq (congrArg Prod.snd none)))
  inside none once counts := fewer.1 (known.inside none once counts)

end Settles

theorem strays_functionEnd (good : Function → Prop) (settings : Settings) (fn : Function) (s : Simplify.State) :
    (Simplify.functionEnd settings fn s).1.scope = fn.scope ∧
      (Simplify.functionEnd settings fn s).1.body.census (strays t₀ v scope good) =
        fn.body.census (strays t₀ v scope good) := by
  obtain ⟨-, params, isEnd, -⟩ := Simplify.functionEnd_cases settings fn s
  obtain ⟨_, _, _, ⟨statements, _⟩, _, _⟩ := fn
  rw [isEnd]
  exact ⟨rfl, census_simplifyEnd strays_sheds.toIsPlain settings statements⟩

section Scopes

variable (ordered : t₀.OutersFirst) (bound : v < t₀.fields.size)
  (isVariable : (t₀.field v).outer = none)
include ordered bound isVariable

variable (scope) in
theorem rules_settle (name : String) (counted : ℕ) (settings : Settings) :
    (strays t₀ v scope (·.Ordered t₀ v name counted)).Tracks
      (strays t₀ v scope (·.Settled t₀ v)) (Simplify.rules settings)
      fun s a b s' => SameShape t₀ s.tree → Settles t₀ v counted s.tree a b s'.tree := by
  have noMention (l : List Statement)
      (none : statementCensus (strays t₀ v scope (·.Settled t₀ v)) l = 0) :
      statementCensus (mentionsOf t₀ v) l = 0 :=
    strays_relates_mentionsOf.related_block ⟨l, .synthetic⟩ none
  have fits : Simplify.Fits settings (strays t₀ v scope (·.Ordered t₀ v name counted))
      (strays t₀ v scope (·.Settled t₀ v)) FewerStrays
      fun t a b t' => SameShape t₀ t → Settles t₀ v counted t a b t' := {
    zero := fun _ shape => .of_fewer shape (.refl 0)
    add := fun first second shape => (first shape).add (second (first shape).shape)
    less := fun known fewer shape => (known shape).less (known shape).shape fewer fun _ => Nat.le_refl _
    use := fun _ _ _ shape => .of_fewer shape (.refl _)
    declare := fun _ _ shape => .of_fewer shape (.refl _)
    function := fun fn body s s₁ walks known shape => by
      have known := known shape
      obtain ⟨sameScope, sameBody⟩ := strays_functionEnd (·.Settled t₀ v) settings
        { fn with body } s₁
      by_cases isScope : fn.scope = some scope
      · have before := strays_function_of_scope t₀ v (·.Ordered t₀ v name counted) isScope
        have after := strays_function_of_scope t₀ v (·.Settled t₀ v) (sameScope.trans isScope)
        refine ⟨known.shape, ?_, fun away => ?_, fun none _ counts => ?_⟩
        · rw [before.2, after.2, sameBody]
          exact Nat.succ_le_succ known.owners
        · rw [away] at before
          cases before.2
        · exact after.1.mpr ((before.1.mp none).functionEnd ordered bound isVariable settings shape counts walks)
      · rw [strays_function_of_ne isScope, strays_function_of_ne (sameScope.symm ▸ isScope), sameBody]
        exact known
    handler := fun _ _ _ _ _ _ known => known
    withBody := fun _ _ _ _ _ known => known
    dropFunctions := fun l known shape => by
      have known := known shape
      obtain ⟨shape', -, balance⟩ := balances_dropFunctions ordered bound isVariable l known.shape
      refine known.less shape' (census_dropFunctions_le strays_sheds (fun _ => .zero _) _ l) fun none => ?_
      rw [noMention l none] at balance
      omega
    returnInitializer := fun l known shape => by
      have known := known shape
      obtain ⟨shape', -, balance⟩ := balances_returnInitializer ordered bound isVariable l known.shape
      refine known.less shape' (census_returnInitializer_le strays_sheds (fun _ => .zero _) _ l) fun none => ?_
      rw [noMention l none] at balance
      omega }
  exact fits.tracks strays_sheds.toIsPlain strays_sheds

end Scopes

end Strays

end Minifier
