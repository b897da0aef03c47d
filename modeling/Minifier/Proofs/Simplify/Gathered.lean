import Mathlib.Algebra.GroupWithZero.Nat
import Mathlib.Data.List.TakeWhile
import Minifier.Proofs.Simplify.Layout
import Minifier.Proofs.Simplify.Spending

/-!
# Declarations that were gathered

When the declarations of a function are put in order, a `var` in the midst of its statements may leave
an assignment behind. Its target is a mention that is in no count. All that is known then is that the
other mentions are counted (`weightOf`), and that the list starts with a declaration of the variable
(`Leads`). This is enough: the only rule that could drop that declaration wants it to be returned at
once, by which there is no assignment left (`Simplify.leads_list`).
-/

set_option autoImplicit false

namespace Minifier

open Edited Minifier.Expr Statement Hoisted ScopeTree List

/-! ## Weights -/

/-- What an expression counts but for the names that it assigns to, one after the other. -/
def Expr.beyond (c : Census ℕ) : Expr → ℕ
  | ⟨.binary .comma left right, _⟩ => left.beyond c + right.beyond c
  | ⟨.binary .assign ⟨.ident _, _⟩ value, _⟩ => value.census c none
  | ⟨form, _⟩ => form.census c

/-- What a statement counts but for the names that it assigns to as a whole. -/
def Statement.weight (c : Census ℕ) : Statement → ℕ
  | .expr e => e.beyond c
  | s => s.census c

/-- What the statements of a list weigh. -/
def weightOf (c : Census ℕ) (statements : List Statement) : ℕ := (statements.map (·.weight c)).sum

section Weights

variable {c : Census ℕ}

@[simp] theorem weightOf_nil : weightOf c [] = 0 := rfl

@[simp] theorem weightOf_cons (s : Statement) (rest : List Statement) :
    weightOf c (s :: rest) = s.weight c + weightOf c rest := rfl

@[simp] theorem weightOf_append (a b : List Statement) : weightOf c (a ++ b) = weightOf c a + weightOf c b := by
  simp [weightOf]

@[simp] theorem Statement.weight_expr (e : Expr) : (Statement.expr e).weight c = e.beyond c := rfl

theorem Statement.weight_of_ne {s : Statement} (other : ∀ e, s ≠ .expr e) : s.weight c = s.census c := by
  cases s with
  | expr e => exact absurd rfl (other e)
  | _ => rfl

/-- What an expression counts, by the expressions that it evaluates one after the other. -/
theorem Expr.beyond_induction {motive : Expr → ℕ → Prop}
    (comma : ∀ left right span, motive left (left.beyond c) → motive right (right.beyond c) →
      motive ⟨.binary .comma left right, span⟩ (left.beyond c + right.beyond c))
    (assign : ∀ id idSpan value span,
      motive ⟨.binary .assign ⟨.ident id, idSpan⟩ value, span⟩ (value.census c none))
    (other : ∀ form span, motive ⟨form, span⟩ (form.census c)) (e : Expr) : motive e (e.beyond c) := by
  fun_induction Expr.beyond c e with
  | case1 left right span ihLeft ihRight => exact comma left right span ihLeft ihRight
  | case2 id idSpan value span => exact assign id idSpan value span
  | case3 form span => exact other form span

section Plain

variable (plain : c.IsPlain) (opens : ∀ around e, c.expr? around e = none)
include plain

section Opens

include opens

/-- An expression weighs no more than is in it. -/
theorem Expr.beyond_le (e : Expr) : e.beyond c ≤ e.census c none := by
  refine e.beyond_induction (motive := fun e n => n ≤ e.census c none)
    (fun left right span ihLeft ihRight => ?_) (fun id idSpan value span => ?_) fun form span => ?_
  · have whole := census_binary plain none .comma left right
    rw [census_form opens] at whole ⊢
    exact (Nat.add_le_add ihLeft ihRight).trans_eq whole.symm
  · have whole := census_binary plain none .assign ⟨.ident id, idSpan⟩ value
    rw [census_form opens] at whole
    rw [census_form opens none ⟨_, span⟩]
    exact (Nat.le_add_left _ _).trans_eq whole.symm
  · rw [census_form opens]

theorem Statement.weight_le (s : Statement) : s.weight c ≤ s.census c := by
  cases s with
  | expr e => simpa [plain.line] using e.beyond_le plain opens
  | _ => exact Nat.le_refl _

theorem weightOf_le (statements : List Statement) : weightOf c statements ≤ statementCensus c statements := by
  induction statements with
  | nil => exact Nat.le_refl _
  | cons s rest ih => simpa using Nat.add_le_add (s.weight_le plain opens) ih

/-- Getting rid of negations assigns to the same names. -/
theorem Expr.beyond_reduce_le (short : Bool) (slot : Slot) (condition : Bool) (e : Expr) :
    (e.reduce short slot condition).value.beyond c ≤ e.beyond c := by
  refine e.beyond_induction
    (motive := fun e n => ∀ slot condition, (e.reduce short slot condition).value.beyond c ≤ n)
    (fun left right span ihLeft ihRight _ _ => ?_) (fun id idSpan value span _ _ => ?_)
    (fun form span slot condition => ?_) slot condition
  · exact Nat.add_le_add (ihLeft _ _) (ihRight _ _)
  · exact Nat.le_of_eq (value.census_reduce plain _ _ _)
  · refine (beyond_le plain opens _).trans_eq ?_
    rw [census_reduce plain, census_form opens]

end Opens

omit plain in
/-- Joining `var` statements. -/
theorem weightOf_joinVars (statements : List Statement) :
    weightOf c (joinVars statements).value = weightOf c statements := by
  refine sum_joinNeighbours (fun a b joined found => ?_) statements
  unfold joinVars? at found
  split at found
  · rename_i a b
    cases found
    obtain ⟨decls, span⟩ := a
    obtain ⟨decls', span'⟩ := b
    exact declCensus_append decls decls'
  · cases found

/-- Joining comments. -/
theorem weightOf_joinComments (statements : List Statement) :
    weightOf c (joinComments statements).value = weightOf c statements := by
  refine sum_joinNeighbours (fun a b joined found => ?_) statements
  unfold joinComments? at found
  split at found
  · cases found
    simp [weight_of_ne, plain.inner]
  · cases found

omit plain in
/-- Dropping empty statements. -/
theorem weightOf_dropEmpty_le (statements : List Statement) :
    weightOf c (dropEmpty statements).value ≤ weightOf c statements := by
  simp only [dropEmpty]
  induction statements with
  | nil => exact Nat.le_refl _
  | cons s rest ih =>
    rw [filter_cons, weightOf_cons]
    split
    · rw [weightOf_cons]
      exact Nat.add_le_add_left ih _
    · exact ih.trans (Nat.le_add_left _ _)

/-- What becomes one return was no expression. -/
theorem Statement.weight_foldIfElse {s folded : Statement} (found : s.foldIfElse? = some folded) :
    folded.weight c = s.weight c := by
  have same := census_foldIfElse plain found
  unfold foldIfElse? at found
  split at found
  · obtain ⟨first, -, found⟩ := Option.bind_eq_some_iff.mp found
    obtain ⟨second, -, found⟩ := Option.bind_eq_some_iff.mp found
    cases found
    exact same
  · cases found

theorem Statement.weight_foldPair {s next folded : Statement} (found : s.foldPair? next = some folded) :
    folded.weight c = s.weight c + next.weight c := by
  have same := census_foldPair plain found
  unfold foldPair? at found
  split at found
  · obtain ⟨first, -, found⟩ := Option.bind_eq_some_iff.mp found
    cases found
    exact same
  · cases found

/-- Folding returns. -/
theorem weightOf_foldReturns (settings : Settings) (statements : List Statement) :
    weightOf c (foldReturns settings statements).value = weightOf c statements :=
  sum_foldReturns (weight_foldIfElse plain) (weight_foldPair plain) settings statements

end Plain

/-- Opening blocks. -/
theorem weightOf_unnestAll_le (plain : c.IsPlain) (quiet : ∀ around e, c.expr? around e = none)
    (statements : List Statement) : weightOf c (unnestAll statements) ≤ weightOf c statements := by
  have opens : OpensBlocks fun a b => weightOf c a ≤ weightOf c b := {
    nil := Nat.le_refl _
    append first second := by simpa using Nat.add_le_add first second
    bare _ _ := Nat.le_refl _
    block := fun {a statements span} less => by
      have less' := weightOf_le plain quiet statements
      simpa [weight_of_ne, plain.inner, plain.list] using less.trans less' }
  exact opens.unnestAll statements

section Sheds

variable (sheds : c.Sheds (· ≤ ·)) (opens : ∀ around e, c.expr? around e = none)
include sheds opens

theorem Statement.weightOf_afterJump_le (s : Statement) : weightOf c s.afterJump ≤ s.weight c := by
  have less := (weightOf_le sheds.toIsPlain opens s.afterJump).trans (s.census_afterJump_le sheds)
  cases s with
  | expr e => simp [Statement.afterJump, Statement.survivors, Statement.varDecls, Statement.functionDecls]
  | _ => exact less

/-- Dropping what comes after a jump. -/
theorem weightOf_dropUnreachable_le (statements : List Statement) :
    weightOf c (dropUnreachable statements).1.value ≤ weightOf c statements := by
  have whole := splitAtJump_append statements
  unfold dropUnreachable
  split
  · exact Nat.le_refl _
  · rename_i reached dead _ split
    rw [split] at whole
    rw [← whole]
    have each (dead : List Statement) : weightOf c (dead.flatMap Statement.afterJump) ≤ weightOf c dead := by
      induction dead with
      | nil => exact Nat.le_refl _
      | cons s rest ih => simpa using Nat.add_le_add (s.weightOf_afterJump_le sheds opens) ih
    rw [value_of, weightOf_append, weightOf_append, weightOf_joinVars]
    exact Nat.add_le_add_left (each dead) _

end Sheds

end Weights

section Scopes

variable {t₀ t : ScopeTree} {v : FieldId} (ordered : t₀.OutersFirst)
  (bound : v < t₀.fields.size) (isVariable : (t₀.field v).outer = none)
include ordered bound isVariable

omit ordered bound isVariable in
theorem ScopeTree.Returned.weightOf_statements (r : Returned) :
    weightOf (mentionsOf t₀ v) r.statements =
      weightOf (mentionsOf t₀ v) r.before + r.init.census (mentionsOf t₀ v) none +
        (mentionsOf t₀ v).use false r.mention := by
  simp [Returned.statements, Returned.declaration, Returned.last, weight_of_ne, mentionsOf,
    Nat.add_assoc]

theorem balances_weight_dropFunctions (statements : List Statement) :
    Balances t₀ v t (weightOf (mentionsOf t₀ v) statements)
      (weightOf (mentionsOf t₀ v) (t.dropFunctions statements).1.value)
      (t.dropFunctions statements).2 :=
  balances_sum_dropFunctions ordered bound isVariable (·.weight _) (fun _ => rfl) statements

theorem balances_beyond (settings : Settings) (around : Option Form) (e : Expr) (s : Simplify.State) :
    Balances t₀ v s.tree (e.beyond (mentionsOf t₀ v))
      ((e.walk (Simplify.rules settings) around s).1.beyond (mentionsOf t₀ v))
      (e.walk (Simplify.rules settings) around s).2.tree := by
  have tracks := Simplify.rules_balance ordered bound isVariable settings
  refine e.beyond_induction (motive := fun e n => ∀ around s, Balances t₀ v s.tree n
      ((e.walk (Simplify.rules settings) around s).1.beyond (mentionsOf t₀ v))
      (e.walk (Simplify.rules settings) around s).2.tree)
    (fun left right span ihLeft ihRight around s => ?_) (fun id idSpan value span around s => ?_)
    (fun form span around s => ?_) around s
  · exact (ihLeft _ s).add (ihRight _ _)
  · have whole := tracks.exprOf (.within (.binary .assign ⟨.ident id, idSpan⟩ value) s) value s
    rw [value.census_around mentionsOf_isPlain,
      (Expr.walk _ _ value s).1.census_around mentionsOf_isPlain] at whole
    exact whole
  · -- the rules do not look at what is around an expression
    have whole := tracks.exprOf .top ⟨form, span⟩ s
    rw [census_form fun _ _ => rfl] at whole
    exact whole.trans (.of_le (beyond_le mentionsOf_isPlain (fun _ _ => rfl) _))

theorem balances_weight_statement (settings : Settings) (st : Statement) (s : Simplify.State) :
    Balances t₀ v s.tree (st.weight (mentionsOf t₀ v))
      ((st.walk (Simplify.rules settings) s).1.weight (mentionsOf t₀ v))
      (st.walk (Simplify.rules settings) s).2.tree := by
  have plain : (mentionsOf t₀ v).IsPlain := mentionsOf_isPlain
  by_cases isExpr : ∃ e, st = .expr e
  · obtain ⟨e, rfl⟩ := isExpr
    have reduced (e : Expr) : (settings.reduce .top true e).value.beyond (mentionsOf t₀ v) ≤
        e.beyond (mentionsOf t₀ v) :=
      when_value (fun e' => e'.beyond (mentionsOf t₀ v) ≤ e.beyond (mentionsOf t₀ v))
        _ _ e (Nat.le_refl _) (e.beyond_reduce_le plain (fun _ _ => rfl) _ _ _)
    exact (balances_beyond ordered bound isVariable settings none e s).trans (.of_le (reduced _))
  · rw [weight_of_ne (by simpa using isExpr)]
    have whole := (Simplify.rules_balance ordered bound isVariable settings).statementOf st s
    exact whole.trans (.of_le (weight_le plain (fun _ _ => rfl) _))

/-- The walk over a list. -/
theorem balances_weight (settings : Settings) (statements : List Statement) (s : Simplify.State) :
    Balances t₀ v s.tree (weightOf (mentionsOf t₀ v) statements)
      (weightOf (mentionsOf t₀ v) (walkStatements (Simplify.rules settings) statements s).1)
      (walkStatements (Simplify.rules settings) statements s).2.tree := by
  induction statements generalizing s with
  | nil => exact .of_le (Nat.le_refl _)
  | cons st rest ih => exact (balances_weight_statement ordered bound isVariable settings st s).add (ih _)

end Scopes

/-! ## Lists that start with a declaration -/

/-- A function, a directive or a comment, as may stand before the declarations of a list. -/
def Statement.isLeading : Statement → Bool
  | .function _ | .comment .. => true
  | s => s.isDirective

theorem Statement.isJump_of_isLeading {s : Statement} (isLeading : s.isLeading = true) :
    s.isJump = false := by
  cases s with
  | returnWith | breakTo | continueTo | throw => cases isLeading
  | _ => rfl

/-! Rules for lists go on after a leading statement and leave it where it is. -/

section Leading

variable {s : Statement} {rest : List Statement}

theorem unnestAll_cons (isLeading : s.isLeading = true) : unnestAll (s :: rest) = s :: unnestAll rest := by
  have same : s.unnested = [s] := by
    cases s with
    | block b => cases isLeading
    | _ => rfl
  rw [unnestAll, same, singleton_append]

theorem dropEmpty_cons (isLeading : s.isLeading = true) :
    (dropEmpty (s :: rest)).value = s :: (dropEmpty rest).value := by
  have stays : s.isEmpty = false := by
    cases s with
    | empty span => cases isLeading
    | _ => rfl
  simp [dropEmpty, stays]

theorem dropUnreachable_cons (goesOn : s.isJump = false) :
    (dropUnreachable (s :: rest)).1.value = s :: (dropUnreachable rest).1.value := by
  unfold dropUnreachable
  rw [splitAtJump, if_neg (by simp [goesOn])]
  obtain ⟨reached, _ | _⟩ := splitAtJump rest <;> rfl

/-- Only an `if` is folded with the returns after it. -/
theorem foldReturns_cons (settings : Settings) (other : ∀ test yes no span, s ≠ .ifElse test yes no span) :
    (foldReturns settings (s :: rest)).value = s :: (foldReturns settings rest).value := by
  have alone : s.foldIfElse? = none ∧ ∀ next, s.foldPair? next = none := by
    cases s with
    | ifElse test yes no span => exact absurd rfl (other test yes no span)
    | _ => exact ⟨rfl, fun _ => rfl⟩
  have same : (Edited.when (settings.applies .returnEither) (fun s => .orElse s s.foldIfElse?) s).value = s :=
    when_value (· = s) _ _ s rfl (by rw [alone.1]; rfl)
  simp only [foldReturns, value_bind]
  cases (foldReturns settings rest).value with
  | nil => simp [consReturn, value_bind, same]
  | cons next more => simp [consReturn, value_bind, same, alone.2]

end Leading

/-- The first `var` statement of a list declares a name, and nothing is executed before it. -/
inductive Leads (name : String) : List Statement → Prop
  | here {vars : VarStatement} {rest : List Statement} :
    (∃ d ∈ vars.decls, d.name.name = name) → Leads name (.var vars :: rest)
  | later {s : Statement} {rest : List Statement} : s.isLeading = true → Leads name rest →
    Leads name (s :: rest)

namespace Leads

variable (settings : Settings)

variable {name : String} {statements rest : List Statement} {s : Statement}

theorem cons_cases (leads : Leads name (s :: rest)) :
    (∃ vars, s = .var vars ∧ ∃ d ∈ vars.decls, d.name.name = name) ∨ s.isLeading = true ∧ Leads name rest := by
  cases leads with
  | here declares => exact .inl ⟨_, rfl, declares⟩
  | later isLeading leads => exact .inr ⟨isLeading, leads⟩

variable (leads : Leads name statements)
include leads

theorem append (more : List Statement) : Leads name (statements ++ more) := by
  induction leads with
  | here declares => exact .here declares
  | later isLeading _ ih => exact .later isLeading ih

theorem prepend {front : List Statement} (areLeading : ∀ s ∈ front, s.isLeading = true)
    : Leads name (front ++ statements) := by
  induction front with
  | nil => exact leads
  | cons s front ih =>
    exact .later (areLeading s mem_cons_self) (ih fun s mem => areLeading s (mem_cons_of_mem _ mem))

theorem has (v : FieldId) : (hoistsOf statements).Has name v := by
  suffices ∃ id ∈ (statementCensus hoisting statements).1, id.name = name from
    .inl (this.imp fun _ => And.imp_left mem_vars_hoistsOf.mpr)
  induction leads with
  | @here vars _ declares =>
    obtain ⟨d, mem, isName⟩ := declares
    obtain ⟨decls, span⟩ := vars
    exact ⟨d.name, Multiset.mem_add.mpr (.inl (mem_declCensus_hoisting mem)), isName⟩
  | later _ _ ih =>
    obtain ⟨id, mem, isName⟩ := ih
    exact ⟨id, Multiset.mem_add.mpr (.inr mem), isName⟩

theorem unnestAll : Leads name (unnestAll statements) := by
  induction leads with
  | here declares => exact .here declares
  | later isLeading _ ih =>
    rw [unnestAll_cons isLeading]
    exact .later isLeading ih

theorem dropEmpty : Leads name (dropEmpty statements).value := by
  induction leads with
  | here declares => exact .here declares
  | later isLeading _ ih =>
    rw [dropEmpty_cons isLeading]
    exact .later isLeading ih

theorem dropUnreachable : Leads name (dropUnreachable statements).1.value := by
  induction leads with
  | here declares =>
    rw [dropUnreachable_cons rfl]
    exact .here declares
  | later isLeading _ ih =>
    rw [dropUnreachable_cons (isJump_of_isLeading isLeading)]
    exact .later isLeading ih

/-- Joining neighbours keeps a start that declares a name if joining two statements does. -/
theorem joinNeighbours {join? : Statement → Statement → Option Statement}
    (joins : ∀ a b joined rest, join? a b = some joined → Leads name (a :: b :: rest) →
      Leads name (joined :: rest)) : Leads name (joinNeighbours join? statements).value := by
  have from_ : ∀ rest s, Leads name (s :: rest) → Leads name (joinFrom join? s rest) := by
    intro rest s leads
    fun_induction joinFrom join? s rest with
    | case1 => exact leads
    | case2 s next rest joined found ih => exact ih (joins s next joined rest found leads)
    | case3 s next rest found ih =>
      rcases leads.cons_cases with ⟨vars, rfl, declares⟩ | ⟨isLeading, leads⟩
      · exact .here declares
      · exact .later isLeading (ih leads)
  cases statements with
  | nil => cases leads
  | cons s rest => exact from_ rest s leads

theorem joinVars : Leads name (joinVars statements).value := by
  refine leads.joinNeighbours fun a b joined rest found leads => ?_
  unfold joinVars? at found
  split at found
  · cases found
    rcases leads.cons_cases with ⟨_, ⟨⟩, d, mem, isName⟩ | ⟨isLeading, -⟩
    · exact .here ⟨d, mem_append_left _ mem, isName⟩
    · cases isLeading
  · cases found

theorem joinComments : Leads name (joinComments statements).value := by
  refine leads.joinNeighbours fun a b joined rest found leads => ?_
  unfold joinComments? at found
  split at found
  · cases found
    rcases leads.cons_cases with ⟨_, ⟨⟩, -⟩ | ⟨-, leads⟩
    rcases leads.cons_cases with ⟨_, ⟨⟩, -⟩ | ⟨-, leads⟩
    exact .later rfl leads
  · cases found

theorem dropFunctions (t : ScopeTree) : Leads name (t.dropFunctions statements).1.value := by
  induction leads generalizing t with
  | here declares => exact .here declares
  | @later s rest isLeading _ ih =>
    rcases t.dropFunctions_cons s rest with ⟨_, -, -, kept, -⟩ | ⟨kept, -⟩
    · exact kept ▸ ih _
    · exact kept ▸ .later isLeading (ih t)

theorem foldReturns : Leads name (foldReturns settings statements).value := by
  induction leads with
  | here declares =>
    rw [foldReturns_cons settings (by simp)]
    exact .here declares
  | later isLeading _ ih =>
    rw [foldReturns_cons settings (by rintro _ _ _ _ rfl; cases isLeading)]
    exact .later isLeading ih

omit leads in
/-- The declaration that a list starts with is returned at once only if nothing else is left. -/
theorem returned {r : Returned} (leads : Leads name r.statements) :
    Leads name r.before ∨ (∀ s ∈ r.before, s.isLeading = true) ∧ r.name.name = name := by
  obtain ⟨before, id, init, mention, spans⟩ := r
  induction before with
  | nil =>
    rcases leads.cons_cases with ⟨_, ⟨⟩, d, mem, isName⟩ | ⟨isLeading, -⟩
    · cases mem_singleton.mp mem
      exact .inr ⟨fun _ mem => (nomatch mem), isName⟩
    · cases isLeading
  | cons s before ih =>
    rcases leads.cons_cases with ⟨vars, rfl, declares⟩ | ⟨isLeading, leads⟩
    · exact .inl (.here declares)
    · rcases ih leads with leads | ⟨areLeading, isName⟩
      · exact .inl (.later isLeading leads)
      · exact .inr ⟨forall_mem_cons.mpr ⟨isLeading, areLeading⟩, isName⟩

/-- What a walk over the statements of a list makes of its start. -/
theorem walkStatements (s : Simplify.State) :
    Leads name (walkStatements (Simplify.rules settings) statements s).1 := by
  induction leads generalizing s with
  | @here vars rest declares =>
    obtain ⟨decls, span⟩ := vars
    obtain ⟨d, mem, isName⟩ := declares
    let w := Simplify.rules settings
    have walked (decls : List VarDecl) (s : Simplify.State) :
        (walkDecls w decls s).1.map (·.name) = decls.map (·.name) := by
      induction decls generalizing s with
      | nil => rfl
      | cons d rest ih =>
        obtain ⟨id, init, span⟩ := d
        cases init <;> exact congrArg (List.cons id) (ih _)
    obtain ⟨-, reduced, -⟩ := Simplify.yields_reduceDecls hoisting_isPlain settings
      (walkDecls w decls s).1 (walkDecls w decls s).2
    rw [walked] at reduced
    have mem' := reduced ▸ mem_map_of_mem mem
    obtain ⟨d', isThere, same⟩ := mem_map.mp mem'
    exact .here ⟨d', isThere, (congrArg Ident.name same).trans isName⟩
  | @later st rest isLeading _ ih =>
    refine .later ?_ (ih _)
    cases st with
    | function fn => rfl
    | comment kind text span => rfl
    | expr e =>
      obtain ⟨form, span⟩ := e
      cases form with
      | string value =>
        let e : Expr := ⟨.string value, span⟩
        have same : (settings.reduce .top true e).value = e :=
          when_value (fun e' => e' = e) _ _ e rfl rfl
        exact congrArg (fun e => Statement.isLeading (.expr e)) same
      | _ => cases isLeading
    | _ => cases isLeading

end Leads

/-- Nothing is assigned to before the declarations of a list. -/
theorem statementCensus_of_isLeading {c : Census ℕ} (plain : c.IsPlain)
    (opens : ∀ around e, c.expr? around e = none) {statements : List Statement}
    (areLeading : ∀ s ∈ statements, s.isLeading = true) :
    statementCensus c statements = weightOf c statements := by
  induction statements with
  | nil => rfl
  | cons s rest ih =>
    rw [statementCensus, weightOf_cons, ih fun s mem => areLeading s (mem_cons_of_mem _ mem)]
    have isLeading := areLeading s mem_cons_self
    congr 1
    cases s with
    | expr e =>
      obtain ⟨form, span⟩ := e
      cases form with
      | string value => simp [Expr.beyond, plain.line, opens]
      | _ => cases isLeading
    | _ => rfl

/-! ## Gathering declarations -/

section Gathering

variable {c : Census ℕ} (s : Statement)

variable {t₀ : ScopeTree} {v : FieldId} {name : String}

/-- Whatever is declared as a variable has its name. -/
def Hoisted.Named (t₀ : ScopeTree) (v : FieldId) (name : String) (h : Hoisted) : Prop :=
  ∀ id ∈ h.vars, (mentionsOf t₀ v).use false id ≠ 0 → id.name = name

theorem Expr.beyond_sequence {es : List Expr} {e : Expr} (found : Expr.sequence? es = some e) :
    e.beyond c = (es.map (·.beyond c)).sum := by
  cases es with
  | nil => cases found
  | cons first rest =>
    cases found
    have folds (first : Expr) : (rest.foldl (Expr.binary .comma) first).beyond c =
        first.beyond c + (rest.map (·.beyond c)).sum := by
      induction rest generalizing first with
      | nil => rfl
      | cons next rest ih =>
        rw [foldl_cons, ih, map_cons, sum_cons, ← Nat.add_assoc]
        rfl
    exact folds first

/-- The assignments that a `var` statement leaves behind weigh as much as its initializers. -/
theorem sum_beyond_assignments (silent : ∀ id, c.declare id = 0) (decls : List VarDecl) :
    ((decls.filterMap VarDecl.assignment?).map (·.beyond c)).sum = declCensus c decls := by
  induction decls with
  | nil => rfl
  | cons d rest ih =>
    obtain ⟨id, init, span⟩ := d
    cases init with
    | none =>
      have skips : ((⟨id, none, span⟩ : VarDecl) :: rest).filterMap VarDecl.assignment? =
        rest.filterMap VarDecl.assignment? := rfl
      simpa [skips, silent] using ih
    | some init =>
      have first : Expr.beyond c ⟨.binary .assign ⟨.ident id, id.span⟩ init, span⟩ = init.census c none := rfl
      simp [VarDecl.assignment?, silent, ih, first]

theorem Expr.beyond_span (e : Expr) (span : Span) : Expr.beyond c { e with span } = e.beyond c := by
  obtain ⟨form, span'⟩ := e
  cases form with
  | binary op left right =>
    obtain ⟨leftForm, leftSpan⟩ := left
    cases op with
    | assign => cases leftForm <;> rfl
    | _ => rfl
  | _ => rfl

theorem Statement.staying_of_ne (other : ∀ vars, s ≠ .var vars) : s.staying = [s] := by
  cases s with
  | var vars => exact absurd rfl (other vars)
  | _ => rfl

/-- What stays of a statement whose declarations leave it weighs no more than the statement. -/
theorem Statement.weightOf_staying_le :
    weightOf (mentionsOf t₀ v) s.staying ≤ s.census (mentionsOf t₀ v) := by
  have plain : (mentionsOf t₀ v).IsPlain := mentionsOf_isPlain
  by_cases isVar : ∃ vars, s = .var vars
  · obtain ⟨⟨decls, span⟩, rfl⟩ := isVar
    simp only [Statement.staying]
    split
    · exact Nat.zero_le _
    · split
      · have assigned := sum_beyond_assignments (c := mentionsOf t₀ v) (fun _ => rfl) decls
        cases found : Expr.sequence? (decls.filterMap VarDecl.assignment?) with
        | none => exact Nat.zero_le _
        | some e =>
          rw [← beyond_sequence found] at assigned
          exact Nat.le_of_eq ((e.beyond_span span).trans assigned)
      · exact Nat.le_refl _
  · rw [s.staying_of_ne (by simpa using isVar)]
    exact s.weight_le plain fun _ _ => rfl

/-- If no declaration of a variable leaves a statement, what stays mentions it no more often. -/
theorem Statement.mentionsOf_staying_le {s : Statement}
    (quiet : ∀ d ∈ s.leavingDecls, (mentionsOf t₀ v).use false d.name = 0) :
    statementCensus (mentionsOf t₀ v) s.staying ≤ s.census (mentionsOf t₀ v) := by
  have plain : (mentionsOf t₀ v).IsPlain := mentionsOf_isPlain
  have assigned (decls : List VarDecl) (quiet : ∀ d ∈ decls, (mentionsOf t₀ v).use false d.name = 0) :
      argCensus (mentionsOf t₀ v) .null (decls.filterMap VarDecl.assignment?) =
        declCensus (mentionsOf t₀ v) decls := by
    induction decls with
    | nil => rfl
    | cons d rest ih =>
      have others := ih fun d mem => quiet d (mem_cons_of_mem _ mem)
      have first := quiet d mem_cons_self
      obtain ⟨id, init, span⟩ := d
      cases init with
      | none =>
        have skips : ((⟨id, none, span⟩ : VarDecl) :: rest).filterMap VarDecl.assignment? =
          rest.filterMap VarDecl.assignment? := rfl
        rw [skips, others]
        exact (Nat.zero_add _).symm
      | some init =>
        have target : Expr.census (mentionsOf t₀ v) none ⟨.ident id, id.span⟩ = 0 := first
        have whole := census_span plain (.binary .assign ⟨.ident id, id.span⟩ init) span
        rw [census_binary plain, target, Nat.zero_add,
          ← census_around plain (some .null)] at whole
        have assignment : ((⟨id, some init, span⟩ : VarDecl) :: rest).filterMap VarDecl.assignment? =
          ⟨.binary .assign ⟨.ident id, id.span⟩ init, span⟩ :: rest.filterMap VarDecl.assignment? := rfl
        rw [assignment, argCensus, others]
        exact congrArg (· + _) (whole.trans (Nat.zero_add _).symm)
  by_cases isVar : ∃ vars, s = .var vars
  · obtain ⟨⟨decls, span⟩, rfl⟩ := isVar
    simp only [Statement.leavingDecls] at quiet
    simp only [Statement.staying]
    split at quiet
    · rename_i bare
      rw [if_pos bare]
      exact Nat.zero_le _
    · rename_i bare
      rw [if_neg bare]
      split at quiet
      · rename_i few
        rw [if_pos few]
        have whole := assigned decls fun d mem => quiet d.nameOnly (mem_map_of_mem mem)
        cases found : Expr.sequence? (decls.filterMap VarDecl.assignment?) with
        | none => exact Nat.zero_le _
        | some e =>
          rw [← census_sequence plain .null found, ← census_span plain e span] at whole
          simpa [plain.line] using Nat.le_of_eq whole
      · rename_i many
        rw [if_neg many]
        simp
  · rw [s.staying_of_ne (by simpa using isVar)]
    simp

/-- Either the declarations of a variable that are gathered leave no assignments, or the list starts with
one of them. -/
theorem gatherInto_counts (first : VarStatement) (created : Bool) (rest : List Statement)
    (named : (hoistsOf rest).Named t₀ v name) :
    statementCensus (mentionsOf t₀ v) (gatherInto first created rest).value ≤
        declCensus (mentionsOf t₀ v) first.decls + statementCensus (mentionsOf t₀ v) rest ∨
      Leads name (gatherInto first created rest).value ∧
      weightOf (mentionsOf t₀ v) (gatherInto first created rest).value ≤
        declCensus (mentionsOf t₀ v) first.decls + statementCensus (mentionsOf t₀ v) rest := by
  let leaving := rest.flatMap Statement.leavingDecls
  have bare : ∀ d ∈ leaving, d.init = none := by
    intro d mem
    obtain ⟨s, -, leaves⟩ := mem_flatMap.mp mem
    exact s.bare_leavingDecls d leaves
  have head : declCensus (mentionsOf t₀ v) (leaving.foldl addDecl first.decls) ≤
      declCensus (mentionsOf t₀ v) first.decls := by
    have silent : declCensus (mentionsOf t₀ v) leaving = 0 := by
      generalize leaving = decls at bare
      induction decls with
      | nil => rfl
      | cons d rest ih =>
        have others := ih fun d mem => bare d (mem_cons_of_mem _ mem)
        have none := bare d mem_cons_self
        obtain ⟨id, init, span⟩ := d
        cases none
        exact (Nat.zero_add _).trans others
    exact (declCensus_foldl_addDecl_le mentionsOf_sheds leaving bare first.decls).trans_eq
      (by rw [silent, Nat.add_zero])
  by_cases leaves : ∃ d ∈ leaving, d.name.name = name
  · right
    obtain ⟨d, mem, isName⟩ := leaves
    obtain ⟨d', mem', same⟩ := exists_mem_foldl_addDecl (mem_append_right first.decls mem)
    have stays : ¬ (leaving.foldl addDecl first.decls).isEmpty = true := by
      rw [List.isEmpty_iff]
      exact ne_nil_of_mem mem'
    have rest_le : weightOf (mentionsOf t₀ v) (rest.flatMap Statement.staying) ≤
        statementCensus (mentionsOf t₀ v) rest := by
      clear named leaving bare head mem stays mem'
      induction rest with
      | nil => exact Nat.le_refl _
      | cons s rest ih => simpa using Nat.add_le_add s.weightOf_staying_le ih
    have value : (gatherInto first created rest).value =
        .var { first with decls := leaving.foldl addDecl first.decls } :: rest.flatMap Statement.staying := by
      simp only [gatherInto]
      rw [if_neg stays]
    rw [value]
    exact ⟨.here ⟨d', mem', same.trans isName⟩, Nat.add_le_add head rest_le⟩
  · left
    have quiet : ∀ s ∈ rest, ∀ d ∈ s.leavingDecls, (mentionsOf t₀ v).use false d.name = 0 := by
      intro s isThere d mem
      by_contra isOf
      have left : Sustains name v False _ _ :=
        census_leaving_le hoisting_sheds.toSheds hoisting_assigns s
      have isVar := left.sub d.name (Multiset.mem_add.mpr (.inl (mem_declCensus_hoisting mem)))
      exact leaves ⟨d, mem_flatMap.mpr ⟨s, isThere, mem⟩,
        named d.name (mem_vars_hoistsOf.mpr (mem_statementCensus_hoisting isThere isVar)) isOf⟩
    have rest_le : statementCensus (mentionsOf t₀ v) (rest.flatMap Statement.staying) ≤
        statementCensus (mentionsOf t₀ v) rest := by
      clear named leaving bare head leaves
      induction rest with
      | nil => exact Nat.le_refl _
      | cons s rest ih =>
        have others := ih fun s mem => quiet s (mem_cons_of_mem _ mem)
        simpa using Nat.add_le_add (mentionsOf_staying_le (quiet s mem_cons_self)) others
    simp only [gatherInto]
    split
    · exact rest_le.trans (Nat.le_add_left _ _)
    · exact Nat.add_le_add head rest_le

/-- The functions and comments that a list starts with, and what is gathered after them. -/
theorem gatherVars_counts (index : Nat) (statements : List Statement)
    (areLeading : ∀ s ∈ statements.take index, s.isLeading = true)
    (named : (hoistsOf statements).Named t₀ v name) :
    statementCensus (mentionsOf t₀ v) (gatherVars index statements).value ≤
        statementCensus (mentionsOf t₀ v) statements ∨
      Leads name (gatherVars index statements).value ∧
      weightOf (mentionsOf t₀ v) (gatherVars index statements).value ≤
        statementCensus (mentionsOf t₀ v) statements := by
  unfold gatherVars
  split
  · exact .inl (Nat.le_refl _)
  · have whole : statements = statements.take index ++
        ((statements.drop index).span Statement.isFunction).1 ++
        ((statements.drop index).span Statement.isFunction).2 := by
      simp [span_eq_takeWhile_dropWhile]
    have functions : ∀ s ∈ ((statements.drop index).span Statement.isFunction).1, s.isLeading = true := by
      intro s mem
      rw [span_eq_takeWhile_dropWhile] at mem
      have isFunction := mem_takeWhile_imp mem
      cases s with
      | function fn => rfl
      | _ => cases isFunction
    generalize (statements.drop index).span Statement.isFunction = parts at whole functions ⊢
    obtain ⟨functions_, rest⟩ := parts
    simp only at whole functions ⊢
    have named' : (hoistsOf rest).Named t₀ v name := by
      intro id mem
      refine named id ?_
      rw [mem_vars_hoistsOf] at mem ⊢
      rw [whole, statementCensus_append]
      exact Multiset.mem_add.mpr (.inr mem)
    let front := statements.take index ++ functions_
    have areLeading' : ∀ s ∈ front, s.isLeading = true := fun s mem =>
      (mem_append.mp mem).elim (areLeading s) (functions s)
    have sum : statementCensus (mentionsOf t₀ v) statements =
        statementCensus (mentionsOf t₀ v) front + statementCensus (mentionsOf t₀ v) rest :=
      (congrArg (statementCensus _) whole).trans (statementCensus_append front rest)
    have prepend {gathered : List Statement} (counts : statementCensus (mentionsOf t₀ v) gathered ≤
          statementCensus (mentionsOf t₀ v) rest ∨
        Leads name gathered ∧ weightOf (mentionsOf t₀ v) gathered ≤
          statementCensus (mentionsOf t₀ v) rest) :
        statementCensus (mentionsOf t₀ v) (front ++ gathered) ≤
            statementCensus (mentionsOf t₀ v) statements ∨
          Leads name (front ++ gathered) ∧ weightOf (mentionsOf t₀ v) (front ++ gathered) ≤
            statementCensus (mentionsOf t₀ v) statements := by
      rw [sum, statementCensus_append, weightOf_append]
      refine counts.imp (Nat.add_le_add_left · _) fun ⟨leads, less⟩ => ⟨leads.prepend areLeading', ?_⟩
      exact Nat.add_le_add (weightOf_le mentionsOf_isPlain (fun _ _ => rfl) front) less
    refine prepend ?_
    split
    · rename_i first rest
      obtain ⟨decls, span⟩ := first
      refine gatherInto_counts ⟨decls, span⟩ false rest fun id mem => named' id ?_
      rw [mem_vars_hoistsOf] at mem ⊢
      exact Multiset.mem_add.mpr (.inr mem)
    · simpa using gatherInto_counts ⟨[], .synthetic⟩ true rest named'

/-- What stands before the declarations of a list. -/
theorem Block.mem_take_insertionPoint {b : Block} {s : Statement}
    (mem : s ∈ b.statements.take b.insertionPoint) : s.isLeading = true ∧ s.isFunction = false := by
  unfold insertionPoint at mem
  rw [← prefix_iff_eq_take.mp (List.takeWhile_prefix _)] at mem
  have known := mem_takeWhile_imp mem
  cases s with
  | expr e => exact ⟨by simpa [Statement.isLeading] using known, rfl⟩
  | comment kind text span => exact ⟨rfl, rfl⟩
  | _ => cases known

theorem Block.length_take_insertionPoint (b : Block) :
    (b.statements.take b.insertionPoint).length = b.insertionPoint := by
  unfold insertionPoint
  rw [← prefix_iff_eq_take.mp (List.takeWhile_prefix _)]

/-- Moving the functions of a list leaves what stands before them. -/
theorem Block.take_hoistFunctions (b : Block) :
    (hoistFunctions b.insertionPoint b.statements).value.take b.insertionPoint =
      b.statements.take b.insertionPoint := by
  have length := b.length_take_insertionPoint
  have others : ∀ s ∈ b.statements.take b.insertionPoint, s.isFunction = false :=
    fun s mem => (mem_take_insertionPoint mem).2
  have whole := take_append_drop b.insertionPoint b.statements
  generalize b.insertionPoint = index at *
  generalize b.statements.take index = top at *
  generalize b.statements.drop index = bottom at *
  unfold hoistFunctions
  split
  · rw [← whole, ← length, value_pure, take_left]
  · simp only [partition_eq_filter_filter, value_of]
    have kept : top.filter (not ∘ Statement.isFunction) = top :=
      filter_eq_self.mpr fun s mem => by simp [others s mem]
    rw [← whole, filter_append, kept, ← length, take_left, append_assoc, take_left]

/-- The order of declarations leaves the mentions of a variable as they are, but for assignments after a
declaration that the list starts with. -/
theorem Block.counts_orderDeclarations (settings : Settings) (b : Block)
    (named : (hoistsOf b.statements).Named t₀ v name) :
    statementCensus (mentionsOf t₀ v) (b.orderDeclarations settings).value.statements ≤
        statementCensus (mentionsOf t₀ v) b.statements ∨
      Leads name (b.orderDeclarations settings).value.statements ∧
      weightOf (mentionsOf t₀ v) (b.orderDeclarations settings).value.statements ≤
        statementCensus (mentionsOf t₀ v) b.statements := by
  let Same (l : List Statement) : Prop :=
    statementCensus hoisting l = statementCensus hoisting b.statements ∧
    statementCensus (mentionsOf t₀ v) l = statementCensus (mentionsOf t₀ v) b.statements
  refine b.orderDeclarations_steps settings Same
    (fun index l => Same l ∧ ∀ s ∈ l.take index, s.isLeading = true)
    (fun l => statementCensus (mentionsOf t₀ v) l ≤ _ ∨
      Leads name l ∧ weightOf (mentionsOf t₀ v) l ≤ _)
    (when_value Same _ _ _ ⟨rfl, rfl⟩
      ⟨statementCensus_unnestAll hoisting_isPlain _, statementCensus_unnestAll mentionsOf_isPlain _⟩)
    (fun l same => ⟨(statementCensus_joinVars l).trans same.1, (statementCensus_joinVars l).trans same.2⟩)
    (fun l index isIndex same => ?_) fun index l ⟨same, areLeading⟩ => ?_
  · have areLeading : ∀ s ∈ l.take index, s.isLeading = true := by
      rw [← isIndex]
      exact fun s mem => (Block.mem_take_insertionPoint (b := ⟨l, b.span⟩) mem).1
    have perm := perm_hoistFunctions index l
    refine ⟨⟨same, areLeading⟩, fun _ => ⟨⟨(statementCensus_perm perm).trans same.1,
      (statementCensus_perm perm).trans same.2⟩, ?_⟩⟩
    have top := Block.take_hoistFunctions ⟨l, b.span⟩
    rw [isIndex] at top
    rwa [top]
  · have named' : (hoistsOf l).Named t₀ v name := by
      intro id mem
      rw [mem_vars_hoistsOf, same.1] at mem
      exact named id (mem_vars_hoistsOf.mpr mem)
    rw [← same.2]
    exact ⟨.inl (Nat.le_refl _), gatherVars_counts index l areLeading named'⟩

end Gathering

/-! ## The end of a list -/

namespace Simplify

variable {l : List Statement}

variable {t₀ : ScopeTree} {v : FieldId} {name : String} (ordered : t₀.OutersFirst)
  (bound : v < t₀.fields.size) (isVariable : (t₀.field v).outer = none)

/-- A list starts with a declaration of a variable, all mentions of which are counted but for those that
are assigned to; or there are no mentions left. -/
structure Keeps (t₀ : ScopeTree) (v : FieldId) (name : String) (t : ScopeTree) (l : List Statement) :
    Prop where
  shape : SameShape t₀ t
  fair : (hoistsOf l).Fair name v
  known : Leads name l ∧ weightOf (mentionsOf t₀ v) l ≤ (t.field v).refs ∨
    statementCensus (mentionsOf t₀ v) l = 0

include ordered bound isVariable

/-- Returning a value at once. -/
theorem keeps_returnInitializer {t : ScopeTree} (keeps : Keeps t₀ v name t l) :
    Keeps t₀ v name (t.returnInitializer l).2 (t.returnInitializer l).1.value := by
  have balances := balances_returnInitializer ordered bound isVariable (t := t) l
  have plain : (mentionsOf t₀ v).IsPlain := mentionsOf_isPlain
  refine ⟨keeps.shape.trans (t.lowers_returnInitializer l).shape,
    (sustains_returnInitializer ordered isVariable t l).fair keeps.fair, ?_⟩
  rcases keeps.known with ⟨leads, less⟩ | none
  · rcases t.returnInitializer_cases l with ⟨same, tree⟩ | ⟨r, mention, returned, rfl, holds, value, tree⟩
    · rw [same, tree]
      exact .inl ⟨leads, less⟩
    · have balance := (balances keeps.shape).2.2
      rw [value, statementCensus_append, r.mentionsOf_statements] at balance
      rw [Returned.weightOf_statements] at less
      rw [value]
      rcases leads.returned with leads | ⟨areLeading, isName⟩
      · left
        refine ⟨leads.append _, ?_⟩
        simp [weight_of_ne, plain.inner] at balance ⊢
        omega
      · right
        -- the declaration is the one that the list starts with, and the counted mention its own
        have isField : r.name.field = some v := by
          refine keeps.fair r.name (mem_vars_hoistsOf.mpr ?_) isName
          exact mem_statementCensus_hoisting (s := r.declaration)
            (mem_append_right _ mem_cons_self) (mem_declCensus_hoisting mem_cons_self)
        obtain ⟨isMention, only⟩ := holds.of_isField (keeps.shape) isVariable isField
        rw [isMention] at less
        rw [statementCensus_append, statementCensus_of_isLeading plain (fun _ _ => rfl) areLeading]
        simp [plain.inner]
        omega
  · exact .inr (Nat.le_zero.mp (none ▸ balances.le keeps.shape))

/-- All rules for a list. -/
theorem keeps_list (settings : Settings) {s : State} (keeps : Keeps t₀ v name s.tree l) :
    Keeps t₀ v name (list settings l s).2.tree (list settings l s).1 := by
  have plain : (mentionsOf t₀ v).IsPlain := mentionsOf_isPlain
  have sheds : (mentionsOf t₀ v).Sheds (· ≤ ·) := mentionsOf_sheds
  refine list_induct (motive := Keeps t₀ v name) ?_ ?_ ?_ ?_ ?_ ?_ ?_ ?_ settings l s keeps
  · intro t l keeps
    refine ⟨keeps.shape, Sustains.fair_of_eq (statementCensus_unnestAll hoisting_isPlain l) keeps.fair,
      keeps.known.imp ?_ ?_⟩
    · exact fun ⟨leads, less⟩ => ⟨leads.unnestAll, (weightOf_unnestAll_le plain (fun _ _ => rfl) l).trans less⟩
    · exact fun none => (statementCensus_unnestAll plain l).trans none
  · intro t l keeps
    refine ⟨keeps.shape, Sustains.fair_of_eq (statementCensus_dropEmpty hoisting_isPlain l) keeps.fair,
      keeps.known.imp ?_ ?_⟩
    · exact fun ⟨leads, less⟩ => ⟨leads.dropEmpty, (weightOf_dropEmpty_le l).trans less⟩
    · exact fun none => (statementCensus_dropEmpty plain l).trans none
  · intro t l keeps
    have sustains : Sustains name v False _ _ := census_dropUnreachable_le hoisting_sheds.toSheds l
    refine ⟨keeps.shape, sustains.fair keeps.fair, keeps.known.imp ?_ ?_⟩
    · exact fun ⟨leads, less⟩ => ⟨leads.dropUnreachable, (weightOf_dropUnreachable_le sheds (fun _ _ => rfl) l).trans less⟩
    · exact fun none => Nat.le_zero.mp ((census_dropUnreachable_le sheds l).trans_eq none)
  · intro t l keeps
    refine ⟨keeps.shape, Sustains.fair_of_eq (statementCensus_joinVars l) keeps.fair,
      keeps.known.imp ?_ ?_⟩
    · exact fun ⟨leads, less⟩ => ⟨leads.joinVars, (weightOf_joinVars l).trans_le less⟩
    · exact fun none => (statementCensus_joinVars l).trans none
  · intro t l keeps
    refine ⟨keeps.shape, Sustains.fair_of_eq (statementCensus_joinComments hoisting_isPlain l) keeps.fair,
      keeps.known.imp ?_ ?_⟩
    · exact fun ⟨leads, less⟩ => ⟨leads.joinComments, (weightOf_joinComments plain l).trans_le less⟩
    · exact fun none => (statementCensus_joinComments plain l).trans none
  · intro t l keeps
    have lowers := t.lowers_dropFunctions l
    have balance := (balances_weight_dropFunctions ordered bound isVariable (t := t) l keeps.shape).2.2
    have fewer := (balances_dropFunctions ordered bound isVariable (t := t) l).le keeps.shape
    refine ⟨keeps.shape.trans lowers.shape, (sustains_dropFunctions isVariable t l).fair keeps.fair,
      keeps.known.imp ?_ ?_⟩
    · exact fun ⟨leads, less⟩ => ⟨leads.dropFunctions t, by omega⟩
    · exact fun none => Nat.le_zero.mp (fewer.trans_eq none)
  · exact fun t l keeps => keeps_returnInitializer ordered bound isVariable keeps
  · intro settings t l keeps
    refine ⟨keeps.shape, Sustains.fair_of_eq (census_foldReturns hoisting_isPlain settings l) keeps.fair,
      keeps.known.imp ?_ ?_⟩
    · exact fun ⟨leads, less⟩ => ⟨leads.foldReturns settings, (weightOf_foldReturns plain settings l).trans_le less⟩
    · exact fun none => (census_foldReturns plain settings l).trans none

end Simplify

end Minifier
