import Mathlib.Algebra.Group.Basic
import Mathlib.Data.List.TakeDrop
import Minifier.DeclarationOrder
import Minifier.Proofs.Syntax.Census
import Minifier.Simplify.Pass

/-!
# What rewriting leaves of a tree

The rules move parts of a tree and drop some, but they copy none. So by a census that does not mind
what is dropped, a tree comes to no more after a rule than before it. What such a census has to put
up with (`Census.Sheds`) is little: that an expression goes, that a name is declared once and not
twice, and that a declaration leaves a `catch` clause or a `with` body. "No more" is any relation
that sums respect, so the same statements bound from above how often something is in a tree, and
from below which names a tree declares.

The rules that ask the scopes drop declarations too; what is said of them is in their section.
-/

set_option autoImplicit false

namespace Minifier

open Edited

open List hiding get

namespace Edited

variable {α β : Type}

/-- What an edit after an edit gives. -/
@[simp] theorem value_pure (a : α) : (pure a : Edited α).value = a := rfl
@[simp] theorem value_bind (x : Edited α) (f : α → Edited β) :
    (x >>= f).value = (f x.value).value := rfl
@[simp] theorem value_of (a : α) : (of a).value = a := rfl

/-- What a rule keeps is kept whether or not the rule is applied. -/
theorem when_value (motive : α → Prop) (applies : Bool) (rule : α → Edited α) (a : α)
    (whole : motive a) (rewritten : motive (rule a).value) :
    motive (Edited.when applies rule a).value := by
  unfold Edited.when
  split
  · exact rewritten
  · exact whole

end Edited

variable {M : Type}

/-- A census that has nothing to say but of names and of what opens a scope. It may pass over
expressions altogether. -/
structure Census.IsPlain [AddMonoid M] (c : Census M) : Prop where
  expr? : (∀ around e, c.expr? around e = none) ∨
      (∀ around e, c.expr? around e = some 0) ∧ ∀ isCallee id, c.use isCallee id = 0 := by
    left; intros; rfl
  line : ∀ e m, c.line e m = m := by intros; rfl
  inner : ∀ m, c.inner m = m := by intros; rfl
  list : ∀ m, c.list m = m := by intros; rfl

/-- What a statement that is never executed declares: its names, and its functions. -/
def survivorCensus [AddMonoid M] (c : Census M) (decls : List VarDecl) (functions : List Function) : M :=
  declCensus c (decls.map VarDecl.nameOnly) + statementCensus c (functions.map Statement.function)

/-- A census by which a tree comes to no more if all of it goes but what it declares. -/
structure Census.Passes [AddMonoid M] (c : Census M) (le : M → M → Prop) : Prop
    extends c.IsPlain where
  refl : ∀ m, le m m
  trans : ∀ {a b d}, le a b → le b d → le a d
  add : ∀ {a a' b b'}, le a a' → le b b' → le (a + b) (a' + b')
  expr : ∀ e : Expr, le 0 (e.census c none)
  handler : ∀ clause body {m m'}, le m m' → le (c.handler { clause with body } m) (c.handler clause m')
  withBody : ∀ scope {m m'}, le m m' → le (c.withBody scope m) (c.withBody scope m')
  ofHandler : ∀ clause decls functions, le (survivorCensus c decls functions)
    (c.handler clause (survivorCensus c decls functions))
  ofWithBody : ∀ scope decls functions, le (survivorCensus c decls functions)
    (c.withBody scope (survivorCensus c decls functions))

/-- A census by which a tree comes to no more if a rule drops or moves a part of it, functions being
moved as they are. -/
structure Census.Sheds [AddMonoid M] (c : Census M) (le : M → M → Prop) : Prop
    extends c.Passes le where
  again : ∀ {id id' : Ident}, id.name = id'.name → le (c.declare id) (c.declare id + c.declare id')

/-- Such a census, by which a function comes to no more if its body does. -/
structure Census.ShedsWithin [AddMonoid M] (c : Census M) (le : M → M → Prop) : Prop
    extends c.Sheds le where
  function : ∀ fn params body {m m'}, le m m' →
    le (c.function { fn with params, body } m) (c.function fn m')

variable [AddCommMonoid M] {c : Census M} {le : M → M → Prop}

/-! ## Expressions -/

section Expressions

variable (plain : c.IsPlain)
include plain

omit plain in
theorem Expr.census_form (opens : ∀ around e, c.expr? around e = none) (around : Option Form)
    (e : Expr) : e.census c around = e.form.census c := by
  cases e
  rw [Expr.census, opens, Option.getD_none]

omit plain in
theorem Expr.census_of_silent (silent : ∀ around e, c.expr? around e = some 0)
    (around : Option Form) (e : Expr) : e.census c around = 0 := by
  cases e
  rw [Expr.census, silent, Option.getD_some]

/-- What stands around an expression makes no difference. -/
theorem Expr.census_around (around : Option Form) (e : Expr) :
    e.census c around = e.census c none := by
  rcases plain.expr? with opens | ⟨silent, -⟩
  · rw [census_form opens, census_form opens]
  · rw [census_of_silent silent, census_of_silent silent]

theorem Expr.census_span (e : Expr) (span : Span) :
    Expr.census c none { e with span } = e.census c none := by
  rcases plain.expr? with opens | ⟨silent, -⟩
  · rw [census_form opens, census_form opens]
  · rw [census_of_silent silent, census_of_silent silent]

/-- Expressions that a census has answers for are passed over. -/
theorem Expr.census_answers (P : M → M → Prop) (zero : P 0 0) (around around' : Option Form)
    (e e' : Expr) : c.expr? around e = none ∧ c.expr? around' e' = none ∨
      P (e.census c around) (e'.census c around') := by
  rcases plain.expr? with opens | ⟨silent, -⟩
  · exact .inl ⟨opens _ _, opens _ _⟩
  · rw [census_of_silent silent, census_of_silent silent]
    exact .inr zero

theorem argCensus_around (around around' : Form) (args : List Expr) :
    argCensus c around args = argCensus c around' args := by
  induction args with
  | nil => rfl
  | cons e rest ih =>
    rw [argCensus, argCensus, ih, e.census_around plain, e.census_around plain (some around')]

theorem itemCensus_around (around around' : Form) (items : List (Option Expr)) :
    itemCensus c around items = itemCensus c around' items := by
  induction items with
  | nil => rfl
  | cons item rest ih =>
    cases item with
    | none => exact ih
    | some e =>
      rw [itemCensus, itemCensus, ih, e.census_around plain, e.census_around plain (some around')]

theorem propertyCensus_around (around around' : Form) (properties : List Property) :
    propertyCensus c around properties = propertyCensus c around' properties := by
  induction properties with
  | nil => rfl
  | cons property rest ih =>
    cases property
    rw [propertyCensus, propertyCensus, ih, Expr.census_around plain,
      Expr.census_around plain (some around')]

namespace Expr

/-- Two operands. -/
theorem census_binary (around : Option Form) (op : BinaryOp) (left right : Expr) :
    (binary op left right).census c around = left.census c none + right.census c none := by
  rcases plain.expr? with opens | ⟨silent, -⟩
  · rw [census_form opens, ← left.census_around plain (some (.binary op left right)),
      ← right.census_around plain (some (.binary op left right))]
    rfl
  · simp only [census_of_silent silent, add_zero]

/-- A test and two values. -/
theorem census_conditional (around : Option Form) (test yes no : Expr) :
    (conditional test yes no).census c around =
      test.census c none + yes.census c none + no.census c none := by
  rcases plain.expr? with opens | ⟨silent, -⟩
  · rw [census_form opens, ← test.census_around plain (some (.conditional test yes no)),
      ← yes.census_around plain (some (.conditional test yes no)),
      ← no.census_around plain (some (.conditional test yes no))]
    rfl
  · simp only [census_of_silent silent, add_zero]

/-- An operand. -/
theorem census_unary (around : Option Form) (op : UnaryOp) (operand : Expr) (span : Span) :
    Expr.census c around ⟨.unary op operand, span⟩ = operand.census c none := by
  rcases plain.expr? with opens | ⟨silent, -⟩
  · rw [census_form opens, ← operand.census_around plain (some (.unary op operand))]
    rfl
  · rw [census_of_silent silent, census_of_silent silent]

/-- A name is a use. -/
theorem census_ident (around : Option Form) (id : Ident) (span : Span) :
    Expr.census c around ⟨.ident id, span⟩ = c.use false id := by
  rcases plain.expr? with opens | ⟨silent, none⟩
  · rw [census_form opens, Form.census]
  · rw [census_of_silent silent, none]

/-- `void 0` counts as nothing. -/
theorem census_of_isVoidZero {e : Expr} (isVoid : e.isVoidZero = true) : e.census c none = 0 := by
  obtain ⟨form, span⟩ := e
  unfold isVoidZero at isVoid
  split at isVoid
  · rename_i value numberSpan isForm
    obtain rfl : form = _ := isForm
    rw [census_unary plain]
    rcases plain.expr? with opens | ⟨silent, -⟩
    · rw [census_form opens, Form.census]
    · rw [census_of_silent silent]
  · cases isVoid

/-- A negation only changes operators. -/
theorem census_negated (short : Bool) (old new : Slot) (e : Expr) :
    (e.negated short old new).census c none = e.census c none := by
  rcases plain.expr? with opens | ⟨silent, -⟩
  · fun_induction negated short old new e <;>
      simp_all [unary, Expr.census_around plain (some _)]
  · rw [census_of_silent silent, census_of_silent silent]

/-- Taking a negation away. -/
theorem census_reduceNot {short : Bool} {slot : Slot} {requireBoolean : Bool} {e reduced : Expr}
    (found : e.reduceNot? short slot requireBoolean = some reduced) :
    reduced.census c none = e.census c none := by
  unfold reduceNot? at found
  split at found
  · simp only [Option.ite_none_right_eq_some, Option.some.injEq] at found
    rw [← found.2, census_negated plain, census_unary plain]
  · cases found

omit plain in
/-- A name is not known to be a boolean. -/
theorem ident?_of_isBooleanValued {e : Expr} (isBoolean : e.isBooleanValued = true) :
    e.ident? = none := by
  obtain ⟨form, span⟩ := e
  cases form with
  | ident id => cases isBoolean
  | _ => rfl

omit plain in
/-- Nothing becomes a name by itself where its value matters. -/
theorem ident?_reduce (short : Bool) (slot : Slot) (e : Expr) :
    (e.reduce short slot false).value.ident? = e.ident? := by
  obtain ⟨form, span⟩ := e
  have parts : Expr.ident? ⟨(form.reduceParts short false).value, span⟩ = Expr.ident? ⟨form, span⟩ := by
    cases form with
    | new callee args => cases args <;> rfl
    | _ => rfl
  simp only [Expr.reduce, value_bind]
  cases found : Expr.reduceNot? short slot (!false) ⟨(form.reduceParts short false).value, span⟩ with
  | none => simpa [Edited.orElse] using parts
  | some reduced =>
    rw [← parts]
    unfold reduceNot? at found
    split at found
    · rename_i operand _ isForm
      simp only [Option.ite_none_right_eq_some, Option.some.injEq, Bool.and_eq_true] at found
      obtain ⟨⟨-, isBoolean⟩, rfl⟩ := found
      rw [isForm]
      exact ident?_of_isBooleanValued isBoolean
    · cases found

end Expr

mutual

/-- Reducing an expression. -/
theorem Expr.census_reduce (short : Bool) (slot : Slot) (condition : Bool) : ∀ e : Expr,
    (e.reduce short slot condition).value.census c none = e.census c none
  | ⟨form, span⟩ => by
    rcases plain.expr? with opens | ⟨silent, -⟩
    · have parts := Form.census_reduceParts short condition form
      simp only [Expr.reduce, value_bind]
      cases found : Expr.reduceNot? short slot (!condition)
          ⟨(form.reduceParts short condition).value, span⟩ with
      | none => simpa [Edited.orElse, opens] using parts
      | some reduced =>
        have same := Expr.census_reduceNot plain found
        simpa [Edited.orElse, opens, parts] using same
    · rw [Expr.census_of_silent silent, Expr.census_of_silent silent]

/-- Reducing its parts. -/
theorem Form.census_reduceParts (short condition : Bool) : ∀ form : Form,
    (form.reduceParts short condition).value.census c = form.census c
  | .unary _ operand => by
    simp [Form.reduceParts, Expr.census_around plain (some _), operand.census_reduce]
  | .binary _ left right => by
    simp [Form.reduceParts, Expr.census_around plain (some _), left.census_reduce,
      right.census_reduce]
  | .conditional test yes no => by
    simp [Form.reduceParts, Expr.census_around plain (some _), test.census_reduce,
      yes.census_reduce, no.census_reduce]
  | .member object _ => by
    simp [Form.reduceParts, Expr.census_around plain (some _), object.census_reduce]
  | .index object key => by
    simp [Form.reduceParts, Expr.census_around plain (some _), object.census_reduce,
      key.census_reduce]
  | .call callee args => by
    have parts := argCensus_reduceArgs short (.call callee args) args
    simp [Form.reduceParts, Expr.census_around plain (some _), callee.census_reduce, Census.callee,
      callee.ident?_reduce, argCensus_around plain (.call _ (reduceArgs short args).value) (.call callee args), parts]
  | .new callee (some args) => by
    have parts := argCensus_reduceArgs short (.new callee (some args)) args
    simp [Form.reduceParts, Expr.census_around plain (some _),
      argCensus_around plain (.new _ (some (reduceArgs short args).value)) (.new callee (some args)),
      parts]
  | .array items => by
    have parts := itemCensus_reduceItems short (.array items) items
    simp [Form.reduceParts, itemCensus_around plain (.array (reduceItems short items).value)
      (.array items), parts]
  | .object properties => by
    have parts := propertyCensus_reduceProperties short (.object properties) properties
    simp [Form.reduceParts, propertyCensus_around plain
      (.object (reduceProperties short properties).value) (.object properties), parts]
  | .new _ none | .update .. | .number _ | .string _ | .regex .. | .boolean _ | .null | .this
  | .ident _ | .function _ => by simp [Form.reduceParts]

/-- Reducing arguments. -/
theorem argCensus_reduceArgs (short : Bool) (around : Form) : ∀ args : List Expr,
    argCensus c around (reduceArgs short args).value = argCensus c around args
  | [] => rfl
  | e :: rest => by
    simp [reduceArgs, Expr.census_around plain (some _), e.census_reduce,
      argCensus_reduceArgs short around rest]

/-- Reducing items. -/
theorem itemCensus_reduceItems (short : Bool) (around : Form) : ∀ items : List (Option Expr),
    itemCensus c around (reduceItems short items).value = itemCensus c around items
  | [] => rfl
  | none :: rest => by simp [reduceItems, itemCensus_reduceItems short around rest]
  | some e :: rest => by
    simp [reduceItems, Expr.census_around plain (some _), e.census_reduce,
      itemCensus_reduceItems short around rest]

/-- Reducing properties. -/
theorem propertyCensus_reduceProperties (short : Bool) (around : Form) : ∀ properties : List Property,
    propertyCensus c around (reduceProperties short properties).value =
      propertyCensus c around properties
  | [] => rfl
  | ⟨key, .value, value, span⟩ :: rest => by
    simp [reduceProperties, Expr.census_around plain (some _), value.census_reduce,
      propertyCensus_reduceProperties short around rest]
  | ⟨key, .getter, value, span⟩ :: rest => by
    simp [reduceProperties, propertyCensus_reduceProperties short around rest]
  | ⟨key, .setter, value, span⟩ :: rest => by
    simp [reduceProperties, propertyCensus_reduceProperties short around rest]

end

theorem Settings.census_reduce (settings : Settings) (slot : Slot) (condition : Bool) (e : Expr) :
    (settings.reduce slot condition e).value.census c none = e.census c none :=
  when_value (fun reduced => reduced.census c none = e.census c none) _ _ e rfl
    (e.census_reduce plain _ _ _)

theorem Settings.census_negate (settings : Settings) (e : Expr) :
    (settings.negate e).census c none = e.census c none :=
  e.census_negated plain _ _ _

/-- Expressions joined by commas. -/
theorem Expr.census_sequence {es : List Expr} {e : Expr} (around : Form)
    (found : Expr.sequence? es = some e) : e.census c none = argCensus c around es := by
  cases es with
  | nil => cases found
  | cons first rest =>
    cases found
    have folds (first : Expr) : (rest.foldl (Expr.binary .comma) first).census c none =
        first.census c none + argCensus c around rest := by
      induction rest generalizing first with
      | nil => simp
      | cons next rest ih =>
        rw [foldl_cons, ih, Expr.census_binary plain, argCensus, next.census_around plain (some _),
          add_assoc]
    rw [folds, argCensus, first.census_around plain (some _)]

end Expressions

/-! ## Statement lists -/

section Lists

variable (statements : List Statement)

/-- Lists of statements add up. -/
@[simp] theorem statementCensus_append (a b : List Statement) :
    statementCensus c (a ++ b) = statementCensus c a + statementCensus c b := by
  induction a with
  | nil => simp
  | cons s a ih => simp [ih, add_assoc]

/-- So do declarations. -/
@[simp] theorem declCensus_append (a b : List VarDecl) :
    declCensus c (a ++ b) = declCensus c a + declCensus c b := by
  induction a with
  | nil => simp
  | cons d a ih => simp [ih, add_assoc]

/-- So do cases. -/
@[simp] theorem caseCensus_append (a b : List SwitchCase) :
    caseCensus c (a ++ b) = caseCensus c a + caseCensus c b := by
  induction a with
  | nil => simp
  | cons clause a ih => simp [caseCensus_cons, ih, add_assoc]

/-- The order of statements makes no difference. -/
theorem statementCensus_perm {a b : List Statement} (perm : a.Perm b) :
    statementCensus c a = statementCensus c b := by
  induction perm with
  | nil => rfl
  | cons s _ ih => simp [ih]
  | swap s t rest => simp [add_left_comm]
  | trans _ _ first second => exact first.trans second

/-- Functions that are moved to the top of a list are moved within it. -/
theorem perm_hoistFunctions (index : Nat) (statements : List Statement) :
    (hoistFunctions index statements).value.Perm statements := by
  unfold hoistFunctions
  split
  · exact .refl _
  · simp only [partition_eq_filter_filter, value_of]
    have rest := take_append_drop index (statements.filter (not ∘ Statement.isFunction))
    have parts := filter_append_perm Statement.isFunction statements
    refine List.Perm.trans ?_ parts
    refine List.Perm.trans (List.Perm.append_right _ perm_append_comm) ?_
    rw [append_assoc, rest]
    exact List.Perm.refl _

/-- The last statement, and those before it. -/
theorem statementCensus_of_getLast? {statements : List Statement} {last : Statement}
    (ends : statements.getLast? = some last) :
    statementCensus c statements = statementCensus c statements.dropLast + last.census c := by
  obtain ⟨front, rfl⟩ := List.getLast?_eq_some_iff.mp ends
  simp

theorem statementCensus_eq_sum : statementCensus c statements = (statements.map (·.census c)).sum := by
  induction statements with
  | nil => rfl
  | cons s rest ih => simp [ih]

/-- Joining neighbours keeps a total if joining two statements does. -/
theorem sum_joinNeighbours {value : Statement → M} {join? : Statement → Statement → Option Statement}
    (joins : ∀ a b joined, join? a b = some joined → value joined = value a + value b)
    (statements : List Statement) :
    ((joinNeighbours join? statements).value.map value).sum = (statements.map value).sum := by
  have from_ : ∀ rest s, ((joinFrom join? s rest).map value).sum = value s + (rest.map value).sum := by
    intro rest s
    fun_induction joinFrom join? s rest with
    | case1 => simp
    | case2 s next rest joined found ih => simp [ih, joins s next joined found, add_assoc]
    | case3 s next rest found ih => simp [ih]
  cases statements with
  | nil => rfl
  | cons s rest => simpa [joinNeighbours] using from_ rest s

/-- Joining `var` statements. -/
theorem statementCensus_joinVars :
    statementCensus c (joinVars statements).value = statementCensus c statements := by
  rw [statementCensus_eq_sum, statementCensus_eq_sum]
  refine sum_joinNeighbours (fun a b joined found => ?_) statements
  unfold joinVars? at found
  split at found
  · rename_i first second
    cases first
    cases second
    cases found
    simp
  · cases found

/-- A relation to a list of statements that stays when one of its blocks is opened. -/
structure OpensBlocks (rel : List Statement → List Statement → Prop) : Prop where
  nil : rel [] []
  append : ∀ {a a' b b'}, rel a a' → rel b b' → rel (a ++ b) (a' ++ b')
  bare : ∀ s, (∀ b, s ≠ .block b) → rel [s] [s]
  block : ∀ {a statements span}, rel a statements → rel a [.block ⟨statements, span⟩]

section OpensBlocks

variable {rel : List Statement → List Statement → Prop} (opens : OpensBlocks rel)
include opens

mutual

/-- Opening one statement. -/
theorem OpensBlocks.unnested : ∀ s : Statement, rel s.unnested [s]
  | .block ⟨statements, _⟩ => by
    simpa [Statement.unnested] using opens.block (OpensBlocks.unnestAll statements)
  | .var _ | .function _ | .expr _ | .ifElse .. | .forLoop .. | .forIn .. | .whileLoop ..
  | .doWhile .. | .switch .. | .tryCatch .. | .labeled .. | .breakTo .. | .continueTo ..
  | .returnWith .. | .throw .. | .withObject .. | .debugger _ | .empty _ | .comment .. => by
    simpa [Statement.unnested] using opens.bare _ (by simp)

/-- Opening all of them. -/
theorem OpensBlocks.unnestAll : ∀ statements : List Statement, rel (unnestAll statements) statements
  | [] => by simpa [Minifier.unnestAll] using opens.nil
  | s :: rest => by
    simpa [Minifier.unnestAll] using
      opens.append (OpensBlocks.unnested s) (OpensBlocks.unnestAll rest)

end

end OpensBlocks

/-- Opening blocks. -/
theorem statementCensus_unnestAll (plain : c.IsPlain) (statements : List Statement) :
    statementCensus c (unnestAll statements) = statementCensus c statements := by
  have opens : OpensBlocks fun a b => statementCensus c a = statementCensus c b := {
    nil := rfl
    append first second := by simp [first, second]
    bare _ _ := rfl
    block same := by simp [same, plain.inner, plain.list] }
  exact opens.unnestAll statements

mutual

/-- What does nothing comes to nothing. -/
theorem Statement.census_of_doesNothing (plain : c.IsPlain) : ∀ s : Statement,
    s.doesNothing = true → s.census c = 0
  | .empty _ => by simp [plain.inner]
  | .block ⟨statements, span⟩ => by
    intro idle
    simp [plain.inner, plain.list, statementCensus_of_allDoNothing plain statements idle]
  | .var _ | .function _ | .expr _ | .ifElse .. | .forLoop .. | .forIn .. | .whileLoop ..
  | .doWhile .. | .switch .. | .tryCatch .. | .labeled .. | .breakTo .. | .continueTo ..
  | .returnWith .. | .throw .. | .withObject .. | .debugger _ | .comment .. => by
    simp [Statement.doesNothing]

/-- What does nothing counts as nothing. -/
theorem statementCensus_of_allDoNothing (plain : c.IsPlain) : ∀ statements : List Statement,
    Statement.allDoNothing statements = true → statementCensus c statements = 0
  | [] => by simp
  | s :: rest => by
    intro idle
    have idle := Bool.and_eq_true_iff.mp idle
    simp [s.census_of_doesNothing plain idle.1, statementCensus_of_allDoNothing plain rest idle.2]

end

section Plain

variable (plain : c.IsPlain)
include plain

/-- Joining comments. -/
theorem statementCensus_joinComments (statements : List Statement) :
    statementCensus c (joinComments statements).value = statementCensus c statements := by
  rw [statementCensus_eq_sum, statementCensus_eq_sum]
  refine sum_joinNeighbours (fun a b joined found => ?_) statements
  unfold joinComments? at found
  split at found
  · cases found
    simp [plain.inner]
  · cases found

/-- A list as one statement. -/
theorem Statement.census_ofList (span : Span) (statements : List Statement) :
    (Statement.ofList span statements).census c = statementCensus c statements := by
  unfold Statement.ofList
  split <;> simp [plain.inner, plain.list]

/-- Dropping empty statements. -/
theorem statementCensus_dropEmpty (statements : List Statement) :
    statementCensus c (dropEmpty statements).value = statementCensus c statements := by
  simp only [dropEmpty]
  induction statements with
  | nil => rfl
  | cons s rest ih =>
    rw [filter_cons]
    split
    · simp [ih]
    · rename_i isEmpty
      have isEmpty : s.isEmpty = true := by simpa using isEmpty
      cases s with
      | empty span => simp [ih, plain.inner]
      | _ => cases isEmpty

end Plain

end Lists

/-! ## What survives of a statement -/

section Survivors

variable (passes : c.Passes le)
include passes

namespace Census.Passes

theorem of_eq {a b : M} (same : a = b) : le a b := same ▸ passes.refl a

theorem add_left {a b : M} (nothing : le 0 b) : le a (b + a) := by
  simpa using passes.add nothing (passes.refl a)

theorem optional (e : Option Expr) : le 0 (optionalCensus c e) := by
  cases e with
  | none => exact passes.refl 0
  | some e => exact passes.expr e

end Census.Passes

omit passes in
theorem survivorCensus_append (decls decls' : List VarDecl) (functions functions' : List Function) :
    survivorCensus c (decls ++ decls') (functions ++ functions') =
      survivorCensus c decls functions + survivorCensus c decls' functions' := by
  simp only [survivorCensus, map_append, declCensus_append, statementCensus_append]
  exact add_add_add_comm _ _ _ _

/-- Without initializers there is no more to count. -/
theorem le_declCensus (decls : List VarDecl) :
    le (declCensus c (decls.map VarDecl.nameOnly)) (declCensus c decls) := by
  induction decls with
  | nil => exact passes.refl 0
  | cons d rest ih =>
    obtain ⟨name, init, span⟩ := d
    refine passes.add ?_ ih
    exact passes.add (passes.refl _) (passes.optional init)

omit passes in
theorem survivorCensus_decls (decls : List VarDecl) :
    survivorCensus c decls [] = declCensus c (decls.map VarDecl.nameOnly) := by
  simp [survivorCensus]

omit passes in
theorem survivorCensus_nil : survivorCensus c [] [] = 0 := by
  simp [survivorCensus]

end Survivors

section Survivors

attribute [local simp] Statement.varDecls Statement.functionDecls varDeclsOf functionDeclsOf
  caseVarDecls caseFunctionDecls handlerVarDecls handlerFunctionDecls finalizerVarDecls
  finalizerFunctionDecls survivorCensus_nil survivorCensus_append survivorCensus_decls

mutual

/-- The declarations of a statement are in it, outside of its expressions and of what is around them. -/
theorem Statement.survivorCensus_le (passes : c.Passes le) : ∀ s : Statement,
    le (survivorCensus c s.varDecls s.functionDecls) (s.census c)
  | .block ⟨statements, _⟩ => by
    simpa [passes.inner, passes.list] using survivorCensus_le_statements passes statements
  | .var ⟨decls, _⟩ => by simpa using le_declCensus passes decls
  | .function fn => by simpa [survivorCensus] using passes.refl _
  | .ifElse test yes none _ => by
    have parts := passes.add (passes.expr test) (yes.survivorCensus_le passes)
    simpa [passes.inner] using parts
  | .ifElse test yes (some no) _ => by
    have parts := passes.add (passes.add (passes.expr test) (yes.survivorCensus_le passes))
      (no.survivorCensus_le passes)
    simpa [passes.inner] using parts
  | .forLoop (.var ⟨decls, _⟩) test update body _ => by
    have head := passes.add (passes.add (le_declCensus passes decls) (passes.optional test))
      (passes.optional update)
    have parts := passes.add head (body.survivorCensus_le passes)
    simpa [passes.inner, survivorCensus, add_assoc] using parts
  | .forLoop .nothing test update body _ => by
    have parts := passes.add (passes.add (passes.optional test) (passes.optional update))
      (body.survivorCensus_le passes)
    simpa [passes.inner] using parts
  | .forLoop (.expr e) test update body _ => by
    have head := passes.add (passes.add (passes.expr e) (passes.optional test)) (passes.optional update)
    have parts := passes.add head (body.survivorCensus_le passes)
    simpa [passes.inner] using parts
  | .forIn (.var decl) object body _ => by
    have head := passes.add (le_declCensus passes [decl]) (passes.expr object)
    have parts := passes.add head (body.survivorCensus_le passes)
    simpa [passes.inner, survivorCensus, add_assoc] using parts
  | .forIn (.expr e) object body _ => by
    have parts := passes.add (passes.add (passes.expr e) (passes.expr object))
      (body.survivorCensus_le passes)
    simpa [passes.inner] using parts
  | .whileLoop test body _ => by
    have parts := passes.add (passes.expr test) (body.survivorCensus_le passes)
    simpa [passes.inner] using parts
  | .doWhile body test _ => by
    have parts := passes.add (body.survivorCensus_le passes) (passes.expr test)
    simpa [passes.inner] using parts
  | .labeled _ body _ => by simpa [passes.inner] using body.survivorCensus_le passes
  | .withObject object body scope _ => by
    have inside := passes.trans (passes.ofWithBody scope _ _)
      (passes.withBody scope (body.survivorCensus_le passes))
    have parts := passes.add (passes.expr object) inside
    simpa [passes.inner] using parts
  | .switch subject cases _ => by
    have parts := passes.add (passes.expr subject) (survivorCensus_le_cases passes cases)
    simpa [passes.inner] using parts
  | .tryCatch ⟨statements, _⟩ handler finalizer _ => by
    have parts := passes.add (passes.add (survivorCensus_le_statements passes statements)
      (survivorCensus_le_handler passes handler)) (survivorCensus_le_finalizer passes finalizer)
    simpa [passes.inner, passes.list, add_assoc] using parts
  | .expr e => by simpa [passes.line] using passes.expr e
  | .returnWith value _ => by simpa [passes.inner] using passes.optional value
  | .throw value _ => by simpa [passes.inner] using passes.expr value
  | .breakTo .. | .continueTo .. | .debugger _ | .empty _ | .comment .. => by
    simpa [passes.inner] using passes.refl 0

/-- What survives of a list. -/
theorem survivorCensus_le_statements (passes : c.Passes le) : ∀ statements : List Statement,
    le (survivorCensus c (varDeclsOf statements) (functionDeclsOf statements))
      (statementCensus c statements)
  | [] => by simpa using passes.refl 0
  | s :: rest => by
    have parts := passes.add (s.survivorCensus_le passes) (survivorCensus_le_statements passes rest)
    simpa using parts

/-- What survives of cases. -/
theorem survivorCensus_le_cases (passes : c.Passes le) : ∀ cases : List SwitchCase,
    le (survivorCensus c (caseVarDecls cases) (caseFunctionDecls cases)) (caseCensus c cases)
  | [] => by simpa using passes.refl 0
  | ⟨test, body, _⟩ :: rest => by
    have parts := passes.add (passes.add (passes.optional test) (survivorCensus_le_statements passes body))
      (survivorCensus_le_cases passes rest)
    simpa [passes.inner] using parts

/-- What survives of a handler. -/
theorem survivorCensus_le_handler (passes : c.Passes le) : ∀ handler : Option CatchClause,
    le (survivorCensus c (handlerVarDecls handler) (handlerFunctionDecls handler))
      (handlerCensus c handler)
  | none => by simpa using passes.refl 0
  | some ⟨param, ⟨statements, bodySpan⟩, scope, span⟩ => by
    let clause : CatchClause := ⟨param, ⟨statements, bodySpan⟩, scope, span⟩
    have inside := passes.trans (passes.ofHandler clause _ _)
      (passes.handler clause clause.body (survivorCensus_le_statements passes statements))
    simpa [passes.list] using inside

/-- What survives of a finalizer. -/
theorem survivorCensus_le_finalizer (passes : c.Passes le) : ∀ finalizer : Option Block,
    le (survivorCensus c (finalizerVarDecls finalizer) (finalizerFunctionDecls finalizer))
      (finalizerCensus c finalizer)
  | none => by simpa using passes.refl 0
  | some ⟨statements, _⟩ => by simpa [passes.list] using survivorCensus_le_statements passes statements

end

variable (sheds : c.Sheds le)
include sheds

/-- A bare declaration, added if it is new. -/
theorem declCensus_addDecl_le (decls : List VarDecl) {d : VarDecl} (bare : d.init = none) :
    le (declCensus c (addDecl decls d)) (declCensus c decls + d.census c) := by
  obtain ⟨name, init, span⟩ := d
  subst bare
  unfold addDecl
  split
  · rename_i known
    simp only [VarDecl.census, optionalCensus, add_zero]
    induction decls with
    | nil => simp at known
    | cons first rest ih =>
      obtain ⟨name', init', span'⟩ := first
      by_cases here : name'.name = name.name
      · have twice := sheds.add (sheds.again here) (sheds.refl (optionalCensus c init' + declCensus c rest))
        have order : c.declare name' + c.declare name + (optionalCensus c init' + declCensus c rest) =
            declCensus c (⟨name', init', span'⟩ :: rest) + c.declare name := by
          simp only [declCensus, VarDecl.census]
          ac_rfl
        rw [order] at twice
        simpa [add_assoc] using twice
      · have further := ih (by simpa [here] using known)
        simpa [add_assoc] using sheds.add (sheds.refl (VarDecl.census c ⟨name', init', span'⟩)) further
  · simpa using sheds.refl _

/-- Several of them. -/
theorem declCensus_foldl_addDecl_le (more : List VarDecl) (bare : ∀ d ∈ more, d.init = none)
    (decls : List VarDecl) :
    le (declCensus c (more.foldl addDecl decls)) (declCensus c decls + declCensus c more) := by
  induction more generalizing decls with
  | nil => simpa using sheds.refl _
  | cons d more ih =>
    have rest := ih (fun d mem => bare d (mem_cons_of_mem _ mem)) (addDecl decls d)
    have first := declCensus_addDecl_le sheds decls (bare d mem_cons_self)
    have whole := sheds.trans rest (sheds.add first (sheds.refl (declCensus c more)))
    simpa [add_assoc] using whole

/-- What is left of a statement that is never executed. -/
theorem Statement.census_survivors_le (s : Statement) :
    le (statementCensus c s.survivors) (s.census c) := by
  refine sheds.trans ?_ (s.survivorCensus_le sheds.toPasses)
  have names := declCensus_foldl_addDecl_le sheds (s.varDecls.map VarDecl.nameOnly)
    (by simp [VarDecl.nameOnly]) []
  have whole := sheds.add names
    (sheds.refl (statementCensus c (s.functionDecls.map Statement.function)))
  unfold Statement.survivors survivorCensus
  split
  · rename_i none
    simpa [none] using whole
  · rename_i first rest some
    simpa [some, add_assoc] using whole

/-- What is left of a statement behind a jump. -/
theorem Statement.census_afterJump_le (s : Statement) :
    le (statementCensus c s.afterJump) (s.census c) := by
  unfold Statement.afterJump
  split
  · simpa using sheds.refl _
  · simpa using sheds.refl _
  · exact s.census_survivors_le sheds

theorem statementCensus_flatMap_le {f : Statement → List Statement}
    (less : ∀ s, le (statementCensus c (f s)) (s.census c)) (statements : List Statement) :
    le (statementCensus c (statements.flatMap f)) (statementCensus c statements) := by
  induction statements with
  | nil => exact sheds.refl 0
  | cons s rest ih => simpa using sheds.add (less s) ih

omit sheds in
theorem splitAtJump_append (statements : List Statement) :
    (splitAtJump statements).1 ++ (splitAtJump statements).2 = statements := by
  fun_induction splitAtJump statements <;> simp_all

/-- Dropping what comes after a jump. -/
theorem census_dropUnreachable_le (statements : List Statement) :
    le (statementCensus c (dropUnreachable statements).1.value) (statementCensus c statements) := by
  have whole := splitAtJump_append statements
  unfold dropUnreachable
  split
  · exact sheds.refl _
  · rename_i reached dead _ split
    have left := statementCensus_flatMap_le sheds (Statement.census_afterJump_le sheds) dead
    rw [split] at whole
    rw [← whole]
    simpa [statementCensus_joinVars] using sheds.add (sheds.refl (statementCensus c reached)) left

end Survivors

/-! ## Branches and loops -/

namespace Statement

variable {settings : Settings} {s : Statement}

section Plain

variable (plain : c.IsPlain)
include plain

/-- Expressions that are statements, joined by commas. -/
theorem census_of_mapM {read? : Statement → Option Expr}
    (reads : ∀ s e, read? s = some e → e.census c none = s.census c) (around : Form) :
    ∀ (statements : List Statement) (es : List Expr), statements.mapM read? = some es →
      argCensus c around es = statementCensus c statements := by
  intro statements
  induction statements with
  | nil => simp
  | cons s rest ih =>
    intro es found
    simp only [mapM_cons, Option.bind_eq_bind, Option.bind_eq_some_iff, Option.pure_def,
      Option.some.injEq] at found
    obtain ⟨e, isExpr, more, areExprs, rfl⟩ := found
    simp [Expr.census_around plain (some _), reads s e isExpr, ih more areExprs]

/-- A branch that is an expression. -/
theorem census_onlyExpr {e : Expr} (found : s.onlyExpr? = some e) : e.census c none = s.census c := by
  unfold onlyExpr? at found
  split at found
  · cases found
    simp [plain.line]
  · rename_i statements span
    obtain ⟨es, areExprs, joined⟩ := Option.bind_eq_some_iff.mp found
    rw [Expr.census_sequence plain .null joined, Statement.census, plain.inner, Block.census, plain.list]
    refine census_of_mapM plain (fun s e isExpr => ?_) _ statements es areExprs
    cases s <;> simp_all [plain.line]
  · cases found

theorem census_ifElse (test : Expr) (yes : Statement) (no : Option Statement) (span : Span) :
    (ifElse test yes no span).census c = test.census c none + yes.census c + elseCensus c no := by
  simp [plain.inner]

/-- Exchanging the branches. -/
theorem census_swapped {swap : Statement} (found : s.swapped? settings = some swap) :
    swap.census c = s.census c := by
  unfold swapped? at found
  split at found
  · simp only [Option.ite_none_right_eq_some, Option.some.injEq] at found
    rw [← found.2, census_ifElse plain, census_ifElse plain, settings.census_negate plain]
    simp [plain.inner, add_right_comm]
  · cases found

/-- Making an expression of an `if`. -/
theorem census_ifExpr {whole : Statement} (found : s.ifExpr? settings = some whole) :
    whole.census c = s.census c := by
  unfold ifExpr? at found
  split at found
  · rename_i test yes no span
    obtain ⟨first, isExpr, found⟩ := Option.bind_eq_some_iff.mp found
    have first_census := census_onlyExpr plain isExpr
    rw [census_ifElse plain]
    cases no with
    | some no =>
      obtain ⟨second, isExpr, found⟩ := Option.bind_eq_some_iff.mp found
      have second_census := census_onlyExpr plain isExpr
      simp only [Option.ite_none_left_eq_some, Option.some.injEq] at found
      rw [← found.2, Statement.census, plain.line, Expr.census_span plain,
        Expr.census_conditional plain, first_census, second_census, elseCensus, plain.inner]
    | none =>
      simp only [Option.ite_none_left_eq_some, Option.some.injEq] at found
      rw [← found.2, Statement.census, plain.line, Expr.census_span plain]
      split
      · rw [Expr.census_binary plain, Expr.census_negated plain, first_census, elseCensus, add_zero]
      · rw [Expr.census_binary plain, first_census, elseCensus, add_zero]
  · cases found

end Plain

section Sheds

variable (sheds : c.Sheds le)
include sheds

/-- Deciding a test. -/
theorem census_decideIf_le (truth : Bool) (yes : Statement) (no : Option Statement) (span : Span) :
    le ((decideIf truth yes no span).census c) (yes.census c + elseCensus c no) := by
  unfold decideIf
  rw [census_ofList sheds.toIsPlain]
  cases truth with
  | true =>
    cases no with
    | none => simpa using sheds.refl _
    | some no =>
      simpa [sheds.inner] using sheds.add (sheds.refl (yes.census c)) (no.census_survivors_le sheds)
  | false =>
    cases no with
    | none => simpa using yes.census_survivors_le sheds
    | some no =>
      simpa [sheds.inner, add_comm] using
        sheds.add (yes.census_survivors_le sheds) (sheds.refl (no.census c))

/-- Dropping empty branches. -/
theorem census_dropEmptyBranches_le (settings : Settings) (s : Statement) :
    le ((s.dropEmptyBranches settings).value.census c) (s.census c) := by
  have plain := sheds.toIsPlain
  cases s with
  | ifElse test yes no span =>
    -- a branch that does nothing comes to nothing, so no branch is lost
    have idle : elseCensus c (if no.any doesNothing then none else no) = elseCensus c no := by
      cases no with
      | none => rfl
      | some no =>
        by_cases nothing : no.doesNothing = true
        · simp [nothing, plain.inner, no.census_of_doesNothing plain nothing]
        · simp [nothing]
    refine sheds.of_eq ?_
    rw [census_ifElse plain, ← idle]
    simp only [dropEmptyBranches]
    generalize (if no.any doesNothing then none else no) = no'
    by_cases nothing : yes.doesNothing = true
    · rw [if_pos nothing, yes.census_of_doesNothing plain nothing, add_zero]
      cases no' with
      | none => simp [plain.line]
      | some no =>
        rw [value_of, census_ifElse plain, settings.census_negate plain]
        simp [plain.inner]
    · rw [if_neg nothing, census_ifElse plain]
  | _ => exact sheds.refl _

/-- Taking what is shorter. -/
theorem census_shorterOf_le {candidate : Option Statement}
    (keeps : ∀ t, candidate = some t → t.census c = s.census c) :
    le ((s.shorterOf settings candidate).value.census c) (s.census c) := by
  cases candidate with
  | none => exact sheds.refl _
  | some t =>
    simp only [shorterOf]
    split
    · exact sheds.of_eq (keeps t rfl)
    · exact sheds.refl _

/-- All rules for branches. -/
theorem census_simplifyBranches_le (settings : Settings) (s : Statement) :
    le ((s.simplifyBranches settings).value.census c) (s.census c) := by
  simp only [simplifyBranches, value_bind]
  have dropped := when_value (fun t => le (t.census c) (s.census c))
    (settings.applies .dropEmptyBranches) (dropEmptyBranches settings) s (sheds.refl _)
    (census_dropEmptyBranches_le sheds settings s)
  generalize (Edited.when (settings.applies .dropEmptyBranches) (dropEmptyBranches settings) s).value
    = first at dropped ⊢
  have swapped := when_value (fun t => le (t.census c) (first.census c))
    (settings.applies .swapBranches) (fun s => s.shorterOf settings (s.swapped? settings)) first
    (sheds.refl _) (census_shorterOf_le sheds fun t found => census_swapped sheds.toIsPlain found)
  generalize (Edited.when (settings.applies .swapBranches) (fun s => s.shorterOf settings
    (s.swapped? settings)) first).value = second at swapped ⊢
  have last : le ((second.shorterOf settings (second.ifExpr? settings)).value.census c)
      (second.census c) :=
    census_shorterOf_le sheds fun t found => census_ifExpr sheds.toIsPlain found
  exact sheds.trans last (sheds.trans swapped dropped)

/-- All rules for an `if`. -/
theorem census_simplifyIf_le (settings : Settings) (s : Statement) :
    le ((s.simplifyIf settings).value.census c) (s.census c) := by
  have plain := sheds.toIsPlain
  cases s with
  | ifElse test yes no span =>
    simp only [simplifyIf, value_bind]
    split
    · rename_i truth _
      rw [census_ifElse plain, add_assoc]
      exact sheds.trans (census_decideIf_le sheds truth yes no span)
        (sheds.add_left (sheds.expr test))
    · have rest := census_simplifyBranches_le sheds settings
        (.ifElse (settings.reduce .top true test).value yes no span)
      rwa [census_ifElse plain, settings.census_reduce plain, ← census_ifElse plain] at rest
  | _ => exact sheds.refl _

/-- Simplifying a loop. -/
theorem census_simplifyWhile_le (settings : Settings) (s : Statement) :
    le ((s.simplifyWhile settings).value.census c) (s.census c) := by
  have plain := sheds.toIsPlain
  cases s with
  | whileLoop test body span =>
    simp only [simplifyWhile, value_bind]
    split
    · rw [value_of, census_ofList plain]
      have left := sheds.trans (body.census_survivors_le sheds) (sheds.add_left (sheds.expr test))
      simpa [plain.inner] using left
    · refine sheds.of_eq ?_
      simp [plain.inner, settings.census_reduce plain]
  | _ => exact sheds.refl _

end Sheds

end Statement

/-! ## Returns -/

section Returns

variable (plain : c.IsPlain)
include plain

namespace Statement

/-- A value that is returned. -/
theorem census_returnedExpr {s : Statement} {e : Expr} (found : s.returnedExpr? = some e) :
    e.census c none = s.census c := by
  fun_induction returnedExpr? s <;> simp_all [plain.inner, plain.list]

/-- Returning one of two values. -/
theorem census_returnEither (test yes no : Expr) (span : Span) :
    (returnEither test yes no span).census c =
      test.census c none + yes.census c none + no.census c none := by
  rw [returnEither, Statement.census, plain.inner, optionalCensus, Expr.census_conditional plain]

/-- Folding an `if` that returns on both sides. -/
theorem census_foldIfElse {s folded : Statement} (found : s.foldIfElse? = some folded) :
    folded.census c = s.census c := by
  unfold foldIfElse? at found
  split at found
  · obtain ⟨first, isReturn, found⟩ := Option.bind_eq_some_iff.mp found
    obtain ⟨second, isReturn', found⟩ := Option.bind_eq_some_iff.mp found
    cases found
    rw [census_returnEither plain, census_returnedExpr plain isReturn,
      census_returnedExpr plain isReturn', census_ifElse plain, elseCensus, plain.inner]
  · cases found

/-- Folding an `if` and the return after it. -/
theorem census_foldPair {s next folded : Statement} (found : s.foldPair? next = some folded) :
    folded.census c = s.census c + next.census c := by
  unfold foldPair? at found
  split at found
  · obtain ⟨first, isReturn, found⟩ := Option.bind_eq_some_iff.mp found
    cases found
    rw [census_returnEither plain, census_returnedExpr plain isReturn, census_ifElse plain]
    simp [plain.inner]
  · cases found

/-- Folding an `if` at the end. -/
theorem census_foldFinal {s folded : Statement} (found : s.foldFinal? = some folded) :
    folded.census c = s.census c := by
  unfold foldFinal? at found
  split at found
  · obtain ⟨first, isReturn, found⟩ := Option.bind_eq_some_iff.mp found
    cases found
    rw [census_returnEither plain, census_returnedExpr plain isReturn, census_ifElse plain,
      Expr.census_of_isVoidZero plain (e := .voidZero) (by decide), elseCensus]
  · cases found

/-- Only an expression without parts is lost. -/
theorem census_unfoldFinal {s unfolded : Statement} (found : s.unfoldFinal? = some unfolded) :
    unfolded.census c = s.census c := by
  unfold unfoldFinal? at found
  split at found
  · rename_i test yes no span span'
    simp only [Option.ite_none_right_eq_some, Option.some.injEq] at found
    have whole := Expr.census_conditional plain none test yes no
    rw [Expr.census_of_isVoidZero plain found.1, add_zero, ← Expr.census_span plain _ span] at whole
    rw [← found.2, census_ifElse plain]
    simp only [Statement.census, elseCensus, optionalCensus, plain.inner, add_zero]
    exact whole.symm
  · cases found

end Statement

omit plain in
/-- Returns that become one keep a total if what they are made of does. -/
theorem sum_foldReturns {value : Statement → M}
    (alone : ∀ {s folded : Statement}, s.foldIfElse? = some folded → value folded = value s)
    (both : ∀ {s next folded : Statement}, s.foldPair? next = some folded → value folded = value s + value next)
    (settings : Settings) (statements : List Statement) :
    ((foldReturns settings statements).value.map value).sum = (statements.map value).sum := by
  have cons (s : Statement) (rest : List Statement) :
      ((consReturn settings s rest).value.map value).sum = value s + (rest.map value).sum := by
    simp only [consReturn, value_bind]
    have folded := when_value (fun t => value t = value s)
      (settings.applies .returnEither) (fun s => .orElse s s.foldIfElse?) s rfl (by
        cases found : s.foldIfElse? with
        | none => rfl
        | some t => exact alone found)
    cases rest with
    | nil => simpa using folded
    | cons next more =>
      simp only
      split
      · rename_i pair found
        simp only [Option.ite_none_right_eq_some] at found
        simp [both found.2, folded, add_assoc]
      · simp [folded]
  induction statements with
  | nil => rfl
  | cons s rest ih => simp [foldReturns, cons, ih]

variable (settings : Settings) (statements : List Statement)

/-- Folding all returns. -/
theorem census_foldReturns :
    statementCensus c (foldReturns settings statements).value = statementCensus c statements := by
  rw [statementCensus_eq_sum, statementCensus_eq_sum]
  exact sum_foldReturns (Statement.census_foldIfElse plain) (Statement.census_foldPair plain) settings statements

/-- Dropping the last return. -/
theorem census_dropFinalReturn :
    statementCensus c (dropFinalReturn statements).value = statementCensus c statements := by
  unfold dropFinalReturn
  split
  · rename_i ends
    rw [statementCensus_of_getLast? ends]
    simp [plain.inner]
  · rfl

/-- Settling the last statement. -/
theorem census_settleFinal (folded : Edited (List Statement)) :
    statementCensus c (settleFinal settings folded).value = statementCensus c folded.value := by
  unfold settleFinal
  split
  · rfl
  · rename_i last ends
    simp only
    split
    · rename_i unfolded found
      simp only [Option.ite_none_right_eq_some] at found
      split
      · rw [statementCensus_of_getLast? ends]
        simp [Statement.census_unfoldFinal plain found.2]
      · rfl
    · rfl

/-- The whole end of a function. -/
theorem census_simplifyEnd :
    statementCensus c (simplifyEnd settings statements).value = statementCensus c statements := by
  simp only [simplifyEnd, value_bind]
  have dropped := when_value (fun t => statementCensus c t = statementCensus c statements)
    (settings.applies .dropFinalReturn) dropFinalReturn statements rfl
    (census_dropFinalReturn plain statements)
  refine when_value (fun t => statementCensus c t = statementCensus c statements) _ _ _
    dropped ?_
  rw [← dropped]
  generalize (Edited.when (settings.applies .dropFinalReturn) dropFinalReturn statements).value = rest
  unfold foldFinalReturn
  split
  · rfl
  · rename_i folded found
    obtain ⟨last, ends, isFinal⟩ := Option.bind_eq_some_iff.mp found
    rw [census_settleFinal plain, census_foldReturns plain, statementCensus_of_getLast? ends]
    simp [Statement.census_foldFinal plain isFinal]

end Returns

/-! ## Clauses of a switch -/

section Cases

/-- Dropping the last `break`. -/
theorem census_dropTrailingBreak (plain : c.IsPlain) (cases : List SwitchCase) :
    caseCensus c (dropTrailingBreak cases).value = caseCensus c cases := by
  unfold dropTrailingBreak
  split
  · rename_i last ends
    obtain ⟨front, rfl⟩ := List.getLast?_eq_some_iff.mp ends
    obtain ⟨test, body, span⟩ := last
    split
    · rename_i isBreak
      obtain ⟨final, isFinal, isBreak⟩ := (Option.any_eq_true _ _).mp isBreak
      have nothing : final.census c = 0 := by
        unfold Statement.isPlainBreak at isBreak
        split at isBreak
        · simp [plain.inner]
        · cases isBreak
      simp [statementCensus_of_getLast? isFinal, nothing]
    · rfl
  · rfl

theorem SwitchCase.census_closed (plain : c.IsPlain) (clause : SwitchCase) :
    clause.closed.census c = clause.census c := by
  unfold SwitchCase.closed
  split
  · rfl
  · simp [SwitchCase.census, plain.inner]

theorem caseCensus_modify (plain : c.IsPlain) (cases : List SwitchCase) (index : Nat) :
    caseCensus c (cases.modify index SwitchCase.closed) = caseCensus c cases := by
  induction cases generalizing index with
  | nil => simp
  | cons clause rest ih =>
    cases index with
    | zero => simp [caseCensus_cons, clause.census_closed plain]
    | succ index => simp [caseCensus_cons, ih]

variable (sheds : c.Sheds le)
include sheds

/-- A clause that can go has no statement but a `break`. -/
theorem census_removeCase_le {settings : Settings} {cases : List SwitchCase} {index : Nat}
    (found : redundantCase? settings cases = some index) :
    le (caseCensus c (removeCase cases index)) (caseCensus c cases) := by
  have plain := sheds.toIsPlain
  have rest : le (caseCensus c (cases.eraseIdx index)) (caseCensus c cases) := by
    have isRedundant := List.find?_some found
    obtain ⟨clause, isThere, isRedundant⟩ := (Option.any_eq_true _ _).mp isRedundant
    obtain ⟨bound, rfl⟩ := List.getElem?_eq_some_iff.mp isThere
    have leaves := (Bool.and_eq_true_iff.mp isRedundant).1
    have nothing : statementCensus c (cases[index]).body = 0 := by
      generalize cases[index] = clause at leaves
      obtain ⟨test, body, span⟩ := clause
      unfold SwitchCase.onlyLeaves at leaves
      split at leaves
      · rename_i isBody
        simp_all
      · rename_i only isBody
        unfold Statement.isPlainBreak at leaves
        split at leaves
        · simp_all [plain.inner]
        · cases leaves
      · cases leaves
    have gone : le 0 ((cases[index]).census c) := by
      simpa [SwitchCase.census, nothing, plain.inner] using sheds.optional (cases[index]).test
    have split : cases = cases.take index ++ cases[index] :: cases.drop (index + 1) := by simp
    have whole := congrArg (caseCensus c) split
    rw [whole, eraseIdx_eq_take_drop_succ, caseCensus_append, caseCensus_append, caseCensus_cons]
    exact sheds.add (sheds.refl _) (sheds.add_left gone)
  unfold removeCase
  extract_lets others
  split
  · rwa [caseCensus_modify plain]
  · exact rest

/-- Dropping clauses that do nothing. -/
theorem census_dropRedundant_le (settings : Settings) (fuel : Nat) (cases : List SwitchCase) :
    le (caseCensus c (dropRedundant settings fuel cases).1.value) (caseCensus c cases) := by
  fun_induction dropRedundant settings fuel cases with
  | case1 => exact sheds.refl _
  | case2 => exact sheds.refl _
  | case3 fuel cases index found dropped reports rest ih =>
    rw [rest] at ih
    exact sheds.trans ih (census_removeCase_le sheds found)

/-- All rules for cases. -/
theorem census_simplifyCases_le (settings : Settings) (cases : List SwitchCase) :
    le (caseCensus c (simplifyCases settings cases).1.value) (caseCensus c cases) := by
  have trim (cases : List SwitchCase) : caseCensus c (Edited.when
      (settings.applies .dropTrailingBreak) dropTrailingBreak cases).value = caseCensus c cases :=
    when_value (fun t => caseCensus c t = caseCensus c cases) _ _ cases rfl
      (census_dropTrailingBreak sheds.toIsPlain cases)
  have dropped := census_dropRedundant_le sheds settings
    (Edited.when (settings.applies .dropTrailingBreak) dropTrailingBreak cases).value.length
    (Edited.when (settings.applies .dropTrailingBreak) dropTrailingBreak cases).value
  rw [trim] at dropped
  exact sheds.trans (sheds.of_eq (trim _)) dropped

end Cases

/-! ## Steps that leave the scopes alone -/

namespace Simplify

variable {α β : Type}

/-- A step that leaves the scopes as they are, and what holds of its answer. -/
def Yields (m : Step α) (holds : α → Prop) : Prop := ∀ s, (m s).2.tree = s.tree ∧ holds (m s).1

theorem Yields.pure {a : α} {holds : α → Prop} (known : holds a) : Yields (Pure.pure a) holds :=
  fun _ => ⟨rfl, known⟩

/-- One step after another. -/
theorem Yields.bind {m : Step α} {f : α → Step β} {holds : α → Prop} {holds' : β → Prop}
    (first : Yields m holds) (next : ∀ a, holds a → Yields (f a) holds') :
    Yields (m >>= f) holds' := by
  intro s
  obtain ⟨same, known⟩ := first s
  obtain ⟨same', known'⟩ := next (m s).1 known (m s).2
  exact ⟨same'.trans same, known'⟩

theorem Yields.imp {m : Step α} {holds holds' : α → Prop} (yields : Yields m holds)
    (known : ∀ a, holds a → holds' a) : Yields m holds' :=
  fun s => ⟨(yields s).1, known _ (yields s).2⟩

theorem yields_take {edited : Edited α} {holds : α → Prop} (known : holds edited.value) :
    Yields (take edited) holds :=
  fun _ => ⟨rfl, known⟩

theorem yields_tell (reports : List Diagnostic) : Yields (tell reports) fun _ => True :=
  fun _ => ⟨rfl, trivial⟩

section Plain

variable (plain : c.IsPlain) (settings : Settings)
include plain

/-- Reducing an expression. -/
theorem yields_reduce (slot : Slot) (condition : Bool) (e : Expr) :
    Yields (reduce settings slot condition e) fun e' => e'.census c none = e.census c none :=
  yields_take (settings.census_reduce plain slot condition e)

theorem yields_reduceOptional (condition : Bool) (e : Option Expr) :
    Yields (reduceOptional settings condition e) fun e' => optionalCensus c e' = optionalCensus c e := by
  cases e with
  | none => exact .pure rfl
  | some e => exact (yields_reduce plain settings .top condition e).bind fun _ same => .pure same

theorem yields_reduceDecl (d : VarDecl) :
    Yields (reduceDecl settings d) fun d' => d'.name = d.name ∧ d'.census c = d.census c := by
  obtain ⟨name, init, span⟩ := d
  cases init with
  | none => exact .pure ⟨rfl, rfl⟩
  | some init =>
    refine (yields_reduce plain settings .item false init).bind fun e same => .pure ⟨rfl, ?_⟩
    simp [same]

theorem yields_reduceDecls (decls : List VarDecl) :
    Yields (decls.mapM (reduceDecl settings)) fun decls' =>
      decls'.map (·.name) = decls.map (·.name) ∧ declCensus c decls' = declCensus c decls := by
  induction decls with
  | nil => exact .pure ⟨rfl, rfl⟩
  | cons d rest ih =>
    rw [mapM_cons]
    refine (yields_reduceDecl plain settings d).bind fun d' first => ?_
    exact ih.bind fun rest' others => .pure (by simp [first, others])

end Plain

variable (sheds : c.Sheds le) (settings : Settings)
include sheds

/-- A return of `undefined` loses its value. -/
theorem yields_plainReturn (value : Option Expr) :
    Yields (plainReturn settings value) fun value' => le (optionalCensus c value') (optionalCensus c value) := by
  intro s
  simp only [plainReturn, bind, StateT.bind, get, getThe, MonadStateOf.get, StateT.get, pure]
  split
  · exact ⟨rfl, sheds.optional value⟩
  · exact ⟨rfl, sheds.refl _⟩

/-- The rules for a statement. -/
theorem yields_statement (s : Statement) :
    Yields (statement settings s) fun s' => le (s'.census c) (s.census c) := by
  have plain := sheds.toIsPlain
  match s with
  | .ifElse test yes no span => exact yields_take (Statement.census_simplifyIf_le sheds settings _)
  | .whileLoop test body span =>
    exact yields_take (Statement.census_simplifyWhile_le sheds settings _)
  | .expr e =>
    refine (yields_reduce plain settings .top true e).bind fun e' same => .pure (sheds.of_eq ?_)
    simp [plain.line, same]
  | .var ⟨decls, span⟩ =>
    refine (yields_reduceDecls plain settings decls).bind fun decls' same => .pure (sheds.of_eq ?_)
    simp [same]
  | .doWhile body test span =>
    refine (yields_reduce plain settings .top true test).bind fun test' same => .pure (sheds.of_eq ?_)
    simp [same]
  | .forLoop init test update body span =>
    have finishes (init' : ForInit) (same : init'.census c = init.census c) : Yields
        (do
          let test ← reduceOptional settings true test
          let update ← reduceOptional settings true update
          return Statement.forLoop init' test update body span)
        fun s' => le (s'.census c) ((Statement.forLoop init test update body span).census c) := by
      refine (yields_reduceOptional plain settings true test).bind fun test' sameTest => ?_
      refine (yields_reduceOptional plain settings true update).bind fun update' sameUpdate => ?_
      exact .pure (sheds.of_eq (by simp [same, sameTest, sameUpdate]))
    cases init with
    | expr e =>
      refine (yields_reduce plain settings .top true e).bind fun e' same => finishes _ ?_
      simp [same]
    | var vars => exact finishes (.var vars) rfl
    | nothing => exact finishes .nothing rfl
  | .forIn target object body span =>
    refine (yields_reduce plain settings .top false object).bind fun object' same =>
      .pure (sheds.of_eq ?_)
    simp [same]
  | .switch subject cases span =>
    refine (yields_reduce plain settings .top false subject).bind fun subject' same => ?_
    refine (yields_tell _).bind fun _ _ => ?_
    have taken : Yields (take (simplifyCases settings cases).1) fun cases' =>
        le (caseCensus c cases') (caseCensus c cases) :=
      yields_take (census_simplifyCases_le sheds settings cases)
    refine taken.bind fun cases' less => .pure ?_
    simpa [plain.inner, same] using sheds.add (sheds.refl _) less
  | .returnWith value span =>
    refine (yields_reduceOptional plain settings false value).bind fun value' same => ?_
    refine (yields_plainReturn sheds settings value').bind fun value'' less => .pure ?_
    simpa [plain.inner, ← same] using less
  | .throw value span =>
    refine (yields_reduce plain settings .top false value).bind fun value' same =>
      .pure (sheds.of_eq ?_)
    simp [same]
  | .withObject object body scope span =>
    refine (yields_reduce plain settings .top false object).bind fun object' same =>
      .pure (sheds.of_eq ?_)
    simp [same]
  | .block _ | .function _ | .tryCatch .. | .labeled .. | .breakTo .. | .continueTo ..
  | .debugger _ | .empty _ | .comment .. => exact .pure (sheds.refl _)

/-- Dropping dead code. -/
theorem yields_dropDead (statements : List Statement) :
    Yields (dropDead settings statements) fun statements' =>
      le (statementCensus c statements') (statementCensus c statements) := by
  unfold dropDead
  split
  · exact (yields_tell _).bind fun _ _ => yields_take (census_dropUnreachable_le sheds statements)
  · exact .pure (sheds.refl _)

end Simplify

/-! ## Rules that ask the scopes -/

namespace ScopeTree

/-- The first statement of a list is dropped, if it is a function that nothing can call, or kept. -/
theorem dropFunctions_cons (t : ScopeTree) (s : Statement) (rest : List Statement) :
    (∃ fn, s = .function fn ∧ t.isUnusedFunction fn = true ∧
      (t.dropFunctions (s :: rest)).1.value = ((t.release s).dropFunctions rest).1.value ∧
      (t.dropFunctions (s :: rest)).2 = ((t.release s).dropFunctions rest).2) ∨
    ((t.dropFunctions (s :: rest)).1.value = s :: (t.dropFunctions rest).1.value ∧
      (t.dropFunctions (s :: rest)).2 = (t.dropFunctions rest).2) := by
  cases s with
  | function fn =>
    by_cases isUnused : t.isUnusedFunction fn = true
    · exact .inl ⟨fn, rfl, isUnused, by simp [dropFunctions, isUnused], by simp [dropFunctions, isUnused]⟩
    · exact .inr ⟨by simp [dropFunctions, isUnused], by simp [dropFunctions, isUnused]⟩
  | _ => exact .inr ⟨rfl, rfl⟩

variable (sheds : c.Sheds le)
include sheds

/-- Dropping functions that nothing calls. -/
theorem census_dropFunctions_le (goes : ∀ fn : Function, le 0 (fn.census c)) (t : ScopeTree)
    (statements : List Statement) :
    le (statementCensus c (t.dropFunctions statements).1.value) (statementCensus c statements) := by
  induction statements generalizing t with
  | nil => exact sheds.refl _
  | cons s rest ih =>
    rcases t.dropFunctions_cons s rest with ⟨fn, rfl, -, kept, -⟩ | ⟨kept, -⟩
    · rw [kept]
      refine sheds.trans (ih _) (sheds.add_left ?_)
      simpa [sheds.inner] using goes fn
    · rw [kept]
      exact sheds.add (sheds.refl _) (ih t)

/-- A declaration and the mention of its name become the value. -/
theorem census_returnInitializer_le (goes : ∀ id, le 0 (c.declare id)) (t : ScopeTree)
    (statements : List Statement) :
    le (statementCensus c (t.returnInitializer statements).1.value) (statementCensus c statements) := by
  unfold returnInitializer
  split
  · rename_i last declaration before reversed
    have whole : statements = before.reverse ++ [declaration, last] := by
      simpa using congrArg List.reverse reversed
    split
    · rename_i init mention v found
      have less : le (init.census c none) (declaration.census c + last.census c) := by
        unfold returnedInitializer? at found
        split at found
        · rename_i name value span span' id idSpan span''
          simp only [bind, Option.bind_eq_some_iff] at found
          obtain ⟨_, _, _, _, found⟩ := found
          simp only [Option.ite_none_right_eq_some, Option.some.injEq, Prod.mk.injEq] at found
          obtain ⟨-, rfl, -⟩ := found
          have parts := sheds.add (sheds.add (goes name) (sheds.refl (value.census c none)))
            (sheds.expr ⟨.ident id, idSpan⟩)
          simpa [sheds.inner] using parts
        · cases found
      rw [whole]
      simpa [sheds.inner] using sheds.add (sheds.refl (statementCensus c before.reverse)) less
    · exact sheds.refl _
  · exact sheds.refl _

omit sheds in
/-- Parameters are only dropped. -/
theorem neededParams_subset (t : ScopeTree) (params : List Ident) :
    t.neededParams params ⊆ params := by
  intro id mem
  have := (dropWhile_sublist _).subset (mem_reverse.mp mem)
  exact mem_reverse.mp this

end ScopeTree

namespace Simplify

/-- What every rule for a statement list preserves is preserved by all of them. -/
theorem list_induct {motive : ScopeTree → List Statement → Prop}
    (unnestAll : ∀ t l, motive t l → motive t (unnestAll l))
    (dropEmpty : ∀ t l, motive t l → motive t (dropEmpty l).value)
    (dropUnreachable : ∀ t l, motive t l → motive t (dropUnreachable l).1.value)
    (joinVars : ∀ t l, motive t l → motive t (joinVars l).value)
    (joinComments : ∀ t l, motive t l → motive t (joinComments l).value)
    (dropFunctions : ∀ t l, motive t l → motive (t.dropFunctions l).2 (t.dropFunctions l).1.value)
    (returnInitializer : ∀ t l, motive t l →
      motive (t.returnInitializer l).2 (t.returnInitializer l).1.value)
    (foldReturns : ∀ settings t l, motive t l → motive t (foldReturns settings l).value)
    (settings : Settings) (statements : List Statement) (s : State)
    (start : motive s.tree statements) :
    motive (list settings statements s).2.tree (list settings statements s).1 := by
  let Keeps (m : List Statement → Step (List Statement)) : Prop :=
    ∀ l s, motive s.tree l → motive (m l s).2.tree (m l s).1
  have next {m n : List Statement → Step (List Statement)} (first : Keeps m) (second : Keeps n) :
      Keeps fun l => m l >>= n := fun l s known => second _ _ (first l s known)
  have makes {rule : List Statement → Edited (List Statement)}
      (keeps : ∀ t l, motive t l → motive t (rule l).value) : Keeps fun l => take (rule l) :=
    fun l s known => keeps s.tree l known
  have whenAsked (applies : Bool) {rule : List Statement → Edited (List Statement)}
      (keeps : ∀ t l, motive t l → motive t (rule l).value) :
      ∀ t l, motive t l → motive t (Edited.when applies rule l).value :=
    fun t l known => when_value (motive t) applies rule l known (keeps t l known)
  have asks (applies : Bool) {rule : ScopeTree → List Statement → Edited (List Statement) × ScopeTree}
      (keeps : ∀ t l, motive t l → motive (rule t l).2 (rule t l).1.value) :
      Keeps (takeWith applies rule) := by
    intro l s known
    unfold takeWith
    split
    · exact keeps s.tree l known
    · exact known
  have dead : Keeps (dropDead settings) := by
    intro l s known
    unfold dropDead
    split
    · exact dropUnreachable s.tree l known
    · exact known
  exact next (makes (whenAsked _ unnestAll)) (next (makes dropEmpty) (next dead
    (next (makes (whenAsked _ joinVars)) (next (makes (whenAsked _ joinComments))
      (next (asks _ dropFunctions) (next (asks _ returnInitializer)
        (makes (foldReturns settings)))))))) statements s start

/-- At the end of a function its last statements are folded, and parameters may go. -/
theorem functionEnd_cases (settings : Settings) (fn : Function) (s : State) :
    (functionEnd settings fn s).2.tree = s.tree ∧ ∃ params, (functionEnd settings fn s).1 =
      { fn with params, body := { fn.body with statements := (simplifyEnd settings fn.body.statements).value } } ∧
      (params = fn.params ∨ params = s.tree.neededParams fn.params) := by
  let body : Block := { fn.body with statements := (simplifyEnd settings fn.body.statements).value }
  have whole : functionEnd settings fn s =
      (if settings.removes .dropParameters && s.tree.mayDropParams { fn with body } then
        take ⟨{ fn with params := s.tree.neededParams fn.params, body },
          (s.tree.neededParams fn.params).length ≠ fn.params.length⟩
      else pure { fn with body })
      { s with changed := s.changed || (simplifyEnd settings fn.body.statements).changed } := rfl
  rw [whole]
  split
  · exact ⟨rfl, _, rfl, .inr rfl⟩
  · exact ⟨rfl, _, rfl, .inl rfl⟩

/-! ## The whole walk -/

variable {N : Type} [AddMonoid N]

/-- What the rules have to fit into, besides coming to no more: where parts are put together, and where
the scopes are asked. What is passed over has to fit as well. -/
structure Fits (settings : Settings) (c : Census N) (c' : Census M) (le : M → M → Prop)
    (P : ScopeTree → N → M → ScopeTree → Prop) : Prop where
  zero : ∀ t, P t 0 0 t
  add : ∀ {t t₁ t₂ a a₁ b b₁}, P t a a₁ t₁ → P t₁ b b₁ t₂ → P t (a + b) (a₁ + b₁) t₂
  expr : ∀ around around' (e e' : Expr) s s', e.form.walk (rules settings) s = (e'.form, s') →
    c.expr? around e = none ∧ c'.expr? around' e' = none ∨
      P s.tree (e.census c around) (e'.census c' around') s'.tree := by
    intros; exact .inl ⟨rfl, rfl⟩
  less : ∀ {t a b b' t'}, P t a b t' → le b' b → P t a b' t'
  use : ∀ isCallee id t, P t (c.use isCallee id) (c'.use isCallee id) t
  declare : ∀ id t, P t (c.declare id) (c'.declare id) t
  function : ∀ (fn : Function) body s s₁, fn.body.walk (rules settings) s = (body, s₁) →
    P s.tree (fn.body.census c) (body.census c') s₁.tree →
    P s.tree (fn.census c) ((functionEnd settings { fn with body } s₁).1.census c') s₁.tree
  handler : ∀ clause body {t t' a b}, P t a b t' →
    P t (c.handler clause a) (c'.handler { clause with body } b) t'
  withBody : ∀ scope {t t' a b}, P t a b t' → P t (c.withBody scope a) (c'.withBody scope b) t'
  dropFunctions : ∀ {t t' : ScopeTree} {a} l, P t a (statementCensus c' l) t' →
    P t a (statementCensus c' (t'.dropFunctions l).1.value) (t'.dropFunctions l).2
  returnInitializer : ∀ {t t' : ScopeTree} {a} l, P t a (statementCensus c' l) t' →
    P t a (statementCensus c' (t'.returnInitializer l).1.value) (t'.returnInitializer l).2

/-- What the rules fit into, the walk does. -/
theorem Fits.tracks {settings : Settings} {c : Census N} {c' : Census M} {le : M → M → Prop}
    {P : ScopeTree → N → M → ScopeTree → Prop} (fits : Fits settings c c' le P) (plain : c.IsPlain)
    (sheds : c'.Sheds le) : c.Tracks c' (rules settings) fun s a b s' => P s.tree a b s'.tree where
  zero s := fits.zero s.tree
  add first second := fits.add first second
  line e _ _ known := by simpa [plain.line, sheds.line] using known
  inner known := by simpa [plain.inner, sheds.inner] using known
  list known := by simpa [plain.list, sheds.list] using known
  unanswered around around' form span s _ _ :=
    ⟨rfl, fits.expr around around' ⟨form, span⟩ ⟨(form.walk (rules settings) s).1, span⟩ s _ rfl⟩
  quiet around id span := Expr.census_ident sheds.toIsPlain around id span
  use isCallee id s := fits.use isCallee id s.tree
  declare id s := fits.declare id s.tree
  function fn body s s₁ walks known := by
    have tree := (functionEnd_cases settings { fn with body } s₁).1
    have whole := fits.function fn body s s₁ walks known
    rw [← tree] at whole
    exact whole
  handler clause body s s₁ _ known := by
    obtain ⟨param, body', scope, span⟩ := clause
    exact fits.handler ⟨param, body', scope, span⟩ body known
  withBody scope _ _ _ _ _ known := fits.withBody scope known
  statement a st s s₁ known := by
    obtain ⟨tree, less⟩ := yields_statement sheds settings st s₁
    have whole := fits.less known less
    rw [← tree] at whole
    exact whole
  block a b s s₁ known := by
    have plain' := sheds.toIsPlain
    rw [sheds.list] at known ⊢
    refine list_induct (motive := fun t l => P s.tree a (statementCensus c' l) t)
      ?_ ?_ ?_ ?_ ?_ ?_ ?_ ?_ settings b s₁ known
    · intro _ l known
      rwa [statementCensus_unnestAll plain']
    · intro _ l known
      rwa [statementCensus_dropEmpty plain']
    · intro _ l known
      exact fits.less known (census_dropUnreachable_le sheds l)
    · intro _ l known
      rwa [statementCensus_joinVars]
    · intro _ l known
      rwa [statementCensus_joinComments plain']
    · intro _ l known
      exact fits.dropFunctions l known
    · intro _ l known
      exact fits.returnInitializer l known
    · intro _ _ l known
      rwa [census_foldReturns plain']
  switchCase a clause s s₁ known := by
    obtain ⟨test, body, span⟩ := clause
    obtain ⟨tree, dead⟩ := yields_dropDead sheds settings body s₁
    have less : le (SwitchCase.census c' ⟨test, (dropDead settings body s₁).1, span⟩)
        (SwitchCase.census c' ⟨test, body, span⟩) := by
      simpa [SwitchCase.census, sheds.inner] using sheds.add (sheds.refl (optionalCensus c' test)) dead
    have whole := fits.less known less
    rw [← tree] at whole
    exact whole

end Simplify

end Minifier
