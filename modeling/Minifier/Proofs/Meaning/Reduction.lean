import Minifier.Proofs.Meaning.Negation
import Minifier.Simplify.Branch

/-!
# What is left of an expression without its negations

Getting rid of negations changes expressions deep inside others, so what an expression means has to
come from what its parts mean. A `Semantics` says how, for each form that has no meaning of its own;
it is free to choose, except that `delete`, `in` and `instanceof` answer with booleans. An operator
that assigns, deletes or calls asks more of its operand than a value, so the meaning of an expression
tells its target as well: a name, or a property of what its object evaluates to.

An expression in which negations were got rid of does what it did and comes to the same value, or, in
a condition, to a value that counts as true if the old one does (`Semantics.eval_reduce`).
-/

set_option autoImplicit false

namespace Minifier

open Edited

namespace Machine

variable {m : Machine}

/-! ## Runs that answer with a boolean -/

/-- A run whose value, if it comes to one, is a boolean. -/
def IsBoolean (run : m.Run m.Value) : Prop := ∃ answer : m.Run Bool, run = m.ofBool <$> answer

/-- The value of such a run can be had from its truth. -/
theorem IsBoolean.eq_truthOf {run : m.Run m.Value} (isBoolean : m.IsBoolean run) :
    run = m.ofBool <$> m.truthOf run := by
  obtain ⟨answer, rfl⟩ := isBoolean
  simp [truthOf]

theorem isBoolean_pure (b : Bool) : m.IsBoolean (pure (m.ofBool b)) := ⟨pure b, by simp⟩

theorem isBoolean_opposite (operand : m.Run m.Value) : m.IsBoolean (m.opposite operand) :=
  ⟨not <$> m.truthOf operand, by simp [opposite, truthOf]⟩

theorem isBoolean_compared (op : BinaryOp) (left right : m.Run m.Value) :
    m.IsBoolean (m.compared op left right) :=
  ⟨do
    let l ← left
    let r ← right
    m.compare op l r, by simp [compared]⟩

/-- Of an operand of `!` only the truth matters. -/
theorem opposite_eq (operand : m.Run m.Value) :
    m.opposite operand = (fun truth => m.ofBool !truth) <$> m.truthOf operand := by
  simp [opposite, truthOf]

/-- Of the left operand of a comma not even that does. -/
theorem andThen_eq (left right : m.Run m.Value) :
    m.andThen left right = (do
      let _ ← m.truthOf left
      right) := by
  simp [andThen, truthOf]

/-- Of the test of a conditional only the truth matters. -/
theorem choose_eq (test yes no : m.Run m.Value) :
    m.choose test yes no = (do
      if ← m.truthOf test then yes else no) := by
  simp [choose, truthOf]

variable {left right yes no : m.Run m.Value}

theorem IsBoolean.both (first : m.IsBoolean left) (second : m.IsBoolean right) :
    m.IsBoolean (m.both left right) := by
  obtain ⟨l, rfl⟩ := first
  obtain ⟨r, rfl⟩ := second
  refine ⟨do if ← l then r else return false, ?_⟩
  simp only [Machine.both, bind_map_left, map_bind, isTruthy_ofBool]
  congr 1
  funext truth
  cases truth <;> simp

theorem IsBoolean.either (first : m.IsBoolean left) (second : m.IsBoolean right) :
    m.IsBoolean (m.either left right) := by
  obtain ⟨l, rfl⟩ := first
  obtain ⟨r, rfl⟩ := second
  refine ⟨do if ← l then return true else r, ?_⟩
  simp only [Machine.either, bind_map_left, map_bind, isTruthy_ofBool]
  congr 1
  funext truth
  cases truth <;> simp

theorem IsBoolean.andThen (left : m.Run m.Value) (second : m.IsBoolean right) :
    m.IsBoolean (m.andThen left right) := by
  obtain ⟨r, rfl⟩ := second
  refine ⟨do let _ ← left; r, ?_⟩
  simp [Machine.andThen]

theorem IsBoolean.choose (test : m.Run m.Value) (first : m.IsBoolean yes) (second : m.IsBoolean no) :
    m.IsBoolean (m.choose test yes no) := by
  obtain ⟨y, rfl⟩ := first
  obtain ⟨n, rfl⟩ := second
  refine ⟨do if ← m.truthOf test then y else n, ?_⟩
  simp only [Machine.choose, truthOf, bind_map_left, map_bind]
  congr 1
  funext v
  cases m.isTruthy v <;> rfl

end Machine

/-! ## Meanings from meanings -/

/-- Where an assignment to an expression would go. -/
inductive Target (R : Type) where
  | name (id : Ident)
  | member (object : R) (name : String)
  | index (object key : R)

/-- What an expression means: the run that evaluates it, and its target if it has one. -/
structure Meaning (R : Type) where
  value : R
  target : Option (Target R) := none

/-- The meaning of each form from the meanings of its parts, where it is free to choose. -/
structure Semantics extends Machine where
  number : Number → Run Value
  string : String → Run Value
  regex : String → String → Run Value
  null : Run Value
  this : Run Value
  ident : Ident → Run Value
  array : List (Option (Run Value)) → Run Value
  object : List (PropertyKey × PropertyKind × Run Value) → Run Value
  function : Function → Run Value
  member : Run Value → String → Run Value
  index : Run Value → Run Value → Run Value
  call : Meaning (Run Value) → List (Run Value) → Run Value
  new : Run Value → Option (List (Run Value)) → Run Value
  unary : UnaryOp → Meaning (Run Value) → Run Value
  update : UpdateOp → Bool → Meaning (Run Value) → Run Value
  binary : BinaryOp → Meaning (Run Value) → Meaning (Run Value) → Run Value
  isBoolean_delete : ∀ operand, toMachine.IsBoolean (unary .delete operand)
  isBoolean_word : ∀ {op : BinaryOp}, op.isWord → ∀ left right,
    toMachine.IsBoolean (binary op left right)

namespace Semantics

variable (S : Semantics)

/-- The run of a prefix operator. -/
def prefixed (op : UnaryOp) (operand : Meaning (S.Run S.Value)) : S.Run S.Value :=
  match op with
  | .not => S.opposite operand.value
  | op => S.unary op operand

/-- The run of an infix operator. -/
def combined (op : BinaryOp) (left right : Meaning (S.Run S.Value)) : S.Run S.Value :=
  match op with
  | .logicalAnd => S.both left.value right.value
  | .logicalOr => S.either left.value right.value
  | .comma => S.andThen left.value right.value
  | op => if op.isComparison then S.compared op left.value right.value else S.binary op left right

mutual

/-- What an expression means. -/
def meaning (S : Semantics) : Expr → Meaning (S.Run S.Value)
  | ⟨form, _⟩ => S.formMeaning form

/-- What a form means. -/
def formMeaning (S : Semantics) : Form → Meaning (S.Run S.Value)
  | .number value => { value := S.number value }
  | .string value => { value := S.string value }
  | .regex pattern flags => { value := S.regex pattern flags }
  | .boolean value => { value := pure (S.ofBool value) }
  | .null => { value := S.null }
  | .this => { value := S.this }
  | .ident id => { value := S.ident id, target := some (.name id) }
  | .array items => { value := S.array (S.itemRuns items) }
  | .object properties => { value := S.object (S.propertyRuns properties) }
  | .function fn => { value := S.function fn }
  | .member object name =>
    let run := (S.meaning object).value
    { value := S.member run name, target := some (.member run name) }
  | .index object key =>
    let run := (S.meaning object).value
    let keyRun := (S.meaning key).value
    { value := S.index run keyRun, target := some (.index run keyRun) }
  | .call callee args => { value := S.call (S.meaning callee) (S.argRuns args) }
  | .new callee none => { value := S.new (S.meaning callee).value none }
  | .new callee (some args) => { value := S.new (S.meaning callee).value (some (S.argRuns args)) }
  | .unary op operand => { value := S.prefixed op (S.meaning operand) }
  | .update op before operand => { value := S.update op before (S.meaning operand) }
  | .binary op left right => { value := S.combined op (S.meaning left) (S.meaning right) }
  | .conditional test yes no =>
    { value := S.choose (S.meaning test).value (S.meaning yes).value (S.meaning no).value }

/-- Arguments run in order. -/
def argRuns (S : Semantics) : List Expr → List (S.Run S.Value)
  | [] => []
  | e :: rest => (S.meaning e).value :: S.argRuns rest

/-- So do items. -/
def itemRuns (S : Semantics) : List (Option Expr) → List (Option (S.Run S.Value))
  | [] => []
  | none :: rest => none :: S.itemRuns rest
  | some e :: rest => some (S.meaning e).value :: S.itemRuns rest

/-- So do the values of properties. -/
def propertyRuns (S : Semantics) : List Property → List (PropertyKey × PropertyKind × S.Run S.Value)
  | [] => []
  | ⟨key, kind, value, _⟩ :: rest => (key, kind, (S.meaning value).value) :: S.propertyRuns rest

end

/-- Evaluating an expression. -/
def eval (e : Expr) : S.Run S.Value := (S.meaning e).value

/-- Evaluating an expression of which only the truth of the value is asked for. -/
def truth (e : Expr) : S.Run Bool := S.truthOf (S.eval e)

/-- The expressions of a semantics, of which nothing is told but how they evaluate. -/
def interpretation : Interpretation where
  toMachine := S.toMachine
  eval := S.eval
  eval_boolean _ _ := by simp only [eval, meaning, formMeaning]
  eval_not _ _ := by simp only [eval, meaning, formMeaning, prefixed]
  eval_and _ _ _ := by simp only [eval, meaning, formMeaning, combined]
  eval_or _ _ _ := by simp only [eval, meaning, formMeaning, combined]
  eval_comma _ _ _ := by simp only [eval, meaning, formMeaning, combined]
  eval_comparison {op} comparison _ _ _ := by
    cases op <;> first
      | exact absurd comparison (by decide)
      | simp only [eval, meaning, formMeaning, combined, comparison, if_true]
  eval_conditional _ _ _ _ := by simp only [eval, meaning, formMeaning]

/-! ## Expressions that answer with a boolean -/

theorem isBoolean_eval {e : Expr} (valued : e.isBooleanValued) : S.IsBoolean (S.eval e) := by
  fun_induction Expr.isBooleanValued e with
  | case1 value span => exact S.isBoolean_pure value
  | case2 op operand span =>
    cases op
    case not => exact S.isBoolean_opposite _
    case delete => exact S.isBoolean_delete _
    all_goals exact absurd valued (by decide)
  | case3 op left right span comparison =>
    cases op <;> first
      | exact S.isBoolean_compared _ _ _
      | exact S.isBoolean_word rfl _ _
      | exact absurd comparison (by decide)
  | case4 op left right span notComparison logical first second =>
    rw [Bool.and_eq_true] at valued
    cases op <;> first
      | exact .both (first valued.1) (second valued.2)
      | exact .either (first valued.1) (second valued.2)
      | exact absurd logical (by decide)
  | case5 left right span notComparison notLogical second => exact .andThen _ (second valued)
  | case6 => exact absurd valued (by decide)
  | case7 test yes no span first second =>
    rw [Bool.and_eq_true] at valued
    exact .choose _ (first valued.1) (second valued.2)
  | case8 => exact absurd valued (by decide)

/-- No such expression can be assigned to. -/
theorem target_meaning {e : Expr} (valued : e.isBooleanValued) : (S.meaning e).target = none := by
  obtain ⟨form, span⟩ := e
  cases form <;> first
    | rfl
    | simp [Expr.isBooleanValued] at valued

/-! ## Meanings that cannot be told apart -/

/-- Two meanings that are the same for those who look: in a condition only the truth is seen. -/
def Agree (condition : Bool) (a b : Meaning (S.Run S.Value)) : Prop :=
  if condition then S.truthOf a.value = S.truthOf b.value else a = b

variable {S} {condition : Bool} {a b left left' right right' : Meaning (S.Run S.Value)}

theorem Agree.of_eq (same : a = b) : S.Agree condition a b := by
  subst same
  unfold Agree
  split <;> rfl

theorem Agree.eq (agree : S.Agree false a b) : a = b := agree

theorem Agree.trans {c : Meaning (S.Run S.Value)} (first : S.Agree condition a b)
    (second : S.Agree condition b c) : S.Agree condition a c := by
  cases condition with
  | true => exact Eq.trans first second
  | false => exact Eq.trans first second

theorem Agree.truthOf (agree : S.Agree condition a b) : S.truthOf a.value = S.truthOf b.value := by
  cases condition with
  | true => exact agree
  | false => rw [agree.eq]

theorem Agree.prefixed {op : UnaryOp} (agree : S.Agree (op = .not) a b) :
    S.prefixed op a = S.prefixed op b := by
  cases op
  case not => simp only [Semantics.prefixed, Machine.opposite_eq, agree.truthOf]
  all_goals rw [Agree.eq agree]

theorem Agree.combined {op : BinaryOp}
    (first : S.Agree (Expr.operandConditions op condition).1 left left')
    (second : S.Agree (Expr.operandConditions op condition).2 right right') :
    S.Agree condition { value := S.combined op left right }
      { value := S.combined op left' right' } := by
  cases op
  case logicalAnd =>
    cases condition with
    | true =>
      show S.truthOf (S.both _ _) = S.truthOf (S.both _ _)
      rw [S.truthOf_both, S.truthOf_both, first.truthOf, second.truthOf]
    | false => rw [first.eq, second.eq]; exact .of_eq rfl
  case logicalOr =>
    cases condition with
    | true =>
      show S.truthOf (S.either _ _) = S.truthOf (S.either _ _)
      rw [S.truthOf_either, S.truthOf_either, first.truthOf, second.truthOf]
    | false => rw [first.eq, second.eq]; exact .of_eq rfl
  case comma =>
    cases condition with
    | true =>
      show S.truthOf (S.andThen _ _) = S.truthOf (S.andThen _ _)
      rw [S.truthOf_andThen, S.truthOf_andThen, first.truthOf, second.truthOf]
    | false =>
      rw [second.eq]
      simp only [Semantics.combined, Machine.andThen_eq, first.truthOf]
      exact .of_eq rfl
  all_goals rw [first.eq, second.eq]; exact .of_eq rfl

theorem Agree.choose {test test' yes yes' no no' : Meaning (S.Run S.Value)}
    (choice : S.Agree true test test') (first : S.Agree condition yes yes')
    (second : S.Agree condition no no') :
    S.Agree condition { value := S.choose test.value yes.value no.value }
      { value := S.choose test'.value yes'.value no'.value } := by
  cases condition with
  | true =>
    show S.truthOf (S.choose _ _ _) = S.truthOf (S.choose _ _ _)
    rw [S.truthOf_choose, S.truthOf_choose, choice.truthOf, first.truthOf, second.truthOf]
  | false =>
    rw [first.eq, second.eq]
    simp only [Machine.choose_eq, choice.truthOf]
    exact .of_eq rfl

/-! ## Without negations -/

/-- A negation that is replaced by the opposite of its operand. -/
theorem agree_reduceNot {short : Bool} {slot : Slot} {e reduced : Expr}
    (found : e.reduceNot? short slot (!condition) = some reduced) :
    S.Agree condition (S.meaning reduced) (S.meaning e) := by
  unfold Expr.reduceNot? at found
  split at found
  next operand span =>
    simp only [Option.ite_none_right_eq_some, Option.some.injEq, Bool.and_eq_true,
      Bool.or_eq_true] at found
    obtain ⟨⟨-, valued⟩, rfl⟩ := found
    set candidate := operand.negated short .unaryOperand slot
    have opposed : S.truthOf (S.eval candidate) = not <$> S.truthOf (S.eval operand) :=
      S.interpretation.opposed_negated short .unaryOperand slot operand
    have same : S.truthOf (S.eval candidate) = S.truthOf (S.opposite (S.eval operand)) := by
      rw [opposed, S.truthOf_opposite]
    cases condition with
    | true => exact same
    | false =>
      replace valued : candidate.isBooleanValued := by simpa using valued
      have value : S.eval candidate = S.opposite (S.eval operand) := by
        rw [(S.isBoolean_eval valued).eq_truthOf, same, ← (S.isBoolean_opposite _).eq_truthOf]
      have target := S.target_meaning valued
      show S.meaning candidate = { value := S.opposite (S.eval operand) }
      rw [← value, eval]
      generalize S.meaning candidate = meaning at target
      cases meaning
      cases target
      rfl
  next => cases found

variable (S)

mutual

theorem agree_reduce (short : Bool) (slot : Slot) (condition : Bool) : ∀ e : Expr,
    S.Agree condition (S.meaning (e.reduce short slot condition).value) (S.meaning e)
  | ⟨form, span⟩ => by
    have parts : S.Agree condition (S.meaning ⟨(form.reduceParts short condition).value, span⟩)
      (S.meaning ⟨form, span⟩) := agree_reduceParts short condition form
    simp only [Expr.reduce, value_bind]
    cases found : Expr.reduceNot? short slot (!condition)
        ⟨(form.reduceParts short condition).value, span⟩ with
    | none => simpa [Edited.orElse] using parts
    | some reduced => exact (agree_reduceNot found).trans parts

theorem agree_reduceParts (short condition : Bool) : ∀ form : Form,
    S.Agree condition (S.formMeaning (form.reduceParts short condition).value) (S.formMeaning form)
  | .unary op operand =>
    .of_eq (congrArg (Meaning.mk · none)
      (agree_reduce short .unaryOperand (op = .not) operand).prefixed)
  | .binary op left right =>
    .combined (agree_reduce short (.operand op .left) _ left)
      (agree_reduce short (.operand op .right) _ right)
  | .conditional test yes no =>
    .choose (agree_reduce short .conditionalTest true test)
      (agree_reduce short .conditionalBranch condition yes)
      (agree_reduce short .conditionalBranch condition no)
  | .member object name => by
    have same := (agree_reduce short .object false object).eq
    simp only [Form.reduceParts, value_bind, value_pure, formMeaning, same]
    exact .of_eq rfl
  | .index object key => by
    have sameObject := (agree_reduce short .object false object).eq
    have sameKey := (agree_reduce short .top false key).eq
    simp only [Form.reduceParts, value_bind, value_pure, formMeaning, sameObject, sameKey]
    exact .of_eq rfl
  | .call callee args => by
    have same := (agree_reduce short .object false callee).eq
    simp only [Form.reduceParts, value_bind, value_pure, formMeaning, same,
      argRuns_reduceArgs short args]
    exact .of_eq rfl
  | .new callee (some args) => by
    simp only [Form.reduceParts, value_bind, value_pure, formMeaning,
      argRuns_reduceArgs short args]
    exact .of_eq rfl
  | .array items => by
    simp only [Form.reduceParts, value_bind, value_pure, formMeaning,
      itemRuns_reduceItems short items]
    exact .of_eq rfl
  | .object properties => by
    simp only [Form.reduceParts, value_bind, value_pure, formMeaning,
      propertyRuns_reduceProperties short properties]
    exact .of_eq rfl
  | .number _ | .string _ | .regex _ _ | .boolean _ | .null | .this | .ident _ | .function _
  | .new _ none | .update _ _ _ => .of_eq rfl

theorem argRuns_reduceArgs (short : Bool) : ∀ args : List Expr,
    S.argRuns (reduceArgs short args).value = S.argRuns args
  | [] => rfl
  | e :: rest => by
    have same := (agree_reduce short .item false e).eq
    simp only [reduceArgs, value_bind, value_pure, argRuns, same,
      argRuns_reduceArgs short rest]

theorem itemRuns_reduceItems (short : Bool) : ∀ items : List (Option Expr),
    S.itemRuns (reduceItems short items).value = S.itemRuns items
  | [] => rfl
  | none :: rest => by
    simp only [reduceItems, value_bind, value_pure, itemRuns,
      itemRuns_reduceItems short rest]
  | some e :: rest => by
    have same := (agree_reduce short .item false e).eq
    simp only [reduceItems, value_bind, value_pure, itemRuns, same,
      itemRuns_reduceItems short rest]

theorem propertyRuns_reduceProperties (short : Bool) : ∀ properties : List Property,
    S.propertyRuns (reduceProperties short properties).value = S.propertyRuns properties
  | [] => rfl
  | ⟨key, .value, value, span⟩ :: rest => by
    have same := (agree_reduce short .item false value).eq
    simp only [reduceProperties, value_bind, value_pure, propertyRuns, same,
      propertyRuns_reduceProperties short rest]
  | ⟨key, .getter, value, span⟩ :: rest | ⟨key, .setter, value, span⟩ :: rest => by
    simp only [reduceProperties, value_bind, value_pure, propertyRuns,
      propertyRuns_reduceProperties short rest]

end

/-- The same under the settings, which may switch it off. -/
theorem agree_settings_reduce (settings : Settings) (slot : Slot) (condition : Bool) (e : Expr) :
    S.Agree condition (S.meaning (settings.reduce slot condition e).value) (S.meaning e) :=
  when_value (fun reduced => S.Agree condition (S.meaning reduced) (S.meaning e)) _ _ e
    (.of_eq rfl) (S.agree_reduce settings.shortBooleans slot condition e)

/-- Getting rid of negations keeps what an expression does and the value it comes to; in a condition
it keeps what the expression does and whether the value counts as true. -/
theorem eval_reduce (settings : Settings) (slot : Slot) (e : Expr) :
    S.eval (settings.reduce slot false e).value = S.eval e ∧
      S.isTruthy <$> S.eval (settings.reduce slot true e).value = S.isTruthy <$> S.eval e := by
  have value := (S.agree_settings_reduce settings slot false e).eq
  have truth := (S.agree_settings_reduce settings slot true e).truthOf
  exact ⟨congrArg Meaning.value value, truth⟩

end Semantics

end Minifier
