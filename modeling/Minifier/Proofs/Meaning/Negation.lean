import Minifier.Proofs.Simplify.Census

/-!
# What a negation means

Evaluating an expression does something and comes to a value. What it does is left open: a run is an
element of any monad, which may hold a state, raise exceptions, write a log, or all of these, so two
runs that are equal do the same things in the same order, from every state. What a value is and what
most expressions mean is left open too. Only the forms that negation goes through have a meaning of
their own: `!`, `&&`, `||`, commas and conditionals evaluate no more than they have to, from the left,
and comparisons come in pairs with opposite answers.

The opposite of an expression then does what the expression does, and comes to a value that counts as
true exactly if that of the expression does not (`Interpretation.eval_negated`).
-/

set_option autoImplicit false

namespace Minifier

/-- What evaluation is made of: runs, values, and the comparison of two values. -/
structure Machine where
  /-- The runs that come to an answer of some type. -/
  Run : Type → Type
  [monad : Monad Run]
  [lawful : LawfulMonad Run]
  Value : Type
  isTruthy : Value → Bool
  ofBool : Bool → Value
  isTruthy_ofBool : ∀ b, isTruthy (ofBool b) = b
  /-- Comparing may do something as well, as it does where it has to convert its operands. -/
  compare : BinaryOp → Value → Value → Run Bool
  compare_inverse : ∀ {op inverse : BinaryOp}, op.inverse? = some inverse →
    ∀ left right, compare inverse left right = not <$> compare op left right

attribute [instance] Machine.monad Machine.lawful
attribute [simp] Machine.isTruthy_ofBool

namespace Machine

variable (m : Machine) (left right : m.Run m.Value)

/-- The run of `!`. -/
def opposite (operand : m.Run m.Value) : m.Run m.Value := do
  let v ← operand
  return m.ofBool !m.isTruthy v

/-- The run of `&&`: the right operand is evaluated only if the left one counts as true. -/
def both : m.Run m.Value := do
  let v ← left
  if m.isTruthy v then right else return v

/-- The run of `||`: the right operand is evaluated only if the left one does not count as true. -/
def either : m.Run m.Value := do
  let v ← left
  if m.isTruthy v then return v else right

/-- The run of a comma: the value of the left operand does not matter. -/
def andThen : m.Run m.Value := do
  let _ ← left
  right

/-- The run of a comparison. -/
def compared (op : BinaryOp) (left right : m.Run m.Value) : m.Run m.Value := do
  let l ← left
  let r ← right
  return m.ofBool (← m.compare op l r)

/-- The run of a conditional. -/
def choose (test yes no : m.Run m.Value) : m.Run m.Value := do
  let v ← test
  if m.isTruthy v then yes else no

/-- A run of which only the truth of the value is asked for. -/
def truthOf (run : m.Run m.Value) : m.Run Bool := m.isTruthy <$> run

/-! ## The truth of each form -/

theorem truthOf_opposite (operand : m.Run m.Value) :
    m.truthOf (m.opposite operand) = not <$> m.truthOf operand := by
  simp [truthOf, opposite]

theorem truthOf_both :
    m.truthOf (m.both left right) = (do
      if ← m.truthOf left then m.truthOf right else return false) := by
  simp only [truthOf, both, map_bind, bind_map_left]
  congr 1
  funext v
  cases truth : m.isTruthy v <;> simp [truth]

theorem truthOf_either :
    m.truthOf (m.either left right) = (do
      if ← m.truthOf left then return true else m.truthOf right) := by
  simp only [truthOf, either, map_bind, bind_map_left]
  congr 1
  funext v
  cases truth : m.isTruthy v <;> simp [truth]

theorem truthOf_andThen :
    m.truthOf (m.andThen left right) = (do
      let _ ← m.truthOf left
      m.truthOf right) := by
  simp [truthOf, andThen]

theorem truthOf_compared (op : BinaryOp) (left right : m.Run m.Value) :
    m.truthOf (m.compared op left right) = (do
      let l ← left
      let r ← right
      m.compare op l r) := by
  simp [truthOf, compared]

theorem truthOf_choose (test yes no : m.Run m.Value) :
    m.truthOf (m.choose test yes no) = (do
      if ← m.truthOf test then m.truthOf yes else m.truthOf no) := by
  simp only [truthOf, choose, map_bind, bind_map_left]
  congr 1
  funext v
  cases m.isTruthy v <;> rfl

/-! ## Opposites of each form -/

variable {m left right} {left' right' test yes no yes' no' : m.Run m.Value}

/-- Two runs that do the same and come to opposite truths. -/
def Opposed (m : Machine) (run run' : m.Run m.Value) : Prop :=
  m.truthOf run' = not <$> m.truthOf run

theorem Opposed.opposite (m : Machine) (run : m.Run m.Value) : m.Opposed run (m.opposite run) :=
  m.truthOf_opposite run

theorem Opposed.both (first : m.Opposed left left') (second : m.Opposed right right') :
    m.Opposed (m.both left right) (m.either left' right') := by
  rw [Opposed] at first second
  simp only [Opposed, truthOf_both, truthOf_either, first, second, map_bind, bind_map_left]
  congr 1
  funext truth
  cases truth <;> simp

theorem Opposed.either (first : m.Opposed left left') (second : m.Opposed right right') :
    m.Opposed (m.either left right) (m.both left' right') := by
  rw [Opposed] at first second
  simp only [Opposed, truthOf_both, truthOf_either, first, second, map_bind, bind_map_left]
  congr 1
  funext truth
  cases truth <;> simp

theorem Opposed.andThen (left : m.Run m.Value) (second : m.Opposed right right') :
    m.Opposed (m.andThen left right) (m.andThen left right') := by
  rw [Opposed] at second
  simp only [Opposed, truthOf_andThen, second, map_bind]

theorem Opposed.compared {op inverse : BinaryOp} (isInverse : op.inverse? = some inverse)
    (left right : m.Run m.Value) :
    m.Opposed (m.compared op left right) (m.compared inverse left right) := by
  simp only [Opposed, truthOf_compared, m.compare_inverse isInverse, map_bind]

theorem Opposed.choose (test : m.Run m.Value) (first : m.Opposed yes yes')
    (second : m.Opposed no no') : m.Opposed (m.choose test yes no) (m.choose test yes' no') := by
  rw [Opposed] at first second
  simp only [Opposed, truthOf_choose, first, second, map_bind]
  congr 1
  funext truth
  cases truth <;> rfl

end Machine

/-- A meaning for all expressions. It is as it should be for boolean literals and for the forms that
negation goes through, and arbitrary for all others. -/
structure Interpretation extends Machine where
  eval : Expr → Run Value
  eval_boolean : ∀ value span, eval ⟨.boolean value, span⟩ = pure (ofBool value)
  eval_not : ∀ operand span, eval ⟨.unary .not operand, span⟩ = toMachine.opposite (eval operand)
  eval_and : ∀ left right span,
    eval ⟨.binary .logicalAnd left right, span⟩ = toMachine.both (eval left) (eval right)
  eval_or : ∀ left right span,
    eval ⟨.binary .logicalOr left right, span⟩ = toMachine.either (eval left) (eval right)
  eval_comma : ∀ left right span,
    eval ⟨.binary .comma left right, span⟩ = toMachine.andThen (eval left) (eval right)
  eval_comparison : ∀ {op : BinaryOp}, op.isComparison → ∀ left right span,
    eval ⟨.binary op left right, span⟩ = toMachine.compared op (eval left) (eval right)
  eval_conditional : ∀ test yes no span,
    eval ⟨.conditional test yes no, span⟩ = toMachine.choose (eval test) (eval yes) (eval no)

namespace BinaryOp

/-- An operator with an inverse is a comparison, and so is its inverse. -/
theorem isComparison_of_inverse {op inverse : BinaryOp} (isInverse : op.inverse? = some inverse) :
    op.isComparison ∧ inverse.isComparison := by
  cases op <;> cases isInverse <;> decide

theorem dual_cases {op dual : BinaryOp} (isDual : op.dual? = some dual) :
    (op = .logicalAnd ∧ dual = .logicalOr) ∨ (op = .logicalOr ∧ dual = .logicalAnd) := by
  cases op <;> cases isDual <;> decide

end BinaryOp

namespace Interpretation

/-- The opposite of an expression does the same and comes to the opposite truth, whatever the slots
that its cost was counted for. -/
theorem opposed_negated (I : Interpretation) (short : Bool) (old new : Slot) (e : Expr) :
    I.Opposed (I.eval e) (I.eval (e.negated short old new)) := by
  fun_induction Expr.negated short old new e with
  | case1 old new op left right span inverse isInverse =>
    obtain ⟨comparison, inverted⟩ := BinaryOp.isComparison_of_inverse isInverse
    rw [I.eval_comparison comparison, I.eval_comparison inverted]
    exact .compared isInverse _ _
  | case2 old new op left right span dual isDual noInverse first second =>
    obtain ⟨rfl, rfl⟩ | ⟨rfl, rfl⟩ := BinaryOp.dual_cases isDual
    · rw [I.eval_and, I.eval_or]
      exact .both first second
    · rw [I.eval_and, I.eval_or]
      exact .either first second
  | case3 old new left right span noInverse noDual second =>
    rw [I.eval_comma, I.eval_comma]
    exact .andThen _ second
  | case5 old new test yes no span branches cheaper first second =>
    rw [I.eval_conditional, I.eval_conditional]
    exact .choose _ first second
  | case7 old new value span =>
    rw [I.eval_boolean, I.eval_boolean]
    simp [Machine.Opposed, Machine.truthOf]
  | case8 old new operand span =>
    rw [I.eval_not, Machine.Opposed, I.truthOf_opposite]
    simp
  | case4 | case6 | case9 =>
    rw [Expr.unary, I.eval_not]
    exact .opposite _ _

/-- Under every setting and for all slots the opposite of an expression has the effects of the
expression, in the same order, and a value that counts as true if that of the expression does
not. -/
theorem eval_negated (I : Interpretation) (settings : Settings) (old new : Slot) (e : Expr) :
    I.isTruthy <$> I.eval (e.negated settings.shortBooleans old new) =
      (fun v => !I.isTruthy v) <$> I.eval e := by
  have opposed := I.opposed_negated settings.shortBooleans old new e
  simpa [Machine.Opposed, Machine.truthOf] using opposed

end Interpretation

end Minifier
