import Minifier.Simplify.Edited
import Minifier.Syntax.Expr
import Minifier.Syntax.Slot

/-!
# Negation

The shortest way to write the opposite of a condition. Comparisons turn round, `&&` and `||` change
places over negated operands, a comma negates its last operand, and what has no opposite of its own
gets a `!`. `negationCost` says how many characters it takes, and `negated` is the expression it
speaks of. Both know the slot the expression stands in and the slot its negation will stand in,
because parentheses may come or go.

`Expr.reduce` uses this to get rid of `!` throughout an expression.
-/

set_option autoImplicit false

namespace Minifier

/-- `||` for `&&`, and the other way round. -/
def BinaryOp.dual? : BinaryOp → Option BinaryOp
  | logicalAnd => some .logicalOr
  | logicalOr => some .logicalAnd
  | _ => none

namespace Expr

/-- The characters of parentheses that an expression costs in a slot. -/
def parens (short : Bool) (slot : Slot) (e : Expr) : Int :=
  slot.parenCost (e.writtenPrecedence short) e.binaryOp?

/-- The parentheses that come with a change of slot. -/
def reparen (short : Bool) (old new : Slot) (e : Expr) : Int :=
  e.parens short new - e.parens short old

/-- What a `!` in front costs. -/
def wrapCost (short : Bool) (old new : Slot) (e : Expr) : Int :=
  1 + new.parenCost .unary none + e.parens short .unaryOperand - e.parens short old

/-- The characters gained by writing, in slot `new`, the negation of an expression that stood in
slot `old`. -/
def negationCost (short : Bool) (old new : Slot) : Expr → Int
  | ⟨.binary op left right, span⟩ =>
    match op.inverse?, op.dual? with
    | some inverse, _ =>
      (inverse.text.length : Int) - op.text.length + new.parenCost op.precedence (some inverse) -
        old.parenCost op.precedence (some op)
    | none, some dual =>
      left.negationCost short (.operand op .left) (.operand dual .left) +
        right.negationCost short (.operand op .right) (.operand dual .right) +
        new.parenCost dual.precedence (some dual) - old.parenCost op.precedence (some op)
    | none, none =>
      if op = .comma then
        right.negationCost short (.operand op .right) (.operand op .right) +
          reparen short old new ⟨.binary op left right, span⟩
      else wrapCost short old new ⟨.binary op left right, span⟩
  | ⟨.conditional test yes no, span⟩ =>
    let branches := yes.negationCost short .conditionalBranch .conditionalBranch +
      no.negationCost short .conditionalBranch .conditionalBranch +
      reparen short old new ⟨.conditional test yes no, span⟩
    min branches (wrapCost short old new ⟨.conditional test yes no, span⟩)
  | ⟨.boolean value, span⟩ =>
    (if short then 0 else if value then 1 else -1) + reparen short old new ⟨.boolean value, span⟩
  | ⟨.unary .not operand, span⟩ =>
    operand.parens short new - parens short old ⟨.unary .not operand, span⟩ - 1 -
      operand.parens short .unaryOperand
  | e => e.wrapCost short old new

/-- The negation of an expression that stood in slot `old`, for slot `new`. -/
def negated (short : Bool) (old new : Slot) : Expr → Expr
  | ⟨.binary op left right, span⟩ =>
    match op.inverse?, op.dual? with
    | some inverse, _ => ⟨.binary inverse left right, span⟩
    | none, some dual =>
      ⟨.binary dual (left.negated short (.operand op .left) (.operand dual .left))
        (right.negated short (.operand op .right) (.operand dual .right)), span⟩
    | none, none =>
      if op = .comma then
        ⟨.binary op left (right.negated short (.operand op .right) (.operand op .right)), span⟩
      else unary .not ⟨.binary op left right, span⟩
  | ⟨.conditional test yes no, span⟩ =>
    let branches := yes.negationCost short .conditionalBranch .conditionalBranch +
      no.negationCost short .conditionalBranch .conditionalBranch +
      reparen short old new ⟨.conditional test yes no, span⟩
    if branches ≤ wrapCost short old new ⟨.conditional test yes no, span⟩ then
      ⟨.conditional test (yes.negated short .conditionalBranch .conditionalBranch)
        (no.negated short .conditionalBranch .conditionalBranch), span⟩
    else unary .not ⟨.conditional test yes no, span⟩
  | ⟨.boolean value, span⟩ => ⟨.boolean !value, span⟩
  | ⟨.unary .not operand, _⟩ => operand
  | e => unary .not e

/-- What becomes of a negation in a slot if the opposite of its operand is shorter. Where the value
itself matters and not only whether it counts as true, it has to stay a boolean. -/
def reduceNot? (short : Bool) (slot : Slot) (requireBoolean : Bool) : Expr → Option Expr
  | ⟨.unary .not operand, _⟩ =>
    let gain := operand.negationCost short .unaryOperand slot - 1 - slot.parenCost .unary none
    let candidate := operand.negated short .unaryOperand slot
    if gain < 0 && (!requireBoolean || candidate.isBooleanValued) then some candidate else none
  | _ => none

/-! ## Throughout an expression -/

/-- Whether only the truth of the operands of an operator matters, given whether only the truth of
the result does. -/
def operandConditions (op : BinaryOp) (condition : Bool) : Bool × Bool :=
  if op.isLogical then (condition, condition)
  else if op = .comma then (true, condition)
  else (false, false)

end Expr

mutual

/-- Gets rid of negations in an expression, its parts first. `condition` says that only the truth
of the value matters. -/
def Expr.reduce (short : Bool) (slot : Slot) (condition : Bool) : Expr → Edited Expr
  | ⟨form, span⟩ => do
    let e : Expr := ⟨← form.reduceParts short condition, span⟩
    Edited.orElse e (e.reduceNot? short slot (!condition))

def Form.reduceParts (short : Bool) (condition : Bool) : Form → Edited Form
  | .unary op operand => return .unary op (← operand.reduce short .unaryOperand (op = .not))
  | .binary op left right => do
    let (leftCondition, rightCondition) := Expr.operandConditions op condition
    let left ← left.reduce short (.operand op .left) leftCondition
    let right ← right.reduce short (.operand op .right) rightCondition
    return .binary op left right
  | .conditional test yes no => do
    let test ← test.reduce short .conditionalTest true
    let yes ← yes.reduce short .conditionalBranch condition
    let no ← no.reduce short .conditionalBranch condition
    return .conditional test yes no
  | .member object name => return .member (← object.reduce short .object false) name
  | .index object key => do
    let object ← object.reduce short .object false
    let key ← key.reduce short .top false
    return .index object key
  | .call callee args => do
    let callee ← callee.reduce short .object false
    let args ← reduceArgs short args
    return .call callee args
  | .new callee (some args) => return .new callee (some (← reduceArgs short args))
  | .array items => return .array (← reduceItems short items)
  | .object properties => return .object (← reduceProperties short properties)
  | form => return form

def reduceArgs (short : Bool) : List Expr → Edited (List Expr)
  | [] => return []
  | e :: rest => do
    let e ← e.reduce short .item false
    return e :: (← reduceArgs short rest)

def reduceItems (short : Bool) : List (Option Expr) → Edited (List (Option Expr))
  | [] => return []
  | none :: rest => return none :: (← reduceItems short rest)
  | some e :: rest => do
    let e ← e.reduce short .item false
    return some e :: (← reduceItems short rest)

def reduceProperties (short : Bool) : List Property → Edited (List Property)
  | [] => return []
  | ⟨key, .value, value, span⟩ :: rest => do
    let value ← value.reduce short .item false
    return ⟨key, .value, value, span⟩ :: (← reduceProperties short rest)
  | accessor :: rest => return accessor :: (← reduceProperties short rest)

end

end Minifier
