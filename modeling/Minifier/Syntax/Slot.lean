import Minifier.Syntax.Operator

/-!
# Slots

A `Slot` is the place an expression is written into, as far as parentheses go: how tightly it
holds, and, for an operand, the side and the operator. Trees hold no parentheses; `Slot.wraps`
says where they are written.
-/

set_option autoImplicit false

namespace Minifier

inductive Side where
  | left
  | right
deriving DecidableEq, Repr

structure Slot where
  precedence : Precedence
  side : Side
  op : Option BinaryOp
deriving DecidableEq, Repr

namespace Slot

/-- A whole statement, or the inside of brackets. -/
def top : Slot := ⟨.comma, .left, none⟩

/-- Between commas: arguments, array elements, property values, initializers. -/
def item : Slot := ⟨.assignment, .left, none⟩

/-- The operand of a prefix operator. -/
def unaryOperand : Slot := ⟨.unary, .left, none⟩

/-- The test of a conditional. -/
def conditionalTest : Slot := ⟨.logicalOr, .left, none⟩

/-- Either branch of a conditional. -/
def conditionalBranch : Slot := item

/-- What a property is read of, or what is called. -/
def object : Slot := ⟨.leftHandSide, .left, none⟩

/-- An operand of an infix operator. -/
def operand (op : BinaryOp) (side : Side) : Slot := ⟨op.precedence, side, some op⟩

/-- Whether an expression needs parentheses in the slot, given its precedence and, for an infix
expression, its operator. -/
def wraps (slot : Slot) (child : Precedence) (childOp : Option BinaryOp) : Bool :=
  if child < slot.precedence then true
  else if slot.precedence < child || slot.side = .left then false
  else
    match slot.op, childOp with
    | some parent, some child =>
      !parent.isAssignment && !(parent = child && parent.isAssociative)
    | some parent, none => !parent.isAssignment
    | none, _ => true

/-- The characters of parentheses that an expression costs in the slot. -/
def parenCost (slot : Slot) (child : Precedence) (childOp : Option BinaryOp) : Int :=
  if slot.wraps child childOp then 2 else 0

end Slot

end Minifier
