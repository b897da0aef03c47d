import Minifier.Syntax.Tree

/-!
# Expressions

Building expressions, and what can be said of one without running it: how tightly it holds, whether
it is constant, whether it is always a boolean.
-/

set_option autoImplicit false

namespace Minifier.Expr

/-! ## Building -/

/-- An expression that no source text stands for. -/
def synthetic (form : Form) : Expr := ⟨form, .synthetic⟩

def number (value : Number) : Expr := synthetic (.number value)

/-- `void 0`, the value of a call that returns nothing. -/
def voidZero : Expr := synthetic (.unary .void (number .zero))

/-- A prefix operator, at the span of its operand. -/
def unary (op : UnaryOp) (operand : Expr) : Expr := ⟨.unary op operand, operand.span⟩

/-- An infix operator, at the span of both operands. -/
def binary (op : BinaryOp) (left right : Expr) : Expr :=
  ⟨.binary op left right, left.span.combine right.span⟩

/-- A conditional, at the span from its test to its second branch. -/
def conditional (test yes no : Expr) : Expr :=
  ⟨.conditional test yes no, test.span.combine no.span⟩

/-- The expressions joined by commas, from the left; nothing when there are none. -/
def sequence? : List Expr → Option Expr
  | [] => none
  | e :: rest => some (rest.foldl (binary .comma) e)

/-! ## Reading -/

/-- How tightly the expression holds as a tree. A negative number is written with its sign. -/
def precedence (e : Expr) : Precedence :=
  match e.form with
  | .binary op _ _ => op.precedence
  | .conditional .. => .conditional
  | .unary .. => .unary
  | .update _ before _ => if before then .unary else .postfixed
  | .new _ none => .construction
  | .new _ (some _) | .call .. | .member .. | .index .. => .leftHandSide
  | .number value => if value.isNegative then .unary else .primary
  | _ => .primary

/-- How tightly the expression holds as it is written, given whether booleans are written `!0` and
`!1`. -/
def writtenPrecedence (shortBooleans : Bool) (e : Expr) : Precedence :=
  match e.form with
  | .boolean _ => if shortBooleans then .unary else .primary
  | _ => e.precedence

/-- The operator of an infix expression. -/
def binaryOp? (e : Expr) : Option BinaryOp :=
  match e.form with
  | .binary op _ _ => some op
  | _ => none

def ident? (e : Expr) : Option Ident :=
  match e.form with
  | .ident id => some id
  | _ => none

def isIdent (e : Expr) (name : String) : Bool := e.ident?.any (·.name = name)

def isString (e : Expr) : Bool :=
  match e.form with
  | .string _ => true
  | _ => false

/-- `void` applied to a zero. -/
def isVoidZero (e : Expr) : Bool :=
  match e.form with
  | .unary .void ⟨.number value, _⟩ => value.isZero
  | _ => false

/-- A literal, whose evaluation does nothing and depends on nothing. -/
def isConstant (e : Expr) : Bool :=
  match e.form with
  | .number _ | .string _ | .boolean _ | .null => true
  | _ => e.isVoidZero

/-- Whether a constant counts as true; nothing for expressions not known to be constant. -/
def truthiness? : Expr → Option Bool
  | ⟨.boolean value, _⟩ => some value
  | ⟨.number value, _⟩ => some value.isTruthy
  | ⟨.string value, _⟩ => some (!value.isEmpty)
  | ⟨.null, _⟩ => some false
  | ⟨.unary .void operand, _⟩ => if operand.isConstant then some false else none
  | ⟨.unary .not operand, _⟩ => operand.truthiness?.map not
  | _ => none

/-- Whether evaluation, when it ends, always gives a boolean. -/
def isBooleanValued : Expr → Bool
  | ⟨.boolean _, _⟩ => true
  | ⟨.unary op _, _⟩ => op = .not || op = .delete
  | ⟨.binary op left right, _⟩ =>
    if op.isComparison || op.isWord then true
    else if op.isLogical then left.isBooleanValued && right.isBooleanValued
    else if op = .comma then right.isBooleanValued
    else false
  | ⟨.conditional _ yes no, _⟩ => yes.isBooleanValued && no.isBooleanValued
  | _ => false

/-- The part whose text comes first. -/
def leftmost : Expr → Expr
  | ⟨.binary _ left _, _⟩ => left.leftmost
  | ⟨.conditional test _ _, _⟩ => test.leftmost
  | ⟨.call callee _, _⟩ => callee.leftmost
  | ⟨.member object _, _⟩ => object.leftmost
  | ⟨.index object _, _⟩ => object.leftmost
  | ⟨.update _ false operand, _⟩ => operand.leftmost
  | e => e

/-- Whether the expression can be assigned to. -/
def isAssignable (e : Expr) : Bool :=
  match e.form with
  | .ident _ | .member .. | .index .. => true
  | _ => false

end Minifier.Expr
