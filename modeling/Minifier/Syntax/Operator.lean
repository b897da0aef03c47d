/-!
# Operators and how tightly they bind

The infix, prefix and update operators with their spellings, and the levels of precedence from the
loosest to the tightest.
-/

set_option autoImplicit false

namespace Minifier

/-- How tightly an expression holds together, the loosest first. -/
inductive Precedence where
  | comma
  | assignment
  | conditional
  | logicalOr
  | logicalAnd
  | bitwiseOr
  | bitwiseXor
  | bitwiseAnd
  | equality
  | relational
  | shift
  | additive
  | multiplicative
  | unary
  | postfixed
  /-- A constructor call without an argument list. -/
  | construction
  /-- Calls, property accesses, and constructor calls with an argument list. -/
  | leftHandSide
  | primary
deriving DecidableEq, Repr

namespace Precedence

def all : List Precedence :=
  [.comma, .assignment, .conditional, .logicalOr, .logicalAnd, .bitwiseOr, .bitwiseXor,
   .bitwiseAnd, .equality, .relational, .shift, .additive, .multiplicative, .unary, .postfixed,
   .construction, .leftHandSide, .primary]

/-- The place in the order, from the loosest. -/
def rank : Precedence → Nat
  | comma => 0
  | assignment => 1
  | conditional => 2
  | logicalOr => 3
  | logicalAnd => 4
  | bitwiseOr => 5
  | bitwiseXor => 6
  | bitwiseAnd => 7
  | equality => 8
  | relational => 9
  | shift => 10
  | additive => 11
  | multiplicative => 12
  | unary => 13
  | postfixed => 14
  | construction => 15
  | leftHandSide => 16
  | primary => 17

instance : LT Precedence := ⟨fun p q => p.rank < q.rank⟩
instance : LE Precedence := ⟨fun p q => p.rank ≤ q.rank⟩
instance (p q : Precedence) : Decidable (p < q) := inferInstanceAs (Decidable (p.rank < q.rank))
instance (p q : Precedence) : Decidable (p ≤ q) := inferInstanceAs (Decidable (p.rank ≤ q.rank))

/-- The next tighter level; nothing is tighter than `primary`. -/
def next (p : Precedence) : Precedence := (all[p.rank + 1]?).getD .primary

end Precedence

/-- The infix operators, assignments and the comma included. -/
inductive BinaryOp where
  | comma
  | assign | addAssign | subAssign | mulAssign | divAssign | modAssign
  | shlAssign | shrAssign | ushrAssign | bitAndAssign | bitOrAssign | bitXorAssign
  | logicalOr | logicalAnd
  | bitOr | bitXor | bitAnd
  | equal | notEqual | strictEqual | strictNotEqual
  | lessThan | greaterThan | lessThanEqual | greaterThanEqual | in_ | instanceof
  | shl | shr | ushr
  | add | sub | mul | div | mod
deriving DecidableEq, Repr

namespace BinaryOp

def text : BinaryOp → String
  | comma => ","
  | assign => "="
  | addAssign => "+="
  | subAssign => "-="
  | mulAssign => "*="
  | divAssign => "/="
  | modAssign => "%="
  | shlAssign => "<<="
  | shrAssign => ">>="
  | ushrAssign => ">>>="
  | bitAndAssign => "&="
  | bitOrAssign => "|="
  | bitXorAssign => "^="
  | logicalOr => "||"
  | logicalAnd => "&&"
  | bitOr => "|"
  | bitXor => "^"
  | bitAnd => "&"
  | equal => "=="
  | notEqual => "!="
  | strictEqual => "==="
  | strictNotEqual => "!=="
  | lessThan => "<"
  | greaterThan => ">"
  | lessThanEqual => "<="
  | greaterThanEqual => ">="
  | in_ => "in"
  | instanceof => "instanceof"
  | shl => "<<"
  | shr => ">>"
  | ushr => ">>>"
  | add => "+"
  | sub => "-"
  | mul => "*"
  | div => "/"
  | mod => "%"

def isAssignment : BinaryOp → Bool
  | assign | addAssign | subAssign | mulAssign | divAssign | modAssign | shlAssign | shrAssign
  | ushrAssign | bitAndAssign | bitOrAssign | bitXorAssign => true
  | _ => false

def precedence : BinaryOp → Precedence
  | comma => .comma
  | logicalOr => .logicalOr
  | logicalAnd => .logicalAnd
  | bitOr => .bitwiseOr
  | bitXor => .bitwiseXor
  | bitAnd => .bitwiseAnd
  | equal | notEqual | strictEqual | strictNotEqual => .equality
  | lessThan | greaterThan | lessThanEqual | greaterThanEqual | in_ | instanceof => .relational
  | shl | shr | ushr => .shift
  | add | sub => .additive
  | mul | div | mod => .multiplicative
  | _ => .assignment

def isLogical (op : BinaryOp) : Bool := op = .logicalAnd || op = .logicalOr

/-- Equality and order. -/
def isComparison : BinaryOp → Bool
  | equal | notEqual | strictEqual | strictNotEqual
  | lessThan | greaterThan | lessThanEqual | greaterThanEqual => true
  | _ => false

/-- The operators for which `a op (b op c)` may be written `a op b op c`. Addition is none of
them: adding numbers and joining strings do not associate with each other. -/
def isAssociative : BinaryOp → Bool
  | logicalAnd | logicalOr | bitAnd | bitOr | bitXor | comma => true
  | _ => false

/-- The comparison with the opposite result, where operands that do not compare are left out of
account. -/
def inverse? : BinaryOp → Option BinaryOp
  | equal => some .notEqual
  | notEqual => some .equal
  | strictEqual => some .strictNotEqual
  | strictNotEqual => some .strictEqual
  | lessThan => some .greaterThanEqual
  | greaterThanEqual => some .lessThan
  | greaterThan => some .lessThanEqual
  | lessThanEqual => some .greaterThan
  | _ => none

/-- The plain operator of a compound assignment. -/
def compoundBase? : BinaryOp → Option BinaryOp
  | addAssign => some .add
  | subAssign => some .sub
  | mulAssign => some .mul
  | divAssign => some .div
  | modAssign => some .mod
  | shlAssign => some .shl
  | shrAssign => some .shr
  | ushrAssign => some .ushr
  | bitAndAssign => some .bitAnd
  | bitOrAssign => some .bitOr
  | bitXorAssign => some .bitXor
  | _ => none

/-- Whether the operator is spelled as a word. -/
def isWord (op : BinaryOp) : Bool := op = .in_ || op = .instanceof

end BinaryOp

/-- The operators that stand before their operand. -/
inductive UnaryOp where
  | not | bitNot | plus | minus | typeof | void | delete
deriving DecidableEq, Repr

namespace UnaryOp

def text : UnaryOp → String
  | not => "!"
  | bitNot => "~"
  | plus => "+"
  | minus => "-"
  | typeof => "typeof"
  | void => "void"
  | delete => "delete"

/-- Whether the operator is spelled as a word. -/
def isWord (op : UnaryOp) : Bool := op = .typeof || op = .void || op = .delete

end UnaryOp

inductive UpdateOp where
  | increment | decrement
deriving DecidableEq, Repr

def UpdateOp.text : UpdateOp → String
  | increment => "++"
  | decrement => "--"

end Minifier
