import Minifier.Json.Read
import Minifier.Text.CharClass
import Minifier.Text.Split

/-!
# Transformations and the kill switch

Every change the tool makes to a program belongs to a named `Transformation`. The `KillSwitch` is a
64-bit word with a bit for each of them; a set bit switches the transformation off. Settings write
it as names joined by `|`, with bits that have no name as one hexadecimal number.
-/

set_option autoImplicit false

namespace Minifier

/-- A kind of change to a program. -/
inductive Transformation where
  /-- Function declarations go to the top of their scope. -/
  | moveFunctions
  /-- The variables of a scope are declared in one statement at its top. -/
  | gatherVars
  /-- Neighbouring `var` statements become one. -/
  | joinVars
  /-- The statements of a bare block join the list around it. -/
  | unnestBlocks
  /-- `var a = b; return a` becomes `return b`. -/
  | returnInitializer
  /-- `if` and `else` that both return become one `return`. -/
  | returnEither
  /-- `if (a) return b; return c` becomes one `return`. -/
  | returnCascade
  /-- A default clause that does nothing goes. -/
  | dropEmptyDefault
  /-- Clauses that do nothing go. -/
  | dropEmptyCases
  /-- A `break` at the end of a `switch` goes. -/
  | dropTrailingBreak
  /-- Literals that are written often get a variable. -/
  | shareLiterals
  /-- Statements after a jump go. -/
  | dropUnreachable
  /-- The branches of an `if` with a negated test change places. -/
  | swapBranches
  /-- A negation is pushed into its operand where that is shorter. -/
  | reduceNot
  /-- `if (a) b()` becomes `a && b()`. -/
  | ifToLogical
  /-- `if (a) b(); else c()` becomes `a ? b() : c()`. -/
  | ifToConditional
  /-- Branches that do nothing go. -/
  | dropEmptyBranches
  /-- A test that is constant is decided. -/
  | foldTests
  /-- Functions that nothing mentions go. -/
  | dropFunctions
  /-- A `return` at the end of a function goes. -/
  | dropFinalReturn
  /-- `true` and `false` are written `!0` and `!1`. -/
  | shortBooleans
  /-- Trailing parameters that nothing mentions go. -/
  | dropParameters
  /-- Neighbouring conditional comments become one. -/
  | joinComments
  /-- A final `return c?e:void 0` becomes an `if` again. -/
  | dropVoidReturn
deriving DecidableEq, Repr

namespace Transformation

/-- In the order of their bits. -/
def all : List Transformation :=
  [.moveFunctions, .gatherVars, .joinVars, .unnestBlocks, .returnInitializer, .returnEither,
   .returnCascade, .dropEmptyDefault, .dropEmptyCases, .dropTrailingBreak, .shareLiterals,
   .dropUnreachable, .swapBranches, .reduceNot, .ifToLogical, .ifToConditional,
   .dropEmptyBranches, .foldTests, .dropFunctions, .dropFinalReturn, .shortBooleans,
   .dropParameters, .joinComments, .dropVoidReturn]

/-- The number of the bit. -/
def index : Transformation → Nat
  | moveFunctions => 0
  | gatherVars => 1
  | joinVars => 2
  | unnestBlocks => 3
  | returnInitializer => 4
  | returnEither => 5
  | returnCascade => 6
  | dropEmptyDefault => 7
  | dropEmptyCases => 8
  | dropTrailingBreak => 9
  | shareLiterals => 10
  | dropUnreachable => 11
  | swapBranches => 12
  | reduceNot => 13
  | ifToLogical => 14
  | ifToConditional => 15
  | dropEmptyBranches => 16
  | foldTests => 17
  | dropFunctions => 18
  | dropFinalReturn => 19
  | shortBooleans => 20
  | dropParameters => 21
  | joinComments => 22
  | dropVoidReturn => 23

/-- The name in settings. -/
def name : Transformation → String
  | moveFunctions => "MOVE_FUNCTION_TO_TOP_OF_SCOPE"
  | gatherVars => "COMBINE_VAR_STATEMENTS_TO_TOP_OF_SCOPE"
  | joinVars => "COMBINE_ADJACENT_VAR_STATEMENTS"
  | unnestBlocks => "UNNEST_BLOCKS"
  | returnInitializer => "VAR_INITIALIZER_RETURN"
  | returnEither => "IF_ELSE_RETURN_TO_CONDITIONAL"
  | returnCascade => "IF_RETURN_CASCADE"
  | dropEmptyDefault => "REMOVE_EMPTY_DEFAULT_CASE"
  | dropEmptyCases => "REMOVE_EMPTY_CASES"
  | dropTrailingBreak => "REMOVE_TRAILING_BREAK"
  | shareLiterals => "COMBINE_DUPLICATE_LITERALS"
  | dropUnreachable => "REMOVE_UNREACHABLE_CODE"
  | swapBranches => "IF_NOT_SWAP_BRANCHES"
  | reduceNot => "REDUCE_LOGICAL_NOT"
  | ifToLogical => "IF_TO_LOGICAL_EXPRESSION"
  | ifToConditional => "IF_ELSE_TO_CONDITIONAL"
  | dropEmptyBranches => "REMOVE_EMPTY_IF_PARTS"
  | foldTests => "EVALUATE_CONSTANT_CONDITIONS"
  | dropFunctions => "REMOVE_UNUSED_FUNCTIONS"
  | dropFinalReturn => "REMOVE_REDUNDANT_RETURN"
  | shortBooleans => "BOOLEAN_LITERALS_AS_NOT_NUMBERS"
  | dropParameters => "REMOVE_UNUSED_PARAMETERS"
  | joinComments => "COMBINE_CONDITIONAL_COMMENTS"
  | dropVoidReturn => "RETURN_VOID_REVERSAL"

def ofName? (name : String) : Option Transformation := all.find? (·.name = name)

/-- The word with the transformation's bit alone. -/
def bit (t : Transformation) : UInt64 := 1 <<< t.index.toUInt64

end Transformation

/-- The transformations that are switched off, and bits without a name. -/
structure KillSwitch where
  bits : UInt64
deriving DecidableEq, Repr

namespace KillSwitch

def none : KillSwitch := ⟨0⟩

def contains (k : KillSwitch) (t : Transformation) : Bool := k.bits &&& t.bit ≠ 0

def insert (k : KillSwitch) (t : Transformation) : KillSwitch := ⟨k.bits ||| t.bit⟩

def union (k l : KillSwitch) : KillSwitch := ⟨k.bits ||| l.bits⟩

/-- The kill switch without the bits that have no name. -/
def named (k : KillSwitch) : KillSwitch :=
  (Transformation.all.filter k.contains).foldl insert none

/-! ## Text -/

/-- A hexadecimal number below `2 ^ 64`, which may have a plus sign. -/
def readHex? (text : List Char) : Option UInt64 := do
  let digits := match text with
    | '+' :: digits => digits
    | digits => digits
  if digits.isEmpty then failure
  let value ← digits.foldlM (fun n c => do return n * 16 + (← Json.hexValue? c)) 0
  if value < UInt64.size then some value.toUInt64 else failure

/-- The bits that one part of a kill switch sets. -/
def readPart? : List Char → Option UInt64
  | '0' :: 'x' :: digits => readHex? digits
  | name => (Transformation.ofName? (String.ofList name)).map (·.bit)

/-- Reads names and hexadecimal numbers between bars, with blanks around them. A blank text
switches nothing off; otherwise no part may be missing. -/
def ofText? (text : String) : Option KillSwitch := do
  let chars := text.toList
  if (Text.trim chars).isEmpty then some none
  else
    let words ← (Text.split '|' chars).mapM fun part => readPart? (Text.trim part)
    some ⟨words.foldl (· ||| ·) 0⟩

/-- The names of the bits in their order, then the bits without a name. -/
def text (k : KillSwitch) : String :=
  let named := Transformation.all.filter k.contains
  let rest := named.foldl (fun bits t => bits &&& ~~~t.bit) k.bits
  let unnamed := if rest = 0 then [] else ["0x" ++ String.ofList (Text.hexDigits rest.toNat)]
  " | ".intercalate (named.map (·.name) ++ unnamed)

end KillSwitch

end Minifier
