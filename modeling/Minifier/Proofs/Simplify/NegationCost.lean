import Minifier.Proofs.Print.Rendering
import Minifier.Proofs.Simplify.Census

/-!
# What a negation costs

`Expr.negationCost` prices a negation without building it, from parentheses and operator spellings
alone, and the simplifier decides by that price. `Expr.length_negated` says that the price is exact:
it is the difference between the length of `Expr.negated` in its new slot and the length of the
expression in its old one.

The writer may put blanks between pieces, which no price knows of. Negation goes only through places
next to which no blank is ever needed (`&&`, `||`, commas, `?`, `:`, `!`, comparisons and
parentheses), so lengths add up there, and the rest is a sum over the tree.
-/

set_option autoImplicit false

namespace Minifier

open Piece Style

/-! ## Breaks in expressions -/

/-- A character that is never read together with the one before or after it. -/
def isLoose (c : Char) : Bool :=
  !isIdentifierPart c && !(c = '+' || c = '-' || c = '/' || c = '*')

theorem sticks_of_isLoose {c : Char} (loose : isLoose c) :
    (∀ d, sticks c d = false) ∧ ∀ d, sticks d c = false := by
  simp only [isLoose, Bool.and_eq_true, Bool.not_eq_true', Bool.or_eq_false_iff,
    decide_eq_false_iff_not] at loose
  constructor <;> simp [sticks, loose]

/-- A text that starts and ends with such characters. -/
def hasLooseEnds (cs : List Char) : Bool := cs.head?.any isLoose && cs.getLast?.any isLoose

theorem isBreak_word {text : String} (loose : hasLooseEnds text.toList) :
    IsBreak (word text) (byteLength text.toList) := by
  unfold word
  generalize text.toList = cs at loose
  match cs with
  | [] => exact absurd loose (by decide)
  | c :: cs =>
    obtain ⟨first, final⟩ := Bool.and_eq_true_iff.mp loose
    rw [List.getLast?_cons, ← List.getLastD_eq_getLast?] at final
    exact isBreak_text (sticks_of_isLoose first).2 (sticks_of_isLoose final).1

/-- The bytes of blank that layout over several lines puts into a gap. -/
def Style.spaceWidth (st : Style) : Nat := if st.multiLine then 1 else 0

theorem Style.isBreak_spaced (st : Style) {pieces : List Piece} {width : Nat}
    (isBreak : IsBreak pieces width) :
    IsBreak (st.space ++ pieces ++ st.space) (st.spaceWidth + width + st.spaceWidth) := by
  unfold Style.space Style.spaceWidth
  split
  · have blank : IsBreak (word " ") 1 := isBreak_word rfl
    exact (blank.append isBreak).append blank
  · simpa using isBreak

/-- The infix operators that negation passes through or turns round. -/
def BinaryOp.isNegatable (op : BinaryOp) : Bool :=
  op.inverse?.isSome || op.dual?.isSome || op = .comma

/-- The bytes of an infix operator with the blanks around it. -/
def Style.operatorWidth (st : Style) (op : BinaryOp) : Nat :=
  op.text.length + if op = .comma then st.spaceWidth else 2 * st.spaceWidth

theorem Style.isBreak_operator (st : Style) {op : BinaryOp} (negatable : op.isNegatable) :
    IsBreak (st.operator op) (st.operatorWidth op) := by
  have spelled : IsBreak (word op.text) op.text.length := by
    cases op <;> first | exact absurd negatable (by decide) | exact isBreak_word rfl
  unfold Style.operator Style.operatorWidth
  split
  · rename_i isComma
    subst isComma
    unfold Style.comma Style.space Style.spaceWidth
    split
    · exact spelled.append (isBreak_word rfl)
    · rw [List.append_nil]
      exact spelled
  · have spaced := st.isBreak_spaced spelled
    rwa [show st.spaceWidth + op.text.length + st.spaceWidth =
      op.text.length + 2 * st.spaceWidth by omega] at spaced

/-! ## Lengths of forms -/

namespace Expr

variable {op : BinaryOp} (st : Style)

/-- The length of an expression without parentheses around it. -/
def bareLength (st : Style) (e : Expr) : Nat := byteLength (render (e.form.pieces st 0 false))

/-- The length of an expression in a slot. -/
def slotLength (st : Style) (slot : Slot) (e : Expr) : Nat := byteLength (e.text st slot)

theorem slotLength_eq (slot : Slot) (e : Expr) :
    (e.slotLength st slot : Int) = e.bareLength st + e.parens st.shortBooleans slot := by
  obtain ⟨form, span⟩ := e
  have opening : IsBreak (word "(") 1 := isBreak_word rfl
  have closing : IsBreak (word ")") 1 := isBreak_word rfl
  have inside := byteLength_between opening (form.settles_pieces st 0 false) closing
  simp only [slotLength, Expr.text, Expr.pieces, Bool.false_and, Bool.false_or, bareLength, parens,
    Slot.parenCost]
  split
  · rw [inside]
    omega
  · simp

/-- Two operands and the operator between them. -/
theorem bareLength_binary (negatable : op.isNegatable) (left right : Expr) (span : Span) :
    bareLength st ⟨.binary op left right, span⟩ = left.slotLength st (.operand op .left) +
      st.operatorWidth op + right.slotLength st (.operand op .right) := by
  rw [bareLength, Form.pieces, List.append_assoc, render,
    byteLength_append_break (left.settles_pieces st 0 false _) (st.isBreak_operator negatable)]
  rfl

theorem bareLength_conditional (test yes no : Expr) (span : Span) :
    bareLength st ⟨.conditional test yes no, span⟩ =
      test.slotLength st .conditionalTest + yes.slotLength st .conditionalBranch +
        no.slotLength st .conditionalBranch + (2 + 4 * st.spaceWidth) := by
  have question : IsBreak (word "?") 1 := isBreak_word rfl
  have colon : IsBreak (word ":") 1 := isBreak_word rfl
  have regroup : Form.pieces st 0 false (.conditional test yes no) =
      test.pieces st 0 false .conditionalTest ++ ((st.space ++ word "?" ++ st.space) ++
        (yes.pieces st 0 false .conditionalBranch ++ ((st.space ++ word ":" ++ st.space) ++
          no.pieces st 0 false .conditionalBranch))) := by
    simp [Form.pieces]
  rw [bareLength, regroup, render,
    byteLength_append_break (test.settles_pieces st 0 false _) (st.isBreak_spaced question), render,
    byteLength_append_break (yes.settles_pieces st 0 false _) (st.isBreak_spaced colon)]
  simp only [slotLength, Expr.text, render]
  omega

theorem bareLength_not (operand : Expr) (span : Span) :
    bareLength st ⟨.unary .not operand, span⟩ = 1 + operand.slotLength st .unaryOperand :=
  (isBreak_word rfl : IsBreak (word "!") 1) none _

theorem bareLength_boolean (value : Bool) (span : Span) :
    (bareLength st ⟨.boolean (!value), span⟩ : Int) - bareLength st ⟨.boolean value, span⟩ =
      if st.shortBooleans then 0 else if value then 1 else -1 := by
  simp only [bareLength, Form.pieces, Style.boolean]
  cases st.shortBooleans <;> cases value <;> rfl

/-! ## The price is exact -/

/-- A `!` in front of an expression costs what `wrapCost` says. -/
theorem slotLength_unary_not (old new : Slot) (e : Expr) :
    ((unary .not e).slotLength st new : Int) - e.slotLength st old =
      e.wrapCost st.shortBooleans old new := by
  have wrapped := slotLength_eq st new (unary .not e)
  have alone := slotLength_eq st old e
  have operand := slotLength_eq st .unaryOperand e
  have bare : (unary .not e).bareLength st = 1 + e.slotLength st .unaryOperand :=
    bareLength_not st e e.span
  have parens_not : (unary .not e).parens st.shortBooleans new = new.parenCost .unary none := rfl
  rw [wrapCost]
  omega

/-- An operator that is neither associative nor an assignment treats its operands by precedence and
side alone. -/
theorem parens_operand (short : Bool) (plain : op.isAssociative = false)
    (noTarget : op.isAssignment = false) (side : Side) (e : Expr) :
    e.parens short (.operand op side) = e.parens short ⟨op.precedence, side, none⟩ := by
  unfold parens Slot.parenCost Slot.wraps Slot.operand
  cases e.binaryOp? <;> simp [plain, noTarget]

/-- A comparison turned round differs only in its operator. -/
theorem slotLength_inverse (old new : Slot) {inverse : BinaryOp} (turned : op.inverse? = some inverse)
    (left right : Expr) (span : Span) :
    (slotLength st new ⟨.binary inverse left right, span⟩ : Int) -
        slotLength st old ⟨.binary op left right, span⟩ =
      (inverse.text.length : Int) - op.text.length + new.parenCost op.precedence (some inverse) -
        old.parenCost op.precedence (some op) := by
  have same : inverse.precedence = op.precedence ∧ inverse.isNegatable ∧ op.isNegatable ∧
      inverse ≠ .comma ∧ op ≠ .comma := by
    cases op <;> cases turned <;> decide
  have plain : op.isAssociative = false ∧ op.isAssignment = false ∧
      inverse.isAssociative = false ∧ inverse.isAssignment = false := by
    cases op <;> cases turned <;> decide
  obtain ⟨precedence, inverseNegatable, negatable, inverseNoComma, noComma⟩ := same
  obtain ⟨plain, noTarget, inversePlain, inverseNoTarget⟩ := plain
  have operand : ∀ (side : Side) (e : Expr), e.parens st.shortBooleans (.operand inverse side) =
      e.parens st.shortBooleans (.operand op side) := by
    intro side e
    rw [parens_operand _ inversePlain inverseNoTarget, parens_operand _ plain noTarget, precedence]
  have before := slotLength_eq st old ⟨.binary op left right, span⟩
  have behind := slotLength_eq st new ⟨.binary inverse left right, span⟩
  have leftBefore := slotLength_eq st (.operand op .left) left
  have leftBehind := slotLength_eq st (.operand inverse .left) left
  have rightBefore := slotLength_eq st (.operand op .right) right
  have rightBehind := slotLength_eq st (.operand inverse .right) right
  rw [operand] at leftBehind rightBehind
  rw [bareLength_binary st negatable, Style.operatorWidth, if_neg noComma] at before
  rw [bareLength_binary st inverseNegatable, Style.operatorWidth, if_neg inverseNoComma] at behind
  simp only [parens, writtenPrecedence, Expr.precedence, binaryOp?, precedence] at before behind
  omega

/-- `&&` and `||` over negated operands differ in the operands and in the parentheses around. -/
theorem slotLength_dual (old new : Slot) {dual : BinaryOp} (swapped : op.dual? = some dual)
    (left right left' right' : Expr) (span : Span) :
    (slotLength st new ⟨.binary dual left' right', span⟩ : Int) -
        slotLength st old ⟨.binary op left right, span⟩ =
      ((left'.slotLength st (.operand dual .left) : Int) - left.slotLength st (.operand op .left)) +
        ((right'.slotLength st (.operand dual .right) : Int) -
          right.slotLength st (.operand op .right)) +
        new.parenCost dual.precedence (some dual) - old.parenCost op.precedence (some op) := by
  have same : dual.isNegatable ∧ op.isNegatable ∧ st.operatorWidth dual = st.operatorWidth op := by
    cases op <;> cases swapped <;> exact ⟨rfl, rfl, rfl⟩
  obtain ⟨dualNegatable, negatable, width⟩ := same
  have before := slotLength_eq st old ⟨.binary op left right, span⟩
  have behind := slotLength_eq st new ⟨.binary dual left' right', span⟩
  rw [bareLength_binary st negatable] at before
  rw [bareLength_binary st dualNegatable, width] at behind
  simp only [parens, writtenPrecedence, Expr.precedence, binaryOp?] at before behind
  omega

/-- The price of a negation is the difference it makes. The induction follows the recursion of
`negated`, into the operands of `&&`, `||`, the comma and the conditional. -/
theorem slotLength_negated (old new : Slot) (e : Expr) :
    ((e.negated st.shortBooleans old new).slotLength st new : Int) - e.slotLength st old =
      e.negationCost st.shortBooleans old new := by
  fun_induction negated st.shortBooleans old new e with
  | case1 old new op left right span inverse turned =>
    simp only [negationCost, turned]
    exact slotLength_inverse st old new turned left right span
  | case2 old new op left right span dual swapped unturned leftPrice rightPrice =>
    have change := slotLength_dual st old new swapped left right
      (left.negated st.shortBooleans (.operand op .left) (.operand dual .left))
      (right.negated st.shortBooleans (.operand op .right) (.operand dual .right)) span
    simp only [negationCost, unturned, swapped]
    omega
  | case3 old new left right span unturned unswapped rightPrice =>
    have before := slotLength_eq st old ⟨.binary .comma left right, span⟩
    have behind := slotLength_eq st new ⟨.binary .comma left
      (right.negated st.shortBooleans (.operand .comma .right) (.operand .comma .right)), span⟩
    rw [bareLength_binary st rfl] at before behind
    simp only [negationCost, unturned, unswapped, if_true, reparen, parens, writtenPrecedence,
      Expr.precedence, binaryOp?] at before behind ⊢
    omega
  | case4 old new op left right span noComma unturned unswapped =>
    simp only [negationCost, unturned, unswapped, noComma, if_false]
    exact slotLength_unary_not st old new _
  | case5 old new test yes no span branches cheaper yesPrice noPrice =>
    have before := slotLength_eq st old ⟨.conditional test yes no, span⟩
    have behind := slotLength_eq st new ⟨.conditional test
      (yes.negated st.shortBooleans .conditionalBranch .conditionalBranch)
      (no.negated st.shortBooleans .conditionalBranch .conditionalBranch), span⟩
    rw [bareLength_conditional] at before behind
    simp only [branches, negationCost, reparen, parens, writtenPrecedence, Expr.precedence,
      binaryOp?] at before behind cheaper ⊢
    omega
  | case6 old new test yes no span branches dearer =>
    have wrapPrice := slotLength_unary_not st old new ⟨.conditional test yes no, span⟩
    simp only [branches, negationCost] at dearer ⊢
    omega
  | case7 old new value span =>
    have before := slotLength_eq st old ⟨.boolean value, span⟩
    have behind := slotLength_eq st new ⟨.boolean !value, span⟩
    have change := bareLength_boolean st value span
    have parens_not : parens st.shortBooleans new ⟨.boolean !value, span⟩ =
      parens st.shortBooleans new ⟨.boolean value, span⟩ := rfl
    rw [negationCost, reparen]
    omega
  | case8 old new operand span =>
    have before := slotLength_eq st old ⟨.unary .not operand, span⟩
    have inside := slotLength_eq st .unaryOperand operand
    have behind := slotLength_eq st new operand
    have bare := bareLength_not st operand span
    rw [negationCost]
    omega
  | case9 old new e noBinary noConditional noBoolean noNot =>
    rw [negationCost]
    · exact slotLength_unary_not st old new e
    all_goals assumption

/-- Under all settings and in all slots, the negation of an expression is longer than the expression
by exactly its price. -/
theorem length_negated (settings : Settings) (old new : Slot) (e : Expr) :
    ((e.negated settings.shortBooleans old new).length settings new : Int) - e.length settings old =
      e.negationCost settings.shortBooleans old new :=
  slotLength_negated settings.style old new e

end Expr

end Minifier
