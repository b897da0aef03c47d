import Minifier.Proofs.Simplify.NegationCost

/-!
# Negations made and undone

Negating twice gives an expression back (`Expr.negated_negated`), and getting rid of negations never
makes an expression longer (`Expr.length_reduce`).

The second statement is about more than prices. Each step is priced as if the expression stood
alone, but without its `!` it may need a blank in front, and without its parentheses one behind. So
pieces are compared in all surroundings (`Piece.NoLonger`). What holds no tighter than equality never
stands right behind a word or a sign, and there one byte pays for the blank behind. Elsewhere a step
that pays at all gains two bytes, or begins with a mark that needs no blank
(`Expr.startsLoose_or_gain`).
-/

set_option autoImplicit false

namespace Minifier

open Edited List

/-! ## Negating twice -/

theorem BinaryOp.inverse?_symm {op inverse : BinaryOp} (turned : op.inverse? = some inverse) :
    inverse.inverse? = some op := by
  cases op <;> cases turned <;> rfl

theorem BinaryOp.dual?_symm {op dual : BinaryOp} (swapped : op.dual? = some dual) :
    dual.inverse? = none ∧ dual.dual? = some op ∧ op.isLogical := by
  cases op <;> cases swapped <;> exact ⟨rfl, rfl, rfl⟩

namespace Expr

/-- Whether negation, on its way through `&&`, `||` and the last operands of commas, meets neither a
`!` nor a conditional. -/
def isPlain : Expr → Bool
  | ⟨.binary op left right, _⟩ =>
    if op.isLogical then left.isPlain && right.isPlain else op ≠ .comma || right.isPlain
  | ⟨.unary op _, _⟩ => op ≠ .not
  | ⟨.conditional .., _⟩ => false
  | _ => true

/-- Negating twice gives the expression back, whichever slots the two negations are made for. The
induction follows the first negation; the second one meets what the first one made of each form. -/
theorem negated_negated (settings : Settings) (e : Expr) (plain : e.isPlain)
    (old new old' new' : Slot) :
    (e.negated settings.shortBooleans old new).negated settings.shortBooleans old' new' = e := by
  fun_induction negated settings.shortBooleans old new e generalizing old' new' with
  | case1 _ _ _ _ _ _ _ turned => simp only [negated, BinaryOp.inverse?_symm turned]
  | case2 _ _ _ left right _ _ swapped _ leftBack rightBack =>
    obtain ⟨unturned, back, logical⟩ := BinaryOp.dual?_symm swapped
    obtain ⟨leftPlain, rightPlain⟩ : left.isPlain ∧ right.isPlain := by
      simpa [isPlain, logical] using plain
    simp only [negated, unturned, back, leftBack leftPlain, rightBack rightPlain]
  | case3 _ _ left right _ unturned unswapped rightBack =>
    have rightPlain : right.isPlain := by simpa [isPlain, BinaryOp.isLogical] using plain
    simp only [negated, unturned, unswapped, if_true, rightBack rightPlain]
  | case4 | case6 | case9 => rw [unary, negated]
  | case5 | case8 => simp [isPlain] at plain
  | case7 => simp only [negated, Bool.not_not]

/-- A comparison, a literal, a comma and an operand that gets a `!`, between four slots. -/
theorem negated_negated_mixed :
    let a := synthetic (.ident ⟨"a", .synthetic, none⟩)
    let e := binary .logicalOr (binary .logicalAnd (binary .lessThan a a)
      (synthetic (.boolean true))) (binary .comma a a)
    e.isPlain ∧ (e.negated (Settings.shortBooleans {}) .top .item).negated
      (Settings.shortBooleans {}) .object .conditionalTest = e :=
  ⟨rfl, negated_negated {} _ rfl _ _ _ _⟩

end Expr

/-! ## Pieces in their surroundings -/

namespace Piece

variable {text : String}

/-- A last character that is never read together with what follows. -/
def Loose (last : Option Char) : Prop := ∀ pieces, renderAfter last false pieces = render pieces

/-- Pieces behind which everything is written as at the beginning. -/
def EndsLoose (pieces : List Piece) : Prop :=
  ∀ last, (after last false pieces).2 = false ∧ Loose (after last false pieces).1

/-- Pieces that no blank comes in front of. -/
def StartsLoose (pieces : List Piece) : Prop :=
  ∀ last, byteLength (renderAfter last false pieces) = byteLength (render pieces)

/-- Pieces that take no more bytes than others, whatever comes behind them. If `apart` holds, they
have to stand behind a loose character. -/
def NoLonger (apart : Prop) (new old : List Piece) : Prop :=
  ∀ last rest, (apart → Loose last) →
    byteLength (renderAfter last false (new ++ rest)) ≤
      byteLength (renderAfter last false (old ++ rest))

/-- One blank at most comes in front of pieces. -/
theorem renderAfter_bounds (last : Option Char) (pieces : List Piece) :
    byteLength (render pieces) ≤ byteLength (renderAfter last false pieces) ∧
      byteLength (renderAfter last false pieces) ≤ byteLength (render pieces) + 1 := by
  unfold render
  generalize false = owes
  induction pieces generalizing owes with
  | nil => simp [renderAfter]
  | cons piece pieces ih =>
    rcases piece with (_ | ⟨c, cs⟩) | _ | _
    · simpa [renderAfter] using ih owes
    · cases owes with
      | true => simp [renderAfter]
      | false =>
        have blank : Char.utf8Size ' ' = 1 := rfl
        simp only [renderAfter, byteLength_append]
        cases last.any (sticks · c) <;> simp [blank]
        omega
    · exact ih true
    · exact ih false

variable {apart apart' : Prop} {new old new' old' : List Piece}

theorem NoLonger.refl (apart : Prop) (pieces : List Piece) : NoLonger apart pieces pieces :=
  fun _ _ _ => Nat.le_refl _

theorem NoLonger.trans (first : NoLonger apart new new') (second : NoLonger apart new' old) :
    NoLonger apart new old :=
  fun last rest loose => Nat.le_trans (first last rest loose) (second last rest loose)

theorem NoLonger.mono (h : NoLonger apart new old) (imp : apart → apart') :
    NoLonger apart' new old :=
  fun last rest loose => h last rest fun holds => loose (imp holds)

theorem NoLonger.before (h : NoLonger apart new old) (back : List Piece) :
    NoLonger apart (new ++ back) (old ++ back) := by
  intro last rest loose
  simpa only [append_assoc] using h last (back ++ rest) loose

/-- Two parts one after the other: the second one stands behind what the first one became. -/
theorem NoLonger.append (first : NoLonger apart new old) (second : NoLonger apart' new' old')
    (settles : Settles new) (loose : apart' → EndsLoose new) :
    NoLonger apart (new ++ new') (old ++ old') := by
  refine .trans (fun last rest _ => ?_) (first.before old')
  have hole := second (after last false new).1 rest fun holds => (loose holds last).2
  simp only [append_assoc, renderAfter_append last false new, byteLength_append, settles last]
  omega

theorem NoLonger.appendLoose (first : NoLonger apart new old) (second : NoLonger apart' new' old')
    (ends : EndsLoose new) : NoLonger apart (new ++ new') (old ++ old') :=
  first.append second (fun last => (ends last).1) fun _ => ends

/-- Pieces that are shorter by themselves are shorter anywhere if they gain enough for the blanks
around them. -/
theorem NoLonger.of_shorter (settlesNew : Settles new) (settlesOld : Settles old)
    (shorter : byteLength (render new) < byteLength (render old))
    (start : ¬ apart → StartsLoose new ∨ byteLength (render new) + 2 ≤ byteLength (render old)) :
    NoLonger apart new old := by
  intro last rest loose
  have newFront := (renderAfter_bounds last new).2
  have oldFront := (renderAfter_bounds last old).1
  have newBack := (renderAfter_bounds (after last false new).1 rest).2
  have oldBack := (renderAfter_bounds (after last false old).1 rest).1
  have noBlank : byteLength (renderAfter last false new) = byteLength (render new) ∨
      byteLength (render new) + 2 ≤ byteLength (render old) := by
    by_cases apart
    case pos holds => exact .inl (congrArg byteLength (loose holds new))
    case neg stands => exact (start stands).imp_left fun begins => begins last
  rw [renderAfter_append, renderAfter_append, byteLength_append, byteLength_append, settlesNew,
    settlesOld]
  omega

theorem endsLoose_word (front : List Piece) (loose : text.toList.getLast?.any isLoose) :
    EndsLoose (front ++ Style.word text) := by
  intro last
  unfold Style.word
  generalize text.toList = cs at loose
  match cs with
  | [] => exact absurd loose (by decide)
  | c :: cs =>
    rw [List.getLast?_cons, ← getLastD_eq_getLast?] at loose
    rw [after_append]
    exact ⟨rfl, renderAfter_of_not_sticks (sticks_of_isLoose loose).1 false⟩

theorem startsLoose_word (loose : text.toList.head?.any isLoose) (back : List Piece) :
    StartsLoose (Style.word text ++ back) := by
  intro last
  unfold Style.word render
  generalize text.toList = cs at loose
  match cs with
  | [] => exact absurd loose (by decide)
  | c :: cs =>
    have blank : last.any (sticks · c) = false := by
      cases last <;> simp [(sticks_of_isLoose loose).2]
    simp [renderAfter, blank]

end Piece

open Piece Style

theorem Style.endsLoose_space (st : Style) {pieces : List Piece} (ends : EndsLoose pieces) :
    EndsLoose (pieces ++ st.space) := by
  unfold Style.space
  split
  · exact endsLoose_word pieces rfl
  · rwa [append_nil]

/-- Operators that hold looser than the words among them end with a loose character. -/
theorem Style.endsLoose_operator (st : Style) (front : List Piece) {op : BinaryOp}
    (apart : op.precedence < .relational) : EndsLoose (front ++ st.operator op) := by
  have spelled : op.text.toList.getLast?.any isLoose := by
    cases op <;> first | exact absurd apart (by decide) | rfl
  unfold Style.operator Style.comma
  split
  · rename_i isComma
    subst isComma
    rw [← append_assoc]
    exact st.endsLoose_space (endsLoose_word front spelled)
  · rw [← append_assoc, ← append_assoc]
    exact st.endsLoose_space (endsLoose_word _ spelled)

/-- Lists between commas, item by item. -/
theorem Style.noLonger_list {α : Type} (st : Style) (one : α → List Piece)
    (all : List α → List Piece) (single : ∀ a, all [a] = one a)
    (cons : ∀ a b rest, all (a :: b :: rest) = one a ++ st.comma ++ all (b :: rest))
    {new old : List α} (items : List.Forall₂ (fun a b => NoLonger True (one a) (one b)) new old) :
    NoLonger True (all new) (all old) := by
  induction items with
  | nil => exact .refl _ _
  | cons first rest ih =>
    cases rest with
    | nil => rwa [single, single]
    | cons =>
      rw [cons, cons]
      exact (first.before _).appendLoose ih
        (st.endsLoose_operator _ (show BinaryOp.comma.precedence < .relational by decide))

/-! ## One negation -/

namespace Expr

variable {slot : Slot} {st : Style}

theorem pieces_of_not_wraps {e : Expr}
    (bare : ¬ slot.wraps (e.writtenPrecedence st.shortBooleans) e.binaryOp?) :
    e.pieces st 0 false slot = e.form.pieces st 0 false := by
  obtain ⟨form, span⟩ := e
  rw [pieces]
  exact if_neg bare

theorem startsLoose_of_wraps {e : Expr}
    (wraps : slot.wraps (e.writtenPrecedence st.shortBooleans) e.binaryOp?) :
    StartsLoose (e.pieces st 0 false slot) := by
  obtain ⟨form, span⟩ := e
  rw [pieces]
  simp only [wraps, Bool.or_true, if_true, append_assoc]
  exact startsLoose_word rfl _

/-- In a slot where a blank may be needed in front, a negation that pays either begins with a loose
mark or gains two bytes, one for a blank on each side. -/
theorem startsLoose_or_gain {st : Style} {slot : Slot} (tight : ¬ slot.precedence < .relational)
    {operand candidate : Expr}
    (made : operand.negated st.shortBooleans .unaryOperand slot = candidate) {gain : Int}
    (price : operand.negationCost st.shortBooleans .unaryOperand slot - 1 -
      slot.parenCost .unary none = gain) (pays : gain < 0) :
    StartsLoose (candidate.pieces st 0 false slot) ∨ gain ≤ -2 := by
  by_cases wraps : slot.wraps (candidate.writtenPrecedence st.shortBooleans) candidate.binaryOp?
  · exact .inl (startsLoose_of_wraps wraps)
  have held : ¬ candidate.writtenPrecedence st.shortBooleans < .relational :=
    fun below => wraps (if_pos (Nat.lt_of_lt_of_le below (Nat.le_of_not_lt tight)))
  have bare : candidate.parens st.shortBooleans slot = 0 := if_neg wraps
  have cost : ∀ (s : Slot) child op, s.parenCost child op = 0 ∨ s.parenCost child op = 2 := by
    intro s child op
    unfold Slot.parenCost
    split <;> simp
  have outside := cost slot .unary none
  have written := pieces_of_not_wraps wraps
  revert made
  fun_cases negated st.shortBooleans .unaryOperand slot operand <;> rintro rfl
  case case1 op left right span inverse turned =>
    have facts : inverse.precedence = op.precedence ∧
        (inverse.text.length : Int) ≤ op.text.length + 1 ∧
        Slot.unaryOperand.parenCost op.precedence (some op) = 2 := by
      cases op <;> cases turned <;> decide
    obtain ⟨same, shorter, inside⟩ := facts
    have unwrapped : slot.parenCost inverse.precedence (some inverse) = 0 := bare
    simp only [negationCost, turned, ← same] at price inside
    omega
  case case2 op _ _ _ dual swapped _ =>
    have below : dual.precedence < .relational := by cases op <;> cases swapped <;> decide
    exact absurd below held
  case case3 => exact absurd (show Precedence.comma < .relational by decide) held
  case case5 => exact absurd (show Precedence.conditional < .relational by decide) held
  case case7 value span =>
    cases short : st.shortBooleans with
    | true =>
      rw [written, Form.pieces]
      unfold Style.boolean
      rw [short]
      cases value
      · exact .inl (startsLoose_word (show "!0".toList.head?.any isLoose from rfl) [])
      · exact .inl (startsLoose_word (show "!1".toList.head?.any isLoose from rfl) [])
    | false =>
      have unwrapped : parens false slot ⟨.boolean value, span⟩ = 0 := short ▸ bare
      have inside : parens false .unaryOperand ⟨.boolean value, span⟩ = 0 := rfl
      rw [negationCost, short, reparen, unwrapped, inside] at price
      cases value <;> simp at price <;> omega
  case case8 inner span =>
    have inside := cost .unaryOperand (inner.writtenPrecedence st.shortBooleans) inner.binaryOp?
    have alone : parens st.shortBooleans .unaryOperand ⟨.unary .not inner, span⟩ = 0 := rfl
    simp only [negationCost, parens] at price bare alone
    omega
  all_goals
    rw [written, unary, Form.pieces]
    exact .inl (startsLoose_word rfl _)

/-- A negation that is replaced by the opposite of its operand gets shorter, and no longer anywhere
else. -/
theorem noLonger_reduceNot {requireBoolean : Bool} {e reduced : Expr}
    (found : e.reduceNot? st.shortBooleans slot requireBoolean = some reduced) :
    reduced.slotLength st slot < e.slotLength st slot ∧
      NoLonger (slot.precedence < .relational) (reduced.pieces st 0 false slot)
        (e.pieces st 0 false slot) := by
  unfold reduceNot? at found
  split at found
  next operand span =>
    simp only [Option.ite_none_right_eq_some, Option.some.injEq, Bool.and_eq_true,
      decide_eq_true_eq] at found
    obtain ⟨⟨pays, -⟩, made⟩ := found
    have price := slotLength_negated st .unaryOperand slot operand
    have whole := slotLength_eq st slot ⟨.unary .not operand, span⟩
    have bare := bareLength_not st operand span
    have around : parens st.shortBooleans slot ⟨.unary .not operand, span⟩ =
      slot.parenCost .unary none := rfl
    rw [made] at price
    have shorter : reduced.slotLength st slot < slotLength st slot ⟨.unary .not operand, span⟩ := by
      omega
    refine ⟨shorter, .of_shorter (settles_pieces st 0 false slot _)
      (settles_pieces st 0 false slot _) shorter fun tight => ?_⟩
    refine (startsLoose_or_gain tight made rfl pays).imp_right fun gain => ?_
    change reduced.slotLength st slot + 2 ≤ slotLength st slot ⟨.unary .not operand, span⟩
    omega
  next => cases found

end Expr

/-! ## Throughout an expression -/

/-- Reducing the parts of a form leaves its kind. -/
theorem Form.reduceParts_kind (short short' condition : Bool) (form : Form) (span : Span) :
    Expr.writtenPrecedence short' ⟨(form.reduceParts short condition).value, span⟩ =
        Expr.writtenPrecedence short' ⟨form, span⟩ ∧
      Expr.binaryOp? ⟨(form.reduceParts short condition).value, span⟩ =
        Expr.binaryOp? ⟨form, span⟩ ∧
      wholeNumber? ⟨(form.reduceParts short condition).value, span⟩ =
        wholeNumber? ⟨form, span⟩ := by
  rcases form with
    _ | _ | _ | _ | _ | _ | _ | _ | _ | _ | _ | _ | _ | ⟨_, _ | _⟩ | _ | _ | _ | _ <;>
    simp [Form.reduceParts, Expr.writtenPrecedence, Expr.precedence, Expr.binaryOp?, wholeNumber?]

/-- A value is not reduced to a number, since it stays a boolean. -/
theorem wholeNumber?_reduce (short : Bool) (slot : Slot) (e : Expr) :
    wholeNumber? (e.reduce short slot false).value = wholeNumber? e := by
  obtain ⟨form, span⟩ := e
  obtain ⟨-, -, same⟩ := form.reduceParts_kind short short false span
  simp only [Expr.reduce, value_bind]
  rw [← same]
  generalize (⟨(form.reduceParts short false).value, span⟩ : Expr) = e
  cases found : e.reduceNot? short slot (!false) with
  | none => rfl
  | some reduced =>
    unfold Expr.reduceNot? at found
    split at found
    next =>
      simp only [Option.ite_none_right_eq_some, Bool.and_eq_true, Option.some.injEq] at found
      obtain ⟨⟨-, valued⟩, rfl⟩ := found
      generalize Expr.negated _ _ _ _ = candidate at valued
      obtain ⟨_ | _, _⟩ := candidate <;> first | rfl | simp [Expr.isBooleanValued] at valued
    next => cases found

theorem reduceItems_value (short : Bool) (items : List (Option Expr)) :
    (reduceItems short items).value =
      items.map (Option.map fun e => (e.reduce short .item false).value) := by
  induction items with
  | nil => rfl
  | cons item rest ih => cases item <;> simp [reduceItems, ih]

mutual

theorem Expr.noLonger_reduce (st : Style) (slot : Slot) (condition : Bool) : ∀ e : Expr,
    NoLonger (slot.precedence < .relational)
      ((e.reduce st.shortBooleans slot condition).value.pieces st 0 false slot)
      (e.pieces st 0 false slot)
  | ⟨form, span⟩ => by
    have parts : NoLonger (slot.precedence < .relational)
        (Expr.pieces st 0 false slot ⟨(form.reduceParts st.shortBooleans condition).value, span⟩)
        (Expr.pieces st 0 false slot ⟨form, span⟩) := by
      obtain ⟨precedence, op, -⟩ :=
        form.reduceParts_kind st.shortBooleans st.shortBooleans condition span
      have inner := form.noLonger_reduceParts st condition span
      simp only [Expr.pieces, precedence, op]
      split
      · exact (NoLonger.appendLoose (.refl _ _) inner (endsLoose_word [] rfl)).before _
      · rename_i bare
        refine inner.mono fun below => Nat.lt_of_le_of_lt (Nat.le_of_not_lt fun held => ?_) below
        exact bare (if_pos held)
    simp only [Expr.reduce, value_bind]
    cases found : Expr.reduceNot? st.shortBooleans slot (!condition)
        ⟨(form.reduceParts st.shortBooleans condition).value, span⟩ with
    | none => exact parts
    | some reduced => exact (Expr.noLonger_reduceNot found).2.trans parts

/-- The parts one after the other: each stands behind those that are reduced already and before
those that are not. -/
theorem Form.noLonger_reduceParts (st : Style) (condition : Bool) (span : Span) : ∀ form : Form,
    NoLonger (Expr.writtenPrecedence st.shortBooleans ⟨form, span⟩ < .relational)
      ((form.reduceParts st.shortBooleans condition).value.pieces st 0 false)
      (form.pieces st 0 false)
  | .unary op operand =>
    .append (.refl _ _) (Expr.noLonger_reduce st .unaryOperand (op = .not) operand)
      (settles_text _) fun apart => absurd apart (by decide)
  | .binary op left right => by
    have first := Expr.noLonger_reduce st (.operand op .left)
      (Expr.operandConditions op condition).1 left
    have second := Expr.noLonger_reduce st (.operand op .right)
      (Expr.operandConditions op condition).2 right
    exact (first.before (st.operator op)).append second
      ((Expr.settles_pieces _ _ _ _ _).append (st.settles_operator op)) (st.endsLoose_operator _)
  | .conditional test yes no => by
    have first := Expr.noLonger_reduce st .conditionalTest true test
    have second := Expr.noLonger_reduce st .conditionalBranch condition yes
    have third := Expr.noLonger_reduce st .conditionalBranch condition no
    have head := (((first.before st.space).before (word "?")).before st.space).appendLoose second
      (st.endsLoose_space (endsLoose_word _ rfl))
    have whole := (((head.before st.space).before (word ":")).before st.space).appendLoose third
      (st.endsLoose_space (endsLoose_word _ rfl))
    exact whole.mono fun _ => show Precedence.conditional < .relational by decide
  | .member object name => by
    have part := Expr.noLonger_reduce st .object false object
    simp only [Form.reduceParts, value_bind, value_pure, Form.pieces,
      wholeNumber?_reduce]
    refine NoLonger.before (NoLonger.before ?_ _) _
    split
    · exact .refl _ _
    · exact part.mono fun apart => absurd apart (by decide)
  | .index object key => by
    have part := Expr.noLonger_reduce st .object false object
    simp only [Form.reduceParts, value_bind, value_pure, Form.pieces,
      wholeNumber?_reduce]
    refine (NoLonger.appendLoose (.before ?_ _) (Expr.noLonger_reduce st .top false key)
      (endsLoose_word _ rfl)).before _
    split
    · exact .refl _ _
    · exact part.mono fun apart => absurd apart (by decide)
  | .call callee args => by
    have first := (Expr.noLonger_reduce st .object false callee).before (word "(")
    have inner := first.appendLoose (noLonger_reduceArgs st args) (endsLoose_word _ rfl)
    exact (inner.before (word ")")).mono fun apart => absurd apart (by decide)
  | .new callee (some args) => by
    simp only [Form.reduceParts, value_bind, value_pure, Form.pieces, ← append_assoc]
    exact (NoLonger.appendLoose (.refl _ _) (noLonger_reduceArgs st args)
      (endsLoose_word _ rfl)).before _
  | .array items => by
    have inner := st.noLonger_list _ (itemPieces st 0 false) (by rintro (_ | _) <;> rfl)
      (by rintro (_ | _) _ _ <;> rfl) (reduceItems_each st items)
    have hole : (reduceItems st.shortBooleans items).value.getLast?.any (·.isNone) =
        items.getLast?.any (·.isNone) := by
      simp [reduceItems_value, Option.any_map]
    simp only [Form.reduceParts, value_bind, value_pure, Form.pieces, hole]
    exact ((NoLonger.appendLoose (.refl _ _) inner (endsLoose_word [] rfl)).before _).before _
  | .object properties => by
    have inner := st.noLonger_list _ (propertyPieces st 0 false) (fun _ => rfl) (fun _ _ _ => rfl)
      (reduceProperties_each st properties)
    exact (NoLonger.appendLoose (.refl _ _) inner (endsLoose_word [] rfl)).before _
  | .number _ | .string _ | .regex _ _ | .boolean _ | .null | .this | .ident _ | .function _
  | .new _ none | .update _ _ _ => .refl _ _

theorem noLonger_reduceArgs (st : Style) (args : List Expr) :
    NoLonger True (argPieces st 0 false (reduceArgs st.shortBooleans args).value)
      (argPieces st 0 false args) :=
  st.noLonger_list _ (argPieces st 0 false) (fun _ => rfl) (fun _ _ _ => rfl)
    (reduceArgs_each st args)

theorem reduceArgs_each (st : Style) : ∀ args : List Expr,
    List.Forall₂ (fun a b => NoLonger True (Expr.pieces st 0 false .item a)
      (b.pieces st 0 false .item)) (reduceArgs st.shortBooleans args).value args
  | [] => .nil
  | e :: rest =>
    .cons ((Expr.noLonger_reduce st .item false e).mono fun _ => trivial) (reduceArgs_each st rest)

theorem reduceItems_each (st : Style) : ∀ items : List (Option Expr),
    List.Forall₂ (fun a b => NoLonger True (a.elim [] (Expr.pieces st 0 false .item))
      (b.elim [] (Expr.pieces st 0 false .item))) (reduceItems st.shortBooleans items).value items
  | [] => .nil
  | none :: rest => .cons (.refl _ _) (reduceItems_each st rest)
  | some e :: rest =>
    .cons ((Expr.noLonger_reduce st .item false e).mono fun _ => trivial) (reduceItems_each st rest)

theorem reduceProperties_each (st : Style) : ∀ properties : List Property,
    List.Forall₂ (fun a b => NoLonger True (Property.pieces st 0 false a) (b.pieces st 0 false))
      (reduceProperties st.shortBooleans properties).value properties
  | [] => .nil
  | ⟨_, .value, value, _⟩ :: rest =>
    .cons (.appendLoose (.refl _ _) (Expr.noLonger_reduce st .item false value)
      (st.endsLoose_space (endsLoose_word _ rfl))) (reduceProperties_each st rest)
  | ⟨_, .getter, _, _⟩ :: rest | ⟨_, .setter, _, _⟩ :: rest =>
    .cons (.refl _ _) (reduceProperties_each st rest)

end

/-- Under all settings, getting rid of negations never makes an expression longer in its slot. A
single one that goes makes it shorter, and otherwise it stays as it is. -/
theorem Expr.length_reduce (settings : Settings) (slot : Slot) (e : Expr) :
    (∀ condition,
      (settings.reduce slot condition e).value.length settings slot ≤ e.length settings slot) ∧
    ∀ requireBoolean,
      let edited := Edited.orElse e (e.reduceNot? settings.shortBooleans slot requireBoolean)
      edited.changed = true ∧ edited.value.length settings slot < e.length settings slot ∨
        edited.changed = false ∧ edited.value = e := by
  constructor
  · intro condition
    refine when_value (·.length settings slot ≤ e.length settings slot) _ _ e
      (Nat.le_refl _) ?_
    have noLonger := Expr.noLonger_reduce settings.style slot condition e none [] fun _ _ => rfl
    rw [append_nil, append_nil] at noLonger
    exact noLonger
  · intro requireBoolean
    cases found : e.reduceNot? settings.shortBooleans slot requireBoolean with
    | none => exact .inr ⟨rfl, rfl⟩
    | some reduced =>
      change e.reduceNot? settings.style.shortBooleans slot requireBoolean = some reduced at found
      exact .inl ⟨rfl, (Expr.noLonger_reduceNot found).1⟩

end Minifier
