import Minifier.Print.Tree

/-!
# Rendering in parts

Rendering carries two facts from piece to piece: the character written last and whether a semicolon
is owed. `Piece.after` is what it carries past a list of pieces, and `renderAfter_append` cuts a
rendering at any place between two pieces.

Lengths add up only where no blank can come between the parts. `IsBreak` says so of pieces such as
a parenthesis or an infix operator that is no word, `Settles` says of the pieces before them that
they leave no semicolon owed, and `byteLength_append_break` puts the two together. Expressions
always settle (`Expr.settles_pieces`), also those with functions in them, whose statements owe
semicolons but whose closing brace forgives the last one.
-/

set_option autoImplicit false

namespace Minifier

variable (st : Style)

@[simp] theorem byteLength_nil : byteLength [] = 0 := rfl

@[simp] theorem byteLength_cons (c : Char) (cs : List Char) :
    byteLength (c :: cs) = c.utf8Size + byteLength cs := rfl

@[simp] theorem byteLength_append (a b : List Char) :
    byteLength (a ++ b) = byteLength a + byteLength b := by
  induction a with
  | nil => simp
  | cons c cs ih => simp [ih, Nat.add_assoc]

namespace Piece

/-! ## Cutting a rendering -/

/-- What rendering carries past some pieces: the character written last and whether a semicolon is
owed. -/
def after : Option Char → Bool → List Piece → Option Char × Bool
  | last, owes, [] => (last, owes)
  | last, _, .owe :: pieces => after last true pieces
  | last, _, .forgive :: pieces => after last false pieces
  | last, owes, .text [] :: pieces => after last owes pieces
  | _, _, .text (c :: cs) :: pieces => after (some (cs.getLastD c)) false pieces

theorem renderAfter_append (last : Option Char) (owes : Bool) (front back : List Piece) :
    renderAfter last owes (front ++ back) = renderAfter last owes front ++
      renderAfter (after last owes front).1 (after last owes front).2 back := by
  induction front generalizing last owes with
  | nil => rfl
  | cons piece front ih =>
    match piece, owes with
    | .owe, _ => exact ih last true
    | .forgive, _ => exact ih last false
    | .text [], owes => simpa [renderAfter, after] using ih last owes
    | .text (c :: cs), true => simp [renderAfter, after, ih]
    | .text (c :: cs), false => simp [renderAfter, after, ih]

theorem after_append (last : Option Char) (owes : Bool) (front back : List Piece) :
    after last owes (front ++ back) =
      after (after last owes front).1 (after last owes front).2 back := by
  induction front generalizing last owes with
  | nil => rfl
  | cons piece front ih =>
    match piece with
    | .owe => exact ih last true
    | .forgive => exact ih last false
    | .text [] => simpa [after] using ih last owes
    | .text (c :: cs) => simpa [after] using ih (some (cs.getLastD c)) false

/-! ## Pieces that leave nothing owed -/

/-- No semicolon is owed after the pieces if none was before. -/
def Settles (pieces : List Piece) : Prop := ∀ last, (after last false pieces).2 = false

theorem Settles.append {front back : List Piece} (hf : Settles front) (hb : Settles back) :
    Settles (front ++ back) := by
  intro last
  rw [after_append, hf last]
  exact hb _

theorem settles_nil : Settles [] := fun _ => rfl

theorem settles_text (cs : List Char) : Settles [.text cs] := by
  intro last
  cases cs <;> rfl

/-- Text that is not empty pays whatever was owed before it. -/
theorem settles_append_text (pieces : List Piece) (c : Char) (cs : List Char) :
    Settles (pieces ++ [.text (c :: cs)]) := by
  intro last
  rw [after_append]
  rfl

/-! ## Breaks -/

/-- Pieces that no blank can be written before or after: rendering them takes `width` bytes, and
what follows is rendered as if it stood at the beginning. -/
def IsBreak (pieces : List Piece) (width : Nat) : Prop :=
  ∀ last rest, byteLength (renderAfter last false (pieces ++ rest)) =
    width + byteLength (render rest)

theorem IsBreak.append {a b : List Piece} {m n : Nat} (ha : IsBreak a m) (hb : IsBreak b n) :
    IsBreak (a ++ b) (m + n) := by
  intro last rest
  rw [List.append_assoc, ha, render, hb none rest, Nat.add_assoc]

/-- A character that is never read together with the one after it is forgotten. -/
theorem renderAfter_of_not_sticks {c : Char} (loose : ∀ d, sticks c d = false) (owes : Bool)
    (pieces : List Piece) : renderAfter (some c) owes pieces = renderAfter none owes pieces := by
  induction pieces generalizing owes with
  | nil => rfl
  | cons piece pieces ih =>
    match piece, owes with
    | .owe, _ => exact ih true
    | .forgive, _ => exact ih false
    | .text [], owes => simpa [renderAfter] using ih owes
    | .text (d :: ds), true => rfl
    | .text (d :: ds), false => simp [renderAfter, loose]

theorem isBreak_text {c : Char} {cs : List Char} (before : ∀ d, sticks d c = false)
    (behind : ∀ d, sticks (cs.getLastD c) d = false) :
    IsBreak [.text (c :: cs)] (byteLength (c :: cs)) := by
  intro last rest
  have blank : last.any (sticks · c) = false := by cases last <;> simp [before]
  have forgotten := renderAfter_of_not_sticks behind false rest
  simp only [List.cons_append, List.nil_append, renderAfter, blank, forgotten, render]
  simp [Nat.add_assoc]

theorem byteLength_append_break {front divider : List Piece} {width : Nat} (settles : Settles front)
    (isBreak : IsBreak divider width) (last : Option Char) (back : List Piece) :
    byteLength (renderAfter last false (front ++ (divider ++ back))) =
      byteLength (renderAfter last false front) + width + byteLength (render back) := by
  rw [renderAfter_append, byteLength_append, settles last, isBreak, Nat.add_assoc]

/-- Pieces between two breaks have the length they have alone. -/
theorem byteLength_between {opening middle closing : List Piece} {m n : Nat}
    (ho : IsBreak opening m) (hm : Settles middle) (hc : IsBreak closing n) :
    byteLength (render (opening ++ middle ++ closing)) = m + byteLength (render middle) + n := by
  rw [List.append_assoc, render, ho, ← List.append_nil (middle ++ closing), List.append_assoc,
    render, byteLength_append_break hm hc]
  simp [render, renderAfter, Nat.add_assoc]

end Piece

/-! ## Expressions settle -/

open Piece Style

theorem Style.settles_space : Settles st.space := by
  unfold Style.space
  split
  · exact settles_text _
  · exact settles_nil

theorem Style.settles_operator (op : BinaryOp) : Settles (st.operator op) := by
  unfold Style.operator Style.comma
  split
  · exact (settles_text _).append st.settles_space
  · exact (st.settles_space.append (settles_text _)).append st.settles_space

theorem Style.settles_boolean (value : Bool) : Settles (st.boolean value) := by
  unfold Style.boolean
  split <;> exact settles_text _

theorem UpdateOp.text_toList (op : UpdateOp) : ∃ c, op.text.toList = [c, c] := by
  cases op
  · exact ⟨'+', rfl⟩
  · exact ⟨'-', rfl⟩

/-- Parentheses leave nothing owed, so an expression settles in every slot if its form does. -/
theorem Expr.settles_of_form {st : Style} {depth : Nat} {form : Form}
    (settles : ∀ noIn, Settles (form.pieces st depth noIn)) (span : Span) (noIn : Bool)
    (slot : Slot) : Settles (Expr.pieces st depth noIn slot ⟨form, span⟩) := by
  rw [Expr.pieces]
  split
  · exact settles_append_text _ _ _
  · exact settles noIn

/-- An expression leaves no semicolon owed. The induction goes into the part that is written last;
all other forms end with a mark or a name. -/
theorem Form.settles_pieces (st : Style) (depth : Nat) :
    ∀ (form : Form) (noIn : Bool), Settles (form.pieces st depth noIn)
  | .number _, _ | .string _, _ | .regex _ _, _ | .null, _ | .this, _ | .ident _, _ =>
    settles_text _
  | .boolean value, _ => st.settles_boolean value
  | .array _, _ | .object _, _ | .index _ _, _ | .call _ _, _ => settles_append_text _ _ _
  | .function ⟨_, _, _, ⟨_, _⟩, _, _⟩, _ => by
    rw [Form.pieces, Function.pieces, Style.closeBrace, ← List.append_assoc]
    exact settles_append_text _ _ _
  | .member _ _, _ => (settles_append_text _ _ _).append (settles_text _)
  | .new _ (some _), _ => by
    rw [Form.pieces, ← List.append_assoc]
    exact settles_append_text _ _ _
  | .new ⟨callee, span⟩ none, noIn => by
    rw [Form.pieces, List.append_nil]
    refine (settles_text _).append ?_
    split
    · exact settles_append_text _ _ _
    · exact Expr.settles_of_form (callee.settles_pieces st depth) span noIn .object
  | .unary _ ⟨operand, span⟩, noIn =>
    (settles_text _).append <|
      Expr.settles_of_form (operand.settles_pieces st depth) span noIn .unaryOperand
  | .update _ true ⟨operand, span⟩, noIn =>
    (settles_text _).append <|
      Expr.settles_of_form (operand.settles_pieces st depth) span noIn .object
  | .update op false _, _ => by
    obtain ⟨c, spelled⟩ := op.text_toList
    rw [Form.pieces, word, spelled]
    exact settles_append_text _ _ _
  | .binary op ⟨left, leftSpan⟩ ⟨right, rightSpan⟩, noIn =>
    ((Expr.settles_of_form (left.settles_pieces st depth) leftSpan noIn _).append
      (st.settles_operator op)).append <|
      Expr.settles_of_form (right.settles_pieces st depth) rightSpan noIn _
  | .conditional _ _ ⟨no, span⟩, noIn =>
    ((settles_append_text _ _ _).append st.settles_space).append <|
      Expr.settles_of_form (no.settles_pieces st depth) span noIn _

theorem Expr.settles_pieces (depth : Nat) (noIn : Bool) (slot : Slot) (e : Expr) :
    Settles (e.pieces st depth noIn slot) := by
  obtain ⟨form, span⟩ := e
  exact Expr.settles_of_form (form.settles_pieces st depth) span noIn slot

end Minifier
