import Minifier.Token.Word

/-!
# Pieces of output

A tree is written as a list of pieces, which `render` joins. Between two pieces a blank is written
only if they would be read as one token without it. A statement that has to be ended owes a
semicolon, which the next piece pays; a closing brace forgives the debt.
-/

set_option autoImplicit false

namespace Minifier

inductive Piece where
  | text (chars : List Char)
  /-- The statement before has to be ended before anything else is written. -/
  | owe
  /-- The statement before needs no end. -/
  | forgive
deriving DecidableEq, Repr

namespace Piece

/-- Whether two characters next to each other would be read together. -/
def sticks (last first : Char) : Bool :=
  (isIdentifierPart last && isIdentifierPart first) || (last = '+' && first = '+') ||
    (last = '-' && first = '-') || (last = '/' && (first = '/' || first = '*'))

/-- Joins pieces, given the character written last and whether a semicolon is owed. A semicolon
still owed at the end is not written. -/
def renderAfter : Option Char → Bool → List Piece → List Char
  | _, _, [] => []
  | last, _, .owe :: pieces => renderAfter last true pieces
  | last, _, .forgive :: pieces => renderAfter last false pieces
  | last, owes, .text [] :: pieces => renderAfter last owes pieces
  | _, true, .text (c :: cs) :: pieces =>
    ';' :: c :: cs ++ renderAfter (some (cs.getLastD c)) false pieces
  | last, false, .text (c :: cs) :: pieces =>
    (if last.any (sticks · c) then [' '] else []) ++
      c :: cs ++ renderAfter (some (cs.getLastD c)) false pieces

def render (pieces : List Piece) : List Char := renderAfter none false pieces

end Piece

end Minifier
