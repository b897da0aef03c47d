/-!
# Parts of a text

A text in parts between separators, and in lines.
-/

set_option autoImplicit false

namespace Minifier.Text

/-- The parts between separators, of which there is one more than separators. -/
def split (separator : Char) (text : List Char) : List (List Char) :=
  text.foldr (fun c parts =>
    match parts with
    | [] => [[c]]
    | part :: rest => if c = separator then [] :: part :: rest else (c :: part) :: rest) [[]]

/-- Parts with a separator between them. -/
def join (separator : Char) (parts : List (List Char)) : List Char := [separator].intercalate parts

/-- The lines of a text. A line ends at a line feed, with or without a carriage return before it;
there is none after the last of them. -/
def lines : List Char → List (List Char)
  | [] => []
  | '\r' :: '\n' :: rest => [] :: lines rest
  | '\n' :: rest => [] :: lines rest
  | c :: rest =>
    match lines rest with
    | [] => [[c]]
    | line :: more => (c :: line) :: more

end Minifier.Text
