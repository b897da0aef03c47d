import Minifier.Text.Alphabetic
import Minifier.Text.Numeric

/-!
# Classes of characters

The classes that decide how source text falls into tokens: white space, line terminators, letters
and numerals. All but the line terminators are Unicode properties; below U+0080 they are decided
without a table.
-/

set_option autoImplicit false

namespace Minifier.Text

/-- Whether a code point is of a class that is given by runs, each of which ends where the class
begins or ends. -/
def inRuns (inside : Bool) : List Nat → Nat → Bool
  | [], _ => inside
  | length :: runs, point =>
    if point < length then inside else inRuns (!inside) runs (point - length)

/-- The Unicode property White_Space. -/
def isBlank (c : Char) : Bool :=
  let point := c.toNat
  (9 ≤ point && point ≤ 13) || point = 0x20 || point = 0x85 || point = 0xA0 || point = 0x1680 ||
    (0x2000 ≤ point && point ≤ 0x200A) || point = 0x2028 || point = 0x2029 || point = 0x202F ||
    point = 0x205F || point = 0x3000

/-- The Unicode property Alphabetic. -/
def isAlphabetic (c : Char) : Bool :=
  if c.toNat < 0x80 then c.isAlpha else inRuns false alphabeticRuns c.toNat

/-- The Unicode general categories Nd, Nl and No. -/
def isNumeric (c : Char) : Bool :=
  if c.toNat < 0x80 then c.isDigit else inRuns false numericRuns c.toNat

/-- Letters and numerals. -/
def isAlphanumeric (c : Char) : Bool := isAlphabetic c || isNumeric c

/-- The characters that end a line of a program. -/
def isLineTerminator (c : Char) : Bool :=
  c = '\n' || c = '\r' || c = '\u2028' || c = '\u2029'

/-- A text without the white space it starts with. -/
def trimStart (text : List Char) : List Char := text.dropWhile isBlank

/-- A text without the white space it ends with. -/
def trimEnd (text : List Char) : List Char := (text.reverse.dropWhile isBlank).reverse

/-- A text without the white space around it. -/
def trim (text : List Char) : List Char := trimEnd (trimStart text)

end Minifier.Text
