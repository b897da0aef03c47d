import Minifier.Text.CharClass
import Minifier.Text.GraphemeExtend
import Minifier.Text.Unprintable

/-!
# Text shown inside a message

A string value that a message mentions is shown between double quotes. Characters that would not
be seen, or that would be taken for part of the quoting, are shown as escapes.
-/

set_option autoImplicit false

namespace Minifier.Text

/-- The lower-case hexadecimal digits of a number, without leading zeros. -/
def hexDigits (n : Nat) : List Char := Nat.toDigits 16 n

/-- Whether a character has a glyph of its own. -/
def isPrintable (c : Char) : Bool :=
  if c.toNat < 0x80 then 0x20 ≤ c.toNat && c.toNat < 0x7F else !inRuns false unprintableRuns c.toNat

/-- Whether a character is a mark that joins the one before it. -/
def isGraphemeExtend (c : Char) : Bool :=
  if c.toNat < 0x80 then false else inRuns false graphemeExtendRuns c.toNat

/-- One character as a message shows it. -/
def escapedChar (c : Char) : List Char :=
  if c = '\u0000' then ['\\', '0']
  else if c = '\t' then ['\\', 't']
  else if c = '\r' then ['\\', 'r']
  else if c = '\n' then ['\\', 'n']
  else if c = '"' then ['\\', '"']
  else if c = '\\' then ['\\', '\\']
  else if isGraphemeExtend c || !isPrintable c then
    ['\\', 'u', '\x7b'] ++ hexDigits c.toNat ++ ['\x7d']
  else [c]

/-- A string value between double quotes, as a message shows it. -/
def escaped (value : String) : String :=
  String.ofList ('"' :: value.toList.flatMap escapedChar ++ ['"'])

end Minifier.Text
