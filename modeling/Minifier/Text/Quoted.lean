import Minifier.Text.CharClass
import Minifier.Text.Escaped

/-!
# String literals

How a string value is written in a program: between the quotes that need fewer escapes, double ones
on a tie, with escapes for the characters that cannot stand in a literal.
-/

set_option autoImplicit false

namespace Minifier.Text

/-- The kind of quote that a literal for the value gets. -/
def quoteFor (value : List Char) : Char :=
  if value.count '\'' < value.count '"' then '\'' else '"'

/-- The escape of one character, given the quote and the character after it. A zero before a digit
would be read together with it as an octal escape. -/
def literalChar (quote : Char) (c : Char) (next : Option Char) : List Char :=
  if c = '\\' then ['\\', '\\']
  else if c = '\n' then ['\\', 'n']
  else if c = '\r' then ['\\', 'r']
  else if c = '\t' then ['\\', 't']
  else if c = '\x08' then ['\\', 'b']
  else if c = '\x0c' then ['\\', 'f']
  else if c = '\u2028' then "\\u2028".toList
  else if c = '\u2029' then "\\u2029".toList
  else if c = '\x00' then if next.any Char.isDigit then "\\x00".toList else ['\\', '0']
  else if c = quote then ['\\', c]
  else if c.toNat < 0x10 then ['\\', 'x', '0'] ++ hexDigits c.toNat
  else if c.toNat < 0x20 then ['\\', 'x'] ++ hexDigits c.toNat
  else [c]

/-- The characters of a literal between its quotes. -/
def literalChars (quote : Char) : List Char → List Char
  | [] => []
  | c :: rest => literalChar quote c rest.head? ++ literalChars quote rest

/-- The string literal for a value. -/
def quoted (value : List Char) : List Char :=
  let quote := quoteFor value
  quote :: literalChars quote value ++ [quote]

end Minifier.Text
