import Minifier.Text.CharClass

/-!
# Words

The character classes of identifiers, the keywords, and the words that no identifier may be.
-/

set_option autoImplicit false

namespace Minifier

/-- A character that may start an identifier. -/
def isIdentifierStart (c : Char) : Bool := c = '$' || c = '_' || Text.isAlphabetic c

/-- A character that may stand in an identifier after its first. -/
def isIdentifierPart (c : Char) : Bool := isIdentifierStart c || Text.isAlphanumeric c

/-- Whether a text has the form of an identifier; keywords have it too. -/
def isIdentifier (text : String) : Bool :=
  match text.toList with
  | [] => false
  | c :: cs => isIdentifierStart c && cs.all isIdentifierPart

/-- The words with a meaning of their own. -/
inductive Keyword where
  | var | function | if_ | else_ | for_ | in_ | while_ | do_ | switch | case_ | default
  | try_ | catch_ | finally_ | break_ | continue_ | return_ | throw | with_ | debugger
  | new | delete | typeof | void | instanceof | this | null | true | false
deriving DecidableEq, Repr

namespace Keyword

def all : List Keyword :=
  [.var, .function, .if_, .else_, .for_, .in_, .while_, .do_, .switch, .case_, .default,
   .try_, .catch_, .finally_, .break_, .continue_, .return_, .throw, .with_, .debugger,
   .new, .delete, .typeof, .void, .instanceof, .this, .null, .true, .false]

/-- The spelling in a program. -/
def text : Keyword → String
  | var => "var"
  | function => "function"
  | if_ => "if"
  | else_ => "else"
  | for_ => "for"
  | in_ => "in"
  | while_ => "while"
  | do_ => "do"
  | switch => "switch"
  | case_ => "case"
  | default => "default"
  | try_ => "try"
  | catch_ => "catch"
  | finally_ => "finally"
  | break_ => "break"
  | continue_ => "continue"
  | return_ => "return"
  | throw => "throw"
  | with_ => "with"
  | debugger => "debugger"
  | new => "new"
  | delete => "delete"
  | typeof => "typeof"
  | void => "void"
  | instanceof => "instanceof"
  | this => "this"
  | null => "null"
  | .true => "true"
  | .false => "false"

/-- The name in messages: the spelling with a capital. -/
def label (k : Keyword) : String := k.text.capitalize

/-- The keyword with a given spelling. -/
def ofText? (text : String) : Option Keyword := all.find? (·.text = text)

end Keyword

/-- Words that are never identifiers, those kept for later versions of the language included. -/
def reservedWords : List String :=
  ["break", "case", "catch", "class", "const", "continue", "debugger", "default", "delete", "do",
   "else", "enum", "export", "extends", "false", "finally", "for", "function", "if", "implements",
   "import", "in", "instanceof", "interface", "let", "new", "null", "package", "private",
   "protected", "public", "return", "static", "super", "switch", "this", "throw", "true", "try",
   "typeof", "var", "void", "while", "with", "yield"]

def isReservedWord (text : String) : Bool := reservedWords.contains text

end Minifier
