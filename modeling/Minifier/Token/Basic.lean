import Minifier.Number.Text
import Minifier.Span
import Minifier.Text.Escaped
import Minifier.Token.Punctuator
import Minifier.Token.Word

/-!
# Tokens

A program is read as tokens: identifiers, literals, keywords and punctuators, each with its place,
whether it starts a line, and the comments before it that have to survive.
-/

set_option autoImplicit false

namespace Minifier

/-- The comments that survive: `/*! */`, and the conditional `/*@ @*/`. -/
inductive CommentKind where
  | important
  | conditional
deriving DecidableEq, Repr

/-- A surviving comment, its delimiters included in the text. -/
structure Comment where
  kind : CommentKind
  text : String
  span : Span
deriving DecidableEq, Repr

/-- What a token is, apart from its place. -/
inductive Lexeme where
  | identifier (name : String)
  | number (value : Number)
  | string (value : String)
  | regex (pattern flags : String)
  | keyword (word : Keyword)
  | punctuator (mark : Punctuator)
  | endOfInput
deriving DecidableEq, Repr

namespace Lexeme

/-- The text of a lexeme that can be a property name: identifiers and keywords alike. -/
def propertyName? : Lexeme → Option String
  | identifier name => some name
  | keyword word => some word.text
  | _ => none

/-- Whether an expression can end with the lexeme. A slash after it divides. -/
def endsOperand : Lexeme → Bool
  | identifier _ | number _ | string _ | regex .. => true
  | keyword word => word = .this || word = .null || word = .true || word = .false
  | punctuator mark =>
    mark = .rightParen || mark = .rightBracket || mark = .plusPlus || mark = .minusMinus
  | endOfInput => false

/-- The lexeme as a message names it. -/
def shown : Lexeme → String
  | identifier name => s!"Identifier({Text.escaped name})"
  | number value => s!"Number({String.ofList value.shown})"
  | string value => s!"String({Text.escaped value})"
  | regex pattern flags =>
    "Regex \x7b pattern: " ++ Text.escaped pattern ++ ", flags: " ++ Text.escaped flags ++ " \x7d"
  | keyword word => word.label
  | punctuator mark => mark.label
  | endOfInput => "end of input"

end Lexeme

structure Token where
  lexeme : Lexeme
  span : Span
  /-- A line terminator stands between the token before and this one, or this one is the first. -/
  newlineBefore : Bool := false
  /-- The surviving comments between the token before and this one. -/
  comments : List Comment := []
deriving DecidableEq, Repr

instance : Inhabited Token := ⟨{ lexeme := .endOfInput, span := .synthetic }⟩

end Minifier
