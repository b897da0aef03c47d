/-!
# Punctuators

The marks and operators of the language. Where one is a beginning of another, the longer one is
read.
-/

set_option autoImplicit false

namespace Minifier

inductive Punctuator where
  | leftBrace | rightBrace | leftParen | rightParen | leftBracket | rightBracket
  | dot | semicolon | comma | question | colon
  | plus | minus | star | slash | percent | plusPlus | minusMinus
  | lessThan | greaterThan | lessThanEqual | greaterThanEqual
  | equalEqual | bangEqual | equalEqualEqual | bangEqualEqual
  | ampersand | pipe | caret | tilde | bang | ampersandAmpersand | pipePipe
  | leftShift | rightShift | unsignedRightShift
  | equal | plusEqual | minusEqual | starEqual | slashEqual | percentEqual
  | leftShiftEqual | rightShiftEqual | unsignedRightShiftEqual
  | ampersandEqual | pipeEqual | caretEqual
deriving DecidableEq, Repr

namespace Punctuator

/-- Every punctuator, none after a punctuator that it begins with. -/
def all : List Punctuator :=
  [.unsignedRightShiftEqual,
   .equalEqualEqual, .bangEqualEqual, .unsignedRightShift, .leftShiftEqual, .rightShiftEqual,
   .plusPlus, .minusMinus, .lessThanEqual, .greaterThanEqual, .equalEqual, .bangEqual,
   .ampersandAmpersand, .pipePipe, .leftShift, .rightShift, .plusEqual, .minusEqual, .starEqual,
   .slashEqual, .percentEqual, .ampersandEqual, .pipeEqual, .caretEqual,
   .leftBrace, .rightBrace, .leftParen, .rightParen, .leftBracket, .rightBracket,
   .dot, .semicolon, .comma, .question, .colon, .plus, .minus, .star, .slash, .percent,
   .lessThan, .greaterThan, .ampersand, .pipe, .caret, .tilde, .bang, .equal]

/-- The spelling in a program. -/
def text : Punctuator → String
  | leftBrace => "\x7b"
  | rightBrace => "\x7d"
  | leftParen => "("
  | rightParen => ")"
  | leftBracket => "["
  | rightBracket => "]"
  | dot => "."
  | semicolon => ";"
  | comma => ","
  | question => "?"
  | colon => ":"
  | plus => "+"
  | minus => "-"
  | star => "*"
  | slash => "/"
  | percent => "%"
  | plusPlus => "++"
  | minusMinus => "--"
  | lessThan => "<"
  | greaterThan => ">"
  | lessThanEqual => "<="
  | greaterThanEqual => ">="
  | equalEqual => "=="
  | bangEqual => "!="
  | equalEqualEqual => "==="
  | bangEqualEqual => "!=="
  | ampersand => "&"
  | pipe => "|"
  | caret => "^"
  | tilde => "~"
  | bang => "!"
  | ampersandAmpersand => "&&"
  | pipePipe => "||"
  | leftShift => "<<"
  | rightShift => ">>"
  | unsignedRightShift => ">>>"
  | equal => "="
  | plusEqual => "+="
  | minusEqual => "-="
  | starEqual => "*="
  | slashEqual => "/="
  | percentEqual => "%="
  | leftShiftEqual => "<<="
  | rightShiftEqual => ">>="
  | unsignedRightShiftEqual => ">>>="
  | ampersandEqual => "&="
  | pipeEqual => "|="
  | caretEqual => "^="

/-- The name in messages. -/
def label : Punctuator → String
  | leftBrace => "LeftBrace"
  | rightBrace => "RightBrace"
  | leftParen => "LeftParen"
  | rightParen => "RightParen"
  | leftBracket => "LeftBracket"
  | rightBracket => "RightBracket"
  | dot => "Dot"
  | semicolon => "Semicolon"
  | comma => "Comma"
  | question => "Question"
  | colon => "Colon"
  | plus => "Plus"
  | minus => "Minus"
  | star => "Star"
  | slash => "Slash"
  | percent => "Percent"
  | plusPlus => "PlusPlus"
  | minusMinus => "MinusMinus"
  | lessThan => "LessThan"
  | greaterThan => "GreaterThan"
  | lessThanEqual => "LessThanEqual"
  | greaterThanEqual => "GreaterThanEqual"
  | equalEqual => "EqualEqual"
  | bangEqual => "BangEqual"
  | equalEqualEqual => "EqualEqualEqual"
  | bangEqualEqual => "BangEqualEqual"
  | ampersand => "Ampersand"
  | pipe => "Pipe"
  | caret => "Caret"
  | tilde => "Tilde"
  | bang => "Bang"
  | ampersandAmpersand => "AmpersandAmpersand"
  | pipePipe => "PipePipe"
  | leftShift => "LeftShift"
  | rightShift => "RightShift"
  | unsignedRightShift => "UnsignedRightShift"
  | equal => "Equal"
  | plusEqual => "PlusEqual"
  | minusEqual => "MinusEqual"
  | starEqual => "StarEqual"
  | slashEqual => "SlashEqual"
  | percentEqual => "PercentEqual"
  | leftShiftEqual => "LeftShiftEqual"
  | rightShiftEqual => "RightShiftEqual"
  | unsignedRightShiftEqual => "UnsignedRightShiftEqual"
  | ampersandEqual => "AmpersandEqual"
  | pipeEqual => "PipeEqual"
  | caretEqual => "CaretEqual"

/-- The longest punctuator that a text starts with, and the text after it. -/
def read? (cs : List Char) : Option (Punctuator × List Char) :=
  all.findSome? fun p => (p.text.toList.isPrefixOf? cs).map (p, ·)

end Punctuator

end Minifier
