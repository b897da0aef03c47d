import Minifier.Syntax.Tree
import Minifier.Token.Basic

/-!
# Token streams

A parser reads tokens from a stream that never runs out: the end of the input stays where it is.
Here are the stream, the errors a parser gives up with, and the small steps all rules are made of.
-/

set_option autoImplicit false

namespace Minifier

/-- The tokens that are left, and the span of the token read last. -/
structure TokenStream where
  tokens : List Token
  previous : Option Span := none

namespace TokenStream

/-- The stream of a token list. A list that lacks the end of the input gets one, at the place of
its last token. -/
def ofTokens (tokens : List Token) : TokenStream :=
  match tokens.getLast? with
  | some last =>
    if last.lexeme = .endOfInput then { tokens }
    else { tokens := tokens ++ [{ lexeme := .endOfInput, span := last.span }] }
  | none => { tokens := [{ lexeme := .endOfInput, span := .synthetic }] }

def current (s : TokenStream) : Token := s.tokens.headD default

/-- The lexeme after the current one. -/
def following (s : TokenStream) : Lexeme := (s.tokens[1]?.getD s.current).lexeme

/-- The stream after the current token; the end of the input is not passed. -/
def advance (s : TokenStream) : TokenStream :=
  if s.current.lexeme = .endOfInput then s
  else { tokens := s.tokens.tail, previous := some s.current.span }

/-- The stream without the comments before the current token. -/
def dropComments (s : TokenStream) : TokenStream :=
  match s.tokens with
  | [] => s
  | token :: rest => { s with tokens := { token with comments := [] } :: rest }

/-- From a span to the end of the token read last. -/
def spanFrom (s : TokenStream) (start : Span) : Span :=
  start.combine (s.previous.getD s.current.span)

end TokenStream

/-- What a parser misses or refuses at the current token. -/
inductive Complaint where
  | semicolon
  | identifier
  | functionName
  | parametersOpen
  | parametersClose
  | openBrace
  | closeBrace
  | openParen
  | closeParen
  | forOpen
  | forSemicolon
  | forClose
  | forInClose
  | doWhile
  | switchOpen
  | secondDefault
  | caseOrDefault
  | caseColon
  | catchOpen
  | catchClose
  | catchOrFinally
  | throwNewline
  | labelColon
  | assignmentTarget
  | conditionalColon
  | memberName
  | closeBracket
  | argumentsClose
  | expression
  | arrayClose
  | objectClose
  | propertyColon
  | propertyName
  | unfinished
deriving DecidableEq, Repr

def Complaint.text : Complaint → String
  | semicolon => "Expected ';'"
  | identifier => "Expected identifier"
  | functionName => "Expected function name"
  | parametersOpen => "Expected '(' before parameters"
  | parametersClose => "Expected ')' after parameters"
  | openBrace => "Expected '\x7b'"
  | closeBrace => "Expected '\x7d'"
  | openParen => "Expected '('"
  | closeParen => "Expected ')'"
  | forOpen => "Expected '(' after 'for'"
  | forSemicolon => "Expected ';' in for statement"
  | forClose => "Expected ')' after for clauses"
  | forInClose => "Expected ')' after for-in"
  | doWhile => "Expected 'while' after do body"
  | switchOpen => "Expected '\x7b' after switch"
  | secondDefault => "Multiple default clauses"
  | caseOrDefault => "Expected 'case' or 'default'"
  | caseColon => "Expected ':' after case"
  | catchOpen => "Expected '(' after 'catch'"
  | catchClose => "Expected ')' after catch parameter"
  | catchOrFinally => "Expected 'catch' or 'finally' after try block"
  | throwNewline => "Illegal newline after 'throw'"
  | labelColon => "Expected ':' after label"
  | assignmentTarget => "Invalid assignment target"
  | conditionalColon => "Expected ':' in conditional expression"
  | memberName => "Expected property name after '.'"
  | closeBracket => "Expected ']'"
  | argumentsClose => "Expected ')' after arguments"
  | expression => "Expected expression"
  | arrayClose => "Expected ']' after array elements"
  | objectClose => "Expected '\x7d' after object literal"
  | propertyColon => "Expected ':' after property name"
  | propertyName => "Expected property name"
  | unfinished => "Input nested too deeply"

/-- A complaint about the token that was found. -/
structure SyntaxFault where
  complaint : Complaint
  found : Lexeme
  span : Span
deriving DecidableEq, Repr

namespace SyntaxFault

/-- The fault without its place. -/
def text (f : SyntaxFault) : String := s!"{f.complaint.text}, found {f.found.shown}"

def message (f : SyntaxFault) : String := s!"{f.text} at {f.span.text}"

end SyntaxFault

/-- A rule of the grammar: it reads from the stream and answers, or gives up. -/
abbrev Parser := StateT TokenStream (Except SyntaxFault)

namespace Parser

def current : Parser Token := return (← get).current

def lexeme : Parser Lexeme := return (← get).current.lexeme

def currentSpan : Parser Span := return (← get).current.span

/-- Gives up at the current token. -/
def fail {α : Type} (complaint : Complaint) : Parser α := do
  let token ← current
  throw ⟨complaint, token.lexeme, token.span⟩

/-- Reads the current token and answers its span. -/
def advance : Parser Span := do
  let span ← currentSpan
  modify TokenStream.advance
  return span

def isAt (lexeme : Lexeme) : Parser Bool := return (← get).current.lexeme = lexeme

def isAtMark (mark : Punctuator) : Parser Bool := isAt (.punctuator mark)

def isAtWord (word : Keyword) : Parser Bool := isAt (.keyword word)

/-- Reads a punctuator if it is there, and says whether it was. -/
def accept (mark : Punctuator) : Parser Bool := do
  if ← isAtMark mark then
    let _ ← advance
    return true
  else return false

/-- Reads a keyword if it is there, and says whether it was. -/
def acceptWord (word : Keyword) : Parser Bool := do
  if ← isAtWord word then
    let _ ← advance
    return true
  else return false

/-- Reads a punctuator that has to be there. -/
def expect (mark : Punctuator) (complaint : Complaint) : Parser Span := do
  if ← isAtMark mark then advance else fail complaint

def spanFrom (start : Span) : Parser Span := return (← get).spanFrom start

/-- Whether a statement may end here: at `;`, before `}`, at the end of the input, or before a
token on a new line. -/
def atStatementEnd : Parser Bool := do
  let token ← current
  return token.lexeme = .punctuator .semicolon || token.lexeme = .punctuator .rightBrace ||
    token.lexeme = .endOfInput || token.newlineBefore

/-- Reads the end of a statement, which may be left to the line break. -/
def statementEnd : Parser Unit := do
  unless ← accept .semicolon do
    unless ← atStatementEnd do fail .semicolon

def identifier : Parser Ident := do
  match ← lexeme with
  | .identifier name => return { name, span := ← advance }
  | _ => fail .identifier

/-- Takes the comments before the current token, as statements. -/
def comments : Parser (List Statement) := do
  let stream ← get
  set stream.dropComments
  return stream.current.comments.map fun c => .comment c.kind c.text c.span

end Parser

end Minifier
