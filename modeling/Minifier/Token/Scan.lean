import Minifier.Token.Basic

/-!
# Reading tokens

`Token.scan` splits a source text into tokens, the last of which is the end of the input. The
readers below work on the characters that are left and carry the position along, so that each token
and each error knows its place.

A slash is the hard part: it divides after an operand and starts a regular expression elsewhere.
The token before decides, except after `)`, which may close a grouped operand or the head of an
`if`, `for`, `while` or `with`; so the open parentheses are remembered.
-/

set_option autoImplicit false

namespace Minifier

/-! ## Positions -/

/-- A place between two characters: its byte offset, and line and column counted from one. -/
structure Position where
  offset : Nat
  line : Nat
  column : Nat
deriving DecidableEq, Repr

namespace Position

def start : Position := ⟨0, 1, 1⟩

/-- The place after one more character. Each line terminator character starts a line. -/
def next (p : Position) (c : Char) : Position :=
  if Text.isLineTerminator c then ⟨p.offset + c.utf8Size, p.line + 1, 1⟩
  else ⟨p.offset + c.utf8Size, p.line, p.column + 1⟩

/-- The place after some more characters. -/
def after (p : Position) (cs : List Char) : Position := cs.foldl next p

/-- The span between two places. -/
def spanTo (p q : Position) : Span := ⟨p.offset, q.offset, p.line, p.column⟩

end Position

/-- What is left to read, and where it starts. -/
structure Cursor where
  pos : Position
  rest : List Char

namespace Cursor

def ofText (text : String) : Cursor := ⟨.start, text.toList⟩

/-- Reads the longest run of characters of one class. -/
def takeWhile (class_ : Char → Bool) (cur : Cursor) : List Char × Cursor :=
  let run := cur.rest.takeWhile class_
  (run, ⟨cur.pos.after run, cur.rest.dropWhile class_⟩)

/-- Reads one character if it is of a class. -/
def eat? (class_ : Char → Bool) (cur : Cursor) : Option (Char × Cursor) :=
  match cur.rest with
  | [] => none
  | c :: cs => if class_ c then some (c, ⟨cur.pos.next c, cs⟩) else none

end Cursor

/-! ## Errors -/

/-- Why a text does not fall into tokens. -/
inductive LexicalFault where
  | unterminatedComment
  | unterminatedString
  | unterminatedRegex
  | invalidEscape
  | invalidHexadecimal
  | invalidExponent
  | identifierAfterNumber
  | unexpectedCharacter (c : Char)
deriving DecidableEq, Repr

def LexicalFault.text : LexicalFault → String
  | unterminatedComment => "Unterminated comment"
  | unterminatedString => "Unterminated string literal"
  | unterminatedRegex => "Unterminated regular expression"
  | invalidEscape => "Invalid escape sequence"
  | invalidHexadecimal => "Invalid hexadecimal literal"
  | invalidExponent => "Invalid exponent in numeric literal"
  | identifierAfterNumber => "Identifier directly after numeric literal"
  | unexpectedCharacter c => s!"Unexpected character '{c}'"

/-- A fault, and the stretch from the start of the token or comment to where it showed. -/
structure LexicalError where
  fault : LexicalFault
  span : Span
deriving DecidableEq, Repr

def LexicalError.message (e : LexicalError) : String := s!"{e.fault.text} at {e.span.text}"

/-- What a reader answers: a value and what is left, or a fault and where it showed. -/
abbrev Reading := Except (LexicalFault × Position)

/-! ## Between tokens -/

/-- What stands between two tokens, as far as it matters. -/
structure Gap where
  newline : Bool := false
  comments : List Comment := []

/-- Adds a block comment to a gap if it is one that survives. -/
def Gap.addComment (gap : Gap) (text : List Char) (span : Span) : Gap :=
  let kept (kind : CommentKind) : Gap :=
    { gap with comments := gap.comments ++ [⟨kind, String.ofList text, span⟩] }
  if "/*!".toList.isPrefixOf text then kept .important
  else if "/*@".toList.isPrefixOf text && "@*/".toList.isSuffixOf text && 6 ≤ text.length then
    kept .conditional
  else gap

/-- Where in a gap the reader is; a block comment knows its start and its text so far, reversed. -/
inductive GapState where
  | blank
  | lineComment
  | blockComment (start : Position) (text : List Char)

/-- Reads white space and comments up to the next token. -/
def readGap : GapState → Gap → Position → List Char → Except LexicalError (Gap × Cursor)
  | .blank, gap, pos, [] => .ok (gap, ⟨pos, []⟩)
  | .blank, gap, pos, '/' :: '/' :: cs => readGap .lineComment gap (pos.after ['/', '/']) cs
  | .blank, gap, pos, '/' :: '*' :: cs =>
    readGap (.blockComment pos ['*', '/']) gap (pos.after ['/', '*']) cs
  | .blank, gap, pos, c :: cs =>
    if Text.isLineTerminator c then readGap .blank { gap with newline := true } (pos.next c) cs
    else if Text.isBlank c || c = '\ufeff' then readGap .blank gap (pos.next c) cs
    else .ok (gap, ⟨pos, c :: cs⟩)
  | .lineComment, gap, pos, [] => .ok (gap, ⟨pos, []⟩)
  | .lineComment, gap, pos, c :: cs =>
    if Text.isLineTerminator c then readGap .blank { gap with newline := true } (pos.next c) cs
    else readGap .lineComment gap (pos.next c) cs
  | .blockComment start _, _, pos, [] => .error ⟨.unterminatedComment, start.spanTo pos⟩
  | .blockComment start text, gap, pos, '*' :: '/' :: cs =>
    let stop := pos.after ['*', '/']
    readGap .blank (gap.addComment ('/' :: '*' :: text).reverse (start.spanTo stop)) stop cs
  | .blockComment start text, gap, pos, c :: cs =>
    readGap (.blockComment start (c :: text))
      { gap with newline := gap.newline || Text.isLineTerminator c } (pos.next c) cs

/-! ## Numbers -/

/-- The value of a hexadecimal digit. -/
def hexDigit? (c : Char) : Option Nat :=
  if c.isDigit then some (c.toNat - '0'.toNat)
  else if 'a' ≤ c && c ≤ 'f' then some (c.toNat - 'a'.toNat + 10)
  else if 'A' ≤ c && c ≤ 'F' then some (c.toNat - 'A'.toNat + 10)
  else none

def isHexDigit (c : Char) : Bool := (hexDigit? c).isSome

def isOctalDigit (c : Char) : Bool := '0' ≤ c && c ≤ '7'

/-- The value of decimal digits, most significant first. -/
def ofDigits (cs : List Char) : Nat := cs.foldl (fun n c => 10 * n + (c.toNat - '0'.toNat)) 0

/-- The optional exponent of a decimal literal. -/
def readExponent (cur : Cursor) : Reading (Int × Cursor) :=
  match cur.eat? fun c => c = 'e' || c = 'E' with
  | none => .ok (0, cur)
  | some (_, cur) =>
    let (negative, cur) := match cur.eat? fun c => c = '+' || c = '-' with
      | some (sign, cur) => (sign == '-', cur)
      | none => (false, cur)
    match cur.takeWhile Char.isDigit with
    | ([], _) => .error (.invalidExponent, cur.pos)
    | (digits, cur) => .ok (if negative then -(ofDigits digits : Int) else ofDigits digits, cur)

/-- A decimal literal whose digits before the point have been read. -/
def readDecimal (whole : List Char) (cur : Cursor) : Reading (Decimal × Cursor) := do
  let (places, cur) := match cur.eat? (· = '.') with
    | some (_, cur) => cur.takeWhile Char.isDigit
    | none => ([], cur)
  let (exponent, cur) ← readExponent cur
  match cur.rest with
  | c :: _ => if isIdentifierStart c then throw (.identifierAfterNumber, cur.pos)
  | [] => pure ()
  return (⟨ofDigits (whole ++ places), exponent - places.length⟩, cur)

/-- A number literal: hexadecimal, octal with a leading zero, or decimal. -/
def readNumber (cur : Cursor) : Reading (Number × Cursor) :=
  match cur.rest with
  | '0' :: 'x' :: _ => hexadecimal 'x'
  | '0' :: 'X' :: _ => hexadecimal 'X'
  | _ =>
    let (whole, after) := cur.takeWhile Char.isDigit
    if 1 < whole.length && whole.head? = some '0' && whole.all isOctalDigit &&
        after.rest.head? ≠ some '.' then
      .ok (.ofRadix 8 (whole.tail.filterMap hexDigit?), after)
    else do
      let (decimal, after) ← readDecimal whole after
      return (.ofDecimal decimal, after)
where
  hexadecimal (mark : Char) : Reading (Number × Cursor) :=
    let opened : Cursor := ⟨cur.pos.after ['0', mark], cur.rest.drop 2⟩
    match opened.takeWhile isHexDigit with
    | ([], _) => .error (.invalidHexadecimal, opened.pos)
    | (digits, after) => .ok (.ofRadix 16 (digits.filterMap hexDigit?), after)

/-! ## Strings -/

/-- The character with a code, or the replacement character where the code is none. -/
def charOfCode (code : Nat) : Char := if code.isValidChar then Char.ofNat code else '\ufffd'

/-- The value of a hexadecimal escape. -/
def ofHexDigits (digits : List Char) : Nat :=
  digits.foldl (fun n c => 16 * n + (hexDigit? c).getD 0) 0

/-- Where an escape that lacks hexadecimal digits shows its fault: past the first character that is
no digit. -/
def badEscapeAt (pos : Position) : List Char → Position
  | [] => pos
  | c :: cs => if isHexDigit c then badEscapeAt (pos.next c) cs else pos.next c

/-- The character that a one-letter escape stands for. -/
def simpleEscape? : Char → Option Char
  | 'n' => some '\n'
  | 't' => some '\t'
  | 'r' => some '\r'
  | 'b' => some '\x08'
  | 'f' => some '\x0c'
  | 'v' => some '\x0b'
  | _ => none

/-- Whether one more octal digit still belongs to an octal escape. -/
def extendsOctal (code : Nat) (c : Char) : Bool :=
  isOctalDigit c && code * 8 + (c.toNat - '0'.toNat) ≤ 255

/-- The rest of a string literal after its opening quote; `value` is reversed. -/
def readString (quote : Char) :
    (value : List Char) → Position → List Char → Reading (List Char × Cursor)
  | _, pos, [] => .error (.unterminatedString, pos)
  | _, pos, ['\\'] => .error (.unterminatedString, pos.next '\\')
  | value, pos, '\\' :: c :: cs =>
    let here := pos.after ['\\', c]
    match simpleEscape? c with
    | some e => readString quote (e :: value) here cs
    | none =>
      if c = '0' && !(cs.head?.any Char.isDigit) then readString quote ('\x00' :: value) here cs
      else if c = 'x' then
        match cs with
        | a :: b :: cs' =>
          if [a, b].all isHexDigit then
            readString quote (charOfCode (ofHexDigits [a, b]) :: value) (here.after [a, b]) cs'
          else .error (.invalidEscape, badEscapeAt here [a, b])
        | cs => .error (.invalidEscape, badEscapeAt here cs)
      else if c = 'u' then
        match cs with
        | a :: b :: d :: e :: cs' =>
          if [a, b, d, e].all isHexDigit then
            readString quote (charOfCode (ofHexDigits [a, b, d, e]) :: value)
              (here.after [a, b, d, e]) cs'
          else .error (.invalidEscape, badEscapeAt here [a, b, d, e])
        | cs => .error (.invalidEscape, badEscapeAt here cs)
      else if c = '\r' then
        match cs with
        | '\n' :: cs' => readString quote value (here.next '\n') cs'
        | cs => readString quote value here cs
      else if Text.isLineTerminator c then readString quote value here cs
      else if isOctalDigit c then
        let one := c.toNat - '0'.toNat
        match cs with
        | [] => .error (.unterminatedString, here)
        | d :: cs₁ =>
          if extendsOctal one d then
            let two := one * 8 + (d.toNat - '0'.toNat)
            match cs₁ with
            | [] => .error (.unterminatedString, here.next d)
            | e :: cs₂ =>
              if extendsOctal two e then
                readString quote (charOfCode (two * 8 + (e.toNat - '0'.toNat)) :: value)
                  (here.after [d, e]) cs₂
              else readString quote (charOfCode two :: value) (here.next d) (e :: cs₂)
          else readString quote (charOfCode one :: value) here (d :: cs₁)
      else readString quote (c :: value) here cs
  | value, pos, c :: cs =>
    if c = quote then .ok (value.reverse, ⟨pos.next c, cs⟩)
    else if Text.isLineTerminator c then .error (.unterminatedString, pos.next c)
    else readString quote (c :: value) (pos.next c) cs

/-! ## Regular expressions -/

/-- The pattern of a regular expression after its opening slash, and the closing slash. A slash
inside a character class does not close it. `pattern` is reversed. -/
def readPattern : (inClass : Bool) → (pattern : List Char) → Position → List Char →
    Reading (List Char × Cursor)
  | _, _, pos, [] => .error (.unterminatedRegex, pos)
  | _, _, pos, ['\\'] => .error (.unterminatedRegex, pos.next '\\')
  | inClass, pattern, pos, '\\' :: c :: cs =>
    let here := pos.after ['\\', c]
    if Text.isLineTerminator c then .error (.unterminatedRegex, here)
    else readPattern inClass (c :: '\\' :: pattern) here cs
  | inClass, pattern, pos, c :: cs =>
    if Text.isLineTerminator c then .error (.unterminatedRegex, pos.next c)
    else if c = '/' && !inClass then .ok (pattern.reverse, ⟨pos.next c, cs⟩)
    else
      let inClass := if c = '[' then true else if c = ']' then false else inClass
      readPattern inClass (c :: pattern) (pos.next c) cs

/-! ## Tokens -/

/-- The lexeme that a word is: a keyword, or an identifier. -/
def Lexeme.ofWord (word : List Char) : Lexeme :=
  let text := String.ofList word
  match Keyword.ofText? text with
  | some word => .keyword word
  | none => .identifier text

/-- Whether a number literal starts here. -/
def startsNumber : List Char → Bool
  | '.' :: c :: _ => c.isDigit
  | c :: _ => c.isDigit
  | [] => false

/-- Reads one lexeme. -/
def readLexeme (regexAllowed : Bool) (cur : Cursor) : Reading (Lexeme × Cursor) :=
  match cur.rest with
  | [] => .ok (.endOfInput, cur)
  | c :: cs =>
    if isIdentifierStart c then
      let (word, cur) := cur.takeWhile isIdentifierPart
      .ok (.ofWord word, cur)
    else if startsNumber (c :: cs) then do
      let (value, cur) ← readNumber cur
      return (.number value, cur)
    else if c = '"' || c = '\'' then do
      let (value, cur) ← readString c [] (cur.pos.next c) cs
      return (.string (String.ofList value), cur)
    else if c = '/' && regexAllowed then do
      let (pattern, cur) ← readPattern false [] (cur.pos.next c) cs
      let (flags, cur) := cur.takeWhile isIdentifierPart
      return (.regex (String.ofList pattern) (String.ofList flags), cur)
    else
      match Punctuator.read? (c :: cs) with
      | some (mark, rest) => .ok (.punctuator mark, ⟨cur.pos.after mark.text.toList, rest⟩)
      | none => .error (.unexpectedCharacter c, cur.pos.next c)

/-- What the tokens so far say about a slash: the lexeme before, for each open parenthesis whether
it opens the head of a statement, and whether the last `)` closed such a head. -/
structure SlashContext where
  previous : Option Lexeme := none
  heads : List Bool := []
  closedHead : Bool := false

namespace SlashContext

/-- Whether a slash here starts a regular expression. -/
def regexAllowed (ctx : SlashContext) : Bool :=
  match ctx.previous with
  | none => true
  | some previous =>
    if previous = .punctuator .rightParen then ctx.closedHead else !previous.endsOperand

/-- Whether a `(` after this lexeme opens the head of a statement. -/
def opensHead (previous : Option Lexeme) : Bool :=
  previous = some (.keyword .if_) || previous = some (.keyword .for_) ||
    previous = some (.keyword .while_) || previous = some (.keyword .with_)

/-- The context after one more lexeme. -/
def push (ctx : SlashContext) (lexeme : Lexeme) : SlashContext :=
  let ctx := match lexeme with
    | .punctuator .leftParen => { ctx with heads := opensHead ctx.previous :: ctx.heads }
    | .punctuator .rightParen =>
      { ctx with heads := ctx.heads.tail, closedHead := ctx.heads.headD false }
    | _ => ctx
  { ctx with previous := some lexeme }

end SlashContext

/-- Reads a gap and the token after it. -/
def readToken (ctx : SlashContext) (cur : Cursor) : Except LexicalError (Token × Cursor) := do
  let (gap, cur) ← readGap .blank {} cur.pos cur.rest
  match readLexeme ctx.regexAllowed cur with
  | .error (fault, pos) => throw ⟨fault, cur.pos.spanTo pos⟩
  | .ok (lexeme, after) =>
    let token : Token :=
      { lexeme
        span := cur.pos.spanTo after.pos
        newlineBefore := gap.newline || ctx.previous.isNone
        comments := gap.comments }
    return (token, after)

/-- Reads tokens up to the end of the input, at most `fuel` of them; `tokens` is reversed. -/
def readTokens : (fuel : Nat) → SlashContext → List Token → Cursor →
    Except LexicalError (List Token)
  | 0, _, tokens, _ => .ok tokens.reverse
  | fuel + 1, ctx, tokens, cur => do
    let (token, cur) ← readToken ctx cur
    if token.lexeme = .endOfInput then return (token :: tokens).reverse
    readTokens fuel (ctx.push token.lexeme) (token :: tokens) cur

/-- The tokens of a source text, the end of the input included. Each other token takes at least one
character. -/
def Token.scan (source : String) : Except LexicalError (List Token) :=
  readTokens (source.length + 1) {} [] (.ofText source)

end Minifier
