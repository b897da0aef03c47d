import Minifier.Parse.Stream
import Minifier.Syntax.Expr

/-!
# The grammar

Recursive descent over a token stream, with the levels of infix operators climbed by precedence.
Reading stops at the first fault.

Every rule takes some fuel, one unit for each rule on the way to it. A rule that is entered again
without a token read in between is entered through a bounded chain of others, so fuel in proportion
to the tokens never runs out; `fuelFor` is that amount.
-/

set_option autoImplicit false

namespace Minifier

/-- The assignment operator a lexeme is. -/
def Lexeme.assignmentOp? : Lexeme → Option BinaryOp
  | .punctuator .equal => some .assign
  | .punctuator .plusEqual => some .addAssign
  | .punctuator .minusEqual => some .subAssign
  | .punctuator .starEqual => some .mulAssign
  | .punctuator .slashEqual => some .divAssign
  | .punctuator .percentEqual => some .modAssign
  | .punctuator .leftShiftEqual => some .shlAssign
  | .punctuator .rightShiftEqual => some .shrAssign
  | .punctuator .unsignedRightShiftEqual => some .ushrAssign
  | .punctuator .ampersandEqual => some .bitAndAssign
  | .punctuator .pipeEqual => some .bitOrAssign
  | .punctuator .caretEqual => some .bitXorAssign
  | _ => none

/-- The infix operator a lexeme is, assignments and the comma aside. -/
def Lexeme.binaryOp? : Lexeme → Option BinaryOp
  | .punctuator .pipePipe => some .logicalOr
  | .punctuator .ampersandAmpersand => some .logicalAnd
  | .punctuator .pipe => some .bitOr
  | .punctuator .caret => some .bitXor
  | .punctuator .ampersand => some .bitAnd
  | .punctuator .equalEqual => some .equal
  | .punctuator .bangEqual => some .notEqual
  | .punctuator .equalEqualEqual => some .strictEqual
  | .punctuator .bangEqualEqual => some .strictNotEqual
  | .punctuator .lessThan => some .lessThan
  | .punctuator .greaterThan => some .greaterThan
  | .punctuator .lessThanEqual => some .lessThanEqual
  | .punctuator .greaterThanEqual => some .greaterThanEqual
  | .keyword .in_ => some .in_
  | .keyword .instanceof => some .instanceof
  | .punctuator .leftShift => some .shl
  | .punctuator .rightShift => some .shr
  | .punctuator .unsignedRightShift => some .ushr
  | .punctuator .plus => some .add
  | .punctuator .minus => some .sub
  | .punctuator .star => some .mul
  | .punctuator .slash => some .div
  | .punctuator .percent => some .mod
  | _ => none

/-- The prefix operator a lexeme is. -/
def Lexeme.unaryOp? : Lexeme → Option UnaryOp
  | .punctuator .bang => some .not
  | .punctuator .tilde => some .bitNot
  | .punctuator .plus => some .plus
  | .punctuator .minus => some .minus
  | .keyword .typeof => some .typeof
  | .keyword .void => some .void
  | .keyword .delete => some .delete
  | _ => none

def Lexeme.updateOp? : Lexeme → Option UpdateOp
  | .punctuator .plusPlus => some .increment
  | .punctuator .minusMinus => some .decrement
  | _ => none

/-- The accessor that a word before a property name makes. -/
def Lexeme.accessor? : Lexeme → Option (PropertyKind × FunctionKind)
  | .identifier "get" => some (.getter, .getter)
  | .identifier "set" => some (.setter, .setter)
  | _ => none

/-- What follows a word that is itself the property name. -/
def Lexeme.endsPropertyName : Lexeme → Bool
  | .punctuator mark => mark = .colon || mark = .comma || mark = .rightBrace
  | _ => false

namespace Parser

/-- The form of a literal, `this` or a name. -/
def atom? (span : Span) : Lexeme → Option Form
  | .keyword .this => some .this
  | .keyword .null => some .null
  | .keyword .true => some (.boolean true)
  | .keyword .false => some (.boolean false)
  | .number value => some (.number value)
  | .string value => some (.string value)
  | .regex pattern flags => some (.regex pattern flags)
  | .identifier name => some (.ident { name, span })
  | _ => none

def propertyKey : Parser PropertyKey := do
  let key ← match ← lexeme with
    | .string value => pure (.string value)
    | .number value => pure (.number value)
    | other => match other.propertyName? with
      | some name => pure (.name name)
      | none => fail .propertyName
  let _ ← advance
  return key

/-- Names between commas, at least one; `names` is reversed. -/
def parameterNames (names : List Ident) : Nat → Parser (List Ident)
  | 0 => fail .unfinished
  | fuel + 1 => do
    let names := (← identifier) :: names
    if ← accept .comma then parameterNames names fuel else return names.reverse

/-- A label on the line of its `break` or `continue`. -/
def jumpLabel : Parser (Option String) := do
  let token ← current
  match token.lexeme, token.newlineBefore with
  | .identifier name, false => do
    let _ ← advance
    return some name
  | _, _ => return none

/-- Whether a clause of a `switch` ends here. -/
def endsClause (lexeme : Lexeme) : Bool :=
  lexeme = .keyword .case_ || lexeme = .keyword .default || lexeme = .punctuator .rightBrace

def endsBlock (lexeme : Lexeme) : Bool := lexeme = .punctuator .rightBrace

def endsProgram (lexeme : Lexeme) : Bool := lexeme = .endOfInput

mutual

/-- An expression, commas included. With `noIn`, an `in` is left for a `for` head, but for one in
brackets or between the `?` and the `:` of a conditional. -/
def expression (noIn : Bool) : Nat → Parser Expr
  | 0 => fail .unfinished
  | fuel + 1 => do
    let first ← assignment noIn fuel
    commaOperands noIn first fuel

def commaOperands (noIn : Bool) (left : Expr) : Nat → Parser Expr
  | 0 => fail .unfinished
  | fuel + 1 => do
    if ← accept .comma then
      let right ← assignment noIn fuel
      commaOperands noIn (.binary .comma left right) fuel
    else return left

def assignment (noIn : Bool) : Nat → Parser Expr
  | 0 => fail .unfinished
  | fuel + 1 => do
    let target ← conditional noIn fuel
    match (← lexeme).assignmentOp? with
    | none => return target
    | some op =>
      unless target.isAssignable do fail .assignmentTarget
      let _ ← advance
      let value ← assignment noIn fuel
      return .binary op target value

def conditional (noIn : Bool) : Nat → Parser Expr
  | 0 => fail .unfinished
  | fuel + 1 => do
    let test ← binary .logicalOr noIn fuel
    if ← accept .question then
      let yes ← assignment false fuel
      let _ ← expect .colon .conditionalColon
      let no ← assignment noIn fuel
      return .conditional test yes no
    else return test

/-- Infix operators that hold at least as tightly as `min`. -/
def binary (min : Precedence) (noIn : Bool) : Nat → Parser Expr
  | 0 => fail .unfinished
  | fuel + 1 => do
    let left ← unary fuel
    binaryOperands min noIn left fuel

def binaryOperands (min : Precedence) (noIn : Bool) (left : Expr) : Nat → Parser Expr
  | 0 => fail .unfinished
  | fuel + 1 => do
    match (← lexeme).binaryOp? with
    | none => return left
    | some op =>
      if op = .in_ && noIn then return left
      else if min ≤ op.precedence then
        let _ ← advance
        let right ← binary op.precedence.next noIn fuel
        binaryOperands min noIn (.binary op left right) fuel
      else return left

def unary : Nat → Parser Expr
  | 0 => fail .unfinished
  | fuel + 1 => do
    let start ← currentSpan
    let lexeme ← lexeme
    match lexeme.unaryOp?, lexeme.updateOp? with
    | some op, _ => do
      let _ ← advance
      let operand ← unary fuel
      return ⟨.unary op operand, ← spanFrom start⟩
    | none, some op => do
      let _ ← advance
      let operand ← unary fuel
      return ⟨.update op true operand, ← spanFrom start⟩
    | none, none => postfixed fuel

def postfixed : Nat → Parser Expr
  | 0 => fail .unfinished
  | fuel + 1 => do
    let start ← currentSpan
    let operand ← leftHandSide fuel
    let token ← current
    match token.lexeme.updateOp?, token.newlineBefore with
    | some op, false => do
      let _ ← advance
      return ⟨.update op false operand, ← spanFrom start⟩
    | _, _ => return operand

/-- Calls and property accesses. -/
def leftHandSide : Nat → Parser Expr
  | 0 => fail .unfinished
  | fuel + 1 => do
    let start ← currentSpan
    let first ← if ← isAtWord .new then construction fuel else primary fuel
    suffixes start first fuel

def suffixes (start : Span) (e : Expr) : Nat → Parser Expr
  | 0 => fail .unfinished
  | fuel + 1 => do
    match ← lexeme with
    | .punctuator .leftParen => do
      let args ← arguments fuel
      suffixes start ⟨.call e args, ← spanFrom start⟩ fuel
    | .punctuator .dot | .punctuator .leftBracket => do
      let accessed ← access start e fuel
      suffixes start accessed fuel
    | _ => return e

/-- A constructor call; its argument list may be missing. -/
def construction : Nat → Parser Expr
  | 0 => fail .unfinished
  | fuel + 1 => do
    let start ← advance
    let first ← if ← isAtWord .new then construction fuel else primary fuel
    let callee ← accesses start first fuel
    if ← isAtMark .leftParen then
      let args ← arguments fuel
      return ⟨.new callee (some args), ← spanFrom start⟩
    else return ⟨.new callee none, ← spanFrom start⟩

def accesses (start : Span) (e : Expr) : Nat → Parser Expr
  | 0 => fail .unfinished
  | fuel + 1 => do
    match ← lexeme with
    | .punctuator .dot | .punctuator .leftBracket => do
      let accessed ← access start e fuel
      accesses start accessed fuel
    | _ => return e

/-- One `.name` or `[key]`. -/
def access (start : Span) (object : Expr) : Nat → Parser Expr
  | 0 => fail .unfinished
  | fuel + 1 => do
    if ← accept .dot then
      match (← lexeme).propertyName? with
      | none => fail .memberName
      | some name =>
        let _ ← advance
        return ⟨.member object name, ← spanFrom start⟩
    else
      let _ ← advance
      let key ← expression false fuel
      let _ ← expect .rightBracket .closeBracket
      return ⟨.index object key, ← spanFrom start⟩

def arguments : Nat → Parser (List Expr)
  | 0 => fail .unfinished
  | fuel + 1 => do
    let _ ← advance
    let args ← if ← isAtMark .rightParen then pure [] else argumentList [] fuel
    let _ ← expect .rightParen .argumentsClose
    return args

/-- Arguments between commas, at least one; `args` is reversed. -/
def argumentList (args : List Expr) : Nat → Parser (List Expr)
  | 0 => fail .unfinished
  | fuel + 1 => do
    let arg ← assignment false fuel
    if ← accept .comma then argumentList (arg :: args) fuel else return (arg :: args).reverse

def primary : Nat → Parser Expr
  | 0 => fail .unfinished
  | fuel + 1 => do
    let span ← currentSpan
    let lexeme ← lexeme
    match atom? span lexeme with
    | some form => do
      let _ ← advance
      return ⟨form, span⟩
    | none =>
      match lexeme with
      | .punctuator .leftParen => do
        let _ ← advance
        let inner ← expression false fuel
        let _ ← expect .rightParen .closeParen
        return { inner with span := ← spanFrom span }
      | .punctuator .leftBracket => do
        let _ ← advance
        let items ← arrayItems [] fuel
        let _ ← expect .rightBracket .arrayClose
        return ⟨.array items, ← spanFrom span⟩
      | .punctuator .leftBrace => do
        let _ ← advance
        let properties ← objectProperties [] fuel
        let _ ← expect .rightBrace .objectClose
        return ⟨.object properties, ← spanFrom span⟩
      | .keyword .function => do
        let fn ← function .expression fuel
        return ⟨.function fn, fn.span⟩
      | _ => fail .expression

/-- The items of an array literal up to its bracket, holes included; `items` is reversed. -/
def arrayItems (items : List (Option Expr)) : Nat → Parser (List (Option Expr))
  | 0 => fail .unfinished
  | fuel + 1 => do
    if ← isAtMark .rightBracket then return items.reverse
    else if ← accept .comma then arrayItems (none :: items) fuel
    else
      let item ← assignment false fuel
      if ← accept .comma then arrayItems (some item :: items) fuel
      else return (some item :: items).reverse

/-- The properties of an object literal up to its brace; `properties` is reversed. -/
def objectProperties (properties : List Property) : Nat → Parser (List Property)
  | 0 => fail .unfinished
  | fuel + 1 => do
    if ← isAtMark .rightBrace then return properties.reverse
    else
      let property ← property fuel
      if ← accept .comma then objectProperties (property :: properties) fuel
      else return (property :: properties).reverse

def property : Nat → Parser Property
  | 0 => fail .unfinished
  | fuel + 1 => do
    let start ← currentSpan
    match (← lexeme).accessor?, (← get).following.endsPropertyName with
    | some (kind, functionKind), false => do
      let _ ← advance
      let key ← propertyKey
      let fn ← functionRest functionKind none start fuel
      return ⟨key, kind, ⟨.function fn, fn.span⟩, ← spanFrom start⟩
    | _, _ => do
      let key ← propertyKey
      let _ ← expect .colon .propertyColon
      let value ← assignment false fuel
      return ⟨key, .value, value, ← spanFrom start⟩

/-- A function from its keyword on. A declaration needs a name. -/
def function (kind : FunctionKind) : Nat → Parser Function
  | 0 => fail .unfinished
  | fuel + 1 => do
    let start ← advance
    match ← lexeme with
    | .identifier _ => do
      let name ← identifier
      functionRest kind (some name) start fuel
    | _ =>
      if kind = .declaration then fail .functionName
      else functionRest kind none start fuel

/-- The parameters and the body of a function. -/
def functionRest (kind : FunctionKind) (name : Option Ident) (start : Span) :
    Nat → Parser Function
  | 0 => fail .unfinished
  | fuel + 1 => do
    let _ ← expect .leftParen .parametersOpen
    let params ← if ← isAtMark .rightParen then pure [] else parameterNames [] fuel
    let _ ← expect .rightParen .parametersClose
    let body ← block fuel
    return ⟨kind, name, params, body, none, ← spanFrom start⟩

def block : Nat → Parser Block
  | 0 => fail .unfinished
  | fuel + 1 => do
    let start ← expect .leftBrace .openBrace
    let statements ← statementList endsBlock [] fuel
    let _ ← expect .rightBrace .closeBrace
    return ⟨statements, ← spanFrom start⟩

/-- Statements up to a lexeme that ends them, with the comments among them as statements;
`statements` is reversed. -/
def statementList (ends : Lexeme → Bool) (statements : List Statement) :
    Nat → Parser (List Statement)
  | 0 => fail .unfinished
  | fuel + 1 => do
    let statements := (← comments).reverse ++ statements
    let lexeme ← lexeme
    if lexeme = .endOfInput || ends lexeme then return statements.reverse
    else
      let next ← statement fuel
      statementList ends (next :: statements) fuel

def statement : Nat → Parser Statement
  | 0 => fail .unfinished
  | fuel + 1 => do
    match ← lexeme with
    | .punctuator .leftBrace => return .block (← block fuel)
    | .keyword .var => do
      let vars ← varStatement false fuel
      statementEnd
      return .var vars
    | .keyword .function => return .function (← function .declaration fuel)
    | .keyword .if_ => ifElse fuel
    | .keyword .for_ => forLoop fuel
    | .keyword .while_ => do
      let start ← advance
      let test ← parenthesized fuel
      let body ← statement fuel
      return .whileLoop test body (← spanFrom start)
    | .keyword .do_ => doWhile fuel
    | .keyword .switch => switch fuel
    | .keyword .try_ => tryCatch fuel
    | .keyword .return_ => do
      let start ← advance
      let value ← if ← atStatementEnd then pure none else some <$> expression false fuel
      statementEnd
      return .returnWith value (← spanFrom start)
    | .keyword .break_ => do
      let start ← advance
      let label ← jumpLabel
      statementEnd
      return .breakTo label (← spanFrom start)
    | .keyword .continue_ => do
      let start ← advance
      let label ← jumpLabel
      statementEnd
      return .continueTo label (← spanFrom start)
    | .keyword .throw => do
      let start ← advance
      if (← current).newlineBefore then fail .throwNewline
      let value ← expression false fuel
      statementEnd
      return .throw value (← spanFrom start)
    | .keyword .with_ => do
      let start ← advance
      let object ← parenthesized fuel
      let body ← statement fuel
      return .withObject object body none (← spanFrom start)
    | .keyword .debugger => do
      let span ← advance
      statementEnd
      return .debugger span
    | .punctuator .semicolon => return .empty (← advance)
    | .identifier _ =>
      if (← get).following = .punctuator .colon then labeled fuel else expressionStatement fuel
    | _ => expressionStatement fuel

def expressionStatement : Nat → Parser Statement
  | 0 => fail .unfinished
  | fuel + 1 => do
    let e ← expression false fuel
    statementEnd
    return .expr e

def labeled : Nat → Parser Statement
  | 0 => fail .unfinished
  | fuel + 1 => do
    let label ← identifier
    let _ ← expect .colon .labelColon
    let body ← statement fuel
    return .labeled label.name body (← spanFrom label.span)

def varStatement (noIn : Bool) : Nat → Parser VarStatement
  | 0 => fail .unfinished
  | fuel + 1 => do
    let start ← advance
    let decls ← declarations noIn [] fuel
    return ⟨decls, ← spanFrom start⟩

/-- Declarations between commas, at least one; `decls` is reversed. -/
def declarations (noIn : Bool) (decls : List VarDecl) : Nat → Parser (List VarDecl)
  | 0 => fail .unfinished
  | fuel + 1 => do
    let name ← identifier
    let init ← if ← accept .equal then some <$> assignment noIn fuel else pure none
    let decls := ⟨name, init, ← spanFrom name.span⟩ :: decls
    if ← accept .comma then declarations noIn decls fuel else return decls.reverse

def parenthesized : Nat → Parser Expr
  | 0 => fail .unfinished
  | fuel + 1 => do
    let _ ← expect .leftParen .openParen
    let e ← expression false fuel
    let _ ← expect .rightParen .closeParen
    return e

def ifElse : Nat → Parser Statement
  | 0 => fail .unfinished
  | fuel + 1 => do
    let start ← advance
    let test ← parenthesized fuel
    let yes ← statement fuel
    let no ← if ← acceptWord .else_ then some <$> statement fuel else pure none
    return .ifElse test yes no (← spanFrom start)

def doWhile : Nat → Parser Statement
  | 0 => fail .unfinished
  | fuel + 1 => do
    let start ← advance
    let body ← statement fuel
    unless ← acceptWord .while_ do fail .doWhile
    let test ← parenthesized fuel
    let _ ← accept .semicolon
    return .doWhile body test (← spanFrom start)

/-- A `for` statement of either kind. -/
def forLoop : Nat → Parser Statement
  | 0 => fail .unfinished
  | fuel + 1 => do
    let start ← advance
    let _ ← expect .leftParen .forOpen
    if ← isAtWord .var then
      let vars ← varStatement true fuel
      match vars.decls, ← isAtWord .in_ with
      | [decl], true => do
        let _ ← advance
        forIn start (.var decl) fuel
      | _, _ => forClauses start (.var vars) fuel
    else if ← isAtMark .semicolon then forClauses start .nothing fuel
    else
      let init ← expression true fuel
      if ← acceptWord .in_ then forIn start (.expr init) fuel
      else forClauses start (.expr init) fuel

/-- A `for` statement from its first semicolon on. -/
def forClauses (start : Span) (init : ForInit) : Nat → Parser Statement
  | 0 => fail .unfinished
  | fuel + 1 => do
    let _ ← expect .semicolon .forSemicolon
    let test ← if ← isAtMark .semicolon then pure none else some <$> expression false fuel
    let _ ← expect .semicolon .forSemicolon
    let update ← if ← isAtMark .rightParen then pure none else some <$> expression false fuel
    let _ ← expect .rightParen .forClose
    let body ← statement fuel
    return .forLoop init test update body (← spanFrom start)

/-- A `for` statement from after its `in` on. -/
def forIn (start : Span) (target : ForTarget) : Nat → Parser Statement
  | 0 => fail .unfinished
  | fuel + 1 => do
    let object ← expression false fuel
    let _ ← expect .rightParen .forInClose
    let body ← statement fuel
    return .forIn target object body (← spanFrom start)

def switch : Nat → Parser Statement
  | 0 => fail .unfinished
  | fuel + 1 => do
    let start ← advance
    let subject ← parenthesized fuel
    let _ ← expect .leftBrace .switchOpen
    let cases ← switchCases false [] fuel
    return .switch subject cases (← spanFrom start)

/-- The clauses of a `switch` up to its brace; `cases` is reversed. Comments before a clause go
into its body, those before the brace into the last one. -/
def switchCases (seenDefault : Bool) (cases : List SwitchCase) : Nat → Parser (List SwitchCase)
  | 0 => fail .unfinished
  | fuel + 1 => do
    let leading ← comments
    if ← accept .rightBrace then
      match cases with
      | [] => return []
      | last :: earlier => return ({ last with body := last.body ++ leading } :: earlier).reverse
    else
      let start ← currentSpan
      match ← lexeme with
      | .keyword .case_ => do
        let _ ← advance
        let test ← expression false fuel
        let clause ← switchBody start (some test) leading fuel
        switchCases seenDefault (clause :: cases) fuel
      | .keyword .default => do
        if seenDefault then fail .secondDefault
        let _ ← advance
        let clause ← switchBody start none leading fuel
        switchCases true (clause :: cases) fuel
      | _ => fail .caseOrDefault

/-- A clause of a `switch` from its colon on. -/
def switchBody (start : Span) (test : Option Expr) (leading : List Statement) :
    Nat → Parser SwitchCase
  | 0 => fail .unfinished
  | fuel + 1 => do
    let _ ← expect .colon .caseColon
    let body ← statementList endsClause leading.reverse fuel
    return ⟨test, body, ← spanFrom start⟩

def tryCatch : Nat → Parser Statement
  | 0 => fail .unfinished
  | fuel + 1 => do
    let start ← advance
    let body ← block fuel
    let handler ← if ← isAtWord .catch_ then some <$> catchClause fuel else pure none
    let finalizer ← if ← acceptWord .finally_ then some <$> block fuel else pure none
    if handler.isNone && finalizer.isNone then fail .catchOrFinally
    return .tryCatch body handler finalizer (← spanFrom start)

def catchClause : Nat → Parser CatchClause
  | 0 => fail .unfinished
  | fuel + 1 => do
    let start ← advance
    let _ ← expect .leftParen .catchOpen
    let param ← identifier
    let _ ← expect .rightParen .catchClose
    let body ← block fuel
    return ⟨param, body, none, ← spanFrom start⟩

end

/-! ## Entry points -/

/-- Enough fuel for the tokens that are left. -/
def fuelFor (s : TokenStream) : Nat := 24 * (s.tokens.length + 1)

/-- Runs a rule on a stream with enough fuel. -/
def run {α : Type} (rule : Nat → Parser α) (s : TokenStream) :
    Except SyntaxFault (α × TokenStream) :=
  rule (fuelFor s) s

/-- A whole program. -/
def program (fuel : Nat) : Parser Program := do
  let start ← currentSpan
  let statements ← statementList endsProgram [] fuel
  return .of statements (start.combine (← currentSpan))

end Parser

/-- The program that a token list is. -/
def Program.parse (tokens : List Token) : Except SyntaxFault Program :=
  (Parser.run Parser.program (.ofTokens tokens)).map (·.1)

end Minifier
