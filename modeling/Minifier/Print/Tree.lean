import Minifier.Number.Text
import Minifier.Print.Piece
import Minifier.Settings.Basic
import Minifier.Syntax.Slot
import Minifier.Syntax.Statement
import Minifier.Text.Quoted

/-!
# Writing trees

The text of programs, statements and expressions. On a single line nothing is written that can be
left out; over several lines every body has braces and every level its indentation. Parentheses
come from the slots expressions stand in.
-/

set_option autoImplicit false

namespace Minifier

/-- How trees are written. -/
structure Style where
  multiLine : Bool
  indentSize : Nat
  /-- `true` and `false` are written `!0` and `!1`. -/
  shortBooleans : Bool
  keepImportantComments : Bool
  /-- The name that a name is written as. -/
  nameOf : Ident → String

namespace Settings

/-- The style that settings ask for, with names as given. -/
def styleWith (s : Settings) (nameOf : Ident → String) : Style :=
  { multiLine := s.isMultiLine, indentSize := s.indentSize, shortBooleans := s.shortBooleans,
    keepImportantComments := s.preserveImportantComments, nameOf }

/-- The style that settings ask for, with names as they are in the source. -/
def style (s : Settings) : Style := s.styleWith Ident.name

end Settings

/-! ## What the layout depends on -/

/-- Whether a call stands in the chain of accesses of a constructor. Its arguments would be taken
for those of the constructor. -/
def Expr.containsCall : Expr → Bool
  | ⟨.call .., _⟩ => true
  | ⟨.member object _, _⟩ => object.containsCall
  | ⟨.index object _, _⟩ => object.containsCall
  | _ => false

/-- Whether an expression may not start a statement as it is. -/
def Expr.startsLikeStatement (e : Expr) : Bool :=
  match e.leftmost.form with
  | .function _ | .object _ => true
  | _ => false

namespace Statement

/-- Whether the statement can be a body without braces. -/
def standsAlone : Statement → Bool
  | function _ | comment .. => false
  | _ => true

/-- Whether the statement ends in an `if` that would take an `else` written after it. -/
def endsOpen : Statement → Bool
  | ifElse _ _ none _ => true
  | ifElse _ _ (some no) _ => no.endsOpen
  | block ⟨[single], _⟩ => single.endsOpen
  | forLoop _ _ _ body _ => body.endsOpen
  | forIn _ _ body _ => body.endsOpen
  | whileLoop _ body _ => body.endsOpen
  | withObject _ body _ _ => body.endsOpen
  | labeled _ body _ => body.endsOpen
  | _ => false

def isIf : Statement → Bool
  | ifElse .. => true
  | _ => false

def isBlock : Statement → Bool
  | block _ => true
  | _ => false

/-- Whether the statement is a comment that is not written. -/
def isDropped (st : Style) : Statement → Bool
  | comment .important _ _ => !st.keepImportantComments
  | _ => false

end Statement

/-- Where a statement is written. -/
inductive Place where
  /-- In a list of statements. -/
  | listed
  /-- As the body of a compound statement, in braces if they have to stay. -/
  | body (keepBraces : Bool)
  /-- After an `else` on its line. -/
  | afterElse
deriving DecidableEq, Repr

namespace Style

open Piece

def word (text : String) : List Piece := [.text text.toList]

/-- A blank if there are several lines. -/
def space (st : Style) : List Piece := if st.multiLine then word " " else []

def newline (st : Style) : List Piece := if st.multiLine then word "\n" else []

def indentation (st : Style) (depth : Nat) : List Piece :=
  if st.multiLine then [.text (List.replicate (depth * st.indentSize) ' ')] else []

def comma (st : Style) : List Piece := word "," ++ st.space

/-- The end of a statement. -/
def terminator (st : Style) : List Piece :=
  if st.multiLine then word ";" ++ st.newline else [.owe]

def openBrace (st : Style) : List Piece := st.space ++ word "\x7b" ++ st.newline

def closeBrace (st : Style) (depth : Nat) : List Piece :=
  .forgive :: st.indentation depth ++ word "\x7d"

def name (st : Style) (id : Ident) : List Piece := word (st.nameOf id)

def names (st : Style) : List Ident → List Piece
  | [] => []
  | [id] => st.name id
  | id :: ids => st.name id ++ st.comma ++ names st ids

def boolean (st : Style) (value : Bool) : List Piece :=
  match st.shortBooleans, value with
  | true, true => word "!0"
  | true, false => word "!1"
  | false, true => word "true"
  | false, false => word "false"

def key : PropertyKey → List Piece
  | .name spelling => word spelling
  | .string value =>
    if isIdentifier value && !isReservedWord value then word value
    else [.text (Text.quoted value.toList)]
  | .number value => [.text value.literal]

/-- An infix operator with what stands around it. -/
def operator (st : Style) (op : BinaryOp) : List Piece :=
  if op = .comma then st.comma else st.space ++ word op.text ++ st.space

/-- A whole number that a property is read of needs a point of its own. -/
def wholeNumber? : Expr → Option (List Char)
  | ⟨.number value, _⟩ => if value.literal.all Char.isDigit then some value.literal else none
  | _ => none

/-- The nesting of what is inside a statement in its place. -/
def innerDepth (st : Style) (depth : Nat) : Place → Nat
  | .body _ => if st.multiLine then depth + 1 else depth
  | _ => depth

/-- Puts the text of a statement into its place. Blocks see to their place themselves. -/
def place (st : Style) (depth : Nat) (where_ : Place) (s : Statement) (written : List Piece) :
    List Piece :=
  let listed :=
    if s.isDropped st then [] else st.indentation (st.innerDepth depth where_) ++ written
  match where_ with
  | .listed => listed
  | .afterElse => written
  | .body keepBraces =>
    if s.isBlock then written
    else if st.multiLine then
      st.openBrace ++ (if s.isEmpty then [] else listed) ++ st.closeBrace depth
    else if keepBraces then word "\x7b" ++ listed ++ st.closeBrace depth
    else listed

end Style

open Style (word)

/-! ## Trees -/

mutual

/-- An expression in a slot. With `noIn`, an `in` outside brackets gets parentheses. -/
def Expr.pieces (st : Style) (depth : Nat) (noIn : Bool) (slot : Slot) : Expr → List Piece
  | ⟨form, span⟩ =>
    let op := Expr.binaryOp? ⟨form, span⟩
    let precedence := Expr.writtenPrecedence st.shortBooleans ⟨form, span⟩
    if (noIn && op = some .in_) || slot.wraps precedence op then
      word "(" ++ form.pieces st depth false ++ word ")"
    else form.pieces st depth noIn

def Form.pieces (st : Style) (depth : Nat) (noIn : Bool) : Form → List Piece
  | .number value => [.text value.literal]
  | .string value => [.text (Text.quoted value.toList)]
  | .regex pattern flags => word ("/" ++ pattern ++ "/" ++ flags)
  | .boolean value => st.boolean value
  | .null => word "null"
  | .this => word "this"
  | .ident id => st.name id
  | .array items =>
    word "[" ++ itemPieces st depth noIn items ++
      (if items.getLast?.any (·.isNone) then word "," else []) ++ word "]"
  | .object properties => word "\x7b" ++ propertyPieces st depth noIn properties ++ word "\x7d"
  | .function fn => fn.pieces st depth
  | .member object name =>
    (match Style.wholeNumber? object with
      | some digits => [.text digits] ++ word "."
      | none => object.pieces st depth noIn .object) ++ word "." ++ word name
  | .index object key =>
    (match Style.wholeNumber? object with
      | some digits => [.text digits] ++ word "."
      | none => object.pieces st depth noIn .object) ++
      word "[" ++ key.pieces st depth noIn .top ++ word "]"
  | .call callee args =>
    callee.pieces st depth noIn .object ++ word "(" ++ argPieces st depth noIn args ++ word ")"
  | .new callee args =>
    word "new" ++
      (if callee.containsCall then
        word "(" ++ callee.pieces st depth false .top ++ word ")"
      else callee.pieces st depth noIn .object) ++
      (match args with
        | none => []
        | some args => word "(" ++ argPieces st depth noIn args ++ word ")")
  | .unary op operand => word op.text ++ operand.pieces st depth noIn .unaryOperand
  | .update op true operand => word op.text ++ operand.pieces st depth noIn .object
  | .update op false operand => operand.pieces st depth noIn .object ++ word op.text
  | .binary op left right =>
    left.pieces st depth noIn (.operand op .left) ++ st.operator op ++
      right.pieces st depth noIn (.operand op .right)
  | .conditional test yes no =>
    test.pieces st depth noIn .conditionalTest ++ st.space ++ word "?" ++ st.space ++
      yes.pieces st depth noIn .conditionalBranch ++ st.space ++ word ":" ++ st.space ++
      no.pieces st depth noIn .conditionalBranch

/-- The items of an array; a hole is written as nothing. -/
def itemPieces (st : Style) (depth : Nat) (noIn : Bool) : List (Option Expr) → List Piece
  | [] => []
  | [none] => []
  | [some e] => e.pieces st depth noIn .item
  | none :: rest => st.comma ++ itemPieces st depth noIn rest
  | some e :: rest => e.pieces st depth noIn .item ++ st.comma ++ itemPieces st depth noIn rest

def argPieces (st : Style) (depth : Nat) (noIn : Bool) : List Expr → List Piece
  | [] => []
  | [e] => e.pieces st depth noIn .item
  | e :: rest => e.pieces st depth noIn .item ++ st.comma ++ argPieces st depth noIn rest

def propertyPieces (st : Style) (depth : Nat) (noIn : Bool) : List Property → List Piece
  | [] => []
  | [p] => p.pieces st depth noIn
  | p :: rest => p.pieces st depth noIn ++ st.comma ++ propertyPieces st depth noIn rest

def Property.pieces (st : Style) (depth : Nat) (noIn : Bool) : Property → List Piece
  | ⟨key, .value, value, _⟩ =>
    Style.key key ++ word ":" ++ st.space ++ value.pieces st depth noIn .item
  | ⟨key, .getter, ⟨.function fn, _⟩, _⟩ => word "get" ++ Style.key key ++ fn.tailPieces st depth
  | ⟨key, .setter, ⟨.function fn, _⟩, _⟩ => word "set" ++ Style.key key ++ fn.tailPieces st depth
  | ⟨key, .getter, _, _⟩ => word "get" ++ Style.key key
  | ⟨key, .setter, _, _⟩ => word "set" ++ Style.key key

def Function.pieces (st : Style) (depth : Nat) : Function → List Piece
  | ⟨_, name, params, ⟨statements, _⟩, _, _⟩ =>
    word "function" ++ (name.map st.name).getD [] ++ word "(" ++ st.names params ++ word ")" ++
      st.openBrace ++ statementPieces st (depth + 1) statements ++ st.closeBrace depth

/-- A function from its parameters on. -/
def Function.tailPieces (st : Style) (depth : Nat) : Function → List Piece
  | ⟨_, _, params, ⟨statements, _⟩, _, _⟩ =>
    word "(" ++ st.names params ++ word ")" ++
      st.openBrace ++ statementPieces st (depth + 1) statements ++ st.closeBrace depth

def statementPieces (st : Style) (depth : Nat) : List Statement → List Piece
  | [] => []
  | s :: rest => s.pieces st depth .listed ++ statementPieces st depth rest

def VarDecl.pieces (st : Style) (depth : Nat) (noIn : Bool) : VarDecl → List Piece
  | ⟨name, none, _⟩ => st.name name
  | ⟨name, some init, _⟩ =>
    st.name name ++ st.space ++ word "=" ++ st.space ++ init.pieces st depth noIn .item

def declPieces (st : Style) (depth : Nat) (noIn : Bool) : List VarDecl → List Piece
  | [] => []
  | [d] => d.pieces st depth noIn
  | d :: rest => d.pieces st depth noIn ++ st.comma ++ declPieces st depth noIn rest

def ForInit.pieces (st : Style) (depth : Nat) : ForInit → List Piece
  | .nothing => []
  | .var ⟨decls, _⟩ => word "var" ++ declPieces st depth true decls
  | .expr e => e.pieces st depth true .top

def ForTarget.pieces (st : Style) (depth : Nat) : ForTarget → List Piece
  | .var decl => word "var" ++ decl.pieces st depth true
  | .expr e => e.pieces st depth true .object

/-- A clause of a `for` head, a return value: a blank before it, if it is there. -/
def clausePieces (st : Style) (depth : Nat) : Option Expr → List Piece
  | none => []
  | some e => st.space ++ e.pieces st depth false .top

def casePieces (st : Style) (depth : Nat) : List SwitchCase → List Piece
  | [] => []
  | ⟨test, body, _⟩ :: rest =>
    st.indentation depth ++
      (match test with
        | none => word "default"
        | some e => word "case" ++ st.space ++ e.pieces st depth false .top) ++
      word ":" ++ st.newline ++ statementPieces st (depth + 1) body ++ casePieces st depth rest

def Block.bracedPieces (st : Style) (depth : Nat) : Block → List Piece
  | ⟨statements, _⟩ =>
    st.openBrace ++ statementPieces st (depth + 1) statements ++ st.closeBrace depth

def handlerPieces (st : Style) (depth : Nat) : Option CatchClause → List Piece
  | none => []
  | some ⟨param, body, _, _⟩ =>
    st.space ++ word "catch" ++ st.space ++ word "(" ++ st.name param ++ word ")" ++
      body.bracedPieces st depth

def finalizerPieces (st : Style) (depth : Nat) : Option Block → List Piece
  | none => []
  | some body => st.space ++ word "finally" ++ body.bracedPieces st depth

def Statement.pieces (st : Style) (outer : Nat) (where_ : Place) (s : Statement) : List Piece :=
  let depth := st.innerDepth outer where_
  st.place outer where_ s <|
    match s with
    | .block ⟨statements, _⟩ =>
      match where_, st.multiLine, statements with
      | .body false, false, [single] =>
        if single.standsAlone then single.pieces st outer (.body false)
        else word "\x7b" ++ single.pieces st outer .listed ++ st.closeBrace outer
      | .body _, true, statements =>
        st.openBrace ++ statementPieces st (outer + 1) statements ++ st.closeBrace outer
      | .body _, false, statements =>
        word "\x7b" ++ statementPieces st (outer + 1) statements ++ st.closeBrace outer
      | _, _, statements =>
        word "\x7b" ++ st.newline ++ statementPieces st (outer + 1) statements ++
          st.closeBrace outer ++ st.newline
    | .var ⟨decls, _⟩ => word "var" ++ declPieces st depth false decls ++ st.terminator
    | .function fn => fn.pieces st depth ++ st.newline
    | .expr e =>
      (if e.startsLikeStatement then
        word "(" ++ e.pieces st depth false .top ++ word ")"
      else e.pieces st depth false .top) ++ st.terminator
    | .ifElse test yes none _ =>
      word "if" ++ st.space ++ word "(" ++ test.pieces st depth false .top ++ word ")" ++
        yes.pieces st depth (.body false) ++ st.newline
    | .ifElse test yes (some no) _ =>
      word "if" ++ st.space ++ word "(" ++ test.pieces st depth false .top ++ word ")" ++
        yes.pieces st depth (.body yes.endsOpen) ++ st.space ++ word "else" ++
        (if st.multiLine && no.isIf then word " " ++ no.pieces st depth .afterElse
        else no.pieces st depth (.body false) ++ st.newline)
    | .forLoop init test update body _ =>
      word "for" ++ st.space ++ word "(" ++ init.pieces st depth ++ word ";" ++
        clausePieces st depth test ++ word ";" ++ clausePieces st depth update ++ word ")" ++
        body.pieces st depth (.body false) ++ st.newline
    | .forIn target object body _ =>
      word "for" ++ st.space ++ word "(" ++ target.pieces st depth ++ word "in" ++
        object.pieces st depth false .top ++ word ")" ++
        body.pieces st depth (.body false) ++ st.newline
    | .whileLoop test body _ =>
      word "while" ++ st.space ++ word "(" ++ test.pieces st depth false .top ++ word ")" ++
        body.pieces st depth (.body false)
    | .doWhile body test _ =>
      word "do" ++ body.pieces st depth (.body false) ++ st.space ++ word "while" ++ st.space ++
        word "(" ++ test.pieces st depth false .top ++ word ")" ++ st.terminator
    | .switch subject cases _ =>
      word "switch" ++ st.space ++ word "(" ++ subject.pieces st depth false .top ++ word ")" ++
        st.openBrace ++ casePieces st (depth + 1) cases ++ st.closeBrace depth ++ st.newline
    | .tryCatch block handler finalizer _ =>
      word "try" ++ block.bracedPieces st depth ++ handlerPieces st depth handler ++
        finalizerPieces st depth finalizer ++ st.newline
    | .labeled label body _ =>
      word label ++ word ":" ++
        (if st.multiLine then st.newline ++ body.pieces st depth .listed
        else body.pieces st depth (.body false))
    | .breakTo none _ => word "break" ++ st.terminator
    | .breakTo (some label) _ => word "break" ++ word " " ++ word label ++ st.terminator
    | .continueTo none _ => word "continue" ++ st.terminator
    | .continueTo (some label) _ => word "continue" ++ word " " ++ word label ++ st.terminator
    | .returnWith value _ => word "return" ++ clausePieces st depth value ++ st.terminator
    | .throw value _ =>
      word "throw" ++ st.space ++ value.pieces st depth false .top ++ st.terminator
    | .withObject object body _ _ =>
      word "with" ++ st.space ++ word "(" ++ object.pieces st depth false .top ++ word ")" ++
        body.pieces st depth (.body false)
    | .debugger _ => word "debugger" ++ st.terminator
    | .empty _ => word ";" ++ st.newline
    | .comment .important text _ => word text ++ word "\n"
    | .comment .conditional text _ => word text ++ st.newline

end

/-! ## Texts -/

/-- The text of an expression in a slot. -/
def Expr.text (st : Style) (slot : Slot) (e : Expr) : List Char :=
  Piece.render (e.pieces st 0 false slot)

/-- The text of a statement; on a single line, without the semicolon at its end. -/
def Statement.text (st : Style) (s : Statement) : List Char :=
  Piece.render (s.pieces st 0 .listed)

/-- The text of a program. Over several lines the last one is ended. -/
def Program.text (st : Style) (p : Program) : List Char :=
  let text := Piece.render (statementPieces st 0 p.body.statements)
  if st.multiLine && !text.isEmpty && text.getLast? ≠ some '\n' then text ++ ['\n'] else text

/-- The number of bytes of a text. -/
def byteLength (text : List Char) : Nat := text.foldr (fun c bytes => c.utf8Size + bytes) 0

/-- The length of an expression in a slot, under the names of the source. -/
def Expr.length (s : Settings) (slot : Slot) (e : Expr) : Nat := byteLength (e.text s.style slot)

/-- The length of a statement on a single line, under the names of the source. -/
def Statement.length (settings : Settings) (s : Statement) : Nat :=
  byteLength (s.text { settings with outputMode := .singleLine }.style)

end Minifier
