import Minifier.Syntax.Expr

/-!
# Statements and statement lists

What can be read off a statement, the declarations of a `var` statement, and editing a statement
list by index.
-/

set_option autoImplicit false

namespace Minifier

namespace Statement

def span : Statement → Span
  | block b => b.span
  | var vars => vars.span
  | function fn => fn.span
  | expr e => e.span
  | ifElse _ _ _ span | forLoop _ _ _ _ span | forIn _ _ _ span | whileLoop _ _ span
  | doWhile _ _ span | switch _ _ span | tryCatch _ _ _ span | labeled _ _ span | breakTo _ span
  | continueTo _ span | returnWith _ span | throw _ span | withObject _ _ _ span | debugger span
  | empty span | comment _ _ span => span

/-- Control never goes on to the statement after this one. -/
def isJump : Statement → Bool
  | returnWith .. | breakTo .. | continueTo .. | throw .. => true
  | _ => false

/-- The empty statement. -/
def isEmpty : Statement → Bool
  | empty _ => true
  | _ => false

mutual
/-- A statement that does nothing: empty, or a block of such. -/
def doesNothing : Statement → Bool
  | empty _ => true
  | block ⟨statements, _⟩ => allDoNothing statements
  | _ => false

def allDoNothing : List Statement → Bool
  | [] => true
  | s :: rest => s.doesNothing && allDoNothing rest
end

def isComment : Statement → Bool
  | comment .. => true
  | _ => false

def isFunction : Statement → Bool
  | function _ => true
  | _ => false

def isVar : Statement → Bool
  | var _ => true
  | _ => false

/-- A statement that is a string literal, as the directives of a prologue are. -/
def isDirective : Statement → Bool
  | expr e => e.isString
  | _ => false

/-- A `break` out of the nearest loop or switch. -/
def isPlainBreak : Statement → Bool
  | breakTo none _ => true
  | _ => false

end Statement

namespace Block

/-- The place after the directives and important comments that a list starts with. -/
def insertionPoint (b : Block) : Nat :=
  (b.statements.takeWhile fun s =>
    s.isDirective || match s with
      | .comment .important _ _ => true
      | _ => false).length

/-- Puts a statement in the place of the one at an index, if there is one. -/
def replace? (b : Block) (index : Nat) (statement : Statement) : Option Block :=
  if index < b.statements.length then some { b with statements := b.statements.set index statement }
  else none

/-- Takes out the statement at an index, if there is one. -/
def remove? (b : Block) (index : Nat) : Option (Statement × Block) :=
  b.statements[index]?.map fun statement =>
    (statement, { b with statements := b.statements.eraseIdx index })

/-- Puts a statement before the one at an index, or at the end. -/
def insert? (b : Block) (index : Nat) (statement : Statement) : Option Block :=
  if index ≤ b.statements.length then
    some { b with statements := b.statements.take index ++ statement :: b.statements.drop index }
  else none

/-- Puts statements in the place of the one at an index, if there is one. -/
def splice? (b : Block) (index : Nat) (statements : List Statement) : Option Block :=
  if index < b.statements.length then
    some { b with
      statements := b.statements.take index ++ statements ++ b.statements.drop (index + 1) }
  else none

/-- Declares variables at the insertion point, in the `var` statement there if there is one. -/
def declareFirst (b : Block) : List VarDecl → Block
  | [] => b
  | decls =>
    let top := b.statements.take b.insertionPoint
    match b.statements.drop b.insertionPoint with
    | .var vars :: rest =>
      { b with statements := top ++ .var { vars with decls := decls ++ vars.decls } :: rest }
    | rest => { b with statements := top ++ .var ⟨decls, .synthetic⟩ :: rest }

end Block

namespace VarDecl

/-- The declaration without its initializer. -/
def nameOnly (d : VarDecl) : VarDecl := ⟨d.name, none, d.name.span⟩

/-- The initializer as an assignment to the name. -/
def assignment? (d : VarDecl) : Option Expr :=
  d.init.map fun init => ⟨.binary .assign ⟨.ident d.name, d.name.span⟩ init, d.span⟩

end VarDecl

namespace VarStatement

def initializerCount (v : VarStatement) : Nat := (v.decls.filter (·.init.isSome)).length

def declares (v : VarStatement) (name : String) : Bool := v.decls.any (·.name.name = name)

end VarStatement

/-- The index of the default clause. -/
def defaultIndex? (cases : List SwitchCase) : Option Nat := cases.findIdx? (·.test.isNone)

end Minifier
