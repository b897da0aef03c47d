import Minifier.Scope.Bind
import Minifier.Simplify.Lists

/-!
# Order of declarations

In each function and in the program, function declarations go to the top, after the directives and
important comments the list starts with, and the variables of all `var` statements are declared in
one statement after them. A `var` statement with one or two initializers leaves assignments behind;
one with more stays as it is. All of this looks at the list itself and not into nested statements,
except that bare blocks are opened first.
-/

set_option autoImplicit false

namespace Minifier

/-- Whether the function declarations of a list stand together at an index. -/
def functionsInPlace (index : Nat) (statements : List Statement) : Bool :=
  let rest := statements.drop index
  !(statements.take index).any Statement.isFunction &&
    !(rest.dropWhile Statement.isFunction).any Statement.isFunction

/-- Moves the function declarations of a list to an index. -/
def hoistFunctions (index : Nat) (statements : List Statement) : Edited (List Statement) :=
  if functionsInPlace index statements then pure statements
  else
    let (functions, rest) := statements.partition Statement.isFunction
    .of (rest.take index ++ functions ++ rest.drop index)

/-- The declarations that leave a statement for the one at the top. -/
def Statement.leavingDecls : Statement → List VarDecl
  | .var vars =>
    if vars.initializerCount = 0 then vars.decls
    else if vars.initializerCount ≤ 2 then vars.decls.map VarDecl.nameOnly
    else []
  | _ => []

/-- What stays of a statement when its declarations leave. -/
def Statement.staying : Statement → List Statement
  | .var vars =>
    if vars.initializerCount = 0 then []
    else if vars.initializerCount ≤ 2 then
      ((Expr.sequence? (vars.decls.filterMap VarDecl.assignment?)).map fun e =>
        .expr { e with span := vars.span }).toList
    else [.var vars]
  | s => [s]

/-- Whether the declarations of a statement leave it. -/
def Statement.givesDecls : Statement → Bool
  | .var vars => vars.initializerCount ≤ 2
  | _ => false

/-- Declares the variables of a list of statements in one statement before it, which has some
declarations already. -/
def gatherInto (first : VarStatement) (created : Bool) (rest : List Statement) :
    Edited (List Statement) :=
  let decls := (rest.flatMap Statement.leavingDecls).foldl addDecl first.decls
  let staying := rest.flatMap Statement.staying
  let changed := rest.any Statement.givesDecls
  if decls.isEmpty then ⟨staying, changed⟩
  else ⟨.var { first with decls } :: staying, changed || created⟩

/-- Declares the variables of a list in one statement after the functions at an index. -/
def gatherVars (index : Nat) (statements : List Statement) : Edited (List Statement) :=
  if (statements.filter Statement.isVar).length < 2 then pure statements
  else
    let top := statements.take index
    let (functions, rest) := (statements.drop index).span Statement.isFunction
    let gathered := match rest with
      | .var first :: rest => gatherInto first false rest
      | rest => gatherInto ⟨[], .synthetic⟩ true rest
    ⟨top ++ functions ++ gathered.value, gathered.changed⟩

/-- Puts the declarations of a statement list in order. -/
def Block.orderDeclarations (settings : Settings) (b : Block) : Edited Block := do
  let statements ← Edited.when (settings.applies .unnestBlocks) unnestBlocks b.statements
  let statements ← Edited.when (settings.applies .joinVars) joinVars statements
  let index := Block.insertionPoint { b with statements }
  let statements ← Edited.when (settings.applies .moveFunctions) (hoistFunctions index) statements
  let statements ← Edited.when (settings.applies .gatherVars) (gatherVars index) statements
  return { b with statements }

/-- The walk that puts the declarations of every function in order; its state says whether anything
changed. -/
def orderInFunctions (settings : Settings) : Walk Bool where
  leaveFunction := fun fn => do
    let body := fn.body.orderDeclarations settings
    modify (· || body.changed)
    return { fn with body := body.value }

/-- Puts the declarations of all functions and of the program in order. -/
def Program.orderDeclarations (settings : Settings) (p : Program) : Edited Program :=
  if settings.minifyCode && settings.reorderScopeDeclarations then
    let (p, changed) := p.walk (orderInFunctions settings) false
    let body := p.body.orderDeclarations settings
    ⟨{ p with body := body.value }, changed || body.changed⟩
  else pure p

/-- Puts the declarations of a bound program in order. Its scopes do not depend on the order. -/
def BoundProgram.orderDeclarations (settings : Settings) (p : BoundProgram) :
    Edited BoundProgram := do
  return { p with program := ← p.program.orderDeclarations settings }

end Minifier
