import Minifier.Syntax.Statement

/-!
# Hoisted declarations

A `var` or a function declaration takes effect for the whole function, wherever in it the statement
stands and whether or not it is ever reached. Here are the declarations of a statement outside
nested functions, and what has to be left of a statement that is never executed.
-/

set_option autoImplicit false

namespace Minifier

mutual

/-- The `var` declarations in a statement, outside nested functions. -/
def Statement.varDecls : Statement → List VarDecl
  | .block ⟨statements, _⟩ => varDeclsOf statements
  | .var ⟨decls, _⟩ => decls
  | .ifElse _ yes none _ => yes.varDecls
  | .ifElse _ yes (some no) _ => yes.varDecls ++ no.varDecls
  | .forLoop (.var ⟨decls, _⟩) _ _ body _ => decls ++ body.varDecls
  | .forLoop _ _ _ body _ => body.varDecls
  | .forIn (.var decl) _ body _ => decl :: body.varDecls
  | .forIn _ _ body _ => body.varDecls
  | .whileLoop _ body _ => body.varDecls
  | .doWhile body _ _ => body.varDecls
  | .switch _ cases _ => caseVarDecls cases
  | .tryCatch ⟨statements, _⟩ handler finalizer _ =>
    varDeclsOf statements ++ handlerVarDecls handler ++ finalizerVarDecls finalizer
  | .labeled _ body _ => body.varDecls
  | .withObject _ body _ _ => body.varDecls
  | _ => []

def varDeclsOf : List Statement → List VarDecl
  | [] => []
  | s :: rest => s.varDecls ++ varDeclsOf rest

def caseVarDecls : List SwitchCase → List VarDecl
  | [] => []
  | ⟨_, body, _⟩ :: rest => varDeclsOf body ++ caseVarDecls rest

def handlerVarDecls : Option CatchClause → List VarDecl
  | none => []
  | some ⟨_, ⟨statements, _⟩, _, _⟩ => varDeclsOf statements

def finalizerVarDecls : Option Block → List VarDecl
  | none => []
  | some ⟨statements, _⟩ => varDeclsOf statements

end

mutual

/-- The function declarations in a statement, outside nested functions. -/
def Statement.functionDecls : Statement → List Function
  | .function fn => [fn]
  | .block ⟨statements, _⟩ => functionDeclsOf statements
  | .ifElse _ yes none _ => yes.functionDecls
  | .ifElse _ yes (some no) _ => yes.functionDecls ++ no.functionDecls
  | .forLoop _ _ _ body _ => body.functionDecls
  | .forIn _ _ body _ => body.functionDecls
  | .whileLoop _ body _ => body.functionDecls
  | .doWhile body _ _ => body.functionDecls
  | .switch _ cases _ => caseFunctionDecls cases
  | .tryCatch ⟨statements, _⟩ handler finalizer _ =>
    functionDeclsOf statements ++ handlerFunctionDecls handler ++ finalizerFunctionDecls finalizer
  | .labeled _ body _ => body.functionDecls
  | .withObject _ body _ _ => body.functionDecls
  | _ => []

def functionDeclsOf : List Statement → List Function
  | [] => []
  | s :: rest => s.functionDecls ++ functionDeclsOf rest

def caseFunctionDecls : List SwitchCase → List Function
  | [] => []
  | ⟨_, body, _⟩ :: rest => functionDeclsOf body ++ caseFunctionDecls rest

def handlerFunctionDecls : Option CatchClause → List Function
  | none => []
  | some ⟨_, ⟨statements, _⟩, _, _⟩ => functionDeclsOf statements

def finalizerFunctionDecls : Option Block → List Function
  | none => []
  | some ⟨statements, _⟩ => functionDeclsOf statements

end

/-- Adds a declaration to a list, unless its name is there. -/
def addDecl (decls : List VarDecl) (d : VarDecl) : List VarDecl :=
  if decls.any (·.name.name = d.name.name) then decls else decls ++ [d]

/-- What is left of a statement that is never executed: its names without their initializers, in
one `var` statement, and its functions. -/
def Statement.survivors (s : Statement) : List Statement :=
  let functions := s.functionDecls.map Statement.function
  match (s.varDecls.map VarDecl.nameOnly).foldl addDecl [] with
  | [] => functions
  | first :: rest => .var ⟨first :: rest, first.span⟩ :: functions

/-- Statements as one. -/
def Statement.ofList (span : Span) : List Statement → Statement
  | [] => .empty span
  | [only] => only
  | statements => .block ⟨statements, span⟩

end Minifier
