import Minifier.Print.Tree
import Minifier.Simplify.Negation
import Minifier.Syntax.Hoisted

/-!
# Branches and loops

What becomes of an `if`: a constant test is decided, branches that do nothing go, branches change
places over a negated test, and branches that only evaluate expressions become one expression. The
last two are done only if the text gets shorter.
-/

set_option autoImplicit false

namespace Minifier

namespace Settings

/-- Gets rid of negations in an expression, if that is asked for. -/
def reduce (settings : Settings) (slot : Slot) (condition : Bool) (e : Expr) : Edited Expr :=
  Edited.when (settings.applies .reduceNot) (·.reduce settings.shortBooleans slot condition) e

/-- The negation of a condition that stands by itself. -/
def negate (settings : Settings) (e : Expr) : Expr := e.negated settings.shortBooleans .top .top

end Settings

namespace Statement

/-- What becomes of an `if` whose test is constant: the branch that is taken, and what has to be
left of the other one. -/
def decideIf (truth : Bool) (yes : Statement) (no : Option Statement) (span : Span) : Statement :=
  let (taken, skipped) := if truth then (some yes, no) else (no, some yes)
  .ofList span (taken.toList ++ (skipped.map survivors).getD [])

/-- The single expression that a statement evaluates. -/
def onlyExpr? : Statement → Option Expr
  | expr e => some e
  | block ⟨statements, _⟩ => do
    Expr.sequence? (← statements.mapM fun
      | expr e => some e
      | _ => none)
  | _ => none

/-- Drops the branches of an `if` that do nothing. If only the second one does something, it goes
under the negated test; if neither does, only the test is left. -/
def dropEmptyBranches (settings : Settings) : Statement → Edited Statement
  | ifElse test yes no span =>
    let isIdle := no.any doesNothing
    let no := if isIdle then none else no
    if yes.doesNothing then
      match no with
      | none => .of (.expr test)
      | some no => .of (.ifElse (settings.negate test) no none span)
    else ⟨.ifElse test yes no span, isIdle⟩
  | s => pure s

/-- The `if` over the negated test, if that is a shorter test. -/
def swapped? (settings : Settings) : Statement → Option Statement
  | ifElse test yes (some no) span =>
    if test.negationCost settings.shortBooleans .top .top < 0 then
      some (.ifElse (settings.negate test) no (some yes) span)
    else none
  | _ => none

/-- The expression that an `if` over expressions is. -/
def ifExpr? (settings : Settings) : Statement → Option Statement
  | ifElse test yes no span => do
    let yes ← yes.onlyExpr?
    match no with
    | some no => do
      let no ← no.onlyExpr?
      if !settings.applies .ifToConditional then none
      else some (.expr { Expr.conditional test yes no with span })
    | none =>
      if !settings.applies .ifToLogical then none
      else
        let negated := test.negated settings.shortBooleans .top (.operand .logicalOr .left)
        let or := Expr.binary .logicalOr negated yes
        let and := Expr.binary .logicalAnd test yes
        let shorter := if or.length settings .top < and.length settings .top then or else and
        some (.expr { shorter with span })
  | _ => none

/-- Takes a candidate for a statement if it is shorter. -/
def shorterOf (settings : Settings) (s : Statement) : Option Statement → Edited Statement
  | some candidate =>
    if candidate.length settings < s.length settings then .of candidate else pure s
  | none => pure s

/-- What becomes of an `if` whose test is not constant. -/
def simplifyBranches (settings : Settings) (s : Statement) : Edited Statement := do
  let s ← Edited.when (settings.applies .dropEmptyBranches) (dropEmptyBranches settings) s
  let s ← Edited.when (settings.applies .swapBranches)
    (fun s => s.shorterOf settings (s.swapped? settings)) s
  s.shorterOf settings (s.ifExpr? settings)

/-- What becomes of an `if`. -/
def simplifyIf (settings : Settings) : Statement → Edited Statement
  | ifElse test yes no span => do
    let test ← settings.reduce .top true test
    match if settings.removes .foldTests then test.truthiness? else none with
    | some truth => .of (decideIf truth yes no span)
    | none => simplifyBranches settings (.ifElse test yes no span)
  | s => pure s

/-- What becomes of a `while`: if its test is never true, only declarations are left. -/
def simplifyWhile (settings : Settings) : Statement → Edited Statement
  | whileLoop test body span => do
    let test ← settings.reduce .top true test
    if settings.removes .foldTests && test.truthiness? = some false then
      .of (.ofList span body.survivors)
    else return .whileLoop test body span
  | s => pure s

end Statement

end Minifier
