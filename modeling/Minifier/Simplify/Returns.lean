import Minifier.Print.Tree
import Minifier.Simplify.Edited

/-!
# Returns

Neighbouring returns under a condition become one return of a conditional expression. At the end of
a function a missing return counts as one of `void 0`; if nothing comes of that, it is undone.
-/

set_option autoImplicit false

namespace Minifier

namespace Statement

/-- What a statement returns that only returns a value. -/
def returnedExpr? : Statement → Option Expr
  | returnWith value _ => value
  | block ⟨[only], _⟩ => only.returnedExpr?
  | _ => none

/-- The return of one of two values. -/
def returnEither (test yes no : Expr) (span : Span) : Statement :=
  .returnWith (some (.conditional test yes no)) span

/-- An `if` that returns a value either way. -/
def foldIfElse? : Statement → Option Statement
  | ifElse test yes (some no) span => do
    some (returnEither test (← yes.returnedExpr?) (← no.returnedExpr?) span)
  | _ => none

/-- An `if` that returns a value, and the return after it. -/
def foldPair? : Statement → Statement → Option Statement
  | ifElse test yes none span, returnWith (some value) valueSpan => do
    some (returnEither test (← yes.returnedExpr?) value (span.combine valueSpan))
  | _, _ => none

/-- An `if` that returns a value at the end of a function. -/
def foldFinal? : Statement → Option Statement
  | ifElse test yes none span => do
    some (returnEither test (← yes.returnedExpr?) .voidZero span)
  | _ => none

/-- The `if` that a return of a value or `void 0` stands for. -/
def unfoldFinal? : Statement → Option Statement
  | returnWith (some ⟨.conditional test yes no, _⟩) span =>
    if no.isVoidZero then some (.ifElse test (.returnWith (some yes) span) none span) else none
  | _ => none

end Statement

/-- Puts a statement before a list, as one return with the first of it if that can be. -/
def consReturn (settings : Settings) (s : Statement) (rest : List Statement) :
    Edited (List Statement) := do
  let s ← Edited.when (settings.applies .returnEither) (fun s => .orElse s s.foldIfElse?) s
  match rest with
  | [] => return [s]
  | next :: more =>
    match if settings.applies .returnCascade then s.foldPair? next else none with
    | some folded => .of (folded :: more)
    | none => return s :: next :: more

/-- Makes one return of neighbouring ones, from the end of a list. -/
def foldReturns (settings : Settings) : List Statement → Edited (List Statement)
  | [] => return []
  | s :: rest => do consReturn settings s (← foldReturns settings rest)

/-- Drops a return of nothing at the end of a function. -/
def dropFinalReturn (statements : List Statement) : Edited (List Statement) :=
  match statements.getLast? with
  | some (.returnWith none _) => .of statements.dropLast
  | _ => pure statements

/-- What is left of the end of a function that was folded, once no more returns fold. -/
def settleFinal (settings : Settings) (folded : Edited (List Statement)) :
    Edited (List Statement) :=
  match folded.value.getLast? with
  | none => folded
  | some last =>
    let unfolded := if settings.applies .dropVoidReturn then last.unfoldFinal? else none
    match unfolded with
    | some unfolded =>
      if unfolded.length settings ≤ last.length settings then
        ⟨folded.value.dropLast ++ [unfolded], folded.changed⟩
      else .of folded.value
    | none => .of folded.value

/-- Folds an `if` that returns a value at the end of a function with the returns before it. -/
def foldFinalReturn (settings : Settings) (statements : List Statement) :
    Edited (List Statement) :=
  match statements.getLast?.bind Statement.foldFinal? with
  | none => pure statements
  | some folded => settleFinal settings (foldReturns settings (statements.dropLast ++ [folded]))

/-- What becomes of the statements of a function at its end. -/
def simplifyEnd (settings : Settings) (statements : List Statement) : Edited (List Statement) := do
  let statements ← Edited.when (settings.applies .dropFinalReturn) dropFinalReturn statements
  Edited.when (settings.applies .returnCascade) (foldFinalReturn settings) statements

end Minifier
