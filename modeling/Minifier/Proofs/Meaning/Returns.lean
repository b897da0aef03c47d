import Minifier.Proofs.Meaning.Branches
import Minifier.Simplify.Returns
import Mathlib.Logic.Relation

/-!
# What becomes of returns

A `return` ends the statements around it with a jump that carries its value, and what a loop, a
`switch`, a `try` or another statement with parts does comes from what its parts do, in whatever way.
A function returns what the jump carries, and `undefined` if its statements come to a normal end.

Returns that were folded in one list of statements do what they did before and end in the same way,
so they can be folded in any lists of a function, however deep and in any order (`Conduct.run_folds`).
At the end of a function a normal end and a return of `undefined` come to the same, and there a last
return may be dropped, and an `if` may become a return, or a return an `if`
(`Conduct.outcome_simplifyEnd`).
-/

set_option autoImplicit false

namespace Minifier

/-- An execution with returns, and with a meaning from the meanings of their parts for all statements
with parts. -/
structure Conduct extends Execution where
  returned : Value → Jump
  forLoop : ForInit → Option Expr → Option Expr → Run (Completion Jump) → Run (Completion Jump)
  forIn : ForTarget → Expr → Run (Completion Jump) → Run (Completion Jump)
  whileLoop : Expr → Run (Completion Jump) → Run (Completion Jump)
  doWhile : Run (Completion Jump) → Expr → Run (Completion Jump)
  switch : Expr → List (Option Expr × Run (Completion Jump)) → Run (Completion Jump)
  tryCatch : Run (Completion Jump) → Option (Ident × Run (Completion Jump)) →
    Option (Run (Completion Jump)) → Run (Completion Jump)
  labeled : String → Run (Completion Jump) → Run (Completion Jump)
  withObject : Expr → Run (Completion Jump) → Run (Completion Jump)

namespace Conduct

variable (C : Conduct)

/-- Evaluates something and returns its value. -/
def giveBack (value : C.Run C.Value) : C.Run (Completion C.Jump) := do
  return .abrupt (C.returned (← value))

mutual

/-- Runs a statement. -/
def run (C : Conduct) : Statement → C.Run (Completion C.Jump)
  | .block b => runBlock C b
  | .ifElse test yes no _ => do
    if ← C.truth test then run C yes else runElse C no
  | .forLoop init test update body _ => C.forLoop init test update (run C body)
  | .forIn target object body _ => C.forIn target object (run C body)
  | .whileLoop test body _ => C.whileLoop test (run C body)
  | .doWhile body test _ => C.doWhile (run C body) test
  | .switch subject clauses _ => C.switch subject (runClauses C clauses)
  | .tryCatch body handler finalizer _ =>
    C.tryCatch (runBlock C body) (runHandler C handler) (runFinalizer C finalizer)
  | .labeled label body _ => C.labeled label (run C body)
  | .withObject object body _ _ => C.withObject object (run C body)
  | .returnWith none _ => C.giveBack (return C.undefined)
  | .returnWith (some e) _ => C.giveBack (C.eval e)
  | s => C.exec s

/-- An `else`, if there is one. -/
def runElse (C : Conduct) : Option Statement → C.Run (Completion C.Jump)
  | none => return .normal
  | some s => run C s

/-- A block. -/
def runBlock (C : Conduct) : Block → C.Run (Completion C.Jump)
  | ⟨statements, _⟩ => runAll C statements

/-- Statements, up to one that does not complete. -/
def runAll (C : Conduct) : List Statement → C.Run (Completion C.Jump)
  | [] => return .normal
  | s :: rest => run C s >>= C.proceed (runAll C rest)

/-- The clauses of a `switch`, with their tests. -/
def runClauses (C : Conduct) : List SwitchCase → List (Option Expr × C.Run (Completion C.Jump))
  | [] => []
  | ⟨test, body, _⟩ :: rest => (test, runAll C body) :: runClauses C rest

/-- A handler. -/
def runHandler (C : Conduct) : Option CatchClause → Option (Ident × C.Run (Completion C.Jump))
  | none => none
  | some ⟨param, body, _, _⟩ => some (param, runBlock C body)

/-- A finalizer. -/
def runFinalizer (C : Conduct) : Option Block → Option (C.Run (Completion C.Jump))
  | none => none
  | some b => some (runBlock C b)

end

section

variable (statements : List Statement) (test e : Expr) (yes : Statement) (span : Span)

theorem run_block : C.run (.block ⟨statements, span⟩) = C.runAll statements := rfl

theorem run_branches (no : Option Statement) : C.run (.ifElse test yes no span) = (do
    if ← C.truth test then C.run yes else C.runElse no) := rfl

theorem run_if : C.run (.ifElse test yes none span) = (do
    if ← C.truth test then C.run yes else return .normal) := rfl

theorem run_ifElse (no : Statement) : C.run (.ifElse test yes (some no) span) = (do
    if ← C.truth test then C.run yes else C.run no) := rfl

theorem run_return : C.run (.returnWith (some e) span) = C.giveBack (C.eval e) := rfl

theorem run_returnNothing : C.run (.returnWith none span) = C.giveBack (return C.undefined) := rfl

theorem runAll_nil : C.runAll [] = return .normal := rfl

theorem runAll_cons (s : Statement) :
    C.runAll (s :: statements) = C.run s >>= C.proceed (C.runAll statements) := rfl

end

/-! ## One list -/

theorem runAll_singleton (s : Statement) : C.runAll [s] = C.run s := by
  rw [runAll_cons, runAll_nil, C.proceed_normal]

/-- One list after another. -/
theorem runAll_append (xs ys : List Statement) :
    C.runAll (xs ++ ys) = C.runAll xs >>= C.proceed (C.runAll ys) := by
  induction xs with
  | nil => simp [runAll_nil, Execution.proceed]
  | cons s rest ih =>
    rw [List.cons_append, runAll_cons, runAll_cons, ih, bind_assoc]
    congr 1
    funext completion
    cases completion <;> simp [Execution.proceed]

/-- Nothing runs after a return. -/
theorem giveBack_proceed (value : C.Run C.Value) (next : C.Run (Completion C.Jump)) :
    C.giveBack value >>= C.proceed next = C.giveBack value := by
  simp [giveBack, Execution.proceed]

/-- A statement that only returns a value. -/
theorem run_returnedExpr {s : Statement} {e : Expr} (returns : s.returnedExpr? = some e) :
    C.run s = C.giveBack (C.eval e) := by
  fun_induction Statement.returnedExpr? s with
  | case1 value span =>
    cases returns
    exact C.run_return e span
  | case2 only span ih => rw [run_block, runAll_singleton, ih returns]
  | case3 => cases returns

/-- Returning a conditional is choosing what to return. -/
theorem run_returnConditional (test yes no : Expr) (inner span : Span) :
    C.run (.returnWith (some ⟨.conditional test yes no, inner⟩) span) = (do
      if ← C.truth test then C.giveBack (C.eval yes) else C.giveBack (C.eval no)) := by
  have chosen : C.eval ⟨.conditional test yes no, inner⟩ =
      C.choose (C.eval test) (C.eval yes) (C.eval no) := rfl
  rw [run_return, chosen]
  simp only [giveBack, Machine.choose, Semantics.truth, Machine.truthOf, bind_assoc, bind_map_left]
  congr 1
  funext v
  cases C.isTruthy v <;> rfl

/-- Folding an `if` that returns on both sides. -/
theorem run_foldIfElse {s folded : Statement} (found : s.foldIfElse? = some folded) :
    C.run folded = C.run s := by
  unfold Statement.foldIfElse? at found
  split at found
  next test yes no span =>
    simp only [Option.bind_eq_bind, Option.bind_eq_some_iff, Option.some.injEq] at found
    obtain ⟨first, isFirst, second, isSecond, rfl⟩ := found
    rw [Statement.returnEither, Expr.conditional, run_returnConditional, run_ifElse,
      C.run_returnedExpr isFirst, C.run_returnedExpr isSecond]
  next => cases found

/-- Folding an `if` and the return after it. -/
theorem run_foldPair {s next folded : Statement} (found : s.foldPair? next = some folded)
    (more : List Statement) : C.runAll (folded :: more) = C.runAll (s :: next :: more) := by
  unfold Statement.foldPair? at found
  split at found
  next test yes span value valueSpan =>
    simp only [Option.bind_eq_bind, Option.bind_eq_some_iff, Option.some.injEq] at found
    obtain ⟨first, isFirst, rfl⟩ := found
    rw [Statement.returnEither, Expr.conditional, runAll_cons, run_returnConditional, runAll_cons,
      runAll_cons, run_if, run_return, C.run_returnedExpr isFirst, bind_assoc, bind_assoc]
    congr 1
    funext truth
    cases truth <;> simp [giveBack_proceed, Execution.proceed]
  next => cases found

theorem runAll_consReturn (settings : Settings) (s : Statement) (rest : List Statement) :
    C.runAll (consReturn settings s rest).value = C.runAll (s :: rest) := by
  simp only [consReturn, Edited.value_bind]
  have folded : C.run (Edited.when (settings.applies .returnEither)
      (fun s => .orElse s s.foldIfElse?) s).value = C.run s := by
    refine Edited.when_value (fun t => C.run t = C.run s) _ _ _ rfl ?_
    cases found : s.foldIfElse? with
    | none => rfl
    | some folded => exact C.run_foldIfElse found
  generalize (Edited.when (settings.applies .returnEither) _ s).value = s' at folded
  rw [runAll_cons, ← folded]
  cases rest with
  | nil => rfl
  | cons next more =>
    dsimp only
    split
    next joined found =>
      exact C.run_foldPair (Option.ite_none_right_eq_some.mp found).2 more
    next => rfl

/-- Folding the returns of a list changes neither what the list does nor how it ends. -/
theorem runAll_foldReturns (settings : Settings) (statements : List Statement) :
    C.runAll (foldReturns settings statements).value = C.runAll statements := by
  induction statements with
  | nil => rfl
  | cons s rest ih =>
    simp only [foldReturns, Edited.value_bind]
    rw [runAll_consReturn, runAll_cons, ih, ← runAll_cons]

end Conduct

/-! ## Lists in lists -/

mutual

/-- The returns of one list in a statement were folded. -/
inductive FoldsWithin (settings : Settings) : Statement → Statement → Prop where
  | block {statements statements' : List Statement} {span : Span}
    (list : FoldsReturns settings statements statements') :
    FoldsWithin settings (.block ⟨statements, span⟩) (.block ⟨statements', span⟩)
  | yes {test : Expr} {yes yes' : Statement} {no : Option Statement} {span : Span}
    (branch : FoldsWithin settings yes yes') :
    FoldsWithin settings (.ifElse test yes no span) (.ifElse test yes' no span)
  | no {test : Expr} {yes no no' : Statement} {span : Span} (branch : FoldsWithin settings no no') :
    FoldsWithin settings (.ifElse test yes (some no) span) (.ifElse test yes (some no') span)
  | forLoop {init : ForInit} {test update : Option Expr} {body body' : Statement} {span : Span}
    (inside : FoldsWithin settings body body') :
    FoldsWithin settings (.forLoop init test update body span) (.forLoop init test update body' span)
  | forIn {target : ForTarget} {object : Expr} {body body' : Statement} {span : Span}
    (inside : FoldsWithin settings body body') :
    FoldsWithin settings (.forIn target object body span) (.forIn target object body' span)
  | whileLoop {test : Expr} {body body' : Statement} {span : Span}
    (inside : FoldsWithin settings body body') :
    FoldsWithin settings (.whileLoop test body span) (.whileLoop test body' span)
  | doWhile {body body' : Statement} {test : Expr} {span : Span}
    (inside : FoldsWithin settings body body') :
    FoldsWithin settings (.doWhile body test span) (.doWhile body' test span)
  | switch {subject : Expr} {before after : List SwitchCase} {test : Option Expr}
    {body body' : List Statement} {caseSpan span : Span} (list : FoldsReturns settings body body') :
    FoldsWithin settings (.switch subject (before ++ ⟨test, body, caseSpan⟩ :: after) span)
      (.switch subject (before ++ ⟨test, body', caseSpan⟩ :: after) span)
  | tryBlock {body body' : List Statement} {bodySpan span : Span} {handler : Option CatchClause}
    {finalizer : Option Block} (list : FoldsReturns settings body body') :
    FoldsWithin settings (.tryCatch ⟨body, bodySpan⟩ handler finalizer span)
      (.tryCatch ⟨body', bodySpan⟩ handler finalizer span)
  | handler {body : Block} {param : Ident} {caught caught' : List Statement}
    {scope : Option ScopeId} {caughtSpan clauseSpan span : Span} {finalizer : Option Block}
    (list : FoldsReturns settings caught caught') :
    FoldsWithin settings
      (.tryCatch body (some ⟨param, ⟨caught, caughtSpan⟩, scope, clauseSpan⟩) finalizer span)
      (.tryCatch body (some ⟨param, ⟨caught', caughtSpan⟩, scope, clauseSpan⟩) finalizer span)
  | finalizer {body : Block} {handler : Option CatchClause} {final final' : List Statement}
    {finalSpan span : Span} (list : FoldsReturns settings final final') :
    FoldsWithin settings (.tryCatch body handler (some ⟨final, finalSpan⟩) span)
      (.tryCatch body handler (some ⟨final', finalSpan⟩) span)
  | labeled {label : String} {body body' : Statement} {span : Span}
    (inside : FoldsWithin settings body body') :
    FoldsWithin settings (.labeled label body span) (.labeled label body' span)
  | withObject {object : Expr} {body body' : Statement} {scope : Option ScopeId} {span : Span}
    (inside : FoldsWithin settings body body') :
    FoldsWithin settings (.withObject object body scope span) (.withObject object body' scope span)

/-- The returns of a list, or of one list in it, were folded. -/
inductive FoldsReturns (settings : Settings) : List Statement → List Statement → Prop where
  | here (statements : List Statement) :
    FoldsReturns settings statements (foldReturns settings statements).value
  | inside (before after : List Statement) {s s' : Statement} (part : FoldsWithin settings s s') :
    FoldsReturns settings (before ++ s :: after) (before ++ s' :: after)

end

namespace Conduct

variable (C : Conduct) {settings : Settings}

theorem runClauses_append (before after : List SwitchCase) :
    C.runClauses (before ++ after) = C.runClauses before ++ C.runClauses after := by
  induction before with
  | nil => rfl
  | cons clause rest ih =>
    cases clause
    exact congrArg (List.cons _) ih

mutual

/-- A statement with folds somewhere inside runs the same. -/
theorem run_folds {s s' : Statement} : FoldsWithin settings s s' → C.run s' = C.run s
  | .block list => runAll_folds list
  | .yes branch => by rw [run_branches, run_branches, run_folds branch]
  | .no branch => by rw [run_ifElse, run_ifElse, run_folds branch]
  | .forLoop inside => congrArg (C.forLoop _ _ _) (run_folds inside)
  | .forIn inside => congrArg (C.forIn _ _) (run_folds inside)
  | .whileLoop inside => congrArg (C.whileLoop _) (run_folds inside)
  | .doWhile inside => congrArg (C.doWhile · _) (run_folds inside)
  | @FoldsWithin.switch _ subject before after test body body' _ _ list => by
    show C.switch subject _ = C.switch subject _
    rw [runClauses_append, runClauses_append]
    exact congrArg (fun run => C.switch subject (_ ++ (test, run) :: _)) (runAll_folds list)
  | .tryBlock list => congrArg (C.tryCatch · _ _) (runAll_folds list)
  | .handler list => congrArg (fun run => C.tryCatch _ (some (_, run)) _) (runAll_folds list)
  | .finalizer list => congrArg (fun run => C.tryCatch _ _ (some run)) (runAll_folds list)
  | .labeled inside => congrArg (C.labeled _) (run_folds inside)
  | .withObject inside => congrArg (C.withObject _) (run_folds inside)

/-- So do lists of them. -/
theorem runAll_folds {a b : List Statement} : FoldsReturns settings a b → C.runAll b = C.runAll a
  | .here statements => C.runAll_foldReturns settings statements
  | .inside before after part => by
    rw [runAll_append, runAll_append, runAll_cons, runAll_cons, run_folds part]

end

/-- Returns may be folded in several lists, one after the other. -/
theorem runAll_foldsAll {a b : List Statement}
    (folds : Relation.ReflTransGen (FoldsReturns settings) a b) : C.runAll b = C.runAll a := by
  induction folds with
  | refl => rfl
  | tail _ last ih => exact (C.runAll_folds last).trans ih

/-! ## The end of a function -/

/-- What a function comes to: statements that end normally return nothing. -/
def finish : Completion C.Jump → C.Jump
  | .normal => C.returned C.undefined
  | .abrupt jump => jump

variable (statements : List Statement)

/-- Runs the statements of a function. -/
def outcome : C.Run C.Jump := C.finish <$> C.runAll statements

/-- Of the last statement of a function it does not matter whether it returns nothing or ends
normally. -/
theorem outcome_append {s s' : Statement} (same : C.finish <$> C.run s = C.finish <$> C.run s')
    (statements : List Statement) :
    C.outcome (statements ++ [s]) = C.outcome (statements ++ [s']) := by
  simp only [outcome, runAll_append, runAll_singleton, map_bind]
  congr 1
  funext completion
  cases completion with
  | normal => exact same
  | abrupt jump => rfl

/-- A body that returns gives the value. -/
theorem finish_giveBack (value : C.Run C.Value) :
    C.finish <$> C.giveBack value = C.returned <$> value := by
  simp [giveBack, finish]

theorem eval_isVoidZero {e : Expr} (isVoid : e.isVoidZero) : C.eval e = pure C.undefined := by
  obtain ⟨form, span⟩ := e
  simp only [Expr.isVoidZero] at isVoid
  split at isVoid
  next n operandSpan =>
    refine (C.void_eq _).trans ?_
    show (do let _ ← C.number n; return C.undefined) = _
    rw [C.number_eq, pure_bind]
  next => cases isVoid

/-- The run of an `if` that returns a value or ends normally, and of the return of one of two values
of which the second is nothing. -/
theorem finish_returnConditional (test yes no : Expr) (isVoid : no.isVoidZero) {branch : Statement}
    (returns : C.run branch = C.giveBack (C.eval yes)) (inner span span' : Span) :
    C.finish <$> C.run (.returnWith (some ⟨.conditional test yes no, inner⟩) span) =
      C.finish <$> C.run (.ifElse test branch none span') := by
  rw [run_returnConditional, run_if, returns, map_bind, map_bind]
  congr 1
  funext truth
  cases truth with
  | true => rfl
  | false =>
    show C.finish <$> C.giveBack (C.eval no) = C.finish <$> pure .normal
    rw [finish_giveBack, C.eval_isVoidZero isVoid, map_pure, map_pure, finish]

/-- Folding an `if` at the end. -/
theorem outcome_foldFinal {last folded : Statement} (found : last.foldFinal? = some folded)
    (statements : List Statement) :
    C.outcome (statements ++ [folded]) = C.outcome (statements ++ [last]) := by
  unfold Statement.foldFinal? at found
  split at found
  next test yes span =>
    simp only [Option.bind_eq_bind, Option.bind_eq_some_iff, Option.some.injEq] at found
    obtain ⟨value, isValue, rfl⟩ := found
    exact C.outcome_append
      (C.finish_returnConditional test value _ rfl (C.run_returnedExpr isValue) _ _ _) statements
  next => cases found

/-- Unfolding a return at the end. -/
theorem outcome_unfoldFinal {last unfolded : Statement} (found : last.unfoldFinal? = some unfolded)
    (statements : List Statement) :
    C.outcome (statements ++ [unfolded]) = C.outcome (statements ++ [last]) := by
  unfold Statement.unfoldFinal? at found
  split at found
  next test yes no _ span =>
    simp only [Option.ite_none_right_eq_some, Option.some.injEq] at found
    obtain ⟨isVoid, rfl⟩ := found
    exact C.outcome_append
      (C.finish_returnConditional test yes no isVoid (C.run_return yes span) _ span span).symm
      statements
  next => cases found

/-- Dropping the last return. -/
theorem outcome_dropFinalReturn :
    C.outcome (dropFinalReturn statements).value = C.outcome statements := by
  unfold dropFinalReturn
  split
  next span isLast =>
    obtain ⟨front, rfl⟩ := List.getLast?_eq_some_iff.mp isLast
    rw [Edited.value_of, List.dropLast_concat, outcome, outcome, runAll_append, runAll_singleton,
      run_returnNothing, map_bind, map_eq_pure_bind]
    congr 1
    funext completion
    cases completion with
    | normal =>
      show pure (C.finish .normal) = C.finish <$> C.giveBack (return C.undefined)
      rw [finish_giveBack, map_pure, finish]
    | abrupt jump => exact (map_pure C.finish _).symm
  next => rfl

/-- Settling the last statement. -/
theorem outcome_settleFinal (settings : Settings) (folded : Edited (List Statement)) :
    C.outcome (settleFinal settings folded).value = C.outcome folded.value := by
  unfold settleFinal
  split
  next => rfl
  next last isLast =>
    obtain ⟨front, whole⟩ := List.getLast?_eq_some_iff.mp isLast
    dsimp only
    split
    next unfolded found =>
      split
      · rw [whole, List.dropLast_concat]
        exact C.outcome_unfoldFinal (Option.ite_none_right_eq_some.mp found).2 front
      · rfl
    next => rfl

/-- All rules for the end. -/
theorem outcome_foldFinalReturn (settings : Settings) :
    C.outcome (foldFinalReturn settings statements).value = C.outcome statements := by
  unfold foldFinalReturn
  split
  next => rfl
  next folded found =>
    obtain ⟨last, isLast, isFolded⟩ := Option.bind_eq_some_iff.mp found
    obtain ⟨front, rfl⟩ := List.getLast?_eq_some_iff.mp isLast
    rw [outcome_settleFinal, outcome, runAll_foldReturns, ← outcome, List.dropLast_concat]
    exact C.outcome_foldFinal isFolded front

/-- A function in which returns were folded, in its own list and in lists in it, and whose end was
then simplified, does the same things in the same order and returns the same, or jumps in the same
way. -/
theorem outcome_simplifyEnd (settings : Settings) {body folded : List Statement}
    (folds : Relation.ReflTransGen (FoldsReturns settings) body folded) :
    C.outcome (simplifyEnd settings folded).value = C.outcome body := by
  have same : C.outcome folded = C.outcome body := by
    rw [outcome, C.runAll_foldsAll folds, ← outcome]
  simp only [simplifyEnd, Edited.value_bind]
  have dropped : C.outcome (Edited.when (settings.applies .dropFinalReturn) dropFinalReturn
      folded).value = C.outcome body :=
    Edited.when_value (fun statements => C.outcome statements = C.outcome body) _ _ _ same
      ((C.outcome_dropFinalReturn folded).trans same)
  exact Edited.when_value (fun statements => C.outcome statements = C.outcome body) _ _ _ dropped
    ((C.outcome_foldFinalReturn _ settings).trans dropped)

/-- Names are noted down, as `Execution.noting` does, and bodies run at most once. -/
def noting (table : String → Option Bool) : Conduct where
  toExecution :=
    { Execution.noting table with Jump := Option Bool, other := fun _ => return .abrupt none }
  returned := some
  forLoop _ _ _ body := body
  forIn _ _ body := body
  whileLoop test body := do
    if ← (Execution.noting table).truth test then body else return .normal
  doWhile body _ := body
  switch _ clauses := (clauses.map Prod.snd).headD (return .normal)
  tryCatch body _ _ := body
  labeled _ body := body
  withObject _ body := body

private def noted (name : String) : Expr := .synthetic (.ident ⟨name, .synthetic, none⟩)

/-- `if(b)return c;return a` -/
private def twoReturns : List Statement :=
  [.ifElse (noted "b") (.returnWith (some (noted "c")) .synthetic) none .synthetic,
    .returnWith (some (noted "a")) .synthetic]

/-- `while(a){..}if(c)return b` -/
private def returnsAround (inner : List Statement) : List Statement :=
  [.whileLoop (noted "a") (.block ⟨inner, .synthetic⟩) .synthetic,
    .ifElse (noted "c") (.returnWith (some (noted "b")) .synthetic) none .synthetic]

theorem outcome_simplifyEnd_sample :
    Relation.ReflTransGen (FoldsReturns {}) (returnsAround twoReturns)
        (returnsAround (foldReturns {} twoReturns).value) ∧
      (noting fun n => some (n = "a")).outcome
          (simplifyEnd {} (returnsAround (foldReturns {} twoReturns).value)).value =
        (noting fun n => some (n = "a")).outcome (returnsAround twoReturns) := by
  have folds : Relation.ReflTransGen (FoldsReturns {}) (returnsAround twoReturns)
      (returnsAround (foldReturns {} twoReturns).value) :=
    .single (.inside [] _ (.whileLoop (.block (.here twoReturns))))
  exact ⟨folds, outcome_simplifyEnd _ {} folds⟩

example : ((noting fun n => some (n = "a")).outcome (returnsAround twoReturns)).run [] =
    some (some true, ["a", "b", "a"]) := rfl

end Conduct

end Minifier
