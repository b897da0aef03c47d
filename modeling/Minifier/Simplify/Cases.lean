import Minifier.Diagnostic
import Minifier.Settings.Basic
import Minifier.Simplify.Edited
import Minifier.Syntax.Statement

/-!
# Clauses of a switch

A `break` at the end of a `switch` does nothing, and neither does a clause that only leaves it. Such
a clause can go if no other clause is chosen in its place: the default clause always, another one if
there is no default and its test has no effect.
-/

set_option autoImplicit false

namespace Minifier

/-- Drops a `break` at the end of the last clause. -/
def dropTrailingBreak (cases : List SwitchCase) : Edited (List SwitchCase) :=
  match cases.getLast? with
  | some last =>
    if last.body.getLast?.any Statement.isPlainBreak then
      .of (cases.dropLast ++ [{ last with body := last.body.dropLast }])
    else pure cases
  | none => pure cases

/-- Whether a clause only leaves the `switch`. -/
def SwitchCase.onlyLeaves (isLast : Bool) (c : SwitchCase) : Bool :=
  match c.body with
  | [] => isLast
  | [only] => only.isPlainBreak
  | _ => false

/-- Whether a clause can go. -/
def SwitchCase.isRedundant (settings : Settings) (hasDefault isLast : Bool) (c : SwitchCase) :
    Bool :=
  c.onlyLeaves isLast &&
    match c.test with
    | none => settings.applies .dropEmptyDefault
    | some test =>
      !hasDefault && settings.applies .dropEmptyCases &&
        (test.isConstant || test.ident?.isSome)

/-- The last clause that can go. -/
def redundantCase? (settings : Settings) (cases : List SwitchCase) : Option Nat :=
  let hasDefault := (defaultIndex? cases).isSome
  (List.range cases.length).reverse.find? fun i =>
    cases[i]?.any (·.isRedundant settings hasDefault (i + 1 = cases.length))

/-- What is said about a clause that goes. -/
def SwitchCase.redundancy (c : SwitchCase) : Diagnostic :=
  match c.test with
  | none => .of .redundantDefault c.span "Redundant default case"
  | some _ => .of .redundantCase c.span "Redundant case"

/-- A clause that ends with a jump out of the `switch`. -/
def SwitchCase.closed (c : SwitchCase) : SwitchCase :=
  if c.body.getLast?.any Statement.isJump then c
  else { c with body := c.body ++ [.breakTo none .synthetic] }

/-- The clauses without one that leaves. The clause before it must not go on to the one after. -/
def removeCase (cases : List SwitchCase) (index : Nat) : List SwitchCase :=
  let rest := cases.eraseIdx index
  if 0 < index && index < rest.length then rest.modify (index - 1) SwitchCase.closed else rest

/-- Drops clauses that can go, the last first, with what is said about each. At most `fuel` of
them. -/
def dropRedundant (settings : Settings) :
    Nat → List SwitchCase → Edited (List SwitchCase) × List Diagnostic
  | 0, cases => (pure cases, [])
  | fuel + 1, cases =>
    match redundantCase? settings cases with
    | none => (pure cases, [])
    | some index =>
      let (dropped, reports) := dropRedundant settings fuel (removeCase cases index)
      (.of dropped.value, (cases[index]?.map SwitchCase.redundancy).toList ++ reports)

/-- What becomes of the clauses of a `switch`, and what is said about them. -/
def simplifyCases (settings : Settings) (cases : List SwitchCase) :
    Edited (List SwitchCase) × List Diagnostic :=
  let trim := Edited.when (settings.applies .dropTrailingBreak) dropTrailingBreak
  let trimmed := trim cases
  let (dropped, reports) := dropRedundant settings trimmed.value.length trimmed.value
  let last := trim dropped.value
  (⟨last.value, trimmed.changed || dropped.changed || last.changed⟩, reports)

end Minifier
