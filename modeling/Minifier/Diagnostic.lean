import Minifier.Span

/-!
# Diagnostics

What the tool has to say about a program besides its output. A diagnostic has a code, a severity
and a place; none of them stops the work. They are kept in the order in which they were found.
-/

set_option autoImplicit false

namespace Minifier

inductive Severity where
  | error
  | warning
  | info
deriving DecidableEq, Repr

/-- What was found. -/
inductive Finding where
  | syntaxError
  | unusedVariable
  | unusedArgument
  | unusedFunction
  | ambiguousFunctionName
  | duplicateDeclaration
  | undeclaredVariable
  | undeclaredFunction
  | redundantDefault
  | redundantCase
  | unreachableCode
deriving DecidableEq, Repr

namespace Finding

/-- The code a finding is reported under. -/
def code : Finding → String
  | syntaxError => "JS1001"
  | unusedVariable => "JS1101"
  | unusedArgument => "JS1102"
  | unusedFunction => "JS1103"
  | ambiguousFunctionName => "JS1110"
  | duplicateDeclaration => "JS1111"
  | undeclaredVariable => "JS1120"
  | undeclaredFunction => "JS1121"
  | redundantDefault => "JS1130"
  | redundantCase => "JS1131"
  | unreachableCode => "JS1140"

/-- The severity of a finding, unless its report says otherwise. -/
def severity : Finding → Severity
  | syntaxError => .error
  | ambiguousFunctionName | duplicateDeclaration => .warning
  | undeclaredFunction | undeclaredVariable => .warning
  | _ => .info

end Finding

structure Diagnostic where
  severity : Severity
  finding : Finding
  span : Span
  message : String
deriving DecidableEq, Repr

/-- A finding reported at its own severity. -/
def Diagnostic.of (finding : Finding) (span : Span) (message : String) : Diagnostic :=
  ⟨finding.severity, finding, span, message⟩

/-- Diagnostics in the order of their reports. -/
abbrev Report := Array Diagnostic

namespace Report

def countOf (report : Report) (severity : Severity) : Nat :=
  (report.filter (·.severity = severity)).size

def errorCount (report : Report) : Nat := report.countOf .error

def warningCount (report : Report) : Nat := report.countOf .warning

def hasErrors (report : Report) : Bool := 0 < report.errorCount

/-- The diagnostics about one finding. -/
def about (report : Report) (finding : Finding) : Report := report.filter (·.finding = finding)

end Report

end Minifier
