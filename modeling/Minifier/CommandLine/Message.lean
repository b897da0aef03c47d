import Minifier.Diagnostic
import Minifier.Text.Split

/-!
# Messages

How a diagnostic is shown to a user: on one line, or with colours and the line of the source.
-/

set_option autoImplicit false

namespace Minifier

def Severity.word : Severity → String
  | error => "error"
  | warning => "warning"
  | info => "info"

/-- The word for a severity in its colour. -/
def Severity.coloured : Severity → String
  | error => "\x1b[31merror\x1b[0m"
  | warning => "\x1b[33mwarning\x1b[0m"
  | info => "\x1b[34minfo\x1b[0m"

/-- The line of a source that a span starts in, and a mark below the place. -/
def Span.excerpt (s : Span) (source : String) : String :=
  if s.line = 0 then ""
  else match (Text.lines source.toList)[s.line - 1]? with
    | none => ""
    | some line =>
      let margin := String.ofList (List.replicate (s.column - 1) ' ')
      "    " ++ String.ofList line ++ "\n    " ++ margin ++ "\x1b[31m^\x1b[0m\n"

namespace Diagnostic

/-- Whether a diagnostic is shown: what is only information has to be asked for. -/
def isShown (all : Bool) (d : Diagnostic) : Bool := all || d.severity ≠ .info

/-- The text of a diagnostic about a file. -/
def shown (pretty all : Bool) (path source : String) (d : Diagnostic) : String :=
  let code := if all then s!" [{d.finding.code}]" else ""
  if pretty then
    s!"\n{d.severity.coloured} [{path}:{d.span.text}]: {d.message}{code}\n" ++ d.span.excerpt source
  else s!"{path}:{d.span.text}: {d.severity.word}: {d.message}{code}\n"

end Diagnostic

/-- The text of all diagnostics about a file that are shown. -/
def Report.shown (report : Report) (pretty all : Bool) (path source : String) : String :=
  String.join ((report.toList.filter (·.isShown all)).map (·.shown pretty all path source))

end Minifier
