import Minifier.DeclarationOrder
import Minifier.Parse.Grammar
import Minifier.Scope.Rename
import Minifier.SharedLiteral
import Minifier.Simplify.Pass
import Minifier.Token.Scan

/-!
# Minifying a source

From text to text: the source is read, its names are bound to scopes, the program is made smaller,
the names are chosen, and the program is written. What is noticed on the way is reported in order.
-/

set_option autoImplicit false

namespace Minifier

namespace BoundProgram

/-- The first half: the program in as few statements as the settings allow, with all mentions
counted. -/
def shrink (settings : Settings) (p : BoundProgram) : BoundProgram :=
  let p := p.recount
  if settings.minifyCode then
    ((p.orderDeclarations settings).value.simplify settings).value.recount
  else p

/-- Reports the declared names that nothing mentions. -/
def analyze (p : BoundProgram) : Except PhaseError BoundProgram := do
  let (tree, reports) ← p.tree.analyze
  return { p with tree, report := p.report ++ reports }

/-- Takes a step on the scopes. -/
def onTree (f : ScopeTree → Except PhaseError ScopeTree) (p : BoundProgram) :
    Except PhaseError BoundProgram := do
  return { p with tree := ← f p.tree }

/-- The second half: shared literals and short names. It can be done once. -/
def chooseNames (settings : Settings) (p : BoundProgram) : Except PhaseError BoundProgram := do
  let p ← p.analyze
  let p ← p.onTree (·.reserve settings)
  let p := (← p.shareLiterals settings).value
  let p ← p.onTree (·.crunch settings)
  p.onTree (·.nameGenerated)

/-- The text of the program under its chosen names. -/
def text (settings : Settings) (p : BoundProgram) : String :=
  String.ofList (p.program.text (settings.styleWith p.tree.nameOf))

end BoundProgram

/-- The names of the transformations of a program, in the order in which they are made. -/
def passNames : List String := ["reorder-scope", "analyze-nodes", "literal-shortcut"]

/-- Why there is no output. -/
inductive Fault where
  | scan (error : LexicalError)
  | parse (error : SyntaxFault)
  | phase (error : PhaseError)

/-- What becomes of a source: its output or the reason that there is none, and the report. -/
structure Outcome where
  code : Except Fault String
  report : Report

/-- The message of a syntax error, as a diagnostic. -/
def SyntaxFault.diagnostic (e : SyntaxFault) : Diagnostic := .of .syntaxError e.span e.text

/-- Parses tokens, and reports what it gives up with. -/
def Program.parseReported (tokens : List Token) : Except SyntaxFault Program × Report :=
  match Program.parse tokens with
  | .error e => (.error e, #[e.diagnostic])
  | .ok p => (.ok p, #[])

/-- Minifies a parsed program. -/
def Program.minify (settings : Settings) (p : Program) : Outcome :=
  let small := (p.bind settings).shrink settings
  match small.chooseNames settings with
  | .ok named => ⟨.ok (named.text settings), named.report⟩
  | .error e => ⟨.error (.phase e), small.report⟩

/-- Minifies a source. -/
def minify (settings : Settings) (source : String) : Outcome :=
  match Token.scan source with
  | .error e => ⟨.error (.scan e), #[]⟩
  | .ok tokens =>
    match Program.parseReported tokens with
    | (.error e, report) => ⟨.error (.parse e), report⟩
    | (.ok p, _) => p.minify settings

/-- Minifies sources in turn, each with the reports of those before it. -/
def minifyAll (settings : Settings) (sources : List String) : List Outcome :=
  (sources.foldl (fun (outcomes, report) source =>
    let outcome := minify settings source
    let report := report ++ outcome.report
    (outcomes ++ [{ outcome with report }], report)) ([], #[])).1

end Minifier
