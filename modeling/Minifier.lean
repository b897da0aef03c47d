import Minifier.CommandLine.Memory
import Minifier.Main
import Minifier.Proofs.Literal.Innermost
import Minifier.Proofs.Literal.Undone
import Minifier.Proofs.EvalNames
import Minifier.Proofs.SwitchedOff
import Minifier.Proofs.Scope.Reorder
import Minifier.Proofs.Scope.NameOrder
import Minifier.Proofs.Number.Literal
import Minifier.Proofs.Text.Quoted
import Minifier.Proofs.Declared
import Minifier.Proofs.Directives
import Minifier.Proofs.Meaning.Switch
import Minifier.Proofs.Order.Changed
import Minifier.Proofs.Meaning.Returns
import Minifier.Proofs.Scope.Undeclared
import Minifier.Proofs.Token.Lines
import Minifier.Proofs.Parse.Termination
import Minifier.Proofs.Simplify.Negation
import Minifier.Proofs.CommandLine.OutputPath
