import BindingPower.Text.Classes
import BindingPower.Text.Quoted
import BindingPower.Number.Shortest
import BindingPower.Fault
import BindingPower.Number.Complex
import BindingPower.Number.Numeral
import BindingPower.Number.Power
import BindingPower.Script
import BindingPower.Parser
import BindingPower.Value.Arithmetic
import BindingPower.Lexer.Basic
import BindingPower.Standard.Tables
import BindingPower.Session
import BindingPower.Program
import BindingPower.Main
import BindingPower.Proofs.Grammar.Free
import BindingPower.Proofs.Standard.EarliestError
import BindingPower.Proofs.Standard.ConditionalGrammar
import BindingPower.Proofs.Standard.Printing
import BindingPower.Proofs.Standard.Evaluation
import BindingPower.Proofs.Session.History
import BindingPower.Proofs.Parser.Course
import BindingPower.Proofs.Parser.Failures
import BindingPower.Proofs.Parser.Termination
import BindingPower.Proofs.Parser.Lookahead
import BindingPower.Proofs.Parser.Fusion
import BindingPower.Proofs.Lexer.Longest
import BindingPower.Proofs.Lexer.Partition
import BindingPower.Proofs.Lexer.Relevance
import BindingPower.Proofs.Lexer.Separation
import BindingPower.Proofs.Grammar.Stock
import BindingPower.Proofs.Parser.Grading
import BindingPower.Proofs.Session.Commands
import BindingPower.Proofs.Session.Pointing
import BindingPower.Proofs.Parser.Quoting
import BindingPower.Proofs.Parser.Tracing
import BindingPower.Proofs.Parser.Boundary
import BindingPower.Proofs.Session.Sequence
import BindingPower.Proofs.Program.TreePrinting
import BindingPower.Proofs.Program.Evaluators
import BindingPower.Proofs.Parser.Brackets
import BindingPower.Proofs.Parser.Roles
import BindingPower.Proofs.Parser.Chaining
import BindingPower.Proofs.Parser.Continuation
import BindingPower.Proofs.Standard.DigitRuns
import BindingPower.Proofs.Lexer.Entries
import BindingPower.Proofs.Standard.Conversion
import BindingPower.Proofs.Value.Layout
import BindingPower.Proofs.Value.Legible
import BindingPower.Proofs.Standard.Unambiguous
