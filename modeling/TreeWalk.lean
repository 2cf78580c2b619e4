import TreeWalk.Span
import TreeWalk.Double.Text
import TreeWalk.Syntax.Prefix
import TreeWalk.Token.Scan
import TreeWalk.Grammar.Descent
import TreeWalk.Grammar.Program
import TreeWalk.Grammar.Rule
import TreeWalk.Evaluation
import TreeWalk.Main
import TreeWalk.Proofs.Language.Acceptance
import TreeWalk.Proofs.Evaluation.StaticScoping
import TreeWalk.Proofs.Session.ErrorSpans
import TreeWalk.Proofs.Session.Pieces
import TreeWalk.Proofs.Evaluation.Declarations
import TreeWalk.Proofs.Session.Discipline
import TreeWalk.Proofs.Grammar.ErrorOrder
import TreeWalk.Proofs.Grammar.Progress
import TreeWalk.Proofs.Session.Layout
import TreeWalk.Proofs.Evaluation.Relevance
import TreeWalk.Proofs.Evaluation.Renaming
import TreeWalk.Proofs.Token.Rescan
import TreeWalk.Proofs.Console.Agreement
import TreeWalk.Proofs.Token.Lines
import TreeWalk.Proofs.Session.ErrorLines
import TreeWalk.Proofs.Grammar.Ambiguity
import TreeWalk.Proofs.Text.Lines
import TreeWalk.Proofs.Session.Exchanges
import TreeWalk.Proofs.Console.Dialogue
import TreeWalk.Proofs.Grammar.Lookahead
import TreeWalk.Proofs.Grammar.Recovery
import TreeWalk.Proofs.Session.Modes
import TreeWalk.Proofs.Session.Coverage
import TreeWalk.Proofs.Evaluation.Shadowing
import TreeWalk.Proofs.Evaluation.Independence
import TreeWalk.Proofs.Evaluation.Transparency
import TreeWalk.Proofs.Evaluation.Bindings
import TreeWalk.Proofs.Session.Numbers
import TreeWalk.Proofs.Grammar.PrefixForms
