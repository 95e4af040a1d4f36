import TwentyFour.CommandLine
import TwentyFour.Main
import TwentyFour.Proofs.Canonical
import TwentyFour.Proofs.Tree
import TwentyFour.Proofs.Search
import TwentyFour.Proofs.Solvability
import TwentyFour.Proofs.Congruence
import TwentyFour.Proofs.Grammar
import TwentyFour.Proofs.Reading
import TwentyFour.Proofs.RoundTrip
import TwentyFour.Proofs.FirstOccurrence
import TwentyFour.Proofs.PlainSearch
import TwentyFour.Proofs.Answers
import TwentyFour.Proofs.Commands
import TwentyFour.Proofs.Games
import TwentyFour.Proofs.Sessions
import TwentyFour.Proofs.TypedBack
import TwentyFour.Proofs.NoneOrAnswer
import TwentyFour.Expr.Stored
import TwentyFour.Proofs.Stored
import TwentyFour.Proofs.Fronts
import TwentyFour.Proofs.SyntaxErrors
import TwentyFour.Proofs.Cards
import TwentyFour.Proofs.Lines
import TwentyFour.Proofs.Supply
import TwentyFour.Proofs.Scores
import TwentyFour.Proofs.Operations
import TwentyFour.Proofs.ZeroDivisors
import TwentyFour.Proofs.Spans
import TwentyFour.Proofs.Nodes
import TwentyFour.Proofs.FirstSteps
import TwentyFour.Proofs.NonNegative
import TwentyFour.Proofs.Combining
import TwentyFour.Proofs.HintCycles
import TwentyFour.Proofs.BareHands
import TwentyFour.Proofs.Unchanged
import TwentyFour.Proofs.SameCards
import TwentyFour.Proofs.Literals
import TwentyFour.Proofs.Rounds
import TwentyFour.Proofs.Cursors
import TwentyFour.Proofs.Tilings
import TwentyFour.Proofs.TotalOrder
import TwentyFour.Proofs.Guarded
