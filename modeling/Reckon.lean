import Reckon.Demo
import Reckon.Expr
import Reckon.Expr.Calculation
import Reckon.Expr.Faults
import Reckon.Expr.Format
import Reckon.Expr.Grouping
import Reckon.Expr.Value
import Reckon.Expr.Visitor
import Reckon.Expr.WellFormed
import Reckon.Grammar
import Reckon.Grammar.Derivation
import Reckon.Grammar.Nesting
import Reckon.Kind
import Reckon.Language
import Reckon.Main
import Reckon.Parser
import Reckon.Parser.Action
import Reckon.Parser.Calls
import Reckon.Parser.Composed
import Reckon.Parser.Evaluation
import Reckon.Parser.Fuel
import Reckon.Parser.Meaning
import Reckon.Parser.Replacement
import Reckon.Parser.Reply
import Reckon.Parser.Tracing
import Reckon.Proofs.Building
import Reckon.Proofs.Caching
import Reckon.Proofs.Calculation
import Reckon.Proofs.Calls
import Reckon.Proofs.ChoiceLaws
import Reckon.Proofs.Congruence
import Reckon.Proofs.Consumption
import Reckon.Proofs.Decimals
import Reckon.Proofs.Enclosing
import Reckon.Proofs.Enlarging
import Reckon.Proofs.ErrorPosition
import Reckon.Proofs.FirstFault
import Reckon.Proofs.Folding
import Reckon.Proofs.Invariant
import Reckon.Proofs.Inversion
import Reckon.Proofs.Nesting
import Reckon.Proofs.Numerals
import Reckon.Proofs.Parentheses
import Reckon.Proofs.Positions
import Reckon.Proofs.Printing
import Reckon.Proofs.Products
import Reckon.Proofs.Progress
import Reckon.Proofs.Raising
import Reckon.Proofs.Reading
import Reckon.Proofs.Recognition
import Reckon.Proofs.Recursion
import Reckon.Proofs.Refusals
import Reckon.Proofs.Regrouping
import Reckon.Proofs.Repetition
import Reckon.Proofs.Replies
import Reckon.Proofs.Rereading
import Reckon.Proofs.Reuse
import Reckon.Proofs.Scanning
import Reckon.Proofs.Segmentation
import Reckon.Proofs.SignedTexts
import Reckon.Proofs.Spacing
import Reckon.Proofs.Spelling
import Reckon.Proofs.Suffixes
import Reckon.Proofs.Totality
import Reckon.Proofs.Tracing
import Reckon.Proofs.UnarySigns
import Reckon.Proofs.Unchanged
import Reckon.Proofs.Unreadable
import Reckon.Text.Blank
import Reckon.Text.Digit
import Reckon.Text.DigitBound
import Reckon.Text.Numeral
import Reckon.Text.Printable
import Reckon.Text.Quoted
import Reckon.Token
import Reckon.Token.Automaton
import Reckon.Token.Folding
import Reckon.Token.Lexer
import Reckon.Token.Segmentation
import Reckon.Token.Session
import Reckon.Token.Spelling
