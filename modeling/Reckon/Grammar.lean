import Reckon.Expr.Format
import Reckon.Parser.Evaluation
import Reckon.Token.Lexer

/-!
# The grammar of arithmetic

A literal is a number.  A factor is a literal or an expression in parentheses, a
term is a chain of factors joined by `*` and `/`, and an expression is a chain of
terms joined by `+` and `-`.  A chain is first collected flat and then grouped to
the left.

The expression in parentheses is the only place where the grammar refers to
itself.  The parsers take it as an argument, so that they can serve inside
another system of rules; `Grammar.rules` closes the circle.

How many digits a number may have is not up to the grammar, and a number that has more
ends the run with the refusal of its text.
-/

namespace Reckon
namespace Grammar

variable {ι : Type} {τ : ι -> Type}

def literal (bound : DigitBound) : Parser τ Expr :=
  (Parser.token .num).mapExcept fun t =>
    (Numeral.read bound t.text).map fun value => .literal .num value t.text

def factor (bound : DigitBound) (nested : Parser τ Expr) : Parser τ Expr :=
  .orElse (literal bound) (Parser.between (.token .openParen) (.token .closeParen) nested)

def operator (j k : Kind) : Parser τ Kind :=
  (Parser.orElse (.token j) (.token k)).map Token.kind

def leftChain (operand : Parser τ Expr) (j k : Kind) : Parser τ Expr :=
  .bind operand fun first =>
    (Parser.many ((operator j k).pair operand)).map fun links => Expr.chain first links

def term (bound : DigitBound) (nested : Parser τ Expr) : Parser τ Expr :=
  leftChain (factor bound nested) .star .slash

def expr (bound : DigitBound) (nested : Parser τ Expr) : Parser τ Expr :=
  leftChain (term bound nested) .plus .minus

def program (bound : DigitBound) (nested : Parser τ Expr) : Parser τ Expr :=
  (expr bound nested).before .eof

/-!
# The grammar on its own
-/

inductive Reference where
  | expr
deriving DecidableEq

abbrev ReferenceType : Reference -> Type :=
  fun _ => Expr

def nested : Parser ReferenceType Expr :=
  .rule Reference.expr

def rules (bound : DigitBound) : (i : Reference) -> Parser ReferenceType (ReferenceType i)
  | .expr => expr bound nested

/-- Fuel for some tokens.  Every reference lies behind an opening parenthesis. -/
def fuel (tokens : List Token) : Nat :=
  tokens.length + 1

def reply {a : Type} (bound : DigitBound) (p : Parser ReferenceType a) (tokens : List Token) :
    Outcome (Reply a) :=
  (p.runAfresh (rules bound) (fuel tokens) tokens).outcome

/-!
# Trees of tokens and texts
-/

def parse (bound : DigitBound) (tokens : List Token) : Outcome (Except ParseError Expr) :=
  (reply bound (program bound nested) tokens).map Reply.report

inductive Refusal where
  | lexical (e : LexError)
  | grammatical (e : ParseError)
deriving DecidableEq

def build (bound : DigitBound) (lang : Language) (text : String) :
    Outcome (Except Refusal Expr) :=
  match Lexer.lex lang text with
  | .error e => .done (.error (.lexical e))
  | .ok tokens => (parse bound tokens).map fun parsed => parsed.mapError Refusal.grammatical

end Grammar

def Expr.reread (bound : DigitBound) (lang : Language) (e : Expr) :
    Except Fault (Outcome (Except Grammar.Refusal Expr)) :=
  e.format.map (Grammar.build bound lang)

end Reckon
