/-!
# Kinds of tokens and nodes

One finite type names everything that a token or a node of an expression tree
can be.  Six kinds are written as a single symbol; the four of those that join
two operands also name the node that they build and carry a binding strength.
The main statement is that reading a symbol and writing one are inverse.
-/

namespace Reckon

inductive Kind where
  | num
  | addExpr
  | subExpr
  | mulExpr
  | divExpr
  | openParen
  | closeParen
  | plus
  | minus
  | star
  | slash
  | unknown
deriving DecidableEq

namespace Kind

/-!
# Symbols
-/

def symbol? : Kind -> Option Char
  | openParen => some '('
  | closeParen => some ')'
  | plus => some '+'
  | minus => some '-'
  | star => some '*'
  | slash => some '/'
  | _ => none

def ofChar? : Char -> Option Kind
  | '(' => some openParen
  | ')' => some closeParen
  | '+' => some plus
  | '-' => some minus
  | '*' => some star
  | '/' => some slash
  | _ => none

def ofText? (text : String) : Option Kind :=
  match text.toList with
  | [c] => ofChar? c
  | _ => none

def named (text : String) : Kind :=
  (ofText? text).getD unknown

def text (k : Kind) : String :=
  match k.symbol? with
  | some c => String.singleton c
  | none => "unknown"

def isOperator (k : Kind) : Bool :=
  k.symbol?.isSome

theorem ofChar?_eq_some_iff {c : Char} {k : Kind} :
    ofChar? c = some k <-> k.symbol? = some c := by
  constructor
  · intro h
    unfold ofChar? at h
    split at h <;> simp_all [symbol?] <;> subst h <;> rfl
  · intro h
    cases k <;> simp [symbol?] at h <;> subst h <;> rfl

@[simp] theorem ofText?_singleton (c : Char) : ofText? (String.singleton c) = ofChar? c := by
  simp [ofText?]

/-!
# Operators with two operands
-/

def nodeKind : Kind -> Kind
  | plus => addExpr
  | minus => subExpr
  | star => mulExpr
  | slash => divExpr
  | _ => unknown

/-- The binding strength of everything that is not a binary operator. -/
def tightest : Nat :=
  9223372036854775807

def priority : Kind -> Nat
  | star | slash => 2
  | plus | minus => 1
  | _ => tightest

def isSign : Kind -> Bool
  | plus | minus => true
  | _ => false

/-- The kinds after which a sign belongs to the number that follows it. -/
def opensOperand : Kind -> Bool
  | plus | minus | star | slash | openParen => true
  | _ => false

/-!
# Names
-/

def name : Kind -> String
  | num => "NUM"
  | addExpr => "ADD_EXPR"
  | subExpr => "SUB_EXPR"
  | mulExpr => "MUL_EXPR"
  | divExpr => "DIV_EXPR"
  | openParen => "OPEN_PAREN"
  | closeParen => "CLOSE_PAREN"
  | plus => "PLUS"
  | minus => "MINUS"
  | star => "STAR"
  | slash => "SLASH"
  | unknown => "UNKNOWN"

end Kind
end Reckon
