import Reckon.Expr
import Reckon.Text.Numeral

/-!
# Visiting a tree

A traversal says what a literal gives and what a binary node gives once both of
its operands have been visited, the left one first.  Visiting takes place in any
monad that can stop at a fault; a stray node is one.
-/

namespace Reckon

inductive ErrorClass where
  | type
  | value
  | zeroDivision
deriving DecidableEq

/-- What can stop a traversal.  A dividend that is too long for the report of a division by
zero is a fault of its own. -/
inductive Fault where
  | strayNode
  | unexpectedOperator (op : Kind)
  | divisionByZero (dividend : Int)
  | unwritable (e : Unwritable)
deriving DecidableEq

namespace Fault

def errorClass : Fault -> ErrorClass
  | strayNode => .type
  | unexpectedOperator _ => .value
  | divisionByZero _ => .zeroDivision
  | unwritable _ => .value

def message : Fault -> String
  | strayNode => "cannot visit Node"
  | unexpectedOperator op => "unexpected operator: " ++ op.text
  | divisionByZero dividend => "division by zero in `" ++ toString dividend ++ " / 0`"
  | unwritable e => e.message

def ofDivision (bound : DigitBound) (dividend : Int) : Fault :=
  match Numeral.write bound dividend with
  | .ok _ => divisionByZero dividend
  | .error e => unwritable e

end Fault

/-- A traversal.  For a binary node it is told the operand nodes as well as what
visiting them gave. -/
structure Visitor (m : Type -> Type) (result : Type) where
  literal : Int -> String -> m result
  binary : Expr -> result -> Kind -> Expr -> result -> m result

namespace Expr

def visit {m : Type -> Type} {result : Type} [Monad m] [MonadExceptOf Fault m]
    (v : Visitor m result) : Expr -> m result
  | literal _ value raw => v.literal value raw
  | binary _ left op right => do
      let x <- visit v left
      let y <- visit v right
      v.binary left x op right y
  | stray => throw Fault.strayNode

end Expr
end Reckon
