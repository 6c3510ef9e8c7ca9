import Mathlib.Algebra.Order.Group.Unbundled.Int
import Reckon.Expr.Value
import Reckon.Expr.WellFormed

/-!
# Values and faults of trees

What a tree stands for, said without any order of evaluation.  A value is computed from
the values of the operands.  A node is faulty for itself: it is stray, it has an operator
that does not join integers, or it divides by an operand of value zero.  Which of several
faulty nodes is met first is said by listing the nodes of the tree, operands before the
node that they belong to.

An error has a class and a message, of which only matters what it has to name.
-/

namespace Reckon
namespace Expr

/-!
# Values
-/

/-- A quotient and a remainder that is smaller than the divisor and, unless it is zero, has
the sign of the dividend. -/
def IsQuotient (x y q : Int) : Prop :=
  exists r : Int, x = q * y + r ∧ |r| < |y| ∧ (r = 0 ∨ r.sign = x.sign)

inductive Computes : Kind -> Int -> Int -> Int -> Prop where
  | plus (x y : Int) : Computes .plus x y (x + y)
  | minus (x y : Int) : Computes .minus x y (x - y)
  | star (x y : Int) : Computes .star x y (x * y)
  | slash {x y q : Int} : y ≠ 0 -> IsQuotient x y q -> Computes .slash x y q

inductive Evaluates : Expr -> Int -> Prop where
  | literal (kind : Kind) (value : Int) (raw : String) : Evaluates (.literal kind value raw) value
  | binary {kind op : Kind} {left right : Expr} {x y z : Int} :
      Evaluates left x -> Evaluates right y -> Computes op x y z ->
      Evaluates (.binary kind left op right) z

/-!
# Faults
-/

/-- Nodes at which evaluation cannot go on, whatever is the matter with their operands. -/
inductive Faulty : Expr -> Prop where
  | stray : Faulty .stray
  | operator {kind op : Kind} {left right : Expr} :
      op.isArithmetic = false -> Faulty (.binary kind left op right)
  | division {kind : Kind} {left right : Expr} :
      Evaluates right 0 -> Faulty (.binary kind left .slash right)

/-- The fault that a faulty node stands for.  A division by zero is reported with its
dividend, and only a dividend that can be written gets that far. -/
inductive Raises (bound : DigitBound) : Expr -> Fault -> Prop where
  | stray : Raises bound .stray .strayNode
  | operator {kind op : Kind} {left right : Expr} :
      op.isArithmetic = false ->
      Raises bound (.binary kind left op right) (.unexpectedOperator op)
  | division {kind : Kind} {left right : Expr} {x : Int} {text : String} :
      Evaluates left x -> Evaluates right 0 -> Numeral.write bound x = .ok text ->
      Raises bound (.binary kind left .slash right) (.divisionByZero x)
  | unwritable {kind : Kind} {left right : Expr} {x : Int} {e : Unwritable} :
      Evaluates left x -> Evaluates right 0 -> Numeral.write bound x = .error e ->
      Raises bound (.binary kind left .slash right) (.unwritable e)

/-!
# Reports
-/

def Names (message part : String) : Prop :=
  exists front : String, exists back : String, message = front ++ part ++ back

/-- The class and the message of the error that an operator between two integers calls for:
the operator is named if it joins nothing, the dividend if it is divided by zero. -/
inductive Blames (bound : DigitBound) : Kind -> Int -> Int -> ErrorClass -> String -> Prop where
  | operator {op : Kind} {x y : Int} {message : String} :
      op.isArithmetic = false -> Names message op.text -> Blames bound op x y .value message
  | division {x : Int} {text message : String} :
      Numeral.write bound x = .ok text -> Names message text ->
      Blames bound .slash x 0 .zeroDivision message
  | unwritable {x : Int} {e : Unwritable} :
      Numeral.write bound x = .error e -> Blames bound .slash x 0 .value e.message

inductive Reported (bound : DigitBound) : Expr -> ErrorClass -> String -> Prop where
  | stray {message : String} : Names message "Node" -> Reported bound .stray .type message
  | binary {kind op : Kind} {left right : Expr} {x y : Int} {category : ErrorClass}
      {message : String} :
      Evaluates left x -> Evaluates right y -> Blames bound op x y category message ->
      Reported bound (.binary kind left op right) category message

/-!
# The order of nodes
-/

def postorder : Expr -> List Expr
  | binary kind left op right => postorder left ++ postorder right ++ [binary kind left op right]
  | e => [e]

def FirstFaulty (nodes : List Expr) (node : Expr) : Prop :=
  exists front : List Expr, exists back : List Expr, nodes = front ++ node :: back ∧
    (forall n : Expr, n ∈ front -> ¬ Faulty n) ∧ Faulty node

/-!
# Labels
-/

def unlabelled : Expr -> Expr
  | literal _ value _ => literal .unknown value ""
  | binary _ left op right => binary .unknown (unlabelled left) op (unlabelled right)
  | stray => stray

end Expr
end Reckon
