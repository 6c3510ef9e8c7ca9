import Reckon.Expr.Value

/-!
# Calculations from left to right

A calculation keeps one integer.  It takes operators and operands one after the other,
computes the operand, and lets the operator put the integer and the operand together.
The first fault ends it, and nothing behind it is looked at.

In a tree the same operators and operands lie along the way that leads from the root to
the left operand again and again.
-/

namespace Reckon
namespace Expr

def carry (bound : DigitBound) (kept : Int) (op : Kind) (y : Int) : Except Fault Int :=
  match op with
  | .plus => .ok (kept + y)
  | .minus => .ok (kept - y)
  | .star => .ok (kept * y)
  | .slash => if y = 0 then .error (.ofDivision bound kept) else .ok (kept.tdiv y)
  | _ => .error (.unexpectedOperator op)

def calculate (bound : DigitBound) (kept : Int) : List (Kind × Expr) -> Except Fault Int
  | [] => .ok kept
  | (op, operand) :: rest =>
      match operand.eval bound with
      | .error fault => .error fault
      | .ok y =>
          match carry bound kept op y with
          | .error fault => .error fault
          | .ok z => calculate bound z rest

/-!
# Left spines
-/

structure Joint where
  kind : Kind
  op : Kind
  right : Expr

def Joint.ofLink (link : Kind × Expr) : Joint where
  kind := link.1.nodeKind
  op := link.1
  right := link.2

/-- The tree that is reached by going to the left operand a number of times, and the
joints on the way, the first one in front. -/
def descend : Nat -> Expr -> Option (Expr × List Joint)
  | 0, e => some (e, [])
  | steps + 1, binary kind left op right =>
      (descend steps left).map fun reached => (reached.1, ⟨kind, op, right⟩ :: reached.2)
  | _ + 1, _ => none

end Expr
end Reckon
