import Reckon.Expr.Visitor

/-!
# The value of a tree

Integers are unbounded, and division drops the fractional part of the quotient,
so it rounds toward zero.  The operator of a node decides what is computed; its
kind and the texts of literals do not matter.
-/

namespace Reckon
namespace Expr

/-- The quotient of the magnitudes, with the sign that both integers give it. -/
def quotient (x y : Int) : Int :=
  let magnitude : Int := x.natAbs / y.natAbs
  if x < 0 <-> y < 0 then magnitude else -magnitude

def divide (bound : DigitBound) (x y : Int) : Except Fault Int :=
  if y = 0 then .error (.ofDivision bound x) else .ok (quotient x y)

def apply (bound : DigitBound) (op : Kind) (x y : Int) : Except Fault Int :=
  match op with
  | .plus => .ok (x + y)
  | .minus => .ok (x - y)
  | .star => .ok (x * y)
  | .slash => divide bound x y
  | _ => .error (.unexpectedOperator op)

def evaluator (bound : DigitBound) : Visitor (Except Fault) Int where
  literal value _ := .ok value
  binary _ x op _ y := apply bound op x y

def eval (bound : DigitBound) (e : Expr) : Except Fault Int :=
  e.visit (evaluator bound)

variable {bound : DigitBound}

@[simp] theorem eval_literal (kind : Kind) (value : Int) (raw : String) :
    (literal kind value raw).eval bound = .ok value :=
  rfl

@[simp] theorem eval_binary (kind : Kind) (left : Expr) (op : Kind) (right : Expr) :
    (binary kind left op right).eval bound =
      (left.eval bound).bind fun x => (right.eval bound).bind fun y => apply bound op x y :=
  rfl

@[simp] theorem eval_stray : stray.eval bound = .error .strayNode :=
  rfl

end Expr
end Reckon
