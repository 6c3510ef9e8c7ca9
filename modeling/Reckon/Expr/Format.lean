import Reckon.Expr.Visitor

/-!
# The text of a tree

Printing puts single spaces around operators and parentheses only where leaving
them out would change what is computed.  A left operand is wrapped when it binds
weaker than its operator.  A right operand is wrapped when it binds weaker, when
it binds equally and regrouping is not exact, and when its text starts with a
minus sign, which would otherwise be read as joining what stands before it.
-/

namespace Reckon
namespace Expr

/-- Whether a tree prints as a chain of multiplications at its top level.  Right
operands that are no such chain are wrapped, so the left spine decides. -/
def isProduct : Expr -> Bool
  | binary _ left op _ =>
      if op.priority = 2 then decide (op = .star) && isProduct left else true
  | _ => true

def wrapsLeft (op : Kind) : Expr -> Bool
  | binary _ _ inner _ => decide (inner.priority < op.priority)
  | _ => false

/-- Whether a right operand of an operator needs parentheses, its sign apart.
Between equal priorities only sums under `+` and products under `*` regroup
without a change of value. -/
def wrapsRight (op : Kind) (right : Expr) : Bool :=
  match right with
  | binary _ _ inner _ =>
      if inner.priority ≠ op.priority then decide (inner.priority < op.priority)
      else if op = .plus then false
      else if op = .star then !right.isProduct
      else true
  | _ => false

def parenthesized (wrapped : Bool) (text : String) : String :=
  if wrapped then "(" ++ text ++ ")" else text

def startsWithMinus (text : String) : Bool :=
  text.toList.head? == some '-'

def formatBinary (left : Expr) (lhs : String) (op : Kind) (right : Expr) (rhs : String) :
    String :=
  parenthesized (wrapsLeft op left) lhs ++ " " ++ op.text ++ " " ++
    parenthesized (wrapsRight op right || startsWithMinus rhs) rhs

def formatter : Visitor (Except Fault) String where
  literal _ raw := .ok raw
  binary left lhs op right rhs := .ok (formatBinary left lhs op right rhs)

def format (e : Expr) : Except Fault String :=
  e.visit formatter

@[simp] theorem format_literal (kind : Kind) (value : Int) (raw : String) :
    format (literal kind value raw) = .ok raw :=
  rfl

@[simp] theorem format_binary (kind : Kind) (left : Expr) (op : Kind) (right : Expr) :
    format (binary kind left op right) =
      (format left).bind fun lhs => (format right).bind fun rhs =>
        .ok (formatBinary left lhs op right rhs) :=
  rfl

@[simp] theorem format_stray : format stray = .error .strayNode :=
  rfl

end Expr
end Reckon
