import Reckon.Kind

/-!
# Expression trees

A tree has literals and binary nodes.  A literal keeps the text that its value was read
from, and a binary node has both a kind of its own and the operator that it was built with;
nothing forces either pair to agree, nor a literal to have the kind of numbers.  A stray
node is neither of the two, and no traversal can visit it.
-/

namespace Reckon

inductive Expr where
  | literal (kind : Kind) (value : Int) (raw : String)
  | binary (kind : Kind) (left : Expr) (op : Kind) (right : Expr)
  | stray
deriving DecidableEq

namespace Expr

def join (left : Expr) (op : Kind) (right : Expr) : Expr :=
  binary op.nodeKind left op right

/-- A chain of operators and operands behind a first operand, grouped to the left. -/
def chain (first : Expr) (links : List (Kind × Expr)) : Expr :=
  links.foldl (fun tree link => join tree link.1 link.2) first

@[simp] theorem chain_nil (first : Expr) : chain first [] = first :=
  rfl

@[simp] theorem chain_cons (first : Expr) (link : Kind × Expr) (links : List (Kind × Expr)) :
    chain first (link :: links) = chain (join first link.1 link.2) links :=
  rfl

@[simp] theorem chain_append (first : Expr) (links more : List (Kind × Expr)) :
    chain first (links ++ more) = chain (chain first links) more := by
  simp [chain, List.foldl_append]

@[simp] theorem chain_concat (first : Expr) (links : List (Kind × Expr)) (link : Kind × Expr) :
    chain first (links ++ [link]) = join (chain first links) link.1 link.2 := by
  rw [chain_append, chain_cons, chain_nil]

def priority? : Expr -> Option Nat
  | binary _ _ op _ => some op.priority
  | _ => none

end Expr
end Reckon
