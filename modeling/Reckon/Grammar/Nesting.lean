import Reckon.Expr.WellFormed

/-!
# Parentheses and what is due

Whether some tokens make an expression can be told from their kinds, reading them once
from left to right.  All that has to be known between two tokens is whether an operand
or an operator is due, and how many parentheses are open.
-/

namespace Reckon

namespace Token

inductive Balanced : List Token -> Prop where
  | nil : Balanced []
  | plain {t : Token} {rest : List Token} :
      t.kind ≠ .openParen -> t.kind ≠ .closeParen -> Balanced rest -> Balanced (t :: rest)
  | nested {opening closing : Token} {inner rest : List Token} :
      opening.kind = .openParen -> closing.kind = .closeParen ->
      Balanced inner -> Balanced rest -> Balanced (opening :: inner ++ closing :: rest)

/-- A pair of matching parentheses, by the tokens in front of it, inside it and behind it. -/
inductive HasPair (front inner back : List Token) : List Token -> Prop where
  | mk {opening closing : Token} :
      opening.kind = .openParen -> closing.kind = .closeParen -> Balanced inner ->
      HasPair front inner back (front ++ (opening :: inner ++ closing :: back))

/-- The tokens that stand outside all parentheses, where `depth` parentheses are open in
front of the first one.  Parentheses themselves are never among them. -/
def outside : Nat -> List Token -> List Token
  | _, [] => []
  | depth, t :: rest =>
      if t.kind = .openParen then outside (depth + 1) rest
      else if t.kind = .closeParen then outside (depth - 1) rest
      else if depth = 0 then t :: outside depth rest
      else outside depth rest

end Token

namespace Grammar

inductive Due where
  | operand
  | operator
deriving DecidableEq

structure Place where
  due : Due
  depth : Nat
deriving DecidableEq

inductive Leads : Place -> Kind -> Place -> Prop where
  | number (depth : Nat) : Leads ⟨.operand, depth⟩ .num ⟨.operator, depth⟩
  | opening (depth : Nat) : Leads ⟨.operand, depth⟩ .openParen ⟨.operand, depth + 1⟩
  | closing (depth : Nat) : Leads ⟨.operator, depth + 1⟩ .closeParen ⟨.operator, depth⟩
  | operator (depth : Nat) {op : Kind} :
      op.isArithmetic = true -> Leads ⟨.operator, depth⟩ op ⟨.operand, depth⟩

inductive Walk : Place -> List Token -> Place -> Prop where
  | nil (p : Place) : Walk p [] p
  | cons {p q r : Place} {t : Token} {rest : List Token} :
      Leads p t.kind q -> Walk q rest r -> Walk p (t :: rest) r

end Grammar
end Reckon
