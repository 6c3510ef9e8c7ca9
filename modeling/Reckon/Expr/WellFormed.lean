import Reckon.Expr
import Reckon.Text.Numeral
import Reckon.Token

/-!
# Well-formed trees

A tree is well formed if it could have been read from a text: nodes have one of
the four operators and the kind that belongs to it, literals have the kind of numbers,
are written in the canonical way and have the value that their text is read as, and no
node is stray.
-/

namespace Reckon

namespace Kind

def isArithmetic : Kind -> Bool
  | plus | minus | star | slash => true
  | _ => false

end Kind

namespace Expr

inductive WellFormed (bound : DigitBound) : Expr -> Prop where
  | literal {value : Int} {raw : String} :
      Numeral.IsCanonical raw.toList -> Numeral.read bound raw = .ok value ->
      WellFormed bound (.literal .num value raw)
  | join {left right : Expr} {op : Kind} :
      op.isArithmetic = true -> WellFormed bound left -> WellFormed bound right ->
      WellFormed bound (join left op right)

def tokens : Expr -> List Token
  | literal _ _ raw => [⟨.num, raw⟩]
  | binary _ left op right => tokens left ++ ⟨op, op.text⟩ :: tokens right
  | stray => []

@[simp] theorem tokens_join (left : Expr) (op : Kind) (right : Expr) :
    tokens (join left op right) = tokens left ++ ⟨op, op.text⟩ :: tokens right :=
  rfl

end Expr
end Reckon
