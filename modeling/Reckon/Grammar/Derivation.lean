import Reckon.Expr
import Reckon.Text.Numeral
import Reckon.Token

/-!
# Derivations

The grammar of arithmetic as a relation between tokens and trees, said without
any parser.  What a single operand looks like is left open: it is a number, or a
number behind a sign.  Chains grow at their right end, so a derivation of a chain
groups to the left by its very shape.
-/

namespace Reckon
namespace Grammar

inductive Level where
  | factor
  | term
  | expr
deriving DecidableEq

/-- Derivability of a tree from tokens at a level, over a notion of operands. -/
inductive Derives (operand : List Token -> Expr -> Prop) : Level -> List Token -> Expr -> Prop where
  | operand {tokens : List Token} {e : Expr} :
      operand tokens e -> Derives operand .factor tokens e
  | parens {opening closing : Token} {tokens : List Token} {e : Expr} :
      opening.kind = .openParen -> closing.kind = .closeParen ->
      Derives operand .expr tokens e ->
      Derives operand .factor (opening :: tokens ++ [closing]) e
  | factor {tokens : List Token} {e : Expr} :
      Derives operand .factor tokens e -> Derives operand .term tokens e
  | multiply {front back : List Token} {op : Token} {left right : Expr} :
      op.kind = .star ∨ op.kind = .slash ->
      Derives operand .term front left -> Derives operand .factor back right ->
      Derives operand .term (front ++ op :: back) (.join left op.kind right)
  | term {tokens : List Token} {e : Expr} :
      Derives operand .term tokens e -> Derives operand .expr tokens e
  | add {front back : List Token} {op : Token} {left right : Expr} :
      op.kind = .plus ∨ op.kind = .minus ->
      Derives operand .expr front left -> Derives operand .term back right ->
      Derives operand .expr (front ++ op :: back) (.join left op.kind right)

/-!
# Operands
-/

inductive Number (bound : DigitBound) : List Token -> Expr -> Prop where
  | mk {t : Token} {value : Int} :
      t.kind = .num -> Numeral.read bound t.text = .ok value ->
      Number bound [t] (.literal .num value t.text)

inductive SignedNumber : List Token -> Expr -> Prop where
  | plain {t : Token} {value : Int} :
      t.kind = .num -> Numeral.value? t.text = some value ->
      SignedNumber [t] (.literal .num value t.text)
  | plus {sign t : Token} {value : Int} :
      sign.kind = .plus -> t.kind = .num -> Numeral.value? t.text = some value ->
      SignedNumber [sign, t] (.literal .num value t.text)
  | minus {sign t : Token} {value : Int} :
      sign.kind = .minus -> t.kind = .num -> Numeral.value? t.text = some value ->
      SignedNumber [sign, t] (.literal .num (-value) ("-" ++ t.text))

inductive NumberKind : List Token -> Expr -> Prop where
  | mk {t : Token} : t.kind = .num -> NumberKind [t] (.literal .num 0 t.text)

/-- An expression begun: some parentheses are opened, and nothing or one whole
expression follows them. -/
def Begun (bound : DigitBound) (tokens : List Token) : Prop :=
  exists opening : List Token, exists inner : List Token, tokens = opening ++ inner ∧
    (forall t : Token, t ∈ opening -> t.kind = .openParen) ∧
      (inner = [] ∨ exists e : Expr, Derives (Number bound) .expr inner e)

/-- Tokens that some continuation completes to an expression, by their kinds. -/
def Viable (tokens : List Token) : Prop :=
  exists more : List Token, exists e : Expr, Derives NumberKind .expr (tokens ++ more) e

theorem Derives.ne_nil {operand : List Token -> Expr -> Prop}
    (hoperand : forall tokens e, operand tokens e -> tokens ≠ [])
    {level : Level} {tokens : List Token} {e : Expr}
    (h : Derives operand level tokens e) : tokens ≠ [] := by
  induction h with
  | operand h => exact hoperand _ _ h
  | parens => simp
  | factor _ ih => exact ih
  | multiply => simp
  | term _ ih => exact ih
  | add => simp

theorem Derives.number_ne_nil {bound : DigitBound} {level : Level} {tokens : List Token}
    {e : Expr} (h : Derives (Number bound) level tokens e) : tokens ≠ [] := by
  refine h.ne_nil fun ts tree hoperand => ?_
  cases hoperand
  simp

end Grammar
end Reckon
