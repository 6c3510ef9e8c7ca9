import Reckon.Expr.Format

/-!
# Groupings that a text does not show

Behind an operator, a chain of the same strength that is printed without parentheses
cannot be told from a continuation of what stands in front of the operator.  The
relations here say which right operands these are, in terms of the operators alone.
-/

namespace Reckon
namespace Expr

inductive PartOf : Expr -> Expr -> Prop where
  | self (e : Expr) : PartOf e e
  | left {e left right : Expr} {kind op : Kind} :
      PartOf e left -> PartOf e (binary kind left op right)
  | right {e left right : Expr} {kind op : Kind} :
      PartOf e right -> PartOf e (binary kind left op right)

/-- From left operand to left operand, multiplications lead to a division. -/
inductive ReachesDivision : Expr -> Prop where
  | division {kind : Kind} {left right : Expr} : ReachesDivision (binary kind left .slash right)
  | through {kind : Kind} {left right : Expr} :
      ReachesDivision left -> ReachesDivision (binary kind left .star right)

def PrintsUnsigned (e : Expr) : Prop :=
  exists text : String, e.format = .ok text ∧ startsWithMinus text = false

/-- Right operands whose own grouping is lost when they are printed behind an operator:
sums and differences behind `+`, and products without a division behind `*`. -/
inductive Dissolves : Kind -> Expr -> Prop where
  | sum {kind op : Kind} {left right : Expr} :
      op = .plus ∨ op = .minus -> PrintsUnsigned (binary kind left op right) ->
      Dissolves .plus (binary kind left op right)
  | product {kind : Kind} {left right : Expr} :
      ¬ ReachesDivision (binary kind left .star right) ->
      PrintsUnsigned (binary kind left .star right) ->
      Dissolves .star (binary kind left .star right)

def Dissolving (e : Expr) : Prop :=
  exists kind : Kind, exists left : Expr, exists op : Kind, exists right : Expr,
    PartOf (binary kind left op right) e ∧ Dissolves op right

theorem dissolving_binary {kind op : Kind} {left right : Expr} :
    Dissolving (binary kind left op right) <->
      Dissolves op right ∨ Dissolving left ∨ Dissolving right := by
  constructor
  · rintro ⟨kind', left', op', right', hpart, h⟩
    cases hpart with
    | self => exact Or.inl h
    | left hpart => exact Or.inr (Or.inl ⟨kind', left', op', right', hpart, h⟩)
    | right hpart => exact Or.inr (Or.inr ⟨kind', left', op', right', hpart, h⟩)
  · rintro (h | ⟨kind', left', op', right', hpart, h⟩ | ⟨kind', left', op', right', hpart, h⟩)
    · exact ⟨kind, left, op, right, PartOf.self _, h⟩
    · exact ⟨kind', left', op', right', PartOf.left hpart, h⟩
    · exact ⟨kind', left', op', right', PartOf.right hpart, h⟩

@[simp] theorem not_dissolving_literal (kind : Kind) (value : Int) (raw : String) :
    ¬ Dissolving (literal kind value raw) := by
  rintro ⟨kind, left, op, right, hpart, _⟩
  cases hpart

end Expr
end Reckon
