import Reckon.Expr.Format
import Reckon.Expr.Value

/-!
# How the text of a tree is grouped

A right operand that is printed without parentheses although it binds as strongly
as its operator is read as part of the chain that it stands in.  `graft` puts a
tree and an operator in front of such a chain, and `regrouped` does so at every
place where the printer leaves parentheses out.

The main statement is that a regrouped tree prints like the tree itself and has
the same value or fault.  It rests on a single rotation, from `l + (m - r)` to
`(l + m) - r` and the like, which is exact wherever the printer allows it.
-/

namespace Reckon
namespace Expr

/-!
# Right operands
-/

def startsNegative : Expr -> Bool
  | literal _ _ raw => startsWithMinus raw
  | binary _ left op _ => !wrapsLeft op left && startsNegative left
  | stray => false

def wraps (op : Kind) (right : Expr) : Bool :=
  wrapsRight op right || right.startsNegative

@[simp] theorem startsWithMinus_parenthesized (wrapped : Bool) (text : String) :
    startsWithMinus (parenthesized wrapped text) = (!wrapped && startsWithMinus text) := by
  cases wrapped with
  | false => rfl
  | true => simp [parenthesized, startsWithMinus]

theorem startsWithMinus_formatBinary (left : Expr) (lhs : String) (op : Kind) (right : Expr)
    (rhs : String) :
    startsWithMinus (formatBinary left lhs op right rhs) =
      (!wrapsLeft op left && startsWithMinus lhs) := by
  rw [<- startsWithMinus_parenthesized]
  cases hfront : (parenthesized (wrapsLeft op left) lhs).toList <;>
    simp [startsWithMinus, formatBinary, hfront]

theorem startsWithMinus_format {e : Expr} {text : String} (h : e.format = .ok text) :
    startsWithMinus text = e.startsNegative := by
  induction e generalizing text with
  | literal kind value raw =>
      rw [format_literal, Except.ok.injEq] at h
      rw [<- h]
      rfl
  | binary kind left op right ihleft _ =>
      rw [format_binary] at h
      cases hleft : left.format with
      | error fault => simp [hleft, Except.bind] at h
      | ok lhs =>
          cases hright : right.format with
          | error fault => simp [hleft, hright, Except.bind] at h
          | ok rhs =>
              rw [hleft, hright] at h
              obtain rfl := Except.ok.inj h
              rw [startsWithMinus_formatBinary, ihleft hleft]
              rfl
  | stray => cases h

theorem format_of_operands {kind op : Kind} {left right : Expr} {lhs rhs : String}
    (hleft : left.format = .ok lhs) (hright : right.format = .ok rhs) :
    (binary kind left op right).format =
      .ok (parenthesized (wrapsLeft op left) lhs ++ " " ++ op.text ++ " " ++
        parenthesized (wraps op right) rhs) := by
  rw [format_binary, hleft, hright]
  simp only [Except.bind, formatBinary, startsWithMinus_format hright]
  rfl

/-!
# Trees that look the same from outside
-/

/-- Trees that print alike, have the same value or fault, and are treated alike by
the printer when they are operands. -/
structure Alike (e e' : Expr) : Prop where
  priority : e.priority? = e'.priority?
  product : e.isProduct = e'.isProduct
  negative : e.startsNegative = e'.startsNegative
  format : e.format = e'.format
  eval : forall bound : DigitBound, e.eval bound = e'.eval bound

theorem Alike.refl (e : Expr) : Alike e e :=
  ⟨rfl, rfl, rfl, rfl, fun _ => rfl⟩

theorem Alike.trans {e e' e'' : Expr} (h : Alike e e') (h' : Alike e' e'') : Alike e e'' where
  priority := h.priority.trans h'.priority
  product := h.product.trans h'.product
  negative := h.negative.trans h'.negative
  format := h.format.trans h'.format
  eval bound := (h.eval bound).trans (h'.eval bound)

theorem wrapsLeft_eq (op : Kind) (e : Expr) :
    wrapsLeft op e = e.priority?.any fun p => decide (p < op.priority) := by
  cases e <;> rfl

theorem Alike.wrapsLeft_eq {e e' : Expr} (h : Alike e e') (op : Kind) :
    wrapsLeft op e = wrapsLeft op e' := by
  rw [Expr.wrapsLeft_eq, Expr.wrapsLeft_eq, h.priority]

theorem Alike.wrapsRight_eq {e e' : Expr} (h : Alike e e') (op : Kind) :
    wrapsRight op e = wrapsRight op e' := by
  have hpriority := h.priority
  have hproduct := h.product
  cases e <;> cases e' <;> simp_all [wrapsRight, priority?]

theorem Alike.wraps_eq {e e' : Expr} (h : Alike e e') (op : Kind) :
    wraps op e = wraps op e' := by
  rw [wraps, wraps, h.wrapsRight_eq, h.negative]

theorem Alike.binary {left left' right right' : Expr} (hleft : Alike left left')
    (hright : Alike right right') (kind kind' op : Kind) :
    Alike (binary kind left op right) (binary kind' left' op right') where
  priority := rfl
  product := by rw [isProduct, isProduct, hleft.product]
  negative := by rw [startsNegative, startsNegative, hleft.wrapsLeft_eq, hleft.negative]
  format := by
    rw [format_binary, format_binary, hleft.format, hright.format]
    cases hl : left'.format with
    | error fault => rfl
    | ok lhs =>
        cases hr : right'.format with
        | error fault => rfl
        | ok rhs => simp only [Except.bind, formatBinary, hleft.wrapsLeft_eq, hright.wrapsRight_eq]
  eval bound := by rw [eval_binary, eval_binary, hleft.eval, hright.eval]

/-!
# One rotation
-/

theorem wrapsRight_eq_false_iff {op : Kind} {right : Expr} :
    wrapsRight op right = false <->
      wrapsLeft op right = false ∧
        (right.priority? = some op.priority ->
          op = .plus ∨ op = .star ∧ right.isProduct = true) := by
  cases right with
  | literal => simp [wrapsRight, wrapsLeft, priority?]
  | stray => simp [wrapsRight, wrapsLeft, priority?]
  | binary kind left o right =>
      by_cases hsame : o.priority = op.priority
      · by_cases hplus : op = .plus
        · simp [wrapsRight, wrapsLeft, hsame, hplus]
        · simp [wrapsRight, wrapsLeft, priority?, hsame, hplus]
      · simp [wrapsRight, wrapsLeft, priority?, hsame]

/-- Operators of equal strength of which the first may be computed first. -/
def Regroups (op o : Kind) : Prop :=
  op = .plus ∧ (o = .plus ∨ o = .minus) ∨ op = .star ∧ o = .star

theorem regroups_of_wrapsRight {kind op o : Kind} {left right : Expr}
    (hsame : o.priority = op.priority)
    (h : wrapsRight op (binary kind left o right) = false) : Regroups op o := by
  rcases (wrapsRight_eq_false_iff.mp h).right (congrArg some hsame) with rfl | ⟨rfl, hproduct⟩
  · refine Or.inl ⟨rfl, ?_⟩
    cases o <;> simp_all [Kind.priority, Kind.tightest]
  · refine Or.inr ⟨rfl, ?_⟩
    cases o <;> simp_all [Kind.priority, Kind.tightest, isProduct]

theorem Regroups.apply_eq {op o : Kind} (h : Regroups op o) (bound : DigitBound) (x y : Int) :
    exists w : Int, apply bound op x y = .ok w ∧
      forall z : Int, apply bound o w z = (apply bound o y z).bind (apply bound op x) := by
  rcases h with ⟨rfl, rfl | rfl⟩ | ⟨rfl, rfl⟩
  · exact ⟨x + y, rfl, fun z => congrArg Except.ok (Int.add_assoc x y z)⟩
  · exact ⟨x + y, rfl, fun z => congrArg Except.ok (Int.add_sub_assoc x y z)⟩
  · exact ⟨x * y, rfl, fun z => congrArg Except.ok (Int.mul_assoc x y z)⟩

/-- What stands leftmost in an unwrapped right operand is wrapped behind the outer
operator exactly if it is wrapped in front of the inner one. -/
theorem wraps_left_eq {kind op o : Kind} {left right : Expr} (hsame : o.priority = op.priority)
    (h : wraps op (binary kind left o right) = false) : wraps op left = wrapsLeft o left := by
  rcases Bool.or_eq_false_iff.mp h with ⟨hright, hnegative⟩
  have hlow : wrapsLeft o left = wrapsLeft op left := by
    rw [wrapsLeft_eq, wrapsLeft_eq, hsame]
  cases hleft : wrapsLeft o left with
  | true =>
      cases hwraps : wrapsRight op left with
      | true => rw [wraps, hwraps, Bool.true_or]
      | false =>
          rw [hlow, (wrapsRight_eq_false_iff.mp hwraps).left] at hleft
          cases hleft
  | false =>
      have hwraps : wrapsRight op left = false := by
        refine wrapsRight_eq_false_iff.mpr ⟨by rw [<- hlow, hleft], fun _ => ?_⟩
        rcases (wrapsRight_eq_false_iff.mp hright).right (congrArg some hsame) with
          hplus | ⟨hstar, hproduct⟩
        · exact Or.inl hplus
        · refine Or.inr ⟨hstar, ?_⟩
          rw [isProduct, hsame, hstar] at hproduct
          exact (Bool.and_eq_true_iff.mp hproduct).right
      have hplain : left.startsNegative = false := by
        simpa [startsNegative, hleft] using hnegative
      rw [wraps, hwraps, hplain, Bool.or_self]

theorem format_rotate {kind op o : Kind} {left middle right : Expr}
    (hsame : o.priority = op.priority)
    (h : wraps op (binary kind middle o right) = false) :
    (join (join left op middle) o right).format =
      (join left op (binary kind middle o right)).format := by
  have hkept : wrapsLeft o (join left op middle) = false := by
    simp [join, wrapsLeft, hsame]
  cases hl : left.format with
  | error fault => simp [join, hl, Except.bind]
  | ok lhs =>
      cases hm : middle.format with
      | error fault => simp [join, hl, hm, Except.bind]
      | ok mid =>
          cases hr : right.format with
          | error fault => simp [join, hl, hm, hr, Except.bind]
          | ok rhs =>
              have hinner : (join left op middle).format = .ok _ := format_of_operands hl hm
              have houter : (binary kind middle o right).format = .ok _ :=
                format_of_operands hm hr
              have hfront : (join (join left op middle) o right).format = .ok _ :=
                format_of_operands hinner hr
              have hback : (join left op (binary kind middle o right)).format = .ok _ :=
                format_of_operands hl houter
              rw [hfront, hback, hkept, h, wraps_left_eq hsame h]
              simp only [parenthesized, if_false, Bool.false_eq_true, String.append_assoc]

theorem eval_rotate {op o : Kind} (h : Regroups op o) (bound : DigitBound) (kind : Kind)
    (left middle right : Expr) :
    (join (join left op middle) o right).eval bound =
      (join left op (binary kind middle o right)).eval bound := by
  rw [join, join, join, eval_binary, eval_binary, eval_binary, eval_binary]
  cases left.eval bound with
  | error fault => rfl
  | ok x =>
      cases middle.eval bound with
      | error fault => rfl
      | ok y =>
          -- the first operator cannot fail, so a fault on the right still comes first
          rcases h.apply_eq bound x y with ⟨w, hw, hlast⟩
          cases right.eval bound with
          | error fault => simp [Except.bind, hw]
          | ok z => simp [Except.bind, hw, hlast]

/-- Where the printer leaves out parentheses between equally strong operators, the
trees of both groupings look the same from outside. -/
theorem alike_rotate {kind op o : Kind} {left middle right : Expr}
    (hsame : o.priority = op.priority)
    (h : wraps op (binary kind middle o right) = false) :
    Alike (join (join left op middle) o right) (join left op (binary kind middle o right)) := by
  have hregroups := regroups_of_wrapsRight hsame (Bool.or_eq_false_iff.mp h).left
  constructor
  case priority => exact congrArg some hsame
  case product =>
      rcases hregroups with ⟨rfl, rfl | rfl⟩ | ⟨rfl, rfl⟩ <;> simp [join, isProduct, Kind.priority]
  case negative =>
      have hkept : wrapsLeft o (join left op middle) = false := by
        simp [join, wrapsLeft, hsame]
      rw [join, startsNegative, hkept]
      rfl
  case format => exact format_rotate hsame h
  case eval => exact fun bound => eval_rotate hregroups bound kind left middle right

/-!
# Grafting
-/

/-- A tree and an operator put in front of the chain that a right operand is. -/
def graft (op : Kind) (left : Expr) : Expr -> Expr
  | binary kind first o right =>
      if o.priority = op.priority then join (graft op left first) o right
      else join left op (binary kind first o right)
  | right => join left op right

theorem graft_of_priority_ne {op : Kind} {right : Expr}
    (h : right.priority? ≠ some op.priority) (left : Expr) :
    graft op left right = join left op right := by
  cases right with
  | literal => rfl
  | stray => rfl
  | binary kind first o last =>
      have hdifferent : o.priority ≠ op.priority := fun hsame => h (congrArg some hsame)
      rw [graft, if_neg hdifferent]

theorem graft_binary {op o : Kind} (hsame : o.priority = op.priority) (kind : Kind)
    (left first right : Expr) :
    graft op left (binary kind first o right) = join (graft op left first) o right := by
  rw [graft, if_pos hsame]

theorem graft_graft {op o : Kind} (hsame : o.priority = op.priority) (left middle right : Expr) :
    graft op left (graft o middle right) = graft o (graft op left middle) right := by
  induction right with
  | literal => exact graft_binary hsame _ left middle _
  | stray => exact graft_binary hsame _ left middle _
  | binary kind first p last ih _ =>
      by_cases hp : p.priority = o.priority
      · rw [graft_binary hp, graft_binary hp, join, graft_binary (hp.trans hsame), ih]
      · rw [graft, if_neg hp, graft, if_neg hp]
        exact graft_binary hsame _ left middle _

theorem alike_graft {op : Kind} {right : Expr} (h : wraps op right = false) (left : Expr) :
    Alike (graft op left right) (join left op right) := by
  induction right with
  | literal => exact Alike.refl _
  | stray => exact Alike.refl _
  | binary kind first o last ih _ =>
      by_cases hsame : o.priority = op.priority
      · have hfirst : Alike (graft op left first) (join left op first) := by
          cases hlow : wrapsLeft o first with
          | false => exact ih (by rw [wraps_left_eq hsame h, hlow])
          | true =>
              have hdifferent : first.priority? ≠ some op.priority := by
                intro hpriority
                rw [wrapsLeft_eq, hpriority, hsame] at hlow
                simp at hlow
              rw [graft_of_priority_ne hdifferent]
              exact Alike.refl _
        rw [graft_binary hsame]
        exact (hfirst.binary (Alike.refl last) _ _ o).trans (alike_rotate hsame h)
      · rw [graft, if_neg hsame]
        exact Alike.refl _

def regrouped : Expr -> Expr
  | binary _ left op right =>
      if wraps op right then join (regrouped left) op (regrouped right)
      else graft op (regrouped left) (regrouped right)
  | e => e

theorem alike_regrouped (e : Expr) : Alike e.regrouped e := by
  induction e with
  | literal => exact Alike.refl _
  | stray => exact Alike.refl _
  | binary kind left op right ihleft ihright =>
      have hjoined : Alike (join left.regrouped op right.regrouped) (binary kind left op right) :=
        ihleft.binary ihright _ kind op
      cases hwraps : wraps op right with
      | true =>
          rw [regrouped, if_pos hwraps]
          exact hjoined
      | false =>
          rw [regrouped, if_neg (by rw [hwraps]; exact Bool.false_ne_true)]
          exact (alike_graft (by rw [ihright.wraps_eq, hwraps]) left.regrouped).trans hjoined

end Expr
end Reckon
