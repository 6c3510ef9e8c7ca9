import Mathlib.Data.List.Induction
import Reckon.Expr.Calculation
import Reckon.Proofs.FirstFault

/-!
# Chains are calculated from left to right

A chain is grouped to the left, so the operator at its root is the last one, and an
evaluation comes to the first operand through all the others.  What has been computed up
to an operator is nevertheless all that is needed from there on: an evaluated chain is a
calculation.

Going to the left operand again and again takes a chain apart, and a tree that comes apart
in this way is the chain.
-/

namespace Reckon
namespace Expr

/-!
# Values
-/

variable {bound : DigitBound}

theorem apply_eq_carry (op : Kind) (x y : Int) : apply bound op x y = carry bound x op y := by
  cases op with
  | slash =>
      rw [apply, carry, divide]
      by_cases hy : y = 0
      · rw [if_pos hy, if_pos hy]
      · rw [if_neg hy, if_neg hy, quotient_eq_tdiv]
  | _ => rfl

theorem calculate_cons (kept : Int) (link : Kind × Expr) (links : List (Kind × Expr)) :
    calculate bound kept (link :: links) =
      (link.2.eval bound).bind fun y => (carry bound kept link.1 y).bind fun z =>
        calculate bound z links := by
  rw [calculate]
  cases link.2.eval bound with
  | error fault => rfl
  | ok y =>
      dsimp only [Except.bind]
      cases carry bound kept link.1 y <;> rfl

theorem eval_join_bind (left : Expr) (link : Kind × Expr) (links : List (Kind × Expr)) :
    ((join left link.1 link.2).eval bound).bind (fun kept => calculate bound kept links) =
      (left.eval bound).bind fun kept => calculate bound kept (link :: links) := by
  simp only [join, eval_binary, calculate_cons, apply_eq_carry]
  cases left.eval bound with
  | error fault => rfl
  | ok x =>
      cases link.2.eval bound <;> rfl

theorem eval_chain (first : Expr) (links : List (Kind × Expr)) :
    (chain first links).eval bound = (first.eval bound).bind fun kept =>
      calculate bound kept links := by
  induction links generalizing first with
  | nil =>
      rw [chain_nil]
      cases first.eval bound <;> rfl
  | cons link links ih => rw [chain_cons, ih, eval_join_bind]

/-!
# Left spines
-/

@[simp] theorem descend_join (steps : Nat) (left : Expr) (op : Kind) (right : Expr) :
    (join left op right).descend (steps + 1) =
      (left.descend steps).map fun reached =>
        (reached.1, Joint.ofLink (op, right) :: reached.2) :=
  rfl

theorem descend_chain (first : Expr) (links : List (Kind × Expr)) :
    (chain first links).descend links.length =
      some (first, links.reverse.map Joint.ofLink) := by
  induction links using List.reverseRecOn with
  | nil => rfl
  | append_singleton links link ih =>
      rw [chain_concat, List.length_append, List.length_singleton, descend_join, ih]
      simp

theorem eq_chain_of_descend {e first : Expr} {links : List (Kind × Expr)}
    (h : e.descend links.length = some (first, links.reverse.map Joint.ofLink)) :
    e = chain first links := by
  induction links using List.reverseRecOn generalizing e with
  | nil =>
      cases h
      rfl
  | append_singleton links link ih =>
      rw [List.length_append, List.length_singleton] at h
      cases e with
      | literal => cases h
      | stray => cases h
      | binary kind left op right =>
          rw [descend] at h
          rcases Option.map_eq_some_iff.mp h with ⟨⟨reached, joints⟩, hleft, hreached⟩
          simp only [List.reverse_append, List.reverse_singleton, List.singleton_append,
            List.map_cons, Prod.mk.injEq, List.cons.injEq] at hreached
          rcases hreached with ⟨rfl, hjoint, rfl⟩
          cases hjoint
          rw [chain_concat, ih hleft]
          rfl

/-- A chain is evaluated like a calculation that starts with the first operand and goes
through the operators and operands in their order, up to the first fault, which names the
operator or the integer kept so far.  As many steps to the left as the chain has operators
lead back to the first operand, past the nodes of the operators from the last one to the
first, and from no other tree. -/
theorem chain_is_calculated (bound : DigitBound) (first : Expr) (links : List (Kind × Expr)) :
    (chain first links).eval bound =
      ((first.eval bound).bind fun kept => calculate bound kept links) ∧
    (forall kept y : Int, forall op : Kind, forall fault : Fault,
      carry bound kept op y = .error fault ->
        Blames bound op kept y fault.errorClass fault.message) ∧
    forall e : Expr,
      e.descend links.length = some (first, links.reverse.map Joint.ofLink) <->
        e = chain first links := by
  refine ⟨eval_chain first links, ?_, fun e => ⟨eq_chain_of_descend, ?_⟩⟩
  · intro kept y op fault h
    rw [<- apply_eq_carry] at h
    exact blames_of_apply h
  · rintro rfl
    exact descend_chain first links

theorem chain_is_calculated_differences :
    (chain (literal .num 7 "7") [(.minus, literal .num 9 "9"), (.slash, literal .num 2 "2"),
      (.minus, literal .num 3 "3")]).eval .standard = .ok (-4) := by
  rw [(chain_is_calculated .standard _ _).left]
  rfl

/-- The division by zero comes before the stray operand, which is never looked at. -/
example : (chain (literal .num 7 "7") [(.minus, literal .num 9 "9"), (.slash, literal .num 0 "0"),
    (.unknown, stray)]).eval .standard = .error (.divisionByZero (-2)) :=
  rfl

/-- A calculation that keeps an integer of one digit more than can be written does not
report its division by zero as one. -/
theorem chain_is_calculated_unwritable :
    exists fault : Fault,
      (chain (literal .num (10 ^ 4300) "") [(.slash, literal .num 0 "0")]).eval .standard =
        .error fault ∧
      fault.errorClass = .value ∧
      fault.message = "Exceeds the limit (4300 digits) for integer string conversion" ++
        "; use sys.set_int_max_str_digits() to increase the limit" := by
  refine ⟨.unwritable ⟨4300⟩, ?_, rfl, rfl⟩
  exact (eval_overZero _).trans (congrArg Except.error (ofDivision_pow 4300 (by decide)))

end Expr
end Reckon
