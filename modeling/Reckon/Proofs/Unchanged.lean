import Reckon.Expr.Grouping
import Reckon.Proofs.Totality

/-!
# Trees that are read back unchanged

Printing and reading back gives the regrouped tree, so a tree comes back unchanged
exactly if regrouping leaves it alone.  It does so exactly if no right operand in the
tree dissolves.  That one dissolving operand changes the tree, whatever surrounds it,
is seen from the tokens: regrouping keeps them, while an operand that has dissolved
leaves only a part of its tokens behind the operator.
-/

namespace Reckon
namespace Expr

/-!
# Right operands that dissolve
-/

theorem isProduct_eq_false_iff (e : Expr) : e.isProduct = false <-> ReachesDivision e := by
  induction e with
  | literal => constructor <;> intro h <;> cases h
  | stray => constructor <;> intro h <;> cases h
  | binary kind left op right ih _ =>
      rw [isProduct]
      constructor
      · intro h
        cases op with
        | slash => exact ReachesDivision.division
        | star => exact ReachesDivision.through (ih.mp (by simpa [Kind.priority] using h))
        | _ => simp [Kind.priority, Kind.tightest] at h
      · intro h
        cases h with
        | division => rfl
        | through h => simp [Kind.priority, ih.mpr h]

theorem WellFormed.printsUnsigned_iff {e : Expr} (h : WellFormed bound e) :
    PrintsUnsigned e <-> e.startsNegative = false := by
  constructor
  · rintro ⟨text, hformat, hminus⟩
    rw [<- startsWithMinus_format hformat, hminus]
  · intro hnegative
    rcases h.format with ⟨text, hformat⟩
    exact ⟨text, hformat, by rw [startsWithMinus_format hformat, hnegative]⟩

/-- A right operand dissolves exactly if it is printed without parentheses behind an
operator of its own strength. -/
theorem dissolves_iff {op : Kind} {right : Expr} (h : WellFormed bound right) :
    Dissolves op right <-> wraps op right = false ∧ right.priority? = some op.priority := by
  constructor
  · intro hdissolves
    cases hdissolves with
    | @sum kind o left last ho hunsigned =>
        have hnegative := h.printsUnsigned_iff.mp hunsigned
        have hpriority : o.priority = Kind.plus.priority := by
          rcases ho with rfl | rfl <;> rfl
        exact ⟨by simp [wraps, wrapsRight, hpriority, hnegative], congrArg some hpriority⟩
    | @product kind left last hreaches hunsigned =>
        have hnegative := h.printsUnsigned_iff.mp hunsigned
        have hproduct : isProduct (binary kind left .star last) = true := by
          rw [<- isProduct_eq_false_iff] at hreaches
          simpa using hreaches
        exact ⟨by simp [wraps, wrapsRight, hproduct, hnegative], rfl⟩
  · rintro ⟨hwraps, hpriority⟩
    rcases Bool.or_eq_false_iff.mp hwraps with ⟨hright, hnegative⟩
    have hunsigned := h.printsUnsigned_iff.mpr hnegative
    cases right with
    | literal => cases hpriority
    | stray => cases hpriority
    | binary kind left o last =>
        rcases regroups_of_wrapsRight (Option.some.inj hpriority) hright with
          ⟨rfl, ho⟩ | ⟨rfl, rfl⟩
        · exact Dissolves.sum ho hunsigned
        · refine Dissolves.product ?_ hunsigned
          rw [<- isProduct_eq_false_iff]
          rcases (wrapsRight_eq_false_iff.mp hright).right hpriority with hplus | ⟨_, hproduct⟩
          · cases hplus
          · rw [hproduct]
            exact Bool.noConfusion

/-!
# Tokens of regrouped trees
-/

theorem tokens_graft (op : Kind) (left right : Expr) :
    (graft op left right).tokens = left.tokens ++ ⟨op, op.text⟩ :: right.tokens := by
  induction right with
  | literal => rfl
  | stray => rfl
  | binary kind first o last ih _ =>
      by_cases hsame : o.priority = op.priority
      · rw [graft_binary hsame, tokens_join, ih, tokens, List.append_assoc, List.cons_append]
      · rw [graft, if_neg hsame]
        rfl

@[simp] theorem regrouped_join (left : Expr) (op : Kind) (right : Expr) :
    (join left op right).regrouped =
      if wraps op right then join left.regrouped op right.regrouped
      else graft op left.regrouped right.regrouped :=
  rfl

@[simp] theorem tokens_regrouped (e : Expr) : e.regrouped.tokens = e.tokens := by
  induction e with
  | literal => rfl
  | stray => rfl
  | binary kind left op right ihleft ihright =>
      rw [regrouped]
      split
      · rw [tokens_join, ihleft, ihright]
        rfl
      · rw [tokens_graft, ihleft, ihright]
        rfl

/-!
# Trees that regrouping leaves alone
-/

theorem graft_regrouped_ne_join {op : Kind} {right : Expr}
    (hpriority : right.priority? = some op.priority) (left left' : Expr) :
    graft op left' right.regrouped ≠ join left op right := by
  intro heq
  have htokens := congrArg List.length (tokens_regrouped right)
  have hpriority' := (Grammar.priority?_regrouped right).trans hpriority
  cases hright : right.regrouped with
  | literal => simp [hright, priority?] at hpriority'
  | stray => simp [hright, priority?] at hpriority'
  | binary kind first o last =>
      rw [hright, priority?, Option.some_inj] at hpriority'
      rw [hright, graft_binary hpriority'] at heq
      have hlast : last = right := by
        simp only [join, binary.injEq] at heq
        exact heq.right.right.right
      rw [hright, tokens, hlast, List.length_append, List.length_cons] at htokens
      omega

theorem regrouped_eq_self_iff {e : Expr} (h : WellFormed bound e) :
    e.regrouped = e <-> ¬ Dissolving e := by
  induction h with
  | @literal value raw _ _ => simp [regrouped]
  | @join left right op hop hleft hright ihleft ihright =>
      have hoperands : join left.regrouped op right.regrouped = join left op right <->
          ¬ Dissolving left ∧ ¬ Dissolving right := by
        rw [<- ihleft, <- ihright]
        simp [join]
      have hparts : Dissolving (join left op right) <->
          Dissolves op right ∨ Dissolving left ∨ Dissolving right := dissolving_binary
      rw [hparts, dissolves_iff hright, regrouped_join]
      cases hwraps : wraps op right with
      | true => simpa using hoperands
      | false =>
          by_cases hpriority : right.priority? = some op.priority
          · have hchanged := graft_regrouped_ne_join hpriority left left.regrouped
            simpa [hpriority] using hchanged
          · have hkept : graft op left.regrouped right.regrouped =
                join left.regrouped op right.regrouped := by
              apply graft_of_priority_ne
              rw [Grammar.priority?_regrouped]
              exact hpriority
            simpa [hpriority, hkept] using hoperands

end Expr

namespace Grammar

open Token

variable {bound : DigitBound} {lang : Language}

/-- A tree that was read from a text comes back from its own text, and it is the same
tree exactly if no right operand in it dissolves. -/
theorem build_format_eq_self_iff (hlayout : lang.HasLayout) {text : String} {root : Expr}
    (h : build bound lang text = .done (.ok root)) :
    exists printed : String, exists again : Expr,
      root.format = .ok printed ∧ build bound lang printed = .done (.ok again) ∧
        (again = root <-> ¬ root.Dissolving) := by
  rcases build_format hlayout h with ⟨printed, hformat, hbuild⟩
  exact ⟨printed, root.regrouped, hformat, hbuild,
    Expr.regrouped_eq_self_iff (wellFormed_of_build h).left⟩

theorem build_format_ne_self_nested_product :
    Language.arith.HasLayout ∧
      exists root : Expr, build .standard Language.arith "1-2*(3*(4-5))" = .done (.ok root) ∧
        root.Dissolving ∧
          exists again : Expr,
            build .standard Language.arith "1 - 2 * 3 * (4 - 5)" = .done (.ok again) ∧
              again ≠ root := by
  have hinner : Derives (Number .standard) .expr ([⟨.num, "4"⟩] ++ ⟨.minus, "-"⟩ :: [⟨.num, "5"⟩])
      (.join (.literal .num 4 "4") .minus (.literal .num 5 "5")) :=
    Derives.add (Or.inr rfl) (derives_number rfl .expr) (derives_number rfl .term)
  have hright : Derives (Number .standard) .term ([⟨.num, "3"⟩] ++ ⟨.star, "*"⟩ :: enclosed true _)
      (.join (.literal .num 3 "3") .star _) :=
    Derives.multiply (Or.inl rfl) (derives_number rfl .term) hinner.enclosed
  have hproduct : Derives (Number .standard) .term
      ([⟨.num, "2"⟩] ++ ⟨.star, "*"⟩ :: enclosed true _)
      (.join (.literal .num 2 "2") .star _) :=
    Derives.multiply (Or.inl rfl) (derives_number rfl .term) (Derives.term hright).enclosed
  have hdifference : Derives (Number .standard) .expr ([⟨.num, "1"⟩] ++ ⟨.minus, "-"⟩ :: _)
      (.join (.literal .num 1 "1") .minus _) :=
    Derives.add (Or.inr rfl) (derives_number rfl .expr) hproduct
  have hbuild : build .standard Language.arith "1-2*(3*(4-5))" = .done (.ok _) :=
    build_eq_ok_iff.mpr ⟨_, rfl, hdifference⟩
  rcases build_format_eq_self_iff Language.arith_hasLayout hbuild with
    ⟨printed, again, hprinted, hagain, hsame⟩
  have htext : printed = "1 - 2 * 3 * (4 - 5)" := Except.ok.inj (hprinted.symm.trans rfl)
  have hdissolving : Expr.Dissolving (Expr.join (.literal .num 1 "1") .minus
      (Expr.join (.literal .num 2 "2") .star (Expr.join (.literal .num 3 "3") .star
        (Expr.join (.literal .num 4 "4") .minus (.literal .num 5 "5"))))) := by
    refine ⟨_, _, _, _, Expr.PartOf.right (Expr.PartOf.self _), Expr.Dissolves.product ?_ ?_⟩
    · intro hreaches
      cases hreaches with
      | through hthree => cases hthree
    · exact ⟨_, rfl, rfl⟩
  rw [htext] at hagain
  exact ⟨Language.arith_hasLayout, _, hbuild, hdissolving, again, hagain,
    fun heq => hsame.mp heq hdissolving⟩

end Grammar
end Reckon
