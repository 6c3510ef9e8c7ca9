import Reckon.Proofs.Parentheses

/-!
# The left spine decides about products

The printer asks of a tree whether its text is a chain of multiplications, and it answers
this from the left operands alone.  The main statement says that the answer is the right
one: outside all parentheses, the text has no other operator than `*` exactly if the left
spine has none.

Right operands need not be looked at because of what the printer does with the answer.  A
right operand of `*` stands in parentheses unless it is a product itself, so an operator
other than `*` gets outside of them only from the left.
-/

namespace Reckon

theorem Kind.isOperator_of_isArithmetic {k : Kind} (h : k.isArithmetic = true) :
    k.isOperator = true := by
  rcases priority_of_isArithmetic h with ⟨_, rfl | rfl⟩ | ⟨_, rfl | rfl⟩ <;> rfl

namespace Token

/-!
# Outside of parentheses
-/

@[simp] theorem outside_cons {t : Token} (hopening : t.kind ≠ .openParen)
    (hclosing : t.kind ≠ .closeParen) (ts : List Token) :
    outside 0 (t :: ts) = t :: outside 0 ts := by
  rw [outside, if_neg hopening, if_neg hclosing, if_pos rfl]

@[simp] theorem outside_cons_inside {t : Token} (hopening : t.kind ≠ .openParen)
    (hclosing : t.kind ≠ .closeParen) (depth : Nat) (ts : List Token) :
    outside (depth + 1) (t :: ts) = outside (depth + 1) ts := by
  rw [outside, if_neg hopening, if_neg hclosing, if_neg (Nat.succ_ne_zero depth)]

@[simp] theorem outside_opening {opening : Token} (h : opening.kind = .openParen) (depth : Nat)
    (ts : List Token) : outside depth (opening :: ts) = outside (depth + 1) ts := by
  rw [outside, if_pos h]

@[simp] theorem outside_closing {closing : Token} (h : closing.kind = .closeParen) (depth : Nat)
    (ts : List Token) : outside (depth + 1) (closing :: ts) = outside depth ts := by
  simp [outside, h]

theorem Balanced.outside_inside {ts : List Token} (h : Balanced ts) (depth : Nat)
    (more : List Token) : outside (depth + 1) (ts ++ more) = outside (depth + 1) more := by
  induction h generalizing depth more with
  | nil => rfl
  | plain hopening hclosing _ ih =>
      rw [List.cons_append, outside_cons_inside hopening hclosing, ih]
  | @nested opening closing inner rest hopening hclosing _ _ ihinner ihrest =>
      have hsplit : opening :: inner ++ closing :: rest ++ more =
          opening :: (inner ++ closing :: (rest ++ more)) := by simp
      rw [hsplit, outside_opening hopening, ihinner, outside_closing hclosing, ihrest]

theorem Balanced.outside_pair {opening closing : Token} {inner : List Token}
    (h : Balanced inner) (hopening : opening.kind = .openParen)
    (hclosing : closing.kind = .closeParen) (more : List Token) :
    outside 0 (opening :: inner ++ closing :: more) = outside 0 more := by
  rw [List.cons_append, outside_opening hopening, h.outside_inside, outside_closing hclosing]

theorem Balanced.outside_append {ts : List Token} (h : Balanced ts) (more : List Token) :
    outside 0 (ts ++ more) = outside 0 ts ++ outside 0 more := by
  induction h generalizing more with
  | nil => rfl
  | plain hopening hclosing _ ih =>
      rw [List.cons_append, outside_cons hopening hclosing, outside_cons hopening hclosing, ih,
        List.cons_append]
  | @nested opening closing inner rest hopening hclosing hinner _ _ ih =>
      have hsplit : opening :: inner ++ closing :: rest ++ more =
          opening :: inner ++ closing :: (rest ++ more) := by simp
      rw [hsplit, hinner.outside_pair hopening hclosing, hinner.outside_pair hopening hclosing, ih]

theorem Balanced.enclosed {ts : List Token} (h : Balanced ts) (wrapped : Bool) :
    Balanced (Token.enclosed wrapped ts) := by
  cases wrapped with
  | false => exact h
  | true => exact Balanced.nested rfl rfl h Balanced.nil

/-!
# Stars only
-/

def OnlyStars (ts : List Token) : Prop :=
  forall t : Token, t ∈ ts -> t.kind.isOperator = true -> t.kind = .star

theorem onlyStars_append {ts us : List Token} :
    OnlyStars (ts ++ us) <-> OnlyStars ts ∧ OnlyStars us :=
  List.forall_mem_append

theorem onlyStars_operator {op : Token} (hop : op.kind.isOperator = true) {ts : List Token} :
    OnlyStars (op :: ts) <-> op.kind = .star ∧ OnlyStars ts := by
  rw [OnlyStars, List.forall_mem_cons]
  exact and_congr_left fun _ => ⟨fun h => h hop, fun h _ => h⟩

theorem onlyStars_enclosed {ts : List Token} (h : Balanced ts) (wrapped : Bool) :
    OnlyStars (outside 0 (Token.enclosed wrapped ts)) <->
      (wrapped = false -> OnlyStars (outside 0 ts)) := by
  cases wrapped with
  | false => exact ⟨fun hts _ => hts, fun hts => hts rfl⟩
  | true =>
      have hnone : outside 0 (Token.enclosed true ts) = [] := h.outside_pair rfl rfl []
      rw [hnone]
      exact ⟨fun _ htrue => Bool.noConfusion htrue, fun _ t ht => absurd ht List.not_mem_nil⟩

end Token

namespace Expr

open Token

/-!
# Products among printed trees
-/

theorem WellFormed.balanced_printed {e : Expr} (h : WellFormed bound e) : Balanced e.printed :=
  (Grammar.derives_printed h).balanced Grammar.oneNumber_number

/-- The operators of a printed node that stand outside all parentheses are its own and
those of the operands that are printed without parentheses. -/
theorem onlyStars_join {left right : Expr} {op : Kind} (hop : op.isArithmetic = true)
    (hleft : WellFormed bound left) (hright : WellFormed bound right) :
    OnlyStars (outside 0 (join left op right).printed) <->
      (wrapsLeft op left = false -> OnlyStars (outside 0 left.printed)) ∧ op = .star ∧
        (wraps op right = false -> OnlyStars (outside 0 right.printed)) := by
  have hopening : op ≠ .openParen := Kind.ne_of_isArithmetic hop rfl
  have hclosing : op ≠ .closeParen := Kind.ne_of_isArithmetic hop rfl
  rw [join, printed, (hleft.balanced_printed.enclosed _).outside_append,
    outside_cons hopening hclosing, onlyStars_append,
    onlyStars_operator (Kind.isOperator_of_isArithmetic hop),
    onlyStars_enclosed hleft.balanced_printed, onlyStars_enclosed hright.balanced_printed]

theorem isProduct_of_priority_ne {e : Expr} (h : e.priority? ≠ some Kind.star.priority) :
    e.isProduct = true := by
  cases e with
  | literal => rfl
  | stray => rfl
  | binary kind left op right =>
      have hother : op.priority ≠ 2 := fun hsame => h (congrArg some hsame)
      rw [isProduct, if_neg hother]

theorem isProduct_of_wrapsLeft {e : Expr} (h : wrapsLeft .star e = true) :
    e.isProduct = true := by
  refine isProduct_of_priority_ne fun hpriority => ?_
  rw [wrapsLeft_eq, hpriority] at h
  cases h

theorem isProduct_of_wrapsRight {e : Expr} (h : wrapsRight .star e = false) :
    e.isProduct = true := by
  by_cases hpriority : e.priority? = some Kind.star.priority
  · rcases (wrapsRight_eq_false_iff.mp h).right hpriority with hplus | ⟨_, hproduct⟩
    · cases hplus
    · exact hproduct
  · exact isProduct_of_priority_ne hpriority

/-- A tree that needs no parentheses in front of `*` is taken for a product exactly if no
other operator is outside of parentheses when it is printed. -/
theorem isProduct_iff_onlyStars {e : Expr} (hwell : WellFormed bound e)
    (hkept : wrapsLeft .star e = false) :
    e.isProduct = true <-> OnlyStars (outside 0 e.printed) := by
  induction hwell with
  | @literal value raw _ _ =>
      refine iff_of_true rfl fun t ht hoperator => ?_
      rw [List.mem_singleton.mp ht] at hoperator
      cases hoperator
  | @join left right op hop hleft hright ihleft ihright =>
      rw [onlyStars_join hop hleft hright]
      rcases Kind.priority_of_isArithmetic hop with ⟨hpriority, _⟩ | ⟨_, rfl | rfl⟩
      · -- a sum binds weaker than `*`
        rw [join, wrapsLeft, hpriority] at hkept
        cases hkept
      · -- the left operand decides, since a right one without parentheses is a product
        have hspine : (join left .star right).isProduct = left.isProduct := rfl
        have hback : wraps .star right = false -> OnlyStars (outside 0 right.printed) := by
          intro hwraps
          have hbare := (Bool.or_eq_false_iff.mp hwraps).left
          have hlow := (wrapsRight_eq_false_iff.mp hbare).left
          exact (ihright hlow).mp (isProduct_of_wrapsRight hbare)
        rw [hspine]
        constructor
        · exact fun hproduct => ⟨fun hlow => (ihleft hlow).mp hproduct, rfl, hback⟩
        · rintro ⟨hfront, _, _⟩
          cases hlow : wrapsLeft .star left with
          | false => exact (ihleft hlow).mpr (hfront hlow)
          | true => exact isProduct_of_wrapsLeft hlow
      · -- a division is outside of parentheses itself
        exact iff_of_false (fun hproduct => Bool.noConfusion hproduct)
          fun hstars => Kind.noConfusion hstars.right.left

end Expr

namespace Grammar

open Token

variable {bound : DigitBound}

/-- A product or a quotient is taken for a chain of multiplications exactly if its text has
no other operator than `*` outside all parentheses. -/
theorem isProduct_iff_stars_outside {kind op : Kind} {left right : Expr}
    (hwell : Expr.WellFormed bound (.binary kind left op right)) (hop : op = .star ∨ op = .slash) :
    exists text : String, exists tokens : List Token,
      Expr.format (.binary kind left op right) = .ok text ∧
        Lexer.lex Language.arith text = .ok tokens ∧
        ((Expr.binary kind left op right).isProduct = true <->
          forall t : Token, t ∈ outside 0 tokens -> t.kind.isOperator = true ->
            t.kind = .star) := by
  rcases spellsFolded_printed Language.arith_hasLayout hwell (arith_emitted_tokens hwell) with
    ⟨text, hformat, hspells⟩
  have hkept : Expr.wrapsLeft .star (.binary kind left op right) = false := by
    rcases hop with rfl | rfl <;> rfl
  exact ⟨text, _, hformat, lex_eq_ok_of_spellsFolded hspells (derives_printed hwell),
    Expr.isProduct_iff_onlyStars hwell hkept⟩

theorem isProduct_iff_stars_outside_inner_quotient :
    exists left right : Expr, Expr.WellFormed .standard (.binary .mulExpr left .star right) ∧
      Expr.format (.binary .mulExpr left .star right) = .ok "(1 + 3) * (8 / (-4))" ∧
      (Expr.binary .mulExpr left .star right).isProduct = true ∧
      exists tokens : List Token,
        Lexer.lex Language.arith "(1 + 3) * (8 / (-4))" = .ok tokens ∧
          (exists t : Token, t ∈ tokens ∧ t.kind = .slash) ∧
          forall t : Token, t ∈ outside 0 tokens -> t.kind.isOperator = true ->
            t.kind = .star := by
  have hplain : forall c : Char, '1' ≤ c ∧ c ≤ '9' -> Numeral.IsPlain [c] :=
    fun c hc => Or.inr ⟨c, [], rfl, hc, by simp⟩
  have hone : Expr.WellFormed .standard (.literal .num 1 "1") :=
    Expr.WellFormed.literal (Or.inl (hplain '1' (by decide))) rfl
  have hthree : Expr.WellFormed .standard (.literal .num 3 "3") :=
    Expr.WellFormed.literal (Or.inl (hplain '3' (by decide))) rfl
  have height : Expr.WellFormed .standard (.literal .num 8 "8") :=
    Expr.WellFormed.literal (Or.inl (hplain '8' (by decide))) rfl
  have hfour : Expr.WellFormed .standard (.literal .num (-4) "-4") :=
    Expr.WellFormed.literal (Or.inr ⟨['4'], rfl, hplain '4' (by decide)⟩) rfl
  have hsum : Expr.WellFormed .standard (.join _ .plus _) := Expr.WellFormed.join rfl hone hthree
  have hquotient : Expr.WellFormed .standard (.join _ .slash _) :=
    Expr.WellFormed.join rfl height hfour
  have hroot : Expr.WellFormed .standard (.join _ .star _) :=
    Expr.WellFormed.join rfl hsum hquotient
  rcases isProduct_iff_stars_outside hroot (Or.inl rfl) with
    ⟨text, tokens, hformat, hlex, hproduct⟩
  obtain rfl : text = "(1 + 3) * (8 / (-4))" := Except.ok.inj (hformat.symm.trans rfl)
  refine ⟨_, _, hroot, hformat, rfl, tokens, hlex, ?_, hproduct.mp rfl⟩
  obtain rfl := Except.ok.inj (hlex.symm.trans rfl)
  exact ⟨⟨.slash, "/"⟩, by decide, rfl⟩

end Grammar
end Reckon
