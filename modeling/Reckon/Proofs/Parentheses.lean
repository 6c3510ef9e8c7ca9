import Reckon.Proofs.Enclosing
import Reckon.Proofs.Nesting

/-!
# No parentheses are superfluous

Pairs of parentheses are counted.  Some operands of a tree bind too weakly for the place
that they have in it, and tokens that derive the tree have a pair for each of them.  The
text of a tree whose literals have no sign has no other pairs: as many as the tree needs
that the text is read as.

Taking away a pair leaves an expression, with one pair less than this tree needs.  It is
therefore an expression for another tree.
-/

namespace Reckon

namespace Token

def openings (ts : List Token) : Nat :=
  ts.countP fun t => decide (t.kind = .openParen)

@[simp] theorem openings_cons (t : Token) (ts : List Token) :
    openings (t :: ts) = openings ts + if t.kind = .openParen then 1 else 0 := by
  simp [openings, List.countP_cons]

@[simp] theorem openings_append (ts us : List Token) :
    openings (ts ++ us) = openings ts + openings us :=
  List.countP_append

@[simp] theorem openings_enclosed (wrapped : Bool) (ts : List Token) :
    openings (enclosed wrapped ts) = openings ts + wrapped.toNat := by
  cases wrapped with
  | false => rfl
  | true => simp [enclosed, openings]

theorem openings_without_pair {front inner back ts : List Token}
    (hpair : HasPair front inner back ts) :
    openings ts = openings (front ++ inner ++ back) + 1 := by
  cases hpair with
  | mk hopening hclosing _ =>
      simp only [openings_append, openings_cons, List.cons_append, hopening, hclosing, if_true,
        reduceCtorEq, if_false]
      omega

end Token

namespace Expr

open Token

/-!
# Operands that need parentheses
-/

def bindsBelow (strength : Nat) (e : Expr) : Bool :=
  e.priority?.any fun p => decide (p < strength)

/-- How many operands of a tree cannot stand in their places without parentheses: left
ones that bind weaker than their operator, and right ones that do not bind tighter. -/
def neededPairs : Expr -> Nat
  | binary _ left op right =>
      neededPairs left + neededPairs right + (bindsBelow op.priority left).toNat +
        (bindsBelow (op.priority + 1) right).toNat
  | _ => 0

@[simp] theorem neededPairs_join (left : Expr) (op : Kind) (right : Expr) :
    neededPairs (join left op right) =
      neededPairs left + neededPairs right + (bindsBelow op.priority left).toNat +
        (bindsBelow (op.priority + 1) right).toNat :=
  rfl

theorem wrapsLeft_eq_bindsBelow (op : Kind) (e : Expr) :
    wrapsLeft op e = bindsBelow op.priority e :=
  wrapsLeft_eq op e

theorem bindsBelow_mono {m n : Nat} (h : m ≤ n) {e : Expr} (he : bindsBelow m e = true) :
    bindsBelow n e = true := by
  rw [bindsBelow, Option.any_eq_true] at he ⊢
  rcases he with ⟨p, hp, hlt⟩
  exact ⟨p, hp, decide_eq_true (Nat.lt_of_lt_of_le (of_decide_eq_true hlt) h)⟩

theorem toNat_bindsBelow_mono {m n : Nat} (h : m ≤ n) (e : Expr) :
    (bindsBelow m e).toNat ≤ (bindsBelow n e).toNat := by
  cases he : bindsBelow m e with
  | false => exact Nat.zero_le _
  | true => exact Nat.le_of_eq (congrArg Bool.toNat (bindsBelow_mono h he).symm)

/-!
# Trees that are grafted
-/

theorem priority?_graft (op : Kind) (left right : Expr) :
    (graft op left right).priority? = some op.priority := by
  cases right with
  | literal => rfl
  | stray => rfl
  | binary kind first o last =>
      by_cases hsame : o.priority = op.priority
      · rw [graft_binary hsame]
        exact congrArg some hsame
      · rw [graft, if_neg hsame]
        rfl

theorem bindsBelow_of_wrapsRight {op : Kind} {right : Expr} (h : wrapsRight op right = true) :
    bindsBelow (op.priority + 1) right = true := by
  cases right with
  | literal => cases h
  | stray => cases h
  | binary kind first o last =>
      refine decide_eq_true (Nat.lt_succ_of_le ?_)
      by_cases hsame : o.priority = op.priority
      · exact Nat.le_of_eq hsame
      · rw [wrapsRight, if_pos hsame] at h
        exact Nat.le_of_lt (of_decide_eq_true h)

theorem neededPairs_graft {op : Kind} {right : Expr} (h : wraps op right = false) (left : Expr) :
    neededPairs (graft op left right) =
      neededPairs left + neededPairs right + (bindsBelow op.priority left).toNat := by
  induction right with
  | literal => rfl
  | stray => rfl
  | binary kind first o last ih _ =>
      by_cases hsame : o.priority = op.priority
      · have hfront : bindsBelow o.priority (graft op left first) = false := by
          rw [bindsBelow, priority?_graft, Option.any_some, hsame]
          exact decide_eq_false (Nat.lt_irrefl _)
        rw [graft_binary hsame, neededPairs_join, hfront, neededPairs]
        cases hlow : wrapsLeft o first with
        | false =>
            rw [ih (by rw [wraps_left_eq hsame h, hlow]), <- wrapsLeft_eq_bindsBelow o first, hlow]
            simp only [Bool.toNat_false]
            omega
        | true =>
            have hbelow : bindsBelow o.priority first = true := by
              rw [<- wrapsLeft_eq_bindsBelow, hlow]
            have hdifferent : first.priority? ≠ some op.priority := by
              intro hpriority
              rw [bindsBelow, hpriority, hsame] at hbelow
              simp at hbelow
            have hright : bindsBelow (op.priority + 1) first = true := by
              rw [<- hsame]
              exact bindsBelow_mono (Nat.le_succ _) hbelow
            rw [graft_of_priority_ne hdifferent, neededPairs_join, hbelow, hright]
            simp only [Bool.toNat_false, Bool.toNat_true]
            omega
      · have hright : bindsBelow (op.priority + 1) (binary kind first o last) = false := by
          have hlow := (wrapsRight_eq_false_iff.mp (Bool.or_eq_false_iff.mp h).left).left
          have hnot : ¬ o.priority < op.priority := of_decide_eq_false hlow
          exact decide_eq_false (by omega)
        rw [graft, if_neg hsame, neededPairs_join, hright]
        rfl

theorem bindsBelow_regrouped (strength : Nat) (e : Expr) :
    bindsBelow strength e.regrouped = bindsBelow strength e := by
  rw [bindsBelow, bindsBelow, (alike_regrouped e).priority]

/-!
# The parentheses of a text
-/

def Unsigned : Expr -> Prop
  | literal _ _ raw => Numeral.IsPlain raw.toList
  | binary _ left _ right => Unsigned left ∧ Unsigned right
  | stray => True

theorem Unsigned.not_startsNegative {e : Expr} (h : Unsigned e) : e.startsNegative = false := by
  induction e with
  | literal kind value raw =>
      rw [startsNegative, startsWithMinus, beq_eq_false_iff_ne]
      intro hhead
      have hdigit := Numeral.IsPlain.digits h '-' (List.mem_of_head? hhead)
      exact absurd hdigit (by decide)
  | binary kind left op right ihleft _ =>
      rw [startsNegative, ihleft h.left, Bool.and_false]
  | stray => rfl

theorem openings_printed {e : Expr} (hwell : WellFormed bound e) (hunsigned : Unsigned e) :
    openings e.printed = neededPairs e.regrouped := by
  induction hwell with
  | literal => rfl
  | @join left right op hop _ _ ihleft ihright =>
      have hkind : op ≠ .openParen := Kind.ne_of_isArithmetic hop rfl
      rw [join, printed, openings_append, openings_cons, openings_enclosed, openings_enclosed,
        ihleft hunsigned.left, ihright hunsigned.right, if_neg hkind, regrouped,
        wrapsLeft_eq_bindsBelow]
      cases hwraps : wraps op right with
      | false =>
          have hkept : wraps op right.regrouped = false := by
            rw [(alike_regrouped right).wraps_eq, hwraps]
          rw [if_neg Bool.false_ne_true, neededPairs_graft hkept, bindsBelow_regrouped]
          simp only [Bool.toNat_false]
          omega
      | true =>
          have hright : wrapsRight op right = true := by
            rw [wraps, hunsigned.right.not_startsNegative, Bool.or_false] at hwraps
            exact hwraps
          rw [if_pos rfl, neededPairs_join, bindsBelow_regrouped, bindsBelow_regrouped,
            bindsBelow_of_wrapsRight hright]
          simp only [Bool.toNat_true]
          omega

end Expr

namespace Grammar

open Token

variable {bound : DigitBound}

/-!
# The parentheses of a derivation
-/

/-- The strength that the operator of a tree has to have where no parentheses are put
around it. -/
def Level.strength : Level -> Nat
  | expr => 1
  | term => 2
  | factor => 3

theorem priority_of_product {op : Kind} (hop : op = .star ∨ op = .slash) :
    op.priority = Level.term.strength := by
  rcases hop with rfl | rfl
  · rfl
  · rfl

theorem priority_of_sum {op : Kind} (hop : op = .plus ∨ op = .minus) :
    op.priority = Level.expr.strength := by
  rcases hop with rfl | rfl
  · rfl
  · rfl

theorem neededPairs_link_le {op : Token} {front back : List Token} {left right : Expr}
    (hfront : left.neededPairs + (left.bindsBelow op.kind.priority).toNat ≤ openings front)
    (hback : right.neededPairs + (right.bindsBelow (op.kind.priority + 1)).toNat ≤
      openings back) :
    (Expr.join left op.kind right).neededPairs +
        ((Expr.join left op.kind right).bindsBelow op.kind.priority).toNat ≤
      openings (front ++ op :: back) := by
  have hjoin : (Expr.join left op.kind right).bindsBelow op.kind.priority = false :=
    decide_eq_false (Nat.lt_irrefl _)
  rw [hjoin, Expr.neededPairs_join, openings_append, openings_cons, Bool.toNat_false]
  omega

/-- Tokens that derive a tree have a pair of parentheses for each operand that needs one,
and one more if the tree needs it itself. -/
theorem Derives.neededPairs_le {level : Level} {ts : List Token} {e : Expr}
    (h : Derives (Number bound) level ts e) :
    e.neededPairs + (e.bindsBelow level.strength).toNat ≤ openings ts := by
  induction h with
  | operand hoperand =>
      cases hoperand
      exact Nat.zero_le _
  | @parens opening closing ts e hopening _ _ ih =>
      have hmore := Bool.toNat_le (e.bindsBelow Level.factor.strength)
      rw [List.cons_append, openings_cons, openings_append, if_pos hopening]
      omega
  | @factor _ e _ ih =>
      have hweaker : Level.term.strength ≤ Level.factor.strength := by decide
      exact Nat.le_trans (Nat.add_le_add_left (Expr.toNat_bindsBelow_mono hweaker e) _) ih
  | @multiply _ back op _ right hop _ _ ihfront ihback =>
      have hpriority := priority_of_product hop
      rw [<- hpriority] at ihfront ⊢
      refine neededPairs_link_le ihfront ?_
      rw [hpriority]
      exact ihback
  | @term _ e _ ih =>
      have hweaker : Level.expr.strength ≤ Level.term.strength := by decide
      exact Nat.le_trans (Nat.add_le_add_left (Expr.toNat_bindsBelow_mono hweaker e) _) ih
  | @add _ back op _ right hop _ _ ihfront ihback =>
      have hpriority := priority_of_sum hop
      rw [<- hpriority] at ihfront ⊢
      refine neededPairs_link_le ihfront ?_
      rw [hpriority]
      exact ihback

/-!
# Texts of trees without signs
-/

theorem arith_emitted_tokens {e : Expr} (h : Expr.WellFormed bound e) :
    forall t : Token, t ∈ e.tokens -> Emitted Language.arith t := by
  induction h with
  | literal hraw _ =>
      intro t ht
      rw [List.mem_singleton.mp ht]
      exact arith_emitted_number hraw
  | join hop _ _ ihleft ihright =>
      intro t ht
      rw [Expr.tokens_join, List.mem_append, List.mem_cons] at ht
      rcases ht with ht | rfl | ht
      · exact ihleft t ht
      · exact Emitted.written (arith_written_operator hop)
      · exact ihright t ht

/-- The text of a tree without signs is read as some tree, and without any one of its pairs
of parentheses the text is still an expression but read as another tree. -/
theorem parentheses_needed {root : Expr} (hwell : root.WellFormed bound)
    (hunsigned : root.Unsigned) :
    exists text : String, exists tokens : List Token, exists again : Expr,
      root.format = .ok text ∧ Lexer.lex Language.arith text = .ok tokens ∧
        parse bound tokens = .done (.ok again) ∧
        forall front inner back : List Token, HasPair front inner back tokens ->
          exists other : Expr,
            parse bound (front ++ inner ++ back) = .done (.ok other) ∧ other ≠ again := by
  rcases spellsFolded_printed Language.arith_hasLayout hwell (arith_emitted_tokens hwell) with
    ⟨text, hformat, hspells⟩
  have hderives := derives_printed hwell
  have hlex := lex_eq_ok_of_spellsFolded hspells hderives
  refine ⟨text, root.printed, root.regrouped, hformat, hlex,
    parse_eq_ok_iff_derives.mpr hderives, ?_⟩
  intro front inner back hpair
  rcases hderives.without_pair hpair hderives.readable with ⟨other, hother⟩
  refine ⟨other, parse_eq_ok_iff_derives.mpr hother, ?_⟩
  intro hsame
  -- the remaining pairs are too few for the tree of the whole text
  have hneeded := hother.neededPairs_le
  have hcount := openings_without_pair hpair
  rw [hsame] at hneeded
  rw [Expr.openings_printed hwell hunsigned] at hcount
  omega

theorem parentheses_needed_nested_differences :
    exists root : Expr, root.WellFormed .standard ∧ root.Unsigned ∧
      root.format = .ok "8 - (4 - (2 - 1))" ∧
      exists again outer inner : Expr,
        parse .standard [⟨.num, "8"⟩, ⟨.minus, "-"⟩, ⟨.openParen, "("⟩, ⟨.num, "4"⟩, ⟨.minus, "-"⟩,
          ⟨.openParen, "("⟩, ⟨.num, "2"⟩, ⟨.minus, "-"⟩, ⟨.num, "1"⟩, ⟨.closeParen, ")"⟩,
          ⟨.closeParen, ")"⟩] = .done (.ok again) ∧
        parse .standard [⟨.num, "8"⟩, ⟨.minus, "-"⟩, ⟨.num, "4"⟩, ⟨.minus, "-"⟩, ⟨.openParen, "("⟩,
          ⟨.num, "2"⟩, ⟨.minus, "-"⟩, ⟨.num, "1"⟩, ⟨.closeParen, ")"⟩] = .done (.ok outer) ∧
        parse .standard [⟨.num, "8"⟩, ⟨.minus, "-"⟩, ⟨.openParen, "("⟩, ⟨.num, "4"⟩, ⟨.minus, "-"⟩,
          ⟨.num, "2"⟩, ⟨.minus, "-"⟩, ⟨.num, "1"⟩, ⟨.closeParen, ")"⟩] = .done (.ok inner) ∧
        outer ≠ again ∧ inner ≠ again := by
  have hplain : forall c : Char, '1' ≤ c ∧ c ≤ '9' -> Numeral.IsPlain [c] :=
    fun c hc => Or.inr ⟨c, [], rfl, hc, by simp⟩
  have hone := hplain '1' (by decide)
  have htwo := hplain '2' (by decide)
  have hfour := hplain '4' (by decide)
  have height := hplain '8' (by decide)
  have hlast : Expr.WellFormed .standard
      (.join (.literal .num 2 "2") .minus (.literal .num 1 "1")) :=
    Expr.WellFormed.join rfl (Expr.WellFormed.literal (Or.inl htwo) rfl)
      (Expr.WellFormed.literal (Or.inl hone) rfl)
  have hmiddle : Expr.WellFormed .standard (.join (.literal .num 4 "4") .minus _) :=
    Expr.WellFormed.join rfl (Expr.WellFormed.literal (Or.inl hfour) rfl) hlast
  have hroot : Expr.WellFormed .standard (.join (.literal .num 8 "8") .minus _) :=
    Expr.WellFormed.join rfl (Expr.WellFormed.literal (Or.inl height) rfl) hmiddle
  rcases parentheses_needed hroot ⟨height, hfour, htwo, hone⟩ with
    ⟨text, tokens, again, hformat, hlex, hagain, hneeded⟩
  obtain rfl : text = "8 - (4 - (2 - 1))" := Except.ok.inj (hformat.symm.trans rfl)
  obtain rfl := Except.ok.inj (hlex.symm.trans rfl)
  have hdifference : Balanced [⟨.num, "2"⟩, ⟨.minus, "-"⟩, ⟨.num, "1"⟩] :=
    Balanced.plain (by decide) (by decide) (Balanced.plain (by decide) (by decide)
      (Balanced.plain (by decide) (by decide) Balanced.nil))
  have hsubtrahend : Balanced (⟨.num, "4"⟩ :: ⟨.minus, "-"⟩ ::
      (⟨.openParen, "("⟩ :: [⟨.num, "2"⟩, ⟨.minus, "-"⟩, ⟨.num, "1"⟩] ++
        ⟨.closeParen, ")"⟩ :: [])) :=
    Balanced.plain (by decide) (by decide) (Balanced.plain (by decide) (by decide)
      (Balanced.nested rfl rfl hdifference Balanced.nil))
  rcases hneeded [⟨.num, "8"⟩, ⟨.minus, "-"⟩] _ [] (HasPair.mk rfl rfl hsubtrahend) with
    ⟨outer, houter, houter'⟩
  rcases hneeded [⟨.num, "8"⟩, ⟨.minus, "-"⟩, ⟨.openParen, "("⟩, ⟨.num, "4"⟩, ⟨.minus, "-"⟩] _
    [⟨.closeParen, ")"⟩] (HasPair.mk rfl rfl hdifference) with ⟨inner, hinner, hinner'⟩
  exact ⟨_, hroot, ⟨height, hfour, htwo, hone⟩, hformat, again, outer, inner, hagain, houter,
    hinner, houter', hinner'⟩

end Grammar
end Reckon
