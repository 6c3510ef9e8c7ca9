import Reckon.Proofs.Printing

/-!
# Printed trees are read back

A tree that was read from a text is well formed, its operands and operators are the
text's tokens without the parentheses, and nothing but a division by zero can keep
it from having a value.  Which fault such a division is depends on the length of its
dividend.

The text of such a tree is read as the regrouped tree.  The main statements follow
at once: what is read back has the value or the fault of the tree that was printed,
it prints in the same way, and it has the same tokens but for the parentheses.
-/

namespace Reckon

namespace Token

variable {lang : Language}

/-!
# What a text's tokens look like
-/

theorem Emitted.isCanonical {t : Token} (h : Emitted lang t) (ht : t.kind = .num) :
    Numeral.IsCanonical t.text.toList := by
  cases h with
  | written hwritten => exact Or.inl (hwritten.isPlain ht)
  | @negative text _ _ hwritten =>
      exact Or.inr ⟨text.toList, Numeral.toList_minus text, hwritten.isPlain rfl⟩

theorem Emitted.eq_operator {t : Token} (h : Emitted lang t) (ht : t.kind ≠ .num) :
    t = ⟨t.kind, t.kind.text⟩ := by
  cases h.written_of_ne_num ht with
  | @operator c k _ hk => rw [Kind.text, Kind.ofChar?_eq_some_iff.mp hk]
  | number => exact absurd rfl ht

def unparenthesized (ts : List Token) : List Token :=
  ts.filter fun t => t.kind ≠ .openParen && t.kind ≠ .closeParen

@[simp] theorem unparenthesized_append (ts us : List Token) :
    unparenthesized (ts ++ us) = unparenthesized ts ++ unparenthesized us := by
  simp [unparenthesized]

@[simp] theorem unparenthesized_cons {t : Token} (h : t.kind ≠ .openParen)
    (h' : t.kind ≠ .closeParen)
    (ts : List Token) : unparenthesized (t :: ts) = t :: unparenthesized ts := by
  simp [unparenthesized, h, h']

@[simp] theorem unparenthesized_enclosed (wrapped : Bool) (ts : List Token) :
    unparenthesized (enclosed wrapped ts) = unparenthesized ts := by
  cases wrapped with
  | false => rfl
  | true => simp [unparenthesized, enclosed]

end Token

theorem Expr.WellFormed.unparenthesized_printed {bound : DigitBound} {e : Expr}
    (h : WellFormed bound e) :
    Token.unparenthesized e.printed = e.tokens := by
  induction h with
  | literal => rfl
  | @join left right op hop _ _ ihleft ihright =>
      have hopening : op ≠ .openParen := Kind.ne_of_isArithmetic hop rfl
      have hclosing : op ≠ .closeParen := Kind.ne_of_isArithmetic hop rfl
      rw [Expr.join, printed, Token.unparenthesized_append, Token.unparenthesized_enclosed,
        Token.unparenthesized_cons hopening hclosing, Token.unparenthesized_enclosed, ihleft,
        ihright, tokens]

namespace Grammar

open Token

variable {bound : DigitBound} {lang : Language}

/-!
# Trees of texts are well formed
-/

theorem Derives.wellFormed {level : Level} {ts : List Token} {e : Expr}
    (h : Derives (Number bound) level ts e) :
    (forall t : Token, t ∈ ts -> Emitted lang t) -> Expr.WellFormed bound e := by
  refine h.inductionOn ?single ?parens ?join
  case single =>
      intro ts e hoperand hts
      cases hoperand with
      | mk ht hvalue =>
          exact Expr.WellFormed.literal ((hts _ List.mem_cons_self).isCanonical ht) hvalue
  case parens =>
      intro opening closing ts e _ _ _ ih hts
      exact ih fun t ht => hts t (by simp [ht])
  case join =>
      intro op front back left right level hop _ ihfront ihback hts
      exact Expr.WellFormed.join hop (ihfront fun t ht => hts t (by simp [ht]))
        (ihback fun t ht => hts t (by simp [ht]))

theorem Derives.tokens_eq {level : Level} {ts : List Token} {e : Expr}
    (h : Derives (Number bound) level ts e) :
    (forall t : Token, t ∈ ts -> Emitted lang t) -> e.tokens = unparenthesized ts := by
  refine h.inductionOn ?single ?parens ?join
  case single =>
      intro ts e hoperand hts
      cases hoperand with
      | @mk t _ ht _ =>
          rw [unparenthesized_cons (by simp [ht]) (by simp [ht]), Expr.tokens, <- ht]
          rfl
  case parens =>
      intro opening closing ts e hopening hclosing _ ih hts
      rw [ih fun t ht => hts t (by simp [ht])]
      simp [unparenthesized, hopening, hclosing]
  case join =>
      intro op front back left right level hop _ ihfront ihback hts
      have hoperator := (hts op (by simp)).eq_operator (Kind.ne_of_isArithmetic hop rfl)
      have hopening : op.kind ≠ .openParen := Kind.ne_of_isArithmetic hop rfl
      have hclosing : op.kind ≠ .closeParen := Kind.ne_of_isArithmetic hop rfl
      rw [Expr.tokens_join, ihfront fun t ht => hts t (by simp [ht]),
        ihback fun t ht => hts t (by simp [ht]), unparenthesized_append,
        unparenthesized_cons hopening hclosing, <- hoperator]

theorem wellFormed_of_build {text : String} {root : Expr}
    (h : build bound lang text = .done (.ok root)) :
    Expr.WellFormed bound root ∧ forall t : Token, t ∈ root.tokens -> Emitted lang t := by
  rcases build_eq_ok_iff.mp h with ⟨tokens, hlex, hderives⟩
  have hemitted := Lexer.emitted_of_lex hlex
  refine ⟨hderives.wellFormed hemitted, ?_⟩
  intro t ht
  rw [hderives.tokens_eq hemitted] at ht
  exact hemitted t (List.mem_filter.mp ht).left

/-!
# The tree that is read back
-/

theorem lex_format (hlayout : lang.HasLayout) {text : String} {root : Expr}
    (h : build bound lang text = .done (.ok root)) :
    exists printed : String,
      root.format = .ok printed ∧ Lexer.lex lang printed = .ok root.printed := by
  rcases wellFormed_of_build h with ⟨hwell, hemitted⟩
  rcases spellsFolded_printed hlayout hwell hemitted with ⟨printed, hformat, hspells⟩
  exact ⟨printed, hformat, lex_eq_ok_of_spellsFolded hspells (derives_printed hwell)⟩

theorem build_format (hlayout : lang.HasLayout) {text : String} {root : Expr}
    (h : build bound lang text = .done (.ok root)) :
    exists printed : String,
      root.format = .ok printed ∧ build bound lang printed = .done (.ok root.regrouped) := by
  rcases lex_format hlayout h with ⟨printed, hformat, hlex⟩
  have hderives := derives_printed (wellFormed_of_build h).left
  exact ⟨printed, hformat, build_eq_ok_iff.mpr ⟨root.printed, hlex, hderives⟩⟩

theorem eval_of_wellFormed {e : Expr} (h : Expr.WellFormed bound e) :
    (exists value : Int, e.eval bound = .ok value) ∨
      exists dividend : Int, e.eval bound = .error (.ofDivision bound dividend) := by
  induction h with
  | @literal value _ _ _ => exact Or.inl ⟨value, rfl⟩
  | @join left right op hop _ _ ihleft ihright =>
      rw [Expr.join, Expr.eval_binary]
      rcases ihleft with ⟨x, hx⟩ | ⟨dividend, hfault⟩
      · rcases ihright with ⟨y, hy⟩ | ⟨dividend, hfault⟩
        · rw [hx, hy]
          cases op with
          | plus => exact Or.inl ⟨x + y, rfl⟩
          | minus => exact Or.inl ⟨x - y, rfl⟩
          | star => exact Or.inl ⟨x * y, rfl⟩
          | slash =>
              by_cases hzero : y = 0
              · exact Or.inr ⟨x, by simp [Except.bind, Expr.apply, Expr.divide, hzero]⟩
              · refine Or.inl ⟨Expr.quotient x y, ?_⟩
                simp [Except.bind, Expr.apply, Expr.divide, hzero]
          | _ => cases hop
        · exact Or.inr ⟨dividend, by rw [hx, hfault]; rfl⟩
      · exact Or.inr ⟨dividend, by rw [hfault]; rfl⟩

/-- What is read back has the value of the tree that was printed, or divides the same
number by zero, or fails like it to report such a division. -/
theorem eval_reread (hlayout : lang.HasLayout) {text : String} {root : Expr}
    (h : build bound lang text = .done (.ok root)) :
    exists again : Expr, root.reread bound lang = .ok (.done (.ok again)) ∧
      again.eval bound = root.eval bound ∧
      ((exists value : Int, root.eval bound = .ok value) ∨
        (exists dividend : Int, root.eval bound = .error (.divisionByZero dividend)) ∨
        exists e : Unwritable, root.eval bound = .error (.unwritable e)) := by
  rcases build_format hlayout h with ⟨printed, hformat, hbuild⟩
  refine ⟨root.regrouped, by rw [Expr.reread, hformat, Except.map, hbuild],
    (Expr.alike_regrouped root).eval bound, ?_⟩
  rcases eval_of_wellFormed (wellFormed_of_build h).left with hvalue | ⟨dividend, hfault⟩
  · exact Or.inl hvalue
  · right
    rw [hfault, Fault.ofDivision]
    cases Numeral.write bound dividend with
    | ok text => exact Or.inl ⟨dividend, rfl⟩
    | error e => exact Or.inr ⟨e, rfl⟩

theorem eval_reread_division_by_zero :
    Language.arith.HasLayout ∧
      exists root : Expr, build .standard Language.arith "1 + (2 - -3 / 0)" = .done (.ok root) ∧
        exists again : Expr, root.reread .standard Language.arith = .ok (.done (.ok again)) ∧
          again.eval .standard = .error (.divisionByZero (-3)) := by
  have hquotient : Derives (Number .standard) .term
      ([⟨.num, "-3"⟩] ++ ⟨.slash, "/"⟩ :: [⟨.num, "0"⟩]) _ :=
    Derives.multiply (Or.inr rfl) (derives_number rfl .term) (derives_number rfl .factor)
  have hinner : Derives (Number .standard) .expr ([⟨.num, "2"⟩] ++ ⟨.minus, "-"⟩ :: _) _ :=
    Derives.add (Or.inr rfl) (derives_number rfl .expr) hquotient
  have hsum : Derives (Number .standard) .expr
      ([⟨.num, "1"⟩] ++ ⟨.plus, "+"⟩ :: enclosed true _) _ :=
    Derives.add (Or.inl rfl) (derives_number rfl .expr) (Derives.factor hinner.enclosed)
  have hbuild : build .standard Language.arith "1 + (2 - -3 / 0)" = .done (.ok _) :=
    build_eq_ok_iff.mpr ⟨_, rfl, hsum⟩
  rcases eval_reread Language.arith_hasLayout hbuild with ⟨again, hagain, heval, _⟩
  exact ⟨Language.arith_hasLayout, _, hbuild, again, hagain, heval.trans rfl⟩

/-- What is read back prints in the same way as the tree that was printed. -/
theorem format_reread (hlayout : lang.HasLayout) {text : String} {root : Expr}
    (h : build bound lang text = .done (.ok root)) :
    exists printed : String, exists again : Expr,
      root.format = .ok printed ∧ build bound lang printed = .done (.ok again) ∧
        again.format = .ok printed := by
  rcases build_format hlayout h with ⟨printed, hformat, hbuild⟩
  exact ⟨printed, root.regrouped, hformat, hbuild,
    (Expr.alike_regrouped root).format.trans hformat⟩

theorem format_reread_nested_product :
    Language.arith.HasLayout ∧
      exists root : Expr, build .standard Language.arith "2*(3*(4- -5))" = .done (.ok root) ∧
        root.format = .ok "2 * 3 * (4 - (-5))" ∧
        exists again : Expr,
          build .standard Language.arith "2 * 3 * (4 - (-5))" = .done (.ok again) ∧
            again.format = .ok "2 * 3 * (4 - (-5))" := by
  have hdifference : Derives (Number .standard) .expr
      ([⟨.num, "4"⟩] ++ ⟨.minus, "-"⟩ :: [⟨.num, "-5"⟩]) _ :=
    Derives.add (Or.inr rfl) (derives_number rfl .expr) (derives_number rfl .term)
  have hinner : Derives (Number .standard) .term
      ([⟨.num, "3"⟩] ++ ⟨.star, "*"⟩ :: enclosed true _) _ :=
    Derives.multiply (Or.inl rfl) (derives_number rfl .term) hdifference.enclosed
  have hproduct : Derives (Number .standard) .term
      ([⟨.num, "2"⟩] ++ ⟨.star, "*"⟩ :: enclosed true _) _ :=
    Derives.multiply (Or.inl rfl) (derives_number rfl .term) (Derives.term hinner).enclosed
  have hbuild : build .standard Language.arith "2*(3*(4- -5))" = .done (.ok _) :=
    build_eq_ok_iff.mpr ⟨_, rfl, Derives.term hproduct⟩
  rcases format_reread Language.arith_hasLayout hbuild with
    ⟨printed, again, hprinted, hagain, hformat⟩
  have htext : printed = "2 * 3 * (4 - (-5))" := Except.ok.inj (hprinted.symm.trans rfl)
  rw [htext] at hprinted hagain hformat
  exact ⟨Language.arith_hasLayout, _, hbuild, hprinted, again, hagain, hformat⟩

/-- Apart from parentheses, the text of a tree consists of the tokens of the text that the
tree was read from, which are the operands and operators of the tree in their order. -/
theorem lex_format_unparenthesized (hlayout : lang.HasLayout) {text : String} {root : Expr}
    (h : build bound lang text = .done (.ok root)) :
    exists tokens : List Token, exists printed : String, exists again : List Token,
      Lexer.lex lang text = .ok tokens ∧ root.format = .ok printed ∧
        Lexer.lex lang printed = .ok again ∧
        unparenthesized again = unparenthesized tokens ∧ unparenthesized tokens = root.tokens := by
  rcases build_eq_ok_iff.mp h with ⟨tokens, hlex, hderives⟩
  rcases lex_format hlayout h with ⟨printed, hformat, hagain⟩
  have htokens := hderives.tokens_eq (Lexer.emitted_of_lex hlex)
  have hprinted := (wellFormed_of_build h).left.unparenthesized_printed
  exact ⟨tokens, printed, root.printed, hlex, hformat, hagain, hprinted.trans htokens,
    htokens.symm⟩

theorem lex_format_guarded_signs :
    Language.arith.HasLayout ∧
      exists root : Expr, build .standard Language.arith "(1)--2*((3+-0))" = .done (.ok root) ∧
        root.format = .ok "1 - (-2 * (3 + (-0)))" ∧
        exists tokens : List Token, exists again : List Token,
          Lexer.lex Language.arith "(1)--2*((3+-0))" = .ok tokens ∧
            Lexer.lex Language.arith "1 - (-2 * (3 + (-0)))" = .ok again ∧
            unparenthesized again = unparenthesized tokens ∧
            unparenthesized tokens = root.tokens := by
  have hsum : Derives (Number .standard) .expr
      ([⟨.num, "3"⟩] ++ ⟨.plus, "+"⟩ :: [⟨.num, "-0"⟩]) _ :=
    Derives.add (Or.inl rfl) (derives_number rfl .expr) (derives_number rfl .term)
  have hproduct : Derives (Number .standard) .term
      ([⟨.num, "-2"⟩] ++ ⟨.star, "*"⟩ :: enclosed true (enclosed true _)) _ :=
    Derives.multiply (Or.inl rfl) (derives_number rfl .term)
      (hsum.enclosed.of_factor .expr).enclosed
  have hdifference : Derives (Number .standard) .expr
      (enclosed true [⟨.num, "1"⟩] ++ ⟨.minus, "-"⟩ :: _) _ :=
    Derives.add (Or.inr rfl) ((derives_number rfl .expr).enclosed.of_factor .expr)
      hproduct
  have hbuild : build .standard Language.arith "(1)--2*((3+-0))" = .done (.ok _) :=
    build_eq_ok_iff.mpr ⟨_, rfl, hdifference⟩
  rcases lex_format_unparenthesized Language.arith_hasLayout hbuild with
    ⟨tokens, printed, again, hlex, hprinted, hagain, hsame, htokens⟩
  have htext : printed = "1 - (-2 * (3 + (-0)))" := Except.ok.inj (hprinted.symm.trans rfl)
  rw [htext] at hprinted hagain
  exact ⟨Language.arith_hasLayout, _, hbuild, hprinted, tokens, again, hlex, hagain, hsame,
    htokens⟩

end Grammar
end Reckon
