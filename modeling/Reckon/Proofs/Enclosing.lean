import Reckon.Proofs.Rereading

/-!
# Texts in parentheses

Whether a sign belongs to a number depends on the tokens in front of it, and a chain
goes on for as long as there are operators of its strength.  Two texts with an operator
between them are therefore not read as two trees joined by the operator.  Parentheses
shut a text off from what stands around it: in parentheses, each of the texts keeps its
tokens and its tree.

A text for every well-formed tree is built up in this way, from the texts of its
literals and with parentheses around both operands of every node.
-/

namespace Reckon

namespace Kind

theorem named_arithmetic {c : Char} (h : c ∈ ['+', '-', '*', '/']) :
    (named (String.singleton c)).isArithmetic = true ∧
      (named (String.singleton c)).symbol? = some c := by
  rw [named, ofText?_singleton]
  simp only [List.mem_cons, List.not_mem_nil, or_false] at h
  rcases h with rfl | rfl | rfl | rfl
  all_goals exact ⟨rfl, rfl⟩

end Kind

theorem Language.arith_not_isBlank {c : Char} (h : '0' ≤ c ∧ c ≤ '9') :
    Language.arith.isBlank c = false := by
  rw [Bool.eq_false_iff]
  intro hblank
  have hmem : c = ' ' ∨ c = '\t' ∨ c = '\r' ∨ c = '\n' := by
    simpa [isBlank, arith] using hblank
  rcases hmem with rfl | rfl | rfl | rfl
  all_goals exact absurd h (by decide)

namespace Token

variable {lang : Language}

theorem written_of_symbol {k : Kind} {c : Char} (hsymbol : k.symbol? = some c)
    (hc : lang.isOperator c = true) : Written lang ⟨k, k.text⟩ := by
  have htext : k.text = String.singleton c := by rw [Kind.text, hsymbol]
  rw [htext]
  exact Written.operator hc (Kind.ofChar?_eq_some_iff.mpr hsymbol)

theorem arith_written_operator {op : Kind} (hop : op.isArithmetic = true) :
    Written Language.arith ⟨op, op.text⟩ := by
  cases op with
  | plus | minus | star | slash => exact written_of_symbol rfl (by decide)
  | _ => cases hop

theorem arith_written_number {text : String} (h : Numeral.IsPlain text.toList) :
    Written Language.arith ⟨.num, text⟩ :=
  Written.number h fun c hc => Language.arith_not_isBlank (h.digits c hc)

theorem arith_emitted_number {raw : String} (h : Numeral.IsCanonical raw.toList) :
    Emitted Language.arith ⟨.num, raw⟩ := by
  rcases h with hplain | ⟨digits, hraw, hplain⟩
  · exact Emitted.written (arith_written_number hplain)
  · have htext : raw = "-" ++ String.ofList digits := by
      rw [<- String.toList_inj, Numeral.toList_minus, hraw, String.toList_ofList]
    rw [htext]
    refine Emitted.negative rfl (by decide) (arith_written_number ?_)
    rw [String.toList_ofList]
    exact hplain

end Token

namespace Grammar

open Token

variable {bound : DigitBound}

/-!
# Joined derivations
-/

variable {operand : List Token -> Expr -> Prop}

theorem Derives.of_chainLevel {op : Kind} {ts : List Token} {e : Expr}
    (h : Derives operand (chainLevel op) ts e) : Derives operand .expr ts e := by
  unfold chainLevel at h
  split at h
  · exact h
  · exact Derives.term h

theorem Derives.joined {op : Token} (hop : op.kind.isArithmetic = true) {ts us : List Token}
    {left right : Expr} (hleft : Derives operand .expr ts left)
    (hright : Derives operand .expr us right) :
    Derives operand .expr (Token.enclosed true ts ++ op :: Token.enclosed true us)
      (.join left op.kind right) :=
  (Derives.link hop (hleft.enclosed.of_factor _) (hright.enclosed.of_factor _)).of_chainLevel

/-!
# Texts around texts
-/

variable {lang : Language}

theorem build_enclosed (hopening : lang.isOperator '(' = true)
    (hclosing : lang.isOperator ')' = true) {text : String} {root : Expr}
    (h : build bound lang text = .done (.ok root)) :
    build bound lang ("(" ++ text ++ ")") = .done (.ok root) := by
  rcases build_eq_ok_iff_spellsFolded.mp h with ⟨ts, hspells, hderives⟩
  have hall := hspells.enclosed hopening hclosing true
  exact build_eq_ok_iff_spellsFolded.mpr ⟨_, hall, hderives.enclosed.of_factor .expr⟩

theorem build_joined (hopening : lang.isOperator '(' = true)
    (hclosing : lang.isOperator ')' = true) {op : Kind} (hop : op.isArithmetic = true)
    (hwritten : Written lang ⟨op, op.text⟩) {lhs rhs : String} {left right : Expr}
    (hleft : build bound lang lhs = .done (.ok left))
    (hright : build bound lang rhs = .done (.ok right)) :
    build bound lang ("(" ++ lhs ++ ")" ++ op.text ++ "(" ++ rhs ++ ")") =
      .done (.ok (.join left op right)) := by
  rcases build_eq_ok_iff_spellsFolded.mp hleft with ⟨ts, hts, hfirst⟩
  rcases build_eq_ok_iff_spellsFolded.mp hright with ⟨us, hus, hsecond⟩
  have hnone : IsGap lang [] := by simp [IsGap]
  have hall := (hts.enclosed hopening hclosing true).operator hnone hwritten
    (Kind.ne_of_isArithmetic hop rfl) hnone (hus.enclosed hopening hclosing true)
  have hjoined : Derives (Number bound) .expr
      (Token.enclosed true ts ++ ⟨op, op.text⟩ :: Token.enclosed true us) (.join left op right) :=
    Derives.joined hop hfirst hsecond
  refine build_eq_ok_iff_spellsFolded.mpr ⟨_, ?_, hjoined⟩
  simpa [Expr.parenthesized] using hall

theorem build_numeral {value : Int} {raw : String} (hraw : Numeral.IsCanonical raw.toList)
    (hvalue : Numeral.read bound raw = .ok value) :
    build bound Language.arith raw = .done (.ok (.literal .num value raw)) :=
  build_eq_ok_iff_spellsFolded.mpr
    ⟨_, spellsFolded_number (arith_emitted_number hraw), derives_number hvalue .expr⟩

theorem exists_build_of_wellFormed {e : Expr} (h : Expr.WellFormed bound e) :
    exists text : String, build bound Language.arith text = .done (.ok e) := by
  induction h with
  | @literal value raw hraw hvalue => exact ⟨raw, build_numeral hraw hvalue⟩
  | join hop _ _ ihleft ihright =>
      rcases ihleft with ⟨lhs, hlhs⟩
      rcases ihright with ⟨rhs, hrhs⟩
      exact ⟨_, build_joined (by decide) (by decide) hop (arith_written_operator hop) hlhs hrhs⟩

/-- Parentheses around a text leave its tree as it is, an operator between two texts in
parentheses joins their trees, and in this way every well-formed tree has a text. -/
theorem build_compositional (hopening : lang.isOperator '(' = true)
    (hclosing : lang.isOperator ')' = true) :
    (forall (text : String) (root : Expr),
      build bound lang text = .done (.ok root) ->
        build bound lang ("(" ++ text ++ ")") = .done (.ok root)) ∧
    (forall c : Char, c ∈ ['+', '-', '*', '/'] -> lang.isOperator c = true ->
      forall op : Kind, op = Kind.named (String.singleton c) ->
        forall (lhs rhs : String) (left right : Expr),
          build bound lang lhs = .done (.ok left) -> build bound lang rhs = .done (.ok right) ->
            build bound lang ("(" ++ lhs ++ ")" ++ String.singleton c ++ "(" ++ rhs ++ ")") =
              .done (.ok (.binary op.nodeKind left op right))) ∧
    (forall e : Expr, Expr.WellFormed bound e ->
      exists text : String, build bound Language.arith text = .done (.ok e)) := by
  refine ⟨?enclosed, ?joined, ?written⟩
  case enclosed =>
      intro text root h
      exact build_enclosed hopening hclosing h
  case joined =>
      intro c hc hoperator op hop lhs rhs left right hleft hright
      rcases Kind.named_arithmetic hc with ⟨harithmetic, hsymbol⟩
      rw [<- hop] at harithmetic hsymbol
      have htext : op.text = String.singleton c := by rw [Kind.text, hsymbol]
      rw [<- htext]
      exact build_joined hopening hclosing harithmetic (written_of_symbol hsymbol hoperator)
        hleft hright
  case written =>
      intro e h
      exact exists_build_of_wellFormed h

/-- The signs in front of and behind the operator stay with the numbers that they belong
to, as do the blanks at the ends of the texts. -/
theorem build_compositional_signs_at_seam :
    Language.arith.isOperator '(' = true ∧ Language.arith.isOperator ')' = true ∧
      exists left right : Expr,
        build .standard Language.arith " -1 + -2 " = .done (.ok left) ∧
          build .standard Language.arith "-3" = .done (.ok right) ∧
          build .standard Language.arith "( -1 + -2 )-(-3)" =
            .done (.ok (.binary .subExpr left .minus right)) ∧
          build .standard Language.arith "(( -1 + -2 )-(-3))" =
            .done (.ok (.binary .subExpr left .minus right)) ∧
          exists text : String,
            build .standard Language.arith text =
              .done (.ok (.binary .subExpr left .minus right)) := by
  have hsum : Derives (Number .standard) .expr ([⟨.num, "-1"⟩] ++ ⟨.plus, "+"⟩ :: [⟨.num, "-2"⟩])
      (.join (.literal .num (-1) "-1") .plus (.literal .num (-2) "-2")) :=
    Derives.add (Or.inl rfl) (derives_number rfl .expr) (derives_number rfl .term)
  have hleft : build .standard Language.arith " -1 + -2 " = .done (.ok _) :=
    build_eq_ok_iff.mpr ⟨_, rfl, hsum⟩
  have hright : build .standard Language.arith "-3" = .done (.ok (.literal .num (-3) "-3")) :=
    build_eq_ok_iff.mpr ⟨_, rfl, derives_number rfl .expr⟩
  have hopening : Language.arith.isOperator '(' = true := by decide
  have hclosing : Language.arith.isOperator ')' = true := by decide
  rcases build_compositional hopening hclosing with ⟨henclosed, hjoined, hwritten⟩
  have hdifference := hjoined '-' (by decide) (by decide) .minus rfl _ _ _ _ hleft hright
  have htext : "(" ++ " -1 + -2 " ++ ")" ++ String.singleton '-' ++ "(" ++ "-3" ++ ")" =
      "( -1 + -2 )-(-3)" := by decide
  rw [htext] at hdifference
  have hagain := henclosed _ _ hdifference
  have htext' : "(" ++ "( -1 + -2 )-(-3)" ++ ")" = "(( -1 + -2 )-(-3))" := by decide
  rw [htext'] at hagain
  exact ⟨hopening, hclosing, _, _, hleft, hright, hdifference, hagain,
    hwritten _ (wellFormed_of_build hdifference).left⟩

end Grammar
end Reckon
