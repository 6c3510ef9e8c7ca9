import Reckon.Proofs.Printing

/-!
# Enlarged languages

A language may be given further operators and further separators.  A text that could be
read before spells the same tokens as before, as long as no digit becomes a separator.
Nothing has to be said about operators that become separators or the other way round,
since in neither of the two languages a separator is among the operators.

The conditions cannot be relaxed, since texts of a single character tell all of them.
-/

namespace Reckon
namespace Language

variable {lang smaller larger : Language} {c : Char}

/-- A language with all operators and separators of a smaller one, in which no further
digit separates tokens. -/
structure Enlarges (larger smaller : Language) : Prop where
  foldSigns : larger.foldSigns = smaller.foldSigns
  operators : forall c : Char, c ∈ smaller.operators.toList -> c ∈ larger.operators.toList
  whitespace : forall c : Char, c ∈ smaller.whitespace.toList -> c ∈ larger.whitespace.toList
  digits : forall c : Char, '0' ≤ c ∧ c ≤ '9' -> c ∈ larger.whitespace.toList ->
    c ∈ smaller.whitespace.toList

theorem arith_enlarges_strictSpace : arith.Enlarges strictSpace := by
  refine ⟨rfl, fun c hc => hc, by simp [arith, strictSpace], ?_⟩
  intro c hdigit hc
  have hblank : c = ' ' ∨ c = '\t' ∨ c = '\r' ∨ c = '\n' := by simpa [arith] using hc
  rcases hblank with rfl | rfl | rfl | rfl <;> exact absurd hdigit (by decide)

theorem Enlarges.not_isBlank (h : larger.Enlarges smaller) (hc : smaller.isDigit c = true) :
    larger.isBlank c = false := by
  rcases isDigit_iff.mp hc with ⟨hdigit, hblank⟩
  rw [Bool.eq_false_iff] at hblank ⊢
  intro hlarger
  exact hblank (isBlank_iff.mpr (h.digits c hdigit (isBlank_iff.mp hlarger)))

theorem Enlarges.resolve_eq (h : larger.Enlarges smaller) (raw : List Token) :
    larger.resolve raw = smaller.resolve raw := by
  unfold resolve
  rw [h.foldSigns]

end Language

namespace Lexer

open Token

variable {lang smaller larger : Language} {c : Char}

theorem lex_enlarged (h : larger.Enlarges smaller) {text : String} {tokens : List Token}
    (hlex : lex smaller text = .ok tokens) : lex larger text = .ok tokens := by
  rcases lex_eq_ok_iff_spells.mp hlex with ⟨htext, raw, hraw, hresolve⟩
  have hlarger : Spells larger text.toList raw := hraw.mono
    (fun c hc => Language.isOperator_iff.mpr (h.operators c (Language.isOperator_iff.mp hc)))
    (fun c hc => Language.isBlank_iff.mpr (h.whitespace c (Language.isBlank_iff.mp hc)))
    (fun c hc => h.not_isBlank hc)
  exact lex_eq_ok_iff_spells.mpr ⟨htext, raw, hlarger, by rw [h.resolve_eq, hresolve]⟩

/-!
# Texts of a single character
-/

theorem lex_blank (h : lang.isBlank c = true) : lex lang (String.singleton c) = .ok [] := by
  rw [lex_eq_ok_iff_spells, String.toList_singleton]
  exact ⟨by simp, [], (spells_blank h).mpr (spells_nil.mpr rfl), lang.resolve_nil⟩

theorem lex_digit (h : lang.isDigit c = true) :
    lex lang (String.singleton c) = .ok [⟨.num, String.singleton c⟩] := by
  rcases Language.isDigit_iff.mp h with ⟨hdigit, hblank⟩
  have hplain : Numeral.IsPlain (String.singleton c).toList := by
    rw [String.toList_singleton]
    rcases Numeral.eq_zero_or_nonzero hdigit with rfl | hnonzero
    · exact Or.inl rfl
    · exact Or.inr ⟨c, [], rfl, hnonzero, by simp⟩
  have hwritten : Written lang ⟨.num, String.singleton c⟩ :=
    Written.number hplain (by simpa [String.toList_singleton] using hblank)
  exact lex_written hwritten

theorem lex_operator_iff {k : Kind} (hk : Kind.ofChar? c = some k) :
    lex lang (String.singleton c) = .ok [⟨k, String.singleton c⟩] <->
      lang.isOperator c = true := by
  constructor
  · intro hlex
    rcases lex_eq_ok_iff_spells.mp hlex with ⟨_, raw, hraw, _⟩
    rcases hraw.classes c (by simp) with hoperator | hblank | hdigit
    · exact hoperator
    · rw [lex_blank hblank] at hlex
      cases hlex
    · exact absurd (Language.isDigit_iff.mp hdigit).left (Kind.not_digit_of_ofChar? hk)
  · intro hoperator
    exact lex_written (Written.operator hoperator hk)

theorem lex_blank_iff : lex lang (String.singleton c) = .ok [] <-> lang.isBlank c = true := by
  refine ⟨fun hlex => ?_, lex_blank⟩
  rcases lex_eq_ok_iff_spells.mp hlex with ⟨_, raw, hraw, _⟩
  rcases hraw.classes c (by simp) with hoperator | hblank | hdigit
  · rcases Language.ofChar?_of_isOperator hoperator with ⟨k, hk⟩
    rw [(lex_operator_iff hk).mpr hoperator] at hlex
    cases hlex
  · exact hblank
  · rw [lex_digit hdigit] at hlex
    cases hlex

/-- Between languages that agree on folding, just the enlargements keep the tokens of every
text that can be read. -/
theorem enlarges_iff_lex (hfold : larger.foldSigns = smaller.foldSigns) :
    larger.Enlarges smaller <->
      forall (text : String) (tokens : List Token),
        lex smaller text = .ok tokens -> lex larger text = .ok tokens := by
  refine ⟨fun h _ _ => lex_enlarged h, fun h => ⟨hfold, ?operators, ?whitespace, ?digits⟩⟩
  case operators =>
      intro c hc
      have hoperator := Language.isOperator_iff.mpr hc
      rcases Language.ofChar?_of_isOperator hoperator with ⟨k, hk⟩
      exact Language.isOperator_iff.mp
        ((lex_operator_iff hk).mp (h _ _ ((lex_operator_iff hk).mpr hoperator)))
  case whitespace =>
      intro c hc
      have hblank := Language.isBlank_iff.mpr hc
      exact Language.isBlank_iff.mp (lex_blank_iff.mp (h _ _ (lex_blank hblank)))
  case digits =>
      intro c hascii hc
      refine Language.isBlank_iff.mp ?_
      cases hblank : smaller.isBlank c with
      | true => rfl
      | false =>
          have hnumber := h _ _ (lex_digit (Language.isDigit_iff.mpr ⟨hascii, hblank⟩))
          rw [lex_blank (Language.isBlank_iff.mpr hc)] at hnumber
          cases hnumber

end Lexer

namespace Grammar

/-- In an enlarged language every text that could be read has the tokens and the tree that it
had before. -/
theorem reading_enlarged (bound : DigitBound) {smaller larger : Language}
    (h : larger.Enlarges smaller) (text : String) :
    (forall tokens : List Token,
      Lexer.lex smaller text = .ok tokens -> Lexer.lex larger text = .ok tokens) ∧
    forall root : Expr,
      build bound smaller text = .done (.ok root) ->
        build bound larger text = .done (.ok root) := by
  refine ⟨fun _ => Lexer.lex_enlarged h, fun root hbuild => ?_⟩
  rcases build_eq_ok_iff.mp hbuild with ⟨tokens, hlex, hderives⟩
  exact build_eq_ok_iff.mpr ⟨tokens, Lexer.lex_enlarged h hlex, hderives⟩

theorem reading_enlarged_arith :
    Language.arith.Enlarges Language.strictSpace ∧
      Lexer.lex Language.arith "8 - -2" =
        .ok [⟨.num, "8"⟩, ⟨.minus, "-"⟩, ⟨.num, "-2"⟩] ∧
      build .standard Language.arith "8 - -2" =
        .done (.ok (Expr.join (.literal .num 8 "8") .minus (.literal .num (-2) "-2"))) := by
  have hderives : Derives (Number .standard) .expr
      ([⟨.num, "8"⟩] ++ ⟨.minus, "-"⟩ :: [⟨.num, "-2"⟩])
      (Expr.join (.literal .num 8 "8") .minus (.literal .num (-2) "-2")) :=
    Derives.add (Or.inr rfl) (derives_number rfl .expr) (derives_number rfl .term)
  have hbuild : build .standard Language.strictSpace "8 - -2" = .done (.ok _) :=
    build_eq_ok_iff.mpr ⟨_, rfl, hderives⟩
  have hkept := reading_enlarged .standard Language.arith_enlarges_strictSpace "8 - -2"
  exact ⟨Language.arith_enlarges_strictSpace, hkept.left _ rfl, hkept.right _ hbuild⟩

end Grammar
end Reckon
