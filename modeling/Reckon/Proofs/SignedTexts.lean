import Reckon.Proofs.Decimals

/-!
# Texts with signs

Reading a text with folded signs is the same as reading its signs as tokens of their own
in a grammar that lets a number have one.  What neither grammar knows of is the length of
numbers: a number of too many digits is derivable, but ends the run.
-/

namespace Reckon

open Token

theorem Lexer.lex_unfolded_number {lang : Language} {text : String}
    (h : Written lang ⟨.num, text⟩) :
    lex (lang.withFoldSigns false) text = .ok [⟨.num, text⟩] :=
  lex_withFoldSigns_false_eq_ok_iff.mpr ⟨h.text_ne_empty, h.spells⟩

namespace Grammar

/-- Folding signs while reading is the same as reading them as tokens of their own in
a grammar that lets a number have a sign, for texts whose numbers have no more digits than
are allowed.  No other text has a tree. -/
theorem build_eq_ok_iff_signed (bound : DigitBound) {lang : Language}
    (hfold : lang.foldSigns = true) :
    exists plain : Language, lang.change { foldSigns := some false } = .ok plain ∧
      forall (text : String) (root : Expr),
        build bound lang text = .done (.ok root) <->
          exists raw : List Token,
            Lexer.lex plain text = .ok raw ∧ Derives SignedNumber .expr raw root ∧
              forall t : Token, t ∈ raw -> t.kind = .num ->
                bound.Allows (Numeral.length t.text) := by
  refine ⟨lang.withFoldSigns false, lang.change_foldSigns false, ?_⟩
  intro text root
  rw [build_eq_ok_iff]
  constructor
  · rintro ⟨tokens, hlex, hderives⟩
    rcases derives_iff_unbounded.mp hderives with ⟨hderives, hreadable⟩
    rcases Lexer.lex_eq_ok_iff_spells.mp hlex with ⟨htext, raw, hraw, rfl⟩
    have hplain := fun t ht => (hraw.written t ht).isPlain
    have hfolds := foldsTo_resolve lang raw
    rw [hfold] at hfolds
    exact ⟨raw, Lexer.lex_withFoldSigns_false_eq_ok_iff.mpr ⟨htext, hraw⟩,
      hderives.unfolded hfolds hplain, (FoldsTo.readable_iff hfolds hplain).mp hreadable⟩
  · rintro ⟨raw, hlex, hderives, hallowed⟩
    rcases Lexer.lex_withFoldSigns_false_eq_ok_iff.mp hlex with ⟨htext, hraw⟩
    have hplain := fun t ht => (hraw.written t ht).isPlain
    rcases hderives.folded hplain with ⟨ts, hfolds, hts⟩
    refine ⟨ts, Lexer.lex_eq_ok_iff_spells.mpr ⟨htext, raw, hraw, ?_⟩,
      derives_iff_unbounded.mpr ⟨hts, (FoldsTo.readable_iff hfolds hplain).mpr hallowed⟩⟩
    exact hts.resolve_eq (by rw [hfold]; exact hfolds)

theorem build_difference_of_negative :
    Language.arith.foldSigns = true ∧
      build .standard Language.arith "2 - -3" =
        .done (.ok (.join (.literal .num 2 "2") .minus (.literal .num (-3) "-3"))) := by
  have hfold : Language.arith.foldSigns = true := rfl
  rcases build_eq_ok_iff_signed .standard hfold with ⟨plain, hplain, hbuild⟩
  rw [Language.change_foldSigns, Except.ok.injEq] at hplain
  have htwo : SignedNumber [⟨.num, "2"⟩] (.literal .num 2 "2") := SignedNumber.plain rfl rfl
  have hthree : SignedNumber [⟨.minus, "-"⟩, ⟨.num, "3"⟩] (.literal .num (-3) "-3") :=
    SignedNumber.minus rfl rfl rfl
  have hderives :
      Derives SignedNumber .expr ([⟨.num, "2"⟩] ++ ⟨.minus, "-"⟩ :: [⟨.minus, "-"⟩, ⟨.num, "3"⟩])
        (.join (.literal .num 2 "2") .minus (.literal .num (-3) "-3")) :=
    Derives.add (Or.inr rfl) (Derives.term (Derives.factor (Derives.operand htwo)))
      (Derives.factor (Derives.operand hthree))
  refine ⟨hfold, (hbuild "2 - -3" _).mpr ⟨_, ?_, hderives, by decide⟩⟩
  rw [<- hplain]
  rfl

/-- The decimal text of the smallest integer with too many digits is a number of its own, and
with that derivable, but has no tree. -/
theorem build_ne_ok_of_signed_but_long :
    Language.arith.foldSigns = true ∧
    exists plain : Language, Language.arith.change { foldSigns := some false } = .ok plain ∧
    exists raw : List Token, exists root : Expr,
      Lexer.lex plain (toString (10 ^ 4300 : Int)) = .ok raw ∧
        Derives SignedNumber .expr raw root ∧
        build .standard Language.arith (toString (10 ^ 4300 : Int)) =
          .raised (.tooLong 4300 4301) := by
  have hplain : Numeral.IsPlain (toString (10 ^ 4300 : Int)).toList :=
    Numeral.isPlain_toString_pow 4300
  have hvalue : Numeral.value? (toString (10 ^ 4300 : Int)) = some (10 ^ 4300) :=
    (Numeral.toString_denotes _).right
  have hnumber : SignedNumber [⟨.num, toString (10 ^ 4300 : Int)⟩] _ :=
    SignedNumber.plain rfl hvalue
  exact ⟨rfl, _, Language.arith.change_foldSigns false, _, _,
    Lexer.lex_unfolded_number (arith_written_number hplain),
    (Derives.operand hnumber).of_factor .expr, build_pow 4300 (by decide)⟩

end Grammar
end Reckon
