import Reckon.Proofs.Enclosing
import Reckon.Proofs.Nesting
import Reckon.Proofs.Reading
import Reckon.Token.Segmentation

/-!
# Expressions in any spacing

Tokens written one behind the other are not read as the same tokens in general: two
numbers run together, and a sign that was kept may be folded into the number behind it.
In an expression neither can happen.  Between two numbers stands some operator, and a
sign in front of a number is folded exactly where an operand is due, so the tokens of an
expression with any blanks before, between and behind them are read as they are.
-/

namespace Reckon

namespace Token

variable {lang : Language}

/-!
# One more token
-/

theorem FoldsTo.head_ne_num {fold : Bool} {raw ts : List Token} (h : FoldsTo fold raw ts)
    (hhead : forall t : Token, ts.head? = some t -> t.kind ≠ .num) :
    forall t : Token, raw.head? = some t -> t.kind ≠ .num := by
  cases h with
  | nil => simp
  | keep => exact hhead
  | sign => exact absurd rfl (hhead _ rfl)

theorem SpellsFolded.behind_gap {gap cs : List Char} {ts : List Token} (hgap : IsGap lang gap)
    (h : SpellsFolded lang cs ts) : SpellsFolded lang (gap ++ cs) ts := by
  rcases h with ⟨raw, hraw, hfolds⟩
  exact ⟨raw, (spells_gap hgap).mpr hraw, hfolds⟩

theorem SpellsFolded.cons {t : Token} {more : List Char} {ts : List Token}
    (h : SpellsFolded lang more ts) (ht : Emitted lang t)
    (hapart : t.kind = .num -> forall u : Token, ts.head? = some u -> u.kind ≠ .num) :
    SpellsFolded lang (t.text.toList ++ more) (t :: ts) := by
  by_cases hkind : t.kind = .num
  · rcases t with ⟨kind, text⟩
    obtain rfl : kind = .num := hkind
    rcases spellsFolded_number ht with ⟨first, hfirst, hfolds⟩
    rcases h with ⟨raw, hraw, hrest⟩
    exact ⟨first ++ raw, hfirst.append hraw (hrest.head_ne_num (hapart rfl)), hfolds.append hrest⟩
  · have hnone : IsGap lang [] := by simp [IsGap]
    exact spellsFolded_nil.operator hnone (ht.written_of_ne_num hkind) hkind hnone h

end Token

namespace Grammar

open Token

variable {bound : DigitBound} {lang : Language}

/-!
# Spellings along a walk
-/

theorem Walk.head_ne_num {depth : Nat} {q : Place} {ts : List Token}
    (h : Walk ⟨.operator, depth⟩ ts q) :
    forall t : Token, ts.head? = some t -> t.kind ≠ .num := by
  intro t ht hnum
  cases h with
  | nil => cases ht
  | cons hlead _ =>
      obtain rfl := Option.some.inj ht
      rw [hnum] at hlead
      cases hlead with
      | operator _ hop => cases hop

theorem Walk.spellsFolded {p q : Place} {lead : List Char} {pieces : List Piece}
    (h : Walk p (Segmentation.tokens ⟨lead, pieces⟩) q) (hlead : IsGap lang lead)
    (hpieces : forall piece : Piece, piece ∈ pieces ->
      Emitted lang piece.token ∧ IsGap lang piece.gap) :
    SpellsFolded lang (Segmentation.characters ⟨lead, pieces⟩)
      (Segmentation.tokens ⟨lead, pieces⟩) := by
  induction pieces generalizing p lead with
  | nil => exact spellsFolded_nil.behind_gap hlead
  | cons piece pieces ih =>
      rcases List.forall_mem_cons.mp hpieces with ⟨⟨hemitted, hgap⟩, hrest⟩
      cases h with
      | @cons _ r _ _ _ hleads hwalk =>
          have hmore : SpellsFolded lang (Segmentation.characters ⟨piece.gap, pieces⟩)
              (Segmentation.tokens ⟨piece.gap, pieces⟩) := ih hwalk hgap hrest
          rw [Segmentation.characters_cons, List.append_assoc]
          refine (hmore.cons hemitted fun hnum => ?_).behind_gap hlead
          rw [hnum] at hleads
          cases hleads with
          | number => exact hwalk.head_ne_num
          | operator _ hop => cases hop

theorem lex_of_derives {level : Level} {root : Expr} {d : Segmentation}
    (hderives : Derives (Number bound) level d.tokens root) (hlead : IsGap lang d.lead)
    (hpieces : forall piece : Piece, piece ∈ d.pieces ->
      Emitted lang piece.token ∧ IsGap lang piece.gap) :
    Lexer.lex lang (String.ofList d.characters) = .ok d.tokens := by
  have hspells : SpellsFolded lang d.characters d.tokens :=
    (hderives.walk oneNumber_number 0).spellsFolded hlead hpieces
  exact lex_eq_ok_of_spellsFolded (by simpa using hspells) hderives

/-!
# Parsed tokens
-/

theorem Walk.kinds {p q : Place} {ts : List Token} (h : Walk p ts q) :
    forall t : Token, t ∈ ts -> t.kind = .num ∨ t.kind.isOperator = true := by
  induction h with
  | nil => simp
  | @cons _ _ _ t _ hlead _ ih =>
      refine List.forall_mem_cons.mpr ⟨?_, ih⟩
      generalize t.kind = k at hlead ⊢
      cases hlead with
      | number => exact Or.inl rfl
      | opening | closing => exact Or.inr rfl
      | operator _ hop =>
          cases k with
          | plus | minus | star | slash => exact Or.inr rfl
          | _ => cases hop

theorem arith_emitted {t : Token} (hkind : t.kind = .num ∨ t.kind.isOperator = true)
    (hoperator : t.kind.isOperator = true -> t.text = t.kind.text)
    (hnumber : t.kind = .num -> Numeral.IsCanonical t.text.toList) : Emitted Language.arith t := by
  rcases t with ⟨k, text⟩
  rcases hkind with hnum | hoperatorKind
  · obtain rfl : k = .num := hnum
    exact arith_emitted_number (hnumber rfl)
  · obtain rfl : text = k.text := hoperator hoperatorKind
    cases k with
    | plus | minus | star | slash | openParen | closeParen =>
        exact Emitted.written (written_of_symbol rfl (by decide))
    | _ => cases hoperatorKind

/-- Parsed tokens in the form that they have in texts are read from any text that consists of
them with blanks before, between and behind them.  No blanks are needed at all. -/
theorem lex_respaced {ts : List Token} {root : Expr} (hparse : parse bound ts = .done (.ok root))
    (hoperators : forall t : Token, t ∈ ts -> t.kind.isOperator = true -> t.text = t.kind.text)
    (hnumbers : forall t : Token, t ∈ ts -> t.kind = .num ->
      Numeral.IsCanonical t.text.toList) :
    (forall d : Segmentation, d.tokens = ts -> IsGap Language.arith d.lead ->
      (forall piece : Piece, piece ∈ d.pieces -> IsGap Language.arith piece.gap) ->
        Lexer.lex Language.arith (String.ofList d.characters) = .ok ts) ∧
    Lexer.lex Language.arith (Token.texts ts) = .ok ts := by
  have hderives := derives_of_parse hparse
  have hemitted : forall t : Token, t ∈ ts -> Emitted Language.arith t := by
    intro t ht
    have hkind := (hderives.walk oneNumber_number 0).kinds t ht
    exact arith_emitted hkind (hoperators t ht) (hnumbers t ht)
  have hspaced : forall d : Segmentation, d.tokens = ts -> IsGap Language.arith d.lead ->
      (forall piece : Piece, piece ∈ d.pieces -> IsGap Language.arith piece.gap) ->
        Lexer.lex Language.arith (String.ofList d.characters) = .ok ts := by
    rintro d rfl hlead hgaps
    exact lex_of_derives hderives hlead fun piece hpiece =>
      ⟨hemitted _ (List.mem_map_of_mem hpiece), hgaps piece hpiece⟩
  refine ⟨hspaced, ?_⟩
  have hnone : IsGap Language.arith [] := by simp [IsGap]
  have htokens : Segmentation.tokens ⟨[], ts.map fun t => ⟨t, []⟩⟩ = ts := by
    rw [Segmentation.tokens, List.map_map]
    exact List.map_id ts
  have hall := hspaced ⟨[], ts.map fun t => ⟨t, []⟩⟩ htokens hnone
    (List.forall_mem_map.mpr fun _ _ => hnone)
  have htext : String.ofList (Segmentation.characters ⟨[], ts.map fun t => ⟨t, []⟩⟩) =
      Token.texts ts := by
    rw [<- String.toList_inj, String.toList_ofList, toList_texts]
    simp [Segmentation.characters, Piece.characters, List.flatMap_map]
  rw [<- htext]
  exact hall

theorem lex_respaced_negative_operand :
    exists root : Expr,
      parse .standard [⟨.num, "2"⟩, ⟨.minus, "-"⟩, ⟨.num, "-3"⟩] = .done (.ok root) ∧
        Lexer.lex Language.arith "2 -\t-3\n" =
          .ok [⟨.num, "2"⟩, ⟨.minus, "-"⟩, ⟨.num, "-3"⟩] ∧
        Lexer.lex Language.arith "2--3" =
          .ok [⟨.num, "2"⟩, ⟨.minus, "-"⟩, ⟨.num, "-3"⟩] := by
  have hderives : Derives (Number .standard) .expr
      ([⟨.num, "2"⟩] ++ ⟨.minus, "-"⟩ :: [⟨.num, "-3"⟩])
      (.join (.literal .num 2 "2") .minus (.literal .num (-3) "-3")) :=
    Derives.add (Or.inr rfl) (derives_number rfl .expr) (derives_number rfl .term)
  have hparse := parse_eq_ok_iff_derives.mpr hderives
  have htwo : Numeral.IsPlain ['2'] := Or.inr ⟨'2', [], rfl, by decide, by simp⟩
  have hthree : Numeral.IsPlain ['3'] := Or.inr ⟨'3', [], rfl, by decide, by simp⟩
  have hnumbers : Numeral.IsCanonical ['2'] ∧ Numeral.IsCanonical ['-', '3'] :=
    ⟨Or.inl htwo, Or.inr ⟨['3'], rfl, hthree⟩⟩
  have hgap {c : Char} (hc : Language.arith.isBlank c = true) : IsGap Language.arith [c] := by
    simpa [IsGap] using hc
  rcases lex_respaced hparse (by decide) (by simpa using hnumbers) with ⟨hspaced, htexts⟩
  refine ⟨_, hparse, hspaced ⟨[], [⟨⟨.num, "2"⟩, [' ']⟩, ⟨⟨.minus, "-"⟩, ['\t']⟩,
    ⟨⟨.num, "-3"⟩, ['\n']⟩]⟩ rfl (by simp [IsGap]) ?_, htexts⟩
  simpa using ⟨hgap (c := ' ') (by decide), hgap (c := '\t') (by decide),
    hgap (c := '\n') (by decide)⟩

end Grammar
end Reckon
