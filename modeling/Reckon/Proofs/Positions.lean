import Reckon.Proofs.UnarySigns

/-!
# All signs are folded at once

The lexer folds a sign while it reads, and what it folded before is part of what it
looks at.  The main statement says that none of this can be seen: folding is a
matter of the unfolded tokens alone, each of which is treated by what stands next
to it.  A text that is refused is refused in the same way in both languages.
-/

namespace Reckon
namespace Token

/-!
# The rule behind some tokens
-/

theorem operandAt_length (front ts : List Token) :
    operandAt (front ++ ts) front.length = atOperand (front.getLast?.map Token.kind) := by
  rcases List.eq_nil_or_concat front with rfl | ⟨init, last, rfl⟩
  · rfl
  · simp [operandAt, atOperand]

theorem foldsAt_length (front : List Token) (t : Token) (ts : List Token) :
    foldsAt (front ++ t :: ts) front.length =
      (t.kind.isSign && ts.head?.any (fun u => decide (u.kind = .num)) &&
        atOperand (front.getLast?.map Token.kind)) := by
  rw [foldsAt, operandAt_length]
  cases ts <;> simp

def foldedBehind (front ts : List Token) : List Token :=
  (List.range' front.length ts.length).filterMap (foldedAt (front ++ ts))

theorem foldedBehind_cons (front : List Token) (t : Token) (ts : List Token) :
    foldedBehind front (t :: ts) =
      (foldedAt (front ++ t :: ts) front.length).toList ++ foldedBehind (front ++ [t]) ts := by
  rw [foldedBehind, foldedBehind, List.length_cons, List.range'_succ, List.filterMap_cons]
  cases foldedAt (front ++ t :: ts) front.length <;> simp

theorem foldedBehind_cons_of_kept {front : List Token} {t : Token} {ts : List Token}
    (htaken : takenAt (front ++ t :: ts) front.length = false)
    (hfolds : foldsAt (front ++ t :: ts) front.length = false) :
    foldedBehind front (t :: ts) = t :: foldedBehind (front ++ [t]) ts := by
  rw [foldedBehind_cons, foldedAt, htaken, hfolds]
  simp

theorem takenAt_length_concat (front : List Token) (t : Token) (ts : List Token) :
    takenAt (front ++ [t] ++ ts) (front ++ [t]).length =
      foldsAt (front ++ t :: ts) front.length := by
  simp [takenAt]

theorem foldedBehind_cons_of_folds {front : List Token} {sign number : Token}
    {ts : List Token} (hfolds : foldsAt (front ++ sign :: number :: ts) front.length = true)
    (hnumber : number.kind = .num) :
    foldedBehind front (sign :: number :: ts) =
      signed sign number :: foldedBehind (front ++ [sign] ++ [number]) ts := by
  have hnext : foldsAt (front ++ [sign] ++ number :: ts) (front ++ [sign]).length = false := by
    rw [foldsAt_length, hnumber]
    rfl
  have htaken : takenAt (front ++ [sign] ++ number :: ts) (front ++ [sign]).length = true := by
    rw [takenAt_length_concat, hfolds]
  rw [foldedBehind_cons, foldedBehind_cons, foldedAt, hfolds, foldedAt, hnext, htaken]
  simp

/-- Behind tokens of which the last one is no folded sign, the rule on neighbours and the
rule at each position agree. -/
theorem foldSignsAfter_eq_foldedBehind {before : Option Kind} {front ts : List Token}
    (hbefore : front.getLast?.map Token.kind = before)
    (htaken : takenAt (front ++ ts) front.length = false) :
    foldSignsAfter before ts = foldedBehind front ts := by
  fun_induction foldSignsAfter before ts generalizing front with
  | case1 before sign number rest hfolds ih =>
      simp only [Bool.and_eq_true, decide_eq_true_eq] at hfolds
      have hhere : foldsAt (front ++ sign :: number :: rest) front.length = true := by
        rw [foldsAt_length, hbefore, hfolds.left.left, hfolds.right]
        simp [hfolds.left.right]
      -- no number is a sign, so the next position is free again
      have hfree : takenAt (front ++ [sign] ++ [number] ++ rest)
          (front ++ [sign] ++ [number]).length = false := by
        rw [takenAt_length_concat, foldsAt_length, hfolds.left.right]
        rfl
      rw [foldedBehind_cons_of_folds hhere hfolds.left.right,
        ih (by simp [hfolds.left.right]) hfree]
  | case2 before sign number rest hfolds ih =>
      have hhere : foldsAt (front ++ sign :: number :: rest) front.length = false := by
        rw [foldsAt_length, hbefore]
        simpa using hfolds
      have hfree : takenAt (front ++ [sign] ++ number :: rest)
          (front ++ [sign]).length = false := by
        rw [takenAt_length_concat, hhere]
      rw [foldedBehind_cons_of_kept htaken hhere, ih (by simp) hfree]
  | case3 before tokens hshort =>
      cases tokens with
      | nil => rfl
      | cons t ts =>
          cases ts with
          | nil =>
              have hhere : foldsAt (front ++ [t]) front.length = false := by
                rw [foldsAt_length]
                simp
              rw [foldedBehind_cons_of_kept htaken hhere]
              rfl
          | cons u us => exact absurd rfl (hshort t u us)

theorem foldSigns_eq_foldAtOnce (raw : List Token) : foldSigns raw = foldAtOnce raw := by
  have hstart : foldSignsAfter none raw = foldedBehind [] raw :=
    foldSignsAfter_eq_foldedBehind rfl rfl
  rw [foldSigns, hstart, foldAtOnce, List.range_eq_range']
  rfl

end Token

/-!
# Two languages side by side
-/

namespace Lexer

open Token

/-- Reading a text with folded signs gives the tokens that it has without folding, folded
at all positions at once, and the same refusal if there are no such tokens. -/
theorem lex_folding_eq_map_foldAtOnce (lang : Language) :
    exists folding : Language, exists plain : Language,
      lang.change { foldSigns := some true } = .ok folding ∧
        lang.change { foldSigns := some false } = .ok plain ∧
          forall text : String, lex folding text = (lex plain text).map foldAtOnce := by
  refine ⟨lang.withFoldSigns true, lang.withFoldSigns false, Language.change_foldSigns lang true,
    Language.change_foldSigns lang false, fun text => ?_⟩
  cases hplain : lex (lang.withFoldSigns false) text with
  | error e =>
      have hsame : lex ((lang.withFoldSigns false).withFoldSigns true) text = .error e :=
        lex_withFoldSigns_error true hplain
      exact hsame
  | ok raw =>
      rcases lex_withFoldSigns_false_eq_ok_iff.mp hplain with ⟨htext, hraw⟩
      have hfolded : lex (lang.withFoldSigns true) text = .ok (foldSigns raw) :=
        lex_eq_ok_iff_spells.mpr ⟨htext, raw, spells_withFoldSigns.mpr hraw, rfl⟩
      rw [hfolded, foldSigns_eq_foldAtOnce]
      rfl

theorem lex_folding_last_of_three :
    exists folding : Language, exists plain : Language,
      Language.arith.change { foldSigns := some true } = .ok folding ∧
      Language.arith.change { foldSigns := some false } = .ok plain ∧
      lex plain "2-+-3" =
        .ok [⟨.num, "2"⟩, ⟨.minus, "-"⟩, ⟨.plus, "+"⟩, ⟨.minus, "-"⟩, ⟨.num, "3"⟩] ∧
      lex folding "2-+-3" = .ok [⟨.num, "2"⟩, ⟨.minus, "-"⟩, ⟨.plus, "+"⟩, ⟨.num, "-3"⟩] := by
  rcases lex_folding_eq_map_foldAtOnce Language.arith with
    ⟨folding, plain, hfolding, hplain, hlex⟩
  have hraw : lex plain "2-+-3" =
      .ok [⟨.num, "2"⟩, ⟨.minus, "-"⟩, ⟨.plus, "+"⟩, ⟨.minus, "-"⟩, ⟨.num, "3"⟩] := by
    rw [Language.change_foldSigns, Except.ok.injEq] at hplain
    rw [<- hplain]
    rfl
  refine ⟨folding, plain, hfolding, hplain, hraw, ?_⟩
  rw [hlex, hraw]
  rfl

end Lexer
end Reckon
