import Reckon.Expr.Grouping
import Reckon.Proofs.Enclosing
import Reckon.Proofs.Unreadable

/-!
# Integers and their decimal texts

The decimal text of an integer is read as a single literal of this value, provided that the
integer can be written at all: one digit too many stands in the way of writing and of reading
alike.  In the other direction nothing but `-0` is lost: plain digits are the decimal digits
of their value, since none of them can be left out in front, and every literal that a text
leads to is written in plain digits behind at most one minus sign.
-/

namespace Reckon
namespace Numeral

/-!
# Single digits
-/

theorem digit_of_isDigit {c : Char} (h : c.isDigit = true) : '0' ≤ c ∧ c ≤ '9' := by
  simp only [Char.isDigit, Bool.and_eq_true, decide_eq_true_eq] at h
  exact h

theorem digitChar_of_digit {c : Char} (h : '0' ≤ c ∧ c ≤ '9') :
    Nat.digitChar (c.toNat - 48) = c := by
  have hrange := toNat_of_digit h
  apply Char.toNat_inj.mp
  rw [Nat.toNat_digitChar_of_lt_ten (by omega)]
  omega

/-!
# Decimal digits are plain
-/

theorem digits_toDigits (n : Nat) :
    forall c : Char, c ∈ Nat.toDigits 10 n -> '0' ≤ c ∧ c ≤ '9' := by
  intro c hc
  exact digit_of_isDigit (Nat.isDigit_of_mem_toDigits (by decide) (by decide) hc)

theorem head?_toDigits {n : Nat} (hn : 0 < n) : (Nat.toDigits 10 n).head? ≠ some '0' := by
  induction n using Nat.base_induction 10 (by decide) with
  | single m hm =>
      rw [Nat.toDigits_of_lt_base hm, List.head?_singleton, ne_eq, Option.some_inj,
        Nat.digitChar_eq_zero]
      omega
  | digit m k hk hm ih =>
      have hsome : (Nat.toDigits 10 m).head?.isSome = true := by simp
      rw [<- Nat.toDigits_append_toDigits (by decide) hm hk, List.head?_append,
        Option.or_of_isSome hsome]
      exact ih hm

theorem isPlain_toDigits (n : Nat) : IsPlain (Nat.toDigits 10 n) := by
  rcases Nat.eq_zero_or_pos n with rfl | hn
  · exact Or.inl (Nat.toDigits_zero 10)
  · have hdigits := digits_toDigits n
    have hhead := head?_toDigits hn
    cases hcs : Nat.toDigits 10 n with
    | nil => exact absurd hcs Nat.toDigits_ne_nil
    | cons c rest =>
        rw [hcs] at hdigits hhead
        rcases List.forall_mem_cons.mp hdigits with ⟨hc, hrest⟩
        have hzero : c ≠ '0' := fun hzero => hhead (by rw [hzero]; rfl)
        exact Or.inr ⟨c, rest, rfl, (eq_zero_or_nonzero hc).resolve_left hzero, hrest⟩

/-!
# Plain digits are decimal
-/

theorem toDigits_append {value : Nat} (hvalue : 0 < value) {cs : List Char}
    (h : forall c : Char, c ∈ cs -> '0' ≤ c ∧ c ≤ '9') :
    Nat.toDigits 10 value ++ cs = Nat.toDigits 10 (Nat.ofDigitChars 10 cs value) := by
  induction cs generalizing value with
  | nil => simp
  | cons c rest ih =>
      rcases List.forall_mem_cons.mp h with ⟨hc, hrest⟩
      have hrange := toNat_of_digit hc
      have hsmall : c.toNat - 48 < 10 := by omega
      have hlast : Nat.toDigits 10 value ++ [c] =
          Nat.toDigits 10 (10 * value + (c.toNat - 48)) := by
        rw [<- Nat.toDigits_append_toDigits (by decide) hvalue hsmall,
          Nat.toDigits_of_lt_base hsmall, digitChar_of_digit hc]
      calc Nat.toDigits 10 value ++ c :: rest
          = (Nat.toDigits 10 value ++ [c]) ++ rest := by simp
        _ = Nat.toDigits 10 (10 * value + (c.toNat - 48)) ++ rest := by rw [hlast]
        _ = Nat.toDigits 10 (Nat.ofDigitChars 10 rest (10 * value + (c.toNat - 48))) :=
            ih (by omega) hrest
        _ = Nat.toDigits 10 (Nat.ofDigitChars 10 (c :: rest) value) := by
            rw [Nat.ofDigitChars_cons]
            rfl

theorem IsPlain.eq_toDigits {cs : List Char} (h : IsPlain cs) :
    cs = Nat.toDigits 10 (Nat.ofDigitChars 10 cs 0) := by
  rcases h with rfl | ⟨c, rest, rfl, hc, hrest⟩
  · rfl
  · have hdigit := digit_of_nonzero hc
    have hrange := toNat_of_digit hdigit
    have hone : '1'.toNat ≤ c.toNat := UInt32.le_iff_toNat_le.mp hc.left
    have hpositive : 0 < c.toNat - 48 := by
      change 49 ≤ c.toNat at hone
      omega
    have hfirst : Nat.toDigits 10 (c.toNat - 48) = [c] := by
      rw [Nat.toDigits_of_lt_base (by omega), digitChar_of_digit hdigit]
    have hall := toDigits_append hpositive hrest
    rw [hfirst] at hall
    rw [Nat.ofDigitChars_cons]
    simpa using hall

/-!
# Integers
-/

theorem toList_toString_natCast (n : Nat) : (toString (n : Int)).toList = Nat.toDigits 10 n := by
  rw [Int.toString_eq_repr, Int.repr_eq_if, if_pos (Int.natCast_nonneg n), Int.toNat_natCast,
    Nat.toList_repr]

theorem toString_neg {n : Nat} (hn : 0 < n) :
    toString (-(n : Int)) = "-" ++ toString (n : Int) := by
  have hnegative : ¬ (0 : Int) ≤ -(n : Int) := by omega
  rw [Int.toString_eq_repr, Int.toString_eq_repr, Int.repr_eq_if, if_neg hnegative, Int.neg_neg,
    Int.repr_eq_if (a := (n : Int)), if_pos (Int.natCast_nonneg n)]

theorem isPlain_toString (n : Nat) : IsPlain (toString (n : Int)).toList := by
  rw [toList_toString_natCast]
  exact isPlain_toDigits n

theorem value?_toString_natCast (n : Nat) : value? (toString (n : Int)) = some (n : Int) := by
  rw [value?_of_isPlain (isPlain_toString n), toList_toString_natCast,
    Nat.ofDigitChars_ten_toDigits]

theorem toString_denotes (n : Int) :
    IsCanonical (toString n).toList ∧ value? (toString n) = some n := by
  rcases Int.eq_nat_or_neg n with ⟨m, rfl | rfl⟩
  · exact ⟨Or.inl (isPlain_toString m), value?_toString_natCast m⟩
  · rcases Nat.eq_zero_or_pos m with rfl | hm
    · exact ⟨Or.inl (isPlain_toString 0), value?_toString_natCast 0⟩
    · rw [toString_neg hm]
      exact ⟨Or.inr ⟨_, toList_minus _, isPlain_toString m⟩,
        value?_minus (isPlain_toString m) (value?_toString_natCast m)⟩

theorem eq_toString_of_isPlain {text : String} (h : IsPlain text.toList) :
    text = toString (Nat.ofDigitChars 10 text.toList 0 : Int) := by
  rw [<- String.toList_inj, toList_toString_natCast]
  exact h.eq_toDigits

theorem IsCanonical.eq_toString {raw : String} {value : Int} (h : IsCanonical raw.toList)
    (hvalue : value? raw = some value) :
    raw = toString value ∨ raw = "-0" ∧ value = 0 := by
  rcases h with hplain | ⟨digits, hraw, hplain⟩
  · rw [value?_of_isPlain hplain, Option.some_inj] at hvalue
    rw [<- hvalue]
    exact Or.inl (eq_toString_of_isPlain hplain)
  · have htext : raw = "-" ++ String.ofList digits := by
      rw [<- String.toList_inj, toList_minus, hraw, String.toList_ofList]
    have hplain' : IsPlain (String.ofList digits).toList := by
      rw [String.toList_ofList]
      exact hplain
    have hdigits := eq_toString_of_isPlain hplain'
    rw [htext, value?_minus hplain' (value?_of_isPlain hplain'), Option.some_inj] at hvalue
    generalize Nat.ofDigitChars 10 (String.ofList digits).toList 0 = n at hdigits hvalue
    rw [hdigits] at htext
    rw [htext, <- hvalue]
    rcases Nat.eq_zero_or_pos n with rfl | hn
    · exact Or.inr ⟨rfl, rfl⟩
    · exact Or.inl (toString_neg hn).symm

theorem length_toString (n : Int) : length (toString n) = (Nat.toDigits 10 n.natAbs).length := by
  have hnat (m : Nat) : length (toString (m : Int)) = (Nat.toDigits 10 m).length := by
    rw [length_of_isPlain (isPlain_toString m), toList_toString_natCast]
  rcases Int.eq_nat_or_neg n with ⟨m, rfl | rfl⟩
  · exact hnat m
  · rw [Int.natAbs_neg, Int.natAbs_natCast, <- hnat]
    rcases Nat.eq_zero_or_pos m with rfl | hm
    · rfl
    · rw [toString_neg hm, length_minus (isPlain_toString m)]

theorem isPlain_toString_pow (n : Nat) : IsPlain (toString (10 ^ n : Int)).toList := by
  have hpow : (10 ^ n : Int) = ((10 ^ n : Nat) : Int) := (Int.natCast_pow 10 n).symm
  rw [hpow]
  exact isPlain_toString (10 ^ n)

theorem length_toString_pow (n : Nat) : length (toString (10 ^ n : Int)) = n + 1 := by
  rw [length_toString, length_toDigits_natAbs_pow]

variable {bound : DigitBound}

theorem read_of_write {n : Int} {text : String} (h : write bound n = .ok text) :
    IsCanonical text.toList ∧ read bound text = .ok n := by
  rcases write_eq_ok_iff.mp h with ⟨hallowed, rfl⟩
  rcases toString_denotes n with ⟨hcanonical, hvalue⟩
  rw [<- length_toString] at hallowed
  exact ⟨hcanonical, read_eq_ok_iff.mpr ⟨hallowed, hvalue⟩⟩

theorem read_of_write_error {n : Int} {e : Unwritable} (h : write bound n = .error e) :
    read bound (toString n) = .error (.tooLong e.allowed (length (toString n))) := by
  rw [write_eq_error_iff, <- length_toString] at h
  exact read_eq_error_iff.mpr (Or.inl ⟨e.allowed, h, rfl⟩)

theorem IsCanonical.write_eq {raw : String} {value : Int} (h : IsCanonical raw.toList)
    (hread : read bound raw = .ok value) :
    write bound value = .ok raw ∨ raw = "-0" ∧ value = 0 := by
  rcases read_eq_ok_iff.mp hread with ⟨hallowed, hvalue⟩
  rcases h.eq_toString hvalue with rfl | hzero
  · rw [length_toString] at hallowed
    exact Or.inl (write_eq_ok_iff.mpr ⟨hallowed, rfl⟩)
  · exact Or.inr hzero

end Numeral

namespace Expr

theorem WellFormed.partOf {bound : DigitBound} {e part : Expr} (hpart : PartOf part e)
    (h : WellFormed bound e) :
    WellFormed bound part := by
  induction hpart with
  | self => exact h
  | left _ ih =>
      cases h with
      | join _ hleft _ => exact ih hleft
  | right _ ih =>
      cases h with
      | join _ _ hright => exact ih hright

end Expr

namespace Grammar

open Reckon.Expr Reckon.Token

theorem lex_numeral {raw : String} (hraw : Numeral.IsCanonical raw.toList) :
    Lexer.lex Language.arith raw = .ok [⟨.num, raw⟩] := by
  rcases hraw.exists_value with ⟨value, hvalue⟩
  have hread : Numeral.read .unbounded raw = .ok value :=
    Numeral.read_eq_ok_iff.mpr ⟨rfl, hvalue⟩
  exact lex_eq_ok_of_spellsFolded (spellsFolded_number (arith_emitted_number hraw))
    (derives_number hread .expr)

theorem build_numeral_error {bound : DigitBound} {raw : String} {fault : NotInteger}
    (hraw : Numeral.IsCanonical raw.toList) (hread : Numeral.read bound raw = .error fault) :
    build bound Language.arith raw = .raised fault := by
  have hviable : Viable ([] ++ [⟨.num, raw⟩]) :=
    ⟨[], _, (Derives.operand (NumberKind.mk rfl)).of_factor .expr⟩
  have hparse : parse bound [⟨.num, raw⟩] = .raised fault :=
    parse_of_viable readable_nil rfl hread hviable
  rw [build, lex_numeral hraw]
  show (parse bound [⟨.num, raw⟩]).map _ = _
  rw [hparse]
  rfl

theorem build_pow (allowed : Nat) (generous : 640 ≤ allowed) :
    build (.most allowed generous) Language.arith (toString (10 ^ allowed : Int)) =
      .raised (.tooLong allowed (allowed + 1)) := by
  have hread := Numeral.read_of_write_error (Numeral.write_pow allowed generous)
  rw [build_numeral_error (Numeral.toString_denotes _).left hread, Numeral.length_toString_pow]

/-- The text that an integer is written as is read as one literal, which has this value and
prints as this text; an integer that has too many digits to be written has too many to be
read.  Every literal in a tree of a text is a number, and is written as its value is, unless
it is the zero with a sign. -/
theorem literals_are_decimal (bound : DigitBound) :
    (forall (n : Int) (text : String), Numeral.write bound n = .ok text ->
      exists root : Expr, build bound Language.arith text = .done (.ok root) ∧
        root = .literal .num n text ∧ text = toString n ∧
        root.eval bound = .ok n ∧ root.format = .ok text) ∧
    (forall (n : Int) (e : Unwritable), Numeral.write bound n = .error e ->
      build bound Language.arith (toString n) =
        .raised (.tooLong e.allowed (Numeral.length (toString n)))) ∧
    (forall (lang : Language) (text : String) (root : Expr),
      build bound lang text = .done (.ok root) ->
        forall (kind : Kind) (value : Int) (raw : String),
          PartOf (.literal kind value raw) root ->
            kind = .num ∧ (Numeral.write bound value = .ok raw ∨ raw = "-0" ∧ value = 0)) := by
  refine ⟨?short, ?long, ?back⟩
  case short =>
      intro n text hwrite
      rcases Numeral.read_of_write hwrite with ⟨hcanonical, hread⟩
      exact ⟨_, build_numeral hcanonical hread, rfl, (Numeral.write_eq_ok_iff.mp hwrite).right,
        rfl, rfl⟩
  case long =>
      intro n e hwrite
      exact build_numeral_error (Numeral.toString_denotes n).left
        (Numeral.read_of_write_error hwrite)
  case back =>
      intro lang text root h kind value raw hpart
      cases (wellFormed_of_build h).left.partOf hpart with
      | literal hcanonical hread => exact ⟨rfl, hcanonical.write_eq hread⟩

/-- The zero keeps its sign and the seven loses its own, so that the one is no decimal text
and the other two are. -/
theorem literals_are_decimal_but_signed_zero :
    exists root : Expr, build .standard Language.arith "-0*+7 - -120" = .done (.ok root) ∧
      PartOf (.literal .num 0 "-0") root ∧ PartOf (.literal .num 7 "7") root ∧
      PartOf (.literal .num (-120) "-120") root ∧
      Numeral.write .standard 0 = .ok "0" ∧ Numeral.write .standard 7 = .ok "7" ∧
      Numeral.write .standard (-120) = .ok "-120" := by
  have hproduct : Derives (Number .standard) .term
      ([⟨.num, "-0"⟩] ++ ⟨.star, "*"⟩ :: [⟨.num, "7"⟩])
      (.join (.literal .num 0 "-0") .star (.literal .num 7 "7")) :=
    Derives.multiply (Or.inl rfl) (derives_number rfl .term) (derives_number rfl .factor)
  have hdifference : Derives (Number .standard) .expr
      ([⟨.num, "-0"⟩, ⟨.star, "*"⟩, ⟨.num, "7"⟩] ++ ⟨.minus, "-"⟩ :: [⟨.num, "-120"⟩])
      (.join (.join (.literal .num 0 "-0") .star (.literal .num 7 "7")) .minus
        (.literal .num (-120) "-120")) :=
    Derives.add (Or.inr rfl) (Derives.term hproduct) (derives_number rfl .term)
  have hbuild : build .standard Language.arith "-0*+7 - -120" = .done (.ok _) :=
    build_eq_ok_iff.mpr ⟨_, rfl, hdifference⟩
  have hdecimal :=
    (literals_are_decimal .standard).right.right Language.arith "-0*+7 - -120" _ hbuild
  have hseven := (hdecimal _ _ _ (PartOf.left (PartOf.right (PartOf.self _)))).right
  have hlast := (hdecimal _ _ _ (PartOf.right (PartOf.self _))).right
  exact ⟨_, hbuild, PartOf.left (PartOf.left (PartOf.self _)),
    PartOf.left (PartOf.right (PartOf.self _)), PartOf.right (PartOf.self _), rfl,
    hseven.resolve_right (by decide), hlast.resolve_right (by decide)⟩

theorem literals_are_decimal_but_long :
    Numeral.write .standard (10 ^ 4300) = .error ⟨4300⟩ ∧
      build .standard Language.arith (toString (10 ^ 4300 : Int)) =
        .raised (.tooLong 4300 4301) :=
  ⟨Numeral.write_pow 4300 (by decide), build_pow 4300 (by decide)⟩

end Grammar
end Reckon
