import Mathlib.Algebra.Group.Nat.Defs
import Mathlib.Algebra.Ring.Int.Defs
import Reckon.Text.Numeral

/-!
# Canonical numerals have values

Plain digits denote a number, nothing is trimmed from them, and a minus sign in front
of them negates what they denote.  All of them are counted and the sign is not, so that
whether they can be read depends on their number alone.
-/

namespace Reckon
namespace Numeral

open Text

/-!
# Plain digits
-/

theorem toNat_of_digit {c : Char} (h : '0' ≤ c ∧ c ≤ '9') :
    48 ≤ c.toNat ∧ c.toNat ≤ 57 := by
  have hzero : '0'.toNat ≤ c.toNat := UInt32.le_iff_toNat_le.mp h.left
  have hnine : c.toNat ≤ '9'.toNat := UInt32.le_iff_toNat_le.mp h.right
  exact ⟨hzero, hnine⟩

theorem digit_of_nonzero {c : Char} (h : '1' ≤ c ∧ c ≤ '9') : '0' ≤ c ∧ c ≤ '9' :=
  ⟨Char.le_trans (by decide) h.left, h.right⟩

theorem eq_zero_or_nonzero {c : Char} (h : '0' ≤ c ∧ c ≤ '9') :
    c = '0' ∨ ('1' ≤ c ∧ c ≤ '9') := by
  have hrange := toNat_of_digit h
  by_cases hzero : c.toNat = 48
  · exact Or.inl (Char.toNat_inj.mp hzero)
  · have hone : '1'.toNat ≤ c.toNat := by
      show 49 ≤ c.toNat
      omega
    exact Or.inr ⟨UInt32.le_iff_toNat_le.mpr hone, h.right⟩

theorem IsPlain.digits {cs : List Char} (h : IsPlain cs) :
    forall c : Char, c ∈ cs -> '0' ≤ c ∧ c ≤ '9' := by
  intro c hc
  rcases h with rfl | ⟨first, rest, rfl, hfirst, hrest⟩
  · rw [List.mem_singleton.mp hc]
    decide
  · cases hc with
    | head => exact digit_of_nonzero hfirst
    | tail _ hmem => exact hrest c hmem

theorem IsPlain.ne_nil {cs : List Char} (h : IsPlain cs) : cs ≠ [] := by
  rcases h with rfl | ⟨first, rest, rfl, _, _⟩ <;> simp

theorem digit?_of_digit {c : Char} (h : '0' ≤ c ∧ c ≤ '9') :
    digit? c = some (c.toNat - 48) := by
  have hrange := toNat_of_digit h
  have hfound : zeros.find? (fun origin =>
      decide (origin ≤ c.toNat) && decide (c.toNat < origin + 10)) = some 48 := by
    unfold zeros
    apply List.find?_cons_of_pos
    simp only [Bool.and_eq_true, decide_eq_true_eq]
    omega
  rw [digit?, hfound, Option.map_some]

/-!
# Trimming
-/

theorem not_isBlank_of_digit {c : Char} (h : '0' ≤ c ∧ c ≤ '9') : isBlank c = false := by
  have hrange := toNat_of_digit h
  simp only [isBlank, blanks, List.contains_eq_mem, decide_eq_false_iff_not, List.mem_cons,
    List.not_mem_nil, or_false]
  omega

theorem dropWhile_isBlank_eq_self {cs : List Char}
    (h : forall c : Char, c ∈ cs -> isBlank c = false) : cs.dropWhile isBlank = cs := by
  cases cs with
  | nil => rfl
  | cons c rest => exact List.dropWhile_cons_of_neg (by simp [h c List.mem_cons_self])

theorem trim_eq_self {cs : List Char} (h : forall c : Char, c ∈ cs -> isBlank c = false) :
    trim cs = cs := by
  have hreverse : cs.reverse.dropWhile isBlank = cs.reverse :=
    dropWhile_isBlank_eq_self fun c hc => h c (List.mem_reverse.mp hc)
  rw [trim, dropWhile_isBlank_eq_self h, hreverse, List.reverse_reverse]

/-!
# Values
-/

theorem continued?_of_digits {cs : List Char} (h : forall c : Char, c ∈ cs -> '0' ≤ c ∧ c ≤ '9')
    (value : Nat) : continued? value cs = some (Nat.ofDigitChars 10 cs value) := by
  induction cs generalizing value with
  | nil => rfl
  | cons c rest ih =>
      have hdigit := h c List.mem_cons_self
      rw [continued?, digit?_of_digit hdigit]
      · exact ih (fun d hd => h d (List.mem_cons_of_mem c hd)) _
      · intro d more hunderscore
        subst hunderscore
        exact absurd hdigit (by decide)

theorem natural?_of_isPlain {cs : List Char} (h : IsPlain cs) :
    natural? cs = some (Nat.ofDigitChars 10 cs 0) := by
  have hdigits := h.digits
  cases cs with
  | nil => exact absurd rfl h.ne_nil
  | cons c rest =>
      have hrest := continued?_of_digits fun d hd => hdigits d (List.mem_cons_of_mem c hd)
      rw [natural?, digit?_of_digit (hdigits c List.mem_cons_self), Nat.ofDigitChars_cons]
      simpa using hrest (c.toNat - 48)

theorem signed?_of_isPlain {cs : List Char} (h : IsPlain cs) :
    signed? cs = some (Nat.ofDigitChars 10 cs 0 : Int) := by
  have hdigits := h.digits
  rw [signed?, natural?_of_isPlain h]
  · rfl
  · intro rest hminus
    subst hminus
    exact absurd (hdigits '-' List.mem_cons_self) (by decide)
  · intro rest hplus
    subst hplus
    exact absurd (hdigits '+' List.mem_cons_self) (by decide)

theorem signed?_minus {cs : List Char} (h : IsPlain cs) :
    signed? ('-' :: cs) = some (-(Nat.ofDigitChars 10 cs 0 : Int)) := by
  rw [signed?, natural?_of_isPlain h]
  rfl

theorem value?_of_isPlain {text : String} (h : IsPlain text.toList) :
    value? text = some (Nat.ofDigitChars 10 text.toList 0 : Int) := by
  rw [value?, trim_eq_self fun c hc => not_isBlank_of_digit (h.digits c hc), signed?_of_isPlain h]

@[simp] theorem toList_minus (text : String) : ("-" ++ text).toList = '-' :: text.toList := by
  simp

theorem not_isBlank_of_minus {cs : List Char} (h : IsPlain cs) :
    forall c : Char, c ∈ '-' :: cs -> isBlank c = false :=
  List.forall_mem_cons.mpr ⟨by decide, fun c hc => not_isBlank_of_digit (h.digits c hc)⟩

theorem value?_minus {text : String} {value : Int} (h : IsPlain text.toList)
    (hvalue : value? text = some value) : value? ("-" ++ text) = some (-value) := by
  rw [value?_of_isPlain h, Option.some_inj] at hvalue
  rw [value?, toList_minus, trim_eq_self (not_isBlank_of_minus h), signed?_minus h, hvalue]

/-!
# Counted digits
-/

theorem counted?_of_digits {cs : List Char} (h : forall c : Char, c ∈ cs -> '0' ≤ c ∧ c ≤ '9')
    (count : Nat) : counted? count cs = some (count + cs.length) := by
  induction cs generalizing count with
  | nil => rfl
  | cons c rest ih =>
      have hdigit := h c List.mem_cons_self
      have hunderscore : c ≠ '_' := by
        rintro rfl
        exact absurd hdigit (by decide)
      rw [counted?, digit?_of_digit hdigit]
      · show counted? (count + 1) rest = _
        rw [ih fun d hd => h d (List.mem_cons_of_mem c hd), List.length_cons,
          Nat.add_right_comm, Nat.add_assoc]
      · exact fun hsame _ => hunderscore hsame
      · exact fun _ _ hsame _ => hunderscore hsame

theorem length_of_unsigned {text : String} {cs : List Char} (h : IsPlain cs)
    (hcs : unsigned (trim text.toList) = cs) : length text = cs.length := by
  rw [length, hcs]
  have hdigits := h.digits
  cases cs with
  | nil => exact absurd rfl h.ne_nil
  | cons c rest =>
      rcases List.forall_mem_cons.mp hdigits with ⟨hc, hrest⟩
      simp only [digit?_of_digit hc, counted?_of_digits hrest, Option.getD_some, List.length_cons]
      omega

theorem length_of_isPlain {text : String} (h : IsPlain text.toList) :
    length text = text.toList.length := by
  have hdigits := h.digits
  refine length_of_unsigned h ?_
  rw [trim_eq_self fun c hc => not_isBlank_of_digit (hdigits c hc), unsigned]
  · intro rest hminus
    exact absurd (hdigits '-' (by simp [hminus])) (by decide)
  · intro rest hplus
    exact absurd (hdigits '+' (by simp [hplus])) (by decide)

theorem length_minus {text : String} (h : IsPlain text.toList) :
    length ("-" ++ text) = length text := by
  rw [length_of_isPlain h]
  refine length_of_unsigned h ?_
  rw [toList_minus, trim_eq_self (not_isBlank_of_minus h)]
  rfl

theorem length_toDigits_pow (n : Nat) : (Nat.toDigits 10 (10 ^ n)).length = n + 1 := by
  induction n with
  | zero => rfl
  | succ n ih =>
      have hpositive : 0 < 10 ^ n := Nat.pow_pos (by decide)
      have hzero : (0 : Nat) < 10 := by decide
      have hsplit := Nat.toDigits_append_toDigits (by decide) hpositive hzero
      rw [Nat.pow_succ', <- Nat.add_zero (10 * 10 ^ n), <- hsplit, List.length_append, ih]
      rfl

theorem length_toDigits_natAbs_pow (n : Nat) :
    (Nat.toDigits 10 ((10 : Int) ^ n).natAbs).length = n + 1 := by
  rw [Int.natAbs_pow]
  exact length_toDigits_pow n

theorem write_pow_of_lt {n allowed : Nat} (generous : 640 ≤ allowed) (h : n < allowed) :
    write (.most allowed generous) (10 ^ n) = .ok (toString (10 ^ n : Int)) := by
  rw [write_eq_ok_iff, length_toDigits_natAbs_pow]
  exact ⟨DigitBound.allows_most.mpr h, rfl⟩

theorem write_pow (allowed : Nat) (generous : 640 ≤ allowed) :
    write (.most allowed generous) (10 ^ allowed) = .error ⟨allowed⟩ := by
  rw [write_eq_error_iff, length_toDigits_natAbs_pow]
  exact if_neg (by omega)

/-!
# Readable numerals
-/

variable {bound : DigitBound} {text : String}

theorem IsCanonical.exists_value (h : IsCanonical text.toList) :
    exists value : Int, value? text = some value := by
  rcases h with hplain | ⟨digits, htext, hplain⟩
  · exact ⟨_, value?_of_isPlain hplain⟩
  · have hsigned : text = "-" ++ String.ofList digits := by
      rw [<- String.toList_inj, toList_minus, htext, String.toList_ofList]
    have hdigits : IsPlain (String.ofList digits).toList := by
      rw [String.toList_ofList]
      exact hplain
    exact ⟨_, by rw [hsigned, value?_minus hdigits (value?_of_isPlain hdigits)]⟩

theorem IsCanonical.read_error {e : NotInteger} (h : IsCanonical text.toList)
    (hread : read bound text = .error e) :
    exists allowed : Nat, bound.exceeded? (length text) = some allowed ∧
      e = .tooLong allowed (length text) := by
  rcases read_eq_error_iff.mp hread with htoolong | ⟨_, hnone, _⟩
  · exact htoolong
  · rcases h.exists_value with ⟨value, hvalue⟩
    rw [hvalue] at hnone
    cases hnone

theorem IsCanonical.exists_read_iff (h : IsCanonical text.toList) :
    (exists value : Int, read bound text = .ok value) <-> bound.Allows (length text) := by
  constructor
  · rintro ⟨value, hread⟩
    exact (read_eq_ok_iff.mp hread).left
  · intro hallowed
    rcases h.exists_value with ⟨value, hvalue⟩
    exact ⟨value, read_eq_ok_iff.mpr ⟨hallowed, hvalue⟩⟩

end Numeral
end Reckon
