import Reckon.Text.Blank
import Reckon.Text.Digit
import Reckon.Text.DigitBound
import Reckon.Text.Quoted

/-!
# Numerals

A numeral is an optional sign followed by decimal digits of any script, leading
zeros included.  A single underscore may separate two digits, and blanks may
surround the whole.  Every other text is refused, and the refusal keeps the text
as it was given; its message shows only the beginning of a long one.

A numeral with more digits than a bound allows is refused too, and an integer with
more digits is not written.  The digits are counted before anything behind them is
looked at, so that a text can be too long without being a numeral.
-/

namespace Reckon

inductive NotInteger where
  | invalid (text : String)
  | tooLong (allowed digits : Nat)
deriving DecidableEq

structure Unwritable where
  allowed : Nat
deriving DecidableEq

def NotInteger.shown : Nat :=
  200

def DigitBound.complaint (allowed : Nat) : String :=
  "Exceeds the limit (" ++ toString allowed ++ " digits) for integer string conversion"

def DigitBound.advice : String :=
  "; use sys.set_int_max_str_digits() to increase the limit"

/-- A text that is no numeral is shown in quotes, cut after a number of characters, so
that a long text loses its closing quote and an escape can be cut in two. -/
def NotInteger.message : NotInteger -> String
  | invalid text =>
      "invalid literal for int() with base 10: " ++
        String.ofList ((Text.quoted text).toList.take NotInteger.shown)
  | tooLong allowed digits =>
      DigitBound.complaint allowed ++ ": value has " ++ toString digits ++ " digits" ++
        DigitBound.advice

def Unwritable.message (e : Unwritable) : String :=
  DigitBound.complaint e.allowed ++ DigitBound.advice

namespace Numeral

open Text

/-- The digits that follow a numeral's first digit, read after `value`. -/
def continued? (value : Nat) : List Char -> Option Nat
  | [] => some value
  | '_' :: c :: rest =>
      match digit? c with
      | some d => continued? (10 * value + d) rest
      | none => none
  | c :: rest =>
      match digit? c with
      | some d => continued? (10 * value + d) rest
      | none => none

def natural? : List Char -> Option Nat
  | [] => none
  | c :: rest =>
      match digit? c with
      | some d => continued? d rest
      | none => none

def signed? : List Char -> Option Int
  | '-' :: rest => (natural? rest).map fun n => -(n : Int)
  | '+' :: rest => (natural? rest).map fun n => (n : Int)
  | cs => (natural? cs).map fun n => (n : Int)

def value? (text : String) : Option Int :=
  signed? (trim text.toList)

/-!
# Counted digits
-/

/-- The digits in front of the first character that is none, `count` of them having been
met.  There is no count if an underscore does not stand between two digits. -/
def counted? (count : Nat) : List Char -> Option Nat
  | [] => some count
  | ['_'] => none
  | '_' :: c :: rest =>
      match digit? c with
      | some _ => counted? (count + 1) rest
      | none => none
  | c :: rest =>
      match digit? c with
      | some _ => counted? (count + 1) rest
      | none => some count

def unsigned : List Char -> List Char
  | '-' :: rest => rest
  | '+' :: rest => rest
  | cs => cs

/-- The number of digits that a text starts with behind blanks and at most one sign. -/
def length (text : String) : Nat :=
  match unsigned (trim text.toList) with
  | [] => 0
  | c :: rest =>
      match digit? c with
      | some _ => (counted? 1 rest).getD 0
      | none => 0

def read (bound : DigitBound) (text : String) : Except NotInteger Int :=
  match bound.exceeded? (length text), value? text with
  | some allowed, _ => .error (.tooLong allowed (length text))
  | none, some n => .ok n
  | none, none => .error (.invalid text)

def write (bound : DigitBound) (n : Int) : Except Unwritable String :=
  match bound.exceeded? (Nat.toDigits 10 n.natAbs).length with
  | some allowed => .error ⟨allowed⟩
  | none => .ok (toString n)

theorem read_eq_ok_iff {bound : DigitBound} {text : String} {n : Int} :
    read bound text = .ok n <-> bound.Allows (length text) ∧ value? text = some n := by
  unfold read DigitBound.Allows
  cases bound.exceeded? (length text) with
  | some allowed => simp
  | none => cases value? text <;> simp

theorem read_eq_error_iff {bound : DigitBound} {text : String} {e : NotInteger} :
    read bound text = .error e <->
      (exists allowed : Nat, bound.exceeded? (length text) = some allowed ∧
        e = .tooLong allowed (length text)) ∨
      bound.Allows (length text) ∧ value? text = none ∧ e = .invalid text := by
  unfold read DigitBound.Allows
  cases bound.exceeded? (length text) with
  | some allowed => simp [eq_comm]
  | none => cases value? text <;> simp [eq_comm]

theorem write_eq_ok_iff {bound : DigitBound} {n : Int} {text : String} :
    write bound n = .ok text <->
      bound.Allows (Nat.toDigits 10 n.natAbs).length ∧ text = toString n := by
  unfold write DigitBound.Allows
  cases bound.exceeded? (Nat.toDigits 10 n.natAbs).length <;> simp [eq_comm]

theorem write_eq_error_iff {bound : DigitBound} {n : Int} {e : Unwritable} :
    write bound n = .error e <->
      bound.exceeded? (Nat.toDigits 10 n.natAbs).length = some e.allowed := by
  unfold write
  cases bound.exceeded? (Nat.toDigits 10 n.natAbs).length with
  | some allowed =>
      cases e
      simp
  | none => simp

/-!
# Canonical numerals
-/

/-- Plain digits: a single zero, or digits of which the first is not zero. -/
def IsPlain (cs : List Char) : Prop :=
  cs = ['0'] ∨
    exists c : Char, exists rest : List Char,
      cs = c :: rest ∧ ('1' ≤ c ∧ c ≤ '9') ∧ forall d : Char, d ∈ rest -> '0' ≤ d ∧ d ≤ '9'

def IsCanonical (cs : List Char) : Prop :=
  IsPlain cs ∨ exists rest : List Char, cs = '-' :: rest ∧ IsPlain rest

end Numeral
end Reckon
