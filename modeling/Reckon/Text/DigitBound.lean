/-!
# Bounds on the digits of numerals

The time it takes to read a numeral, or to write an integer, grows faster than the number
of digits.  A bound on this number keeps both short.  It can be lifted or set anew, but never
so low that an everyday numeral would be refused.
-/

namespace Reckon

inductive DigitBound where
  | unbounded
  | most (digits : Nat) (generous : 640 ≤ digits)
deriving DecidableEq

namespace DigitBound

def standard : DigitBound :=
  most 4300 (by decide)

/-- The most digits there may be, for a number of digits above it. -/
def exceeded? : DigitBound -> Nat -> Option Nat
  | unbounded, _ => none
  | most allowed _, digits => if digits ≤ allowed then none else some allowed

def Allows (bound : DigitBound) (digits : Nat) : Prop :=
  bound.exceeded? digits = none

instance (bound : DigitBound) (digits : Nat) : Decidable (bound.Allows digits) :=
  inferInstanceAs (Decidable (bound.exceeded? digits = none))

@[simp] theorem allows_unbounded (digits : Nat) : unbounded.Allows digits :=
  rfl

@[simp] theorem allows_most {allowed digits : Nat} {generous : 640 ≤ allowed} :
    (most allowed generous).Allows digits <-> digits ≤ allowed := by
  unfold Allows exceeded?
  split <;> simp_all

end DigitBound
end Reckon
