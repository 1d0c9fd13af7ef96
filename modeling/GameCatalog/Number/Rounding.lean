/-!
# Rounding and the signed 64-bit range

A quotient is rounded to the nearest whole number; `Tie` says which neighbour
takes an exact half.  Whole numbers outside the signed 64-bit range are clamped
to its nearer end.
-/

namespace GameCatalog
namespace Number

inductive Tie where
  | toEven
  | awayFromZero
  deriving DecidableEq, Repr

/-- The whole number nearest to `num / den`. -/
def roundDiv (tie : Tie) (num den : Nat) : Nat :=
  let quotient := num / den
  let remainder := num % den
  if 2 * remainder < den then quotient
  else if den < 2 * remainder then quotient + 1
  else
    match tie with
    | .toEven => quotient + quotient % 2
    | .awayFromZero => quotient + 1

def twoTo (n : Nat) : Nat :=
  Nat.pow 2 n

def tenTo (n : Nat) : Nat :=
  Nat.pow 10 n

/-- The whole number nearest to `mantissa · 2 ^ exponent`. -/
def roundScaled (tie : Tie) (mantissa : Nat) (exponent : Int) : Nat :=
  if 0 ≤ exponent then mantissa * twoTo exponent.toNat
  else roundDiv tie mantissa (twoTo (-exponent).toNat)

def minInt64 : Int := -0x8000000000000000

def maxInt64 : Int := 0x7FFFFFFFFFFFFFFF

def maxWord64 : Nat := 0xFFFFFFFFFFFFFFFF

def inInt64 (n : Int) : Bool :=
  minInt64 ≤ n && n ≤ maxInt64

/-- The nearest whole number of the signed 64-bit range. -/
def clampInt64 (n : Int) : Int :=
  max minInt64 (min maxInt64 n)

theorem clampInt64_bounds (n : Int) : minInt64 ≤ clampInt64 n ∧ clampInt64 n ≤ maxInt64 := by
  simp only [clampInt64, minInt64, maxInt64]
  omega

def minInt32 : Int := -0x80000000

def maxInt32 : Int := 0x7FFFFFFF

def clampInt32 (n : Int) : Int :=
  max minInt32 (min maxInt32 n)

end Number
end GameCatalog
