import GameCatalog.Number.Binary64

/-!
# Shortest decimal digits

The reals that round to a binary64 number form an interval, closed exactly when
the mantissa is even.  The shortest decimal is found on grids of ever more
digits: the first grid with a point in the interval wins, and of two such points
the nearer one.
-/

namespace GameCatalog
namespace Number

/-- The number `digits · 10 ^ exponent`. -/
structure Decimal where
  digits : Nat
  exponent : Int
  deriving DecidableEq, Repr

def decimalLength (n : Nat) : Nat :=
  (Nat.toDigits 10 n).length

/-- The power of ten of the first digit of `mantissa · 2 ^ exponent`. -/
def leadingExponent (mantissa : Nat) (exponent : Int) : Int :=
  if 0 ≤ exponent then (decimalLength (mantissa * twoTo exponent.toNat) : Int) - 1
  else (decimalLength (mantissa * tenTo 340 / twoTo (-exponent).toNat) : Int) - 341

/-- The interval of reals that round to `mantissa · 2 ^ exponent`, in quarters of
the last binary place, and whether it holds its ends. -/
structure RoundingInterval where
  low : Nat
  high : Nat
  closed : Bool
  deriving DecidableEq, Repr

def roundingInterval (mantissa : Nat) (exponent : Int) : RoundingInterval where
  low := if mantissa = twoTo 52 && exponent ≠ -1074 then 4 * mantissa - 1 else 4 * mantissa - 2
  high := 4 * mantissa + 2
  closed := mantissa % 2 == 0

/-- Is `point / grid` a member, where `quarter / grid` is the size of one quarter? -/
def RoundingInterval.holds (interval : RoundingInterval) (quarter point : Nat) : Bool :=
  if interval.closed then interval.low * quarter ≤ point && point ≤ interval.high * quarter
  else interval.low * quarter < point && point < interval.high * quarter

/-- The point of the grid of multiples of `10 ^ place` that stands for the number,
if one of its two neighbours rounds to it. -/
def gridPoint? (tie : Tie) (mantissa : Nat) (exponent place : Int) : Option Decimal :=
  let quarter := twoTo (exponent - 2).toNat * tenTo (-place).toNat
  let step := tenTo place.toNat * twoTo (2 - exponent).toNat
  let value := 4 * mantissa * quarter
  let below := value / step
  let interval := roundingInterval mantissa exponent
  let hitBelow := interval.holds quarter (below * step)
  let hitAbove := interval.holds quarter ((below + 1) * step)
  if hitBelow && hitAbove then some ⟨roundDiv tie value step, place⟩
  else if hitBelow then some ⟨below, place⟩
  else if hitAbove then some ⟨below + 1, place⟩
  else none

/-- The fewest digits that read back as `mantissa · 2 ^ exponent`. -/
def shortestDecimal (tie : Tie) (mantissa : Nat) (exponent : Int) : Decimal :=
  let leading := leadingExponent mantissa exponent
  match (List.range 17).findSome? fun n : Nat =>
      gridPoint? tie mantissa exponent (leading - n) with
  | some decimal => decimal
  | none => ⟨mantissa, exponent⟩

end Number
end GameCatalog
