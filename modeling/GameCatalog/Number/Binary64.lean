import GameCatalog.Number.Rounding

/-!
# The values of binary64 numbers

A binary64 word denotes a signed dyadic number `mantissa · 2 ^ exponent`, an
infinity, or no number.  Every exact conversion of this library starts from
that reading and works in whole-number arithmetic.
-/

namespace GameCatalog
namespace Number

inductive Reading where
  | notANumber
  | infinite (negative : Bool)
  | finite (negative : Bool) (mantissa : Nat) (exponent : Int)
  deriving DecidableEq, Repr

/-- Takes a binary64 word apart: sign bit, eleven exponent bits, fraction. -/
def readBits (bits : Nat) : Reading :=
  let negative := bits / twoTo 63 % 2 == 1
  let field : Nat := bits / twoTo 52 % 2048
  let fraction : Nat := bits % twoTo 52
  if field = 2047 then
    if fraction = 0 then .infinite negative else .notANumber
  else if field = 0 then .finite negative fraction (-1074)
  else .finite negative (fraction + twoTo 52) ((field : Int) - 1075)

def read (x : Float) : Reading :=
  readBits x.toBits.toNat

def signed (negative : Bool) (n : Nat) : Int :=
  if negative then -(n : Int) else n

/-- Rounds to a whole number and clamps to the signed 64-bit range; what is not
a number counts as zero. -/
def toInt64 (tie : Tie) (x : Float) : Int :=
  match read x with
  | .notANumber => 0
  | .infinite negative => if negative then minInt64 else maxInt64
  | .finite negative mantissa exponent =>
      clampInt64 (signed negative (roundScaled tie mantissa exponent))

def isFinite (x : Float) : Bool :=
  match read x with
  | .finite .. => true
  | _ => false

def infinity (negative : Bool) : Float :=
  if negative then -1.0 / 0.0 else 1.0 / 0.0

def notANumber : Float := 0.0 / 0.0

end Number
end GameCatalog
