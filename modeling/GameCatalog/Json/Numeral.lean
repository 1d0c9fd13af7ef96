import GameCatalog.Json.Basic
import GameCatalog.Number.Numeral

/-!
# The value of a JSON numeral

A numeral without point and exponent is a whole number if it fits 64 bits.  Any other is
read in two steps: as many digits as fit 64 bits make a significand, and binary64
arithmetic scales it by a power of ten.  So a short numeral reads as the nearest binary64
number, while a long one, or one near the ends of the range, may miss it.
-/

namespace GameCatalog
namespace Json
namespace Numeral

/-- A numeral without point and exponent is a whole number if it fits 64 bits. -/
def wholeNumber? (negative : Bool) (n : Nat) : Option Json :=
  if negative then
    if n = 0 then none
    else if n ≤ 0x8000000000000000 then some (.int (-(n : Int))) else none
  else if n ≤ Number.maxWord64 then some (.int n) else none

/-- Appends digits to a significand up to the first one with which it would outgrow 64
bits; from there on they are left over. -/
def gather (significand : Nat) : List Char → Nat × List Char
  | [] => (significand, [])
  | c :: rest =>
      let longer := significand * 10 + (c.toNat - 48)
      if longer ≤ Number.maxWord64 then gather longer rest else (significand, c :: rest)

/-- Powers of ten are at hand up to the last one in the range of binary64. -/
def lastPower : Nat := 308

def powerOfTen (n : Nat) : Float :=
  Float.ofScientific 1 false n

/-- Scales up; a result beyond the range is refused. -/
def raised? (x : Float) (power : Nat) : Option Float :=
  if power ≤ lastPower then
    let raised := x * powerOfTen power
    if Number.isFinite raised then some raised else none
  else if x == 0.0 then some x else none

/-- Scales down, by the last power at a time as long as the whole power is beyond it. -/
def lowered (x : Float) (power : Nat) : Float :=
  if power ≤ lastPower then x / powerOfTen power
  else if x == 0.0 then x
  else lowered (x / powerOfTen lastPower) (power - lastPower)
termination_by power
decreasing_by
  simp only [lastPower] at *
  omega

def scaled? (significand : Nat) (power : Int) : Option Float :=
  let x := significand.toUInt64.toFloat
  if 0 ≤ power then raised? x power.toNat else some (lowered x (-power).toNat)

/-- The value of a numeral with these digits ahead of the point and behind it.  A digit
ahead of the point that is left over counts in the power, one behind it does not. -/
def number? (negative : Bool) (whole places : List Char) (exponent : Int) : Option Json :=
  let (ahead, left) := gather 0 whole
  let (significand, leftPlaces) := gather ahead places
  let taken := places.length - leftPlaces.length
  (scaled? significand (exponent + left.length - taken)).map fun x =>
    .float (Number.negateIf negative x)

def value? (negative : Bool) (whole : List Char) (fraction : Option (List Char))
    (exponent : Option Int) : Option Json := do
  let digits ← Number.naturalNumeral? whole
  let exact := if fraction.isNone && exponent.isNone then wholeNumber? negative digits else none
  match exact with
  | some json => return json
  | none => number? negative whole (fraction.getD []) (exponent.getD 0)

end Numeral
end Json
end GameCatalog
