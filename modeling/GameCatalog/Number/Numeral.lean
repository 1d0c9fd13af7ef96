import GameCatalog.Number.Binary64

/-!
# Reading numerals

Whole numbers are ASCII digits after an optional sign and must fit their range.
Decimal numbers have an optional fraction and exponent and read as the nearest
binary64 number; infinities and not-a-number have names of their own.
-/

namespace GameCatalog
namespace Number

/-- The value of a hexadecimal digit, in either case. -/
def hexDigit? (c : Char) : Option Nat :=
  if '0' ≤ c && c ≤ '9' then some (c.toNat - 48)
  else if 'a' ≤ c && c ≤ 'f' then some (c.toNat - 87)
  else if 'A' ≤ c && c ≤ 'F' then some (c.toNat - 55)
  else none

/-- The value of a non-empty run of ASCII digits. -/
def naturalNumeral? (cs : List Char) : Option Nat :=
  if cs.isEmpty || !cs.all Char.isDigit then none
  else some (cs.foldl (fun n c => n * 10 + (c.toNat - 48)) 0)

/-- A sign and what follows it; a text without a sign is positive. -/
def splitSign : List Char → Bool × List Char
  | '-' :: cs => (true, cs)
  | '+' :: cs => (false, cs)
  | cs => (false, cs)

/-- A signed whole number of the 64-bit range. -/
def int64? (cs : List Char) : Option Int :=
  let (negative, digits) := splitSign cs
  (naturalNumeral? digits).bind fun n =>
    let value := signed negative n
    if inInt64 value then some value else none

/-- An unsigned whole number of at most `limit`, with an optional plus sign. -/
def unsigned? (limit : Nat) (cs : List Char) : Option Nat :=
  let digits :=
    match cs with
    | '+' :: rest => rest
    | _ => cs
  (naturalNumeral? digits).bind fun n => if n ≤ limit then some n else none

/-- The binary64 number nearest to `digits · 10 ^ exponent`, infinite when that is
beyond the largest finite one. -/
def nearest (digits : Nat) (exponent : Int) : Float :=
  if digits = 0 then 0.0
  else
    let magnitude := exponent + (Nat.toDigits 10 digits).length
    if magnitude > 400 then infinity false
    else if magnitude < -400 then 0.0
    else if 0 ≤ exponent then Float.ofScientific digits false exponent.toNat
    else Float.ofScientific digits true (-exponent).toNat

def negateIf (negative : Bool) (x : Float) : Float :=
  if negative then -x else x

/-- The exponent part of a decimal numeral: nothing, or `e` and a signed number. -/
def exponent? : List Char → Option Int
  | [] => some 0
  | c :: rest =>
      if c = 'e' || c = 'E' then
        let (negative, digits) := splitSign rest
        (naturalNumeral? digits).map (signed negative)
      else none

/-- An unsigned decimal: digits with an optional point, at least one digit in all,
and an optional exponent. -/
def decimal? (cs : List Char) : Option Float :=
  let whole := cs.takeWhile Char.isDigit
  let afterWhole := cs.dropWhile Char.isDigit
  let (fraction, tail) :=
    match afterWhole with
    | '.' :: rest => (rest.takeWhile Char.isDigit, rest.dropWhile Char.isDigit)
    | _ => ([], afterWhole)
  (naturalNumeral? (whole ++ fraction)).bind fun digits =>
    (exponent? tail).map fun power => nearest digits (power - fraction.length)

/-- A binary64 number: a decimal, `inf`, `infinity` or `nan` in any case, after an
optional sign. -/
def float? (cs : List Char) : Option Float :=
  let (negative, magnitude) := splitSign cs
  let name := magnitude.map Char.toLower
  if name == ['i', 'n', 'f'] || name == ['i', 'n', 'f', 'i', 'n', 'i', 't', 'y'] then
    some (infinity negative)
  else if name == ['n', 'a', 'n'] then some notANumber
  else (decimal? magnitude).map (negateIf negative)

end Number
end GameCatalog
