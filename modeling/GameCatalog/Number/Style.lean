import GameCatalog.Number.Shortest

/-!
# Writing numbers

A number is written with the shortest digits that read back, laid out as a
`NumeralStyle` says, or with a fixed count of decimal places, rounded half to
even from its exact value.
-/

namespace GameCatalog
namespace Number

/-- How the shortest digits of a number are laid out.  A number whose first digit
stands at a power of ten outside `positionalFrom … positionalTo` is written with an
exponent; a missing end admits every power. -/
structure NumeralStyle where
  tie : Tie
  positionalFrom : Option Int
  positionalTo : Option Int
  wholeSuffix : String
  notANumber : String
  infinite : String

def NumeralStyle.positional (style : NumeralStyle) (power : Int) : Bool :=
  style.positionalFrom.all (· ≤ power) && style.positionalTo.all (power ≤ ·)

def decimalDigits (n : Nat) : List Char :=
  Nat.toDigits 10 n

def zeros (n : Nat) : List Char :=
  List.replicate n '0'

/-- Digits with the first one at the given power of ten, no exponent. -/
def positionalText (wholeSuffix : String) (digits : List Char) (power : Int) : String :=
  if power < 0 then
    String.ofList ('0' :: '.' :: zeros (-power - 1).toNat ++ digits)
  else
    let whole := power.toNat + 1
    if digits.length ≤ whole then
      String.ofList (digits ++ zeros (whole - digits.length)) ++ wholeSuffix
    else
      String.ofList (digits.take whole ++ '.' :: digits.drop whole)

def exponentText (power : Int) : String :=
  if power < 0 then "e-" ++ String.ofList (decimalDigits (-power).toNat)
  else "e+" ++ String.ofList (decimalDigits power.toNat)

def scientificText (digits : List Char) (power : Int) : String :=
  match digits with
  | [] => "0"
  | [d] => String.ofList [d] ++ exponentText power
  | d :: rest => String.ofList (d :: '.' :: rest) ++ exponentText power

def dropTrailingZeros (digits : List Char) : List Char :=
  (digits.reverse.dropWhile (· == '0')).reverse

/-- The digits of a positive decimal without trailing zeros, and the power of ten of
the first. -/
def significant (decimal : Decimal) : List Char × Int :=
  let digits := decimalDigits decimal.digits
  (dropTrailingZeros digits, decimal.exponent + digits.length - 1)

def signText (negative : Bool) : String :=
  if negative then "-" else ""

/-- The shortest text of a number that reads back, in the given style. -/
def NumeralStyle.text (style : NumeralStyle) (x : Float) : String :=
  match read x with
  | .notANumber => style.notANumber
  | .infinite negative => signText negative ++ style.infinite
  | .finite negative mantissa exponent =>
      let (digits, power) :=
        if mantissa = 0 then (['0'], 0)
        else significant (shortestDecimal style.tie mantissa exponent)
      signText negative ++
        if style.positional power then positionalText style.wholeSuffix digits power
        else scientificText digits power

/-- Plain text: never an exponent, whole numbers without a point. -/
def plainStyle : NumeralStyle where
  tie := .awayFromZero
  positionalFrom := none
  positionalTo := none
  wholeSuffix := ""
  notANumber := "NaN"
  infinite := "inf"

def plainText (x : Float) : String :=
  plainStyle.text x

/-- Exactly `places` decimals of `mantissa · 2 ^ exponent`, a half going to the even
neighbour. -/
def fixedDigits (places mantissa : Nat) (exponent : Int) : String :=
  let scaled := roundScaled .toEven (mantissa * tenTo places) exponent
  let whole := String.ofList (decimalDigits (scaled / tenTo places))
  let fraction := decimalDigits (scaled % tenTo places)
  if places = 0 then whole
  else whole ++ "." ++ String.ofList (zeros (places - fraction.length) ++ fraction)

/-- The number with exactly `places` decimals; a zero keeps its sign. -/
def fixedText (places : Nat) (x : Float) : String :=
  match read x with
  | .notANumber => "NaN"
  | .infinite negative => signText negative ++ "inf"
  | .finite negative mantissa exponent => signText negative ++ fixedDigits places mantissa exponent

def intText (n : Int) : String :=
  signText (n < 0) ++ String.ofList (decimalDigits n.natAbs)

end Number
end GameCatalog
