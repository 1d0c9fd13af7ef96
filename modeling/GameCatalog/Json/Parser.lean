import GameCatalog.Json.Numeral

/-!
# Reading JSON

A document is one value with blanks around it.  Containers nest at most as deep as
the reader's limit says, a number too large for binary64 is refused, and a repeated
field keeps its first place and its last value.  Every step uses up one unit of
fuel; one unit per character, and a few to spare, is always enough, because each
step consumes a character or leads to one that does.
-/

namespace GameCatalog
namespace Json
namespace Parser

def isSpace (c : Char) : Bool :=
  c = ' ' || c = '\n' || c = '\t' || c = '\r'

def skipSpace (cs : List Char) : List Char :=
  cs.dropWhile isSpace

/-- Four hexadecimal digits as one UTF-16 unit. -/
def unit? : List Char → Option (Nat × List Char)
  | a :: b :: c :: d :: rest => do
      let a ← Number.hexDigit? a
      let b ← Number.hexDigit? b
      let c ← Number.hexDigit? c
      let d ← Number.hexDigit? d
      return (((a * 16 + b) * 16 + c) * 16 + d, rest)
  | _ => none

/-- A code point from one unit or from a pair of surrogates. -/
def codePoint? (cs : List Char) : Option (Char × List Char) := do
  let (high, rest) ← unit? cs
  if 0xDC00 ≤ high && high ≤ 0xDFFF then none
  else if 0xD800 ≤ high && high ≤ 0xDBFF then
    match rest with
    | '\\' :: 'u' :: rest => do
        let (low, rest) ← unit? rest
        if 0xDC00 ≤ low && low ≤ 0xDFFF then
          return (Char.ofNat (0x10000 + (high - 0xD800) * 0x400 + (low - 0xDC00)), rest)
        else none
    | _ => none
  else return (Char.ofNat high, rest)

def shortEscape? (c : Char) : Option Char :=
  match c with
  | '"' => some '"'
  | '\\' => some '\\'
  | '/' => some '/'
  | 'b' => some '\x08'
  | 'f' => some '\x0c'
  | 'n' => some '\n'
  | 'r' => some '\r'
  | 't' => some '\t'
  | _ => none

/-- The rest of a text whose opening quote is already read; `done` holds what is read
so far, last character first. -/
def quotedRest? : Nat → List Char → List Char → Option (String × List Char)
  | 0, _, _ => none
  | fuel + 1, done, cs =>
      match cs with
      | [] => none
      | '"' :: rest => some (String.ofList done.reverse, rest)
      | '\\' :: 'u' :: rest =>
          match codePoint? rest with
          | some (c, rest) => quotedRest? fuel (c :: done) rest
          | none => none
      | '\\' :: c :: rest =>
          match shortEscape? c with
          | some c => quotedRest? fuel (c :: done) rest
          | none => none
      | c :: rest =>
          if c = '\\' || c.toNat < 0x20 then none
          else quotedRest? fuel (c :: done) rest

/-- The whole part of a numeral: a zero, or digits that do not start with one. -/
def wholePart? (cs : List Char) : Option (List Char × List Char) :=
  match cs with
  | '0' :: rest =>
      match rest with
      | c :: _ => if c.isDigit then none else some (['0'], rest)
      | [] => some (['0'], [])
  | _ =>
      let digits := cs.takeWhile Char.isDigit
      if digits.isEmpty then none else some (digits, cs.dropWhile Char.isDigit)

/-- Nothing, or a point and at least one digit. -/
def fractionPart? : List Char → Option (Option (List Char) × List Char)
  | '.' :: rest =>
      let digits := rest.takeWhile Char.isDigit
      if digits.isEmpty then none else some (some digits, rest.dropWhile Char.isDigit)
  | cs => some (none, cs)

/-- Nothing, or `e`, an optional sign and at least one digit. -/
def exponentPart? : List Char → Option (Option Int × List Char)
  | [] => some (none, [])
  | c :: rest =>
      if c = 'e' || c = 'E' then
        let (negative, unsigned) := Number.splitSign rest
        let digits := unsigned.takeWhile Char.isDigit
        (Number.naturalNumeral? digits).map fun n =>
          (some (Number.signed negative n), unsigned.dropWhile Char.isDigit)
      else some (none, c :: rest)

def numeral? (cs : List Char) : Option (Json × List Char) := do
  let (negative, cs) := match cs with
    | '-' :: rest => (true, rest)
    | _ => (false, cs)
  let (whole, cs) ← wholePart? cs
  let (fraction, cs) ← fractionPart? cs
  let (exponent, cs) ← exponentPart? cs
  let json ← Numeral.value? negative whole fraction exponent
  return (json, cs)

/-- A value written as one fixed word. -/
def literal? (name : String) (json : Json) (cs : List Char) : Option (Json × List Char) :=
  if name.toList.isPrefixOf cs then some (json, cs.drop name.length) else none

mutual

/-- One value; `depth` containers may still be opened. -/
def value? : Nat → Nat → List Char → Option (Json × List Char)
  | 0, _, _ => none
  | fuel + 1, depth, cs =>
      match skipSpace cs with
      | [] => none
      | '"' :: rest =>
          (quotedRest? (rest.length + 1) [] rest).map fun (s, rest) => (.text s, rest)
      | '[' :: rest =>
          match depth with
          | 0 => none
          | depth + 1 =>
              match skipSpace rest with
              | ']' :: rest => some (.array [], rest)
              | rest => items? fuel depth [] rest
      | '\x7b' :: rest =>
          match depth with
          | 0 => none
          | depth + 1 =>
              match skipSpace rest with
              | '\x7d' :: rest => some (.object [], rest)
              | rest => fields? fuel depth [] rest
      | 'n' :: rest => literal? "null" .null ('n' :: rest)
      | 't' :: rest => literal? "true" (.bool true) ('t' :: rest)
      | 'f' :: rest => literal? "false" (.bool false) ('f' :: rest)
      | cs => numeral? cs

/-- The members of an array from one that must be there; `done` holds those before it,
last first. -/
def items? : Nat → Nat → List Json → List Char → Option (Json × List Char)
  | 0, _, _, _ => none
  | fuel + 1, depth, done, cs =>
      match value? fuel depth cs with
      | none => none
      | some (item, rest) =>
          match skipSpace rest with
          | ',' :: rest => items? fuel depth (item :: done) rest
          | ']' :: rest => some (.array (item :: done).reverse, rest)
          | _ => none

/-- The fields of an object from one that must be there. -/
def fields? : Nat → Nat → List (String × Json) → List Char → Option (Json × List Char)
  | 0, _, _, _ => none
  | fuel + 1, depth, done, cs =>
      match skipSpace cs with
      | '"' :: rest =>
          match quotedRest? (rest.length + 1) [] rest with
          | none => none
          | some (key, rest) =>
              match skipSpace rest with
              | ':' :: rest =>
                  match value? fuel depth rest with
                  | none => none
                  | some (value, rest) =>
                      match skipSpace rest with
                      | ',' :: rest => fields? fuel depth (putField key value done) rest
                      | '\x7d' :: rest => some (.object (putField key value done), rest)
                      | _ => none
              | _ => none
      | _ => none

end

end Parser

/-- The deepest nesting of containers that a document may have. -/
def nestingLimit : Nat := 127

/-- Reads a document of at most `depth` nested containers. -/
def parseWithin? (depth : Nat) (text : String) : Option Json :=
  let cs := text.toList
  match Parser.value? (2 * cs.length + 2) depth cs with
  | some (json, rest) => if (Parser.skipSpace rest).isEmpty then some json else none
  | none => none

def parse? (text : String) : Option Json :=
  parseWithin? nestingLimit text

end Json
end GameCatalog
