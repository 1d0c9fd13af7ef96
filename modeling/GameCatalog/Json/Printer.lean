import GameCatalog.Json.Basic
import GameCatalog.Number.Style

/-!
# Writing JSON

The compact form has no blanks.  The indented form puts every member of a
container on a line of its own, two blanks deeper than the container.  In texts,
only quotes, backslashes and control characters below U+0020 are escaped.
-/

namespace GameCatalog
namespace Json

/-- Positional from `0.00001` up to sixteen digits before the point, with `.0` after
whole numbers; an exponent otherwise. -/
def numeralStyle : Number.NumeralStyle where
  tie := .toEven
  positionalFrom := some (-5)
  positionalTo := some 15
  wholeSuffix := ".0"
  notANumber := "null"
  infinite := "null"

def floatText (x : Float) : String :=
  if Number.isFinite x then numeralStyle.text x else "null"

def hexDigit (n : Nat) : Char :=
  Nat.digitChar (n % 16)

def escapeChar (c : Char) : List Char :=
  if c = '"' then ['\\', '"']
  else if c = '\\' then ['\\', '\\']
  else if c = '\n' then ['\\', 'n']
  else if c = '\r' then ['\\', 'r']
  else if c = '\t' then ['\\', 't']
  else if c = '\x08' then ['\\', 'b']
  else if c = '\x0c' then ['\\', 'f']
  else if c.toNat < 0x20 then ['\\', 'u', '0', '0', hexDigit (c.toNat / 16), hexDigit c.toNat]
  else [c]

def quoted (s : String) : String :=
  String.ofList ('"' :: s.toList.flatMap escapeChar ++ ['"'])

mutual

/-- The compact form. -/
def render : Json → String
  | .null => "null"
  | .bool b => if b then "true" else "false"
  | .int n => Number.intText n
  | .float x => floatText x
  | .text s => quoted s
  | .array items => "[" ++ String.intercalate "," (renderItems items) ++ "]"
  | .object fields => "\x7b" ++ String.intercalate "," (renderFields fields) ++ "\x7d"

def renderItems : List Json → List String
  | [] => []
  | item :: rest => item.render :: renderItems rest

def renderFields : List (String × Json) → List String
  | [] => []
  | (key, value) :: rest => (quoted key ++ ":" ++ value.render) :: renderFields rest

end

def indent (depth : Nat) : String :=
  String.ofList (List.replicate (2 * depth) ' ')

/-- A container over several lines, or just its brackets when it holds nothing. -/
def block (depth : Nat) (opening closing : String) (members : List String) : String :=
  if members.isEmpty then opening ++ closing
  else
    opening ++ "\n" ++
      String.intercalate ",\n" (members.map (indent (depth + 1) ++ ·)) ++
      "\n" ++ indent depth ++ closing

mutual

def renderIndentedAt (depth : Nat) : Json → String
  | .array items => block depth "[" "]" (renderIndentedItems (depth + 1) items)
  | .object fields => block depth "\x7b" "\x7d" (renderIndentedFields (depth + 1) fields)
  | .null => "null"
  | .bool b => if b then "true" else "false"
  | .int n => Number.intText n
  | .float x => floatText x
  | .text s => quoted s

def renderIndentedItems (depth : Nat) : List Json → List String
  | [] => []
  | item :: rest => renderIndentedAt depth item :: renderIndentedItems depth rest

def renderIndentedFields (depth : Nat) : List (String × Json) → List String
  | [] => []
  | (key, value) :: rest =>
      (quoted key ++ ": " ++ renderIndentedAt depth value) :: renderIndentedFields depth rest

end

/-- The indented form. -/
def renderIndented (json : Json) : String :=
  renderIndentedAt 0 json

end Json
end GameCatalog
