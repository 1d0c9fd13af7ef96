import GameCatalog.Json.Printer
import GameCatalog.Number.Numeral
import GameCatalog.Text.Blank

/-!
# Traits

A trait pairs a declared kind with the data that is stored.  The two may disagree,
so every reader is total: it converts what it can and falls back to zero, the empty
text, false, or the empty list.
-/

namespace GameCatalog

inductive TraitKind where
  | number
  | text
  | boolean
  | texts
  | numbers
  deriving DecidableEq, Repr

namespace TraitKind

def name : TraitKind → String
  | number => "number"
  | text => "string"
  | boolean => "boolean"
  | texts => "stringarray"
  | numbers => "numberarray"

/-- The kind a declared name stands for, in any case and with blanks around it; an
unknown name stands for a number. -/
def ofName (declared : String) : TraitKind :=
  let name := String.ofList ((Text.trim declared.toList).map Char.toLower)
  if name = "string" then text
  else if name = "boolean" || name = "bool" then boolean
  else if name = "stringarray" || name = "array" then texts
  else if name = "numberarray" then numbers
  else number

end TraitKind

inductive TraitData where
  | null
  | number (x : Float)
  | text (s : String)
  | bool (b : Bool)
  | texts (items : List String)
  | numbers (items : List Float)
  deriving DecidableEq, Repr

namespace TraitData

/-- The kind that the data has when none is declared. -/
def naturalKind : TraitData → TraitKind
  | null => .number
  | number _ => .number
  | text _ => .text
  | bool _ => .boolean
  | texts _ => .texts
  | numbers _ => .numbers

/-- A text stands for itself, any other value for its compact JSON. -/
def itemText : Json → String
  | .text s => s
  | json => json.render

/-- A list is a list of numbers only if it has an item and every item is a number;
an object is kept as its compact JSON. -/
def ofJson : Json → TraitData
  | .null => null
  | .bool b => bool b
  | .int n => number (Float.ofInt n)
  | .float x => number x
  | .text s => text s
  | .array items =>
      if !items.isEmpty && items.all Json.isNumber then numbers (items.filterMap Json.number?)
      else texts (items.map itemText)
  | .object fields => text (Json.object fields).render

def toJson : TraitData → Json
  | null => .null
  | number x => Json.ofFloat x
  | text s => .text s
  | bool b => .bool b
  | texts items => .array (items.map Json.text)
  | numbers items => .array (items.map Json.ofFloat)

end TraitData

structure Trait where
  kind : TraitKind
  data : TraitData
  deriving DecidableEq, Repr

namespace Trait

def natural (data : TraitData) : Trait where
  kind := data.naturalKind
  data := data

def number (x : Float) : Trait :=
  natural (.number x)

/-- Reads a catalog's trait: an object with a `value` field declares its kind in its
`type` field, a number if that is not a text; anything else is plain data. -/
def ofJson (json : Json) : Trait :=
  match json.get? "value" with
  | some value =>
      { kind := ((json.get? "type").bind Json.text?).elim .number TraitKind.ofName
        data := TraitData.ofJson value }
  | none => natural (TraitData.ofJson json)

def toJson (t : Trait) : Json :=
  t.data.toJson

def isNull (t : Trait) : Bool :=
  match t.data with
  | .null => true
  | _ => false

/-- A number rounds half to even within the signed 64-bit range; a text must hold a
whole number. -/
def toInt (t : Trait) : Int :=
  match t.data with
  | .number x => Number.toInt64 .toEven x
  | .text s => (Number.int64? (Text.trim s.toList)).getD 0
  | .bool b => if b then 1 else 0
  | _ => 0

def toFloat (t : Trait) : Float :=
  match t.data with
  | .number x => x
  | .text s => (Number.float? (Text.trim s.toList)).getD 0.0
  | .bool b => if b then 1.0 else 0.0
  | _ => 0.0

def boolText (b : Bool) : String :=
  if b then "true" else "false"

def toText (t : Trait) : String :=
  match t.data with
  | .null => ""
  | .number x => Number.plainText x
  | .text s => s
  | .bool b => boolText b
  | .texts items => Text.joined ", " items
  | .numbers items => Text.joined ", " (items.map Number.plainText)

def isTruthy (x : Float) : Bool :=
  x != 0.0 && !x.isNaN

/-- A number is true unless it is zero or not a number; a text is true if it says so
or holds such a number. -/
def toBool (t : Trait) : Bool :=
  match t.data with
  | .bool b => b
  | .number x => isTruthy x
  | .text s =>
      let word := Text.trim s.toList
      if Text.sameIgnoringCase (String.ofList word) "true" then true
      else (Number.float? word).any isTruthy
  | _ => false

/-- The items of a list of texts that is declared as one. -/
def toTexts (t : Trait) : List String :=
  match t.kind, t.data with
  | .texts, .texts items => items
  | _, _ => []

/-- The items of a list of numbers that is declared as one, each rounded. -/
def toInts (t : Trait) : List Int :=
  match t.kind, t.data with
  | .numbers, .numbers items => items.map (Number.toInt64 .toEven)
  | _, _ => []

/-- What a listing of traits shows: the value read as its declared kind. -/
def display (t : Trait) : String :=
  match t.kind with
  | .number => Number.fixedText 2 t.toFloat
  | .text => "\"" ++ t.toText ++ "\""
  | .boolean => boolText t.toBool
  | .texts => "[" ++ Text.joined ", " t.toTexts ++ "]"
  | .numbers => "[" ++ Text.joined ", " (t.toInts.map Number.intText) ++ "]"

end Trait
end GameCatalog
