import GameCatalog.Number.Binary64

/-!
# JSON documents

Objects keep the order of their fields.  A whole number that fits 64 bits, signed
or unsigned, stays exact; every other number is a binary64 number.
-/

namespace GameCatalog

inductive Json where
  | null
  | bool (b : Bool)
  | int (n : Int)
  | float (x : Float)
  | text (s : String)
  | array (items : List Json)
  | object (fields : List (String × Json))
  deriving Inhabited, Repr

namespace Json

/-- The value of the first field of that name. -/
def lookup? (name : String) : List (String × Json) → Option Json
  | [] => none
  | (key, value) :: rest => if key = name then some value else lookup? name rest

/-- A known name keeps its place and takes the new value; a new name goes last. -/
def putField (name : String) (value : Json) : List (String × Json) → List (String × Json)
  | [] => [(name, value)]
  | (key, old) :: rest =>
      if key = name then (key, value) :: rest
      else (key, old) :: putField name value rest

/-- The value of a field; nothing but an object has fields. -/
def get? (name : String) : Json → Option Json
  | .object fields => lookup? name fields
  | _ => none

def text? : Json → Option String
  | .text s => some s
  | _ => none

def bool? : Json → Option Bool
  | .bool b => some b
  | _ => none

def items? : Json → Option (List Json)
  | .array items => some items
  | _ => none

def fields? : Json → Option (List (String × Json))
  | .object fields => some fields
  | _ => none

/-- A whole number of the signed 64-bit range; a number with a fraction or exponent
in its text is none, whatever its value. -/
def int64? : Json → Option Int
  | .int n => if Number.inInt64 n then some n else none
  | _ => none

/-- Any number, as the nearest binary64 number. -/
def number? : Json → Option Float
  | .int n => some (Float.ofInt n)
  | .float x => some x
  | _ => none

def isNumber : Json → Bool
  | .int _ => true
  | .float _ => true
  | _ => false

def isObject : Json → Bool
  | .object _ => true
  | _ => false

/-- A number as JSON; infinities and not-a-number have no JSON and become null. -/
def ofFloat (x : Float) : Json :=
  if Number.isFinite x then .float x else .null

end Json
end GameCatalog
