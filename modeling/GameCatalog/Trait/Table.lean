import GameCatalog.Trait.Basic
import Std.Data.ExtTreeMap

/-!
# Tables of traits

Traits by name, in the order of their names.  Applying a table overwrites traits of
the same name, merging keeps them.
-/

namespace GameCatalog

/-- The traits that a fragment carries or an entity has gathered. -/
abbrev TraitTable := Std.ExtTreeMap String Trait

namespace TraitTable

/-- Reads a catalog's `traits`; anything but an object holds none. -/
def ofJson : Json → TraitTable
  | .object fields => fields.foldl (fun table field => table.insert field.1 (.ofJson field.2)) ∅
  | _ => ∅

def toJson (table : TraitTable) : Json :=
  .object (table.toList.map fun (name, t) => (name, t.toJson))

/-- A table of numbers; of a repeated name the last number counts. -/
def ofNumbers (pairs : List (String × Float)) : TraitTable :=
  pairs.foldl (fun table pair => table.insert pair.1 (.number pair.2)) ∅

/-- Copies every trait onto the target, over one of the same name. -/
def apply (target traits : TraitTable) : TraitTable :=
  traits.foldl (fun table name t => table.insert name t) target

/-- Copies the traits that the target does not have. -/
def merge (target traits : TraitTable) : TraitTable :=
  traits.foldl (fun table name t => table.insertIfNew name t) target

/-- Adds to a trait read as a number; a missing trait counts as zero. -/
def addBonus (table : TraitTable) (name : String) (bonus : Float) : TraitTable :=
  table.insert name (.number ((table[name]?).elim 0.0 Trait.toFloat + bonus))

def int (table : TraitTable) (name : String) : Int :=
  (table[name]?).elim 0 Trait.toInt

def flag (table : TraitTable) (name : String) : Bool :=
  (table[name]?).any Trait.toBool

/-- The sum of the named traits from left to right, clamped to the signed 64-bit range
at every step. -/
def total (table : TraitTable) (names : List String) : Int :=
  names.foldl (fun sum name => Number.clampInt64 (sum + table.int name)) 0

/-- The names of the resistances to kinds of damage, in order. -/
def resistanceNames : List String :=
  ["resistFire", "resistIce", "resistLightning", "resistMagic", "resistPhysical", "resistPoison"]

/-- The positive resistances, in the order of their names. -/
def resistances (table : TraitTable) : List (String × Int) :=
  (resistanceNames.map fun name => (name, table.int name)).filter fun (_, value) => value > 0

/-- One line for every trait. -/
def describe (table : TraitTable) : String :=
  if table.isEmpty then "No traits"
  else Text.joined "\n" (table.toList.map fun (name, t) => "  " ++ name ++ ": " ++ t.display)

end TraitTable
end GameCatalog
