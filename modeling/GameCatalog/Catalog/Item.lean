import GameCatalog.Trait.Table

/-!
# Items

An item is a JSON object with a text as its `name`.  Its rarity weight counts up with
rarity and is 1 unless a number says otherwise.
-/

namespace GameCatalog

structure Item where
  name : String
  slug : Option String
  displayName : Option String
  weight : Int
  traits : TraitTable
  raw : Json

namespace Item

/-- A whole number of the signed 64-bit range, or any other number rounded half away
from zero and clamped to that range. -/
def weightOf (raw : Json) : Int :=
  match raw.get? "rarityWeight" with
  | some json =>
      match json.int64?, json.number? with
      | some n, _ => n
      | none, some x => Number.toInt64 .awayFromZero x
      | none, none => 1
  | none => 1

def ofJson? (raw : Json) : Option Item :=
  ((raw.get? "name").bind Json.text?).map fun name =>
    { name := name
      slug := (raw.get? "slug").bind Json.text?
      displayName := (raw.get? "displayName").bind Json.text?
      weight := weightOf raw
      traits := ((raw.get? "traits").map TraitTable.ofJson).getD ∅
      raw := raw }

theorem raw_of_ofJson? {raw : Json} {item : Item} (h : ofJson? raw = some item) :
    item.raw = raw := by
  obtain ⟨name, _, rfl⟩ := Option.map_eq_some_iff.1 h
  rfl

/-- The items among the entries of an array; anything else lists none. -/
def listOf : Option Json → List Item
  | some (.array entries) => entries.filterMap ofJson?
  | _ => []

/-- The name that players see. -/
def label (item : Item) : String :=
  item.displayName.getD item.name

/-- Does the selector name the item, or is it the item's slug? -/
def answersTo (item : Item) (selector : String) : Bool :=
  item.name == selector || item.slug == some selector

/-- The first item of that name, or else the first with that slug. -/
def find? (selector : String) (items : List Item) : Option Item :=
  match items.find? fun item => item.name == selector with
  | some item => some item
  | none => items.find? fun item => item.slug == some selector

/-- Only the legendary tier draws an item with a true `legendary` trait. -/
def isLegendary (item : Item) : Bool :=
  item.traits.flag "legendary"

end Item
end GameCatalog
