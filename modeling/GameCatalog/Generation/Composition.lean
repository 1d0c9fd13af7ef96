import GameCatalog.Generation.Recipe
import GameCatalog.Generation.Template
import GameCatalog.Generation.Tier
import GameCatalog.Resolution.Resolver

/-!
# Compositions

Composing draws a fragment for each slot of a recipe in turn, lays the traits of the
drawn fragments over those of a target, and renders the recipe's template with the
fragments' labels.  A slot is passed over when chance says so, when its reference has
no catalog, and when its candidates cannot be drawn from.
-/

namespace GameCatalog

/-- A fragment drawn for a slot. -/
structure Pick where
  slot : String
  item : Item

structure Composition where
  name : String
  picks : List Pick

namespace Composition

/-- The fragment of the first pick for that slot. -/
def pick? (composition : Composition) (slot : String) : Option Item :=
  (composition.picks.find? fun pick => pick.slot == slot).map Pick.item

def fragmentNames (composition : Composition) : List String :=
  composition.picks.map fun pick => pick.item.name

/-- The labels of the picks by slot; of a repeated slot the last pick counts. -/
def labels (picks : List Pick) : Template.Values :=
  picks.foldl (fun values pick => values.insert pick.slot pick.item.label) ∅

/-- The traits of the picks laid over a target's, in order. -/
def overlay (target : TraitTable) (picks : List Pick) : TraitTable :=
  picks.foldl (fun traits pick => traits.apply pick.item.traits) target

end Composition

namespace Slot

/-- Does chance pass the slot over?  Only a slot that may be passed over takes a random
number. -/
def isPassedOver (slot : Slot) : DrawM Bool := do
  if slot.chance < 1.0 then
    let roll ← DrawM.unit
    return slot.chance ≤ roll
  else return false

/-- The item whose share a roll selects; a place outside the list is a trap. -/
def selected (items : List Item) (shares : List Float) (roll : Float) : Except Fault Item :=
  let place := Rarity.pickIndex shares roll
  match items[place]? with
  | some item => .ok item
  | none => .error (.trapped (.placeOutside items.length place))

/-- Draws one of the items by rarity; a list that cannot be drawn from gives a warning
and takes no random number. -/
def drawAmong (items : List Item) : DrawM (Option Item) := do
  match Rarity.probabilities Float (items.map Item.weight) with
  | .ok shares =>
      let roll ← DrawM.unit
      let item ← MonadExcept.ofExcept (selected items shares roll)
      return some item
  | .error _ =>
      ArchiveM.warn 1
      return none

/-- Draws from what the tier keeps of the candidates.  A missing catalog gives a warning
unless the reference is optional. -/
def drawListed (tier : Tier) (optional : Bool) : Option (List Item) → DrawM (Option Item)
  | none => do
      ArchiveM.warn (if optional then 0 else 1)
      return none
  | some items => drawAmong (tier.keep items)

/-- Draws the slot's fragment at a tier. -/
def draw (slot : Slot) (tier : Tier) : DrawM (Option Item) := do
  let r ← MonadExcept.ofExcept slot.plainReference
  if ← slot.isPassedOver then return none
  let listed ← Resolver.candidates slot.reference
  drawListed tier r.optional listed

end Slot

namespace Recipe

/-- Draws the slots in turn. -/
def drawSlots (tier : Tier) : List Slot → DrawM (List Pick)
  | [] => return []
  | slot :: rest => do
      let item ← slot.draw tier
      let others ← drawSlots tier rest
      match item with
      | some item => return ⟨slot.key, item⟩ :: others
      | none => return others

/-- Draws the recipe and lays its traits over the target's. -/
def compose (recipe : Recipe) (tier : Tier) (target : TraitTable) :
    DrawM (Composition × TraitTable) := do
  let picks ← drawSlots tier recipe.slots
  let name := Template.render recipe.nameTemplate (Composition.labels picks)
  return (⟨name, picks⟩, Composition.overlay target picks)

end Recipe
end GameCatalog
