import GameCatalog.Reference.Parser

/-!
# Recipes

A recipe is a list of slots and a template for a name.  A slot draws one fragment from
a wildcard reference without filters and properties, with some chance of being drawn
at all.
-/

namespace GameCatalog

structure Slot where
  key : String
  reference : String
  chance : Float

namespace Slot

/-- A slot that is always drawn. -/
def always (key reference : String) : Slot where
  key := key
  reference := reference
  chance := 1.0

/-- A chance within zero and one; what is not a number is no chance. -/
def clampChance (chance : Float) : Float :=
  if chance.isNaN then 0.0
  else if chance < 0.0 then 0.0
  else if 1.0 < chance then 1.0
  else chance

def withChance (slot : Slot) (chance : Float) : Slot :=
  { slot with chance := clampChance chance }

/-- Why a reference cannot be drawn as a fragment, if it cannot. -/
def objection? (r : Reference) : Option String :=
  if !r.isWildcard then some "slot must draw with a `*` item selector"
  else if !r.filters.isEmpty then some "slot filters are not evaluated"
  else if !r.property.isEmpty then some "slot must select whole fragments, not properties"
  else none

/-- The slot's reference, if it is a plain wildcard. -/
def plainReference (slot : Slot) : Except Fault Reference :=
  match Reference.parse slot.reference with
  | .error flaw => .error (flaw.toFault slot.reference)
  | .ok r =>
      match objection? r with
      | some problem => .error (.invalidReference slot.reference problem)
      | none => .ok r

end Slot

structure Recipe where
  slots : List Slot
  nameTemplate : String

namespace Recipe

/-- The fault of the first slot whose reference is no plain wildcard. -/
def validateSlots : List Slot → Except Fault Unit
  | [] => .ok ()
  | slot :: rest =>
      match slot.plainReference with
      | .ok _ => validateSlots rest
      | .error fault => .error fault

def validate (recipe : Recipe) : Except Fault Unit :=
  validateSlots recipe.slots

def slot? (recipe : Recipe) (key : String) : Option Slot :=
  recipe.slots.find? fun slot => slot.key == key

end Recipe
end GameCatalog
