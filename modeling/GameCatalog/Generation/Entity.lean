import GameCatalog.Generation.Composition

/-!
# Generated entities

Items, characters, quests and enemies are composed from recipes of their own.  Each
takes its stats from the traits that its fragments gathered and from fields of the
fragments themselves, scaled by tier.
-/

namespace GameCatalog

/-- What every generated entity has. -/
structure EntityBase where
  name : String
  tier : Tier
  fragments : List String
  traits : TraitTable

namespace EntityBase

def ofComposition (tier : Tier) (composition : Composition) (traits : TraitTable) :
    EntityBase where
  name := composition.name
  tier := tier
  fragments := composition.fragmentNames
  traits := traits

def damage (base : EntityBase) : Int :=
  base.tier.scale (base.traits.int "damageBonus")

def defense (base : EntityBase) : Int :=
  base.tier.scale (base.traits.total ["defenseBonus", "armorRating"])

def isCursed (base : EntityBase) : Bool :=
  base.traits.flag "cursed"

def isHostile (base : EntityBase) : Bool :=
  base.traits.flag "hostile"

def isFriendly (base : EntityBase) : Bool :=
  base.traits.flag "friendly"

end EntityBase

inductive Entity where
  | item (base : EntityBase)
  | npc (base : EntityBase) (occupation background : Option String)
  | quest (base : EntityBase) (location : String) (gold experience : Int)
  | enemy (base : EntityBase) (health attack : Int)

/-- A whole number in a field of a fragment, if there is a fragment and it has one. -/
def Item.field? (item : Option Item) (name : String) : Option Int :=
  item.bind fun item => (item.raw.get? name).bind Json.int64?

namespace Entity

def ofItem (tier : Tier) (composition : Composition) (traits : TraitTable) : Entity :=
  item (.ofComposition tier composition traits)

def ofNpc (tier : Tier) (composition : Composition) (traits : TraitTable) : Entity :=
  npc (.ofComposition tier composition traits)
    ((composition.pick? "occupation").map Item.label)
    ((composition.pick? "background").map Item.label)

/-- The gold before scaling: drawn between the two bounds if the traits give both, the
template's own reward otherwise. -/
def baseGold (composition : Composition) (traits : TraitTable) : DrawM Int :=
  if traits.contains "goldMin" && traits.contains "goldMax" then
    let low := traits.int "goldMin"
    let high := traits.int "goldMax"
    DrawM.between (min low high) (max low high)
  else
    return (Item.field? (composition.pick? "template") "baseGoldReward").getD 0

def unknownLocation : String := "Unknown Location"

def ofQuest (tier : Tier) (composition : Composition) (traits : TraitTable) :
    DrawM Entity := do
  let gold ← baseGold composition traits
  let experience := (Item.field? (composition.pick? "template") "baseXpReward").getD 0
  let location := ((composition.pick? "location").map Item.label).getD unknownLocation
  return quest (.ofComposition tier composition traits) location
    (tier.scale gold) (tier.scale experience)

/-- A base stat of the creature, or else the default, plus a bonus; a sum outside the
signed 64-bit range is a trap. -/
def statSum (base : Option Int) (default bonus : Int) : Except Fault Int :=
  let sum := base.getD default + bonus
  if Number.inInt64 sum then .ok sum else .error (.trapped .sumOutside)

/-- A creature has ten health and one attack unless its fields say otherwise; scaled
health is at least one, scaled attack at least zero. -/
def ofEnemy (tier : Tier) (composition : Composition) (traits : TraitTable) :
    Except Fault Entity := do
  let creature := composition.pick? "creature"
  let health ← statSum (Item.field? creature "baseHealth") 10 (traits.int "healthBonus")
  let attack ← statSum (Item.field? creature "baseAttack") 1 (traits.int "damageBonus")
  return enemy (.ofComposition tier composition traits)
    (max (tier.scale health) 1) (max (tier.scale attack) 0)

def base : Entity → EntityBase
  | item base => base
  | npc base _ _ => base
  | quest base _ _ _ => base
  | enemy base _ _ => base

/-- The name, the place of a quest, the tier and the stats, on one line. -/
def summary (entity : Entity) : String :=
  let int := Number.intText
  let tier := " [" ++ entity.base.tier.name ++ "] "
  match entity with
  | item base =>
      base.name ++ tier ++ "damage " ++ int base.damage ++ " defense " ++ int base.defense
  | npc base occupation background =>
      base.name ++ tier ++ occupation.getD "no occupation" ++ ", " ++
        background.getD "no background" ++ (if base.isHostile then " (hostile)" else "")
  | quest base location gold experience =>
      base.name ++ " at " ++ location ++ tier ++ int gold ++ " gold, " ++
        int experience ++ " xp"
  | enemy base health attack =>
      base.name ++ tier ++ "health " ++ int health ++ " attack " ++ int attack

/-- The summary and, below it, the traits. -/
def describe (entity : Entity) : String :=
  entity.summary ++ "\n" ++ entity.base.traits.describe

end Entity
end GameCatalog
