import GameCatalog.Catalog.Item
import GameCatalog.Fault

/-!
# Tiers

A tier says how rare a generated entity is.  It multiplies base stats, and it draws
either only legendary fragments or none of them, as far as the fragments allow.
-/

namespace GameCatalog

inductive Tier where
  | common
  | uncommon
  | rare
  | epic
  | legendary
  deriving DecidableEq, Repr

namespace Tier

/-- All tiers, from common to legendary. -/
def all : List Tier := [common, uncommon, rare, epic, legendary]

def name : Tier → String
  | common => "common"
  | uncommon => "uncommon"
  | rare => "rare"
  | epic => "epic"
  | legendary => "legendary"

def rank : Tier → Nat
  | common => 0
  | uncommon => 1
  | rare => 2
  | epic => 3
  | legendary => 4

def multiplier : Tier → Float
  | common => 1.0
  | uncommon => 1.25
  | rare => 1.5
  | epic => 2.0
  | legendary => 3.0

/-- The tier of that name, in any case and with blanks around it. -/
def parse (text : String) : Except Fault Tier :=
  match all.find? fun tier => Text.sameIgnoringCase tier.name (Text.trimmed text) with
  | some tier => .ok tier
  | none => .error (.misconfigured ("unknown rarity tier '" ++ text ++ "'"))

/-- A base stat times the multiplier, rounded half away from zero and clamped to the
signed 64-bit range. -/
def scale (tier : Tier) (value : Int) : Int :=
  Number.toInt64 .awayFromZero (Float.ofInt value * tier.multiplier)

/-- Is the fragment of the kind that the tier draws? -/
def suits (tier : Tier) (item : Item) : Bool :=
  item.isLegendary == (tier == legendary)

/-- The legendary tier draws fragments whose `legendary` trait is true, every other tier those
without such a trait. -/
def Draws (tier : Tier) (item : Item) : Prop :=
  tier = legendary ↔ ∃ trait, item.traits["legendary"]? = some trait ∧ trait.toBool = true

theorem suits_iff {tier : Tier} {item : Item} : tier.suits item = true ↔ tier.Draws item := by
  have hlegendary : item.isLegendary = true ↔
      ∃ trait, item.traits["legendary"]? = some trait ∧ trait.toBool = true :=
    Option.any_eq_true _ _
  rw [suits, Draws, beq_iff_eq, Bool.eq_iff_iff, beq_iff_eq, hlegendary]
  exact iff_comm

/-- The fragments that suit the tier, or all of them if none does. -/
def keep (tier : Tier) (items : List Item) : List Item :=
  let kept := items.filter tier.suits
  if kept.isEmpty then items else kept

end Tier
end GameCatalog
