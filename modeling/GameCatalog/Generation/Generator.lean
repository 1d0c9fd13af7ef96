import GameCatalog.Generation.Entity
import GameCatalog.Random.ChaCha

/-!
# Generators

A generator makes entities of one kind from a recipe, drawing from a stream of its
own.  Only recipes whose slots are all plain wildcards are accepted.
-/

namespace GameCatalog

inductive GeneratorKind where
  | item
  | npc
  | quest
  | enemy
  deriving DecidableEq, Repr

namespace GeneratorKind

def all : List GeneratorKind := [item, npc, quest, enemy]

def name : GeneratorKind → String
  | item => "item"
  | npc => "npc"
  | quest => "quest"
  | enemy => "enemy"

/-- The kind of exactly that name. -/
def named? (text : String) : Option GeneratorKind :=
  all.find? fun kind => kind.name == text

/-- The kind of that name, in any case. -/
def parse (text : String) : Except Fault GeneratorKind :=
  match all.find? fun kind => Text.sameIgnoringCase kind.name text with
  | some kind => .ok kind
  | none => .error (.misconfigured ("invalid variant: " ++ text))

def standardRecipe : GeneratorKind → Recipe
  | item => {
      slots := [
        .always "base" "@items/weapons:*",
        (Slot.always "material" "@items/materials:*").withChance 0.8,
        (Slot.always "prefix" "@items/enchantments/prefixes:*").withChance 0.3,
        (Slot.always "suffix" "@items/enchantments/suffixes:*").withChance 0.2]
      nameTemplate := "\x7bprefix\x7d \x7bmaterial\x7d \x7bbase\x7d \x7bsuffix\x7d" }
  | npc => {
      slots := [
        .always "first_name" "@npcs/names/first:*",
        .always "last_name" "@npcs/names/last:*",
        .always "background" "@npcs/backgrounds:*",
        .always "occupation" "@npcs/occupations:*",
        (Slot.always "quirk" "@npcs/quirks:*").withChance 0.5]
      nameTemplate := "\x7bfirst_name\x7d \x7blast_name\x7d" }
  | quest => {
      slots := [
        .always "template" "@quests/templates:*",
        .always "location" "@quests/locations:*"]
      nameTemplate := "\x7btemplate\x7d" }
  | enemy => {
      slots := [
        .always "creature" "@enemies/creatures:*",
        (Slot.always "modifier" "@enemies/modifiers:*").withChance 0.4]
      nameTemplate := "\x7bmodifier\x7d \x7bcreature\x7d" }

/-- Composes a recipe and makes an entity of the kind from what was drawn. -/
def generate (kind : GeneratorKind) (recipe : Recipe) (tier : Tier) : DrawM Entity := do
  let (composition, traits) ← recipe.compose tier ∅
  match kind with
  | item => return .ofItem tier composition traits
  | npc => return .ofNpc tier composition traits
  | quest => Entity.ofQuest tier composition traits
  | enemy => MonadExcept.ofExcept (Entity.ofEnemy tier composition traits)

def generateMany (kind : GeneratorKind) (recipe : Recipe) (tier : Tier) :
    Nat → DrawM (List Entity)
  | 0 => return []
  | count + 1 => do
      let entity ← kind.generate recipe tier
      let others ← generateMany kind recipe tier count
      return entity :: others

end GeneratorKind

structure Generator where
  kind : GeneratorKind
  recipe : Recipe
  stream : RandomStream

namespace Generator

def standard (kind : GeneratorKind) (seed : UInt64) : Generator where
  kind := kind
  recipe := kind.standardRecipe
  stream := .seeded seed

def withRecipe (kind : GeneratorKind) (recipe : Recipe) (seed : UInt64) :
    Except Fault Generator :=
  match recipe.validate with
  | .ok () => .ok ⟨kind, recipe, .seeded seed⟩
  | .error fault => .error fault

def reseed (generator : Generator) (seed : UInt64) : Generator :=
  { generator with stream := .seeded seed }

/-- Generates entities one after the other; the generator and the archive go on from
where a fault left them. -/
def generateMany (generator : Generator) (tier : Tier) (count : Nat) (archive : Archive) :
    Except Fault (List Entity) × Generator × Archive :=
  let (result, state) :=
    generator.kind.generateMany generator.recipe tier count ⟨archive, generator.stream⟩
  (result, { generator with stream := state.stream }, state.archive)

end Generator
end GameCatalog
