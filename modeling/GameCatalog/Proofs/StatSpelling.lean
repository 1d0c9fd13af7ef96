import GameCatalog.Proofs.GenerationOutcomes
import GameCatalog.Proofs.PairedDraws

/-!
# How base stats are written

A base stat that is written as a decimal counts as left out, also if it is a whole number.
Everything else is read as before, so a generated entity keeps its name, its traits and its
fragments, and the stats that come from such a field fall back to their defaults.
-/

namespace GameCatalog

/-! ## Fields that are written otherwise -/

def Item.baseFields : List String :=
  ["baseGoldReward", "baseXpReward", "baseHealth", "baseAttack"]

/-- The same field, or a base stat that is the whole number in the one and the decimal of
the same value in the other. -/
inductive Respelled : String × Json → String × Json → Prop where
  | same (name : String) (json : Json) : Respelled (name, json) (name, json)
  | decimal {name : String} {n : Int} (hbase : name ∈ Item.baseFields)
      (hexact : n.natAbs ≤ 2 ^ 53) : Respelled (name, .int n) (name, .float (Float.ofInt n))

namespace Respelled

variable {fields others : List (String × Json)} {name : String}

theorem lookup? (hfields : List.Forall₂ Respelled fields others) (name : String) :
    Json.lookup? name others = Json.lookup? name fields ∨
      name ∈ Item.baseFields ∧ ∃ n, Json.lookup? name fields = some (.int n) ∧
        Json.lookup? name others = some (.float (Float.ofInt n)) := by
  induction hfields with
  | nil => exact .inl rfl
  | cons hfield hrest ih =>
      cases hfield with
      | same key json =>
          by_cases hname : key = name
          · simp [Json.lookup?, hname]
          · simpa [Json.lookup?, hname] using ih
      | @decimal key n hbase hexact =>
          by_cases hname : key = name
          · subst hname
            simp [Json.lookup?, hbase]
          · simpa [Json.lookup?, hname] using ih

theorem lookup?_of_not_base (hfields : List.Forall₂ Respelled fields others)
    (hother : name ∉ Item.baseFields) :
    Json.lookup? name others = Json.lookup? name fields := by
  rcases lookup? hfields name with hsame | ⟨hbase, _⟩
  · exact hsame
  · exact absurd hbase hother

end Respelled

/-! ## Fragments -/

namespace Item

/-- Both fragments are read from objects that differ only in how base stats are written. -/
def Respells (item other : Item) : Prop :=
  ∃ fields others, List.Forall₂ Respelled fields others ∧
    ofJson? (.object fields) = some item ∧ ofJson? (.object others) = some other

def isDecimal (item : Option Item) (name : String) : Bool :=
  item.any fun item => item.raw.get? name matches some (.float _)

theorem alike_of_respells (item other : Item) (hrespells : item.Respells other) :
    item.Alike other := by
  obtain ⟨fields, others, hfields, hitem, hother⟩ := hrespells
  have hread (name : String) (hname : name ∉ baseFields) :
      (Json.object others).get? name = (Json.object fields).get? name :=
    Respelled.lookup?_of_not_base hfields hname
  unfold ofJson? weightOf at hitem hother
  rw [hread "name" (by decide), hread "slug" (by decide), hread "displayName" (by decide),
    hread "rarityWeight" (by decide), hread "traits" (by decide)] at hother
  obtain ⟨name, hname, rfl⟩ := Option.map_eq_some_iff.mp hitem
  obtain ⟨_, hsame, rfl⟩ := Option.map_eq_some_iff.mp hother
  rw [hname, Option.some.injEq] at hsame
  subst hsame
  constructor <;> rfl

theorem Respells.raw {item other : Item} (hrespells : item.Respells other) (name : String) :
    other.raw.get? name = item.raw.get? name ∨
      ∃ n, item.raw.get? name = some (.int n) ∧
        other.raw.get? name = some (.float (Float.ofInt n)) := by
  obtain ⟨fields, others, hfields, hitem, hother⟩ := hrespells
  rw [raw_of_ofJson? hitem, raw_of_ofJson? hother]
  rcases Respelled.lookup? hfields name with hsame | ⟨_, hspellings⟩
  · exact .inl hsame
  · exact .inr hspellings

/-- A field that is written as a decimal is not read, and any other is read as before. -/
theorem field?_of_respells {item other : Option Item}
    (hrespells : Option.Rel Respells item other) (name : String) :
    field? other name = if isDecimal other name then none else field? item name := by
  cases hrespells with
  | none => rfl
  | @some item other hrespells =>
      rcases hrespells.raw name with hsame | ⟨n, _, hother⟩
      · unfold field? isDecimal
        rw [Option.any_some, Option.bind_some, Option.bind_some, hsame]
        cases item.raw.get? name with
        | none => rfl
        | some json => cases json <;> rfl
      · simp [field?, isDecimal, hother, Json.int64?]

theorem label_of_respells {item other : Option Item}
    (hrespells : Option.Rel Respells item other) : other.map label = item.map label := by
  cases hrespells with
  | none => rfl
  | some hrespells => rw [Option.map_some, Option.map_some, (alike_of_respells _ _ hrespells).label]

end Item

theorem Tier.scale_zero (tier : Tier) : tier.scale 0 = 0 := by
  cases tier <;> decide +kernel

/-! ## Entities -/

def TraitTable.boundsGold (traits : TraitTable) : Bool :=
  traits.contains "goldMin" && traits.contains "goldMax"

theorem EntityBase.ofComposition_of_respells {composition respelled : Composition}
    (hpicks : List.Forall₂ (Pick.Related Item.Respells) composition.picks respelled.picks)
    (hname : respelled.name = composition.name) (tier : Tier) (traits : TraitTable) :
    ofComposition tier respelled traits = ofComposition tier composition traits := by
  unfold ofComposition Composition.fragmentNames
  rw [hname, Composition.names_of_related Item.alike_of_respells hpicks]

namespace Entity

variable {composition respelled : Composition} {traits : TraitTable} {tier : Tier}
  {first second : Archive}

theorem matches_baseGold
    (hpicks : List.Forall₂ (Pick.Related Item.Respells) composition.picks respelled.picks)
    (traits : TraitTable) :
    Matches (DrawState.Paired first second)
      (fun gold other => other =
        if Item.isDecimal (respelled.pick? "template") "baseGoldReward" && !traits.boundsGold
          then 0 else gold)
      (baseGold composition traits) (baseGold respelled traits) := by
  have htemplate := Composition.pick?_related hpicks "template"
  have hgold (composition : Composition) : baseGold composition traits =
      if traits.boundsGold then
        DrawM.between (min (traits.int "goldMin") (traits.int "goldMax"))
          (max (traits.int "goldMin") (traits.int "goldMax"))
      else pure ((Item.field? (composition.pick? "template") "baseGoldReward").getD 0) := rfl
  rw [hgold, hgold]
  by_cases hbounds : traits.boundsGold = true
  · simp only [hbounds, if_true, Bool.not_true, Bool.and_false, Bool.false_eq_true, if_false]
    exact (DrawM.agrees_between _ _).matches.mono fun _ _ hsame => hsame.symm
  · simp only [hbounds, Bool.not_false, Bool.and_true]
    apply matches_pure
    rw [Item.field?_of_respells htemplate]
    split <;> rfl

theorem matches_ofQuest
    (hpicks : List.Forall₂ (Pick.Related Item.Respells) composition.picks respelled.picks)
    (hname : respelled.name = composition.name) (tier : Tier) (traits : TraitTable) :
    Matches (DrawState.Paired first second)
      (fun entity other => ∃ location gold experience,
        entity = quest (.ofComposition tier composition traits) location gold experience ∧
        other = quest (.ofComposition tier composition traits) location
          (if Item.isDecimal (respelled.pick? "template") "baseGoldReward" && !traits.boundsGold
            then 0 else gold)
          (if Item.isDecimal (respelled.pick? "template") "baseXpReward" then 0 else experience))
      (ofQuest tier composition traits) (ofQuest tier respelled traits) := by
  unfold ofQuest
  apply Matches.bind (matches_baseGold hpicks traits)
  rintro gold _ rfl
  apply matches_pure
  have hbase := EntityBase.ofComposition_of_respells hpicks hname tier traits
  have hlocation := Composition.pick?_related hpicks "location"
  have htemplate := Composition.pick?_related hpicks "template"
  refine ⟨_, _, _, rfl, ?_⟩
  rw [hbase, Item.field?_of_respells htemplate, Item.label_of_respells hlocation]
  congr 1
  · split
    · exact tier.scale_zero
    · rfl
  · split
    · exact tier.scale_zero
    · rfl

/-- The enemy, but with the default health or attack where the creature writes that stat as
a decimal; the default has to fit with the bonus. -/
def FallsBack (tier : Tier) (traits : TraitTable) (creature : Option Item) (base : EntityBase)
    (health attack : Int) (entity : Entity) : Prop :=
  (Item.isDecimal creature "baseHealth" = true →
    Number.inInt64 (10 + traits.int "healthBonus") = true) ∧
  (Item.isDecimal creature "baseAttack" = true →
    Number.inInt64 (1 + traits.int "damageBonus") = true) ∧
  entity = enemy base
    (if Item.isDecimal creature "baseHealth"
      then max (tier.scale (10 + traits.int "healthBonus")) 1 else health)
    (if Item.isDecimal creature "baseAttack"
      then max (tier.scale (1 + traits.int "damageBonus")) 0 else attack)

theorem ofEnemy_respelled
    (hpicks : List.Forall₂ (Pick.Related Item.Respells) composition.picks respelled.picks)
    (hname : respelled.name = composition.name) {base : EntityBase} {health attack : Int}
    (hmade : ofEnemy tier composition traits = .ok (enemy base health attack))
    (entity : Entity) :
    ofEnemy tier respelled traits = .ok entity ↔
      FallsBack tier traits (respelled.pick? "creature") base health attack entity := by
  have hcreature := Composition.pick?_related hpicks "creature"
  obtain ⟨hfits, hentity⟩ := ofEnemy_eq_ok_iff.mp hmade
  rw [Entity.enemy.injEq] at hentity
  obtain ⟨rfl, rfl, rfl⟩ := hentity
  have hhealth := hfits.health
  have hattack := hfits.attack
  unfold FallsBack
  rw [ofEnemy_eq_ok_iff, statsFit_iff, EntityBase.ofComposition_of_respells hpicks hname,
    Item.field?_of_respells hcreature, Item.field?_of_respells hcreature, and_assoc]
  cases Item.isDecimal (respelled.pick? "creature") "baseHealth" <;>
    cases Item.isDecimal (respelled.pick? "creature") "baseAttack" <;>
    simp [hhealth, hattack]

end Entity

namespace GeneratorKind

variable {whole decimal : Archive} {recipe : Recipe} {tier : Tier} {stream : RandomStream}
  {composition : Composition} {traits : TraitTable} {after : DrawState}

theorem generate_quest_of_compose {state : DrawState}
    (hcompose : recipe.compose tier ∅ state = (.ok (composition, traits), after)) :
    quest.generate recipe tier state = Entity.ofQuest tier composition traits after :=
  run_bind_ok hcompose

theorem generate_enemy_of_compose {state : DrawState}
    (hcompose : recipe.compose tier ∅ state = (.ok (composition, traits), after)) :
    (enemy.generate recipe tier state).1 = Entity.ofEnemy tier composition traits := by
  unfold generate
  rw [run_bind_ok hcompose]
  exact congrArg Prod.fst (run_ofExcept _ after)

/-- If base stats are written as decimals, the same fragments are drawn, and an entity keeps
all but the stats that would come from those fields.  A quest's reward is then zero, unless
its gold is drawn between bounds, and an enemy has its default health or attack, if that fits
with the bonus. -/
theorem generate_respelled (hlisted : recipe.Listed Item.Respells whole decimal)
    (hcompose : recipe.compose tier ∅ ⟨whole, stream⟩ = (.ok (composition, traits), after)) :
    ∃ respelled later,
      recipe.compose tier ∅ ⟨decimal, stream⟩ = (.ok (respelled, traits), later) ∧
      respelled.name = composition.name ∧ later.stream = after.stream ∧
      List.Forall₂ (Pick.Related Item.Respells) composition.picks respelled.picks ∧
      (∃ location gold experience,
        (quest.generate recipe tier ⟨whole, stream⟩).1 =
          .ok (.quest (.ofComposition tier composition traits) location gold experience) ∧
        (quest.generate recipe tier ⟨decimal, stream⟩).1 =
          .ok (.quest (.ofComposition tier composition traits) location
            (if Item.isDecimal (respelled.pick? "template") "baseGoldReward" && !traits.boundsGold
              then 0 else gold)
            (if Item.isDecimal (respelled.pick? "template") "baseXpReward"
              then 0 else experience))) ∧
      ∀ base health attack,
        (enemy.generate recipe tier ⟨whole, stream⟩).1 = .ok (.enemy base health attack) →
        ∀ entity, (enemy.generate recipe tier ⟨decimal, stream⟩).1 = .ok entity ↔
          Entity.FallsBack tier traits (respelled.pick? "creature") base health attack
            entity := by
  obtain ⟨respelled, later, hrespelled, hname, hpicks, hpaired⟩ :=
    Recipe.exists_compose_related Item.alike_of_respells hlisted hcompose
  refine ⟨respelled, later, hrespelled, hname, hpaired.streams.symm, hpicks, ?_, ?_⟩
  · obtain ⟨entity, last, hquest, _⟩ :=
      Entity.completes_ofQuest (fun _ => True) tier composition traits after trivial
    obtain ⟨_, final, hother, ⟨location, gold, experience, rfl, rfl⟩, _⟩ :=
      (Entity.matches_ofQuest hpicks hname tier traits).exists_of_ok hpaired hquest
    refine ⟨location, gold, experience, ?_, ?_⟩
    · rw [generate_quest_of_compose hcompose, hquest]
    · rw [generate_quest_of_compose hrespelled, hother]
  · intro base health attack hmade entity
    rw [generate_enemy_of_compose hcompose] at hmade
    rw [generate_enemy_of_compose hrespelled]
    exact Entity.ofEnemy_respelled hpicks hname hmade entity

end GeneratorKind

/-! ## A reward in both spellings -/

def Item.rescue (gold experience : Json) : Item :=
  ⟨"Rescue", none, none, 1, ∅, .object
    [("name", .text "Rescue"), ("baseGoldReward", gold), ("baseXpReward", experience)]⟩

theorem Item.respells_rescue : Respells (rescue (.int 100) (.int 40))
    (rescue (.float (.ofInt 100)) (.float (.ofInt 40))) := by
  have hfields : List.Forall₂ Respelled
      [("name", .text "Rescue"), ("baseGoldReward", .int 100), ("baseXpReward", .int 40)]
      [("name", .text "Rescue"), ("baseGoldReward", .float (.ofInt 100)),
        ("baseXpReward", .float (.ofInt 40))] :=
    .cons (.same _ _) (.cons (.decimal (by decide) (by decide))
      (.cons (.decimal (by decide) (by decide)) .nil))
  exact ⟨_, _, hfields, rfl, rfl⟩

namespace Documents

def rescueText : String :=
  "\x7b\"items\":[\x7b\"name\":\"Rescue\",\"baseGoldReward\":100,\"baseXpReward\":40\x7d]\x7d"

def decimalRescueText : String :=
  "\x7b\"items\":[\x7b\"name\":\"Rescue\",\"baseGoldReward\":100.0,\"baseXpReward\":40.0\x7d]\x7d"

def rescues (text : String) : Documents :=
  (∅ : Documents).insert ⟨"quests", "rescues"⟩ text

def decimalRewards? : Option Json → Option (Float × Float)
  | some (.object [("items", .array [.object [("name", .text "Rescue"),
      ("baseGoldReward", .float gold), ("baseXpReward", .float experience)]])]) =>
      some (gold, experience)
  | _ => none

theorem rescues_read : Reference.parse "@quests/rescues:*" =
    .ok ⟨"quests", [], "rescues", .wildcard, [], false, []⟩ := rfl

theorem rescues_candidates :
    (Resolver.candidates "@quests/rescues:*" (.ofSource (rescues rescueText).source)).1 =
      .ok (some [.rescue (.int 100) (.int 40)]) := by
  have hjson : Json.parse? (Catalog.withoutMark rescueText) =
      some (.object [("items", .array [(Item.rescue (.int 100) (.int 40)).raw])]) := by cbv
  exact Resolver.candidates_of_document rescues_read rfl rfl
    (Document.decode?_of_unmarked (by decide +kernel)) hjson

theorem decimalRescues_candidates :
    (Resolver.candidates "@quests/rescues:*" (.ofSource (rescues decimalRescueText).source)).1 =
      .ok (some [.rescue (.float (.ofInt 100)) (.float (.ofInt 40))]) := by
  have hrewards : decimalRewards? (Json.parse? (Catalog.withoutMark decimalRescueText)) =
      some (.ofInt 100, .ofInt 40) := by decide +kernel
  have hjson : Json.parse? (Catalog.withoutMark decimalRescueText) = some (.object
      [("items", .array [(Item.rescue (.float (.ofInt 100)) (.float (.ofInt 40))).raw])]) := by
    unfold decimalRewards? at hrewards
    split at hrewards
    · next gold experience hparsed =>
        rw [Option.some.injEq, Prod.mk.injEq] at hrewards
        rw [hparsed, hrewards.1, hrewards.2]
        rfl
    · contradiction
  exact Resolver.candidates_of_document rescues_read rfl rfl
    (Document.decode?_of_unmarked (by decide +kernel)) hjson

end Documents

namespace Recipe

def rescue : Recipe :=
  ⟨[.always "template" "@quests/rescues:*"], "\x7btemplate\x7d"⟩

theorem listed_rescue : rescue.Listed Item.Respells
    (.ofSource (Documents.rescues Documents.rescueText).source)
    (.ofSource (Documents.rescues Documents.decimalRescueText).source) := by
  intro slot hslot
  rw [List.mem_singleton.mp hslot]
  unfold Slot.always
  rw [Documents.rescues_candidates, Documents.decimalRescues_candidates]
  exact .ok (.some (.cons Item.respells_rescue .nil))

variable {text : String} {gold experience : Json}

theorem exists_compose_rescue
    (hlisted : (Resolver.candidates "@quests/rescues:*"
      (.ofSource (Documents.rescues text).source)).1 = .ok (some [.rescue gold experience]))
    (tier : Tier) (target : TraitTable) (stream : RandomStream) :
    ∃ composition after,
      rescue.compose tier target ⟨.ofSource (Documents.rescues text).source, stream⟩ =
        (.ok (composition, Composition.overlay target [⟨"template", .rescue gold experience⟩]),
          after) ∧
      composition.picks = [⟨"template", .rescue gold experience⟩] := by
  have hdrawn : ∃ after, (Slot.always "template" "@quests/rescues:*").draw tier
      ⟨.ofSource (Documents.rescues text).source, stream⟩ =
        (.ok (some (.rescue gold experience)), after) :=
    Slot.exists_draw_of_keep_eq_singleton Documents.rescues_read ⟨rfl, rfl, rfl⟩ rfl hlisted
      (tier.keep_singleton _) Int.one_pos stream
  obtain ⟨after, hdraw⟩ := hdrawn
  obtain ⟨composition, hcompose⟩ := exists_compose_of_draw hdraw rescue.nameTemplate target
  exact ⟨composition, after, hcompose⟩

end Recipe

namespace GeneratorKind

variable {text : String} {gold experience : Json}

theorem generate_rescue
    (hlisted : (Resolver.candidates "@quests/rescues:*"
      (.ofSource (Documents.rescues text).source)).1 = .ok (some [.rescue gold experience])) :
    ∃ base location,
      (quest.generate .rescue .common
          ⟨.ofSource (Documents.rescues text).source, .seeded 0⟩).1 =
        .ok (.quest base location (Tier.common.scale ((Json.int64? gold).getD 0))
          (Tier.common.scale ((Json.int64? experience).getD 0))) := by
  obtain ⟨composition, after, hcompose, hpicks⟩ :=
    Recipe.exists_compose_rescue hlisted .common ∅ (.seeded 0)
  have hpick : composition.pick? "template" = some (.rescue gold experience) := by
    unfold Composition.pick?
    rw [hpicks]
    rfl
  rw [generate_quest_of_compose hcompose]
  unfold Entity.ofQuest Entity.baseGold
  rw [hpick]
  exact ⟨_, _, rfl⟩

/-- The rescue brings a hundred gold, and none if the hundred is written as a decimal. -/
theorem generate_respelled_rescue :
    Recipe.rescue.Listed Item.Respells
        (.ofSource (Documents.rescues Documents.rescueText).source)
        (.ofSource (Documents.rescues Documents.decimalRescueText).source) ∧
      ∃ base location,
        (quest.generate .rescue .common
            ⟨.ofSource (Documents.rescues Documents.rescueText).source, .seeded 0⟩).1 =
          .ok (.quest base location 100 40) ∧
        (quest.generate .rescue .common
            ⟨.ofSource (Documents.rescues Documents.decimalRescueText).source, .seeded 0⟩).1 =
          .ok (.quest base location 0 0) := by
  refine ⟨Recipe.listed_rescue, ?_⟩
  obtain ⟨composition, after, hcompose, _⟩ :=
    Recipe.exists_compose_rescue Documents.rescues_candidates .common ∅ (.seeded 0)
  obtain ⟨respelled, later, hrespelled, _, _, _, hquest, _⟩ :=
    generate_respelled Recipe.listed_rescue hcompose
  obtain ⟨location, gold, experience, hwhole, hdecimal⟩ := hquest
  obtain ⟨base, place, hrewards⟩ := generate_rescue Documents.rescues_candidates
  obtain ⟨other, last, hother, hpicks⟩ :=
    Recipe.exists_compose_rescue Documents.decimalRescues_candidates .common ∅ (.seeded 0)
  have hsame : respelled = other := by
    rw [hrespelled] at hother
    exact congrArg Prod.fst (Except.ok.inj (congrArg Prod.fst hother))
  have htemplate : respelled.pick? "template" =
      some (.rescue (.float (.ofInt 100)) (.float (.ofInt 40))) := by
    rw [hsame]
    unfold Composition.pick?
    rw [hpicks]
    rfl
  have hhundred : Tier.common.scale ((Json.int64? (.int 100)).getD 0) = 100 := by decide +kernel
  have hforty : Tier.common.scale ((Json.int64? (.int 40)).getD 0) = 40 := by decide +kernel
  rw [htemplate] at hdecimal
  rw [hwhole, hhundred, hforty, Except.ok.injEq, Entity.quest.injEq] at hrewards
  obtain ⟨_, _, rfl, rfl⟩ := hrewards
  exact ⟨_, location, hwhole, hdecimal⟩

theorem not_rewards_survive_respelling :
    ¬ ∀ (whole decimal : Source) (seed : UInt64) (recipe : Recipe) (tier : Tier)
      (base other : EntityBase) (location place : String) (gold experience : Int)
      (otherGold otherExperience : Int),
      recipe.Listed Item.Respells (.ofSource whole) (.ofSource decimal) →
      (quest.generate recipe tier ⟨.ofSource whole, .seeded seed⟩).1 =
        .ok (.quest base location gold experience) →
      (quest.generate recipe tier ⟨.ofSource decimal, .seeded seed⟩).1 =
        .ok (.quest other place otherGold otherExperience) →
      otherGold = gold ∧ otherExperience = experience := by
  intro hclaim
  obtain ⟨base, location, hwhole⟩ := generate_rescue Documents.rescues_candidates
  obtain ⟨other, place, hdecimal⟩ := generate_rescue Documents.decimalRescues_candidates
  obtain ⟨hgold, _⟩ := hclaim _ _ 0 _ _ _ _ _ _ _ _ _ _ Recipe.listed_rescue hwhole hdecimal
  exact absurd hgold (by decide +kernel)

end GeneratorKind
end GameCatalog
