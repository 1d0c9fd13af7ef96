import GameCatalog.Proofs.Compositions

/-!
# What generation comes to

A recipe is accepted if all its slots are plain wildcards.  Over a source that can be read
such a recipe always leads to an entity: a missing or unusable catalog, candidates without
a positive weight and a slot that chance passes over only leave a pick out, and no draw is
asked for a place or a number that it cannot give.  What remains is the range of an
enemy's two sums.
-/

namespace GameCatalog

/-! ## Recipes of plain wildcards -/

namespace Recipe

/-- Every slot's reference reads as a wildcard without filters and properties. -/
def Plain (recipe : Recipe) : Prop :=
  ∀ slot ∈ recipe.slots, ∃ r, Reference.parse slot.reference = .ok r ∧ r.PlainWildcard

theorem validateSlots_eq_ok_iff {slots : List Slot} :
    validateSlots slots = .ok () ↔ ∀ slot ∈ slots, ∃ r, slot.plainReference = .ok r := by
  induction slots with
  | nil => simp [validateSlots]
  | cons slot rest ih =>
      unfold validateSlots
      cases hplain : slot.plainReference with
      | error fault => simp [hplain]
      | ok r => simp [hplain, ih]

theorem validate_eq_ok_iff {recipe : Recipe} : recipe.validate = .ok () ↔ recipe.Plain := by
  unfold validate Plain
  simp only [validateSlots_eq_ok_iff, Slot.plainReference_eq_ok_iff]

end Recipe

theorem Generator.exists_withRecipe_iff {kind : GeneratorKind} {recipe : Recipe}
    {seed : UInt64} :
    (∃ generator, withRecipe kind recipe seed = .ok generator) ↔ recipe.Plain := by
  rw [← Recipe.validate_eq_ok_iff]
  unfold withRecipe
  cases hvalid : recipe.validate with
  | error fault => simp
  | ok done => simp

theorem GeneratorKind.plain_standardRecipe (kind : GeneratorKind) :
    kind.standardRecipe.Plain := by
  have hvalid : kind.standardRecipe.validate = .ok () := by
    cases kind <;> rfl
  exact Recipe.validate_eq_ok_iff.mp hvalid

/-! ## Draws over a readable source -/

def Archive.Readable (archive : Archive) : Prop :=
  archive.source.Readable

def DrawState.Readable (state : DrawState) : Prop :=
  state.archive.Readable

theorem ArchiveM.completes_warn (count : Nat) :
    Completes Archive.Readable (warn count) :=
  fun archive hreadable => ⟨(), archive.warn count, rfl, hreadable⟩

theorem Resolver.completes_candidates (text : String) :
    Completes Archive.Readable (candidates text) := by
  intro archive hreadable
  cases hread : Reference.parse text with
  | error flaw =>
      unfold candidates
      rw [hread]
      exact ⟨none, archive, rfl, hreadable⟩
  | ok r =>
      obtain ⟨search, keys, _, hsearch⟩ := exists_search hreadable r
      refine ⟨_, _, candidates_run hread hsearch, ?_⟩
      unfold Archive.Readable
      rw [Archive.source_afterLoads]
      exact hreadable

namespace DrawM

theorem completes_consult {α : Type} {action : ArchiveM α}
    (haction : Completes Archive.Readable action) :
    Completes DrawState.Readable (consult action) := by
  intro state hreadable
  obtain ⟨answer, after, hrun, hafter⟩ := haction state.archive hreadable
  exact ⟨answer, ⟨after, state.stream⟩, Resolver.consult_of_run hrun state.stream, hafter⟩

theorem completes_unit : Completes DrawState.Readable unit :=
  fun _ hreadable => ⟨_, _, rfl, hreadable⟩

theorem completes_between (P : Archive → Prop) {low high : Int} (hrange : low ≤ high) :
    Completes (fun state => P state.archive) (between low high) := by
  unfold between
  rw [if_neg (Int.not_lt.mpr hrange)]
  intro state harchive
  dsimp only
  split
  · exact ⟨_, _, rfl, harchive⟩
  · exact ⟨_, _, rfl, harchive⟩

end DrawM

namespace Slot

theorem completes_isPassedOver (slot : Slot) :
    Completes DrawState.Readable slot.isPassedOver := by
  unfold isPassedOver
  split
  · apply Completes.bind DrawM.completes_unit
    exact fun roll => completes_pure _ _
  · exact completes_pure _ _

theorem completes_drawAmong (items : List Item) :
    Completes DrawState.Readable (drawAmong items) := by
  unfold drawAmong
  cases hshares : Rarity.probabilities Float (items.map Item.weight) with
  | ok shares =>
      apply Completes.bind DrawM.completes_unit
      intro roll
      obtain ⟨item, _, hselected⟩ := selected_of_probabilities hshares roll
      apply Completes.bind (completes_ofExcept _ hselected)
      exact fun item => completes_pure _ _
  | error fault =>
      apply Completes.bind (DrawM.completes_consult (ArchiveM.completes_warn 1))
      exact fun _ => completes_pure _ _

theorem completes_drawListed (tier : Tier) (optional : Bool) (listed : Option (List Item)) :
    Completes DrawState.Readable (drawListed tier optional listed) := by
  cases listed with
  | some items => exact completes_drawAmong _
  | none =>
      apply Completes.bind (DrawM.completes_consult (ArchiveM.completes_warn _))
      exact fun _ => completes_pure _ _

theorem completes_draw {slot : Slot} {r : Reference}
    (hread : Reference.parse slot.reference = .ok r) (hplain : r.PlainWildcard)
    (tier : Tier) : Completes DrawState.Readable (slot.draw tier) := by
  have hreference : slot.plainReference = .ok r :=
    plainReference_eq_ok_iff.mpr ⟨hread, hplain⟩
  unfold draw
  apply Completes.bind (completes_ofExcept _ hreference)
  intro r
  apply Completes.bind slot.completes_isPassedOver
  intro passed
  cases passed with
  | true => exact completes_pure _ _
  | false =>
      apply Completes.bind
        (DrawM.completes_consult (Resolver.completes_candidates slot.reference))
      exact completes_drawListed tier r.optional

end Slot

namespace Recipe

theorem completes_drawSlots {slots : List Slot}
    (hplain : ∀ slot ∈ slots, ∃ r, Reference.parse slot.reference = .ok r ∧ r.PlainWildcard)
    (tier : Tier) : Completes DrawState.Readable (drawSlots tier slots) := by
  induction slots with
  | nil => exact completes_pure _ _
  | cons slot rest ih =>
      obtain ⟨r, hread, hwildcard⟩ := hplain slot List.mem_cons_self
      have hrest := ih fun other hmem => hplain other (List.mem_cons_of_mem slot hmem)
      unfold drawSlots
      apply Completes.bind (Slot.completes_draw hread hwildcard tier)
      intro chosen
      apply Completes.bind hrest
      intro others
      cases chosen <;> exact completes_pure _ _

theorem completes_compose {recipe : Recipe} (hplain : recipe.Plain) (tier : Tier)
    (target : TraitTable) :
    Completes DrawState.Readable (recipe.compose tier target) := by
  unfold compose
  apply Completes.bind (completes_drawSlots hplain tier)
  exact fun picks => completes_pure _ _

end Recipe

/-! ## Entities -/

namespace Entity

/-- The bounds of the gold may stand in any order. -/
theorem completes_baseGold (P : Archive → Prop) (composition : Composition)
    (traits : TraitTable) :
    Completes (fun state => P state.archive) (baseGold composition traits) := by
  unfold baseGold
  split
  · have hordered : min (traits.int "goldMin") (traits.int "goldMax") ≤
        max (traits.int "goldMin") (traits.int "goldMax") := by omega
    exact DrawM.completes_between P hordered
  · exact completes_pure _ _

theorem completes_ofQuest (P : Archive → Prop) (tier : Tier) (composition : Composition)
    (traits : TraitTable) :
    Completes (fun state => P state.archive) (ofQuest tier composition traits) := by
  unfold ofQuest
  apply Completes.bind (completes_baseGold P composition traits)
  exact fun gold => completes_pure _ _

/-- The creature's base stats and the bonuses add up within the signed 64-bit range. -/
structure StatsFit (composition : Composition) (traits : TraitTable) : Prop where
  health : Number.inInt64 ((Item.field? (composition.pick? "creature") "baseHealth").getD 10 +
    traits.int "healthBonus") = true
  attack : Number.inInt64 ((Item.field? (composition.pick? "creature") "baseAttack").getD 1 +
    traits.int "damageBonus") = true

theorem statsFit_iff {composition : Composition} {traits : TraitTable} :
    StatsFit composition traits ↔
      Number.inInt64 ((Item.field? (composition.pick? "creature") "baseHealth").getD 10 +
        traits.int "healthBonus") = true ∧
      Number.inInt64 ((Item.field? (composition.pick? "creature") "baseAttack").getD 1 +
        traits.int "damageBonus") = true :=
  ⟨fun hfits => ⟨hfits.health, hfits.attack⟩, fun hfits => ⟨hfits.1, hfits.2⟩⟩

theorem statSum_eq_ok_iff {base : Option Int} {default bonus sum : Int} :
    statSum base default bonus = .ok sum ↔
      Number.inInt64 (base.getD default + bonus) = true ∧ sum = base.getD default + bonus := by
  unfold statSum
  by_cases hfits : Number.inInt64 (base.getD default + bonus) = true
  · simp [hfits, eq_comm]
  · simp [hfits]

theorem ofEnemy_eq_ok_iff {tier : Tier} {composition : Composition} {traits : TraitTable}
    {entity : Entity} :
    ofEnemy tier composition traits = .ok entity ↔ StatsFit composition traits ∧
      entity = enemy (.ofComposition tier composition traits)
        (max (tier.scale ((Item.field? (composition.pick? "creature") "baseHealth").getD 10 +
          traits.int "healthBonus")) 1)
        (max (tier.scale ((Item.field? (composition.pick? "creature") "baseAttack").getD 1 +
          traits.int "damageBonus")) 0) := by
  simp only [ofEnemy, bind_eq_ok_iff, statSum_eq_ok_iff]
  constructor
  · intro hmade
    obtain ⟨health, ⟨hhealth, rfl⟩, attack, ⟨hattack, rfl⟩, hentity⟩ := hmade
    exact ⟨⟨hhealth, hattack⟩, (Except.ok.inj hentity).symm⟩
  · intro hmade
    obtain ⟨hfits, rfl⟩ := hmade
    exact ⟨_, ⟨hfits.health, rfl⟩, _, ⟨hfits.attack, rfl⟩, rfl⟩

theorem exists_ofEnemy_iff {tier : Tier} {composition : Composition} {traits : TraitTable} :
    (∃ entity, ofEnemy tier composition traits = .ok entity) ↔
      StatsFit composition traits := by
  simp [ofEnemy_eq_ok_iff]

end Entity

/-! ## Generators -/

namespace GeneratorKind

variable {kind : GeneratorKind} {recipe : Recipe} {tier : Tier} {state : DrawState}

/-- If the next entity is an enemy, its sums fit whatever is composed for it. -/
def NextFits (kind : GeneratorKind) (recipe : Recipe) (tier : Tier) (state : DrawState) :
    Prop :=
  kind = .enemy → ∀ composition traits after,
    recipe.compose tier ∅ state = (.ok (composition, traits), after) →
      Entity.StatsFit composition traits

/-- The sums fit for each of so many entities, generated one after the other. -/
def AllFit (kind : GeneratorKind) (recipe : Recipe) (tier : Tier) (count : Nat)
    (state : DrawState) : Prop :=
  ∀ made < count, kind.NextFits recipe tier (kind.generateMany recipe tier made state).2

theorem exists_generate (hplain : recipe.Plain) (hreadable : state.Readable)
    (hfits : kind.NextFits recipe tier state) :
    ∃ entity after, kind.generate recipe tier state = (.ok entity, after) ∧
      after.Readable := by
  obtain ⟨⟨composition, traits⟩, composed, hcompose, hcomposed⟩ :=
    Recipe.completes_compose hplain tier ∅ state hreadable
  unfold generate
  rw [run_bind_ok hcompose]
  cases kind with
  | item => exact ⟨_, composed, rfl, hcomposed⟩
  | npc => exact ⟨_, composed, rfl, hcomposed⟩
  | quest =>
      exact Entity.completes_ofQuest Archive.Readable tier composition traits composed hcomposed
  | enemy =>
      have hstats := hfits rfl composition traits composed hcompose
      obtain ⟨entity, henemy⟩ := Entity.exists_ofEnemy_iff.mpr hstats
      exact completes_ofExcept DrawState.Readable henemy composed hcomposed

theorem snd_generateMany_succ {entity : Entity} {after : DrawState}
    (hgenerate : kind.generate recipe tier state = (.ok entity, after)) (count : Nat) :
    (kind.generateMany recipe tier (count + 1) state).2 =
      (kind.generateMany recipe tier count after).2 := by
  have hsucc : kind.generateMany recipe tier (count + 1) state =
      (kind.generateMany recipe tier count >>= fun others => pure (entity :: others)) after :=
    run_bind_ok hgenerate
  rw [hsucc]
  cases hrest : kind.generateMany recipe tier count after with
  | mk result last =>
      cases result with
      | error fault => rw [run_bind_error hrest]
      | ok others =>
          rw [run_bind_ok hrest]
          rfl

/-- What fits for the first entity and for the others fits for those after the first. -/
theorem AllFit.after {entity : Entity} {after : DrawState} {count : Nat}
    (hfits : kind.AllFit recipe tier (count + 1) state)
    (hgenerate : kind.generate recipe tier state = (.ok entity, after)) :
    kind.AllFit recipe tier count after := by
  intro made hmade
  have hnext := hfits (made + 1) (Nat.succ_lt_succ hmade)
  rwa [snd_generateMany_succ hgenerate] at hnext

theorem exists_generateMany (hplain : recipe.Plain) {count : Nat}
    (hreadable : state.Readable) (hfits : kind.AllFit recipe tier count state) :
    ∃ entities after, kind.generateMany recipe tier count state = (.ok entities, after) ∧
      entities.length = count := by
  induction count generalizing state with
  | zero => exact ⟨[], state, rfl, rfl⟩
  | succ count ih =>
      have hfirst : kind.NextFits recipe tier state := hfits 0 (Nat.zero_lt_succ count)
      obtain ⟨entity, after, hgenerate, hafter⟩ := exists_generate hplain hreadable hfirst
      obtain ⟨others, last, hothers, hlength⟩ := ih hafter (hfits.after hgenerate)
      refine ⟨entity :: others, last, ?_, by rw [List.length_cons, hlength]⟩
      unfold generateMany
      exact (run_bind_ok hgenerate).trans (run_bind_ok hothers)

/-- A recipe is accepted if and only if it is plain, and from each recipe that is accepted,
or the kind's own, every generator makes an entity, and as many as it is asked for,
whatever a readable source holds and the stream brings, if enemies' sums stay in range. -/
theorem generates_from_accepted (kind : GeneratorKind) (recipe : Recipe) (seed : UInt64) :
    ((∃ generator, Generator.withRecipe kind recipe seed = .ok generator) ↔ recipe.Plain) ∧
    ((∃ generator, Generator.withRecipe kind recipe seed = .ok generator) ∨
        recipe = kind.standardRecipe →
      ∀ tier archive stream, archive.source.Readable →
        (kind.NextFits recipe tier ⟨archive, stream⟩ →
          ∃ entity after, kind.generate recipe tier ⟨archive, stream⟩ = (.ok entity, after)) ∧
        ∀ count, kind.AllFit recipe tier count ⟨archive, stream⟩ →
          ∃ entities after,
            Generator.generateMany ⟨kind, recipe, stream⟩ tier count archive =
              (.ok entities, after) ∧
            entities.length = count) := by
  refine ⟨Generator.exists_withRecipe_iff, ?_⟩
  intro haccepted tier archive stream hreadable
  have hplain : recipe.Plain := by
    rcases haccepted with haccepted | hstandard
    · exact Generator.exists_withRecipe_iff.mp haccepted
    · rw [hstandard]
      exact kind.plain_standardRecipe
  have hstate : DrawState.Readable ⟨archive, stream⟩ := hreadable
  constructor
  · intro hfits
    obtain ⟨entity, after, hgenerate, _⟩ := exists_generate hplain hstate hfits
    exact ⟨entity, after, hgenerate⟩
  · intro count hfits
    obtain ⟨entities, after, hgenerate, hlength⟩ := exists_generateMany hplain hstate hfits
    refine ⟨entities, ⟨⟨kind, recipe, after.stream⟩, after.archive⟩, ?_, hlength⟩
    unfold Generator.generateMany
    rw [hgenerate]

/-- A gem brings an enemy no bonus, and without any of their catalogs quests are still made. -/
theorem generates_from_accepted_gem :
    (∃ generator, Generator.withRecipe enemy .gem 7 = .ok generator) ∧
      Documents.gems.source.Readable ∧
      (∃ entity after, enemy.generate .gem .legendary
        ⟨.ofSource Documents.gems.source, .ofWords []⟩ = (.ok entity, after)) ∧
      ∃ entities after, Generator.generateMany ⟨quest, quest.standardRecipe, .ofWords []⟩ .rare 3
          (.ofSource Documents.gems.source) = (.ok entities, after) ∧
        entities.length = 3 := by
  have hreadable := Documents.source_readable Documents.gems
  obtain ⟨hgem, hgenerates⟩ := generates_from_accepted enemy .gem 7
  have haccepted : ∃ generator, Generator.withRecipe enemy .gem 7 = .ok generator := by
    rw [hgem]
    intro slot hslot
    rw [List.mem_singleton.mp hslot]
    exact ⟨_, Documents.gems_read, rfl, rfl, rfl⟩
  have hfits : enemy.NextFits .gem .legendary ⟨.ofSource Documents.gems.source, .ofWords []⟩ := by
    intro _ composition traits after hcompose
    obtain ⟨made, last, hmade, hpicks⟩ := Recipe.exists_compose_gem ∅ (.ofWords [])
    rw [hmade] at hcompose
    obtain ⟨rfl, rfl⟩ := Prod.mk.inj (Except.ok.inj (congrArg Prod.fst hcompose))
    have hcreature : made.pick? "creature" = none := by
      unfold Composition.pick?
      rw [hpicks]
      rfl
    constructor
    · rw [hcreature]
      decide
    · rw [hcreature]
      decide
  obtain ⟨hone, _⟩ := hgenerates (.inl haccepted) .legendary (.ofSource Documents.gems.source)
    (.ofWords []) hreadable
  obtain ⟨_, hstandard⟩ := generates_from_accepted quest quest.standardRecipe 7
  obtain ⟨_, hmany⟩ := hstandard (.inr rfl) .rare (.ofSource Documents.gems.source)
    (.ofWords []) hreadable
  refine ⟨haccepted, hreadable, hone hfits, hmany 3 ?_⟩
  intro made hmade hkind
  contradiction

end GeneratorKind
end GameCatalog
