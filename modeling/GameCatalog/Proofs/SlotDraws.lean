import GameCatalog.Proofs.ArchiveIndependence
import GameCatalog.Proofs.ResolutionOutcomes
import Mathlib

/-!
# Drawing for a slot

A slot draws one of the candidates that the tier keeps.  For every roll a list gives one of
its entries if some weight in it is positive, and nothing otherwise.  A tier keeps fragments
for their kind and not for their weight, so it may keep only fragments without a positive
weight and leave the slot empty although one of the others could have been drawn.
-/

namespace GameCatalog

/-! ## Plain wildcards -/

/-- A wildcard without filters and properties. -/
structure Reference.PlainWildcard (r : Reference) : Prop where
  item : r.item = .wildcard
  filters : r.filters = []
  property : r.property = []

namespace Slot

theorem objection?_eq_none_iff {r : Reference} : objection? r = none ↔ r.PlainWildcard := by
  have hplain : r.PlainWildcard ↔
      r.isWildcard = true ∧ r.filters = [] ∧ r.property = [] := by
    rw [Reference.isWildcard_iff]
    exact ⟨fun h => ⟨h.item, h.filters, h.property⟩, fun h => ⟨h.1, h.2.1, h.2.2⟩⟩
  rw [hplain]
  unfold objection?
  by_cases hwildcard : r.isWildcard = true
  · by_cases hfilters : r.filters = []
    · by_cases hproperty : r.property = []
      · simp [hwildcard, hfilters, hproperty]
      · simp [hwildcard, hfilters, hproperty]
    · simp [hwildcard, hfilters]
  · simp [hwildcard]

theorem plainReference_eq_ok_iff {slot : Slot} {r : Reference} :
    slot.plainReference = .ok r ↔ Reference.parse slot.reference = .ok r ∧ r.PlainWildcard := by
  unfold plainReference
  cases Reference.parse slot.reference with
  | error flaw => simp
  | ok read =>
      have hplain := objection?_eq_none_iff (r := read)
      cases hobjection : objection? read with
      | some problem =>
          rw [hobjection] at hplain
          simp only [hobjection, reduceCtorEq, false_iff, Except.ok.injEq, not_and] at hplain ⊢
          intro hsame
          rwa [← hsame]
      | none =>
          simp only [hobjection, true_iff, Except.ok.injEq, iff_self_and] at hplain ⊢
          intro hsame
          rwa [← hsame]

end Slot

/-! ## Lists to draw from -/

/-- There is a list, and one of its weights is positive. -/
def Drawable (listed : Option (List Item)) : Prop :=
  ∃ items, listed = some items ∧ ∃ item ∈ items, 0 < item.weight

theorem drawable_some_iff {items : List Item} :
    Drawable (some items) ↔ ∃ item ∈ items, 0 < item.weight := by
  simp [Drawable]

theorem not_drawable_none : ¬ Drawable none := by
  simp [Drawable]

/-- What is chosen from a list for a roll is in the list, the roll selects no place outside
it, and nothing is chosen if nothing can be drawn. -/
structure DrawnFrom (listed : Option (List Item)) (roll : Float) (chosen : Option Item) :
    Prop where
  member : ∀ item, chosen = some item → ∃ items, listed = some items ∧ item ∈ items
  within : ∀ items shares, listed = some items →
    Rarity.probabilities Float (items.map Item.weight) = .ok shares →
      Rarity.pickIndex shares roll < items.length
  nothing : ¬ Drawable listed → chosen = none

theorem Rarity.pickIndex_lt_of_weights {items : List Item} {shares : List Float}
    (hshares : probabilities Float (items.map Item.weight) = .ok shares) (roll : Float) :
    pickIndex shares roll < items.length := by
  have hbound := pickIndex_lt_of_probabilities hshares roll
  rwa [List.length_map] at hbound

theorem drawnFrom_none (listed : Option (List Item)) (roll : Float) :
    DrawnFrom listed roll none where
  member := by simp
  within _ _ _ hshares := Rarity.pickIndex_lt_of_weights hshares roll
  nothing _ := rfl

theorem drawnFrom_some {items : List Item} {item : Item} (hmem : item ∈ items)
    (hdrawable : Drawable (some items)) (roll : Float) :
    DrawnFrom (some items) roll (some item) where
  member other hother := by
    rw [← Option.some.inj hother]
    exact ⟨items, rfl, hmem⟩
  within _ _ _ hshares := Rarity.pickIndex_lt_of_weights hshares roll
  nothing hnone := absurd hdrawable hnone

/-- A tier leaves a list without a positive weight if it keeps fragments of its own kind
and none of these has one. -/
theorem Tier.not_drawable_keep_iff {tier : Tier} {items : List Item}
    (hpositive : ∃ item ∈ items, 0 < item.weight) :
    ¬ Drawable (some (tier.keep items)) ↔
      (∃ item ∈ items, tier.Draws item) ∧
        ∀ item ∈ items, tier.Draws item → item.weight ≤ 0 := by
  simp only [drawable_some_iff, keep, ← Tier.suits_iff]
  by_cases hkept : items.filter tier.suits = []
  · have hunsuited : ∀ item ∈ items, ¬ tier.suits item = true :=
      List.filter_eq_nil_iff.mp hkept
    have hnosuited : ¬ ∃ item ∈ items, tier.suits item = true := by
      rintro ⟨item, hmem, hsuits⟩
      exact hunsuited item hmem hsuits
    simp only [hkept, List.isEmpty_nil, if_true, hnosuited, false_and, iff_false,
      Classical.not_not]
    exact hpositive
  · have hentries : (items.filter tier.suits).isEmpty = false := by simpa using hkept
    have hsuited : ∃ item ∈ items, tier.suits item = true := by
      obtain ⟨item, hmem⟩ := List.exists_mem_of_ne_nil _ hkept
      exact ⟨item, List.mem_filter.mp hmem⟩
    simp only [hentries, Bool.false_eq_true, if_false, hsuited, true_and, List.mem_filter,
      not_exists, not_and, Int.not_lt, and_imp]

theorem Tier.keep_singleton (tier : Tier) (item : Item) : tier.keep [item] = [item] := by
  unfold keep
  by_cases hsuits : tier.suits item = true
  · simp [hsuits]
  · simp [hsuits]

/-! ## Rolls -/

/-- The computation does what is done for the roll that comes next in the stream. -/
def DrawM.Rolls {α : Type} (x : DrawM α) (forRoll : Float → ArchiveM α) : Prop :=
  ∀ archive stream, ∃ next, x ⟨archive, stream⟩ =
    ((forRoll stream.unit.1 archive).1, ⟨(forRoll stream.unit.1 archive).2, next⟩)

namespace DrawM

theorem rolls_pure {α : Type} (a : α) : Rolls (pure a) fun _ => pure a :=
  fun _ stream => ⟨stream, rfl⟩

theorem rolls_bind_consult {α β : Type} (action : ArchiveM α) {f : α → DrawM β}
    {g : α → Float → ArchiveM β} (hf : ∀ a, Rolls (f a) (g a)) :
    Rolls (consult action >>= f) fun roll => action >>= fun a => g a roll := by
  intro archive stream
  cases haction : action archive with
  | mk result after =>
      have hconsult := Resolver.consult_of_run haction stream
      cases result with
      | error fault =>
          refine ⟨stream, ?_⟩
          dsimp only
          rw [run_bind_error hconsult, run_bind_error haction]
      | ok a =>
          obtain ⟨next, hnext⟩ := hf a after stream
          refine ⟨next, ?_⟩
          dsimp only
          rw [run_bind_ok hconsult, run_bind_ok haction]
          exact hnext

end DrawM

namespace Slot

/-- The draw among items, for a roll. -/
def chooseFor (items : List Item) (roll : Float) : ArchiveM (Option Item) := do
  match Rarity.probabilities Float (items.map Item.weight) with
  | .ok shares =>
      let item ← MonadExcept.ofExcept (selected items shares roll)
      return some item
  | .error _ =>
      ArchiveM.warn 1
      return none

/-- The draw from what the tier keeps of the candidates, for a roll. -/
def drawListedFor (tier : Tier) (optional : Bool) (listed : Option (List Item))
    (roll : Float) : ArchiveM (Option Item) := do
  match listed with
  | none =>
      ArchiveM.warn (if optional then 0 else 1)
      return none
  | some items => chooseFor (tier.keep items) roll

/-- The draw of a slot that chance does not pass over, for a roll. -/
def drawFor (slot : Slot) (tier : Tier) (roll : Float) : ArchiveM (Option Item) := do
  let r ← MonadExcept.ofExcept slot.plainReference
  let listed ← Resolver.candidates slot.reference
  drawListedFor tier r.optional listed roll

variable {slot : Slot} {tier : Tier} {items : List Item}

theorem rolls_drawAmong (items : List Item) :
    DrawM.Rolls (drawAmong items) (chooseFor items) := by
  intro archive stream
  unfold drawAmong chooseFor
  cases Rarity.probabilities Float (items.map Item.weight) with
  | error fault => exact ⟨stream, rfl⟩
  | ok shares =>
      have hunit : DrawM.unit ⟨archive, stream⟩ =
          (.ok stream.unit.1, ⟨archive, stream.unit.2⟩) := rfl
      refine ⟨stream.unit.2, (run_bind_ok hunit).trans ?_⟩
      dsimp only
      cases selected items shares stream.unit.1 <;> rfl

theorem isPassedOver_of_certain (hchance : slot.chance = 1.0) (state : DrawState) :
    slot.isPassedOver state = (.ok false, state) := by
  have hcertain : ¬ slot.chance < 1.0 := by
    rw [hchance]
    decide
  unfold isPassedOver
  rw [if_neg hcertain]
  rfl

theorem rolls_drawListed (tier : Tier) (optional : Bool) (listed : Option (List Item)) :
    DrawM.Rolls (drawListed tier optional listed) (drawListedFor tier optional listed) := by
  cases listed with
  | none => exact DrawM.rolls_bind_consult _ fun _ => DrawM.rolls_pure none
  | some items => exact rolls_drawAmong (tier.keep items)

theorem rolls_draw (hchance : slot.chance = 1.0) (tier : Tier) :
    DrawM.Rolls (slot.draw tier) (slot.drawFor tier) := by
  intro archive stream
  unfold draw drawFor
  cases slot.plainReference with
  | error fault => exact ⟨stream, rfl⟩
  | ok r =>
      have hpassed := isPassedOver_of_certain hchance ⟨archive, stream⟩
      have hrolls := DrawM.rolls_bind_consult (Resolver.candidates slot.reference)
        (rolls_drawListed tier r.optional)
      obtain ⟨next, hnext⟩ := hrolls archive stream
      exact ⟨next, (run_bind_ok hpassed).trans hnext⟩

/-! ## What a draw comes to -/

theorem selected_of_probabilities {shares : List Float}
    (hshares : Rarity.probabilities Float (items.map Item.weight) = .ok shares)
    (roll : Float) : ∃ item ∈ items, selected items shares roll = .ok item := by
  have hplace := Rarity.pickIndex_lt_of_weights hshares roll
  refine ⟨items[Rarity.pickIndex shares roll], List.getElem_mem hplace, ?_⟩
  unfold selected
  simp only [List.getElem?_eq_getElem hplace]

/-- A choice among items is never a trap, and it gives one of them if one can be drawn. -/
theorem chooseFor_drawnFrom (items : List Item) (roll : Float) (archive : Archive) :
    ∃ chosen after, chooseFor items roll archive = (.ok chosen, after) ∧
      DrawnFrom (some items) roll chosen ∧ (Drawable (some items) → chosen.isSome = true) := by
  unfold chooseFor
  cases hshares : Rarity.probabilities Float (items.map Item.weight) with
  | ok shares =>
      obtain ⟨⟨weight, hweight, hlarge⟩, _⟩ := Rarity.probabilities_eq_ok_iff.mp hshares
      obtain ⟨positive, hpositive, rfl⟩ := List.mem_map.mp hweight
      have hdrawable : Drawable (some items) :=
        drawable_some_iff.mpr ⟨positive, hpositive, hlarge⟩
      obtain ⟨item, hmem, hselected⟩ := selected_of_probabilities hshares roll
      refine ⟨some item, archive, ?_, drawnFrom_some hmem hdrawable roll, fun _ => rfl⟩
      simp only [hselected]
      rfl
  | error fault =>
      refine ⟨none, archive.warn 1, rfl, drawnFrom_none _ roll, ?_⟩
      intro hdrawable
      obtain ⟨item, hmem, hlarge⟩ := drawable_some_iff.mp hdrawable
      have hchances := (Rarity.probabilities_eq_ok_iff (α := Float)).mpr
        ⟨⟨_, List.mem_map_of_mem hmem, hlarge⟩, rfl⟩
      rw [hshares] at hchances
      contradiction

variable {r : Reference} {archive : Archive} {listed : Option (List Item)} {listing : Archive}

/-- A slot draws from what the tier keeps of its candidates. -/
theorem drawFor_drawnFrom (hread : Reference.parse slot.reference = .ok r)
    (hplain : r.PlainWildcard)
    (hlisted : Resolver.candidates slot.reference archive = (.ok listed, listing))
    (tier : Tier) (roll : Float) :
    ∃ chosen after, slot.drawFor tier roll archive = (.ok chosen, after) ∧
      DrawnFrom (listed.map tier.keep) roll chosen ∧
      (Drawable (listed.map tier.keep) → chosen.isSome = true) := by
  unfold drawFor
  rw [plainReference_eq_ok_iff.mpr ⟨hread, hplain⟩]
  cases listed with
  | none =>
      refine ⟨none, _, run_bind_ok hlisted, drawnFrom_none _ roll, ?_⟩
      intro hdrawable
      exact absurd hdrawable not_drawable_none
  | some items =>
      obtain ⟨chosen, after, hchoice, hdrawn, hfound⟩ :=
        chooseFor_drawnFrom (tier.keep items) roll listing
      exact ⟨chosen, after, (run_bind_ok hlisted).trans hchoice, hdrawn, hfound⟩

/-- Over a readable source a slot that chance does not pass over always comes to an answer,
for the roll that comes next. -/
theorem exists_draw (hreadable : archive.source.Readable)
    (hread : Reference.parse slot.reference = .ok r) (hplain : r.PlainWildcard)
    (hchance : slot.chance = 1.0) (tier : Tier) (stream : RandomStream) :
    ∃ listed chosen after,
      (Resolver.candidates slot.reference archive).1 = .ok listed ∧
      slot.draw tier ⟨archive, stream⟩ = (.ok chosen, after) ∧
      DrawnFrom (listed.map tier.keep) stream.unit.1 chosen ∧
      (Drawable (listed.map tier.keep) → chosen.isSome = true) := by
  obtain ⟨search, keys, _, hsearch⟩ := Resolver.exists_search hreadable r
  have hlisted := Resolver.candidates_run hread hsearch
  obtain ⟨next, hdraw⟩ := rolls_draw hchance tier archive stream
  obtain ⟨chosen, after, hrun, hdrawn, hfound⟩ :=
    drawFor_drawnFrom hread hplain hlisted tier stream.unit.1
  rw [hrun] at hdraw
  exact ⟨Resolver.listedAt search, chosen, ⟨after, next⟩, by rw [hlisted], hdraw, hdrawn, hfound⟩

/-- A slot that chance does not pass over draws the one fragment that the tier keeps. -/
theorem exists_draw_of_keep_eq_singleton {item : Item}
    (hread : Reference.parse slot.reference = .ok r) (hplain : r.PlainWildcard)
    (hchance : slot.chance = 1.0)
    (hlisted : (Resolver.candidates slot.reference archive).1 = .ok (some items))
    (hkept : tier.keep items = [item]) (hweight : 0 < item.weight) (stream : RandomStream) :
    ∃ after, slot.draw tier ⟨archive, stream⟩ = (.ok (some item), after) := by
  have hcandidates : Resolver.candidates slot.reference archive = (.ok (some items), _) :=
    Prod.ext hlisted rfl
  obtain ⟨next, hdraw⟩ := rolls_draw hchance tier archive stream
  obtain ⟨chosen, after, hrun, hdrawn, hfound⟩ :=
    drawFor_drawnFrom hread hplain hcandidates tier stream.unit.1
  rw [Option.map_some, hkept] at hdrawn hfound
  have hdrawable : Drawable (some [item]) :=
    drawable_some_iff.mpr ⟨item, List.mem_singleton_self item, hweight⟩
  obtain ⟨found, hsome⟩ := Option.isSome_iff_exists.mp (hfound hdrawable)
  obtain ⟨kept, hitems, hmem⟩ := hdrawn.member found hsome
  rw [← Option.some.inj hitems, List.mem_singleton] at hmem
  rw [hrun, hsome, hmem] at hdraw
  exact ⟨_, hdraw⟩

/-- A slot that chance does not pass over, and whose candidates could be drawn from, is left
empty just when the tier keeps fragments of its own kind and none of them can be drawn. -/
theorem draw_eq_none_iff_of_candidates (hreadable : archive.source.Readable)
    (hread : Reference.parse slot.reference = .ok r) (hplain : r.PlainWildcard)
    (hchance : slot.chance = 1.0) (tier : Tier) (stream : RandomStream) :
    ∃ listed chosen after,
      (Resolver.candidates slot.reference archive).1 = .ok listed ∧
      slot.draw tier ⟨archive, stream⟩ = (.ok chosen, after) ∧
      ∀ items, listed = some items → (∃ item ∈ items, 0 < item.weight) →
        (chosen = none ↔ (∃ item ∈ items, tier.Draws item) ∧
          ∀ item ∈ items, tier.Draws item → item.weight ≤ 0) := by
  obtain ⟨listed, chosen, after, hlisted, hdraw, hdrawn, hfound⟩ :=
    exists_draw hreadable hread hplain hchance tier stream
  refine ⟨listed, chosen, after, hlisted, hdraw, ?_⟩
  intro items hitems hpositive
  rw [hitems, Option.map_some] at hdrawn hfound
  rw [← Tier.not_drawable_keep_iff hpositive]
  constructor
  · intro hnone hdrawable
    have hsome := hfound hdrawable
    rw [hnone] at hsome
    contradiction
  · exact hdrawn.nothing

end Slot

def Item.opal : Item :=
  ⟨"opal", none, none, 1, (∅ : TraitTable).insert "legendary" (.ofJson (.bool true)),
    .object [("name", .text "opal"), ("traits", .object [("legendary", .bool true)])]⟩

def Item.ruby : Item :=
  ⟨"ruby", none, none, 0, ∅, .object [("name", .text "ruby"), ("rarityWeight", .int 0)]⟩

namespace Documents

def gemsText : String :=
  "\x7b\"items\":[\x7b\"name\":\"opal\",\"traits\":\x7b\"legendary\":true\x7d\x7d,\x7b\"name\":\"ruby\",\"rarityWeight\":0\x7d]\x7d"

/-- A legendary gem, and a common one without a positive weight. -/
def gems : Documents :=
  (∅ : Documents).insert ⟨"items", "gems"⟩ gemsText

theorem gems_read : Reference.parse "@items/gems:*" =
    .ok ⟨"items", [], "gems", .wildcard, [], false, []⟩ := rfl

def gemsFields : List (String × Json) :=
  [("items", .array [Item.opal.raw, Item.ruby.raw])]

def gemsCatalog : Catalog :=
  ⟨⟨"items", "gems"⟩, Metadata.ofDocument gemsFields, Shape.ofFields gemsFields,
    .object gemsFields⟩

theorem gems_hold : gems.source.Holds ⟨"items", "gems"⟩ gemsCatalog := by
  have hdecode : Document.decode? gemsText.toUTF8 = some gemsText :=
    Document.decode?_of_unmarked (by decide +kernel)
  have hjson : Json.parse? (Catalog.withoutMark gemsText) = some (.object gemsFields) := by cbv
  exact .intro rfl hdecode hjson

/-- Every reference to the gems finds them. -/
theorem gems_search {r : Reference} (hdomain : r.domain = "items") (hsteps : r.steps = ["gems"]) :
    ∃ after, Search.forReference r (.ofSource gems.source) =
      (.ok (.found gemsCatalog []), after) := by
  have hholds : gems.source.Holds ⟨r.domain, "gems"⟩ gemsCatalog := by
    rw [hdomain]
    exact gems_hold
  exact Search.forReference_of_holds hsteps hholds

theorem gems_candidates :
    (Resolver.candidates "@items/gems:*" (.ofSource gems.source)).1 =
      .ok (some [.opal, .ruby]) :=
  Resolver.candidates_of_holds gems_read rfl gems_hold

end Documents

namespace Slot

def gem : Slot :=
  always "gem" "@items/gems:*"

/-- The legendary tier draws the legendary gem, the only one that it keeps. -/
theorem exists_draw_gem (stream : RandomStream) :
    ∃ after, gem.draw .legendary ⟨.ofSource Documents.gems.source, stream⟩ =
      (.ok (some .opal), after) :=
  exists_draw_of_keep_eq_singleton Documents.gems_read ⟨rfl, rfl, rfl⟩ rfl
    Documents.gems_candidates rfl (by decide) stream

theorem draw_eq_none_iff_of_candidates_gems :
    (Archive.ofSource Documents.gems.source).source.Readable ∧
      ∃ chosen after,
        gem.draw .legendary ⟨.ofSource Documents.gems.source, .ofWords []⟩ =
          (.ok chosen, after) ∧
        chosen ≠ none := by
  have hreadable : (Archive.ofSource Documents.gems.source).source.Readable :=
    Documents.source_readable Documents.gems
  have hread : Reference.parse gem.reference = .ok _ := Documents.gems_read
  obtain ⟨listed, chosen, after, hlisted, hdraw, hempty⟩ :=
    draw_eq_none_iff_of_candidates hreadable hread ⟨rfl, rfl, rfl⟩ rfl .legendary (.ofWords [])
  have hgems := hlisted.symm.trans Documents.gems_candidates
  rw [Except.ok.injEq] at hgems
  have hpositive : ∃ item ∈ [Item.opal, Item.ruby], 0 < item.weight :=
    ⟨.opal, by simp, by decide⟩
  refine ⟨hreadable, chosen, after, hdraw, ?_⟩
  rw [ne_eq, hempty _ hgems hpositive]
  intro hstarved
  have hopal := hstarved.2 .opal (by simp) (Tier.suits_iff.mp rfl)
  contradiction

/-- The common tier keeps only the common gem, so nothing is drawn although there is a gem
with a positive weight. -/
theorem draw_gem_common_eq_none :
    Documents.gems.source.Readable ∧
      (∃ r, Reference.parse gem.reference = .ok r ∧ r.PlainWildcard) ∧ gem.chance = 1.0 ∧
      (Resolver.candidates gem.reference (.ofSource Documents.gems.source)).1 =
        .ok (some [.opal, .ruby]) ∧
      0 < Item.opal.weight ∧
      ∃ after, gem.draw .common ⟨.ofSource Documents.gems.source, .ofWords []⟩ =
        (.ok none, after) := by
  have hreadable : (Archive.ofSource Documents.gems.source).source.Readable :=
    Documents.source_readable Documents.gems
  have hread : Reference.parse gem.reference = .ok _ := Documents.gems_read
  obtain ⟨listed, chosen, after, hlisted, hdraw, hdrawn, _⟩ :=
    exists_draw hreadable hread ⟨rfl, rfl, rfl⟩ rfl .common (.ofWords [])
  have hgems := hlisted.symm.trans Documents.gems_candidates
  rw [Except.ok.injEq] at hgems
  have hkept : Tier.common.keep [.opal, .ruby] = [.ruby] := rfl
  have hempty : ¬ Drawable (some [.ruby]) := by
    simp [drawable_some_iff, Item.ruby]
  rw [hgems, Option.map_some, hkept] at hdrawn
  rw [hdrawn.nothing hempty] at hdraw
  exact ⟨hreadable, ⟨_, hread, rfl, rfl, rfl⟩, rfl, Documents.gems_candidates, by decide,
    after, hdraw⟩

end Slot
end GameCatalog
