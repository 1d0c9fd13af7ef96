import GameCatalog.Proofs.Compositions
import Mathlib.Data.List.Duplicate

/-!
# What a name shows

For each placeholder a name shows the label of the last pick for that slot, while a
composition gives the first pick for a slot.  The two are one pick unless the recipe has
two slots of that key, and then they can be different fragments, so that a name tells of a
fragment that no stat is taken from.
-/

namespace GameCatalog

/-! ## First and last of a key -/

/-- If the first and the last entry with a key differ, the key is there twice. -/
theorem duplicate_of_find?_reverse_ne {α : Type} {name : α → String} {entries : List α}
    {key : String}
    (hdiffer : (entries.reverse.find? fun entry => name entry == key) ≠
      entries.find? fun entry => name entry == key) :
    (entries.map name).Duplicate key := by
  induction entries with
  | nil => exact absurd rfl hdiffer
  | cons entry rest ih =>
      rw [List.reverse_cons, List.find?_append] at hdiffer
      by_cases hname : name entry = key
      · rw [List.map_cons, hname]
        -- The last entry is not the first one, so it is among the others.
        cases hlast : rest.reverse.find? fun entry => name entry == key with
        | none => simp [hlast, hname] at hdiffer
        | some last =>
            have hkey : name last = key := by simpa using List.find?_some hlast
            have hmem : last ∈ rest := by simpa using List.mem_of_find?_eq_some hlast
            rw [← hkey]
            exact (List.mem_map_of_mem hmem).duplicate_cons_self
      · have hrest : (rest.reverse.find? fun entry => name entry == key) ≠
            rest.find? fun entry => name entry == key := by
          simpa [hname] using hdiffer
        exact (ih hrest).duplicate_cons (name entry)

/-! ## Names -/

/-- The name that the template gives with these labels, nothing standing for a key that
has none. -/
def Template.labelled (template : String) (label? : String → Option String) : String :=
  joinWords ((parts template).flatMap fun
    | .literal c => [c]
    | .placeholder key => ((label? key).map String.toList).getD [])

theorem Template.render_eq_labelled (template : String) (values : Values) :
    render template values = labelled template fun key => values[key]? := by
  have hfill : Part.fill values = fun
      | .literal c => [c]
      | .placeholder key => ((values[key]?).map String.toList).getD [] := by
    funext part
    cases part <;> rfl
  rw [render, filled, hfill]
  rfl

theorem Template.labelled_congr {template : String} {label? other? : String → Option String}
    (hsame : ∀ key, Part.placeholder key ∈ parts template → label? key = other? key) :
    labelled template label? = labelled template other? := by
  unfold labelled
  congr 1
  apply List.flatMap_congr
  intro part hpart
  cases part with
  | literal c => rfl
  | placeholder key => simp only [hsame key hpart]

namespace Composition

def lastPick? (composition : Composition) (slot : String) : Option Item :=
  (composition.picks.reverse.find? fun pick => pick.slot == slot).map Pick.item

variable {composition : Composition} {key : String}

theorem getElem?_labels (composition : Composition) (key : String) :
    (labels composition.picks)[key]? = (composition.lastPick? key).map Item.label := by
  unfold labels lastPick?
  rw [getElem?_foldl_insert Pick.slot fun pick => pick.item.label]
  simp [Option.map_map, Function.comp_def]

theorem lastPick?_eq_none_iff :
    composition.lastPick? key = none ↔ composition.pick? key = none := by
  simp [lastPick?, pick?]

theorem duplicate_of_lastPick?_ne
    (hdiffer : composition.lastPick? key ≠ composition.pick? key) :
    (composition.picks.map Pick.slot).Duplicate key := by
  apply duplicate_of_find?_reverse_ne
  intro hsame
  exact hdiffer (congrArg (Option.map Pick.item) hsame)

end Composition

def Recipe.Repeats (recipe : Recipe) (key : String) : Prop :=
  (recipe.slots.map Slot.key).Duplicate key

namespace Recipe

variable {recipe : Recipe} {tier : Tier} {state after : DrawState}
  {target traits : TraitTable} {composition : Composition}

theorem repeats_of_lastPick?_ne
    (hcompose : recipe.compose tier target state = (.ok (composition, traits), after))
    {key : String} (hdiffer : composition.lastPick? key ≠ composition.pick? key) :
    recipe.Repeats key := by
  obtain ⟨hdraw, _, _⟩ := parts_of_compose hcompose
  obtain ⟨slots, hsublist, hfills, _⟩ := drawSlots_fills (fun _ => rfl) hdraw
  have hduplicate := Composition.duplicate_of_lastPick?_ne hdiffer
  rw [map_slot_of_fills hfills] at hduplicate
  exact hduplicate.mono_sublist (hsublist.map Slot.key)

/-- A name shows for each key the last pick, and nothing for a key without a pick.  It shows
what the composition gives for the keys if no placeholder is for a key that the recipe
repeats. -/
theorem name_of_compose
    (hcompose : recipe.compose tier target state = (.ok (composition, traits), after)) :
    composition.name = Template.labelled recipe.nameTemplate
      (fun key => (composition.lastPick? key).map Item.label) ∧
    (∀ key, composition.lastPick? key = none ↔ composition.pick? key = none) ∧
    (∀ key, composition.lastPick? key ≠ composition.pick? key → recipe.Repeats key) ∧
    ((∀ key, Template.Part.placeholder key ∈ Template.parts recipe.nameTemplate →
        ¬ recipe.Repeats key) →
      composition.name = Template.labelled recipe.nameTemplate
        (fun key => (composition.pick? key).map Item.label)) := by
  obtain ⟨_, hname, _⟩ := parts_of_compose hcompose
  rw [Template.render_eq_labelled] at hname
  simp only [Composition.getElem?_labels] at hname
  refine ⟨hname, fun _ => Composition.lastPick?_eq_none_iff,
    fun _ => repeats_of_lastPick?_ne hcompose, ?_⟩
  intro hsingle
  rw [hname]
  apply Template.labelled_congr
  intro key hplaceholder
  congr 1
  by_contra hdiffer
  exact hsingle key hplaceholder (repeats_of_lastPick?_ne hcompose hdiffer)

end Recipe

/-! ## Two places for one slot -/

def Item.cave : Item :=
  ⟨"Cave", none, none, 1, ∅, .object [("name", .text "Cave")]⟩

def Item.lake : Item :=
  ⟨"Lake", none, none, 1, ∅, .object [("name", .text "Lake")]⟩

namespace Documents

def caveText : String :=
  "\x7b\"items\":[\x7b\"name\":\"Cave\"\x7d]\x7d"

def lakeText : String :=
  "\x7b\"items\":[\x7b\"name\":\"Lake\"\x7d]\x7d"

/-- A catalog with a cave and one with a lake. -/
def places : Documents :=
  ((∅ : Documents).insert ⟨"places", "caves"⟩ caveText).insert ⟨"places", "lakes"⟩ lakeText

theorem caves_read : Reference.parse "@places/caves:*" =
    .ok ⟨"places", [], "caves", .wildcard, [], false, []⟩ := rfl

theorem lakes_read : Reference.parse "@places/lakes:*" =
    .ok ⟨"places", [], "lakes", .wildcard, [], false, []⟩ := rfl

theorem caves_candidates :
    (Resolver.candidates "@places/caves:*" (.ofSource places.source)).1 = .ok (some [.cave]) := by
  have hjson : Json.parse? (Catalog.withoutMark caveText) =
      some (.object [("items", .array [Item.cave.raw])]) := by cbv
  exact Resolver.candidates_of_document caves_read rfl rfl
    (Document.decode?_of_unmarked (by decide +kernel)) hjson

theorem lakes_candidates :
    (Resolver.candidates "@places/lakes:*" (.ofSource places.source)).1 = .ok (some [.lake]) := by
  have hjson : Json.parse? (Catalog.withoutMark lakeText) =
      some (.object [("items", .array [Item.lake.raw])]) := by cbv
  exact Resolver.candidates_of_document lakes_read rfl rfl
    (Document.decode?_of_unmarked (by decide +kernel)) hjson

end Documents

namespace Recipe

/-- Two slots for the place of a quest, each with one candidate. -/
def places : Recipe :=
  ⟨[.always "location" "@places/caves:*", .always "location" "@places/lakes:*"],
    "\x7blocation\x7d"⟩

theorem exists_compose_places (tier : Tier) (target : TraitTable) (stream : RandomStream) :
    ∃ composition after,
      places.compose tier target ⟨.ofSource Documents.places.source, stream⟩ =
        (.ok (composition, Composition.overlay target composition.picks), after) ∧
      composition.picks = [⟨"location", .cave⟩, ⟨"location", .lake⟩] := by
  have hfirst : ∃ drawn, (Slot.always "location" "@places/caves:*").draw tier
      ⟨.ofSource Documents.places.source, stream⟩ = (.ok (some .cave), drawn) :=
    Slot.exists_draw_of_keep_eq_singleton Documents.caves_read ⟨rfl, rfl, rfl⟩ rfl
      Documents.caves_candidates (tier.keep_singleton .cave) (by decide) stream
  obtain ⟨⟨archive, next⟩, hcave⟩ := hfirst
  have hsame := sameAnswers_draw (fun _ => rfl) hcave
  have hlakes := Slot.candidates_of_sameAnswers hsame "@places/lakes:*"
  rw [Documents.lakes_candidates] at hlakes
  have hsecond : ∃ drawn, (Slot.always "location" "@places/lakes:*").draw tier ⟨archive, next⟩ =
      (.ok (some .lake), drawn) :=
    Slot.exists_draw_of_keep_eq_singleton Documents.lakes_read ⟨rfl, rfl, rfl⟩ rfl
      hlakes.symm (tier.keep_singleton .lake) (by decide) next
  obtain ⟨last, hlake⟩ := hsecond
  have hrest : drawSlots tier [.always "location" "@places/lakes:*"] ⟨archive, next⟩ =
      (.ok [⟨"location", .lake⟩], last) := run_bind_ok hlake
  have hslots : drawSlots tier places.slots ⟨.ofSource Documents.places.source, stream⟩ =
      (.ok [⟨"location", .cave⟩, ⟨"location", .lake⟩], last) :=
    (run_bind_ok hcave).trans (run_bind_ok hrest)
  exact ⟨_, _, run_bind_ok hslots, rfl⟩

/-- The quest is named for the lake and takes place in the cave. -/
theorem name_of_compose_places :
    ∃ composition traits after,
      places.compose .common ∅ ⟨.ofSource Documents.places.source, .seeded 0⟩ =
        (.ok (composition, traits), after) ∧
      composition.name = "Lake" ∧ (composition.pick? "location").map Item.label = some "Cave" := by
  obtain ⟨composition, after, hcompose, hpicks⟩ := exists_compose_places .common ∅ (.seeded 0)
  obtain ⟨hname, _⟩ := name_of_compose hcompose
  refine ⟨composition, _, after, hcompose, ?_, ?_⟩
  · rw [hname]
    unfold Composition.lastPick?
    rw [hpicks]
    decide +kernel
  · unfold Composition.pick?
    rw [hpicks]
    rfl

theorem not_name_shows_picks :
    ¬ ∀ (source : Source) (seed : UInt64) (recipe : Recipe) (tier : Tier)
      (target traits : TraitTable) (composition : Composition) (after : DrawState),
      recipe.compose tier target ⟨.ofSource source, .seeded seed⟩ =
        (.ok (composition, traits), after) →
      composition.name = Template.labelled recipe.nameTemplate
        (fun key => (composition.pick? key).map Item.label) := by
  intro hclaim
  obtain ⟨composition, after, hcompose, hpicks⟩ := exists_compose_places .common ∅ (.seeded 0)
  have hshown := hclaim _ 0 _ _ _ _ _ _ hcompose
  obtain ⟨_, hname, _⟩ := parts_of_compose hcompose
  unfold Composition.pick? at hshown
  rw [hname, hpicks] at hshown
  exact absurd hshown (by decide +kernel)

end Recipe
end GameCatalog
