import GameCatalog.Proofs.ItemPlaces

/-!
# The order in which a catalog lists its items

A category's own items are listed ahead of those of its nested categories, also where the
document has the nested categories first.  In all else the list follows the document.  So a
catalog lists its items in the document's order if and only if no category with items of its
own has them behind an item of a nested category.
-/

namespace GameCatalog
namespace Item

variable {fields body : List (String × Json)} {place other : List Nat} {raw raw' : Json}

theorem sublist_nested {category : CategoryEntry} (hstands : category.StandsIn fields) :
    ((own category.body ++ nested category.body).map (below category)).Sublist
      (nested fields) := by
  obtain ⟨ahead, behind, hall⟩ := List.append_of_mem (CategoryEntry.mem_all_iff.mpr hstands)
  rw [nested_eq fields, hall, List.flatMap_append, List.flatMap_cons]
  exact (List.sublist_append_left _ _).trans (List.sublist_append_right _ _)

/-- A category's own items are listed ahead of those of its nested categories. -/
theorem sublist_of_bodyAt {steps : List Nat} (hat : BodyAt fields steps body)
    (hlists : Lists body place raw) (hnests : Nests body other raw') :
    [(steps ++ place, raw), (steps ++ other, raw')].Sublist (nested fields) := by
  induction hat with
  | @top fields category hstands =>
      have hown := List.singleton_sublist.mpr (mem_own_iff.mpr hlists)
      have hnested := List.singleton_sublist.mpr (mem_nested_iff.mpr hnests)
      exact ((hown.append hnested).map (below category)).trans (sublist_nested hstands)
  | @nested fields body category steps hstands hat ih =>
      have hbody := (ih hlists hnests).trans (List.sublist_append_right (own category.body) _)
      exact (hbody.map (below category)).trans (sublist_nested hstands)

/-- Only a typed catalog has categories in which an item could overtake another. -/
theorem Overtakes.isTyped (hovertakes : Overtakes fields place other) :
    (Shape.ofFields fields).isTyped = true := by
  obtain ⟨steps, body, _, _, _, _, hat, _⟩ := hovertakes
  rw [Shape.isTyped_ofFields_iff]
  cases hat with
  | top hstands => exact ⟨_, hstands⟩
  | nested hstands _ => exact ⟨_, hstands⟩

theorem Overtakes.sublist (hovertakes : Overtakes fields place other) :
    ∃ raw raw', [(place, raw), (other, raw')].Sublist
      (listed (Shape.ofFields fields).isTyped fields) := by
  rw [hovertakes.isTyped]
  obtain ⟨steps, body, ownPlace, raw, nestedPlace, raw', hat, hlists, hnests, _, rfl, rfl⟩ :=
    hovertakes
  exact ⟨raw, raw', sublist_of_bodyAt hat hlists hnests⟩

theorem pairwise_lt_iff_not_overtakes (fields : List (String × Json)) :
    ((listed (Shape.ofFields fields).isTyped fields).Pairwise fun a b => a.1 < b.1) ↔
      ∀ place other, ¬ Overtakes fields place other := by
  constructor
  · intro hsorted place other hovertakes
    obtain ⟨raw, raw', hsublist⟩ := hovertakes.sublist
    have hless : place < other := by simpa using hsorted.sublist hsublist
    exact lt_asymm hless hovertakes.lt
  · intro hnone
    exact (pairwise_listed _ fields).imp fun hahead => hahead.resolve_right (hnone _ _)

end Item

namespace Catalog

open Item

/-- The list follows the document, but for items that overtake those of a nested category; these
are always listed ahead.  So it is in the document's order if and only if no item does. -/
theorem allItems_in_document_order_iff (key : CatalogKey) (fields : List (String × Json)) :
    ∃ catalog, ofJson key (.object fields) = .ok catalog ∧
      (listed catalog.shape.isTyped fields).map Prod.snd = catalog.shape.allItems.map Item.raw ∧
      (∀ place raw, (place, raw) ∈ listed catalog.shape.isTyped fields ↔
        PlacedAt fields place raw) ∧
      ((listed catalog.shape.isTyped fields).Pairwise fun a b =>
        a.1 < b.1 ∨ Overtakes fields a.1 b.1) ∧
      (∀ place other, Overtakes fields place other → ∃ raw raw',
        [(place, raw), (other, raw')].Sublist (listed catalog.shape.isTyped fields)) ∧
      (((listed catalog.shape.isTyped fields).Pairwise fun a b => a.1 < b.1) ↔
        ∀ place other, ¬ Overtakes fields place other) :=
  ⟨_, rfl, map_snd_listed fields, fun _ _ => mem_listed_iff, pairwise_listed _ fields,
    fun _ _ hovertakes => hovertakes.sublist, pairwise_lt_iff_not_overtakes fields⟩

/-! ## An item that overtakes another -/

def reefFields : List (String × Json) :=
  [("items", .array [Shape.pearl.raw])]

/-- A bay that has its own items behind those of a reef in it. -/
def bayFields : List (String × Json) :=
  [("cove_types", .object [("reef", .object reefFields)]), ("items", .array [Shape.coral.raw])]

def coastFields : List (String × Json) :=
  [("shore_types", .object [("bay", .object bayFields)])]

theorem listed_coastFields :
    listed true coastFields =
      [([0, 0, 1, 0], Shape.coral.raw), ([0, 0, 0, 0, 0, 0], Shape.pearl.raw)] := by
  have hcoast : CategoryEntry.all coastFields = [⟨0, 0, "bay", bayFields⟩] := rfl
  have hbay : CategoryEntry.all bayFields = [⟨0, 0, "reef", reefFields⟩] := rfl
  have hreef : CategoryEntry.all reefFields = [] := rfl
  rw [listed, nested_eq, hcoast, List.flatMap_singleton, nested_eq, hbay, List.flatMap_singleton,
    nested_eq, hreef]
  rfl

/-- The bay's own item is listed first, though it stands behind the item of the reef. -/
theorem not_allItems_in_document_order :
    ¬ ∀ (key : CatalogKey) (fields : List (String × Json)) (catalog : Catalog),
      ofJson key (.object fields) = .ok catalog →
        ∃ placed : List (List Nat × Json),
          (∀ place raw, (place, raw) ∈ placed ↔
            PlacedAt fields place raw) ∧
          placed.map Prod.snd = catalog.shape.allItems.map Item.raw ∧
          placed.Pairwise fun a b => a.1 < b.1 := by
  intro hclaim
  obtain ⟨placed, hplaced, hvalues, hsorted⟩ := hclaim ⟨"items", "shore"⟩ coastFields _ rfl
  have hlisted : placed.map Prod.snd = [Shape.coral.raw, Shape.pearl.raw] := hvalues
  obtain ⟨⟨place, raw⟩, rest, rfl, rfl, hrest⟩ := List.map_eq_cons_iff.mp hlisted
  obtain ⟨⟨other, raw'⟩, rest, rfl, rfl, _⟩ := List.map_eq_cons_iff.mp hrest
  have hcoral := mem_listed_iff.mpr ((hplaced place Shape.coral.raw).mp (by simp))
  have hpearl := mem_listed_iff.mpr ((hplaced other Shape.pearl.raw).mp (by simp))
  change (place, Shape.coral.raw) ∈ listed true coastFields at hcoral
  change (other, Shape.pearl.raw) ∈ listed true coastFields at hpearl
  have hless : place < other := List.rel_of_pairwise_cons hsorted List.mem_cons_self
  rw [listed_coastFields] at hcoral hpearl
  have hplace : place = [0, 0, 1, 0] := by simpa [Shape.coral, Shape.pearl] using hcoral
  have hother : other = [0, 0, 0, 0, 0, 0] := by simpa [Shape.coral, Shape.pearl] using hpearl
  subst hplace hother
  exact absurd hless (by decide)

end Catalog
end GameCatalog
