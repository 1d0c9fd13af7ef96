import GameCatalog.Resolution.Resolver

/-!
# Prospects

In the catalog that was found a named item either is there or not, and a wildcard leads
to a lottery if and only if one of its candidates has a positive weight.  A lottery
always comes to one of the candidates, whatever the roll is.
-/

namespace GameCatalog

namespace Rarity

theorem probabilities_eq_ok_iff {α : Type} [ShareNumber α] {weights : List Int}
    {chances : List α} :
    probabilities α weights = .ok chances ↔
      (∃ weight ∈ weights, 0 < weight) ∧ chances = shares α weights := by
  unfold probabilities
  by_cases hpositive : ∃ weight ∈ weights, 0 < weight
  · have hentries : weights.isEmpty = false := by
      obtain ⟨weight, hweight, _⟩ := hpositive
      rw [List.isEmpty_eq_false_iff]
      exact List.ne_nil_of_mem hweight
    have hsome : weights.all (· ≤ 0) = false := by
      obtain ⟨weight, hweight, hlarge⟩ := hpositive
      rw [List.all_eq_false]
      exact ⟨weight, hweight, by simpa using hlarge⟩
    simp [hentries, hsome, hpositive, eq_comm]
  · have hall : weights.all (· ≤ 0) = true := by
      rw [List.all_eq_true]
      intro weight hweight
      have hsmall : ¬ 0 < weight := fun hlarge => hpositive ⟨weight, hweight, hlarge⟩
      simpa using hsmall
    by_cases hentries : weights.isEmpty = true
    · simp [hentries, hpositive]
    · simp [hentries, hall, hpositive]

theorem length_shares (α : Type) [ShareNumber α] (weights : List Int) :
    (shares α weights).length = weights.length := by
  simp [shares]

/-- Whatever the roll is, the place that it selects is one of the list's. -/
theorem pickIndex_lt_of_probabilities {α : Type} [ShareNumber α] {weights : List Int}
    {chances : List α} (hchances : probabilities α weights = .ok chances) (roll : α) :
    pickIndex chances roll < weights.length := by
  obtain ⟨⟨weight, hweight, _⟩, hshares⟩ := probabilities_eq_ok_iff.mp hchances
  have hlength : chances.length = weights.length := by rw [hshares, length_shares]
  have hentries : chances ≠ [] := by
    rw [← List.length_pos_iff, hlength]
    exact List.length_pos_of_mem hweight
  rw [← hlength]
  exact pickIndex_lt hentries roll

end Rarity

namespace Reference

variable {r : Reference} {search : Search} {catalog : Catalog}
  {leftover : List String} {items : List Item} {shares : List Float}

theorem prospectIn_of_positive (hitem : r.item = .wildcard)
    (hpositive : ∃ item ∈ catalog.shape.candidates leftover, 0 < item.weight) :
    r.prospectIn catalog leftover =
      .lottery catalog (catalog.shape.candidates leftover)
        (Rarity.shares Float ((catalog.shape.candidates leftover).map Item.weight)) := by
  obtain ⟨item, hmem, hweight⟩ := hpositive
  have hentries : (catalog.shape.candidates leftover).isEmpty = false := by
    rw [List.isEmpty_eq_false_iff]
    exact List.ne_nil_of_mem hmem
  have hshares :
      Rarity.probabilities Float ((catalog.shape.candidates leftover).map Item.weight) =
        .ok (Rarity.shares Float ((catalog.shape.candidates leftover).map Item.weight)) :=
    Rarity.probabilities_eq_ok_iff.mpr ⟨⟨_, List.mem_map_of_mem hmem, hweight⟩, rfl⟩
  simp only [prospectIn, hitem, hentries, hshares, Bool.false_eq_true, if_false]

theorem prospectIn_of_no_positive (hitem : r.item = .wildcard)
    (hnone : ∀ item ∈ catalog.shape.candidates leftover, item.weight ≤ 0) :
    ∃ kind, r.prospectIn catalog leftover = .failed kind := by
  simp only [prospectIn, hitem]
  by_cases hentries : (catalog.shape.candidates leftover).isEmpty = true
  · rw [if_pos hentries]
    exact ⟨_, rfl⟩
  · rw [if_neg hentries]
    cases hshares : Rarity.probabilities Float
        ((catalog.shape.candidates leftover).map Item.weight) with
    | error fault => exact ⟨_, rfl⟩
    | ok shares =>
        obtain ⟨⟨weight, hweight, hlarge⟩, _⟩ := Rarity.probabilities_eq_ok_iff.mp hshares
        obtain ⟨item, hmem, hsame⟩ := List.mem_map.mp hweight
        have hsmall := hnone item hmem
        omega

/-- A wildcard is a lottery, or none of its candidates can be drawn. -/
theorem prospectIn_wildcard (hitem : r.item = .wildcard) (catalog : Catalog)
    (leftover : List String) :
    ((∃ item ∈ catalog.shape.candidates leftover, 0 < item.weight) ∧
      r.prospectIn catalog leftover =
        .lottery catalog (catalog.shape.candidates leftover)
          (Rarity.shares Float ((catalog.shape.candidates leftover).map Item.weight))) ∨
    ((∀ item ∈ catalog.shape.candidates leftover, item.weight ≤ 0) ∧
      ∃ kind, r.prospectIn catalog leftover = .failed kind) := by
  by_cases hpositive : ∃ item ∈ catalog.shape.candidates leftover, 0 < item.weight
  · exact .inl ⟨hpositive, prospectIn_of_positive hitem hpositive⟩
  · have hweights : ∀ item ∈ catalog.shape.candidates leftover, item.weight ≤ 0 :=
      fun item hmem => Int.not_lt.mp fun hlarge => hpositive ⟨item, hmem, hlarge⟩
    exact .inr ⟨hweights, prospectIn_of_no_positive hitem hweights⟩

theorem prospectIn_named {name : String} (hitem : r.item = .named name)
    (catalog : Catalog) (leftover : List String) :
    (∃ kind, r.prospectIn catalog leftover = .failed kind) ∨
      ∃ item, r.prospectIn catalog leftover = .certain catalog item := by
  simp only [prospectIn, hitem]
  cases catalog.shape.locate leftover name with
  | some item => exact .inr ⟨item, rfl⟩
  | none => exact .inl ⟨_, rfl⟩

/-- A lottery is held for a wildcard, among all its candidates. -/
theorem lottery_inv (hprospect : r.prospect search = .lottery catalog items shares) :
    r.item = .wildcard ∧ ∃ leftover, search = .found catalog leftover ∧
      items = catalog.shape.candidates leftover ∧ (∃ item ∈ items, 0 < item.weight) ∧
      shares = Rarity.shares Float (items.map Item.weight) := by
  cases search with
  | missing tried => simp [prospect] at hprospect
  | found held leftover =>
      rw [prospect] at hprospect
      cases hitem : r.item with
      | named name =>
          rcases prospectIn_named hitem held leftover with ⟨kind, hfailed⟩ | ⟨item, hcertain⟩
          · simp [hfailed] at hprospect
          · simp [hcertain] at hprospect
      | wildcard =>
          rcases prospectIn_wildcard hitem held leftover with
            ⟨hpositive, hlottery⟩ | ⟨_, kind, hfailed⟩
          · rw [hlottery, Prospect.lottery.injEq] at hprospect
            obtain ⟨rfl, rfl, rfl⟩ := hprospect
            exact ⟨rfl, leftover, rfl, rfl, hpositive, rfl⟩
          · simp [hfailed] at hprospect

theorem probabilities_of_lottery
    (hprospect : r.prospect search = .lottery catalog items shares) :
    Rarity.probabilities Float (items.map Item.weight) = .ok shares := by
  obtain ⟨_, _, _, _, ⟨first, hfirst, hlarge⟩, hshares⟩ := lottery_inv hprospect
  exact Rarity.probabilities_eq_ok_iff.mpr ⟨⟨_, List.mem_map_of_mem hfirst, hlarge⟩, hshares⟩

/-- Shares and items are equally many, so a place selected in one is one in the other. -/
theorem pickIndex_lt_of_lottery
    (hprospect : r.prospect search = .lottery catalog items shares) (roll : Float) :
    Rarity.pickIndex shares roll < items.length := by
  have hbound := Rarity.pickIndex_lt_of_probabilities (probabilities_of_lottery hprospect) roll
  rwa [List.length_map] at hbound

/-- A draw always selects an item. -/
theorem drawn_eq_follow (hprospect : r.prospect search = .lottery catalog items shares)
    (roll : Float) : ∃ item ∈ items, r.drawn catalog items shares roll = r.follow catalog item := by
  have hplace := pickIndex_lt_of_lottery hprospect roll
  refine ⟨items[Rarity.pickIndex shares roll], List.getElem_mem hplace, ?_⟩
  rw [drawn, List.getElem?_eq_getElem hplace]

theorem follow_of_no_property (hproperty : r.property = []) (item : Item) :
    r.follow catalog item = .ok ⟨catalog.key, item, item.raw⟩ := by
  rw [follow, hproperty]
  rfl

end Reference
end GameCatalog
