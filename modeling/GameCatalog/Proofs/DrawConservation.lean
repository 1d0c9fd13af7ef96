import GameCatalog.Proofs.DrawTallies
import GameCatalog.Proofs.SlotDraws
import Mathlib

/-!
# What becomes of the draws of a table

Every draw of a table selects a candidate.  If the reference asks for properties and the
candidate does not have them, the draw comes to nothing and no row counts it, although it
is one of the draws of the table.  So the counts add up to the number of draws just when
each of the candidates that were selected has the properties.
-/

namespace GameCatalog

namespace DrawTable

/-- The sum of the counts. -/
def total (table : DrawTable) : Nat :=
  (table.rows.map DrawRow.count).sum

/-- The exact share of the draws that a row counts. -/
def share (table : DrawTable) (row : DrawRow) : ℚ :=
  row.count / table.draws

theorem sum_shares (table : DrawTable) :
    (table.rows.map table.share).sum = table.total / table.draws := by
  unfold total share
  induction table.rows with
  | nil => simp
  | cons row rest ih =>
      rw [List.map_cons, List.sum_cons, ih, List.map_cons, List.sum_cons, Nat.cast_add, add_div]

theorem sum_shares_eq_one_iff {table : DrawTable} (hdraws : 0 < table.draws) :
    (table.rows.map table.share).sum = 1 ↔ table.total = table.draws := by
  have hnonzero : (table.draws : ℚ) ≠ 0 := by exact_mod_cast hdraws.ne'
  rw [sum_shares, div_eq_one_iff_eq hnonzero, Nat.cast_inj]

end DrawTable

/-- The chain of properties leads to something in the item. -/
def Item.bears (property : List String) (item : Item) : Bool :=
  (item.raw.property? property).isSome

namespace Session

variable {session after : Session} {text : String} {r : Reference} {search : Search}
  {catalog : Catalog} {items : List Item} {shares : List Float} {table : DrawTable}

/-! ## Sums of counts -/

theorem sum_modify_succ {counts : List Nat} {i : Nat} (hi : i < counts.length) :
    (counts.modify i (· + 1)).sum = counts.sum + 1 := by
  induction counts generalizing i with
  | nil => simp at hi
  | cons count rest ih =>
      cases i with
      | zero =>
          simp only [List.modify_zero_cons, List.sum_cons]
          omega
      | succ i =>
          have hrest := ih (Nat.lt_of_succ_lt_succ hi)
          simp only [List.modify_succ_cons, List.sum_cons, hrest]
          omega

theorem sum_countAll {counts places : List Nat}
    (hplaces : ∀ place ∈ places, place < counts.length) :
    (countAll counts places).sum = counts.sum + places.length := by
  induction places generalizing counts with
  | nil => rfl
  | cons place places ih =>
      have hplace := hplaces place List.mem_cons_self
      have hrest : ∀ other ∈ places, other < (counts.modify place (· + 1)).length := by
        intro other hother
        rw [List.length_modify]
        exact hplaces other (List.mem_cons_of_mem place hother)
      rw [countAll, List.foldl_cons, ← countAll, ih hrest, sum_modify_succ hplace,
        List.length_cons]
      omega

theorem map_count_rows {counts : List Nat} (hcounts : counts.length = items.length)
    (hshares : shares.length = items.length) :
    (rows items counts shares).map DrawRow.count = counts := by
  have hentries : (rows items counts shares).map DrawRow.count =
      ((items.zip (counts.zip shares)).map Prod.snd).map Prod.fst := by
    simp [rows]
  have hpairs : (counts.zip shares).length = items.length := by
    rw [List.length_zip, hcounts, hshares, Nat.min_self]
  rw [hentries, List.map_snd_zip hpairs.le, List.map_fst_zip (by omega)]

theorem placeOf_lt {resolution : Resolution} {place : Nat}
    (hplace : placeOf items resolution = some place) : place < items.length := by
  obtain ⟨finding, _, hfound⟩ := Option.bind_eq_some_iff.mp hplace
  exact (List.findIdx?_eq_some_iff_getElem.mp hfound).1

/-- The counts of a table that is tallied add up to the draws with a place. -/
theorem sum_tallied {resolved : List Resolution} (hshares : shares.length = items.length) :
    ((rows items (countAll (List.replicate items.length 0)
      (resolved.filterMap (placeOf items))) shares).map DrawRow.count).sum =
      resolved.countP fun resolution => (placeOf items resolution).isSome := by
  have hplaces : ∀ place ∈ resolved.filterMap (placeOf items),
      place < (List.replicate items.length 0).length := by
    intro place hmem
    obtain ⟨resolution, _, hplace⟩ := List.mem_filterMap.mp hmem
    rw [List.length_replicate]
    exact placeOf_lt hplace
  have hcounts : (countAll (List.replicate items.length 0)
      (resolved.filterMap (placeOf items))).length = items.length := by
    rw [length_countAll, List.length_replicate]
  rw [map_count_rows hcounts hshares, sum_countAll hplaces, List.sum_replicate, smul_zero,
    Nat.zero_add, List.length_filterMap_eq_countP]

/-! ## Draws with a value -/

/-- A draw has a place in the table just when the candidate that it selects has the
properties. -/
theorem isSome_placeOf_drawn (hlottery : r.prospect search = .lottery catalog items shares)
    (text : String) (roll : Float) :
    (placeOf items (r.settle text (r.drawn catalog items shares roll))).isSome =
      (items[Rarity.pickIndex shares roll]?).any (Item.bears r.property) := by
  obtain ⟨item, hitem⟩ : ∃ item, items[Rarity.pickIndex shares roll]? = some item :=
    ⟨_, List.getElem?_eq_getElem (Reference.pickIndex_lt_of_lottery hlottery roll)⟩
  have hmem := List.mem_of_getElem? hitem
  rw [Reference.drawn, hitem, Option.any_some]
  dsimp only
  unfold Reference.follow Item.bears
  cases item.raw.property? r.property with
  | none => rfl
  | some value =>
      -- The candidate itself has the name that is looked for.
      simp only [Reference.settle, placeOf, Option.bind_some, List.findIdx?_isSome,
        Option.isSome_some, List.any_eq_true]
      exact ⟨item, hmem, by simp⟩

/-- The candidates that so many draws with these shares select in turn. -/
def selection (stream : RandomStream) (items : List Item) (shares : List Float) (count : Nat) :
    List Item :=
  (stream.picks shares count).filterMap (items[·]?)

theorem length_selection {stream : RandomStream}
    (hlottery : r.prospect search = .lottery catalog items shares) (count : Nat) :
    (selection stream items shares count).length = count := by
  have hplaces : ∀ place ∈ stream.picks shares count, (items[place]?).isSome = true := by
    intro place hplace
    obtain ⟨roll, _, rfl⟩ := List.mem_map.mp hplace
    have hbound := Reference.pickIndex_lt_of_lottery hlottery roll
    rw [List.getElem?_eq_getElem hbound, Option.isSome_some]
  rw [selection, List.length_filterMap_eq_countP, List.countP_eq_length.mpr hplaces,
    RandomStream.length_picks]

theorem countP_selection (stream : RandomStream) (items : List Item) (shares : List Float)
    (count : Nat) (p : Item → Bool) :
    (selection stream items shares count).countP p =
      (stream.units count).countP fun roll =>
        (items[Rarity.pickIndex shares roll]?).any p := by
  rw [selection, RandomStream.picks, List.countP_filterMap, List.countP_map]
  apply List.countP_congr
  intro roll _
  rw [Function.comp_apply]
  cases items[Rarity.pickIndex shares roll]? <;> rfl

/-- The table of a lottery counts the draws of candidates that have the properties. -/
theorem Finds.total_draw (hread : Reference.parse text = .ok r)
    (hfinds : session.Finds r search)
    (hlottery : r.prospect search = .lottery catalog items shares) (count : Nat) :
    ∃ table after, draw text count session = (.ok (.drawn table), after) ∧
      table.draws = count ∧
      table.total = (selection session.stream items shares count).countP
        (Item.bears r.property) := by
  obtain ⟨resolved, after, _, hrolls, hrun⟩ := hfinds.draw_of_lottery hread hlottery count
  have hchances := Reference.probabilities_of_lottery hlottery
  have hshares : shares.length = items.length := by
    rw [(Rarity.probabilities_eq_ok_iff.mp hchances).2, Rarity.length_shares, List.length_map]
  refine ⟨_, after, hrun, rfl, ?_⟩
  rw [DrawTable.total, sum_tallied hshares, hrolls, List.countP_map, countP_selection]
  apply List.countP_congr
  intro roll _
  rw [Function.comp_apply, isSome_placeOf_drawn hlottery]

theorem total_eq_draws_iff {selected : List Item} (hlength : selected.length = table.draws)
    (htotal : table.total = selected.countP (Item.bears r.property)) :
    table.total = table.draws ↔ ∀ item ∈ selected, Item.bears r.property item = true := by
  rw [htotal, ← hlength, List.countP_eq_length]

/-- Each draw of a table selects a candidate, and the counts add up to the draws whose
candidate has the properties that the reference asks for: to all of them just when each
has these, as when none are asked for, and just then the shares of the rows add up to
one. -/
theorem draw_conserves_iff {count : Nat} (hread : Reference.parse text = .ok r)
    (hdraw : draw text count session = (.ok (.drawn table), after)) :
    ∃ selected : List Item,
      (table = ⟨text, 0, []⟩ ∨ table.draws = count ∧ ∃ items shares,
        (candidates text session).1 = .ok (some items) ∧
        Rarity.probabilities Float (items.map Item.weight) = .ok shares ∧
        selected = selection session.stream items shares count) ∧
      selected.length = table.draws ∧
      table.total = selected.countP (Item.bears r.property) ∧
      (table.total = table.draws ↔ ∀ item ∈ selected, Item.bears r.property item = true) ∧
      (r.property = [] → table.total = table.draws) ∧
      (0 < table.draws →
        ((table.rows.map table.share).sum = 1 ↔ table.total = table.draws)) := by
  rcases lottery_of_draw hread hdraw with rfl | ⟨search, catalog, items, shares, hfinds, hlottery⟩
  · exact ⟨[], .inl rfl, rfl, rfl, total_eq_draws_iff rfl rfl, fun _ => rfl,
      DrawTable.sum_shares_eq_one_iff⟩
  obtain ⟨_, leftover, rfl, hitems, _⟩ := Reference.lottery_inv hlottery
  obtain ⟨listing, hlisted, _⟩ := hfinds.candidates hread
  obtain ⟨drawn, last, hrun, hdraws, htotal⟩ := hfinds.total_draw hread hlottery count
  have htable := Except.ok.inj (congrArg Prod.fst (hdraw.symm.trans hrun))
  rw [DrawOutcome.drawn.injEq] at htable
  rw [← htable] at hdraws htotal
  have hlength : (selection session.stream items shares count).length = table.draws :=
    (length_selection hlottery count).trans hdraws.symm
  have hconserved := total_eq_draws_iff hlength htotal
  refine ⟨_, .inr ⟨hdraws, items, shares, ?_, Reference.probabilities_of_lottery hlottery, rfl⟩,
    hlength, htotal, hconserved, ?_, DrawTable.sum_shares_eq_one_iff⟩
  · rw [hlisted, Resolver.listedAt, hitems]
  · intro hproperty
    rw [hconserved, hproperty]
    exact fun _ _ => rfl

end Session

/-! ## Gems without a weight of their own -/

namespace Documents

def gemWeights : Reference :=
  ⟨"items", [], "gems", .wildcard, [], false, ["rarityWeight"]⟩

theorem gemWeights_read : Reference.parse "@items/gems:*.rarityWeight" = .ok gemWeights := rfl

theorem gemWeights_lottery : gemWeights.prospect (.found gemsCatalog []) =
    .lottery gemsCatalog [.opal, .ruby] (Rarity.shares Float [1, 0]) := by
  have hcandidates : gemsCatalog.shape.candidates [] = [.opal, .ruby] := rfl
  have hpositive : ∃ item ∈ gemsCatalog.shape.candidates [], 0 < item.weight :=
    ⟨.opal, by simp [hcandidates], by decide⟩
  have hlottery : gemWeights.prospectIn gemsCatalog [] = _ :=
    Reference.prospectIn_of_positive rfl hpositive
  rw [hcandidates] at hlottery
  exact hlottery

end Documents

namespace Session

/-- A session over the gems, its stream seeded with zero. -/
def gems : Session :=
  .start Documents.gems.source 0 false

theorem gems_finds : gems.Finds Documents.gemWeights (.found Documents.gemsCatalog []) := by
  obtain ⟨_, hsearch⟩ := Documents.gems_search (r := Documents.gemWeights) rfl rfl
  exact congrArg Prod.fst hsearch

/-- The ruby is drawn, which has a weight of its own, and then the opal, which has none. -/
theorem gems_selection :
    selection gems.stream [.opal, .ruby] (Rarity.shares Float [1, 0]) 2 = [.ruby, .opal] := by
  have hpicks : gems.stream.picks (Rarity.shares Float [1, 0]) 2 = [1, 0] := by
    decide +kernel
  rw [selection, hpicks]
  rfl

theorem draw_conserves_iff_gems :
    Reference.parse "@items/gems:*.rarityWeight" = .ok Documents.gemWeights ∧
      ∃ table after, draw "@items/gems:*.rarityWeight" 2 gems = (.ok (.drawn table), after) ∧
        table.draws = 2 ∧ table.total = 1 := by
  obtain ⟨table, after, hdraw, hdraws, _⟩ :=
    gems_finds.total_draw Documents.gemWeights_read Documents.gemWeights_lottery 2
  refine ⟨Documents.gemWeights_read, table, after, hdraw, hdraws, ?_⟩
  obtain ⟨listing, hlisted, _⟩ := gems_finds.candidates Documents.gemWeights_read
  obtain ⟨selected, htable, _, htotal, _⟩ := draw_conserves_iff Documents.gemWeights_read hdraw
  rcases htable with rfl | ⟨_, items, shares, hcandidates, hchances, rfl⟩
  · contradiction
  have hitems : [Item.opal, Item.ruby] = items := by
    rw [hlisted] at hcandidates
    exact Option.some.inj (Except.ok.inj hcandidates)
  subst hitems
  rw [(Rarity.probabilities_eq_ok_iff.mp hchances).2] at htotal
  rw [htotal]
  exact congrArg (List.countP _) gems_selection

theorem not_draw_conserves :
    ¬ ∀ (source : Source) (seed : UInt64) (logs : Bool) (text : String) (r : Reference)
      (count : Nat) (table : DrawTable) (after : Session),
      source.Readable → Reference.parse text = .ok r →
      draw text count (.start source seed logs) = (.ok (.drawn table), after) →
      table.total = table.draws := by
  intro hclaim
  obtain ⟨table, after, hdraw, hdraws, htotal⟩ :=
    gems_finds.total_draw Documents.gemWeights_read Documents.gemWeights_lottery 2
  have hconserved := hclaim Documents.gems.source 0 false _ _ 2 table after
    (Documents.source_readable Documents.gems) Documents.gemWeights_read hdraw
  rw [hdraws, htotal, gems_selection] at hconserved
  exact absurd hconserved (by decide)

end Session
end GameCatalog
