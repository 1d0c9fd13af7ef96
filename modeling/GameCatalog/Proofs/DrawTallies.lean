import GameCatalog.Proofs.CategorySearch
import GameCatalog.Proofs.RepeatedDraws

/-!
# What a draw table counts

A draw is counted at the first candidate that has the name of the item drawn.  So the
counts are those of the places that were drawn just when no candidate was drawn behind
another of its name; otherwise the first of a name takes the draws of all of them.
-/

namespace GameCatalog

/-- The places that so many draws with these shares select in turn. -/
def RandomStream.picks (stream : RandomStream) (shares : List Float) (count : Nat) :
    List Nat :=
  (stream.units count).map (Rarity.pickIndex shares)

theorem RandomStream.length_picks (stream : RandomStream) (shares : List Float) (count : Nat) :
    (stream.picks shares count).length = count := by
  rw [picks, List.length_map, length_units]

namespace Item

/-- The item stands at the position, and none of its name stands before it. -/
def Foremost (items : List Item) (i : Nat) (item : Item) : Prop :=
  FirstWith (fun other => other.name = item.name) items i item

def isNamedAt (items : List Item) (name : String) (place : Nat) : Bool :=
  (items[place]?).any fun item => item.name == name

/-- The position of the first item that has the name of the one at the place. -/
def firstNamesake (items : List Item) (place : Nat) : Option Nat :=
  (items[place]?).bind fun drawn => items.findIdx? fun item => item.name == drawn.name

variable {items : List Item} {item : Item} {i place : Nat}

theorem firstNamesake_eq_some_iff (hitem : items[i]? = some item) :
    firstNamesake items place = some i ↔
      Foremost items i item ∧ isNamedAt items item.name place = true := by
  unfold firstNamesake isNamedAt
  cases hdrawn : items[place]? with
  | none => simp
  | some drawn =>
      obtain ⟨hi, hentry⟩ := List.getElem?_eq_some_iff.mp hitem
      rw [Option.bind_some, List.findIdx?_eq_some_iff_getElem]
      simp only [Option.any_some, beq_iff_eq]
      constructor
      · rintro ⟨_, hname, hfirst⟩
        rw [hentry] at hname
        refine ⟨⟨hitem, rfl, ?_⟩, hname.symm⟩
        intro j hj earlier hearlier
        obtain ⟨_, rfl⟩ := List.getElem?_eq_some_iff.mp hearlier
        rw [hname]
        simpa using hfirst j hj
      · rintro ⟨hforemost, hname⟩
        refine ⟨hi, by rw [hentry, hname], ?_⟩
        intro j hj
        have hother := hforemost.first j hj _ (List.getElem?_eq_getElem (by omega))
        rw [hname]
        simpa using hother

end Item

namespace DrawTable

/-- The table counts draws that selected these places among the items, the draws of all
items of one name at the first of them. -/
structure Tabulates (table : DrawTable) (items : List Item) (shares : List Float)
    (picks : List Nat) : Prop where
  draws : table.draws = picks.length
  length : table.rows.length = items.length
  label : ∀ (i : Nat) (row : DrawRow) (item : Item), table.rows[i]? = some row →
    items[i]? = some item → row.name = item.label
  expected : ∀ (i : Nat) (row : DrawRow), table.rows[i]? = some row →
    shares[i]? = some row.expected
  foremost : ∀ (i : Nat) (row : DrawRow) (item : Item), table.rows[i]? = some row →
    Item.Foremost items i item → row.count = picks.countP (Item.isNamedAt items item.name)
  behind : ∀ (i : Nat) (row : DrawRow) (item : Item), table.rows[i]? = some row →
    items[i]? = some item → ¬ Item.Foremost items i item → row.count = 0

variable {table : DrawTable} {items : List Item} {shares : List Float} {picks : List Nat}

theorem countP_isNamedAt_eq_count {i : Nat} {item : Item} (hitem : Item.Foremost items i item)
    (hforemost : ∀ place ∈ picks, ∀ drawn, items[place]? = some drawn →
      Item.Foremost items place drawn) :
    picks.countP (Item.isNamedAt items item.name) = picks.count i := by
  rw [List.count]
  apply List.countP_congr
  intro place hplace
  simp only [Item.isNamedAt, Option.any_eq_true, beq_iff_eq]
  constructor
  -- Two first items of one name stand at the same place.
  · rintro ⟨drawn, hdrawn, hname⟩
    have hfirst := hforemost place hplace drawn hdrawn
    rw [Item.Foremost, hname] at hfirst
    exact (hfirst.unique hitem).1
  · rintro rfl
    exact ⟨item, hitem.found, rfl⟩

/-- The counts are those of the places just when every item drawn is the first of its
name. -/
theorem Tabulates.counts_eq_iff (htable : table.Tabulates items shares picks)
    (hpicks : ∀ place ∈ picks, place < items.length) :
    (∀ (i : Nat) (row : DrawRow), table.rows[i]? = some row → row.count = picks.count i) ↔
      ∀ place ∈ picks, ∀ item, items[place]? = some item → Item.Foremost items place item := by
  constructor
  -- The row of an item drawn behind another of its name says that it was never drawn.
  · intro hcounts place hplace item hitem
    by_contra hbehind
    have hplaced : place < table.rows.length := by
      rw [htable.length]
      exact hpicks place hplace
    have hrow := List.getElem?_eq_getElem hplaced
    have hzero := htable.behind place _ item hrow hitem hbehind
    rw [hcounts place _ hrow, List.count_eq_zero] at hzero
    exact hzero hplace
  · intro hforemost i row hrow
    have hi : i < items.length := by
      rw [← htable.length]
      exact (List.getElem?_eq_some_iff.mp hrow).1
    have hitem := List.getElem?_eq_getElem hi
    by_cases hfirst : Item.Foremost items i items[i]
    · rw [htable.foremost i row _ hrow hfirst, countP_isNamedAt_eq_count hfirst hforemost]
    · have hnever : i ∉ picks := fun hmem => hfirst (hforemost i hmem _ hitem)
      rw [htable.behind i row _ hrow hitem hfirst, List.count_eq_zero.mpr hnever]

end DrawTable

namespace Session

variable {session after : Session} {text : String} {r : Reference} {search : Search}
  {catalog : Catalog} {items : List Item} {shares : List Float} {table : DrawTable}

theorem getElem?_rows_eq_some_iff {counts : List Nat} {i : Nat} {row : DrawRow} :
    (rows items counts shares)[i]? = some row ↔
      ∃ item, items[i]? = some item ∧ row.name = item.label ∧
        counts[i]? = some row.count ∧ shares[i]? = some row.expected := by
  unfold rows
  rw [List.getElem?_map, Option.map_eq_some_iff]
  constructor
  · rintro ⟨⟨item, count, share⟩, hentry, rfl⟩
    obtain ⟨hitem, hrest⟩ := List.getElem?_zip_eq_some.mp hentry
    obtain ⟨hcount, hshare⟩ := List.getElem?_zip_eq_some.mp hrest
    exact ⟨item, hitem, rfl, hcount, hshare⟩
  · rintro ⟨item, hitem, hlabel, hcount, hshare⟩
    refine ⟨(item, row.count, row.expected), ?_, ?_⟩
    · rw [List.getElem?_zip_eq_some, List.getElem?_zip_eq_some]
      exact ⟨hitem, hcount, hshare⟩
    · dsimp only
      rw [← hlabel]

/-- A draw without properties comes to the item at the place that the roll selects. -/
theorem exists_settle_drawn (hproperty : r.property = [])
    (hlottery : r.prospect search = .lottery catalog items shares) (text : String)
    (roll : Float) :
    ∃ item, items[Rarity.pickIndex shares roll]? = some item ∧
      r.settle text (r.drawn catalog items shares roll) =
        ⟨some ⟨catalog.key, item, item.raw⟩, none⟩ := by
  have hplace := List.getElem?_eq_getElem (Reference.pickIndex_lt_of_lottery hlottery roll)
  refine ⟨_, hplace, ?_⟩
  rw [Reference.drawn, hplace]
  dsimp only
  rw [Reference.follow_of_no_property hproperty]
  rfl

theorem places_eq_firstNamesakes (hproperty : r.property = [])
    (hlottery : r.prospect search = .lottery catalog items shares) (text : String)
    (rolls : List Float) :
    (rolls.map fun roll => r.settle text (r.drawn catalog items shares roll)).filterMap
        (placeOf items) =
      (rolls.map (Rarity.pickIndex shares)).filterMap (Item.firstNamesake items) := by
  rw [List.filterMap_map, List.filterMap_map]
  apply List.filterMap_congr
  intro roll _
  obtain ⟨item, hitem, hsettle⟩ := exists_settle_drawn hproperty hlottery text roll
  simp only [Function.comp_apply, hsettle, placeOf, Item.firstNamesake, hitem, Option.bind_some]

theorem count_of_row {picks : List Nat} {i : Nat} {row : DrawRow}
    (hrow : (rows items (countAll (List.replicate items.length 0)
      (picks.filterMap (Item.firstNamesake items))) shares)[i]? = some row) :
    row.count = picks.countP fun place => Item.firstNamesake items place == some i := by
  obtain ⟨item, hitem, _, hcount, _⟩ := getElem?_rows_eq_some_iff.mp hrow
  obtain ⟨hi, _⟩ := List.getElem?_eq_some_iff.mp hitem
  rw [getElem?_countAll, List.getElem?_replicate_of_lt hi, Option.map_some, Nat.zero_add,
    List.count_filterMap] at hcount
  exact (Option.some.inj hcount).symm

theorem tabulates_firstNamesakes (picks : List Nat) (text : String)
    (hshares : shares.length = items.length) :
    DrawTable.Tabulates ⟨text, picks.length, rows items
      (countAll (List.replicate items.length 0)
        (picks.filterMap (Item.firstNamesake items))) shares⟩ items shares picks where
  draws := rfl
  length := by
    simp [rows, length_countAll, hshares]
  label := by
    intro i row item hrow hitem
    obtain ⟨other, hother, hlabel, _, _⟩ := getElem?_rows_eq_some_iff.mp hrow
    rw [hlabel, Option.some.inj (hother.symm.trans hitem)]
  expected := by
    intro i row hrow
    obtain ⟨_, _, _, _, hshare⟩ := getElem?_rows_eq_some_iff.mp hrow
    exact hshare
  foremost := by
    intro i row item hrow hforemost
    rw [count_of_row hrow]
    apply List.countP_congr
    intro place _
    rw [beq_iff_eq, Item.firstNamesake_eq_some_iff hforemost.found]
    exact ⟨And.right, And.intro hforemost⟩
  behind := by
    intro i row item hrow hitem hbehind
    rw [count_of_row hrow, List.countP_eq_zero]
    intro place _ hplace
    rw [beq_iff_eq, Item.firstNamesake_eq_some_iff hitem] at hplace
    exact hbehind hplace.1

/-- Draws of a wildcard without properties select candidates by the numbers that come next
in the stream, and each is counted at the first candidate of its name.  The counts are
those of the places that were selected just when no candidate was selected behind another
of its name. -/
theorem draw_counts_at_first_of_name {count : Nat} (hread : Reference.parse text = .ok r)
    (hproperty : r.property = [])
    (hdraw : draw text count session = (.ok (.drawn table), after)) (hrows : table.rows ≠ []) :
    ∃ items shares resolved,
      (candidates text session).1 = .ok (some items) ∧
      Rarity.probabilities Float (items.map Item.weight) = .ok shares ∧
      (resolutions text count session).1 = .ok resolved ∧
      (resolved.map fun resolution => resolution.value.map Finding.item) =
        (session.stream.picks shares count).map (items[·]?) ∧
      (∀ place ∈ session.stream.picks shares count, place < items.length) ∧
      table.Tabulates items shares (session.stream.picks shares count) ∧
      ((∀ (i : Nat) (row : DrawRow), table.rows[i]? = some row →
          row.count = (session.stream.picks shares count).count i) ↔
        ∀ place ∈ session.stream.picks shares count, ∀ item, items[place]? = some item →
          Item.Foremost items place item) := by
  rcases lottery_of_draw hread hdraw with rfl | ⟨search, catalog, items, shares, hfinds, hlottery⟩
  · exact absurd rfl hrows
  obtain ⟨_, leftover, rfl, hitems, _⟩ := Reference.lottery_inv hlottery
  have hchances := Reference.probabilities_of_lottery hlottery
  obtain ⟨listing, hlisted, _⟩ := hfinds.candidates hread
  obtain ⟨resolved, last, hresolved, hrolls, hrun⟩ := hfinds.draw_of_lottery hread hlottery count
  have htable := Except.ok.inj (congrArg Prod.fst (hdraw.symm.trans hrun))
  rw [DrawOutcome.drawn.injEq] at htable
  have hpicks : ∀ place ∈ session.stream.picks shares count, place < items.length := by
    intro place hplace
    obtain ⟨roll, _, rfl⟩ := List.mem_map.mp hplace
    exact Reference.pickIndex_lt_of_lottery hlottery roll
  have hshares : shares.length = items.length := by
    rw [(Rarity.probabilities_eq_ok_iff.mp hchances).2, Rarity.length_shares, List.length_map]
  have htabulates : table.Tabulates items shares (session.stream.picks shares count) := by
    have hcounted := tabulates_firstNamesakes (session.stream.picks shares count) text hshares
    rw [RandomStream.length_picks, RandomStream.picks,
      ← places_eq_firstNamesakes hproperty hlottery text, ← hrolls, ← htable] at hcounted
    exact hcounted
  refine ⟨items, shares, resolved, ?_, hchances, hresolved, ?_, hpicks, htabulates,
    htabulates.counts_eq_iff hpicks⟩
  · rw [hlisted, Resolver.listedAt, hitems]
  · rw [hrolls, List.map_map, RandomStream.picks, List.map_map]
    apply List.map_congr_left
    intro roll _
    obtain ⟨item, hitem, hsettle⟩ := exists_settle_drawn hproperty hlottery text roll
    simp only [Function.comp_apply, hsettle, hitem, Option.map_some]

end Session

/-! ## Two candidates of one name -/

def Item.roughOpal : Item :=
  ⟨"opal", none, none, 1, ∅, .object [("name", .text "opal")]⟩

def Item.cutOpal : Item :=
  ⟨"opal", none, some "Cut Opal", 1, ∅,
    .object [("name", .text "opal"), ("displayName", .text "Cut Opal")]⟩

namespace Documents

def opalsText : String :=
  "\x7b\"gem_types\":\x7b\"rough\":\x7b\"items\":[\x7b\"name\":\"opal\"\x7d]\x7d,\"cut\":\x7b\"items\":[\x7b\"name\":\"opal\",\"displayName\":\"Cut Opal\"\x7d]\x7d\x7d\x7d"

/-- A rough and a cut gem of one name, in two categories. -/
def opals : Documents :=
  (∅ : Documents).insert ⟨"items", "opals"⟩ opalsText

def opalsFields : List (String × Json) :=
  [("gem_types", .object
    [("rough", .object [("items", .array [Item.roughOpal.raw])]),
      ("cut", .object [("items", .array [Item.cutOpal.raw])])])]

def opalsCatalog : Catalog :=
  ⟨⟨"items", "opals"⟩, Metadata.ofDocument opalsFields, Shape.ofFields opalsFields,
    .object opalsFields⟩

theorem opals_hold : opals.source.Holds ⟨"items", "opals"⟩ opalsCatalog := by
  have hdecode : Document.decode? opalsText.toUTF8 = some opalsText :=
    Document.decode?_of_unmarked (by decide +kernel)
  have hjson : Json.parse? (Catalog.withoutMark opalsText) = some (.object opalsFields) := by cbv
  exact .intro rfl hdecode hjson

def opalsReference : Reference :=
  ⟨"items", [], "opals", .wildcard, [], false, []⟩

theorem opals_read : Reference.parse "@items/opals:*" = .ok opalsReference := rfl

theorem opals_lottery : opalsReference.prospect (.found opalsCatalog []) =
    .lottery opalsCatalog [.roughOpal, .cutOpal] (Rarity.shares Float [1, 1]) := by
  have hcandidates : opalsCatalog.shape.candidates [] = [.roughOpal, .cutOpal] := rfl
  have hpositive : ∃ item ∈ opalsCatalog.shape.candidates [], 0 < item.weight :=
    ⟨.roughOpal, by simp [hcandidates], by decide⟩
  have hlottery : opalsReference.prospectIn opalsCatalog [] = _ :=
    Reference.prospectIn_of_positive rfl hpositive
  rw [hcandidates] at hlottery
  exact hlottery

end Documents

namespace Session

/-- A session over the opals, its stream seeded with zero. -/
def opals : Session :=
  .start Documents.opals.source 0 false

theorem opals_finds :
    opals.Finds Documents.opalsReference (.found Documents.opalsCatalog []) := by
  obtain ⟨_, hsearch⟩ :=
    Search.forReference_of_holds (r := Documents.opalsReference) rfl Documents.opals_hold
  exact congrArg Prod.fst hsearch

theorem opals_picks : opals.stream.picks (Rarity.shares Float [1, 1]) 1 = [1] := by
  decide +kernel

theorem opals_candidates :
    (candidates "@items/opals:*" opals).1 = .ok (some [.roughOpal, .cutOpal]) := by
  obtain ⟨listing, hlisted, _⟩ := opals_finds.candidates Documents.opals_read
  rw [hlisted]
  rfl

/-- The first number of the stream selects the cut opal, and the rough one is counted. -/
theorem opals_draw : ∃ share other after, Rarity.shares Float [1, 1] = [share, other] ∧
    draw "@items/opals:*" 1 opals =
      (.ok (.drawn ⟨"@items/opals:*", 1, [⟨"opal", 1, share⟩, ⟨"Cut Opal", 0, other⟩]⟩),
        after) := by
  obtain ⟨resolved, after, _, hrolls, hrun⟩ :=
    opals_finds.draw_of_lottery Documents.opals_read Documents.opals_lottery 1
  have hplaces : resolved.filterMap (placeOf [.roughOpal, .cutOpal]) = [0] := by
    rw [hrolls, places_eq_firstNamesakes rfl Documents.opals_lottery]
    change (opals.stream.picks (Rarity.shares Float [1, 1]) 1).filterMap _ = [0]
    rw [opals_picks]
    rfl
  rw [hplaces] at hrun
  exact ⟨_, _, after, rfl, hrun⟩

theorem draw_counts_at_first_of_name_opals :
    Reference.parse "@items/opals:*" = .ok Documents.opalsReference ∧
      Documents.opalsReference.property = [] ∧
      ∃ table after, draw "@items/opals:*" 1 opals = (.ok (.drawn table), after) ∧
        table.rows ≠ [] ∧
        table.Tabulates [.roughOpal, .cutOpal] (Rarity.shares Float [1, 1]) [1] := by
  obtain ⟨share, other, after, _, hdraw⟩ := opals_draw
  refine ⟨Documents.opals_read, rfl, _, after, hdraw, by simp, ?_⟩
  obtain ⟨items, shares, _, hcandidates, hchances, _, _, _, htable, _⟩ :=
    draw_counts_at_first_of_name Documents.opals_read rfl hdraw (by simp)
  have hitems := Option.some.inj (Except.ok.inj (hcandidates.symm.trans opals_candidates))
  subst hitems
  have hshares : shares = Rarity.shares Float [1, 1] :=
    (Rarity.probabilities_eq_ok_iff.mp hchances).2
  rw [hshares, opals_picks] at htable
  exact htable

theorem not_draw_counts_selected :
    ¬ ∀ (source : Source) (seed : UInt64) (logs : Bool) (text : String) (r : Reference)
      (count : Nat) (table : DrawTable) (after : Session) (items : List Item)
      (shares : List Float),
      Reference.parse text = .ok r → r.isWildcard = true → r.property = [] →
      draw text count (.start source seed logs) = (.ok (.drawn table), after) →
      table.rows ≠ [] →
      (candidates text (.start source seed logs)).1 = .ok (some items) →
      Rarity.probabilities Float (items.map Item.weight) = .ok shares →
      ∀ (i : Nat) (row : DrawRow), table.rows[i]? = some row →
        row.count = ((RandomStream.seeded seed).picks shares count).count i := by
  intro hclaim
  obtain ⟨share, other, after, _, hdraw⟩ := opals_draw
  have hchances := Reference.probabilities_of_lottery Documents.opals_lottery
  have hcut := hclaim Documents.opals.source 0 false "@items/opals:*" _ 1 _ after _ _
    Documents.opals_read rfl rfl hdraw (by simp) opals_candidates hchances 1 _ rfl
  change 0 = (opals.stream.picks (Rarity.shares Float [1, 1]) 1).count 1 at hcut
  rw [opals_picks] at hcut
  exact absurd hcut (by decide)

end Session
end GameCatalog
