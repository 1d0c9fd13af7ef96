import GameCatalog.Proofs.CategoryEntries
import GameCatalog.Proofs.CategorySearch
import GameCatalog.Proofs.MentionPlaces
import Mathlib.Data.List.Lex
import Mathlib.Data.Multiset.MapFold

/-!
# Where a catalog's items stand in its document

An item stands at a place in the document: the positions on the way down to it, two for each
category that it lies in and two for itself.  In an object the items are the named objects in
the array that the first field of the name `items` holds.  A typed catalog reads the items of
the categories and a flat one those of the root.  Either way it has each of them once.
-/

namespace GameCatalog
namespace Item

/-- An object with a text as its name. -/
def Named (raw : Json) : Prop :=
  ∃ fields name, raw = .object fields ∧ Json.lookup? "name" fields = some (.text name)

theorem isSome_ofJson?_iff {raw : Json} : (ofJson? raw).isSome = true ↔ Named raw := by
  rw [ofJson?, Option.isSome_map, Option.isSome_iff_exists]
  constructor
  · rintro ⟨name, hname⟩
    obtain ⟨value, hvalue, htext⟩ := Option.bind_eq_some_iff.mp hname
    cases raw with
    | object fields =>
        cases value with
        | text name => exact ⟨fields, name, rfl, hvalue⟩
        | _ => simp [Json.text?] at htext
    | _ => simp [Json.get?] at hvalue
  · rintro ⟨fields, name, rfl, hname⟩
    exact ⟨name, by rw [Json.get?, hname]; rfl⟩

variable {fields body : List (String × Json)} {place other rest : List Nat} {raw raw' : Json}

/-- In an object with these fields, the item stands at the place in the object's own list. -/
def Lists (fields : List (String × Json)) (place : List Nat) (raw : Json) : Prop :=
  ∃ i j entries, place = [i, j] ∧
    FirstWith (fun field => field.1 = "items") fields i ("items", .array entries) ∧
    entries[j]? = some raw ∧ Named raw

/-- At the place, one or more steps down, stands the body of a category. -/
inductive BodyAt : List (String × Json) → List Nat → List (String × Json) → Prop where
  | top {fields : List (String × Json)} {category : CategoryEntry}
      (hstands : category.StandsIn fields) :
      BodyAt fields [category.field, category.entry] category.body
  | nested {fields body : List (String × Json)} {category : CategoryEntry} {place : List Nat}
      (hstands : category.StandsIn fields) (hat : BodyAt category.body place body) :
      BodyAt fields (category.field :: category.entry :: place) body

/-- In an object with these fields, the item stands at the place in the list of a category. -/
def Nests (fields : List (String × Json)) (place : List Nat) (raw : Json) : Prop :=
  ∃ steps body rest, BodyAt fields steps body ∧ Lists body rest raw ∧ place = steps ++ rest

/-- At the place of the document stands an item of its catalog: in the list of a category or,
if no category stands in the document, in the document's own list. -/
def PlacedAt (fields : List (String × Json)) (place : List Nat) (raw : Json) : Prop :=
  Nests fields place raw ∨
    (∀ category : CategoryEntry, ¬ category.StandsIn fields) ∧ Lists fields place raw

theorem nests_iff :
    Nests fields place raw ↔ ∃ category : CategoryEntry, category.StandsIn fields ∧
      ∃ rest, place = category.field :: category.entry :: rest ∧
        (Lists category.body rest raw ∨ Nests category.body rest raw) := by
  constructor
  · rintro ⟨steps, body, rest, hat, hlists, rfl⟩
    cases hat with
    | @top _ category hstands => exact ⟨category, hstands, rest, rfl, .inl hlists⟩
    | @nested _ _ category steps hstands hat =>
        exact ⟨category, hstands, steps ++ rest, rfl, .inr ⟨steps, body, rest, hat, hlists, rfl⟩⟩
  · rintro ⟨category, hstands, rest, rfl, hlists | ⟨steps, body, rest, hat, hlists, rfl⟩⟩
    · exact ⟨_, _, rest, .top hstands, hlists, rfl⟩
    · exact ⟨_, body, rest, .nested hstands hat, hlists, rfl⟩

/-! ## An object's own items -/

theorem lookup?_eq_find? (name : String) (fields : List (String × Json)) :
    Json.lookup? name fields = (fields.find? fun field => field.1 == name).map Prod.snd := by
  induction fields with
  | nil => rfl
  | cons field rest ih =>
      obtain ⟨key, value⟩ := field
      rw [Json.lookup?, List.find?_cons, ih]
      by_cases hkey : key = name
      · simp [hkey]
      · simp [hkey, beq_eq_false_iff_ne.mpr hkey]

theorem lookup?_eq_some_iff {name : String} {value : Json} :
    Json.lookup? name fields = some value ↔
      ∃ i, FirstWith (fun field => field.1 = name) fields i (name, value) := by
  simp only [lookup?_eq_find?, Option.map_eq_some_iff, find?_eq_some_iff_firstWith, beq_iff_eq,
    Prod.exists]
  constructor
  · rintro ⟨key, value, ⟨i, hfirst⟩, rfl⟩
    obtain rfl : key = name := hfirst.holds
    exact ⟨i, hfirst⟩
  · rintro ⟨i, hfirst⟩
    exact ⟨name, value, ⟨i, hfirst⟩, rfl⟩

/-- The position of the field for items, if there is one. -/
def itemField (fields : List (String × Json)) : Nat :=
  fields.findIdx fun field => field.1 == "items"

theorem itemField_of_firstWith {i : Nat} {field : String × Json}
    (hfirst : FirstWith (fun field => field.1 = "items") fields i field) :
    itemField fields = i := by
  obtain ⟨hi, rfl⟩ := List.getElem?_eq_some_iff.mp hfirst.found
  rw [itemField, List.findIdx_eq hi]
  refine ⟨by simpa using hfirst.holds, ?_⟩
  intro j hj
  simpa using hfirst.first j hj _ (List.getElem?_eq_getElem (by omega))

/-- The items among the entries of an array, each with its position. -/
def positioned (entries : List Json) : List (Json × Nat) :=
  entries.zipIdx.filter fun entry => (ofJson? entry.1).isSome

/-- The object's own items, each with its place. -/
def own (fields : List (String × Json)) : List (List Nat × Json) :=
  match Json.lookup? "items" fields with
  | some (.array entries) =>
      (positioned entries).map fun entry => ([itemField fields, entry.2], entry.1)
  | _ => []

theorem mem_own_iff : (place, raw) ∈ own fields ↔ Lists fields place raw := by
  unfold own
  split
  next entries hlookup =>
    obtain ⟨i, hfirst⟩ := lookup?_eq_some_iff.mp hlookup
    rw [itemField_of_firstWith hfirst]
    simp only [positioned, List.mem_map, List.mem_filter, isSome_ofJson?_iff, Prod.exists,
      List.mem_zipIdx_iff_getElem?, Prod.mk.injEq]
    constructor
    · rintro ⟨raw, j, ⟨hentry, hnamed⟩, rfl, rfl⟩
      exact ⟨i, j, entries, rfl, hfirst, hentry, hnamed⟩
    · rintro ⟨i', j, entries', rfl, hfirst', hentry, hnamed⟩
      obtain ⟨rfl, hsame⟩ := hfirst.unique hfirst'
      obtain rfl : entries = entries' := by simpa using hsame
      exact ⟨raw, j, ⟨hentry, hnamed⟩, rfl, rfl⟩
  next hlookup =>
    constructor
    · simp
    · rintro ⟨i, j, entries, _, hfirst, _⟩
      exact absurd (lookup?_eq_some_iff.mpr ⟨i, hfirst⟩) (hlookup entries)

theorem map_raw_filterMap (entries : List Json) :
    (entries.filterMap ofJson?).map Item.raw =
      entries.filter fun entry => (ofJson? entry).isSome := by
  induction entries with
  | nil => rfl
  | cons entry rest ih =>
      cases hitem : ofJson? entry with
      | none => simpa [hitem] using ih
      | some item => simpa [hitem, raw_of_ofJson? hitem] using ih

theorem map_fst_positioned (entries : List Json) :
    (positioned entries).map Prod.fst = entries.filter fun entry => (ofJson? entry).isSome := by
  conv_rhs => rw [← List.zipIdx_map_fst 0 entries, List.filter_map]
  rfl

theorem map_snd_own (fields : List (String × Json)) :
    (own fields).map Prod.snd = (listOf (Json.lookup? "items" fields)).map Item.raw := by
  unfold own
  split
  next entries hlookup =>
    rw [hlookup, List.map_map, listOf, map_raw_filterMap, ← map_fst_positioned]
    rfl
  next hlookup =>
    unfold listOf
    split
    next entries harray => exact absurd harray (hlookup entries)
    next => rfl

theorem pairwise_own (fields : List (String × Json)) :
    (own fields).Pairwise fun a b => a.1 < b.1 := by
  unfold own
  split
  next entries hlookup =>
    rw [List.pairwise_map]
    refine ((CategoryEntry.pairwise_zipIdx entries).filter _).imp ?_
    intro a b hless
    simpa [List.cons_lt_cons_iff] using hless
  next => exact .nil

/-! ## The items of categories -/

theorem sizeOf_body_lt {category : CategoryEntry} (hstands : category.StandsIn fields) :
    sizeOf (Json.object category.body) < sizeOf (Json.object fields) := by
  obtain ⟨key, entries, hfield, _, hentry⟩ := hstands
  have hinner := Mention.sizeOf_field_lt (List.mem_of_getElem? hentry)
  have houter := Mention.sizeOf_field_lt (List.mem_of_getElem? hfield)
  omega

/-- What holds of an object as soon as it holds of the bodies of the categories that stand in
it, holds of every object. -/
@[elab_as_elim]
theorem body_induction {motive : List (String × Json) → Prop}
    (step : ∀ fields, (∀ category : CategoryEntry, category.StandsIn fields →
      motive category.body) → motive fields) (fields : List (String × Json)) : motive fields :=
  step fields fun category _ => body_induction step category.body
termination_by sizeOf (Json.object fields)
decreasing_by exact sizeOf_body_lt (by assumption)

def below (category : CategoryEntry) (entry : List Nat × Json) : List Nat × Json :=
  (category.field :: category.entry :: entry.1, entry.2)

/-- The items of the categories in the object, each with its place, as a catalog lists them: a
category's own items come ahead of those of its nested categories. -/
def nested (fields : List (String × Json)) : List (List Nat × Json) :=
  (CategoryEntry.all fields).attach.flatMap fun category =>
    (own category.1.body ++ nested category.1.body).map (below category.1)
termination_by sizeOf (Json.object fields)
decreasing_by exact sizeOf_body_lt (CategoryEntry.mem_all_iff.mp category.2)

theorem nested_eq (fields : List (String × Json)) :
    nested fields = (CategoryEntry.all fields).flatMap fun category =>
      (own category.body ++ nested category.body).map (below category) := by
  rw [nested]
  conv_rhs => rw [← List.attach_map_subtype_val (CategoryEntry.all fields), List.flatMap_map]

theorem mem_nested_iff : (place, raw) ∈ nested fields ↔ Nests fields place raw := by
  induction fields using body_induction generalizing place with
  | step fields ih =>
    rw [nested_eq, nests_iff]
    simp only [List.mem_flatMap, CategoryEntry.mem_all_iff, List.mem_map, List.mem_append,
      Prod.exists, below, Prod.mk.injEq]
    constructor
    · rintro ⟨category, hstands, rest, raw, hown | hnested, rfl, rfl⟩
      · exact ⟨category, hstands, rest, rfl, .inl (mem_own_iff.mp hown)⟩
      · exact ⟨category, hstands, rest, rfl, .inr ((ih category hstands).mp hnested)⟩
    · rintro ⟨category, hstands, rest, rfl, hlists | hnests⟩
      · exact ⟨category, hstands, rest, raw, .inl (mem_own_iff.mpr hlists), rfl, rfl⟩
      · exact ⟨category, hstands, rest, raw, .inr ((ih category hstands).mpr hnests), rfl, rfl⟩

theorem map_snd_nested (fields : List (String × Json)) :
    (nested fields).map Prod.snd =
      (Category.allItemsOf (Category.ofFields fields)).map Item.raw := by
  induction fields using body_induction with
  | step fields ih =>
    rw [nested_eq, CategoryEntry.ofFields_eq_map_read, Category.allItemsOf_eq_flatMap,
      List.map_flatMap, List.map_flatMap, List.flatMap_map]
    refine List.flatMap_congr fun category hmem => ?_
    have hbody := ih category (CategoryEntry.mem_all_iff.mp hmem)
    have hplaces : (Prod.snd ∘ below category : List Nat × Json → Json) = Prod.snd := rfl
    rw [List.map_map, hplaces, List.map_append, map_snd_own, hbody, CategoryEntry.read,
      Category.allItems, List.map_append]

/-! ## The order of the list -/

/-- The item at the place is one of a category's own, and at the other place, which comes first
in the document, stands an item of a category nested in that one. -/
def Overtakes (fields : List (String × Json)) (place other : List Nat) : Prop :=
  ∃ steps body ownPlace raw nestedPlace raw', BodyAt fields steps body ∧
    Lists body ownPlace raw ∧ Nests body nestedPlace raw' ∧ nestedPlace < ownPlace ∧
    place = steps ++ ownPlace ∧ other = steps ++ nestedPlace

theorem Overtakes.lt (hovertakes : Overtakes fields place other) : other < place := by
  obtain ⟨steps, body, ownPlace, raw, nestedPlace, raw', _, _, _, hless, rfl, rfl⟩ := hovertakes
  exact List.append_left_lt hless

theorem overtakes_of_lists {category : CategoryEntry} (hstands : category.StandsIn fields)
    (hlists : Lists category.body place raw) (hnests : Nests category.body other raw')
    (hless : other < place) :
    Overtakes fields (category.field :: category.entry :: place)
      (category.field :: category.entry :: other) :=
  ⟨_, _, place, raw, other, raw', .top hstands, hlists, hnests, hless, rfl, rfl⟩

theorem Overtakes.below {category : CategoryEntry} (hstands : category.StandsIn fields)
    (hovertakes : Overtakes category.body place other) :
    Overtakes fields (category.field :: category.entry :: place)
      (category.field :: category.entry :: other) := by
  obtain ⟨steps, body, ownPlace, raw, nestedPlace, raw', hat, hlists, hnests, hless, rfl, rfl⟩ :=
    hovertakes
  exact ⟨_, body, ownPlace, raw, nestedPlace, raw', .nested hstands hat, hlists, hnests, hless,
    rfl, rfl⟩

theorem ne_of_lists_of_nests (hlists : Lists fields place raw) (hnests : Nests fields other raw') :
    place ≠ other := by
  rintro rfl
  obtain ⟨i, j, entries, hplace, hfirst, _⟩ := hlists
  obtain ⟨category, ⟨key, categories, hfield, _⟩, rest, hplace', _⟩ := nests_iff.mp hnests
  obtain ⟨rfl, _⟩ := List.cons.inj (hplace.symm.trans hplace')
  rw [hfirst.found] at hfield
  simp at hfield

theorem pairwise_nested (fields : List (String × Json)) :
    (nested fields).Pairwise fun a b => a.1 < b.1 ∨ Overtakes fields a.1 b.1 := by
  induction fields using body_induction with
  | step fields ih =>
    rw [nested_eq, List.pairwise_flatMap]
    constructor
    · intro category hmem
      have hstands := CategoryEntry.mem_all_iff.mp hmem
      rw [List.pairwise_map, List.pairwise_append]
      refine ⟨(pairwise_own _).imp ?_, (ih category hstands).imp ?_, ?_⟩
      · intro a b hless
        exact .inl (by simpa [below, List.cons_lt_cons_iff] using hless)
      · rintro a b (hless | hovertakes)
        · exact .inl (by simpa [below, List.cons_lt_cons_iff] using hless)
        · exact .inr (hovertakes.below hstands)
      · rintro ⟨place, raw⟩ hown ⟨other, raw'⟩ hnested
        have hlists := mem_own_iff.mp hown
        have hnests := mem_nested_iff.mp hnested
        rcases lt_trichotomy place other with hless | hsame | hmore
        · exact .inl (by simpa [below, List.cons_lt_cons_iff] using hless)
        · exact absurd hsame (ne_of_lists_of_nests hlists hnests)
        · exact .inr (overtakes_of_lists hstands hlists hnests hmore)
    · refine (CategoryEntry.pairwise_all fields).imp ?_
      intro category category' hbefore a ha b hb
      obtain ⟨_, _, rfl⟩ := List.mem_map.mp ha
      obtain ⟨_, _, rfl⟩ := List.mem_map.mp hb
      left
      rcases hbefore with hless | ⟨hsame, hless⟩
      · simp [below, List.cons_lt_cons_iff, hless]
      · simp [below, List.cons_lt_cons_iff, hsame, hless]

/-! ## The items of a catalog -/

/-- The items that a catalog reads, each with its place, as the catalog lists them. -/
def listed : Bool → List (String × Json) → List (List Nat × Json)
  | true => nested
  | false => own

theorem not_nests_of_no_category (hnone : ∀ category : CategoryEntry, ¬ category.StandsIn fields) :
    ¬ Nests fields place raw := by
  intro hnests
  obtain ⟨category, hstands, _⟩ := nests_iff.mp hnests
  exact hnone category hstands

theorem mem_listed_iff :
    (place, raw) ∈ listed (Shape.ofFields fields).isTyped fields ↔ PlacedAt fields place raw := by
  have htyped : (Shape.ofFields fields).isTyped = true ↔ _ := Shape.isTyped_ofFields_iff
  unfold PlacedAt
  cases hshape : (Shape.ofFields fields).isTyped with
  | true =>
      obtain ⟨category, hstands⟩ := htyped.mp hshape
      have hsome : ¬ ∀ category : CategoryEntry, ¬ category.StandsIn fields :=
        fun hnone => hnone category hstands
      simp only [listed, mem_nested_iff, hsome, false_and, or_false]
  | false =>
      have hnone : ∀ category : CategoryEntry, ¬ category.StandsIn fields := by
        intro category hstands
        simp [htyped.mpr ⟨category, hstands⟩] at hshape
      simp only [listed, mem_own_iff, not_nests_of_no_category hnone, hnone, not_false_eq_true,
        implies_true, true_and, false_or]

theorem pairwise_listed (typed : Bool) (fields : List (String × Json)) :
    (listed typed fields).Pairwise fun a b => a.1 < b.1 ∨ Overtakes fields a.1 b.1 := by
  cases typed with
  | true => exact pairwise_nested fields
  | false => exact (pairwise_own fields).imp .inl

theorem nodup_places (typed : Bool) (fields : List (String × Json)) :
    ((listed typed fields).map Prod.fst).Nodup := by
  rw [List.Nodup, List.pairwise_map]
  refine (pairwise_listed typed fields).imp ?_
  rintro a b (hless | hovertakes)
  · exact ne_of_lt hless
  · exact (ne_of_lt hovertakes.lt).symm

theorem map_snd_listed (fields : List (String × Json)) :
    (listed (Shape.ofFields fields).isTyped fields).map Prod.snd =
      (Shape.ofFields fields).allItems.map Item.raw := by
  rcases Shape.ofFields_cases fields with ⟨_, hflat⟩ | ⟨_, htyped⟩
  · rw [hflat]
    exact map_snd_own fields
  · rw [htyped]
    exact map_snd_nested fields

end Item

/-- The items of a catalog are the items that stand in its document, each once: for a typed
catalog those of the categories at every depth, for a flat one those of the root.  It is typed
if and only if a category stands in the document. -/
theorem Catalog.allItems_from_places (key : CatalogKey) (fields : List (String × Json)) :
    ∃ catalog, ofJson key (.object fields) = .ok catalog ∧
      (catalog.shape.isTyped = true ↔ ∃ category : CategoryEntry, category.StandsIn fields) ∧
      ∃ placed : Multiset (List Nat × Json), (placed.map Prod.fst).Nodup ∧
        (∀ place raw, (place, raw) ∈ placed ↔
          Item.PlacedAt fields place raw) ∧
        (catalog.shape.allItems.map Item.raw : Multiset Json) = placed.map Prod.snd ∧
        catalog.itemCount = placed.card := by
  have hvalues := Item.map_snd_listed fields
  refine ⟨_, rfl, Shape.isTyped_ofFields_iff,
    Item.listed (Shape.ofFields fields).isTyped fields, ?_, ?_, ?_, ?_⟩
  · rw [Multiset.map_coe, Multiset.coe_nodup]
    exact Item.nodup_places _ fields
  · intro place raw
    rw [Multiset.mem_coe]
    exact Item.mem_listed_iff
  · rw [Multiset.map_coe, hvalues]
  · have hlength := congrArg List.length hvalues
    rw [List.length_map, List.length_map] at hlength
    rw [Multiset.coe_card, hlength]
    rfl

end GameCatalog
