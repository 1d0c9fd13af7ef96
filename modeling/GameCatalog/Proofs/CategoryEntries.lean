import GameCatalog.Catalog.Basic
import Mathlib.Data.List.Basic

/-!
# What makes a catalog typed

A category is an object among the entries of an object that a field ending in `_types`
holds, in the document or in the body of another category.  A document is read as a typed
catalog as soon as one such entry stands in it, and its own list of items is then passed
over.  A field of that name with nothing but other entries makes no difference.
-/

namespace GameCatalog

/-- The position of a field, the position of an entry in the object that it holds, and the
name and the body of the category that the entry makes. -/
structure CategoryEntry where
  field : Nat
  entry : Nat
  name : String
  body : List (String × Json)

namespace CategoryEntry

variable {fields : List (String × Json)} {category : CategoryEntry}

def EndsInTypes (key : String) : Prop :=
  ∃ stem, key = stem ++ "_types"

/-- In an object with these fields, the category stands at its positions. -/
def StandsIn (category : CategoryEntry) (fields : List (String × Json)) : Prop :=
  ∃ key entries, fields[category.field]? = some (key, .object entries) ∧ EndsInTypes key ∧
    entries[category.entry]? = some (category.name, .object category.body)

/-- Only the suffix counts: the name of the metadata does not have it. -/
theorem isTypesField_iff {key : String} : Category.isTypesField key = true ↔ EndsInTypes key := by
  rw [Category.isTypesField, Bool.and_eq_true, bne_iff_ne, List.isSuffixOf_iff_suffix]
  constructor
  · rintro ⟨_, stem, hkey⟩
    refine ⟨String.ofList stem, String.toList_inj.mp ?_⟩
    rw [String.toList_append, String.toList_ofList]
    exact hkey.symm
  · rintro ⟨stem, rfl⟩
    refine ⟨?_, stem.toList, (String.toList_append).symm⟩
    intro hmetadata
    have hsuffix : "_types".toList <:+ "metadata".toList :=
      ⟨stem.toList, by rw [← String.toList_append, hmetadata]⟩
    exact absurd hsuffix (by decide)

/-! ## Entries in turn -/

def ofEntry (field : Nat) : (String × Json) × Nat → Option CategoryEntry
  | ((name, .object body), entry) => some ⟨field, entry, name, body⟩
  | _ => none

def ofField : (String × Json) × Nat → List CategoryEntry
  | ((key, .object entries), field) =>
      if Category.isTypesField key then entries.zipIdx.filterMap (ofEntry field) else []
  | _ => []

/-- The categories that stand in an object, in the document's order. -/
def all (fields : List (String × Json)) : List CategoryEntry :=
  fields.zipIdx.flatMap ofField

theorem ofEntry_eq_some_iff {field entry : Nat} {name : String} {value : Json} :
    ofEntry field ((name, value), entry) = some category ↔
      category.field = field ∧ category.entry = entry ∧ name = category.name ∧
        value = .object category.body := by
  obtain ⟨field', entry', name', body'⟩ := category
  cases value <;> simp [ofEntry, eq_comm]

theorem mem_ofField_iff {field : Nat} {key : String} {value : Json} :
    category ∈ ofField ((key, value), field) ↔
      category.field = field ∧ EndsInTypes key ∧ ∃ entries, value = .object entries ∧
        entries[category.entry]? = some (category.name, .object category.body) := by
  cases value with
  | object entries =>
      rw [ofField, ← isTypesField_iff]
      by_cases htypes : Category.isTypesField key = true
      · simp only [htypes, if_true, List.mem_filterMap, Prod.exists, List.mem_zipIdx_iff_getElem?,
          ofEntry_eq_some_iff, Json.object.injEq, exists_eq_left', true_and]
        constructor
        · rintro ⟨name, value, entry, hentry, hfield, rfl, rfl, rfl⟩
          exact ⟨hfield, hentry⟩
        · rintro ⟨hfield, hentry⟩
          exact ⟨_, _, _, hentry, hfield, rfl, rfl, rfl⟩
      · simp [htypes]
  | _ => simp [ofField]

theorem mem_all_iff : category ∈ all fields ↔ category.StandsIn fields := by
  simp only [all, List.mem_flatMap, Prod.exists, List.mem_zipIdx_iff_getElem?, mem_ofField_iff]
  constructor
  · rintro ⟨key, value, field, hfield, rfl, htypes, entries, rfl, hentry⟩
    exact ⟨key, entries, hfield, htypes, hentry⟩
  · rintro ⟨key, entries, hfield, htypes, hentry⟩
    exact ⟨key, _, _, hfield, rfl, htypes, entries, rfl, hentry⟩

/-- The document has this category ahead of the other. -/
def Before (category other : CategoryEntry) : Prop :=
  category.field < other.field ∨ category.field = other.field ∧ category.entry < other.entry

theorem pairwise_zipIdx {α : Type} (children : List α) :
    children.zipIdx.Pairwise fun a b => a.2 < b.2 := by
  rw [← List.pairwise_map (f := Prod.snd) (R := (· < ·)), List.zipIdx_map_snd]
  exact List.pairwise_lt_range'

theorem pairwise_ofField (field : (String × Json) × Nat) :
    (ofField field).Pairwise Before := by
  obtain ⟨⟨key, value⟩, position⟩ := field
  cases value with
  | object entries =>
      rw [ofField]
      split
      · rw [List.pairwise_filterMap]
        refine (pairwise_zipIdx entries).imp ?_
        rintro ⟨⟨_, _⟩, i⟩ ⟨⟨_, _⟩, j⟩ hless category hcategory other hother
        obtain ⟨hfield, hentry, _⟩ := ofEntry_eq_some_iff.mp hcategory
        obtain ⟨hfield', hentry', _⟩ := ofEntry_eq_some_iff.mp hother
        exact .inr ⟨by omega, by omega⟩
      · exact .nil
  | _ => exact .nil

theorem pairwise_all (fields : List (String × Json)) : (all fields).Pairwise Before := by
  rw [all, List.pairwise_flatMap]
  refine ⟨fun field _ => pairwise_ofField field, (pairwise_zipIdx fields).imp ?_⟩
  rintro ⟨⟨_, _⟩, i⟩ ⟨⟨_, _⟩, j⟩ hless category hcategory other hother
  have hfield := (mem_ofField_iff.mp hcategory).1
  have hfield' := (mem_ofField_iff.mp hother).1
  exact .inl (by omega)

/-! ## The categories that a catalog reads -/

/-- The category as it is read from its body. -/
def read (category : CategoryEntry) : Category :=
  ⟨category.name, Item.listOf (Json.lookup? "items" category.body),
    Category.ofFields category.body⟩

theorem ofEntries_eq_filterMap (entries : List (String × Json)) :
    Category.ofEntries entries = entries.filterMap fun entry => Category.ofBody entry.1 entry.2 := by
  induction entries with
  | nil => rfl
  | cons entry rest ih =>
      obtain ⟨name, body⟩ := entry
      rw [Category.ofEntries, ih, List.filterMap_cons]
      cases Category.ofBody name body <;> rfl

theorem ofFields_eq_flatMap (fields : List (String × Json)) :
    Category.ofFields fields = fields.flatMap fun field =>
      if Category.isTypesField field.1 then Category.ofTypes field.2 else [] := by
  induction fields with
  | nil => rfl
  | cons field rest ih =>
      obtain ⟨key, value⟩ := field
      rw [Category.ofFields, ih, List.flatMap_cons]
      split <;> rfl

theorem map_read_ofEntry (field : Nat) (entry : (String × Json) × Nat) :
    (ofEntry field entry).map read = Category.ofBody entry.1.1 entry.1.2 := by
  obtain ⟨⟨name, value⟩, position⟩ := entry
  cases value <;> rfl

theorem map_read_ofField (field : (String × Json) × Nat) :
    (ofField field).map read =
      if Category.isTypesField field.1.1 then Category.ofTypes field.1.2 else [] := by
  obtain ⟨⟨key, value⟩, position⟩ := field
  cases value with
  | object entries =>
      rw [ofField]
      split
      · rw [List.map_filterMap, Category.ofTypes, ofEntries_eq_filterMap]
        simp only [map_read_ofEntry]
        conv_rhs => rw [← List.zipIdx_map_fst 0 entries, List.filterMap_map]
        rfl
      · rfl
  | _ => simp [ofField, Category.ofTypes]

/-- The categories of an object are read off the entries that stand in it. -/
theorem ofFields_eq_map_read (fields : List (String × Json)) :
    Category.ofFields fields = (all fields).map read := by
  rw [ofFields_eq_flatMap, all, List.map_flatMap]
  simp only [map_read_ofField]
  conv_lhs => rw [← List.zipIdx_map_fst 0 fields, List.flatMap_map]

theorem ofFields_eq_nil_iff :
    Category.ofFields fields = [] ↔ ∀ category : CategoryEntry, ¬ category.StandsIn fields := by
  rw [ofFields_eq_map_read, List.map_eq_nil_iff, List.eq_nil_iff_forall_not_mem]
  simp only [mem_all_iff]

end CategoryEntry

/-! ## The shape of a document -/

namespace Shape

variable {fields : List (String × Json)}

theorem ofFields_cases (fields : List (String × Json)) :
    (Category.ofFields fields = [] ∧
        ofFields fields = .flat (Item.listOf (Json.lookup? "items" fields))) ∨
      (Category.ofFields fields ≠ [] ∧ ofFields fields = .typed (Category.ofFields fields)) := by
  rw [ofFields]
  cases Category.ofFields fields <;> simp

theorem isTyped_ofFields_iff :
    (ofFields fields).isTyped = true ↔ ∃ category : CategoryEntry, category.StandsIn fields := by
  have hnone : Category.ofFields fields = [] ↔ _ := CategoryEntry.ofFields_eq_nil_iff
  rcases ofFields_cases fields with ⟨hempty, hflat⟩ | ⟨hsome, htyped⟩
  · rw [hflat]
    simpa [isTyped] using hnone.mp hempty
  · rw [htyped]
    rw [ne_eq, hnone, not_forall_not] at hsome
    simpa [isTyped] using hsome

/-- The root's items are of no account for categories. -/
theorem ofFields_filter_items (fields : List (String × Json)) :
    Category.ofFields (fields.filter fun field => field.1 != "items") =
      Category.ofFields fields := by
  have hitems : Category.isTypesField "items" = false := by decide
  induction fields with
  | nil => rfl
  | cons field rest ih =>
      obtain ⟨key, value⟩ := field
      by_cases hkey : key = "items"
      · subst hkey
        simpa [Category.ofFields, hitems] using ih
      · simp [hkey, Category.ofFields, ih]

end Shape

namespace Catalog

open CategoryEntry

/-- A document is read as a typed catalog if and only if a category stands in it.  Then its own
items make no difference; otherwise the catalog is the flat list of these. -/
theorem shape_decided_by_categories (key : CatalogKey) (fields : List (String × Json)) :
    ∃ catalog, ofJson key (.object fields) = .ok catalog ∧
      (catalog.shape.isTyped = true ↔ ∃ category : CategoryEntry, category.StandsIn fields) ∧
      (catalog.shape.isTyped = true →
        ∀ other : List (String × Json),
          (other.filter fun field => field.1 != "items") =
            (fields.filter fun field => field.1 != "items") →
          (ofJson key (.object other)).map Catalog.shape = .ok catalog.shape) ∧
      (catalog.shape.isTyped = false →
        catalog.shape = .flat (Item.listOf (Json.lookup? "items" fields))) := by
  refine ⟨_, rfl, Shape.isTyped_ofFields_iff, ?_, ?_⟩
  · intro htyped other hsame
    have hcategories : Category.ofFields other = Category.ofFields fields := by
      rw [← Shape.ofFields_filter_items, hsame, Shape.ofFields_filter_items]
    rcases Shape.ofFields_cases fields with ⟨_, hflat⟩ | ⟨hsome, hshape⟩
    · simp [hflat, Shape.isTyped] at htyped
    · rcases Shape.ofFields_cases other with ⟨hnone, _⟩ | ⟨_, hother⟩
      · exact absurd (hcategories.symm.trans hnone) hsome
      · change Except.ok (Shape.ofFields other) = Except.ok (Shape.ofFields fields)
        rw [hother, hshape, hcategories]
  · intro hflat
    rcases Shape.ofFields_cases fields with ⟨_, hshape⟩ | ⟨_, htyped⟩
    · exact hshape
    · simp [htyped, Shape.isTyped] at hflat

/-- A field for weapon types without any, beside an item. -/
def armoryFields : List (String × Json) :=
  [("weapon_types", .object []), ("items", .array [.object [("name", .text "sword")]])]

/-- The name of a field and the kind of its value do not decide the shape: the field for weapon
types is there, and the catalog is the flat list of the item beside it. -/
theorem not_typed_by_types_field :
    ¬ ∀ (key : CatalogKey) (fields : List (String × Json)) (catalog : Catalog),
      ofJson key (.object fields) = .ok catalog →
        ((∃ field ∈ fields, field.1 ≠ "metadata" ∧ EndsInTypes field.1 ∧
            field.2.isObject = true) → ∃ categories, catalog.shape = .typed categories) ∧
        ((¬ ∃ field ∈ fields, field.1 ≠ "metadata" ∧ EndsInTypes field.1 ∧
            field.2.isObject = true) →
          catalog.shape = .flat (Item.listOf (Json.lookup? "items" fields))) := by
  intro hclaim
  have htypes : ∃ field ∈ armoryFields, field.1 ≠ "metadata" ∧ EndsInTypes field.1 ∧
      field.2.isObject = true :=
    ⟨("weapon_types", .object []), by simp [armoryFields], by decide, ⟨"weapon", by decide⟩, rfl⟩
  obtain ⟨categories, htyped⟩ := (hclaim ⟨"items", "armory"⟩ armoryFields _ rfl).1 htypes
  contradiction

end Catalog
end GameCatalog
