import GameCatalog.Reference.Mention
import Mathlib.Data.List.Basic

/-!
# Where a document mentions references

A place in a document is the list of positions on the way down to it, so the document's
order is the lexicographic order of places.  The mentions of a document are the texts in
it that start with `@`, each with the location of its place, and they are listed once
and in order.  Names of fields are no texts of the document.
-/

namespace GameCatalog
namespace Mention

/-- In the value at the location, the text at the place is this mention. -/
inductive At : String → Json → List Nat → Mention → Prop where
  | text {location s : String} (hstarts : ∃ rest, s = "@" ++ rest) :
      At location (.text s) [] ⟨s, location⟩
  | item {location : String} {items : List Json} {i : Nat} {json : Json}
      {place : List Nat} {mention : Mention} (hitem : items[i]? = some json)
      (hat : At (itemLocation location i) json place mention) :
      At location (.array items) (i :: place) mention
  | field {location key : String} {fields : List (String × Json)} {i : Nat} {json : Json}
      {place : List Nat} {mention : Mention} (hfield : fields[i]? = some (key, json))
      (hat : At (fieldLocation location key) json place mention) :
      At location (.object fields) (i :: place) mention

def below (i : Nat) (entry : List Nat × Mention) : List Nat × Mention :=
  (i :: entry.1, entry.2)

mutual

/-- The mentions in a value, each with its place. -/
def placed (location : String) : Json → List (List Nat × Mention)
  | .text s => if looksLikeReference s then [([], ⟨s, location⟩)] else []
  | .array items => placedItems location 0 items
  | .object fields => placedFields location 0 fields
  | .null => []
  | .bool _ => []
  | .int _ => []
  | .float _ => []

def placedItems (location : String) (index : Nat) : List Json → List (List Nat × Mention)
  | [] => []
  | item :: rest =>
      (placed (itemLocation location index) item).map (below index) ++
        placedItems location (index + 1) rest

def placedFields (location : String) (index : Nat) :
    List (String × Json) → List (List Nat × Mention)
  | [] => []
  | (key, value) :: rest =>
      (placed (fieldLocation location key) value).map (below index) ++
        placedFields location (index + 1) rest

end

/-! ## Places are forgotten -/

theorem map_snd_below (i : Nat) (entries : List (List Nat × Mention)) :
    (entries.map (below i)).map Prod.snd = entries.map Prod.snd := by
  rw [List.map_map]
  rfl

mutual

theorem map_snd_placed (location : String) :
    (json : Json) → (placed location json).map Prod.snd = within location json
  | .text s => by
      unfold placed within
      split <;> rfl
  | .array items => map_snd_placedItems location 0 items
  | .object fields => map_snd_placedFields location 0 fields
  | .null => rfl
  | .bool _ => rfl
  | .int _ => rfl
  | .float _ => rfl

theorem map_snd_placedItems (location : String) (index : Nat) :
    (items : List Json) →
      (placedItems location index items).map Prod.snd = withinItems location index items
  | [] => rfl
  | item :: rest => by
      rw [placedItems, withinItems, List.map_append, map_snd_below, map_snd_placed,
        map_snd_placedItems]

theorem map_snd_placedFields (location : String) (index : Nat) :
    (fields : List (String × Json)) →
      (placedFields location index fields).map Prod.snd = withinFields location fields
  | [] => rfl
  | (key, value) :: rest => by
      rw [placedFields, withinFields, List.map_append, map_snd_below, map_snd_placed,
        map_snd_placedFields]

end

/-! ## Children in turn -/

section Children

variable {α : Type} {entriesOf : Nat → α → List (List Nat × Mention)} {index : Nat}
  {children : List α} {place : List Nat} {mention : Mention}

/-- The entries of the children in turn, each below its child's position. -/
def ofChildren (entriesOf : Nat → α → List (List Nat × Mention)) (index : Nat) :
    List α → List (List Nat × Mention)
  | [] => []
  | child :: rest =>
      (entriesOf index child).map (below index) ++ ofChildren entriesOf (index + 1) rest

theorem mem_map_below_iff {entries : List (List Nat × Mention)} :
    (place, mention) ∈ entries.map (below index) ↔
      ∃ rest, place = index :: rest ∧ (rest, mention) ∈ entries := by
  constructor
  · intro hmem
    obtain ⟨⟨rest, found⟩, hentry, hbelow⟩ := List.mem_map.mp hmem
    obtain ⟨hplace, hfound⟩ := Prod.mk.inj hbelow
    exact ⟨rest, hplace.symm, hfound ▸ hentry⟩
  · intro hrest
    obtain ⟨rest, hplace, hentry⟩ := hrest
    rw [hplace]
    exact List.mem_map_of_mem hentry

theorem mem_ofChildren_iff :
    (place, mention) ∈ ofChildren entriesOf index children ↔
      ∃ i child rest, children[i]? = some child ∧ place = (index + i) :: rest ∧
        (rest, mention) ∈ entriesOf (index + i) child := by
  induction children generalizing index with
  | nil => simp [ofChildren]
  | cons first children ih =>
      rw [ofChildren, List.mem_append, mem_map_below_iff, ih]
      constructor
      · intro hcases
        rcases hcases with ⟨rest, hplace, hentry⟩ | ⟨i, child, rest, hchild, hplace, hentry⟩
        · exact ⟨0, first, rest, rfl, hplace, hentry⟩
        · rw [Nat.succ_add_eq_add_succ] at hplace hentry
          exact ⟨i + 1, child, rest, hchild, hplace, hentry⟩
      · intro hchildren
        obtain ⟨i, child, rest, hchild, hplace, hentry⟩ := hchildren
        cases i with
        | zero =>
            have hfirst : first = child := by simpa using hchild
            rw [← hfirst] at hentry
            exact .inl ⟨rest, hplace, hentry⟩
        | succ i =>
            rw [← Nat.succ_add_eq_add_succ] at hplace hentry
            exact .inr ⟨i, child, rest, hchild, hplace, hentry⟩

theorem pairwise_map_below {entries : List (List Nat × Mention)}
    (hsorted : entries.Pairwise fun a b => a.1 < b.1) :
    (entries.map (below index)).Pairwise fun a b => a.1 < b.1 := by
  rw [List.pairwise_map]
  exact hsorted.imp fun hless => List.cons_lt_cons_iff.mpr (.inr ⟨rfl, hless⟩)

/-- The children's places come in order, and so do those of one child after the other. -/
theorem pairwise_ofChildren
    (hsorted : ∀ child ∈ children, ∀ i, (entriesOf i child).Pairwise fun a b => a.1 < b.1) :
    (ofChildren entriesOf index children).Pairwise fun a b => a.1 < b.1 := by
  induction children generalizing index with
  | nil => exact .nil
  | cons first children ih =>
      rw [ofChildren, List.pairwise_append]
      refine ⟨pairwise_map_below (hsorted first (by simp) index),
        ih fun child hchild => hsorted child (by simp [hchild]), ?_⟩
      rintro ⟨place, mention⟩ hfirst ⟨place', mention'⟩ hlater
      obtain ⟨rest, hplace, _⟩ := mem_map_below_iff.mp hfirst
      obtain ⟨i, _, rest', _, hplace', _⟩ := mem_ofChildren_iff.mp hlater
      dsimp only
      rw [hplace, hplace', List.cons_lt_cons_iff]
      exact .inl (by omega)

end Children

theorem placedItems_eq_ofChildren (location : String) (index : Nat) (items : List Json) :
    placedItems location index items =
      ofChildren (fun i => placed (itemLocation location i)) index items := by
  induction items generalizing index with
  | nil => rfl
  | cons item rest ih => rw [placedItems, ofChildren, ih]

theorem placedFields_eq_ofChildren (location : String) (index : Nat)
    (fields : List (String × Json)) :
    placedFields location index fields =
      ofChildren (fun _ field => placed (fieldLocation location field.1) field.2) index
        fields := by
  induction fields generalizing index with
  | nil => rfl
  | cons field rest ih => rw [placedFields, ofChildren, ih]

/-! ## The mentions of a document -/

theorem sizeOf_item_lt {item : Json} {items : List Json} (hitem : item ∈ items) :
    sizeOf item < sizeOf (Json.array items) := by
  have hlist := List.sizeOf_lt_of_mem hitem
  simp only [Json.array.sizeOf_spec]
  omega

theorem sizeOf_field_lt {key : String} {value : Json} {fields : List (String × Json)}
    (hfield : (key, value) ∈ fields) : sizeOf value < sizeOf (Json.object fields) := by
  have hlist := List.sizeOf_lt_of_mem hfield
  simp only [Prod.mk.sizeOf_spec, Json.object.sizeOf_spec] at hlist ⊢
  omega

theorem at_of_mem_placed (location : String) (place : List Nat) (mention : Mention) :
    (json : Json) → (place, mention) ∈ placed location json →
      At location json place mention
  | .text s, hmem => by
      unfold placed at hmem
      split at hmem
      next hlooks =>
        obtain ⟨hplace, hmention⟩ := Prod.mk.inj (List.mem_singleton.mp hmem)
        rw [hplace, hmention]
        exact .text (looksLikeReference_iff.mp hlooks)
      next => simp at hmem
  | .array items, hmem => by
      rw [placed, placedItems_eq_ofChildren, mem_ofChildren_iff] at hmem
      obtain ⟨i, item, rest, hitem, hplace, hentry⟩ := hmem
      rw [Nat.zero_add] at hplace hentry
      rw [hplace]
      exact .item hitem (at_of_mem_placed _ rest mention item hentry)
  | .object fields, hmem => by
      rw [placed, placedFields_eq_ofChildren, mem_ofChildren_iff] at hmem
      obtain ⟨i, ⟨key, value⟩, rest, hfield, hplace, hentry⟩ := hmem
      rw [Nat.zero_add] at hplace
      rw [hplace]
      exact .field hfield (at_of_mem_placed _ rest mention value hentry)
  | .null, hmem => nomatch hmem
  | .bool _, hmem => nomatch hmem
  | .int _, hmem => nomatch hmem
  | .float _, hmem => nomatch hmem
termination_by json => json
decreasing_by
  · exact sizeOf_item_lt (List.mem_of_getElem? hitem)
  · exact sizeOf_field_lt (List.mem_of_getElem? hfield)

theorem mem_placed_iff {location : String} {json : Json} {place : List Nat}
    {mention : Mention} :
    (place, mention) ∈ placed location json ↔ At location json place mention := by
  constructor
  · exact at_of_mem_placed location place mention json
  · intro hat
    induction hat with
    | text hstarts => simp [placed, looksLikeReference_iff.mpr hstarts]
    | @item location items i json place mention hitem hat ih =>
        rw [placed, placedItems_eq_ofChildren, mem_ofChildren_iff]
        exact ⟨i, json, place, hitem, by rw [Nat.zero_add], by rwa [Nat.zero_add]⟩
    | @field location key fields i json place mention hfield hat ih =>
        rw [placed, placedFields_eq_ofChildren, mem_ofChildren_iff]
        exact ⟨i, (key, json), place, hfield, by rw [Nat.zero_add], ih⟩

theorem pairwise_placed (location : String) :
    (json : Json) → (placed location json).Pairwise fun a b => a.1 < b.1
  | .text s => by
      unfold placed
      split <;> simp
  | .array items => by
      rw [placed, placedItems_eq_ofChildren]
      exact pairwise_ofChildren fun item hitem i => pairwise_placed _ item
  | .object fields => by
      rw [placed, placedFields_eq_ofChildren]
      exact pairwise_ofChildren fun (key, value) hfield _ => pairwise_placed _ value
  | .null => .nil
  | .bool _ => .nil
  | .int _ => .nil
  | .float _ => .nil
termination_by json => json
decreasing_by
  · exact sizeOf_item_lt hitem
  · exact sizeOf_field_lt hfield

end Mention
end GameCatalog
