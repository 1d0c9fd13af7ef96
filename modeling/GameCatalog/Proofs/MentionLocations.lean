import GameCatalog.Proofs.MentionPlaces
import GameCatalog.Proofs.TextTrimming
import Mathlib.Data.List.Nodup

/-!
# Locations of mentions

A location writes the way to a mention without marking where a key ends, so a key that
holds a point or a bracket can read like a longer way.  Two mentions of a document have the
same location exactly when they part at two fields of one object and the key of one is the
key of the other and the beginning of the way behind that.  It takes a key that goes on from
another key of its object with a point or a bracket.
-/

namespace GameCatalog

namespace Json

/-- The first value is a part of the second, or that itself. -/
inductive Inside : Json → Json → Prop where
  | refl (json : Json) : Inside json json
  | item {json inner : Json} {items : List Json} {i : Nat} (hitem : items[i]? = some json)
      (hinside : Inside inner json) : Inside inner (.array items)
  | field {json inner : Json} {fields : List (String × Json)} {key : String} {i : Nat}
      (hfield : fields[i]? = some (key, json)) (hinside : Inside inner json) :
      Inside inner (.object fields)

end Json

namespace Mention

/-! ## The way from a value -/

theorem itemLocation_eq_append (location : String) (i : Nat) :
    itemLocation location i = location ++ itemLocation "" i := by
  simp [itemLocation, String.append_assoc]

theorem fieldLocation_eq_append (location key : String) :
    fieldLocation location key = location ++ fieldLocation "" key := by
  simp [fieldLocation, String.append_assoc]

/-- A mention's location is that of the value around it and the way from there. -/
theorem At.relocate {location : String} {json : Json} {place : List Nat} {mention : Mention}
    (hat : At location json place mention) (other : String) :
    ∃ way, mention.location = location ++ way ∧
      At other json place ⟨mention.text, other ++ way⟩ := by
  induction hat generalizing other with
  | @text location s hstarts =>
      refine ⟨"", by simp, ?_⟩
      rw [String.append_empty]
      exact .text hstarts
  | @item location items i json place mention hitem hat ih =>
      obtain ⟨way, hway, hmoved⟩ := ih (itemLocation other i)
      refine ⟨itemLocation "" i ++ way, ?_, ?_⟩
      · rw [hway, itemLocation_eq_append, String.append_assoc]
      · rw [← String.append_assoc, ← itemLocation_eq_append]
        exact .item hitem hmoved
  | @field location key fields i json place mention hfield hat ih =>
      obtain ⟨way, hway, hmoved⟩ := ih (fieldLocation other key)
      refine ⟨fieldLocation "" key ++ way, ?_, ?_⟩
      · rw [hway, fieldLocation_eq_append, String.append_assoc]
      · rw [← String.append_assoc, ← fieldLocation_eq_append]
        exact .field hfield hmoved

/-- A way on from a value starts with a bracket or a point, if the mention is not the value
itself. -/
theorem At.way_cases {json : Json} {place : List Nat} {mention : Mention}
    (hat : At "" json place mention) :
    mention.location = "" ∨ (∃ rest, mention.location = "[" ++ rest) ∨
      ∃ rest, mention.location = "." ++ rest := by
  cases hat with
  | text hstarts => exact .inl rfl
  | @item _ items i json place _ hitem hat =>
      obtain ⟨way, hway, _⟩ := hat.relocate ""
      refine .inr (.inl ⟨Number.intText i ++ "]" ++ way, ?_⟩)
      rw [hway, itemLocation]
      simp [String.append_assoc]
  | @field _ key fields i json place _ hfield hat =>
      obtain ⟨way, hway, _⟩ := hat.relocate ""
      refine .inr (.inr ⟨key ++ way, ?_⟩)
      rw [hway, fieldLocation]
      simp [String.append_assoc]

theorem At.unique {location : String} {json : Json} {place : List Nat} {m n : Mention}
    (hm : At location json place m) (hn : At location json place n) : m = n := by
  induction hm with
  | text hstarts => cases hn with
      | text => rfl
  | item hitem hat ih => cases hn with
      | item hitem' hat' =>
          rw [hitem] at hitem'
          obtain rfl := Option.some.inj hitem'
          exact ih hat'
  | field hfield hat ih => cases hn with
      | field hfield' hat' =>
          rw [hfield] at hfield'
          obtain ⟨rfl, rfl⟩ := Prod.mk.inj (Option.some.inj hfield')
          exact ih hat'

/-- What lies inside a value lies in it at one place and one location. -/
theorem exists_stem {inner json : Json} (hinside : Json.Inside inner json)
    (location : String) :
    ∃ (stem : List Nat) (within : String), ∀ (place : List Nat) (mention : Mention),
      At within inner place mention → At location json (stem ++ place) mention := by
  induction hinside generalizing location with
  | refl json => exact ⟨[], location, fun place mention hat => hat⟩
  | @item json inner items i hitem hinside ih =>
      obtain ⟨stem, within, hlift⟩ := ih (itemLocation location i)
      exact ⟨i :: stem, within, fun place mention hat => .item hitem (hlift place mention hat)⟩
  | @field json inner fields key i hfield hinside ih =>
      obtain ⟨stem, within, hlift⟩ := ih (fieldLocation location key)
      exact ⟨i :: stem, within, fun place mention hat => .field hfield (hlift place mention hat)⟩

/-! ## Ways that part -/

theorem not_mem_decimalDigits (n : Nat) : ']' ∉ Number.decimalDigits n := by
  intro hbracket
  have hdigit : ']'.isDigit = true :=
    Nat.isDigit_of_mem_toDigits (by decide) (by decide) hbracket
  exact absurd hdigit (by decide)

theorem toList_itemLocation_append (i : Nat) (way : String) :
    (itemLocation "" i ++ way).toList = '[' :: (Number.decimalDigits i ++ ']' :: way.toList) := by
  have htext : Number.intText i = String.ofList (Number.decimalDigits i) := by
    simp [Number.intText, Number.signText]
  simp [itemLocation, htext]

/-- The index of an item can be read off its location, whatever follows. -/
theorem index_eq_of_itemLocation {location way way' : String} {i j : Nat}
    (hsame : itemLocation location i ++ way = itemLocation location j ++ way') : i = j := by
  rw [itemLocation_eq_append location i, itemLocation_eq_append location j,
    String.append_assoc, String.append_assoc, String.append_right_inj, ← String.toList_inj,
    toList_itemLocation_append, toList_itemLocation_append, List.cons.injEq] at hsame
  have hcut := congrArg (Text.cutFirst? (· == ']')) hsame.2
  have hplain (k : Nat) := Text.beq_eq_false_of_not_mem (not_mem_decimalDigits k)
  rw [Text.cutFirst?_append_cons (hplain i) (by rfl),
    Text.cutFirst?_append_cons (hplain j) (by rfl)] at hcut
  have hdigits := congrArg Prod.fst (Option.some.inj hcut)
  rw [← Nat.ofDigitChars_ten_toDigits (n := i), ← Nat.ofDigitChars_ten_toDigits (n := j)]
  exact congrArg (Nat.ofDigitChars 10 · 0) hdigits

/-- The way to a mention in one field begins with what the key of another field has behind
the key of the first, and the mention that the rest of the way leads to from there exists
too. -/
def Imitates (fields : List (String × Json)) : Prop :=
  ∃ (i j : Nat) (key extra : String) (a b : Json) (p q : List Nat) (m n : Mention),
    i ≠ j ∧ fields[i]? = some (key, a) ∧ fields[j]? = some (key ++ extra, b) ∧
      At "" a p m ∧ At "" b q n ∧ m.location = extra ++ n.location

theorem exists_extra_of_append_eq {key way key' way' : String}
    (hsame : key ++ way = key' ++ way') :
    ∃ extra : String, key' = key ++ extra ∧ way = extra ++ way' ∨
      key = key' ++ extra ∧ way' = extra ++ way := by
  have hlists : key.toList ++ way.toList = key'.toList ++ way'.toList := by
    simpa using congrArg String.toList hsame
  rcases List.append_eq_append_iff.mp hlists with ⟨extra, hkey, hway⟩ | ⟨extra, hkey, hway⟩
  · refine ⟨String.ofList extra, .inl ⟨?_, ?_⟩⟩
    · simpa [← String.toList_inj] using hkey
    · simpa [← String.toList_inj] using hway
  · refine ⟨String.ofList extra, .inr ⟨?_, ?_⟩⟩
    · simpa [← String.toList_inj] using hkey
    · simpa [← String.toList_inj] using hway

theorem imitates_of_location_eq {fields : List (String × Json)} {location key key' : String}
    {i j : Nat} {a b : Json} {p q : List Nat} {m n : Mention} (hne : i ≠ j)
    (ha : fields[i]? = some (key, a)) (hb : fields[j]? = some (key', b))
    (hm : At (fieldLocation location key) a p m) (hn : At (fieldLocation location key') b q n)
    (hsame : m.location = n.location) : Imitates fields := by
  obtain ⟨way, hway, hm⟩ := hm.relocate ""
  obtain ⟨way', hway', hn⟩ := hn.relocate ""
  rw [String.empty_append] at hm hn
  have hkeys : key ++ way = key' ++ way' := by
    rw [hway, hway', fieldLocation, fieldLocation] at hsame
    simpa [String.append_assoc] using hsame
  obtain ⟨extra, ⟨hlonger, hrest⟩ | ⟨hlonger, hrest⟩⟩ := exists_extra_of_append_eq hkeys
  · rw [hlonger] at hb
    exact ⟨i, j, key, extra, a, b, p, q, _, _, hne, ha, hb, hm, hn, hrest⟩
  · rw [hlonger] at ha
    exact ⟨j, i, key', extra, b, a, q, p, _, _, hne.symm, hb, ha, hn, hm, hrest⟩

/-- Mentions at different places have different locations unless the fields of an object
on the way imitate each other. -/
theorem exists_imitates_of_location_eq {location : String} {json : Json} {p q : List Nat}
    {m n : Mention} (hm : At location json p m) (hn : At location json q n) (hne : p ≠ q)
    (hsame : m.location = n.location) :
    ∃ fields, Json.Inside (.object fields) json ∧ Imitates fields := by
  induction hm generalizing q n with
  | text hstarts =>
      cases hn with
      | text => exact absurd rfl hne
  | @item location items i json place m hitem hm ih =>
      cases hn with
      | @item _ _ j json' place' _ hitem' hn =>
          have hindex : i = j := by
            obtain ⟨way, hway, _⟩ := hm.relocate ""
            obtain ⟨way', hway', _⟩ := hn.relocate ""
            rw [hway, hway'] at hsame
            exact index_eq_of_itemLocation hsame
          subst hindex
          rw [hitem] at hitem'
          obtain rfl := Option.some.inj hitem'
          have hplaces : place ≠ place' := fun hplace => hne (by rw [hplace])
          obtain ⟨fields, hinside, himitates⟩ := ih hn hplaces hsame
          exact ⟨fields, .item hitem hinside, himitates⟩
  | @field location key fields i json place m hfield hm ih =>
      cases hn with
      | @field _ key' _ j json' place' _ hfield' hn =>
          by_cases hindex : i = j
          · subst hindex
            rw [hfield] at hfield'
            obtain ⟨rfl, rfl⟩ := Prod.mk.inj (Option.some.inj hfield')
            have hplaces : place ≠ place' := fun hplace => hne (by rw [hplace])
            obtain ⟨inner, hinside, himitates⟩ := ih hn hplaces hsame
            exact ⟨inner, .field hfield hinside, himitates⟩
          · exact ⟨fields, .refl _, imitates_of_location_eq hindex hfield hfield' hm hn hsame⟩

/-- Where fields imitate each other, two mentions at different places have one location. -/
theorem Imitates.exists_location_eq {fields : List (String × Json)}
    (himitates : Imitates fields) (location : String) :
    ∃ p q m n, At location (.object fields) p m ∧ At location (.object fields) q n ∧ p ≠ q ∧
      m.location = n.location := by
  obtain ⟨i, j, key, extra, a, b, p, q, m, n, hne, ha, hb, hm, hn, hway⟩ := himitates
  obtain ⟨way, hwaym, hm⟩ := hm.relocate (fieldLocation location key)
  obtain ⟨way', hwayn, hn⟩ := hn.relocate (fieldLocation location (key ++ extra))
  refine ⟨i :: p, j :: q, _, _, .field ha hm, .field hb hn, by simp [hne], ?_⟩
  rw [String.empty_append] at hwaym hwayn
  rw [hwaym, hwayn] at hway
  simp [hway, fieldLocation, String.append_assoc]

/-! ## Locations of a document -/

/-- Two texts have the same location only if they are one text. -/
theorem nodup_locations_iff_places (document : Json) :
    ((all document).map location).Nodup ↔
      ∀ p m q n, At "$" document p m → At "$" document q n →
        m.location = n.location → p = q := by
  have hplaced : (all document).map location =
      (placed "$" document).map fun entry => entry.2.location := by
    rw [all, ← map_snd_placed, List.map_map]
    rfl
  have hnodup : (placed "$" document).Nodup :=
    (pairwise_placed "$" document).imp fun hless hsame => by
      rw [hsame] at hless
      exact List.lt_irrefl _ hless
  rw [hplaced, List.nodup_map_iff_inj_on hnodup]
  constructor
  · intro hinjective p m q n hm hn hsame
    exact congrArg Prod.fst
      (hinjective (p, m) (mem_placed_iff.mpr hm) (q, n) (mem_placed_iff.mpr hn) hsame)
  · rintro hplaces ⟨p, m⟩ hm ⟨q, n⟩ hn hsame
    rw [mem_placed_iff] at hm hn
    obtain rfl := hplaces p m q n hm hn hsame
    rw [hm.unique hn]

/-- One key is the other, or goes on from it with a point or a bracket. -/
def GoesOn (key other : String) : Prop :=
  other = key ∨ ∃ rest : String, other = key ++ "." ++ rest ∨ other = key ++ "[" ++ rest

/-- No key goes on from the key of another field. -/
def Apart (fields : List (String × Json)) : Prop :=
  fields.Pairwise fun a b => ¬ GoesOn a.1 b.1 ∧ ¬ GoesOn b.1 a.1

theorem Apart.not_goesOn {fields : List (String × Json)} (hapart : Apart fields) {i j : Nat}
    {a b : String × Json} (hne : i ≠ j) (ha : fields[i]? = some a) (hb : fields[j]? = some b) :
    ¬ GoesOn a.1 b.1 := by
  obtain ⟨hi, rfl⟩ := List.getElem?_eq_some_iff.mp ha
  obtain ⟨hj, rfl⟩ := List.getElem?_eq_some_iff.mp hb
  rw [Apart, List.pairwise_iff_getElem] at hapart
  rcases Nat.lt_or_gt_of_ne hne with hless | hgreater
  · exact (hapart i j hi hj hless).1
  · exact (hapart j i hj hi hgreater).2

/-- What begins a text begins with its first character. -/
theorem exists_rest_of_append_eq {extra way rest : String} {c : Char} (hextra : extra ≠ "")
    (hsame : extra ++ way = String.singleton c ++ rest) :
    ∃ others : String, extra = String.singleton c ++ others := by
  obtain ⟨d, others, hcons⟩ := Text.exists_toList_eq_cons hextra
  have hlists := congrArg String.toList hsame
  rw [String.toList_append, String.toList_append, hcons, String.toList_singleton,
    List.cons_append, List.singleton_append, List.cons.injEq] at hlists
  refine ⟨String.ofList others, ?_⟩
  rw [← String.toList_inj, hcons, hlists.1]
  simp

theorem Apart.not_imitates {fields : List (String × Json)} (hapart : Apart fields) :
    ¬ Imitates fields := by
  rintro ⟨i, j, key, extra, a, b, p, q, m, n, hne, ha, hb, hm, hn, hway⟩
  apply hapart.not_goesOn hne ha hb
  by_cases hextra : extra = ""
  · exact .inl (by simp [hextra])
  · refine .inr ?_
    rcases hm.way_cases with hnone | ⟨rest, hbracket⟩ | ⟨rest, hpoint⟩
    · rw [hnone] at hway
      exact absurd (String.append_eq_empty_iff.mp hway.symm).1 hextra
    · obtain ⟨others, rfl⟩ := exists_rest_of_append_eq (c := '[') hextra
        (hway.symm.trans hbracket)
      exact ⟨others, .inr (String.append_assoc ..).symm⟩
    · obtain ⟨others, rfl⟩ := exists_rest_of_append_eq (c := '.') hextra
        (hway.symm.trans hpoint)
      exact ⟨others, .inl (String.append_assoc ..).symm⟩

/-- The locations of a document's mentions are distinct just when in no object of it two
fields imitate each other, and so they are where no key goes on from another key of its
object with a point or a bracket. -/
theorem nodup_locations_iff (document : Json) :
    (((all document).map location).Nodup ↔
        ∀ fields, Json.Inside (.object fields) document → ¬ Imitates fields) ∧
      ((∀ fields, Json.Inside (.object fields) document → Apart fields) →
        ((all document).map location).Nodup) := by
  have hiff : ((all document).map location).Nodup ↔
      ∀ fields, Json.Inside (.object fields) document → ¬ Imitates fields := by
    rw [nodup_locations_iff_places]
    constructor
    · intro hplaces fields hinside himitates
      obtain ⟨stem, within, hlift⟩ := exists_stem hinside "$"
      obtain ⟨p, q, m, n, hm, hn, hne, hsame⟩ := himitates.exists_location_eq within
      have hstems := hplaces _ _ _ _ (hlift p m hm) (hlift q n hn) hsame
      exact hne (List.append_cancel_left hstems)
    · intro hapart p m q n hm hn hsame
      by_contra hne
      obtain ⟨fields, hinside, himitates⟩ := exists_imitates_of_location_eq hm hn hne hsame
      exact hapart fields hinside himitates
  exact ⟨hiff, fun hapart =>
    hiff.mpr fun fields hinside => (hapart fields hinside).not_imitates⟩

/-- The field `a.b` reads like the field `b` of the field `a`. -/
theorem not_locations_distinct :
    ¬ ∀ document : Json, ((all document).map location).Nodup := by
  intro hclaim
  have htwins := hclaim (.object [("a.b", .text "@x"), ("a", .object [("b", .text "@y")])])
  exact absurd htwins (by decide +kernel)

end Mention
end GameCatalog
