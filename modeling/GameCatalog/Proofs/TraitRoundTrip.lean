import GameCatalog.Proofs.TableFilling
import Mathlib

/-!
# Traits through JSON

JSON keeps the data of a trait and not its declared kind.  It has no infinities and no
not-a-number, and an empty list reads as one of texts.  A trait comes back as it was
exactly when none of this takes anything from it, and a table exactly when all its traits
do.
-/

namespace GameCatalog

/-! ## Finite numbers -/

namespace Number

open Float.Model (UnpackedFloat)
open Float.Model.UnpackedFloat (unpack unpackExponent)

theorem toNat_unpackExponent (word : UInt64) :
    (@unpackExponent .binary64 word.toBitVec).toNat = word.toNat / twoTo 52 % 2048 := by
  simp [unpackExponent, twoTo, Nat.shiftRight_eq_div_pow]

theorem unpack_finite_iff (word : UInt64) :
    (unpack .binary64 word.toBitVec).isNaN = false ∧
        (unpack .binary64 word.toBitVec).isInf = false ↔
      word.toNat / twoTo 52 % 2048 ≠ 2047 := by
  have hfield : @unpackExponent .binary64 word.toBitVec = -1#11 ↔
      word.toNat / twoTo 52 % 2048 = 2047 := by
    rw [← toNat_unpackExponent, ← BitVec.toNat_inj]
    rfl
  rw [ne_eq, ← hfield]
  unfold unpack
  by_cases hones : @unpackExponent .binary64 word.toBitVec = -1#11
  · simp only [hones, if_true, not_true_eq_false, iff_false]
    split <;> simp [UnpackedFloat.isNaN, UnpackedFloat.isInf]
  · simp only [hones, if_false, not_false_eq_true, iff_true]
    split
    · split <;> exact ⟨rfl, rfl⟩
    · exact ⟨rfl, rfl⟩

theorem isFinite_iff_field (x : Float) :
    isFinite x = true ↔ x.toBits.toNat / twoTo 52 % 2048 ≠ 2047 := by
  unfold isFinite read readBits
  by_cases hones : x.toBits.toNat / twoTo 52 % 2048 = 2047
  · by_cases hfraction : x.toBits.toNat % twoTo 52 = 0
    · simp [hones, hfraction]
    · simp [hones, hfraction]
  · by_cases hzero : x.toBits.toNat / twoTo 52 % 2048 = 0
    · simp [hzero]
    · simp [hones, hzero]

theorem isFinite_iff (x : Float) :
    isFinite x = true ↔ x.isNaN = false ∧ x.isInf = false :=
  (isFinite_iff_field x).trans (unpack_finite_iff x.toBits).symm

end Number

/-! ## The data of a trait -/

namespace TraitData

/-- The numbers in the data. -/
def floats : TraitData → List Float
  | number x => [x]
  | numbers items => items
  | _ => []

theorem ofFloat_of_finite {x : Float} (hfinite : x.isNaN = false ∧ x.isInf = false) :
    Json.ofFloat x = .float x := by
  unfold Json.ofFloat
  rw [if_pos ((Number.isFinite_iff x).mpr hfinite)]

theorem ofFloat_of_not_finite {x : Float} (hfinite : ¬ (x.isNaN = false ∧ x.isInf = false)) :
    Json.ofFloat x = .null := by
  unfold Json.ofFloat
  rw [if_neg (mt (Number.isFinite_iff x).mp hfinite)]

theorem ofJson_number_iff (x : Float) :
    ofJson (toJson (number x)) = number x ↔ x.isNaN = false ∧ x.isInf = false := by
  by_cases hfinite : x.isNaN = false ∧ x.isInf = false
  · have hkept : ofJson (toJson (number x)) = number x := by
      simp only [toJson, ofFloat_of_finite hfinite, ofJson]
    exact iff_of_true hkept hfinite
  · have hlost : ofJson (toJson (number x)) ≠ number x := by
      simp [toJson, ofFloat_of_not_finite hfinite, ofJson]
    exact iff_of_false hlost hfinite

theorem ofJson_texts (items : List String) : ofJson (toJson (texts items)) = texts items := by
  cases items with
  | nil => rfl
  | cons item rest =>
      have hkept : (item :: rest).map (itemText ∘ Json.text) = item :: rest := by
        simp [Function.comp_def, itemText]
      simp only [toJson, ofJson, List.map_map, hkept]
      simp [Json.isNumber]

/-- All items of a list are numbers in JSON just when all are finite. -/
theorem all_isNumber_iff (items : List Float) :
    (items.map Json.ofFloat).all Json.isNumber = true ↔
      ∀ x ∈ items, x.isNaN = false ∧ x.isInf = false := by
  rw [List.all_map, List.all_eq_true]
  apply forall₂_congr
  intro x _
  by_cases hfinite : x.isNaN = false ∧ x.isInf = false
  · have hnumber : (Json.isNumber ∘ Json.ofFloat) x = true := by
      rw [Function.comp_apply, ofFloat_of_finite hfinite]
      rfl
    exact iff_of_true hnumber hfinite
  · have hnull : ¬ (Json.isNumber ∘ Json.ofFloat) x = true := by
      rw [Function.comp_apply, ofFloat_of_not_finite hfinite]
      decide
    exact iff_of_false hnull hfinite

theorem filterMap_number?_ofFloat {items : List Float}
    (hfinite : ∀ x ∈ items, x.isNaN = false ∧ x.isInf = false) :
    (items.map Json.ofFloat).filterMap Json.number? = items := by
  induction items with
  | nil => rfl
  | cons x rest ih =>
      have hread : Json.number? (Json.ofFloat x) = some x := by
        rw [ofFloat_of_finite (hfinite x List.mem_cons_self)]
        rfl
      have hrest := ih fun y hy => hfinite y (List.mem_cons_of_mem x hy)
      rw [List.map_cons, List.filterMap_cons_some hread, hrest]

theorem ofJson_numbers_iff (items : List Float) :
    ofJson (toJson (numbers items)) = numbers items ↔
      (∀ x ∈ items, x.isNaN = false ∧ x.isInf = false) ∧ items ≠ [] := by
  rw [← all_isNumber_iff]
  unfold toJson ofJson
  by_cases hall : (items.map Json.ofFloat).all Json.isNumber = true
  · cases items with
    | nil => simp
    | cons x rest =>
        have hkept := filterMap_number?_ofFloat ((all_isNumber_iff (x :: rest)).mp hall)
        simp only [hall, hkept]
        simp
  · simp [hall]

/-- Data comes back from JSON just when its numbers are finite and it is no empty list of
numbers. -/
theorem ofJson_toJson_iff (data : TraitData) :
    ofJson data.toJson = data ↔
      (∀ x ∈ data.floats, x.isNaN = false ∧ x.isInf = false) ∧ data ≠ numbers [] := by
  cases data with
  | null => simp [toJson, ofJson, floats]
  | number x => simp [ofJson_number_iff, floats]
  | text s => simp [toJson, ofJson, floats]
  | bool b => simp [toJson, ofJson, floats]
  | texts items => simp [ofJson_texts, floats]
  | numbers items => simp [ofJson_numbers_iff, floats]

/-- The data of a trait is never an object, so it cannot be taken for one that declares
its kind. -/
theorem get?_toJson (data : TraitData) (name : String) : data.toJson.get? name = none := by
  cases data with
  | number x =>
      by_cases hfinite : x.isNaN = false ∧ x.isInf = false
      · rw [toJson, ofFloat_of_finite hfinite]
        rfl
      · rw [toJson, ofFloat_of_not_finite hfinite]
        rfl
  | _ => rfl

end TraitData

/-! ## Traits and tables of traits -/

namespace Trait

/-- JSON takes nothing from the trait: the declared kind is the data's own, the numbers are
finite, and a list of numbers has one. -/
structure Lossless (t : Trait) : Prop where
  kind : t.kind = t.data.naturalKind
  finite : ∀ x ∈ t.data.floats, x.isNaN = false ∧ x.isInf = false
  listed : t.data ≠ .numbers []

theorem ofJson_toJson (t : Trait) : ofJson t.toJson = natural (.ofJson t.data.toJson) := by
  unfold ofJson toJson
  rw [TraitData.get?_toJson]

theorem ofJson_toJson_iff (t : Trait) : ofJson t.toJson = t ↔ t.Lossless := by
  rw [ofJson_toJson]
  constructor
  · intro hback
    have hdata : TraitData.ofJson t.data.toJson = t.data := congrArg Trait.data hback
    have hkind := congrArg Trait.kind hback
    obtain ⟨hfinite, hlisted⟩ := t.data.ofJson_toJson_iff.mp hdata
    rw [hdata] at hkind
    exact ⟨hkind.symm, hfinite, hlisted⟩
  · intro hlossless
    have hdata := t.data.ofJson_toJson_iff.mpr ⟨hlossless.finite, hlossless.listed⟩
    rw [hdata, natural, ← hlossless.kind]

end Trait

namespace TraitTable

/-- Each trait of a table goes through JSON by itself. -/
theorem getElem?_ofJson_toJson (table : TraitTable) (name : String) :
    (ofJson table.toJson)[name]? = table[name]?.map fun t => .ofJson t.toJson := by
  have hfilled := getElem?_foldl_toList (fun t : Trait => Trait.ofJson t.toJson) table ∅ name
  rw [Std.ExtTreeMap.getElem?_empty, Option.or_none] at hfilled
  rw [← hfilled]
  unfold toJson ofJson
  dsimp only
  rw [List.foldl_map]

/-- A trait comes back from JSON as it was just when JSON takes nothing from it, and a
table just when JSON takes nothing from any of its traits. -/
theorem survives_json_iff :
    (∀ t : Trait, Trait.ofJson t.toJson = t ↔ t.Lossless) ∧
      ∀ table : TraitTable, ofJson table.toJson = table ↔
        ∀ (name : String) (t : Trait), table[name]? = some t → t.Lossless := by
  refine ⟨Trait.ofJson_toJson_iff, fun table => ?_⟩
  constructor
  · intro hback name t hheld
    have hsame := table.getElem?_ofJson_toJson name
    rw [hback, hheld, Option.map_some, Option.some.injEq] at hsame
    exact t.ofJson_toJson_iff.mp hsame.symm
  · intro hlossless
    apply Std.ExtTreeMap.ext_getElem?
    intro name
    rw [getElem?_ofJson_toJson]
    cases hheld : table[name]? with
    | none => rfl
    | some t => rw [Option.map_some, t.ofJson_toJson_iff.mpr (hlossless name t hheld)]

end TraitTable
end GameCatalog
