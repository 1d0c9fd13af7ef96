import GameCatalog.Catalog.Key
import Mathlib.Tactic.SplitIfs

/-!
# The order of keys

Texts are ordered by the codes of their characters.  UTF-8 keeps that order: a greater
code has more bytes or greater ones, and its first byte tells how many there are.  So the
keys of an archive, which are listed in the order of their texts, come in the order of
their bytes.
-/

namespace GameCatalog
namespace Text

/-! ## The bytes of a character -/

/-- How many bytes follow the first one. -/
def trailingCount (code : Nat) : Nat :=
  if code ≤ 127 then 0 else if code ≤ 2047 then 1 else if code ≤ 65535 then 2 else 3

/-- The first byte holds the high bits of the code above this mark. -/
def leadMark : Nat → Nat
  | 0 => 0
  | 1 => 192
  | 2 => 224
  | _ => 240

/-- Every byte that follows holds six bits. -/
def weight : Nat → Nat
  | 0 => 1
  | count + 1 => weight count * 64

def lead (code : Nat) : Nat :=
  code / weight (trailingCount code) + leadMark (trailingCount code)

/-- The bytes after the first. -/
def trailing : Nat → Nat → List UInt8
  | 0, _ => []
  | count + 1, code => UInt8.ofNat (code / weight count % 64 + 128) :: trailing count code

theorem toNat_lt_of_char (c : Char) : c.toNat < 1114112 := by
  have hvalid := c.valid
  simp only [UInt32.isValidChar, Nat.isValidChar] at hvalid
  have hcode : c.toNat = c.val.toNat := rfl
  omega

theorem lead_lt {code : Nat} (hcode : code < 1114112) : lead code < 256 := by
  unfold lead trailingCount
  split_ifs <;> simp only [leadMark, weight] <;> omega

theorem utf8EncodeChar_eq_lead_cons (c : Char) :
    String.utf8EncodeChar c =
      UInt8.ofNat (lead c.toNat) :: trailing (trailingCount c.toNat) c.toNat := by
  have hcode := toNat_lt_of_char c
  have hval : c.val.toNat = c.toNat := rfl
  unfold String.utf8EncodeChar
  rw [hval]
  dsimp only
  unfold lead trailingCount
  split_ifs
  · simp [leadMark, weight, trailing]
  · have hhigh : c.toNat / 64 % 32 = c.toNat / 64 := by omega
    simp [leadMark, weight, trailing, hhigh]
  · have hhigh : c.toNat / 4096 % 16 = c.toNat / 4096 := by omega
    simp [leadMark, weight, trailing, hhigh]
  · have hhigh : c.toNat / 262144 % 8 = c.toNat / 262144 := by omega
    simp [leadMark, weight, trailing, hhigh]

/-- The mark of a longer encoding outweighs all high bits of a shorter one. -/
theorem lead_lt_of_trailingCount_ne {m n : Nat} (hless : m < n)
    (hcounts : trailingCount m ≠ trailingCount n) : lead m < lead n := by
  revert hcounts
  unfold lead trailingCount
  split_ifs <;> simp only [leadMark, weight] <;> omega

theorem trailing_append_lt {m n : Nat} (hless : m < n) (count : Nat)
    (hhigh : m / weight count = n / weight count) (xs ys : List UInt8) :
    trailing count m ++ xs < trailing count n ++ ys := by
  induction count with
  | zero =>
      rw [weight, Nat.div_one, Nat.div_one] at hhigh
      omega
  | succ count ih =>
      rw [weight, ← Nat.div_div_eq_div_mul, ← Nat.div_div_eq_div_mul] at hhigh
      have hquotients : m / weight count ≤ n / weight count :=
        Nat.div_le_div_right (Nat.le_of_lt hless)
      rw [trailing, trailing, List.cons_append, List.cons_append, List.cons_lt_cons_iff]
      -- The first byte in which the codes differ decides.
      rcases Nat.lt_or_eq_of_le hquotients with hgreater | hsame
      · left
        rw [UInt8.lt_iff_toNat_lt, UInt8.toNat_ofNat', UInt8.toNat_ofNat']
        omega
      · right
        exact ⟨by rw [hsame], ih hsame⟩

/-- The bytes of a greater character are greater, whatever follows. -/
theorem utf8EncodeChar_append_lt {c d : Char} (hless : c < d) (xs ys : List UInt8) :
    String.utf8EncodeChar c ++ xs < String.utf8EncodeChar d ++ ys := by
  have hcodes : c.toNat < d.toNat := hless
  have hc := lead_lt (toNat_lt_of_char c)
  have hd := lead_lt (toNat_lt_of_char d)
  rw [utf8EncodeChar_eq_lead_cons, utf8EncodeChar_eq_lead_cons, List.cons_append,
    List.cons_append, List.cons_lt_cons_iff, UInt8.lt_iff_toNat_lt,
    UInt8.toNat_ofNat_of_lt' hc, UInt8.toNat_ofNat_of_lt' hd]
  by_cases hcounts : trailingCount c.toNat = trailingCount d.toNat
  · have hquotients : c.toNat / weight (trailingCount d.toNat) ≤
        d.toNat / weight (trailingCount d.toNat) := Nat.div_le_div_right (Nat.le_of_lt hcodes)
    rw [lead, lead, hcounts]
    rcases Nat.lt_or_eq_of_le hquotients with hgreater | hsame
    · exact .inl (Nat.add_lt_add_right hgreater _)
    · exact .inr ⟨by rw [hsame], trailing_append_lt hcodes _ hsame xs ys⟩
  · exact .inl (lead_lt_of_trailingCount_ne hcodes hcounts)

/-! ## The bytes of a text -/

def bytes (text : String) : List UInt8 :=
  text.toUTF8.data.toList

theorem bytes_eq_flatMap (text : String) :
    bytes text = text.toList.flatMap String.utf8EncodeChar := by
  rw [bytes, String.toUTF8_eq_toByteArray, ← String.utf8Encode_toList, List.utf8Encode,
    List.data_toByteArray]

theorem flatMap_utf8EncodeChar_lt {cs ds : List Char} (hless : cs < ds) :
    cs.flatMap String.utf8EncodeChar < ds.flatMap String.utf8EncodeChar := by
  induction cs generalizing ds with
  | nil =>
      cases ds with
      | nil => exact absurd hless (List.lt_irrefl [])
      | cons d ds =>
          rw [List.flatMap_nil, List.flatMap_cons, utf8EncodeChar_eq_lead_cons]
          exact List.nil_lt_cons _ _
  | cons c cs ih =>
      cases ds with
      | nil => exact absurd hless (List.not_lt_nil _)
      | cons d ds =>
          rw [List.flatMap_cons, List.flatMap_cons]
          rcases List.cons_lt_cons_iff.mp hless with hchars | ⟨hsame, hrest⟩
          · exact utf8EncodeChar_append_lt hchars _ _
          · rw [hsame]
            exact List.append_left_lt (ih hrest)

theorem bytes_lt_of_lt {s t : String} (hless : s < t) : bytes s < bytes t := by
  rw [bytes_eq_flatMap, bytes_eq_flatMap]
  exact flatMap_utf8EncodeChar_lt (String.lt_iff.mp hless)

end Text

/-! ## Keys -/

namespace CatalogKey

/-- The domain comes first in byte order, or it is the same and the path comes first. -/
def Before (a b : CatalogKey) : Prop :=
  Text.bytes a.domain < Text.bytes b.domain ∨
    a.domain = b.domain ∧ Text.bytes a.path < Text.bytes b.path

theorem before_of_compare_lt {a b : CatalogKey} (hless : compare a b = .lt) :
    a.Before b := by
  have hlexical : compare a.domain b.domain = .lt ∨
      compare a.domain b.domain = .eq ∧ compare a.path b.path = .lt := by
    rw [compare_eq, Ordering.then_eq_lt] at hless
    exact hless
  rcases hlexical with hdomains | ⟨hsame, hpaths⟩
  · exact .inl (Text.bytes_lt_of_lt (compareOfLessAndEq_eq_lt.mp hdomains))
  · exact .inr ⟨Std.LawfulEqOrd.eq_of_compare hsame,
      Text.bytes_lt_of_lt (compareOfLessAndEq_eq_lt.mp hpaths)⟩

end CatalogKey
end GameCatalog
