import GameCatalog.Explorer.Completion
import GameCatalog.Proofs.TextTrimming

/-!
# Completing the word in front of the cursor

The completed word is the longest one that no blank breaks.  It starts one byte behind
the start of the last blank, so it can be completed if that blank takes one byte.  Behind
a wider blank that place is inside a character, and cutting the line there is a trap.
-/

namespace GameCatalog
namespace Completion

/-- The longest part at the end of a text that no blank breaks. -/
structure LastWord (before word : List Char) : Prop where
  suffix : word <:+ before
  unbroken : ∀ c ∈ word, Text.isBlank c = false
  longest : ∀ other, other <:+ before → (∀ c ∈ other, Text.isBlank c = false) →
    other.length ≤ word.length

/-- The last blank of a text is this character behind this front. -/
structure LastBlank (before front : List Char) (c : Char) : Prop where
  blank : Text.isBlank c = true
  split : ∃ word, before = front ++ c :: word ∧ ∀ d ∈ word, Text.isBlank d = false

/-- What a completion says: where the last word in front of the cursor starts, and which
keywords start with it. -/
structure Completes (keywords : List String) (before : List Char) (completion : Completion) :
    Prop where
  start_le : completion.start ≤ Text.byteLength before
  lastWord : ∃ front word, before = front ++ word ∧ LastWord before word ∧
    completion.start = Text.byteLength front ∧
    completion.words = keywords.filter fun keyword => word.isPrefixOf keyword.toList

/-! ## Cutting at a byte -/

theorem cutBehind_cons {edge : Edge} {passed left : Nat} {c : Char} (hsize : c.utf8Size ≤ left)
    (cs : List Char) :
    cutBehind edge passed left (c :: cs) =
      (cutBehind edge (passed + c.utf8Size) (left - c.utf8Size) cs).map
        fun (before, after) => (c :: before, after) := by
  have hpositive := c.utf8Size_pos
  cases left with
  | zero => omega
  | succ left => rw [cutBehind, if_pos hsize]

theorem cutBehind_inside {edge : Edge} {passed left : Nat} {c : Char} (hleft : 0 < left)
    (hsize : left < c.utf8Size) (cs : List Char) :
    cutBehind edge passed left (c :: cs) = .error (.cutInside edge (passed + left) c passed) := by
  cases left with
  | zero => omega
  | succ left => rw [cutBehind, if_neg (by omega)]

/-- Behind a text that is passed over as a whole, the cut goes on in the rest. -/
theorem cutBehind_append (edge : Edge) (passed left : Nat) (front rest : List Char) :
    cutBehind edge passed (Text.byteLength front + left) (front ++ rest) =
      (cutBehind edge (passed + Text.byteLength front) left rest).map
        fun (before, after) => (front ++ before, after) := by
  induction front generalizing passed with
  | nil =>
      rw [Text.byteLength, Nat.zero_add, Nat.add_zero, List.nil_append]
      cases cutBehind edge passed left rest <;> rfl
  | cons c front ih =>
      have hsize : c.utf8Size ≤ Text.byteLength (c :: front) + left := by
        rw [Text.byteLength]
        omega
      have hleft : Text.byteLength (c :: front) + left - c.utf8Size =
          Text.byteLength front + left := by
        rw [Text.byteLength]
        omega
      rw [List.cons_append, cutBehind_cons hsize, hleft, ih, Text.byteLength, ← Nat.add_assoc]
      cases cutBehind edge (passed + c.utf8Size + Text.byteLength front) left rest <;> rfl

theorem cutAt_byteLength (edge : Edge) (before after : List Char) :
    cutAt edge (Text.byteLength before) (before ++ after) = .ok (before, after) := by
  have hcut := cutBehind_append edge 0 0 before after
  rw [Nat.add_zero] at hcut
  simp [cutAt, hcut, cutBehind, Except.map]

/-- One byte behind a text is the end of the next character or inside it. -/
theorem cutAt_one_behind (edge : Edge) (front rest : List Char) (c : Char) :
    cutAt edge (Text.byteLength front + 1) (front ++ c :: rest) =
      if c.utf8Size = 1 then .ok (front ++ [c], rest)
      else .error (.cutInside edge (Text.byteLength front + 1) c (Text.byteLength front)) := by
  have hpositive := c.utf8Size_pos
  rw [cutAt, cutBehind_append, Nat.zero_add]
  by_cases hone : c.utf8Size = 1
  · rw [if_pos hone, cutBehind_cons (by omega), hone, Nat.sub_self, cutBehind]
    rfl
  · rw [if_neg hone, cutBehind_inside (by omega) (by omega)]
    rfl

/-! ## The last word -/

theorem lastWord_of_unbroken {before : List Char}
    (hbefore : ∀ c ∈ before, Text.isBlank c = false) : LastWord before before where
  suffix := List.suffix_refl before
  unbroken := hbefore
  longest _ hsuffix _ := hsuffix.length_le

theorem lastWord_of_blank {front word : List Char} {c : Char} (hc : Text.isBlank c = true)
    (hword : ∀ d ∈ word, Text.isBlank d = false) : LastWord (front ++ c :: word) word where
  suffix := (List.suffix_cons c word).trans (List.suffix_append front (c :: word))
  unbroken := hword
  longest other hsuffix hother := by
    by_contra hlonger
    -- A longer part at the end would take in the blank.
    have hwhole : c :: word <:+ other :=
      List.suffix_of_suffix_length_le (List.suffix_append front (c :: word)) hsuffix
        (by rw [List.length_cons]; omega)
    have hblank := hother c (hwhole.mem List.mem_cons_self)
    rw [hc] at hblank
    contradiction

theorem complete_eq (keywords : List String) (before after : List Char) :
    complete keywords (before ++ after) (Text.byteLength before) =
      (cutAt .start (wordStart before) before).map fun (_, word) =>
        ⟨wordStart before, startingWith word keywords⟩ := by
  rw [complete, cutAt_byteLength]
  cases hword : cutAt .start (wordStart before) before <;>
    simp only [bind, Except.bind, hword] <;> rfl

theorem complete_of_unbroken (keywords : List String) {before : List Char}
    (hbefore : ∀ c ∈ before, Text.isBlank c = false) (after : List Char) :
    complete keywords (before ++ after) (Text.byteLength before) =
      .ok ⟨0, startingWith before keywords⟩ := by
  have hstart : wordStart before = 0 := by
    rw [wordStart, Text.cutLast?_eq_none_iff.mpr hbefore]
  rw [complete_eq, hstart, cutAt, cutBehind]
  rfl

theorem complete_of_blank (keywords : List String) {front word : List Char} {c : Char}
    (hc : Text.isBlank c = true) (hword : ∀ d ∈ word, Text.isBlank d = false)
    (after : List Char) :
    complete keywords (front ++ c :: word ++ after) (Text.byteLength (front ++ c :: word)) =
      if c.utf8Size = 1 then
        .ok ⟨Text.byteLength (front ++ [c]), startingWith word keywords⟩
      else
        .error (.cutInside .start (Text.byteLength front + 1) c (Text.byteLength front)) := by
  have hstart : wordStart (front ++ c :: word) = Text.byteLength front + 1 := by
    rw [wordStart, Text.cutLast?_append_cons hword hc]
  rw [complete_eq, hstart, cutAt_one_behind]
  by_cases hone : c.utf8Size = 1
  · have hlength : Text.byteLength (front ++ [c]) = Text.byteLength front + 1 := by
      rw [Text.byteLength_append, Text.byteLength, hone]
      rfl
    rw [if_pos hone, if_pos hone, hlength]
    rfl
  · rw [if_neg hone, if_neg hone]
    rfl

/-- A text is one word, or its last word stands behind its last blank. -/
theorem unbroken_or_blank (before : List Char) :
    (∀ c ∈ before, Text.isBlank c = false) ∨
      ∃ front c word, before = front ++ c :: word ∧ Text.isBlank c = true ∧
        ∀ d ∈ word, Text.isBlank d = false := by
  cases hcut : Text.cutLast? Text.isBlank before with
  | none => exact .inl (Text.cutLast?_eq_none_iff.mp hcut)
  | some parts =>
      obtain ⟨hword, c, hc, hbefore⟩ := Text.exists_of_cutLast?_eq_some hcut
      exact .inr ⟨_, c, _, hbefore, hc, hword⟩

theorem not_lastBlank_of_unbroken {before front : List Char} {c : Char}
    (hbefore : ∀ c ∈ before, Text.isBlank c = false) : ¬ LastBlank before front c := by
  rintro ⟨hc, word, rfl, _⟩
  rw [hbefore c (by simp)] at hc
  contradiction

theorem LastBlank.unique {before front front' : List Char} {c c' : Char}
    (hlast : LastBlank before front c) (hother : LastBlank before front' c') :
    front = front' ∧ c = c' := by
  obtain ⟨hc, word, hbefore, hword⟩ := hlast
  obtain ⟨hc', word', hbefore', hword'⟩ := hother
  -- Both are where the text is cut at its last blank.
  have hcut : Text.cutLast? Text.isBlank before = some (front, word) := by
    rw [hbefore, Text.cutLast?_append_cons hword hc]
  rw [hbefore', Text.cutLast?_append_cons hword' hc'] at hcut
  obtain ⟨rfl, rfl⟩ := Prod.mk.inj (Option.some.inj hcut)
  rw [hbefore] at hbefore'
  exact ⟨rfl, (List.cons.inj (List.append_cancel_left hbefore')).1⟩

theorem completes_of_unbroken (keywords : List String) {before : List Char}
    (hbefore : ∀ c ∈ before, Text.isBlank c = false) :
    Completes keywords before ⟨0, startingWith before keywords⟩ where
  start_le := Nat.zero_le _
  lastWord := ⟨[], before, rfl, lastWord_of_unbroken hbefore, rfl, rfl⟩

theorem completes_of_blank (keywords : List String) {front word : List Char} {c : Char}
    (hc : Text.isBlank c = true) (hword : ∀ d ∈ word, Text.isBlank d = false) :
    Completes keywords (front ++ c :: word)
      ⟨Text.byteLength (front ++ [c]), startingWith word keywords⟩ := by
  have hsplit : front ++ c :: word = front ++ [c] ++ word := by simp
  have hstart : Text.byteLength (front ++ [c]) ≤ Text.byteLength (front ++ c :: word) := by
    rw [hsplit, Text.byteLength_append (front ++ [c])]
    exact Nat.le_add_right _ _
  exact ⟨hstart, front ++ [c], word, hsplit, lastWord_of_blank hc hword, rfl, rfl⟩

/-- At every position of a line there is a completion unless the last blank in front of it
takes more than one byte, in which case the line is cut inside of that blank.  A completion
starts where the last word does, and it offers the keywords that start with that word, in
their order. -/
theorem complete_unless_wide_blank (keywords : List String) (before after : List Char) :
    (∀ trap, complete keywords (before ++ after) (Text.byteLength before) = .error trap ↔
      ∃ front c, LastBlank before front c ∧ 1 < c.utf8Size ∧
        trap = .cutInside .start (Text.byteLength front + 1) c (Text.byteLength front)) ∧
    ∀ completion,
      complete keywords (before ++ after) (Text.byteLength before) = .ok completion →
        Completes keywords before completion := by
  rcases unbroken_or_blank before with hbefore | ⟨front, c, word, rfl, hc, hword⟩
  · rw [complete_of_unbroken keywords hbefore]
    refine ⟨fun trap => iff_of_false (by simp) ?_, fun completion hcompletion => ?_⟩
    · rintro ⟨front, c, hlast, _⟩
      exact not_lastBlank_of_unbroken hbefore hlast
    · obtain rfl := Except.ok.inj hcompletion
      exact completes_of_unbroken keywords hbefore
  have hlast : LastBlank (front ++ c :: word) front c := ⟨hc, word, rfl, hword⟩
  have hpositive := c.utf8Size_pos
  rw [complete_of_blank keywords hc hword]
  by_cases hone : c.utf8Size = 1
  · rw [if_pos hone]
    refine ⟨fun trap => iff_of_false (by simp) ?_, fun completion hcompletion => ?_⟩
    · rintro ⟨front', c', hother, hwide, _⟩
      obtain ⟨-, rfl⟩ := hlast.unique hother
      omega
    · obtain rfl := Except.ok.inj hcompletion
      exact completes_of_blank keywords hc hword
  · rw [if_neg hone]
    refine ⟨fun trap => ⟨fun htrap => ?_, ?_⟩, fun completion hcompletion => by contradiction⟩
    · exact ⟨front, c, hlast, by omega, (Except.error.inj htrap).symm⟩
    · rintro ⟨front', c', hother, _, rfl⟩
      obtain ⟨rfl, rfl⟩ := hlast.unique hother
      rfl

/-- Behind a blank of two bytes there is no completion. -/
theorem not_completes_everywhere :
    ¬ ∀ (keywords : List String) (before after : List Char), ∃ completion,
      complete keywords (before ++ after) (Text.byteLength before) = .ok completion ∧
        Completes keywords before completion := by
  intro hclaim
  obtain ⟨completion, hcompletion, _⟩ := hclaim commands ['\u00a0', ':', 'd'] []
  have htrap : complete commands ['\u00a0', ':', 'd'] 4 =
      .error (.cutInside .start 1 '\u00a0' 0) := rfl
  exact absurd (htrap.symm.trans hcompletion) (by simp)

end Completion
end GameCatalog
