import GameCatalog.Proofs.TextTrimming
import Mathlib.Data.List.Chain

/-!
# The words of a text

A text is a row of words with blanks between them and perhaps around them, in one way
only.  Joining words by single blanks gives a text that has these words, no blank at an
end and no blank next to another.
-/

namespace GameCatalog
namespace Text

/-- A word has characters, none of them blank. -/
structure Unbroken (word : List Char) : Prop where
  ne_nil : word ≠ []
  chars : ∀ c ∈ word, isBlank c = false

/-- The text is these words, with blanks around them and between any two. -/
inductive Spaced : List Char → List (List Char) → Prop where
  | gap {gap : List Char} (hgap : ∀ c ∈ gap, isBlank c = true) : Spaced gap []
  | word {gap word rest : List Char} {words : List (List Char)}
      (hgap : ∀ c ∈ gap, isBlank c = true) (hword : Unbroken word)
      (hends : ∀ c ∈ rest.head?, isBlank c = true) (hrest : Spaced rest words) :
      Spaced (gap ++ (word ++ rest)) (word :: words)

/-! ## A text has its words -/

theorem words_cons_blank {c : Char} (hc : isBlank c = true) (cs : List Char) :
    words (c :: cs) = words cs := by
  simp [words, pieces, hc]

theorem words_gap_append {gap : List Char} (hgap : ∀ c ∈ gap, isBlank c = true)
    (cs : List Char) : words (gap ++ cs) = words cs := by
  induction gap with
  | nil => rfl
  | cons c gap ih =>
      obtain ⟨hc, hgap⟩ := List.forall_mem_cons.mp hgap
      rw [List.cons_append, words_cons_blank hc, ih hgap]

/-- Where a text is cut at a blank, its words are those of both sides. -/
theorem words_append_blank {c : Char} (hc : isBlank c = true) (xs ys : List Char) :
    words (xs ++ c :: ys) = words xs ++ words ys := by
  simp only [words, pieces_eq_splitOnP]
  rw [List.splitOnP_append_cons xs ys hc, List.filter_append]

theorem words_of_unbroken {word : List Char} (hword : Unbroken word) : words word = [word] := by
  have hne := hword.ne_nil
  rw [words, pieces_eq_splitOnP, List.splitOnP_eq_singleton hword.chars]
  simp [hne]

theorem words_of_spaced {cs : List Char} {ws : List (List Char)} (hspaced : Spaced cs ws) :
    words cs = ws := by
  induction hspaced with
  | gap hgap => simpa [words, pieces] using words_gap_append hgap []
  | @word gap word rest ws hgap hword hends hrest ih =>
      rw [words_gap_append hgap]
      cases rest with
      | nil =>
          have hnone : words [] = [] := rfl
          rw [List.append_nil, words_of_unbroken hword, ← ih, hnone]
      | cons c rest =>
          have hc : isBlank c = true := hends c rfl
          rw [words_append_blank hc, words_of_unbroken hword, ← ih, words_cons_blank hc]
          rfl

theorem exists_spaced (cs : List Char) : ∃ ws, Spaced cs ws := by
  induction hlength : cs.length using Nat.strong_induction_on generalizing cs with
  | _ length ih =>
      have hgap : ∀ c ∈ cs.takeWhile isBlank, isBlank c = true :=
        fun c hc => List.mem_takeWhile_imp hc
      rw [← List.takeWhile_append_dropWhile (p := isBlank) (l := cs)]
      cases hrest : cs.dropWhile isBlank with
      | nil =>
          rw [List.append_nil]
          exact ⟨[], .gap hgap⟩
      | cons c rest =>
          have hc : isBlank c = false := head?_dropWhile cs c (by rw [hrest]; rfl)
          have hshorter : (rest.dropWhile fun d => !isBlank d).length < length := by
            have hdrop := List.length_dropWhile_le isBlank cs
            have htail := List.length_dropWhile_le (fun d => !isBlank d) rest
            rw [hrest, List.length_cons] at hdrop
            omega
          obtain ⟨ws, hws⟩ := ih _ hshorter _ rfl
          have hends : ∀ d ∈ (rest.dropWhile fun d => !isBlank d).head?, isBlank d = true := by
            intro d hd
            simpa using head?_dropWhile rest d hd
          have hword : Unbroken (c :: rest.takeWhile fun d => !isBlank d) := by
            refine ⟨by simp, List.forall_mem_cons.mpr ⟨hc, fun d hd => ?_⟩⟩
            simpa using List.mem_takeWhile_imp hd
          have hsplit : c :: rest = (c :: rest.takeWhile fun d => !isBlank d) ++
              rest.dropWhile fun d => !isBlank d := by
            rw [List.cons_append, List.takeWhile_append_dropWhile]
          rw [hsplit]
          exact ⟨_, .word hgap hword hends hws⟩

/-- The words of a text are the one row of words that it consists of. -/
theorem spaced_iff {cs : List Char} {ws : List (List Char)} : Spaced cs ws ↔ words cs = ws := by
  constructor
  · exact words_of_spaced
  · rintro rfl
    obtain ⟨ws, hspaced⟩ := exists_spaced cs
    rw [words_of_spaced hspaced]
    exact hspaced

theorem Spaced.unbroken {cs : List Char} {ws : List (List Char)} (hspaced : Spaced cs ws) :
    ∀ word ∈ ws, Unbroken word := by
  induction hspaced with
  | gap => simp
  | word hgap hword hends hrest ih => exact List.forall_mem_cons.mpr ⟨hword, ih⟩

theorem unbroken_of_mem_words {cs word : List Char} (hmem : word ∈ words cs) : Unbroken word :=
  (spaced_iff.mpr rfl).unbroken word hmem

/-! ## Words joined by single blanks -/

/-- No blank stands at an end or next to another. -/
structure Normalized (cs : List Char) : Prop where
  ends : SoundEnds isBlank cs
  apart : cs.IsChain fun a b => isBlank a = true → isBlank b = false

theorem Unbroken.normalized {word : List Char} (hword : Unbroken word) : Normalized word where
  ends := soundEnds_of_forall hword.chars
  apart := by
    apply List.Pairwise.isChain
    exact List.pairwise_of_forall_mem_list fun _ _ b hb _ => hword.chars b hb

/-- A single blank may stand between texts that are not empty. -/
theorem Normalized.append_blank {xs ys : List Char} (hxs : Normalized xs) (hys : Normalized ys)
    (hxs_ne : xs ≠ []) (hys_ne : ys ≠ []) : Normalized (xs ++ ' ' :: ys) where
  ends := hxs.ends.append_cons hys.ends hxs_ne hys_ne
  apart := by
    rw [List.isChain_append, List.isChain_cons]
    refine ⟨hxs.apart, ⟨fun c hc _ => hys.ends.head c hc, hys.apart⟩, fun c hc d _ hblank => ?_⟩
    rw [hxs.ends.last c hc] at hblank
    contradiction

theorem words_intercalate {ws : List (List Char)} (hws : ∀ word ∈ ws, Unbroken word) :
    words ([' '].intercalate ws) = ws := by
  by_cases hnil : ws = []
  · subst hnil
    rfl
  rw [words, pieces_intercalate (by rfl) hnil fun word hmem => (hws word hmem).chars,
    List.filter_eq_self]
  intro word hmem
  have hne := (hws word hmem).ne_nil
  simpa using hne

theorem intercalate_ne_nil {ws : List (List Char)} (hws : ∀ word ∈ ws, Unbroken word)
    (hne : ws ≠ []) : [' '].intercalate ws ≠ [] := by
  intro hnil
  have hwords := words_intercalate hws
  rw [hnil] at hwords
  exact hne hwords.symm

theorem normalized_intercalate {ws : List (List Char)} (hws : ∀ word ∈ ws, Unbroken word) :
    Normalized ([' '].intercalate ws) := by
  induction ws with
  | nil => exact ⟨⟨by simp, by simp⟩, by simp⟩
  | cons word rest ih =>
      obtain ⟨hword, hrest⟩ := List.forall_mem_cons.mp hws
      by_cases hnil : rest = []
      · subst hnil
        rw [List.intercalate_singleton]
        exact hword.normalized
      · rw [List.intercalate_cons_of_ne_nil hnil, List.append_assoc, List.singleton_append]
        exact hword.normalized.append_blank (ih hrest) hword.ne_nil
          (intercalate_ne_nil hrest hnil)

end Text
end GameCatalog
