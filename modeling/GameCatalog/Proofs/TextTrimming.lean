import GameCatalog.Text.Blank
import Mathlib.Data.List.DropRight
import Mathlib.Data.List.TakeWhile

/-!
# Trimming and cutting texts

Stripping a text keeps the part between the first and the last character that stays, so
a text with such ends is left alone.  Cutting into pieces is the library's splitting of
lists, and it undoes joining where no part holds a separator.
-/

namespace GameCatalog
namespace Text

theorem beq_eq_false_of_not_mem {c : Char} {cs : List Char} (hc : c ∉ cs) :
    ∀ d ∈ cs, (d == c) = false := by
  intro d hd
  rw [beq_eq_false_iff_ne]
  rintro rfl
  exact hc hd

theorem exists_toList_eq_cons {text : String} (hne : text ≠ "") :
    ∃ c cs, text.toList = c :: cs :=
  List.exists_cons_of_ne_nil (by simpa using hne)

theorem pieces_eq_splitOnP (p : Char → Bool) (cs : List Char) :
    pieces p cs = cs.splitOnP p := by
  induction cs with
  | nil => rfl
  | cons c cs ih =>
      rw [List.splitOnP_cons_eq_if_modifyHead, pieces, ih]
      cases hsplit : cs.splitOnP p with
      | nil => exact absurd hsplit (List.splitOnP_ne_nil p cs)
      | cons w ws => rfl

/-- Cutting undoes joining where no part holds a separator. -/
theorem pieces_intercalate {p : Char → Bool} {separator : Char}
    (hseparator : p separator = true) {parts : List (List Char)} (hne : parts ≠ [])
    (hparts : ∀ part ∈ parts, ∀ c ∈ part, p c = false) :
    pieces p ([separator].intercalate parts) = parts := by
  rw [pieces_eq_splitOnP]
  induction parts with
  | nil => contradiction
  | cons part rest ih =>
      obtain ⟨hpart, hrest⟩ := List.forall_mem_cons.mp hparts
      by_cases hnil : rest = []
      · subst hnil
        rw [List.intercalate_singleton, List.splitOnP_eq_singleton hpart]
      · rw [List.intercalate_cons_of_ne_nil hnil, List.append_assoc, List.singleton_append,
          List.splitOnP_append_cons_of_forall_mem hpart separator hseparator, ih hnil hrest]

theorem mem_intercalate {separator c : Char} {parts : List (List Char)}
    (hmem : c ∈ [separator].intercalate parts) :
    c = separator ∨ ∃ part ∈ parts, c ∈ part := by
  induction parts with
  | nil => simp at hmem
  | cons part rest ih =>
      by_cases hnil : rest = []
      · subst hnil
        rw [List.intercalate_singleton] at hmem
        exact Or.inr ⟨part, by simp, hmem⟩
      · rw [List.intercalate_cons_of_ne_nil hnil, List.append_assoc, List.mem_append,
          List.singleton_append, List.mem_cons] at hmem
        rcases hmem with hpart | hseparator | hrest
        · exact Or.inr ⟨part, by simp, hpart⟩
        · exact Or.inl hseparator
        · rcases ih hrest with hseparator | ⟨other, hother, hc⟩
          · exact Or.inl hseparator
          · exact Or.inr ⟨other, List.mem_cons_of_mem _ hother, hc⟩

/-- The ends of a text do not satisfy `p`. -/
structure SoundEnds (p : Char → Bool) (cs : List Char) : Prop where
  head : ∀ c ∈ cs.head?, p c = false
  last : ∀ c ∈ cs.getLast?, p c = false

theorem soundEnds_of_forall {p : Char → Bool} {cs : List Char} (hcs : ∀ c ∈ cs, p c = false) :
    SoundEnds p cs :=
  ⟨fun c hc => hcs c (List.mem_of_mem_head? hc), fun c hc => hcs c (List.mem_of_mem_getLast? hc)⟩

theorem SoundEnds.append {p : Char → Bool} {xs ys : List Char} (hxs : SoundEnds p xs)
    (hys : SoundEnds p ys) : SoundEnds p (xs ++ ys) := by
  by_cases hxs_nil : xs = []
  · rwa [hxs_nil, List.nil_append]
  by_cases hys_nil : ys = []
  · rwa [hys_nil, List.append_nil]
  constructor
  · rw [List.head?_append_of_ne_nil _ hxs_nil]
    exact hxs.head
  · rw [List.getLast?_append_of_ne_nil _ hys_nil]
    exact hys.last

theorem SoundEnds.cons {p : Char → Bool} {c : Char} {cs : List Char} (hc : p c = false)
    (hcs : SoundEnds p cs) : SoundEnds p (c :: cs) := by
  rw [← List.singleton_append]
  exact (soundEnds_of_forall (by simpa using hc)).append hcs

theorem soundEnds_enclosed {p : Char → Bool} {a b : Char} (ha : p a = false) (hb : p b = false)
    (cs : List Char) : SoundEnds p (a :: (cs ++ [b])) := by
  constructor
  · intro c hc
    obtain rfl : a = c := by simpa using hc
    exact ha
  · intro c hc
    rw [← List.cons_append, List.getLast?_concat] at hc
    obtain rfl : b = c := by simpa using hc
    exact hb

/-- What stands between two texts does not matter for the ends. -/
theorem SoundEnds.append_cons {p : Char → Bool} {c : Char} {xs ys : List Char}
    (hxs : SoundEnds p xs) (hys : SoundEnds p ys) (hxs_ne : xs ≠ []) (hys_ne : ys ≠ []) :
    SoundEnds p (xs ++ c :: ys) := by
  constructor
  · rw [List.head?_append_of_ne_nil _ hxs_ne]
    exact hxs.head
  · rw [List.getLast?_append_of_ne_nil _ (List.cons_ne_nil _ _),
      List.getLast?_cons_of_ne_nil hys_ne]
    exact hys.last

theorem dropWhile_eq_self_of_head {p : Char → Bool} {cs : List Char}
    (hhead : ∀ c ∈ cs.head?, p c = false) : cs.dropWhile p = cs := by
  cases cs with
  | nil => rfl
  | cons c rest =>
      have hc : p c = false := hhead c rfl
      rw [List.dropWhile_cons_of_neg (by simp [hc])]

theorem head?_dropWhile {p : Char → Bool} (cs : List Char) :
    ∀ c ∈ (cs.dropWhile p).head?, p c = false := by
  intro c hc
  have hstop := List.head?_dropWhile_not p cs
  rw [Option.mem_def.mp hc] at hstop
  exact hstop

theorem dropEndWhile_eq_rdropWhile (p : Char → Bool) (cs : List Char) :
    dropEndWhile p cs = cs.rdropWhile p := rfl

theorem strip_eq_self {p : Char → Bool} {cs : List Char} (hends : SoundEnds p cs) :
    strip p cs = cs := by
  unfold strip dropEndWhile
  rw [dropWhile_eq_self_of_head hends.head,
    dropWhile_eq_self_of_head (by simpa using hends.last), List.reverse_reverse]

theorem soundEnds_strip (p : Char → Bool) (cs : List Char) :
    SoundEnds p (strip p cs) := by
  constructor
  · intro c hc
    obtain ⟨dropped, hsplit⟩ := List.rdropWhile_prefix p (cs.dropWhile p)
    apply head?_dropWhile cs c
    rw [← hsplit, List.head?_append, ← dropEndWhile_eq_rdropWhile, ← strip, hc]
    rfl
  · intro c hc
    unfold strip dropEndWhile at hc
    rw [List.getLast?_reverse] at hc
    exact head?_dropWhile _ c hc

theorem mem_of_mem_strip {p : Char → Bool} {cs : List Char} {c : Char}
    (hmem : c ∈ strip p cs) : c ∈ cs := by
  have hdropped : c ∈ cs.dropWhile p := (List.rdropWhile_prefix p _).mem hmem
  exact (List.dropWhile_suffix p).mem hdropped

theorem strip_eq_nil_iff {p : Char → Bool} {cs : List Char} :
    strip p cs = [] ↔ ∀ c ∈ cs, p c = true := by
  rw [strip, dropEndWhile_eq_rdropWhile, List.rdropWhile_eq_nil_iff]
  constructor
  · intro hall
    cases hrest : cs.dropWhile p with
    | nil => exact List.dropWhile_eq_nil_iff.mp hrest
    | cons c rest =>
        have hc : p c = false := head?_dropWhile cs c (by rw [hrest]; rfl)
        have hc' : p c = true := hall c (by simp [hrest])
        rw [hc] at hc'
        contradiction
  · intro hall c hc
    exact hall c ((List.dropWhile_suffix p).mem hc)

theorem strip_eq_self_iff {p : Char → Bool} {cs : List Char} :
    strip p cs = cs ↔ SoundEnds p cs := by
  constructor
  · intro hstrip
    rw [← hstrip]
    exact soundEnds_strip p cs
  · exact strip_eq_self

/-- One character at each end is dropped, and then the text between them stays. -/
theorem strip_between {p : Char → Bool} {c : Char} (hc : p c = true) {cs : List Char}
    (hends : SoundEnds p cs) : strip p (c :: (cs ++ [c])) = cs := by
  have hback : dropEndWhile p cs = cs := by
    rw [dropEndWhile, dropWhile_eq_self_of_head (by simpa using hends.last),
      List.reverse_reverse]
  cases cs with
  | nil => simp [strip, dropEndWhile, hc]
  | cons d rest =>
      have hd : p d = false := hends.head d rfl
      have hfront : (c :: (d :: rest ++ [c])).dropWhile p = d :: rest ++ [c] := by
        simp [hc, hd]
      rw [strip, hfront, dropEndWhile_eq_rdropWhile, List.rdropWhile_concat_pos _ _ _ hc]
      exact hback

theorem strip_infix (p : Char → Bool) (cs : List Char) : strip p cs <:+: cs :=
  (List.rdropWhile_prefix p _).isInfix.trans (List.dropWhile_suffix p).isInfix

/-- Nothing is cut off just when no character is a separator. -/
theorem cutFirst?_eq_none_iff {p : Char → Bool} {cs : List Char} :
    cutFirst? p cs = none ↔ ∀ c ∈ cs, p c = false := by
  have hstop : (∀ c ∈ cs, p c = false) ↔ cs.dropWhile (fun c => !p c) = [] := by
    simp
  rw [hstop]
  unfold cutFirst?
  split <;> simp_all

/-- A text is cut in front of and behind its first separator. -/
theorem cutFirst?_append_cons {p : Char → Bool} {before rest : List Char} {c : Char}
    (hbefore : ∀ d ∈ before, p d = false) (hc : p c = true) :
    cutFirst? p (before ++ c :: rest) = some (before, rest) := by
  have hkept : ∀ d ∈ before, (!p d) = true := by simpa using hbefore
  unfold cutFirst?
  rw [List.dropWhile_append_of_pos hkept, List.takeWhile_append_of_pos hkept]
  simp [hc]

theorem exists_of_cutFirst?_eq_some {p : Char → Bool} {cs before rest : List Char}
    (hcut : cutFirst? p cs = some (before, rest)) :
    (∀ d ∈ before, p d = false) ∧ ∃ c, p c = true ∧ cs = before ++ c :: rest := by
  unfold cutFirst? at hcut
  split at hcut
  next => simp at hcut
  next c tail hdrop =>
    obtain ⟨hbefore, hrest⟩ := Prod.mk.inj (Option.some.inj hcut)
    subst hbefore hrest
    have hsplit := List.takeWhile_append_dropWhile (p := fun c => !p c) (l := cs)
    rw [hdrop] at hsplit
    have hstop := List.head?_dropWhile_not (fun c => !p c) cs
    rw [hdrop] at hstop
    refine ⟨fun d hd => ?_, c, by simpa using hstop, hsplit.symm⟩
    simpa using List.mem_takeWhile_imp hd

theorem cutLast?_eq_none_iff {p : Char → Bool} {cs : List Char} :
    cutLast? p cs = none ↔ ∀ c ∈ cs, p c = false := by
  rw [cutLast?, Option.map_eq_none_iff, cutFirst?_eq_none_iff]
  simp only [List.mem_reverse]

/-- A text is cut in front of and behind its last separator. -/
theorem cutLast?_append_cons {p : Char → Bool} {front last : List Char} {c : Char}
    (hlast : ∀ d ∈ last, p d = false) (hc : p c = true) :
    cutLast? p (front ++ c :: last) = some (front, last) := by
  have hreverse : (front ++ c :: last).reverse = last.reverse ++ c :: front.reverse := by simp
  rw [cutLast?, hreverse, cutFirst?_append_cons (by simpa using hlast) hc]
  simp

theorem exists_of_cutLast?_eq_some {p : Char → Bool} {cs front last : List Char}
    (hcut : cutLast? p cs = some (front, last)) :
    (∀ d ∈ last, p d = false) ∧ ∃ c, p c = true ∧ cs = front ++ c :: last := by
  rw [cutLast?, Option.map_eq_some_iff] at hcut
  obtain ⟨⟨reversed, rest⟩, hcut, hparts⟩ := hcut
  obtain ⟨rfl, rfl⟩ := Prod.mk.inj hparts
  obtain ⟨hlast, c, hc, hreverse⟩ := exists_of_cutFirst?_eq_some hcut
  refine ⟨by simpa using hlast, c, hc, ?_⟩
  rw [← List.reverse_reverse cs, hreverse]
  simp

/-- The first piece is the whole text, or it ends at a separator and the others are the
pieces of what follows. -/
theorem cases_of_pieces_eq_cons {p : Char → Bool} {cs first : List Char}
    {others : List (List Char)} (hpieces : pieces p cs = first :: others) :
    (∀ c ∈ first, p c = false) ∧
      (first = cs ∧ others = [] ∨
        ∃ separator rest, cs = first ++ separator :: rest ∧ p separator = true ∧
          others = pieces p rest) := by
  rw [pieces_eq_splitOnP] at hpieces
  cases hcut : cutFirst? p cs with
  | none =>
      have hplain := cutFirst?_eq_none_iff.mp hcut
      rw [List.splitOnP_eq_singleton hplain] at hpieces
      obtain ⟨rfl, rfl⟩ := List.cons.inj hpieces
      exact ⟨hplain, .inl ⟨rfl, rfl⟩⟩
  | some parts =>
      obtain ⟨before, rest⟩ := parts
      obtain ⟨hbefore, separator, hseparator, rfl⟩ := exists_of_cutFirst?_eq_some hcut
      rw [List.splitOnP_append_cons_of_forall_mem hbefore separator hseparator] at hpieces
      obtain ⟨rfl, rfl⟩ := List.cons.inj hpieces
      exact ⟨hbefore, .inr ⟨separator, rest, rfl, hseparator, (pieces_eq_splitOnP p rest).symm⟩⟩

/-- A text is cut in one way at the first place of a character. -/
theorem append_cons_inj {c : Char} {xs xs' ys ys' : List Char} (hxs : c ∉ xs) (hxs' : c ∉ xs')
    (heq : xs ++ c :: ys = xs' ++ c :: ys') : xs = xs' ∧ ys = ys' := by
  have hcut : cutFirst? (· == c) (xs ++ c :: ys) = some (xs, ys) :=
    cutFirst?_append_cons (beq_eq_false_of_not_mem hxs) (beq_self_eq_true c)
  rw [heq, cutFirst?_append_cons (beq_eq_false_of_not_mem hxs') (beq_self_eq_true c)] at hcut
  obtain ⟨hfront, hrest⟩ := Prod.mk.inj (Option.some.inj hcut)
  exact ⟨hfront.symm, hrest.symm⟩

end Text
end GameCatalog
