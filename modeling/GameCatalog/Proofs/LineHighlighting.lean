import GameCatalog.Explorer.Highlight
import Mathlib.Data.List.Basic

/-!
# What a highlighted line shows

A terminal shows the characters of a text except for its escape sequences, each of which
turns a colour on or resets it.  While a line is highlighted, the active colour is known
from the region that the next character belongs to: a filter block has its colour on, and
elsewhere none is.  So a step shows its character and leads to the colour of the next
region, and behind the whole line no colour is active.
-/

namespace GameCatalog
namespace Highlight

/-! ## What a terminal makes of a text -/

def escapeChar : Char := '\x1b'

inductive Part where
  | character (c : Char)
  | escape (sequence : List Char)
  deriving DecidableEq, Repr

namespace Part

def character? : Part → Option Char
  | character c => some c
  | escape _ => none

def sequence? : Part → Option (List Char)
  | character _ => none
  | escape sequence => some sequence

end Part

/-- The parts of a text that is read from outside of an escape sequence, or from inside of
one that has begun.  A sequence goes through the next `m`, or to the end without one. -/
def partsFrom : Option (List Char) → List Char → List Part
  | none, [] => []
  | some begun, [] => [.escape begun]
  | none, c :: cs =>
      if c = escapeChar then partsFrom (some [c]) cs else .character c :: partsFrom none cs
  | some begun, c :: cs =>
      if c = 'm' then .escape (begun ++ [c]) :: partsFrom none cs
      else partsFrom (some (begun ++ [c])) cs

def parts (text : List Char) : List Part :=
  partsFrom none text

/-- The text without its escape sequences. -/
def shown (text : List Char) : List Char :=
  (parts text).filterMap Part.character?

/-- The escape sequences of a text, in order. -/
def sequences (text : List Char) : List (List Char) :=
  (parts text).filterMap Part.sequence?

/-- The colour that is active once an escape sequence has been read; a reset ends it. -/
def turn (_ : Option (List Char)) (sequence : List Char) : Option (List Char) :=
  if sequence = reset then none else some sequence

/-- An escape sequence from its first character through its first `m`. -/
def IsSequence (sequence : List Char) : Prop :=
  ∃ body, sequence = escapeChar :: (body ++ ['m']) ∧ 'm' ∉ body

theorem parts_append_of_plain {text : List Char} (htext : escapeChar ∉ text) (rest : List Char) :
    parts (text ++ rest) = text.map .character ++ parts rest := by
  induction text with
  | nil => rfl
  | cons c cs ih =>
      obtain ⟨hc, hcs⟩ := List.ne_and_not_mem_of_not_mem_cons htext
      rw [List.cons_append, parts, partsFrom, if_neg (Ne.symm hc), ← parts, ih hcs]
      rfl

theorem partsFrom_append_of_begun {body : List Char} (hbody : 'm' ∉ body)
    (begun rest : List Char) :
    partsFrom (some begun) (body ++ 'm' :: rest) =
      .escape (begun ++ (body ++ ['m'])) :: parts rest := by
  induction body generalizing begun with
  | nil => rfl
  | cons c cs ih =>
      obtain ⟨hc, hcs⟩ := List.ne_and_not_mem_of_not_mem_cons hbody
      rw [List.cons_append, partsFrom, if_neg (Ne.symm hc), ih hcs]
      simp

theorem parts_append_of_isSequence {sequence : List Char} (hsequence : IsSequence sequence)
    (rest : List Char) : parts (sequence ++ rest) = .escape sequence :: parts rest := by
  obtain ⟨body, rfl, hbody⟩ := hsequence
  rw [List.cons_append, List.append_assoc, List.singleton_append, parts, partsFrom, if_pos rfl,
    partsFrom_append_of_begun hbody]
  rfl

/-- The painted text shows the plain one and leads from the one colour to the other.  It
ends outside of escape sequences, so what follows is read by itself. -/
structure Paints (painted plain : List Char) (before after : Option (List Char)) : Prop where
  apart : ∀ rest, parts (painted ++ rest) = parts painted ++ parts rest
  shown : shown painted = plain
  color : (sequences painted).foldl turn before = after

theorem Paints.append {xs ys plainXs plainYs : List Char} {before between after : Option (List Char)}
    (hxs : Paints xs plainXs before between) (hys : Paints ys plainYs between after) :
    Paints (xs ++ ys) (plainXs ++ plainYs) before after where
  apart rest := by
    rw [List.append_assoc, hxs.apart, hys.apart, hxs.apart, List.append_assoc]
  shown := by
    rw [Highlight.shown, hxs.apart, List.filterMap_append]
    exact congrArg₂ _ hxs.shown hys.shown
  color := by
    have hsequences : sequences (xs ++ ys) = sequences xs ++ sequences ys := by
      rw [sequences, hxs.apart, List.filterMap_append]
      rfl
    rw [hsequences, List.foldl_append, hxs.color, hys.color]

theorem paints_plain {text : List Char} (htext : escapeChar ∉ text)
    (color : Option (List Char)) : Paints text text color color := by
  have hparts : parts text = text.map .character := by
    simpa [parts, partsFrom] using parts_append_of_plain htext []
  constructor
  · intro rest
    rw [parts_append_of_plain htext, hparts]
  · rw [shown, hparts, List.filterMap_map]
    exact List.filterMap_some
  · rw [sequences, hparts, List.filterMap_map]
    simp [Function.comp_def, Part.sequence?]

theorem paints_sequence {sequence : List Char} (hsequence : IsSequence sequence)
    (before : Option (List Char)) :
    Paints sequence [] before (turn before sequence) := by
  have hparts : parts sequence = [.escape sequence] := by
    simpa [parts, partsFrom] using parts_append_of_isSequence hsequence []
  constructor
  · intro rest
    rw [parts_append_of_isSequence hsequence, hparts]
    rfl
  · rw [shown, hparts]
    rfl
  · rw [sequences, hparts]
    rfl

/-! ## Colours -/

/-- The colours that highlighting turns on. -/
def palette : List (List Char) :=
  [commandColor, sigilColor, punctuationColor, wildcardColor, filterColor, propertyColor]

theorem isSequence_reset : IsSequence reset :=
  ⟨"[0".toList, rfl, by decide⟩

theorem isSequence_of_mem_palette : ∀ color ∈ palette, IsSequence color := by
  simp only [palette, List.forall_mem_cons, List.not_mem_nil, false_imp_iff, implies_true,
    and_true]
  exact ⟨⟨"[1;35".toList, rfl, by decide⟩, ⟨"[1;36".toList, rfl, by decide⟩,
    ⟨"[2".toList, rfl, by decide⟩, ⟨"[1;33".toList, rfl, by decide⟩,
    ⟨"[35".toList, rfl, by decide⟩, ⟨"[32".toList, rfl, by decide⟩⟩

theorem ne_reset_of_mem_palette : ∀ color ∈ palette, color ≠ reset := by
  decide

theorem paints_reset (before : Option (List Char)) : Paints reset [] before none :=
  paints_sequence isSequence_reset before

theorem paints_color {color : List Char} (hcolor : color ∈ palette)
    (before : Option (List Char)) : Paints color [] before (some color) := by
  have hpaints := paints_sequence (isSequence_of_mem_palette color hcolor) before
  rwa [turn, if_neg (ne_reset_of_mem_palette color hcolor)] at hpaints

theorem paints_colored {color text : List Char} (hcolor : color ∈ palette)
    (htext : escapeChar ∉ text) (before : Option (List Char)) :
    Paints (colored color text) text before none := by
  have hpaints := ((paints_color hcolor before).append (paints_plain htext _)).append
    (paints_reset _)
  rwa [List.nil_append, List.append_nil] at hpaints

/-! ## The colour of a region -/

/-- The colour that is active in front of the next character. -/
def Region.color : Region → Option (List Char)
  | .filter _ => some filterColor
  | _ => none

theorem paints_opening (insideProperty : Bool) {c : Char} (hc : escapeChar ∉ [c])
    (before : Option (List Char)) :
    Paints (filterColor ++ [c]) [c] before (Region.filter insideProperty).color :=
  (paints_color (by decide) before).append (paints_plain hc _)

theorem outside_paints {region : Region} (hregion : region.color = none) {c : Char}
    (hc : escapeChar ∉ [c]) :
    Paints (outside region c).1 [c] none (outside region c).2.color := by
  unfold outside
  -- Only an opening bracket leaves its colour on: the region becomes a filter block.
  split_ifs with hsigil hopening hstar hpunctuation hdot hname hblank
  · exact paints_colored (by decide) hc none
  · exact paints_opening _ hc none
  · rw [hregion]
    exact paints_colored (by decide) hc none
  · rw [hregion]
    exact paints_colored (by decide) hc none
  · exact paints_colored (by decide) hc none
  · rw [hregion]
    exact paints_plain hc none
  · exact paints_plain hc none
  · rw [hregion]
    exact paints_colored (by decide) hc none

theorem color_ofProperty (isProperty : Bool) : (Region.ofProperty isProperty).color = none := by
  cases isProperty <;> rfl

theorem inside_paints (insideProperty : Bool) {c : Char} (hc : escapeChar ∉ [c]) :
    Paints (inside insideProperty c).1 [c] (some filterColor)
      (inside insideProperty c).2.color := by
  unfold inside
  split_ifs with hopening hclosing
  · exact paints_opening insideProperty hc _
  · rw [color_ofProperty]
    exact (paints_plain hc _).append (paints_reset _)
  · exact paints_plain hc _

theorem step_paints (region : Region) {c : Char} (hc : escapeChar ∉ [c]) :
    Paints (step region c).1 [c] region.color (step region c).2.color := by
  cases region with
  | plain => exact outside_paints rfl hc
  | property => exact outside_paints rfl hc
  | filter insideProperty => exact inside_paints insideProperty hc

theorem finish_paints (region : Region) : Paints (finish region) [] region.color none := by
  cases region with
  | plain => exact paints_plain List.not_mem_nil none
  | property => exact paints_plain List.not_mem_nil none
  | filter insideProperty => exact paints_reset _

/-! ## Whole lines -/

theorem spans_paints (region : Region) {line : List Char} (hline : escapeChar ∉ line) :
    Paints (spans region line) line region.color none := by
  -- What a step leaves on is the colour of the next region, so the induction goes through
  -- for all regions at once.
  induction line generalizing region with
  | nil => exact finish_paints region
  | cons c rest ih =>
      obtain ⟨hc, hrest⟩ := List.ne_and_not_mem_of_not_mem_cons hline
      have hstep := step_paints region (c := c) (by simpa using hc)
      exact hstep.append (ih (step region c).2 hrest)

theorem coloredLine_paints {line : List Char} (hline : escapeChar ∉ line) :
    Paints (coloredLine line) line none none := by
  unfold coloredLine
  split_ifs with hcommand
  · have hsplit := List.takeWhile_append_dropWhile (p := (!Text.isBlank ·)) (l := line)
    have hparts := hline
    rw [← hsplit, List.mem_append, not_or] at hparts
    have hcolor : commandColor ∈ palette := by decide
    have hpaints := (paints_colored hcolor hparts.1 none).append (spans_paints .plain hparts.2)
    rwa [hsplit] at hpaints
  · exact spans_paints .plain hline

theorem highlight_paints {line : List Char} (hline : escapeChar ∉ line) :
    Paints (highlight line) line none none := by
  unfold highlight
  split_ifs with hmarked
  · exact coloredLine_paints hline
  · exact paints_plain hline none

/-- No colour is active behind escape sequences if there are none or the last one is the
reset. -/
theorem foldl_turn_eq_none_iff (found : List (List Char)) :
    found.foldl turn none = none ↔ found = [] ∨ found.getLast? = some reset := by
  rcases List.eq_nil_or_concat found with rfl | ⟨front, last, rfl⟩
  · simp
  · simp [turn]

/-- A line that holds no escape character is shown as it is once it is highlighted, and
behind it no colour is active: it has no escape sequence, or the last one is the reset. -/
theorem highlight_only_adds_color {line : List Char} (hline : escapeChar ∉ line) :
    shown (highlight line) = line ∧
      (sequences (highlight line) = [] ∨
        (sequences (highlight line)).getLast? = some reset) := by
  have hpaints := highlight_paints hline
  exact ⟨hpaints.shown, (foldl_turn_eq_none_iff _).mp hpaints.color⟩

/-- A command, a filter block opened twice and never closed, and a stray bracket. -/
theorem highlight_only_adds_color_unclosed :
    escapeChar ∉ ":m ]@a.m[m[".toList ∧
      shown (highlight ":m ]@a.m[m[".toList) = ":m ]@a.m[m[".toList ∧
      (sequences (highlight ":m ]@a.m[m[".toList)).getLast? = some reset := by
  have hline : escapeChar ∉ ":m ]@a.m[m[".toList := by decide
  obtain ⟨hshown, hlast⟩ := highlight_only_adds_color hline
  exact ⟨hline, hshown, hlast.resolve_left (by decide)⟩

end Highlight
end GameCatalog
