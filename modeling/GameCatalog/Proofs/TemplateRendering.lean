import GameCatalog.Generation.Template
import GameCatalog.Proofs.TextWords

/-!
# Rendering templates

A text divides in one way into literal runs and placeholders.  Rendering puts a value or
nothing in the place of each placeholder, once, and joins the words of what results.  So
a template can be rendered in two parts if no brace of the first is left open.
-/

namespace GameCatalog
namespace Template

inductive Segment where
  | literal (run : List Char)
  | placeholder (key : List Char)

namespace Segment

/-- What a segment becomes: a literal run stays, and a key gives its value or nothing. -/
def fill (values : Values) : Segment → List Char
  | literal run => run
  | placeholder key => ((values[String.ofList key]?).map String.toList).getD []

def parts : Segment → List Part
  | literal run => run.map .literal
  | placeholder key => [.placeholder (String.ofList key)]

theorem flatMap_fill_parts (values : Values) (segment : Segment) :
    segment.parts.flatMap (Part.fill values) = segment.fill values := by
  cases segment with
  | literal run => simp [parts, fill, Part.fill, List.flatMap_map]
  | placeholder key => simp [parts, fill, Part.fill]

end Segment

/-- The segments of a text, from left to right.  A brace that nothing closes is literal,
and so is the rest of the text. -/
inductive Divides : List Char → List Segment → Prop where
  | literal {run : List Char} (hrun : '\x7b' ∉ run) : Divides run [.literal run]
  | unclosed {run rest : List Char} (hrun : '\x7b' ∉ run) (hrest : '\x7d' ∉ rest) :
      Divides (run ++ '\x7b' :: rest) [.literal (run ++ '\x7b' :: rest)]
  | placeholder {run key rest : List Char} {segments : List Segment}
      (hrun : '\x7b' ∉ run) (hkey : '\x7d' ∉ key) (hrest : Divides rest segments) :
      Divides (run ++ '\x7b' :: (key ++ '\x7d' :: rest))
        (.literal run :: .placeholder key :: segments)

/-- After some brace that opens, none closes. -/
def LeavesOpen (text : List Char) : Prop :=
  ∃ front rest, text = front ++ '\x7b' :: rest ∧ '\x7d' ∉ rest

/-! ## One way to divide a text -/

theorem exists_divides (text : List Char) : ∃ segments, Divides text segments := by
  induction hlength : text.length using Nat.strong_induction_on generalizing text with
  | _ length ih =>
      by_cases hopen : '\x7b' ∈ text
      · obtain ⟨run, after, rfl, hrun⟩ := List.eq_append_cons_of_mem hopen
        by_cases hclose : '\x7d' ∈ after
        · obtain ⟨key, rest, rfl, hkey⟩ := List.eq_append_cons_of_mem hclose
          have hshorter : rest.length < length := by
            simp only [List.length_append, List.length_cons] at hlength
            omega
          obtain ⟨segments, hrest⟩ := ih _ hshorter rest rfl
          exact ⟨_, .placeholder hrun hkey hrest⟩
        · exact ⟨_, .unclosed hrun hclose⟩
      · exact ⟨_, .literal hopen⟩

theorem Divides.unique {text : List Char} {segments others : List Segment}
    (hdivides : Divides text segments) (hothers : Divides text others) :
    others = segments := by
  induction hdivides generalizing others with
  | @literal run hrun =>
      cases hothers with
      | literal => rfl
      | unclosed => simp at hrun
      | placeholder => simp at hrun
  | @unclosed run rest hrun hrest =>
      generalize htext : run ++ '\x7b' :: rest = text at hothers
      cases hothers with
      | literal => rfl
      | unclosed => rfl
      | placeholder hrun' hkey' hrest' =>
          obtain ⟨-, rfl⟩ := Text.append_cons_inj hrun hrun' htext
          simp at hrest
  | @placeholder run key rest segments hrun hkey hrest ih =>
      generalize htext : run ++ '\x7b' :: (key ++ '\x7d' :: rest) = text at hothers
      cases hothers with
      | literal hrun' => simp [← htext] at hrun'
      | unclosed hrun' hrest' =>
          obtain ⟨-, rfl⟩ := Text.append_cons_inj hrun hrun' htext
          simp at hrest'
      | placeholder hrun' hkey' hothers =>
          obtain ⟨rfl, hafter⟩ := Text.append_cons_inj hrun hrun' htext
          obtain ⟨rfl, rfl⟩ := Text.append_cons_inj hkey hkey' hafter
          rw [ih hothers]

/-! ## The parts of a divided text -/

theorem partsFrom_run {run : List Char} (hrun : '\x7b' ∉ run) (rest : List Char) :
    partsFrom none (run ++ rest) = run.map .literal ++ partsFrom none rest := by
  induction run with
  | nil => rfl
  | cons c run ih =>
      rw [List.mem_cons, not_or] at hrun
      rw [List.cons_append, partsFrom, if_neg (Ne.symm hrun.1), ih hrun.2]
      rfl

theorem partsFrom_key {key : List Char} (hkey : '\x7d' ∉ key) (read rest : List Char) :
    partsFrom (some read) (key ++ '\x7d' :: rest) =
      .placeholder (String.ofList (read.reverse ++ key)) :: partsFrom none rest := by
  induction key generalizing read with
  | nil => simp [partsFrom]
  | cons c key ih =>
      rw [List.mem_cons, not_or] at hkey
      rw [List.cons_append, partsFrom, if_neg (Ne.symm hkey.1), ih hkey.2]
      simp

theorem partsFrom_unclosed {rest : List Char} (hrest : '\x7d' ∉ rest) (read : List Char) :
    partsFrom (some read) rest = ('\x7b' :: (read.reverse ++ rest)).map .literal := by
  induction rest generalizing read with
  | nil => simp [partsFrom]
  | cons c rest ih =>
      rw [List.mem_cons, not_or] at hrest
      rw [partsFrom, if_neg (Ne.symm hrest.1), ih hrest.2]
      simp

theorem partsFrom_placeholder {run key : List Char} (hrun : '\x7b' ∉ run)
    (hkey : '\x7d' ∉ key) (rest : List Char) :
    partsFrom none (run ++ '\x7b' :: (key ++ '\x7d' :: rest)) =
      run.map .literal ++ .placeholder (String.ofList key) :: partsFrom none rest := by
  rw [partsFrom_run hrun, partsFrom, if_pos rfl, partsFrom_key hkey]
  rfl

theorem partsFrom_of_divides {text : List Char} {segments : List Segment}
    (hdivides : Divides text segments) :
    partsFrom none text = segments.flatMap Segment.parts := by
  induction hdivides with
  | @literal run hrun =>
      have hplain := partsFrom_run hrun []
      rw [List.append_nil] at hplain
      simp [hplain, partsFrom, Segment.parts]
  | @unclosed run rest hrun hrest =>
      rw [partsFrom_run hrun, partsFrom, if_pos rfl, partsFrom_unclosed hrest]
      simp [Segment.parts]
  | @placeholder run key rest segments hrun hkey hrest ih =>
      rw [partsFrom_placeholder hrun hkey, ih]
      simp [Segment.parts]

theorem filled_of_divides {template : String} {segments : List Segment}
    (hdivides : Divides template.toList segments) (values : Values) :
    filled template values = segments.flatMap (Segment.fill values) := by
  rw [filled, parts, partsFrom_of_divides hdivides, List.flatMap_assoc]
  simp only [Segment.flatMap_fill_parts]

/-- Where no brace is left open, the parts of a text do not depend on what follows. -/
theorem partsFrom_append {text : List Char} (hclosed : ¬ LeavesOpen text)
    (rest : List Char) :
    partsFrom none (text ++ rest) = partsFrom none text ++ partsFrom none rest := by
  obtain ⟨segments, hdivides⟩ := exists_divides text
  induction hdivides with
  | @literal run hrun =>
      have hplain := partsFrom_run hrun []
      rw [List.append_nil] at hplain
      rw [partsFrom_run hrun, hplain, partsFrom, List.append_nil]
  | @unclosed run tail hrun htail => exact absurd ⟨run, tail, rfl, htail⟩ hclosed
  | @placeholder run key tail segments hrun hkey htail ih =>
      have hclosed' : ¬ LeavesOpen tail := by
        rintro ⟨front, last, rfl, hlast⟩
        exact hclosed ⟨run ++ '\x7b' :: (key ++ '\x7d' :: front), last, by simp, hlast⟩
      rw [List.append_assoc, List.cons_append, List.append_assoc, List.cons_append,
        partsFrom_placeholder hrun hkey, partsFrom_placeholder hrun hkey, ih hclosed',
        List.append_assoc, List.cons_append]

/-! ## Rendering -/

theorem toList_joinWords (cs : List Char) :
    (joinWords cs).toList = [' '].intercalate (Text.words cs) := by
  rw [joinWords, Text.joined, String.toList_intercalate, List.map_map]
  simp [Function.comp_def]

theorem words_joinWords (cs : List Char) : Text.words (joinWords cs).toList = Text.words cs := by
  rw [toList_joinWords, Text.words_intercalate fun word => Text.unbroken_of_mem_words]

theorem filled_append {first second : String} (hclosed : ¬ LeavesOpen first.toList)
    (values : Values) :
    filled (first ++ " " ++ second) values =
      filled first values ++ ' ' :: filled second values := by
  have hblank : partsFrom none (' ' :: second.toList) =
      .literal ' ' :: partsFrom none second.toList := rfl
  have htext : (first ++ " " ++ second).toList = first.toList ++ ' ' :: second.toList := by
    simp
  simp only [filled, parts]
  rw [htext, partsFrom_append hclosed, hblank, List.flatMap_append, List.flatMap_cons]
  rfl

/-- A template is divided once, each placeholder gives its value or nothing, and the words
of the result are joined by single blanks.  So no blank stands at an end or next to
another, and a template without an open brace is rendered apart from what follows it. -/
theorem render_fills_once_and_normalizes :
    (∀ (template : String) (values : Values), ∃ segments words,
      Divides template.toList segments ∧
      (∀ others, Divides template.toList others → others = segments) ∧
      Text.Spaced (segments.flatMap (Segment.fill values)) words ∧
      (render template values).toList = [' '].intercalate words) ∧
    (∀ (template : String) (values : Values),
      Text.Normalized (render template values).toList) ∧
    (∀ (first second : String) (values : Values), ¬ LeavesOpen first.toList →
      ∃ before after, Text.Spaced (render first values).toList before ∧
        Text.Spaced (render second values).toList after ∧
        (render (first ++ " " ++ second) values).toList =
          [' '].intercalate (before ++ after)) := by
  refine ⟨fun template values => ?_, fun template values => ?_,
    fun first second values hclosed => ?_⟩
  · obtain ⟨segments, hdivides⟩ := exists_divides template.toList
    refine ⟨segments, _, hdivides, fun others => hdivides.unique, Text.spaced_iff.mpr rfl, ?_⟩
    rw [render, toList_joinWords, filled_of_divides hdivides]
  · rw [render, toList_joinWords]
    exact Text.normalized_intercalate fun word => Text.unbroken_of_mem_words
  · refine ⟨_, _, Text.spaced_iff.mpr rfl, Text.spaced_iff.mpr rfl, ?_⟩
    rw [render, render, render, words_joinWords, words_joinWords, toList_joinWords,
      filled_append hclosed, Text.words_append_blank (by rfl)]

/-- Braces in a value are not read again. -/
example :
    render "The \x7badjective\x7d \x7bbeast\x7d \x7bsign"
      (((∅ : Values).insert "adjective" " \x7bbeast\x7d ").insert "beast" "Pony") =
        "The \x7bbeast\x7d Pony \x7bsign" := by
  rfl

theorem not_leavesOpen_of_last_closes (text : List Char) : ¬ LeavesOpen (text ++ ['\x7d']) := by
  rintro ⟨front, rest, heq, hrest⟩
  rcases List.eq_nil_or_concat' rest with rfl | ⟨rest, c, rfl⟩
  · have hlast := List.append_inj_right' heq rfl
    simp at hlast
  · rw [← List.cons_append, ← List.append_assoc] at heq
    have hlast := List.append_inj_right' heq rfl
    simp [← hlast] at hrest

def tavernNames : Values :=
  (∅ : Values).insert "adjective" "  Prancing "

/-- The value brings blanks of its own, and the brace left open comes last. -/
theorem render_fills_once_and_normalizes_tavern :
    ¬ LeavesOpen "The \x7badjective\x7d".toList ∧
      ∃ before after,
        Text.Spaced (render "The \x7badjective\x7d" tavernNames).toList before ∧
        Text.Spaced (render "Pony \x7bsign" tavernNames).toList after ∧
        (render ("The \x7badjective\x7d" ++ " " ++ "Pony \x7bsign") tavernNames).toList =
          [' '].intercalate (before ++ after) := by
  have hclosed : ¬ LeavesOpen "The \x7badjective\x7d".toList :=
    not_leavesOpen_of_last_closes "The \x7badjective".toList
  exact ⟨hclosed, render_fills_once_and_normalizes.2.2 _ _ _ hclosed⟩

end Template
end GameCatalog
