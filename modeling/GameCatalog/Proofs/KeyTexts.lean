import GameCatalog.Catalog.Key
import GameCatalog.Proofs.TextTrimming

/-!
# Keys and their texts

Reading a key takes the blanks and then the slashes off the ends of its text, each of them
once, so a blank that stands behind a slash stays.  A key comes back from its own text
exactly when that has no blank at its ends, and every key comes back from its text between
two slashes.
-/

namespace GameCatalog
namespace CatalogKey

/-- The domain is a single step, and neither it nor a step of the path is empty. -/
structure Addressed (key : CatalogKey) : Prop where
  domain_ne : key.domain ≠ ""
  domain_plain : '/' ∉ key.domain.toList
  steps_ne : ∀ step ∈ key.segments, step ≠ ""

theorem toList_text_of_root {key : CatalogKey} (hroot : key.path = "") :
    key.text.toList = key.domain.toList := by
  simp [text, hroot]

theorem toList_text_of_path {key : CatalogKey} (hpath : key.path ≠ "") :
    key.text.toList = key.domain.toList ++ '/' :: key.path.toList := by
  simp [text, hpath]

/-! ## Domain and path -/

/-- What stands in front of the first slash, and what stands behind it. -/
def parts (cs : List Char) : List Char × List Char :=
  (Text.cutFirst? (· == '/') cs).getD (cs, [])

def hasEmptyStep (path : List Char) : Bool :=
  !path.isEmpty && (Text.pieces (· == '/') path).any List.isEmpty

theorem parts_text {key : CatalogKey} (hplain : '/' ∉ key.domain.toList) :
    parts key.text.toList = (key.domain.toList, key.path.toList) := by
  have hdomain := Text.beq_eq_false_of_not_mem hplain
  unfold parts
  by_cases hroot : key.path = ""
  · rw [toList_text_of_root hroot, Text.cutFirst?_eq_none_iff.mpr hdomain, hroot]
    rfl
  · rw [toList_text_of_path hroot, Text.cutFirst?_append_cons hdomain (by rfl)]
    rfl

/-- The two parts of a text that does not end with a slash make up a key with that text. -/
theorem exists_key_of_parts {cs : List Char} (hends : Text.SoundEnds (· == '/') cs) :
    ∃ key : CatalogKey, '/' ∉ key.domain.toList ∧ key.text.toList = cs := by
  cases hcut : Text.cutFirst? (· == '/') cs with
  | none =>
      have hplain : '/' ∉ cs := fun hmem => by
        simpa using Text.cutFirst?_eq_none_iff.mp hcut '/' hmem
      exact ⟨⟨String.ofList cs, ""⟩, by simpa using hplain, by simp [toList_text_of_root]⟩
  | some cut =>
      obtain ⟨domain, path⟩ := cut
      obtain ⟨hplain, c, hc, hsplit⟩ := Text.exists_of_cutFirst?_eq_some hcut
      obtain rfl : c = '/' := by simpa using hc
      have hpath : path ≠ [] := by
        rintro rfl
        simpa using hends.last '/' (by simp [hsplit])
      refine ⟨⟨String.ofList domain, String.ofList path⟩, fun hmem => ?_, ?_⟩
      · simpa using hplain '/' (by simpa using hmem)
      · rw [toList_text_of_path (by simpa using hpath), hsplit]
        simp

theorem hasEmptyStep_eq_false_iff (key : CatalogKey) :
    hasEmptyStep key.path.toList = false ↔ ∀ step ∈ key.segments, step ≠ "" := by
  unfold hasEmptyStep segments
  by_cases hroot : key.path = ""
  · simp [hroot]
  · simp [hroot]

/-! ## What is read -/

theorem parse_of_parts {text : String} {cs domain path : List Char}
    (hstrip : Text.strip (· == '/') (Text.trim text.toList) = cs)
    (hparts : parts cs = (domain, path)) (key : CatalogKey) :
    parse text = .ok key ↔
      ⟨String.ofList domain, String.ofList path⟩ = key ∧ domain ≠ [] ∧
        hasEmptyStep path = false := by
  unfold parse
  rw [hstrip]
  unfold parts at hparts
  dsimp only
  rw [hparts]
  change (if domain.isEmpty || hasEmptyStep path then _ else _) = _ ↔ _
  by_cases hempty : domain = []
  · simp [hempty]
  · cases hsteps : hasEmptyStep path with
    | true => simp
    | false => simp [hempty]

/-- A key is read from a text just when it is well formed and its own text is what is left
of that without the blanks and the slashes around it. -/
theorem parse_eq_ok_iff {text : String} {key : CatalogKey} :
    parse text = .ok key ↔
      key.Addressed ∧ Text.strip (· == '/') (Text.trim text.toList) = key.text.toList := by
  have hends := Text.soundEnds_strip (· == '/') (Text.trim text.toList)
  obtain ⟨held, hplain, hheld⟩ := exists_key_of_parts hends
  rw [parse_of_parts hheld.symm (parts_text hplain), hasEmptyStep_eq_false_iff, ← hheld]
  simp only [String.ofList_toList]
  constructor
  · rintro ⟨rfl, hdomain, hsteps⟩
    exact ⟨⟨by simpa using hdomain, hplain, hsteps⟩, rfl⟩
  · rintro ⟨haddressed, htext⟩
    have hsame : held = key := by
      have hparts := parts_text hplain
      rw [htext, parts_text haddressed.domain_plain] at hparts
      simp only [Prod.mk.injEq, String.toList_inj] at hparts
      cases held
      cases key
      simp_all
    subst hsame
    exact ⟨rfl, by simpa using haddressed.domain_ne, haddressed.steps_ne⟩

/-! ## Reading a key's own text -/

theorem head?_text {key : CatalogKey} (hdomain : key.domain ≠ "") :
    key.text.toList.head? = key.domain.toList.head? := by
  by_cases hroot : key.path = ""
  · rw [toList_text_of_root hroot]
  · obtain ⟨c, rest, hcons⟩ := Text.exists_toList_eq_cons hdomain
    rw [toList_text_of_path hroot, hcons]
    rfl

theorem getLast?_text_of_path {key : CatalogKey} (hpath : key.path ≠ "") :
    key.text.toList.getLast? = key.path.toList.getLast? := by
  obtain ⟨c, rest, hcons⟩ := Text.exists_toList_eq_cons hpath
  rw [toList_text_of_path hpath, hcons, List.getLast?_append_cons, List.getLast?_cons_cons]

/-- A text that ends with a separator has an empty last piece. -/
theorem nil_mem_pieces_of_getLast? {p : Char → Bool} {cs : List Char} {c : Char}
    (hlast : cs.getLast? = some c) (hc : p c = true) : [] ∈ Text.pieces p cs := by
  obtain ⟨front, rfl⟩ := List.getLast?_eq_some_iff.mp hlast
  rw [Text.pieces_eq_splitOnP, List.splitOnP_append_cons front [] hc]
  simp

theorem Addressed.soundEnds_text {key : CatalogKey} (haddressed : key.Addressed) :
    Text.SoundEnds (· == '/') key.text.toList := by
  constructor
  · intro c hc
    rw [beq_eq_false_iff_ne]
    rintro rfl
    rw [head?_text haddressed.domain_ne] at hc
    exact haddressed.domain_plain (List.mem_of_mem_head? hc)
  · intro c hc
    rw [beq_eq_false_iff_ne]
    rintro rfl
    by_cases hroot : key.path = ""
    · rw [toList_text_of_root hroot] at hc
      exact haddressed.domain_plain (List.mem_of_mem_getLast? hc)
    · rw [getLast?_text_of_path hroot] at hc
      have hempty : [] ∈ Text.pieces (· == '/') key.path.toList :=
        nil_mem_pieces_of_getLast? hc (by rfl)
      have hsteps := haddressed.steps_ne
      rw [← hasEmptyStep_eq_false_iff, hasEmptyStep] at hsteps
      simp [hroot] at hsteps
      exact hsteps [] hempty rfl

theorem strip_trim_text_iff {key : CatalogKey} (haddressed : key.Addressed) :
    Text.strip (· == '/') (Text.trim key.text.toList) = key.text.toList ↔
      Text.SoundEnds Text.isBlank key.text.toList := by
  constructor
  · intro hkept
    -- Both steps only drop characters, so neither has dropped any.
    have hslashes := (Text.strip_infix (· == '/') (Text.trim key.text.toList)).length_le
    rw [hkept] at hslashes
    have htrim : Text.trim key.text.toList = key.text.toList :=
      (Text.strip_infix Text.isBlank key.text.toList).eq_of_length_le hslashes
    exact Text.strip_eq_self_iff.mp htrim
  · intro hblanks
    rw [Text.trim, Text.strip_eq_self hblanks]
    exact Text.strip_eq_self haddressed.soundEnds_text

/-- Between two slashes no blank is at the ends of a key's text. -/
theorem parse_slashed_text {key : CatalogKey} (haddressed : key.Addressed) :
    parse ("/" ++ key.text ++ "/") = .ok key := by
  have hslashed : ("/" ++ key.text ++ "/").toList = '/' :: (key.text.toList ++ ['/']) := by
    simp
  have hblanks : Text.SoundEnds Text.isBlank ('/' :: (key.text.toList ++ ['/'])) :=
    Text.soundEnds_enclosed (by rfl) (by rfl) _
  rw [parse_eq_ok_iff, hslashed, Text.trim, Text.strip_eq_self hblanks]
  exact ⟨haddressed, Text.strip_between (by rfl) haddressed.soundEnds_text⟩

/-- A key that was read comes back from its own text just when that has no blank at its
ends, and it always comes back from its text between two slashes.  Its text is what the
blanks and then the slashes around the text that was read leave of that. -/
theorem read_back_iff_of_parse {text : String} {key : CatalogKey}
    (hread : parse text = .ok key) :
    Text.strip (· == '/') (Text.trim text.toList) = key.text.toList ∧
      (parse key.text = .ok key ↔ Text.SoundEnds Text.isBlank key.text.toList) ∧
      parse ("/" ++ key.text ++ "/") = .ok key := by
  obtain ⟨haddressed, hleft⟩ := parse_eq_ok_iff.mp hread
  refine ⟨hleft, ?_, parse_slashed_text haddressed⟩
  rw [parse_eq_ok_iff, strip_trim_text_iff haddressed]
  exact and_iff_right haddressed

theorem read_back_iff_of_parse_slashed :
    parse " /items/rare gems/ " = .ok ⟨"items", "rare gems"⟩ ∧
      parse "items/rare gems" = .ok ⟨"items", "rare gems"⟩ := by
  have hread : parse " /items/rare gems/ " = .ok ⟨"items", "rare gems"⟩ := by decide +kernel
  have hends : Text.SoundEnds Text.isBlank "items/rare gems".toList :=
    Text.strip_eq_self_iff.mp (by decide +kernel)
  exact ⟨hread, (read_back_iff_of_parse hread).2.1.mpr hends⟩

/-- The blank behind the first slash becomes part of the domain, but it is no part of the
domain that the key's text has. -/
theorem not_reads_back :
    ¬ ∀ (text : String) (key : CatalogKey), parse text = .ok key → parse key.text = .ok key := by
  intro hback
  have hread : parse "/ items" = .ok ⟨" items", ""⟩ := by decide +kernel
  have hagain : parse " items" = .ok ⟨"items", ""⟩ := by decide +kernel
  have hsame := hback "/ items" _ hread
  rw [show (CatalogKey.mk " items" "").text = " items" from rfl, hagain] at hsame
  simp at hsame

end CatalogKey
end GameCatalog
