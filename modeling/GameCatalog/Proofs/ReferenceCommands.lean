import GameCatalog.Explorer.Command
import GameCatalog.Proofs.ReferenceReading
import GameCatalog.Proofs.TextWords

/-!
# References in command lines

A command line is trimmed, cut behind the name of the command, and for draws cut again in
front of a last word that reads as a count.  References go through all of it unchanged: no
blank stands at their ends, and in a reference to a draw blanks stand in the filters only,
so that the last word holds the bracket that closes them and is no number.
-/

namespace GameCatalog

/-! ## Counts -/

namespace Number

theorem naturalNumeral?_toDigits (n : Nat) : naturalNumeral? (Nat.toDigits 10 n) = some n := by
  have hdigits : (Nat.toDigits 10 n).all Char.isDigit = true :=
    List.all_eq_true.mpr fun c hc => Nat.isDigit_of_mem_toDigits (by decide) (by decide) hc
  have hvalue : (Nat.toDigits 10 n).foldl (fun n c => n * 10 + (c.toNat - 48)) 0 = n := by
    calc
      (Nat.toDigits 10 n).foldl (fun n c => n * 10 + (c.toNat - 48)) 0 =
          Nat.ofDigitChars 10 (Nat.toDigits 10 n) 0 := by
        simp only [Nat.ofDigitChars, Nat.mul_comm]
        rfl
      _ = n := Nat.ofDigitChars_ten_toDigits
  rw [naturalNumeral?, hdigits, hvalue]
  simp [Nat.toDigits_ne_nil]

theorem unsigned?_toDigits {n limit : Nat} (hn : n ≤ limit) :
    unsigned? limit (Nat.toDigits 10 n) = some n := by
  unfold unsigned?
  split
  next rest hplus =>
    have hdigit : '+'.isDigit = true :=
      Nat.isDigit_of_mem_toDigits (by decide) (by decide) (hplus ▸ List.mem_cons_self)
    exact absurd hdigit (by decide)
  next => simp only [naturalNumeral?_toDigits, Option.bind_some, if_pos hn]

/-- A numeral is made of digits, behind a plus sign perhaps. -/
theorem unsigned?_eq_none_of_mem {limit : Nat} {cs : List Char} {c : Char} (hmem : c ∈ cs)
    (hdigit : c.isDigit = false) (hplus : c ≠ '+') : unsigned? limit cs = none := by
  have hnone {digits : List Char} (hc : c ∈ digits) : naturalNumeral? digits = none := by
    have hall : digits.all Char.isDigit = false :=
      List.all_eq_false.mpr ⟨c, hc, by simp [hdigit]⟩
    rw [naturalNumeral?, hall]
    simp
  unfold unsigned?
  split
  next rest =>
    have hc : c ∈ rest := (List.mem_cons.mp hmem).resolve_left hplus
    simp only [hnone hc, Option.bind_none]
  next => simp only [hnone hmem, Option.bind_none]

end Number

/-! ## Blanks in references -/

namespace Reference

open Grammar

theorem unbroken_of_name {name : String} (hname : Name name) : Text.Unbroken name.toList :=
  ⟨hname.nonempty, fun c hc => isBlank_of_nameChar (hname.chars c hc)⟩

theorem isBlank_of_mem_behind {separator : Char} {names : List String}
    (hseparator : Text.isBlank separator = false) (hnames : ∀ name ∈ names, Name name) :
    ∀ c ∈ behind separator names, Text.isBlank c = false := by
  intro c hc
  obtain ⟨name, hmem, hc⟩ := List.mem_flatMap.mp hc
  rcases List.mem_cons.mp hc with rfl | hc
  · exact hseparator
  · exact (unbroken_of_name (hnames name hmem)).chars c hc

theorem isBlank_of_mem_markText {optional : Bool} :
    ∀ c ∈ markText optional, Text.isBlank c = false := by
  cases optional with
  | true =>
      intro c hc
      obtain rfl := List.mem_singleton.mp hc
      rfl
  | false => simp [markText]

theorem soundEnds_itemText {text : List Char} {item : ItemSelector}
    (hitem : ItemText text item) : Text.SoundEnds Text.isBlank text := by
  cases hitem with
  | wildcard => exact (Text.soundEnds_of_forall (by simp)).cons (by rfl)
  | named hne hwords =>
      rw [toList_joined]
      apply Text.Normalized.ends
      apply Text.normalized_intercalate
      intro word hword
      obtain ⟨name, hname, rfl⟩ := List.mem_map.mp hword
      exact unbroken_of_name (hwords name hname)

theorem soundEnds_filtersText {text : List Char} {filters : List Filter}
    (hfilters : FiltersText text filters) : Text.SoundEnds Text.isBlank text := by
  cases hfilters with
  | absent => exact Text.soundEnds_of_forall (by simp)
  | block hbody => exact Text.soundEnds_enclosed (by rfl) (by rfl) _

theorem soundEnds_of_referenceText {chars : List Char} {r : Reference}
    (htext : ReferenceText chars r) : Text.SoundEnds Text.isBlank chars := by
  obtain ⟨hdomain, hsteps, hitem, hfilters, hproperty⟩ := htext
  have hstart : Text.SoundEnds Text.isBlank ('@' :: r.domain.toList) :=
    (Text.soundEnds_of_forall (unbroken_of_name hdomain).chars).cons (by rfl)
  have hsteps : Text.SoundEnds Text.isBlank (behind '/' (r.path ++ [r.category])) :=
    Text.soundEnds_of_forall (isBlank_of_mem_behind (by rfl) hsteps)
  have hitem := (soundEnds_itemText hitem).cons (c := ':') (by rfl)
  have hmark : Text.SoundEnds Text.isBlank (markText r.optional) :=
    Text.soundEnds_of_forall isBlank_of_mem_markText
  have hproperty : Text.SoundEnds Text.isBlank (behind '.' r.property) :=
    Text.soundEnds_of_forall (isBlank_of_mem_behind (by rfl) hproperty)
  exact ((((hstart.append hsteps).append hitem).append (soundEnds_filtersText hfilters)).append
    hmark).append hproperty

theorem exists_eq_cons_of_referenceText {chars : List Char} {r : Reference}
    (htext : ReferenceText chars r) : ∃ rest, chars = '@' :: rest := by
  obtain ⟨⟩ := htext
  exact ⟨_, rfl⟩

/-- In a reference to a draw, no blank stands behind the bracket that closes the filters,
and none at all if there are no filters. -/
theorem blanks_in_filters {chars : List Char} {r : Reference} (htext : ReferenceText chars r)
    (hwildcard : r.item = .wildcard) :
    (∀ c ∈ chars, Text.isBlank c = false) ∨
      ∃ front tail, chars = front ++ ']' :: tail ∧ ∀ c ∈ tail, Text.isBlank c = false := by
  obtain ⟨hdomain, hsteps, hitem, hfilters, hproperty⟩ := htext
  have htail : ∀ c ∈ markText r.optional ++ behind '.' r.property, Text.isBlank c = false :=
    List.forall_mem_append.mpr
      ⟨isBlank_of_mem_markText, isBlank_of_mem_behind (by rfl) hproperty⟩
  rw [hwildcard] at hitem
  cases hitem
  generalize r.filters = conditions at hfilters
  cases hfilters with
  | absent =>
      have hhead : ∀ c ∈ '@' :: r.domain.toList ++ behind '/' (r.path ++ [r.category]) ++
          [':', '*'], Text.isBlank c = false := by
        simp only [List.cons_append, List.forall_mem_cons, List.forall_mem_append]
        exact ⟨by rfl, ⟨(unbroken_of_name hdomain).chars,
          isBlank_of_mem_behind (by rfl) hsteps⟩, by rfl, by rfl, by simp⟩
      rw [List.append_nil, List.append_assoc]
      exact .inl (List.forall_mem_append.mpr ⟨hhead, htail⟩)
  | @block body _ hbody =>
      refine .inr ⟨'@' :: r.domain.toList ++ behind '/' (r.path ++ [r.category]) ++
        [':', '*'] ++ '[' :: body, _, ?_, htail⟩
      simp

/-- If a reference to a draw has blanks, its last word holds the bracket that closes the
filters. -/
theorem bracket_mem_of_blank {front word : List Char} {c : Char} {r : Reference}
    (htext : ReferenceText (front ++ c :: word) r) (hwildcard : r.item = .wildcard)
    (hc : Text.isBlank c = true) : ']' ∈ word := by
  rcases blanks_in_filters htext hwildcard with hplain | ⟨before, tail, hsplit, htail⟩
  · rw [hplain c (by simp)] at hc
    contradiction
  have hne : c ≠ ']' := by
    rintro rfl
    exact absurd hc (by decide)
  -- The blank with the last word and the bracket with the tail end the same text, so one
  -- of the two ends lies in the other; it is not the blank that lies behind the bracket.
  have hword : c :: word <:+ before ++ ']' :: tail := ⟨front, hsplit⟩
  rcases List.suffix_or_suffix_of_suffix hword (List.suffix_append before (']' :: tail)) with
    hinside | hbracket
  · have hc' := (List.mem_cons.mp (hinside.subset List.mem_cons_self)).resolve_left hne
    rw [htail c hc'] at hc
    contradiction
  · exact (List.mem_cons.mp (hbracket.subset List.mem_cons_self)).resolve_left hne.symm

end Reference

/-! ## Command lines -/

namespace Command

open Grammar Reference

theorem unbroken_toDigits (n : Nat) : Text.Unbroken (Nat.toDigits 10 n) where
  ne_nil := Nat.toDigits_ne_nil
  chars c hc := by
    have hdigit : c.isDigit = true := Nat.isDigit_of_mem_toDigits (by decide) (by decide) hc
    have hname : isNameChar c = true := by simp [isNameChar, Char.isAlphanum, hdigit]
    exact isBlank_of_nameChar ((isNameChar_iff c).mp hname)

theorem count?_toDigits {n : Nat} (hn : n ≤ Number.maxWord64) :
    count? (Nat.toDigits 10 n) = some n :=
  Number.unsigned?_toDigits hn

theorem drawArguments_of_count {text : List Char} (hends : Text.SoundEnds Text.isBlank text)
    {n : Nat} (hn : n ≤ Number.maxWord64) :
    drawArguments (text ++ ' ' :: Nat.toDigits 10 n) = (text, n) := by
  rw [drawArguments, Text.cutLast?_append_cons (unbroken_toDigits n).chars (by rfl)]
  simp only [count?_toDigits hn, Text.trim, Text.strip_eq_self hends]

/-- No part of a reference to a draw is taken for a count. -/
theorem drawArguments_of_referenceText {text : List Char} {r : Reference}
    (htext : ReferenceText text r) (hwildcard : r.item = .wildcard) :
    drawArguments text = (text, defaultDraws) := by
  unfold drawArguments
  split
  next front word hcut =>
    obtain ⟨-, c, hc, rfl⟩ := Text.exists_of_cutLast?_eq_some hcut
    have hcount : count? word = none :=
      Number.unsigned?_eq_none_of_mem (bracket_mem_of_blank htext hwildcard hc) (by rfl)
        (by decide)
    rw [hcount]
  next => rfl

/-- A colon, a name, a blank and a text are a command of that name with that text. -/
theorem parse_named {name text : String} (hname : name.toList.any Text.isBlank = false)
    (hends : Text.SoundEnds Text.isBlank text.toList) (hne : text ≠ "") :
    parse (":" ++ name ++ " " ++ text) = named name text.toList := by
  have hchars : ∀ c ∈ name.toList, Text.isBlank c = false := by simpa using hname
  have hline : (":" ++ name ++ " " ++ text).toList = ':' :: name.toList ++ ' ' :: text.toList := by
    simp
  have hlineEnds : Text.SoundEnds Text.isBlank (':' :: name.toList ++ ' ' :: text.toList) :=
    ((Text.soundEnds_of_forall hchars).cons (by rfl)).append_cons hends (by simp)
      (by simpa using hne)
  have hblank : Text.isBlank ' ' = true := by rfl
  rw [parse, hline, Text.trim, Text.strip_eq_self hlineEnds, List.cons_append]
  simp only [Text.cutFirst?_append_cons hchars hblank, Option.getD_some, Text.trim,
    Text.strip_eq_self hends, String.ofList_toList]

theorem required_of_ne_nil (name : String) {text : List Char} (hne : text ≠ []) :
    required name text = .ok text := by
  simp [required, hne]

theorem parse_check {text : String} (hends : Text.SoundEnds Text.isBlank text.toList)
    (hne : text ≠ "") : parse (":check " ++ text) = .ok (.check text) := by
  rw [show ":check " = ":" ++ "check" ++ " " by rfl, parse_named (by rfl) hends hne, named,
    required_of_ne_nil _ (by simpa using hne)]
  simp [Except.map]

theorem parse_draw {text : String} (hends : Text.SoundEnds Text.isBlank text.toList)
    (hne : text ≠ "") : parse (":draw " ++ text) =
      .ok (.draw (String.ofList (drawArguments text.toList).1) (drawArguments text.toList).2) := by
  rw [show ":draw " = ":" ++ "draw" ++ " " by rfl, parse_named (by rfl) hends hne, named,
    required_of_ne_nil _ (by simpa using hne)]
  simp [Except.map]

/-- The count may follow the text that is drawn, whatever words that text has. -/
theorem parse_draw_count {text : String} (hends : Text.SoundEnds Text.isBlank text.toList)
    (hne : text ≠ "") {n : Nat} (hn : n ≤ Number.maxWord64) :
    parse (":draw " ++ text ++ " " ++ toString n) = .ok (.draw text n) := by
  have hdigits := unbroken_toDigits n
  have hcounted : (text ++ " " ++ toString n).toList =
      text.toList ++ ' ' :: Nat.toDigits 10 n := by
    simp
  have hcountedEnds : Text.SoundEnds Text.isBlank (text ++ " " ++ toString n).toList := by
    rw [hcounted]
    exact hends.append_cons (Text.soundEnds_of_forall hdigits.chars) (by simpa using hne)
      hdigits.ne_nil
  have hline : ":draw " ++ text ++ " " ++ toString n =
      ":draw " ++ (text ++ " " ++ toString n) := by
    simp only [String.append_assoc]
  rw [hline, parse_draw hcountedEnds (by simp), hcounted, drawArguments_of_count hends hn,
    String.ofList_toList]

theorem parse_of_head {text : String} {c : Char} {rest : List Char}
    (hends : Text.SoundEnds Text.isBlank text.toList) (htext : text.toList = c :: rest)
    (hc : c ≠ ':') : parse text = .ok (.resolve text) := by
  rw [parse, Text.trim, Text.strip_eq_self hends]
  split
  next hcolon =>
    rw [htext, List.cons.injEq] at hcolon
    exact absurd hcolon.1 hc
  next => rw [String.ofList_toList]

/-- A reference is a line to resolve, and what is to be checked or drawn, unchanged.  A
count behind a reference to a draw is read as the count, and nothing else of it is. -/
theorem parse_passes_references {text : String} {r : Reference}
    (hread : Reference.parse text = .ok r) :
    parse text = .ok (.resolve text) ∧ parse (":check " ++ text) = .ok (.check text) ∧
      (r.isWildcard = true →
        parse (":draw " ++ text) = .ok (.draw text defaultDraws) ∧
        ∀ n ≤ Number.maxWord64,
          parse (":draw " ++ text ++ " " ++ toString n) = .ok (.draw text n)) := by
  have htext := referenceText_of_parse hread
  have hends := soundEnds_of_referenceText htext
  obtain ⟨rest, hstart⟩ := exists_eq_cons_of_referenceText htext
  have hne : text ≠ "" := by
    rintro rfl
    simp at hstart
  refine ⟨parse_of_head hends hstart (by decide), parse_check hends hne, fun hwildcard => ⟨?_,
    fun n hn => parse_draw_count hends hne hn⟩⟩
  rw [parse_draw hends hne, drawArguments_of_referenceText htext (isWildcard_iff.mp hwildcard),
    String.ofList_toList]

/-- The last word in front of the count, `5]`, is no count. -/
theorem parse_passes_references_level :
    Reference.parse "@a/b:*[level >= 5]" =
      .ok ⟨"a", [], "b", .wildcard, [⟨["level"], .atLeast, some "5"⟩], false, []⟩ ∧
    parse ":draw @a/b:*[level >= 5]" = .ok (.draw "@a/b:*[level >= 5]" 1000) ∧
    parse ":draw @a/b:*[level >= 5] 7" = .ok (.draw "@a/b:*[level >= 5]" 7) := by
  have hread : Reference.parse "@a/b:*[level >= 5]" =
      .ok ⟨"a", [], "b", .wildcard, [⟨["level"], .atLeast, some "5"⟩], false, []⟩ := by
    decide +kernel
  obtain ⟨-, -, hdraw⟩ := parse_passes_references hread
  obtain ⟨hplain, hcounted⟩ := hdraw (by rfl)
  exact ⟨hread, hplain, hcounted 7 (by decide)⟩

end Command
end GameCatalog
