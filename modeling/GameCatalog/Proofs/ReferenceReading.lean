import GameCatalog.Proofs.ConditionReading

/-!
# Reading accepts the grammar of references

In a reference each part is followed by a character that no part before it can take, or
by the end.  So the equivalences for the readers of the parts chain up, from the first
character to the last, to one for whole references.
-/

namespace GameCatalog
namespace Reference

open Grammar

/-! ## The mark and the end -/

theorem optionalMark_eq_iff {before after : Cursor} {optional : Bool} :
    optionalMark before = (optional, after) ↔
      before.Takes (markText optional) after ∧
        (optional = false → after.rest.head? ≠ some '?') := by
  unfold optionalMark
  by_cases hmark : before.rest.head? = some '?'
  · rw [if_pos hmark]
    cases optional with
    | true =>
        simp [markText, Cursor.takes_cons_iff, Cursor.takes_nil_iff, hmark, eq_comm]
    | false =>
        simp only [Prod.mk.injEq, Bool.true_eq_false, false_and, markText, false_iff, not_and,
          Bool.false_eq_true, if_false, Cursor.takes_nil_iff]
        intro heq hstop
        subst heq
        exact hstop trivial hmark
  · rw [if_neg hmark]
    cases optional with
    | true => simp [markText, Cursor.takes_cons_iff, hmark]
    | false =>
        simp only [Prod.mk.injEq, true_and, markText, Bool.false_eq_true, if_false,
          Cursor.takes_nil_iff, forall_const]
        constructor
        · intro heq
          subst heq
          exact ⟨rfl, hmark⟩
        · exact fun h => h.1.symm

theorem finish_eq_ok_iff {cursor : Cursor} : finish cursor = .ok () ↔ cursor.rest = [] := by
  unfold finish
  cases cursor.rest <;> simp [Cursor.flaw]

/-! ## Whole references -/

/-- The readers, one after the other, take the parts of the reference. -/
structure ReadersTake (text : String) (r : Reference)
    (atDomain atSteps atColon atItem atFilters atMark atProperty atEnd : Cursor) :
    Prop where
  start : expect '@' (Cursor.start text) = .ok atDomain
  domain : name .noDomain atDomain = .ok (r.domain.toList, atSteps)
  steps : chain '/' .noStep atSteps.rest.length atSteps =
    .ok (r.path ++ [r.category], atColon)
  colon : expect ':' atColon = .ok atItem
  item : itemSelector atItem = .ok (r.item, atFilters)
  filters : filterBlock? atFilters = .ok (r.filters, atMark)
  optional : optionalMark atMark = (r.optional, atProperty)
  property : chain '.' .noProperty atProperty.rest.length atProperty =
    .ok (r.property, atEnd)
  finished : atEnd.rest = []

theorem parse_eq_ok_iff_readersTake {text : String} {r : Reference} :
    parse text = .ok r ↔
      ∃ atDomain atSteps atColon atItem atFilters atMark atProperty atEnd,
        ReadersTake text r atDomain atSteps atColon atItem atFilters atMark atProperty
          atEnd := by
  unfold parse
  simp only [bind_eq_ok_iff, Prod.exists]
  constructor
  · intro hparts
    rcases hparts with
      ⟨atDomain, hstart, domain, atSteps, hdomain, steps, atColon, hsteps, hread⟩
    split at hread
    · contradiction
    next category hcategory =>
      simp only [bind_eq_ok_iff, Prod.exists, pure, Except.pure,
        Except.ok.injEq] at hread
      obtain ⟨atItem, hcolon, item, atFilters, hitem, filters, atMark, hfilters,
        property, atEnd, hproperty, _, hend, rfl⟩ := hread
      refine ⟨atDomain, atSteps, atColon, atItem, atFilters, atMark, _, atEnd,
        hstart, ?_, ?_, hcolon, hitem, hfilters, rfl, hproperty,
        finish_eq_ok_iff.mp hend⟩
      · rw [String.toList_ofList]
        exact hdomain
      · have hne : steps ≠ [] := by
          intro heq
          subst heq
          simp at hcategory
        rw [List.getLast?_eq_some_getLast hne, Option.some.injEq] at hcategory
        simp only [← hcategory, List.dropLast_concat_getLast]
        exact hsteps
  · intro htake
    obtain ⟨atDomain, atSteps, atColon, atItem, atFilters, atMark, atProperty, atEnd,
      hstart, hdomain, hsteps, hcolon, hitem, hfilters, hoptional, hproperty, hend⟩ := htake
    refine ⟨atDomain, hstart, r.domain.toList, atSteps, hdomain, r.path ++ [r.category],
      atColon, hsteps, ?_⟩
    simp only [List.getLast?_append, List.getLast?_singleton, Option.or, bind_eq_ok_iff,
      Prod.exists]
    refine ⟨atItem, hcolon, r.item, atFilters, hitem, r.filters, atMark, hfilters, ?_⟩
    rw [hoptional]
    refine ⟨r.property, atEnd, hproperty, (), finish_eq_ok_iff.mpr hend, ?_⟩
    simp [pure, Except.pure]

theorem head_behind {separator : Char} {names : List String} :
    ∀ c ∈ (behind separator names).head?, c = separator := by
  cases names with
  | nil => simp
  | cons name names => simp

theorem head_after_filters {optional : Bool} {property : List String} :
    ∀ c ∈ (markText optional ++ behind '.' property).head?, c = '?' ∨ c = '.' := by
  cases optional with
  | true => simp [markText]
  | false => exact fun c hc => Or.inr (head_behind c hc)

theorem head_after_item {filters : List Char} {parsed : List Filter} {optional : Bool}
    {property : List String} (hfilters : FiltersText filters parsed) :
    ∀ c ∈ (filters ++ (markText optional ++ behind '.' property)).head?,
      c = '[' ∨ c = '?' ∨ c = '.' := by
  cases hfilters with
  | absent => exact fun c hc => Or.inr (head_after_filters c hc)
  | block hbody => simp

/-- An item ends in front of a filter block, a mark, a property and the end. -/
theorem itemEnds_of_head {rest : List Char}
    (hhead : ∀ c ∈ rest.head?, c = '[' ∨ c = '?' ∨ c = '.') : ItemEnds rest := by
  constructor
  · intro c hc
    rcases hhead c hc with rfl | rfl | rfl <;> decide
  · intro hparts
    rcases hparts with ⟨c, more, rfl, _⟩
    have hblank := hhead ' ' rfl
    revert hblank
    decide

/-- The readers take every part of a written form, as each part ends where the next one
starts. -/
theorem readersTake_of_referenceText {text : String} {r : Reference}
    (htext : ReferenceText text.toList r) :
    ∃ atDomain atSteps atColon atItem atFilters atMark atProperty atEnd,
      ReadersTake text r atDomain atSteps atColon atItem atFilters atMark atProperty
        atEnd := by
  obtain ⟨atEnd, hwhole, hend⟩ :
      ∃ atEnd, (Cursor.start text).Takes text.toList atEnd ∧ atEnd.rest = [] :=
    ⟨⟨Text.byteLength text.toList, []⟩, ⟨by simp [Cursor.start], by simp [Cursor.start]⟩, rfl⟩
  generalize text.toList = chars at htext hwhole
  obtain ⟨hdomain, hsteps, hitem, hfilters, hproperty⟩ := htext
  obtain ⟨atProperty, hwhole, hpropertyTakes⟩ := Cursor.takes_append_iff.mp hwhole
  obtain ⟨atMark, hwhole, hmarkTakes⟩ := Cursor.takes_append_iff.mp hwhole
  obtain ⟨atFilters, hwhole, hfiltersTakes⟩ := Cursor.takes_append_iff.mp hwhole
  obtain ⟨atColon, hwhole, hitemTakes⟩ := Cursor.takes_append_iff.mp hwhole
  obtain ⟨atSteps, hwhole, hstepsTakes⟩ := Cursor.takes_append_iff.mp hwhole
  rw [← List.singleton_append, Cursor.takes_append_iff] at hwhole hitemTakes
  obtain ⟨atDomain, hstartTakes, hdomainTakes⟩ := hwhole
  obtain ⟨atItem, hcolonTakes, hitemTakes⟩ := hitemTakes
  -- From the end backwards, what is left at each cursor starts with the next part.
  have hpropertyRest : atProperty.rest = behind '.' r.property := by
    rw [hpropertyTakes.rest, hend, List.append_nil]
  have hmarkRest : atMark.rest = markText r.optional ++ behind '.' r.property := by
    rw [hmarkTakes.rest, hpropertyRest]
  have hitemEnds : ItemEnds atFilters.rest := by
    rw [hfiltersTakes.rest, hmarkRest]
    exact itemEnds_of_head (head_after_item hfilters)
  have hstepsEnd : NameEnds atColon.rest := by
    rw [hcolonTakes.rest]
    exact nameEnds_cons (by decide)
  have hdomainEnds : NameEnds atSteps.rest := by
    rw [hstepsTakes.rest]
    exact nameEnds_behind (by decide) _ hstepsEnd
  refine ⟨atDomain, atSteps, atColon, atItem, atFilters, atMark, atProperty, atEnd,
    expect_eq_ok_iff.mpr hstartTakes,
    name_eq_ok_iff.mpr ⟨by rwa [String.ofList_toList], hdomainTakes, hdomainEnds⟩,
    (chain_eq_ok_iff (by decide) (le_refl _)).mpr
      ⟨hsteps, hstepsTakes, ?_, fun _ => hstepsEnd⟩,
    expect_eq_ok_iff.mpr hcolonTakes,
    itemSelector_eq_ok_iff.mpr ⟨_, hitem, hitemTakes, Or.inr hitemEnds⟩,
    filterBlock?_eq_ok_iff.mpr ⟨_, hfilters, hfiltersTakes, ?_⟩,
    optionalMark_eq_iff.mpr ⟨hmarkTakes, ?_⟩,
    (chain_eq_ok_iff (by decide) (le_refl _)).mpr ⟨hproperty, hpropertyTakes, ?_, ?_⟩,
    hend⟩
  · rw [hcolonTakes.rest]
    simp
  · intro _ hhead
    rw [hmarkRest] at hhead
    rcases head_after_filters '[' hhead with h | h <;> contradiction
  · intro _ hhead
    rw [hpropertyRest] at hhead
    have h := head_behind '?' hhead
    contradiction
  · rw [hend]
    simp
  · intro _
    rw [hend]
    simp [NameEnds]

/-- The parts that the readers take make up a written form. -/
theorem referenceText_of_readersTake {text : String} {r : Reference}
    {atDomain atSteps atColon atItem atFilters atMark atProperty atEnd : Cursor}
    (hread : ReadersTake text r atDomain atSteps atColon atItem atFilters atMark
      atProperty atEnd) :
    ReferenceText text.toList r := by
  have hstart := expect_eq_ok_iff.mp hread.start
  obtain ⟨hdomain, hdomainTakes, _⟩ := name_eq_ok_iff.mp hread.domain
  obtain ⟨hsteps, hstepsTakes, _⟩ :=
    (chain_eq_ok_iff (by decide) (le_refl _)).mp hread.steps
  have hcolon := expect_eq_ok_iff.mp hread.colon
  obtain ⟨item, hitem, hitemTakes, _⟩ := itemSelector_eq_ok_iff.mp hread.item
  obtain ⟨filters, hfilters, hfiltersTakes, _⟩ := filterBlock?_eq_ok_iff.mp hread.filters
  have hmarkTakes := (optionalMark_eq_iff.mp hread.optional).1
  obtain ⟨hproperty, hpropertyTakes, _⟩ :=
    (chain_eq_ok_iff (by decide) (le_refl _)).mp hread.property
  rw [String.ofList_toList] at hdomain
  have htext : text.toList =
      '@' :: r.domain.toList ++ behind '/' (r.path ++ [r.category]) ++ ':' :: item ++
        filters ++ markText r.optional ++ behind '.' r.property := by
    calc
      text.toList = ['@'] ++ atDomain.rest := hstart.rest
      _ = _ := by
          rw [hdomainTakes.rest, hstepsTakes.rest, hcolon.rest, hitemTakes.rest,
            hfiltersTakes.rest, hmarkTakes.rest, hpropertyTakes.rest, hread.finished]
          simp
  rw [htext]
  exact .intro hdomain hsteps hitem hfilters hproperty

theorem referenceText_of_parse {text : String} {r : Reference}
    (hread : parse text = .ok r) : ReferenceText text.toList r := by
  obtain ⟨_, _, _, _, _, _, _, _, htake⟩ := parse_eq_ok_iff_readersTake.mp hread
  exact referenceText_of_readersTake htake

theorem parse_of_referenceText {text : String} {r : Reference}
    (htext : ReferenceText text.toList r) : parse text = .ok r :=
  parse_eq_ok_iff_readersTake.mpr (readersTake_of_referenceText htext)

/-- Reading a text succeeds exactly on the written forms of references, and gives the
reference that the text is a written form of. -/
theorem parse_eq_ok_iff_referenceText (text : String) (r : Reference) :
    parse text = .ok r ↔ ReferenceText text.toList r :=
  ⟨referenceText_of_parse, parse_of_referenceText⟩

end Reference
end GameCatalog
