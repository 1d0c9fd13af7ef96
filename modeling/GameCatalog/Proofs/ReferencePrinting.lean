import GameCatalog.Proofs.ReferenceReading

/-!
# Printing references

Printing puts the path, the operator and the value of a condition next to each other.
A value that starts with an equals sign then runs together with `<` and `>`, as another
operator is longer.  This is the only way in which the text of a well-formed reference
fails to be one of its written forms.
-/

namespace GameCatalog

open Grammar

/-! ## Well-formed references -/

/-- A value that fills its condition up to the separator and has no blanks at its
ends. -/
structure Operand (value : String) : Prop where
  nonempty : value.toList ≠ []
  trimmed : Text.SoundEnds Text.isBlank value.toList
  inside : ∀ c ∈ value.toList, ¬ BlockChar c

/-- A path that must be there, or a path compared with an operand. -/
structure Filter.WellFormed (filter : Filter) : Prop where
  nonempty : filter.path ≠ []
  names : ∀ name ∈ filter.path, Name name
  operand : (filter.op = .present ∧ filter.value = none) ∨
    (filter.op ≠ .present ∧ ∃ value, filter.value = some value ∧ Operand value)

/-- Printed, the operator and the value start with the characters of a longer
operator. -/
def Filter.RunsTogether (filter : Filter) : Prop :=
  (filter.op = .less ∨ filter.op = .greater) ∧
    ∃ value ∈ filter.value, value.toList.head? = some '='

structure Reference.WellFormed (r : Reference) : Prop where
  domain : Name r.domain
  steps : ∀ step ∈ r.path ++ [r.category], Name step
  item : ItemText r.item.text.toList r.item
  filters : ∀ filter ∈ r.filters, filter.WellFormed
  property : ∀ name ∈ r.property, Name name

/-! ## Printed filters -/

theorem Grammar.behind_eq_cons_intercalate {separator : Char} {names : List String}
    (hne : names ≠ []) :
    behind separator names =
      separator :: [separator].intercalate (names.map String.toList) := by
  induction names with
  | nil => contradiction
  | cons name rest ih =>
      by_cases hnil : rest = []
      · simp [hnil]
      · rw [behind_cons, ih hnil, List.map_cons,
          List.intercalate_cons_of_ne_nil (by simpa using hnil), List.append_assoc,
          List.singleton_append]

namespace Filter

open Reference

theorem mem_joined_path {path : List String} (hnames : ∀ name ∈ path, Name name) :
    ∀ c ∈ (Text.joined "." path).toList, NameChar c ∨ c = '.' := by
  intro c hc
  rw [toList_joined] at hc
  rcases Text.mem_intercalate hc with hdot | ⟨part, hpart, hmem⟩
  · exact Or.inr hdot
  · obtain ⟨name, hname, rfl⟩ := List.mem_map.mp hpart
    exact Or.inl ((hnames name hname).chars c hmem)

theorem not_mem_joined_path {path : List String} (hnames : ∀ name ∈ path, Name name)
    {c : Char} (hname : isNameChar c = false) (hdot : c ≠ '.') :
    c ∉ (Text.joined "." path).toList := by
  intro hmem
  rcases mem_joined_path hnames c hmem with hchar | hchar
  · rw [(isNameChar_iff c).mpr hchar] at hname
    contradiction
  · exact hdot hchar

theorem pathText_joined {path : List String} (hne : path ≠ [])
    (hnames : ∀ name ∈ path, Name name) : PathText (Text.joined "." path).toList path := by
  have hplain : ∀ c ∈ (Text.joined "." path).toList, Text.isBlank c = false := by
    intro c hc
    rcases mem_joined_path hnames c hc with hchar | rfl
    · exact isBlank_of_nameChar hchar
    · rfl
  exact ⟨hne, hnames, Text.strip_eq_self (Text.soundEnds_of_forall hplain)⟩

theorem plain_joined {path : List String} (hnames : ∀ name ∈ path, Name name) :
    ∀ c ∈ (Text.joined "." path).toList, ¬ OperatorChar c := by
  intro c hc hoperator
  rcases hoperator with rfl | rfl | rfl | rfl <;>
    exact not_mem_joined_path hnames (by decide) (by decide) hc

theorem inside_joined {path : List String} (hnames : ∀ name ∈ path, Name name) :
    ∀ c ∈ (Text.joined "." path).toList, ¬ BlockChar c := by
  intro c hc hblock
  rcases hblock with rfl | rfl | rfl | rfl <;>
    exact not_mem_joined_path hnames (by decide) (by decide) hc

/-- An operator stays the longest unless it and the text behind it run together. -/
theorem longestOperator_append_iff {op : FilterOp} (hproper : op ≠ .present)
    {rest : List Char} :
    LongestOperator (op.symbol.toList ++ rest) op rest ↔
      ¬ ((op = .less ∨ op = .greater) ∧ rest.head? = some '=') := by
  rw [← operator?_eq_some_iff]
  cases op with
  | present => contradiction
  | equal => simp [FilterOp.symbol, operator?]
  | notEqual => simp [FilterOp.symbol, operator?]
  | atMost => simp [FilterOp.symbol, operator?]
  | atLeast => simp [FilterOp.symbol, operator?]
  | less =>
      constructor
      · intro hread hruns
        obtain ⟨_, hhead⟩ := hruns
        obtain ⟨more, rfl⟩ := List.head?_eq_some_iff.mp hhead
        simp [FilterOp.symbol, operator?] at hread
      · intro hapart
        exact operator?_less fun hhead => hapart ⟨Or.inl rfl, hhead⟩
  | greater =>
      constructor
      · intro hread hruns
        obtain ⟨_, hhead⟩ := hruns
        obtain ⟨more, rfl⟩ := List.head?_eq_some_iff.mp hhead
        simp [FilterOp.symbol, operator?] at hread
      · intro hapart
        exact operator?_greater fun hhead => hapart ⟨Or.inr rfl, hhead⟩

theorem exists_longestOperator {op : FilterOp} (hproper : op ≠ .present)
    (rest : List Char) :
    ∃ other more, LongestOperator (op.symbol.toList ++ rest) other more := by
  by_cases hruns : (op = .less ∨ op = .greater) ∧ rest.head? = some '='
  · obtain ⟨hop, hhead⟩ := hruns
    obtain ⟨more, rfl⟩ := List.head?_eq_some_iff.mp hhead
    rcases hop with rfl | rfl
    · exact ⟨.atMost, more, operator?_eq_some_iff.mp rfl⟩
    · exact ⟨.atLeast, more, operator?_eq_some_iff.mp rfl⟩
  · exact ⟨op, rest, (longestOperator_append_iff hproper).mpr hruns⟩

theorem toList_text (filter : Filter) :
    filter.text.toList = (Text.joined "." filter.path).toList ++
      filter.value.elim [] fun value => filter.op.symbol.toList ++ value.toList := by
  rw [text, String.toList_append]
  cases filter.value with
  | none => rfl
  | some value => rw [Option.elim_some, Option.elim_some, String.toList_append]

/-- A printed condition is a written form of its filter unless operator and value run
together. -/
theorem conditionText_text_iff {filter : Filter} (hfilter : filter.WellFormed) :
    ConditionText filter.text.toList filter ↔ ¬ filter.RunsTogether := by
  obtain ⟨path, op, value⟩ := filter
  obtain ⟨hne, hnames, ⟨hop, hvalue⟩ | ⟨hop, operand, hvalue, hoperand⟩⟩ := hfilter
  · dsimp only at hne hnames hop hvalue
    subst hop hvalue
    rw [toList_text, Option.elim_none, List.append_nil]
    have hapart : ¬ RunsTogether ⟨path, .present, none⟩ := by simp [RunsTogether]
    exact iff_of_true (.present (pathText_joined hne hnames) (plain_joined hnames)) hapart
  · dsimp only at hne hnames hop hvalue
    subst hvalue
    have htrim : Text.trim operand.toList = operand.toList :=
      Text.strip_eq_self hoperand.trimmed
    have hruns : RunsTogether ⟨path, op, some operand⟩ ↔
        (op = .less ∨ op = .greater) ∧ operand.toList.head? = some '=' := by
      simp [RunsTogether]
    rw [toList_text, Option.elim_some, hruns, ← longestOperator_append_iff hop]
    constructor
    · intro hcondition
      -- Whatever operator is the longest there is the one that was read.
      obtain ⟨other, more, hlongest⟩ := exists_longestOperator hop operand.toList
      have hread : condition 0 _ = .ok _ := condition_eq_ok_iff.mpr hcondition
      rw [condition_of_operator (plain_joined hnames) hlongest,
        filterPath_eq_ok_iff.mpr (pathText_joined hne hnames)] at hread
      simp only [Except.bind] at hread
      split at hread
      · contradiction
      · simp only [Except.ok.injEq, Filter.mk.injEq, true_and] at hread
        obtain ⟨rfl, _⟩ := hread
        have hmore : more = operand.toList :=
          (List.append_cancel_left hlongest.text_eq).symm
        rwa [hmore] at hlongest
    · intro hlongest
      have hcondition := ConditionText.compared (pathText_joined hne hnames)
        (plain_joined hnames) hlongest (by rw [htrim]; exact hoperand.nonempty)
      rwa [htrim, String.ofList_toList] at hcondition

theorem inside_text {filter : Filter} (hfilter : filter.WellFormed) :
    ∀ c ∈ filter.text.toList, ¬ BlockChar c := by
  intro c hc
  rw [toList_text, List.mem_append] at hc
  rcases hc with hpath | hcomparison
  · exact inside_joined hfilter.names c hpath
  · rcases hfilter.operand with ⟨_, hvalue⟩ | ⟨_, operand, hvalue, hoperand⟩
    · rw [hvalue] at hcomparison
      contradiction
    · rw [hvalue, Option.elim_some, List.mem_append] at hcomparison
      rcases hcomparison with hsymbol | hmem
      · revert c
        cases filter.op <;> simp [FilterOp.symbol, BlockChar]
      · exact hoperand.inside c hmem

/-- Filters that are read are well-formed. -/
theorem wellFormed_of_conditionText {text : List Char} {filter : Filter}
    (hinside : ∀ c ∈ text, ¬ BlockChar c) (hcondition : ConditionText text filter) :
    filter.WellFormed := by
  cases hcondition with
  | present hpath _ => exact ⟨hpath.nonempty, hpath.names, Or.inl ⟨rfl, rfl⟩⟩
  | @compared before tail rest path op hpath _ hop hvalue =>
      refine ⟨hpath.nonempty, hpath.names, Or.inr ⟨hop.proper, _, rfl, ?_⟩⟩
      constructor
      · rwa [String.toList_ofList]
      · rw [String.toList_ofList]
        exact Text.soundEnds_strip Text.isBlank rest
      · intro c hc
        rw [String.toList_ofList] at hc
        apply hinside c
        rw [hop.text_eq]
        have hmem := Text.mem_of_mem_strip hc
        simp [hmem]

/-! ## Printed filter blocks -/

theorem wellFormed_of_conditionsText {body : List Char} {filters : List Filter}
    (hbody : ConditionsText body filters) : ∀ filter ∈ filters, filter.WellFormed := by
  induction hbody with
  | last hinside hcondition =>
      exact List.forall_mem_singleton.mpr (wellFormed_of_conditionText hinside hcondition)
  | next hinside hcondition _ _ ih =>
      exact List.forall_mem_cons.mpr
        ⟨wellFormed_of_conditionText hinside hcondition, ih⟩

theorem wellFormed_of_filtersText {taken : List Char} {filters : List Filter}
    (htext : FiltersText taken filters) : ∀ filter ∈ filters, filter.WellFormed := by
  cases htext with
  | absent => simp
  | block hbody => exact wellFormed_of_conditionsText hbody

theorem conditionsText_text_iff {filters : List Filter} (hne : filters ≠ [])
    (hfilters : ∀ filter ∈ filters, filter.WellFormed) :
    ConditionsText (Text.joined "&" (filters.map text)).toList filters ↔
      ∀ filter ∈ filters, ConditionText filter.text.toList filter := by
  have hinside : ∀ part ∈ (filters.map text).map String.toList, ∀ c ∈ part,
      ¬ BlockChar c := by
    intro part hpart
    rw [List.map_map] at hpart
    obtain ⟨filter, hmem, rfl⟩ := List.mem_map.mp hpart
    exact inside_text (hfilters filter hmem)
  have hbrackets : NoBrackets (Text.joined "&" (filters.map text)).toList := by
    intro c hc
    rw [toList_joined] at hc
    rcases Text.mem_intercalate hc with rfl | ⟨part, hpart, hmem⟩
    · decide
    · exact (not_blockChar_iff.mp (hinside part hpart c hmem)).1
  have hpieces : Text.pieces isSeparator (Text.joined "&" (filters.map text)).toList =
      (filters.map text).map String.toList := by
    rw [toList_joined]
    apply Text.pieces_intercalate (by decide) (by simpa using hne)
    exact fun part hpart c hc => (not_blockChar_iff.mp (hinside part hpart c hc)).2
  rw [conditionsText_iff, hpieces, List.map_map, List.forall₂_map_left_iff,
    List.forall₂_same]
  exact and_iff_right hbrackets

/-- The filters of a printed reference. -/
def blockText (filters : List Filter) : List Char :=
  if filters.isEmpty then []
  else '[' :: ((Text.joined "&" (filters.map text)).toList ++ [']'])

theorem filtersText_blockText_iff {filters : List Filter} :
    FiltersText (blockText filters) filters ↔
      ∀ filter ∈ filters, filter.WellFormed ∧ ¬ filter.RunsTogether := by
  cases filters with
  | nil => exact iff_of_true .absent (by simp)
  | cons first others =>
      have hblock : FiltersText (blockText (first :: others)) (first :: others) ↔
          ConditionsText (Text.joined "&" ((first :: others).map text)).toList
            (first :: others) := by
        constructor
        · intro htext
          generalize htaken : blockText (first :: others) = taken at htext
          cases htext with
          | block hbody =>
              rw [blockText, List.isEmpty_cons, if_neg (by simp), List.cons.injEq] at htaken
              rwa [List.append_cancel_right htaken.2]
        · exact .block
      rw [hblock]
      constructor
      · intro hbody filter hmem
        have hfilters := wellFormed_of_conditionsText hbody
        have hconditions := (conditionsText_text_iff (by simp) hfilters).mp hbody
        exact ⟨hfilters filter hmem,
          (conditionText_text_iff (hfilters filter hmem)).mp (hconditions filter hmem)⟩
      · intro hall
        rw [conditionsText_text_iff (by simp) fun filter hmem => (hall filter hmem).1]
        intro filter hmem
        exact (conditionText_text_iff (hall filter hmem).1).mpr (hall filter hmem).2

end Filter

/-! ## Printed references -/

namespace Reference

theorem eq_text_of_itemText {item : List Char} {selector : ItemSelector}
    (hitem : ItemText item selector) : item = selector.text.toList := by
  cases hitem with
  | wildcard => rfl
  | named _ _ => rfl

theorem toList_text (r : Reference) :
    r.text.toList =
      '@' :: r.domain.toList ++ behind '/' (r.path ++ [r.category]) ++
        ':' :: r.item.text.toList ++ Filter.blockText r.filters ++ markText r.optional ++
        behind '.' r.property := by
  have hsteps : behind '/' (r.path ++ [r.category]) =
      '/' :: ['/'].intercalate ((r.path ++ [r.category]).map String.toList) :=
    behind_eq_cons_intercalate (by simp)
  have hfilters : (if r.filters.isEmpty then ""
      else "[" ++ Text.joined "&" (r.filters.map Filter.text) ++ "]").toList =
      Filter.blockText r.filters := by
    unfold Filter.blockText
    split <;> simp
  have hmark : (if r.optional then "?" else "").toList = markText r.optional := by
    unfold markText
    split <;> simp
  have hproperty : (String.join (r.property.map ("." ++ ·))).toList =
      behind '.' r.property := by
    simp [String.toList_join, behind, List.flatMap_map]
  simp only [text, target, steps, String.toList_append, hfilters, hmark, hproperty,
    toList_joined, hsteps]
  simp

/-- The printed text is a written form exactly of well-formed references without
operators that run together with their values. -/
theorem referenceText_text_iff (r : Reference) :
    ReferenceText r.text.toList r ↔
      r.WellFormed ∧ ∀ filter ∈ r.filters, ¬ filter.RunsTogether := by
  constructor
  · intro htext
    generalize hchars : r.text.toList = chars at htext
    cases htext with
    | intro hdomain hsteps hitem hfilters hproperty =>
        rw [toList_text, eq_text_of_itemText hitem] at hchars
        simp only [List.append_cancel_right_eq, List.append_cancel_left_eq] at hchars
        rw [← hchars, Filter.filtersText_blockText_iff] at hfilters
        rw [eq_text_of_itemText hitem] at hitem
        refine ⟨⟨hdomain, hsteps, hitem, ?_, hproperty⟩, ?_⟩
        · exact fun filter hmem => (hfilters filter hmem).1
        · exact fun filter hmem => (hfilters filter hmem).2
  · intro hparts
    rcases hparts with ⟨hformed, hapart⟩
    rw [toList_text]
    apply ReferenceText.intro hformed.domain hformed.steps hformed.item _ hformed.property
    rw [Filter.filtersText_blockText_iff]
    exact fun filter hmem => ⟨hformed.filters filter hmem, hapart filter hmem⟩

/-- References that are read are well-formed. -/
theorem wellFormed_of_referenceText {text : List Char} {r : Reference}
    (htext : ReferenceText text r) : r.WellFormed := by
  cases htext with
  | intro hdomain hsteps hitem hfilters hproperty =>
      rw [eq_text_of_itemText hitem] at hitem
      exact ⟨hdomain, hsteps, hitem, Filter.wellFormed_of_filtersText hfilters, hproperty⟩

/-- Reading a reference and printing it gives a text that reads as the same reference,
unless `<` or `>` stands in front of a value that starts with `=`. -/
theorem parse_text_eq_ok_iff_of_parse {text : String} {r : Reference}
    (hread : parse text = .ok r) :
    parse r.text = .ok r ↔ ∀ filter ∈ r.filters, ¬ filter.RunsTogether := by
  have hformed := wellFormed_of_referenceText (referenceText_of_parse hread)
  constructor
  · intro hagain
    exact ((referenceText_text_iff r).mp (referenceText_of_parse hagain)).2
  · intro hapart
    exact parse_of_referenceText ((referenceText_text_iff r).mpr ⟨hformed, hapart⟩)

theorem parse_text_eq_ok_iff_of_parse_spaced :
    parse "@items/weapons:*[a.b < 5 , c= =x]?.name" =
        .ok ⟨"items", [], "weapons", .wildcard,
          [⟨["a", "b"], .less, some "5"⟩, ⟨["c"], .equal, some "=x"⟩], true, ["name"]⟩ ∧
      parse (Reference.text ⟨"items", [], "weapons", .wildcard,
          [⟨["a", "b"], .less, some "5"⟩, ⟨["c"], .equal, some "=x"⟩], true, ["name"]⟩) =
        .ok ⟨"items", [], "weapons", .wildcard,
          [⟨["a", "b"], .less, some "5"⟩, ⟨["c"], .equal, some "=x"⟩], true, ["name"]⟩ := by
  have hread : parse "@items/weapons:*[a.b < 5 , c= =x]?.name" =
      .ok ⟨"items", [], "weapons", .wildcard,
        [⟨["a", "b"], .less, some "5"⟩, ⟨["c"], .equal, some "=x"⟩], true, ["name"]⟩ := by
    decide
  refine ⟨hread, (parse_text_eq_ok_iff_of_parse hread).mpr ?_⟩
  simp [Filter.RunsTogether]

/-- A blank keeps `<` and `=` apart, but it is not printed. -/
theorem parse_text_ne_of_blank_between :
    parse "@items/weapons:*[a< =5]" =
        .ok ⟨"items", [], "weapons", .wildcard, [⟨["a"], .less, some "=5"⟩], false, []⟩ ∧
      parse (Reference.text
          ⟨"items", [], "weapons", .wildcard, [⟨["a"], .less, some "=5"⟩], false, []⟩) =
        .ok ⟨"items", [], "weapons", .wildcard, [⟨["a"], .atMost, some "5"⟩], false, []⟩ ∧
      ¬ ∀ text r, parse text = .ok r → parse r.text = .ok r := by
  have hread : parse "@items/weapons:*[a< =5]" =
      .ok ⟨"items", [], "weapons", .wildcard, [⟨["a"], .less, some "=5"⟩], false, []⟩ := by
    decide
  have hagain : parse (Reference.text
      ⟨"items", [], "weapons", .wildcard, [⟨["a"], .less, some "=5"⟩], false, []⟩) =
      .ok ⟨"items", [], "weapons", .wildcard, [⟨["a"], .atMost, some "5"⟩], false, []⟩ := by
    decide
  refine ⟨hread, hagain, fun hfaithful => ?_⟩
  have hsame := hfaithful _ _ hread
  rw [hagain] at hsame
  revert hsame
  decide

end Reference
end GameCatalog
