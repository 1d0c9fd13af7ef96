import GameCatalog.Proofs.ReferencePrinting

/-!
# References that survive printing

Any fields make a reference, but not every reference can be read from a text.  Printed
and read again it is the same only if every field is one that its place in the text can
hold: names where names are read, an item of names or the wildcard, and conditions whose
operator and value do not become another operator.
-/

namespace GameCatalog

open Grammar

/-- A path of names that must be there, or one compared with an operand.  Behind `<` or
`>` the operand does not start with `=`. -/
structure Filter.Legible (filter : Filter) : Prop where
  nonempty : filter.path ≠ []
  names : ∀ name ∈ filter.path, Name name
  operand : (filter.op = .present ∧ filter.value = none) ∨
    (filter.op ≠ .present ∧ ∃ value, filter.value = some value ∧ Operand value ∧
      (filter.op = .less ∨ filter.op = .greater → value.toList.head? ≠ some '='))

/-- Names everywhere, joined by single blanks in the item unless it is the wildcard. -/
structure Reference.Legible (r : Reference) : Prop where
  domain : Name r.domain
  path : ∀ step ∈ r.path, Name step
  category : Name r.category
  item : r.item = .wildcard ∨
    ∃ words : List String, words ≠ [] ∧ (∀ word ∈ words, Name word) ∧
      r.item = .named (Text.joined " " words)
  filters : ∀ filter ∈ r.filters, filter.Legible
  property : ∀ name ∈ r.property, Name name

theorem Filter.legible_iff (filter : Filter) :
    filter.Legible ↔ filter.WellFormed ∧ ¬ filter.RunsTogether := by
  constructor
  · intro hlegible
    rcases hlegible.operand with ⟨hop, hvalue⟩ | ⟨hop, value, hvalue, hoperand, hapart⟩
    · refine ⟨⟨hlegible.nonempty, hlegible.names, .inl ⟨hop, hvalue⟩⟩, ?_⟩
      simp [RunsTogether, hvalue]
    · refine ⟨⟨hlegible.nonempty, hlegible.names, .inr ⟨hop, value, hvalue, hoperand⟩⟩, ?_⟩
      rintro ⟨hcompares, other, hother, hhead⟩
      rw [hvalue, Option.mem_some] at hother
      rw [← hother] at hhead
      exact hapart hcompares hhead
  · rintro ⟨hformed, hapart⟩
    refine ⟨hformed.nonempty, hformed.names, ?_⟩
    rcases hformed.operand with hpresent | ⟨hop, value, hvalue, hoperand⟩
    · exact .inl hpresent
    · refine .inr ⟨hop, value, hvalue, hoperand, ?_⟩
      intro hcompares hhead
      exact hapart ⟨hcompares, value, hvalue, hhead⟩

namespace Reference

theorem itemText_text_iff (item : ItemSelector) :
    ItemText item.text.toList item ↔
      item = .wildcard ∨
        ∃ words : List String, words ≠ [] ∧ (∀ word ∈ words, Name word) ∧
          item = .named (Text.joined " " words) := by
  constructor
  · intro hitem
    generalize item.text.toList = text at hitem
    cases hitem with
    | wildcard => exact .inl rfl
    | named hne hwords => exact .inr ⟨_, hne, hwords, rfl⟩
  · rintro (rfl | ⟨words, hne, hwords, rfl⟩)
    · exact .wildcard
    · exact .named hne hwords

theorem legible_iff (r : Reference) :
    r.Legible ↔ r.WellFormed ∧ ∀ filter ∈ r.filters, ¬ filter.RunsTogether := by
  constructor
  · intro hlegible
    have hfilters (filter : Filter) (hmem : filter ∈ r.filters) :=
      filter.legible_iff.mp (hlegible.filters filter hmem)
    have hsteps : ∀ step ∈ r.path ++ [r.category], Name step :=
      List.forall_mem_append.mpr
        ⟨hlegible.path, List.forall_mem_singleton.mpr hlegible.category⟩
    exact ⟨⟨hlegible.domain, hsteps, (itemText_text_iff r.item).mpr hlegible.item,
      fun filter hmem => (hfilters filter hmem).1, hlegible.property⟩,
      fun filter hmem => (hfilters filter hmem).2⟩
  · rintro ⟨hformed, hapart⟩
    obtain ⟨hpath, hcategory⟩ := List.forall_mem_append.mp hformed.steps
    exact ⟨hformed.domain, hpath, List.forall_mem_singleton.mp hcategory,
      (itemText_text_iff r.item).mp hformed.item,
      fun filter hmem => filter.legible_iff.mpr ⟨hformed.filters filter hmem, hapart filter hmem⟩,
      hformed.property⟩

/-- Printing a reference and reading the text gives the reference back exactly if it is
legible. -/
theorem parse_text_eq_ok_iff_legible (r : Reference) :
    parse r.text = .ok r ↔ r.Legible := by
  rw [legible_iff, ← referenceText_text_iff]
  exact ⟨referenceText_of_parse, parse_of_referenceText⟩

end Reference

/-! ## Deciding legibility -/

namespace Reference

def isName (run : List Char) : Bool :=
  !run.isEmpty && run.all isNameChar

theorem isName_iff (run : List Char) : isName run = true ↔ Name (String.ofList run) := by
  simp [isName, name_ofList_iff]

theorem all_isName_iff (names : List String) :
    (names.all fun name => isName name.toList) = true ↔ ∀ name ∈ names, Name name := by
  simp [isName_iff]

/-- No blanks at the ends, and no character that ends a condition. -/
def isOperand (value : List Char) : Bool :=
  !value.isEmpty && value.head?.all (!Text.isBlank ·) && value.getLast?.all (!Text.isBlank ·) &&
    value.all fun c => c != '[' && c != ']' && !isSeparator c

theorem isOperand_iff (value : String) : isOperand value.toList = true ↔ Operand value := by
  have hblock (c : Char) : (c != '[' && c != ']' && !isSeparator c) = true ↔ ¬ BlockChar c := by
    simp [not_blockChar_iff]
  have hparts : isOperand value.toList = true ↔ value.toList ≠ [] ∧
      (∀ c ∈ value.toList.head?, Text.isBlank c = false) ∧
      (∀ c ∈ value.toList.getLast?, Text.isBlank c = false) ∧
      ∀ c ∈ value.toList, ¬ BlockChar c := by
    simp only [← hblock]
    simp [isOperand, Option.all_eq_true, and_assoc]
  rw [hparts]
  constructor
  · rintro ⟨hne, hhead, hlast, hinside⟩
    exact ⟨hne, ⟨hhead, hlast⟩, hinside⟩
  · rintro ⟨hne, ⟨hhead, hlast⟩, hinside⟩
    exact ⟨hne, hhead, hlast, hinside⟩

/-- The words of an item are its pieces at the blanks. -/
theorem exists_words_iff (name : String) :
    (∃ words : List String, words ≠ [] ∧ (∀ word ∈ words, Name word) ∧
      name = Text.joined " " words) ↔
      (name.toList.splitOn ' ').all isName = true := by
  simp only [List.all_eq_true, isName_iff]
  constructor
  · rintro ⟨words, hne, hnames, rfl⟩
    have hsplit : (Text.joined " " words).toList.splitOn ' ' = words.map String.toList := by
      rw [toList_joined]
      apply List.splitOn_intercalate
      · intro word hword
        obtain ⟨word, hmem, rfl⟩ := List.mem_map.mp hword
        exact not_mem_of_name (hnames word hmem) (by decide)
      · simpa using hne
    rw [hsplit]
    simpa using hnames
  · intro hnames
    refine ⟨(name.toList.splitOn ' ').map String.ofList, by simp, by simpa using hnames, ?_⟩
    rw [← String.toList_inj, toList_joined, map_toList_map_ofList]
    exact (List.intercalate_splitOn ' ').symm

end Reference

open Reference

namespace Filter

/-- Is the value one that the operator is printed with and read back? -/
def isComparison : FilterOp → Option String → Bool
  | .present, value => value.isNone
  | op, some value =>
      isOperand value.toList &&
        !((op == .less || op == .greater) && value.toList.head? == some '=')
  | _, none => false

def isLegible (filter : Filter) : Bool :=
  !filter.path.isEmpty && filter.path.all (fun name => isName name.toList) &&
    isComparison filter.op filter.value

theorem isComparison_iff (op : FilterOp) (value : Option String) :
    isComparison op value = true ↔ (op = .present ∧ value = none) ∨
      (op ≠ .present ∧ ∃ operand, value = some operand ∧ Operand operand ∧
        (op = .less ∨ op = .greater → operand.toList.head? ≠ some '=')) := by
  cases value with
  | none => cases op <;> simp [isComparison]
  | some operand => cases op <;> simp [isComparison, isOperand_iff]

theorem isLegible_iff (filter : Filter) : filter.isLegible = true ↔ filter.Legible := by
  have hparts : filter.isLegible = true ↔ filter.path ≠ [] ∧
      (∀ name ∈ filter.path, Name name) ∧ isComparison filter.op filter.value = true := by
    rw [← all_isName_iff]
    simp [isLegible, and_assoc]
  rw [hparts, isComparison_iff]
  exact ⟨fun ⟨hne, hnames, hvalue⟩ => ⟨hne, hnames, hvalue⟩,
    fun ⟨hne, hnames, hvalue⟩ => ⟨hne, hnames, hvalue⟩⟩

end Filter

namespace Reference

def isItem : ItemSelector → Bool
  | .wildcard => true
  | .named name => (name.toList.splitOn ' ').all isName

theorem isItem_iff (item : ItemSelector) :
    isItem item = true ↔ item = .wildcard ∨
      ∃ words : List String, words ≠ [] ∧ (∀ word ∈ words, Name word) ∧
        item = .named (Text.joined " " words) := by
  cases item with
  | wildcard => simp [isItem]
  | named name =>
      rw [isItem, ← exists_words_iff]
      simp

def isLegible (r : Reference) : Bool :=
  isName r.domain.toList && r.path.all (fun step => isName step.toList) &&
    isName r.category.toList && isItem r.item && r.filters.all Filter.isLegible &&
    r.property.all fun name => isName name.toList

/-- Whether a reference survives printing can be computed from its fields. -/
theorem isLegible_iff (r : Reference) : r.isLegible = true ↔ r.Legible := by
  have hname (name : String) : isName name.toList = true ↔ Name name := by
    rw [isName_iff, String.ofList_toList]
  have hfilters : r.filters.all Filter.isLegible = true ↔
      ∀ filter ∈ r.filters, filter.Legible := by
    simp [Filter.isLegible_iff]
  simp only [isLegible, Bool.and_eq_true, hname, all_isName_iff, isItem_iff, hfilters, and_assoc]
  constructor
  · rintro ⟨hdomain, hpath, hcategory, hitem, hfilters, hproperty⟩
    exact ⟨hdomain, hpath, hcategory, hitem, hfilters, hproperty⟩
  · rintro ⟨hdomain, hpath, hcategory, hitem, hfilters, hproperty⟩
    exact ⟨hdomain, hpath, hcategory, hitem, hfilters, hproperty⟩

end Reference

example : Reference.isLegible ⟨"items", ["a-1"], "weapons", .named "Long sword",
    [⟨["a", "b"], .less, some "5 =x"⟩, ⟨["c"], .present, none⟩], true, ["name"]⟩ = true := by
  decide

example : Reference.isLegible ⟨"items", [], "weapons", .named "Long  sword", [], false, []⟩ =
    false := by
  decide

end GameCatalog
