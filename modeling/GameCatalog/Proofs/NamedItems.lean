import GameCatalog.Proofs.CandidateBlocks

/-!
# Locating a named item

A selector is the name of an item or its slug.  An item is looked for among the candidates
and then in the whole catalog, of which the candidates are a part, so it is located whenever
the catalog has one.  In either list the first item of that name comes before the first with
that slug.
-/

namespace GameCatalog
namespace Item

variable {selector : String} {items : List Item} {item : Item}

/-- The selector is the item's name or its slug. -/
def Answers (selector : String) (item : Item) : Prop :=
  item.name = selector ∨ item.slug = some selector

/-- The first item of that name or, if no item has the name, the first with that slug. -/
def Preferred (selector : String) (items : List Item) (item : Item) : Prop :=
  (∃ i, FirstWith (fun other => other.name = selector) items i item) ∨
    (∀ other ∈ items, other.name ≠ selector) ∧
      ∃ i, FirstWith (fun other => other.slug = some selector) items i item

theorem find?_cases (selector : String) (items : List Item) :
    (find? selector items = none ∧ ∀ item ∈ items, ¬ Answers selector item) ∨
      ∃ item, find? selector items = some item ∧ Preferred selector items item := by
  unfold find?
  cases hnamed : items.find? fun item => item.name == selector with
  | some item =>
      have hfirst := find?_eq_some_iff_firstWith.mp hnamed
      exact .inr ⟨item, rfl, .inl (by simpa using hfirst)⟩
  | none =>
      have hnames : ∀ item ∈ items, item.name ≠ selector := by simpa using hnamed
      cases hslug : items.find? fun item => item.slug == some selector with
      | some item =>
          have hfirst := find?_eq_some_iff_firstWith.mp hslug
          exact .inr ⟨item, rfl, .inr ⟨hnames, by simpa using hfirst⟩⟩
      | none =>
          have hslugs : ∀ item ∈ items, item.slug ≠ some selector := by simpa using hslug
          exact .inl ⟨rfl, fun item hmem hanswers =>
            hanswers.elim (hnames item hmem) (hslugs item hmem)⟩

theorem Preferred.mem (hpreferred : Preferred selector items item) : item ∈ items := by
  rcases hpreferred with ⟨_, hname⟩ | ⟨_, _, hslug⟩
  · exact hname.mem
  · exact hslug.mem

theorem Preferred.answers (hpreferred : Preferred selector items item) :
    Answers selector item := by
  rcases hpreferred with ⟨_, hname⟩ | ⟨_, _, hslug⟩
  · exact .inl hname.holds
  · exact .inr hslug.holds

end Item

namespace Shape

open Category Item

variable {shape : Shape} {steps : List String} {selector : String} {item : Item}

/-! ## The items of the catalog and of its blocks -/

/-- The item is in the flat list, or it is one of the own items of a category. -/
def Stocks : Shape → Item → Prop
  | flat items, item => item ∈ items
  | typed categories, item => Category.Stocks categories item

theorem mem_allItems_iff : item ∈ shape.allItems ↔ shape.Stocks item := by
  cases shape with
  | flat items => exact Iff.rfl
  | typed categories => exact mem_allItemsOf_iff

/-- The item is in the block that the steps select: it is an item of a category at the selected
place or below or, if no place is selected, any item of the catalog. -/
def Offers (shape : Shape) (steps : List String) (item : Item) : Prop :=
  (∃ place below category, shape.Selects steps place ∧
      At shape.categories (place ++ below) category ∧ item ∈ category.items) ∨
    (∀ place, ¬ shape.Selects steps place) ∧ shape.Stocks item

/-- The candidates are the items of the selected block. -/
theorem mem_candidates_iff : item ∈ shape.candidates steps ↔ shape.Offers steps item := by
  rcases candidates_cases shape steps with
    ⟨place, category, hselects, hat, hcandidates⟩ | ⟨hnone, hcandidates⟩
  · rw [hcandidates, hat.mem_allItems_iff]
    constructor
    · rintro ⟨below, found, hdeep, hmem⟩
      exact .inl ⟨place, below, found, hselects, hdeep, hmem⟩
    · rintro (⟨other, below, found, hother, hdeep, hmem⟩ | ⟨hnone, _⟩)
      · obtain rfl := hselects.unique hother
        exact ⟨below, found, hdeep, hmem⟩
      · exact absurd hselects (hnone place)
  · rw [hcandidates, mem_allItems_iff]
    constructor
    · exact fun hstocks => .inr ⟨hnone, hstocks⟩
    · rintro (⟨place, _, _, hselects, _⟩ | ⟨_, hstocks⟩)
      · exact absurd hselects (hnone place)
      · exact hstocks

/-! ## Locating -/

/-- The item is the preferred one of the candidates or, if none of these answers to the
selector, of the whole catalog. -/
def Located (shape : Shape) (steps : List String) (selector : String) (item : Item) : Prop :=
  ((∃ candidate ∈ shape.candidates steps, Answers selector candidate) ∧
      Preferred selector (shape.candidates steps) item) ∨
    (∀ candidate ∈ shape.candidates steps, ¬ Answers selector candidate) ∧
      Preferred selector shape.allItems item

theorem locate_cases (shape : Shape) (steps : List String) (selector : String) :
    (shape.locate steps selector = none ∧ ∀ item ∈ shape.allItems, ¬ Answers selector item) ∨
      ∃ item, shape.locate steps selector = some item ∧ Located shape steps selector item := by
  unfold locate
  rcases find?_cases selector (shape.candidates steps) with
    ⟨hnone, hempty⟩ | ⟨item, hfound, hpreferred⟩
  · rw [hnone]
    rcases find?_cases selector shape.allItems with hnowhere | ⟨item, hfound, hpreferred⟩
    · exact .inl hnowhere
    · exact .inr ⟨item, hfound, .inr ⟨hempty, hpreferred⟩⟩
  · rw [hfound]
    exact .inr ⟨item, rfl, .inl ⟨⟨item, hpreferred.mem, hpreferred.answers⟩, hpreferred⟩⟩

theorem Located.answers (hlocated : Located shape steps selector item) :
    Answers selector item := by
  rcases hlocated with ⟨_, hpreferred⟩ | ⟨_, hpreferred⟩
  · exact hpreferred.answers
  · exact hpreferred.answers

theorem Located.mem_allItems (hlocated : Located shape steps selector item) :
    item ∈ shape.allItems := by
  rcases hlocated with ⟨_, hpreferred⟩ | ⟨_, hpreferred⟩
  · exact (candidates_infix_allItems shape steps).subset hpreferred.mem
  · exact hpreferred.mem

theorem Located.mem_candidates (hlocated : Located shape steps selector item)
    (hcandidate : ∃ candidate ∈ shape.candidates steps, Answers selector candidate) :
    item ∈ shape.candidates steps := by
  rcases hlocated with ⟨_, hpreferred⟩ | ⟨hnone, _⟩
  · exact hpreferred.mem
  · obtain ⟨candidate, hmem, hanswers⟩ := hcandidate
    exact absurd hanswers (hnone candidate hmem)

/-- Whatever the steps are, an item is located if and only if the catalog has one that answers
to the selector; one of the selected block is preferred, and in either list a name comes before
a slug and the first one before the others. -/
theorem locate_anywhere (shape : Shape) (steps : List String) (selector : String) :
    ((∃ item, shape.locate steps selector = some item) ↔
      ∃ item, shape.Stocks item ∧ Answers selector item) ∧
    ∀ item, shape.locate steps selector = some item →
      Answers selector item ∧
      ((∃ candidate, shape.Offers steps candidate ∧ Answers selector candidate) →
        shape.Offers steps item) ∧
      Located shape steps selector item := by
  simp only [← mem_allItems_iff, ← mem_candidates_iff]
  rcases locate_cases shape steps selector with ⟨hnone, hempty⟩ | ⟨item, hfound, hlocated⟩
  · simp only [hnone, reduceCtorEq, exists_false, false_iff, false_implies, implies_true,
      and_true, not_exists, not_and]
    exact hempty
  · rw [hfound]
    refine ⟨⟨fun _ => ⟨item, hlocated.mem_allItems, hlocated.answers⟩, fun _ => ⟨item, rfl⟩⟩, ?_⟩
    intro answer hanswer
    obtain rfl := Option.some.inj hanswer
    exact ⟨hlocated.answers, hlocated.mem_candidates, hlocated⟩

end Shape
end GameCatalog
