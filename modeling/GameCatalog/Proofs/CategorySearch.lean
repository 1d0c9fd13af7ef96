import GameCatalog.Proofs.CategoryPlaces

/-!
# Finding a category by its name

A category of a name is sought at the top level first and then, among the nested ones, in
the document's order.  So it is found whenever there is one, but a nested category is found
before one that is nearer to the top and stands in a later branch.
-/

namespace GameCatalog

/-! ## The first entry with a property -/

/-- At the position stands the first entry of the list that has the property. -/
structure FirstWith {α : Type} (property : α → Prop) (entries : List α) (i : Nat)
    (entry : α) : Prop where
  found : entries[i]? = some entry
  holds : property entry
  first : ∀ j < i, ∀ earlier, entries[j]? = some earlier → ¬ property earlier

section FirstWith

variable {α : Type} {property : α → Prop} {entries : List α} {i j : Nat} {entry other : α}

theorem find?_eq_some_iff_firstWith {p : α → Bool} :
    entries.find? p = some entry ↔ ∃ i, FirstWith (fun a => p a = true) entries i entry := by
  rw [List.find?_eq_some_iff_getElem]
  constructor
  · rintro ⟨hp, i, hi, rfl, hfirst⟩
    refine ⟨i, List.getElem?_eq_getElem hi, hp, ?_⟩
    intro j hj earlier hearlier
    obtain ⟨_, rfl⟩ := List.getElem?_eq_some_iff.mp hearlier
    simpa using hfirst j hj
  · rintro ⟨i, hentry, hp, hfirst⟩
    obtain ⟨hi, rfl⟩ := List.getElem?_eq_some_iff.mp hentry
    refine ⟨hp, i, hi, rfl, ?_⟩
    intro j hj
    simpa using hfirst j hj _ (List.getElem?_eq_getElem (by omega))

theorem FirstWith.mem (hfirst : FirstWith property entries i entry) : entry ∈ entries :=
  List.mem_of_getElem? hfirst.found

theorem FirstWith.unique (hfirst : FirstWith property entries i entry)
    (hother : FirstWith property entries j other) : i = j ∧ entry = other := by
  have hsame : i = j := by
    rcases Nat.lt_trichotomy i j with hless | hsame | hmore
    · exact absurd hfirst.holds (hother.first i hless entry hfirst.found)
    · exact hsame
    · exact absurd hother.holds (hfirst.first j hmore other hother.found)
  subst hsame
  exact ⟨rfl, Option.some.inj (hfirst.found.symm.trans hother.found)⟩

end FirstWith

namespace Category

variable {name : String} {category first : Category} {forest rest : List Category}
  {place : List Nat} {i : Nat}

/-- At the place stands the category, and every other place of its name comes later in the
order. -/
structure FirstBy (before : List Nat → List Nat → Prop) (name : String)
    (forest : List Category) (place : List Nat) (category : Category) : Prop where
  found : At forest place category
  named : category.name = name
  first : ∀ other, NamedAt name forest other → other = place ∨ before place other

/-! ## The document's order -/

theorem findBelow_eq (category : Category) :
    category.findBelow name = findAmong name category.children := by
  cases category
  rfl

theorem findAmong_cons (first : Category) (rest : List Category) :
    findAmong name (first :: rest) =
      if first.name = name then some first
      else (findAmong name first.children).or (findAmong name rest) := by
  rw [findAmong, findBelow_eq]
  cases findAmong name first.children <;> rfl

theorem firstBy_lt_head (hname : first.name = name) :
    FirstBy (· < ·) name (first :: rest) [0] first := by
  refine ⟨.top rfl, hname, ?_⟩
  intro other hother
  rcases namedAt_cons_iff.mp hother with ⟨rfl, _⟩ | ⟨below, rfl, _, hat, _⟩ | ⟨i, below, rfl, _⟩
  · exact .inl rfl
  · obtain ⟨j, deeper, rfl⟩ := List.exists_cons_of_ne_nil hat.ne_nil
    simp
  · simp [List.cons_lt_cons_iff]

theorem FirstBy.nested (hname : first.name ≠ name)
    (hfirst : FirstBy (· < ·) name first.children place category) :
    FirstBy (· < ·) name (first :: rest) (0 :: place) category := by
  refine ⟨.nested rfl hfirst.found, hfirst.named, ?_⟩
  intro other hother
  rcases namedAt_cons_iff.mp hother with ⟨_, hsame⟩ | ⟨below, rfl, hat⟩ | ⟨i, below, rfl, _⟩
  · exact absurd hsame hname
  · simpa [List.cons_lt_cons_iff] using hfirst.first below hat
  · simp [List.cons_lt_cons_iff]

theorem FirstBy.later (hname : first.name ≠ name)
    (hnone : ∀ place, ¬ NamedAt name first.children place)
    (hfirst : FirstBy (· < ·) name rest (i :: place) category) :
    FirstBy (· < ·) name (first :: rest) ((i + 1) :: place) category := by
  refine ⟨at_cons_iff.mpr (.inr (.inr ⟨i, place, rfl, hfirst.found⟩)), hfirst.named, ?_⟩
  intro other hother
  rcases namedAt_cons_iff.mp hother with ⟨_, hsame⟩ | ⟨below, _, hat⟩ | ⟨j, below, rfl, hat⟩
  · exact absurd hsame hname
  · exact absurd hat (hnone below)
  · simpa [List.cons_lt_cons_iff] using hfirst.first _ hat

theorem findAmong_cases (name : String) (forest : List Category) :
    (findAmong name forest = none ∧ ∀ place, ¬ NamedAt name forest place) ∨
      ∃ category place, findAmong name forest = some category ∧
        FirstBy (· < ·) name forest place category := by
  induction forest using forest_induction with
  | nil => simp [findAmong, NamedAt]
  | cons first rest hbelow hlater =>
      rw [findAmong_cons]
      by_cases hname : first.name = name
      · exact .inr ⟨first, [0], if_pos hname, firstBy_lt_head hname⟩
      rw [if_neg hname]
      rcases hbelow with ⟨hnone, hempty⟩ | ⟨category, place, hfound, hfirst⟩
      · rw [hnone, Option.none_or]
        rcases hlater with ⟨hnone', hempty'⟩ | ⟨category, place, hfound, hfirst⟩
        · refine .inl ⟨hnone', fun place => ?_⟩
          simp [namedAt_cons_iff, hname, hempty, hempty']
        · obtain ⟨i, below, rfl⟩ := List.exists_cons_of_ne_nil hfirst.found.ne_nil
          exact .inr ⟨category, _, hfound, hfirst.later hname hempty⟩
      · rw [hfound, Option.some_or]
        exact .inr ⟨category, _, rfl, hfirst.nested hname⟩

/-! ## The top level -/

/-- The first category of that name in the list. -/
def NamedFirst (name : String) : List Category → Nat → Category → Prop :=
  FirstWith fun category => category.name = name

theorem named_eq_some_iff :
    Category.named name forest = some category ↔ ∃ i, NamedFirst name forest i category := by
  simp only [Category.named, find?_eq_some_iff_firstWith, beq_iff_eq, NamedFirst]

theorem named_eq_none_iff :
    Category.named name forest = none ↔ ∀ category ∈ forest, category.name ≠ name := by
  simp [Category.named]

theorem findAmong_eq_findSome? (hnone : ∀ category ∈ forest, category.name ≠ name) :
    findAmong name forest = forest.findSome? (findBelow name) := by
  induction forest with
  | nil => rfl
  | cons first rest ih =>
      have hrest := ih fun category hmem => hnone category (by simp [hmem])
      rw [findAmong_cons, if_neg (hnone first (by simp)), hrest, List.findSome?_cons, findBelow_eq]
      cases findAmong name first.children <;> rfl

/-- First come the places at the top level, then the others, both in the document's order. -/
def SoughtBefore (place other : List Nat) : Prop :=
  (place.length = 1 ∧ other.length ≠ 1) ∨
    ((place.length = 1 ↔ other.length = 1) ∧ place < other)

theorem SoughtBefore.asymm {other : List Nat} (hbefore : SoughtBefore place other) :
    ¬ SoughtBefore other place := by
  rintro (⟨hone, hmore⟩ | ⟨hsame, hless⟩) <;>
    rcases hbefore with ⟨hone', hmore'⟩ | ⟨hsame', hless'⟩
  · omega
  · omega
  · omega
  · exact List.lt_asymm hless hless'

theorem FirstBy.unique {other : List Nat} {reached : Category}
    (hfirst : FirstBy SoughtBefore name forest place category)
    (hother : FirstBy SoughtBefore name forest other reached) : place = other := by
  rcases hfirst.first other ⟨reached, hother.found, hother.named⟩ with hsame | hless
  · exact hsame.symm
  · rcases hother.first place ⟨category, hfirst.found, hfirst.named⟩ with hsame | hmore
    · exact hsame
    · exact absurd hmore hless.asymm

theorem length_eq_one_of_namedAt (hplace : NamedAt name forest place)
    (hone : place.length = 1) : ∃ i category, place = [i] ∧ forest[i]? = some category ∧
      category.name = name := by
  obtain ⟨category, hat, hname⟩ := hplace
  cases hat with
  | top hentry => exact ⟨_, _, rfl, hentry, hname⟩
  | nested _ hat => simp [hat.ne_nil] at hone

theorem NamedFirst.firstBy (hfirst : NamedFirst name forest i category) :
    FirstBy SoughtBefore name forest [i] category := by
  refine ⟨.top hfirst.found, hfirst.holds, ?_⟩
  intro other hother
  by_cases hone : other.length = 1
  · obtain ⟨j, earlier, rfl, hentry, hname⟩ := length_eq_one_of_namedAt hother hone
    rcases Nat.lt_trichotomy j i with hless | rfl | hmore
    · exact absurd hname (hfirst.first j hless earlier hentry)
    · exact .inl rfl
    · exact .inr (.inr ⟨by simp, List.cons_lt_cons_iff.mpr (.inl hmore)⟩)
  · exact .inr (.inl ⟨rfl, hone⟩)

theorem FirstBy.soughtBefore (hnone : ∀ category ∈ forest, category.name ≠ name)
    (hfirst : FirstBy (· < ·) name forest place category) :
    FirstBy SoughtBefore name forest place category := by
  have hdeep : ∀ other, NamedAt name forest other → other.length ≠ 1 := by
    intro other hother hone
    obtain ⟨i, top, _, hentry, hname⟩ := length_eq_one_of_namedAt hother hone
    exact hnone top (List.mem_of_getElem? hentry) hname
  refine ⟨hfirst.found, hfirst.named, fun other hother => ?_⟩
  have hplace := hdeep place ⟨category, hfirst.found, hfirst.named⟩
  have hother' := hdeep other hother
  exact (hfirst.first other hother).imp id fun hless => .inr ⟨by simp [hplace, hother'], hless⟩

end Category

namespace Shape

open Category

variable {name : String} {category : Category} {place : List Nat}

theorem findCategory_cases (shape : Shape) (name : String) :
    (shape.findCategory name = none ∧ ∀ place, ¬ NamedAt name shape.categories place) ∨
      ∃ category place, shape.findCategory name = some category ∧
        FirstBy SoughtBefore name shape.categories place category := by
  unfold findCategory
  cases hnamed : Category.named name shape.categories with
  | some category =>
      obtain ⟨i, hfirst⟩ := named_eq_some_iff.mp hnamed
      exact .inr ⟨category, [i], rfl, hfirst.firstBy⟩
  | none =>
      have hnone := named_eq_none_iff.mp hnamed
      rw [← findAmong_eq_findSome? hnone]
      rcases findAmong_cases name shape.categories with hempty | ⟨category, place, hfound, hfirst⟩
      · exact .inl hempty
      · exact .inr ⟨category, place, hfound, hfirst.soughtBefore hnone⟩

/-- Nothing is found only if no category has the name.  What is found is first in the order
of the search, and a category of that name nearer to the top can only be a nested one in a
later branch. -/
theorem findCategory_first_sought (shape : Shape) (name : String) :
    (shape.findCategory name = none ↔ ∀ place, ¬ NamedAt name shape.categories place) ∧
    ∀ category, shape.findCategory name = some category →
      ∃ place, FirstBy SoughtBefore name shape.categories place category ∧
        ∀ other, NamedAt name shape.categories other → other.length < place.length →
          1 < other.length ∧ place < other := by
  rcases findCategory_cases shape name with ⟨hnone, hempty⟩ | ⟨category, place, hfound, hfirst⟩
  · simp [hnone, hempty]
  refine ⟨?_, ?_⟩
  · simp only [hfound, reduceCtorEq, false_iff, not_forall, Classical.not_not]
    exact ⟨place, category, hfirst.found, hfirst.named⟩
  · intro answer hanswer
    obtain rfl : category = answer := Option.some.inj (hfound.symm.trans hanswer)
    refine ⟨place, hfirst, ?_⟩
    intro other hother hnearer
    have hsome : 0 < other.length := by
      obtain ⟨_, hat, _⟩ := hother
      exact List.length_pos_iff.mpr hat.ne_nil
    rcases hfirst.first other hother with rfl | ⟨hone, _⟩ | ⟨hsame, hless⟩
    · omega
    · omega
    · exact ⟨by omega, hless⟩

/-! ## A deep category found before a shallow one -/

def pearl : Item :=
  ⟨"pearl", none, none, 1, ∅, .object [("name", .text "pearl")]⟩

def coral : Item :=
  ⟨"coral", none, none, 1, ∅, .object [("name", .text "coral")]⟩

/-- Two categories of one name: three levels down in the first branch, two in the second. -/
def shore : Shape :=
  .typed [⟨"bay", [], [⟨"reef", [], [⟨"finds", [pearl], []⟩]⟩]⟩,
    ⟨"beach", [], [⟨"finds", [coral], []⟩]⟩]

theorem length_of_at_pearls (hat : At shore.categories place ⟨"finds", [pearl], []⟩) :
    place.length = 3 := by
  have hplace : place = [0, 0, 0] := by
    simpa [shore, categories, at_cons_iff, pearl, coral] using hat
  simp [hplace]

/-- What is found need not be nearest to the top. -/
theorem not_findCategory_shallowest :
    ¬ ∀ (shape : Shape) (name : String),
      (∀ category, shape.findCategory name = some category →
        ∃ place, At shape.categories place category ∧ category.name = name ∧
          ∀ other, NamedAt name shape.categories other → place.length ≤ other.length) ∧
      (shape.findCategory name = none → ∀ place, ¬ NamedAt name shape.categories place) := by
  intro hclaim
  obtain ⟨place, hat, _, hshallowest⟩ := (hclaim shore "finds").1 ⟨"finds", [pearl], []⟩ rfl
  have hbeach : NamedAt "finds" shore.categories [1, 0] :=
    ⟨⟨"finds", [coral], []⟩, .nested rfl (.top rfl), rfl⟩
  have hdepth := length_of_at_pearls hat
  have hnearer : place.length ≤ 2 := hshallowest [1, 0] hbeach
  omega

end Shape
end GameCatalog
