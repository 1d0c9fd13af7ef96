import GameCatalog.Catalog.Category
import Mathlib.Data.List.Basic

/-!
# Places of categories

A category stands at a place in its forest: the positions on the way down to it, one for
each level.  So the number of positions is the depth of the category, and the lexicographic
order of places is the order of the document, in which a category comes ahead of the
categories nested in it.  The items below a place are listed in one piece, behind the items
of everything that the document has ahead of the place.
-/

namespace GameCatalog
namespace Category

/-- In the forest, the category at the place. -/
inductive At : List Category → List Nat → Category → Prop where
  | top {forest : List Category} {i : Nat} {category : Category}
      (hentry : forest[i]? = some category) : At forest [i] category
  | nested {forest : List Category} {i : Nat} {parent category : Category} {place : List Nat}
      (hentry : forest[i]? = some parent) (hat : At parent.children place category) :
      At forest (i :: place) category

/-- At the place stands a category of that name. -/
def NamedAt (name : String) (forest : List Category) (place : List Nat) : Prop :=
  ∃ category, At forest place category ∧ category.name = name

variable {name : String} {category first : Category} {forest rest : List Category}
  {place : List Nat}

@[simp] theorem not_at_nil : ¬ At [] place category := by
  intro hat
  cases hat <;> simp_all

theorem At.ne_nil (hat : At forest place category) : place ≠ [] := by
  cases hat <;> simp

theorem at_cons_iff :
    At (first :: rest) place category ↔
      (place = [0] ∧ category = first) ∨
      (∃ below, place = 0 :: below ∧ At first.children below category) ∨
      ∃ i below, place = (i + 1) :: below ∧ At rest (i :: below) category := by
  constructor
  · intro hat
    cases hat with
    | @top _ i _ hentry =>
        cases i with
        | zero => exact .inl ⟨rfl, by simpa using hentry.symm⟩
        | succ i => exact .inr (.inr ⟨i, [], rfl, .top (by simpa using hentry)⟩)
    | @nested _ i parent _ below hentry hat =>
        cases i with
        | zero =>
            have hparent : first = parent := by simpa using hentry
            exact .inr (.inl ⟨below, rfl, hparent ▸ hat⟩)
        | succ i => exact .inr (.inr ⟨i, below, rfl, .nested (by simpa using hentry) hat⟩)
  · rintro (⟨rfl, rfl⟩ | ⟨below, rfl, hat⟩ | ⟨i, below, rfl, hat⟩)
    · exact .top rfl
    · exact .nested rfl hat
    · cases hat with
      | top hentry => exact .top (by simpa using hentry)
      | nested hentry hat => exact .nested (by simpa using hentry) hat

theorem namedAt_cons_iff :
    NamedAt name (first :: rest) place ↔
      (place = [0] ∧ first.name = name) ∨
      (∃ below, place = 0 :: below ∧ NamedAt name first.children below) ∨
      ∃ i below, place = (i + 1) :: below ∧ NamedAt name rest (i :: below) := by
  constructor
  · rintro ⟨category, hat, hname⟩
    rcases at_cons_iff.mp hat with ⟨hplace, rfl⟩ | ⟨below, hplace, hat⟩ | ⟨i, below, hplace, hat⟩
    · exact .inl ⟨hplace, hname⟩
    · exact .inr (.inl ⟨below, hplace, category, hat, hname⟩)
    · exact .inr (.inr ⟨i, below, hplace, category, hat, hname⟩)
  · rintro (⟨hplace, hname⟩ | ⟨below, hplace, category, hat, hname⟩ |
      ⟨i, below, hplace, category, hat, hname⟩)
    · exact ⟨first, at_cons_iff.mpr (.inl ⟨hplace, rfl⟩), hname⟩
    · exact ⟨category, at_cons_iff.mpr (.inr (.inl ⟨below, hplace, hat⟩)), hname⟩
    · exact ⟨category, at_cons_iff.mpr (.inr (.inr ⟨i, below, hplace, hat⟩)), hname⟩

/-! ## Induction on forests -/

theorem sizeOf_children_lt (category : Category) :
    sizeOf category.children < sizeOf category := by
  cases category
  simp only [mk.sizeOf_spec]
  omega

/-- A forest is empty, or its first category has a forest of its own and others follow. -/
@[elab_as_elim]
theorem forest_induction {motive : List Category → Prop} (nil : motive [])
    (cons : ∀ first rest, motive first.children → motive rest → motive (first :: rest)) :
    (forest : List Category) → motive forest
  | [] => nil
  | first :: rest =>
      cons first rest (forest_induction nil cons first.children) (forest_induction nil cons rest)
termination_by forest => sizeOf forest
decreasing_by
  · have hchildren := sizeOf_children_lt first
    simp only [List.cons.sizeOf_spec]
    omega
  · simp only [List.cons.sizeOf_spec]
    omega

/-! ## Items below a place -/

theorem allItems_eq (category : Category) :
    category.allItems = category.items ++ allItemsOf category.children := by
  cases category
  rfl

theorem allItemsOf_append (ahead behind : List Category) :
    allItemsOf (ahead ++ behind) = allItemsOf ahead ++ allItemsOf behind := by
  simp [allItemsOf_eq_flatMap]

theorem allItemsOf_eq_of_getElem? {i : Nat} (hentry : forest[i]? = some category) :
    allItemsOf forest =
      allItemsOf (forest.take i) ++ category.allItems ++ allItemsOf (forest.drop (i + 1)) := by
  obtain ⟨hi, rfl⟩ := List.getElem?_eq_some_iff.mp hentry
  conv_lhs => rw [← List.take_append_drop i forest, List.drop_eq_getElem_cons hi]
  rw [allItemsOf_append, allItemsOf, List.append_assoc]

/-- The items of everything ahead of the place in the document. -/
def itemsAhead : List Category → List Nat → List Item
  | _, [] => []
  | forest, [i] => allItemsOf (forest.take i)
  | forest, i :: place =>
      match forest[i]? with
      | some parent =>
          allItemsOf (forest.take i) ++ parent.items ++ itemsAhead parent.children place
      | none => []

theorem itemsAhead_nested {i : Nat} {parent : Category} (hentry : forest[i]? = some parent)
    (hplace : place ≠ []) :
    itemsAhead forest (i :: place) =
      allItemsOf (forest.take i) ++ parent.items ++ itemsAhead parent.children place := by
  cases place with
  | nil => contradiction
  | cons j below => simp only [itemsAhead, hentry]

/-- The items of a category are one piece of the list of all items. -/
theorem At.allItemsOf_eq (hat : At forest place category) :
    ∃ behind, allItemsOf forest = itemsAhead forest place ++ category.allItems ++ behind := by
  induction hat with
  | top hentry => exact ⟨_, allItemsOf_eq_of_getElem? hentry⟩
  | @nested forest i parent category place hentry hat ih =>
      obtain ⟨behind, hbelow⟩ := ih
      refine ⟨behind ++ allItemsOf (forest.drop (i + 1)), ?_⟩
      rw [allItemsOf_eq_of_getElem? hentry, itemsAhead_nested hentry hat.ne_nil, allItems_eq,
        hbelow]
      simp only [List.append_assoc]

/-! ## Items at places -/

variable {item : Item} {below : List Nat} {found : Category}

/-- The item is one of the own items of a category at some place. -/
def Stocks (forest : List Category) (item : Item) : Prop :=
  ∃ place category, At forest place category ∧ item ∈ category.items

theorem stocks_cons_iff :
    Stocks (first :: rest) item ↔
      item ∈ first.items ∨ Stocks first.children item ∨ Stocks rest item := by
  constructor
  · rintro ⟨place, category, hat, hmem⟩
    rcases at_cons_iff.mp hat with ⟨_, rfl⟩ | ⟨below, _, hat⟩ | ⟨i, below, _, hat⟩
    · exact .inl hmem
    · exact .inr (.inl ⟨below, category, hat, hmem⟩)
    · exact .inr (.inr ⟨i :: below, category, hat, hmem⟩)
  · rintro (hmem | ⟨below, category, hat, hmem⟩ | ⟨place, category, hat, hmem⟩)
    · exact ⟨[0], first, .top rfl, hmem⟩
    · exact ⟨0 :: below, category, .nested rfl hat, hmem⟩
    · obtain ⟨i, below, rfl⟩ := List.exists_cons_of_ne_nil hat.ne_nil
      exact ⟨_, category, at_cons_iff.mpr (.inr (.inr ⟨i, below, rfl, hat⟩)), hmem⟩

/-- The list of all items has every category's own items and no others. -/
theorem mem_allItemsOf_iff : item ∈ allItemsOf forest ↔ Stocks forest item := by
  induction forest using forest_induction with
  | nil => simp [allItemsOf, Stocks]
  | cons first rest hbelow hlater =>
      rw [allItemsOf, allItems_eq, stocks_cons_iff, List.mem_append, List.mem_append, hbelow,
        hlater, or_assoc]

theorem At.unique (hat : At forest place category) (hfound : At forest place found) :
    category = found := by
  induction hat with
  | top hentry =>
      cases hfound with
      | top hentry' => exact Option.some.inj (hentry.symm.trans hentry')
      | nested _ hbelow => exact absurd rfl hbelow.ne_nil
  | nested hentry hat ih =>
      cases hfound with
      | top _ => exact absurd rfl hat.ne_nil
      | nested hentry' hfound =>
          obtain rfl := Option.some.inj (hentry.symm.trans hentry')
          exact ih hfound

theorem At.append (hat : At forest place category) (hbelow : At category.children below found) :
    At forest (place ++ below) found := by
  induction hat with
  | top hentry => exact .nested hentry hbelow
  | nested hentry _ ih => exact .nested hentry (ih hbelow)

theorem At.of_append (hat : At forest place category) (hdeep : At forest (place ++ below) found)
    (hne : below ≠ []) : At category.children below found := by
  induction hat with
  | top hentry =>
      cases hdeep with
      | top _ => contradiction
      | nested hentry' hbelow =>
          obtain rfl := Option.some.inj (hentry.symm.trans hentry')
          exact hbelow
  | @nested _ _ _ _ place hentry _ ih =>
      rw [List.cons_append] at hdeep
      generalize hplace : place ++ below = deeper at hdeep
      cases hdeep with
      | top _ => simp [hne] at hplace
      | nested hentry' hbelow =>
          obtain rfl := Option.some.inj (hentry.symm.trans hentry')
          exact ih (hplace ▸ hbelow)

/-- The items of a category are the own items of the categories at its place and below. -/
theorem At.mem_allItems_iff (hat : At forest place category) :
    item ∈ category.allItems ↔
      ∃ below found, At forest (place ++ below) found ∧ item ∈ found.items := by
  rw [allItems_eq, List.mem_append, mem_allItemsOf_iff]
  constructor
  · rintro (hmem | ⟨below, found, hbelow, hmem⟩)
    · exact ⟨[], category, by rwa [List.append_nil], hmem⟩
    · exact ⟨below, found, hat.append hbelow, hmem⟩
  · rintro ⟨below, found, hdeep, hmem⟩
    by_cases hnil : below = []
    · subst hnil
      rw [List.append_nil] at hdeep
      exact .inl (hat.unique hdeep ▸ hmem)
    · exact .inr ⟨below, found, hat.of_append hdeep hnil, hmem⟩

end Category
end GameCatalog
