import GameCatalog.Proofs.CategorySearch

/-!
# Candidates are one block of the catalog

Leftover steps select the category to which they lead from the top level, or else one that
is named like the last step, or else the whole catalog.  The candidates are the items of
what is selected, so they are one piece of the list of all items.
-/

namespace GameCatalog
namespace Category

variable {name : String} {category : Category} {forest : List Category} {place : List Nat}
  {steps : List String}

/-- The steps lead down to the category, at each level by way of the first category of the
step's name. -/
inductive Walk : List Category → List String → List Nat → Category → Prop where
  | last {forest : List Category} {name : String} {i : Nat} {category : Category}
      (hfirst : NamedFirst name forest i category) : Walk forest [name] [i] category
  | step {forest : List Category} {name : String} {i : Nat} {parent category : Category}
      {rest : List String} {place : List Nat} (hfirst : NamedFirst name forest i parent)
      (hwalk : Walk parent.children rest place category) :
      Walk forest (name :: rest) (i :: place) category

theorem follow_cons (name : String) (hsteps : steps ≠ []) :
    follow forest (name :: steps) =
      (Category.named name forest).bind fun parent => follow parent.children steps := by
  cases steps with
  | nil => contradiction
  | cons next rest =>
      simp only [follow]
      cases Category.named name forest <;> rfl

theorem Walk.steps_ne_nil (hwalk : Walk forest steps place category) : steps ≠ [] := by
  cases hwalk <;> simp

theorem follow_eq_some_iff :
    follow forest steps = some category ↔ ∃ place, Walk forest steps place category := by
  induction steps generalizing forest with
  | nil =>
      simp only [follow, reduceCtorEq, false_iff, not_exists]
      intro place hwalk
      exact hwalk.steps_ne_nil rfl
  | cons name rest ih =>
      cases rest with
      | nil =>
          rw [follow, named_eq_some_iff]
          constructor
          · rintro ⟨i, hfirst⟩
            exact ⟨[i], .last hfirst⟩
          · rintro ⟨place, hwalk⟩
            cases hwalk with
            | last hfirst => exact ⟨_, hfirst⟩
            | step _ hwalk => exact absurd rfl hwalk.steps_ne_nil
      | cons next rest =>
          rw [follow_cons name (List.cons_ne_nil next rest), Option.bind_eq_some_iff]
          constructor
          · rintro ⟨parent, hparent, hfound⟩
            obtain ⟨i, hfirst⟩ := named_eq_some_iff.mp hparent
            obtain ⟨place, hwalk⟩ := ih.mp hfound
            exact ⟨i :: place, .step hfirst hwalk⟩
          · rintro ⟨place, hwalk⟩
            cases hwalk with
            | @step _ _ i parent _ _ below hfirst hwalk =>
                exact ⟨parent, named_eq_some_iff.mpr ⟨i, hfirst⟩, ih.mpr ⟨below, hwalk⟩⟩

theorem Walk.at (hwalk : Walk forest steps place category) : At forest place category := by
  induction hwalk with
  | last hfirst => exact .top hfirst.found
  | step hfirst _ ih => exact .nested hfirst.found ih

theorem Walk.getLast?_eq (hwalk : Walk forest steps place category) :
    steps.getLast? = some category.name := by
  induction hwalk with
  | last hfirst => simp [hfirst.holds]
  | step _ hwalk ih => rw [List.getLast?_cons, ih]; rfl

theorem Walk.unique {other : List Nat} {reached : Category}
    (hwalk : Walk forest steps place category) (hother : Walk forest steps other reached) :
    place = other ∧ category = reached := by
  induction hwalk generalizing other with
  | last hfirst =>
      cases hother with
      | last hfirst' =>
          obtain ⟨rfl, hsame⟩ := hfirst.unique hfirst'
          exact ⟨rfl, hsame⟩
      | step _ hwalk => exact absurd rfl hwalk.steps_ne_nil
  | step hfirst hwalk ih =>
      cases hother with
      | last _ => exact absurd rfl hwalk.steps_ne_nil
      | step hfirst' hwalk' =>
          obtain ⟨rfl, rfl⟩ := hfirst.unique hfirst'
          obtain ⟨rfl, hsame⟩ := ih hwalk'
          exact ⟨rfl, hsame⟩

end Category

namespace Shape

open Category

variable {shape : Shape} {steps : List String} {category : Category} {place other : List Nat}

/-! ## The selected place -/

/-- The steps lead to the place or, if they lead to none, it is the first place in the order
of the search whose category is named like the last step. -/
def Selects (shape : Shape) (steps : List String) (place : List Nat) : Prop :=
  (∃ category, Walk shape.categories steps place category) ∨
    (∀ other category, ¬ Walk shape.categories steps other category) ∧
      ∃ leaf category, steps.getLast? = some leaf ∧
        FirstBy SoughtBefore leaf shape.categories place category

theorem Selects.unique (hselects : shape.Selects steps place)
    (hother : shape.Selects steps other) : place = other := by
  rcases hselects with ⟨category, hwalk⟩ | ⟨hnowhere, leaf, category, hlast, hfirst⟩
  · rcases hother with ⟨_, hwalk'⟩ | ⟨hnowhere, _⟩
    · exact (hwalk.unique hwalk').1
    · exact absurd hwalk (hnowhere place category)
  · rcases hother with ⟨category', hwalk⟩ | ⟨_, leaf', category', hlast', hfirst'⟩
    · exact absurd hwalk (hnowhere other category')
    · obtain rfl := Option.some.inj (hlast.symm.trans hlast')
      exact hfirst.unique hfirst'

theorem candidates_cases (shape : Shape) (steps : List String) :
    (∃ place category, shape.Selects steps place ∧ At shape.categories place category ∧
        shape.candidates steps = category.allItems) ∨
      (∀ place, ¬ shape.Selects steps place) ∧ shape.candidates steps = shape.allItems := by
  unfold candidates selectedCategory
  cases hfollowed : shape.categoryAt steps with
  | some category =>
      obtain ⟨place, hwalk⟩ := follow_eq_some_iff.mp hfollowed
      exact .inl ⟨place, category, .inl ⟨category, hwalk⟩, hwalk.at, rfl⟩
  | none =>
      have hnowhere : ∀ place category, ¬ Walk shape.categories steps place category := by
        intro place category hwalk
        have hfound := follow_eq_some_iff.mpr ⟨place, hwalk⟩
        rw [categoryAt, hfound] at hfollowed
        contradiction
      cases hlast : steps.getLast? with
      | none =>
          refine .inr ⟨?_, rfl⟩
          rintro place (⟨category, hwalk⟩ | ⟨_, leaf, category, hleaf, _⟩)
          · exact hnowhere place category hwalk
          · simp [hlast] at hleaf
      | some leaf =>
          rcases findCategory_cases shape leaf with
            ⟨hnone, hempty⟩ | ⟨category, place, hfound, hfirst⟩
          · refine .inr ⟨?_, by simp [hnone]⟩
            rintro place (⟨category, hwalk⟩ | ⟨_, leaf', category, hleaf, hfirst⟩)
            · exact hnowhere place category hwalk
            · obtain rfl := Option.some.inj (hlast.symm.trans hleaf)
              exact hempty place ⟨category, hfirst.found, hfirst.named⟩
          · exact .inl ⟨place, category, .inr ⟨hnowhere, leaf, category, hlast, hfirst⟩,
              hfirst.found, by simp [hfound]⟩

/-! ## The block -/

/-- No category is selected: there are no steps, no categories, or none that is named like
the last step. -/
def SelectsAll (shape : Shape) (steps : List String) : Prop :=
  steps = [] ∨ shape.isTyped = false ∨
    ∀ leaf, steps.getLast? = some leaf → ∀ place, ¬ NamedAt leaf shape.categories place

/-- The candidates are the items of the category at the place, which is named like the last
step and is the one to which the steps lead if they lead to any. -/
structure SelectedAt (shape : Shape) (steps : List String) (place : List Nat)
    (category : Category) : Prop where
  found : At shape.categories place category
  named : steps.getLast? = some category.name
  candidates : shape.candidates steps = category.allItems
  block : ∃ behind,
    shape.allItems = itemsAhead shape.categories place ++ shape.candidates steps ++ behind
  walked : ∀ other reached, Walk shape.categories steps other reached →
    place = other ∧ category = reached

theorem allItems_eq_of_at (hat : At shape.categories place category) :
    shape.allItems = allItemsOf shape.categories := by
  cases shape with
  | flat items => exact absurd hat not_at_nil
  | typed categories => rfl

theorem Selects.named (hselects : shape.Selects steps place)
    (hat : At shape.categories place category) : steps.getLast? = some category.name := by
  rcases hselects with ⟨reached, hwalk⟩ | ⟨_, leaf, reached, hlast, hfirst⟩
  · rw [hat.unique hwalk.at]
    exact hwalk.getLast?_eq
  · rw [hat.unique hfirst.found, hlast, hfirst.named]

theorem Selects.walked (hselects : shape.Selects steps place)
    (hat : At shape.categories place category) :
    ∀ other reached, Walk shape.categories steps other reached →
      place = other ∧ category = reached := by
  intro other reached hwalk
  obtain rfl : place = other := hselects.unique (.inl ⟨reached, hwalk⟩)
  exact ⟨rfl, hat.unique hwalk.at⟩

theorem Selects.selectedAt (hselects : shape.Selects steps place)
    (hat : At shape.categories place category)
    (hcandidates : shape.candidates steps = category.allItems) :
    SelectedAt shape steps place category where
  found := hat
  named := hselects.named hat
  candidates := hcandidates
  block := by
    rw [hcandidates, allItems_eq_of_at hat]
    exact hat.allItemsOf_eq
  walked := hselects.walked hat

/-- If a category is named like the last step, the steps select a place. -/
theorem selectsAll_of_no_place (hnone : ∀ place, ¬ shape.Selects steps place) :
    SelectsAll shape steps := by
  refine .inr (.inr fun leaf hlast place hnamed => ?_)
  rcases findCategory_cases shape leaf with ⟨_, hempty⟩ | ⟨category, first, _, hfirst⟩
  · exact hempty place hnamed
  · refine hnone first (.inr ⟨fun other reached hwalk => ?_, leaf, category, hlast, hfirst⟩)
    exact hnone other (.inl ⟨reached, hwalk⟩)

theorem not_selectsAll (hfound : At shape.categories place category)
    (hnamed : steps.getLast? = some category.name) : ¬ SelectsAll shape steps := by
  rintro (rfl | hflat | hnone)
  · simp at hnamed
  · cases shape with
    | flat items => exact not_at_nil hfound
    | typed categories => simp [isTyped] at hflat
  · exact hnone _ hnamed place ⟨category, hfound, rfl⟩

theorem selection_cases (shape : Shape) (steps : List String) :
    (SelectsAll shape steps ∧ shape.candidates steps = shape.allItems) ∨
      ∃ place category, SelectedAt shape steps place category := by
  rcases candidates_cases shape steps with
    ⟨place, category, hselects, hat, hcandidates⟩ | ⟨hnone, hcandidates⟩
  · exact .inr ⟨place, category, hselects.selectedAt hat hcandidates⟩
  · exact .inl ⟨selectsAll_of_no_place hnone, hcandidates⟩

theorem candidates_infix_allItems (shape : Shape) (steps : List String) :
    shape.candidates steps <:+: shape.allItems := by
  rcases selection_cases shape steps with ⟨_, hall⟩ | ⟨place, category, hselected⟩
  · exact ⟨[], [], by simp [hall]⟩
  · obtain ⟨behind, hblock⟩ := hselected.block
    exact ⟨_, behind, hblock.symm⟩

/-- The candidates are one block of the catalog: all of it, or the items of one category. -/
theorem candidates_one_block (shape : Shape) (steps : List String) :
    shape.candidates steps <:+: shape.allItems ∧
    (SelectsAll shape steps → shape.candidates steps = shape.allItems) ∧
    (¬ SelectsAll shape steps → ∃ place category, SelectedAt shape steps place category) := by
  refine ⟨candidates_infix_allItems shape steps, ?_⟩
  rcases selection_cases shape steps with ⟨hall, hcandidates⟩ | ⟨place, category, hselected⟩
  · exact ⟨fun _ => hcandidates, fun hnot => absurd hall hnot⟩
  · have hsome := not_selectsAll hselected.found hselected.named
    exact ⟨fun hall => absurd hall hsome, fun _ => ⟨place, category, hselected⟩⟩

end Shape
end GameCatalog
