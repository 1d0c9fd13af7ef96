import GameCatalog.Catalog.Item

/-!
# Categories and the shape of a catalog

A catalog is either one flat list of items or typed: a forest of named categories,
each with items of its own and nested categories.  A category is an object entry of a
field whose name ends in `_types`, in the document or in another category.
-/

namespace GameCatalog

structure Category where
  name : String
  items : List Item
  children : List Category

namespace Category

mutual

/-- The items of the category and then those of its nested categories, depth first. -/
def allItems : Category → List Item
  | ⟨_, items, children⟩ => items ++ allItemsOf children

def allItemsOf : List Category → List Item
  | [] => []
  | category :: rest => category.allItems ++ allItemsOf rest

end

theorem allItemsOf_eq_flatMap (categories : List Category) :
    allItemsOf categories = categories.flatMap allItems := by
  induction categories with
  | nil => rfl
  | cons category rest ih => simp [allItemsOf, ih]

mutual

/-- The first category of that name below this one, each category before its own
nested ones. -/
def findBelow (name : String) : Category → Option Category
  | ⟨_, _, children⟩ => findAmong name children

def findAmong (name : String) : List Category → Option Category
  | [] => none
  | category :: rest =>
      if category.name = name then some category
      else
        match category.findBelow name with
        | some found => some found
        | none => findAmong name rest

end

def named (name : String) (categories : List Category) : Option Category :=
  categories.find? fun category => category.name == name

/-- Follows names from the given categories down, the first match at each level. -/
def follow (categories : List Category) : List String → Option Category
  | [] => none
  | [name] => named name categories
  | name :: rest =>
      match named name categories with
      | some category => follow category.children rest
      | none => none

def typesSuffix : List Char := "_types".toList

/-- Fields that hold categories: the document's `metadata` is none. -/
def isTypesField (field : String) : Bool :=
  field != "metadata" && typesSuffix.isSuffixOf field.toList

mutual

/-- The categories that the fields of an object hold, in order. -/
def ofFields : List (String × Json) → List Category
  | [] => []
  | (field, value) :: rest =>
      if isTypesField field then ofTypes value ++ ofFields rest else ofFields rest

def ofTypes : Json → List Category
  | .object entries => ofEntries entries
  | _ => []

def ofEntries : List (String × Json) → List Category
  | [] => []
  | (name, body) :: rest =>
      match ofBody name body with
      | some category => category :: ofEntries rest
      | none => ofEntries rest

def ofBody (name : String) : Json → Option Category
  | .object fields =>
      some ⟨name, Item.listOf (Json.lookup? "items" fields), ofFields fields⟩
  | _ => none

end

end Category

inductive Shape where
  | flat (items : List Item)
  | typed (categories : List Category)

namespace Shape

/-- Typed as soon as one category is found; flat over the root items otherwise. -/
def ofFields (fields : List (String × Json)) : Shape :=
  match Category.ofFields fields with
  | [] => .flat (Item.listOf (Json.lookup? "items" fields))
  | categories => .typed categories

def isTyped : Shape → Bool
  | flat _ => false
  | typed _ => true

def categories : Shape → List Category
  | flat _ => []
  | typed categories => categories

def allItems : Shape → List Item
  | flat items => items
  | typed categories => Category.allItemsOf categories

def categoryAt (shape : Shape) (path : List String) : Option Category :=
  Category.follow shape.categories path

/-- A category of that name: one at the top level if there is one, or else the first
met below the top-level categories in turn. -/
def findCategory (shape : Shape) (name : String) : Option Category :=
  match Category.named name shape.categories with
  | some category => some category
  | none => shape.categories.findSome? (Category.findBelow name)

/-- The category that leftover path steps select: the one they lead to, or else one
named like the last step. -/
def selectedCategory (shape : Shape) (steps : List String) : Option Category :=
  match shape.categoryAt steps with
  | some category => some category
  | none => steps.getLast?.bind shape.findCategory

/-- The items that leftover path steps select: those of the selected category, or all. -/
def candidates (shape : Shape) (steps : List String) : List Item :=
  match shape.selectedCategory steps with
  | some category => category.allItems
  | none => shape.allItems

/-- A named item, looked for among the candidates and then in the whole catalog. -/
def locate (shape : Shape) (steps : List String) (selector : String) : Option Item :=
  match Item.find? selector (shape.candidates steps) with
  | some item => some item
  | none => Item.find? selector shape.allItems

end Shape
end GameCatalog
