import GameCatalog.Text.Blank

/-!
# References

A reference names an item of a catalog, or a draw of one by rarity, and may carry
filters, an optional mark and a chain of properties to follow into the item.  Its text
is `@domain/steps/category:item[filters]?.property`.
-/

namespace GameCatalog

inductive ItemSelector where
  | named (name : String)
  | wildcard
  deriving DecidableEq, Repr

namespace ItemSelector

def name? : ItemSelector → Option String
  | named name => some name
  | wildcard => none

def text : ItemSelector → String
  | named name => name
  | wildcard => "*"

end ItemSelector

inductive FilterOp where
  | present
  | equal
  | notEqual
  | less
  | atMost
  | greater
  | atLeast
  deriving DecidableEq, Repr

namespace FilterOp

def symbol : FilterOp → String
  | present => ""
  | equal => "="
  | notEqual => "!="
  | less => "<"
  | atMost => "<="
  | greater => ">"
  | atLeast => ">="

/-- The operator of that symbol. -/
def ofSymbol : String → FilterOp
  | "=" => equal
  | "!=" => notEqual
  | "<" => less
  | "<=" => atMost
  | ">" => greater
  | ">=" => atLeast
  | _ => present

end FilterOp

/-- A condition on a property.  Conditions are read and written but never tested. -/
structure Filter where
  path : List String
  op : FilterOp
  value : Option String
  deriving DecidableEq, Repr

namespace Filter

def text (filter : Filter) : String :=
  Text.joined "." filter.path ++ filter.value.elim "" (filter.op.symbol ++ ·)

end Filter

/-- The last step of the path is the category; how much of the path belongs to the
catalog's key is found out by looking. -/
structure Reference where
  domain : String
  path : List String
  category : String
  item : ItemSelector
  filters : List Filter
  optional : Bool
  property : List String
  deriving DecidableEq, Repr

namespace Reference

def isWildcard (r : Reference) : Bool :=
  r.item == .wildcard

theorem isWildcard_iff {r : Reference} : r.isWildcard = true ↔ r.item = .wildcard := by
  simp [isWildcard]

/-- All steps below the domain. -/
def steps (r : Reference) : List String :=
  r.path ++ [r.category]

def propertyText? (r : Reference) : Option String :=
  if r.property.isEmpty then none else some (Text.joined "." r.property)

/-- Domain, steps and item, as diagnostics name a reference. -/
def target (r : Reference) : String :=
  r.domain ++ "/" ++ Text.joined "/" r.steps ++ ":" ++ r.item.text

def text (r : Reference) : String :=
  let filters :=
    if r.filters.isEmpty then "" else "[" ++ Text.joined "&" (r.filters.map Filter.text) ++ "]"
  let mark := if r.optional then "?" else ""
  "@" ++ r.target ++ filters ++ mark ++ String.join (r.property.map ("." ++ ·))

end Reference
end GameCatalog
