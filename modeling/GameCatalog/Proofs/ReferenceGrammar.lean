import GameCatalog.Reference.Basic

/-!
# The grammar of references

The written form of references as relations between texts and what they stand for,
without any reader:

    reference  = '@' name ('/' name)+ ':' item filters? '?'? ('.' name)*
    item       = '*' | name (' ' name)*
    filters    = '[' condition (('&' | ',') condition)* ']'
    condition  = path (operator value)?
    path       = name ('.' name)*

Blanks count in items only: around the path and the value of a condition they are
trimmed.  A value is free text, so the operator in front of it is the longest one that
stands there.
-/

namespace GameCatalog
namespace Grammar

/-- ASCII letters and digits, `_` and `-`. -/
def NameChar (c : Char) : Prop :=
  ('A' ≤ c ∧ c ≤ 'Z') ∨ ('a' ≤ c ∧ c ≤ 'z') ∨ ('0' ≤ c ∧ c ≤ '9') ∨ c = '_' ∨ c = '-'

/-- A run of name characters that is not empty. -/
structure Name (name : String) : Prop where
  nonempty : name.toList ≠ []
  chars : ∀ c ∈ name.toList, NameChar c

/-- Names in a row, each behind the separator. -/
def behind (separator : Char) (names : List String) : List Char :=
  names.flatMap fun name => separator :: name.toList

@[simp] theorem behind_nil (separator : Char) : behind separator [] = [] := rfl

@[simp] theorem behind_cons (separator : Char) (name : String) (names : List String) :
    behind separator (name :: names) =
      separator :: (name.toList ++ behind separator names) := by
  simp [behind]

/-- A star, or names joined by single blanks. -/
inductive ItemText : List Char → ItemSelector → Prop where
  | wildcard : ItemText ['*'] .wildcard
  | named {words : List String}
      (hne : words ≠ []) (hwords : ∀ word ∈ words, Name word) :
      ItemText (Text.joined " " words).toList (.named (Text.joined " " words))

/-- Names joined by dots once the blanks at both ends are trimmed. -/
structure PathText (text : List Char) (path : List String) : Prop where
  nonempty : path ≠ []
  names : ∀ name ∈ path, Name name
  trimmed : Text.trim text = (Text.joined "." path).toList

/-- The characters that operators are made of. -/
def OperatorChar (c : Char) : Prop :=
  c = '=' ∨ c = '!' ∨ c = '<' ∨ c = '>'

/-- Of the operators with which the text starts, the longest. -/
structure LongestOperator (text : List Char) (op : FilterOp) (rest : List Char) :
    Prop where
  proper : op ≠ .present
  text_eq : text = op.symbol.toList ++ rest
  longest : ∀ other : FilterOp, other ≠ .present → other.symbol.toList <+: text →
    other.symbol.length ≤ op.symbol.length

/-- A path that must be there, or a path compared with a value. -/
inductive ConditionText : List Char → Filter → Prop where
  | present {text : List Char} {path : List String}
      (hpath : PathText text path) (hplain : ∀ c ∈ text, ¬ OperatorChar c) :
      ConditionText text ⟨path, .present, none⟩
  | compared {before tail rest : List Char} {path : List String} {op : FilterOp}
      (hpath : PathText before path) (hplain : ∀ c ∈ before, ¬ OperatorChar c)
      (hop : LongestOperator tail op rest) (hvalue : Text.trim rest ≠ []) :
      ConditionText (before ++ tail)
        ⟨path, op, some (String.ofList (Text.trim rest))⟩

/-- The characters that a condition cannot hold. -/
def BlockChar (c : Char) : Prop :=
  c = '[' ∨ c = ']' ∨ c = '&' ∨ c = ','

/-- One condition or more, separated by `&` or `,`. -/
inductive ConditionsText : List Char → List Filter → Prop where
  | last {text : List Char} {filter : Filter}
      (hplain : ∀ c ∈ text, ¬ BlockChar c) (hcondition : ConditionText text filter) :
      ConditionsText text [filter]
  | next {text rest : List Char} {separator : Char} {filter : Filter}
      {filters : List Filter}
      (hplain : ∀ c ∈ text, ¬ BlockChar c) (hcondition : ConditionText text filter)
      (hseparator : separator = '&' ∨ separator = ',')
      (hrest : ConditionsText rest filters) :
      ConditionsText (text ++ separator :: rest) (filter :: filters)

/-- Nothing, or conditions in brackets. -/
inductive FiltersText : List Char → List Filter → Prop where
  | absent : FiltersText [] []
  | block {body : List Char} {filters : List Filter}
      (hbody : ConditionsText body filters) :
      FiltersText ('[' :: (body ++ [']'])) filters

def markText (optional : Bool) : List Char :=
  if optional then ['?'] else []

/-- The written forms of a reference.  The steps are the path and, last, the category. -/
inductive ReferenceText : List Char → Reference → Prop where
  | intro {r : Reference} {item filters : List Char}
      (hdomain : Name r.domain)
      (hsteps : ∀ step ∈ r.path ++ [r.category], Name step)
      (hitem : ItemText item r.item)
      (hfilters : FiltersText filters r.filters)
      (hproperty : ∀ name ∈ r.property, Name name) :
      ReferenceText
        ('@' :: r.domain.toList ++ behind '/' (r.path ++ [r.category]) ++ ':' :: item ++
          filters ++ markText r.optional ++ behind '.' r.property) r

end Grammar
end GameCatalog
