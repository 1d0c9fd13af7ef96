import GameCatalog.Text.Blank
import Std.Data.ExtTreeMap

/-!
# Name templates

A template is literal text with placeholders in braces.  A placeholder runs from an
opening brace to the next closing one, and its key is taken as it stands; an opening
brace that is never closed is literal, with all that follows.  Filling puts a value,
or nothing, in the place of each placeholder and joins the words of the result by
single blanks.
-/

namespace GameCatalog
namespace Template

inductive Part where
  | literal (c : Char)
  | placeholder (key : String)
  deriving DecidableEq, Repr

/-- The parts of a text, the start of a placeholder's key perhaps already read; the key
is held with its last character first. -/
def partsFrom : Option (List Char) → List Char → List Part
  | none, [] => []
  | some key, [] => ('\x7b' :: key.reverse).map .literal
  | none, c :: rest =>
      if c = '\x7b' then partsFrom (some []) rest else .literal c :: partsFrom none rest
  | some key, c :: rest =>
      if c = '\x7d' then .placeholder (String.ofList key.reverse) :: partsFrom none rest
      else partsFrom (some (c :: key)) rest

def parts (template : String) : List Part :=
  partsFrom none template.toList

/-- Values for placeholders, by key. -/
abbrev Values := Std.ExtTreeMap String String

def Part.fill (values : Values) : Part → List Char
  | literal c => [c]
  | placeholder key => ((values[key]?).map String.toList).getD []

/-- The template with its placeholders filled, before its words are joined. -/
def filled (template : String) (values : Values) : List Char :=
  (parts template).flatMap (Part.fill values)

def joinWords (cs : List Char) : String :=
  Text.joined " " ((Text.words cs).map String.ofList)

def render (template : String) (values : Values) : String :=
  joinWords (filled template values)

end Template
end GameCatalog
