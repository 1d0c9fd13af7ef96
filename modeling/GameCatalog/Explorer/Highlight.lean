import GameCatalog.Text.Blank

/-!
# Highlighting of lines

Colours mark the parts of the references in a line: sigils, punctuation, wildcards,
filter blocks and properties.  Nothing of the line is changed, and every colour that is
turned on is turned off again.
-/

namespace GameCatalog
namespace Highlight

/-- Colours are escape sequences for terminals. -/
def reset : List Char := "\x1b[0m".toList

def commandColor : List Char := "\x1b[1;35m".toList

def sigilColor : List Char := "\x1b[1;36m".toList

def punctuationColor : List Char := "\x1b[2m".toList

def wildcardColor : List Char := "\x1b[1;33m".toList

def filterColor : List Char := "\x1b[35m".toList

def propertyColor : List Char := "\x1b[32m".toList

def colored (color text : List Char) : List Char :=
  color ++ text ++ reset

/-- The part of a reference that the next character belongs to. -/
inductive Region where
  | plain
  | property
  | filter (insideProperty : Bool)
  deriving DecidableEq, Repr

namespace Region

def isProperty : Region → Bool
  | plain => false
  | property => true
  | filter insideProperty => insideProperty

def ofProperty (isProperty : Bool) : Region :=
  if isProperty then property else plain

end Region

/-- One character outside a filter block, and the region after it. -/
def outside (region : Region) (c : Char) : List Char × Region :=
  if c = '@' then (colored sigilColor [c], .plain)
  else if c = '[' then (filterColor ++ [c], .filter region.isProperty)
  else if c = '*' then (colored wildcardColor [c], region)
  else if c = '/' || c = ':' || c = '?' then (colored punctuationColor [c], region)
  else if c = '.' then (colored punctuationColor [c], .property)
  else if !region.isProperty then ([c], region)
  else if Text.isBlank c then ([c], .plain)
  else (colored propertyColor [c], region)

/-- One character of a filter block; an opening bracket turns its colour on once more. -/
def inside (insideProperty : Bool) (c : Char) : List Char × Region :=
  if c = '[' then (filterColor ++ [c], .filter insideProperty)
  else if c = ']' then (c :: reset, Region.ofProperty insideProperty)
  else ([c], .filter insideProperty)

def step (region : Region) (c : Char) : List Char × Region :=
  match region with
  | .filter insideProperty => inside insideProperty c
  | region => outside region c

/-- An open filter block is closed at the end. -/
def finish : Region → List Char
  | .filter _ => reset
  | _ => []

def spans : Region → List Char → List Char
  | region, [] => finish region
  | region, c :: rest =>
      let (span, after) := step region c
      span ++ spans after rest

/-- A leading command, up to the first blank, has a colour of its own. -/
def coloredLine (line : List Char) : List Char :=
  if line.head? = some ':' then
    colored commandColor (line.takeWhile (!Text.isBlank ·)) ++
      spans .plain (line.dropWhile (!Text.isBlank ·))
  else spans .plain line

/-- The line with its colours; one without a sigil and a colon has none. -/
def highlight (line : List Char) : List Char :=
  if line.any (fun c => c == '@' || c == ':') then coloredLine line else line

end Highlight
end GameCatalog
