import GameCatalog.Number.Style
import GameCatalog.Text.Blank

/-!
# Faults

A fault is misuse or a failure to read: an empty draw, an unreadable file, a text that
is no reference or no setting.  A catalog or item that is merely absent is no fault;
it is reported as a diagnostic.  A trap is the fault of an operation that is asked for
what it cannot do.
-/

namespace GameCatalog

/-- The ends of a part that is cut out of a text. -/
inductive Edge where
  | start
  | stop
  deriving DecidableEq, Repr

def Edge.name : Edge → String
  | start => "start"
  | stop => "end"

/-- A cut is asked for at a byte position, which may lie behind the text or inside a
character; `first` is the position of that character. -/
inductive Trap where
  | placeOutside (length place : Nat)
  | emptyRange
  | sumOutside
  | cutOutside (edge : Edge) (position length : Nat)
  | cutInside (edge : Edge) (position : Nat) (character : Char) (first : Nat)
  deriving DecidableEq, Repr

namespace Trap

/-- A character in quotes, a wide blank by its code point.  There is no table of the other
characters that do not show by themselves; they stand as they are. -/
def quoted (c : Char) : String :=
  if Text.isBlank c && 1 < c.utf8Size then
    "'\\u\x7b" ++ String.ofList (Nat.toDigits 16 c.toNat) ++ "\x7d'"
  else "'" ++ String.singleton c ++ "'"

def message : Trap → String
  | placeOutside length place =>
      "index out of bounds: the len is " ++ Number.intText length ++ " but the index is " ++
        Number.intText place
  | emptyRange => "cannot sample empty range"
  | sumOutside => "attempt to add with overflow"
  | cutOutside edge position length =>
      edge.name ++ " byte index " ++ Number.intText position ++
        " is out of bounds for string of length " ++ Number.intText length
  | cutInside edge position character first =>
      edge.name ++ " byte index " ++ Number.intText position ++
        " is not a char boundary; it is inside " ++ quoted character ++ " (bytes " ++
        Number.intText first ++ ".." ++ Number.intText (first + character.utf8Size) ++
        " of string)"

end Trap

inductive Fault where
  | emptySelection
  | noPositiveWeight (count : Nat)
  | unreadable (path message : String)
  | malformedCatalog (key message : String)
  | invalidReference (reference message : String)
  | misconfigured (message : String)
  | broken (message : String)
  | trapped (trap : Trap)
  deriving DecidableEq, Repr

namespace Fault

def message : Fault → String
  | emptySelection => "cannot select from an empty collection"
  | noPositiveWeight count =>
      "no positive rarity weight among " ++ Number.intText count ++ " candidates"
  | unreadable path cause => "i/o error on " ++ path ++ ": " ++ cause
  | malformedCatalog key cause => "catalog " ++ key ++ " is malformed: " ++ cause
  | invalidReference reference cause => "invalid reference " ++ reference ++ ": " ++ cause
  | misconfigured cause => "configuration error: " ++ cause
  | broken cause => "internal error: " ++ cause
  | trapped trap => trap.message

end Fault

/-- Where a fault was met: a document, a place in it, and the operations that led
there. -/
structure FaultContext where
  source : Option String
  location : Option String
  frames : List String
  deriving DecidableEq, Repr

namespace FaultContext

def text (context : FaultContext) : String :=
  let document := context.source.elim "" ("in " ++ ·)
  let place := if context.source.isSome then context.location.elim "" (" at " ++ ·) else ""
  let trail :=
    if context.frames.isEmpty then ""
    else "\n" ++ String.join (context.frames.map fun frame => "  in " ++ frame ++ "\n")
  document ++ place ++ trail

end FaultContext
end GameCatalog
