import GameCatalog.Json.Basic
import GameCatalog.Number.Style

/-!
# References mentioned in a document

A document mentions a reference wherever one of its texts starts with `@`, whether or
not it reads as one.  Mentions are listed depth first in document order, each with the
way to it from the root `$`.
-/

namespace GameCatalog

structure Mention where
  text : String
  location : String
  deriving DecidableEq, Repr

namespace Mention

def looksLikeReference (text : String) : Bool :=
  text.toList.head? == some '@'

theorem looksLikeReference_iff {text : String} :
    looksLikeReference text = true ↔ ∃ rest, text = "@" ++ rest := by
  rw [looksLikeReference, beq_iff_eq, List.head?_eq_some_iff]
  constructor
  · rintro ⟨rest, htext⟩
    exact ⟨String.ofList rest, String.toList_inj.mp (by simp [htext])⟩
  · rintro ⟨rest, rfl⟩
    exact ⟨rest.toList, by simp⟩

def itemLocation (location : String) (index : Nat) : String :=
  location ++ "[" ++ Number.intText index ++ "]"

def fieldLocation (location key : String) : String :=
  location ++ "." ++ key

mutual

/-- The mentions in a value that lies at the given location. -/
def within (location : String) : Json → List Mention
  | .text s => if looksLikeReference s then [⟨s, location⟩] else []
  | .array items => withinItems location 0 items
  | .object fields => withinFields location fields
  | .null => []
  | .bool _ => []
  | .int _ => []
  | .float _ => []

def withinItems (location : String) (index : Nat) : List Json → List Mention
  | [] => []
  | item :: rest =>
      within (itemLocation location index) item ++ withinItems location (index + 1) rest

def withinFields (location : String) : List (String × Json) → List Mention
  | [] => []
  | (key, value) :: rest =>
      within (fieldLocation location key) value ++ withinFields location rest

end

/-- All mentions of a document. -/
def all (document : Json) : List Mention :=
  within "$" document

end Mention
end GameCatalog
