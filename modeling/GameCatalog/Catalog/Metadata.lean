import GameCatalog.Json.Basic

/-!
# Metadata of a catalog

A version of any form, a description, a date of the last change as written, and all
other fields.  Metadata that does not read as such counts as absent.
-/

namespace GameCatalog

structure Metadata where
  version : Option Json
  description : Option String
  lastUpdated : Option String
  extra : List (String × Json)

namespace Metadata

def empty : Metadata where
  version := none
  description := none
  lastUpdated := none
  extra := []

/-- A text that may be missing or null; the outer none stands for a wrong type. -/
def optionalText? : Option Json → Option (Option String)
  | none => some none
  | some .null => some none
  | some (.text s) => some (some s)
  | some _ => none

def optionalValue : Option Json → Option Json
  | some .null => none
  | value => value

def knownFields : List String := ["version", "description", "lastUpdated"]

def ofFields? (fields : List (String × Json)) : Option Metadata := do
  let description ← optionalText? (Json.lookup? "description" fields)
  let lastUpdated ← optionalText? (Json.lookup? "lastUpdated" fields)
  return {
    version := optionalValue (Json.lookup? "version" fields)
    description := description
    lastUpdated := lastUpdated
    extra := fields.filter fun field => !knownFields.contains field.1 }

/-- The metadata of a document with these fields. -/
def ofDocument (fields : List (String × Json)) : Metadata :=
  match Json.lookup? "metadata" fields with
  | some (.object fields) => (ofFields? fields).getD empty
  | _ => empty

end Metadata
end GameCatalog
