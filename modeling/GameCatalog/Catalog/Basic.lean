import GameCatalog.Catalog.Category
import GameCatalog.Catalog.Key
import GameCatalog.Catalog.Metadata
import GameCatalog.Json.Parser

/-!
# Catalogs

A catalog is a JSON object read once: its metadata, its shape and the document itself.
-/

namespace GameCatalog

structure Catalog where
  key : CatalogKey
  metadata : Metadata
  shape : Shape
  document : Json

namespace Catalog

def byteOrderMark : Char := '\ufeff'

/-- The text without one leading byte order mark. -/
def withoutMark (text : String) : String :=
  match text.toList with
  | c :: rest => if c = byteOrderMark then String.ofList rest else text
  | [] => text

def notAnObject : String := "catalog root is not an object"

def notJson : String := "not a JSON document"

def ofJson (key : CatalogKey) : Json → Except Fault Catalog
  | .object fields =>
      .ok {
        key := key
        metadata := Metadata.ofDocument fields
        shape := Shape.ofFields fields
        document := .object fields }
  | _ => .error (.malformedCatalog key.text notAnObject)

def parse (key : CatalogKey) (text : String) : Except Fault Catalog :=
  match Json.parse? (withoutMark text) with
  | some document => ofJson key document
  | none => .error (.malformedCatalog key.text notJson)

/-- A typed catalog takes no items from its root, so root items are worth a warning. -/
def ignoresRootItems (catalog : Catalog) : Bool :=
  catalog.shape.isTyped && (catalog.document.get? "items").isSome

def itemCount (catalog : Catalog) : Nat :=
  catalog.shape.allItems.length

end Catalog
end GameCatalog
