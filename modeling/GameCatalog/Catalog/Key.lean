import GameCatalog.Fault
import Std.Data.ExtTreeMap

/-!
# Catalog keys

A key addresses a catalog document by a domain and a path below it; the empty path is
the domain's root document.  Keys are ordered by domain, then by path.
-/

namespace GameCatalog

structure CatalogKey where
  domain : String
  path : String
  deriving DecidableEq, Repr

namespace CatalogKey

instance : Ord CatalogKey :=
  ⟨compareLex (compareOn CatalogKey.domain) (compareOn CatalogKey.path)⟩

instance : Std.TransOrd CatalogKey :=
  inferInstanceAs
    (Std.TransCmp (compareLex (compareOn CatalogKey.domain) (compareOn CatalogKey.path)))

theorem compare_eq (a b : CatalogKey) :
    compare a b = (compare a.domain b.domain).then (compare a.path b.path) := rfl

instance : Std.LawfulEqOrd CatalogKey where
  compare_self := Std.ReflCmp.compare_self
  eq_of_compare {a b} h := by
    rw [compare_eq, Ordering.then_eq_eq] at h
    have hdomain := Std.LawfulEqOrd.eq_of_compare h.1
    have hpath := Std.LawfulEqOrd.eq_of_compare h.2
    cases a
    cases b
    simp_all

def ofSegments (domain : String) (segments : List String) : CatalogKey where
  domain := domain
  path := Text.joined "/" segments

def isRoot (key : CatalogKey) : Bool :=
  key.path.isEmpty

/-- The steps of the path; the root document has none. -/
def segments (key : CatalogKey) : List String :=
  if key.path.isEmpty then []
  else (Text.pieces (· == '/') key.path.toList).map String.ofList

def text (key : CatalogKey) : String :=
  if key.path.isEmpty then key.domain else key.domain ++ "/" ++ key.path

/-- Reads `domain` or `domain/path`, without the blanks and then the slashes around it.
The domain and every step of the path must not be empty. -/
def parse (text : String) : Except Fault CatalogKey :=
  let cs := Text.strip (· == '/') (Text.trim text.toList)
  let (domain, path) := (Text.cutFirst? (· == '/') cs).getD (cs, [])
  if domain.isEmpty || (!path.isEmpty && (Text.pieces (· == '/') path).any List.isEmpty) then
    .error (.misconfigured ("invalid catalog key '" ++ String.ofList cs ++ "'"))
  else .ok ⟨String.ofList domain, String.ofList path⟩

end CatalogKey
end GameCatalog
