import GameCatalog.Catalog.Basic
import GameCatalog.Source.Basic

/-!
# The archive

The archive reads catalogs from a source and keeps those it could use until they are
dropped.  Absent, undecodable and malformed documents are not kept, so they are read
again.  It counts its answers from the cache, its reads, and the warnings it gives.
-/

namespace GameCatalog

/-- What a source holds under a key. -/
inductive Document where
  | absent
  | unusable
  | usable (catalog : Catalog)

namespace Document

def markBytes : List UInt8 := [0xEF, 0xBB, 0xBF]

/-- The bytes without one leading byte order mark. -/
def withoutMark (bytes : ByteArray) : ByteArray :=
  if bytes.size ≥ 3 && (bytes.extract 0 3).toList == markBytes then bytes.extract 3 bytes.size
  else bytes

def decode? (bytes : ByteArray) : Option String :=
  String.fromUTF8? (withoutMark bytes)

/-- A document that is not UTF-8 or no JSON object is of no use. -/
def ofBytes (key : CatalogKey) (bytes : ByteArray) : Document :=
  match (decode? bytes).map (Catalog.parse key) with
  | some (.ok catalog) => usable catalog
  | _ => unusable

def ofRead (key : CatalogKey) : Option ByteArray → Document
  | none => absent
  | some bytes => ofBytes key bytes

def catalog? : Document → Option Catalog
  | usable catalog => some catalog
  | _ => none

/-- How many warnings reading the document gives. -/
def warnings : Document → Nat
  | absent => 0
  | unusable => 1
  | usable catalog => if catalog.ignoresRootItems then 1 else 0

end Document

def Source.document (source : Source) (key : CatalogKey) : Except Fault Document :=
  (source.read key).map (Document.ofRead key)

structure Archive where
  source : Source
  cached : Std.ExtTreeMap CatalogKey Catalog
  hits : Nat
  misses : Nat
  loads : Nat
  parseFailures : Nat
  reads : Nat
  warnings : Nat

namespace Archive

/-- An archive that has read nothing yet. -/
def ofSource (source : Source) : Archive where
  source := source
  cached := ∅
  hits := 0
  misses := 0
  loads := 0
  parseFailures := 0
  reads := 0
  warnings := 0

/-- Takes note of a document just read. -/
def record (archive : Archive) (key : CatalogKey) (document : Document) : Archive :=
  match document with
  | .absent => archive
  | .unusable =>
      { archive with
        parseFailures := archive.parseFailures + 1
        warnings := archive.warnings + document.warnings }
  | .usable catalog =>
      { archive with
        cached := archive.cached.insert key catalog
        loads := archive.loads + 1
        warnings := archive.warnings + document.warnings }

/-- A request for which nothing is kept. -/
def miss (archive : Archive) : Archive :=
  { archive with misses := archive.misses + 1 }

/-- What the source answers for the key; it counts how often it is asked. -/
def consult (archive : Archive) (key : CatalogKey) : Except Fault Document × Archive :=
  (archive.source.document key, { archive with reads := archive.reads + 1 })

/-- The catalog kept under the key, or else the one that the source holds now. -/
def load (archive : Archive) (key : CatalogKey) : Except Fault (Option Catalog) × Archive :=
  match archive.cached[key]? with
  | some catalog => (.ok (some catalog), { archive with hits := archive.hits + 1 })
  | none =>
      match archive.miss.consult key with
      | (.error fault, asked) => (.error fault, asked)
      | (.ok document, asked) => (.ok document.catalog?, asked.record key document)

/-- The archive with what it keeps, over a source whose documents have changed. -/
def withSource (archive : Archive) (source : Source) : Archive :=
  { archive with source := source }

def isCached (archive : Archive) (key : CatalogKey) : Bool :=
  archive.cached.contains key

def invalidate (archive : Archive) : Archive :=
  { archive with cached := ∅ }

def invalidateKey (archive : Archive) (key : CatalogKey) : Archive :=
  { archive with cached := archive.cached.erase key }

def cachedKeys (archive : Archive) : List CatalogKey :=
  archive.cached.keys

/-- The share of requests answered from the cache; zero before the first. -/
def hitRate (archive : Archive) : Float :=
  if archive.hits + archive.misses = 0 then 0.0
  else Float.ofNat archive.hits / Float.ofNat (archive.hits + archive.misses)

def warn (archive : Archive) (count : Nat) : Archive :=
  { archive with warnings := archive.warnings + count }

end Archive

/-- Computations that consult the archive and may meet a fault; what they did to the
archive before a fault stays. -/
abbrev ArchiveM := ExceptT Fault (StateM Archive)

namespace ArchiveM

def load (key : CatalogKey) : ArchiveM (Option Catalog) :=
  fun archive => archive.load key

def warn (count : Nat) : ArchiveM Unit :=
  modify fun archive => archive.warn count

def sourceKeys : ArchiveM (List CatalogKey) := do
  let archive ← get
  MonadExcept.ofExcept archive.source.keys

end ArchiveM
end GameCatalog
