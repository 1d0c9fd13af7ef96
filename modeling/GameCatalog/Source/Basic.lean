import GameCatalog.Catalog.Key
import GameCatalog.Source.FileTree

/-!
# Sources of catalog documents

A source answers with a document's bytes, with nothing when it has none, or with a
fault, and it lists the keys of its documents.  Documents may be held in memory or lie
in a folder, the key's domain and path steps leading down to a file of a fixed name.
-/

namespace GameCatalog

structure Source where
  read : CatalogKey → Except Fault (Option ByteArray)
  keys : Except Fault (List CatalogKey)

/-- A source that never meets a fault when it reads. -/
def Source.Readable (source : Source) : Prop :=
  ∀ key, ∃ document, source.read key = .ok document

/-- Documents held in memory, by key. -/
abbrev Documents := Std.ExtTreeMap CatalogKey String

def Documents.source (documents : Documents) : Source where
  read key := .ok ((documents[key]?).map String.toUTF8)
  keys := .ok documents.keys

theorem Documents.source_readable (documents : Documents) : documents.source.Readable :=
  fun key => ⟨(documents[key]?).map String.toUTF8, rfl⟩

/-- A folder of documents: where it is, and the name that every document's file has. -/
structure Folder where
  root : String
  fileName : String
  disk : Disk

namespace Folder

def defaultFileName : String := "catalog.json"

def pathFor (folder : Folder) (key : CatalogKey) : String :=
  Disk.join (key.segments.foldl Disk.join (Disk.join folder.root key.domain)) folder.fileName

/-- A missing file is no document; any other failure is a fault. -/
def read (folder : Folder) (key : CatalogKey) : Except Fault (Option ByteArray) :=
  match folder.disk.read (folder.pathFor key) with
  | .ok bytes => .ok (some bytes)
  | .error .notFound => .ok none
  | .error cause => .error (.unreadable (folder.pathFor key) cause.message)

/-- The key of a file at these names below the root; a file in the root itself has
none. -/
def keyOf? (fileName : String) (names : List String) : Option CatalogKey :=
  match names.getLast?, names.dropLast with
  | some name, domain :: steps =>
      if name = fileName then some (CatalogKey.ofSegments domain steps) else none
  | _, _ => none

def inOrder (a b : CatalogKey) : Bool :=
  compare a b != .gt

/-- The first directory whose path is too long for opening it.  A walk takes the entries of
a directory in the order of their names, so it meets the least of these paths first. -/
def unopened? (folder : Folder) (tree : FileTree) : Option String :=
  let long := tree.directories.filter fun names =>
    Disk.longestPath < (names.foldl Disk.join folder.root).utf8ByteSize
  (long.mergeSort fun a b => compare a b != .gt).head?.map (·.foldl Disk.join folder.root)

def listingFault (folder : Folder) (path : String) (cause : PathFault) : Fault :=
  .unreadable folder.root ("IO error for operation on " ++ path ++ ": " ++ cause.message)

/-- The keys of all files of the folder's file name; a directory that cannot be opened ends
the walk in a fault. -/
def keys (folder : Folder) : Except Fault (List CatalogKey) :=
  match folder.disk.find folder.root with
  | .error cause => .error (folder.listingFault folder.root cause)
  | .ok tree =>
      match folder.unopened? tree with
      | some path => .error (folder.listingFault path .nameTooLong)
      | none => .ok ((tree.files.filterMap (keyOf? folder.fileName)).mergeSort inOrder)

def source (folder : Folder) : Source where
  read := folder.read
  keys := folder.keys

end Folder
end GameCatalog
