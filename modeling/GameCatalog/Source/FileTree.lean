import GameCatalog.Text.Blank

/-!
# File trees

A finite tree of directories and regular files, and the paths that lead through it.
A path is walked name by name; a blank name and `.` stay, `..` goes up, and a walk
fails where a name is missing or where it would have to go below a regular file.
-/

namespace GameCatalog

inductive FileTree where
  | file (bytes : ByteArray)
  | directory (entries : List (String × FileTree))
  deriving Inhabited

inductive PathFault where
  | notFound
  | notDirectory
  | isDirectory
  | nameTooLong
  | badName
  deriving DecidableEq, Repr

namespace PathFault

def message : PathFault → String
  | notFound => "No such file or directory (os error 2)"
  | notDirectory => "Not a directory (os error 20)"
  | isDirectory => "Is a directory (os error 21)"
  | nameTooLong => "File name too long (os error 36)"
  | badName => "file name contained an unexpected NUL byte"

end PathFault

namespace FileTree

def lookup? (name : String) : List (String × FileTree) → Option FileTree
  | [] => none
  | (key, tree) :: rest => if key = name then some tree else lookup? name rest

def putEntry (name : String) (tree : FileTree) :
    List (String × FileTree) → List (String × FileTree)
  | [] => [(name, tree)]
  | (key, old) :: rest =>
      if key = name then (key, tree) :: rest
      else (key, old) :: putEntry name tree rest

def entries : FileTree → List (String × FileTree)
  | file _ => []
  | directory entries => entries

def empty : FileTree := directory []

/-- The longest name, in bytes, that a directory can hold. -/
def longestName : Nat := 255

/-- Walks down from a tree; `above` holds the directories it lies in, nearest first. -/
def walk : List FileTree → FileTree → List String → Except PathFault FileTree
  | _, here, [] => .ok here
  | _, file _, _ :: _ => .error .notDirectory
  | above, directory entries, name :: rest =>
      if name = "" || name = "." then walk above (directory entries) rest
      else if name = ".." then
        match above with
        | [] => walk [] (directory entries) rest
        | parent :: above => walk above parent rest
      else if longestName < name.utf8ByteSize then .error .nameTooLong
      else
        match lookup? name entries with
        | none => .error .notFound
        | some tree => walk (directory entries :: above) tree rest

mutual

/-- The paths of all regular files in the tree, in the order of its entries. -/
def files : FileTree → List (List String)
  | file _ => [[]]
  | directory entries => filesOf entries

def filesOf : List (String × FileTree) → List (List String)
  | [] => []
  | (name, tree) :: rest => tree.files.map (name :: ·) ++ filesOf rest

end

mutual

/-- The paths of all directories in the tree, from its top. -/
def directories : FileTree → List (List String)
  | file _ => []
  | directory entries => [] :: directoriesOf entries

def directoriesOf : List (String × FileTree) → List (List String)
  | [] => []
  | (name, tree) :: rest => tree.directories.map (name :: ·) ++ directoriesOf rest

end

/-- Puts a tree at a path; missing directories are made, and a file in the way gives
place to one. -/
def put (tree : FileTree) : List String → FileTree → FileTree
  | [], _ => tree
  | name :: rest, here =>
      directory (putEntry name (put tree rest ((lookup? name here.entries).getD empty)) here.entries)

/-- Takes the entry at a path away, with all that lies below it. -/
def remove : List String → FileTree → FileTree
  | [], here => here
  | [name], here => directory (here.entries.filter fun entry => entry.1 != name)
  | name :: rest, here =>
      match lookup? name here.entries with
      | none => here
      | some tree => directory (putEntry name (remove rest tree) here.entries)

end FileTree

/-- All files, from the top of the tree, and the directory in which relative paths
start. -/
structure Disk where
  top : FileTree
  working : List String

namespace Disk

def steps (path : String) : List String :=
  (Text.pieces (· == '/') path.toList).map String.ofList

def isAbsolute (path : String) : Bool :=
  path.toList.head? == some '/'

/-- The longest path, in bytes, that can be opened. -/
def longestPath : Nat := 4095

def find (disk : Disk) (path : String) : Except PathFault FileTree :=
  if path.toList.contains '\x00' then .error .badName
  else if path.isEmpty then .error .notFound
  else if longestPath < path.utf8ByteSize then .error .nameTooLong
  else if isAbsolute path then FileTree.walk [] disk.top (steps path)
  else FileTree.walk [] disk.top (disk.working ++ steps path)

def read (disk : Disk) (path : String) : Except PathFault ByteArray :=
  match disk.find path with
  | .ok (.file bytes) => .ok bytes
  | .ok (.directory _) => .error .isDirectory
  | .error fault => .error fault

def isFile (disk : Disk) (path : String) : Bool :=
  match disk.find path with
  | .ok (.file _) => true
  | _ => false

/-- The names from the top that a path stands for, without looking at the tree. -/
def location (disk : Disk) (path : String) : List String :=
  let start := if isAbsolute path then [] else disk.working
  (steps path).foldl
    (fun names name =>
      if name = "" || name = "." then names
      else if name = ".." then names.dropLast
      else names ++ [name])
    start

def put (disk : Disk) (path : String) (tree : FileTree) : Disk :=
  { disk with top := FileTree.put tree (disk.location path) disk.top }

def remove (disk : Disk) (path : String) : Disk :=
  { disk with top := FileTree.remove (disk.location path) disk.top }

/-- A path and a name below it; an absolute name stands for itself. -/
def join (base name : String) : String :=
  if isAbsolute name then name
  else if base.isEmpty || base.toList.getLast? == some '/' then base ++ name
  else base ++ "/" ++ name

end Disk
end GameCatalog
