import GameCatalog.Source.FileTree
import GameCatalog.Proofs.TextTrimming
import Mathlib.Data.List.Nodup

/-!
# Paths through a file tree

Where all names of a tree can be entries of a directory, the path that joins names to the
path of the tree leads to what lies below the tree at those names, and the listing of the
tree's files holds every file once, by its names.
-/

namespace GameCatalog

namespace FileTree

/-- A name that an entry of a directory can have. -/
structure EntryName (name : String) : Prop where
  ne_empty : name ≠ ""
  ne_here : name ≠ "."
  ne_above : name ≠ ".."
  no_slash : '/' ∉ name.toList
  no_nul : '\x00' ∉ name.toList
  short : name.utf8ByteSize ≤ longestName

instance (name : String) : Decidable (EntryName name) :=
  decidable_of_iff
    (name ≠ "" ∧ name ≠ "." ∧ name ≠ ".." ∧ '/' ∉ name.toList ∧ '\x00' ∉ name.toList ∧
      name.utf8ByteSize ≤ longestName)
    ⟨fun ⟨hempty, hhere, habove, hslash, hnul, hshort⟩ =>
      ⟨hempty, hhere, habove, hslash, hnul, hshort⟩,
    fun ⟨hempty, hhere, habove, hslash, hnul, hshort⟩ =>
      ⟨hempty, hhere, habove, hslash, hnul, hshort⟩⟩

/-- A name that leads down from a directory, if the directory has an entry of it. -/
structure StepName (name : String) : Prop where
  ne_empty : name ≠ ""
  ne_here : name ≠ "."
  ne_above : name ≠ ".."
  no_slash : '/' ∉ name.toList
  no_nul : '\x00' ∉ name.toList

theorem EntryName.stepName {name : String} (hname : EntryName name) : StepName name :=
  ⟨hname.ne_empty, hname.ne_here, hname.ne_above, hname.no_slash, hname.no_nul⟩

/-- What lies at the names below a tree. -/
def below? : FileTree → List String → Option FileTree
  | here, [] => some here
  | here, name :: rest => (lookup? name here.entries).bind (below? · rest)

/-- A tree at a path has entries of different and usable names, and each of them can be
opened by its own path. -/
inductive OpensAt : String → FileTree → Prop where
  | file {path : String} {bytes : ByteArray} (hshort : path.utf8ByteSize ≤ Disk.longestPath) :
      OpensAt path (.file bytes)
  | directory {path : String} {entries : List (String × FileTree)}
      (hshort : path.utf8ByteSize ≤ Disk.longestPath)
      (hdistinct : (entries.map Prod.fst).Nodup)
      (hnames : ∀ entry ∈ entries, EntryName entry.1)
      (hentries : ∀ entry ∈ entries, OpensAt (Disk.join path entry.1) entry.2) :
      OpensAt path (.directory entries)

/-! ## Entries -/

theorem mem_of_lookup? {name : String} {tree : FileTree} {entries : List (String × FileTree)}
    (hlookup : lookup? name entries = some tree) : (name, tree) ∈ entries := by
  induction entries with
  | nil => simp [lookup?] at hlookup
  | cons entry rest ih =>
      obtain ⟨key, other⟩ := entry
      rw [lookup?] at hlookup
      split at hlookup
      next hkey =>
        rw [hkey, Option.some.inj hlookup]
        exact List.mem_cons_self
      next => exact List.mem_cons_of_mem _ (ih hlookup)

theorem lookup?_of_mem {name : String} {tree : FileTree} {entries : List (String × FileTree)}
    (hdistinct : (entries.map Prod.fst).Nodup) (hmem : (name, tree) ∈ entries) :
    lookup? name entries = some tree := by
  induction entries with
  | nil => simp at hmem
  | cons entry rest ih =>
      obtain ⟨key, other⟩ := entry
      rw [List.map_cons, List.nodup_cons] at hdistinct
      rw [lookup?]
      rcases List.mem_cons.mp hmem with hfirst | hrest
      · obtain ⟨rfl, rfl⟩ := Prod.mk.inj hfirst
        rw [if_pos rfl]
      · have hne : key ≠ name := by
          rintro rfl
          exact hdistinct.1 (List.mem_map.mpr ⟨_, hrest, rfl⟩)
        rw [if_neg hne]
        exact ih hdistinct.2 hrest

theorem OpensAt.path_short {path : String} {tree : FileTree} (hopens : tree.OpensAt path) :
    path.utf8ByteSize ≤ Disk.longestPath := by
  cases hopens with
  | file hshort => exact hshort
  | directory hshort => exact hshort

/-- Below a tree that opens, all names are usable and lead to a tree that opens. -/
theorem OpensAt.descend {path : String} {tree sub : FileTree} {names : List String}
    (hopens : tree.OpensAt path) (hbelow : tree.below? names = some sub) :
    (∀ name ∈ names, EntryName name) ∧ sub.OpensAt (names.foldl Disk.join path) := by
  induction names generalizing path tree with
  | nil =>
      obtain rfl := Option.some.inj hbelow
      exact ⟨by simp, hopens⟩
  | cons name rest ih =>
      rw [below?, Option.bind_eq_some_iff] at hbelow
      obtain ⟨next, hlookup, hbelow⟩ := hbelow
      have hmem := mem_of_lookup? hlookup
      cases hopens with
      | file => simp [entries] at hmem
      | directory hshort hdistinct hnames hentries =>
          obtain ⟨hrest, hsub⟩ := ih (hentries _ hmem) hbelow
          exact ⟨List.forall_mem_cons.mpr ⟨hnames _ hmem, hrest⟩, hsub⟩

/-! ## The files of a tree -/

theorem filesOf_eq_flatMap (entries : List (String × FileTree)) :
    filesOf entries = entries.flatMap fun entry => entry.2.files.map (entry.1 :: ·) := by
  induction entries with
  | nil => rfl
  | cons entry rest ih =>
      obtain ⟨name, tree⟩ := entry
      rw [filesOf, ih, List.flatMap_cons]

theorem directoriesOf_eq_flatMap (entries : List (String × FileTree)) :
    directoriesOf entries =
      entries.flatMap fun entry => entry.2.directories.map (entry.1 :: ·) := by
  induction entries with
  | nil => rfl
  | cons entry rest ih =>
      obtain ⟨name, tree⟩ := entry
      rw [directoriesOf, ih, List.flatMap_cons]

theorem OpensAt.directory_short {path : String} {tree : FileTree} (hopens : tree.OpensAt path) :
    ∀ names ∈ tree.directories,
      (names.foldl Disk.join path).utf8ByteSize ≤ Disk.longestPath := by
  induction hopens with
  | file hshort => simp [directories]
  | @directory path entries hshort hdistinct hnames hentries ih =>
      rw [directories, directoriesOf_eq_flatMap]
      intro names hmem
      rcases List.mem_cons.mp hmem with rfl | hbelow
      · exact hshort
      · obtain ⟨entry, hentry, hsub⟩ := List.mem_flatMap.mp hbelow
        obtain ⟨rest, hrest, rfl⟩ := List.mem_map.mp hsub
        exact ih entry hentry rest hrest

/-- The listing of a tree's files names every file. -/
theorem OpensAt.mem_files_iff {path : String} {tree : FileTree} (hopens : tree.OpensAt path)
    (names : List String) :
    names ∈ tree.files ↔ ∃ bytes, tree.below? names = some (.file bytes) := by
  induction hopens generalizing names with
  | @file path bytes hshort =>
      cases names with
      | nil => simp [files, below?]
      | cons name rest => simp [files, below?, entries, lookup?]
  | @directory path entries hshort hdistinct hnames hentries ih =>
      rw [files, filesOf_eq_flatMap, List.mem_flatMap]
      cases names with
      | nil => simp [below?]
      | cons name rest =>
          constructor
          · rintro ⟨⟨key, sub⟩, hentry, hmem⟩
            obtain ⟨found, hfound, hcons⟩ := List.mem_map.mp hmem
            obtain ⟨rfl, rfl⟩ := List.cons.inj hcons
            obtain ⟨bytes, hbytes⟩ := (ih _ hentry found).mp hfound
            refine ⟨bytes, ?_⟩
            rw [below?, FileTree.entries, lookup?_of_mem hdistinct hentry]
            exact hbytes
          · rintro ⟨bytes, hbytes⟩
            rw [below?, Option.bind_eq_some_iff] at hbytes
            obtain ⟨sub, hlookup, hbytes⟩ := hbytes
            have hentry := mem_of_lookup? hlookup
            exact ⟨(name, sub), hentry,
              List.mem_map_of_mem ((ih _ hentry rest).mpr ⟨bytes, hbytes⟩)⟩

/-- Each file is listed once. -/
theorem OpensAt.nodup_files {path : String} {tree : FileTree} (hopens : tree.OpensAt path) :
    tree.files.Nodup := by
  induction hopens with
  | file hshort => simp [files]
  | @directory path entries hshort hdistinct hnames hentries ih =>
      rw [files, filesOf_eq_flatMap, List.nodup_flatMap]
      refine ⟨fun entry hentry => (ih entry hentry).map (fun xs ys hsame => by simpa using hsame),
        ?_⟩
      rw [List.Nodup, List.pairwise_map] at hdistinct
      refine hdistinct.imp fun {a b} hne => ?_
      apply List.disjoint_left.mpr
      intro names ha hb
      obtain ⟨_, _, rfl⟩ := List.mem_map.mp ha
      obtain ⟨_, _, hcons⟩ := List.mem_map.mp hb
      exact hne (List.cons.inj hcons).1.symm

/-! ## Walking -/

/-- Walks that do the same from everywhere also do so behind a common beginning. -/
theorem walk_append_congr {xs ys : List String}
    (hsame : ∀ above here, walk above here xs = walk above here ys) (front : List String)
    (above : List FileTree) (here : FileTree) :
    walk above here (front ++ xs) = walk above here (front ++ ys) := by
  induction front generalizing above here with
  | nil => exact hsame above here
  | cons name front ih =>
      cases here with
      | file bytes => rfl
      | directory entries =>
          simp only [List.cons_append, walk, ih]

/-- A walk that arrives goes on from where it is. -/
theorem walk_append {above : List FileTree} {here tree : FileTree} {xs : List String}
    (hwalk : walk above here xs = .ok tree) :
    ∃ higher, ∀ ys, walk above here (xs ++ ys) = walk higher tree ys := by
  induction xs generalizing above here with
  | nil =>
      rw [walk, Except.ok.injEq] at hwalk
      exact ⟨above, fun ys => by rw [hwalk, List.nil_append]⟩
  | cons name rest ih =>
      cases here with
      | file bytes => simp [walk] at hwalk
      | directory entries =>
          simp only [List.cons_append, walk] at hwalk ⊢
          by_cases hstay : name = "" || name = "."
          · simp only [hstay, if_true] at hwalk ⊢
            exact ih hwalk
          by_cases hup : name = ".."
          · simp only [hup] at hwalk ⊢
            cases above with
            | nil => exact ih hwalk
            | cons parent above => exact ih hwalk
          by_cases hlong : longestName < name.utf8ByteSize
          · simp [hstay, hup, hlong] at hwalk
          cases hlookup : lookup? name entries with
          | none => simp [hstay, hup, hlong, hlookup] at hwalk
          | some next =>
              simp only [hstay, hup, hlong, hlookup] at hwalk ⊢
              exact ih hwalk

theorem walk_blank {name : String} (rest : List String) (above : List FileTree)
    (here : FileTree) : walk above here ("" :: name :: rest) = walk above here (name :: rest) := by
  cases here with
  | file bytes => rfl
  | directory entries => simp [walk]

theorem walk_down {name : String} (hname : StepName name) (rest : List String)
    (above : List FileTree) (entries : List (String × FileTree)) :
    walk above (directory entries) (name :: rest) =
      if longestName < name.utf8ByteSize then .error .nameTooLong
      else
        match lookup? name entries with
        | none => .error .notFound
        | some next => walk (directory entries :: above) next rest := by
  have hmoves : ¬ ((name = "" || name = ".") = true) := by
    simp [hname.ne_empty, hname.ne_here]
  simp only [walk, hmoves, hname.ne_above, if_false]
  rfl

/-- A walk over usable names arrives at what lies below the tree. -/
theorem walk_of_below? {tree sub : FileTree} {names : List String}
    (hnames : ∀ name ∈ names, EntryName name) (hbelow : tree.below? names = some sub)
    (above : List FileTree) : walk above tree names = .ok sub := by
  induction names generalizing tree above with
  | nil =>
      obtain rfl := Option.some.inj hbelow
      rw [walk]
  | cons name rest ih =>
      obtain ⟨hname, hrest⟩ := List.forall_mem_cons.mp hnames
      rw [below?, Option.bind_eq_some_iff] at hbelow
      obtain ⟨next, hlookup, hbelow⟩ := hbelow
      cases tree with
      | file bytes => simp [entries, lookup?] at hlookup
      | directory entries =>
          change lookup? name entries = some next at hlookup
          rw [walk_down hname.stepName, if_neg (Nat.not_lt.mpr hname.short), hlookup]
          exact ih hrest hbelow _

end FileTree

namespace Disk

open FileTree

/-- Where the walk along a path starts. -/
def origin (disk : Disk) (path : String) : List String :=
  if isAbsolute path then [] else disk.working

theorem find_eq_walk {disk : Disk} {path : String} (hnul : '\x00' ∉ path.toList)
    (hempty : path ≠ "") :
    disk.find path =
      if longestPath < path.utf8ByteSize then .error .nameTooLong
      else walk [] disk.top (disk.origin path ++ steps path) := by
  unfold find origin
  by_cases habsolute : isAbsolute path = true
  · simp [hnul, hempty, habsolute]
  · simp [hnul, hempty, habsolute]

theorem find_eq_ok_iff {disk : Disk} {path : String} {tree : FileTree} :
    disk.find path = .ok tree ↔
      '\x00' ∉ path.toList ∧ path ≠ "" ∧ path.utf8ByteSize ≤ longestPath ∧
        walk [] disk.top (disk.origin path ++ steps path) = .ok tree := by
  by_cases hnul : '\x00' ∈ path.toList
  · simp [find, hnul]
  by_cases hempty : path = ""
  · simp [find, hempty]
  by_cases hlong : longestPath < path.utf8ByteSize
  · have hnot : ¬ path.utf8ByteSize ≤ longestPath := Nat.not_le.mpr hlong
    simp [find_eq_walk hnul hempty, hlong, hnot]
  · have hshort : path.utf8ByteSize ≤ longestPath := Nat.not_lt.mp hlong
    simp [find_eq_walk hnul hempty, hnul, hempty, hlong, hshort]

/-! ## Joined paths -/

theorem join_cases {base name : String} (hbase : base ≠ "") (hname : StepName name) :
    (∃ front, base.toList = front ++ ['/'] ∧
        (join base name).toList = front ++ '/' :: name.toList) ∨
      (join base name).toList = base.toList ++ '/' :: name.toList := by
  have hrelative : isAbsolute name = false := by
    rw [isAbsolute, beq_eq_false_iff_ne]
    intro hhead
    exact hname.no_slash (List.mem_of_mem_head? hhead)
  by_cases hlast : base.toList.getLast? = some '/'
  · obtain ⟨front, hfront⟩ := List.getLast?_eq_some_iff.mp hlast
    refine .inl ⟨front, hfront, ?_⟩
    simp [join, hrelative, hfront]
  · exact .inr (by simp [join, hrelative, hbase, hlast])

theorem steps_eq (path : String) :
    steps path = (path.toList.splitOnP (· == '/')).map String.ofList := by
  rw [steps, Text.pieces_eq_splitOnP]

/-- The steps of a joined path are those of the path and the name; a slash at the path's
end has left an empty step there. -/
theorem steps_join {base name : String} (hbase : base ≠ "") (hname : StepName name) :
    (∃ front, steps base = front ++ [""] ∧ steps (join base name) = front ++ [name]) ∨
      steps (join base name) = steps base ++ [name] := by
  have hsingle : name.toList.splitOnP (· == '/') = [name.toList] :=
    List.splitOnP_eq_singleton (Text.beq_eq_false_of_not_mem hname.no_slash)
  simp only [steps_eq]
  rcases join_cases hbase hname with ⟨front, hfront, hjoin⟩ | hjoin
  · left
    refine ⟨(front.splitOnP (· == '/')).map String.ofList, ?_, ?_⟩
    · rw [hfront, List.splitOnP_append_cons front [] (by rfl)]
      simp
    · rw [hjoin, List.splitOnP_append_cons front _ (by rfl), hsingle]
      simp
  · right
    rw [hjoin, List.splitOnP_append_cons _ _ (by rfl), hsingle]
    simp

theorem walk_steps_join {base name : String} (hbase : base ≠ "") (hname : StepName name)
    (front rest : List String) (above : List FileTree) (here : FileTree) :
    walk above here (front ++ steps (join base name) ++ rest) =
      walk above here (front ++ steps base ++ name :: rest) := by
  rcases steps_join hbase hname with ⟨lead, hsteps, hjoin⟩ | hjoin
  · rw [hsteps, hjoin]
    simp only [List.append_assoc, List.singleton_append]
    rw [← List.append_assoc, ← List.append_assoc]
    exact (walk_append_congr (walk_blank rest) (front ++ lead) above here).symm
  · rw [hjoin]
    simp only [List.append_assoc, List.singleton_append]

theorem join_ne_empty {base name : String} (hbase : base ≠ "") (hname : StepName name) :
    join base name ≠ "" := by
  intro hempty
  have hnil : (join base name).toList = [] := by rw [hempty]; rfl
  rcases join_cases hbase hname with ⟨front, _, hjoin⟩ | hjoin <;> simp [hjoin] at hnil

theorem isAbsolute_join {base name : String} (hbase : base ≠ "") (hname : StepName name) :
    isAbsolute (join base name) = isAbsolute base := by
  obtain ⟨c, rest, hcons⟩ := Text.exists_toList_eq_cons hbase
  unfold isAbsolute
  rcases join_cases hbase hname with ⟨front, hfront, hjoin⟩ | hjoin
  · rw [hjoin, hfront, List.head?_append, List.head?_append]
    rfl
  · rw [hjoin, hcons]
    rfl

theorem no_nul_join {base name : String} (hbase : base ≠ "") (hname : StepName name)
    (hnul : '\x00' ∉ base.toList) : '\x00' ∉ (join base name).toList := by
  have htail : '\x00' ∉ '/' :: name.toList :=
    List.not_mem_cons_of_ne_of_not_mem (by decide) hname.no_nul
  rcases join_cases hbase hname with ⟨front, hfront, hjoin⟩ | hjoin
  · rw [hfront, List.mem_append, not_or] at hnul
    rw [hjoin, List.mem_append, not_or]
    exact ⟨hnul.1, htail⟩
  · rw [hjoin, List.mem_append, not_or]
    exact ⟨hnul, htail⟩

/-- Walking along the path is walking along the base and then over the names. -/
structure LeadsFrom (base : String) (names : List String) (path : String) : Prop where
  ne_empty : path ≠ ""
  absolute : isAbsolute path = isAbsolute base
  no_nul : '\x00' ∉ base.toList → '\x00' ∉ path.toList
  walk_steps : ∀ (front : List String) (above : List FileTree) (here : FileTree),
    walk above here (front ++ steps path) = walk above here (front ++ steps base ++ names)

theorem leadsFrom_foldl_join {base : String} (hbase : base ≠ "") {names : List String}
    (hnames : ∀ name ∈ names, StepName name) :
    LeadsFrom base names (names.foldl join base) := by
  induction names generalizing base with
  | nil => exact ⟨hbase, rfl, id, by simp⟩
  | cons name rest ih =>
      obtain ⟨hname, hrest⟩ := List.forall_mem_cons.mp hnames
      have hleads := ih (join_ne_empty hbase hname) hrest
      refine ⟨hleads.ne_empty, hleads.absolute.trans (isAbsolute_join hbase hname),
        fun hnul => hleads.no_nul (no_nul_join hbase hname hnul), fun front above here => ?_⟩
      rw [List.foldl_cons, hleads.walk_steps, walk_steps_join hbase hname]

/-- The path of a tree, joined with names, leads over the names from the tree, unless it
is too long. -/
theorem find_foldl_join {disk : Disk} {root : String} {tree : FileTree} {names : List String}
    (hroot : disk.find root = .ok tree) (hnames : ∀ name ∈ names, StepName name) :
    ∃ higher, disk.find (names.foldl join root) =
      if longestPath < (names.foldl join root).utf8ByteSize then .error .nameTooLong
      else walk higher tree names := by
  obtain ⟨hnul, hempty, _, hwalk⟩ := find_eq_ok_iff.mp hroot
  have hleads := leadsFrom_foldl_join hempty hnames
  have horigin : disk.origin (names.foldl join root) = disk.origin root := by
    unfold origin
    rw [hleads.absolute]
  obtain ⟨higher, hgoes⟩ := walk_append hwalk
  refine ⟨higher, ?_⟩
  rw [find_eq_walk (hleads.no_nul hnul) hleads.ne_empty, horigin, hleads.walk_steps, hgoes]

theorem find_below {disk : Disk} {root : String} {tree sub : FileTree} {names : List String}
    (hroot : disk.find root = .ok tree) (hopens : tree.OpensAt root)
    (hbelow : tree.below? names = some sub) :
    disk.find (names.foldl join root) = .ok sub := by
  obtain ⟨hnames, hsub⟩ := hopens.descend hbelow
  obtain ⟨higher, hfind⟩ :=
    find_foldl_join hroot fun name hmem => (hnames name hmem).stepName
  rw [hfind, if_neg (Nat.not_lt.mpr hsub.path_short)]
  exact walk_of_below? hnames hbelow higher

theorem read_below {disk : Disk} {root : String} {tree : FileTree} {names : List String}
    {bytes : ByteArray} (hroot : disk.find root = .ok tree) (hopens : tree.OpensAt root)
    (hbelow : tree.below? names = some (.file bytes)) :
    disk.read (names.foldl join root) = .ok bytes := by
  unfold read
  rw [find_below hroot hopens hbelow]

end Disk
end GameCatalog
