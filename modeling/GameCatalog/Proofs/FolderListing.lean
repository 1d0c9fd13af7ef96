import GameCatalog.Source.Basic
import GameCatalog.Proofs.FilePaths
import GameCatalog.Proofs.KeyOrder

/-!
# Listing and reading a folder

A key stands for the file at its domain and the steps of its path.  The keys that a folder
lists are in increasing order, each is read as the file it stands for, and every file of the
folder's file name that lies in a directory of the root has one key in the list.
-/

namespace GameCatalog

namespace CatalogKey

/-- Steps that hold no slash and are not empty come back from the path that joins them. -/
theorem segments_ofSegments {domain : String} {steps : List String}
    (hsteps : ∀ step ∈ steps, step ≠ "" ∧ '/' ∉ step.toList) :
    (ofSegments domain steps).segments = steps := by
  by_cases hnil : steps = []
  · subst hnil
    rfl
  have hjoined : (Text.joined "/" steps).toList =
      ['/'].intercalate (steps.map String.toList) := by
    simp [Text.joined, String.toList_intercalate]
  have hpieces : Text.pieces (· == '/') (Text.joined "/" steps).toList =
      steps.map String.toList := by
    rw [hjoined]
    refine Text.pieces_intercalate (by rfl) (by simpa using hnil) ?_
    intro part hpart
    obtain ⟨step, hstep, rfl⟩ := List.mem_map.mp hpart
    exact Text.beq_eq_false_of_not_mem (hsteps step hstep).2
  have hpath : Text.joined "/" steps ≠ "" := by
    intro hempty
    rw [hempty] at hpieces
    have hsingle : [] ∈ steps.map String.toList := by
      rw [← hpieces]
      exact List.mem_singleton.mpr rfl
    obtain ⟨step, hstep, htext⟩ := List.mem_map.mp hsingle
    exact (hsteps step hstep).1 (by simpa using htext)
  unfold segments ofSegments
  dsimp only
  rw [if_neg (by simpa using hpath), hpieces, List.map_map]
  simp [Function.comp_def]

end CatalogKey

namespace Folder

open FileTree

/-- The names of the file that a key stands for, from the root. -/
def namesFor (folder : Folder) (key : CatalogKey) : List String :=
  key.domain :: key.segments ++ [folder.fileName]

/-- Below the folder's root lies this tree, and all of it can be opened. -/
structure Holds (folder : Folder) (tree : FileTree) : Prop where
  found : folder.disk.find folder.root = .ok tree
  opens : tree.OpensAt folder.root

/-! ## Names and keys -/

theorem pathFor_eq_foldl (folder : Folder) (key : CatalogKey) :
    folder.pathFor key = (folder.namesFor key).foldl Disk.join folder.root := by
  simp [pathFor, namesFor]

theorem keyOf?_eq_some_iff {fileName : String} {names : List String} {key : CatalogKey} :
    keyOf? fileName names = some key ↔
      ∃ domain steps, names = domain :: steps ++ [fileName] ∧
        key = .ofSegments domain steps := by
  rcases List.eq_nil_or_concat' names with rfl | ⟨front, name, rfl⟩
  · simp [keyOf?]
  · rw [keyOf?, List.getLast?_concat, List.dropLast_concat]
    cases front with
    | nil => simp
    | cons domain steps =>
        by_cases hname : name = fileName
        · subst hname
          simp [eq_comm]
        · simp [hname]

theorem namesFor_of_keyOf? {folder : Folder} {names : List String} {key : CatalogKey}
    (hnames : ∀ name ∈ names, EntryName name) (hkey : keyOf? folder.fileName names = some key) :
    folder.namesFor key = names := by
  obtain ⟨domain, steps, rfl, rfl⟩ := keyOf?_eq_some_iff.mp hkey
  have hsteps : ∀ step ∈ steps, step ≠ "" ∧ '/' ∉ step.toList := fun step hstep =>
    have hname := hnames step (by simp [hstep])
    ⟨hname.ne_empty, hname.no_slash⟩
  rw [namesFor, CatalogKey.segments_ofSegments hsteps]
  rfl

/-! ## The order of keys -/

theorem inOrder_eq_isLE (a b : CatalogKey) : inOrder a b = (compare a b).isLE :=
  Ordering.isLE_eq_not_beq_gt.symm

theorem inOrder_trans (a b c : CatalogKey) (hab : inOrder a b = true)
    (hbc : inOrder b c = true) : inOrder a c = true := by
  rw [inOrder_eq_isLE] at hab hbc ⊢
  exact Std.TransOrd.isLE_trans hab hbc

theorem inOrder_total (a b : CatalogKey) : (inOrder a b || inOrder b a) = true := by
  have hswap : (compare a b).isGE = (compare b a).isLE := Std.OrientedCmp.isGE_eq_isLE
  rw [inOrder_eq_isLE, inOrder_eq_isLE, ← hswap]
  cases compare a b <;> rfl

/-- Sorted keys that are all different increase. -/
theorem pairwise_before_mergeSort {keys : List CatalogKey} (hnodup : keys.Nodup) :
    (keys.mergeSort inOrder).Pairwise CatalogKey.Before := by
  have hsorted := List.pairwise_mergeSort inOrder_trans inOrder_total keys
  have hdistinct : (keys.mergeSort inOrder).Nodup :=
    (List.mergeSort_perm keys inOrder).nodup_iff.mpr hnodup
  refine (hsorted.and hdistinct).imp fun {a b} horder => ?_
  obtain ⟨hle, hne⟩ := horder
  rw [inOrder_eq_isLE, Ordering.isLE_iff_eq_lt_or_eq_eq] at hle
  rcases hle with hless | hequal
  · exact CatalogKey.before_of_compare_lt hless
  · exact absurd (Std.LawfulEqOrd.eq_of_compare hequal) hne

/-! ## Listed keys -/

/-- Different files have different keys. -/
theorem nodup_filterMap_keyOf? {folder : Folder} {files : List (List String)}
    (hfiles : files.Nodup) (hnames : ∀ names ∈ files, ∀ name ∈ names, EntryName name) :
    (files.filterMap (keyOf? folder.fileName)).Nodup := by
  rw [List.Nodup, List.pairwise_filterMap]
  refine hfiles.imp_of_mem fun {names other} hmem hother hne key hkey key' hkey' hsame => ?_
  subst hsame
  apply hne
  rw [← namesFor_of_keyOf? (hnames names hmem) hkey,
    ← namesFor_of_keyOf? (hnames other hother) hkey']

section Listing

variable {folder : Folder} {tree : FileTree}

theorem Holds.names_of_mem_files (hholds : folder.Holds tree) {names : List String}
    (hmem : names ∈ tree.files) : ∀ name ∈ names, EntryName name := by
  obtain ⟨bytes, hbelow⟩ := (hholds.opens.mem_files_iff names).mp hmem
  exact (hholds.opens.descend hbelow).1

theorem Holds.unopened?_eq_none (hholds : folder.Holds tree) : folder.unopened? tree = none := by
  have hshort : (tree.directories.filter fun names =>
      Disk.longestPath < (names.foldl Disk.join folder.root).utf8ByteSize) = [] := by
    refine List.filter_eq_nil_iff.mpr fun names hmem => ?_
    simpa using hholds.opens.directory_short names hmem
  simp [unopened?, hshort]

/-- The keys listed are those of the tree's files that have one. -/
theorem Holds.exists_keys (hholds : folder.Holds tree) :
    ∃ keys, folder.keys = .ok keys ∧ keys.Pairwise CatalogKey.Before ∧
      ∀ key, key ∈ keys ↔ keyOf? folder.fileName (folder.namesFor key) = some key ∧
        ∃ bytes, tree.below? (folder.namesFor key) = some (.file bytes) := by
  have hnodup : (tree.files.filterMap (keyOf? folder.fileName)).Nodup :=
    nodup_filterMap_keyOf? hholds.opens.nodup_files fun names => hholds.names_of_mem_files
  refine ⟨_, ?_, pairwise_before_mergeSort hnodup, fun key => ?_⟩
  · simp only [keys, hholds.found, hholds.unopened?_eq_none]
  · rw [List.mem_mergeSort, List.mem_filterMap]
    constructor
    · rintro ⟨names, hmem, hkey⟩
      have hnames := namesFor_of_keyOf? (hholds.names_of_mem_files hmem) hkey
      rw [hnames]
      exact ⟨hkey, (hholds.opens.mem_files_iff names).mp hmem⟩
    · rintro ⟨hkey, hfile⟩
      exact ⟨folder.namesFor key, (hholds.opens.mem_files_iff _).mpr hfile, hkey⟩

theorem Holds.read_of_file (hholds : folder.Holds tree) {key : CatalogKey} {bytes : ByteArray}
    (hfile : tree.below? (folder.namesFor key) = some (.file bytes)) :
    folder.read key = .ok (some bytes) := by
  unfold read
  rw [pathFor_eq_foldl, Disk.read_below hholds.found hholds.opens hfile]

end Listing

/-- The listed keys increase; each is read as the file at its domain and steps, and every
file of the folder's file name has one key in the list, unless it lies in the root itself,
where it has none. -/
theorem keys_agree_with_read {folder : Folder} {tree : FileTree} (hholds : folder.Holds tree) :
    ∃ keys, folder.keys = .ok keys ∧ keys.Pairwise CatalogKey.Before ∧
      (∀ key ∈ keys, ∃ bytes, tree.below? (folder.namesFor key) = some (.file bytes) ∧
        folder.read key = .ok (some bytes)) ∧
      ∀ (directories : List String) (bytes : ByteArray),
        tree.below? (directories ++ [folder.fileName]) = some (.file bytes) →
          (directories ≠ [] →
            ∃! key, key ∈ keys ∧ folder.namesFor key = directories ++ [folder.fileName]) ∧
          (directories = [] →
            ∀ key ∈ keys, folder.namesFor key ≠ directories ++ [folder.fileName]) := by
  obtain ⟨keys, hkeys, hincreasing, hmem⟩ := hholds.exists_keys
  refine ⟨keys, hkeys, hincreasing, ?_, ?_⟩
  · intro key hkey
    obtain ⟨_, bytes, hfile⟩ := (hmem key).mp hkey
    exact ⟨bytes, hfile, hholds.read_of_file hfile⟩
  intro directories bytes hfile
  constructor
  · intro hdirectories
    obtain ⟨domain, steps, rfl⟩ := List.exists_cons_of_ne_nil hdirectories
    have hkey : keyOf? folder.fileName (domain :: steps ++ [folder.fileName]) =
        some (.ofSegments domain steps) := keyOf?_eq_some_iff.mpr ⟨domain, steps, rfl, rfl⟩
    have hnames := namesFor_of_keyOf? (hholds.opens.descend hfile).1 hkey
    refine ⟨.ofSegments domain steps, ⟨(hmem _).mpr ?_, hnames⟩, ?_⟩
    · rw [hnames]
      exact ⟨hkey, bytes, hfile⟩
    · rintro other ⟨hother, hsame⟩
      have hotherKey := ((hmem other).mp hother).1
      rw [hsame, hkey] at hotherKey
      exact (Option.some.inj hotherKey).symm
  · rintro rfl key _ hroot
    simp [namesFor] at hroot

def armoryTree : FileTree :=
  .directory [
    ("items", .directory [
      ("weapons", .directory [("catalog.json", .file "[]".toUTF8)]),
      ("notes.txt", .file "oil".toUTF8)]),
    ("catalog.json", .file "\x7b\x7d".toUTF8)]

def armory : Folder where
  root := "/data"
  fileName := defaultFileName
  disk := ⟨.directory [("data", armoryTree)], []⟩

theorem holds_armory : armory.Holds armoryTree where
  found := rfl
  opens := by
    have hweapons : (FileTree.directory [("catalog.json", .file "[]".toUTF8)]).OpensAt
        "/data/items/weapons" :=
      .directory (by decide) (by decide) (by decide)
        (List.forall_mem_singleton.mpr (.file (by decide)))
    have hitems : (FileTree.directory [
        ("weapons", .directory [("catalog.json", .file "[]".toUTF8)]),
        ("notes.txt", .file "oil".toUTF8)]).OpensAt "/data/items" :=
      .directory (by decide) (by decide) (by decide)
        (List.forall_mem_cons.mpr ⟨hweapons, List.forall_mem_singleton.mpr (.file (by decide))⟩)
    exact .directory (by decide) (by decide) (by decide)
      (List.forall_mem_cons.mpr ⟨hitems, List.forall_mem_singleton.mpr (.file (by decide))⟩)

/-- The weapons have a key, and the catalog in the root has none. -/
theorem keys_agree_with_read_armory :
    armory.Holds armoryTree ∧ ∃ keys, armory.keys = .ok keys ∧
      keys.Pairwise CatalogKey.Before ∧
      (∀ key ∈ keys, ∃ bytes, armoryTree.below? (armory.namesFor key) = some (.file bytes) ∧
        armory.read key = .ok (some bytes)) ∧
      (∃! key, key ∈ keys ∧ armory.namesFor key = ["items", "weapons", "catalog.json"]) ∧
      ∀ key ∈ keys, armory.namesFor key ≠ ["catalog.json"] := by
  refine ⟨holds_armory, ?_⟩
  obtain ⟨keys, hkeys, hincreasing, hreads, hfiles⟩ := keys_agree_with_read holds_armory
  exact ⟨keys, hkeys, hincreasing, hreads,
    (hfiles ["items", "weapons"] "[]".toUTF8 rfl).1 (by simp),
    (hfiles [] "\x7b\x7d".toUTF8 rfl).2 rfl⟩

end Folder
end GameCatalog
