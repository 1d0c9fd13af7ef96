import GameCatalog.Proofs.CatalogSearch
import GameCatalog.Proofs.FolderListing
import GameCatalog.Proofs.ReferenceReading

/-!
# Documents that a folder does not have

A search asks a folder for documents that need not be there.  Reading one fails in more
ways than that its file is missing: its names can lead through a regular file or to a
directory, and a name or the whole path can be too long.  The folder takes only a missing
file for an absent document.  So a search that comes to a key with any other failure ends
in a fault, and all other searches go as if the files of the folder were the only
documents.
-/

namespace GameCatalog

namespace FileTree

/-- Why the names do not lead to anything below a tree. -/
inductive LeadsNowhere (tree : FileTree) : List String → PathFault → Prop where
  | throughFile (front : List String) {rest : List String} {bytes : ByteArray}
      (hfile : tree.below? front = some (.file bytes)) (hrest : rest ≠ []) :
      LeadsNowhere tree (front ++ rest) .notDirectory
  | longName (front : List String) {rest : List String} {name : String}
      {entries : List (String × FileTree)}
      (hdirectory : tree.below? front = some (.directory entries))
      (hlong : longestName < name.utf8ByteSize) :
      LeadsNowhere tree (front ++ name :: rest) .nameTooLong
  | missing (front : List String) {rest : List String} {name : String}
      {entries : List (String × FileTree)}
      (hdirectory : tree.below? front = some (.directory entries))
      (hshort : name.utf8ByteSize ≤ longestName) (hmissing : lookup? name entries = none) :
      LeadsNowhere tree (front ++ name :: rest) .notFound

theorem below?_cons_of_lookup? {name : String} {next : FileTree}
    {entries : List (String × FileTree)} (hlookup : lookup? name entries = some next)
    (names : List String) : (directory entries).below? (name :: names) = next.below? names := by
  rw [below?, FileTree.entries, hlookup]
  rfl

theorem LeadsNowhere.below {name : String} {next : FileTree}
    {entries : List (String × FileTree)} {names : List String} {cause : PathFault}
    (hlookup : lookup? name entries = some next) (hnowhere : next.LeadsNowhere names cause) :
    (directory entries).LeadsNowhere (name :: names) cause := by
  have hstep := below?_cons_of_lookup? hlookup
  cases hnowhere with
  | @throughFile front rest bytes hfile hrest =>
      exact .throughFile (name :: front) ((hstep front).trans hfile) hrest
  | @longName front rest other entries hdirectory hlong =>
      exact .longName (name :: front) ((hstep front).trans hdirectory) hlong
  | @missing front rest other entries hdirectory hshort hmissing =>
      exact .missing (name :: front) ((hstep front).trans hdirectory) hshort hmissing

/-- A walk either arrives at what lies at the names or fails for the reason that they lead
nowhere. -/
theorem walk_cases (tree : FileTree) {names : List String}
    (hnames : ∀ name ∈ names, StepName name) (above : List FileTree) :
    (∃ sub, tree.below? names = some sub ∧ walk above tree names = .ok sub) ∨
      ∃ cause, tree.LeadsNowhere names cause ∧ walk above tree names = .error cause := by
  induction names generalizing tree above with
  | nil => exact .inl ⟨tree, rfl, by rw [walk]⟩
  | cons name rest ih =>
      obtain ⟨hname, hrest⟩ := List.forall_mem_cons.mp hnames
      cases tree with
      | file bytes =>
          exact .inr ⟨.notDirectory, .throughFile [] rfl (List.cons_ne_nil name rest), rfl⟩
      | directory entries =>
          rw [walk_down hname]
          by_cases hlong : longestName < name.utf8ByteSize
          · rw [if_pos hlong]
            exact .inr ⟨_, .longName [] rfl hlong, rfl⟩
          rw [if_neg hlong]
          cases hlookup : lookup? name entries with
          | none =>
              exact .inr ⟨_, .missing [] rfl (Nat.not_lt.mp hlong) hlookup, rfl⟩
          | some next =>
              rw [below?_cons_of_lookup? hlookup]
              rcases ih next hrest (directory entries :: above) with
                hfound | ⟨cause, hnowhere, hfails⟩
              · exact .inl hfound
              · exact .inr ⟨cause, hnowhere.below hlookup, hfails⟩

/-- Below a tree that opens, names that lead nowhere do so for one reason. -/
theorem walk_of_leadsNowhere {path : String} {tree : FileTree} (hopens : tree.OpensAt path)
    {names : List String} (hnames : ∀ name ∈ names, StepName name) {cause : PathFault}
    (hnowhere : tree.LeadsNowhere names cause) (above : List FileTree) :
    walk above tree names = .error cause := by
  cases hnowhere with
  | @throughFile front rest bytes hfile hrest =>
      obtain ⟨higher, hgoes⟩ := walk_append (walk_of_below? (hopens.descend hfile).1 hfile above)
      obtain ⟨name, rest, rfl⟩ := List.exists_cons_of_ne_nil hrest
      rw [hgoes, walk]
  | @longName front rest name entries hdirectory hlong =>
      obtain ⟨higher, hgoes⟩ :=
        walk_append (walk_of_below? (hopens.descend hdirectory).1 hdirectory above)
      rw [hgoes, walk_down (hnames name (by simp)), if_pos hlong]
  | @missing front rest name entries hdirectory hshort hmissing =>
      obtain ⟨higher, hgoes⟩ :=
        walk_append (walk_of_below? (hopens.descend hdirectory).1 hdirectory above)
      rw [hgoes, walk_down (hnames name (by simp)), if_neg (Nat.not_lt.mpr hshort), hmissing]

end FileTree

namespace Folder

open FileTree

/-- Why reading a key's document fails although its file is not just missing. -/
inductive Bars (folder : Folder) (tree : FileTree) (key : CatalogKey) : PathFault → Prop where
  | longPath (hlong : Disk.longestPath < (folder.pathFor key).utf8ByteSize) :
      Bars folder tree key .nameTooLong
  | nowhere {cause : PathFault}
      (hshort : (folder.pathFor key).utf8ByteSize ≤ Disk.longestPath)
      (hnowhere : tree.LeadsNowhere (folder.namesFor key) cause) (hpresent : cause ≠ .notFound) :
      Bars folder tree key cause
  | directory {entries : List (String × FileTree)}
      (hdirectory : tree.below? (folder.namesFor key) = some (.directory entries)) :
      Bars folder tree key .isDirectory

/-- The bytes of the file that a key stands for, if there is such a file. -/
def fileFor? (folder : Folder) (tree : FileTree) (key : CatalogKey) : Option ByteArray :=
  match tree.below? (folder.namesFor key) with
  | some (.file bytes) => some bytes
  | _ => none

/-- The files of a folder as the only documents, all others being absent. -/
def documents (folder : Folder) (tree : FileTree) : Source where
  read key := .ok (folder.fileFor? tree key)
  keys := folder.keys

theorem readable_documents (folder : Folder) (tree : FileTree) :
    (folder.documents tree).Readable :=
  fun key => ⟨folder.fileFor? tree key, rfl⟩

variable {folder : Folder} {tree : FileTree} {key : CatalogKey}

theorem fileFor?_eq_some_iff {bytes : ByteArray} :
    folder.fileFor? tree key = some bytes ↔
      tree.below? (folder.namesFor key) = some (.file bytes) := by
  unfold fileFor?
  split
  next other hfile => simp [hfile]
  next hother =>
    constructor
    · intro hnone
      contradiction
    · exact fun hfile => absurd hfile (hother bytes)

theorem read_of_notFound (hread : folder.disk.read (folder.pathFor key) = .error .notFound) :
    folder.read key = .ok none := by
  unfold read
  rw [hread]

theorem read_of_fault {cause : PathFault} (hread : folder.disk.read (folder.pathFor key) =
      .error cause) (hpresent : cause ≠ .notFound) :
    folder.read key = .error (.unreadable (folder.pathFor key) cause.message) := by
  unfold read
  rw [hread]
  cases cause <;> first | rfl | contradiction

theorem Holds.read_of_bars (hholds : folder.Holds tree)
    (hnames : ∀ name ∈ folder.namesFor key, StepName name) {cause : PathFault}
    (hbars : folder.Bars tree key cause) :
    folder.read key = .error (.unreadable (folder.pathFor key) cause.message) := by
  obtain ⟨higher, hfind⟩ := Disk.find_foldl_join hholds.found hnames
  rw [← pathFor_eq_foldl] at hfind
  cases hbars with
  | longPath hlong =>
      rw [if_pos hlong] at hfind
      exact read_of_fault (by rw [Disk.read, hfind]) (by decide)
  | nowhere hshort hnowhere hpresent =>
      rw [if_neg (Nat.not_lt.mpr hshort),
        walk_of_leadsNowhere hholds.opens hnames hnowhere] at hfind
      exact read_of_fault (by rw [Disk.read, hfind]) hpresent
  | directory hdirectory =>
      have hfind := Disk.find_below hholds.found hholds.opens hdirectory
      rw [← pathFor_eq_foldl] at hfind
      exact read_of_fault (by rw [Disk.read, hfind]) (by decide)

/-- Where nothing else fails, a missing file is an absent document. -/
theorem Holds.read_of_not_bars (hholds : folder.Holds tree)
    (hnames : ∀ name ∈ folder.namesFor key, StepName name)
    (hopen : ∀ cause, ¬ folder.Bars tree key cause) :
    folder.read key = .ok (folder.fileFor? tree key) := by
  obtain ⟨higher, hfind⟩ := Disk.find_foldl_join hholds.found hnames
  have hshort : ¬ Disk.longestPath < (folder.pathFor key).utf8ByteSize :=
    fun hlong => hopen _ (.longPath hlong)
  rw [← pathFor_eq_foldl, if_neg hshort] at hfind
  rcases walk_cases tree hnames higher with
    ⟨sub, hbelow, hwalk⟩ | ⟨cause, hnowhere, hwalk⟩
  · cases sub with
    | file bytes =>
        rw [hholds.read_of_file hbelow, fileFor?_eq_some_iff.mpr hbelow]
    | directory entries => exact absurd (.directory hbelow) (hopen _)
  · have hmissing : cause = .notFound := by
      by_contra hpresent
      exact hopen cause (.nowhere (Nat.not_lt.mp hshort) hnowhere hpresent)
    subst hmissing
    have hread : folder.read key = .ok none :=
      read_of_notFound (by rw [Disk.read, hfind, hwalk])
    have hnofile : folder.fileFor? tree key = none := by
      rw [Option.eq_none_iff_forall_ne_some]
      intro bytes hfile
      have hfound := hholds.read_of_file (fileFor?_eq_some_iff.mp hfile)
      simp [hread] at hfound
    rw [hread, hnofile]

/-! ## Answers for keys -/

theorem catalog_source_of_bars (hholds : folder.Holds tree)
    (hnames : ∀ name ∈ folder.namesFor key, StepName name) {cause : PathFault}
    (hbars : folder.Bars tree key cause) :
    folder.source.catalog key = .error (.unreadable (folder.pathFor key) cause.message) := by
  have hread : folder.source.read key = _ := hholds.read_of_bars hnames hbars
  rw [Source.catalog, Source.document, hread]
  rfl

theorem catalog_source_of_not_bars (hholds : folder.Holds tree)
    (hnames : ∀ name ∈ folder.namesFor key, StepName name)
    (hopen : ∀ cause, ¬ folder.Bars tree key cause) :
    folder.source.catalog key = (folder.documents tree).catalog key := by
  have hread : folder.source.read key = (folder.documents tree).read key :=
    hholds.read_of_not_bars hnames hopen
  rw [Source.catalog, Source.catalog, Source.document, Source.document, hread]

end Folder

namespace Reference

open Folder FileTree

theorem stepName_of_name {name : String} (hname : Grammar.Name name) : StepName name where
  ne_empty := by
    rintro rfl
    exact hname.nonempty rfl
  ne_here := by
    rintro rfl
    exact not_mem_of_name hname (c := '.') (by decide) (by simp)
  ne_above := by
    rintro rfl
    exact not_mem_of_name hname (c := '.') (by decide) (by simp)
  no_slash := not_mem_of_name hname (by decide)
  no_nul := not_mem_of_name hname (by decide)

variable {text : String} {r : Reference} {folder : Folder} {tree : FileTree}

theorem names_of_parse (hread : parse text = .ok r) :
    Grammar.Name r.domain ∧ ∀ step ∈ r.steps, Grammar.Name step := by
  have htext := referenceText_of_parse hread
  generalize text.toList = chars at htext
  cases htext with
  | intro hdomain hsteps => exact ⟨hdomain, hsteps⟩

/-- All names on the way to a document that a reference can ask for lead down. -/
theorem stepName_of_mem_namesFor (hread : parse text = .ok r)
    (hfile : StepName folder.fileName) (count : Nat) :
    ∀ name ∈ folder.namesFor (r.keyAt count), StepName name := by
  obtain ⟨hdomain, hsteps⟩ := names_of_parse hread
  have hnames : ∀ step ∈ r.steps.take count, StepName step := fun step hmem =>
    stepName_of_name (hsteps step (List.mem_of_mem_take hmem))
  have hsegments : (r.keyAt count).segments = r.steps.take count :=
    CatalogKey.segments_ofSegments fun step hmem =>
      ⟨(hnames step hmem).ne_empty, (hnames step hmem).no_slash⟩
  intro name hmem
  rw [namesFor, hsegments] at hmem
  rcases List.mem_append.mp hmem with hfront | hlast
  · rcases List.mem_cons.mp hfront with rfl | hstep
    · exact stepName_of_name hdomain
    · exact hnames name hstep
  · rw [List.mem_singleton.mp hlast]
    exact hfile

/-- The first key that settles the search of a reference is one that cannot be read. -/
structure BarredAt (r : Reference) (folder : Folder) (tree : FileTree) (count : Nat)
    (cause : PathFault) : Prop where
  within : count ≤ r.steps.length
  bars : folder.Bars tree (r.keyAt count) cause
  longer_open : ∀ longer, count < longer → longer ≤ r.steps.length →
    ∀ other, ¬ folder.Bars tree (r.keyAt longer) other
  longer_empty : ∀ longer, count < longer → longer ≤ r.steps.length →
    ∀ catalog, ¬ (folder.documents tree).Holds (r.keyAt longer) catalog

section Searching

variable {archive plain : Archive}

theorem forReference_of_barredAt (hholds : folder.Holds tree)
    (hfile : StepName folder.fileName) (hread : parse text = .ok r)
    (hfaithful : archive.Faithful folder.source) {count : Nat} {cause : PathFault}
    (hbarred : r.BarredAt folder tree count cause) :
    ∃ after, Search.forReference r archive =
      (.error (.unreadable (folder.pathFor (r.keyAt count)) cause.message), after) := by
  have hnames := stepName_of_mem_namesFor hread hfile
  refine Search.downFrom_fault hbarred.within ?_ fun longer hlong hshort => ?_
  · exact (hfaithful.answer_eq _).trans
      (catalog_source_of_bars hholds (hnames count) hbarred.bars)
  · have hnone := Source.catalog_eq_none (readable_documents folder tree)
      (hbarred.longer_empty longer hlong hshort)
    exact (hfaithful.answer_eq _).trans
      ((catalog_source_of_not_bars hholds (hnames longer)
        (hbarred.longer_open longer hlong hshort)).trans hnone)

/-- What the folder answers without a fault, its files alone answer as well. -/
theorem answer_documents (hholds : folder.Holds tree) (hfile : StepName folder.fileName)
    (hread : parse text = .ok r) (hfaithful : archive.Faithful folder.source)
    (hplain : plain.Faithful (folder.documents tree)) {count : Nat} {found : Option Catalog}
    (hanswer : archive.answer (r.keyAt count) = .ok found) :
    (∀ cause, ¬ folder.Bars tree (r.keyAt count) cause) ∧
      plain.answer (r.keyAt count) = .ok found := by
  have hnames := stepName_of_mem_namesFor hread hfile count
  rw [hfaithful.answer_eq] at hanswer
  have hopen : ∀ cause, ¬ folder.Bars tree (r.keyAt count) cause := by
    intro cause hbars
    rw [catalog_source_of_bars hholds hnames hbars] at hanswer
    contradiction
  rw [hplain.answer_eq, ← catalog_source_of_not_bars hholds hnames hopen]
  exact ⟨hopen, hanswer⟩

/-- Only barred keys are answered with a fault. -/
theorem exists_bars_of_fault (hholds : folder.Holds tree) (hfile : StepName folder.fileName)
    (hread : parse text = .ok r) (hfaithful : archive.Faithful folder.source) {count : Nat}
    {fault : Fault} (hanswer : archive.answer (r.keyAt count) = .error fault) :
    ∃ cause, folder.Bars tree (r.keyAt count) cause := by
  by_contra hopen
  have hcatalog := catalog_source_of_not_bars hholds
    (stepName_of_mem_namesFor hread hfile count) (not_exists.mp hopen)
  obtain ⟨found, hfound⟩ := (Archive.ofSource (folder.documents tree)).exists_answer
    (readable_documents folder tree) (r.keyAt count)
  rw [(Archive.faithful_ofSource _).answer_eq, ← hcatalog, ← hfaithful.answer_eq] at hfound
  exact absurd (hfound.symm.trans hanswer) (by simp)

/-- A search that comes to no barred key ends as over the files alone. -/
theorem forReference_of_not_barredAt (hholds : folder.Holds tree)
    (hfile : StepName folder.fileName) (hread : parse text = .ok r)
    (hfaithful : archive.Faithful folder.source)
    (hplain : plain.Faithful (folder.documents tree))
    (hopen : ∀ count cause, ¬ r.BarredAt folder tree count cause) :
    ∃ search after after', Search.forReference r archive = (.ok search, after) ∧
      Search.forReference r plain = (.ok search, after') := by
  have halike {count : Nat} {found : Option Catalog}
      (hanswer : archive.answer (r.keyAt count) = .ok found) :=
    answer_documents hholds hfile hread hfaithful hplain hanswer
  rcases Search.exists_settling archive r.domain r.steps r.steps.length with
    ⟨count, answer, hcount, hsettles, hsome, hlonger⟩ | hnone
  · have hlonger' (longer : Nat) (hlong : count < longer) (hshort : longer ≤ r.steps.length) :=
      halike (hlonger longer hlong hshort)
    cases answer with
    | error fault =>
        -- A fault would make the key that settles the search a barred one.
        exfalso
        obtain ⟨cause, hbars⟩ := exists_bars_of_fault hholds hfile hread hfaithful hsettles
        refine hopen count cause ⟨hcount, hbars,
          fun longer hlong hshort => (hlonger' longer hlong hshort).1,
          fun longer hlong hshort catalog hheld => ?_⟩
        have hempty := (hlonger' longer hlong hshort).2
        rw [hplain.answer_eq, Source.catalog_eq_some_iff.mpr hheld] at hempty
        simp at hempty
    | ok found =>
        cases found with
        | none => contradiction
        | some catalog =>
            exact ⟨_, _, _, Search.downFrom_found hcount hsettles hlonger,
              Search.downFrom_found hcount (halike hsettles).2
                fun longer hlong hshort => (hlonger' longer hlong hshort).2⟩
  · exact ⟨_, _, _, Search.downFrom_missing hnone,
      Search.downFrom_missing fun count hcount => (halike (hnone count hcount)).2⟩

end Searching
end Reference

namespace Resolver

open FileTree

/-- A resolution over a folder ends in a fault if the first key that settles its search
is barred, and the fault names that key's file.  In all other cases it comes to what it
would come to if the files of the folder were the only documents. -/
theorem resolve_as_if_absent_or_barred {folder : Folder} {tree : FileTree}
    (hholds : folder.Holds tree) (hfile : StepName folder.fileName) {text : String}
    {r : Reference} (hread : Reference.parse text = .ok r) {archive plain : Archive}
    (hreached : archive.Reached folder.source)
    (hplain : plain.Reached (folder.documents tree)) (logs : Bool) (stream : RandomStream) :
    (∀ count cause, r.BarredAt folder tree count cause →
      (resolve logs text ⟨archive, stream⟩).1 =
        .error (.unreadable (folder.pathFor (r.keyAt count)) cause.message)) ∧
    ((∀ count cause, ¬ r.BarredAt folder tree count cause) →
      ∃ resolution, (resolve logs text ⟨archive, stream⟩).1 = .ok resolution ∧
        (resolve logs text ⟨plain, stream⟩).1 = .ok resolution) := by
  have hfaithful := Archive.faithful_of_reached hreached
  constructor
  · intro count cause hbarred
    obtain ⟨after, hsearch⟩ :=
      Reference.forReference_of_barredAt hholds hfile hread hfaithful hbarred
    rw [resolve_of_search_fault hread hsearch]
  · intro hopen
    obtain ⟨search, after, after', hsearch, hsearch'⟩ :=
      Reference.forReference_of_not_barredAt hholds hfile hread hfaithful
        (Archive.faithful_of_reached hplain) hopen
    exact ⟨_, congrArg Prod.fst (resolve_of_search hread hsearch),
      congrArg Prod.fst (resolve_of_search hread hsearch')⟩

end Resolver

def Reference.sword : Reference :=
  ⟨"items", [], "weapons", .named "sword", [], false, []⟩

def Reference.cap : Reference :=
  ⟨"items", [], "armor", .named "cap", [], false, []⟩

/-- A regular file lies where the documents of a category could lie. -/
def cellarTree : FileTree :=
  .directory [("items", .directory [("weapons", .file "oil".toUTF8)])]

def cellar : Folder where
  root := "/data"
  fileName := Folder.defaultFileName
  disk := ⟨.directory [("data", cellarTree)], []⟩

theorem holds_cellar : cellar.Holds cellarTree where
  found := rfl
  opens := by
    have hitems : (FileTree.directory [("weapons", .file "oil".toUTF8)]).OpensAt "/data/items" :=
      .directory (by decide) (by decide) (by decide)
        (List.forall_mem_singleton.mpr (.file (by decide)))
    exact .directory (by decide) (by decide) (by decide) (List.forall_mem_singleton.mpr hitems)

theorem stepName_fileName_cellar : FileTree.StepName cellar.fileName :=
  ⟨by decide, by decide, by decide, by decide, by decide⟩

theorem barredAt_cellar :
    Reference.sword.BarredAt cellar cellarTree 1 .notDirectory where
  within := by decide
  bars := .nowhere (by decide)
    (.throughFile ["items", "weapons"] (by rfl) (List.cons_ne_nil "catalog.json" []))
    (by decide)
  longer_open longer hlong hshort := absurd hshort (Nat.not_le.mpr hlong)
  longer_empty longer hlong hshort := absurd hshort (Nat.not_le.mpr hlong)

namespace Resolver

/-- The weapons are barred by the file, and armor is just not there. -/
theorem resolve_as_if_absent_or_barred_cellar :
    cellar.Holds cellarTree ∧ FileTree.StepName cellar.fileName ∧
      Reference.parse "@items/weapons:sword" = .ok .sword ∧
      Reference.parse "@items/armor:cap" = .ok .cap ∧
      (Archive.ofSource cellar.source).Reached cellar.source ∧
      (Archive.ofSource (cellar.documents cellarTree)).Reached (cellar.documents cellarTree) ∧
      (resolve true "@items/weapons:sword" ⟨.ofSource cellar.source, .ofWords []⟩).1 =
        .error (.unreadable "/data/items/weapons/catalog.json"
          "Not a directory (os error 20)") ∧
      ∃ resolution,
        (resolve true "@items/armor:cap" ⟨.ofSource cellar.source, .ofWords []⟩).1 =
          .ok resolution ∧
        (resolve true "@items/armor:cap"
          ⟨.ofSource (cellar.documents cellarTree), .ofWords []⟩).1 = .ok resolution := by
  have hweapons : Reference.parse "@items/weapons:sword" = .ok .sword := rfl
  have harmor : Reference.parse "@items/armor:cap" = .ok .cap := rfl
  obtain ⟨hbarred, _⟩ := resolve_as_if_absent_or_barred holds_cellar stepName_fileName_cellar
    hweapons .start .start true (.ofWords [])
  obtain ⟨_, hopen⟩ := resolve_as_if_absent_or_barred holds_cellar stepName_fileName_cellar
    harmor .start .start true (.ofWords [])
  refine ⟨holds_cellar, stepName_fileName_cellar, hweapons, harmor, .start, .start,
    hbarred 1 _ barredAt_cellar, hopen fun count cause harmorBarred => ?_⟩
  have hread : cellar.read (Reference.cap.keyAt count) = .ok none := by
    have hcount : count = 0 ∨ count = 1 := Nat.le_one_iff_eq_zero_or_eq_one.mp harmorBarred.within
    rcases hcount with rfl | rfl <;> rfl
  rw [holds_cellar.read_of_bars
    (Reference.stepName_of_mem_namesFor harmor stepName_fileName_cellar count)
    harmorBarred.bars] at hread
  contradiction

/-- A regular file in the place of a directory stops a resolution that could have gone on
without the documents it hides. -/
theorem not_resolves_past_files :
    ¬ ∀ (folder : Folder) (tree : FileTree) (text : String) (r : Reference),
      folder.Holds tree → FileTree.StepName folder.fileName →
      Reference.parse text = .ok r → ∀ (logs : Bool) (stream : RandomStream),
        ∃ resolution, (resolve logs text ⟨.ofSource folder.source, stream⟩).1 =
            .ok resolution ∧
          (resolve logs text ⟨.ofSource (folder.documents tree), stream⟩).1 =
            .ok resolution := by
  intro hclaim
  have hread : Reference.parse "@items/weapons:sword" = .ok .sword := rfl
  obtain ⟨resolution, hresolves, _⟩ := hclaim cellar cellarTree _ _ holds_cellar
    stepName_fileName_cellar hread true (.ofWords [])
  obtain ⟨after, hsearch⟩ := Reference.forReference_of_barredAt holds_cellar
    stepName_fileName_cellar hread (Archive.faithful_ofSource cellar.source) barredAt_cellar
  rw [resolve_of_search_fault hread hsearch] at hresolves
  contradiction

end Resolver
end GameCatalog
