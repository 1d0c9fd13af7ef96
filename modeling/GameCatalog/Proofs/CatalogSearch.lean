import GameCatalog.Proofs.ArchiveAnswers
import GameCatalog.Resolution.Resolver

/-!
# The search for a reference's catalog

The search asks for ever shorter prefixes of the steps, down to the bare domain, and
stops at the first under which the source holds a catalog.  It asks once for every
prefix on the way.  What a resolution comes to depends on the archive only through what
the search found, and on the stream only through one roll.
-/

namespace GameCatalog

/-- Archives that are faithful to these sources. -/
def Archive.Alike (source other : Source) (s t : Archive) : Prop :=
  s.Faithful source ∧ t.Faithful other

theorem Archive.agrees_load {source other : Source} {key : CatalogKey}
    (hsame : source.catalog key = other.catalog key) :
    Agrees (Archive.Alike source other) (ArchiveM.load key) := by
  intro s t halike
  obtain ⟨hs, ht⟩ := halike
  have hanswer : (s.load key).1 = (t.load key).1 := by
    rw [hs.load_eq key, ht.load_eq key, hsame]
  exact ⟨hanswer, hs.load key, ht.load key⟩

/-! ## Searching -/

namespace Search

/-- The key that the first steps make. -/
def keyAt (domain : String) (steps : List String) (count : Nat) : CatalogKey :=
  CatalogKey.ofSegments domain (steps.take count)

/-- The keys from so many steps down to none. -/
def keysDown (domain : String) (steps : List String) (split : Nat) : List CatalogKey :=
  (List.range (split + 1)).reverse.map (keyAt domain steps)

theorem keysDown_succ (domain : String) (steps : List String) (split : Nat) :
    keysDown domain steps (split + 1) =
      keyAt domain steps (split + 1) :: keysDown domain steps split := by
  unfold keysDown
  rw [List.range_succ, List.reverse_append, List.map_append]
  rfl

theorem length_keysDown (domain : String) (steps : List String) (split : Nat) :
    (keysDown domain steps split).length = split + 1 := by
  simp [keysDown]

variable {domain : String} {steps : List String} {split : Nat}
  {archive loaded after : Archive}

theorem downFrom_of_some {catalog : Catalog}
    (hload : ArchiveM.load (keyAt domain steps split) archive =
      (.ok (some catalog), loaded)) :
    downFrom domain steps split archive =
      (.ok (.found catalog (steps.drop split)), loaded) := by
  cases split with
  | zero => exact run_bind_ok hload
  | succ split => exact run_bind_ok hload

theorem forReference_of_holds {source : Source} {catalog : Catalog} {r : Reference}
    {step : String} (hsteps : r.steps = [step])
    (hholds : source.Holds ⟨r.domain, step⟩ catalog) :
    ∃ after, forReference r (.ofSource source) = (.ok (.found catalog []), after) := by
  have hkey : keyAt r.domain [step] 1 = ⟨r.domain, step⟩ := by
    simp [keyAt, CatalogKey.ofSegments, Text.joined]
  have hanswer : (Archive.ofSource source).answer (keyAt r.domain [step] 1) =
      .ok (some catalog) := by
    rw [hkey]
    exact (Archive.answer_of_not_cached rfl).trans (Source.catalog_eq_some_iff.mpr hholds)
  rw [forReference, hsteps]
  exact ⟨_, downFrom_of_some (Archive.load_of_answer hanswer)⟩

theorem downFrom_zero_of_none
    (hload : ArchiveM.load (keyAt domain steps 0) archive = (.ok none, loaded)) :
    downFrom domain steps 0 archive =
      (.ok (.missing [(keyAt domain steps 0).text]), loaded) :=
  run_bind_ok hload

theorem downFrom_succ_of_none {search : Search}
    (hload : ArchiveM.load (keyAt domain steps (split + 1)) archive = (.ok none, loaded))
    (hrest : downFrom domain steps split loaded = (.ok search, after)) :
    downFrom domain steps (split + 1) archive =
      (.ok (search.after (keyAt domain steps (split + 1))), after) :=
  (run_bind_ok hload).trans (run_bind_ok hrest)

/-- The search stops at the longest prefix that the archive knows, having asked for it and
for every longer one. -/
theorem downFrom_found {count : Nat} (hcount : count ≤ split) {catalog : Catalog}
    (hheld : archive.answer (keyAt domain steps count) = .ok (some catalog))
    (hlonger : ∀ longer, count < longer → longer ≤ split →
      archive.answer (keyAt domain steps longer) = .ok none) :
    downFrom domain steps split archive =
      (.ok (.found catalog (steps.drop count)),
        archive.afterLoads ((keysDown domain steps split).take (split - count + 1))) := by
  induction split generalizing archive with
  | zero =>
      have hzero : count = 0 := by omega
      subst hzero
      exact downFrom_of_some (Archive.load_of_answer hheld)
  | succ split ih =>
      rw [keysDown_succ, List.take_succ_cons, Archive.afterLoads_cons]
      by_cases hlast : count = split + 1
      · subst hlast
        rw [Nat.sub_self, List.take_zero]
        exact downFrom_of_some (Archive.load_of_answer hheld)
      · have hnone := Archive.load_of_answer (hlonger (split + 1) (by omega) (by omega))
        have hstill : (archive.load (keyAt domain steps (split + 1))).2.answer
            (keyAt domain steps count) = .ok (some catalog) := by
          rw [Archive.answer_load]
          exact hheld
        have hrest := ih (by omega) hstill fun longer hlong hshort => by
          rw [Archive.answer_load]
          exact hlonger longer hlong (by omega)
        rw [show split + 1 - count = split - count + 1 by omega]
        exact downFrom_succ_of_none hnone hrest

theorem downFrom_missing
    (hnone : ∀ count ≤ split, archive.answer (keyAt domain steps count) = .ok none) :
    downFrom domain steps split archive =
      (.ok (.missing ((keysDown domain steps split).map CatalogKey.text)),
        archive.afterLoads (keysDown domain steps split)) := by
  induction split generalizing archive with
  | zero => exact downFrom_zero_of_none (Archive.load_of_answer (hnone 0 (Nat.le_refl 0)))
  | succ split ih =>
      have hload := Archive.load_of_answer (hnone (split + 1) (Nat.le_refl _))
      have hstill : ∀ count ≤ split, (archive.load (keyAt domain steps (split + 1))).2.answer
          (keyAt domain steps count) = .ok none := by
        intro count hcount
        rw [Archive.answer_load]
        exact hnone count (by omega)
      have hrest := ih hstill
      rw [keysDown_succ]
      exact downFrom_succ_of_none hload hrest

/-- The search ends in the first fault that it meets before it has found a catalog. -/
theorem downFrom_fault {count : Nat} (hcount : count ≤ split) {fault : Fault}
    (hfault : archive.answer (keyAt domain steps count) = .error fault)
    (hlonger : ∀ longer, count < longer → longer ≤ split →
      archive.answer (keyAt domain steps longer) = .ok none) :
    ∃ after, downFrom domain steps split archive = (.error fault, after) := by
  induction split generalizing archive with
  | zero =>
      have hzero : count = 0 := by omega
      subst hzero
      exact ⟨_, run_bind_error (Archive.load_of_answer hfault)⟩
  | succ split ih =>
      by_cases hlast : count = split + 1
      · subst hlast
        exact ⟨_, run_bind_error (Archive.load_of_answer hfault)⟩
      · have hnone := Archive.load_of_answer (hlonger (split + 1) (by omega) (by omega))
        have hstill : (archive.load (keyAt domain steps (split + 1))).2.answer
            (keyAt domain steps count) = .error fault := by
          rw [Archive.answer_load]
          exact hfault
        obtain ⟨after, hrest⟩ := ih (by omega) hstill fun longer hlong hshort => by
          rw [Archive.answer_load]
          exact hlonger longer hlong (by omega)
        exact ⟨after, (run_bind_ok hnone).trans (run_bind_error hrest)⟩

/-- Either the answer for some prefix settles the search, those for all longer ones
being that there is nothing, or there is nothing under any prefix. -/
theorem exists_settling (archive : Archive) (domain : String) (steps : List String)
    (split : Nat) :
    (∃ count answer, count ≤ split ∧ archive.answer (keyAt domain steps count) = answer ∧
      answer ≠ .ok none ∧
      ∀ longer, count < longer → longer ≤ split →
        archive.answer (keyAt domain steps longer) = .ok none) ∨
    (∀ count ≤ split, archive.answer (keyAt domain steps count) = .ok none) := by
  induction split with
  | zero =>
      by_cases hanswer : archive.answer (keyAt domain steps 0) = .ok none
      · refine .inr fun count hcount => ?_
        rw [Nat.le_zero.mp hcount]
        exact hanswer
      · exact .inl ⟨0, _, Nat.le_refl 0, rfl, hanswer, by omega⟩
  | succ split ih =>
      by_cases hanswer : archive.answer (keyAt domain steps (split + 1)) = .ok none
      · rcases ih with ⟨count, answer, hcount, hsettles, hsome, hlonger⟩ | hnone
        · refine .inl ⟨count, answer, by omega, hsettles, hsome, ?_⟩
          intro longer hlong hshort
          rcases Nat.le_or_eq_of_le_succ hshort with hbelow | hlast
          · exact hlonger longer hlong hbelow
          · rw [hlast]
            exact hanswer
        · refine .inr fun count hcount => ?_
          rcases Nat.le_or_eq_of_le_succ hcount with hbelow | hlast
          · exact hnone count hbelow
          · rw [hlast]
            exact hanswer
      · exact .inl ⟨split + 1, _, Nat.le_refl _, rfl, hanswer, by omega⟩

/-- Over a readable source either some prefix is the longest one known, or none is. -/
theorem exists_longest (hreadable : archive.source.Readable) (domain : String)
    (steps : List String) (split : Nat) :
    (∃ count catalog, count ≤ split ∧
      archive.answer (keyAt domain steps count) = .ok (some catalog) ∧
      ∀ longer, count < longer → longer ≤ split →
        archive.answer (keyAt domain steps longer) = .ok none) ∨
    (∀ count ≤ split, archive.answer (keyAt domain steps count) = .ok none) := by
  rcases exists_settling archive domain steps split with
    ⟨count, answer, hcount, hsettles, hsome, hlonger⟩ | hnone
  · obtain ⟨found, hanswer⟩ := archive.exists_answer hreadable (keyAt domain steps count)
    rw [← hsettles, hanswer] at hsome
    cases found with
    | none => contradiction
    | some catalog => exact .inl ⟨count, catalog, hcount, hanswer, hlonger⟩
  · exact .inr hnone

theorem agrees_downFrom {R : Archive → Archive → Prop} (domain : String)
    (steps : List String) (split : Nat)
    (hload : ∀ count ≤ split, Agrees R (ArchiveM.load (keyAt domain steps count))) :
    Agrees R (downFrom domain steps split) := by
  induction split with
  | zero =>
      apply Agrees.bind (hload 0 (Nat.le_refl 0))
      intro answer
      cases answer <;> exact agrees_pure _ _
  | succ split ih =>
      apply Agrees.bind (hload (split + 1) (Nat.le_refl _))
      intro answer
      cases answer with
      | some catalog => exact agrees_pure _ _
      | none =>
          apply Agrees.bind (ih fun count hcount => hload count (by omega))
          exact fun search => agrees_pure _ _

/-- Whatever the archives keep, searches over sources that give the same answers for the
keys of the steps come to the same. -/
theorem downFrom_congr {source other : Source} (domain : String) (steps : List String)
    (split : Nat)
    (hsame : ∀ count ≤ split, source.catalog (keyAt domain steps count) =
      other.catalog (keyAt domain steps count)) :
    Agrees (Archive.Alike source other) (downFrom domain steps split) :=
  agrees_downFrom domain steps split fun count hcount =>
    Archive.agrees_load (hsame count hcount)

end Search

/-! ## Resolving -/

/-- What a prospect comes to for a roll. -/
def Reference.finding (r : Reference) (roll : Float) :
    Prospect → Except DiagnosticKind Finding
  | .failed kind => .error kind
  | .certain catalog item => r.follow catalog item
  | .lottery catalog items shares => r.drawn catalog items shares roll

/-- Only a draw takes a number from the stream. -/
def Prospect.streamAfter (stream : RandomStream) : Prospect → RandomStream
  | .failed _ => stream
  | .certain _ _ => stream
  | .lottery _ _ _ => stream.unit.2

namespace Resolver

variable {logs : Bool} {text : String} {r : Reference} {archive searched : Archive}
  {stream : RandomStream}

theorem outcome_run (r : Reference) (prospect : Prospect) (archive : Archive)
    (stream : RandomStream) :
    outcome r prospect ⟨archive, stream⟩ =
      (.ok (r.finding stream.unit.1 prospect), ⟨archive, prospect.streamAfter stream⟩) := by
  cases prospect <;> rfl

theorem consult_of_run {α : Type} {action : ArchiveM α} {result : Except Fault α}
    (hrun : action archive = (result, searched)) (stream : RandomStream) :
    DrawM.consult action ⟨archive, stream⟩ = (result, ⟨searched, stream⟩) := by
  unfold DrawM.consult
  rw [hrun]

theorem resolve_of_search (hread : Reference.parse text = .ok r) {search : Search}
    (hsearch : Search.forReference r archive = (.ok search, searched)) :
    resolve logs text ⟨archive, stream⟩ =
      (.ok (r.settle text (r.finding stream.unit.1 (r.prospect search))),
        ⟨searched.warn
            (if logs && (r.settle text
              (r.finding stream.unit.1 (r.prospect search))).diagnostic.isSome then 1 else 0),
          (r.prospect search).streamAfter stream⟩) := by
  unfold resolve
  rw [hread]
  refine (run_bind_ok (consult_of_run hsearch stream)).trans ?_
  exact run_bind_ok (outcome_run r _ _ _)

theorem resolve_of_search_fault (hread : Reference.parse text = .ok r) {fault : Fault}
    (hsearch : Search.forReference r archive = (.error fault, searched)) :
    resolve logs text ⟨archive, stream⟩ = (.error fault, ⟨searched, stream⟩) := by
  unfold resolve
  rw [hread]
  exact run_bind_error (consult_of_run hsearch stream)

end Resolver

/-! ## What a resolution works on -/

namespace Reference

def keyAt (r : Reference) (count : Nat) : CatalogKey :=
  Search.keyAt r.domain r.steps count

/-- So many steps make the longest key of the reference under which the source holds a
catalog. -/
structure LongestHeld (r : Reference) (source : Source) (count : Nat)
    (catalog : Catalog) : Prop where
  within : count ≤ r.steps.length
  held : source.Holds (r.keyAt count) catalog
  longest : ∀ longer, count < longer → longer ≤ r.steps.length →
    ∀ other, ¬ source.Holds (r.keyAt longer) other

/-- The source holds a catalog under none of the keys of the reference. -/
def NoneHeld (r : Reference) (source : Source) : Prop :=
  ∀ count ≤ r.steps.length, ∀ catalog, ¬ source.Holds (r.keyAt count) catalog

/-- The keys of the reference from all steps down to the bare domain. -/
def keysDown (r : Reference) : List CatalogKey :=
  Search.keysDown r.domain r.steps r.steps.length

variable {r : Reference} {source : Source} {archive : Archive}

/-- Over a readable source a search comes to an end, at the longest key that the archive
has an answer for if there is one. -/
theorem forReference_cases (hreadable : archive.source.Readable) (r : Reference) :
    (∃ count catalog, count ≤ r.steps.length ∧
      archive.answer (r.keyAt count) = .ok (some catalog) ∧
      Search.forReference r archive = (.ok (.found catalog (r.steps.drop count)),
        archive.afterLoads (r.keysDown.take (r.steps.length - count + 1)))) ∨
    ((∀ count ≤ r.steps.length, archive.answer (r.keyAt count) = .ok none) ∧
      Search.forReference r archive = (.ok (.missing (r.keysDown.map CatalogKey.text)),
        archive.afterLoads r.keysDown)) := by
  rcases Search.exists_longest hreadable r.domain r.steps r.steps.length with
    ⟨count, catalog, hcount, hheld, hlonger⟩ | hnone
  · exact .inl ⟨count, catalog, hcount, hheld, Search.downFrom_found hcount hheld hlonger⟩
  · exact .inr ⟨hnone, Search.downFrom_missing hnone⟩

theorem forReference_of_longestHeld (hreadable : source.Readable)
    (hfaithful : archive.Faithful source) {count : Nat} {catalog : Catalog}
    (hlongest : r.LongestHeld source count catalog) :
    ∃ after, Search.forReference r archive =
        (.ok (.found catalog (r.steps.drop count)), after) ∧
      after.requests = archive.requests + (r.steps.length - count + 1) := by
  have hwithin := hlongest.within
  have hheld : archive.answer (r.keyAt count) = .ok (some catalog) := by
    rw [hfaithful.answer_eq]
    exact Source.catalog_eq_some_iff.mpr hlongest.held
  have hlonger : ∀ longer, count < longer → longer ≤ r.steps.length →
      archive.answer (r.keyAt longer) = .ok none := by
    intro longer hlong hshort
    rw [hfaithful.answer_eq]
    exact Source.catalog_eq_none hreadable (hlongest.longest longer hlong hshort)
  refine ⟨_, Search.downFrom_found hwithin hheld hlonger, ?_⟩
  rw [Archive.requests_afterLoads, List.length_take, Search.length_keysDown]
  omega

theorem forReference_of_noneHeld (hreadable : source.Readable)
    (hfaithful : archive.Faithful source) (hnone : r.NoneHeld source) :
    ∃ after, Search.forReference r archive =
        (.ok (.missing ((List.range (r.steps.length + 1)).reverse.map fun count =>
          (r.keyAt count).text)), after) ∧
      after.requests = archive.requests + (r.steps.length + 1) := by
  have hmissing : ∀ count ≤ r.steps.length,
      archive.answer (r.keyAt count) = .ok none := by
    intro count hcount
    rw [hfaithful.answer_eq]
    exact Source.catalog_eq_none hreadable (hnone count hcount)
  have hsearch := Search.downFrom_missing hmissing
  rw [Search.keysDown, List.map_map] at hsearch
  refine ⟨_, hsearch, ?_⟩
  rw [Archive.requests_afterLoads, List.length_map, List.length_reverse, List.length_range]

end Reference

namespace Resolver

/-- Equal rolls and searches that come to the same make equal resolutions. -/
theorem resolve_congr {logs : Bool} {text : String} {r : Reference}
    {archive archive' : Archive} {stream stream' : RandomStream}
    (hread : Reference.parse text = .ok r)
    (hsearch : (Search.forReference r archive').1 = (Search.forReference r archive).1)
    (hroll : stream'.unit.1 = stream.unit.1) :
    (resolve logs text ⟨archive', stream'⟩).1 = (resolve logs text ⟨archive, stream⟩).1 := by
  cases hrun : Search.forReference r archive with
  | mk result searched =>
      have hrun' : Search.forReference r archive' =
          (result, (Search.forReference r archive').2) := by
        rw [hrun] at hsearch
        exact Prod.ext hsearch rfl
      cases result with
      | error fault =>
          rw [resolve_of_search_fault hread hrun, resolve_of_search_fault hread hrun']
      | ok search =>
          rw [resolve_of_search hread hrun, resolve_of_search hread hrun', hroll]

/-- A resolution works on the longest prefix of the steps under which the source holds a
catalog, whatever the archive keeps, and it asks for that prefix and the longer ones
only.  Without such a prefix it reports all keys it tried.  Nothing else that the source
holds matters. -/
theorem resolve_on_longest_held {source : Source} {archive : Archive}
    (hreadable : source.Readable) (hreached : archive.Reached source) {text : String}
    {r : Reference} (hread : Reference.parse text = .ok r) (logs : Bool)
    (stream : RandomStream) :
    (∀ count catalog, r.LongestHeld source count catalog →
      ∃ after, resolve logs text ⟨archive, stream⟩ =
          (.ok (r.settle text (r.finding stream.unit.1
            (r.prospectIn catalog (r.steps.drop count)))), after) ∧
        after.archive.requests = archive.requests + (r.steps.length - count + 1)) ∧
    (r.NoneHeld source →
      ∃ after, resolve logs text ⟨archive, stream⟩ =
          (.ok ⟨none, if r.optional then none else
            some (.unresolved text r (.catalogNotFound
              ((List.range (r.steps.length + 1)).reverse.map fun count =>
                (r.keyAt count).text)))⟩, after) ∧
        after.archive.requests = archive.requests + (r.steps.length + 1)) ∧
    (∀ (other : Source) (archive' : Archive) (stream' : RandomStream),
      archive'.Reached other →
      (∀ count ≤ r.steps.length, other.read (r.keyAt count) = source.read (r.keyAt count)) →
      stream'.unit.1 = stream.unit.1 →
      (resolve logs text ⟨archive', stream'⟩).1 =
        (resolve logs text ⟨archive, stream⟩).1) := by
  have hfaithful := Archive.faithful_of_reached hreached
  refine ⟨?_, ?_, ?_⟩
  · intro count catalog hlongest
    obtain ⟨after, hsearch, hrequests⟩ :=
      Reference.forReference_of_longestHeld hreadable hfaithful hlongest
    exact ⟨_, resolve_of_search hread hsearch, hrequests⟩
  · intro hnone
    obtain ⟨after, hsearch, hrequests⟩ :=
      Reference.forReference_of_noneHeld hreadable hfaithful hnone
    exact ⟨_, resolve_of_search hread hsearch, hrequests⟩
  · intro other archive' stream' hreached' hsame hroll
    have hcatalogs : ∀ count ≤ r.steps.length,
        other.catalog (Search.keyAt r.domain r.steps count) =
          source.catalog (Search.keyAt r.domain r.steps count) := by
      intro count hcount
      have hkey := hsame count hcount
      unfold Reference.keyAt at hkey
      rw [Source.catalog, Source.catalog, Source.document, Source.document, hkey]
    have hsearch := Search.downFrom_congr r.domain r.steps r.steps.length hcatalogs
      archive' archive ⟨Archive.faithful_of_reached hreached', hfaithful⟩
    exact resolve_congr hread hsearch.1 hroll

end Resolver

/-- Catalogs without items at the top and one step down, and an array two steps down. -/
def Documents.nested : Documents :=
  (((∅ : Documents).insert ⟨"a", ""⟩ "\x7b\x7d").insert ⟨"a", "b"⟩ "\x7b\x7d").insert
    ⟨"a", "b/c"⟩ "[]"

theorem Documents.nested_longestHeld :
    Reference.LongestHeld ⟨"a", ["b"], "c", .named "d", [], false, []⟩ nested.source 1
      ⟨⟨"a", "b"⟩, Metadata.ofDocument [], Shape.ofFields [], .object []⟩ := by
  have hempty : Document.decode? "\x7b\x7d".toUTF8 = some "\x7b\x7d" :=
    Document.decode?_of_short (by decide)
  have harray : Document.decode? "[]".toUTF8 = some "[]" :=
    Document.decode?_of_short (by decide)
  have hjson : Json.parse? (Catalog.withoutMark "[]") = some (.array []) := rfl
  refine ⟨by decide, Source.Holds.intro rfl hempty rfl, ?_⟩
  intro longer hlong hwithin other
  have htwo : longer = 2 := by
    simp only [Reference.steps, List.length_append, List.length_singleton] at hwithin
    omega
  subst htwo
  exact Source.not_holds_of_no_object rfl harray (by simp [hjson]) other

/-- The array two steps down and the catalog kept from the top are passed over. -/
theorem Resolver.resolve_on_longest_held_nested :
    Documents.nested.source.Readable ∧
      ((Archive.ofSource Documents.nested.source).load ⟨"a", ""⟩).2.Reached
        Documents.nested.source ∧
      Reference.parse "@a/b/c:d" = .ok ⟨"a", ["b"], "c", .named "d", [], false, []⟩ ∧
      ∃ after, resolve true "@a/b/c:d"
          ⟨((Archive.ofSource Documents.nested.source).load ⟨"a", ""⟩).2, .ofWords []⟩ =
            (.ok ⟨none, some (.unresolved "@a/b/c:d"
              ⟨"a", ["b"], "c", .named "d", [], false, []⟩
              (.itemNotFound "a/b" (some "c")))⟩, after) ∧
        after.archive.requests = 3 := by
  have hreached : ((Archive.ofSource Documents.nested.source).load ⟨"a", ""⟩).2.Reached
      Documents.nested.source := .load .start _
  have hread : Reference.parse "@a/b/c:d" =
      .ok ⟨"a", ["b"], "c", .named "d", [], false, []⟩ := rfl
  have hreadable := Documents.source_readable Documents.nested
  obtain ⟨hfound, _, _⟩ :=
    resolve_on_longest_held hreadable hreached hread true (.ofWords [])
  obtain ⟨after, hresolve, hrequests⟩ := hfound 1 _ Documents.nested_longestHeld
  refine ⟨hreadable, hreached, hread, after, hresolve.trans ?_, ?_⟩
  · rfl
  · rw [hrequests, Archive.requests_load]
    rfl

end GameCatalog
