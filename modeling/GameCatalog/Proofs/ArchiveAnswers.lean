import GameCatalog.Proofs.ArchiveFaithfulness
import GameCatalog.Proofs.ComputationRuns

/-!
# What an archive answers

An archive answers a request with the catalog that it keeps under the key, or else with
what its source holds.  A request changes what is kept under its own key only, and it
changes no answer.  So a search, a check or a validation may make its requests one after
the other, and each of them is answered as at the start, also if the documents have
changed since some of them were read.
-/

namespace GameCatalog

theorem CatalogKey.compare_ne_eq {key other : CatalogKey} (hother : other ≠ key) :
    compare key other ≠ .eq := by
  rw [ne_eq, Std.LawfulEqOrd.compare_eq_iff_eq]
  exact fun hsame => hother hsame.symm

namespace Archive

/-- The catalog that is kept under the key, or else the one that the source holds. -/
def answer (archive : Archive) (key : CatalogKey) : Except Fault (Option Catalog) :=
  match archive.cached[key]? with
  | some catalog => .ok (some catalog)
  | none => archive.source.catalog key

variable {archive : Archive} {key other : CatalogKey}

theorem answer_of_cached {catalog : Catalog} (hcached : archive.cached[key]? = some catalog) :
    archive.answer key = .ok (some catalog) := by
  rw [answer, hcached]

theorem answer_of_not_cached (hcached : archive.cached[key]? = none) :
    archive.answer key = archive.source.catalog key := by
  rw [answer, hcached]

theorem answer_of_document {document : Document} (hcached : archive.cached[key]? = none)
    (hdocument : archive.source.document key = .ok document) :
    archive.answer key = .ok document.catalog? := by
  rw [answer_of_not_cached hcached, Source.catalog, hdocument]
  rfl

theorem answer_congr {archive' : Archive} (hsource : archive.source = archive'.source)
    (hcached : archive.cached[key]? = archive'.cached[key]?) :
    archive.answer key = archive'.answer key := by
  rw [answer, answer, hsource, hcached]

theorem load_eq_answer (archive : Archive) (key : CatalogKey) :
    (archive.load key).1 = archive.answer key := by
  cases hcached : archive.cached[key]? with
  | some catalog => rw [load_of_cached hcached, answer_of_cached hcached]
  | none =>
      cases hdocument : archive.source.document key with
      | error fault =>
          rw [load_of_fault hcached hdocument, answer_of_not_cached hcached, Source.catalog,
            hdocument]
          rfl
      | ok document =>
          rw [load_of_document hcached hdocument, answer_of_document hcached hdocument]

theorem load_of_answer {answer : Except Fault (Option Catalog)}
    (hanswer : archive.answer key = answer) :
    ArchiveM.load key archive = (answer, (archive.load key).2) :=
  Prod.ext ((archive.load_eq_answer key).trans hanswer) rfl

theorem Faithful.answer_eq {source : Source} (hfaithful : archive.Faithful source)
    (key : CatalogKey) : archive.answer key = source.catalog key := by
  rw [← load_eq_answer, hfaithful.load_eq key]

/-! ## What a request changes -/

theorem source_record (document : Document) :
    (archive.record key document).source = archive.source := by
  cases document <;> rfl

theorem source_load (archive : Archive) (key : CatalogKey) :
    (archive.load key).2.source = archive.source := by
  cases hcached : archive.cached[key]? with
  | some catalog => rw [load_of_cached hcached]
  | none =>
      cases hdocument : archive.source.document key with
      | error fault =>
          rw [load_of_fault hcached hdocument]
          rfl
      | ok document =>
          rw [load_of_document hcached hdocument, source_record]
          rfl

theorem cached_invalidate (archive : Archive) (key : CatalogKey) :
    archive.invalidate.cached[key]? = none := by
  simp [invalidate]

theorem cached_invalidateKey_self (archive : Archive) (key : CatalogKey) :
    (archive.invalidateKey key).cached[key]? = none := by
  simp [invalidateKey]

theorem cached_invalidateKey_of_ne (archive : Archive) (hother : other ≠ key) :
    (archive.invalidateKey key).cached[other]? = archive.cached[other]? := by
  have hdiffer : compare key other ≠ .eq := CatalogKey.compare_ne_eq hother
  rw [invalidateKey, Std.ExtTreeMap.getElem?_erase, if_neg hdiffer]

theorem cached_record (document : Document) :
    (archive.record key document).cached[other]? =
      if compare key other = .eq then document.catalog?.or archive.cached[other]?
      else archive.cached[other]? := by
  cases document with
  | absent => simp [record, Document.catalog?]
  | unusable => simp [record, Document.catalog?]
  | usable catalog => simp [record, Document.catalog?, Std.ExtTreeMap.getElem?_insert]

theorem cached_load_of_ne (archive : Archive) (hother : other ≠ key) :
    (archive.load key).2.cached[other]? = archive.cached[other]? := by
  cases hcached : archive.cached[key]? with
  | some catalog => rw [load_of_cached hcached]
  | none =>
      cases hdocument : archive.source.document key with
      | error fault =>
          rw [load_of_fault hcached hdocument]
          rfl
      | ok document =>
          rw [load_of_document hcached hdocument, cached_record,
            if_neg (CatalogKey.compare_ne_eq hother)]
          rfl

/-- After a request that meets no fault, what was answered is what is kept. -/
theorem cached_load_self {found : Option Catalog} (hanswer : archive.answer key = .ok found) :
    (archive.load key).2.cached[key]? = found := by
  cases hcached : archive.cached[key]? with
  | some catalog =>
      rw [answer_of_cached hcached, Except.ok.injEq] at hanswer
      rw [load_of_cached hcached, ← hanswer]
      exact hcached
  | none =>
      cases hdocument : archive.source.document key with
      | error fault =>
          rw [answer_of_not_cached hcached, Source.catalog, hdocument] at hanswer
          contradiction
      | ok document =>
          rw [answer_of_document hcached hdocument, Except.ok.injEq] at hanswer
          have hmissed : archive.missed.cached[key]? = none := hcached
          rw [load_of_document hcached hdocument, cached_record,
            if_pos Std.ReflCmp.compare_self, hmissed, hanswer, Option.or_none]

/-- A request changes no answer. -/
theorem answer_load (archive : Archive) (key other : CatalogKey) :
    (archive.load key).2.answer other = archive.answer other := by
  by_cases hother : other = key
  · subst hother
    cases hcached : archive.cached[other]? with
    | some catalog =>
        rw [load_of_cached hcached]
        rfl
    | none =>
        cases hdocument : archive.source.document other with
        | error fault =>
            rw [load_of_fault hcached hdocument]
            rfl
        | ok document =>
            have hanswer := answer_of_document hcached hdocument
            -- A usable document is kept, so it answers from now on; any other is read again.
            have hkept := cached_load_self hanswer
            cases hfound : document.catalog? with
            | some catalog =>
                rw [answer_of_cached (hkept.trans hfound), hanswer, hfound]
            | none =>
                rw [answer_of_not_cached (hkept.trans hfound), source_load,
                  answer_of_not_cached hcached]
  · exact answer_congr (source_load archive key) (cached_load_of_ne archive hother)

/-! ## Requests in turn -/

/-- The archive after requests for the keys in turn. -/
def afterLoads (archive : Archive) (keys : List CatalogKey) : Archive :=
  keys.foldl (fun archive key => (archive.load key).2) archive

theorem afterLoads_cons (archive : Archive) (key : CatalogKey) (keys : List CatalogKey) :
    archive.afterLoads (key :: keys) = (archive.load key).2.afterLoads keys := rfl

theorem answer_afterLoads (archive : Archive) (keys : List CatalogKey)
    (other : CatalogKey) : (archive.afterLoads keys).answer other = archive.answer other := by
  induction keys generalizing archive with
  | nil => rfl
  | cons key keys ih => rw [afterLoads_cons, ih, answer_load]

theorem source_afterLoads (archive : Archive) (keys : List CatalogKey) :
    (archive.afterLoads keys).source = archive.source := by
  induction keys generalizing archive with
  | nil => rfl
  | cons key keys ih => rw [afterLoads_cons, ih, source_load]

theorem requests_afterLoads (archive : Archive) (keys : List CatalogKey) :
    (archive.afterLoads keys).requests = archive.requests + keys.length := by
  induction keys generalizing archive with
  | nil => rfl
  | cons key keys ih =>
      rw [afterLoads_cons, ih, requests_load, List.length_cons]
      omega

theorem exists_answer (hreadable : archive.source.Readable) (key : CatalogKey) :
    ∃ found, archive.answer key = .ok found := by
  cases hcached : archive.cached[key]? with
  | some catalog => exact ⟨some catalog, answer_of_cached hcached⟩
  | none =>
      obtain ⟨document, hread⟩ := hreadable key
      have hdocument : archive.source.document key = .ok (Document.ofRead key document) := by
        rw [Source.document, hread]
        rfl
      exact ⟨_, answer_of_document hcached hdocument⟩

/-! ## Archives that answer alike -/

def SameAnswers (s t : Archive) : Prop :=
  ∀ key, s.answer key = t.answer key

/-- A relation of archives that requests and warnings keep, each request being answered
alike. -/
structure Respected (R : Archive → Archive → Prop) : Prop where
  load : ∀ key, Agrees R (ArchiveM.load key)
  warn : ∀ count, Agrees R (ArchiveM.warn count)

theorem respected_sameAnswers : Respected SameAnswers where
  load key := by
    intro s t hsame
    refine ⟨?_, ?_⟩
    · rw [ArchiveM.load, ArchiveM.load, load_eq_answer, load_eq_answer, hsame key]
    · intro other
      rw [ArchiveM.load, ArchiveM.load, answer_load, answer_load, hsame other]
  warn count := fun _ _ hsame => ⟨rfl, hsame⟩

/-- Both archives answer as the given one does. -/
def BothAnswerAs (start s t : Archive) : Prop :=
  start.SameAnswers s ∧ start.SameAnswers t

theorem respected_bothAnswerAs (start : Archive) : Respected (BothAnswerAs start) where
  load key := by
    intro s t hboth
    have hs := respected_sameAnswers.load key start s hboth.1
    have ht := respected_sameAnswers.load key start t hboth.2
    have hanswer : (s.load key).1 = (t.load key).1 := hs.1.symm.trans ht.1
    have hstart (other : CatalogKey) : start.answer other = (start.load key).2.answer other :=
      (start.answer_load key other).symm
    exact ⟨hanswer, fun other => (hstart other).trans (hs.2 other),
      fun other => (hstart other).trans (ht.2 other)⟩
  warn count := fun _ _ hboth => ⟨rfl, hboth⟩

end Archive
end GameCatalog
