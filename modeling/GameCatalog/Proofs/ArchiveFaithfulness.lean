import GameCatalog.Archive

/-!
# The archive answers for its source

A document is of use if it decodes to a JSON object.  As long as the documents of a
source do not change, every catalog that the archive keeps is the one that the source
holds.  So a request has the same answer whether it is answered from the cache, read
for the first time, or read again after it was dropped.
-/

namespace GameCatalog

/-! ## What a source holds -/

namespace Source

/-- The document under the key decodes to a JSON object, read as this catalog. -/
inductive Holds (source : Source) (key : CatalogKey) : Catalog → Prop where
  | intro {bytes : ByteArray} {text : String} {fields : List (String × Json)}
      (hread : source.read key = .ok (some bytes))
      (hdecode : Document.decode? bytes = some text)
      (hobject : Json.parse? (Catalog.withoutMark text) = some (.object fields)) :
      Holds source key
        ⟨key, Metadata.ofDocument fields, Shape.ofFields fields, .object fields⟩

theorem not_holds_of_no_object {source : Source} {key : CatalogKey} {bytes : ByteArray}
    {text : String} (hread : source.read key = .ok (some bytes))
    (hdecode : Document.decode? bytes = some text)
    (hobject : ∀ fields, Json.parse? (Catalog.withoutMark text) ≠ some (.object fields))
    (catalog : Catalog) : ¬ source.Holds key catalog := by
  intro hheld
  cases hheld with
  | @intro bytes' text' fields hread' hdecode' hobject' =>
      rw [hread, Except.ok.injEq, Option.some.injEq] at hread'
      rw [← hread', hdecode, Option.some.injEq] at hdecode'
      rw [← hdecode'] at hobject'
      exact hobject fields hobject'

/-- The answer to a request for the key as the source gives it. -/
def catalog (source : Source) (key : CatalogKey) : Except Fault (Option Catalog) :=
  (source.document key).map Document.catalog?

theorem document_eq_usable_iff {source : Source} {key : CatalogKey} {catalog : Catalog} :
    source.document key = .ok (.usable catalog) ↔ source.Holds key catalog := by
  constructor
  · intro hdocument
    unfold document at hdocument
    cases hread : source.read key with
    | error fault => simp [hread, Except.map] at hdocument
    | ok answer =>
        cases answer with
        | none => simp [hread, Except.map, Document.ofRead] at hdocument
        | some bytes =>
            simp only [hread, Except.map, Document.ofRead, Document.ofBytes,
              Except.ok.injEq] at hdocument
            cases hdecode : Document.decode? bytes with
            | none => simp [hdecode] at hdocument
            | some text =>
                cases hjson : Json.parse? (Catalog.withoutMark text) with
                | none => simp [hdecode, Catalog.parse, hjson] at hdocument
                | some json =>
                    cases json with
                    | object fields =>
                        simp only [hdecode, Option.map_some, Catalog.parse, hjson,
                          Catalog.ofJson, Document.usable.injEq] at hdocument
                        subst hdocument
                        exact .intro hread hdecode hjson
                    | _ => simp [hdecode, Catalog.parse, hjson, Catalog.ofJson] at hdocument
  · intro hholds
    cases hholds with
    | intro hread hdecode hobject =>
        simp [document, hread, Except.map, Document.ofRead, Document.ofBytes, hdecode,
          Catalog.parse, hobject, Catalog.ofJson]

theorem catalog_eq_some_iff {source : Source} {key : CatalogKey} {catalog : Catalog} :
    source.catalog key = .ok (some catalog) ↔ source.Holds key catalog := by
  rw [← document_eq_usable_iff]
  unfold Source.catalog
  cases source.document key with
  | error fault => simp [Except.map]
  | ok document =>
      cases document <;> simp [Except.map, Document.catalog?]

theorem catalog_eq_none {source : Source} (hreadable : source.Readable) {key : CatalogKey}
    (hnone : ∀ catalog, ¬ source.Holds key catalog) : source.catalog key = .ok none := by
  obtain ⟨answer, hread⟩ := hreadable key
  have hdocument : source.document key = .ok (Document.ofRead key answer) := by
    rw [document, hread]
    rfl
  have hcatalog : source.catalog key = .ok (Document.ofRead key answer).catalog? := by
    rw [Source.catalog, hdocument]
    rfl
  cases hheld : (Document.ofRead key answer).catalog? with
  | none => rw [hcatalog, hheld]
  | some catalog =>
      rw [hheld] at hcatalog
      exact absurd (catalog_eq_some_iff.mp hcatalog) (hnone catalog)

end Source

theorem Document.fromUTF8?_toByteArray (text : String) :
    String.fromUTF8? text.toByteArray = some text := by
  unfold String.fromUTF8?
  rw [dif_pos text.isValidUTF8]
  rfl

theorem Document.decode?_of_unmarked {text : String}
    (hmark : (text.toUTF8.extract 0 3).toList ≠ markBytes) :
    decode? text.toUTF8 = some text := by
  have hkept : withoutMark text.toUTF8 = text.toUTF8 := by
    unfold withoutMark
    have hdiffer : ((text.toUTF8.extract 0 3).toList == markBytes) = false :=
      beq_eq_false_iff_ne.mpr hmark
    rw [hdiffer, Bool.and_false, if_neg Bool.false_ne_true]
  rw [decode?, hkept]
  exact fromUTF8?_toByteArray text

/-- A text of less than three bytes has no byte order mark to lose. -/
theorem Document.decode?_of_short {text : String} (hshort : text.utf8ByteSize < 3) :
    decode? text.toUTF8 = some text := by
  have hsize : ¬ 3 ≤ text.utf8ByteSize := Nat.not_le.mpr hshort
  simp [decode?, withoutMark, hsize, fromUTF8?_toByteArray]

/-! ## Requests -/

namespace Archive

/-- Every catalog that the archive keeps is the one that the source holds. -/
structure Faithful (archive : Archive) (source : Source) : Prop where
  source_eq : archive.source = source
  held : ∀ {key : CatalogKey} {catalog : Catalog},
    archive.cached[key]? = some catalog → source.Holds key catalog

/-- How many catalogs were asked for. -/
def requests (archive : Archive) : Nat :=
  archive.hits + archive.misses

/-- The archive once it has turned to its source. -/
def missed (archive : Archive) : Archive :=
  { archive with misses := archive.misses + 1, reads := archive.reads + 1 }

variable {archive : Archive} {source : Source} {key : CatalogKey}

theorem consult_miss (archive : Archive) (key : CatalogKey) :
    archive.miss.consult key = (archive.source.document key, archive.missed) :=
  rfl

theorem load_of_cached {catalog : Catalog} (hcached : archive.cached[key]? = some catalog) :
    archive.load key = (.ok (some catalog), { archive with hits := archive.hits + 1 }) := by
  rw [load, hcached]

theorem load_of_fault {fault : Fault} (hcached : archive.cached[key]? = none)
    (hfault : archive.source.document key = .error fault) :
    archive.load key = (.error fault, archive.missed) := by
  simp only [load, hcached, consult_miss, hfault]

theorem load_of_document {document : Document} (hcached : archive.cached[key]? = none)
    (hdocument : archive.source.document key = .ok document) :
    archive.load key = (.ok document.catalog?, archive.missed.record key document) := by
  simp only [load, hcached, consult_miss, hdocument]

theorem requests_record (document : Document) :
    (archive.record key document).requests = archive.requests := by
  cases document <;> rfl

/-- Every request is counted once. -/
theorem requests_load (archive : Archive) (key : CatalogKey) :
    (archive.load key).2.requests = archive.requests + 1 := by
  cases hcached : archive.cached[key]? with
  | some catalog =>
      rw [load_of_cached hcached]
      simp only [requests]
      omega
  | none =>
      cases hdocument : archive.source.document key with
      | error fault =>
          rw [load_of_fault hcached hdocument]
          rfl
      | ok document =>
          rw [load_of_document hcached hdocument, requests_record]
          rfl

/-! ## The cache does not show -/

theorem faithful_ofSource (source : Source) : (ofSource source).Faithful source where
  source_eq := rfl
  held hcached := by simp [ofSource] at hcached

theorem Faithful.warn (hfaithful : archive.Faithful source) (count : Nat) :
    (archive.warn count).Faithful source :=
  ⟨hfaithful.source_eq, hfaithful.held⟩

theorem Faithful.invalidate (hfaithful : archive.Faithful source) :
    archive.invalidate.Faithful source where
  source_eq := hfaithful.source_eq
  held hcached := by simp [Archive.invalidate] at hcached

theorem Faithful.invalidateKey (hfaithful : archive.Faithful source) (key : CatalogKey) :
    (archive.invalidateKey key).Faithful source where
  source_eq := hfaithful.source_eq
  held hcached := by
    simp only [Archive.invalidateKey, Std.ExtTreeMap.getElem?_erase] at hcached
    split at hcached
    · contradiction
    · exact hfaithful.held hcached

theorem Faithful.missed (hfaithful : archive.Faithful source) :
    archive.missed.Faithful source :=
  ⟨hfaithful.source_eq, hfaithful.held⟩

/-- A document that is kept was just read. -/
theorem Faithful.record (hfaithful : archive.Faithful source) {document : Document}
    (hdocument : source.document key = .ok document) :
    (archive.record key document).Faithful source := by
  cases document with
  | absent => exact hfaithful
  | unusable => exact ⟨hfaithful.source_eq, hfaithful.held⟩
  | usable catalog =>
      refine ⟨hfaithful.source_eq, ?_⟩
      intro other kept hcached
      simp only [Archive.record, Std.ExtTreeMap.getElem?_insert] at hcached
      split at hcached
      next hsame =>
        rw [Std.LawfulEqOrd.compare_eq_iff_eq] at hsame
        simp only [Option.some.injEq] at hcached
        subst hsame hcached
        exact Source.document_eq_usable_iff.mp hdocument
      next => exact hfaithful.held hcached

theorem Faithful.load (hfaithful : archive.Faithful source) (key : CatalogKey) :
    (archive.load key).2.Faithful source := by
  cases hcached : archive.cached[key]? with
  | some catalog =>
      rw [load_of_cached hcached]
      exact ⟨hfaithful.source_eq, hfaithful.held⟩
  | none =>
      cases hdocument : archive.source.document key with
      | error fault =>
          rw [load_of_fault hcached hdocument]
          exact hfaithful.missed
      | ok document =>
          rw [load_of_document hcached hdocument]
          rw [hfaithful.source_eq] at hdocument
          exact hfaithful.missed.record hdocument

/-- Whatever is kept, the answer is that of the source. -/
theorem Faithful.load_eq (hfaithful : archive.Faithful source) (key : CatalogKey) :
    (archive.load key).1 = source.catalog key := by
  cases hcached : archive.cached[key]? with
  | some catalog =>
      rw [load_of_cached hcached]
      exact (Source.catalog_eq_some_iff.mpr (hfaithful.held hcached)).symm
  | none =>
      have hsource := hfaithful.source_eq
      cases hdocument : archive.source.document key with
      | error fault =>
          rw [load_of_fault hcached hdocument]
          rw [hsource] at hdocument
          rw [Source.catalog, hdocument]
          rfl
      | ok document =>
          rw [load_of_document hcached hdocument]
          rw [hsource] at hdocument
          rw [Source.catalog, hdocument]
          rfl

/-- The archives that requests and invalidations lead to over an unchanged source. -/
inductive Reached (source : Source) : Archive → Prop where
  | start : Reached source (ofSource source)
  | load {archive : Archive} (hreached : Reached source archive) (key : CatalogKey) :
      Reached source (archive.load key).2
  | invalidate {archive : Archive} (hreached : Reached source archive) :
      Reached source archive.invalidate
  | invalidateKey {archive : Archive} (hreached : Reached source archive)
      (key : CatalogKey) : Reached source (archive.invalidateKey key)
  | warn {archive : Archive} (hreached : Reached source archive) (count : Nat) :
      Reached source (archive.warn count)

theorem faithful_of_reached (hreached : Reached source archive) :
    archive.Faithful source := by
  induction hreached with
  | start => exact faithful_ofSource source
  | load _ key ih => exact ih.load key
  | invalidate _ ih => exact ih.invalidate
  | invalidateKey _ key ih => exact ih.invalidateKey key
  | warn _ count ih => exact ih.warn count

end Archive
end GameCatalog
