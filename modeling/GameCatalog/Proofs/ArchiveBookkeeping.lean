import GameCatalog.Proofs.ArchiveFaithfulness
import GameCatalog.Proofs.KeyOrder

/-!
# The archive's books

An archive is asked for catalogs and told to drop what it keeps, while what its source
answers may change and fail at any time.  An onlooker who counts the requests, those that
found nothing kept, and the catalogs dropped, can account for every counter: a request is
a hit or a miss, a miss is one reading of the source, and a catalog loaded is still kept
or was dropped.
-/

namespace GameCatalog

theorem Source.key_eq_of_holds {source : Source} {key : CatalogKey} {catalog : Catalog}
    (hholds : source.Holds key catalog) : catalog.key = key := by
  cases hholds with
  | intro _ _ _ => rfl

namespace Archive

variable {archive : Archive} {key : CatalogKey}

/-! ## What an archive keeps -/

theorem mem_cachedKeys_iff :
    key ∈ archive.cachedKeys ↔ archive.isCached key = true := by
  rw [cachedKeys, isCached, Std.ExtTreeMap.mem_keys, Std.ExtTreeMap.contains_iff_mem]

theorem isCached_eq_isSome (archive : Archive) (key : CatalogKey) :
    archive.isCached key = archive.cached[key]?.isSome :=
  Std.ExtTreeMap.contains_eq_isSome_getElem?

theorem cachedKeys_pairwise_lt (archive : Archive) :
    archive.cachedKeys.Pairwise fun a b => compare a b = .lt :=
  Std.ExtTreeMap.ordered_keys

theorem cachedKeys_pairwise_before (archive : Archive) :
    archive.cachedKeys.Pairwise CatalogKey.Before :=
  archive.cachedKeys_pairwise_lt.imp CatalogKey.before_of_compare_lt

theorem cachedKeys_nodup (archive : Archive) : archive.cachedKeys.Nodup := by
  refine archive.cachedKeys_pairwise_lt.imp ?_
  intro a b hless hsame
  have hself : compare b b = .eq := Std.ReflCmp.compare_self
  rw [hsame, hself] at hless
  contradiction

theorem size_record_usable (hcached : archive.cached[key]? = none) (catalog : Catalog) :
    (archive.record key (.usable catalog)).cached.size = archive.cached.size + 1 := by
  have hunkept : archive.cached.contains key = false := by
    rw [Std.ExtTreeMap.contains_eq_isSome_getElem?, hcached, Option.isSome_none]
  simp [record, Std.ExtTreeMap.size_insert, hunkept]

/-- Only a catalog that is answered is kept. -/
theorem cached_load_of_no_catalog
    (hnone : ∀ catalog, (archive.load key).1 ≠ .ok (some catalog)) :
    (archive.load key).2.cached = archive.cached := by
  cases hcached : archive.cached[key]? with
  | some catalog => rw [load_of_cached hcached]
  | none =>
      cases hdocument : archive.source.document key with
      | error fault =>
          rw [load_of_fault hcached hdocument]
          rfl
      | ok document =>
          rw [load_of_document hcached hdocument] at hnone ⊢
          cases document with
          | absent => rfl
          | unusable => rfl
          | usable catalog => exact absurd rfl (hnone catalog)

/-! ## What an invalidation drops -/

/-- How many of the keys under which the one archive keeps a catalog the other has lost. -/
def dropsTo (before after : Archive) : Nat :=
  before.cachedKeys.countP fun key => !after.isCached key

theorem size_invalidate_add_dropsTo (archive : Archive) :
    archive.invalidate.cached.size + archive.dropsTo archive.invalidate =
      archive.cached.size := by
  have hall : ∀ key ∈ archive.cachedKeys, (!archive.invalidate.isCached key) = true := by
    intro key _
    simp [invalidate, isCached]
  rw [dropsTo, List.countP_eq_length.mpr hall, cachedKeys, Std.ExtTreeMap.length_keys]
  simp [invalidate]

theorem isCached_invalidateKey (archive : Archive) (key other : CatalogKey) :
    (archive.invalidateKey key).isCached other = (other != key && archive.isCached other) := by
  rw [isCached, isCached, invalidateKey, Std.ExtTreeMap.contains_erase]
  by_cases hsame : key = other
  · simp [hsame]
  · have hdiffer : compare key other ≠ .eq := by
      rw [ne_eq, Std.LawfulEqOrd.compare_eq_iff_eq]
      exact hsame
    rw [bne_iff_ne.mpr hdiffer, bne_iff_ne.mpr (Ne.symm hsame)]

theorem size_invalidateKey_add_dropsTo (archive : Archive) (key : CatalogKey) :
    (archive.invalidateKey key).cached.size + archive.dropsTo (archive.invalidateKey key) =
      archive.cached.size := by
  have hdropped : archive.dropsTo (archive.invalidateKey key) =
      archive.cachedKeys.count key := by
    apply List.countP_congr
    intro other hkept
    have hcached : archive.isCached other = true := mem_cachedKeys_iff.mp hkept
    rw [isCached_invalidateKey, hcached]
    simp
  rw [hdropped, archive.cachedKeys_nodup.count, invalidateKey, Std.ExtTreeMap.size_erase]
  by_cases hkept : key ∈ archive.cachedKeys
  · have hcontained : archive.cached.contains key = true := mem_cachedKeys_iff.mp hkept
    have hpositive : 0 < archive.cachedKeys.length := List.length_pos_of_mem hkept
    rw [cachedKeys, Std.ExtTreeMap.length_keys] at hpositive
    rw [if_pos hkept, if_pos hcontained]
    omega
  · have hcontained : ¬ archive.cached.contains key = true :=
      fun hcontained => hkept (mem_cachedKeys_iff.mpr hcontained)
    rw [if_neg hkept, if_neg hcontained, Nat.add_zero]

end Archive

/-! ## Runs -/

/-- An archive with what an onlooker has counted: the requests, those among them that
found nothing kept under their key, and the catalogs that invalidations dropped. -/
structure Books where
  archive : Archive
  requests : Nat
  unkept : Nat
  dropped : Nat

namespace Books

/-- Whatever stands behind the archive may answer otherwise from now on. -/
inductive Operation where
  | load (key : CatalogKey)
  | invalidate
  | invalidateKey (key : CatalogKey)
  | change (source : Source)

def opened (source : Source) : Books where
  archive := .ofSource source
  requests := 0
  unkept := 0
  dropped := 0

def dropTo (books : Books) (archive : Archive) : Books :=
  { books with
    archive := archive
    dropped := books.dropped + books.archive.dropsTo archive }

def perform (books : Books) : Operation → Books
  | .load key =>
      { books with
        archive := (books.archive.load key).2
        requests := books.requests + 1
        unkept := books.unkept + if books.archive.isCached key then 0 else 1 }
  | .invalidate => books.dropTo books.archive.invalidate
  | .invalidateKey key => books.dropTo (books.archive.invalidateKey key)
  | .change source => { books with archive := books.archive.withSource source }

def after (books : Books) (operations : List Operation) : Books :=
  operations.foldl perform books

/-- The counters of the archive agree with what was counted, and every catalog lies under
its own key. -/
structure Balanced (books : Books) : Prop where
  requests : books.archive.hits + books.archive.misses = books.requests
  reads : books.archive.misses = books.archive.reads
  unkept : books.archive.misses = books.unkept
  parsed : books.archive.loads + books.archive.parseFailures ≤ books.archive.misses
  kept : books.archive.loads = books.archive.cached.size + books.dropped
  addressed : ∀ {key : CatalogKey} {catalog : Catalog},
    books.archive.cached[key]? = some catalog → catalog.key = key

theorem balanced_opened (source : Source) : (opened source).Balanced where
  requests := rfl
  reads := rfl
  unkept := rfl
  parsed := Nat.le_refl 0
  kept := by simp [opened, Archive.ofSource]
  addressed hcached := by simp [opened, Archive.ofSource] at hcached

/-! ## One operation -/

variable {books : Books} {key : CatalogKey}

def missed (books : Books) : Books :=
  { books with
    archive := books.archive.missed
    requests := books.requests + 1
    unkept := books.unkept + 1 }

def record (books : Books) (key : CatalogKey) (document : Document) : Books :=
  { books with archive := books.archive.record key document }

theorem perform_load_of_cached {catalog : Catalog}
    (hcached : books.archive.cached[key]? = some catalog) :
    books.perform (.load key) =
      { books with
        archive := { books.archive with hits := books.archive.hits + 1 }
        requests := books.requests + 1 } := by
  have hkept : books.archive.isCached key = true := by
    rw [Archive.isCached_eq_isSome, hcached, Option.isSome_some]
  rw [perform, Archive.load_of_cached hcached, if_pos hkept]
  rfl

theorem perform_load_of_fault {fault : Fault} (hcached : books.archive.cached[key]? = none)
    (hfault : books.archive.source.document key = .error fault) :
    books.perform (.load key) = books.missed := by
  have hunkept : ¬ books.archive.isCached key = true := by
    simp [Archive.isCached_eq_isSome, hcached]
  rw [perform, Archive.load_of_fault hcached hfault, if_neg hunkept, missed]

theorem perform_load_of_document {document : Document}
    (hcached : books.archive.cached[key]? = none)
    (hdocument : books.archive.source.document key = .ok document) :
    books.perform (.load key) = books.missed.record key document := by
  have hunkept : ¬ books.archive.isCached key = true := by
    simp [Archive.isCached_eq_isSome, hcached]
  rw [perform, Archive.load_of_document hcached hdocument, if_neg hunkept, record, missed]

theorem Balanced.missed (hbalanced : books.Balanced) : books.missed.Balanced where
  requests := by
    have hrequests := hbalanced.requests
    simp only [Books.missed, Archive.missed]
    omega
  reads := congrArg (· + 1) hbalanced.reads
  unkept := congrArg (· + 1) hbalanced.unkept
  parsed := Nat.le_succ_of_le hbalanced.parsed
  kept := hbalanced.kept
  addressed := hbalanced.addressed

/-- After a miss that is not accounted for yet there is room for the document it met. -/
theorem Balanced.record (hbalanced : books.Balanced)
    (hslack : books.archive.loads + books.archive.parseFailures < books.archive.misses)
    (hcached : books.archive.cached[key]? = none) {document : Document}
    (haddressed : ∀ catalog, document.catalog? = some catalog → catalog.key = key) :
    (books.record key document).Balanced := by
  cases document with
  | absent => exact hbalanced
  | unusable => exact { hbalanced with parsed := hslack }
  | usable catalog =>
      have hsize := Archive.size_record_usable hcached catalog
      have hkept := hbalanced.kept
      refine { hbalanced with parsed := ?_, kept := ?_, addressed := ?_ }
      · simp only [Books.record, Archive.record]
        omega
      · rw [Books.record, hsize]
        simp only [Archive.record]
        omega
      · intro other kept hother
        simp only [Books.record, Archive.record, Std.ExtTreeMap.getElem?_insert] at hother
        split at hother
        next hsame =>
          rw [← Std.LawfulEqOrd.eq_of_compare hsame]
          exact haddressed kept hother
        next => exact hbalanced.addressed hother

theorem Balanced.load (hbalanced : books.Balanced) (key : CatalogKey) :
    (books.perform (.load key)).Balanced := by
  cases hcached : books.archive.cached[key]? with
  | some catalog =>
      rw [perform_load_of_cached hcached]
      have hrequests := hbalanced.requests
      refine { hbalanced with requests := ?_ }
      dsimp only
      omega
  | none =>
      cases hdocument : books.archive.source.document key with
      | error fault =>
          rw [perform_load_of_fault hcached hdocument]
          exact hbalanced.missed
      | ok document =>
          rw [perform_load_of_document hcached hdocument]
          refine hbalanced.missed.record (Nat.lt_succ_of_le hbalanced.parsed) hcached ?_
          intro catalog hcatalog
          have hread : books.archive.source.catalog key = .ok (some catalog) := by
            rw [Source.catalog, hdocument, ← hcatalog]
            rfl
          exact Source.key_eq_of_holds (Source.catalog_eq_some_iff.mp hread)

/-- What is dropped leaves the other catalogs as they were. -/
theorem Balanced.dropTo (hbalanced : books.Balanced) {kept : Std.ExtTreeMap CatalogKey Catalog}
    (hsize : kept.size + books.archive.dropsTo { books.archive with cached := kept } =
      books.archive.cached.size)
    (hkept : ∀ {key : CatalogKey} {catalog : Catalog},
      kept[key]? = some catalog → books.archive.cached[key]? = some catalog) :
    (books.dropTo { books.archive with cached := kept }).Balanced := by
  refine { hbalanced with kept := ?_, addressed := ?_ }
  · calc
      books.archive.loads = books.archive.cached.size + books.dropped := hbalanced.kept
      _ = kept.size + books.archive.dropsTo { books.archive with cached := kept } +
          books.dropped := by rw [hsize]
      _ = kept.size + (books.dropped +
          books.archive.dropsTo { books.archive with cached := kept }) := by omega
  · intro key catalog hcached
    exact hbalanced.addressed (hkept hcached)

theorem Balanced.perform (hbalanced : books.Balanced) (operation : Operation) :
    (books.perform operation).Balanced := by
  cases operation with
  | load key => exact hbalanced.load key
  | invalidate =>
      refine hbalanced.dropTo books.archive.size_invalidate_add_dropsTo ?_
      intro key catalog hcached
      simp at hcached
  | invalidateKey dropped =>
      refine hbalanced.dropTo (books.archive.size_invalidateKey_add_dropsTo dropped) ?_
      intro key catalog hcached
      rw [Std.ExtTreeMap.getElem?_erase] at hcached
      split at hcached
      · contradiction
      · exact hcached
  | change source => exact { hbalanced with }

/-! ## Every run -/

theorem Balanced.after (hbalanced : books.Balanced) (operations : List Operation) :
    (books.after operations).Balanced := by
  induction operations generalizing books with
  | nil => exact hbalanced
  | cons operation operations ih => exact ih (hbalanced.perform operation)

/-- The books balance after every run, the keys are listed in byte order, and a request
that gets no catalog leaves what is kept alone. -/
theorem books_balance (source : Source) (operations : List Operation) :
    ((opened source).after operations).Balanced ∧
      ((opened source).after operations).archive.cachedKeys.Pairwise CatalogKey.Before ∧
      (∀ key, key ∈ ((opened source).after operations).archive.cachedKeys ↔
        ((opened source).after operations).archive.isCached key = true) ∧
      ∀ key,
        ((((opened source).after operations).archive.load key).1 = .ok none ∨
          ∃ fault, (((opened source).after operations).archive.load key).1 = .error fault) →
        (((opened source).after operations).archive.load key).2.cached =
          ((opened source).after operations).archive.cached := by
  refine ⟨(balanced_opened source).after operations, Archive.cachedKeys_pairwise_before _,
    fun key => Archive.mem_cachedKeys_iff, ?_⟩
  intro key hanswer
  apply Archive.cached_load_of_no_catalog
  intro catalog hcatalog
  rcases hanswer with hnone | ⟨fault, hfault⟩
  · simp [hcatalog] at hnone
  · simp [hcatalog] at hfault

/-- A document is read, then removed, and its catalog dropped. -/
def Operation.removal : List Operation :=
  [.change (Documents.source (Std.ExtTreeMap.insert ∅ ⟨"a", ""⟩ "\x7b\x7d")),
    .load ⟨"a", ""⟩, .change (Documents.source ∅), .invalidateKey ⟨"a", ""⟩]

theorem load_after_removal :
    (((opened (Documents.source ∅)).after Operation.removal).archive.load ⟨"a", ""⟩).1 =
      .ok none := by
  have hcached : ((opened (Documents.source ∅)).after Operation.removal).archive.cached[
      (⟨"a", ""⟩ : CatalogKey)]? = none := by
    simp [after, Operation.removal, perform, dropTo, Archive.invalidateKey]
  rw [Archive.load_of_document hcached rfl]
  rfl

theorem books_balance_removal :
    ((opened (Documents.source ∅)).after Operation.removal).Balanced ∧
      (((opened (Documents.source ∅)).after Operation.removal).archive.load ⟨"a", ""⟩).1 =
        .ok none ∧
      (((opened (Documents.source ∅)).after Operation.removal).archive.load
          ⟨"a", ""⟩).2.cached =
        ((opened (Documents.source ∅)).after Operation.removal).archive.cached := by
  obtain ⟨hbalanced, _, _, hunchanged⟩ := books_balance (Documents.source ∅) Operation.removal
  exact ⟨hbalanced, load_after_removal, hunchanged _ (.inl load_after_removal)⟩

end Books
end GameCatalog
