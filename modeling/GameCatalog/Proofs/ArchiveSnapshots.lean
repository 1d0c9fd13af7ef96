import GameCatalog.Proofs.ArchiveAnswers
import Mathlib.Data.List.Induction

/-!
# Snapshots

Documents in memory may be put, replaced and removed while an archive reads them.  A
catalog that is kept hides every later change of its document until it is dropped, and
only usable documents are kept.  So a request is answered with the document that was
there at the first request, since the key was last dropped, that met a usable one.  If
no request did, the document that is there now answers.
-/

namespace GameCatalog

/-- Documents in memory, and the archive that reads them. -/
structure Shelf where
  documents : Documents
  archive : Archive

namespace Shelf

inductive Event where
  | put (key : CatalogKey) (text : String)
  | remove (key : CatalogKey)
  | load (key : CatalogKey)
  | invalidate
  | invalidateKey (key : CatalogKey)
  deriving DecidableEq

namespace Event

def Drops (key : CatalogKey) : Event → Prop
  | .invalidate => True
  | .invalidateKey other => other = key
  | _ => False

/-- Events that name another key do not concern this one. -/
def concerns (key : CatalogKey) : Event → Bool
  | .put other _ => other = key
  | .remove other => other = key
  | .load other => other = key
  | .invalidate => true
  | .invalidateKey other => other = key

end Event

/-- The documents as they are now, under an archive that has read nothing. -/
def start (documents : Documents) : Shelf where
  documents := documents
  archive := .ofSource documents.source

def edit (shelf : Shelf) (documents : Documents) : Shelf where
  documents := documents
  archive := shelf.archive.withSource documents.source

def perform (shelf : Shelf) : Event → Shelf
  | .put key text => shelf.edit (shelf.documents.insert key text)
  | .remove key => shelf.edit (shelf.documents.erase key)
  | .load key => { shelf with archive := (shelf.archive.load key).2 }
  | .invalidate => { shelf with archive := shelf.archive.invalidate }
  | .invalidateKey key => { shelf with archive := shelf.archive.invalidateKey key }

def after (shelf : Shelf) (events : List Event) : Shelf :=
  events.foldl perform shelf

theorem after_append (shelf : Shelf) (events : List Event) (event : Event) :
    shelf.after (events ++ [event]) = (shelf.after events).perform event := by
  simp [after]

/-! ## The history of a key -/

/-- After the events the document under the key reads as this catalog. -/
def HeldAfter (documents : Documents) (events : List Event) (key : CatalogKey)
    (catalog : Catalog) : Prop :=
  ((start documents).after events).documents.source.Holds key catalog

/-- The key was requested right after the earlier events, and not dropped since. -/
def RequestedAfter (key : CatalogKey) (earlier events : List Event) : Prop :=
  ∃ later, events = earlier ++ .load key :: later ∧ ∀ event ∈ later, ¬ event.Drops key

/-- Of the requests since the key was last dropped, the one right after the earlier
events was the first that met a usable document. -/
structure Snapshot (documents : Documents) (events : List Event) (key : CatalogKey)
    (earlier : List Event) (catalog : Catalog) : Prop where
  requested : RequestedAfter key earlier events
  usable : HeldAfter documents earlier key catalog
  first : ∀ before, RequestedAfter key before earlier →
    ∀ other, ¬ HeldAfter documents before key other

/-- What is kept under the key is the snapshot, and nothing is kept without one. -/
def Recalled (documents : Documents) (events : List Event) (key : CatalogKey) :
    Option Catalog → Prop
  | some catalog => ∃ earlier, Snapshot documents events key earlier catalog
  | none => ∀ earlier, RequestedAfter key earlier events →
      ∀ catalog, ¬ HeldAfter documents earlier key catalog

variable {documents : Documents} {events earlier : List Event} {event : Event}
  {key : CatalogKey} {catalog : Catalog} {kept : Option Catalog}

theorem requestedAfter_append_iff :
    RequestedAfter key earlier (events ++ [event]) ↔
      (earlier = events ∧ event = .load key) ∨
        (RequestedAfter key earlier events ∧ ¬ event.Drops key) := by
  constructor
  · intro hrequested
    obtain ⟨later, hsplit, hkept⟩ := hrequested
    induction later using List.reverseRecOn with
    | nil =>
        obtain ⟨hevents, hevent⟩ := List.append_inj' hsplit rfl
        exact .inl ⟨hevents.symm, List.singleton_inj.mp hevent⟩
    | append_singleton later last _ =>
        rw [← List.cons_append, ← List.append_assoc] at hsplit
        obtain ⟨hevents, hevent⟩ := List.append_inj' hsplit rfl
        rw [List.singleton_inj.mp hevent]
        refine .inr ⟨⟨later, hevents, ?_⟩, hkept last (by simp)⟩
        exact fun other hother => hkept other (by simp [hother])
  · intro hcases
    rcases hcases with ⟨hearlier, hload⟩ | ⟨⟨later, hsplit, hkept⟩, hkeeps⟩
    · exact ⟨[], by rw [hearlier, hload], by simp⟩
    · refine ⟨later ++ [event], by simp [hsplit], ?_⟩
      intro other hother
      rcases List.mem_append.mp hother with hold | hlast
      · exact hkept other hold
      · rw [List.mem_singleton.mp hlast]
        exact hkeeps

theorem Snapshot.append (hsnapshot : Snapshot documents events key earlier catalog)
    (hkeeps : ¬ event.Drops key) :
    Snapshot documents (events ++ [event]) key earlier catalog :=
  ⟨requestedAfter_append_iff.mpr (.inr ⟨hsnapshot.requested, hkeeps⟩), hsnapshot.usable,
    hsnapshot.first⟩

theorem requestedAfter_compare {earlier' : List Event}
    (hrequested : RequestedAfter key earlier events)
    (hrequested' : RequestedAfter key earlier' events) :
    earlier = earlier' ∨ RequestedAfter key earlier earlier' ∨
      RequestedAfter key earlier' earlier := by
  obtain ⟨later, hsplit, hkept⟩ := hrequested
  obtain ⟨later', hsplit', hkept'⟩ := hrequested'
  -- Of two splits of one history one extends the other, by a request for the key.
  rw [hsplit] at hsplit'
  rcases List.append_eq_append_iff.mp hsplit' with ⟨between, hearlier, hlater⟩ |
    ⟨between, hearlier, hlater⟩
  · cases between with
    | nil => exact .inl (by rw [hearlier, List.append_nil])
    | cons event between =>
        obtain ⟨hevent, hbetween⟩ := List.cons_eq_cons.mp hlater
        rw [← hevent] at hearlier
        refine .inr (.inl ⟨between, hearlier, ?_⟩)
        exact fun other hother => hkept other (by simp [hbetween, hother])
  · cases between with
    | nil => exact .inl (by rw [hearlier, List.append_nil])
    | cons event between =>
        obtain ⟨hevent, hbetween⟩ := List.cons_eq_cons.mp hlater
        rw [← hevent] at hearlier
        refine .inr (.inr ⟨between, hearlier, ?_⟩)
        exact fun other hother => hkept' other (by simp [hbetween, hother])

theorem Snapshot.unique {earlier' : List Event} {catalog' : Catalog}
    (hsnapshot : Snapshot documents events key earlier catalog)
    (hsnapshot' : Snapshot documents events key earlier' catalog') : catalog = catalog' := by
  rcases requestedAfter_compare hsnapshot.requested hsnapshot'.requested with
    hsame | hbefore | hbefore
  · subst hsame
    have hcatalog := Source.catalog_eq_some_iff.mpr hsnapshot.usable
    rw [Source.catalog_eq_some_iff.mpr hsnapshot'.usable] at hcatalog
    simpa using hcatalog.symm
  · exact absurd hsnapshot.usable (hsnapshot'.first earlier hbefore catalog)
  · exact absurd hsnapshot'.usable (hsnapshot.first earlier' hbefore catalog')

/-! ## One event -/

theorem recalled_of_drops (hdrops : event.Drops key) :
    Recalled documents (events ++ [event]) key none := by
  intro earlier hrequested
  rcases requestedAfter_append_iff.mp hrequested with ⟨_, hload⟩ | ⟨_, hkeeps⟩
  · rw [hload] at hdrops
    exact hdrops.elim
  · exact absurd hdrops hkeeps

theorem Recalled.append (hrecalled : Recalled documents events key kept)
    (hkeeps : ¬ event.Drops key) (hother : event ≠ .load key) :
    Recalled documents (events ++ [event]) key kept := by
  cases kept with
  | some catalog =>
      obtain ⟨earlier, hsnapshot⟩ := hrecalled
      exact ⟨earlier, hsnapshot.append hkeeps⟩
  | none =>
      intro earlier hrequested
      rcases requestedAfter_append_iff.mp hrequested with ⟨_, hload⟩ | ⟨hold, _⟩
      · exact absurd hload hother
      · exact hrecalled earlier hold

theorem Recalled.append_load_some (hrecalled : Recalled documents events key (some catalog)) :
    Recalled documents (events ++ [.load key]) key (some catalog) := by
  obtain ⟨earlier, hsnapshot⟩ := hrecalled
  exact ⟨earlier, hsnapshot.append (by simp [Event.Drops])⟩

theorem Recalled.append_load_none (hrecalled : Recalled documents events key none)
    (hnow : ((start documents).after events).documents.source.catalog key = .ok kept) :
    Recalled documents (events ++ [.load key]) key kept := by
  have hdrops : ¬ (Event.load key).Drops key := by simp [Event.Drops]
  cases kept with
  | some catalog =>
      -- No request has met a usable document so far, so this one takes the snapshot.
      have hheld : HeldAfter documents events key catalog :=
        Source.catalog_eq_some_iff.mp hnow
      exact ⟨events, requestedAfter_append_iff.mpr (.inl ⟨rfl, rfl⟩), hheld, hrecalled⟩
  | none =>
      intro earlier hrequested catalog hheld
      rcases requestedAfter_append_iff.mp hrequested with ⟨hearlier, _⟩ | ⟨hold, _⟩
      · rw [hearlier, HeldAfter, ← Source.catalog_eq_some_iff, hnow] at hheld
        simp at hheld
      · exact hrecalled earlier hold catalog hheld

/-- The archive reads the documents that are there. -/
def Joined (shelf : Shelf) : Prop :=
  shelf.archive.source = shelf.documents.source

theorem Joined.perform {shelf : Shelf} (hjoined : shelf.Joined) (event : Event) :
    (shelf.perform event).Joined := by
  cases event with
  | put other text => rfl
  | remove other => rfl
  | load other => exact (Archive.source_load shelf.archive other).trans hjoined
  | invalidate => exact hjoined
  | invalidateKey other => exact hjoined

theorem Joined.after {shelf : Shelf} (hjoined : shelf.Joined) (events : List Event) :
    (shelf.after events).Joined := by
  induction events generalizing shelf with
  | nil => exact hjoined
  | cons event events ih => exact ih (hjoined.perform event)

theorem joined_start (documents : Documents) : (start documents).Joined := rfl

theorem Joined.exists_answer {shelf : Shelf} (hjoined : shelf.Joined) (key : CatalogKey) :
    ∃ found, shelf.archive.answer key = .ok found := by
  apply Archive.exists_answer
  rw [hjoined]
  exact Documents.source_readable shelf.documents

theorem recalled_perform (event : Event)
    (hrecalled : Recalled documents events key
      ((start documents).after events).archive.cached[key]?) :
    Recalled documents (events ++ [event]) key
      ((start documents).after (events ++ [event])).archive.cached[key]? := by
  have hjoined := (joined_start documents).after events
  rw [after_append]
  cases event with
  | put other text => exact hrecalled.append (by simp [Event.Drops]) (by simp)
  | remove other => exact hrecalled.append (by simp [Event.Drops]) (by simp)
  | invalidate =>
      rw [perform, Archive.cached_invalidate]
      exact recalled_of_drops trivial
  | invalidateKey other =>
      by_cases hother : other = key
      · rw [hother, perform, Archive.cached_invalidateKey_self]
        exact recalled_of_drops rfl
      · rw [perform, Archive.cached_invalidateKey_of_ne _ (Ne.symm hother)]
        exact hrecalled.append hother (by simp)
  | load other =>
      by_cases hother : other = key
      · subst hother
        rw [perform]
        cases hcached : ((start documents).after events).archive.cached[other]? with
        | some catalog =>
            rw [hcached] at hrecalled
            rw [Archive.cached_load_self (Archive.answer_of_cached hcached)]
            exact hrecalled.append_load_some
        | none =>
            rw [hcached] at hrecalled
            obtain ⟨found, hanswer⟩ := hjoined.exists_answer other
            rw [Archive.cached_load_self hanswer]
            rw [Archive.answer_of_not_cached hcached, hjoined] at hanswer
            exact hrecalled.append_load_none hanswer
      · rw [perform, Archive.cached_load_of_ne _ (Ne.symm hother)]
        exact hrecalled.append (by simp [Event.Drops]) (by simpa using hother)

theorem recalled_after (documents : Documents) (events : List Event) (key : CatalogKey) :
    Recalled documents events key
      ((start documents).after events).archive.cached[key]? := by
  -- The history grows at its end, as the cache changes with its last event.
  induction events using List.reverseRecOn with
  | nil =>
      have hempty : ((start documents).after []).archive.cached[key]? = none := by
        simp [after, start, Archive.ofSource]
      rw [hempty]
      intro earlier hrequested
      obtain ⟨later, hsplit, _⟩ := hrequested
      simp at hsplit
  | append_singleton events event ih => exact recalled_perform event ih

/-! ## Other keys -/

/-- Shelves with the same document and the same catalog kept under the key. -/
structure AlikeUnder (key : CatalogKey) (s t : Shelf) : Prop where
  documents : s.documents[key]? = t.documents[key]?
  cached : s.archive.cached[key]? = t.archive.cached[key]?
  left : s.Joined
  right : t.Joined

theorem catalog_source_congr {other : Documents} (hsame : documents[key]? = other[key]?) :
    documents.source.catalog key = other.source.catalog key := by
  simp only [Source.catalog, Source.document, Documents.source, hsame]

theorem AlikeUnder.answer_eq {s t : Shelf} (halike : AlikeUnder key s t) :
    s.archive.answer key = t.archive.answer key := by
  cases hcached : t.archive.cached[key]? with
  | some catalog =>
      rw [Archive.answer_of_cached hcached,
        Archive.answer_of_cached (halike.cached.trans hcached)]
  | none =>
      rw [Archive.answer_of_not_cached hcached,
        Archive.answer_of_not_cached (halike.cached.trans hcached), halike.left,
        halike.right, catalog_source_congr halike.documents]

theorem documents_perform_of_foreign (shelf : Shelf) (hforeign : event.concerns key = false) :
    (shelf.perform event).documents[key]? = shelf.documents[key]? := by
  cases event with
  | put other text =>
      have hother : compare other key ≠ .eq := by
        simpa [Event.concerns] using hforeign
      rw [perform, edit, Std.ExtTreeMap.getElem?_insert, if_neg hother]
  | remove other =>
      have hother : compare other key ≠ .eq := by
        simpa [Event.concerns] using hforeign
      rw [perform, edit, Std.ExtTreeMap.getElem?_erase, if_neg hother]
  | load other => rfl
  | invalidate => rfl
  | invalidateKey other => rfl

theorem cached_perform_of_foreign (shelf : Shelf) (hforeign : event.concerns key = false) :
    (shelf.perform event).archive.cached[key]? = shelf.archive.cached[key]? := by
  cases event with
  | put other text => rfl
  | remove other => rfl
  | load other =>
      have hother : other ≠ key := by simpa [Event.concerns] using hforeign
      exact Archive.cached_load_of_ne shelf.archive hother.symm
  | invalidate => simp [Event.concerns] at hforeign
  | invalidateKey other =>
      have hother : other ≠ key := by simpa [Event.concerns] using hforeign
      exact Archive.cached_invalidateKey_of_ne shelf.archive hother.symm

variable {s t : Shelf}

theorem AlikeUnder.perform_left (halike : AlikeUnder key s t)
    (hforeign : event.concerns key = false) : AlikeUnder key (s.perform event) t where
  documents := (documents_perform_of_foreign s hforeign).trans halike.documents
  cached := (cached_perform_of_foreign s hforeign).trans halike.cached
  left := halike.left.perform event
  right := halike.right

theorem AlikeUnder.documents_perform (halike : AlikeUnder key s t) (event : Event) :
    (s.perform event).documents[key]? = (t.perform event).documents[key]? := by
  cases event with
  | put other text =>
      simp only [perform, edit, Std.ExtTreeMap.getElem?_insert, halike.documents]
  | remove other =>
      simp only [perform, edit, Std.ExtTreeMap.getElem?_erase, halike.documents]
  | load other => exact halike.documents
  | invalidate => exact halike.documents
  | invalidateKey other => exact halike.documents

theorem AlikeUnder.cached_perform (halike : AlikeUnder key s t) (event : Event) :
    (s.perform event).archive.cached[key]? = (t.perform event).archive.cached[key]? := by
  by_cases hforeign : event.concerns key = false
  · rw [cached_perform_of_foreign s hforeign, cached_perform_of_foreign t hforeign]
    exact halike.cached
  · cases event with
    | put other text => exact halike.cached
    | remove other => exact halike.cached
    | load other =>
        have hother : other = key := by simpa [Event.concerns] using hforeign
        subst hother
        obtain ⟨found, hanswer⟩ := halike.right.exists_answer other
        rw [perform, perform, Archive.cached_load_self (halike.answer_eq.trans hanswer),
          Archive.cached_load_self hanswer]
    | invalidate => rw [perform, perform, Archive.cached_invalidate, Archive.cached_invalidate]
    | invalidateKey other =>
        have hother : other = key := by simpa [Event.concerns] using hforeign
        rw [hother, perform, perform, Archive.cached_invalidateKey_self,
          Archive.cached_invalidateKey_self]

theorem AlikeUnder.after_filter (halike : AlikeUnder key s t) (events : List Event) :
    AlikeUnder key (s.after events) (t.after (events.filter (Event.concerns key))) := by
  induction events generalizing s t with
  | nil => exact halike
  | cons event events ih =>
      cases hconcerns : event.concerns key with
      | true =>
          rw [List.filter_cons_of_pos hconcerns]
          exact ih ⟨halike.documents_perform event, halike.cached_perform event,
            halike.left.perform event, halike.right.perform event⟩
      | false =>
          rw [List.filter_cons_of_neg (by simp [hconcerns])]
          exact ih (halike.perform_left hconcerns)

/-! ## Requests -/

theorem answer_of_snapshot (hsnapshot : Snapshot documents events key earlier catalog) :
    ((start documents).after events).archive.answer key = .ok (some catalog) := by
  have hrecalled := recalled_after documents events key
  cases hcached : ((start documents).after events).archive.cached[key]? with
  | some catalog' =>
      rw [hcached] at hrecalled
      obtain ⟨earlier', hsnapshot'⟩ := hrecalled
      rw [Archive.answer_of_cached hcached, hsnapshot.unique hsnapshot']
  | none =>
      rw [hcached] at hrecalled
      exact absurd hsnapshot.usable (hrecalled earlier hsnapshot.requested catalog)

theorem answer_of_no_snapshot
    (hnone : ∀ earlier, RequestedAfter key earlier events →
      ∀ catalog, ¬ HeldAfter documents earlier key catalog) :
    ((start documents).after events).archive.answer key =
      ((start documents).after events).documents.source.catalog key := by
  have hrecalled := recalled_after documents events key
  have hjoined := (joined_start documents).after events
  cases hcached : ((start documents).after events).archive.cached[key]? with
  | some catalog =>
      rw [hcached] at hrecalled
      obtain ⟨earlier, hsnapshot⟩ := hrecalled
      exact absurd hsnapshot.usable (hnone earlier hsnapshot.requested catalog)
  | none => rw [Archive.answer_of_not_cached hcached, hjoined]

/-- A request is answered by the snapshot of its key, and without one by the document
that is there now.  What was asked, changed or dropped under other keys does not show. -/
theorem load_after_eq_snapshot (documents : Documents) (events : List Event)
    (key : CatalogKey) :
    (∀ earlier catalog, Snapshot documents events key earlier catalog →
      (((start documents).after events).archive.load key).1 = .ok (some catalog)) ∧
    ((∀ earlier, RequestedAfter key earlier events →
        ∀ catalog, ¬ HeldAfter documents earlier key catalog) →
      (∀ catalog, HeldAfter documents events key catalog →
        (((start documents).after events).archive.load key).1 = .ok (some catalog)) ∧
      ((∀ catalog, ¬ HeldAfter documents events key catalog) →
        (((start documents).after events).archive.load key).1 = .ok none)) ∧
    (((start documents).after (events.filter (Event.concerns key))).archive.load key).1 =
      (((start documents).after events).archive.load key).1 := by
  simp only [Archive.load_eq_answer]
  refine ⟨?_, ?_, ?_⟩
  · intro earlier catalog hsnapshot
    exact answer_of_snapshot hsnapshot
  · intro hnone
    rw [answer_of_no_snapshot hnone]
    have hreadable :=
      Documents.source_readable ((start documents).after events).documents
    exact ⟨fun catalog => Source.catalog_eq_some_iff.mpr,
      Source.catalog_eq_none hreadable⟩
  · have halike : AlikeUnder key (start documents) (start documents) :=
      ⟨rfl, rfl, joined_start documents, joined_start documents⟩
    exact (halike.after_filter events).answer_eq.symm

/-- A catalog without items is read and then made an array, and another key dropped. -/
def Event.edits : List Event :=
  [.put ⟨"a", ""⟩ "\x7b\x7d", .load ⟨"a", ""⟩, .put ⟨"a", ""⟩ "[]", .invalidateKey ⟨"a", "b"⟩]

theorem snapshot_edits :
    Snapshot ∅ Event.edits ⟨"a", ""⟩ [.put ⟨"a", ""⟩ "\x7b\x7d"]
      ⟨⟨"a", ""⟩, Metadata.ofDocument [], Shape.ofFields [], .object []⟩ := by
  have hempty : Document.decode? "\x7b\x7d".toUTF8 = some "\x7b\x7d" :=
    Document.decode?_of_short (by decide)
  refine ⟨⟨_, rfl, by simp [Event.Drops]⟩, Source.Holds.intro rfl hempty rfl, ?_⟩
  intro before hrequested
  obtain ⟨later, hsplit, _⟩ := hrequested
  cases before <;> simp at hsplit

theorem not_heldAfter_edits (catalog : Catalog) :
    ¬ HeldAfter ∅ (Event.edits ++ [.invalidate]) ⟨"a", ""⟩ catalog := by
  have harray : Document.decode? "[]".toUTF8 = some "[]" :=
    Document.decode?_of_short (by decide)
  have hjson : Json.parse? (Catalog.withoutMark "[]") = some (.array []) := rfl
  exact Source.not_holds_of_no_object rfl harray (by simp [hjson]) catalog

/-- The array stays hidden until the catalog is dropped. -/
theorem load_after_eq_snapshot_edits :
    Snapshot ∅ Event.edits ⟨"a", ""⟩ [.put ⟨"a", ""⟩ "\x7b\x7d"]
        ⟨⟨"a", ""⟩, Metadata.ofDocument [], Shape.ofFields [], .object []⟩ ∧
      (((start ∅).after Event.edits).archive.load ⟨"a", ""⟩).1 =
        .ok (some ⟨⟨"a", ""⟩, Metadata.ofDocument [], Shape.ofFields [], .object []⟩) ∧
      (∀ earlier, RequestedAfter ⟨"a", ""⟩ earlier (Event.edits ++ [.invalidate]) →
        ∀ catalog, ¬ HeldAfter ∅ earlier ⟨"a", ""⟩ catalog) ∧
      (∀ catalog, ¬ HeldAfter ∅ (Event.edits ++ [.invalidate]) ⟨"a", ""⟩ catalog) ∧
      (((start ∅).after (Event.edits ++ [.invalidate])).archive.load ⟨"a", ""⟩).1 =
        .ok none := by
  have hdropped : ∀ earlier, RequestedAfter ⟨"a", ""⟩ earlier (Event.edits ++ [.invalidate]) →
      ∀ catalog, ¬ HeldAfter ∅ earlier ⟨"a", ""⟩ catalog := recalled_of_drops trivial
  obtain ⟨hsnapshot, _, _⟩ := load_after_eq_snapshot ∅ Event.edits ⟨"a", ""⟩
  obtain ⟨_, hnow, _⟩ := load_after_eq_snapshot ∅ (Event.edits ++ [.invalidate]) ⟨"a", ""⟩
  exact ⟨snapshot_edits, hsnapshot _ _ snapshot_edits, hdropped, not_heldAfter_edits,
    (hnow hdropped).2 not_heldAfter_edits⟩

end Shelf
end GameCatalog
