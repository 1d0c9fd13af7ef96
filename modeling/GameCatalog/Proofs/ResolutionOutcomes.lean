import GameCatalog.Proofs.CatalogSearch
import GameCatalog.Proofs.Prospects

/-!
# What a resolution comes to

A text that does not read as a reference gives an error.  A required reference gives
either a value or a warning, an optional one never a diagnostic, and each diagnostic is
logged once.  Checking makes the same search and foresees the diagnostic without a
roll; only a drawn item may still lack the properties that the reference asks for.
-/

namespace GameCatalog

/-! ## Settling -/

namespace Reference

variable {r : Reference}

theorem settle_of_required (hrequired : r.optional = false) (text : String)
    (result : Except DiagnosticKind Finding) :
    (∃ finding, r.settle text result = ⟨some finding, none⟩) ∨
      ∃ kind, r.settle text result = ⟨none, some (.unresolved text r kind)⟩ := by
  cases result with
  | ok finding => exact .inl ⟨finding, rfl⟩
  | error kind =>
      refine .inr ⟨kind, ?_⟩
      rw [settle, hrequired]
      rfl

theorem diagnostic_settle_of_optional (hoptional : r.optional = true) (text : String)
    (result : Except DiagnosticKind Finding) : (r.settle text result).diagnostic = none := by
  cases result with
  | ok finding => rfl
  | error kind =>
      rw [settle, hoptional]
      rfl

end Reference

/-! ## Runs -/

/-- The archive but for the count of its warnings. -/
def Archive.unwarned (archive : Archive) : Archive :=
  { archive with warnings := 0 }

namespace Resolver

variable {logs : Bool} {text : String} {r : Reference} {archive searched : Archive}
  {search : Search}

theorem resolve_of_flaw {flaw : ReferenceFlaw} (hread : Reference.parse text = .error flaw)
    (logs : Bool) (archive : Archive) (stream : RandomStream) :
    resolve logs text ⟨archive, stream⟩ =
      (.ok ⟨none, some (.ofFlaw text flaw)⟩,
        ⟨archive.warn (if logs && true then 1 else 0), stream⟩) := by
  unfold resolve
  rw [hread]
  rfl

theorem check_of_flaw {flaw : ReferenceFlaw} (hread : Reference.parse text = .error flaw)
    (logs : Bool) (archive : Archive) :
    check logs text archive =
      (.ok (some (.ofFlaw text flaw)), archive.warn (if logs && true then 1 else 0)) := by
  unfold check
  rw [hread]
  rfl

theorem check_of_search (hread : Reference.parse text = .ok r)
    (hsearch : Search.forReference r archive = (.ok search, searched)) :
    check logs text archive =
      (.ok (foreseen r text (r.prospect search)).diagnostic,
        searched.warn (if logs && (foreseen r text (r.prospect search)).diagnostic.isSome
          then 1 else 0)) := by
  unfold check
  rw [hread]
  exact run_bind_ok hsearch

/-- The items that a reference with this search selects from. -/
def listedAt : Search → Option (List Item)
  | .found catalog leftover => some (catalog.shape.candidates leftover)
  | .missing _ => none

theorem candidates_run (hread : Reference.parse text = .ok r)
    (hsearch : Search.forReference r archive = (.ok search, searched)) :
    candidates text archive = (.ok (listedAt search), searched) := by
  unfold candidates
  rw [hread]
  refine (run_bind_ok hsearch).trans ?_
  cases search <;> rfl

theorem candidates_of_search (hread : Reference.parse text = .ok r) {catalog : Catalog}
    {leftover : List String}
    (hsearch : Search.forReference r archive = (.ok (.found catalog leftover), searched)) :
    candidates text archive = (.ok (some (catalog.shape.candidates leftover)), searched) :=
  candidates_run hread hsearch

theorem candidates_of_holds {source : Source} {catalog : Catalog} {step : String}
    (hread : Reference.parse text = .ok r) (hsteps : r.steps = [step])
    (hholds : source.Holds ⟨r.domain, step⟩ catalog) :
    (candidates text (.ofSource source)).1 = .ok (some (catalog.shape.candidates [])) := by
  obtain ⟨after, hsearch⟩ := Search.forReference_of_holds hsteps hholds
  rw [candidates_of_search hread hsearch]

theorem candidates_of_document {documents : Documents} {document step : String}
    {fields : List (String × Json)} (hread : Reference.parse text = .ok r)
    (hsteps : r.steps = [step]) (hheld : documents[(⟨r.domain, step⟩ : CatalogKey)]? = some document)
    (hdecode : Document.decode? document.toUTF8 = some document)
    (hjson : Json.parse? (Catalog.withoutMark document) = some (.object fields)) :
    (candidates text (.ofSource documents.source)).1 =
      .ok (some ((Shape.ofFields fields).candidates [])) := by
  have hbytes : documents.source.read ⟨r.domain, step⟩ = .ok (some document.toUTF8) := by
    simp only [Documents.source, hheld, Option.map_some]
  exact candidates_of_holds hread hsteps (.intro hbytes hdecode hjson)

theorem exists_search (hreadable : archive.source.Readable) (r : Reference) :
    ∃ search keys, keys <+: r.keysDown ∧
      Search.forReference r archive = (.ok search, archive.afterLoads keys) := by
  rcases Reference.forReference_cases hreadable r with
    ⟨count, catalog, _, _, hsearch⟩ | ⟨_, hsearch⟩
  · exact ⟨_, _, List.take_prefix _ _, hsearch⟩
  · exact ⟨_, _, List.prefix_rfl, hsearch⟩

/-- Every resolution has one outcome.  A text that is no reference gives an error, a
required reference a value or a warning, and an optional one no diagnostic.  Apart from
the requests of the search, which are for the first keys of the reference, all that is
logged is the diagnostic. -/
theorem resolve_has_one_outcome {archive : Archive} (hreadable : archive.source.Readable)
    (logs : Bool) (text : String) (stream : RandomStream) :
    ∃ resolution keys rest,
      resolve logs text ⟨archive, stream⟩ =
        (.ok resolution, ⟨(archive.afterLoads keys).warn
          (if logs && resolution.diagnostic.isSome then 1 else 0), rest⟩) ∧
      (∀ flaw, Reference.parse text = .error flaw → keys = [] ∧
        ∃ diagnostic, resolution = ⟨none, some diagnostic⟩ ∧
          diagnostic.kind = .malformed flaw.text ∧ diagnostic.severity = .error) ∧
      (∀ r, Reference.parse text = .ok r → keys <+: r.keysDown ∧
        (r.optional = false →
          (∃ finding, resolution = ⟨some finding, none⟩) ∨
            ∃ diagnostic, resolution = ⟨none, some diagnostic⟩ ∧
              diagnostic.severity = .warning) ∧
        (r.optional = true → resolution.diagnostic = none)) := by
  cases hread : Reference.parse text with
  | error flaw =>
      refine ⟨_, [], stream, resolve_of_flaw hread logs archive stream, ?_, by simp⟩
      intro other hother
      rw [← Except.error.inj hother]
      exact ⟨rfl, _, rfl, rfl, rfl⟩
  | ok r =>
      obtain ⟨search, keys, hkeys, hsearch⟩ := exists_search hreadable r
      refine ⟨_, keys, _, resolve_of_search hread hsearch, by simp, ?_⟩
      intro other hother
      rw [← Except.ok.inj hother]
      refine ⟨hkeys, ?_, fun hoptional => r.diagnostic_settle_of_optional hoptional text _⟩
      intro hrequired
      rcases r.settle_of_required hrequired text
        (r.finding stream.unit.1 (r.prospect search)) with hvalue | ⟨kind, hwarning⟩
      · exact .inl hvalue
      · exact .inr ⟨_, hwarning, rfl⟩

/-- A text that ends in `?` but is no reference is logged as an error. -/
theorem resolve_has_one_outcome_malformed :
    (Archive.ofSource Documents.nested.source).source.Readable ∧
      ∃ diagnostic rest,
        resolve true "@a?" ⟨Archive.ofSource Documents.nested.source, .ofWords [7]⟩ =
          (.ok ⟨none, some diagnostic⟩,
            ⟨(Archive.ofSource Documents.nested.source).warn 1, rest⟩) ∧
        diagnostic.severity = .error := by
  have hreadable : (Archive.ofSource Documents.nested.source).source.Readable :=
    Documents.source_readable Documents.nested
  obtain ⟨resolution, keys, rest, hrun, hmalformed, _⟩ :=
    resolve_has_one_outcome hreadable true "@a?" (.ofWords [7])
  obtain ⟨hkeys, diagnostic, hresolution, _, hseverity⟩ := hmalformed _ rfl
  subst hkeys hresolution
  exact ⟨hreadable, diagnostic, rest, hrun, hseverity⟩

/-! ## Checking -/

/-- What a resolution reports for a roll, against what is foreseen without one.  They
differ only if a drawn item lacks the properties. -/
theorem diagnostic_foreseen_or (r : Reference) (text : String) (search : Search)
    (roll : Float) :
    (r.settle text (r.finding roll (r.prospect search))).diagnostic =
        (foreseen r text (r.prospect search)).diagnostic ∨
      (r.isWildcard = true ∧ r.property ≠ [] ∧
        (foreseen r text (r.prospect search)).diagnostic = none ∧
        ∃ diagnostic catalog property,
          (r.settle text (r.finding roll (r.prospect search))).diagnostic = some diagnostic ∧
            diagnostic.kind = .propertyNotFound catalog property) := by
  cases hprospect : r.prospect search with
  | failed kind => exact .inl rfl
  | certain catalog item => exact .inl rfl
  | lottery catalog items shares =>
      obtain ⟨hitem, _⟩ := Reference.lottery_inv hprospect
      obtain ⟨item, _, hdrawn⟩ := Reference.drawn_eq_follow hprospect roll
      rw [Reference.finding, hdrawn]
      by_cases hproperty : r.property = []
      · rw [Reference.follow_of_no_property hproperty]
        exact .inl rfl
      · cases hoptional : r.optional with
        | true => exact .inl (Reference.diagnostic_settle_of_optional hoptional text _)
        | false =>
            rw [Reference.follow]
            cases item.raw.property? r.property with
            | some value => exact .inl rfl
            | none =>
                refine .inr ⟨by simp [Reference.isWildcard, hitem], hproperty, rfl, ?_⟩
                simp only [Reference.settle, hoptional, Bool.false_eq_true, if_false]
                exact ⟨_, _, _, rfl, rfl⟩

/-- Checking foresees the diagnostic of a resolution for every roll, unless an item is
drawn and its properties are asked for; then only these may be missing.  It takes no
number from the stream, and it leaves what the archive keeps and counts as resolving
would, warnings of an unforeseen diagnostic apart. -/
theorem check_foresees_resolve {archive : Archive} (hreadable : archive.source.Readable)
    (logs : Bool) (text : String) :
    ∃ foretold checked,
      (∀ stream, DrawM.consult (check logs text) ⟨archive, stream⟩ =
        (.ok foretold, ⟨checked, stream⟩)) ∧
      ∀ stream, ∃ resolution after,
        resolve logs text ⟨archive, stream⟩ = (.ok resolution, after) ∧
        checked.unwarned = after.archive.unwarned ∧
        ((∀ r, Reference.parse text = .ok r → r.isWildcard = true → r.property = []) →
          resolution.diagnostic = foretold ∧ after.archive = checked) ∧
        (∀ r, Reference.parse text = .ok r → r.isWildcard = true → r.property ≠ [] →
          (∀ diagnostic, foretold = some diagnostic →
            resolution.diagnostic = some diagnostic) ∧
          (foretold = none → ∀ diagnostic, resolution.diagnostic = some diagnostic →
            ∃ catalog property, diagnostic.kind = .propertyNotFound catalog property)) := by
  cases hread : Reference.parse text with
  | error flaw =>
      have hcheck := check_of_flaw hread logs archive
      refine ⟨_, _, consult_of_run hcheck, ?_⟩
      intro stream
      exact ⟨_, _, resolve_of_flaw hread logs archive stream, rfl, fun _ => ⟨rfl, rfl⟩, by simp⟩
  | ok r =>
      obtain ⟨search, keys, _, hsearch⟩ := exists_search hreadable r
      refine ⟨_, _, consult_of_run (check_of_search hread hsearch), ?_⟩
      intro stream
      have hforeseen := diagnostic_foreseen_or r text search stream.unit.1
      refine ⟨_, _, resolve_of_search hread hsearch, rfl, ?_, ?_⟩
      · intro hchain
        rcases hforeseen with hsame | ⟨hwildcard, hproperty, _⟩
        · rw [hsame]
          exact ⟨rfl, rfl⟩
        · exact absurd (hchain r rfl hwildcard) hproperty
      · intro other hother hwildcard hproperty
        rcases hforeseen with hsame | ⟨_, _, hnone, diagnostic, catalog, property, hlate, hkind⟩
        · rw [hsame]
          exact ⟨fun _ => id, fun hnone => by simp [hnone]⟩
        · rw [hnone, hlate]
          refine ⟨by simp, fun _ other hother => ⟨catalog, property, ?_⟩⟩
          rw [← Option.some.inj hother]
          exact hkind

/-- The item is missing from the catalog that is found, and checking says so. -/
theorem check_foresees_resolve_nested :
    (Archive.ofSource Documents.nested.source).source.Readable ∧
      ∃ foretold checked, ∀ stream, ∃ resolution after,
        DrawM.consult (check true "@a/b/c:d")
            ⟨Archive.ofSource Documents.nested.source, stream⟩ =
          (.ok foretold, ⟨checked, stream⟩) ∧
        resolve true "@a/b/c:d" ⟨Archive.ofSource Documents.nested.source, stream⟩ =
          (.ok resolution, after) ∧
        resolution.diagnostic = foretold ∧ after.archive = checked := by
  have hreadable : (Archive.ofSource Documents.nested.source).source.Readable :=
    Documents.source_readable Documents.nested
  have hread : Reference.parse "@a/b/c:d" =
      .ok ⟨"a", ["b"], "c", .named "d", [], false, []⟩ := rfl
  obtain ⟨foretold, checked, hcheck, hresolve⟩ :=
    check_foresees_resolve hreadable true "@a/b/c:d"
  refine ⟨hreadable, foretold, checked, fun stream => ?_⟩
  obtain ⟨resolution, after, hrun, _, hsame, _⟩ := hresolve stream
  refine ⟨resolution, after, hcheck stream, hrun, hsame ?_⟩
  intro r hr hwildcard
  rw [hread, Except.ok.injEq] at hr
  rw [← hr] at hwildcard
  contradiction

end Resolver
end GameCatalog
