import GameCatalog.Proofs.ArchiveIndependence
import GameCatalog.Proofs.MentionPlaces
import GameCatalog.Proofs.ResolutionOutcomes
import Mathlib.Data.List.Forall2

/-!
# What validation reports

A text in a document is broken if it starts with `@` but is no reference, or if it is a
required reference that leads nowhere: no catalog, no value for a named item, nothing to
draw for a wildcard.  Validation reports each broken text once, in the order of the
document, and nothing else.  Every text is judged as if it were the first, since no
request changes what the archive answers.
-/

namespace GameCatalog
namespace Resolver

/-! ## Broken texts -/

/-- The reference leads nowhere. -/
inductive Unresolvable (logs : Bool) (archive : Archive) (text : String) (r : Reference) :
    Prop where
  | noCatalog
      (hnone : ∀ count ≤ r.steps.length, (archive.load (r.keyAt count)).1 = .ok none)
  | noValue {name : String} (hitem : r.item = .named name)
      (hnothing : ∀ stream, ∃ resolution after,
        resolve logs text ⟨archive, stream⟩ = (.ok resolution, after) ∧
          resolution.value = none)
  | noDraw {items : List Item} (hitem : r.item = .wildcard)
      (hcandidates : (candidates text archive).1 = .ok (some items))
      (hweights : ∀ item ∈ items, item.weight ≤ 0)

/-- The text is worth a report of this severity. -/
inductive Broken (logs : Bool) (archive : Archive) (text : String) : Severity → Prop where
  | malformed {flaw : ReferenceFlaw} (hread : Reference.parse text = .error flaw) :
      Broken logs archive text .error
  | unresolvable {r : Reference} (hread : Reference.parse text = .ok r)
      (hrequired : r.optional = false) (hnowhere : Unresolvable logs archive text r) :
      Broken logs archive text .warning

/-- A diagnostic is for a broken text, and without one the text is not broken. -/
def Diagnosed (logs : Bool) (archive : Archive) (text : String) : Option Diagnostic → Prop
  | some diagnostic =>
      diagnostic.reference = text ∧ Broken logs archive text diagnostic.severity
  | none => ∀ severity, ¬ Broken logs archive text severity

variable {logs : Bool} {text : String} {r : Reference} {archive searched : Archive}
  {catalog : Catalog} {leftover : List String} {severity : Severity}

theorem Broken.nowhere (hbroken : Broken logs archive text severity)
    (hread : Reference.parse text = .ok r) :
    r.optional = false ∧ Unresolvable logs archive text r := by
  cases hbroken with
  | malformed hflaw => simp [hread] at hflaw
  | unresolvable hother hrequired hnowhere =>
      rw [hread, Except.ok.injEq] at hother
      subst hother
      exact ⟨hrequired, hnowhere⟩

theorem Broken.severity_of_flaw (hbroken : Broken logs archive text severity)
    {flaw : ReferenceFlaw} (hread : Reference.parse text = .error flaw) : severity = .error := by
  cases hbroken with
  | malformed _ => rfl
  | unresolvable hother _ _ => simp [hread] at hother

theorem Broken.required (hbroken : Broken logs archive text severity) :
    isOptional text = false := by
  unfold isOptional
  cases hread : Reference.parse text with
  | error flaw => rfl
  | ok r => exact (hbroken.nowhere hread).1

theorem diagnosed_of_optional (hoptional : isOptional text = true) :
    Diagnosed logs archive text none := by
  intro severity hbroken
  rw [hbroken.required] at hoptional
  contradiction

theorem diagnosed_flaw {flaw : ReferenceFlaw} (hread : Reference.parse text = .error flaw) :
    Diagnosed logs archive text (some (.ofFlaw text flaw)) :=
  ⟨rfl, .malformed hread⟩

theorem diagnosed_nowhere (hread : Reference.parse text = .ok r)
    (hrequired : r.optional = false) (hnowhere : Unresolvable logs archive text r)
    (kind : DiagnosticKind) : Diagnosed logs archive text (some (.unresolved text r kind)) :=
  ⟨rfl, .unresolvable hread hrequired hnowhere⟩

theorem diagnosed_none (hread : Reference.parse text = .ok r)
    (hsomewhere : ¬ Unresolvable logs archive text r) : Diagnosed logs archive text none :=
  fun _ hbroken => hsomewhere (hbroken.nowhere hread).2

/-! ## Verdicts -/

theorem diagnosed_failed (hread : Reference.parse text = .ok r)
    (hrequired : r.optional = false) (hnowhere : Unresolvable logs archive text r)
    {search : Search} {kind : DiagnosticKind} (hprospect : r.prospect search = .failed kind) :
    Diagnosed logs archive text (foreseen r text (r.prospect search)).diagnostic := by
  rw [hprospect, foreseen, Reference.settle, hrequired]
  exact diagnosed_nowhere hread hrequired hnowhere kind

/-- No roll decides about a named item. -/
theorem foreseen_of_named {name : String} (hitem : r.item = .named name) (text : String)
    (search : Search) (roll : Float) :
    foreseen r text (r.prospect search) =
      r.settle text (r.finding roll (r.prospect search)) := by
  cases hprospect : r.prospect search with
  | failed kind => rfl
  | certain catalog item => rfl
  | lottery catalog items shares =>
      have hwildcard := (Reference.lottery_inv hprospect).1
      simp [hitem] at hwildcard

section Found

variable {count : Nat} (hread : Reference.parse text = .ok r)
  (hcount : count ≤ r.steps.length)
  (hheld : archive.answer (r.keyAt count) = .ok (some catalog))
  (hsearch : Search.forReference r archive = (.ok (.found catalog leftover), searched))

include hread hcount hheld hsearch

theorem Unresolvable.of_found (hnowhere : Unresolvable logs archive text r) :
    (∃ name, r.item = .named name ∧ ∀ stream : RandomStream,
      (r.settle text (r.finding stream.unit.1 (r.prospectIn catalog leftover))).value = none) ∨
    (r.item = .wildcard ∧ ∀ item ∈ catalog.shape.candidates leftover, item.weight ≤ 0) := by
  cases hnowhere with
  | noCatalog hnone =>
      have hmissing := hnone count hcount
      rw [Archive.load_eq_answer, hheld] at hmissing
      simp at hmissing
  | noValue hitem hnothing =>
      refine .inl ⟨_, hitem, fun stream => ?_⟩
      obtain ⟨resolution, after, hrun, hvalue⟩ := hnothing stream
      rw [resolve_of_search hread hsearch, Prod.mk.injEq, Except.ok.injEq] at hrun
      rw [← hvalue, ← hrun.1]
      rfl
  | noDraw hitem hcandidates hweights =>
      rw [candidates_of_search hread hsearch] at hcandidates
      simp only [Except.ok.injEq, Option.some.injEq] at hcandidates
      rw [← hcandidates] at hweights
      exact .inr ⟨hitem, hweights⟩

theorem diagnosed_named (hrequired : r.optional = false) {name : String}
    (hitem : r.item = .named name) :
    Diagnosed logs archive text
      (foreseen r text (r.prospect (.found catalog leftover))).diagnostic := by
  have hforeseen := foreseen_of_named hitem text (.found catalog leftover)
  -- What any one roll gives is what every roll gives.
  rcases r.settle_of_required hrequired text
      (r.finding 0 (r.prospect (.found catalog leftover))) with
    ⟨finding, hvalue⟩ | ⟨kind, hwarning⟩
  · rw [hforeseen 0, hvalue]
    refine diagnosed_none hread fun hnowhere => ?_
    rcases hnowhere.of_found hread hcount hheld hsearch with
      ⟨_, _, hnothing⟩ | ⟨hwildcard, _⟩
    · have hnone := hnothing (.ofWords [])
      rw [← Reference.prospect, ← hforeseen, hforeseen 0, hvalue] at hnone
      contradiction
    · simp [hitem] at hwildcard
  · rw [hforeseen 0, hwarning]
    refine diagnosed_nowhere hread hrequired (.noValue hitem fun stream => ?_) kind
    refine ⟨_, _, resolve_of_search hread hsearch, ?_⟩
    rw [← hforeseen, hforeseen 0, hwarning]

theorem diagnosed_wildcard (hrequired : r.optional = false) (hitem : r.item = .wildcard) :
    Diagnosed logs archive text
      (foreseen r text (r.prospect (.found catalog leftover))).diagnostic := by
  rcases Reference.prospectIn_wildcard hitem catalog leftover with
    ⟨⟨item, hmem, hlarge⟩, hlottery⟩ | ⟨hweights, kind, hfailed⟩
  · rw [Reference.prospect, hlottery]
    refine diagnosed_none hread fun hnowhere => ?_
    rcases hnowhere.of_found hread hcount hheld hsearch with
      ⟨_, hnamed, _⟩ | ⟨_, hweights⟩
    · simp [hitem] at hnamed
    · have hsmall := hweights item hmem
      omega
  · have hcandidates := congrArg Prod.fst (candidates_of_search hread hsearch)
    exact diagnosed_failed hread hrequired (.noDraw hitem hcandidates hweights) hfailed

end Found

theorem foreseen_diagnosed (hreadable : archive.source.Readable)
    (hread : Reference.parse text = .ok r) (logs : Bool) :
    ∃ search keys, Search.forReference r archive = (.ok search, archive.afterLoads keys) ∧
      (r.optional = false →
        Diagnosed logs archive text (foreseen r text (r.prospect search)).diagnostic) := by
  rcases Reference.forReference_cases hreadable r with
    ⟨count, catalog, hcount, hheld, hsearch⟩ | ⟨hnone, hsearch⟩
  · refine ⟨_, _, hsearch, fun hrequired => ?_⟩
    cases hitem : r.item with
    | named name => exact diagnosed_named hread hcount hheld hsearch hrequired hitem
    | wildcard => exact diagnosed_wildcard hread hcount hheld hsearch hrequired hitem
  · refine ⟨_, _, hsearch, fun hrequired => ?_⟩
    have hnowhere : Unresolvable logs archive text r := .noCatalog fun count hcount => by
      rw [Archive.load_eq_answer, hnone count hcount]
    exact diagnosed_failed hread hrequired hnowhere rfl

/-- A check gives its verdict on the text, and it changes no answer of the archive. -/
theorem check_diagnosed (hreadable : archive.source.Readable) (logs : Bool) (text : String) :
    ∃ foretold checked, check logs text archive = (.ok foretold, checked) ∧
      archive.SameAnswers checked ∧
      (isOptional text = false → Diagnosed logs archive text foretold) := by
  cases hread : Reference.parse text with
  | error flaw =>
      exact ⟨_, _, check_of_flaw hread logs archive, fun _ => rfl,
        fun _ => diagnosed_flaw hread⟩
  | ok r =>
      obtain ⟨search, keys, hsearch, hdiagnosed⟩ := foreseen_diagnosed hreadable hread logs
      have hoptional : isOptional text = r.optional := by rw [isOptional, hread]
      rw [hoptional]
      exact ⟨_, _, check_of_search hread hsearch,
        fun key => (archive.answer_afterLoads keys key).symm, hdiagnosed⟩

/-- What validation finds out about one text. -/
def verdict (logs : Bool) (text : String) : ArchiveM (Option Diagnostic) :=
  if isOptional text then pure none else check logs text

theorem verdict_diagnosed {now : Archive} (hreadable : archive.source.Readable)
    (hsame : archive.SameAnswers now) (logs : Bool) (text : String) :
    ∃ foretold checked, verdict logs text now = (.ok foretold, checked) ∧
      archive.SameAnswers checked ∧ Diagnosed logs archive text foretold := by
  unfold verdict
  by_cases hoptional : isOptional text = true
  · rw [if_pos hoptional]
    exact ⟨none, now, rfl, hsame, diagnosed_of_optional hoptional⟩
  · rw [if_neg hoptional]
    obtain ⟨foretold, checked, hcheck, hkept, hdiagnosed⟩ :=
      check_diagnosed hreadable logs text
    -- The verdicts before this one have changed no answer, so it is the one at the start.
    obtain ⟨hanswer, hafter⟩ :=
      agrees_check Archive.respected_sameAnswers logs text archive now hsame
    rw [hcheck] at hanswer hafter
    refine ⟨foretold, (check logs text now).2, Prod.ext hanswer.symm rfl, ?_,
      hdiagnosed (by simpa using hoptional)⟩
    exact fun key => (hkept key).trans (hafter key)

theorem validateMentions_cons {source : String} {mention : Mention} {rest : List Mention}
    {now checked after : Archive} {foretold : Option Diagnostic} {diagnostics : List Diagnostic}
    (hverdict : verdict logs mention.text now = (.ok foretold, checked))
    (hrest : validateMentions logs source rest checked = (.ok diagnostics, after)) :
    validateMentions logs source (mention :: rest) now =
      (.ok ((foretold.map (·.foundIn source mention.location)).toList ++ diagnostics),
        after) := by
  unfold verdict at hverdict
  unfold validateMentions
  by_cases hoptional : isOptional mention.text = true
  · rw [if_pos hoptional] at hverdict ⊢
    refine (run_bind_ok hverdict).trans ((run_bind_ok hrest).trans ?_)
    cases foretold <;> rfl
  · rw [if_neg hoptional] at hverdict ⊢
    refine (run_bind_ok hverdict).trans ((run_bind_ok hrest).trans ?_)
    cases foretold <;> rfl

/-! ## Reports -/

/-- The diagnostic is for the text at this place of the document. -/
structure Reports (logs : Bool) (archive : Archive) (source : String)
    (entry : List Nat × Mention) (diagnostic : Diagnostic) : Prop where
  reference : diagnostic.reference = entry.2.text
  broken : Broken logs archive entry.2.text diagnostic.severity
  source : diagnostic.source = some source
  location : diagnostic.location = some entry.2.location

theorem reports_foundIn {entry : List Nat × Mention} {diagnostic : Diagnostic}
    (hdiagnosed : Diagnosed logs archive entry.2.text (some diagnostic)) (source : String) :
    Reports logs archive source entry (diagnostic.foundIn source entry.2.location) where
  reference := hdiagnosed.1
  broken := hdiagnosed.2
  source := rfl
  location := rfl

/-- The reports follow the entries, with the ones left out that are not broken. -/
theorem validateMentions_reports (hreadable : archive.source.Readable) (logs : Bool)
    (source : String) (entries : List (List Nat × Mention)) (now : Archive)
    (hsame : archive.SameAnswers now) :
    ∃ diagnostics after broken,
      validateMentions logs source (entries.map Prod.snd) now = (.ok diagnostics, after) ∧
      archive.SameAnswers after ∧ broken.Sublist entries ∧
      (∀ entry, entry ∈ broken ↔
        entry ∈ entries ∧ ∃ severity, Broken logs archive entry.2.text severity) ∧
      List.Forall₂ (Reports logs archive source) broken diagnostics := by
  -- The broken texts are always judged over the archive at the start.
  induction entries generalizing now with
  | nil => exact ⟨[], now, [], rfl, hsame, .slnil, by simp, .nil⟩
  | cons entry entries ih =>
      obtain ⟨foretold, checked, hverdict, hchecked, hdiagnosed⟩ :=
        verdict_diagnosed hreadable hsame logs entry.2.text
      obtain ⟨diagnostics, after, broken, hrest, hafter, hsublist, hbroken, hreports⟩ :=
        ih checked hchecked
      have hrun := validateMentions_cons hverdict hrest
      cases foretold with
      | none =>
          refine ⟨diagnostics, after, broken, hrun, hafter, hsublist.cons _, ?_, hreports⟩
          intro other
          rw [hbroken, List.mem_cons]
          refine ⟨fun hother => ⟨.inr hother.1, hother.2⟩, fun hother => ?_⟩
          obtain ⟨hentry | hmem, severity, hsevere⟩ := hother
          · rw [hentry] at hsevere
            exact absurd hsevere (hdiagnosed severity)
          · exact ⟨hmem, severity, hsevere⟩
      | some diagnostic =>
          refine ⟨_, after, entry :: broken, hrun, hafter, hsublist.cons_cons _, ?_,
            .cons (reports_foundIn hdiagnosed source) hreports⟩
          intro other
          rw [List.mem_cons, List.mem_cons, hbroken, or_and_right]
          refine or_congr_left ⟨fun hentry => ⟨hentry, ?_⟩, And.left⟩
          rw [hentry]
          exact ⟨_, hdiagnosed.2⟩

/-- Validation gives one report for each broken text of the document, in the document's
order and with the text's location.  It draws nothing, and validating again, also after
other requests over the same source, gives the same reports. -/
theorem validateDocument_reports_broken {archive : Archive}
    (hreadable : archive.source.Readable) (logs : Bool) (source : String) (document : Json) :
    ∃ diagnostics after,
      (∀ stream, DrawM.consult (validateDocument logs source document) ⟨archive, stream⟩ =
        (.ok diagnostics, ⟨after, stream⟩)) ∧
      (∃ broken : List (List Nat × Mention),
        broken.Pairwise (fun a b => a.1 < b.1) ∧
        (∀ place mention, (place, mention) ∈ broken ↔
          Mention.At "$" document place mention ∧
            ∃ severity, Broken logs archive mention.text severity) ∧
        List.Forall₂ (Reports logs archive source) broken diagnostics) ∧
      (∀ diagnostic ∈ diagnostics, isOptional diagnostic.reference = false) ∧
      (validateDocument logs source document after).1 = .ok diagnostics ∧
      (∀ held other, archive.Reached held → other.Reached held →
        (validateDocument logs source document other).1 = .ok diagnostics) := by
  obtain ⟨diagnostics, after, broken, hrun, hafter, hsublist, hbroken, hreports⟩ :=
    validateMentions_reports hreadable logs source (Mention.placed "$" document) archive
      fun _ => rfl
  rw [Mention.map_snd_placed, ← Mention.all] at hrun
  have hagain (R : Archive → Archive → Prop) (hR : Archive.Respected R) (other : Archive)
      (hother : R archive other) :
      (validateDocument logs source document other).1 = .ok diagnostics := by
    have hagrees := agrees_validateMentions hR logs source (Mention.all document) archive
      other hother
    rw [hrun] at hagrees
    exact hagrees.1.symm
  refine ⟨diagnostics, after, consult_of_run hrun, ⟨broken, ?_, ?_, hreports⟩, ?_, ?_, ?_⟩
  · exact (Mention.pairwise_placed "$" document).sublist hsublist
  · intro place mention
    rw [hbroken, Mention.mem_placed_iff]
  · have hrequired := hreports.imp fun _ diagnostic hreport => And.intro
      (show isOptional diagnostic.reference = false by
        rw [hreport.reference]
        exact hreport.broken.required) hreport
    exact ((List.forall₂_and_left _ _).mp hrequired.flip).1
  · exact hagain _ Archive.respected_sameAnswers after hafter
  · intro held other hreached hother
    exact hagain _ (Archive.respected_alike held) other
      ⟨Archive.faithful_of_reached hreached, Archive.faithful_of_reached hother⟩

/-- The name of the field is no text, and the optional reference is passed over. -/
theorem validateDocument_reports_broken_nested :
    (Archive.ofSource Documents.nested.source).source.Readable ∧
      ∃ diagnostics after,
        (∀ stream, DrawM.consult
            (validateDocument true "a" (.object [("@a:b", .array [.text "@a/b:d?", .text "@a?"])]))
            ⟨Archive.ofSource Documents.nested.source, stream⟩ =
          (.ok diagnostics, ⟨after, stream⟩)) ∧
        (∃ diagnostic ∈ diagnostics, diagnostic.location = some "$.@a:b[1]" ∧
          diagnostic.severity = .error) ∧
        ∀ diagnostic ∈ diagnostics, diagnostic.reference ≠ "@a/b:d?" := by
  have hreadable : (Archive.ofSource Documents.nested.source).source.Readable :=
    Documents.source_readable Documents.nested
  obtain ⟨diagnostics, after, hrun, ⟨broken, _, hbroken, hreports⟩, hrequired, _⟩ :=
    validateDocument_reports_broken
      hreadable true "a" (.object [("@a:b", .array [.text "@a/b:d?", .text "@a?"])])
  refine ⟨hreadable, diagnostics, after, hrun, ?_, ?_⟩
  · have hmem : ([0, 1], ⟨"@a?", "$.@a:b[1]"⟩) ∈ broken :=
      (hbroken _ _).mpr ⟨.field rfl (.item rfl (.text ⟨"a?", rfl⟩)), .error, .malformed rfl⟩
    obtain ⟨i, hi, hentry⟩ := List.mem_iff_getElem.mp hmem
    have hplace : i < diagnostics.length := by rwa [← hreports.length_eq]
    have hreport := hreports.get hi hplace
    rw [List.get_eq_getElem, hentry] at hreport
    exact ⟨_, List.get_mem diagnostics ⟨i, hplace⟩, hreport.location,
      hreport.broken.severity_of_flaw rfl⟩
  · intro diagnostic hmem hreference
    have hoptional : isOptional "@a/b:d?" = true := rfl
    rw [← hreference, hrequired diagnostic hmem] at hoptional
    contradiction

end Resolver
end GameCatalog
