import GameCatalog.Proofs.WildcardDraws

/-!
# The modifiers of a reference

Filters, the optional mark and the chain of properties stand behind the target of a
reference.  The target alone decides which item is selected, for every roll.  The chain
then leads from that item to the value, step by step, the mark says whether a reference
without a value gives a diagnostic, and the filters are in the texts only.
-/

namespace GameCatalog

/-! ## Chains of properties -/

/-- The names lead from a value to another through nested objects. -/
inductive Json.Leads : Json → List String → Json → Prop where
  | here (json : Json) : Leads json [] json
  | field {fields : List (String × Json)} {name : String} {names : List String}
      {value last : Json} (hfield : lookup? name fields = some value)
      (hrest : Leads value names last) : Leads (.object fields) (name :: names) last

theorem Json.property?_append (json : Json) (names more : List String) :
    json.property? (names ++ more) = (json.property? names).bind (·.property? more) := by
  induction names generalizing json with
  | nil => rfl
  | cons name names ih =>
      rw [List.cons_append, property?, property?]
      cases json.get? name with
      | none => rfl
      | some value => exact ih value

theorem Json.property?_eq_some_iff {json last : Json} {names : List String} :
    json.property? names = some last ↔ json.Leads names last := by
  constructor
  · intro hvalue
    induction names generalizing json with
    | nil =>
        rw [property?, Option.some.injEq] at hvalue
        rw [hvalue]
        exact .here last
    | cons name names ih =>
        obtain ⟨value, hfield, hrest⟩ := Option.bind_eq_some_iff.mp hvalue
        cases json with
        | object fields => exact .field hfield (ih hrest)
        | _ => simp [get?] at hfield
  · intro hleads
    induction hleads with
    | here => rfl
    | field hfield _ ih => rw [property?, get?, hfield, Option.bind_some, ih]

theorem Json.leads_append_iff {json last : Json} {names more : List String} :
    json.Leads (names ++ more) last ↔ ∃ value, json.Leads names value ∧ value.Leads more last := by
  simp only [← property?_eq_some_iff, property?_append, Option.bind_eq_some_iff]

/-! ## What the target decides -/

/-- The item that a prospect comes to for a roll, in its catalog. -/
def Prospect.selected (roll : Float) : Prospect → Except DiagnosticKind (Catalog × Item)
  | .failed kind => .error kind
  | .certain catalog item => .ok (catalog, item)
  | .lottery catalog items shares =>
      match items[Rarity.pickIndex shares roll]? with
      | some item => .ok (catalog, item)
      | none => .error (.noCandidates catalog.key.text)

namespace Reference

/-- The references differ in filters, mark and properties at most. -/
structure SameTarget (r s : Reference) : Prop where
  domain : r.domain = s.domain
  path : r.path = s.path
  category : r.category = s.category
  item : r.item = s.item

variable {r s : Reference} {roll : Float} {prospect : Prospect}

theorem finding_eq_bind (r : Reference) (roll : Float) (prospect : Prospect) :
    r.finding roll prospect =
      (prospect.selected roll).bind fun selected => r.follow selected.1 selected.2 := by
  cases prospect with
  | failed kind => rfl
  | certain catalog item => rfl
  | lottery catalog items shares =>
      rw [finding, drawn, Prospect.selected]
      cases items[Rarity.pickIndex shares roll]? <;> rfl

theorem follow_eq_ok_iff {catalog : Catalog} {item : Item} {finding : Finding} :
    r.follow catalog item = .ok finding ↔
      finding.catalog = catalog.key ∧ finding.item = item ∧
        item.raw.Leads r.property finding.value := by
  rw [follow, ← Json.property?_eq_some_iff]
  cases item.raw.property? r.property with
  | none => simp
  | some value =>
      obtain ⟨key, held, last⟩ := finding
      simp [eq_comm]

theorem value_settle (r : Reference) (text : String) (result : Except DiagnosticKind Finding)
    (finding : Finding) :
    (r.settle text result).value = some finding ↔ result = .ok finding := by
  cases result <;> simp [settle]

/-- A value is what the properties lead to from the selected item. -/
theorem value_settle_finding {text : String} {finding : Finding} :
    (r.settle text (r.finding roll prospect)).value = some finding ↔
      ∃ catalog, prospect.selected roll = .ok (catalog, finding.item) ∧
        finding.catalog = catalog.key ∧ finding.item.raw.Leads r.property finding.value := by
  rw [value_settle, finding_eq_bind]
  cases prospect.selected roll with
  | error kind => simp [Except.bind]
  | ok selected =>
      obtain ⟨catalog, item⟩ := selected
      rw [Except.bind, follow_eq_ok_iff]
      constructor
      · rintro ⟨hcatalog, hitem, hleads⟩
        rw [hitem]
        exact ⟨catalog, rfl, hcatalog, hleads⟩
      · rintro ⟨other, hselected, hcatalog, hleads⟩
        obtain ⟨rfl, hitem⟩ := Prod.mk.inj (Except.ok.inj hselected)
        rw [hitem]
        exact ⟨hcatalog, rfl, hleads⟩

theorem SameTarget.forReference_eq (hsame : r.SameTarget s) :
    Search.forReference r = Search.forReference s := by
  rw [Search.forReference, Search.forReference, steps, steps, hsame.domain, hsame.path,
    hsame.category]

theorem SameTarget.prospect_eq (hsame : r.SameTarget s) (search : Search) :
    r.prospect search = s.prospect search := by
  cases search with
  | missing tried => rfl
  | found catalog leftover =>
      rw [prospect, prospect, prospectIn, prospectIn, hsame.item]

theorem SameTarget.target_eq (hsame : r.SameTarget s) : r.target = s.target := by
  rw [target, target, steps, steps, hsame.domain, hsame.path, hsame.category, hsame.item]

theorem finding_congr (hproperty : r.property = s.property) (roll : Float)
    (prospect : Prospect) : r.finding roll prospect = s.finding roll prospect := by
  have hfollow (catalog : Catalog) (item : Item) :
      r.follow catalog item = s.follow catalog item := by
    rw [follow, follow, hproperty]
  rw [finding_eq_bind, finding_eq_bind]
  simp only [hfollow]

theorem settle_congr (hsame : r.SameTarget s) (hoptional : r.optional = s.optional)
    (text text' : String) (result : Except DiagnosticKind Finding) :
    s.settle text' result =
      ⟨(r.settle text result).value, (r.settle text result).diagnostic.map fun diagnostic =>
        { diagnostic with reference := text' }⟩ := by
  cases result with
  | ok finding => rfl
  | error kind =>
      rw [settle, settle, ← hoptional]
      cases r.optional with
      | true => rfl
      | false => simp [Diagnostic.unresolved, hsame.target_eq]

theorem value_settle_congr (r s : Reference) (text text' : String)
    (result : Except DiagnosticKind Finding) :
    (r.settle text result).value = (s.settle text' result).value := by
  cases result <;> rfl

theorem diagnostic_settle_eq_none_iff (hrequired : r.optional = false) (text : String)
    (result : Except DiagnosticKind Finding) :
    (r.settle text result).diagnostic = none ↔ (r.settle text result).value.isSome = true := by
  cases result <;> simp [settle, hrequired]

theorem value_settle_append {text text' : String} {names : List String}
    (hnames : s.property = r.property ++ names) {catalog : CatalogKey} {item : Item}
    {value : Json} :
    (s.settle text' (s.finding roll prospect)).value = some ⟨catalog, item, value⟩ ↔
      ∃ first, (r.settle text (r.finding roll prospect)).value = some ⟨catalog, item, first⟩ ∧
        first.Leads names value := by
  simp only [value_settle_finding, hnames, Json.leads_append_iff]
  constructor
  · rintro ⟨held, hselected, hcatalog, first, hfirst, hmore⟩
    exact ⟨first, ⟨held, hselected, hcatalog, hfirst⟩, hmore⟩
  · rintro ⟨first, ⟨held, hselected, hcatalog, hfirst⟩, hmore⟩
    exact ⟨held, hselected, hcatalog, first, hfirst, hmore⟩

end Reference

namespace Resolver

variable {text text' : String} {r r' : Reference} {archive : Archive}

/-- How the resolutions of two references with one target compare. -/
structure Comparable (r r' : Reference) (text' : String) (resolution resolution' : Resolution) :
    Prop where
  selected : ∀ finding finding', resolution.value = some finding →
    resolution'.value = some finding' →
      finding.catalog = finding'.catalog ∧ finding.item = finding'.item
  value : r.property = r'.property → resolution.value = resolution'.value
  filters : r.property = r'.property → r.optional = r'.optional →
    resolution'.diagnostic = resolution.diagnostic.map fun diagnostic =>
      { diagnostic with reference := text' }
  mark : r.optional = false → r'.optional = true →
    resolution'.diagnostic = none ∧
      (resolution.diagnostic = none ↔ resolution.value.isSome = true)
  chain : ∀ names, r'.property = r.property ++ names → ∀ catalog item value,
    resolution'.value = some ⟨catalog, item, value⟩ ↔
      ∃ first, resolution.value = some ⟨catalog, item, first⟩ ∧ first.Leads names value

theorem comparable_settle (hsame : r.SameTarget r') (text text' : String) (roll : Float)
    (prospect : Prospect) :
    Comparable r r' text' (r.settle text (r.finding roll prospect))
      (r'.settle text' (r'.finding roll prospect)) where
  selected := by
    intro finding finding' hvalue hvalue'
    obtain ⟨catalog, hselected, hcatalog, _⟩ := Reference.value_settle_finding.mp hvalue
    obtain ⟨catalog', hselected', hcatalog', _⟩ := Reference.value_settle_finding.mp hvalue'
    rw [hselected, Except.ok.injEq, Prod.mk.injEq] at hselected'
    rw [hcatalog, hcatalog', hselected'.1]
    exact ⟨rfl, hselected'.2⟩
  value := by
    intro hproperty
    rw [Reference.finding_congr hproperty]
    exact r.value_settle_congr r' text text' _
  filters := by
    intro hproperty hoptional
    rw [Reference.finding_congr hproperty, Reference.settle_congr hsame hoptional text text']
  mark := by
    intro hrequired hoptional
    exact ⟨r'.diagnostic_settle_of_optional hoptional text' _,
      Reference.diagnostic_settle_eq_none_iff hrequired text _⟩
  chain := by
    intro names hnames catalog item value
    exact Reference.value_settle_append hnames

/-- The modifiers of a reference do not influence one another.  For every roll references
with the same target select the same item from the same catalog; the mark does not change
the value but turns the diagnostic of a reference without one off; filters change the texts
only; and more properties lead on from the value. -/
theorem modifiers_orthogonal (hreadable : archive.source.Readable)
    (hread : Reference.parse text = .ok r) (hread' : Reference.parse text' = .ok r')
    (hsame : r.SameTarget r') (logs : Bool) (roll : Float) :
    ∃ resolution resolution' after after',
      resolveFor logs text roll archive = (.ok resolution, after) ∧
      resolveFor logs text' roll archive = (.ok resolution', after') ∧
      (∀ stream, stream.unit.1 = roll → ∃ next,
        resolve logs text ⟨archive, stream⟩ = (.ok resolution, ⟨after, next⟩) ∧
        resolve logs text' ⟨archive, stream⟩ = (.ok resolution', ⟨after', next⟩)) ∧
      after.unwarned = after'.unwarned ∧
      (r.property = r'.property → r.optional = r'.optional → after = after') ∧
      Comparable r r' text' resolution resolution' := by
  obtain ⟨search, keys, _, hsearch⟩ := exists_search hreadable r
  have hsearch' : Search.forReference r' archive = (.ok search, archive.afterLoads keys) := by
    rw [← hsame.forReference_eq]
    exact hsearch
  have hcomparable := comparable_settle hsame text text' roll (r.prospect search)
  have hrun' := resolveFor_run hread' hsearch' logs roll
  rw [← hsame.prospect_eq search] at hrun'
  refine ⟨_, _, _, _, resolveFor_run hread hsearch logs roll, hrun', ?_, rfl, ?_, hcomparable⟩
  · intro stream hroll
    subst hroll
    refine ⟨(r.prospect search).streamAfter stream, resolve_of_search hread hsearch, ?_⟩
    rw [hsame.prospect_eq search]
    exact resolve_of_search hread' hsearch'
  · intro hproperty hoptional
    rw [hcomparable.filters hproperty hoptional, Option.isSome_map]

/-- The traits of the opal lead on to one of them, filtered and optional as it is. -/
theorem modifiers_orthogonal_gems :
    (Archive.ofSource Documents.gems.source).source.Readable ∧
      ∃ resolution resolution' after after',
        resolveFor true "@items/gems:opal.traits" 0.5 (.ofSource Documents.gems.source) =
          (.ok resolution, after) ∧
        resolution.value =
          some ⟨⟨"items", "gems"⟩, .opal, .object [("legendary", .bool true)]⟩ ∧
        resolveFor true "@items/gems:opal[a=1]?.traits.legendary" 0.5
            (.ofSource Documents.gems.source) = (.ok resolution', after') ∧
        resolution'.value = some ⟨⟨"items", "gems"⟩, .opal, .bool true⟩ := by
  have hreadable : (Archive.ofSource Documents.gems.source).source.Readable :=
    Documents.source_readable Documents.gems
  have hread : Reference.parse "@items/gems:opal.traits" =
      .ok ⟨"items", [], "gems", .named "opal", [], false, ["traits"]⟩ := rfl
  have hread' : Reference.parse "@items/gems:opal[a=1]?.traits.legendary" =
      .ok ⟨"items", [], "gems", .named "opal", [⟨["a"], .equal, some "1"⟩], true,
        ["traits", "legendary"]⟩ := rfl
  obtain ⟨searched, hsearch⟩ := Documents.gems_search
    (r := ⟨"items", [], "gems", .named "opal", [], false, ["traits"]⟩) rfl rfl
  have hresolve := resolveFor_run hread hsearch true 0.5
  obtain ⟨resolution, resolution', after, after', hrun, hrun', _, _, _, hcomparable⟩ :=
    modifiers_orthogonal hreadable hread hread' ⟨rfl, rfl, rfl, rfl⟩ true 0.5
  rw [hresolve, Prod.mk.injEq, Except.ok.injEq] at hrun
  obtain ⟨rfl, rfl⟩ := hrun
  refine ⟨hreadable, _, resolution', _, after', hresolve, rfl, hrun', ?_⟩
  rw [hcomparable.chain ["legendary"] rfl]
  exact ⟨_, rfl, .field rfl (.here _)⟩

end Resolver
end GameCatalog
