import GameCatalog.Proofs.SlotDraws

/-!
# Draws keep to the candidates

Resolving a wildcard, drawing for a slot and listing candidates make the same search.  So
whatever the roll is, what is resolved or drawn is one of the candidates that are listed,
and something is, unless none of them has a positive weight or the item that is resolved
lacks the properties asked for.
-/

namespace GameCatalog

theorem Reference.item_of_follow {r : Reference} {catalog : Catalog} {item : Item}
    {finding : Finding} (hfollow : r.follow catalog item = .ok finding) :
    finding.item = item := by
  unfold follow at hfollow
  cases hvalue : item.raw.property? r.property with
  | none => simp [hvalue] at hfollow
  | some value =>
      simp only [hvalue, Except.ok.injEq] at hfollow
      rw [← hfollow]

namespace Resolver

/-- The resolution of a text, for a roll. -/
def resolveFor (logs : Bool) (text : String) (roll : Float) : ArchiveM Resolution := do
  match Reference.parse text with
  | .error flaw =>
      let diagnostic := Diagnostic.ofFlaw text flaw
      report logs (some diagnostic)
      return ⟨none, some diagnostic⟩
  | .ok r =>
      let search ← Search.forReference r
      let resolution := r.settle text (r.finding roll (r.prospect search))
      report logs resolution.diagnostic
      return resolution

variable {text : String} {r : Reference} {archive searched : Archive}

theorem resolveFor_run {search : Search} (hread : Reference.parse text = .ok r)
    (hsearch : Search.forReference r archive = (.ok search, searched))
    (logs : Bool) (roll : Float) :
    resolveFor logs text roll archive =
      (.ok (r.settle text (r.finding roll (r.prospect search))),
        searched.warn
          (if logs && (r.settle text
            (r.finding roll (r.prospect search))).diagnostic.isSome then 1 else 0)) := by
  unfold resolveFor
  rw [hread]
  exact run_bind_ok hsearch

theorem resolveFor_of_search {search : Search} (hread : Reference.parse text = .ok r)
    (hsearch : Search.forReference r archive = (.ok search, searched))
    (logs : Bool) (roll : Float) :
    ∃ after, resolveFor logs text roll archive =
      (.ok (r.settle text (r.finding roll (r.prospect search))), after) :=
  ⟨_, resolveFor_run hread hsearch logs roll⟩

theorem rolls_resolve (logs : Bool) (text : String) :
    DrawM.Rolls (resolve logs text) (resolveFor logs text) := by
  intro archive stream
  cases hread : Reference.parse text with
  | error flaw =>
      have hresolve := resolve_of_flaw hread logs archive stream
      refine ⟨stream, hresolve.trans ?_⟩
      unfold resolveFor
      rw [hread]
      rfl
  | ok r =>
      unfold resolveFor
      rw [hread]
      cases hsearch : Search.forReference r archive with
      | mk result searched =>
          cases result with
          | error fault =>
              refine ⟨stream, (resolve_of_search_fault hread hsearch).trans ?_⟩
              dsimp only
              rw [run_bind_error hsearch]
          | ok search =>
              refine ⟨(r.prospect search).streamAfter stream, ?_⟩
              dsimp only
              rw [resolve_of_search hread hsearch, run_bind_ok hsearch]
              rfl

/-- The value of a wildcard is drawn from what its search leads to, whatever the roll is. -/
theorem settle_drawnFrom (hitem : r.item = .wildcard) (search : Search) (text : String)
    (roll : Float) :
    DrawnFrom (listedAt search) roll
        ((r.settle text (r.finding roll (r.prospect search))).value.map Finding.item) ∧
      (r.property = [] → Drawable (listedAt search) →
        (r.settle text (r.finding roll (r.prospect search))).value.isSome = true) := by
  cases search with
  | missing tried =>
      refine ⟨drawnFrom_none _ roll, fun _ hdrawable => ?_⟩
      exact absurd hdrawable not_drawable_none
  | found catalog leftover =>
      rcases Reference.prospectIn_wildcard hitem catalog leftover with
        ⟨hpositive, hlottery⟩ | ⟨hweights, kind, hfailed⟩
      · have hdrawable : Drawable (listedAt (.found catalog leftover)) :=
          drawable_some_iff.mpr hpositive
        have hprospect : r.prospect (.found catalog leftover) = _ := hlottery
        obtain ⟨item, hmem, hdrawn⟩ := Reference.drawn_eq_follow hprospect roll
        rw [hprospect, Reference.finding, hdrawn]
        cases hfollow : r.follow catalog item with
        | error kind =>
            refine ⟨drawnFrom_none _ roll, fun hproperty => ?_⟩
            rw [Reference.follow_of_no_property hproperty] at hfollow
            contradiction
        | ok finding =>
            have hsame : finding.item = item := Reference.item_of_follow hfollow
            refine ⟨?_, fun _ _ => rfl⟩
            rw [← hsame] at hmem
            exact drawnFrom_some hmem hdrawable roll
      · have hprospect : r.prospect (.found catalog leftover) = _ := hfailed
        rw [hprospect]
        refine ⟨drawnFrom_none _ roll, fun _ hdrawable => ?_⟩
        obtain ⟨item, hmem, hlarge⟩ := drawable_some_iff.mp hdrawable
        have hsmall := hweights item hmem
        omega

/-- Whatever the roll is, resolving a wildcard and drawing for a slot of it come to one of
the candidates that are listed, or of those that the tier keeps.  They select no place
outside these, they come to nothing if none has a positive weight, and otherwise to
something, unless the reference asks for properties. -/
theorem wildcard_drawn_from_candidates (hreadable : archive.source.Readable)
    (hread : Reference.parse text = .ok r) (hitem : r.item = .wildcard) :
    ∃ listed, (candidates text archive).1 = .ok listed ∧
      (∀ logs, DrawM.Rolls (resolve logs text) (resolveFor logs text)) ∧
      (∀ logs roll, ∃ resolution after,
        resolveFor logs text roll archive = (.ok resolution, after) ∧
        DrawnFrom listed roll (resolution.value.map Finding.item) ∧
        (r.property = [] → Drawable listed → resolution.value.isSome = true)) ∧
      (r.PlainWildcard → ∀ slot : Slot, slot.reference = text → slot.chance = 1.0 → ∀ tier,
        DrawM.Rolls (slot.draw tier) (slot.drawFor tier) ∧
        ∀ roll, ∃ chosen after, slot.drawFor tier roll archive = (.ok chosen, after) ∧
          DrawnFrom (listed.map tier.keep) roll chosen ∧
          (Drawable (listed.map tier.keep) → chosen.isSome = true)) := by
  obtain ⟨search, keys, _, hsearch⟩ := exists_search hreadable r
  have hlisted := candidates_run hread hsearch
  refine ⟨listedAt search, by rw [hlisted], fun logs => rolls_resolve logs text, ?_, ?_⟩
  · intro logs roll
    obtain ⟨after, hresolve⟩ := resolveFor_of_search hread hsearch logs roll
    exact ⟨_, after, hresolve, settle_drawnFrom hitem search text roll⟩
  · intro hplain slot hreference hchance tier
    subst hreference
    exact ⟨Slot.rolls_draw hchance tier, Slot.drawFor_drawnFrom hread hplain hlisted tier⟩

/-- A roll that is no number selects a gem. -/
theorem wildcard_drawn_from_candidates_gems :
    (Archive.ofSource Documents.gems.source).source.Readable ∧
      ∃ resolution after finding,
        resolveFor true "@items/gems:*" (0.0 / 0.0) (.ofSource Documents.gems.source) =
          (.ok resolution, after) ∧
        resolution.value = some finding ∧ finding.item ∈ [Item.opal, Item.ruby] := by
  have hreadable : (Archive.ofSource Documents.gems.source).source.Readable :=
    Documents.source_readable Documents.gems
  obtain ⟨listed, hlisted, _, hresolve, _⟩ :=
    wildcard_drawn_from_candidates hreadable Documents.gems_read rfl
  have hgems := hlisted.symm.trans Documents.gems_candidates
  rw [Except.ok.injEq] at hgems
  subst hgems
  obtain ⟨resolution, after, hrun, hdrawn, hfound⟩ := hresolve true (0.0 / 0.0)
  have hdrawable : Drawable (some [.opal, .ruby]) :=
    drawable_some_iff.mpr ⟨.opal, by simp, by decide⟩
  obtain ⟨finding, hvalue⟩ := Option.isSome_iff_exists.mp (hfound rfl hdrawable)
  rw [hvalue] at hdrawn
  obtain ⟨items, hitems, hmem⟩ := hdrawn.member finding.item rfl
  rw [← Option.some.inj hitems] at hmem
  exact ⟨hreadable, resolution, after, finding, hrun, hvalue, hmem⟩

end Resolver
end GameCatalog
