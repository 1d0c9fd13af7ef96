import GameCatalog.Proofs.SlotDraws
import GameCatalog.Proofs.TableFilling
import Mathlib.Data.List.Forall2

/-!
# What a composition is made of

The picks of a composition fill some of the recipe's slots, in the order of the slots and
each slot once.  A pick is one of the candidates of its slot, of the kind that the tier
draws if there are any of that kind, and no slot is left empty that is certain to be drawn
and has something to draw.  Of a trait that several picks carry, the last one counts, and a
trait that none of them carries stays as it was.
-/

namespace GameCatalog

/-! ## Laying traits over a target -/

namespace TraitTable

/-- An applied trait replaces the target's. -/
theorem getElem?_apply (target traits : TraitTable) (name : String) :
    (target.apply traits)[name]? = traits[name]?.or target[name]? := by
  have hfilled := getElem?_foldl_toList id traits target name
  rw [Option.map_id_fun, id_eq] at hfilled
  unfold apply
  rw [Std.ExtTreeMap.foldl_eq_foldl_toList]
  exact hfilled

end TraitTable

/-- A trait has the value of the last pick that carries it, or else the target's. -/
theorem Composition.getElem?_overlay (target : TraitTable) (picks : List Pick)
    (name : String) :
    (overlay target picks)[name]? =
      (picks.reverse.findSome? fun pick => pick.item.traits[name]?).or target[name]? := by
  induction picks generalizing target with
  | nil => rfl
  | cons pick rest ih =>
      have hrest : overlay target (pick :: rest) =
          overlay (target.apply pick.item.traits) rest := rfl
      rw [hrest, ih, TraitTable.getElem?_apply, List.reverse_cons, List.findSome?_append,
        Option.or_assoc]
      simp

/-! ## Filling a slot -/

theorem Tier.draws_of_mem_keep {tier : Tier} {items : List Item} {item other : Item}
    (hmem : item ∈ tier.keep items) (hother : other ∈ items) (hdraws : tier.Draws other) :
    tier.Draws item := by
  have hentries : (items.filter tier.suits).isEmpty = false := by
    rw [List.isEmpty_eq_false_iff]
    exact List.ne_nil_of_mem (List.mem_filter.mpr ⟨hother, Tier.suits_iff.mpr hdraws⟩)
  unfold keep at hmem
  simp only [hentries, Bool.false_eq_true, if_false] at hmem
  exact Tier.suits_iff.mp (List.mem_filter.mp hmem).2

/-- The pick bears the slot's key, is one of the slot's candidates that the tier keeps, and
is of the tier's kind if one of the candidates is. -/
structure Slot.Fills (archive : Archive) (tier : Tier) (slot : Slot) (pick : Pick) :
    Prop where
  key : pick.slot = slot.key
  kept : ∃ items, (Resolver.candidates slot.reference archive).1 = .ok (some items) ∧
    pick.item ∈ tier.keep items
  kind : ∀ items, (Resolver.candidates slot.reference archive).1 = .ok (some items) →
    (∃ item ∈ items, tier.Draws item) → tier.Draws pick.item

/-- Chance does not pass the slot over, and what the tier keeps of its candidates can be
drawn from. -/
structure Slot.Certain (archive : Archive) (tier : Tier) (slot : Slot) : Prop where
  chance : slot.chance = 1.0
  drawable : ∃ items, (Resolver.candidates slot.reference archive).1 = .ok (some items) ∧
    ∃ item ∈ tier.keep items, 0 < item.weight

namespace Slot

variable {slot : Slot} {tier : Tier} {state after : DrawState} {item : Item}

theorem fills_of_mem_keep {archive : Archive} {items : List Item}
    (hlisted : (Resolver.candidates slot.reference archive).1 = .ok (some items))
    (hkept : item ∈ tier.keep items) : slot.Fills archive tier ⟨slot.key, item⟩ where
  key := rfl
  kept := ⟨items, hlisted, hkept⟩
  kind := by
    intro others hothers hsuited
    rw [hlisted, Except.ok.injEq, Option.some.injEq] at hothers
    subst hothers
    obtain ⟨other, hother, hdraws⟩ := hsuited
    exact Tier.draws_of_mem_keep hkept hother hdraws

theorem mem_of_selected {items : List Item} {shares : List Float} {roll : Float}
    (hselected : selected items shares roll = .ok item) : item ∈ items := by
  unfold selected at hselected
  cases hplace : items[Rarity.pickIndex shares roll]? with
  | none => simp [hplace] at hselected
  | some found =>
      simp only [hplace, Except.ok.injEq] at hselected
      rw [← hselected]
      exact List.mem_of_getElem? hplace

theorem mem_of_drawAmong {items : List Item}
    (hdraw : drawAmong items state = (.ok (some item), after)) : item ∈ items := by
  unfold drawAmong at hdraw
  cases hshares : Rarity.probabilities Float (items.map Item.weight) with
  | error fault =>
      rw [hshares] at hdraw
      obtain ⟨_, warned, _, hend⟩ := exists_of_run_bind_ok hdraw
      have hnone := (eq_of_run_pure_ok hend).1
      contradiction
  | ok shares =>
      rw [hshares] at hdraw
      obtain ⟨roll, rolled, _, hdraw⟩ := exists_of_run_bind_ok hdraw
      obtain ⟨found, chosen, hselected, hend⟩ := exists_of_run_bind_ok hdraw
      rw [run_ofExcept] at hselected
      have hsome : found = item := Option.some.inj (eq_of_run_pure_ok hend).1
      rw [← hsome]
      exact mem_of_selected (congrArg Prod.fst hselected)

theorem archive_of_isPassedOver {passed : Bool}
    (hpassed : slot.isPassedOver state = (.ok passed, after)) :
    after.archive = state.archive := by
  unfold isPassedOver at hpassed
  split at hpassed
  · obtain ⟨roll, rolled, hroll, hend⟩ := exists_of_run_bind_ok hpassed
    have hrolled : state.archive = rolled.archive :=
      congrArg (fun run => run.2.archive) hroll
    rw [hrolled, (eq_of_run_pure_ok hend).2]
  · rw [(eq_of_run_pure_ok hpassed).2]

theorem fills_of_draw (hdraw : slot.draw tier state = (.ok (some item), after)) :
    slot.Fills state.archive tier ⟨slot.key, item⟩ := by
  unfold draw at hdraw
  obtain ⟨r, start, hplain, hdraw⟩ := exists_of_run_bind_ok hdraw
  rw [run_ofExcept] at hplain
  have hstart : state = start := congrArg Prod.snd hplain
  subst hstart
  obtain ⟨passed, rolled, hpassed, hdraw⟩ := exists_of_run_bind_ok hdraw
  have harchive := archive_of_isPassedOver hpassed
  cases passed with
  | true =>
      have hnone := (eq_of_run_pure_ok hdraw).1
      contradiction
  | false =>
      obtain ⟨listed, listing, hlisted, hdraw⟩ := exists_of_run_bind_ok hdraw
      have hcandidates : (Resolver.candidates slot.reference rolled.archive).1 = .ok listed :=
        congrArg Prod.fst hlisted
      rw [harchive] at hcandidates
      cases listed with
      | none =>
          obtain ⟨_, warned, _, hend⟩ := exists_of_run_bind_ok hdraw
          have hnone := (eq_of_run_pure_ok hend).1
          contradiction
      | some items => exact fills_of_mem_keep hcandidates (mem_of_drawAmong hdraw)

theorem Certain.isSome_of_draw {chosen : Option Item}
    (hcertain : slot.Certain state.archive tier)
    (hdraw : slot.draw tier state = (.ok chosen, after)) : chosen.isSome = true := by
  obtain ⟨items, hlisted, hpositive⟩ := hcertain.drawable
  obtain ⟨next, hrolls⟩ := rolls_draw hcertain.chance tier state.archive state.stream
  have hchosen : (slot.drawFor tier state.stream.unit.1 state.archive).1 = .ok chosen := by
    rw [hdraw] at hrolls
    exact (congrArg Prod.fst hrolls).symm
  unfold draw at hdraw
  obtain ⟨r, start, hreference, _⟩ := exists_of_run_bind_ok hdraw
  rw [run_ofExcept] at hreference
  obtain ⟨hread, hplain⟩ := plainReference_eq_ok_iff.mp (congrArg Prod.fst hreference)
  have hcandidates : Resolver.candidates slot.reference state.archive = (.ok (some items), _) :=
    Prod.ext hlisted rfl
  obtain ⟨found, last, hrun, _, hfound⟩ :=
    drawFor_drawnFrom hread hplain hcandidates tier state.stream.unit.1
  rw [hrun] at hchosen
  rw [← Except.ok.inj hchosen]
  exact hfound (drawable_some_iff.mpr hpositive)

section SameAnswers

variable {archive other : Archive} (hsame : other.SameAnswers archive)

include hsame

theorem candidates_of_sameAnswers (reference : String) :
    (Resolver.candidates reference other).1 = (Resolver.candidates reference archive).1 :=
  (Resolver.agrees_candidates Archive.respected_sameAnswers reference other archive hsame).1

theorem Fills.of_sameAnswers {pick : Pick} (hfills : slot.Fills archive tier pick) :
    slot.Fills other tier pick := by
  have hcandidates := candidates_of_sameAnswers hsame slot.reference
  constructor
  · exact hfills.key
  · rw [hcandidates]
    exact hfills.kept
  · rw [hcandidates]
    exact hfills.kind

theorem Certain.of_sameAnswers (hcertain : slot.Certain other tier) :
    slot.Certain archive tier := by
  have hcandidates := candidates_of_sameAnswers hsame slot.reference
  constructor
  · exact hcertain.chance
  · rw [← hcandidates]
    exact hcertain.drawable

end SameAnswers

end Slot

/-! ## Composing -/

namespace Recipe

variable {tier : Tier} {state after : DrawState}

theorem sameAnswers_draw {start : Archive} {slot : Slot} {chosen : Option Item}
    (hstart : start.SameAnswers state.archive)
    (hdraw : slot.draw tier state = (.ok chosen, after)) :
    start.SameAnswers after.archive := by
  have hagrees := slot.agrees_draw (Archive.respected_bothAnswerAs start) tier state state
    ⟨⟨hstart, hstart⟩, rfl⟩
  rw [hdraw] at hagrees
  exact hagrees.2.archives.1

/-- The picks fill slots in turn, as the archive answers at the start. -/
theorem drawSlots_fills {start : Archive} {slots : List Slot} {picks : List Pick}
    (hstart : start.SameAnswers state.archive)
    (hdraw : drawSlots tier slots state = (.ok picks, after)) :
    ∃ filled, filled.Sublist slots ∧ List.Forall₂ (Slot.Fills start tier) filled picks ∧
      ∀ slot ∈ slots, slot.Certain start tier → slot ∈ filled := by
  induction slots generalizing state after picks with
  | nil =>
      have hpicks : [] = picks := (eq_of_run_pure_ok hdraw).1
      subst hpicks
      exact ⟨[], .slnil, .nil, by simp⟩
  | cons slot rest ih =>
      unfold drawSlots at hdraw
      obtain ⟨chosen, drawn, hslot, hdraw⟩ := exists_of_run_bind_ok hdraw
      obtain ⟨others, last, hothers, hend⟩ := exists_of_run_bind_ok hdraw
      obtain ⟨filled, hsublist, hfills, hcertain⟩ := ih (sameAnswers_draw hstart hslot) hothers
      cases chosen with
      | none =>
          have hpicks : others = picks := (eq_of_run_pure_ok hend).1
          subst hpicks
          refine ⟨filled, hsublist.cons slot, hfills, ?_⟩
          intro other hmem hother
          rcases List.mem_cons.mp hmem with rfl | hrest
          · have hsome := (hother.of_sameAnswers hstart).isSome_of_draw hslot
            contradiction
          · exact hcertain other hrest hother
      | some item =>
          have hpicks : ⟨slot.key, item⟩ :: others = picks := (eq_of_run_pure_ok hend).1
          subst hpicks
          have hfill := (Slot.fills_of_draw hslot).of_sameAnswers hstart
          refine ⟨slot :: filled, hsublist.cons_cons slot, .cons hfill hfills, ?_⟩
          intro other hmem hother
          rcases List.mem_cons.mp hmem with rfl | hrest
          · exact List.mem_cons_self
          · exact List.mem_cons_of_mem slot (hcertain other hrest hother)

theorem map_slot_of_fills {archive : Archive} {slots : List Slot} {picks : List Pick}
    (hfills : List.Forall₂ (Slot.Fills archive tier) slots picks) :
    picks.map Pick.slot = slots.map Slot.key := by
  have hkeys : List.Forall₂ Eq (picks.map Pick.slot) (slots.map Slot.key) := by
    rw [List.forall₂_map_left_iff, List.forall₂_map_right_iff]
    exact hfills.flip.imp fun _ _ hfill => Slot.Fills.key hfill
  rwa [List.forall₂_eq_eq_eq] at hkeys

variable {recipe : Recipe} {target traits : TraitTable} {composition : Composition}

/-- A composition is what the picks of its slots give. -/
theorem parts_of_compose
    (hcompose : recipe.compose tier target state = (.ok (composition, traits), after)) :
    drawSlots tier recipe.slots state = (.ok composition.picks, after) ∧
      composition.name =
        Template.render recipe.nameTemplate (Composition.labels composition.picks) ∧
      traits = Composition.overlay target composition.picks := by
  unfold compose at hcompose
  obtain ⟨picks, drawn, hdraw, hend⟩ := exists_of_run_bind_ok hcompose
  have hresult : (⟨Template.render recipe.nameTemplate (Composition.labels picks), picks⟩,
      Composition.overlay target picks) = (composition, traits) :=
    (eq_of_run_pure_ok hend).1
  rw [Prod.mk.injEq] at hresult
  obtain ⟨rfl, rfl⟩ := hresult
  rw [(eq_of_run_pure_ok hend).2] at hdraw
  exact ⟨hdraw, rfl, rfl⟩

/-- A composition's picks fill slots of the recipe in turn, all that are certain among them,
and the traits that come out are those of the last picks that carry them, laid over the
target's. -/
theorem compose_fills_slots {recipe : Recipe} {target traits : TraitTable}
    {composition : Composition}
    (hcompose : recipe.compose tier target state = (.ok (composition, traits), after)) :
    (∃ slots, slots.Sublist recipe.slots ∧
      List.Forall₂ (Slot.Fills state.archive tier) slots composition.picks ∧
      ∀ slot ∈ recipe.slots, slot.Certain state.archive tier → slot ∈ slots) ∧
    (composition.picks.map Pick.slot).Sublist (recipe.slots.map Slot.key) ∧
    ∀ name : String, traits[name]? =
      (composition.picks.reverse.findSome? fun pick => pick.item.traits[name]?).or
        target[name]? := by
  obtain ⟨hdraw, _, rfl⟩ := parts_of_compose hcompose
  obtain ⟨slots, hsublist, hfills, hcertain⟩ := drawSlots_fills (fun _ => rfl) hdraw
  refine ⟨⟨slots, hsublist, hfills, hcertain⟩, ?_, Composition.getElem?_overlay target _⟩
  rw [map_slot_of_fills hfills]
  exact hsublist.map Slot.key

def gem : Recipe :=
  ⟨[.gem], "\x7bgem\x7d"⟩

/-- A recipe of one slot is composed of what is drawn for it. -/
theorem exists_compose_of_draw {slot : Slot} {item : Item}
    (hdraw : slot.draw tier state = (.ok (some item), after)) (template : String)
    (target : TraitTable) :
    ∃ composition,
      compose ⟨[slot], template⟩ tier target state =
        (.ok (composition, Composition.overlay target [⟨slot.key, item⟩]), after) ∧
      composition.picks = [⟨slot.key, item⟩] := by
  have hslots : drawSlots tier [slot] state = (.ok [⟨slot.key, item⟩], after) :=
    run_bind_ok hdraw
  exact ⟨_, run_bind_ok hslots, rfl⟩

theorem exists_compose_gem (target : TraitTable) (stream : RandomStream) :
    ∃ composition after,
      gem.compose .legendary target ⟨.ofSource Documents.gems.source, stream⟩ =
        (.ok (composition, Composition.overlay target [⟨"gem", .opal⟩]), after) ∧
      composition.picks = [⟨"gem", .opal⟩] := by
  obtain ⟨after, hdraw⟩ := Slot.exists_draw_gem stream
  obtain ⟨composition, hcompose⟩ := exists_compose_of_draw hdraw gem.nameTemplate target
  exact ⟨composition, after, hcompose⟩

/-- The gem makes a target legendary that was not. -/
theorem compose_fills_slots_gem :
    ∃ composition traits after,
      gem.compose .legendary ((∅ : TraitTable).insert "legendary" (.ofJson (.bool false)))
          ⟨.ofSource Documents.gems.source, .ofWords []⟩ =
        (.ok (composition, traits), after) ∧
      composition.picks = [⟨"gem", .opal⟩] ∧
      traits["legendary"]? = some (.ofJson (.bool true)) := by
  obtain ⟨composition, after, hcompose, hpicks⟩ :=
    exists_compose_gem ((∅ : TraitTable).insert "legendary" (.ofJson (.bool false))) (.ofWords [])
  obtain ⟨_, _, htraits⟩ := compose_fills_slots hcompose
  refine ⟨composition, _, after, hcompose, hpicks, ?_⟩
  rw [htraits, hpicks]
  rfl

end Recipe
end GameCatalog
