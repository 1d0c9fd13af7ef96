import GameCatalog.Proofs.Compositions

/-!
# Draws from archives that list like fragments

Two archives may list fragments that differ in fields that no draw reads.  Then draws from
the same stream select related fragments, so compositions have the same name and traits,
and both streams go on from the same place.
-/

namespace GameCatalog

/-! ## Pairs of computations -/

section Pairs

variable {α β γ δ σ : Type}

/-- Related answers, or the same fault. -/
inductive AnswersMatch (S : α → β → Prop) : Except Fault α → Except Fault β → Prop where
  | ok {a : α} {b : β} (hrelated : S a b) : AnswersMatch S (.ok a) (.ok b)
  | error (fault : Fault) : AnswersMatch S (.error fault) (.error fault)

/-- From related states the computations give matching answers, and they leave related
states. -/
def Matches (R : σ → σ → Prop) (S : α → β → Prop) (x : ExceptT Fault (StateM σ) α)
    (y : ExceptT Fault (StateM σ) β) : Prop :=
  ∀ s t, R s t → AnswersMatch S (x s).1 (y t).1 ∧ R (x s).2 (y t).2

variable {R : σ → σ → Prop} {S : α → β → Prop} {T : γ → δ → Prop}

theorem AnswersMatch.mono {S' : α → β → Prop} {x : Except Fault α} {y : Except Fault β}
    (hanswers : AnswersMatch S x y) (hweaker : ∀ a b, S a b → S' a b) : AnswersMatch S' x y := by
  cases hanswers with
  | ok hrelated => exact .ok (hweaker _ _ hrelated)
  | error fault => exact .error fault

theorem matches_pure {a : α} {b : β} (hrelated : S a b) :
    Matches R S (pure a : ExceptT Fault (StateM σ) α) (pure b : ExceptT Fault (StateM σ) β) :=
  fun _ _ hstates => ⟨.ok hrelated, hstates⟩

theorem matches_ofExcept {x : Except Fault α} {y : Except Fault β} (hanswers : AnswersMatch S x y) :
    Matches R S (MonadExcept.ofExcept x : ExceptT Fault (StateM σ) α)
      (MonadExcept.ofExcept y : ExceptT Fault (StateM σ) β) := by
  intro s t hstates
  rw [run_ofExcept, run_ofExcept]
  exact ⟨hanswers, hstates⟩

theorem Agrees.matches {x : ExceptT Fault (StateM σ) α} (hx : Agrees R x) :
    Matches R Eq x x := by
  intro s t hstates
  obtain ⟨hanswer, hafter⟩ := hx s t hstates
  refine ⟨?_, hafter⟩
  rw [hanswer]
  cases (x t).1 with
  | error fault => exact .error fault
  | ok a => exact .ok rfl

theorem Matches.bind {x : ExceptT Fault (StateM σ) α} {y : ExceptT Fault (StateM σ) β}
    {f : α → ExceptT Fault (StateM σ) γ} {g : β → ExceptT Fault (StateM σ) δ}
    (hxy : Matches R S x y) (hfg : ∀ a b, S a b → Matches R T (f a) (g b)) :
    Matches R T (x >>= f) (y >>= g) := by
  intro s t hstates
  obtain ⟨hanswers, hafter⟩ := hxy s t hstates
  cases hx : x s with
  | mk first s' =>
      cases hy : y t with
      | mk second t' =>
          rw [hx, hy] at hanswers hafter
          cases hanswers with
          | error fault =>
              rw [run_bind_error hx, run_bind_error hy]
              exact ⟨.error fault, hafter⟩
          | ok hrelated =>
              rw [run_bind_ok hx, run_bind_ok hy]
              exact hfg _ _ hrelated _ _ hafter

theorem Matches.mono {S' : α → β → Prop} {x : ExceptT Fault (StateM σ) α}
    {y : ExceptT Fault (StateM σ) β} (hxy : Matches R S x y) (hweaker : ∀ a b, S a b → S' a b) :
    Matches R S' x y := by
  intro s t hstates
  obtain ⟨hanswers, hafter⟩ := hxy s t hstates
  exact ⟨hanswers.mono hweaker, hafter⟩

theorem Matches.exists_of_ok {x : ExceptT Fault (StateM σ) α} {y : ExceptT Fault (StateM σ) β}
    (hxy : Matches R S x y) {s t after : σ} (hstates : R s t) {a : α}
    (hx : x s = (.ok a, after)) :
    ∃ b later, y t = (.ok b, later) ∧ S a b ∧ R after later := by
  obtain ⟨hanswers, hafter⟩ := hxy s t hstates
  cases hy : y t with
  | mk second later =>
      rw [hx, hy] at hanswers hafter
      cases hanswers with
      | ok hrelated => exact ⟨_, later, rfl, hrelated, hafter⟩

end Pairs

/-! ## Like fragments -/

structure Item.Alike (item other : Item) : Prop where
  name : item.name = other.name
  label : item.label = other.label
  weight : item.weight = other.weight
  traits : item.traits = other.traits

structure Pick.Related (R : Item → Item → Prop) (pick other : Pick) : Prop where
  slot : pick.slot = other.slot
  item : R pick.item other.item

/-- The archives list related fragments for each slot of the recipe. -/
def Recipe.Listed (R : Item → Item → Prop) (recipe : Recipe) (first second : Archive) : Prop :=
  ∀ slot ∈ recipe.slots, AnswersMatch (Option.Rel (List.Forall₂ R))
    (Resolver.candidates slot.reference first).1 (Resolver.candidates slot.reference second).1

/-- One archive answers as the first of the given ones, the other as the second. -/
def Archive.AnswerAs (first second s t : Archive) : Prop :=
  first.SameAnswers s ∧ second.SameAnswers t

def DrawState.Paired (first second : Archive) : DrawState → DrawState → Prop :=
  DrawState.Alike (Archive.AnswerAs first second) Eq

section Related

variable {R : Item → Item → Prop} (halike : ∀ item other, R item other → item.Alike other)
  {items others : List Item} {first second : Archive}

include halike

theorem map_weight_of_related (hrelated : List.Forall₂ R items others) :
    items.map Item.weight = others.map Item.weight := by
  induction hrelated with
  | nil => rfl
  | cons hitem hrest ih => rw [List.map_cons, List.map_cons, ih, (halike _ _ hitem).weight]

theorem Tier.suits_of_related (tier : Tier) {item other : Item} (hitem : R item other) :
    tier.suits item = tier.suits other := by
  unfold suits Item.isLegendary
  rw [(halike item other hitem).traits]

theorem Tier.keep_related (tier : Tier) (hrelated : List.Forall₂ R items others) :
    List.Forall₂ R (tier.keep items) (tier.keep others) := by
  have hsuited : List.Forall₂ R (items.filter tier.suits) (others.filter tier.suits) := by
    induction hrelated with
    | nil => exact .nil
    | cons hitem hrest ih =>
        rw [List.filter_cons, List.filter_cons, tier.suits_of_related halike hitem]
        split
        · exact .cons hitem ih
        · exact ih
  have hempty : (items.filter tier.suits).isEmpty = (others.filter tier.suits).isEmpty := by
    rw [Bool.eq_iff_iff, List.isEmpty_iff_length_eq_zero, List.isEmpty_iff_length_eq_zero,
      hsuited.length_eq]
  unfold keep
  simp only [hempty]
  split
  · exact hrelated
  · exact hsuited

namespace Slot

omit halike in
theorem selected_related (hrelated : List.Forall₂ R items others) (shares : List Float)
    (roll : Float) :
    AnswersMatch R (selected items shares roll) (selected others shares roll) := by
  have hplace (i : Nat) : Option.Rel R items[i]? others[i]? := by
    induction hrelated generalizing i with
    | nil => exact .none
    | cons hitem hrest ih =>
        cases i with
        | zero => exact .some hitem
        | succ i => exact ih i
  unfold selected
  dsimp only
  rw [hrelated.length_eq]
  have hfound := hplace (Rarity.pickIndex shares roll)
  generalize items[Rarity.pickIndex shares roll]? = first at hfound
  generalize others[Rarity.pickIndex shares roll]? = second at hfound
  cases hfound with
  | none => exact .error _
  | some hitem => exact .ok hitem

theorem matches_drawAmong (hrelated : List.Forall₂ R items others) :
    Matches (DrawState.Paired first second) (Option.Rel R) (drawAmong items)
      (drawAmong others) := by
  unfold drawAmong
  rw [map_weight_of_related halike hrelated]
  cases Rarity.probabilities Float (others.map Item.weight) with
  | ok shares =>
      apply Matches.bind DrawM.agrees_unit.matches
      rintro roll _ rfl
      apply Matches.bind (matches_ofExcept (selected_related hrelated shares roll))
      exact fun _ _ hitem => matches_pure (.some hitem)
  | error fault =>
      have hwarn : Agrees (Archive.AnswerAs first second) (ArchiveM.warn 1) :=
        fun _ _ hanswers => ⟨rfl, hanswers⟩
      apply Matches.bind (DrawM.agrees_consult hwarn).matches
      exact fun _ _ _ => matches_pure .none

omit halike in
/-- What both archives answer for a slot is related at any time, as it was at the start. -/
theorem matches_candidates {reference : String}
    (hlisted : AnswersMatch (Option.Rel (List.Forall₂ R)) (Resolver.candidates reference first).1
      (Resolver.candidates reference second).1) :
    Matches (DrawState.Paired first second) (Option.Rel (List.Forall₂ R))
      (DrawM.consult (Resolver.candidates reference))
      (DrawM.consult (Resolver.candidates reference)) := by
  intro s t hpaired
  have hfirst := Resolver.agrees_candidates (Archive.respected_bothAnswerAs first) reference
    first s.archive ⟨fun _ => rfl, hpaired.archives.1⟩
  have hsecond := Resolver.agrees_candidates (Archive.respected_bothAnswerAs second) reference
    second t.archive ⟨fun _ => rfl, hpaired.archives.2⟩
  rw [hfirst.1, hsecond.1] at hlisted
  exact ⟨hlisted, ⟨hfirst.2.2, hsecond.2.2⟩, hpaired.streams⟩

theorem matches_drawListed (tier : Tier) (optional : Bool) {listed other : Option (List Item)}
    (hrelated : Option.Rel (List.Forall₂ R) listed other) :
    Matches (DrawState.Paired first second) (Option.Rel R) (drawListed tier optional listed)
      (drawListed tier optional other) := by
  cases hrelated with
  | some hitems => exact matches_drawAmong halike (tier.keep_related halike hitems)
  | none =>
      have hwarn (count : Nat) : Agrees (Archive.AnswerAs first second) (ArchiveM.warn count) :=
        fun _ _ hanswers => ⟨rfl, hanswers⟩
      apply Matches.bind (DrawM.agrees_consult (hwarn _)).matches
      exact fun _ _ _ => matches_pure .none

theorem matches_draw {slot : Slot} (tier : Tier)
    (hlisted : AnswersMatch (Option.Rel (List.Forall₂ R))
      (Resolver.candidates slot.reference first).1 (Resolver.candidates slot.reference second).1) :
    Matches (DrawState.Paired first second) (Option.Rel R) (slot.draw tier)
      (slot.draw tier) := by
  unfold draw
  apply Matches.bind (agrees_ofExcept _ slot.plainReference).matches
  rintro r _ rfl
  apply Matches.bind slot.agrees_isPassedOver.matches
  rintro passed _ rfl
  cases passed with
  | true => exact matches_pure .none
  | false =>
      apply Matches.bind (matches_candidates hlisted)
      exact fun _ _ => matches_drawListed halike tier r.optional

end Slot

namespace Recipe

theorem matches_drawSlots (tier : Tier) {slots : List Slot}
    (hlisted : ∀ slot ∈ slots, AnswersMatch (Option.Rel (List.Forall₂ R))
      (Resolver.candidates slot.reference first).1 (Resolver.candidates slot.reference second).1) :
    Matches (DrawState.Paired first second) (List.Forall₂ (Pick.Related R))
      (drawSlots tier slots) (drawSlots tier slots) := by
  induction slots with
  | nil => exact matches_pure .nil
  | cons slot rest ih =>
      unfold drawSlots
      apply Matches.bind (Slot.matches_draw halike tier (hlisted slot List.mem_cons_self))
      intro chosen other hchosen
      apply Matches.bind (ih fun slot hmem => hlisted slot (List.mem_cons_of_mem _ hmem))
      intro picks others hpicks
      cases hchosen with
      | none => exact matches_pure hpicks
      | some hitem => exact matches_pure (.cons ⟨rfl, hitem⟩ hpicks)

end Recipe

namespace Composition

variable {picks drawn : List Pick}

theorem labels_of_related (hpicks : List.Forall₂ (Pick.Related R) picks drawn) :
    labels picks = labels drawn := by
  unfold labels
  generalize (∅ : Template.Values) = values
  induction hpicks generalizing values with
  | nil => rfl
  | cons hpick hrest ih =>
      rw [List.foldl_cons, List.foldl_cons, hpick.slot, (halike _ _ hpick.item).label]
      exact ih _

theorem overlay_of_related (target : TraitTable)
    (hpicks : List.Forall₂ (Pick.Related R) picks drawn) :
    overlay target picks = overlay target drawn := by
  unfold overlay
  induction hpicks generalizing target with
  | nil => rfl
  | cons hpick hrest ih =>
      rw [List.foldl_cons, List.foldl_cons, (halike _ _ hpick.item).traits]
      exact ih _

theorem names_of_related (hpicks : List.Forall₂ (Pick.Related R) picks drawn) :
    picks.map (fun pick => pick.item.name) = drawn.map (fun pick => pick.item.name) := by
  induction hpicks with
  | nil => rfl
  | cons hpick hrest ih =>
      rw [List.map_cons, List.map_cons, ih, (halike _ _ hpick.item).name]

omit halike in
theorem pick?_related {composition other : Composition}
    (hpicks : List.Forall₂ (Pick.Related R) composition.picks other.picks) (slot : String) :
    Option.Rel R (composition.pick? slot) (other.pick? slot) := by
  unfold pick?
  generalize composition.picks = picks at hpicks
  generalize other.picks = drawn at hpicks
  induction hpicks with
  | nil => exact .none
  | cons hpick hrest ih =>
      rw [List.find?_cons, List.find?_cons, hpick.slot]
      split
      · exact .some hpick.item
      · exact ih

end Composition

/-- From the same stream a recipe comes to the same name and the same traits with both
archives, and to related picks. -/
theorem Recipe.exists_compose_related {recipe : Recipe} (hlisted : recipe.Listed R first second)
    {tier : Tier} {target traits : TraitTable} {stream : RandomStream}
    {composition : Composition} {after : DrawState}
    (hcompose : recipe.compose tier target ⟨first, stream⟩ = (.ok (composition, traits), after)) :
    ∃ other later, recipe.compose tier target ⟨second, stream⟩ = (.ok (other, traits), later) ∧
      other.name = composition.name ∧
      List.Forall₂ (Pick.Related R) composition.picks other.picks ∧
      DrawState.Paired first second after later := by
  have hpaired : DrawState.Paired first second ⟨first, stream⟩ ⟨second, stream⟩ :=
    ⟨⟨fun _ => rfl, fun _ => rfl⟩, rfl⟩
  obtain ⟨hdraw, hname, rfl⟩ := parts_of_compose hcompose
  obtain ⟨drawn, later, hdrawn, hpicks, hlater⟩ :=
    (matches_drawSlots halike tier hlisted).exists_of_ok hpaired hdraw
  refine ⟨⟨composition.name, drawn⟩, later, ?_, rfl, hpicks, hlater⟩
  unfold compose
  rw [run_bind_ok hdrawn, hname, Composition.labels_of_related halike hpicks,
    Composition.overlay_of_related halike target hpicks]
  rfl

end Related
end GameCatalog
