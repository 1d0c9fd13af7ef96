import GameCatalog.Explorer.Session
import GameCatalog.Proofs.CatalogSearch
import GameCatalog.Proofs.Prospects

/-!
# Answers do not depend on what the archive keeps

Searching, checking, validating, drawing and generating agree under archives that answer
requests alike, such as archives that are faithful to one source.  The streams of two
draw states may stand in any relation as long as nothing is drawn; once numbers are taken
from them they must be the same.
-/

namespace GameCatalog

/-! ## Computations on archives -/

theorem Archive.respected_alike (source : Source) :
    Archive.Respected (Archive.Alike source source) where
  load _ := Archive.agrees_load rfl
  warn count := fun _ _ halike => ⟨rfl, halike.1.warn count, halike.2.warn count⟩

namespace ArchiveM

variable {source : Source}

theorem sourceKeys_of_faithful {archive : Archive} (hfaithful : archive.Faithful source) :
    sourceKeys archive = (source.keys, archive) := by
  have hget : (get : ArchiveM Archive) archive = (.ok archive, archive) := rfl
  refine (run_bind_ok hget).trans ?_
  rw [hfaithful.source_eq]
  cases source.keys <;> rfl

theorem agrees_sourceKeys : Agrees (Archive.Alike source source) sourceKeys := by
  intro s t halike
  rw [sourceKeys_of_faithful halike.1, sourceKeys_of_faithful halike.2]
  exact ⟨rfl, halike⟩

theorem agrees_forReference {R : Archive → Archive → Prop} (hR : Archive.Respected R)
    (r : Reference) : Agrees R (Search.forReference r) :=
  Search.agrees_downFrom r.domain r.steps r.steps.length fun _ _ => hR.load _

end ArchiveM

namespace Resolver

section Respecting

variable {R : Archive → Archive → Prop} (hR : Archive.Respected R) (logs : Bool)

include hR

theorem agrees_report (diagnostic : Option Diagnostic) : Agrees R (report logs diagnostic) :=
  hR.warn _

theorem agrees_check (text : String) : Agrees R (check logs text) := by
  unfold check
  cases Reference.parse text with
  | error flaw =>
      apply Agrees.bind (agrees_report hR logs _)
      exact fun _ => agrees_pure _ _
  | ok r =>
      apply Agrees.bind (ArchiveM.agrees_forReference hR r)
      intro search
      apply Agrees.bind (agrees_report hR logs _)
      exact fun _ => agrees_pure _ _

theorem agrees_candidates (text : String) : Agrees R (candidates text) := by
  unfold candidates
  cases Reference.parse text with
  | error flaw => exact agrees_pure _ _
  | ok r =>
      apply Agrees.bind (ArchiveM.agrees_forReference hR r)
      intro search
      cases search <;> exact agrees_pure _ _

theorem agrees_validateMentions (name : String) (mentions : List Mention) :
    Agrees R (validateMentions logs name mentions) := by
  induction mentions with
  | nil => exact agrees_pure _ _
  | cons mention rest ih =>
      unfold validateMentions
      apply Agrees.ite_bind (agrees_pure _ _) (agrees_check hR logs _)
      intro diagnostic
      apply Agrees.bind ih
      intro others
      cases diagnostic <;> exact agrees_pure _ _

theorem agrees_validateCatalog (key : CatalogKey) : Agrees R (validateCatalog logs key) := by
  unfold validateCatalog
  apply Agrees.bind (hR.load key)
  intro answer
  cases answer with
  | none => exact agrees_pure _ _
  | some catalog => exact agrees_validateMentions hR logs _ _

theorem agrees_validateCatalogs (keys : List CatalogKey) :
    Agrees R (validateCatalogs logs keys) := by
  induction keys with
  | nil => exact agrees_pure _ _
  | cons key rest ih =>
      unfold validateCatalogs
      apply Agrees.bind (agrees_validateCatalog hR logs key)
      intro diagnostics
      apply Agrees.bind ih
      exact fun others => agrees_pure _ _

end Respecting

theorem agrees_validateAll (logs : Bool) (source : Source) :
    Agrees (Archive.Alike source source) (validateAll logs) := by
  unfold validateAll
  exact Agrees.bind ArchiveM.agrees_sourceKeys
    (agrees_validateCatalogs (Archive.respected_alike source) logs)

end Resolver

/-! ## Computations that draw -/

/-- Archives and streams in the given relations. -/
structure DrawState.Alike (archives : Archive → Archive → Prop)
    (streams : RandomStream → RandomStream → Prop) (s t : DrawState) : Prop where
  archives : archives s.archive t.archive
  streams : streams s.stream t.stream

section Drawing

variable {R : Archive → Archive → Prop} {streams : RandomStream → RandomStream → Prop}

namespace DrawM

theorem agrees_consult {α : Type} {action : ArchiveM α} (haction : Agrees R action) :
    Agrees (DrawState.Alike R streams) (consult action) := by
  intro s t halike
  obtain ⟨hanswer, hafter⟩ := haction s.archive t.archive halike.archives
  exact ⟨hanswer, hafter, halike.streams⟩

theorem agrees_unit : Agrees (DrawState.Alike R Eq) unit := by
  intro s t halike
  have hstream := halike.streams
  unfold unit
  rw [hstream]
  exact ⟨rfl, halike.archives, rfl⟩

theorem agrees_between (low high : Int) :
    Agrees (DrawState.Alike R Eq) (between low high) := by
  unfold between
  split
  · exact agrees_throw _ _
  · intro s t halike
    have hstream := halike.streams
    dsimp only
    rw [hstream]
    split
    · exact ⟨rfl, halike.archives, rfl⟩
    · exact ⟨rfl, halike.archives, hstream⟩

end DrawM

variable (hR : Archive.Respected R)

include hR

namespace Resolver

omit hR in
/-- Only a lottery looks at the stream. -/
theorem agrees_outcome (r : Reference) {prospect : Prospect}
    (hstreams : (∃ catalog items shares, prospect = .lottery catalog items shares) →
      streams = Eq) :
    Agrees (DrawState.Alike R streams) (outcome r prospect) := by
  cases prospect with
  | failed kind => exact agrees_pure _ _
  | certain catalog item => exact agrees_pure _ _
  | lottery catalog items shares =>
      have heq := hstreams ⟨catalog, items, shares, rfl⟩
      subst heq
      apply Agrees.bind DrawM.agrees_unit
      exact fun roll => agrees_pure _ _

theorem agrees_resolve (logs : Bool) {text : String}
    (hquiet : (∃ r, Reference.parse text = .ok r ∧ r.isWildcard = true) → streams = Eq) :
    Agrees (DrawState.Alike R streams) (resolve logs text) := by
  unfold resolve
  cases hread : Reference.parse text with
  | error flaw =>
      apply Agrees.bind (DrawM.agrees_consult (agrees_report hR logs _))
      exact fun _ => agrees_pure _ _
  | ok r =>
      apply Agrees.bind (DrawM.agrees_consult (ArchiveM.agrees_forReference hR r))
      intro search
      refine Agrees.bind (agrees_outcome r ?_) ?_
      · intro hlottery
        obtain ⟨catalog, items, shares, hprospect⟩ := hlottery
        have hitem := (Reference.lottery_inv hprospect).1
        exact hquiet ⟨r, hread, by simp [Reference.isWildcard, hitem]⟩
      · intro result
        apply Agrees.bind (DrawM.agrees_consult (agrees_report hR logs _))
        exact fun _ => agrees_pure _ _

end Resolver

/-! ## Generation -/

namespace Slot

omit hR in
theorem agrees_isPassedOver (slot : Slot) :
    Agrees (DrawState.Alike R Eq) slot.isPassedOver := by
  unfold isPassedOver
  split
  · apply Agrees.bind DrawM.agrees_unit
    exact fun roll => agrees_pure _ _
  · exact agrees_pure _ _

theorem agrees_drawAmong (items : List Item) :
    Agrees (DrawState.Alike R Eq) (drawAmong items) := by
  unfold drawAmong
  split
  · apply Agrees.bind DrawM.agrees_unit
    intro roll
    apply Agrees.bind (agrees_ofExcept _ _)
    exact fun item => agrees_pure _ _
  · apply Agrees.bind (DrawM.agrees_consult (hR.warn 1))
    exact fun _ => agrees_pure _ _

theorem agrees_drawListed (tier : Tier) (optional : Bool) (listed : Option (List Item)) :
    Agrees (DrawState.Alike R Eq) (drawListed tier optional listed) := by
  cases listed with
  | some items => exact agrees_drawAmong hR _
  | none =>
      apply Agrees.bind (DrawM.agrees_consult (hR.warn _))
      exact fun _ => agrees_pure _ _

theorem agrees_draw (slot : Slot) (tier : Tier) :
    Agrees (DrawState.Alike R Eq) (slot.draw tier) := by
  unfold draw
  apply Agrees.bind (agrees_ofExcept _ _)
  intro r
  apply Agrees.bind slot.agrees_isPassedOver
  intro passed
  cases passed with
  | true => exact agrees_pure _ _
  | false =>
      apply Agrees.bind
        (DrawM.agrees_consult (Resolver.agrees_candidates hR slot.reference))
      exact agrees_drawListed hR tier r.optional

end Slot

namespace Recipe

theorem agrees_drawSlots (tier : Tier) (slots : List Slot) :
    Agrees (DrawState.Alike R Eq) (drawSlots tier slots) := by
  induction slots with
  | nil => exact agrees_pure _ _
  | cons slot rest ih =>
      unfold drawSlots
      apply Agrees.bind (slot.agrees_draw hR tier)
      intro item
      apply Agrees.bind ih
      intro others
      cases item <;> exact agrees_pure _ _

theorem agrees_compose (recipe : Recipe) (tier : Tier) (target : TraitTable) :
    Agrees (DrawState.Alike R Eq) (recipe.compose tier target) := by
  unfold compose
  apply Agrees.bind (agrees_drawSlots hR tier recipe.slots)
  exact fun picks => agrees_pure _ _

end Recipe

omit hR in
theorem Entity.agrees_ofQuest (tier : Tier) (composition : Composition)
    (traits : TraitTable) :
    Agrees (DrawState.Alike R Eq) (ofQuest tier composition traits) := by
  have hgold : Agrees (DrawState.Alike R Eq) (baseGold composition traits) := by
    unfold baseGold
    split
    · exact DrawM.agrees_between _ _
    · exact agrees_pure _ _
  unfold ofQuest
  exact Agrees.bind hgold fun gold => agrees_pure _ _

namespace GeneratorKind

theorem agrees_generate (kind : GeneratorKind) (recipe : Recipe) (tier : Tier) :
    Agrees (DrawState.Alike R Eq) (kind.generate recipe tier) := by
  unfold generate
  apply Agrees.bind (recipe.agrees_compose hR tier ∅)
  intro made
  cases kind with
  | item => exact agrees_pure _ _
  | npc => exact agrees_pure _ _
  | quest => exact Entity.agrees_ofQuest tier _ _
  | enemy => exact agrees_ofExcept _ _

theorem agrees_generateMany (kind : GeneratorKind) (recipe : Recipe) (tier : Tier)
    (count : Nat) :
    Agrees (DrawState.Alike R Eq) (kind.generateMany recipe tier count) := by
  induction count with
  | zero => exact agrees_pure _ _
  | succ count ih =>
      unfold generateMany
      apply Agrees.bind (kind.agrees_generate hR recipe tier)
      intro entity
      apply Agrees.bind ih
      exact fun others => agrees_pure _ _

end GeneratorKind
end Drawing
end GameCatalog
