import GameCatalog.Proofs.GenerationOutcomes
import GameCatalog.Proofs.SessionIndependence

/-!
# Seeds determine generation

Generators share the archive of a session but each draws from a stream of its own, and an
archive answers alike whatever it keeps.  So what a generator makes is determined by its
stream: once it is reseeded, nothing shows of what was done before, or of what others do in
between.  It makes entities one after the other, so asked for more of them it first makes
the same ones.
-/

namespace GameCatalog

/-! ## One run and the next -/

namespace GeneratorKind

variable {kind : GeneratorKind} {recipe : Recipe} {tier : Tier} {state after : DrawState}

theorem generateMany_add (kind : GeneratorKind) (recipe : Recipe) (tier : Tier) (n m : Nat) :
    kind.generateMany recipe tier (n + m) = (do
      let first ← kind.generateMany recipe tier n
      let more ← kind.generateMany recipe tier m
      return first ++ more) := by
  induction n with
  | zero => simp [generateMany]
  | succ n ih =>
      rw [Nat.succ_add, generateMany, ih, generateMany]
      simp

theorem length_of_generateMany {count : Nat} {entities : List Entity}
    (hrun : kind.generateMany recipe tier count state = (.ok entities, after)) :
    entities.length = count := by
  induction count generalizing state entities after with
  | zero =>
      obtain ⟨hempty, _⟩ := eq_of_run_pure_ok hrun
      rw [← hempty, List.length_nil]
  | succ count ih =>
      obtain ⟨entity, middle, _, hrest⟩ := exists_of_run_bind_ok hrun
      obtain ⟨others, last, hothers, hmade⟩ := exists_of_run_bind_ok hrest
      obtain ⟨hentities, _⟩ := eq_of_run_pure_ok hmade
      rw [← hentities, List.length_cons, ih hothers]

end GeneratorKind

namespace Generator

inductive Call where
  | generate (tier : Tier) (count : Nat)
  | reseed (seed : UInt64)

/-- What the calls to generate give, one after the other, if nothing else is done. -/
def replies (generator : Generator) (archive : Archive) :
    List Call → List (Except Fault (List Entity))
  | [] => []
  | .generate tier count :: rest =>
      let (result, generator, archive) := generator.generateMany tier count archive
      result :: generator.replies archive rest
  | .reseed seed :: rest => (generator.reseed seed).replies archive rest

/-- A fault ends the generation; otherwise the second part goes on from the first. -/
def generateInParts (generator : Generator) (tier : Tier) (n m : Nat) (archive : Archive) :
    Except Fault (List Entity) × Generator × Archive :=
  match generator.generateMany tier n archive with
  | (.error fault, stopped) => (.error fault, stopped)
  | (.ok first, generator, archive) =>
      match generator.generateMany tier m archive with
      | (.error fault, stopped) => (.error fault, stopped)
      | (.ok more, finished) => (.ok (first ++ more), finished)

theorem generateMany_eq_inParts (generator : Generator) (tier : Tier) (n m : Nat)
    (archive : Archive) :
    generator.generateMany tier (n + m) archive = generator.generateInParts tier n m archive := by
  unfold generateInParts generateMany
  rw [GeneratorKind.generateMany_add]
  cases hfirst : generator.kind.generateMany generator.recipe tier n
      ⟨archive, generator.stream⟩ with
  | mk result middle =>
      cases result with
      | error fault =>
          rw [run_bind_error hfirst]
      | ok first =>
          rw [run_bind_ok hfirst]
          dsimp only
          cases hmore : generator.kind.generateMany generator.recipe tier m middle with
          | mk result last =>
              cases result with
              | error fault => rw [run_bind_error hmore]
              | ok more =>
                  rw [run_bind_ok hmore]
                  rfl

variable {generator : Generator} {tier : Tier} {archive archive' : Archive} {source : Source}

theorem length_of_generateMany {count : Nat} {entities : List Entity} {after : Generator × Archive}
    (hrun : generator.generateMany tier count archive = (.ok entities, after)) :
    entities.length = count := by
  have hentities : (generator.kind.generateMany generator.recipe tier count
      ⟨archive, generator.stream⟩).1 = .ok entities := congrArg Prod.fst hrun
  exact GeneratorKind.length_of_generateMany (Prod.ext hentities rfl)

theorem fault_of_generateMany {n m : Nat} (hle : n ≤ m) {fault : Fault}
    (hfault : (generator.generateMany tier n archive).1 = .error fault) :
    (generator.generateMany tier m archive).1 = .error fault := by
  obtain ⟨more, rfl⟩ := Nat.exists_eq_add_of_le hle
  rw [generateMany_eq_inParts, generateInParts]
  cases hrun : generator.generateMany tier n archive with
  | mk result stopped =>
      rw [hrun] at hfault
      dsimp only at hfault
      rw [hfault]

theorem take_of_generateMany {n m : Nat} (hle : n ≤ m) {entities : List Entity}
    (hall : (generator.generateMany tier m archive).1 = .ok entities) :
    (generator.generateMany tier n archive).1 = .ok (entities.take n) := by
  obtain ⟨more, rfl⟩ := Nat.exists_eq_add_of_le hle
  rw [generateMany_eq_inParts, generateInParts] at hall
  cases hrun : generator.generateMany tier n archive with
  | mk result middle =>
      rw [hrun] at hall
      cases result with
      | error fault => contradiction
      | ok first =>
          have hlength : first.length = n := length_of_generateMany hrun
          dsimp only at hall
          cases hmore : middle.1.generateMany tier more middle.2 with
          | mk result finished =>
              rw [hmore] at hall
              cases result with
              | error fault => contradiction
              | ok others =>
                  simp only [Except.ok.injEq] at hall
                  rw [← hall, ← hlength, List.take_left]

/-! ## Archives do not show -/

theorem generateMany_alike (generator : Generator) (tier : Tier) (count : Nat)
    (halike : Archive.Alike source source archive archive') :
    (generator.generateMany tier count archive).1 =
        (generator.generateMany tier count archive').1 ∧
      (generator.generateMany tier count archive).2.1 =
        (generator.generateMany tier count archive').2.1 ∧
      Archive.Alike source source (generator.generateMany tier count archive).2.2
        (generator.generateMany tier count archive').2.2 := by
  obtain ⟨hanswer, hafter⟩ := generator.kind.agrees_generateMany (Archive.respected_alike source)
    generator.recipe tier count ⟨archive, generator.stream⟩ ⟨archive', generator.stream⟩
    ⟨halike, rfl⟩
  have hgenerators := congrArg
    (fun stream => ({ generator with stream := stream } : Generator)) hafter.streams
  exact ⟨hanswer, hgenerators, hafter.archives⟩

end Generator

/-! ## Generators that share an archive -/

/-- A session and the generators that use its archive, by number. -/
structure Workshop where
  session : Session
  generators : Nat → Generator

namespace Workshop

inductive Order where
  | ask (request : Request)
  | generate (id : Nat) (tier : Tier) (count : Nat)
  | reseed (id : Nat) (seed : UInt64)

def opened (source : Source) (seed : UInt64) (logs : Bool) (generators : Nat → Generator) :
    Workshop where
  session := .start source seed logs
  generators := generators

def replace (workshop : Workshop) (id : Nat) (generator : Generator) : Workshop :=
  { workshop with
    generators := fun other => if other = id then generator else workshop.generators other }

def perform (workshop : Workshop) : Order → Workshop
  | .ask request => { workshop with session := (workshop.session.perform request).2 }
  | .generate id tier count =>
      let (_, generator, archive) :=
        (workshop.generators id).generateMany tier count workshop.session.archive
      { workshop with session := { workshop.session with archive := archive } }.replace
        id generator
  | .reseed id seed => workshop.replace id ((workshop.generators id).reseed seed)

def after (workshop : Workshop) (orders : List Order) : Workshop :=
  orders.foldl perform workshop

/-- What the generator gives if it is the one that is to generate. -/
def answers (workshop : Workshop) (id : Nat) : Order → List (Except Fault (List Entity))
  | .generate other tier count =>
      if other = id then
        [((workshop.generators id).generateMany tier count workshop.session.archive).1]
      else []
  | .ask _ => []
  | .reseed _ _ => []

/-- What the generator gives while orders are performed, one after the other. -/
def outputs (workshop : Workshop) (id : Nat) :
    List Order → List (Except Fault (List Entity))
  | [] => []
  | order :: rest => workshop.answers id order ++ (workshop.perform order).outputs id rest

def Order.call? (id : Nat) : Order → Option Generator.Call
  | .ask _ => none
  | .generate other tier count => if other = id then some (.generate tier count) else none
  | .reseed other seed => if other = id then some (.reseed seed) else none

def callsTo (id : Nat) (orders : List Order) : List Generator.Call :=
  orders.filterMap (Order.call? id)

variable {workshop : Workshop} {source : Source} {seed : UInt64} {logs : Bool}

theorem serves_perform (hserves : workshop.session.Serves source seed logs) (order : Order) :
    (workshop.perform order).session.Serves source seed logs := by
  cases order with
  | ask request => exact Session.serves_perform hserves request
  | reseed id seed => exact hserves
  | generate id tier count =>
      have hafter := ((workshop.generators id).generateMany_alike tier count
        ⟨hserves.faithful, hserves.faithful⟩).2.2
      exact hserves.update hafter.1 workshop.session.stream

theorem serves_after (hserves : workshop.session.Serves source seed logs)
    (orders : List Order) : (workshop.after orders).session.Serves source seed logs := by
  induction orders generalizing workshop with
  | nil => exact hserves
  | cons order orders ih => exact ih (serves_perform hserves order)

theorem answers_of_foreign {id : Nat} {order : Order} (hforeign : order.call? id = none)
    (workshop : Workshop) : workshop.answers id order = [] := by
  cases order with
  | ask request => rfl
  | reseed other seed => rfl
  | generate other tier count =>
      have hid : ¬ other = id := by simpa [Order.call?] using hforeign
      rw [answers, if_neg hid]

theorem generators_of_foreign {id : Nat} {order : Order} (hforeign : order.call? id = none)
    (workshop : Workshop) : (workshop.perform order).generators id = workshop.generators id := by
  cases order with
  | ask request => rfl
  | reseed other seed =>
      have hid : ¬ other = id := by simpa [Order.call?] using hforeign
      exact if_neg (Ne.symm hid)
  | generate other tier count =>
      have hid : ¬ other = id := by simpa [Order.call?] using hforeign
      exact if_neg (Ne.symm hid)

theorem callsTo_cons_of_some {id : Nat} {order : Order} {call : Generator.Call}
    (hcall : order.call? id = some call) (orders : List Order) :
    callsTo id (order :: orders) = call :: callsTo id orders :=
  List.filterMap_cons_some hcall

/-- Whatever else is ordered, a generator gives what it would give on its own. -/
theorem outputs_eq_replies (hserves : workshop.session.Serves source seed logs)
    {archive : Archive} (hfaithful : archive.Faithful source) (id : Nat) (orders : List Order) :
    workshop.outputs id orders = (workshop.generators id).replies archive (callsTo id orders) := by
  induction orders generalizing workshop archive with
  | nil => rfl
  | cons order orders ih =>
      have hrest := @ih _ (serves_perform hserves order)
      rw [outputs]
      cases hcall : order.call? id with
      | none =>
          rw [answers_of_foreign hcall, List.nil_append, hrest hfaithful,
            generators_of_foreign hcall, callsTo, callsTo, List.filterMap_cons_none hcall]
      | some call =>
          rw [callsTo_cons_of_some hcall]
          cases order with
          | ask request => contradiction
          | reseed other seed =>
              obtain ⟨rfl, rfl⟩ : other = id ∧ .reseed seed = call := by
                simpa [Order.call?] using hcall
              have hstep : (workshop.perform (.reseed other seed)).generators other =
                  (workshop.generators other).reseed seed := if_pos rfl
              rw [answers, List.nil_append, hrest hfaithful, hstep, Generator.replies]
          | generate other tier count =>
              obtain ⟨rfl, rfl⟩ : other = id ∧ .generate tier count = call := by
                simpa [Order.call?] using hcall
              obtain ⟨hanswer, hgenerator, hafter⟩ :=
                (workshop.generators other).generateMany_alike tier count
                  ⟨hserves.faithful, hfaithful⟩
              have hstep : (workshop.perform (.generate other tier count)).generators other =
                  ((workshop.generators other).generateMany tier count archive).2.1 :=
                (if_pos rfl).trans hgenerator
              rw [answers, if_pos rfl, hrest hafter.2, hstep, hanswer, Generator.replies]
              rfl

/-- One generator may be another now, but of the same kind and recipe. -/
theorem kind_recipe_of_replaced {next : Workshop} {id : Nat} {generator : Generator}
    (hnext : ∀ other, next.generators other =
      if other = id then generator else workshop.generators other)
    (hkind : generator.kind = (workshop.generators id).kind)
    (hrecipe : generator.recipe = (workshop.generators id).recipe) (other : Nat) :
    (next.generators other).kind = (workshop.generators other).kind ∧
      (next.generators other).recipe = (workshop.generators other).recipe := by
  rw [hnext]
  by_cases hother : other = id
  · rw [if_pos hother, hother]
    exact ⟨hkind, hrecipe⟩
  · rw [if_neg hother]
    exact ⟨rfl, rfl⟩

theorem kind_recipe_perform (workshop : Workshop) (order : Order) (id : Nat) :
    ((workshop.perform order).generators id).kind = (workshop.generators id).kind ∧
      ((workshop.perform order).generators id).recipe = (workshop.generators id).recipe := by
  cases order with
  | ask request => exact ⟨rfl, rfl⟩
  | reseed other seed =>
      refine kind_recipe_of_replaced (fun _ => rfl) ?_ ?_ id
      · rfl
      · rfl
  | generate other tier count =>
      refine kind_recipe_of_replaced (fun _ => rfl) ?_ ?_ id
      · rfl
      · rfl

theorem kind_recipe_after (workshop : Workshop) (orders : List Order) (id : Nat) :
    ((workshop.after orders).generators id).kind = (workshop.generators id).kind ∧
      ((workshop.after orders).generators id).recipe = (workshop.generators id).recipe := by
  induction orders generalizing workshop with
  | nil => exact ⟨rfl, rfl⟩
  | cons order orders ih =>
      obtain ⟨hkind, hrecipe⟩ := kind_recipe_perform workshop order id
      obtain ⟨hkinds, hrecipes⟩ := ih (workshop.perform order)
      exact ⟨hkinds.trans hkind, hrecipes.trans hrecipe⟩

/-- Once it is reseeded a generator is as new. -/
theorem generators_reseed_after (workshop : Workshop) (orders : List Order) (id : Nat)
    (seed : UInt64) :
    ((workshop.after orders).perform (.reseed id seed)).generators id =
      ⟨(workshop.generators id).kind, (workshop.generators id).recipe, .seeded seed⟩ := by
  obtain ⟨hkind, hrecipe⟩ := kind_recipe_after workshop orders id
  have hstep : ((workshop.after orders).perform (.reseed id seed)).generators id =
      ((workshop.after orders).generators id).reseed seed := if_pos rfl
  rw [hstep, Generator.reseed, hkind, hrecipe]

end Workshop

/-! ## Sessions -/

namespace Session

variable {source : Source} {seed : UInt64} {logs : Bool} {session : Session}

/-- A session describes what a new generator of its seed makes. -/
theorem generate_of_serves (hserves : session.Serves source seed logs) (kind : GeneratorKind)
    (tier : Tier) (count : Nat) :
    (generate kind tier count session).1 =
      ((Generator.standard kind seed).generateMany tier count (.ofSource source)).1.map
        (List.map Entity.describe) := by
  have hanswer := ((Generator.standard kind seed).generateMany_alike tier count
    ⟨hserves.faithful, Archive.faithful_ofSource source⟩).1
  rw [← hanswer, ← hserves.seed_eq]
  rfl

variable {other : Session} {kind : GeneratorKind} {tier : Tier} {n m : Nat}

/-- Fewer entities are the first of more. -/
theorem take_of_generate (hserves : session.Serves source seed logs)
    (hother : other.Serves source seed logs) (hle : n ≤ m) {described : List String}
    (hall : (generate kind tier m session).1 = .ok described) :
    (generate kind tier n other).1 = .ok (described.take n) := by
  rw [generate_of_serves hserves] at hall
  obtain ⟨entities, hmade, hdescribed⟩ := map_eq_ok_iff.mp hall
  rw [generate_of_serves hother, Generator.take_of_generateMany hle hmade, ← hdescribed,
    ← List.map_take]
  rfl

theorem fault_of_generate (hserves : session.Serves source seed logs)
    (hother : other.Serves source seed logs) (hle : n ≤ m) {fault : Fault}
    (hfault : (generate kind tier n other).1 = .error fault) :
    (generate kind tier m session).1 = .error fault := by
  rw [generate_of_serves hother] at hfault
  rw [generate_of_serves hserves,
    Generator.fault_of_generateMany hle (map_eq_error_iff.mp hfault)]
  rfl

theorem exists_generate (hserves : session.Serves source seed logs)
    (hreadable : source.Readable)
    (hfits : kind.AllFit kind.standardRecipe tier m ⟨.ofSource source, .seeded seed⟩) :
    ∃ described, (generate kind tier m session).1 = .ok described ∧ described.length = m := by
  have hstate : DrawState.Readable ⟨.ofSource source, .seeded seed⟩ := hreadable
  obtain ⟨entities, after, hmade, hlength⟩ :=
    GeneratorKind.exists_generateMany kind.plain_standardRecipe hstate hfits
  have hentities : ((Generator.standard kind seed).generateMany tier m (.ofSource source)).1 =
      .ok entities := congrArg Prod.fst hmade
  refine ⟨entities.map Entity.describe, ?_, by rw [List.length_map, hlength]⟩
  rw [generate_of_serves hserves, hentities]
  rfl

end Session

namespace Workshop

def described (workshop : Workshop) (kind : GeneratorKind) (tier : Tier) (count : Nat) :
    Except Fault (List String) :=
  (Session.generate kind tier count workshop.session).1

/-- A seed determines what is generated.  Whatever was ordered before, a generator that is
reseeded gives from then on what a new one of the seed gives on its own, also if others are
busy in between; it makes many entities as it makes a first part and then the rest; and the
entities that a session describes are the first of any greater number of them, at any time.
Over a readable source they are all described if enemies' sums stay in range. -/
theorem seed_determines_generation (source : Source) (seed : UInt64) (logs : Bool)
    (generators : Nat → Generator) :
    (∀ history id fresh later,
      (((opened source seed logs generators).after history).perform
          (.reseed id fresh)).outputs id later =
        Generator.replies ⟨(generators id).kind, (generators id).recipe, .seeded fresh⟩
          (.ofSource source) (callsTo id later)) ∧
    (∀ (generator : Generator) (tier : Tier) (n m : Nat) (archive : Archive),
      generator.generateMany tier (n + m) archive =
        generator.generateInParts tier n m archive) ∧
    (∀ history history' kind tier n m, n ≤ m →
      (∀ all, ((opened source seed logs generators).after history).described kind tier m =
          .ok all →
        ((opened source seed logs generators).after history').described kind tier n =
          .ok (all.take n)) ∧
      (∀ fault, ((opened source seed logs generators).after history').described kind tier n =
          .error fault →
        ((opened source seed logs generators).after history).described kind tier m =
          .error fault) ∧
      (source.Readable →
        kind.AllFit kind.standardRecipe tier m ⟨.ofSource source, .seeded seed⟩ →
          ∃ all, ((opened source seed logs generators).after history).described kind tier m =
              .ok all ∧
            all.length = m)) := by
  have hopened : (opened source seed logs generators).session.Serves source seed logs :=
    Session.serves_start source seed logs
  refine ⟨?_, Generator.generateMany_eq_inParts, ?_⟩
  · intro history id fresh later
    have hserves := serves_perform (serves_after hopened history) (.reseed id fresh)
    rw [outputs_eq_replies hserves (Archive.faithful_ofSource source),
      generators_reseed_after, opened]
  · intro history history' kind tier n m hle
    have hserves := serves_after hopened history
    have hserves' := serves_after hopened history'
    exact ⟨fun all => Session.take_of_generate hserves hserves' hle,
      fun fault => Session.fault_of_generate hserves hserves' hle,
      Session.exists_generate hserves⟩

def Order.busy : List Order :=
  [.generate 0 .rare 2, .ask (.resolve "@items/gems:*"), .reseed 1 3, .generate 1 .common 1,
    .ask .invalidate]

theorem seed_determines_generation_gems :
    Documents.gems.source.Readable ∧
      (((opened Documents.gems.source 7 true fun _ => .standard .npc 1).after
          Order.busy).perform (.reseed 0 5)).outputs 0 (.generate 0 .epic 1 :: Order.busy) =
        (Generator.standard .npc 5).replies (.ofSource Documents.gems.source)
          [.generate .epic 1, .generate .rare 2] ∧
      ∃ all,
        ((opened Documents.gems.source 7 true fun _ => .standard .npc 1).after
          Order.busy).described .quest .rare 3 = .ok all ∧
        all.length = 3 ∧
        ((opened Documents.gems.source 7 true fun _ => .standard .npc 1).after
          []).described .quest .rare 2 = .ok (all.take 2) := by
  obtain ⟨hreseeded, _, hsessions⟩ :=
    seed_determines_generation Documents.gems.source 7 true fun _ => .standard .npc 1
  obtain ⟨htake, _, hexists⟩ := hsessions Order.busy [] .quest .rare 2 3 (by decide)
  have hreadable := Documents.source_readable Documents.gems
  have hfits : GeneratorKind.AllFit .quest GeneratorKind.quest.standardRecipe .rare 3
      ⟨.ofSource Documents.gems.source, .seeded 7⟩ := by
    intro made hmade hkind
    contradiction
  obtain ⟨all, hall, hlength⟩ := hexists hreadable hfits
  exact ⟨hreadable, hreseeded Order.busy 0 5 _, all, hall, hlength, htake all hall⟩

end Workshop
end GameCatalog
