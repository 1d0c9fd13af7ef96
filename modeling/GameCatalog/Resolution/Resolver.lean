import GameCatalog.Archive
import GameCatalog.Random.Stream
import GameCatalog.Rarity
import GameCatalog.Resolution.Diagnostic

/-!
# Resolving references

A reference is resolved in three steps.  The search loads the longest prefix of its
steps that is the key of a usable catalog; what is left selects items in that catalog.
The prospect says what the reference can lead to there: nothing, one item, or a draw
among several.  Only a draw takes a random number.  Last, the chain of properties is
followed into the item.
-/

namespace GameCatalog

/-- Follows names through nested objects. -/
def Json.property? (json : Json) : List String → Option Json
  | [] => some json
  | name :: rest => (json.get? name).bind fun value => value.property? rest

structure Finding where
  catalog : CatalogKey
  item : Item
  value : Json

structure Resolution where
  value : Option Finding
  diagnostic : Option Diagnostic

namespace Resolution

def nothing : Resolution := ⟨none, none⟩

end Resolution

/-- Where the search for a reference's catalog ended. -/
inductive Search where
  | found (catalog : Catalog) (leftover : List String)
  | missing (tried : List String)

namespace Search

def after (key : CatalogKey) : Search → Search
  | found catalog leftover => found catalog leftover
  | missing tried => missing (key.text :: tried)

/-- Tries the first `split` steps as a key, then ever fewer. -/
def downFrom (domain : String) (steps : List String) : Nat → ArchiveM Search
  | 0 => do
      let key := CatalogKey.ofSegments domain []
      match ← ArchiveM.load key with
      | some catalog => return found catalog steps
      | none => return missing [key.text]
  | split + 1 => do
      let key := CatalogKey.ofSegments domain (steps.take (split + 1))
      match ← ArchiveM.load key with
      | some catalog => return found catalog (steps.drop (split + 1))
      | none => return (← Search.downFrom domain steps split).after key

def forReference (r : Reference) : ArchiveM Search :=
  Search.downFrom r.domain r.steps r.steps.length

end Search

/-- What a reference can lead to, before any draw. -/
inductive Prospect where
  | failed (kind : DiagnosticKind)
  | certain (catalog : Catalog) (item : Item)
  | lottery (catalog : Catalog) (items : List Item) (shares : List Float)

namespace Reference

def categoryText? (leftover : List String) : Option String :=
  if leftover.isEmpty then none else some (Text.joined "/" leftover)

def prospectIn (r : Reference) (catalog : Catalog) (leftover : List String) : Prospect :=
  match r.item with
  | .wildcard =>
      let items := catalog.shape.candidates leftover
      if items.isEmpty then .failed (.noCandidates catalog.key.text)
      else
        match Rarity.probabilities Float (items.map Item.weight) with
        | .ok shares => .lottery catalog items shares
        | .error fault => .failed (.invalidWeights catalog.key.text fault.message)
  | .named name =>
      match catalog.shape.locate leftover name with
      | some item => .certain catalog item
      | none => .failed (.itemNotFound catalog.key.text (categoryText? leftover))

def prospect (r : Reference) : Search → Prospect
  | .found catalog leftover => r.prospectIn catalog leftover
  | .missing tried => .failed (.catalogNotFound tried)

/-- Follows the chain of properties into an item. -/
def follow (r : Reference) (catalog : Catalog) (item : Item) : Except DiagnosticKind Finding :=
  match item.raw.property? r.property with
  | some value => .ok ⟨catalog.key, item, value⟩
  | none => .error (.propertyNotFound catalog.key.text (Text.joined "." r.property))

/-- The outcome of a draw for a roll. -/
def drawn (r : Reference) (catalog : Catalog) (items : List Item) (shares : List Float)
    (roll : Float) : Except DiagnosticKind Finding :=
  match items[Rarity.pickIndex shares roll]? with
  | some item => r.follow catalog item
  | none => .error (.noCandidates catalog.key.text)

/-- An optional reference without a value gives no diagnostic. -/
def settle (r : Reference) (text : String) : Except DiagnosticKind Finding → Resolution
  | .ok finding => ⟨some finding, none⟩
  | .error kind => ⟨none, if r.optional then none else some (.unresolved text r kind)⟩

end Reference

/-- The archive, and the stream that draws take their numbers from. -/
structure DrawState where
  archive : Archive
  stream : RandomStream

/-- Computations that consult the archive and draw. -/
abbrev DrawM := ExceptT Fault (StateM DrawState)

namespace DrawM

def consult {α : Type} (action : ArchiveM α) : DrawM α :=
  fun state =>
    let (result, archive) := action state.archive
    (result, { state with archive := archive })

instance : MonadLift ArchiveM DrawM := ⟨consult⟩

/-- A random number from zero up to one. -/
def unit : DrawM Float :=
  fun state =>
    let (roll, stream) := state.stream.unit
    (.ok roll, { state with stream := stream })

/-- A whole number from `low` to `high`; an empty range is a trap.  A draw that has no end
does not come back, so no run gets to the last case, and `low` only fills its place. -/
def between (low high : Int) : DrawM Int :=
  if high < low then throw (.trapped .emptyRange)
  else fun state =>
    match state.stream.between? low high with
    | some (n, stream) => (.ok n, { state with stream := stream })
    | none => (.ok low, state)

end DrawM

namespace Resolver

/-- Logs a diagnostic as a warning if diagnostics are logged. -/
def report (logs : Bool) (diagnostic : Option Diagnostic) : ArchiveM Unit :=
  ArchiveM.warn (if logs && diagnostic.isSome then 1 else 0)

/-- The outcome of a prospect; only a draw takes a random number. -/
def outcome (r : Reference) : Prospect → DrawM (Except DiagnosticKind Finding)
  | .failed kind => return .error kind
  | .certain catalog item => return r.follow catalog item
  | .lottery catalog items shares => do
      let roll ← DrawM.unit
      return r.drawn catalog items shares roll

/-- The value of a reference, or why it has none. -/
def resolve (logs : Bool) (text : String) : DrawM Resolution := do
  match Reference.parse text with
  | .error flaw =>
      let diagnostic := Diagnostic.ofFlaw text flaw
      report logs (some diagnostic)
      return ⟨none, some diagnostic⟩
  | .ok r =>
      let search ← Search.forReference r
      let result ← outcome r (r.prospect search)
      let resolution := r.settle text result
      report logs resolution.diagnostic
      return resolution

/-- What a prospect says without a draw; a draw that could be made is no failure. -/
def foreseen (r : Reference) (text : String) : Prospect → Resolution
  | .failed kind => r.settle text (.error kind)
  | .certain catalog item => r.settle text (r.follow catalog item)
  | .lottery .. => .nothing

/-- The diagnostic that resolving would give, found without drawing. -/
def check (logs : Bool) (text : String) : ArchiveM (Option Diagnostic) := do
  match Reference.parse text with
  | .error flaw =>
      let diagnostic := Diagnostic.ofFlaw text flaw
      report logs (some diagnostic)
      return some diagnostic
  | .ok r =>
      let search ← Search.forReference r
      let diagnostic := (foreseen r text (r.prospect search)).diagnostic
      report logs diagnostic
      return diagnostic

/-- The items that a reference selects from, whatever item it names; none if it does
not read as a reference or has no catalog. -/
def candidates (text : String) : ArchiveM (Option (List Item)) := do
  match Reference.parse text with
  | .error _ => return none
  | .ok r =>
      match ← Search.forReference r with
      | .found catalog leftover => return some (catalog.shape.candidates leftover)
      | .missing _ => return none

end Resolver
end GameCatalog
