import GameCatalog.Explorer.DrawTable
import GameCatalog.Generation.Generator
import GameCatalog.Resolution.Validation

/-!
# Sessions

A session keeps one archive and one stream for all that is asked of it: resolving,
checking, drawing, validating and generating.  Generators do not share the stream;
each starts its own from the session's seed.
-/

namespace GameCatalog

structure Session where
  archive : Archive
  stream : RandomStream
  seed : UInt64
  logs : Bool

/-- Computations of a session, which may meet a fault. -/
abbrev SessionM := ExceptT Fault (StateM Session)

namespace SessionM

def draw {α : Type} (action : DrawM α) : SessionM α :=
  fun session =>
    let (result, state) := action ⟨session.archive, session.stream⟩
    (result, { session with archive := state.archive, stream := state.stream })

def consult {α : Type} (action : ArchiveM α) : SessionM α :=
  fun session =>
    let (result, archive) := action session.archive
    (result, { session with archive := archive })

end SessionM

namespace Session

/-- A session over a source that has done nothing yet. -/
def start (source : Source) (seed : UInt64) (logs : Bool) : Session where
  archive := .ofSource source
  stream := .seeded seed
  seed := seed
  logs := logs

def withSource (session : Session) (source : Source) : Session :=
  { session with archive := session.archive.withSource source }

def reseed (session : Session) (seed : UInt64) : Session :=
  { session with stream := .seeded seed }

def resolve (text : String) : SessionM Resolution := do
  let session ← get
  SessionM.draw (Resolver.resolve session.logs text)

def check (text : String) : SessionM (Option Diagnostic) := do
  let session ← get
  SessionM.consult (Resolver.check session.logs text)

def candidates (text : String) : SessionM (Option (List Item)) :=
  SessionM.consult (Resolver.candidates text)

/-- Resolves the text over and over and counts each value at the first candidate of
its name. -/
def tally (items : List Item) (text : String) : Nat → List Nat → SessionM (List Nat)
  | 0, counts => return counts
  | count + 1, counts => do
      let resolution ← resolve text
      let place := resolution.value.bind fun finding =>
        items.findIdx? fun item => item.name == finding.item.name
      match place with
      | some i => tally items text count (counts.modify i (· + 1))
      | none => tally items text count counts

def rows (items : List Item) (counts : List Nat) (shares : List Float) : List DrawRow :=
  (items.zip (counts.zip shares)).map fun (item, count, share) => ⟨item.label, count, share⟩

/-- Draws a wildcard reference `count` times.  An optional reference with nothing to
draw gives an empty table. -/
def draw (text : String) (count : Nat) : SessionM DrawOutcome := do
  match Reference.parse text with
  | .error flaw => return .unresolved (.ofFlaw text flaw)
  | .ok r =>
      if !r.isWildcard then
        throw (.invalidReference text "draw needs a `*` item selector")
      match ← check text with
      | some diagnostic => return .unresolved diagnostic
      | none =>
          let items := (← candidates text).getD []
          match Rarity.probabilities Float (items.map Item.weight) with
          | .error _ => return .drawn ⟨text, 0, []⟩
          | .ok shares =>
              let counts ← tally items text count (List.replicate items.length 0)
              return .drawn ⟨text, count, rows items counts shares⟩

/-- Validates the named catalogs, or all of them if none is named. -/
def validate (keys : List CatalogKey) : SessionM (List CatalogReport) := do
  let session ← get
  SessionM.consult
    (if keys.isEmpty then Resolver.validateAll session.logs
     else Resolver.validateCatalogs session.logs keys)

/-- Describes entities from a fresh standard generator of the kind. -/
def generate (kind : GeneratorKind) (tier : Tier) (count : Nat) : SessionM (List String) :=
  fun session =>
    let generator := Generator.standard kind session.seed
    let (entities, _, archive) := generator.generateMany tier count session.archive
    (entities.map (List.map Entity.describe), { session with archive := archive })

def invalidate (session : Session) : Session :=
  { session with archive := session.archive.invalidate }

/-- The start of a reference into each catalog that the source lists. -/
def prefixesOf (keys : List CatalogKey) : List String :=
  keys.map fun key => "@" ++ key.text ++ ":"

def catalogPrefixes : SessionM (List String) := do
  return prefixesOf (← SessionM.consult ArchiveM.sourceKeys)

end Session
end GameCatalog
