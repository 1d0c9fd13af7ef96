import GameCatalog.Explorer.Session
import GameCatalog.Settings.Document

/-!
# Settings

Settings say where the catalogs are, what their files are called, from which seed to
draw and how much to log.  They have defaults, a document can set them, and the data
root and the seed can be overridden.
-/

namespace GameCatalog

structure Settings where
  dataRoot : String
  catalogFile : String
  seed : Option UInt64
  logLevel : Option String
  deriving DecidableEq, Repr

namespace Settings

def standard : Settings where
  dataRoot := "data"
  catalogFile := Folder.defaultFileName
  seed := none
  logLevel := none

/-- The settings with one entry set; none if the key is unknown or the value does not
suit it. -/
def set? (settings : Settings) (entry : SettingEntry) : Option Settings :=
  match entry.key, entry.value with
  | "data_root", .text path => some { settings with dataRoot := path }
  | "catalog_file", .text name => some { settings with catalogFile := name }
  | "seed", .number n =>
      if 0 ≤ n then some { settings with seed := some (UInt64.ofNat n.toNat) } else none
  | "log_level", .text level => some { settings with logLevel := some level }
  | _, _ => none

def keysDiffer : List SettingEntry → Bool
  | [] => true
  | entry :: rest => rest.all (fun other => other.key != entry.key) && keysDiffer rest

/-- The settings of entries, every key of which stands once. -/
def ofEntries? (entries : List SettingEntry) : Option Settings :=
  if keysDiffer entries then entries.foldlM set? standard else none

def malformed : Fault :=
  .misconfigured "TOML parse error: not a document of settings"

def parse (document : String) : Except Fault Settings :=
  match (SettingEntry.parseAll? document).bind ofEntries? with
  | some settings => .ok settings
  | none => .error malformed

/-- Takes another data root, unless it is missing or empty. -/
def overrideRoot (settings : Settings) (root : Option String) : Settings :=
  match root with
  | some root => if root.isEmpty then settings else { settings with dataRoot := root }
  | none => settings

def overrideSeed (settings : Settings) (seed : Option UInt64) : Settings :=
  match seed with
  | some seed => { settings with seed := some seed }
  | none => settings

def folder (settings : Settings) (disk : Disk) : Folder where
  root := settings.dataRoot
  fileName := settings.catalogFile
  disk := disk

/-- A session over the catalogs on a disk, which draws from the given seed if the
settings have none. -/
def session (settings : Settings) (disk : Disk) (seed : UInt64) : Session :=
  Session.start (settings.folder disk).source (settings.seed.getD seed) true

end Settings
end GameCatalog
