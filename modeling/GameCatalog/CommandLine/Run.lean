import GameCatalog.CommandLine.Arguments
import GameCatalog.Explorer.Conversation
import GameCatalog.Settings.Basic

/-!
# Running the command line

A run says what is written and with which code the program ends: zero if all went well,
one for a fault or an unresolved reference, two for misuse.  What was written before a
fault stays written.
-/

namespace GameCatalog

structure Outcome where
  code : Nat
  outputs : List Output

/-- Where a program is started: the disk, the data root that the environment asks for, the
seed to draw from if none is given, and the input. -/
structure Surroundings where
  disk : Disk
  dataRoot : Option String
  seed : UInt64
  input : ByteArray

namespace Outcome

def ofFault (fault : Fault) : Outcome where
  code := 1
  outputs := [.ofFault fault]

def codeOf (good : Bool) : Nat :=
  if good then 0 else 1

def orFault {α : Type} (f : α → Outcome) : Except Fault α → Outcome
  | .ok a => f a
  | .error fault => ofFault fault

end Outcome

namespace CommandLine

/-- The file of settings that is read if none is named. -/
def settingsFile : String := "realmforge.toml"

def readSettings (disk : Disk) (path : String) : Except Fault Settings :=
  match disk.read path with
  | .error cause => .error (.unreadable path cause.message)
  | .ok bytes =>
      match String.fromUTF8? bytes with
      | some document => Settings.parse document
      | none => .error (.unreadable path "stream did not contain valid UTF-8")

/-- The settings of the named file, or of the standard one if there is such a file. -/
def loadSettings (disk : Disk) (config : Option String) : Except Fault Settings :=
  match config with
  | some path => readSettings disk path
  | none => if disk.isFile settingsFile then readSettings disk settingsFile else .ok .standard

/-- The settings that hold for an invocation: the environment overrides the file, and the
arguments override both. -/
def settings (invocation : Invocation) (disk : Disk) (dataRoot : Option String) :
    Except Fault Settings :=
  (loadSettings disk invocation.config).map fun settings =>
    ((settings.overrideRoot dataRoot).overrideRoot invocation.dataRoot).overrideSeed
      invocation.seed

def resolved (text : String) (resolution : Resolution) : Output :=
  match resolution.diagnostic with
  | some diagnostic => .errorLine diagnostic.text
  | none => .standardLine (text ++ "\n" ++ resolution.answer)

/-- Resolves texts in turn up to a fault; good if every one gave no diagnostic. -/
def resolveEach : List String → Session → List Output × Bool
  | [], _ => ([], true)
  | text :: rest, session =>
      match session.resolve text with
      | (.error fault, _) => ([.ofFault fault], false)
      | (.ok resolution, session) =>
          let (outputs, good) := resolveEach rest session
          (resolved text resolution :: outputs, resolution.diagnostic.isNone && good)

def drawn : DrawOutcome → Outcome
  | .drawn table => ⟨0, [.standard table.text]⟩
  | .unresolved diagnostic => ⟨1, [.errorLine diagnostic.text]⟩

def total : List Nat → Nat
  | [] => 0
  | n :: rest => n + total rest

def reportLines (reports : List CatalogReport) : List Output :=
  (reports.flatMap CatalogReport.diagnostics).map fun d => .standardLine d.text

/-- All diagnostics and a summary.  Errors always fail a validation, warnings only a
strict one. -/
def validated (strict : Bool) (reports : List CatalogReport) : Outcome :=
  let errors := total (reports.map CatalogReport.errorCount)
  let warnings := total (reports.map CatalogReport.warningCount)
  let count (n : Nat) := Number.intText n
  let summary :=
    count reports.length ++ " catalogs checked: " ++ count errors ++ " errors, " ++
      count warnings ++ " warnings"
  ⟨Outcome.codeOf (errors == 0 && !(strict && warnings != 0)),
    reportLines reports ++ [.standardLine summary]⟩

def generated (descriptions : List String) : Outcome :=
  ⟨0, descriptions.map fun text => .standardLine (text ++ "\n")⟩

def conversed (conversation : Conversation) : Outcome :=
  match conversation.fault with
  | none => ⟨0, conversation.outputs⟩
  | some fault => ⟨1, conversation.outputs ++ [.ofFault fault]⟩

/-- Performs a task in a session; only the explorer reads the input. -/
def perform (task : Task) (input : ByteArray) (session : Session) : Outcome :=
  match task with
  | .resolve references =>
      let (outputs, good) := resolveEach references session
      ⟨Outcome.codeOf good, outputs⟩
  | .draw reference count => Outcome.orFault drawn (session.draw reference count).1
  | .validate catalogs strict =>
      match catalogs.mapM CatalogKey.parse with
      | .ok keys => Outcome.orFault (validated strict) (session.validate keys).1
      | .error fault => .ofFault fault
  | .generate kind tier count =>
      Outcome.orFault generated (session.generate kind tier count).1
  | .explore =>
      let outcome := conversed (Conversation.hold (Lines.intake input) session).1
      { outcome with outputs := Conversation.banner ++ outcome.outputs }

def usage : String :=
  Text.joined "\n" [
    "Usage: realmforge [OPTIONS] <COMMAND>",
    "",
    "Commands:",
    "  resolve REF...           resolve references and print their values",
    "  draw REF                 draw a wildcard reference and tabulate the results",
    "  validate [DOMAIN/PATH]   check every reference embedded in catalogs",
    "  generate KIND            generate item, npc, quest, or enemy",
    "  repl                     start the interactive explorer"]

/-- What is written if the arguments do not say what to do. -/
def refused : Refusal → Outcome
  | .misuse => ⟨2, [.errorLine usage]⟩
  | .helpAsked => ⟨0, [.standardLine usage]⟩
  | .versionAsked => ⟨0, [.standardLine ("realmforge " ++ Conversation.version)]⟩

def runInvocation (invocation : Invocation) (surroundings : Surroundings) : Outcome :=
  match settings invocation surroundings.disk surroundings.dataRoot with
  | .error fault => .ofFault fault
  | .ok settings =>
      perform invocation.task surroundings.input
        (settings.session surroundings.disk surroundings.seed)

def run (arguments : List String) (surroundings : Surroundings) : Outcome :=
  match parse arguments with
  | .error refusal => refused refusal
  | .ok invocation => runInvocation invocation surroundings

end CommandLine
end GameCatalog
