import GameCatalog.Explorer.Command
import GameCatalog.Explorer.Session
import GameCatalog.Json.Printer

/-!
# Answers to commands

Every command has an answer in text and leaves the session ready for the next one.
-/

namespace GameCatalog

/-- A value as indented JSON; an optional reference without a value is unresolved. -/
def Resolution.answer (resolution : Resolution) : String :=
  match resolution.diagnostic, resolution.value with
  | some diagnostic, _ => diagnostic.text
  | none, some finding => finding.value.renderIndented
  | none, none => "(unresolved)"

def DrawOutcome.answer : DrawOutcome → String
  | drawn table => String.ofList (Text.dropEndWhile Text.isBlank table.text.toList)
  | unresolved diagnostic => diagnostic.text

/-- What the archive keeps and has counted, on one line. -/
def Archive.stats (archive : Archive) : String :=
  let count (n : Nat) := Number.intText n
  Text.joined " | " [
    "cached " ++ count archive.cachedKeys.length,
    "hits " ++ count archive.hits,
    "misses " ++ count archive.misses,
    "loads " ++ count archive.loads,
    "parse failures " ++ count archive.parseFailures,
    "hit rate " ++ Number.fixedText 1 (archive.hitRate * 100.0) ++ "%"]

namespace Session

def answer : Command → SessionM String
  | .resolve text => return (← resolve text).answer
  | .check reference => return (← check reference).elim "ok" Diagnostic.text
  | .draw reference count => return (← draw reference count).answer
  | .generate kind tier count => return Text.joined "\n\n" (← generate kind tier count)
  | .invalidate => do
      modify invalidate
      return "catalog cache cleared"
  | .stats => return (← get).archive.stats
  | .help => return Command.helpText
  | .quit => return ""

/-- The answers to commands in turn; a fault is the answer to its command and does not
keep the next one from being answered. -/
def answers : List Command → Session → List (Except Fault String) × Session
  | [], session => ([], session)
  | command :: rest, session =>
      let (first, session) := answer command session
      let (others, session) := answers rest session
      (first :: others, session)

end Session
end GameCatalog
