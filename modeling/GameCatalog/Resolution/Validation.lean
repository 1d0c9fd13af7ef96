import GameCatalog.Reference.Mention
import GameCatalog.Resolution.Resolver

/-!
# Validating documents

Every reference that a document mentions is checked without drawing.  Malformed
references are errors, references that lead nowhere are warnings, and optional
references are never reported.
-/

namespace GameCatalog

/-- What is wrong with the references of one catalog. -/
structure CatalogReport where
  key : CatalogKey
  diagnostics : List Diagnostic

namespace CatalogReport

def errorCount (report : CatalogReport) : Nat :=
  report.diagnostics.countP Diagnostic.isError

def warningCount (report : CatalogReport) : Nat :=
  report.diagnostics.length - report.errorCount

end CatalogReport

namespace Resolver

def isOptional (text : String) : Bool :=
  match Reference.parse text with
  | .ok r => r.optional
  | .error _ => false

/-- The diagnostics of mentions in turn, each with its source and location. -/
def validateMentions (logs : Bool) (source : String) : List Mention → ArchiveM (List Diagnostic)
  | [] => return []
  | mention :: rest => do
      let diagnostic ←
        if isOptional mention.text then pure none else check logs mention.text
      let others ← validateMentions logs source rest
      match diagnostic with
      | some diagnostic => return diagnostic.foundIn source mention.location :: others
      | none => return others

def validateDocument (logs : Bool) (source : String) (document : Json) :
    ArchiveM (List Diagnostic) :=
  validateMentions logs source (Mention.all document)

/-- A catalog that cannot be loaded gives one error. -/
def validateCatalog (logs : Bool) (key : CatalogKey) : ArchiveM (List Diagnostic) := do
  match ← ArchiveM.load key with
  | some catalog => validateDocument logs key.text catalog.document
  | none => return [Diagnostic.unloadable key.text]

def validateCatalogs (logs : Bool) : List CatalogKey → ArchiveM (List CatalogReport)
  | [] => return []
  | key :: rest => do
      let diagnostics ← validateCatalog logs key
      let others ← validateCatalogs logs rest
      return ⟨key, diagnostics⟩ :: others

/-- Validates every catalog that the source lists. -/
def validateAll (logs : Bool) : ArchiveM (List CatalogReport) := do
  validateCatalogs logs (← ArchiveM.sourceKeys)

end Resolver
end GameCatalog
