import GameCatalog.Reference.Parser

/-!
# Diagnostics

A diagnostic says why a reference has no value.  A text that is no reference is an
error, a reference that leads nowhere a warning.
-/

namespace GameCatalog

inductive Severity where
  | warning
  | error
  deriving DecidableEq, Repr

namespace Severity

def text : Severity → String
  | warning => "warning"
  | error => "error"

def isBelow : Severity → Severity → Bool
  | warning, error => true
  | _, _ => false

end Severity

inductive DiagnosticKind where
  | malformed (message : String)
  | catalogNotFound (tried : List String)
  | itemNotFound (catalog : String) (category : Option String)
  | propertyNotFound (catalog property : String)
  | noCandidates (catalog : String)
  | invalidWeights (catalog message : String)
  deriving DecidableEq, Repr

namespace DiagnosticKind

def text : DiagnosticKind → String
  | malformed message => "syntax error: " ++ message
  | catalogNotFound tried => "no catalog found (tried " ++ Text.joined ", " tried ++ ")"
  | itemNotFound catalog _ => "item not found in " ++ catalog
  | propertyNotFound catalog property =>
      "property '" ++ property ++ "' not found on item in " ++ catalog
  | noCandidates catalog => "no candidates to draw from in " ++ catalog
  | invalidWeights catalog message => "cannot draw from " ++ catalog ++ ": " ++ message

end DiagnosticKind

structure Diagnostic where
  reference : String
  target : String
  source : Option String
  location : Option String
  kind : DiagnosticKind
  severity : Severity
  deriving DecidableEq, Repr

namespace Diagnostic

/-- A text that does not read as a reference. -/
def ofFlaw (text : String) (flaw : ReferenceFlaw) : Diagnostic where
  reference := text
  target := text
  source := none
  location := none
  kind := .malformed flaw.text
  severity := .error

/-- A reference that has no value. -/
def unresolved (text : String) (r : Reference) (kind : DiagnosticKind) : Diagnostic where
  reference := text
  target := r.target
  source := none
  location := none
  kind := kind
  severity := .warning

/-- A catalog that cannot be loaded. -/
def unloadable (key : String) : Diagnostic where
  reference := key
  target := key
  source := some key
  location := none
  kind := .catalogNotFound [key]
  severity := .error

def foundIn (diagnostic : Diagnostic) (source location : String) : Diagnostic :=
  { diagnostic with source := some source, location := some location }

def isError (diagnostic : Diagnostic) : Bool :=
  diagnostic.severity == .error

def place (diagnostic : Diagnostic) : String :=
  match diagnostic.source, diagnostic.location with
  | some source, some location => " (in " ++ source ++ " at " ++ location ++ ")"
  | some source, none => " (in " ++ source ++ ")"
  | none, some location => " (at " ++ location ++ ")"
  | none, none => ""

def text (diagnostic : Diagnostic) : String :=
  diagnostic.severity.text ++ ": " ++ diagnostic.target ++ ": " ++ diagnostic.kind.text ++
    diagnostic.place

end Diagnostic
end GameCatalog
