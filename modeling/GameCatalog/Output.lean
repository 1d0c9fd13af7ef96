import GameCatalog.Fault

/-!
# Output

What a program writes is a list of texts, each for the standard output or for the error
output, in the order in which they are written.
-/

namespace GameCatalog

inductive Output where
  | standard (text : String)
  | error (text : String)
  deriving DecidableEq, Repr

namespace Output

def standardLine (text : String) : Output :=
  standard (text ++ "\n")

def errorLine (text : String) : Output :=
  error (text ++ "\n")

/-- A fault is reported in red. -/
def ofFault (fault : Fault) : Output :=
  errorLine ("\x1b[31mError: " ++ fault.message ++ "\x1b[0m")

/-- All that goes to the standard output. -/
def standardText (outputs : List Output) : String :=
  String.join (outputs.map fun output =>
    match output with
    | standard text => text
    | error _ => "")

/-- All that goes to the error output. -/
def errorText (outputs : List Output) : String :=
  String.join (outputs.map fun output =>
    match output with
    | standard _ => ""
    | error text => text)

end Output
end GameCatalog
