import GameCatalog.Number.Numeral
import GameCatalog.Text.Blank

/-!
# Log levels

The more often more words are asked for, the more is logged; if they are not asked for,
the settings decide.
-/

namespace GameCatalog

inductive LogLevel where
  | off
  | error
  | warn
  | info
  | debug
  | trace
  deriving DecidableEq, Repr

namespace LogLevel

/-- All levels, from the quietest to the loudest. -/
def all : List LogLevel := [off, error, warn, info, debug, trace]

def name : LogLevel → String
  | off => "off"
  | error => "error"
  | warn => "warn"
  | info => "info"
  | debug => "debug"
  | trace => "trace"

/-- The level at that place among all levels or of that name in any case; the empty text
stands for errors alone. -/
def parse? (text : String) : Option LogLevel :=
  match Number.unsigned? Number.maxWord64 text.toList with
  | some place => all[place]?
  | none =>
      if text.isEmpty then some error
      else all.find? fun level => Text.sameIgnoringCase level.name text

/-- The level for how often more words were asked for and for what the settings say. -/
def choose (verbosity : Nat) (configured : Option String) : LogLevel :=
  match verbosity with
  | 0 => (configured.bind parse?).getD warn
  | 1 => info
  | _ => debug

end LogLevel
end GameCatalog
