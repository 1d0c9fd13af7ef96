import GameCatalog.Generation.Generator

/-!
# Commands of the explorer

A line that starts with a colon is a command, its name running to the first blank; any
other line is a text to resolve.  Blanks around a line and around what follows a name do
not count.
-/

namespace GameCatalog

inductive Command where
  | resolve (text : String)
  | check (reference : String)
  | draw (reference : String) (count : Nat)
  | generate (kind : GeneratorKind) (tier : Tier) (count : Nat)
  | invalidate
  | stats
  | help
  | quit
  deriving DecidableEq, Repr

namespace Command

/-- How often a reference is drawn if the line does not say. -/
def defaultDraws : Nat := 1000

/-- A count is an unsigned 64-bit number. -/
def count? (word : List Char) : Option Nat :=
  Number.unsigned? Number.maxWord64 word

/-- What follows a command that needs a reference. -/
def required (name : String) (rest : List Char) : Except Fault (List Char) :=
  if rest.isEmpty then .error (.misconfigured (":" ++ name ++ " needs a reference")) else .ok rest

/-- A reference and a count.  Items have names with blanks, so only a last word that
reads as a count is one. -/
def drawArguments (text : List Char) : List Char × Nat :=
  match Text.cutLast? Text.isBlank text with
  | some (reference, word) =>
      match count? word with
      | some count => (Text.trim reference, count)
      | none => (text, defaultDraws)
  | none => (text, defaultDraws)

/-- The tier and count that words in any order ask for; of each the last word counts. -/
def tierAndCount : Tier × Nat → List (List Char) → Except Fault (Tier × Nat)
  | chosen, [] => .ok chosen
  | (tier, count), word :: rest =>
      match count? word with
      | some count => tierAndCount (tier, count) rest
      | none =>
          match Tier.parse (String.ofList word) with
          | .ok tier => tierAndCount (tier, count) rest
          | .error fault => .error fault

def generateArguments : List (List Char) → Except Fault Command
  | [] => .error (.misconfigured ":generate needs a kind")
  | word :: rest => do
      let kind ← GeneratorKind.parse (String.ofList word)
      let (tier, count) ← tierAndCount (.common, 1) rest
      return .generate kind tier count

/-- The command of that name with the arguments that follow it. -/
def named (name : String) (rest : List Char) : Except Fault Command :=
  match name with
  | "check" | "c" => (required "check" rest).map fun text => .check (String.ofList text)
  | "draw" | "d" =>
      (required "draw" rest).map fun text =>
        let (reference, count) := drawArguments text
        .draw (String.ofList reference) count
  | "generate" | "g" => generateArguments (Text.words rest)
  | "invalidate" => .ok .invalidate
  | "stats" => .ok .stats
  | "help" | "h" => .ok .help
  | "quit" | "q" | "exit" => .ok .quit
  | _ => .error (.misconfigured ("unknown command :" ++ name ++ " (try :help)"))

def parse (line : String) : Except Fault Command :=
  match Text.trim line.toList with
  | ':' :: text =>
      let (name, rest) := (Text.cutFirst? Text.isBlank text).getD (text, [])
      named (String.ofList name) (Text.trim rest)
  | text => .ok (.resolve (String.ofList text))

def helpText : String :=
  Text.joined "\n" [
    "@domain/path:item[.prop]   resolve a reference",
    ":check REF                 report whether REF resolves, without drawing",
    ":draw REF [N]              draw a wildcard N times and tabulate",
    ":generate KIND [TIER] [N]  generate item, npc, quest, or enemy",
    ":invalidate                drop cached catalogs",
    ":stats                     catalog cache counters",
    ":quit                      leave"]

end Command
end GameCatalog
