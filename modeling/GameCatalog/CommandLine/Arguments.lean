import GameCatalog.Explorer.Command

/-!
# Arguments of the command line

Arguments are options, which start with a dash, and words, the first of which names what
to do.  Some options stand before or after that word, and the later place wins; others
belong to what is done.  An option stands at most once in each place, and no value of an
option starts with a dash, unless it is a dash alone.  After `--` there are only words.
-/

namespace GameCatalog

/-- What the command line asks for. -/
inductive Task where
  | resolve (references : List String)
  | draw (reference : String) (count : Nat)
  | validate (catalogs : List String) (strict : Bool)
  | generate (kind : GeneratorKind) (tier : Tier) (count : Nat)
  | explore
  deriving DecidableEq, Repr

structure Invocation where
  config : Option String
  dataRoot : Option String
  seed : Option UInt64
  verbosity : Nat
  task : Task
  deriving DecidableEq, Repr

/-- Why arguments do not say what to do. -/
inductive Refusal where
  | misuse
  | helpAsked
  | versionAsked
  deriving DecidableEq, Repr

namespace CommandLine

inductive OptionName where
  | config
  | dataRoot
  | seed
  | verbose
  | help
  | version
  | count
  | tier
  | strict
  deriving DecidableEq, Repr

/-- The place of an argument: before the first word, or after the word that names what to
do. -/
inductive Place where
  | top
  | resolve
  | draw
  | validate
  | generate
  | explore
  deriving DecidableEq, Repr

namespace OptionName

def long : OptionName → List Char
  | config => "config".toList
  | dataRoot => "data-root".toList
  | seed => "seed".toList
  | verbose => "verbose".toList
  | help => "help".toList
  | version => "version".toList
  | count => "count".toList
  | tier => "tier".toList
  | strict => "strict".toList

def short? (place : Place) : OptionName → Option Char
  | verbose => some 'v'
  | help => some 'h'
  | version => some 'V'
  | tier => some 't'
  | count => if place = .draw then some 'c' else some 'n'
  | _ => none

def takesValue : OptionName → Bool
  | config => true
  | dataRoot => true
  | seed => true
  | count => true
  | tier => true
  | _ => false

end OptionName

namespace Place

/-- The options that may stand in every place. -/
def commonOptions : List OptionName := [.config, .dataRoot, .seed, .verbose, .help]

/-- The options that may stand in a place. -/
def options : Place → List OptionName
  | top => commonOptions ++ [.version]
  | draw => commonOptions ++ [.count]
  | validate => commonOptions ++ [.strict]
  | generate => commonOptions ++ [.tier, .count]
  | _ => commonOptions

def named? : String → Option Place
  | "resolve" => some resolve
  | "draw" => some draw
  | "validate" => some validate
  | "generate" => some generate
  | "repl" => some explore
  | _ => none

end Place

/-- What the arguments in one place have said so far. -/
structure Given where
  config : Option String
  dataRoot : Option String
  seed : Option UInt64
  verbosity : Nat
  count : Option Nat
  tier : Option Tier
  strict : Bool
  words : List String

namespace Given

def nothing : Given := ⟨none, none, none, 0, none, none, false, []⟩

/-- A value that is given for the first time and can be read. -/
def once {α : Type} : Option α → Option α → Except Refusal (Option α)
  | none, some value => .ok (some value)
  | _, _ => .error .misuse

def path? (text : String) : Option String :=
  if text.isEmpty then none else some text

def number? (text : String) : Option Nat :=
  Number.unsigned? Number.maxWord64 text.toList

/-- Takes an option with its value; options without one are given the empty text. -/
def take (given : Given) (name : OptionName) (value : String) : Except Refusal Given :=
  match name with
  | .config => do return { given with config := ← once given.config (path? value) }
  | .dataRoot => do return { given with dataRoot := ← once given.dataRoot (path? value) }
  | .seed => do
      return { given with seed := ← once given.seed ((number? value).map UInt64.ofNat) }
  | .count => do return { given with count := ← once given.count (number? value) }
  | .tier => do return { given with tier := ← once given.tier (Tier.parse value).toOption }
  | .verbose => return { given with verbosity := given.verbosity + 1 }
  | .strict => if given.strict then .error .misuse else return { given with strict := true }
  | .help => .error .helpAsked
  | .version => .error .versionAsked

/-- Takes a word, if the place has room for one more. -/
def takeWord (given : Given) (place : Place) (word : String) : Except Refusal Given :=
  let room :=
    match place with
    | .resolve => true
    | .validate => true
    | .draw => given.words.isEmpty
    | .generate => given.words.isEmpty && (GeneratorKind.named? word).isSome
    | .explore => false
    | .top => false
  if room then .ok { given with words := given.words ++ [word] } else .error .misuse

def takeWords (given : Given) (place : Place) : List String → Except Refusal Given
  | [] => .ok given
  | word :: rest => do
      let given ← given.takeWord place word
      given.takeWords place rest

end Given

/-- An argument that is no word: one that starts with a dash and is not a dash alone. -/
def isOption (argument : List Char) : Bool :=
  argument.head? == some '-' && argument.length != 1

def option? (names : List OptionName) (p : OptionName → Bool) : Except Refusal OptionName :=
  match names.find? p with
  | some name => .ok name
  | none => .error .misuse

/-- Options of one letter in one argument.  The rest of the argument is the value of the
first of them that takes one; if nothing is left, that option still lacks its value. -/
def takeLetters (place : Place) : Given → List Char → Except Refusal (Given × Option OptionName)
  | given, [] => .ok (given, none)
  | given, letter :: rest => do
      let name ← option? place.options fun name => name.short? place == some letter
      if name.takesValue then
        match rest with
        | [] => return (given, some name)
        | '=' :: value => return (← given.take name (String.ofList value), none)
        | value => return (← given.take name (String.ofList value), none)
      else
        let given ← given.take name ""
        takeLetters place given rest

/-- An option of more letters, perhaps with an equals sign and a value. -/
def takeLong (place : Place) (given : Given) (text : List Char) :
    Except Refusal (Given × Option OptionName) := do
  let (long, value) :=
    match Text.cutFirst? (· == '=') text with
    | some (long, value) => (long, some value)
    | none => (text, none)
  let name ← option? place.options fun name => name.long == long
  match value, name.takesValue with
  | some value, true => return (← given.take name (String.ofList value), none)
  | none, true => return (given, some name)
  | none, false => return (← given.take name "", none)
  | some _, false => .error .misuse

/-- One argument that starts with a dash, and the option that still lacks its value. -/
def takeOption (place : Place) (given : Given) (argument : List Char) :
    Except Refusal (Given × Option OptionName) :=
  match argument with
  | '-' :: '-' :: text => takeLong place given text
  | '-' :: letters => takeLetters place given letters
  | _ => .error .misuse

/-- Reads the arguments of a place.  Before the first word reading ends at that word. -/
def read (place : Place) : Given → List String → Except Refusal (Given × List String)
  | given, [] => .ok (given, [])
  | given, argument :: rest =>
      if argument = "--" then do
        let given ← given.takeWords place rest
        return (given, [])
      else if isOption argument.toList then
        match takeOption place given argument.toList with
        | .error refusal => .error refusal
        | .ok (given, none) => read place given rest
        | .ok (given, some name) =>
            match rest with
            | [] => .error .misuse
            | value :: rest =>
                if isOption value.toList then .error .misuse
                else
                  match given.take name value with
                  | .ok given => read place given rest
                  | .error refusal => .error refusal
      else if place = .top then .ok (given, argument :: rest)
      else
        match given.takeWord place argument with
        | .ok given => read place given rest
        | .error refusal => .error refusal

/-- The task that what was given after its name describes. -/
def task (place : Place) (given : Given) : Except Refusal Task :=
  match place, given.words with
  | .resolve, reference :: others => .ok (.resolve (reference :: others))
  | .draw, [reference] => .ok (.draw reference (given.count.getD Command.defaultDraws))
  | .validate, catalogs => .ok (.validate catalogs given.strict)
  | .generate, [word] =>
      match GeneratorKind.named? word with
      | some kind => .ok (.generate kind (given.tier.getD .common) (given.count.getD 1))
      | none => .error .misuse
  | .explore, [] => .ok .explore
  | _, _ => .error .misuse

/-- The words after `help` may name one thing that can be done. -/
def help (words : List String) : Refusal :=
  match words with
  | [] => .helpAsked
  | [word] =>
      if word = "help" || (Place.named? word).isSome then .helpAsked else .misuse
  | _ => .misuse

def parse (arguments : List String) : Except Refusal Invocation := do
  let (before, rest) ← read .top .nothing arguments
  match rest with
  | [] => .error .misuse
  | word :: rest =>
      match Place.named? word with
      | none => .error (if word = "help" then help rest else .misuse)
      | some place =>
          let (after, _) ← read place .nothing rest
          let task ← task place after
          return {
            config := after.config.or before.config
            dataRoot := after.dataRoot.or before.dataRoot
            seed := after.seed.or before.seed
            verbosity := before.verbosity + after.verbosity
            task := task }

end CommandLine
end GameCatalog
