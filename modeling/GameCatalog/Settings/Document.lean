import GameCatalog.Number.Numeral
import GameCatalog.Text.Blank

/-!
# Documents of settings

A document of settings is TOML without tables: lines that give a text or a whole number
to a key, blank lines and comments.  Texts are quoted singly or doubly, and tripled
quotes let them run over lines.  A key with dots, a table, a list and a value of any
other kind have no place among settings, so a document with one is malformed.  The
reader's fuel counts characters, each step consuming at least one.
-/

namespace GameCatalog

inductive SettingValue where
  | text (s : String)
  | number (n : Int)
  deriving DecidableEq, Repr

structure SettingEntry where
  key : String
  value : SettingValue
  deriving DecidableEq, Repr

namespace SettingEntry

def isBlank (c : Char) : Bool :=
  c = ' ' || c = '\t'

def skipBlanks (cs : List Char) : List Char :=
  cs.dropWhile isBlank

/-- The characters of comments and texts: tabs and all that are not control characters
of ASCII. -/
def isPlain (c : Char) : Bool :=
  c = '\t' || (c.toNat ≥ 0x20 && c.toNat != 0x7F)

/-- A line feed, perhaps after a carriage return. -/
def lineBreak? : List Char → Option (List Char)
  | '\n' :: rest => some rest
  | '\r' :: '\n' :: rest => some rest
  | _ => none

/-- A line break or the end of the document. -/
def lineEnd? (cs : List Char) : Option (List Char) :=
  if cs.isEmpty then some [] else lineBreak? cs

/-- The rest of a line: blanks and a comment, both of which may be missing. -/
def finishLine? (cs : List Char) : Option (List Char) :=
  match skipBlanks cs with
  | '#' :: comment => lineEnd? (comment.dropWhile isPlain)
  | rest => lineEnd? rest

/-- Hexadecimal digits as the number of a character. -/
def codePoint? (count : Nat) (cs : List Char) : Option (Char × List Char) :=
  match (cs.take count).mapM Number.hexDigit? with
  | some digits =>
      let n := digits.foldl (fun n digit => n * 16 + digit) 0
      if digits.length = count && (n < 0xD800 || (0xDFFF < n && n < 0x110000)) then
        some (Char.ofNat n, cs.drop count)
      else none
  | none => none

/-- What a backslash and the characters after it stand for. -/
def escape? : List Char → Option (Char × List Char)
  | 'b' :: rest => some ('\x08', rest)
  | 't' :: rest => some ('\t', rest)
  | 'n' :: rest => some ('\n', rest)
  | 'f' :: rest => some ('\x0c', rest)
  | 'r' :: rest => some ('\r', rest)
  | '"' :: rest => some ('"', rest)
  | '\\' :: rest => some ('\\', rest)
  | 'u' :: rest => codePoint? 4 rest
  | 'U' :: rest => codePoint? 8 rest
  | _ => none

/-- A text on one line, after its opening quote; what was read of it is held with its
last character first.  Only doubly quoted texts have escapes. -/
def quotedRest? (quote : Char) : Nat → List Char → List Char → Option (String × List Char)
  | fuel + 1, read, c :: rest =>
      if c = quote then some (String.ofList read.reverse, rest)
      else if quote = '"' && c = '\\' then
        (escape? rest).bind fun (d, rest) => quotedRest? quote fuel (d :: read) rest
      else if isPlain c then quotedRest? quote fuel (c :: read) rest
      else none
  | _, _, _ => none

/-- Skips blanks and line breaks. -/
def skipLines : List Char → List Char
  | [] => []
  | '\r' :: '\n' :: rest => skipLines rest
  | c :: rest => if isBlank c || c = '\n' then skipLines rest else c :: rest

/-- A backslash before a line break takes away all blanks and breaks that follow. -/
def foldedBreak? (cs : List Char) : Option (List Char) :=
  (lineBreak? (skipBlanks cs)).map skipLines

/-- A text over several lines, after its three opening quotes.  It is closed by three
quotes, before which one or two more belong to the text. -/
def tripledRest? (quote : Char) : Nat → List Char → List Char → Option (String × List Char)
  | fuel + 1, read, c :: rest =>
      if c = quote then
        let run := ((c :: rest).takeWhile (· = quote)).length
        if run < 3 then
          tripledRest? quote fuel (List.replicate run quote ++ read) ((c :: rest).drop run)
        else
          let inner := min (run - 3) 2
          some (String.ofList (List.replicate inner quote ++ read).reverse,
            (c :: rest).drop (inner + 3))
      else if quote = '"' && c = '\\' then
        match foldedBreak? rest with
        | some rest => tripledRest? quote fuel read rest
        | none => (escape? rest).bind fun (d, rest) => tripledRest? quote fuel (d :: read) rest
      else
        match lineBreak? (c :: rest) with
        | some rest => tripledRest? quote fuel ('\n' :: read) rest
        | none => if isPlain c then tripledRest? quote fuel (c :: read) rest else none
  | _, _, _ => none

/-- Line breaks in texts count as line feeds; one right after the opening quotes does
not belong to the text. -/
def quotedText? (quote : Char) (cs : List Char) : Option (String × List Char) :=
  match cs with
  | a :: b :: rest =>
      if a = quote && b = quote then
        tripledRest? quote (rest.length + 1) [] ((lineBreak? rest).getD rest)
      else quotedRest? quote (cs.length + 1) [] cs
  | _ => quotedRest? quote (cs.length + 1) [] cs

def isDigitOf (base : Nat) (c : Char) : Bool :=
  (Number.hexDigit? c).any (· < base)

/-- Digits of a base, with single underscores between digits. -/
def digits? (base : Nat) (cs : List Char) : Option Nat :=
  let groups := Text.pieces (· == '_') cs
  if groups.all fun group => !group.isEmpty && group.all (isDigitOf base) then
    some ((groups.flatten.filterMap Number.hexDigit?).foldl (fun n digit => n * base + digit) 0)
  else none

/-- Decimal digits without a leading zero. -/
def decimal? (cs : List Char) : Option Nat :=
  match cs with
  | '0' :: _ :: _ => none
  | _ => digits? 10 cs

/-- A whole number; those of other bases than ten have no sign. -/
def whole? : List Char → Option Int
  | '0' :: 'x' :: digits => (digits? 16 digits).map Int.ofNat
  | '0' :: 'o' :: digits => (digits? 8 digits).map Int.ofNat
  | '0' :: 'b' :: digits => (digits? 2 digits).map Int.ofNat
  | cs =>
      let (negative, digits) := Number.splitSign cs
      (decimal? digits).map (Number.signed negative)

def isWordChar (c : Char) : Bool :=
  c.isAlphanum || c = '_' || c = '-'

/-- A text, or a whole number of the signed 64-bit range. -/
def value? : List Char → Option (SettingValue × List Char)
  | '"' :: rest => (quotedText? '"' rest).map fun (s, rest) => (.text s, rest)
  | '\x27' :: rest => (quotedText? '\x27' rest).map fun (s, rest) => (.text s, rest)
  | cs =>
      let isNumberChar (c : Char) := isWordChar c || c = '+'
      match whole? (cs.takeWhile isNumberChar) with
      | some n =>
          if Number.inInt64 n then some (.number n, cs.dropWhile isNumberChar) else none
      | none => none

/-- A key is a word or a text on one line. -/
def key? : List Char → Option (String × List Char)
  | '"' :: rest => quotedRest? '"' (rest.length + 1) [] rest
  | '\x27' :: rest => quotedRest? '\x27' (rest.length + 1) [] rest
  | cs =>
      let word := cs.takeWhile isWordChar
      if word.isEmpty then none else some (String.ofList word, cs.dropWhile isWordChar)

/-- A key, an equals sign and a value, with blanks around each. -/
def entry? (cs : List Char) : Option (SettingEntry × List Char) := do
  let (key, rest) ← key? cs
  match skipBlanks rest with
  | '=' :: rest =>
      let (value, rest) ← value? (skipBlanks rest)
      return (⟨key, value⟩, rest)
  | _ => none

def entries? : Nat → List Char → Option (List SettingEntry)
  | fuel + 1, cs =>
      let line := skipBlanks cs
      if line.isEmpty then some []
      else
        match finishLine? line with
        | some rest => entries? fuel rest
        | none => do
            let (entry, rest) ← entry? line
            let rest ← finishLine? rest
            let others ← entries? fuel rest
            return entry :: others
  | 0, _ => none

/-- All entries of a document in order, after a byte order mark that may be missing. -/
def parseAll? (document : String) : Option (List SettingEntry) :=
  let cs :=
    match document.toList with
    | '\ufeff' :: rest => rest
    | cs => cs
  entries? (cs.length + 1) cs

end SettingEntry
end GameCatalog
