import GameCatalog.Fault
import GameCatalog.Reference.Basic

/-!
# Reading references

A reference is read from left to right with a cursor that knows its byte offset.  The
first deviation from the form ends the reading with a flaw that says what is wrong and
at which byte.  Conditions of a filter block are cut at `&` and `,` before each is
read.
-/

namespace GameCatalog

inductive FlawCause where
  | expected (wanted : Char) (found : Option Char)
  | noDomain
  | noStep
  | noStepAfterDomain
  | noItem
  | noProperty
  | unexpected (found : Char)
  | openFilters
  | nestedFilters
  | emptyFilters
  | loneExclamation
  | noFilterProperty
  | badFilterProperty (text : String)
  | noFilterValue (op : FilterOp)
  deriving DecidableEq, Repr

namespace FlawCause

def message : FlawCause → String
  | expected wanted (some found) =>
      "expected '" ++ wanted.toString ++ "', found '" ++ found.toString ++ "'"
  | expected wanted none => "expected '" ++ wanted.toString ++ "', found end of input"
  | noDomain => "expected domain"
  | noStep => "expected path segment"
  | noStepAfterDomain => "expected '/' after domain"
  | noItem => "expected item name or '*'"
  | noProperty => "expected property name"
  | unexpected found => "unexpected character '" ++ found.toString ++ "'"
  | openFilters => "unterminated filter block"
  | nestedFilters => "nested '[' in filter block"
  | emptyFilters => "empty filter block"
  | loneExclamation => "expected '=' after '!'"
  | noFilterProperty => "expected filter property"
  | badFilterProperty text => "invalid filter property '" ++ text ++ "'"
  | noFilterValue op => "missing value after '" ++ op.symbol ++ "'"

end FlawCause

/-- What is wrong with a text that is no reference, and at which byte. -/
structure ReferenceFlaw where
  cause : FlawCause
  offset : Nat
  deriving DecidableEq, Repr

namespace ReferenceFlaw

def text (flaw : ReferenceFlaw) : String :=
  flaw.cause.message ++ " at offset " ++ Number.intText flaw.offset

def toFault (flaw : ReferenceFlaw) (reference : String) : Fault :=
  .invalidReference reference flaw.text

end ReferenceFlaw

namespace Reference

/-- The characters of names: ASCII letters and digits, `_` and `-`. -/
def isNameChar (c : Char) : Bool :=
  c.isAlphanum || c == '_' || c == '-'

structure Cursor where
  offset : Nat
  rest : List Char
  deriving DecidableEq, Repr

namespace Cursor

def start (text : String) : Cursor where
  offset := 0
  rest := text.toList

def flaw {α : Type} (cursor : Cursor) (cause : FlawCause) : Except ReferenceFlaw α :=
  .error ⟨cause, cursor.offset⟩

/-- Moves over the first `count` characters. -/
def skip (count : Nat) (cursor : Cursor) : Cursor where
  offset := cursor.offset + Text.byteLength (cursor.rest.take count)
  rest := cursor.rest.drop count

/-- The longest run of name characters here, and the cursor after it. -/
def nameRun (cursor : Cursor) : List Char × Cursor :=
  let run := cursor.rest.takeWhile isNameChar
  (run, ⟨cursor.offset + Text.byteLength run, cursor.rest.dropWhile isNameChar⟩)

end Cursor

def expect (wanted : Char) (cursor : Cursor) : Except ReferenceFlaw Cursor :=
  match cursor.rest with
  | c :: _ => if c = wanted then .ok (cursor.skip 1) else cursor.flaw (.expected wanted (some c))
  | [] => cursor.flaw (.expected wanted none)

/-- A non-empty run of name characters. -/
def name (missing : FlawCause) (cursor : Cursor) :
    Except ReferenceFlaw (List Char × Cursor) :=
  let (run, after) := cursor.nameRun
  if run.isEmpty then after.flaw missing else .ok (run, after)

/-- As many names as follow, each behind the separator.  One unit of fuel per
character is enough, since every round consumes some. -/
def chain (separator : Char) (missing : FlawCause) :
    Nat → Cursor → Except ReferenceFlaw (List String × Cursor)
  | 0, cursor => .ok ([], cursor)
  | fuel + 1, cursor =>
      if cursor.rest.head? = some separator then do
        let (run, after) ← name missing (cursor.skip 1)
        let (others, last) ← chain separator missing fuel after
        return (String.ofList run :: others, last)
      else .ok ([], cursor)

/-- Words joined by single blanks.  A blank counts only in front of another word. -/
def itemWords : Nat → Cursor → Except ReferenceFlaw (List (List Char) × Cursor)
  | 0, cursor => cursor.flaw .noItem
  | fuel + 1, cursor => do
      let (run, after) ← name .noItem cursor
      match after.rest with
      | ' ' :: c :: _ =>
          if isNameChar c then do
            let (others, last) ← itemWords fuel (after.skip 1)
            return (run :: others, last)
          else return ([run], after)
      | _ => return ([run], after)

def itemSelector (cursor : Cursor) : Except ReferenceFlaw (ItemSelector × Cursor) :=
  if cursor.rest.head? = some '*' then .ok (.wildcard, cursor.skip 1)
  else do
    let (words, after) ← itemWords (cursor.rest.length + 1) cursor
    return (.named (Text.joined " " (words.map String.ofList)), after)

def isOperatorChar (c : Char) : Bool :=
  c == '=' || c == '!' || c == '<' || c == '>'

def isSeparator (c : Char) : Bool :=
  c == '&' || c == ','

/-- The longest operator at the start of a text, and what follows it. -/
def operator? : List Char → Option (FilterOp × List Char)
  | '!' :: '=' :: rest => some (.notEqual, rest)
  | '<' :: '=' :: rest => some (.atMost, rest)
  | '>' :: '=' :: rest => some (.atLeast, rest)
  | '<' :: rest => some (.less, rest)
  | '>' :: rest => some (.greater, rest)
  | '=' :: rest => some (.equal, rest)
  | _ => none

/-- A dotted path of names, with blanks around it. -/
def filterPath (offset : Nat) (text : List Char) : Except ReferenceFlaw (List String) :=
  let trimmed := Text.trim text
  let names := Text.pieces (· == '.') trimmed
  if trimmed.isEmpty then .error ⟨.noFilterProperty, offset⟩
  else if names.all fun n => !n.isEmpty && n.all isNameChar then .ok (names.map String.ofList)
  else .error ⟨.badFilterProperty (String.ofList trimmed), offset⟩

/-- One condition: a path, or a path, an operator and a value. -/
def condition (offset : Nat) (text : List Char) : Except ReferenceFlaw Filter :=
  let before := text.takeWhile fun c => !isOperatorChar c
  let tail := text.dropWhile fun c => !isOperatorChar c
  let operatorOffset := offset + Text.byteLength before
  if tail.isEmpty then (filterPath offset text).map fun path => ⟨path, .present, none⟩
  else
    match operator? tail with
    | none => .error ⟨.loneExclamation, operatorOffset + 1⟩
    | some (op, value) =>
        (filterPath offset before).bind fun path =>
          let trimmed := Text.trim value
          if trimmed.isEmpty then
            .error ⟨.noFilterValue op, operatorOffset + op.symbol.utf8ByteSize⟩
          else .ok ⟨path, op, some (String.ofList trimmed)⟩

def conditions (offset : Nat) : List (List Char) → Except ReferenceFlaw (List Filter)
  | [] => .ok []
  | text :: rest => do
      let filter ← condition offset text
      let others ← conditions (offset + Text.byteLength text + 1) rest
      return filter :: others

/-- A filter block, from its opening bracket to the first closing one. -/
def filterBlock (cursor : Cursor) : Except ReferenceFlaw (List Filter × Cursor) :=
  let inside := cursor.skip 1
  let body := inside.rest.takeWhile (· != ']')
  if !inside.rest.contains ']' then cursor.flaw .openFilters
  else if body.contains '[' then
    (inside.skip (body.takeWhile (· != '[')).length).flaw .nestedFilters
  else if (Text.trim body).isEmpty then cursor.flaw .emptyFilters
  else
    (conditions inside.offset (Text.pieces isSeparator body)).map fun filters =>
      (filters, inside.skip (body.length + 1))

/-- A filter block if one starts here. -/
def filterBlock? (cursor : Cursor) : Except ReferenceFlaw (List Filter × Cursor) :=
  if cursor.rest.head? = some '[' then filterBlock cursor else .ok ([], cursor)

def optionalMark (cursor : Cursor) : Bool × Cursor :=
  if cursor.rest.head? = some '?' then (true, cursor.skip 1) else (false, cursor)

def finish (cursor : Cursor) : Except ReferenceFlaw Unit :=
  match cursor.rest with
  | [] => .ok ()
  | c :: _ => cursor.flaw (.unexpected c)

/-- Reads a reference; the whole text must be one. -/
def parse (text : String) : Except ReferenceFlaw Reference := do
  let cursor ← expect '@' (Cursor.start text)
  let (domain, cursor) ← name .noDomain cursor
  let (steps, cursor) ← chain '/' .noStep cursor.rest.length cursor
  match steps.getLast? with
  | none => cursor.flaw .noStepAfterDomain
  | some category =>
      let cursor ← expect ':' cursor
      let (item, cursor) ← itemSelector cursor
      let (filters, cursor) ← filterBlock? cursor
      let (optional, cursor) := optionalMark cursor
      let (property, cursor) ← chain '.' .noProperty cursor.rest.length cursor
      finish cursor
      return {
        domain := String.ofList domain
        path := steps.dropLast
        category := category
        item := item
        filters := filters
        optional := optional
        property := property }

def isReference (text : String) : Bool :=
  match parse text with
  | .ok _ => true
  | .error _ => false

end Reference
end GameCatalog
