import GameCatalog.Text.Blank

/-!
# Lines of input

Input that is no terminal is read line by line.  A line with more opening than closing
brackets is left open and goes on with the next one, its line break kept.  A line that
is not UTF-8 makes an end of reading.
-/

namespace GameCatalog

/-- What one reading brings; the end of input brings nothing. -/
inductive Intake where
  | line (text : String)
  | interrupted
  | undecodable
  deriving DecidableEq, Repr

namespace Lines

/-- Bytes cut after every line feed. -/
def cut : List UInt8 → List (List UInt8)
  | [] => []
  | byte :: rest =>
      if byte = 10 then [byte] :: cut rest
      else
        match cut rest with
        | [] => [[byte]]
        | line :: lines => (byte :: line) :: lines

/-- The lines of some bytes, each with its line break; none stands for one that is not
UTF-8. -/
def ofBytes (bytes : ByteArray) : List (Option String) :=
  (cut bytes.toList).map fun line => String.fromUTF8? ⟨line.toArray⟩

/-- The line without one line feed and one carriage return before it. -/
def withoutBreak (line : String) : String :=
  match line.toList.reverse with
  | '\n' :: '\r' :: rest => String.ofList rest.reverse
  | '\n' :: rest => String.ofList rest.reverse
  | _ => line

def isOpen (text : String) : Bool :=
  text.toList.count ']' < text.toList.count '['

/-- What reading brings after the text of a line that was left open; an open line that
never closes brings nothing. -/
def gather : String → List (Option String) → List Intake
  | _, [] => []
  | _, none :: _ => [.undecodable]
  | pending, some line :: rest =>
      let text := pending ++ withoutBreak line
      if isOpen text then gather (pending ++ line) rest
      else .line text :: gather "" rest

def intake (bytes : ByteArray) : List Intake :=
  gather "" (ofBytes bytes)

end Lines
end GameCatalog
