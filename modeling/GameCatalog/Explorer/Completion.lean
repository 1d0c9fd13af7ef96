import GameCatalog.Fault

/-!
# Completion of words

The word that is completed starts after the last blank before the cursor.  Positions in
a line are byte offsets; cutting the line at one that falls inside a character is a trap.
-/

namespace GameCatalog

/-- Where the completed word starts, and what it can be completed to. -/
structure Completion where
  start : Nat
  words : List String
  deriving DecidableEq, Repr

namespace Completion

def commands : List String :=
  [":check", ":draw", ":generate", ":invalidate", ":stats", ":help", ":quit"]

/-- Cuts a text so many bytes behind its start, which is itself `passed` bytes behind the
start of the whole text. -/
def cutBehind (edge : Edge) (passed : Nat) :
    Nat → List Char → Except Trap (List Char × List Char)
  | 0, cs => .ok ([], cs)
  | left + 1, [] => .error (.cutOutside edge (passed + (left + 1)) passed)
  | left + 1, c :: cs =>
      if c.utf8Size ≤ left + 1 then
        (cutBehind edge (passed + c.utf8Size) (left + 1 - c.utf8Size) cs).map
          fun (before, after) => (c :: before, after)
      else .error (.cutInside edge (passed + (left + 1)) c passed)

/-- Cuts a text at a byte position. -/
def cutAt (edge : Edge) (position : Nat) (cs : List Char) :
    Except Trap (List Char × List Char) :=
  cutBehind edge 0 position cs

/-- The byte after the first byte of the last blank; zero without a blank. -/
def wordStart (before : List Char) : Nat :=
  match Text.cutLast? Text.isBlank before with
  | some (front, _) => Text.byteLength front + 1
  | none => 0

def startingWith (word : List Char) (keywords : List String) : List String :=
  keywords.filter fun keyword => word.isPrefixOf keyword.toList

/-- The keywords that the word before the cursor can be completed to, in their order. -/
def complete (keywords : List String) (line : List Char) (cursor : Nat) :
    Except Trap Completion := do
  let (before, _) ← cutAt .stop cursor line
  let (_, word) ← cutAt .start (wordStart before) before
  return ⟨wordStart before, startingWith word keywords⟩

end Completion
end GameCatalog
