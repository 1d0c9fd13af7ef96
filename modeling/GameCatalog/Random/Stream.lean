import GameCatalog.Number.Binary64

/-!
# Streams of random words

A stream is an endless sequence of 64-bit words and the position of the next one.
Whatever is drawn from a stream is a function of its words and position.
-/

namespace GameCatalog

structure RandomStream where
  word : Nat → UInt64
  position : Nat

namespace RandomStream

/-- The given words, and zeros after them. -/
def ofWords (words : List UInt64) : RandomStream where
  word n := words.getD n 0
  position := 0

def next (stream : RandomStream) : UInt64 × RandomStream :=
  (stream.word stream.position, { stream with position := stream.position + 1 })

/-- The top 53 bits of a word as a number from zero up to one. -/
def unitOf (word : UInt64) : Float :=
  (word >>> 11).toFloat / 9007199254740992.0

/-- A number from zero up to one, excluding one. -/
def unit (stream : RandomStream) : Float × RandomStream :=
  let (word, stream) := stream.next
  (unitOf word, stream)

def wordCount : Nat := 0x10000000000000000

/-- The signed number that the low 64 bits of a whole number stand for. -/
def wrapInt64 (n : Int) : Int :=
  Int.bmod n wordCount

/-- The number of leading zero bits of a 64-bit word. -/
def leadingZeros (n : Nat) : Nat :=
  if n = 0 then 64 else 63 - Nat.log2 n

/-- Among the products of words and a range, the low half of a fair one is at most
this. -/
def fairZone (range : Nat) : Nat :=
  range * Number.twoTo (leadingZeros range) % wordCount - 1

def isFair (range : Nat) (word : UInt64) : Bool :=
  word.toNat * range % wordCount ≤ fairZone range

/-- The high half of the first fair product of the range and one of the next words, if one
of so many is fair. -/
def fairMultiple? (range : Nat) : Nat → RandomStream → Option (Nat × RandomStream)
  | 0, _ => none
  | tries + 1, stream =>
      let (word, stream) := stream.next
      if isFair range word then some (word.toNat * range / wordCount, stream)
      else fairMultiple? range tries stream

/-- A seeded stream has a 64-bit counter of blocks of eight words, so it starts again after
so many words.  If none of them is fair, none ever is. -/
def period : Nat := 8 * wordCount

/-- How many numbers the range from `low` to `high` has; zero if it has all 64-bit
numbers. -/
def rangeLength (low high : Int) : Nat :=
  ((high - low + 1) % (wordCount : Int)).toNat

/-- A whole number from `low` to `high`, both included; none if the draw has no end. -/
def between? (low high : Int) (stream : RandomStream) : Option (Int × RandomStream) :=
  if rangeLength low high = 0 then
    let (word, stream) := stream.next
    some (wrapInt64 word.toNat, stream)
  else
    (fairMultiple? (rangeLength low high) period stream).map fun (multiple, stream) =>
      (wrapInt64 (low + multiple), stream)

end RandomStream
end GameCatalog
