import GameCatalog.Random.Stream

/-!
# Seeded streams

A seeded stream is the key stream of the ChaCha cipher with eight rounds, a 64-bit
block counter that starts at zero and a nonce of zero.  The key is drawn from the seed
by a linear congruential generator with permuted output.
-/

namespace GameCatalog
namespace ChaCha

abbrev State := Vector UInt32 16

def rotateLeft (x : UInt32) (n : UInt32) : UInt32 :=
  (x <<< n) ||| (x >>> (32 - n))

def rotateRight (x : UInt32) (n : UInt32) : UInt32 :=
  (x >>> n) ||| (x <<< ((32 - n) % 32))

/-- One quarter round on the words at four places. -/
def quarterRound (s : State) (a b c d : Fin 16) : State :=
  let wa := s[a] + s[b]
  let wd := rotateLeft (s[d] ^^^ wa) 16
  let wc := s[c] + wd
  let wb := rotateLeft (s[b] ^^^ wc) 12
  let wa := wa + wb
  let wd := rotateLeft (wd ^^^ wa) 8
  let wc := wc + wd
  let wb := rotateLeft (wb ^^^ wc) 7
  (((s.set a wa).set b wb).set c wc).set d wd

/-- A round on the columns and a round on the diagonals. -/
def doubleRound (s : State) : State :=
  let s := quarterRound s 0 4 8 12
  let s := quarterRound s 1 5 9 13
  let s := quarterRound s 2 6 10 14
  let s := quarterRound s 3 7 11 15
  let s := quarterRound s 0 5 10 15
  let s := quarterRound s 1 6 11 12
  let s := quarterRound s 2 7 8 13
  quarterRound s 3 4 9 14

/-- The key's eight words between the four constants and the block counter. -/
def initial (key : Vector UInt32 8) (block : Nat) : State :=
  #v[0x61707865, 0x3320646e, 0x79622d32, 0x6b206574,
    key[0], key[1], key[2], key[3], key[4], key[5], key[6], key[7],
    UInt32.ofNat block, UInt32.ofNat (block / 0x100000000), 0, 0]

def block (key : Vector UInt32 8) (n : Nat) : State :=
  let start := initial key n
  let mixed := doubleRound (doubleRound (doubleRound (doubleRound start)))
  Vector.zipWith (· + ·) mixed start

/-- The words of all blocks in order, two at a time, the low half first. -/
def word (key : Vector UInt32 8) (n : Nat) : UInt64 :=
  let words := block key (n / 8)
  let low := words.toArray.getD (2 * (n % 8)) 0
  let high := words.toArray.getD (2 * (n % 8) + 1) 0
  low.toUInt64 ||| (high.toUInt64 <<< 32)

def nextSeed (seed : UInt64) : UInt64 :=
  seed * 6364136223846793005 + 11634580027462260723

/-- The output word for a state of the seed generator. -/
def keyWord (seed : UInt64) : UInt32 :=
  rotateRight (((seed >>> 18) ^^^ seed) >>> 27).toUInt32 (seed >>> 59).toUInt32

/-- The first `count` output words after a state of the seed generator. -/
def keyWords : Nat → UInt64 → List UInt32
  | 0, _ => []
  | count + 1, seed =>
      let seed := nextSeed seed
      keyWord seed :: keyWords count seed

theorem length_keyWords (count : Nat) (seed : UInt64) : (keyWords count seed).length = count := by
  induction count generalizing seed with
  | zero => rfl
  | succ count ih => simp [keyWords, ih]

def key (seed : UInt64) : Vector UInt32 8 :=
  ⟨(keyWords 8 seed).toArray, by simp [length_keyWords]⟩

end ChaCha

/-- The stream that a seed determines. -/
def RandomStream.seeded (seed : UInt64) : RandomStream :=
  let key := ChaCha.key seed
  { word := ChaCha.word key, position := 0 }

end GameCatalog
