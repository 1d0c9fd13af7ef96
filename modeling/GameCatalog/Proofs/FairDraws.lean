import GameCatalog.Random.ChaCha

/-!
# Draws from a range

A whole number is drawn from a range with the first word of the stream that makes a fair
product with the length of the range.  A seeded stream repeats, so a search through one
period of it decides whether there is such a word, and a draw without one has no end.
-/

namespace GameCatalog

/-! ## Seeded streams repeat -/

namespace ChaCha

theorem block_congr (key : Vector UInt32 8) {m n : Nat} (hlow : UInt32.ofNat m = UInt32.ofNat n)
    (hhigh : UInt32.ofNat (m / 0x100000000) = UInt32.ofNat (n / 0x100000000)) :
    block key m = block key n := by
  simp only [block, initial, hlow, hhigh]

/-- The block counter has 64 bits. -/
theorem block_add_wordCount (key : Vector UInt32 8) (n : Nat) :
    block key (n + RandomStream.wordCount) = block key n := by
  apply block_congr key <;> apply UInt32.toNat_inj.mp <;>
    simp only [UInt32.toNat_ofNat', RandomStream.wordCount] <;> omega

end ChaCha

namespace RandomStream

/-- The words of the stream are those of a seeded one. -/
def IsSeeded (stream : RandomStream) : Prop :=
  ∃ seed, stream.word = (seeded seed).word

variable {range n tries multiple : Nat} {stream after : RandomStream} {low high : Int}

theorem IsSeeded.word_add_period (hseeded : stream.IsSeeded) (n : Nat) :
    stream.word (n + period) = stream.word n := by
  obtain ⟨seed, hword⟩ := hseeded
  have hblock : (n + 8 * wordCount) / 8 = n / 8 + wordCount := by omega
  have hplace : (n + 8 * wordCount) % 8 = n % 8 := by omega
  rw [hword]
  simp only [seeded, period, ChaCha.word, hblock, hplace, ChaCha.block_add_wordCount]

theorem IsSeeded.word_add_mul_period (hseeded : stream.IsSeeded) (n count : Nat) :
    stream.word (n + period * count) = stream.word n := by
  induction count with
  | zero => rfl
  | succ count ih => rw [Nat.mul_succ, ← Nat.add_assoc, hseeded.word_add_period, ih]

/-- What holds of the words of one period holds of all words to come. -/
theorem IsSeeded.forall_of_period (hseeded : stream.IsSeeded) (p : UInt64 → Prop)
    (hperiod : ∀ n < period, p (stream.word (stream.position + n))) (n : Nat) :
    p (stream.word (stream.position + n)) := by
  have hless : n % period < period := Nat.mod_lt n (by decide)
  have hword := hseeded.word_add_mul_period (stream.position + n % period) (n / period)
  rw [Nat.add_assoc, Nat.mod_add_div] at hword
  rw [hword]
  exact hperiod _ hless

/-! ## The first fair word -/

/-- So many words on, the stream has its first word that is fair for the range. -/
structure FirstFair (range : Nat) (stream : RandomStream) (n : Nat) : Prop where
  fair : isFair range (stream.word (stream.position + n)) = true
  first : ∀ i < n, isFair range (stream.word (stream.position + i)) = false

theorem next_word (stream : RandomStream) (n : Nat) :
    stream.next.2.word (stream.next.2.position + n) = stream.word (stream.position + (n + 1)) := by
  rw [next, Nat.add_assoc, Nat.add_comm 1]

theorem FirstFair.succ (hunfair : isFair range stream.next.1 = false)
    (hfirst : FirstFair range stream.next.2 n) : FirstFair range stream (n + 1) where
  fair := by
    rw [← next_word]
    exact hfirst.fair
  first i hi := by
    cases i with
    | zero => exact hunfair
    | succ i =>
        rw [← next_word]
        exact hfirst.first i (by omega)

/-- What is found comes from the first fair word, and the stream goes on behind that. -/
theorem exists_firstFair (hdrawn : fairMultiple? range tries stream = some (multiple, after)) :
    ∃ n, FirstFair range stream n ∧
      multiple = (stream.word (stream.position + n)).toNat * range / wordCount ∧
      after = { stream with position := stream.position + (n + 1) } := by
  induction tries generalizing stream with
  | zero => contradiction
  | succ tries ih =>
      rw [fairMultiple?] at hdrawn
      dsimp only at hdrawn
      by_cases hfair : isFair range stream.next.1 = true
      · rw [if_pos hfair, Option.some.injEq, Prod.mk.injEq] at hdrawn
        exact ⟨0, ⟨hfair, by simp⟩, hdrawn.1.symm, hdrawn.2.symm⟩
      · rw [if_neg hfair] at hdrawn
        obtain ⟨n, hfirst, hmultiple, hafter⟩ := ih hdrawn
        refine ⟨n + 1, hfirst.succ (Bool.eq_false_iff.mpr hfair), ?_, ?_⟩
        · rw [hmultiple, next_word]
        · rw [hafter, next, Nat.add_assoc, Nat.add_comm 1]

theorem fairMultiple?_eq_none_iff :
    fairMultiple? range tries stream = none ↔
      ∀ n < tries, isFair range (stream.word (stream.position + n)) = false := by
  induction tries generalizing stream with
  | zero => simp [fairMultiple?]
  | succ tries ih =>
      rw [fairMultiple?, Nat.forall_lt_succ_left]
      dsimp only
      by_cases hfair : isFair range stream.next.1 = true
      · rw [if_pos hfair]
        exact iff_of_false (by simp) fun hunfair =>
          Bool.false_ne_true (hunfair.1.symm.trans hfair)
      · have hunfair : isFair range (stream.word (stream.position + 0)) = false :=
          Bool.eq_false_iff.mpr hfair
        rw [if_neg hfair, ih]
        simp only [next_word, hunfair, true_and]

/-! ## The number drawn -/

theorem fairMultiple?_lt (hrange : 0 < range)
    (hdrawn : fairMultiple? range tries stream = some (multiple, after)) : multiple < range := by
  obtain ⟨n, _, hmultiple, _⟩ := exists_firstFair hdrawn
  rw [hmultiple]
  apply Nat.div_lt_of_lt_mul
  exact Nat.mul_lt_mul_of_pos_right (UInt64.toNat_lt _) hrange

theorem wrapInt64_bounds (n : Int) :
    Number.minInt64 ≤ wrapInt64 n ∧ wrapInt64 n ≤ Number.maxInt64 := by
  have hlower : -((wordCount : Int) / 2) ≤ Int.bmod n wordCount := Int.le_bmod (by decide)
  have hupper : Int.bmod n wordCount < ((wordCount : Int) + 1) / 2 := Int.bmod_lt (by decide)
  simp only [wordCount, wrapInt64, Number.minInt64, Number.maxInt64] at *
  omega

theorem wrapInt64_of_bounds {n : Int} (hlow : Number.minInt64 ≤ n) (hhigh : n ≤ Number.maxInt64) :
    wrapInt64 n = n := by
  simp only [Number.minInt64, Number.maxInt64] at hlow hhigh
  apply Int.bmod_eq_of_le <;> simp only [wordCount] <;> omega

theorem rangeLength_of_le (hlow : Number.minInt64 ≤ low) (hhigh : high ≤ Number.maxInt64)
    (hrange : low ≤ high) :
    (rangeLength low high = 0 ∧ low = Number.minInt64 ∧ high = Number.maxInt64) ∨
      (rangeLength low high : Int) = high - low + 1 := by
  simp only [Number.minInt64, Number.maxInt64, rangeLength, wordCount] at *
  omega

/-- For the range of all numbers every word is fair. -/
theorem isFair_zero (word : UInt64) : isFair 0 word = true := by
  simp [isFair]

/-- A draw from a seeded stream has no end only if no word to come is fair for the length of
the range.  Otherwise it reads the words up to the first fair one, and the number lies in the
range. -/
theorem between?_draws (hlow : Number.minInt64 ≤ low) (hhigh : high ≤ Number.maxInt64)
    (hrange : low ≤ high) (hseeded : stream.IsSeeded) :
    (between? low high stream = none ↔
      ∀ n, isFair (rangeLength low high) (stream.word (stream.position + n)) = false) ∧
    ∀ x after, between? low high stream = some (x, after) →
      low ≤ x ∧ x ≤ high ∧ ∃ n, FirstFair (rangeLength low high) stream n ∧
        after = { stream with position := stream.position + (n + 1) } := by
  unfold between?
  rcases rangeLength_of_le hlow hhigh hrange with ⟨hzero, rfl, rfl⟩ | hlength
  · rw [if_pos hzero, hzero]
    refine ⟨by simp [isFair_zero], fun x after hdrawn => ?_⟩
    obtain ⟨rfl, rfl⟩ := Prod.mk.inj (Option.some.inj hdrawn)
    obtain ⟨hleast, hgreatest⟩ := wrapInt64_bounds stream.next.1.toNat
    exact ⟨hleast, hgreatest, 0, ⟨isFair_zero _, by simp⟩, rfl⟩
  · rw [if_neg (by omega), Option.map_eq_none_iff, fairMultiple?_eq_none_iff]
    refine ⟨⟨hseeded.forall_of_period fun word => isFair (rangeLength low high) word = false,
      fun hunfair n _ => hunfair n⟩, fun x after hdrawn => ?_⟩
    obtain ⟨⟨multiple, rest⟩, hmultiple, hx⟩ := Option.map_eq_some_iff.mp hdrawn
    obtain ⟨rfl, rfl⟩ := Prod.mk.inj hx
    have hless := fairMultiple?_lt (by omega) hmultiple
    obtain ⟨n, hfirst, _, hafter⟩ := exists_firstFair hmultiple
    rw [wrapInt64_of_bounds (by omega) (by omega)]
    exact ⟨by omega, by omega, n, hfirst, hafter⟩

end RandomStream
end GameCatalog
