import GameCatalog.Fault

/-!
# Drawing by rarity

The chance of an entry is inverse to its rarity weight, weights below one counting as
one.  Chances are divided by their sum, and a roll selects the first entry at which
the running total of these shares reaches it.  The computation is stated for any kind
of numbers, of which programs use binary64.
-/

namespace GameCatalog

/-- Numbers that shares can be computed with. -/
class ShareNumber (α : Type) where
  ofInt : Int → α
  add : α → α → α
  div : α → α → α
  reaches : α → α → Bool

instance : ShareNumber Float where
  ofInt := Float.ofInt
  add x y := x + y
  div x y := x / y
  reaches total roll := total >= roll

namespace Rarity

/-- The chance of a weight before it is divided by the sum of all chances. -/
def chance (α : Type) [ShareNumber α] (weight : Int) : α :=
  ShareNumber.div (ShareNumber.ofInt 100) (ShareNumber.ofInt (max 1 weight))

def total (α : Type) [ShareNumber α] (chances : List α) : α :=
  chances.foldl ShareNumber.add (ShareNumber.ofInt 0)

/-- The chances of the weights divided by their sum. -/
def shares (α : Type) [ShareNumber α] (weights : List Int) : List α :=
  let chances := weights.map (chance α)
  let sum := total α chances
  chances.map fun c => ShareNumber.div c sum

/-- Something can be drawn if there is an entry and some weight is positive. -/
def probabilities (α : Type) [ShareNumber α] (weights : List Int) : Except Fault (List α) :=
  if weights.isEmpty then .error .emptySelection
  else if weights.all (· ≤ 0) then .error (.noPositiveWeight weights.length)
  else .ok (shares α weights)

/-- The place of the first share at which the running total reaches the roll. -/
def firstReaching {α : Type} [ShareNumber α] (roll : α) : α → List α → Option Nat
  | _, [] => none
  | sum, share :: rest =>
      let sum := ShareNumber.add sum share
      if ShareNumber.reaches sum roll then some 0
      else (firstReaching roll sum rest).map (· + 1)

/-- The entry that a roll selects; the last one if rounding keeps the total short. -/
def pickIndex {α : Type} [ShareNumber α] (shares : List α) (roll : α) : Nat :=
  (firstReaching roll (ShareNumber.ofInt 0) shares).getD (shares.length - 1)

theorem firstReaching_lt {α : Type} [ShareNumber α] {roll sum : α} {shares : List α} {i : Nat}
    (h : firstReaching roll sum shares = some i) : i < shares.length := by
  induction shares generalizing sum i with
  | nil => simp [firstReaching] at h
  | cons share rest ih =>
      simp only [firstReaching] at h
      split at h
      · simp only [Option.some.injEq] at h
        simp [← h]
      · obtain ⟨j, hj, rfl⟩ := Option.map_eq_some_iff.1 h
        have := ih hj
        simp only [List.length_cons]
        omega

theorem pickIndex_lt {α : Type} [ShareNumber α] {shares : List α} (h : shares ≠ []) (roll : α) :
    pickIndex shares roll < shares.length := by
  have hlength : 0 < shares.length := List.length_pos_iff.2 h
  unfold pickIndex
  cases hfirst : firstReaching roll (ShareNumber.ofInt 0) shares with
  | none => simp only [Option.getD_none]; omega
  | some i => simpa using firstReaching_lt hfirst

end Rarity
end GameCatalog
