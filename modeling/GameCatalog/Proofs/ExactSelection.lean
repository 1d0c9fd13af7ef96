import GameCatalog.Proofs.Prospects
import Mathlib

/-!
# Selection in exact arithmetic

With rational numbers the share of an entry is its chance divided by the sum of all
chances, so the shares add up to one and a rarer entry has the smaller share.  Laid end to
end from zero they divide the rolls from zero up to one into one interval for each entry,
as long as its share, and a roll selects the entry in whose interval it falls.
-/

namespace GameCatalog

instance : ShareNumber ℚ where
  ofInt n := n
  add x y := x + y
  div x y := x / y
  reaches total roll := decide (roll ≤ total)

namespace Rarity

/-! ## Shares -/

theorem probabilities_eq_error_iff {α : Type} [ShareNumber α] {weights : List Int}
    {fault : Fault} :
    probabilities α weights = .error fault ↔
      (weights = [] ∧ fault = .emptySelection) ∨
      (weights ≠ [] ∧ (∀ weight ∈ weights, weight ≤ 0) ∧
        fault = .noPositiveWeight weights.length) := by
  unfold probabilities
  by_cases hempty : weights = []
  · simp [hempty, eq_comm]
  · have hentries : weights.isEmpty = false := by simpa using hempty
    by_cases hall : ∀ weight ∈ weights, weight ≤ 0
    · have hweights : weights.all (· ≤ 0) = true := by simpa using hall
      simp only [hentries, hweights, hempty, Bool.false_eq_true, if_false, if_true,
        Except.error.injEq, false_and, false_or]
      exact ⟨fun hfault => ⟨hempty, hall, hfault.symm⟩, fun h => h.2.2.symm⟩
    · have hweights : weights.all (· ≤ 0) = false := by simpa using hall
      simp [hentries, hweights, hempty, hall]

variable {weights : List Int} {shares : List ℚ} {roll sum : ℚ} {i : ℕ}

theorem ofInt_zero_rat : (ShareNumber.ofInt 0 : ℚ) = 0 :=
  Int.cast_zero

theorem chance_rat (weight : Int) : chance ℚ weight = 100 / max 1 (weight : ℚ) := by
  change ((100 : Int) : ℚ) / ((max 1 weight : Int) : ℚ) = _
  push_cast
  rfl

theorem chance_rat_pos (weight : Int) : 0 < chance ℚ weight := by
  rw [chance_rat]
  positivity

theorem chance_rat_lt_iff {v w : Int} : chance ℚ w < chance ℚ v ↔ max 1 v < max 1 w := by
  have hv : (0 : ℚ) < max 1 (v : ℚ) := by positivity
  have hw : (0 : ℚ) < max 1 (w : ℚ) := by positivity
  rw [chance_rat, chance_rat, div_lt_div_iff_of_pos_left (by norm_num) hw hv]
  exact_mod_cast Iff.rfl

theorem total_rat (chances : List ℚ) : total ℚ chances = chances.sum := by
  rw [total, ofInt_zero_rat, List.sum_eq_foldl]
  rfl

/-- The sum of the chances of all weights. -/
def chanceSum (weights : List Int) : ℚ :=
  (weights.map (chance ℚ)).sum

theorem shares_rat (weights : List Int) :
    Rarity.shares ℚ weights = weights.map fun weight => chance ℚ weight / chanceSum weights := by
  unfold Rarity.shares
  simp only [total_rat, List.map_map]
  rfl

theorem chanceSum_pos (hweights : weights ≠ []) : 0 < chanceSum weights := by
  refine List.sum_pos _ ?_ (by simpa using hweights)
  intro chance hchance
  obtain ⟨weight, _, rfl⟩ := List.mem_map.mp hchance
  exact chance_rat_pos weight

theorem sum_shares_rat (hweights : weights ≠ []) : (Rarity.shares ℚ weights).sum = 1 := by
  have hsum : (Rarity.shares ℚ weights).sum = chanceSum weights / chanceSum weights := by
    simp only [shares_rat, chanceSum, div_eq_mul_inv, List.sum_map_mul_right]
  rw [hsum, div_self (chanceSum_pos hweights).ne']

theorem getD_shares_rat (h : i < weights.length) :
    (Rarity.shares ℚ weights).getD i 0 = chance ℚ (weights.getD i 0) / chanceSum weights := by
  simp [shares_rat, h]

section Reordered

variable {places : List ℕ}

theorem perm_reordered (hplaces : places.Perm (List.range weights.length)) :
    (places.map fun i => weights.getD i 0).Perm weights := by
  have hall : (List.range weights.length).map (fun i => weights.getD i 0) = weights := by
    apply List.ext_getElem
    · simp
    · intro i _ h
      simp [h]
  simpa only [hall] using hplaces.map fun i => weights.getD i 0

theorem shares_reordered (hplaces : places.Perm (List.range weights.length)) :
    Rarity.shares ℚ (places.map fun i => weights.getD i 0) =
      places.map fun i => (Rarity.shares ℚ weights).getD i 0 := by
  have hsum : chanceSum (places.map fun i => weights.getD i 0) = chanceSum weights :=
    ((perm_reordered hplaces).map (chance ℚ)).sum_eq
  rw [shares_rat, hsum, List.map_map]
  apply List.map_congr_left
  intro i hi
  have hplace : i < weights.length := by simpa using hplaces.mem_iff.mp hi
  exact (getD_shares_rat hplace).symm

end Reordered

/-- Each share is the entry's chance out of the sum of chances. -/
structure InverseShares (weights : List Int) (shares : List ℚ) : Prop where
  quotients : shares = weights.map fun weight : Int =>
    100 / max 1 (weight : ℚ) / (weights.map fun other : Int => 100 / max 1 (other : ℚ)).sum
  positive : ∀ share ∈ shares, 0 < share
  sum_eq_one : shares.sum = 1
  rarer_lt : ∀ i < weights.length, ∀ j < weights.length,
    max 1 (weights.getD i 0) < max 1 (weights.getD j 0) → shares.getD j 0 < shares.getD i 0
  reordered : ∀ places : List ℕ, places.Perm (List.range weights.length) →
    probabilities ℚ (places.map fun i => weights.getD i 0) =
      .ok (places.map fun i => shares.getD i 0)

theorem inverseShares (hpositive : ∃ weight ∈ weights, 0 < weight) :
    InverseShares weights (Rarity.shares ℚ weights) := by
  have hweights : weights ≠ [] := by
    obtain ⟨weight, hweight, _⟩ := hpositive
    exact List.ne_nil_of_mem hweight
  have hsum := chanceSum_pos hweights
  constructor
  · rw [shares_rat, chanceSum]
    simp only [chance_rat, funext chance_rat]
  · intro share hshare
    rw [shares_rat] at hshare
    obtain ⟨weight, _, rfl⟩ := List.mem_map.mp hshare
    exact div_pos (chance_rat_pos weight) hsum
  · exact sum_shares_rat hweights
  · intro i hi j hj hrarer
    rw [getD_shares_rat hi, getD_shares_rat hj]
    exact div_lt_div_of_pos_right (chance_rat_lt_iff.mpr hrarer) hsum
  · intro places hplaces
    have hsome : ∃ weight ∈ places.map fun i => weights.getD i 0, 0 < weight := by
      obtain ⟨weight, hweight, hlarge⟩ := hpositive
      exact ⟨weight, (perm_reordered hplaces).mem_iff.mpr hweight, hlarge⟩
    exact probabilities_eq_ok_iff.mpr ⟨hsome, (shares_reordered hplaces).symm⟩

/-! ## Intervals -/

/-- The sum of the shares ahead of the place. -/
def startOf (shares : List ℚ) (i : ℕ) : ℚ :=
  (shares.take i).sum

@[simp] theorem startOf_zero (shares : List ℚ) : startOf shares 0 = 0 := by
  simp [startOf]

theorem startOf_cons_succ (share : ℚ) (rest : List ℚ) (i : ℕ) :
    startOf (share :: rest) (i + 1) = share + startOf rest i := by
  simp [startOf]

theorem startOf_succ (h : i < shares.length) :
    startOf shares (i + 1) = startOf shares i + shares[i] :=
  List.sum_take_succ shares i h

theorem startOf_nonneg (hpositive : ∀ share ∈ shares, 0 < share) (i : ℕ) :
    0 ≤ startOf shares i :=
  List.sum_nonneg fun share hshare => (hpositive share (List.mem_of_mem_take hshare)).le

theorem startOf_le_sum (hpositive : ∀ share ∈ shares, 0 < share) (i : ℕ) :
    startOf shares i ≤ shares.sum := by
  have hrest : 0 ≤ (shares.drop i).sum :=
    List.sum_nonneg fun share hshare => (hpositive share (List.mem_of_mem_drop hshare)).le
  rw [← List.sum_take_add_sum_drop shares i]
  exact le_add_of_nonneg_right hrest

theorem firstReaching_cons_rat (share : ℚ) (rest : List ℚ) :
    firstReaching roll sum (share :: rest) =
      if roll ≤ sum + share then some 0
      else (firstReaching roll (sum + share) rest).map (· + 1) := by
  have hreaches : ShareNumber.reaches (ShareNumber.add sum share) roll =
      decide (roll ≤ sum + share) := rfl
  simp only [firstReaching, hreaches, decide_eq_true_eq]
  rfl

theorem firstReaching_eq_some_iff (hpositive : ∀ share ∈ shares, 0 < share) :
    firstReaching roll sum shares = some i ↔
      i < shares.length ∧ (i = 0 ∨ sum + startOf shares i < roll) ∧
        roll ≤ sum + startOf shares (i + 1) := by
  induction shares generalizing sum i with
  | nil => simp [firstReaching]
  | cons share rest ih =>
      have hrest : ∀ share ∈ rest, 0 < share := fun other h => hpositive other (by simp [h])
      rw [firstReaching_cons_rat]
      by_cases hreached : roll ≤ sum + share
      · cases i with
        | zero => simp [hreached, startOf_cons_succ]
        | succ i =>
            -- No later place has passed the roll, since the running total only grows.
            have hlate : roll ≤ sum + (share + startOf rest i) := by
              linarith [startOf_nonneg hrest i]
            simp [hreached, hlate, startOf_cons_succ]
      · have hpassed : sum + share < roll := lt_of_not_ge hreached
        cases i with
        | zero => simp [hpassed, startOf_cons_succ]
        | succ i =>
            have hahead : i = 0 → sum + (share + startOf rest i) < roll := by
              rintro rfl
              simpa using hpassed
            simp [hreached, ih hrest, startOf_cons_succ, add_assoc, or_iff_right_of_imp hahead]

theorem exists_firstReaching (hentries : shares ≠ []) (hreach : roll ≤ sum + shares.sum) :
    ∃ i, firstReaching roll sum shares = some i := by
  induction shares generalizing sum with
  | nil => contradiction
  | cons share rest ih =>
      rw [firstReaching_cons_rat]
      by_cases hreached : roll ≤ sum + share
      · exact ⟨0, by simp [hreached]⟩
      · rw [List.sum_cons, ← add_assoc] at hreach
        have hrest : rest ≠ [] := by
          rintro rfl
          exact hreached (by simpa using hreach)
        obtain ⟨i, hi⟩ := ih hrest hreach
        exact ⟨i + 1, by simp [hreached, hi]⟩

/-- The rolls that end in the share of the place.  The first share also takes the roll zero,
and there is no roll as high as one. -/
def rollsFor (shares : List ℚ) (i : ℕ) : Set ℚ :=
  {roll | roll ∈ Set.Ico 0 1 ∧ (startOf shares i < roll ∨ i = 0 ∧ roll = 0) ∧
    roll ≤ startOf shares (i + 1)}

/-- The shares divide the rolls from zero up to one. -/
structure DividesRolls (shares : List ℚ) : Prop where
  reaches : ∀ roll ∈ Set.Ico (0 : ℚ) 1,
    firstReaching roll 0 shares = some (pickIndex shares roll)
  picks_iff : ∀ roll ∈ Set.Ico (0 : ℚ) 1, ∀ i, pickIndex shares roll = i ↔ roll ∈ rollsFor shares i
  interval : ∀ i, (rollsFor shares i).OrdConnected
  infimum : ∀ i < shares.length, IsGLB (rollsFor shares i) (startOf shares i)
  supremum : ∀ i < shares.length,
    IsLUB (rollsFor shares i) (startOf shares i + shares.getD i 0)
  cover : ⋃ i < shares.length, rollsFor shares i = Set.Ico 0 1
  disjoint : Pairwise (Function.onFun Disjoint (rollsFor shares))

theorem ordConnected_rollsFor (shares : List ℚ) (i : ℕ) : (rollsFor shares i).OrdConnected := by
  refine ⟨fun low hlow high hhigh roll hroll => ?_⟩
  obtain ⟨⟨hzero, _⟩, hstart, _⟩ := hlow
  obtain ⟨⟨_, hone⟩, _, hend⟩ := hhigh
  refine ⟨⟨hzero.trans hroll.1, hroll.2.trans_lt hone⟩, ?_, hroll.2.trans hend⟩
  rcases hstart with hstart | ⟨rfl, rfl⟩
  · exact .inl (hstart.trans_le hroll.1)
  · rw [startOf_zero]
    exact hroll.1.lt_or_eq.imp id fun hsame => ⟨rfl, hsame.symm⟩

theorem rollsFor_subset_Icc (shares : List ℚ) (i : ℕ) :
    rollsFor shares i ⊆ Set.Icc (startOf shares i) (startOf shares (i + 1)) := by
  rintro roll ⟨_, hstart | ⟨rfl, rfl⟩, hend⟩
  · exact ⟨hstart.le, hend⟩
  · exact ⟨(startOf_zero shares).le, hend⟩

section Division

variable (hpositive : ∀ share ∈ shares, 0 < share) (hsum : shares.sum = 1)

include hpositive hsum

theorem Ioo_subset_rollsFor (i : ℕ) :
    Set.Ioo (startOf shares i) (startOf shares (i + 1)) ⊆ rollsFor shares i := by
  intro roll hroll
  have hzero : 0 ≤ startOf shares i := startOf_nonneg hpositive i
  have hone : startOf shares (i + 1) ≤ 1 := hsum ▸ startOf_le_sum hpositive (i + 1)
  exact ⟨⟨hzero.trans hroll.1.le, hroll.2.trans_le hone⟩, .inl hroll.1, hroll.2.le⟩

theorem firstReaching_eq_some_iff_rollsFor (hroll : roll ∈ Set.Ico 0 1) :
    firstReaching roll 0 shares = some i ↔ roll ∈ rollsFor shares i := by
  rw [firstReaching_eq_some_iff hpositive]
  simp only [zero_add, rollsFor, Set.mem_ofPred_eq, hroll, true_and]
  constructor
  · rintro ⟨_, hstart, hend⟩
    refine ⟨?_, hend⟩
    rcases hstart with rfl | hstart
    · rw [startOf_zero]
      exact hroll.1.lt_or_eq.imp id fun hzero => ⟨rfl, hzero.symm⟩
    · exact .inl hstart
  · rintro ⟨hstart, hend⟩
    refine ⟨?_, hstart.symm.imp And.left id, hend⟩
    -- Past the last share the running total is one, which no roll exceeds.
    by_contra hpast
    have htotal : startOf shares i = 1 := by
      rw [startOf, List.take_of_length_le (by omega), hsum]
    rcases hstart with hstart | ⟨rfl, _⟩
    · exact absurd hroll.2 (by linarith)
    · simp at htotal

theorem dividesRolls : DividesRolls shares := by
  have hentries : shares ≠ [] := by
    rintro rfl
    simp at hsum
  have hreaches : ∀ roll ∈ Set.Ico (0 : ℚ) 1,
      firstReaching roll 0 shares = some (pickIndex shares roll) := by
    intro roll hroll
    have hbelow : roll ≤ 0 + shares.sum := by
      rw [hsum, zero_add]
      exact hroll.2.le
    obtain ⟨i, hi⟩ := exists_firstReaching hentries hbelow
    rw [pickIndex, ofInt_zero_rat, hi, Option.getD_some]
  have hpicks : ∀ roll ∈ Set.Ico (0 : ℚ) 1, ∀ i,
      pickIndex shares roll = i ↔ roll ∈ rollsFor shares i := by
    intro roll hroll i
    rw [← firstReaching_eq_some_iff_rollsFor hpositive hsum hroll, hreaches roll hroll,
      Option.some.injEq]
  have hlonger : ∀ i < shares.length, startOf shares i < startOf shares (i + 1) := by
    intro i hi
    rw [startOf_succ hi]
    exact lt_add_of_pos_right _ (hpositive _ (List.getElem_mem hi))
  constructor
  · exact hreaches
  · exact hpicks
  · exact ordConnected_rollsFor shares
  · intro i hi
    exact (isGLB_Ioo (hlonger i hi)).of_subset_of_superset (isGLB_Icc (hlonger i hi).le)
      (Ioo_subset_rollsFor hpositive hsum i) (rollsFor_subset_Icc shares i)
  · intro i hi
    rw [List.getD_eq_getElem _ _ hi, ← startOf_succ hi]
    exact (isLUB_Ioo (hlonger i hi)).of_subset_of_superset (isLUB_Icc (hlonger i hi).le)
      (Ioo_subset_rollsFor hpositive hsum i) (rollsFor_subset_Icc shares i)
  · ext roll
    simp only [Set.mem_iUnion, exists_prop]
    constructor
    · rintro ⟨i, _, hroll⟩
      exact hroll.1
    · intro hroll
      exact ⟨_, pickIndex_lt hentries roll, (hpicks roll hroll _).mp rfl⟩
  · intro i j hne
    refine Set.disjoint_left.mpr fun roll hi hj => hne ?_
    rw [← (hpicks roll hi.1 i).mpr hi, (hpicks roll hj.1 j).mpr hj]

end Division

/-- Selection by rarity: which weights give no shares, what the shares are otherwise, and
which rolls select which entry. -/
theorem selection_by_inverse_weight (weights : List Int) :
    (∀ fault, probabilities ℚ weights = .error fault ↔
      (weights = [] ∧ fault = .emptySelection) ∨
      (weights ≠ [] ∧ (∀ weight ∈ weights, weight ≤ 0) ∧
        fault = .noPositiveWeight weights.length)) ∧
    ∀ shares, probabilities ℚ weights = .ok shares →
      InverseShares weights shares ∧ DividesRolls shares := by
  refine ⟨fun fault => probabilities_eq_error_iff, ?_⟩
  intro shares hshares
  obtain ⟨hpositive, rfl⟩ := probabilities_eq_ok_iff.mp hshares
  have hinverse := inverseShares hpositive
  exact ⟨hinverse, dividesRolls hinverse.positive hinverse.sum_eq_one⟩

/-- A roll where two shares meet selects the earlier entry. -/
example : pickIndex [1 / 4, 1 / 4, 1 / 2] (1 / 4 : ℚ) = 0 := by
  decide +kernel

end Rarity
end GameCatalog
