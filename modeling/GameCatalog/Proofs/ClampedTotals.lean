import GameCatalog.Trait.Table
import Mathlib.Algebra.BigOperators.Group.List.Basic
import Mathlib.Algebra.Ring.Int.Defs

/-!
# Totals that are clamped at every step

A total of traits is clamped after every trait, so what a clamp takes away is not there
when a later trait has the other sign.  Over all orders of the names the total is least
when all gains come first and greatest when all losses do.  It depends on the order unless
the traits have one sign or neither the gains nor the losses leave the range, and then it is
the clamped sum.
-/

namespace GameCatalog
namespace Number

/-- The sum from left to right, clamped at every step. -/
def clampedSum (start : Int) (xs : List Int) : Int :=
  xs.foldl (fun sum x => clampInt64 (sum + x)) start

def gains (xs : List Int) : Int :=
  (xs.filter (0 < ·)).sum

def losses (xs : List Int) : Int :=
  (xs.filter (· < 0)).sum

/-! ## Gains and losses -/

theorem gains_cons (x : Int) (xs : List Int) : gains (x :: xs) = max x 0 + gains xs := by
  unfold gains
  by_cases hx : 0 < x
  · rw [List.filter_cons_of_pos (by simpa using hx), List.sum_cons]
    omega
  · rw [List.filter_cons_of_neg (by simpa using hx)]
    omega

theorem losses_cons (x : Int) (xs : List Int) : losses (x :: xs) = min x 0 + losses xs := by
  unfold losses
  by_cases hx : x < 0
  · rw [List.filter_cons_of_pos (by simpa using hx), List.sum_cons]
    omega
  · rw [List.filter_cons_of_neg (by simpa using hx)]
    omega

theorem gains_nonneg (xs : List Int) : 0 ≤ gains xs := by
  induction xs with
  | nil => exact Int.le_refl 0
  | cons x xs ih =>
      rw [gains_cons]
      omega

theorem losses_nonpos (xs : List Int) : losses xs ≤ 0 := by
  induction xs with
  | nil => exact Int.le_refl 0
  | cons x xs ih =>
      rw [losses_cons]
      omega

theorem gains_add_losses (xs : List Int) : gains xs + losses xs = xs.sum := by
  induction xs with
  | nil => rfl
  | cons x xs ih =>
      rw [gains_cons, losses_cons, List.sum_cons]
      omega

theorem gains_eq_zero {xs : List Int} (hxs : ∀ x ∈ xs, x ≤ 0) : gains xs = 0 := by
  have hnone : xs.filter (0 < ·) = [] := by
    rw [List.filter_eq_nil_iff]
    intro x hx
    have hsign := hxs x hx
    simpa using hsign
  rw [gains, hnone, List.sum_nil]

theorem losses_eq_zero {xs : List Int} (hxs : ∀ x ∈ xs, 0 ≤ x) : losses xs = 0 := by
  have hnone : xs.filter (· < 0) = [] := by
    rw [List.filter_eq_nil_iff]
    intro x hx
    have hsign := hxs x hx
    simpa using hsign
  rw [losses, hnone, List.sum_nil]

theorem gains_perm {xs ys : List Int} (hperm : xs.Perm ys) : gains xs = gains ys :=
  (hperm.filter _).sum_eq

theorem losses_perm {xs ys : List Int} (hperm : xs.Perm ys) : losses xs = losses ys :=
  (hperm.filter _).sum_eq

/-! ## The orders that clamp most -/

/-- The sum of gains that are followed by losses. -/
def leastSum (start gains losses : Int) : Int :=
  clampInt64 (clampInt64 (start + gains) + losses)

/-- The sum of losses that are followed by gains. -/
def greatestSum (start gains losses : Int) : Int :=
  clampInt64 (clampInt64 (start + losses) + gains)

section Bounds

variable {start : Int}

theorem le_clampedSum (hlow : minInt64 ≤ start) (hhigh : start ≤ maxInt64) (xs : List Int) :
    leastSum start (gains xs) (losses xs) ≤ clampedSum start xs := by
  induction xs generalizing start with
  | nil =>
      change clampInt64 (clampInt64 (start + 0) + 0) ≤ start
      unfold clampInt64
      omega
  | cons x xs ih =>
      have hgains := gains_nonneg xs
      have hlosses := losses_nonpos xs
      have hstep : leastSum start (gains (x :: xs)) (losses (x :: xs)) ≤
          leastSum (clampInt64 (start + x)) (gains xs) (losses xs) := by
        rw [gains_cons, losses_cons]
        unfold leastSum clampInt64
        omega
      exact Int.le_trans hstep (ih (clampInt64_bounds _).1 (clampInt64_bounds _).2)

theorem clampedSum_le (hlow : minInt64 ≤ start) (hhigh : start ≤ maxInt64) (xs : List Int) :
    clampedSum start xs ≤ greatestSum start (gains xs) (losses xs) := by
  induction xs generalizing start with
  | nil =>
      change start ≤ clampInt64 (clampInt64 (start + 0) + 0)
      unfold clampInt64
      omega
  | cons x xs ih =>
      have hgains := gains_nonneg xs
      have hlosses := losses_nonpos xs
      have hstep : greatestSum (clampInt64 (start + x)) (gains xs) (losses xs) ≤
          greatestSum start (gains (x :: xs)) (losses (x :: xs)) := by
        rw [gains_cons, losses_cons]
        unfold greatestSum clampInt64
        omega
      exact Int.le_trans (ih (clampInt64_bounds _).1 (clampInt64_bounds _).2) hstep

/-- Numbers of one sign are clamped to the same end, so clamping once is enough. -/
theorem clampedSum_of_one_sign (hlow : minInt64 ≤ start) (hhigh : start ≤ maxInt64)
    {xs : List Int} (hsign : gains xs = 0 ∨ losses xs = 0) :
    clampedSum start xs = clampInt64 (start + xs.sum) := by
  have hleast := le_clampedSum hlow hhigh xs
  have hgreatest := clampedSum_le hlow hhigh xs
  have hsum := gains_add_losses xs
  unfold leastSum clampInt64 at hleast
  unfold greatestSum clampInt64 at hgreatest
  unfold clampInt64
  omega

end Bounds

theorem clampedSum_append (start : Int) (xs ys : List Int) :
    clampedSum start (xs ++ ys) = clampedSum (clampedSum start xs) ys :=
  List.foldl_append

theorem clampedSum_append_of_one_sign {xs ys : List Int} (hxs : gains xs = 0 ∨ losses xs = 0)
    (hys : gains ys = 0 ∨ losses ys = 0) :
    clampedSum 0 (xs ++ ys) = clampInt64 (clampInt64 (0 + xs.sum) + ys.sum) := by
  rw [clampedSum_append, clampedSum_of_one_sign (by decide) (by decide) hxs,
    clampedSum_of_one_sign (clampInt64_bounds _).1 (clampInt64_bounds _).2 hys]

theorem sum_filter_add (p : Int → Bool) (xs : List Int) :
    (xs.filter p).sum + (xs.filter fun x => !p x).sum = xs.sum := by
  rw [← List.sum_append]
  exact (List.filter_append_perm p xs).sum_eq

/-- Where the numbers chosen have one sign and the others have too, the chosen ones first
clamp once in each part. -/
theorem clampedSum_filter_first {p : Int → Bool} {xs : List Int}
    (hfirst : gains (xs.filter p) = 0 ∨ losses (xs.filter p) = 0)
    (hrest : gains (xs.filter fun x => !p x) = 0 ∨ losses (xs.filter fun x => !p x) = 0) :
    clampedSum 0 (xs.filter p ++ xs.filter fun x => !p x) =
      clampInt64 (clampInt64 (0 + (xs.filter p).sum) + (xs.sum - (xs.filter p).sum)) := by
  have hothers : (xs.filter fun x => !p x).sum = xs.sum - (xs.filter p).sum := by
    have hsplit := sum_filter_add p xs
    omega
  rw [clampedSum_append_of_one_sign hfirst hrest, hothers]

theorem clampedSum_gains_first (xs : List Int) :
    clampedSum 0 ((xs.filter (0 < ·)) ++ xs.filter fun x => !decide (0 < x)) =
      leastSum 0 (gains xs) (losses xs) := by
  have hfirst : losses (xs.filter (0 < ·)) = 0 := losses_eq_zero (by simp; omega)
  have hrest : gains (xs.filter fun x => !decide (0 < x)) = 0 := gains_eq_zero (by simp)
  have hlosses : xs.sum - gains xs = losses xs := Int.sub_eq_iff_eq_add'.mpr
    (gains_add_losses xs).symm
  rw [clampedSum_filter_first (.inr hfirst) (.inl hrest), leastSum, ← hlosses]
  rfl

theorem clampedSum_losses_first (xs : List Int) :
    clampedSum 0 ((xs.filter (· < 0)) ++ xs.filter fun x => !decide (x < 0)) =
      greatestSum 0 (gains xs) (losses xs) := by
  have hfirst : gains (xs.filter (· < 0)) = 0 := gains_eq_zero (by simp; omega)
  have hrest : losses (xs.filter fun x => !decide (x < 0)) = 0 := losses_eq_zero (by simp)
  have hgains : xs.sum - losses xs = gains xs := Int.sub_eq_iff_eq_add.mpr
    (gains_add_losses xs).symm
  rw [clampedSum_filter_first (.inl hfirst) (.inr hrest), greatestSum, ← hgains]
  rfl

/-! ## When all orders have one sum -/

/-- The least and the greatest sum are the same just when the numbers have one sign or
neither the gains nor the losses leave the range, and then both are the clamped sum. -/
theorem leastSum_eq_greatestSum_iff {gained lost : Int} (hgained : 0 ≤ gained)
    (hlost : lost ≤ 0) :
    leastSum 0 gained lost = greatestSum 0 gained lost ↔
      gained = 0 ∨ lost = 0 ∨ gained ≤ maxInt64 ∧ minInt64 ≤ lost := by
  unfold leastSum greatestSum clampInt64 minInt64 maxInt64
  omega

theorem leastSum_le_clampInt64 {gained lost : Int} (hgained : 0 ≤ gained)
    (hlost : lost ≤ 0) : leastSum 0 gained lost ≤ clampInt64 (gained + lost) := by
  unfold leastSum clampInt64 minInt64 maxInt64
  omega

theorem clampInt64_le_greatestSum {gained lost : Int} (hgained : 0 ≤ gained)
    (hlost : lost ≤ 0) : clampInt64 (gained + lost) ≤ greatestSum 0 gained lost := by
  unfold greatestSum clampInt64 minInt64 maxInt64
  omega

end Number

namespace TraitTable

open Number

theorem total_eq_clampedSum (table : TraitTable) (names : List String) :
    table.total names = clampedSum 0 (names.map table.int) := by
  unfold total clampedSum
  rw [List.foldl_map]

theorem exists_order_of_filter (table : TraitTable) (names : List String) (p : Int → Bool) :
    ∃ order : List String, order.Perm names ∧ table.total order =
      clampedSum 0
        (((names.map table.int).filter p) ++ (names.map table.int).filter fun x => !p x) := by
  refine ⟨_, List.filter_append_perm (p ∘ table.int) names, ?_⟩
  rw [total_eq_clampedSum, List.map_append, List.filter_map, List.filter_map]
  rfl

/-- The total when every gain is named before every loss. -/
def leastTotal (table : TraitTable) (names : List String) : Int :=
  leastSum 0 (gains (names.map table.int)) (losses (names.map table.int))

/-- The total when every loss is named before every gain. -/
def greatestTotal (table : TraitTable) (names : List String) : Int :=
  greatestSum 0 (gains (names.map table.int)) (losses (names.map table.int))

/-- The traits have one sign, or neither their gains nor their losses leave the signed
64-bit range. -/
def Steady (table : TraitTable) (names : List String) : Prop :=
  gains (names.map table.int) = 0 ∨ losses (names.map table.int) = 0 ∨
    gains (names.map table.int) ≤ maxInt64 ∧ minInt64 ≤ losses (names.map table.int)

section Orders

variable {table : TraitTable} {order names : List String}

theorem leastTotal_le_total (hperm : order.Perm names) :
    table.leastTotal names ≤ table.total order := by
  have hamounts := hperm.map table.int
  rw [leastTotal, total_eq_clampedSum, ← gains_perm hamounts, ← losses_perm hamounts]
  exact le_clampedSum (by decide) (by decide) _

theorem total_le_greatestTotal (hperm : order.Perm names) :
    table.total order ≤ table.greatestTotal names := by
  have hamounts := hperm.map table.int
  rw [greatestTotal, total_eq_clampedSum, ← gains_perm hamounts, ← losses_perm hamounts]
  exact clampedSum_le (by decide) (by decide) _

theorem leastTotal_eq_greatestTotal_iff :
    table.leastTotal names = table.greatestTotal names ↔ table.Steady names :=
  leastSum_eq_greatestSum_iff (gains_nonneg _) (losses_nonpos _)

theorem clampInt64_sum_between :
    table.leastTotal names ≤ clampInt64 (names.map table.int).sum ∧
      clampInt64 (names.map table.int).sum ≤ table.greatestTotal names := by
  rw [← gains_add_losses]
  exact ⟨leastSum_le_clampInt64 (gains_nonneg _) (losses_nonpos _),
    clampInt64_le_greatestSum (gains_nonneg _) (losses_nonpos _)⟩

end Orders

theorem exists_total_eq_leastTotal (table : TraitTable) (names : List String) :
    ∃ order : List String, order.Perm names ∧ table.total order = table.leastTotal names := by
  obtain ⟨order, hperm, htotal⟩ := table.exists_order_of_filter names (0 < ·)
  exact ⟨order, hperm, htotal.trans (clampedSum_gains_first _)⟩

theorem exists_total_eq_greatestTotal (table : TraitTable) (names : List String) :
    ∃ order : List String, order.Perm names ∧
      table.total order = table.greatestTotal names := by
  obtain ⟨order, hperm, htotal⟩ := table.exists_order_of_filter names (· < 0)
  exact ⟨order, hperm, htotal.trans (clampedSum_losses_first _)⟩

/-- A value that every order gives lies at both bounds, so they are the same. -/
theorem steady_of_all_orders {table : TraitTable} {names : List String} {value : Int}
    (hall : ∀ order : List String, order.Perm names → table.total order = value) :
    table.Steady names := by
  obtain ⟨first, hfirst, hleast⟩ := table.exists_total_eq_leastTotal names
  obtain ⟨last, hlast, hgreatest⟩ := table.exists_total_eq_greatestTotal names
  rw [← leastTotal_eq_greatestTotal_iff, ← hleast, ← hgreatest, hall first hfirst,
    hall last hlast]

theorem total_of_steady {table : TraitTable} {names order : List String}
    (hsteady : table.Steady names) (hperm : order.Perm names) :
    table.total order = clampInt64 (names.map table.int).sum := by
  have hbounds := leastTotal_eq_greatestTotal_iff.mpr hsteady
  have hleast : table.leastTotal names ≤ table.total order := leastTotal_le_total hperm
  have hgreatest : table.total order ≤ table.greatestTotal names := total_le_greatestTotal hperm
  have hsum : table.leastTotal names ≤ clampInt64 (names.map table.int).sum ∧
      clampInt64 (names.map table.int).sum ≤ table.greatestTotal names := clampInt64_sum_between
  omega

/-- The totals of all orders of the names lie between those that put the gains and the
losses first, and both are totals of an order.  All orders have one total just when the
traits have one sign or neither gains nor losses leave the range, and just then that is the
clamped sum. -/
theorem total_of_orders (table : TraitTable) (names : List String) :
    (∀ order : List String, order.Perm names →
        table.leastTotal names ≤ table.total order ∧
          table.total order ≤ table.greatestTotal names) ∧
      (∃ order : List String, order.Perm names ∧
        table.total order = table.leastTotal names) ∧
      (∃ order : List String, order.Perm names ∧
        table.total order = table.greatestTotal names) ∧
      ((∀ order : List String, order.Perm names → table.total order = table.total names) ↔
        table.Steady names) ∧
      ((∀ order : List String, order.Perm names →
        table.total order = clampInt64 (names.map table.int).sum) ↔ table.Steady names) := by
  refine ⟨fun order hperm => ⟨leastTotal_le_total hperm, total_le_greatestTotal hperm⟩,
    table.exists_total_eq_leastTotal names, table.exists_total_eq_greatestTotal names,
    ⟨steady_of_all_orders, fun hsteady order hperm => ?_⟩,
    ⟨steady_of_all_orders, fun hsteady order hperm => total_of_steady hsteady hperm⟩⟩
  rw [total_of_steady hsteady hperm, total_of_steady hsteady (List.Perm.refl names)]

/-- The greatest number of the range, a boon and a bane. -/
def hoard : TraitTable :=
  ofJson (.object [("boon", .text "1"), ("bane", .text "-1"),
    ("hoard", .text "9223372036854775807")])

/-- The boon that the clamp takes away is missing when the bane comes. -/
theorem not_total_eq_clamped_sum :
    ¬ ∀ (table : TraitTable) (names order : List String), order.Perm names →
      table.total order = clampInt64 (names.map table.int).sum := by
  intro hclaim
  have htotal : hoard.total ["hoard", "boon", "bane"] = 9223372036854775806 := by
    decide +kernel
  have hsum : (["hoard", "boon", "bane"].map hoard.int).sum = 9223372036854775807 := by
    decide +kernel
  have hsame := hclaim hoard _ ["hoard", "boon", "bane"] (List.Perm.refl _)
  rw [htotal, hsum] at hsame
  exact absurd hsame (by decide)

end TraitTable
end GameCatalog
