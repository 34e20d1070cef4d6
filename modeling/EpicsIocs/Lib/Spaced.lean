import Mathlib.Data.Set.Card
import Mathlib.Data.Finset.Card
import Mathlib.Order.Interval.Set.UnorderedInterval
import Mathlib.Algebra.Order.Field.Basic
import Mathlib.Tactic.Linarith
import Mathlib.Tactic.Ring

/-! # Evenly spaced points -/

namespace Spaced

variable {K : Type} [Field K] [LinearOrder K] [IsStrictOrderedRing K]

/-- From `first` on at each `interval`, those that are no further than `last`. -/
def points (first interval last : K) : Set K :=
  {x | ∃ k : ℕ, x = first + k * interval ∧ x ∈ Set.uIcc first last}

omit [IsStrictOrderedRing K] in
theorem first_mem (first interval last : K) : first ∈ points first interval last :=
  ⟨0, by rw [Nat.cast_zero, zero_mul, add_zero], Set.left_mem_uIcc⟩

omit [IsStrictOrderedRing K] in
theorem points_self (first interval : K) : points first interval first = {first} := by
  refine Set.Subset.antisymm ?_ ?_
  · rintro x ⟨k, -, hx⟩
    rwa [Set.uIcc_self] at hx
  · rintro x rfl
    exact first_mem x interval x

/-- The `m`-th is the last. -/
theorem mem_uIcc_iff {first interval : K} (h : interval ≠ 0) (k m : ℕ) :
    first + k * interval ∈ Set.uIcc first (first + m * interval) ↔ k ≤ m := by
  have hk : (0 : K) ≤ k := Nat.cast_nonneg k
  have hm : (0 : K) ≤ m := Nat.cast_nonneg m
  rcases lt_or_gt_of_ne h with hneg | hpos
  · have hlast : first + m * interval ≤ first := by
      have := mul_nonpos_of_nonneg_of_nonpos hm hneg.le
      linarith
    rw [Set.uIcc_of_ge hlast, Set.mem_Icc, add_le_add_iff_left,
      mul_le_mul_right_of_neg hneg, Nat.cast_le]
    refine ⟨And.left, fun hle => ⟨hle, ?_⟩⟩
    have := mul_nonpos_of_nonneg_of_nonpos hk hneg.le
    linarith
  · have hlast : first ≤ first + m * interval := by
      have := mul_nonneg hm hpos.le
      linarith
    rw [Set.uIcc_of_le hlast, Set.mem_Icc, add_le_add_iff_left, mul_le_mul_iff_left₀ hpos,
      Nat.cast_le]
    refine ⟨And.right, fun hle => ⟨?_, hle⟩⟩
    have := mul_nonneg hk hpos.le
    linarith

/-- There are `m + 1` of them up to the `m`-th. -/
theorem encard_points (first : K) {interval : K} (h : interval ≠ 0) (m : ℕ) :
    (points first interval (first + m * interval)).encard = m + 1 := by
  have himage : points first interval (first + m * interval) =
      (fun k : ℕ => first + k * interval) '' (Finset.range (m + 1) : Set ℕ) := by
    ext x
    simp only [points, Set.mem_ofPred_eq, Set.mem_image, Finset.mem_coe, Finset.mem_range]
    constructor
    · rintro ⟨k, rfl, hk⟩
      exact ⟨k, Nat.lt_succ_of_le ((mem_uIcc_iff h k m).1 hk), rfl⟩
    · rintro ⟨k, hk, rfl⟩
      exact ⟨k, rfl, (mem_uIcc_iff h k m).2 (Nat.le_of_lt_succ hk)⟩
  have hinj : Function.Injective fun k : ℕ => first + k * interval := by
    intro j k hjk
    exact Nat.cast_injective (mul_right_cancel₀ h (add_left_cancel hjk))
  rw [himage, hinj.encard_image, Set.encard_coe_eq_coe_finsetCard, Finset.card_range]
  rfl

/-- `count` points from `first` to `last`, at an interval that is the distance over one less than
the count, are there exactly if they are two at least and the ends are not the same. -/
theorem encard_spread_iff {first last : K} {count : Int} (hcount : (count : K) - 1 ≠ 0) :
    (∃ m : ℕ, (m : Int) = count ∧
      (points first ((last - first) / ((count : K) - 1)) last).encard = m) ↔
        2 ≤ count ∧ first ≠ last := by
  constructor
  · rintro ⟨m, rfl, hcard⟩
    have hm : m ≠ 1 := by
      rintro rfl
      exact hcount (by rw [Nat.cast_one, Int.cast_one, sub_self])
    have hzero : m ≠ 0 := by
      rintro rfl
      have hempty := Set.encard_eq_zero.1 hcard
      exact Set.notMem_empty first (hempty ▸ first_mem _ _ _)
    refine ⟨by omega, ?_⟩
    rintro rfl
    rw [points_self, Set.encard_singleton] at hcard
    exact hm (Nat.cast_injective hcard.symm)
  · rintro ⟨hle, hne⟩
    obtain ⟨m, rfl⟩ : ∃ m : ℕ, count = m + 1 := ⟨(count - 1).toNat, by omega⟩
    refine ⟨m + 1, Nat.cast_succ m, ?_⟩
    have hcast : (((m + 1 : Int) : K)) - 1 = m := by push_cast; ring
    rw [hcast] at hcount ⊢
    have hlast : last = first + m * ((last - first) / m) := by
      rw [mul_div_cancel₀ _ hcount]
      ring
    have hinterval : (last - first) / (m : K) ≠ 0 := div_ne_zero (sub_ne_zero.2 hne.symm) hcount
    have hcard := encard_points first hinterval m
    rw [← hlast] at hcard
    exact hcard

end Spaced
