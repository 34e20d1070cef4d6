import Mathlib.Algebra.Order.Field.Power
import Mathlib.Data.Nat.Cast.Order.Field
import Mathlib.Order.Monotone.Basic
import Mathlib.Tactic.Linarith
import Mathlib.Tactic.Positivity

/-!
# Rounding to nearest

Over an ordered field: how far a quotient rounded half up is from the exact one, also where a factor
of the dividend is itself off by up to a half; and which of the numbers `f 0 < f 1 < …` is the
nearest to a number between the midpoints around `f n`.

    |(x * c + m) / (2 * m) - x * C / (2 * m)| < 1   for `x < 2 * m`, `|c - C| ≤ 1 / 2`
                                                                    (abs_roundHalfUp_sub_lt)
    |q - f n| < |q - f k|   for `k ≠ n`                             (abs_sub_lt_of_between)
-/

namespace Rounding

variable {K : Type} [Field K] [LinearOrder K] [IsStrictOrderedRing K]

/-- `p / (2 * m)`, rounded half up. -/
def roundHalfUp (p m : Nat) : Nat := (p + m) / (2 * m)

theorem roundHalfUp_mul_le (p m : Nat) : roundHalfUp p m * (2 * m) ≤ p + m :=
  Nat.div_mul_le_self (p + m) (2 * m)

theorem lt_roundHalfUp_mul {m : Nat} (hm : 0 < m) (p : Nat) :
    p + m < roundHalfUp p m * (2 * m) + 2 * m := by
  have hmod := Nat.mod_lt (p + m) (by omega : 0 < 2 * m)
  have hdiv := Nat.div_add_mod (p + m) (2 * m)
  rw [Nat.mul_comm] at hdiv
  unfold roundHalfUp
  omega

theorem abs_roundHalfUp_sub_le {m : Nat} (hm : 0 < m) (p : Nat) :
    |(roundHalfUp p m : K) - p / (2 * m)| ≤ 1 / 2 := by
  have hle : (roundHalfUp p m : K) * (2 * m) ≤ p + m := by
    exact_mod_cast roundHalfUp_mul_le p m
  have hlt : (p : K) + m < roundHalfUp p m * (2 * m) + 2 * m := by
    exact_mod_cast lt_roundHalfUp_mul hm p
  have hpos : (0 : K) < m := by exact_mod_cast hm
  have hquot : (p : K) / (2 * m) * (2 * m) = p := div_mul_cancel₀ _ (by positivity)
  have hscale : (0 : K) < 2 * m := by positivity
  rw [abs_le]
  constructor
  · by_contra hneg
    have hmul := mul_lt_mul_of_pos_right (not_le.1 hneg) hscale
    rw [sub_mul, hquot] at hmul
    linarith
  · by_contra hneg
    have hmul := mul_lt_mul_of_pos_right (not_le.1 hneg) hscale
    rw [sub_mul, hquot] at hmul
    linarith

theorem abs_roundHalfUp_sub_lt {x c m : Nat} {C : K} (hx : x < 2 * m)
    (hc : |(c : K) - C| ≤ 1 / 2) :
    |(roundHalfUp (x * c) m : K) - x * C / (2 * m)| < 1 := by
  have hm : 0 < m := by omega
  have hrounded := abs_roundHalfUp_sub_le (K := K) hm (x * c)
  have hpos : (0 : K) < 2 * m := by
    have hcast : (0 : K) < m := by exact_mod_cast hm
    positivity
  have hxle : (x : K) < 2 * m := by exact_mod_cast hx
  have hfactor : |(x * c : K) / (2 * m) - x * C / (2 * m)| < 1 / 2 := by
    rw [← sub_div, ← mul_sub, abs_div, abs_mul, abs_of_pos hpos, Nat.abs_cast, div_lt_iff₀ hpos]
    have hle : (x : K) * |(c : K) - C| ≤ x * (1 / 2) :=
      mul_le_mul_of_nonneg_left hc (Nat.cast_nonneg x)
    linarith
  rw [Nat.cast_mul] at hrounded
  have htriangle := abs_add_le ((roundHalfUp (x * c) m : K) - x * c / (2 * m))
    ((x * c : K) / (2 * m) - x * C / (2 * m))
  rw [sub_add_sub_cancel] at htriangle
  linarith

/-- The nearest of ever larger numbers to one between the midpoints around it. -/
theorem abs_sub_lt_of_between {f : Nat → K} (hf : StrictMono f) {q : K} {n : Nat}
    (hlow : 0 < n → f (n - 1) + f n < 2 * q) (hup : 2 * q < f n + f (n + 1)) {k : Nat}
    (hk : k ≠ n) : |q - f n| < |q - f k| := by
  rcases Nat.lt_or_gt_of_ne hk with hlt | hgt
  · have hprev : f k ≤ f (n - 1) := hf.monotone (by omega)
    have hstep : f (n - 1) < f n := hf (by omega)
    have hmid := hlow (by omega)
    rw [abs_of_pos (by linarith : 0 < q - f k), abs_lt]
    constructor <;> linarith
  · have hnext : f (n + 1) ≤ f k := hf.monotone hgt
    have hstep : f n < f (n + 1) := hf (Nat.lt_succ_self n)
    rw [abs_of_neg (by linarith : q - f k < 0), abs_lt]
    constructor
    · linarith
    · linarith

end Rounding
