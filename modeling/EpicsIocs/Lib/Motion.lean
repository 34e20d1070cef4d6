import Mathlib.Algebra.Field.Basic
import Mathlib.Algebra.CharZero.Defs
import Mathlib.Tactic.Ring

/-! # Motion at a constant acceleration -/

namespace Numerals

/-- The numerals of the formulas, by name. -/
scoped instance two : Nat.AtLeastTwo 2 := ⟨le_rfl⟩
scoped instance nine : Nat.AtLeastTwo 9 := ⟨by decide⟩
scoped instance ten : Nat.AtLeastTwo 10 := ⟨by decide⟩

end Numerals

namespace Motion

open scoped Numerals

variable {K : Type} [Field K]

/-- From `p` at speed `v`, after the time `t` at the acceleration `a`. -/
def position (p v a t : K) : K := p + v * t + a * t ^ 2 / 2

def speed (v a t : K) : K := v + a * t

@[simp] theorem position_zero (p v a : K) : position p v a 0 = p := by
  rw [position]
  ring

@[simp] theorem speed_zero (v a : K) : speed v a 0 = v := by
  rw [speed]
  ring

variable [CharZero K]

/-- Up to `v` from rest. -/
theorem position_rise {t : K} (ht : t ≠ 0) (p v : K) :
    position (p - v * t / 2) 0 (v / t) t = p := by
  have hsquare : v / t * t ^ 2 = v * t := by rw [pow_two, ← mul_assoc, div_mul_cancel₀ _ ht]
  rw [position, hsquare]
  ring

omit [CharZero K] in
theorem speed_rise {t : K} (ht : t ≠ 0) (v : K) : speed 0 (v / t) t = v := by
  rw [speed, div_mul_cancel₀ _ ht, zero_add]

omit [CharZero K] in
/-- And down from `v`. -/
theorem speed_fall {t : K} (ht : t ≠ 0) (v : K) : speed v (-(v / t)) t = 0 := by
  rw [speed, neg_mul, div_mul_cancel₀ _ ht, add_neg_cancel]

end Motion
