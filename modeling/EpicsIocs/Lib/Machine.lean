import Mathlib.Algebra.Ring.Nat

/-!
# Checked arithmetic on 64 bits

`u64` and a 64-bit `usize` as natural numbers; a checked operation is `none` where
the result does not fit.
-/

namespace Machine

def u64Max : Nat := 2 ^ 64 - 1

def checkedMul (a b : Nat) : Option Nat := if a * b ≤ u64Max then some (a * b) else none

def checkedAdd (a b : Nat) : Option Nat := if a + b ≤ u64Max then some (a + b) else none

def checkedSub (a b : Nat) : Option Nat := if b ≤ a then some (a - b) else none

/-- The sum, capped at the largest number. -/
def satAdd (a b : Nat) : Nat := min (a + b) u64Max

theorem checkedMul_eq_some {a b c : Nat} :
    checkedMul a b = some c ↔ a * b ≤ u64Max ∧ c = a * b := by
  simp [checkedMul, eq_comm]

theorem checkedAdd_eq_some {a b c : Nat} :
    checkedAdd a b = some c ↔ a + b ≤ u64Max ∧ c = a + b := by
  simp [checkedAdd, eq_comm]

end Machine
