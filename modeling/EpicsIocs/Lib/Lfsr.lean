import Mathlib.Data.Nat.Bitwise
import Mathlib.Data.Nat.Prime.Basic
import Mathlib.Dynamics.PeriodicPts.Defs

/-!
# Feedback shift registers and their periods

A shift register with linear feedback is affine over exclusive or, and so is every power
of it.  An affine map is known from a table of its values at zero and at the powers of
two, so many steps are one look at a squared table (`run_eq`), and the period of a state
is checked at the prime divisors of the candidate (`injOn_of_period`).
-/

namespace Lfsr

/-! ## Affine maps -/

/-- Affine over exclusive or. -/
def IsAffine (f : Nat → Nat) : Prop := ∀ x y, f (x ^^^ y) = f x ^^^ f y ^^^ f 0

/-- The value of an affine map, from its value at zero and its values at the powers of two. -/
def eval (atZero : Nat) : List Nat → Nat → Nat
  | [], _ => atZero
  | column :: columns, x =>
    if x % 2 = 1 then eval atZero columns (x / 2) ^^^ column ^^^ atZero
    else eval atZero columns (x / 2)

/-- An affine map as a table: its value at zero, and its values at the powers of two. -/
structure Table where
  atZero : Nat
  columns : List Nat

namespace Table

def eval (t : Table) (x : Nat) : Nat := Lfsr.eval t.atZero t.columns x

/-- The table of the map made twice. -/
def square (t : Table) : Table where
  atZero := t.eval t.atZero
  columns := t.columns.map t.eval

/-- The map made `n < 2 ^ k` times. -/
def run : (k : Nat) → Table → (n x : Nat) → Nat
  | 0, _, _, x => x
  | k + 1, t, n, x => run k t.square (n / 2) (if n % 2 = 1 then t.eval x else x)

/-- The table of a map on the numbers below `2 ^ w`. -/
structure Represents (t : Table) (w : Nat) (f : Nat → Nat) : Prop where
  affine : IsAffine f
  bounded : ∀ x, f x < 2 ^ w
  atZero : t.atZero = f 0
  columns : t.columns = (List.range w).map fun i => f (2 ^ i)

/-- The values above `2 ^ k` from the columns above `k`. -/
theorem eval_shift {f : Nat → Nat} (hf : IsAffine f) (m : Nat) :
    ∀ k x, x < 2 ^ m →
      Lfsr.eval (f 0) ((List.range' k m).map fun i => f (2 ^ i)) x = f (2 ^ k * x) := by
  induction m with
  | zero =>
    intro k x hx
    obtain rfl : x = 0 := by omega
    rw [Nat.mul_zero]
    rfl
  | succ m ih =>
    intro k x hx
    have hhalf : x / 2 < 2 ^ m := by rw [Nat.pow_succ] at hx; omega
    have hrest := ih (k + 1) (x / 2) hhalf
    have hpow : 2 ^ (k + 1) * (x / 2) = 2 ^ k * (2 * (x / 2)) := by rw [Nat.pow_succ, Nat.mul_assoc]
    rw [List.range'_succ, List.map_cons, Lfsr.eval, hrest, hpow]
    by_cases hodd : x % 2 = 1
    · have hsplit : 2 ^ k * x = 2 ^ k * (2 * (x / 2)) ^^^ 2 ^ k := by
        apply Nat.eq_of_testBit_eq
        intro i
        rw [Nat.testBit_xor, Nat.testBit_two_pow, Nat.testBit_two_pow_mul, Nat.testBit_two_pow_mul]
        by_cases hki : k ≤ i
        · have hsucc : i - k = 0 ∨ ∃ j, i - k = j + 1 := by
            cases i - k with
            | zero => exact .inl rfl
            | succ j => exact .inr ⟨j, rfl⟩
          obtain hzero | ⟨j, hj⟩ := hsucc
          · have hik : k = i := by omega
            rw [hzero, decide_eq_true hki, decide_eq_true hik, Nat.testBit_zero, Nat.testBit_zero,
              hodd]
            simp
          · have hik : k ≠ i := by omega
            rw [hj, decide_eq_true hki, decide_eq_false hik, Nat.testBit_succ, Nat.testBit_succ]
            simp
        · have hik : k ≠ i := by omega
          rw [decide_eq_false hki, decide_eq_false hik]
          rfl
      rw [if_pos hodd, hsplit, hf]
    · have hsplit : x = 2 * (x / 2) := by omega
      rw [if_neg hodd, ← hsplit]

variable {t : Table} {w : Nat} {f : Nat → Nat}

theorem Represents.eval (h : t.Represents w f) {x : Nat} (hx : x < 2 ^ w) : t.eval x = f x := by
  have hshift := eval_shift h.affine w 0 x hx
  rw [Nat.pow_zero, Nat.one_mul, ← List.range_eq_range'] at hshift
  rw [Table.eval, h.atZero, h.columns, hshift]

theorem Represents.square (h : t.Represents w f) : t.square.Represents w (f ∘ f) where
  affine x y := by
    show f (f (x ^^^ y)) = f (f x) ^^^ f (f y) ^^^ f (f 0)
    have hcancel : f 0 ^^^ (f (f 0) ^^^ f 0) = f (f 0) := by
      rw [Nat.xor_comm (f (f 0)), ← Nat.xor_assoc, Nat.xor_self, Nat.zero_xor]
    rw [h.affine x y, h.affine, h.affine, Nat.xor_assoc _ (f 0), Nat.xor_assoc _ (f 0 ^^^ f (f 0)),
      Nat.xor_assoc (f 0), hcancel]
  bounded x := h.bounded (f x)
  atZero := by
    show t.eval t.atZero = f (f 0)
    rw [h.atZero, h.eval (h.bounded 0)]
  columns := by
    show t.columns.map t.eval = _
    rw [h.columns, List.map_map]
    apply List.map_congr_left
    intro i hi
    exact h.eval (h.bounded _)

theorem run_eq (h : t.Represents w f) (k : Nat) {n x : Nat} (hn : n < 2 ^ k) (hx : x < 2 ^ w) :
    run k t n x = f^[n] x := by
  induction k generalizing t f n x with
  | zero =>
    obtain rfl : n = 0 := by omega
    rfl
  | succ k ih =>
    have hhalf : n / 2 < 2 ^ k := by rw [Nat.pow_succ] at hn; omega
    have htwice : f ∘ f = f^[2] := rfl
    by_cases hodd : n % 2 = 1
    · have hsplit : n = 2 * (n / 2) + 1 := by omega
      rw [run, if_pos hodd, h.eval hx, ih h.square hhalf (h.bounded x), htwice,
        ← Function.iterate_mul, ← Function.iterate_succ_apply, Nat.succ_eq_add_one, ← hsplit]
    · have hsplit : n = 2 * (n / 2) := by omega
      rw [run, if_neg hodd, ih h.square hhalf hx, htwice, ← Function.iterate_mul, ← hsplit]

end Table

/-! ## The register -/

/-- Shifts a register of `width` bits up by one; the bits `width - 1` and `tap` say, if they
are alike, that a one comes in. -/
def step (width tap : Nat) (state : Nat) : Nat :=
  (2 * state + (state.testBit (width - 1) == state.testBit tap).toNat) % 2 ^ width

theorem testBit_step (width tap state i : Nat) :
    (step width tap state).testBit i = (decide (i < width) &&
      if i = 0 then state.testBit (width - 1) == state.testBit tap else state.testBit (i - 1)) := by
  rw [step, Nat.testBit_mod_two_pow]
  congr 1
  have hbit : (state.testBit (width - 1) == state.testBit tap).toNat < 2 ^ 1 := Bool.toNat_lt _
  rw [← Nat.pow_one 2, Nat.testBit_two_pow_mul_add _ hbit]
  by_cases hi : i = 0
  · subst hi
    rw [if_pos Nat.one_pos, if_pos rfl]
    cases state.testBit (width - 1) == state.testBit tap <;> rfl
  · rw [if_neg (by omega), if_neg hi]

theorem step_isAffine (width tap : Nat) : IsAffine (step width tap) := by
  intro x y
  apply Nat.eq_of_testBit_eq
  intro i
  simp only [Nat.testBit_xor, testBit_step, Nat.zero_testBit]
  by_cases hi : i = 0
  · simp only [if_pos hi]
    cases decide (i < width) <;> cases x.testBit (width - 1) <;> cases x.testBit tap <;>
      cases y.testBit (width - 1) <;> cases y.testBit tap <;> rfl
  · simp only [if_neg hi]
    cases decide (i < width) <;> cases x.testBit (i - 1) <;> cases y.testBit (i - 1) <;> rfl

theorem step_lt (width tap state : Nat) : step width tap state < 2 ^ width :=
  Nat.mod_lt _ (Nat.two_pow_pos _)

/-- The table of a register. -/
def table (width tap : Nat) : Table where
  atZero := step width tap 0
  columns := (List.range width).map fun i => step width tap (2 ^ i)

theorem table_represents (width tap : Nat) :
    (table width tap).Represents width (step width tap) where
  affine := step_isAffine width tap
  bounded := step_lt width tap
  atZero := rfl
  columns := rfl

/-! ## Periods -/

/-- A state that comes round after `n` steps, and not after any `n / p` of them, has no two of
its `n` successors alike. -/
theorem injOn_of_period {f : Nat → Nat} {x n : Nat} (hround : f^[n] x = x)
    (hprime : ∀ p, p.Prime → p ∣ n → f^[n / p] x ≠ x) :
    Set.InjOn (fun i => f^[i] x) (Set.Iio n) := by
  have hdvd : Function.minimalPeriod f x ∣ n := Function.IsPeriodicPt.minimalPeriod_dvd hround
  obtain ⟨k, hk⟩ := hdvd
  have hone : k = 1 := by
    by_contra hne
    obtain ⟨p, hp, m, hm⟩ := Nat.exists_prime_and_dvd hne
    have hdiv : n / p = Function.minimalPeriod f x * m := by
      rw [hk, hm, Nat.mul_left_comm, Nat.mul_div_cancel_left _ hp.pos]
    have hround' : f^[n / p] x = x := by
      rw [hdiv]
      exact (Function.isPeriodicPt_minimalPeriod f x).mul_const m
    refine hprime p hp ?_ hround'
    exact ⟨Function.minimalPeriod f x * m, by rw [hk, hm, Nat.mul_left_comm]⟩
  have hperiod : Function.minimalPeriod f x = n := by rw [hk, hone, Nat.mul_one]
  rw [← hperiod]
  exact Function.iterate_injOn_Iio_minimalPeriod

end Lfsr
