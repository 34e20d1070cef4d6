import Mathlib.Algebra.Order.Ring.Int
import Mathlib.Tactic.Linarith

/-!
# Multiples of a number

`truncate n v` is the multiple of `n` that an integer division toward zero leaves of `v`; `above n v`
is the first multiple behind `v`.

    n ∣ m, m ≤ v → m ≤ truncate n v,    n ∣ m, v ≤ m → truncate n v ≤ m      (le_truncate, truncate_le)
    n ∣ m, v < m → above n v ≤ m                                              (above_le)
-/

namespace Multiples

def truncate (n v : Int) : Int := v.tdiv n * n

def above (n v : Int) : Int := (v / n + 1) * n

variable {n v w m : Int}

theorem dvd_truncate (n v : Int) : n ∣ truncate n v := ⟨_, mul_comm _ _⟩

theorem truncate_of_dvd (h : n ∣ v) : truncate n v = v := Int.tdiv_mul_cancel h

theorem truncate_one (v : Int) : truncate 1 v = v := truncate_of_dvd (one_dvd v)

theorem truncate_of_nonneg (hv : 0 ≤ v) : truncate n v = v / n * n := by
  rw [truncate, Int.tdiv_eq_ediv_of_nonneg hv]

theorem truncate_neg (n v : Int) : truncate n (-v) = -truncate n v := by
  rw [truncate, truncate, Int.neg_tdiv, neg_mul]

theorem truncate_nonneg (hn : 0 < n) (hv : 0 ≤ v) : 0 ≤ truncate n v := by
  rw [truncate_of_nonneg hv]
  exact mul_nonneg (Int.ediv_nonneg hv hn.le) hn.le

theorem truncate_le_self (hn : 0 < n) (hv : 0 ≤ v) : truncate n v ≤ v := by
  rw [truncate_of_nonneg hv]
  exact Int.ediv_mul_le v hn.ne'

theorem lt_truncate_add (hn : 0 < n) (hv : 0 ≤ v) : v < truncate n v + n := by
  rw [truncate_of_nonneg hv]
  have := Int.lt_ediv_add_one_mul_self v hn
  linarith

theorem truncate_nonpos (hn : 0 < n) (hv : v ≤ 0) : truncate n v ≤ 0 := by
  have h := truncate_nonneg hn (neg_nonneg.2 hv)
  rw [truncate_neg] at h
  linarith

theorem self_le_truncate (hn : 0 < n) (hv : v ≤ 0) : v ≤ truncate n v := by
  have h := truncate_le_self hn (neg_nonneg.2 hv)
  rw [truncate_neg] at h
  linarith

theorem truncate_lt_add (hn : 0 < n) (hv : v ≤ 0) : truncate n v < v + n := by
  have h := lt_truncate_add hn (neg_nonneg.2 hv)
  rw [truncate_neg] at h
  linarith

/-- A multiple less than `n` above another one is no larger. -/
theorem le_of_lt_add (hn : 0 < n) (hm : n ∣ m) (hw : n ∣ w) (h : m < w + n) : m ≤ w := by
  obtain ⟨a, rfl⟩ := hm
  obtain ⟨b, rfl⟩ := hw
  have hlt : n * a < n * (b + 1) := by linarith
  have hab := lt_of_mul_lt_mul_left hlt hn.le
  exact mul_le_mul_of_nonneg_left (Int.lt_add_one_iff.1 hab) hn.le

theorem le_truncate (hn : 0 < n) (hm : n ∣ m) (h : m ≤ v) : m ≤ truncate n v := by
  rcases le_total 0 v with hv | hv
  · exact le_of_lt_add hn hm (dvd_truncate n v) (h.trans_lt (lt_truncate_add hn hv))
  · exact h.trans (self_le_truncate hn hv)

theorem truncate_le (hn : 0 < n) (hm : n ∣ m) (h : v ≤ m) : truncate n v ≤ m := by
  rcases le_total 0 v with hv | hv
  · exact (truncate_le_self hn hv).trans h
  · have := truncate_lt_add hn hv
    exact le_of_lt_add hn (dvd_truncate n v) hm (by linarith)

theorem truncate_mono (hn : 0 < n) (h : v ≤ w) : truncate n v ≤ truncate n w := by
  rcases le_total 0 v with hv | hv
  · exact le_truncate hn (dvd_truncate n v) ((truncate_le_self hn hv).trans h)
  · rcases le_total 0 w with hw | hw
    · exact (truncate_nonpos hn hv).trans (truncate_nonneg hn hw)
    · exact truncate_le hn (dvd_truncate n w) (h.trans (self_le_truncate hn hw))

theorem dvd_above (n v : Int) : n ∣ above n v := ⟨_, mul_comm _ _⟩

theorem lt_above (hn : 0 < n) (v : Int) : v < above n v := Int.lt_ediv_add_one_mul_self v hn

theorem above_le_add (hn : 0 < n) (v : Int) : above n v ≤ v + n := by
  have := Int.ediv_mul_le v hn.ne'
  rw [above, add_mul, one_mul]
  linarith

theorem above_le (hn : 0 < n) (hm : n ∣ m) (h : v < m) : above n v ≤ m := by
  have := above_le_add hn v
  exact le_of_lt_add hn (dvd_above n v) hm (by linarith)

end Multiples
