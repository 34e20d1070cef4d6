import EpicsIocs.Lib.Ieee
import EpicsIocs.Lib.Rounding
import EpicsIocs.TimePix.Dtoa
import Mathlib.Algebra.Field.Rat
import Mathlib.Algebra.Order.Ring.Rat
import Mathlib.Tactic.Ring

/-!
# The boundaries of a double

A positive double by its exponent and fraction, the interval of the numbers that are read as it, and
the boundaries of the interval as `compute_boundaries` has them: with one exponent, the value at
`4 * significand`, the upper boundary 2 above it and the lower one 2 below, or 1 where the doubles
below are closer.

    q in the interval of v  →  v is the double nearest to q                 (Inside.nearest)
-/

namespace TimePix.Dtoa

open Faults hiding add mul
open Words Ints Ieee Rounding

/-- A finite positive `f64`. -/
structure PositiveDouble where
  exponent : Nat
  fraction : Nat
  exponent_lt : exponent < 2047
  fraction_lt : fraction < 2 ^ 52
  pos : 0 < exponent ∨ 0 < fraction

/-- The number of the bits of a non-negative double, those of infinity read as the next number after
the largest. -/
def valueOfBits (bits : Nat) : ℚ := double.magnitude bits / 2 ^ 1074

/-- `q` is read as the double of these bits: it is the nearest one. -/
def ReadAs (q : ℚ) (bits : Nat) : Prop :=
  ∀ other, other ≠ bits → |q - valueOfBits bits| < |q - valueOfBits other|

namespace PositiveDouble

variable (v : PositiveDouble)

/-- `to_bits`. -/
def toBits : Nat := double.pack false v.exponent v.fraction

def value : ℚ := valueOfBits v.toBits

/-- From the value to the next double. -/
def ulp : ℚ := double.spacing v.toBits / 2 ^ 1074

/-- The doubles below are closer together than those above. -/
def Closer : Prop := v.fraction = 0 ∧ v.exponent > 1

instance : Decidable v.Closer := inferInstanceAs (Decidable (_ ∧ _))

/-- The distance of the lower boundary, in quarters of an ulp. -/
def quarters : Nat := if v.Closer then 1 else 2

/-- Strictly inside the rounding interval. -/
def Inside (q : ℚ) : Prop := v.value - v.quarters / 4 * v.ulp < q ∧ q < v.value + 1 / 2 * v.ulp

/-! ## The nearest double -/

theorem toBits_eq : v.toBits = 2 ^ 52 * v.exponent + v.fraction := by
  simp [toBits, Format.pack, double]

theorem toBits_div : v.toBits / 2 ^ 52 = v.exponent := by
  have hlt := v.fraction_lt
  rw [toBits_eq]
  omega

theorem toBits_mod : v.toBits % 2 ^ 52 = v.fraction := by
  have hlt := v.fraction_lt
  rw [toBits_eq]
  omega

theorem toBits_pos : 0 < v.toBits := by
  have hpos := v.pos
  rw [toBits_eq]
  omega

/-- The bits are those of a finite number. -/
theorem number_toBits : double.value v.toBits = .finite false (double.magnitude v.toBits) := by
  refine Format.value_of_lt ?_
  have hfraction := v.fraction_lt
  have hexponent := v.exponent_lt
  have hbound : (2 ^ double.exponentBits - 1) * 2 ^ double.fractionBits = 2047 * 2 ^ 52 := rfl
  rw [hbound, toBits_eq]
  omega

theorem spacing_toBits : double.spacing v.toBits = 2 ^ (v.exponent - 1) := by
  show 2 ^ (v.toBits / 2 ^ 52 - 1 + 0) = _
  rw [toBits_div]
  rfl

/-- What the interval reaches below, against the spacing of the doubles there. -/
theorem spacing_pred :
    2 * double.spacing (v.toBits - 1) = v.quarters * double.spacing v.toBits := by
  have hfraction := v.fraction_lt
  have hpos := v.pos
  rw [spacing_toBits]
  show 2 * 2 ^ ((v.toBits - 1) / 2 ^ 52 - 1 + 0) = _
  rw [toBits_eq, quarters]
  by_cases hzero : v.fraction = 0
  · have hexp : (2 ^ 52 * v.exponent + v.fraction - 1) / 2 ^ 52 = v.exponent - 1 := by omega
    rw [hexp]
    by_cases hone : v.exponent > 1
    · obtain ⟨e, he⟩ : ∃ e, v.exponent = e + 2 := ⟨v.exponent - 2, by omega⟩
      rw [if_pos ⟨hzero, hone⟩, he, Nat.one_mul]
      exact (Nat.pow_succ' (m := 2) (n := e)).symm
    · have he : v.exponent = 1 := by omega
      rw [if_neg fun h => hone h.2, he]
  · have hexp : (2 ^ 52 * v.exponent + v.fraction - 1) / 2 ^ 52 = v.exponent := by omega
    rw [hexp, if_neg fun h => hzero h.1]
    rfl

theorem valueOfBits_strictMono : StrictMono valueOfBits := by
  intro a b h
  have hlt : (double.magnitude a : ℚ) < double.magnitude b := by
    exact_mod_cast double.magnitude_strictMono h
  exact div_lt_div_of_pos_right hlt (by positivity)

variable {v} in
/-- A number inside the rounding interval of a double is nearer to it than to any other. -/
theorem Inside.nearest {q : ℚ} (h : v.Inside q) : ReadAs q v.toBits := by
  have hnext : valueOfBits (v.toBits + 1) = v.value + v.ulp := by
    rw [value, ulp, valueOfBits, valueOfBits, Format.magnitude_succ, Nat.cast_add, add_div]
  have hprev : v.value = valueOfBits (v.toBits - 1) + v.quarters / 2 * v.ulp := by
    obtain ⟨b, hb⟩ : ∃ b, v.toBits = b + 1 := ⟨v.toBits - 1, by have := v.toBits_pos; omega⟩
    have hspacing : (2 : ℚ) * double.spacing (v.toBits - 1) =
        v.quarters * double.spacing v.toBits := by
      exact_mod_cast v.spacing_pred
    rw [value, ulp]
    rw [hb, Nat.add_sub_cancel] at hspacing ⊢
    rw [valueOfBits, valueOfBits, Format.magnitude_succ, Nat.cast_add, add_div, mul_div_assoc',
      div_mul_eq_mul_div, ← hspacing, mul_div_cancel_left₀ _ two_ne_zero]
  obtain ⟨hlow, hup⟩ := h
  intro other hother
  refine abs_sub_lt_of_between valueOfBits_strictMono (fun _ => ?_) ?_ hother
  · show valueOfBits (v.toBits - 1) + v.value < 2 * q
    linarith
  · show 2 * q < v.value + valueOfBits (v.toBits + 1)
    linarith

/-! ## The double as `compute_boundaries` has it -/

def significand : Nat := if v.exponent = 0 then v.fraction else v.fraction + 2 ^ 52

def power : Int := if v.exponent = 0 then -1074 else v.exponent - 1075

theorem significand_pos : 0 < v.significand := by
  have hpos := v.pos
  unfold significand
  split <;> omega

theorem significand_lt : v.significand < 2 ^ 53 := by
  have hlt := v.fraction_lt
  unfold significand
  split <;> omega

theorem significand_of_closer (h : v.Closer) : v.significand = 2 ^ 52 := by
  rw [significand, if_neg (Nat.ne_of_gt (Nat.lt_of_succ_lt h.2)), h.1, Nat.zero_add]

theorem power_bounds : -1074 ≤ v.power ∧ v.power ≤ 971 := by
  have hlt := v.exponent_lt
  unfold power
  split <;> omega

theorem ulp_eq : v.ulp = 2 ^ v.power := by
  rw [ulp, spacing_toBits, power, Nat.cast_pow, Nat.cast_ofNat]
  split
  · next hzero => rw [hzero, zpow_neg, Nat.zero_sub, pow_zero, one_div, zpow_ofNat]
  · next hpos =>
    obtain ⟨e, he⟩ : ∃ e, v.exponent = e + 1 := ⟨v.exponent - 1, by omega⟩
    have hpower : (v.exponent : Int) - 1075 = e - 1074 := by omega
    rw [hpower, he, Nat.add_sub_cancel, zpow_sub₀ two_ne_zero, zpow_natCast, zpow_ofNat]

theorem value_eq : v.value = v.significand * v.ulp := by
  have hmagnitude : double.magnitude v.toBits = v.significand * 2 ^ (v.exponent - 1) := by
    rw [toBits, Format.magnitude_pack v.fraction_lt, significand]
    split
    · next hzero =>
      rw [hzero]
      rfl
    · rw [Nat.add_comm v.fraction]
      rfl
  rw [value, valueOfBits, ulp, spacing_toBits, hmagnitude, Nat.cast_mul, mul_div_assoc]

end PositiveDouble

variable (v : PositiveDouble)

theorem unpack_spec : unpack v.exponent v.fraction = .ok ⟨v.significand, v.power⟩ := by
  have hfraction := v.fraction_lt
  have hexponent := v.exponent_lt
  unfold unpack PositiveDouble.significand PositiveDouble.power
  by_cases hzero : v.exponent = 0
  · rw [if_pos hzero, if_pos hzero, if_pos hzero]
    rfl
  · have hhidden : hiddenBit = 2 ^ 52 := rfl
    have hbias : bias = 1075 := rfl
    have hcast : asI32 v.exponent = v.exponent := by
      unfold asI32
      rw [Int.bmod_eq_of_le] <;> omega
    rw [if_neg hzero, if_neg hzero, if_neg hzero, hhidden, hbias, hcast, add_of_lt (by omega),
      bind_ok, i32, checked_of_holds (holds_int32.2 (by omega)), bind_ok]
    rfl

/-- A number of `k + 1` bits. -/
theorem normalize_spec {f k : Nat} {e : Int} (hle : 2 ^ k ≤ f) (hlt : f < 2 ^ (k + 1)) (hk : k ≤ 63)
    (he : -1200 ≤ e ∧ e ≤ 1200) :
    DiyFp.normalize ⟨f, e⟩ = .ok ⟨f * 2 ^ (63 - k), e - (63 - k : Nat)⟩ := by
  have hpos : f ≠ 0 := Nat.ne_of_gt (Nat.lt_of_lt_of_le (Nat.two_pow_pos k) hle)
  have hlog : f.log2 = k := (Nat.log2_eq_iff hpos).2 ⟨hle, hlt⟩
  have hzeros : DiyFp.leadingZeros f = 63 - k := by rw [DiyFp.leadingZeros, if_neg hpos, hlog]
  have hfits : f * 2 ^ (63 - k) < 2 ^ 64 := by
    have hmul := Nat.mul_lt_mul_of_pos_right hlt (Nat.two_pow_pos (63 - k))
    have hsum : k + 1 + (63 - k) = 64 := by omega
    rwa [← Nat.pow_add, hsum] at hmul
  simp only [DiyFp.normalize, hzeros]
  rw [shl_of_lt (by omega) hfits, bind_ok, i32, checked_of_holds (holds_int32.2 (by omega)), bind_ok]
  rfl

theorem normalizeTo_spec {f n : Nat} {e : Int} (hn : n < 64) (hfits : f * 2 ^ n < 2 ^ 64) :
    DiyFp.normalizeTo ⟨f, e⟩ (e - n) = .ok ⟨f * 2 ^ n, e - n⟩ := by
  have hshift : e - (e - (n : Int)) = n := by omega
  simp only [DiyFp.normalizeTo]
  rw [hshift, i32, checked_of_holds (holds_int32.2 (by omega)), bind_ok, shl_of_lt hn hfits, bind_ok]
  rfl

/-- `m_minus`, brought to the exponent of `m_plus`. -/
theorem lowerBoundary_spec {t : Nat} (ht : t ≤ 61) (hfits : 4 * v.significand * 2 ^ t < 2 ^ 64) :
    ∃ mMinus, lowerBoundary ⟨v.significand, v.power⟩ (decide v.Closer) = .ok mMinus ∧
      DiyFp.normalizeTo mMinus (v.power - 2 - t) =
        .ok ⟨(4 * v.significand - v.quarters) * 2 ^ t, v.power - 2 - t⟩ := by
  have hpos := v.significand_pos
  have hlt := v.significand_lt
  have hpower := v.power_bounds
  simp only [lowerBoundary, PositiveDouble.quarters]
  by_cases hcloser : v.Closer
  · refine ⟨⟨4 * v.significand - 1, v.power - 2⟩, ?_, ?_⟩
    · rw [decide_eq_true hcloser, if_pos rfl, mul_of_lt (by omega), bind_ok, sub_of_le (by omega),
        bind_ok, i32, checked_of_holds (holds_int32.2 (by omega)), bind_ok]
      rfl
    · rw [if_pos hcloser]
      refine normalizeTo_spec (by omega) (Nat.lt_of_le_of_lt ?_ hfits)
      exact Nat.mul_le_mul_right _ (Nat.sub_le _ 1)
  · refine ⟨⟨2 * v.significand - 1, v.power - 1⟩, ?_, ?_⟩
    · rw [decide_eq_false hcloser, if_neg Bool.false_ne_true, mul_of_lt (by omega), bind_ok,
        sub_of_le (by omega), bind_ok, i32, checked_of_holds (holds_int32.2 (by omega)), bind_ok]
      rfl
    · have hexp : v.power - 2 - t = v.power - 1 - (t + 1 : Nat) := by omega
      have hdouble : (4 * v.significand - 2) * 2 ^ t = (2 * v.significand - 1) * 2 ^ (t + 1) := by
        have hfour : 4 * v.significand - 2 = 2 * (2 * v.significand - 1) := by omega
        rw [hfour, Nat.pow_succ', Nat.mul_assoc, Nat.mul_left_comm]
      rw [if_neg hcloser, hexp, hdouble]
      refine normalizeTo_spec (by omega) ?_
      rw [← hdouble]
      exact Nat.lt_of_le_of_lt (Nat.mul_le_mul_right _ (Nat.sub_le _ 2)) hfits

/-- The value and its boundaries with one exponent. -/
theorem computeBoundaries_spec :
    ∃ t : Nat, (9 ≤ t ∧ t ≤ 61) ∧ 2 ^ 63 ≤ 4 * v.significand * 2 ^ t ∧
      (4 * v.significand + 2) * 2 ^ t < 2 ^ 64 ∧
      computeBoundaries v.toBits =
        .ok (⟨4 * v.significand * 2 ^ t, v.power - 2 - t⟩,
          ⟨(4 * v.significand - v.quarters) * 2 ^ t, v.power - 2 - t⟩,
          ⟨(4 * v.significand + 2) * 2 ^ t, v.power - 2 - t⟩) := by
  have hpos := v.significand_pos
  have hlt := v.significand_lt
  have hpower := v.power_bounds
  obtain ⟨k, hk⟩ : ∃ k, v.significand.log2 = k := ⟨_, rfl⟩
  obtain ⟨hle, hlt'⟩ := (Nat.log2_eq_iff (Nat.ne_of_gt hpos)).1 hk
  have hk52 : k < 53 := (Nat.pow_lt_pow_iff_right (by decide)).1 (Nat.lt_of_le_of_lt hle hlt)
  obtain ⟨t, ht⟩ : ∃ t, k + t = 61 := ⟨61 - k, by omega⟩
  have hfour : v.significand * 2 ^ (t + 2) = 4 * v.significand * 2 ^ t := by
    rw [Nat.pow_add]
    ring
  have hplus : (2 * v.significand + 1) * 2 ^ (t + 1) = (4 * v.significand + 2) * 2 ^ t := by
    rw [Nat.pow_succ]
    ring
  have hpow : 2 ^ (k + 1) = 2 * 2 ^ k := Nat.pow_succ'
  have hpow' : 2 ^ (k + 1 + 1) = 2 * 2 ^ (k + 1) := Nat.pow_succ'
  have hlow : 2 ^ 63 ≤ 4 * v.significand * 2 ^ t := by
    have hmul := Nat.mul_le_mul_right (2 ^ (t + 2)) hle
    have hsum : k + (t + 2) = 63 := by omega
    rwa [← Nat.pow_add, hsum, hfour] at hmul
  have hhigh : (4 * v.significand + 2) * 2 ^ t < 2 ^ 64 := by
    have hmul : (2 * v.significand + 1) * 2 ^ (t + 1) < 2 ^ (k + 1 + 1) * 2 ^ (t + 1) :=
      Nat.mul_lt_mul_of_pos_right (by omega) (Nat.two_pow_pos _)
    have hsum : k + 1 + 1 + (t + 1) = 64 := by omega
    rwa [← Nat.pow_add, hsum, hplus] at hmul
  have hvalue := normalize_spec (e := v.power) hle hlt' (by omega) (by omega)
  have hupper := normalize_spec (f := 2 * v.significand + 1) (k := k + 1) (e := v.power - 1)
    (by omega) (by omega) (by omega) (by omega)
  have hk2 : 63 - k = t + 2 := by omega
  have hk1 : 63 - (k + 1) = t + 1 := by omega
  have hexp2 : v.power - (t + 2 : Nat) = v.power - 2 - t := by omega
  have hexp1 : v.power - 1 - (t + 1 : Nat) = v.power - 2 - t := by omega
  rw [hk2, hfour, hexp2] at hvalue
  rw [hk1, hplus, hexp1] at hupper
  obtain ⟨mMinus, hminus, hlower⟩ := lowerBoundary_spec v (t := t) (by omega)
    (by rw [Nat.add_mul] at hhigh; omega)
  have hshift : v.toBits >>> (precision - 1) = v.exponent := by
    rw [Nat.shiftRight_eq_div_pow]
    exact v.toBits_div
  have hmask : v.toBits &&& (hiddenBit - 1) = v.fraction := by
    rw [hiddenBit, Nat.and_two_pow_sub_one_eq_mod]
    exact v.toBits_mod
  refine ⟨t, by omega, hlow, hhigh, ?_⟩
  simp only [computeBoundaries, hshift, hmask, unpack_spec, bind_ok]
  rw [mul_of_lt (by omega), bind_ok, add_of_lt (by omega), bind_ok, i32,
    checked_of_holds (holds_int32.2 (by omega)), bind_ok]
  show lowerBoundary ⟨v.significand, v.power⟩ (decide v.Closer) >>= _ = _
  rw [hminus, bind_ok, hupper, bind_ok, hlower, bind_ok, hvalue, bind_ok]
  rfl

end TimePix.Dtoa
