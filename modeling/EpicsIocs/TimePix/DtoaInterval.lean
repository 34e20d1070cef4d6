import EpicsIocs.TimePix.DtoaBoundaries
import EpicsIocs.TimePix.DtoaDigits
import Mathlib.Tactic.FieldSimp

/-!
# The digits of a double are read as it

The cached powers are powers of ten to half a unit of their last place, and the one that `grisu2`
takes brings the boundaries of a double to exponents from -60 to -32.  Each boundary is then off by
less than 1, so that from `m_minus + 1` to `m_plus - 1` all numbers are inside the rounding interval.

    grisu2 returns at most 17 digits, no leading 0 among them, of a number inside the rounding
    interval, which is therefore read as the double                     (grisu2_inside_interval)
-/

namespace TimePix.Dtoa

open Faults hiding add mul
open Words Ints Rounding

/-! ## The cached powers -/

namespace CachedPower

/-- `c.f` is `10 ^ c.k / 2 ^ c.e` to a half. -/
def Accurate (c : CachedPower) : Prop :=
  let power := 10 ^ c.k.toNat * 2 ^ (-c.e).toNat
  let unit := 10 ^ (-c.k).toNat * 2 ^ c.e.toNat
  2 * c.f * unit ≤ 2 * power + unit ∧ 2 * power ≤ 2 * c.f * unit + unit

/-- The binary exponents that `c` serves, against the fraction that `log10 2` is taken for. -/
def Serves (c : CachedPower) : Prop :=
  (c.e + 34) * 78913 < (c.k - 8) * 2 ^ 18 ∧ c.k * 2 ^ 18 < (c.e + 64) * 78913

def InRange (c : CachedPower) : Prop :=
  (2 ^ 63 ≤ c.f ∧ c.f < 2 ^ 64) ∧ (-1100 ≤ c.e ∧ c.e ≤ 1100) ∧ (-300 ≤ c.k ∧ c.k ≤ 324)

instance (c : CachedPower) : Decidable c.Accurate := inferInstanceAs (Decidable (_ ∧ _))
instance (c : CachedPower) : Decidable c.Serves := inferInstanceAs (Decidable (_ ∧ _))
instance (c : CachedPower) : Decidable c.InRange := inferInstanceAs (Decidable (_ ∧ _ ∧ _))

end CachedPower

theorem cachedPowers_checked :
    ∀ c ∈ cachedPowers, c.Accurate ∧ c.Serves ∧ c.InRange := by
  decide +kernel

theorem cachedPowers_k :
    cachedPowers.map CachedPower.k = (List.range 79).map fun i : Nat => 8 * (i : Int) - 300 := by
  decide +kernel

theorem getElem?_cachedPowers {i : Nat} (h : i < 79) :
    ∃ c ∈ cachedPowers, cachedPowers[i]? = some c ∧ c.k = 8 * i - 300 := by
  have hlength : i < cachedPowers.length := h
  refine ⟨cachedPowers[i], List.getElem_mem hlength, List.getElem?_eq_getElem hlength, ?_⟩
  have hk := congrArg (fun l => l[i]?) cachedPowers_k
  simpa [List.getElem?_range h, List.getElem?_eq_getElem hlength] using hk

theorem zpow_eq_div (a : ℚ) (n : Int) : a ^ n = a ^ n.toNat / a ^ (-n).toNat := by
  rcases Int.le_total 0 n with h | h
  · obtain ⟨m, rfl⟩ := Int.eq_ofNat_of_zero_le h
    simp
  · obtain ⟨m, hm⟩ := Int.eq_ofNat_of_zero_le (Int.neg_nonneg.2 h)
    obtain rfl : n = -m := by omega
    simp

theorem CachedPower.Accurate.abs_sub_le {c : CachedPower} (h : c.Accurate) :
    |(c.f : ℚ) - 10 ^ c.k / 2 ^ c.e| ≤ 1 / 2 := by
  obtain ⟨hlow, hup⟩ := h
  have hpower : (10 : ℚ) ^ c.k / 2 ^ c.e =
      (10 ^ c.k.toNat * 2 ^ (-c.e).toNat : Nat) / (10 ^ (-c.k).toNat * 2 ^ c.e.toNat : Nat) := by
    rw [zpow_eq_div 10, zpow_eq_div 2, div_div_div_eq]
    push_cast
    rfl
  rw [hpower]
  generalize 10 ^ c.k.toNat * 2 ^ (-c.e).toNat = power at hlow hup
  have hpos : 0 < 10 ^ (-c.k).toNat * 2 ^ c.e.toNat :=
    Nat.mul_pos (Nat.pow_pos (by decide)) (Nat.two_pow_pos _)
  generalize 10 ^ (-c.k).toNat * 2 ^ c.e.toNat = one at hlow hup hpos
  have hone : (0 : ℚ) < one := by exact_mod_cast hpos
  have hlow' : 2 * (c.f : ℚ) * one ≤ 2 * power + one := by exact_mod_cast hlow
  have hup' : 2 * (power : ℚ) ≤ 2 * c.f * one + one := by exact_mod_cast hup
  have hquot : (c.f : ℚ) - power / one = (2 * c.f * one - 2 * power) / (2 * one) := by
    field_simp
  rw [hquot, abs_div, abs_of_pos (by positivity : (0 : ℚ) < 2 * one), div_le_iff₀ (by positivity),
    abs_le]
  constructor <;> linarith

/-- A quotient rounded toward 0, with 1 more over 0. -/
theorem tdiv_bounds {a b k : Int} (hb : 0 < b) (h : k = a.tdiv b + if 0 < a then 1 else 0) :
    a ≤ k * b ∧ (k - 1) * b ≤ a := by
  have hmod := Int.tmod_add_mul_tdiv a b
  have habs := Int.tmod_lt_of_pos a hb
  rw [Int.mul_comm] at hmod
  rw [h, Int.sub_mul, Int.add_mul]
  by_cases hpos : 0 < a
  · have hnonneg := Int.tmod_nonneg b (Int.le_of_lt hpos)
    rw [if_pos hpos]
    omega
  · have hneg := Int.tmod_nonneg b (Int.neg_nonneg.2 (Int.not_lt.1 hpos))
    have habs' := Int.tmod_lt_of_pos (-a) hb
    rw [Int.neg_tmod] at hneg habs'
    rw [if_neg hpos]
    omega

/-- The power that serves the exponent. -/
theorem cachedPowerForBinaryExponent_spec {e : Int} (h : -1137 ≤ e ∧ e ≤ 960) :
    ∃ c ∈ cachedPowers, cachedPowerForBinaryExponent e = .ok c ∧
      -60 ≤ c.e + e + 64 ∧ c.e + e + 64 ≤ -32 := by
  obtain ⟨f, hf⟩ : ∃ f : Int, alpha - e - 1 = f := ⟨_, rfl⟩
  have halpha : alpha = -60 := rfl
  obtain ⟨k, hk⟩ : ∃ k : Int, (f * 78913).tdiv (2 ^ 18) + (if f > 0 then 1 else 0) = k := ⟨_, rfl⟩
  have hsign : (if f > 0 then 1 else 0 : Int) = if 0 < f * 78913 then 1 else 0 := by
    split <;> split <;> omega
  obtain ⟨hup, hlow⟩ := tdiv_bounds (by decide) (hk.symm.trans (congrArg _ hsign))
  have hsum : 0 ≤ 300 + k + 7 := by omega
  obtain ⟨i, hi⟩ : ∃ i : Int, (300 + k + 7).tdiv 8 = i := ⟨_, rfl⟩
  rw [Int.tdiv_eq_ediv_of_nonneg hsum] at hi
  have hindex : ¬i < 0 := by omega
  have hlt : i.toNat < 79 := by omega
  obtain ⟨c, hc, hget, hck⟩ := getElem?_cachedPowers hlt
  obtain ⟨-, ⟨hserves, hserves'⟩, -⟩ := cachedPowers_checked c hc
  refine ⟨c, hc, ?_, ?_, ?_⟩
  · have hdec : -minDecExp = 300 := rfl
    have hstep : decStep = 8 := rfl
    have hseven : decStep - 1 = 7 := rfl
    simp only [cachedPowerForBinaryExponent]
    rw [i32, checked_of_holds (holds_int32.2 (by omega)), bind_ok, hf, i32,
      checked_of_holds (holds_int32.2 (by omega)), bind_ok, i32,
      checked_of_holds (holds_int32.2 (by omega)), bind_ok, hk, i32,
      checked_of_holds (holds_int32.2 (by omega)), bind_ok, hdec, i32,
      checked_of_holds (holds_int32.2 (by omega)), bind_ok, hseven, i32,
      checked_of_holds (holds_int32.2 (by omega)), bind_ok, hstep,
      Int.tdiv_eq_ediv_of_nonneg hsum, hi, if_neg hindex, hget]
    rfl
  · omega
  · omega

/-! ## Scaled boundaries -/

theorem mul_spec {x c : Nat} {e e' : Int} (hx : x < 2 ^ 64) (hc : c < 2 ^ 64)
    (he : -2000 ≤ e ∧ e ≤ 2000) (he' : -2000 ≤ e' ∧ e' ≤ 2000) :
    DiyFp.mul ⟨x, e⟩ ⟨c, e'⟩ = .ok ⟨roundHalfUp (x * c) (2 ^ 63), e + e' + 64⟩ := by
  have hmul : x * c ≤ (2 ^ 64 - 1) * (2 ^ 64 - 1) := Nat.mul_le_mul (by omega) (by omega)
  have hupper : ((x * c + 2 ^ 63) >>> 64) % 2 ^ 64 = roundHalfUp (x * c) (2 ^ 63) := by
    rw [Nat.shiftRight_eq_div_pow, roundHalfUp]
    omega
  simp only [DiyFp.mul]
  rw [mul_of_lt (by omega), bind_ok, add_of_lt (by omega), bind_ok, i32,
    checked_of_holds (holds_int32.2 (by omega)), bind_ok, i32,
    checked_of_holds (holds_int32.2 (by omega)), bind_ok, hupper]
  rfl

/-- Scaled, the boundaries are in order, and so far apart that 17 digits tell them from each other. -/
theorem scaled_order {F q t c : Nat} (hq : q = 1 ∨ q = 2) (ht : 9 ≤ t) (hF : 0 < F)
    (hratio : 4 * F + 2 ≤ 2 ^ 53 * (q + 2)) (hlow : 2 ^ 63 ≤ 4 * F * 2 ^ t)
    (hhigh : (4 * F + 2) * 2 ^ t < 2 ^ 64) (hc : 2 ^ 63 ≤ c) (hc' : c < 2 ^ 64) {lo mid hi : Nat}
    (hlo : roundHalfUp ((4 * F - q) * 2 ^ t * c) (2 ^ 63) = lo)
    (hmid : roundHalfUp (4 * F * 2 ^ t * c) (2 ^ 63) = mid)
    (hhi : roundHalfUp ((4 * F + 2) * 2 ^ t * c) (2 ^ 63) = hi) :
    lo + 1 ≤ mid ∧ mid ≤ hi - 1 ∧ hi < 2 ^ 64 ∧ 2 ^ 62 ≤ hi ∧
      hi - 1 ≤ 10 ^ 16 * (hi - 1 - (lo + 1)) := by
  have hunit : 2 ^ 9 * 2 ^ 63 ≤ 2 ^ t * c :=
    Nat.mul_le_mul (Nat.pow_le_pow_right (by decide) ht) hc
  have hprod : 2 ^ 63 * 2 ^ 63 ≤ 4 * F * 2 ^ t * c := Nat.mul_le_mul hlow hc
  have hsize : (4 * F + 2) * 2 ^ t * c ≤ (2 ^ 64 - 1) * (2 ^ 64 - 1) :=
    Nat.mul_le_mul (by omega) (by omega)
  have hgap : (4 * F + 2) * (2 ^ t * c) ≤ 2 ^ 53 * (q + 2) * (2 ^ t * c) :=
    Nat.mul_le_mul_right _ hratio
  have hlower : (4 * F - q) * 2 ^ t * c + q * (2 ^ t * c) = 4 * F * (2 ^ t * c) := by
    rw [Nat.mul_assoc, ← Nat.add_mul, Nat.sub_add_cancel (by omega)]
  have hupper : (4 * F + 2) * 2 ^ t * c = 4 * F * (2 ^ t * c) + 2 * (2 ^ t * c) := by
    rw [Nat.mul_assoc, Nat.add_mul]
  have hmiddle : 4 * F * 2 ^ t * c = 4 * F * (2 ^ t * c) := Nat.mul_assoc _ _ _
  have hlo1 := roundHalfUp_mul_le ((4 * F - q) * 2 ^ t * c) (2 ^ 63)
  have hlo2 := lt_roundHalfUp_mul (by decide : 0 < 2 ^ 63) ((4 * F - q) * 2 ^ t * c)
  have hmid1 := roundHalfUp_mul_le (4 * F * 2 ^ t * c) (2 ^ 63)
  have hmid2 := lt_roundHalfUp_mul (by decide : 0 < 2 ^ 63) (4 * F * 2 ^ t * c)
  have hhi1 := roundHalfUp_mul_le ((4 * F + 2) * 2 ^ t * c) (2 ^ 63)
  have hhi2 := lt_roundHalfUp_mul (by decide : 0 < 2 ^ 63) ((4 * F + 2) * 2 ^ t * c)
  rw [hlo] at hlo1 hlo2
  rw [hmid] at hmid1 hmid2
  rw [hhi] at hhi1 hhi2
  rw [Nat.add_mul, Nat.mul_assoc (2 ^ 53), Nat.add_mul q] at hgap
  generalize 4 * F * (2 ^ t * c) = value at *
  generalize (4 * F - q) * 2 ^ t * c = lower at *
  generalize (4 * F + 2) * 2 ^ t * c = upper at *
  generalize 4 * F * 2 ^ t * c = middle at *
  generalize 2 ^ t * c = unit at *
  rcases hq with rfl | rfl
  · refine ⟨?_, ?_, ?_, ?_, ?_⟩ <;> omega
  · refine ⟨?_, ?_, ?_, ?_, ?_⟩ <;> omega

/-! ## The digits -/

/-- digits * 10^exponent. -/
def decimal (digits : List UInt8) (exponent : Int) : ℚ := Decimal.value digits * 10 ^ exponent

theorem Between.decimal {l u s : Nat} {digits : List UInt8} {exponent : Int}
    (h : Between l u s digits exponent) :
    (l : ℚ) ≤ decimal digits exponent * 2 ^ s ∧ decimal digits exponent * 2 ^ s ≤ u := by
  obtain ⟨i, j, rfl, hlow, hup⟩ := h
  have hpos : (0 : ℚ) < 10 ^ j := by positivity
  have hscaled : Dtoa.decimal digits (i - j) * 2 ^ s * 10 ^ j =
      (Decimal.value digits * 10 ^ i * 2 ^ s : Nat) := by
    rw [Dtoa.decimal, zpow_sub₀ (by norm_num), zpow_natCast, zpow_natCast]
    push_cast
    field_simp
  have hlow' : (l : ℚ) * 10 ^ j ≤ (Decimal.value digits * 10 ^ i * 2 ^ s : Nat) := by
    exact_mod_cast hlow
  have hup' : ((Decimal.value digits * 10 ^ i * 2 ^ s : Nat) : ℚ) ≤ u * 10 ^ j := by
    exact_mod_cast hup
  rw [← hscaled] at hlow' hup'
  exact ⟨le_of_mul_le_mul_right hlow' hpos, le_of_mul_le_mul_right hup' hpos⟩

/-- A boundary, in quarters of an ulp, times the cached power. -/
theorem scaled_eq (y : Nat) {t s : Nat} {power e : Int} (k : Int)
    (h : (s : Int) = t - e - 64 - power + 2) :
    ((y * 2 ^ t : Nat) : ℚ) * (10 ^ k / 2 ^ e) / (2 * (2 ^ 63 : Nat)) =
      y / 4 * 2 ^ power * (10 ^ k * 2 ^ s) := by
  have hs : (2 : ℚ) ^ s = 2 ^ t / 2 ^ e / 2 ^ 64 / 2 ^ power * 4 := by
    rw [← zpow_natCast, h, zpow_add₀ two_ne_zero, zpow_sub₀ two_ne_zero, zpow_sub₀ two_ne_zero,
      zpow_sub₀ two_ne_zero, zpow_natCast]
    norm_num
  have hpos : (0 : ℚ) < 2 ^ power := by positivity
  rw [hs]
  push_cast
  field_simp
  norm_num

variable (v : PositiveDouble)

theorem quarters_cases : v.quarters = 1 ∨ v.quarters = 2 := by
  unfold PositiveDouble.quarters
  split
  · exact .inl rfl
  · exact .inr rfl

theorem quarters_ratio : 4 * v.significand + 2 ≤ 2 ^ 53 * (v.quarters + 2) := by
  have hlt := v.significand_lt
  unfold PositiveDouble.quarters
  split
  · next hcloser =>
    rw [v.significand_of_closer hcloser]
    decide
  · omega

/-- What the scaled interval says of the unscaled one. -/
theorem inside_of_between {t s l u : Nat} {c : CachedPower} {digits : List UInt8} {exponent : Int}
    (hc : c.Accurate) (hhigh : (4 * v.significand + 2) * 2 ^ t < 2 ^ 64)
    (hs : (s : Int) = t - c.e - 64 - v.power + 2)
    (hl : roundHalfUp ((4 * v.significand - v.quarters) * 2 ^ t * c.f) (2 ^ 63) + 1 = l)
    (hu : roundHalfUp ((4 * v.significand + 2) * 2 ^ t * c.f) (2 ^ 63) = u + 1)
    (h : Between l u s digits exponent) : v.Inside (decimal digits (-c.k + exponent)) := by
  obtain ⟨hlow, hup⟩ := h.decimal
  have hpos : (0 : ℚ) < 10 ^ c.k * 2 ^ s := by positivity
  have hscale : decimal digits exponent * 2 ^ s =
      decimal digits (-c.k + exponent) * (10 ^ c.k * 2 ^ s) := by
    rw [decimal, decimal, zpow_add₀ (by norm_num), zpow_neg]
    field_simp
  have hquarters : v.quarters ≤ 4 * v.significand := by
    have hF := v.significand_pos
    have hq := quarters_cases v
    omega
  have hlt : (4 * v.significand - v.quarters) * 2 ^ t < 2 * 2 ^ 63 :=
    Nat.lt_of_le_of_lt (Nat.mul_le_mul_right _ (by omega)) hhigh
  have hlower := abs_lt.1 (abs_roundHalfUp_sub_lt (K := ℚ) hlt hc.abs_sub_le)
  have hupper := abs_lt.1 (abs_roundHalfUp_sub_lt (K := ℚ) (m := 2 ^ 63) hhigh hc.abs_sub_le)
  rw [scaled_eq _ _ hs] at hlower hupper
  have hucast : (roundHalfUp ((4 * v.significand + 2) * 2 ^ t * c.f) (2 ^ 63) : ℚ) = u + 1 := by
    exact_mod_cast hu
  have hlcast : (roundHalfUp ((4 * v.significand - v.quarters) * 2 ^ t * c.f) (2 ^ 63) : ℚ) + 1 =
      l := by exact_mod_cast hl
  rw [hscale] at hlow hup
  refine ⟨?_, ?_⟩
  · refine lt_of_mul_lt_mul_right ?_ (le_of_lt hpos)
    have heq : v.value - v.quarters / 4 * v.ulp =
        ((4 * v.significand - v.quarters : Nat) : ℚ) / 4 * 2 ^ v.power := by
      rw [v.value_eq, v.ulp_eq, Nat.cast_sub hquarters]
      push_cast
      ring
    have hstep := neg_lt_sub_iff_lt_add.1 hlower.1
    rw [add_comm, hlcast] at hstep
    rw [heq]
    exact lt_of_lt_of_le hstep hlow
  · refine lt_of_mul_lt_mul_right ?_ (le_of_lt hpos)
    have heq : v.value + 1 / 2 * v.ulp =
        ((4 * v.significand + 2 : Nat) : ℚ) / 4 * 2 ^ v.power := by
      rw [v.value_eq, v.ulp_eq]
      push_cast
      ring
    have hstep := sub_lt_iff_lt_add.1 hupper.2
    rw [hucast, add_comm] at hstep
    rw [heq]
    exact lt_of_le_of_lt hup (lt_of_add_lt_add_left hstep)

/-- `grisu2` ends, without an overflow, an underflow or an index outside the table, and writes a
number inside the rounding interval in at most 17 digits: reading it gives the double. -/
theorem grisu2_inside_interval :
    ∃ digits exponent, (∀ limit, 17 ≤ limit → grisu2 limit v.toBits = .ok (digits, exponent)) ∧
      Written digits ∧ v.Inside (decimal digits exponent) ∧
      ReadAs (decimal digits exponent) v.toBits := by
  have hpower := v.power_bounds
  obtain ⟨t, ht, hlow, hhigh, hboundaries⟩ := computeBoundaries_spec v
  obtain ⟨c, hc, hcached, he, he'⟩ := cachedPowerForBinaryExponent_spec
    (by omega : -1137 ≤ v.power - 2 - t ∧ v.power - 2 - t ≤ 960)
  obtain ⟨haccurate, -, hf, hce, hck⟩ := cachedPowers_checked c hc
  obtain ⟨hlo, hhi, hsize, hlarge, hgap⟩ := scaled_order (quarters_cases v) ht.1 v.significand_pos
    (quarters_ratio v) hlow hhigh hf.1 hf.2 rfl rfl rfl
  obtain ⟨s, hs⟩ : ∃ s : Nat, c.e + (v.power - 2 - t) + 64 = -s :=
    ⟨(-(c.e + (v.power - 2 - t) + 64)).toNat, by omega⟩
  have hsum : v.power - 2 - t + c.e + 64 = -(s : Int) := by omega
  have hone : 2 ^ s ≤ 2 ^ 60 := Nat.pow_le_pow_right (by decide) (by omega)
  obtain ⟨digits, exponent, hgen, hwritten, hexponent, hbetween⟩ :=
    grisu2DigitGen_spec (s := s) (by omega) (by omega) (Nat.succ_pos _) hlo hhi
      (by omega) (by omega) hgap
  have hinside := inside_of_between v haccurate hhigh (by omega) rfl
    (Nat.sub_add_cancel (by omega)).symm hbetween
  refine ⟨digits, -c.k + exponent, fun limit hlimit => ?_, hwritten, hinside, hinside.nearest⟩
  have hmid : 4 * v.significand * 2 ^ t < 2 ^ 64 :=
    Nat.lt_of_le_of_lt (Nat.mul_le_mul_right _ (Nat.le_add_right _ 2)) hhigh
  have hlower : (4 * v.significand - v.quarters) * 2 ^ t < 2 ^ 64 :=
    Nat.lt_of_le_of_lt (Nat.mul_le_mul_right _ (Nat.sub_le _ _)) hmid
  simp only [grisu2, hboundaries, bind_ok, hcached]
  rw [mul_spec hmid hf.2 (by omega) (by omega), bind_ok, mul_spec hlower hf.2 (by omega) (by omega),
    bind_ok, mul_spec hhigh hf.2 (by omega) (by omega), bind_ok, hsum]
  simp only []
  rw [add_of_lt (by omega), bind_ok, sub_of_le (by omega), bind_ok, i32,
    checked_of_holds (holds_int32.2 (by omega)), bind_ok, hgen limit hlimit, bind_ok, i32,
    checked_of_holds (holds_int32.2 (by omega)), bind_ok]
  rfl

/-- 1. -/
def one : PositiveDouble := ⟨1023, 0, by decide, by decide, by decide⟩

theorem grisu2_inside_interval_one :
    ∃ digits exponent, grisu2 17 one.toBits = .ok (digits, exponent) ∧
      ReadAs (decimal digits exponent) one.toBits := by
  obtain ⟨digits, exponent, hrun, -, -, hread⟩ := grisu2_inside_interval one
  exact ⟨digits, exponent, hrun 17 (Nat.le_refl 17), hread⟩

/-- A power of two among the subnormal doubles, which are as close below it as above. -/
def subnormal : PositiveDouble := ⟨0, 128, by decide, by decide, by decide⟩

/-- `2 ^ -1067` is written 6.3e-322, which is more than a quarter of an ulp below it. -/
theorem below_a_quarter :
    subnormal.value = 2 ^ (-1067 : Int) ∧
      grisu2 17 subnormal.toBits = .ok ([54, 51], -323) ∧
      decimal [54, 51] (-323) < subnormal.value - 1 / 4 * subnormal.ulp := by
  have hulp : subnormal.ulp = 2 ^ (-1074 : Int) := subnormal.ulp_eq
  have hvalue : subnormal.value = (128 : Nat) * subnormal.ulp := subnormal.value_eq
  have hdecimal : decimal [54, 51] (-323) = (63 : Nat) * 10 ^ (-323 : Int) := rfl
  have hnat : 252 * 2 ^ 1074 < 511 * 10 ^ 323 := by decide +kernel
  have hlt : (252 : ℚ) * 2 ^ 1074 < 511 * 10 ^ 323 := by exact_mod_cast hnat
  refine ⟨?_, by decide +kernel, ?_⟩
  · have hexp : (-1067 : Int) = 7 + -1074 := rfl
    rw [hvalue, hulp, hexp, zpow_add₀ two_ne_zero]
    norm_num
  · have hten : (0 : ℚ) < 10 ^ 323 := by positivity
    have htwo : (0 : ℚ) < 2 ^ 1074 := by positivity
    rw [hdecimal, hvalue, hulp, zpow_neg, zpow_neg, zpow_ofNat, zpow_ofNat]
    generalize (10 : ℚ) ^ 323 = ten at *
    generalize (2 : ℚ) ^ 1074 = two at *
    rw [← sub_mul, ← div_eq_mul_inv, ← div_eq_mul_inv, div_lt_div_iff₀ hten htwo]
    push_cast
    linarith

end TimePix.Dtoa
