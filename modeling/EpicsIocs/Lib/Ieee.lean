import Mathlib.Data.Nat.Log
import Mathlib.Order.Monotone.Basic
import Mathlib.Tactic.Ring

/-!
# Binary floating-point formats

`Format.value` is the number that the bits of a format stand for.  Finite numbers are
counted in units of 2⁻¹⁰⁷⁴, the smallest positive number of 64 bits, so that numbers of
different formats can be compared:

    pack g negative (exponent + shift) (fraction * 2 ^ k)   is   pack f negative exponent fraction

where `g` has `k` fraction bits more and a bias larger by `shift` (`number_normal`); a
subnormal number is normalised first (`number_subnormal`).

The non-negative numbers of a format follow one another as their bits do, `spacing` units apart
(`magnitude_succ`).
-/

namespace Ieee

inductive Number where
  | nan
  | infinite (negative : Bool)
  | finite (negative : Bool) (units : Nat)
  deriving DecidableEq, Repr

/-- The smallest positive number is `2 ^ least` units. -/
structure Format where
  exponentBits : Nat
  fractionBits : Nat
  least : Nat

def half : Format := ⟨5, 10, 1050⟩
def single : Format := ⟨8, 23, 925⟩
def double : Format := ⟨11, 52, 0⟩

namespace Format

/-- The number of a sign, a biased exponent and a fraction. -/
def number (f : Format) (negative : Bool) (exponent fraction : Nat) : Number :=
  if exponent = 2 ^ f.exponentBits - 1 then if fraction = 0 then .infinite negative else .nan
  else if exponent = 0 then .finite negative (fraction * 2 ^ f.least)
  else .finite negative ((2 ^ f.fractionBits + fraction) * 2 ^ (exponent - 1 + f.least))

/-- The bits of a sign, a biased exponent and a fraction. -/
def pack (f : Format) (negative : Bool) (exponent fraction : Nat) : Nat :=
  2 ^ f.fractionBits * (2 ^ f.exponentBits * negative.toNat + exponent) + fraction

def value (f : Format) (bits : Nat) : Number :=
  f.number (bits / 2 ^ f.fractionBits / 2 ^ f.exponentBits == 1)
    (bits / 2 ^ f.fractionBits % 2 ^ f.exponentBits) (bits % 2 ^ f.fractionBits)

variable {f g : Format} {negative : Bool} {exponent fraction : Nat}

theorem value_pack (hexponent : exponent < 2 ^ f.exponentBits)
    (hfraction : fraction < 2 ^ f.fractionBits) :
    f.value (f.pack negative exponent fraction) = f.number negative exponent fraction := by
  have hhigh : f.pack negative exponent fraction / 2 ^ f.fractionBits =
      2 ^ f.exponentBits * negative.toNat + exponent := by
    rw [pack, Nat.mul_add_div (Nat.two_pow_pos _), Nat.div_eq_of_lt hfraction, Nat.add_zero]
  have hsign : ((2 ^ f.exponentBits * negative.toNat + exponent) / 2 ^ f.exponentBits == 1) =
      negative := by
    rw [Nat.mul_add_div (Nat.two_pow_pos _), Nat.div_eq_of_lt hexponent]
    cases negative <;> rfl
  have hlow : f.pack negative exponent fraction % 2 ^ f.fractionBits = fraction := by
    rw [pack, Nat.mul_add_mod, Nat.mod_eq_of_lt hfraction]
  rw [value, hhigh, hlow, Nat.mul_add_mod, Nat.mod_eq_of_lt hexponent, hsign]

theorem number_zero (h : 0 < 2 ^ f.exponentBits - 1) : f.number negative 0 0 = .finite negative 0 := by
  rw [number, if_neg (Nat.ne_of_lt h), if_pos rfl, Nat.zero_mul]

/-- Bits that fit are those of their parts. -/
theorem exists_pack {bits : Nat} (h : bits < 2 ^ f.fractionBits * (2 ^ f.exponentBits * 2)) :
    ∃ negative exponent fraction, bits = f.pack negative exponent fraction ∧
      exponent < 2 ^ f.exponentBits ∧ fraction < 2 ^ f.fractionBits := by
  have hhigh : bits / 2 ^ f.fractionBits < 2 ^ f.exponentBits * 2 :=
    Nat.div_lt_of_lt_mul h
  have hsign : bits / 2 ^ f.fractionBits / 2 ^ f.exponentBits < 2 := Nat.div_lt_of_lt_mul hhigh
  refine ⟨bits / 2 ^ f.fractionBits / 2 ^ f.exponentBits == 1,
    bits / 2 ^ f.fractionBits % 2 ^ f.exponentBits, bits % 2 ^ f.fractionBits, ?_,
    Nat.mod_lt _ (Nat.two_pow_pos _), Nat.mod_lt _ (Nat.two_pow_pos _)⟩
  have hbool : (bits / 2 ^ f.fractionBits / 2 ^ f.exponentBits == 1).toNat =
      bits / 2 ^ f.fractionBits / 2 ^ f.exponentBits := by
    generalize bits / 2 ^ f.fractionBits / 2 ^ f.exponentBits = sign at hsign
    have hcases : sign = 0 ∨ sign = 1 := by omega
    rcases hcases with rfl | rfl <;> rfl
  rw [pack, hbool, Nat.div_add_mod, Nat.div_add_mod]

/-- The parts of a number do not overlap. -/
theorem pack_eq_or (hexponent : exponent < 2 ^ f.exponentBits)
    (hfraction : fraction < 2 ^ f.fractionBits) :
    f.pack negative exponent fraction =
      negative.toNat <<< (f.exponentBits + f.fractionBits) ||| exponent <<< f.fractionBits |||
        fraction := by
  have hpow : negative.toNat <<< (f.exponentBits + f.fractionBits) =
      (2 ^ f.exponentBits * negative.toNat) <<< f.fractionBits := by
    simp only [Nat.shiftLeft_eq, Nat.pow_add]
    ring
  rw [pack, Nat.two_pow_add_eq_or_of_lt hfraction, hpow, ← Nat.shiftLeft_or_distrib,
    Nat.two_pow_add_eq_or_of_lt hexponent, Nat.shiftLeft_eq _ f.fractionBits, Nat.mul_comm]

section
variable {shift k : Nat} (hfraction : g.fractionBits = f.fractionBits + k)
  (hleast : f.least = k + shift + g.least)
include hfraction hleast

theorem number_normal (hpos : 0 < exponent) (hlt : exponent < 2 ^ f.exponentBits - 1)
    (hfits : exponent + shift < 2 ^ g.exponentBits - 1) :
    g.number negative (exponent + shift) (fraction * 2 ^ k) =
      f.number negative exponent fraction := by
  obtain ⟨e, rfl⟩ : ∃ e, exponent = e + 1 := ⟨exponent - 1, by omega⟩
  simp only [number, if_neg (Nat.ne_of_lt hlt), if_neg (Nat.ne_of_lt hfits),
    if_neg (Nat.succ_ne_zero e), if_neg (by omega : e + 1 + shift ≠ 0)]
  have hsub : e + 1 + shift - 1 = e + shift := by omega
  rw [hfraction, hleast, hsub]
  simp only [Nat.add_sub_cancel, Nat.pow_add]
  congr 1
  ring

/-- A subnormal number is normal in a wider format: its leading bit is moved up by `up`
and not stored. -/
theorem number_subnormal {up : Nat} (hup : up ≤ shift) (hzero : 0 < 2 ^ f.exponentBits - 1)
    (hfits : shift + 1 - up < 2 ^ g.exponentBits - 1)
    (hlead : 2 ^ f.fractionBits ≤ fraction * 2 ^ up) :
    g.number negative (shift + 1 - up) ((fraction * 2 ^ up - 2 ^ f.fractionBits) * 2 ^ k) =
      f.number negative 0 fraction := by
  obtain ⟨d, rfl⟩ : ∃ d, shift = up + d := ⟨shift - up, by omega⟩
  obtain ⟨low, hlow⟩ : ∃ low, fraction * 2 ^ up = 2 ^ f.fractionBits + low :=
    ⟨fraction * 2 ^ up - 2 ^ f.fractionBits, by omega⟩
  have hsub : up + d + 1 - up = d + 1 := by omega
  rw [hsub] at hfits
  simp only [number, hsub, if_neg (Nat.ne_of_lt hzero), if_neg (Nat.ne_of_lt hfits),
    if_neg (Nat.succ_ne_zero d), if_true, Nat.add_sub_cancel, hlow, Nat.add_sub_cancel_left]
  rw [hfraction, hleast]
  congr 1
  calc (2 ^ (f.fractionBits + k) + low * 2 ^ k) * 2 ^ (d + g.least)
      = (2 ^ f.fractionBits + low) * (2 ^ k * 2 ^ d * 2 ^ g.least) := by
        simp only [Nat.pow_add]
        ring
    _ = fraction * 2 ^ (k + (up + d) + g.least) := by
        rw [← hlow]
        simp only [Nat.pow_add]
        ring

end

/-! ## The numbers in order -/

/-- The units of the non-negative number of these bits, its exponent unbounded: the bits of infinity
stand for the number that would follow the largest one. -/
def magnitude (f : Format) (bits : Nat) : Nat :=
  if bits / 2 ^ f.fractionBits = 0 then bits % 2 ^ f.fractionBits * 2 ^ f.least
  else (2 ^ f.fractionBits + bits % 2 ^ f.fractionBits) *
    2 ^ (bits / 2 ^ f.fractionBits - 1 + f.least)

/-- The units from a number to the next. -/
def spacing (f : Format) (bits : Nat) : Nat := 2 ^ (bits / 2 ^ f.fractionBits - 1 + f.least)

theorem magnitude_pack (hfraction : fraction < 2 ^ f.fractionBits) :
    f.magnitude (f.pack false exponent fraction) =
      if exponent = 0 then fraction * 2 ^ f.least
      else (2 ^ f.fractionBits + fraction) * 2 ^ (exponent - 1 + f.least) := by
  have hpack : f.pack false exponent fraction = 2 ^ f.fractionBits * exponent + fraction := by
    simp [pack]
  have hdiv : (2 ^ f.fractionBits * exponent + fraction) / 2 ^ f.fractionBits = exponent := by
    rw [Nat.mul_add_div (Nat.two_pow_pos _), Nat.div_eq_of_lt hfraction, Nat.add_zero]
  rw [hpack, magnitude, hdiv, Nat.mul_add_mod, Nat.mod_eq_of_lt hfraction]

theorem value_of_lt {bits : Nat} (h : bits < (2 ^ f.exponentBits - 1) * 2 ^ f.fractionBits) :
    f.value bits = .finite false (f.magnitude bits) := by
  have hexponent : bits / 2 ^ f.fractionBits < 2 ^ f.exponentBits - 1 :=
    (Nat.div_lt_iff_lt_mul (Nat.two_pow_pos _)).2 h
  have hlt := Nat.lt_of_lt_of_le hexponent (Nat.sub_le _ 1)
  rw [value, Nat.div_eq_of_lt hlt, Nat.mod_eq_of_lt hlt, number, if_neg (Nat.ne_of_lt hexponent), magnitude]
  split <;> rfl

theorem magnitude_succ (f : Format) (bits : Nat) :
    f.magnitude (bits + 1) = f.magnitude bits + f.spacing bits := by
  have hpos := Nat.two_pow_pos f.fractionBits
  have hlt := Nat.mod_lt bits hpos
  have hbits := Nat.div_add_mod bits (2 ^ f.fractionBits)
  unfold magnitude spacing
  generalize bits / 2 ^ f.fractionBits = e at hbits
  generalize bits % 2 ^ f.fractionBits = r at hbits hlt
  generalize 2 ^ f.fractionBits = m at hpos hlt hbits
  subst hbits
  by_cases hcarry : r + 1 = m
  · -- the next number begins the next binade
    have hnext : m * e + r + 1 = m * (e + 1) := by
      rw [Nat.mul_succ]
      omega
    rw [hnext, Nat.mul_div_cancel_left _ hpos, Nat.mul_mod_right, if_neg (Nat.succ_ne_zero e),
      Nat.add_sub_cancel, Nat.add_zero, ← hcarry]
    cases e with
    | zero => simp [Nat.add_mul]
    | succ e =>
      rw [if_neg (Nat.succ_ne_zero e), Nat.add_sub_cancel, Nat.add_right_comm e 1, Nat.pow_succ]
      ring
  · have hsame : m * e + r + 1 = m * e + (r + 1) := Nat.add_assoc _ _ _
    have hfits : r + 1 < m := by omega
    rw [hsame, Nat.mul_add_div hpos, Nat.div_eq_of_lt hfits, Nat.mul_add_mod,
      Nat.mod_eq_of_lt hfits, Nat.add_zero]
    split
    · next hzero => rw [hzero, Nat.zero_sub, Nat.zero_add, Nat.add_mul, Nat.one_mul]
    · rw [← Nat.add_assoc, Nat.add_mul _ 1, Nat.one_mul]

theorem magnitude_strictMono (f : Format) : StrictMono f.magnitude := by
  refine strictMono_nat_of_lt_succ fun bits => ?_
  rw [magnitude_succ]
  exact Nat.lt_add_of_pos_right (Nat.two_pow_pos _)

end Format

end Ieee
