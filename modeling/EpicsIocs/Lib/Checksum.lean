import EpicsIocs.Lib.Bytes

/-!
# Complement checksums

The sum of the bytes of a message, and the number that brings it to zero in its low bits: the low
bits of the sum flipped, plus one.

    (total bytes + complement w (total bytes)) % 2 ^ w = 0            (add_complement)
-/

namespace Checksum

def total (bytes : List UInt8) : Nat := (bytes.map UInt8.toNat).sum

def complement (w s : Nat) : Nat := (s ^^^ (2 ^ w - 1)) + 1

theorem total_le (bytes : List UInt8) : total bytes ≤ 255 * bytes.length := by
  induction bytes with
  | nil => exact Nat.le_refl 0
  | cons b bytes ih =>
    have hb := b.toNat_lt
    simp only [total, List.map_cons, List.sum_cons, List.length_cons] at ih ⊢
    omega

/-- Flipping the low bits of a number takes them to their distance from all ones. -/
theorem xor_ones_mod (w s : Nat) : (s ^^^ (2 ^ w - 1)) % 2 ^ w = 2 ^ w - (s % 2 ^ w + 1) := by
  have hs : s % 2 ^ w < 2 ^ w := Nat.mod_lt s (Nat.two_pow_pos w)
  apply Nat.eq_of_testBit_eq
  intro i
  rw [Nat.testBit_two_pow_sub_succ hs, Nat.testBit_mod_two_pow, Nat.testBit_mod_two_pow,
    Nat.testBit_xor, Nat.testBit_two_pow_sub_one]
  by_cases hi : i < w
  · simp [hi]
  · simp [hi]

theorem add_complement (w s : Nat) : (s + complement w s) % 2 ^ w = 0 := by
  have hs : s % 2 ^ w < 2 ^ w := Nat.mod_lt s (Nat.two_pow_pos w)
  have hflip : s % 2 ^ w + (s ^^^ (2 ^ w - 1)) % 2 ^ w + 1 = 2 ^ w := by
    rw [xor_ones_mod]
    omega
  rw [complement, ← Nat.add_assoc, Nat.add_mod, Nat.add_mod s]
  calc ((s % 2 ^ w + (s ^^^ (2 ^ w - 1)) % 2 ^ w) % 2 ^ w + 1 % 2 ^ w) % 2 ^ w
      = (s % 2 ^ w + (s ^^^ (2 ^ w - 1)) % 2 ^ w + 1) % 2 ^ w := by rw [← Nat.add_mod]
    _ = 0 := by rw [hflip, Nat.mod_self]

end Checksum
