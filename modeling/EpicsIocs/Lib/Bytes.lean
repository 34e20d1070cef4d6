import Mathlib.Data.List.Basic
import Mathlib.Tactic.Ring

/-!
# Words and bounded slices of byte strings

`leBytes k n` are the `k` little-endian bytes of `n` (its low `8k` bits),
`leNat` reads them back, and `beBytes`, `beNat` are the big-endian ones:

    leNat (leBytes k n) = n % 256 ^ k          (leNat_leBytes)
    beNat (beBytes k n) = n % 256 ^ k          (beNat_beBytes)

`slice? b i n` is `b[i .. i + n]`, `none` outside the buffer.
-/

namespace Bytes

/-- The low `k` bytes of `n`, least significant first. -/
def leBytes : (k n : Nat) → List UInt8
  | 0, _ => []
  | k + 1, n => UInt8.ofNat n :: leBytes k (n / 256)

/-- The number whose little-endian bytes these are. -/
def leNat : List UInt8 → Nat
  | [] => 0
  | b :: bs => b.toNat + 256 * leNat bs

@[simp] theorem length_leBytes (k n : Nat) : (leBytes k n).length = k := by
  induction k generalizing n with
  | zero => rfl
  | succ k ih => simp [leBytes, ih]

theorem leNat_leBytes (k n : Nat) : leNat (leBytes k n) = n % 256 ^ k := by
  induction k generalizing n with
  | zero => simp [leBytes, leNat, Nat.mod_one]
  | succ k ih =>
    simp only [leBytes, leNat, ih]
    have h1 : (UInt8.ofNat n).toNat = n % 256 := by simp
    rw [h1, Nat.pow_succ', Nat.mod_mul]

theorem leNat_leBytes_of_lt {k n : Nat} (h : n < 256 ^ k) : leNat (leBytes k n) = n := by
  rw [leNat_leBytes, Nat.mod_eq_of_lt h]

theorem leBytes_leNat (bs : List UInt8) : leBytes bs.length (leNat bs) = bs := by
  induction bs with
  | nil => rfl
  | cons b bs ih =>
    have hlt := b.toNat_lt
    have hhead : UInt8.ofNat (leNat (b :: bs)) = b := by
      apply UInt8.toNat_inj.1
      rw [leNat, UInt8.toNat_ofNat']
      omega
    have htail : leNat (b :: bs) / 256 = leNat bs := by
      rw [leNat]
      omega
    rw [List.length_cons, leBytes, hhead, htail, ih]

/-- Bit `8 * i + k` of a little-endian number is bit `k` of its byte `i`. -/
theorem testBit_leNat (bs : List UInt8) (i : Nat) {k : Nat} (hk : k < 8) :
    (leNat bs).testBit (8 * i + k) = (bs.getD i 0).toNat.testBit k := by
  induction bs generalizing i with
  | nil => simp [leNat]
  | cons b bs ih =>
    have hsplit : leNat (b :: bs) = 2 ^ 8 * leNat bs + b.toNat := by
      rw [leNat]
      omega
    rw [hsplit, Nat.testBit_two_pow_mul_add _ b.toNat_lt]
    cases i with
    | zero => simp [hk]
    | succ i =>
      have hge : ¬ 8 * (i + 1) + k < 8 := by omega
      have hsub : 8 * (i + 1) + k - 8 = 8 * i + k := by omega
      rw [if_neg hge, hsub, ih, List.getD_cons_succ]

/-- The number whose big-endian bytes these are. -/
def beNat (bs : List UInt8) : Nat := bs.foldl (fun n b => n * 256 + b.toNat) 0

/-- The low `k` bytes of `n`, most significant first. -/
def beBytes (k n : Nat) : List UInt8 := (leBytes k n).reverse

theorem beNat_concat (bs : List UInt8) (b : UInt8) : beNat (bs ++ [b]) = beNat bs * 256 + b.toNat := by
  simp [beNat]

theorem beNat_reverse (bs : List UInt8) : beNat bs.reverse = leNat bs := by
  induction bs with
  | nil => rfl
  | cons b bs ih =>
    rw [List.reverse_cons, beNat_concat, ih, leNat]
    omega

@[simp] theorem length_beBytes (k n : Nat) : (beBytes k n).length = k := by simp [beBytes]

theorem beNat_beBytes (k n : Nat) : beNat (beBytes k n) = n % 256 ^ k := by
  rw [beBytes, beNat_reverse, leNat_leBytes]

theorem beNat_beBytes_of_lt {k n : Nat} (h : n < 256 ^ k) : beNat (beBytes k n) = n := by
  rw [beNat_beBytes, Nat.mod_eq_of_lt h]

theorem leNat_lt (bs : List UInt8) : leNat bs < 256 ^ bs.length := by
  induction bs with
  | nil => exact Nat.one_pos
  | cons b bs ih =>
    have hb := b.toNat_lt
    rw [leNat, List.length_cons, Nat.pow_succ]
    omega

theorem beNat_lt (bs : List UInt8) : beNat bs < 256 ^ bs.length := by
  have h := leNat_lt bs.reverse
  rwa [← beNat_reverse, List.reverse_reverse, List.length_reverse] at h

/-- `b[i .. i + n]`, when it lies inside `b`. -/
def slice? (b : List UInt8) (i n : Nat) : Option (List UInt8) :=
  if i + n ≤ b.length then some ((b.drop i).take n) else none

/-- Little-endian read of `n` bytes at `i`. -/
def rdNat? (b : List UInt8) (i n : Nat) : Option Nat := (slice? b i n).map leNat

/-- Overwrite `b` from `i` with `src`, when it fits (`false` in the code is `none` here). -/
def overwrite? (b : List UInt8) (i : Nat) (src : List UInt8) : Option (List UInt8) :=
  if i + src.length ≤ b.length then some (b.take i ++ src ++ b.drop (i + src.length)) else none

theorem overwrite?_eq_some {b src b' : List UInt8} {i : Nat} :
    overwrite? b i src = some b' ↔
      i + src.length ≤ b.length ∧ b.take i ++ src ++ b.drop (i + src.length) = b' := by
  unfold overwrite?
  split <;> simp_all

theorem length_of_overwrite? {b src b' : List UInt8} {i : Nat} (h : overwrite? b i src = some b') :
    b'.length = b.length := by
  obtain ⟨hle, rfl⟩ := overwrite?_eq_some.1 h
  simp
  omega

/-- Bytes in front of the overwritten part stay. -/
theorem take_of_overwrite? {b src b' : List UInt8} {i n : Nat} (h : overwrite? b i src = some b')
    (hn : n ≤ i) : b'.take n = b.take n := by
  obtain ⟨hle, rfl⟩ := overwrite?_eq_some.1 h
  rw [List.append_assoc, List.take_append_of_le_length (by simp; omega), List.take_take,
    Nat.min_eq_left hn]

end Bytes
