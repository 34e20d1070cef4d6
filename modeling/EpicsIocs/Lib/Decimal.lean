import EpicsIocs.Lib.Bytes
import Mathlib.Data.List.Induction

/-!
# Decimal fields of a fixed width

`field k n` are the last `k` decimal digits of `n` as text, `value` is the number digits stand for:

    value (field k n) = n % 10 ^ k                           (value_field)
    field d.length (value d) = d      when all of `d` are digits   (field_value)

and what a reader that goes through a text from the front, slice by slice, has read of it
(`slice?_append`, `take_of_slice?`).
-/

namespace Decimal

open Bytes

/-- `u8::is_ascii_digit`. -/
def isDigit (c : UInt8) : Bool := 48 ≤ c && c ≤ 57

def value (digits : List UInt8) : Nat := digits.foldl (fun a c => a * 10 + (c.toNat - 48)) 0

/-- The last `k` digits of `n`. -/
def field : (k n : Nat) → List UInt8
  | 0, _ => []
  | k + 1, n => field k (n / 10) ++ [UInt8.ofNat (48 + n % 10)]

@[simp] theorem length_field (k n : Nat) : (field k n).length = k := by
  induction k generalizing n with
  | zero => rfl
  | succ k ih => simp [field, ih]

theorem isDigit_iff {c : UInt8} : isDigit c = true ↔ 48 ≤ c.toNat ∧ c.toNat ≤ 57 := by
  unfold isDigit
  rw [Bool.and_eq_true, decide_eq_true_eq, decide_eq_true_eq, UInt8.le_iff_toNat_le,
    UInt8.le_iff_toNat_le]
  rfl

theorem toNat_digit (n : Nat) : (UInt8.ofNat (48 + n % 10)).toNat = 48 + n % 10 := by
  rw [UInt8.toNat_ofNat']
  omega

theorem value_concat (digits : List UInt8) (c : UInt8) :
    value (digits ++ [c]) = value digits * 10 + (c.toNat - 48) := by
  simp [value]

theorem all_isDigit_field (k n : Nat) : (field k n).all isDigit = true := by
  induction k generalizing n with
  | zero => rfl
  | succ k ih =>
    have hlast : isDigit (UInt8.ofNat (48 + n % 10)) = true := by
      rw [isDigit_iff, toNat_digit]
      omega
    rw [field, List.all_append, ih, List.all_cons, List.all_nil, hlast]
    rfl

theorem value_field (k n : Nat) : value (field k n) = n % 10 ^ k := by
  induction k generalizing n with
  | zero => simp [field, value, Nat.mod_one]
  | succ k ih =>
    rw [field, value_concat, ih, toNat_digit, Nat.pow_succ', Nat.mod_mul]
    omega

theorem value_field_of_lt {k n : Nat} (h : n < 10 ^ k) : value (field k n) = n := by
  rw [value_field, Nat.mod_eq_of_lt h]

theorem field_value {digits : List UInt8} (h : digits.all isDigit = true) :
    field digits.length (value digits) = digits := by
  induction digits using List.reverseRecOn with
  | nil => rfl
  | append_singleton digits c ih =>
    rw [List.all_append, Bool.and_eq_true, List.all_cons, List.all_nil, Bool.and_true,
      isDigit_iff] at h
    have hdiv : (value digits * 10 + (c.toNat - 48)) / 10 = value digits := by omega
    have hmod : 48 + (value digits * 10 + (c.toNat - 48)) % 10 = c.toNat := by omega
    rw [List.length_append, List.length_singleton, value_concat, field, hdiv, hmod, ih h.1]
    simp

theorem value_lt {digits : List UInt8} (h : digits.all isDigit = true) :
    value digits < 10 ^ digits.length := by
  have hvalue := value_field digits.length (value digits)
  rw [field_value h] at hvalue
  rw [hvalue]
  exact Nat.mod_lt _ (Nat.pow_pos (by decide))

/-! ## A text read from the front -/

theorem slice?_append (front x back : List UInt8) {i n : Nat} (hi : front.length = i)
    (hn : x.length = n) : slice? (front ++ (x ++ back)) i n = some x := by
  subst hi hn
  rw [slice?, if_pos (by simp), List.drop_left, List.take_left]

theorem getElem?_append_cons (front : List UInt8) (c : UInt8) (back : List UInt8) {i : Nat}
    (hi : front.length = i) : (front ++ c :: back)[i]? = some c := by
  subst hi
  simp

theorem length_of_slice? {b x : List UInt8} {i n : Nat} (h : slice? b i n = some x) :
    x.length = n := by
  unfold slice? at h
  split at h
  · next hle =>
    obtain rfl := Option.some.inj h
    rw [List.length_take, List.length_drop]
    omega
  · cases h

theorem take_of_slice? {b x : List UInt8} {i n : Nat} (h : slice? b i n = some x) :
    b.take (i + n) = b.take i ++ x := by
  unfold slice? at h
  split at h
  · obtain rfl := Option.some.inj h
    rw [List.take_add]
  · cases h

theorem take_of_getElem? {b : List UInt8} {i : Nat} {c : UInt8} (h : b[i]? = some c) :
    b.take (i + 1) = b.take i ++ [c] := by
  rw [List.take_add_one, h, Option.toList_some]

end Decimal
