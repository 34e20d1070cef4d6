import EpicsIocs.Lib.Decimal
import Mathlib.Algebra.Order.Ring.Nat

/-!
# Digits up to a gap

The decimal digits of a number are taken one by one, until no more than a `gap` is left of the
number; the last one is then lowered while what is left stays within the gap.  `Pending` is what
holds before a digit, `Generated` after one:

    Pending total gap digits (10 * unit) (d * unit + rest)  →
      Generated total gap digits d unit rest                                  (Pending.generated)
    Generated … rest, gap < rest  →  Pending … rest                           (Generated.pending)
    Generated … d unit rest, rest + unit ≤ gap  →
      Generated … (d - 1) unit (rest + unit), which is a digit, not a leading 0  (Generated.lower)

No more than `n + 1` digits are taken where the number is at most `10 ^ n` gaps (`Pending.length_le`).
-/

namespace DigitGen

open Decimal

/-- The digit `d` as text. -/
def digit (d : Nat) : UInt8 := UInt8.ofNat (48 + d)

variable {total gap unit rest d : Nat} {digits : List UInt8}

theorem toNat_digit (h : d < 10) : (digit d).toNat = 48 + d := by
  rw [digit, UInt8.toNat_ofNat']
  omega

theorem isDigit_digit (h : d < 10) : isDigit (digit d) = true := by
  rw [isDigit_iff, toNat_digit h]
  omega

theorem digit_eq_zero (h : d < 10) : digit d = 48 ↔ d = 0 := by
  constructor
  · intro heq
    have hnat := congrArg UInt8.toNat heq
    rw [toNat_digit h] at hnat
    have h48 : (48 : UInt8).toNat = 48 := rfl
    omega
  · rintro rfl
    rfl

theorem value_digit (h : d < 10) : value (digits ++ [digit d]) = value digits * 10 + d := by
  rw [value_concat, toNat_digit h]
  omega

/-- The number that digits with no leading 0 stand for. -/
theorem le_value (hall : digits.all isDigit = true) (hlead : digits.head? ≠ some 48)
    (hne : digits ≠ []) : 10 ^ (digits.length - 1) ≤ value digits := by
  induction digits using List.reverseRecOn with
  | nil => exact absurd rfl hne
  | append_singleton front c ih =>
    rw [List.all_append, Bool.and_eq_true, List.all_cons, List.all_nil, Bool.and_true,
      isDigit_iff] at hall
    rw [List.length_append, List.length_singleton, Nat.add_sub_cancel, value_concat]
    cases front with
    | nil =>
      have hc : c.toNat ≠ 48 := by
        intro h
        have h48 : c = 48 := UInt8.toNat_inj.1 h
        exact hlead (congrArg some h48)
      show 1 ≤ 0 * 10 + (c.toNat - 48)
      omega
    | cons first more =>
      have hih := ih hall.1 hlead (by simp)
      rw [List.length_cons, Nat.add_sub_cancel] at hih
      rw [List.length_cons, Nat.pow_succ]
      omega

/-- Before a digit: `rest` is left, more than the gap, and it is less than one of the last digit. -/
structure Pending (total gap : Nat) (digits : List UInt8) (unit rest : Nat) : Prop where
  sum : value digits * unit + rest = total
  rest_lt : rest < unit
  gap_lt : gap < rest
  all : digits.all isDigit = true
  leading : digits.head? ≠ some 48
  first : digits = [] → unit ≤ 10 * rest

/-- After the digit `d`: what was left before it was more than the gap. -/
structure Generated (total gap : Nat) (digits : List UInt8) (d unit rest : Nat) : Prop where
  sum : value (digits ++ [digit d]) * unit + rest = total
  gap_lt : gap < d * unit + rest
  lt_ten : d < 10
  all : (digits ++ [digit d]).all isDigit = true
  leading : (digits ++ [digit d]).head? ≠ some 48

theorem Pending.start (hgap : gap < total) (htotal : total < unit) (hunit : unit ≤ 10 * total) :
    Pending total gap [] unit total :=
  ⟨by simp [value], htotal, hgap, rfl, by simp, fun _ => hunit⟩

theorem Pending.scale (h : Pending total gap digits unit rest) {c : Nat} (hc : 0 < c) :
    Pending (c * total) (c * gap) digits (c * unit) (c * rest) := by
  refine ⟨?_, Nat.mul_lt_mul_of_pos_left h.rest_lt hc, Nat.mul_lt_mul_of_pos_left h.gap_lt hc, h.all,
    h.leading, fun hnil => ?_⟩
  · rw [← h.sum, Nat.mul_add, Nat.mul_left_comm]
  · have hfirst := Nat.mul_le_mul_left c (h.first hnil)
    rwa [Nat.mul_left_comm] at hfirst

theorem Pending.generated (h : Pending total gap digits (10 * unit) (d * unit + rest))
    (hrest : rest < unit) : Generated total gap digits d unit rest := by
  have hten : d < 10 := by
    have hlt := h.rest_lt
    have hmul : d * unit < 10 * unit := by omega
    exact Nat.lt_of_mul_lt_mul_right hmul
  refine ⟨?_, h.gap_lt, hten, ?_, ?_⟩
  · rw [value_digit hten, ← h.sum, Nat.add_mul, Nat.mul_assoc, Nat.add_assoc]
  · rw [List.all_append, h.all, List.all_cons, List.all_nil, isDigit_digit hten]
    rfl
  · cases hdigits : digits with
    | nil =>
      have hfirst := h.first hdigits
      have hpos : d ≠ 0 := by
        rintro rfl
        omega
      intro hzero
      exact hpos ((digit_eq_zero hten).1 (Option.some.inj hzero))
    | cons c more =>
      have hleading := h.leading
      rw [hdigits] at hleading
      exact hleading

theorem Generated.pending (h : Generated total gap digits d unit rest) (hrest : rest < unit)
    (hgap : gap < rest) : Pending total gap (digits ++ [digit d]) unit rest :=
  ⟨h.sum, hrest, hgap, h.all, h.leading, fun hnil => absurd hnil (by simp)⟩

/-- Lowering the last digit leaves one more unit. -/
theorem Generated.lower (h : Generated total gap digits d unit rest) (hgap : rest + unit ≤ gap) :
    0 < d ∧ Generated total gap digits (d - 1) unit (rest + unit) := by
  have hpending := h.gap_lt
  have hlarge : 1 < d := by
    by_contra hsmall
    have hmul : d * unit ≤ 1 * unit := Nat.mul_le_mul_right unit (by omega)
    omega
  obtain ⟨e, rfl⟩ : ∃ e, d = e + 1 := ⟨d - 1, by omega⟩
  have hten := h.lt_ten
  have hsum := h.sum
  have hall := h.all
  rw [value_digit hten, Nat.add_mul, Nat.add_mul, Nat.one_mul] at hsum
  rw [Nat.add_mul, Nat.one_mul] at hpending
  rw [List.all_append, Bool.and_eq_true] at hall
  refine ⟨Nat.succ_pos e, ?_, ?_, ?_, ?_, ?_⟩
  · rw [Nat.add_sub_cancel, value_digit (by omega), Nat.add_mul]
    omega
  · rw [Nat.add_sub_cancel]
    omega
  · omega
  · rw [List.all_append, hall.1, Nat.add_sub_cancel, List.all_cons, List.all_nil,
      isDigit_digit (by omega)]
    rfl
  · cases hdigits : digits with
    | nil =>
      intro hzero
      have heq := (digit_eq_zero (by omega)).1 (Option.some.inj hzero)
      omega
    | cons c more =>
      have hleading := h.leading
      rw [hdigits] at hleading
      exact hleading

/-- How many digits there are while more than the gap is left. -/
theorem Pending.length_le (h : Pending total gap digits unit rest) {n : Nat}
    (htotal : total ≤ 10 ^ n * gap) : digits.length ≤ n := by
  cases hdigits : digits with
  | nil => exact Nat.zero_le n
  | cons c more =>
    have hvalue := le_value h.all h.leading (by rw [hdigits]; exact List.cons_ne_nil c more)
    rw [hdigits, List.length_cons, Nat.add_sub_cancel] at hvalue
    have hsum := h.sum
    have hrest := h.rest_lt
    have hgap := h.gap_lt
    have hpow : 10 ^ more.length * unit < 10 ^ n * unit := by
      calc 10 ^ more.length * unit
          ≤ value digits * unit := by rw [hdigits]; exact Nat.mul_le_mul_right unit hvalue
        _ ≤ total := by omega
        _ ≤ 10 ^ n * gap := htotal
        _ < 10 ^ n * unit := Nat.mul_lt_mul_of_pos_left (by omega) (Nat.pow_pos (by decide))
    have hlt : 10 ^ more.length < 10 ^ n := Nat.lt_of_mul_lt_mul_right hpow
    exact (Nat.pow_lt_pow_iff_right (by decide)).1 hlt

end DigitGen
