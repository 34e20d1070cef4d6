import EpicsIocs.Lib.Arith
import EpicsIocs.Lib.Faults

/-!
# Words

The operations of `w`-bit unsigned integers in a build with overflow checks: a result out of range, a
division by zero and a shift by `w` or more, or by less than nothing, are panics.  A shift drops the
bits it moves out, in every build.

    add w a b = .ok (a + b)            for `a + b < 2 ^ w`                   (add_of_lt)
    shl w a s = .ok (a * 2 ^ s)        for `s < w` and `a * 2 ^ s < 2 ^ w`   (shl_of_lt)
-/

namespace Words

open Faults Ints

variable {ε α β : Type} {w a b : Nat}

def add (w a b : Nat) : Outcome ε Nat := if a + b < 2 ^ w then .ok (a + b) else panics

def sub (a b : Nat) : Outcome ε Nat := if b ≤ a then .ok (a - b) else panics

def mul (w a b : Nat) : Outcome ε Nat := if a * b < 2 ^ w then .ok (a * b) else panics

def div (a b : Nat) : Outcome ε Nat := if 0 < b then .ok (a / b) else panics

def mod (a b : Nat) : Outcome ε Nat := if 0 < b then .ok (a % b) else panics

def shl (w a : Nat) (s : Int) : Outcome ε Nat :=
  if 0 ≤ s ∧ s < w then .ok (a <<< s.toNat % 2 ^ w) else panics

def shr (w a : Nat) (s : Int) : Outcome ε Nat :=
  if 0 ≤ s ∧ s < w then .ok (a >>> s.toNat) else panics

/-- The numbers added up from the left. -/
def sum (w : Nat) (l : List Nat) : Outcome ε Nat := l.foldlM (add w) 0

/-- A result of the integer type `t`. -/
def checked (t : IntType) (v : Int) : Outcome ε Int := if t.Holds v then .ok v else panics

theorem bind_ok (a : α) (f : α → Outcome ε β) : ((.ok a : Outcome ε α) >>= f) = f a := rfl

theorem add_of_lt (h : a + b < 2 ^ w) : (add w a b : Outcome ε Nat) = .ok (a + b) := if_pos h

theorem foldlM_add {l : List Nat} (h : a + l.sum < 2 ^ w) :
    (l.foldlM (add w) a : Outcome ε Nat) = .ok (a + l.sum) := by
  induction l generalizing a with
  | nil => rfl
  | cons b l ih =>
    rw [List.sum_cons] at h ⊢
    rw [List.foldlM_cons, add_of_lt (by omega), bind_ok, ih (by omega), Nat.add_assoc]

theorem sum_of_lt {l : List Nat} (h : l.sum < 2 ^ w) : (sum w l : Outcome ε Nat) = .ok l.sum := by
  rw [sum, foldlM_add (by omega), Nat.zero_add]

theorem sub_of_le (h : b ≤ a) : (sub a b : Outcome ε Nat) = .ok (a - b) := if_pos h

theorem mul_of_lt (h : a * b < 2 ^ w) : (mul w a b : Outcome ε Nat) = .ok (a * b) := if_pos h

theorem div_of_pos (h : 0 < b) : (div a b : Outcome ε Nat) = .ok (a / b) := if_pos h

theorem mod_of_pos (h : 0 < b) : (mod a b : Outcome ε Nat) = .ok (a % b) := if_pos h

theorem checked_of_holds {t : IntType} {v : Int} (h : t.Holds v) :
    (checked t v : Outcome ε Int) = .ok v := if_pos h

/-- A shift that drops nothing. -/
theorem shl_of_lt {s : Nat} (hs : s < w) (h : a * 2 ^ s < 2 ^ w) :
    (shl w a s : Outcome ε Nat) = .ok (a * 2 ^ s) := by
  have hrange : (0 : Int) ≤ s ∧ (s : Int) < w := by omega
  rw [shl, if_pos hrange, Int.toNat_natCast, Nat.shiftLeft_eq, Nat.mod_eq_of_lt h]

theorem shr_of_lt {s : Nat} (hs : s < w) : (shr w a s : Outcome ε Nat) = .ok (a / 2 ^ s) := by
  have hrange : (0 : Int) ≤ s ∧ (s : Int) < w := by omega
  rw [shr, if_pos hrange, Int.toNat_natCast, Nat.shiftRight_eq_div_pow]

end Words
