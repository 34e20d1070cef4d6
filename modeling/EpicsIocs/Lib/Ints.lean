import EpicsIocs.Lib.Bytes
import Mathlib.Algebra.Ring.Int.Defs

/-!
# Integer types of whole bytes

An `IntType` says how wide an integer is and whether it is signed; its values are the
integers it `Holds`.  They are written as little-endian bytes and as decimal text, and read
back from both:

    toLeBytes t (ofLeBytes t b) = b             (toLeBytes_ofLeBytes)
    parse t (decimal v) = some v                (parse_decimal)
-/

namespace Ints

open Bytes

structure IntType where
  signed : Bool
  bytes : Nat
  deriving DecidableEq, Repr

def int8 : IntType := ⟨true, 1⟩
def int16 : IntType := ⟨true, 2⟩
def int32 : IntType := ⟨true, 4⟩
def int64 : IntType := ⟨true, 8⟩
def uint8 : IntType := ⟨false, 1⟩
def uint16 : IntType := ⟨false, 2⟩
def uint32 : IntType := ⟨false, 4⟩
def uint64 : IntType := ⟨false, 8⟩

namespace IntType

variable (t : IntType)

/-- How many values there are. -/
def size : Nat := 256 ^ t.bytes

def lo : Int := if t.signed then -(t.size / 2 : Nat) else 0

/-- One past the largest. -/
def stop : Int := if t.signed then (t.size / 2 : Nat) else t.size

def Holds (v : Int) : Prop := t.lo ≤ v ∧ v < t.stop

instance (v : Int) : Decidable (t.Holds v) := inferInstanceAs (Decidable (_ ∧ _))

/-- A checked conversion. -/
def tryFrom (v : Int) : Option Int := if t.Holds v then some v else none

/-- A value of the type. -/
abbrev Value := { v : Int // t.Holds v }

/-- A checked conversion to the type's own values. -/
def checked (v : Int) : Option t.Value := if h : t.Holds v then some ⟨v, h⟩ else none

/-- Two's complement where the type is signed. -/
def ofLeBytes (b : List UInt8) : Int :=
  let n : Int := leNat b
  if n < t.stop then n else n - t.size

def toLeBytes (v : Int) : List UInt8 := leBytes t.bytes (v % t.size).toNat

end IntType

/-! ## Text -/

/-- Digits, behind a minus sign where the number is negative. -/
def decimal (v : Int) : List Char :=
  if v < 0 then '-' :: Nat.toDigits 10 v.natAbs else Nat.toDigits 10 v.natAbs

/-- At least one digit, and nothing else. -/
def readDigits (text : List Char) : Option Nat :=
  if text.isEmpty || !text.all Char.isDigit then none else some (Nat.ofDigitChars 10 text 0)

/-- A sign may stand in front of the digits, the minus sign only where the type has one. -/
def readDecimal (signed : Bool) (text : List Char) : Option Int :=
  match text with
  | '+' :: digits => (readDigits digits).map fun (n : Nat) => (n : Int)
  | '-' :: digits => if signed then (readDigits digits).map fun (n : Nat) => -(n : Int) else none
  | digits => (readDigits digits).map fun (n : Nat) => (n : Int)

def IntType.parse (t : IntType) (text : List Char) : Option Int :=
  (readDecimal t.signed text).bind t.tryFrom

/-! ## Lemmas -/

namespace IntType

variable {t : IntType}

theorem tryFrom_of_holds {v : Int} (h : t.Holds v) : t.tryFrom v = some v := if_pos h

theorem checked_eq_some {v : Int} {w : t.Value} : t.checked v = some w ↔ w.val = v := by
  rw [checked, Option.dite_none_right_eq_some]
  constructor
  · rintro ⟨_, heq⟩
    rw [← Option.some.inj heq]
  · rintro rfl
    exact ⟨w.property, rfl⟩

theorem checked_eq_none {v : Int} : t.checked v = none ↔ ¬t.Holds v := by
  rw [checked, dite_eq_right_iff]
  constructor
  · intro h hv
    cases h hv
  · intro h hv
    exact absurd hv h

theorem size_even (h : 0 < t.bytes) : 2 * (t.size / 2) = t.size := by
  have hdvd : 2 ∣ t.size := Dvd.dvd.pow (by decide : 2 ∣ 256) (Nat.ne_of_gt h)
  omega

/-- The stop and the first value are the size apart. -/
theorem stop_sub_lo (h : 0 < t.bytes) : t.stop - t.lo = t.size := by
  have heven := size_even h
  unfold stop lo
  split <;> omega

theorem lo_nonpos : t.lo ≤ 0 := by
  unfold lo
  split <;> omega

theorem stop_nonneg : 0 ≤ t.stop := by
  unfold stop
  split <;> omega

theorem leNat_lt_size {b : List UInt8} (hb : b.length = t.bytes) : leNat b < t.size := by
  rw [size, ← hb]
  exact leNat_lt b

theorem ofLeBytes_holds {b : List UInt8} (hb : b.length = t.bytes) (h : 0 < t.bytes) :
    t.Holds (t.ofLeBytes b) := by
  have hlt := leNat_lt_size hb
  have hspan := stop_sub_lo h
  have hlo := t.lo_nonpos
  have hstop := t.stop_nonneg
  unfold ofLeBytes Holds
  dsimp only
  split <;> omega

theorem toLeBytes_ofLeBytes {b : List UInt8} (hb : b.length = t.bytes) :
    t.toLeBytes (t.ofLeBytes b) = b := by
  have hlt := leNat_lt_size hb
  have hmod : t.ofLeBytes b % t.size = leNat b := by
    have hlow : (leNat b : Int) % t.size = leNat b := Int.emod_eq_of_lt (by omega) (by omega)
    unfold ofLeBytes
    dsimp only
    split
    · exact hlow
    · rw [Int.sub_emod, Int.emod_self, Int.sub_zero, Int.emod_emod, hlow]
  rw [toLeBytes, hmod, Int.toNat_natCast, ← hb]
  exact leBytes_leNat b

@[simp] theorem length_toLeBytes (v : Int) : (t.toLeBytes v).length = t.bytes :=
  length_leBytes _ _

end IntType

theorem readDigits_toDigits (n : Nat) : readDigits (Nat.toDigits 10 n) = some n := by
  have hdigits : (Nat.toDigits 10 n).all Char.isDigit = true :=
    List.all_eq_true.2 fun c hc => Nat.isDigit_of_mem_toDigits (by decide) (by decide) hc
  have hsome : (Nat.toDigits 10 n).isEmpty = false := by
    rw [List.isEmpty_eq_false_iff]
    exact Nat.toDigits_ne_nil
  rw [readDigits, hdigits, hsome, if_neg (by decide), Nat.ofDigitChars_ten_toDigits]

/-- The first digit of a number is no sign. -/
theorem readDecimal_toDigits (signed : Bool) (n : Nat) :
    readDecimal signed (Nat.toDigits 10 n) = some (n : Int) := by
  have hread := readDigits_toDigits n
  have hdigit : ∀ c ∈ Nat.toDigits 10 n, c.isDigit = true :=
    fun c hc => Nat.isDigit_of_mem_toDigits (by decide) (by decide) hc
  generalize Nat.toDigits 10 n = text at hread hdigit
  unfold readDecimal
  split
  · exact absurd (hdigit '+' List.mem_cons_self) (by decide)
  · exact absurd (hdigit '-' List.mem_cons_self) (by decide)
  · rw [hread, Option.map_some]

theorem readDecimal_decimal {signed : Bool} {v : Int} (h : signed = true ∨ 0 ≤ v) :
    readDecimal signed (decimal v) = some v := by
  unfold decimal
  split
  · rename_i hneg
    have hsigned : signed = true := h.resolve_right (by omega)
    rw [readDecimal, hsigned, if_pos rfl, readDigits_toDigits, Option.map_some]
    congr 1
    omega
  · rw [readDecimal_toDigits]
    congr 1
    omega

/-- **What is printed reads back.** -/
theorem IntType.parse_decimal {t : IntType} {v : Int} (h : t.Holds v) :
    t.parse (decimal v) = some v := by
  have hsign : t.signed = true ∨ 0 ≤ v := by
    have hlo := h.1
    unfold IntType.lo at hlo
    split at hlo
    · exact .inl ‹_›
    · exact .inr hlo
  rw [parse, readDecimal_decimal hsign, Option.bind_some, tryFrom_of_holds h]

/-- Digits and a minus sign. -/
theorem mem_decimal {v : Int} {c : Char} (h : c ∈ decimal v) : c = '-' ∨ c.isDigit = true := by
  have hdigit : ∀ c ∈ Nat.toDigits 10 v.natAbs, c.isDigit = true :=
    fun c hc => Nat.isDigit_of_mem_toDigits (by decide) (by decide) hc
  unfold decimal at h
  split at h
  · rcases List.mem_cons.1 h with rfl | h
    · exact .inl rfl
    · exact .inr (hdigit c h)
  · exact .inr (hdigit c h)

end Ints
