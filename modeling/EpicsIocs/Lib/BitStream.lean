import Mathlib.Algebra.Group.Nat.Defs
import Mathlib.Algebra.GroupWithZero.Nat
import Mathlib.Algebra.Order.Group.Nat
import EpicsIocs.Lib.Bytes

/-!
# A stream of bits, the lowest first

Fields of given widths are packed into one number, the first field in its lowest bits, and the number
is sent as little-endian bytes.  A reader keeps the bits it has not taken yet in a window, a spill
byte behind it and the bytes to come; read together they are one number again (`content`), and what
the reader does to its parts changes that number in one way only: `n` bits that are taken divide it by
`2 ^ n`.

    Holds r ((n, v) :: fields) → r.window % 2 ^ n = v ∧ Holds (r.take n) fields        (Holds.take)
    Holds r fields → Holds (r.pour n) fields, Holds (r.load b data) fields             (Holds.pour, Holds.load)
-/

namespace BitStream

open Bytes

/-- A field: its width and its value. -/
abbrev Field := Nat × Nat

def width (fields : List Field) : Nat := (fields.map Prod.fst).sum

/-- The number the fields make. -/
def packed : List Field → Nat
  | [] => 0
  | (n, v) :: fields => v + 2 ^ n * packed fields

/-- Every value lies within its width. -/
def Fit (fields : List Field) : Prop := ∀ f ∈ fields, f.2 < 2 ^ f.1

/-- The bits a reader holds: `valids` of them in the window, `spillbits` in the spill, the others in the
bytes to come. -/
structure Reservoir where
  window : Nat
  valids : Nat
  spill : Nat
  spillbits : Nat
  data : List UInt8

namespace Reservoir

def bits (r : Reservoir) : Nat := r.valids + r.spillbits + 8 * r.data.length

def content (r : Reservoir) : Nat :=
  r.window + 2 ^ r.valids * (r.spill % 2 ^ r.spillbits + 2 ^ r.spillbits * leNat r.data)

/-- The window has nothing above its bits. -/
def Clean (r : Reservoir) : Prop := r.window < 2 ^ r.valids

/-- The next byte becomes the spill. -/
def load (r : Reservoir) (b : UInt8) (data : List UInt8) : Reservoir :=
  { r with spill := b.toNat, spillbits := 8, data := data }

/-- The lowest `n` bits of the spill go on top of the window. -/
def pour (r : Reservoir) (n : Nat) : Reservoir :=
  { r with
    window := r.window + 2 ^ r.valids * (r.spill % 2 ^ n), valids := r.valids + n,
    spill := r.spill / 2 ^ n, spillbits := r.spillbits - n }

/-- The lowest `n` bits leave the window. -/
def take (r : Reservoir) (n : Nat) : Reservoir :=
  { r with window := r.window / 2 ^ n, valids := r.valids - n }

end Reservoir

open Reservoir

variable {fields fields' : List Field} {r : Reservoir} {n : Nat}

/-! ## Fields -/

@[simp] theorem width_nil : width [] = 0 := rfl

@[simp] theorem width_cons (f : Field) (fields : List Field) :
    width (f :: fields) = f.1 + width fields := by
  simp [width]

@[simp] theorem width_append (fields fields' : List Field) :
    width (fields ++ fields') = width fields + width fields' := by
  simp [width]

theorem packed_append (fields fields' : List Field) :
    packed (fields ++ fields') = packed fields + 2 ^ width fields * packed fields' := by
  induction fields with
  | nil => simp [packed]
  | cons f fields ih =>
    obtain ⟨n, v⟩ := f
    rw [List.cons_append, packed, packed, ih, width_cons, Nat.pow_add, Nat.mul_add, Nat.mul_assoc,
      Nat.add_assoc]

theorem packed_lt (h : Fit fields) : packed fields < 2 ^ width fields := by
  induction fields with
  | nil => exact Nat.one_pos
  | cons f fields ih =>
    obtain ⟨n, v⟩ := f
    have hv : v < 2 ^ n := h (n, v) List.mem_cons_self
    have hrest := ih fun f hf => h f (List.mem_cons_of_mem _ hf)
    rw [packed, width_cons, Nat.pow_add]
    calc v + 2 ^ n * packed fields < 2 ^ n * 1 + 2 ^ n * packed fields := by omega
      _ = 2 ^ n * (packed fields + 1) := by rw [← Nat.mul_add, Nat.add_comm]
      _ ≤ 2 ^ n * 2 ^ width fields := Nat.mul_le_mul_left _ hrest

/-! ## What a reader holds -/

/-- The next bits are these fields. -/
structure Holds (r : Reservoir) (fields : List Field) : Prop where
  clean : r.Clean
  enough : width fields ≤ r.bits
  next : ∃ rest, r.content = packed fields + 2 ^ width fields * rest

theorem Holds.nil (h : r.Clean) : Holds r [] :=
  ⟨h, Nat.zero_le _, r.content, by simp [packed]⟩

theorem Holds.left (h : Holds r (fields ++ fields')) : Holds r fields := by
  obtain ⟨clean, enough, rest, next⟩ := h
  refine ⟨clean, ?_, packed fields' + 2 ^ width fields' * rest, ?_⟩
  · rw [width_append] at enough
    omega
  · rw [next, packed_append, width_append, Nat.pow_add, Nat.mul_add, Nat.mul_assoc, Nat.add_assoc]

theorem content_load {b : UInt8} {data : List UInt8} (hempty : r.spillbits = 0)
    (hdata : r.data = b :: data) : (r.load b data).content = r.content := by
  have hb : b.toNat % 256 = b.toNat := Nat.mod_eq_of_lt b.toNat_lt
  simp only [load, content, hempty, hdata, leNat, Nat.pow_zero, Nat.mod_one, Nat.one_mul,
    Nat.zero_add, Nat.reducePow, hb]

theorem Holds.load {b : UInt8} {data : List UInt8} (h : Holds r fields) (hempty : r.spillbits = 0)
    (hdata : r.data = b :: data) : Holds (r.load b data) fields := by
  obtain ⟨clean, enough, rest, next⟩ := h
  refine ⟨clean, enough.trans ?_, rest, (content_load hempty hdata).trans next⟩
  simp only [Reservoir.load, bits, hempty, hdata, List.length_cons]
  omega

/-- A number read in two parts. -/
theorem mod_add_div_pow (x : Nat) {n m : Nat} (h : n ≤ m) :
    x % 2 ^ n + 2 ^ n * (x / 2 ^ n % 2 ^ (m - n)) = x % 2 ^ m := by
  rw [show m = n + (m - n) by omega, Nat.pow_add, Nat.mod_mul, Nat.add_sub_cancel_left]

theorem content_pour (hn : n ≤ r.spillbits) : (r.pour n).content = r.content := by
  simp only [pour, content]
  rw [← mod_add_div_pow r.spill hn, Nat.pow_add]
  have hpow : 2 ^ r.spillbits = 2 ^ n * 2 ^ (r.spillbits - n) := by rw [← Nat.pow_add]; congr 1; omega
  rw [hpow]
  ring

theorem Holds.pour (h : Holds r fields) (hn : n ≤ r.spillbits) : Holds (r.pour n) fields := by
  obtain ⟨clean, enough, rest, next⟩ := h
  refine ⟨?_, enough.trans ?_, rest, (content_pour hn).trans next⟩
  · show r.window + 2 ^ r.valids * (r.spill % 2 ^ n) < 2 ^ (r.valids + n)
    have hlt : r.spill % 2 ^ n < 2 ^ n := Nat.mod_lt _ (Nat.two_pow_pos n)
    have hwindow : r.window < 2 ^ r.valids := clean
    calc r.window + 2 ^ r.valids * (r.spill % 2 ^ n)
        < 2 ^ r.valids * 1 + 2 ^ r.valids * (r.spill % 2 ^ n) := by omega
      _ = 2 ^ r.valids * (r.spill % 2 ^ n + 1) := by rw [← Nat.mul_add, Nat.add_comm]
      _ ≤ 2 ^ r.valids * 2 ^ n := Nat.mul_le_mul_left _ hlt
      _ = 2 ^ (r.valids + n) := (Nat.pow_add 2 _ _).symm
  · simp only [Reservoir.pour, bits]
    omega

theorem window_mod (hn : n ≤ r.valids) : r.content % 2 ^ n = r.window % 2 ^ n := by
  obtain ⟨k, hk⟩ := Nat.exists_eq_add_of_le hn
  rw [content, hk, Nat.pow_add, Nat.mul_assoc, Nat.add_mul_mod_self_left]

theorem content_take (hn : n ≤ r.valids) : (r.take n).content = r.content / 2 ^ n := by
  obtain ⟨k, hk⟩ := Nat.exists_eq_add_of_le hn
  simp only [take, content]
  rw [hk, Nat.add_sub_cancel_left, Nat.pow_add, Nat.mul_assoc,
    Nat.add_mul_div_left _ _ (Nat.two_pow_pos n)]

/-- The next field is in the window, and the others are next when it is taken. -/
theorem Holds.take {v : Nat} (h : Holds r ((n, v) :: fields)) (hv : v < 2 ^ n) (hn : n ≤ r.valids) :
    r.window % 2 ^ n = v ∧ Holds (r.take n) fields := by
  obtain ⟨clean, enough, rest, next⟩ := h
  have hnext : r.content = v + 2 ^ n * (packed fields + 2 ^ width fields * rest) := by
    rw [next, packed, width_cons, Nat.pow_add, Nat.mul_add, Nat.mul_assoc, Nat.add_assoc]
  refine ⟨?_, ?_, ?_, rest, ?_⟩
  · rw [← window_mod hn, hnext, Nat.add_mul_mod_self_left, Nat.mod_eq_of_lt hv]
  · show r.window / 2 ^ n < 2 ^ (r.valids - n)
    apply Nat.div_lt_of_lt_mul
    rw [← Nat.pow_add, Nat.add_sub_cancel' hn]
    exact clean
  · simp only [Reservoir.take, bits, width_cons] at enough ⊢
    omega
  · rw [content_take hn, hnext, Nat.add_mul_div_left _ _ (Nat.two_pow_pos n), Nat.div_eq_of_lt hv,
      Nat.zero_add]

/-! ## Bytes that carry fields -/

/-- A reader that has read nothing yet. -/
def ofBytes (data : List UInt8) : Reservoir := ⟨0, 0, 0, 0, data⟩

theorem content_ofBytes (data : List UInt8) : (ofBytes data).content = leNat data := by
  simp [ofBytes, content]

theorem leNat_append (a b : List UInt8) : leNat (a ++ b) = leNat a + 2 ^ (8 * a.length) * leNat b := by
  induction a with
  | nil => simp [leNat]
  | cons x a ih =>
    rw [List.cons_append, leNat, leNat, ih, List.length_cons, Nat.mul_succ, Nat.pow_add]
    ring

/-- Bytes that begin with those of the packed fields, in whole bytes, hold the fields. -/
theorem holds_ofBytes (hfit : Fit fields) {k : Nat} (hk : width fields ≤ 8 * k) (tail : List UInt8) :
    Holds (ofBytes (leBytes k (packed fields) ++ tail)) fields := by
  have hpow : (256 : Nat) ^ k = 2 ^ (8 * k) := by rw [Nat.pow_mul]
  have hlt : packed fields < 256 ^ k := by
    rw [hpow]
    exact (packed_lt hfit).trans_le (Nat.pow_le_pow_right Nat.zero_lt_two hk)
  refine ⟨Nat.one_pos, ?_, 2 ^ (8 * k - width fields) * leNat tail, ?_⟩
  · simp only [ofBytes, bits, List.length_append, length_leBytes]
    omega
  · rw [content_ofBytes, leNat_append, leNat_leBytes_of_lt hlt, length_leBytes, ← Nat.mul_assoc,
      ← Nat.pow_add, Nat.add_sub_cancel' hk]

/-- The low whole bytes of a number are the number of the first bytes. -/
theorem leNat_mod {data : List UInt8} {k : Nat} (hk : k ≤ data.length) :
    leNat data % 2 ^ (8 * k) = leNat (data.take k) := by
  have hlen : (data.take k).length = k := List.length_take_of_le hk
  have hlt : leNat (data.take k) < 2 ^ (8 * k) := by
    have hbound := leNat_lt (data.take k)
    rwa [hlen, show (256 : Nat) = 2 ^ 8 from rfl, ← Nat.pow_mul] at hbound
  calc leNat data % 2 ^ (8 * k)
      = leNat (data.take k ++ data.drop k) % 2 ^ (8 * k) := by rw [List.take_append_drop]
    _ = leNat (data.take k) := by
      rw [leNat_append, hlen, Nat.add_mul_mod_self_left, Nat.mod_eq_of_lt hlt]

/-- Whole bytes in common: the fields that lie in them are held by both. -/
theorem Holds.of_take_eq {data data' : List UInt8} {k : Nat} (h : Holds (ofBytes data) fields)
    (hfit : Fit fields) (hk : width fields ≤ 8 * k) (hlen : k ≤ data'.length)
    (heq : data.take k = data'.take k) : Holds (ofBytes data') fields := by
  obtain ⟨-, -, rest, next⟩ := h
  rw [content_ofBytes] at next
  have hlen' : k ≤ data.length := by
    have hlens := congrArg List.length heq
    rw [List.length_take, List.length_take, Nat.min_eq_left hlen] at hlens
    omega
  have hdvd : 2 ^ width fields ∣ 2 ^ (8 * k) := Nat.pow_dvd_pow 2 hk
  have hlow : leNat data' % 2 ^ width fields = packed fields := by
    rw [← Nat.mod_mod_of_dvd _ hdvd, leNat_mod hlen, ← heq, ← leNat_mod hlen',
      Nat.mod_mod_of_dvd _ hdvd, next, Nat.add_mul_mod_self_left, Nat.mod_eq_of_lt (packed_lt hfit)]
  refine ⟨Nat.one_pos, ?_, leNat data' / 2 ^ width fields, ?_⟩
  · show width fields ≤ 0 + 0 + 8 * data'.length
    omega
  · rw [content_ofBytes, ← hlow, Nat.mod_add_div]

end BitStream
