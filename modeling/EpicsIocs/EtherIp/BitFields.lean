import Mathlib.Data.List.GetD
import EpicsIocs.EtherIp.Accessors

/-! # Bit fields in a BOOL array

`get_bits` and `put_bits` (`device.rs`) walk a run of bits through the 32-bit elements of a BITS or
DINT buffer, each with a mask of its own.  In terms of the bits of the buffer, of which the run has
those from `runStart element m` on,

    getBits … = .ok v ↔ the run lies inside the buffer and v has its bits    (getBits_eq_ok)
    putBits … = .ok (true, raw') where raw' differs from raw in the run only (putBits_spec)

for element numbers whose offset is a `usize`.  Beyond them a build without overflow checks wraps
the offset around, and a far element is one of the first ones (`far_element_aliases`). -/

namespace EtherIp.Raw

open Bytes Faults Machine

variable {F : Type} (conv : Floats F) (checks : Bool)

/-! ## The code -/

/-- The bits of a read from `i` on: `n` more, `value` is the element that the mask is in. -/
def getBitsLoop (raw : List UInt8) :
    (n i element : Nat) → (mask value rval : BitVec 32) → Outcome Unit (BitVec 32)
  | 0, _, _, _, _, rval => .ok rval
  | n + 1, i, element, mask, value, rval =>
    let mask := mask <<< 1
    if mask = 0 then
      (add checks element 1).bind fun element =>
      (getUdint conv checks raw element).bind fun value =>
      getBitsLoop raw n (i + 1) element 1 value
        (if value &&& 1 ≠ 0 then rval ||| (1 : BitVec 32) <<< i else rval)
    else
      getBitsLoop raw n (i + 1) element mask value
        (if value &&& mask ≠ 0 then rval ||| (1 : BitVec 32) <<< i else rval)

def getBits (raw : List UInt8) (element : Nat) (mask : BitVec 32) (bits : Nat) :
    Outcome Unit (BitVec 32) :=
  (getUdint conv checks raw element).bind fun value =>
  getBitsLoop conv checks raw (bits - 1) 1 element mask value
    (if value &&& mask ≠ 0 then 1 else 0)

/-- `value` with the bit of the mask as the lowest of `rval`. -/
def setMasked (value mask rval : BitVec 32) : BitVec 32 :=
  if rval &&& 1 ≠ 0 then value ||| mask else value &&& ~~~mask

/-- The answer of `put_bits` and the buffer behind it. -/
def putBitsLoop : (raw : List UInt8) → (n element : Nat) → (mask value rval : BitVec 32) →
    Outcome Unit (Bool × List UInt8)
  | raw, 0, element, _, value, _ => putUdint conv checks raw element value
  | raw, n + 1, element, mask, value, rval =>
    let rval := rval >>> 1
    let mask := mask <<< 1
    if mask = 0 then
      (putUdint conv checks raw element value).bind fun r =>
      if !r.1 then .ok (false, r.2)
      else
        (add checks element 1).bind fun element =>
        match getUdint conv checks r.2 element with
        | .ok value => putBitsLoop r.2 n element 1 (setMasked value 1 rval) rval
        | .error .panic => panics
        | .error (.error ()) => .ok (false, r.2)
    else putBitsLoop raw n element mask (setMasked value mask rval) rval

def putBits (raw : List UInt8) (element : Nat) (mask : BitVec 32) (bits : Nat) (rval : BitVec 32) :
    Outcome Unit (Bool × List UInt8) :=
  match getUdint conv checks raw element with
  | .ok value => putBitsLoop conv checks raw (bits - 1) element mask (setMasked value mask rval) rval
  | .error .panic => panics
  | .error (.error ()) => .ok (false, raw)

/-! ## Bits of a buffer -/

/-- Bit `k` of a buffer. -/
def bitAt (raw : List UInt8) (k : Nat) : Bool := (raw.getD (k / 8) 0).toNat.testBit (k % 8)

/-- Where an element's word is, in bytes. -/
def wordOff (element : Nat) : Nat := typecodeSize + element * 4

/-- The first bit of a run, in the buffer. -/
def runStart (element m : Nat) : Nat := 8 * wordOff element + m

/-- The word of an element. -/
def word (raw : List UInt8) (element : Nat) : BitVec 32 :=
  BitVec.ofNat 32 (leNat ((raw.drop (wordOff element)).take 4))

/-- The buffer with the word of an element. -/
def setWord (raw : List UInt8) (element : Nat) (value : BitVec 32) : List UInt8 :=
  raw.take (wordOff element) ++ leBytes 4 value.toNat ++ raw.drop (wordOff element + 4)

def Inside (raw : List UInt8) (element : Nat) : Prop := wordOff element + 4 ≤ raw.length

instance (raw : List UInt8) (element : Nat) : Decidable (Inside raw element) :=
  inferInstanceAs (Decidable (_ ≤ _))

/-- A buffer of 32-bit words, as long as a slice can be. -/
structure Words (raw : List UInt8) : Prop where
  type : typecode raw = some .dint ∨ typecode raw = some .bits
  length : raw.length ≤ isizeMax

theorem bitAt_append_left {a : List UInt8} (b : List UInt8) {k : Nat} (h : k < 8 * a.length) :
    bitAt (a ++ b) k = bitAt a k := by
  unfold bitAt
  rw [List.getD_append _ _ _ _ (by omega)]

theorem bitAt_append_right {a : List UInt8} (b : List UInt8) {k : Nat} (h : 8 * a.length ≤ k) :
    bitAt (a ++ b) k = bitAt b (k - 8 * a.length) := by
  unfold bitAt
  rw [List.getD_append_right _ _ _ _ (by omega), show (k - 8 * a.length) % 8 = k % 8 by omega,
    show (k - 8 * a.length) / 8 = k / 8 - a.length by omega]

theorem bitAt_drop (a : List UInt8) (n k : Nat) : bitAt (a.drop n) k = bitAt a (8 * n + k) := by
  unfold bitAt
  simp only [List.getD_eq_getElem?_getD, List.getElem?_drop]
  rw [show (8 * n + k) / 8 = n + k / 8 by omega, show (8 * n + k) % 8 = k % 8 by omega]

theorem bitAt_take {a : List UInt8} {n k : Nat} (h : k < 8 * n) : bitAt (a.take n) k = bitAt a k := by
  unfold bitAt
  simp only [List.getD_eq_getElem?_getD]
  rw [List.getElem?_take_of_lt (by omega)]

/-- The bits of little-endian bytes are those of the number. -/
theorem testBit_leNat' (b : List UInt8) (k : Nat) : (leNat b).testBit k = bitAt b k := by
  have hk : k = 8 * (k / 8) + k % 8 := by omega
  conv_lhs => rw [hk]
  exact testBit_leNat b (k / 8) (Nat.mod_lt _ (by decide))

theorem eq_of_bitAt {a b : List UInt8} (hlen : a.length = b.length)
    (h : ∀ k, bitAt a k = bitAt b k) : a = b := by
  apply List.ext_getElem hlen
  intro i ha hb
  apply UInt8.toNat_inj.1
  apply Nat.eq_of_testBit_eq
  intro j
  by_cases hj : j < 8
  · have hbit := h (8 * i + j)
    unfold bitAt at hbit
    rwa [show (8 * i + j) / 8 = i by omega, show (8 * i + j) % 8 = j by omega,
      List.getD_eq_getElem _ _ ha, List.getD_eq_getElem _ _ hb] at hbit
  · have hlt : ∀ c : UInt8, c.toNat.testBit j = false := fun c =>
      Nat.testBit_lt_two_pow (Nat.lt_of_lt_of_le c.toNat_lt
        (Nat.pow_le_pow_right (by decide) (Nat.le_of_not_lt hj)))
    rw [hlt, hlt]

theorem getLsbD_word {raw : List UInt8} {element : Nat} {j : Nat} (hj : j < 32) :
    (word raw element).getLsbD j = bitAt raw (runStart element j) := by
  rw [word, BitVec.getLsbD_ofNat, decide_eq_true hj, Bool.true_and, testBit_leNat',
    bitAt_take (by omega), bitAt_drop]
  rfl

theorem length_setWord {raw : List UInt8} {element : Nat} (h : Inside raw element)
    (value : BitVec 32) : (setWord raw element value).length = raw.length := by
  unfold Inside at h
  simp only [setWord, List.length_append, List.length_take, length_leBytes, List.length_drop]
  omega

theorem bitAt_setWord {raw : List UInt8} {element : Nat} (h : Inside raw element)
    (value : BitVec 32) (k : Nat) :
    bitAt (setWord raw element value) k =
      if runStart element 0 ≤ k ∧ k < runStart element 32 then
        value.getLsbD (k - runStart element 0)
      else bitAt raw k := by
  have hstart : runStart element 0 = 8 * wordOff element := rfl
  have hstop : runStart element 32 = 8 * wordOff element + 32 := rfl
  have hfront : (raw.take (wordOff element)).length = wordOff element := by
    unfold Inside at h
    rw [List.length_take]
    omega
  have hmid : (raw.take (wordOff element) ++ leBytes 4 value.toNat).length =
      wordOff element + 4 := by
    rw [List.length_append, hfront, length_leBytes]
  unfold Inside at h
  unfold setWord
  by_cases hlow : k < runStart element 0
  · rw [if_neg (by omega), bitAt_append_left _ (by omega), bitAt_append_left _ (by omega),
      bitAt_take (by omega)]
  · by_cases hhigh : k < runStart element 32
    · rw [if_pos ⟨by omega, hhigh⟩, bitAt_append_left _ (by omega),
        bitAt_append_right _ (by omega), hfront, ← testBit_leNat',
        leNat_leBytes_of_lt value.isLt, BitVec.testBit_toNat]
      congr 1
    · rw [if_neg (by omega), bitAt_append_right _ (by omega), hmid, bitAt_drop]
      congr 1
      omega

/-! ## One word -/

theorem two_pow_eq (m : Nat) : (1 : BitVec 32) <<< m = BitVec.twoPow 32 m := by
  rw [BitVec.twoPow_eq]
  rfl

theorem mask_next (m : Nat) : BitVec.twoPow 32 m <<< 1 = BitVec.twoPow 32 (m + 1) := by
  rw [BitVec.twoPow_eq, BitVec.twoPow_eq, ← BitVec.shiftLeft_add]

theorem mask_eq_zero {m : Nat} : BitVec.twoPow 32 m = 0 ↔ 32 ≤ m := by
  constructor
  · intro h
    by_contra hlt
    have hbit := congrArg (·.getLsbD m) h
    simp only [BitVec.getLsbD_twoPow] at hbit
    simp at hbit
    omega
  · intro h
    apply BitVec.eq_of_getLsbD_eq
    intro i hi
    simp only [BitVec.getLsbD_twoPow]
    simp
    omega

theorem mask_test {m : Nat} (hm : m < 32) (value : BitVec 32) :
    value &&& BitVec.twoPow 32 m ≠ 0 ↔ value.getLsbD m = true := by
  have hne : BitVec.twoPow 32 m ≠ 0 := fun h => by
    have := mask_eq_zero.1 h
    omega
  rw [BitVec.and_twoPow]
  cases value.getLsbD m with
  | true => simpa using hne
  | false => simp

theorem getLsbD_setMasked {m j : Nat} (hj : j < 32) (value rval : BitVec 32) :
    (setMasked value (BitVec.twoPow 32 m) rval).getLsbD j =
      if j = m then rval.getLsbD 0 else value.getLsbD j := by
  have htest : rval &&& 1 ≠ 0 ↔ rval.getLsbD 0 = true := mask_test (m := 0) (by decide) rval
  unfold setMasked
  by_cases hr : rval.getLsbD 0 = true
  · rw [if_pos (htest.2 hr), BitVec.getLsbD_or, BitVec.getLsbD_twoPow, hr]
    by_cases hjm : j = m
    · subst hjm
      simp [hj]
    · rw [if_neg hjm, decide_eq_false (Ne.symm hjm), Bool.and_false, Bool.or_false]
  · rw [if_neg fun h => hr (htest.1 h), BitVec.getLsbD_and, BitVec.getLsbD_not,
      BitVec.getLsbD_twoPow, Bool.eq_false_iff.2 hr]
    by_cases hjm : j = m
    · subst hjm
      simp [hj]
    · rw [if_neg hjm, decide_eq_false (Ne.symm hjm), Bool.and_false, Bool.not_false,
        decide_eq_true hj, Bool.true_and, Bool.and_true]

variable {raw : List UInt8} {element : Nat}

theorem Words.size (hw : Words raw) {t : CipType} (ht : typecode raw = some t) : t.size = 4 := by
  rcases hw.type with htype | htype <;> rw [htype] at ht <;> cases ht <;> rfl

theorem Words.offsetFits (hw : Words raw) (h : Inside raw element) : OffsetFits raw element := by
  have hmax : u64Max = 18446744073709551615 := rfl
  have hisize : isizeMax = 9223372036854775807 := rfl
  have hlen := hw.length
  intro t ht
  unfold Inside wordOff at h
  rw [hw.size ht]
  omega

/-- What is read where the element is inside. -/
theorem getUdint_inside (hw : Words raw) (h : Inside raw element) :
    getUdint conv checks raw element = .ok (word raw element) := by
  have hread : rdNat? raw (wordOff element) 4 =
      some (leNat ((raw.drop (wordOff element)).take 4)) :=
    congrArg (Option.map leNat) (if_pos h)
  rw [getUdint, getElement_eq (decodeUdint_sized conv) (hw.offsetFits h)]
  unfold valueAt
  rcases hw.type with htype | htype
  · rw [htype]
    show get ((rdNat? raw (wordOff element) 4).map _) () = _
    rw [hread]
    rfl
  · rw [htype]
    show get ((rdNat? raw (wordOff element) 4).map _) () = _
    rw [hread]
    rfl

theorem putUdint_inside (hw : Words raw) (h : Inside raw element) (value : BitVec 32) :
    putUdint conv checks raw element value = .ok (true, setWord raw element value) := by
  have hlen : wordOff element + (leBytes 4 value.toNat).length ≤ raw.length := by
    rw [length_leBytes]
    exact h
  have hwrite := overwrite?_of_le hlen
  rw [length_leBytes] at hwrite
  rw [putUdint, putElement_eq (encodeUdint_sized conv value) (hw.offsetFits h)]
  unfold storeAt
  rcases hw.type with htype | htype
  · rw [htype]
    simp only [Option.bind_some, encodeUdint]
    rw [show overwrite? raw (typecodeSize + element * CipType.dint.size) _ = _ from hwrite]
    rfl
  · rw [htype]
    simp only [Option.bind_some, encodeUdint]
    rw [show overwrite? raw (typecodeSize + element * CipType.bits.size) _ = _ from hwrite]
    rfl

/-- What is read of a buffer of words, in steps. -/
theorem getUdint_words (hw : Words raw) (element : Nat) :
    getUdint conv checks raw element =
      ((mul checks element 4).bind fun n => add checks typecodeSize n).bind fun i =>
        (rd checks 4 raw i).map fun v => BitVec.ofNat 32 v := by
  unfold getUdint getElement
  rcases hw.type with htype | htype
  · rw [htype]
    rfl
  · rw [htype]
    rfl

/-- Four bytes are not read outside the buffer, also where their end wraps. -/
theorem rd_outside {i : Nat} (h : raw.length < i + 4) (v : Nat) :
    rd checks 4 raw i ≠ .ok v := by
  have hmax : u64Max = 18446744073709551615 := rfl
  intro hok
  by_cases hadd : i + 4 ≤ u64Max
  · rw [rd_eq raw hadd, rdNat?, slice?, if_neg (by omega)] at hok
    cases hok
  · rw [rd, add, if_neg hadd] at hok
    cases checks with
    | true => cases hok
    | false =>
      rw [if_neg (by decide), ok_bind, getRange, if_neg (by omega)] at hok
      cases hok

/-- An element outside is not read, where its offset does not wrap. -/
theorem getUdint_outside (hw : Words raw) (helement : element < 2 ^ 62) (h : ¬ Inside raw element)
    (v : BitVec 32) : getUdint conv checks raw element ≠ .ok v := by
  have hmax : u64Max = 18446744073709551615 := rfl
  have hsize : typecodeSize = 2 := rfl
  rw [getUdint_words conv checks hw, mul_of_le (by omega), ok_bind, add_of_le (by omega), ok_bind]
  intro hok
  obtain ⟨n, hn, -⟩ := Fallible.of_map hok
  unfold Inside wordOff at h
  exact rd_outside checks (by omega) n hn

theorem Words.setWord (hw : Words raw) (h : Inside raw element) (value : BitVec 32) :
    Words (setWord raw element value) := by
  have hfront : (Raw.setWord raw element value).take 2 = raw.take 2 := by
    have hoff : 2 ≤ wordOff element := Nat.le_add_right 2 _
    unfold Inside at h
    unfold Raw.setWord
    rw [List.append_assoc, List.take_append_of_le_length (by rw [List.length_take]; omega),
      List.take_take, Nat.min_eq_left hoff]
  have hlen := length_setWord h value
  have htype : typecode (Raw.setWord raw element value) = typecode raw := by
    unfold typecode rdNat? slice?
    rw [hlen, List.drop_zero, List.drop_zero, hfront]
  exact ⟨by rw [htype]; exact hw.type, by rw [hlen]; exact hw.length⟩

theorem Words.next_le (hw : Words raw) (h : Inside raw (element + 1)) : element + 1 ≤ u64Max := by
  have hlen := hw.length
  have hmax : u64Max = 18446744073709551615 := rfl
  have hisize : isizeMax = 9223372036854775807 := rfl
  unfold Inside wordOff at h
  omega

/-! ## The walk of the reader -/

/-- The whole of a run that ends in bit `last` of the element. -/
def RunInside (raw : List UInt8) (element last : Nat) : Prop := Inside raw (element + last / 32)

theorem RunInside.first {last : Nat} (h : RunInside raw element last) : Inside raw element := by
  unfold RunInside Inside wordOff at *
  omega

theorem runStart_next (element : Nat) : runStart element 32 = runStart (element + 1) 0 := by
  unfold runStart wordOff
  omega

/-- The bit that is or-ed in at `i`. -/
theorem getLsbD_orBit {i j m : Nat} (hi : i < 32) (hj : j < 32) (hm : m < 32)
    (value rval : BitVec 32) :
    (if value &&& BitVec.twoPow 32 m ≠ 0 then rval ||| (1 : BitVec 32) <<< i else rval).getLsbD j =
      (rval.getLsbD j || (j == i && value.getLsbD m)) := by
  by_cases hbit : value.getLsbD m = true
  · rw [if_pos ((mask_test hm value).2 hbit), two_pow_eq, BitVec.getLsbD_or, BitVec.getLsbD_twoPow,
      hbit, Bool.and_true, decide_eq_true hi, Bool.true_and]
    by_cases hij : i = j
    · subst hij
      simp
    · rw [decide_eq_false hij, beq_eq_false_iff_ne.2 (Ne.symm hij)]
  · rw [if_neg fun h => hbit ((mask_test hm value).1 h), Bool.eq_false_iff.2 hbit]
    simp

/-- The bit at `i` and the ones from `i + 1` on are the ones from `i` on. -/
theorem or_next (r : Bool) (f : Nat → Bool) (i j n : Nat) :
    ((r || (j == i && f 0)) || (decide (i + 1 ≤ j ∧ j < i + 1 + n) && f (1 + (j - (i + 1))))) =
      (r || (decide (i ≤ j ∧ j < i + (n + 1)) && f (j - i))) := by
  by_cases hji : j = i
  · subst hji
    simp
  · rw [beq_eq_false_iff_ne.2 hji, Bool.false_and, Bool.or_false]
    by_cases hin : i + 1 ≤ j ∧ j < i + 1 + n
    · rw [decide_eq_true hin, decide_eq_true (by omega), show 1 + (j - (i + 1)) = j - i by omega]
    · rw [decide_eq_false hin, decide_eq_false (by omega), Bool.false_and, Bool.false_and]

/-- The bits from `i` on are those of the buffer behind the mask. -/
theorem getBitsLoop_inside (hw : Words raw) {n i m : Nat} {rval : BitVec 32} (hm : m < 32)
    (hi : i + n ≤ 32) (hrun : RunInside raw element (m + n)) :
    ∃ v, getBitsLoop conv checks raw n i element (BitVec.twoPow 32 m) (word raw element) rval =
        .ok v ∧
      ∀ j, j < 32 → v.getLsbD j = (rval.getLsbD j ||
        (decide (i ≤ j ∧ j < i + n) && bitAt raw (runStart element (m + 1) + (j - i)))) := by
  induction n generalizing i element m rval with
  | zero =>
    refine ⟨rval, rfl, fun j _ => ?_⟩
    rw [decide_eq_false (by omega), Bool.false_and, Bool.or_false]
  | succ n ih =>
    rw [getBitsLoop, mask_next]
    -- the next bit is in this element, or it is the first one of the next
    by_cases hlast : m = 31
    · have hnext : element + 1 + n / 32 = element + (m + (n + 1)) / 32 := by omega
      have hrun' : RunInside raw (element + 1) (0 + n) := by
        unfold RunInside at *
        rw [Nat.zero_add, hnext]
        exact hrun
      rw [if_pos (mask_eq_zero.2 (by omega)), add_of_le (hw.next_le hrun'.first), ok_bind,
        getUdint_inside conv checks hw hrun'.first, ok_bind]
      obtain ⟨v, hv, hbits⟩ := @ih (element + 1) (i + 1) 0
        (if word raw (element + 1) &&& BitVec.twoPow 32 0 ≠ 0 then rval ||| (1 : BitVec 32) <<< i
          else rval) (by decide) (by omega) hrun'
      refine ⟨v, hv, fun j hj => ?_⟩
      have hstart : runStart (element + 1) 0 = runStart element (m + 1) := by
        rw [hlast, ← runStart_next]
      have hone : ∀ k, runStart (element + 1) (0 + 1) + k = runStart element (m + 1) + (1 + k) := by
        intro k
        rw [← hstart]
        unfold runStart
        omega
      rw [hbits j hj, getLsbD_orBit (by omega) hj (by decide), getLsbD_word (by decide), hstart,
        hone]
      exact or_next _ (fun k => bitAt raw (runStart element (m + 1) + k)) i j n
    · have hrun' : RunInside raw element (m + 1 + n) := by
        rw [Nat.add_assoc, Nat.add_comm 1 n]
        exact hrun
      rw [if_neg fun h => by have := mask_eq_zero.1 h; omega]
      obtain ⟨v, hv, hbits⟩ := @ih element (i + 1) (m + 1)
        (if word raw element &&& BitVec.twoPow 32 (m + 1) ≠ 0 then rval ||| (1 : BitVec 32) <<< i
          else rval) (by omega) (by omega) hrun'
      refine ⟨v, hv, fun j hj => ?_⟩
      have hone : ∀ k, runStart element (m + 1 + 1) + k = runStart element (m + 1) + (1 + k) := by
        intro k
        unfold runStart
        omega
      rw [hbits j hj, getLsbD_orBit (by omega) hj (by omega), getLsbD_word (by omega), hone]
      exact or_next _ (fun k => bitAt raw (runStart element (m + 1) + k)) i j n

/-- An element of the buffer is far from wrapping. -/
theorem Words.lt_of_inside (hw : Words raw) (h : Inside raw element) : element + 1 < 2 ^ 62 := by
  have hlen := hw.length
  have hisize : isizeMax = 9223372036854775807 := rfl
  unfold Inside wordOff at h
  omega

theorem inside_of_getUdint (hw : Words raw) (helement : element < 2 ^ 62) {v : BitVec 32}
    (h : getUdint conv checks raw element = .ok v) : Inside raw element := by
  by_contra hout
  exact getUdint_outside conv checks hw helement hout v h

theorem runInside_of_getBitsLoop (hw : Words raw) (hin : Inside raw element) {n i m : Nat}
    {value rval v : BitVec 32} (hm : m < 32)
    (h : getBitsLoop conv checks raw n i element (BitVec.twoPow 32 m) value rval = .ok v) :
    RunInside raw element (m + n) := by
  induction n generalizing i element m value rval with
  | zero =>
    unfold RunInside
    rwa [show element + (m + 0) / 32 = element by omega]
  | succ n ih =>
    rw [getBitsLoop, mask_next] at h
    by_cases hlast : m = 31
    · have hlt := hw.lt_of_inside hin
      rw [if_pos (mask_eq_zero.2 (by omega)), add_of_le (show element + 1 ≤ 2 ^ 64 - 1 by omega),
        ok_bind] at h
      obtain ⟨next, hnext, h⟩ := Fallible.of_bind h
      have hrun := ih (inside_of_getUdint conv checks hw hlt hnext) (m := 0) (by decide) h
      unfold RunInside at *
      rwa [show element + 1 + (0 + n) / 32 = element + (m + (n + 1)) / 32 by omega] at hrun
    · rw [if_neg fun h => by have := mask_eq_zero.1 h; omega] at h
      have hrun := ih hin (by omega) h
      rwa [Nat.add_assoc, Nat.add_comm 1 n] at hrun

theorem getBits_inside (hw : Words raw) {m bits : Nat} (hm : m < 32) (hbits : 1 ≤ bits ∧ bits ≤ 32)
    (hrun : RunInside raw element (m + (bits - 1))) :
    ∃ v, getBits conv checks raw element (BitVec.twoPow 32 m) bits = .ok v ∧
      ∀ j, j < 32 → v.getLsbD j = (decide (j < bits) && bitAt raw (runStart element m + j)) := by
  rw [getBits, getUdint_inside conv checks hw hrun.first, ok_bind]
  obtain ⟨v, hv, hbit⟩ := @getBitsLoop_inside F conv checks raw element hw (bits - 1) 1 m
    (if word raw element &&& BitVec.twoPow 32 m ≠ 0 then 1 else 0) hm (by omega) hrun
  refine ⟨v, hv, fun j hj => ?_⟩
  have hfirst := getLsbD_orBit (i := 0) (by decide) hj hm (word raw element) 0
  rw [show (0 : BitVec 32) ||| (1 : BitVec 32) <<< 0 = 1 by decide, getLsbD_word hm] at hfirst
  have hnext := or_next false (fun k => bitAt raw (runStart element m + k)) 0 j (bits - 1)
  have hone : ∀ k, runStart element (m + 1) + k = runStart element m + (1 + k) := by
    intro k
    unfold runStart
    omega
  rw [hbit j hj, hfirst, hone, show (0 : BitVec 32).getLsbD j = false from BitVec.getLsbD_zero]
  refine Eq.trans ?_ (hnext.trans ?_)
  · rw [Nat.add_zero, Nat.zero_add]
  · rw [Bool.false_or, Nat.sub_zero, Nat.zero_add]
    by_cases hlt : j < bits
    · rw [decide_eq_true hlt, decide_eq_true (by omega)]
    · rw [decide_eq_false hlt, decide_eq_false (by omega)]

theorem getBits_eq_ok (hw : Words raw) (helement : element < 2 ^ 62) {m bits : Nat} (hm : m < 32)
    {v : BitVec 32}
    (h : getBits conv checks raw element (BitVec.twoPow 32 m) bits = .ok v) :
    RunInside raw element (m + (bits - 1)) := by
  obtain ⟨value, hvalue, h⟩ := Fallible.of_bind h
  exact runInside_of_getBitsLoop conv checks hw
    (inside_of_getUdint conv checks hw helement hvalue) hm h

/-! ## The walk of the writer -/

theorem runStart_add (element m k : Nat) : runStart element (m + k) = runStart element m + k :=
  Nat.add_assoc _ _ _ |>.symm

theorem bitAt_setMasked (h : Inside raw element) {m : Nat} (hm : m < 32) (value rval : BitVec 32)
    (k : Nat) :
    bitAt (setWord raw element (setMasked value (BitVec.twoPow 32 m) rval)) k =
      if k = runStart element m then rval.getLsbD 0 else bitAt (setWord raw element value) k := by
  have hstart : ∀ i, runStart element i = runStart element 0 + i := fun i => by
    rw [← runStart_add, Nat.zero_add]
  have hm' := hstart m
  have hstop := hstart 32
  rw [bitAt_setWord h, bitAt_setWord h]
  by_cases hin : runStart element 0 ≤ k ∧ k < runStart element 32
  · rw [if_pos hin, if_pos hin, getLsbD_setMasked (by omega)]
    have hiff : k - runStart element 0 = m ↔ k = runStart element m := by omega
    simp only [hiff]
  · rw [if_neg hin, if_neg hin, if_neg (by omega)]

theorem bitAt_setWord_word (h : Inside raw element) (k : Nat) :
    bitAt (setWord raw element (word raw element)) k = bitAt raw k := by
  rw [bitAt_setWord h]
  have hstop : runStart element 32 = runStart element 0 + 32 := runStart_add element 0 32
  by_cases hin : runStart element 0 ≤ k ∧ k < runStart element 32
  · rw [if_pos hin, getLsbD_word (by omega)]
    congr 1
    unfold runStart at *
    omega
  · rw [if_neg hin]

/-- The bit set now and the ones set later are the ones set from here on. -/
theorem ite_next {s k n : Nat} (rval : BitVec 32) (b : Bool) :
    (if s + 1 ≤ k ∧ k < s + 1 + n then (rval >>> 1).getLsbD (1 + (k - (s + 1)))
      else if k = s then (rval >>> 1).getLsbD 0 else b) =
      if s ≤ k ∧ k < s + (n + 1) then rval.getLsbD (1 + (k - s)) else b := by
  rw [BitVec.getLsbD_ushiftRight, BitVec.getLsbD_ushiftRight]
  by_cases hlater : s + 1 ≤ k ∧ k < s + 1 + n
  · rw [if_pos hlater, if_pos (by omega), show 1 + (k - (s + 1)) = k - s by omega]
  · by_cases hks : k = s
    · subst hks
      rw [if_neg hlater, if_pos rfl, if_pos (by omega), Nat.sub_self]
    · rw [if_neg hlater, if_neg hks, if_neg (by omega)]

/-- The buffer behind the walk has the bits of `rval` from bit 1 on behind the mask, and is else the
buffer with the word that is not written yet. -/
theorem putBitsLoop_inside (hw : Words raw) {n m : Nat} {value rval : BitVec 32} (hm : m < 32)
    (hn : n < 32) (hrun : RunInside raw element (m + n)) :
    ∃ raw', putBitsLoop conv checks raw n element (BitVec.twoPow 32 m) value rval =
        .ok (true, raw') ∧ raw'.length = raw.length ∧ Words raw' ∧
      ∀ k, bitAt raw' k =
        if runStart element (m + 1) ≤ k ∧ k < runStart element (m + 1) + n then
          rval.getLsbD (1 + (k - runStart element (m + 1)))
        else bitAt (setWord raw element value) k := by
  induction n generalizing raw element m value rval with
  | zero =>
    have hin := hrun.first
    refine ⟨_, putUdint_inside conv checks hw hin value, length_setWord hin value,
      hw.setWord hin value, fun k => ?_⟩
    rw [if_neg (by omega)]
  | succ n ih =>
    rw [putBitsLoop, mask_next]
    by_cases hlast : m = 31
    · have hin := hrun.first
      have hw1 := hw.setWord hin value
      have hlen1 := length_setWord hin value
      have hrun' : RunInside (setWord raw element value) (element + 1) (0 + n) := by
        unfold RunInside Inside at *
        rw [hlen1, show element + 1 + (0 + n) / 32 = element + (m + (n + 1)) / 32 by omega]
        exact hrun
      rw [if_pos (mask_eq_zero.2 (by omega)), putUdint_inside conv checks hw hin, ok_bind]
      dsimp only
      rw [if_neg (by decide), add_of_le (hw1.next_le hrun'.first), ok_bind,
        getUdint_inside conv checks hw1 hrun'.first]
      obtain ⟨raw', hraw', hlen, hw', hbits⟩ := @ih (setWord raw element value) (element + 1) hw1 0
        (setMasked (word (setWord raw element value) (element + 1)) (BitVec.twoPow 32 0)
          (rval >>> 1)) (rval >>> 1) (by decide) (by omega) hrun'
      refine ⟨raw', hraw', hlen.trans hlen1, hw', fun k => ?_⟩
      have hstart : runStart (element + 1) 0 = runStart element (m + 1) := by
        rw [hlast, ← runStart_next]
      rw [hbits k, bitAt_setMasked hrun'.first (by decide), bitAt_setWord_word hrun'.first,
        runStart_add, hstart]
      exact ite_next rval _
    · have hrun' : RunInside raw element (m + 1 + n) := by
        rw [Nat.add_assoc, Nat.add_comm 1 n]
        exact hrun
      rw [if_neg fun h => by have := mask_eq_zero.1 h; omega]
      obtain ⟨raw', hraw', hlen, hw', hbits⟩ := @ih raw element hw (m + 1)
        (setMasked value (BitVec.twoPow 32 (m + 1)) (rval >>> 1)) (rval >>> 1) (by omega)
        (by omega) hrun'
      refine ⟨raw', hraw', hlen, hw', fun k => ?_⟩
      rw [hbits k, bitAt_setMasked hrun.first (by omega), runStart_add element (m + 1) 1]
      exact ite_next rval _

theorem putBits_inside (hw : Words raw) {m bits : Nat} (hm : m < 32) (hbits : 1 ≤ bits ∧ bits ≤ 32)
    (hrun : RunInside raw element (m + (bits - 1))) (rval : BitVec 32) :
    ∃ raw', putBits conv checks raw element (BitVec.twoPow 32 m) bits rval = .ok (true, raw') ∧
      raw'.length = raw.length ∧ Words raw' ∧
      ∀ k, bitAt raw' k = if runStart element m ≤ k ∧ k < runStart element m + bits then
        rval.getLsbD (k - runStart element m) else bitAt raw k := by
  have hin := hrun.first
  rw [putBits, getUdint_inside conv checks hw hin]
  obtain ⟨raw', hraw', hlen, hw', hbit⟩ := @putBitsLoop_inside F conv checks raw element hw
    (bits - 1) m (setMasked (word raw element) (BitVec.twoPow 32 m) rval) rval hm (by omega) hrun
  refine ⟨raw', hraw', hlen, hw', fun k => ?_⟩
  rw [hbit k, bitAt_setMasked hin hm, bitAt_setWord_word hin, runStart_add]
  by_cases hlater : runStart element m + 1 ≤ k ∧ k < runStart element m + 1 + (bits - 1)
  · rw [if_pos hlater, if_pos (by omega)]
    congr 1
    omega
  · rw [if_neg hlater]
    by_cases hk : k = runStart element m
    · rw [if_pos hk, if_pos (by omega), hk, Nat.sub_self]
    · rw [if_neg hk, if_neg (by omega)]

/-! ## A field -/

/-- A field that can be read is written, read back and left alone: `raw'` has the low bits of `rval` in
the run, and what was read changes nothing. -/
def FieldOk (raw : List UInt8) (element m bits : Nat) : Prop :=
  ∀ v, getBits conv checks raw element (BitVec.twoPow 32 m) bits = .ok v →
    (∀ rval, ∃ raw',
      putBits conv checks raw element (BitVec.twoPow 32 m) bits rval = .ok (true, raw') ∧
      raw'.length = raw.length ∧
      getBits conv checks raw' element (BitVec.twoPow 32 m) bits =
        .ok ((rval.setWidth bits).setWidth 32) ∧
      ∀ k, ¬ (runStart element m ≤ k ∧ k < runStart element m + bits) →
        bitAt raw' k = bitAt raw k) ∧
    putBits conv checks raw element (BitVec.twoPow 32 m) bits v = .ok (true, raw)

variable {m bits : Nat}

theorem fieldOk_of_inside (hw : Words raw) (hm : m < 32) (hbits : 1 ≤ bits ∧ bits ≤ 32)
    (hrun : RunInside raw element (m + (bits - 1))) : FieldOk conv checks raw element m bits := by
  obtain ⟨v, hv, hvbit⟩ := getBits_inside conv checks hw hm hbits hrun
  intro v' hv'
  rw [hv] at hv'
  obtain rfl := Except.ok.inj hv'
  refine ⟨fun rval => ?_, ?_⟩
  · obtain ⟨raw', hput, hlen, hw', hbit⟩ := putBits_inside conv checks hw hm hbits hrun rval
    have hrun' : RunInside raw' element (m + (bits - 1)) := by
      unfold RunInside Inside at *
      rwa [hlen]
    obtain ⟨u, hu, hubit⟩ := getBits_inside conv checks hw' hm hbits hrun'
    refine ⟨raw', hput, hlen, ?_, fun k hk => by rw [hbit k, if_neg hk]⟩
    rw [hu]
    refine congrArg Except.ok (BitVec.eq_of_getLsbD_eq fun j hj => ?_)
    rw [hubit j hj, BitVec.getLsbD_setWidth, BitVec.getLsbD_setWidth, decide_eq_true hj,
      Bool.true_and, hbit]
    by_cases hlt : j < bits
    · rw [if_pos ⟨Nat.le_add_right _ _, by omega⟩, Nat.add_sub_cancel_left]
    · rw [decide_eq_false hlt, Bool.false_and, Bool.false_and]
  · obtain ⟨raw', hput, hlen, -, hbit⟩ := putBits_inside conv checks hw hm hbits hrun v
    have hsame : raw' = raw := by
      apply eq_of_bitAt hlen
      intro k
      rw [hbit k]
      by_cases hk : runStart element m ≤ k ∧ k < runStart element m + bits
      · rw [if_pos hk, hvbit _ (by omega), decide_eq_true (by omega), Bool.true_and]
        congr 1
        omega
      · rw [if_neg hk]
    rw [hput, hsame]

/-! ## Offsets that wrap -/

theorem mul_wraps (a b : Nat) : (mul false a b : Outcome Unit Nat) = .ok (a * b % 2 ^ 64) := by
  unfold mul
  by_cases h : a * b ≤ u64Max
  · rw [if_pos h, Nat.mod_eq_of_lt (Nat.lt_of_le_of_lt h (by decide))]
  · rw [if_neg h]
    rfl

theorem add_wraps (a b : Nat) : (add false a b : Outcome Unit Nat) = .ok ((a + b) % 2 ^ 64) := by
  unfold add
  by_cases h : a + b ≤ u64Max
  · rw [if_pos h, Nat.mod_eq_of_lt (Nat.lt_of_le_of_lt h (by decide))]
  · rw [if_neg h]
    rfl

variable {far : Nat}

/-- Element numbers with the same low 62 bits have one offset. -/
theorem off_wraps (h : far % 2 ^ 62 = element % 2 ^ 62) :
    ((mul false far 4).bind fun n => (add false typecodeSize n : Outcome Unit Nat)) =
      (mul false element 4).bind fun n => add false typecodeSize n := by
  have heq : far * 4 % 2 ^ 64 = element * 4 % 2 ^ 64 := by omega
  rw [mul_wraps, mul_wraps, heq]

theorem getUdint_wraps (hw : Words raw) (h : far % 2 ^ 62 = element % 2 ^ 62) :
    getUdint conv false raw far = getUdint conv false raw element := by
  rw [getUdint_words conv false hw, getUdint_words conv false hw, off_wraps h]

theorem putUdint_words (hw : Words raw) (element : Nat) (value : BitVec 32) :
    putUdint conv checks raw element value =
      ((mul checks element 4).bind fun n => add checks typecodeSize n).bind fun i =>
        wrSlice checks raw i (leBytes 4 value.toNat) := by
  unfold putUdint putElement
  rcases hw.type with htype | htype
  · rw [htype]
    rfl
  · rw [htype]
    rfl

theorem putUdint_wraps (hw : Words raw) (h : far % 2 ^ 62 = element % 2 ^ 62)
    (value : BitVec 32) :
    putUdint conv false raw far value = putUdint conv false raw element value := by
  rw [putUdint_words conv false hw, putUdint_words conv false hw, off_wraps h]

theorem getBitsLoop_wraps (hw : Words raw) (h : far % 2 ^ 62 = element % 2 ^ 62) {n i : Nat}
    {mask value rval : BitVec 32} :
    getBitsLoop conv false raw n i far mask value rval =
      getBitsLoop conv false raw n i element mask value rval := by
  induction n generalizing i far element mask value rval with
  | zero => rfl
  | succ n ih =>
    have hnext : (far + 1) % 2 ^ 64 % 2 ^ 62 = (element + 1) % 2 ^ 64 % 2 ^ 62 := by omega
    rw [getBitsLoop, getBitsLoop, ih h, add_wraps, add_wraps, ok_bind, ok_bind,
      getUdint_wraps conv hw hnext]
    by_cases hzero : mask <<< 1 = 0
    · rw [if_pos hzero, if_pos hzero]
      refine Fallible.bind_congr fun next _ => ?_
      exact ih hnext
    · rw [if_neg hzero, if_neg hzero]

theorem putBitsLoop_wraps (hw : Words raw) (h : far % 2 ^ 62 = element % 2 ^ 62) {n : Nat}
    {value rval : BitVec 32} (hm : m < 32) (hrun : RunInside raw element (m + n)) :
    putBitsLoop conv false raw n far (BitVec.twoPow 32 m) value rval =
      putBitsLoop conv false raw n element (BitVec.twoPow 32 m) value rval := by
  induction n generalizing raw far element m value rval with
  | zero => exact putUdint_wraps conv hw h value
  | succ n ih =>
    rw [putBitsLoop, putBitsLoop, mask_next]
    by_cases hlast : m = 31
    · have hin := hrun.first
      have hw1 := hw.setWord hin value
      have hlt := hw.lt_of_inside hin
      have hsmall : (element + 1) % 2 ^ 64 = element + 1 := Nat.mod_eq_of_lt (by omega)
      have hnext : (far + 1) % 2 ^ 64 % 2 ^ 62 = (element + 1) % 2 ^ 62 := by omega
      have hrun' : RunInside (setWord raw element value) (element + 1) (0 + n) := by
        unfold RunInside Inside at *
        rw [length_setWord hin value,
          show element + 1 + (0 + n) / 32 = element + (m + (n + 1)) / 32 by omega]
        exact hrun
      have hzero : BitVec.twoPow 32 (m + 1) = 0 := mask_eq_zero.2 (by omega)
      rw [if_pos hzero, if_pos hzero, putUdint_wraps conv hw h, putUdint_inside conv false hw hin,
        ok_bind, ok_bind]
      dsimp only
      rw [if_neg (by decide), if_neg (by decide), add_wraps, add_wraps, ok_bind, ok_bind, hsmall,
        getUdint_wraps conv hw1 hnext, getUdint_inside conv false hw1 hrun'.first]
      exact ih (m := 0) hw1 hnext (by decide) hrun'
    · have hne : BitVec.twoPow 32 (m + 1) ≠ 0 := fun hz => by
        have := mask_eq_zero.1 hz
        omega
      rw [if_neg hne, if_neg hne]
      refine ih hw h (by omega) ?_
      rw [Nat.add_assoc, Nat.add_comm 1 n]
      exact hrun

/-- A far element is one of the first, for the reader and for the writer. -/
theorem getBits_wraps (hw : Words raw) (h : far % 2 ^ 62 = element % 2 ^ 62) {mask : BitVec 32} :
    getBits conv false raw far mask bits = getBits conv false raw element mask bits := by
  rw [getBits, getBits, getUdint_wraps conv hw h]
  refine Fallible.bind_congr fun value _ => ?_
  exact getBitsLoop_wraps conv hw h

theorem putBits_wraps (hw : Words raw) (h : far % 2 ^ 62 = element % 2 ^ 62) (hm : m < 32)
    (hrun : RunInside raw element (m + (bits - 1))) (rval : BitVec 32) :
    putBits conv false raw far (BitVec.twoPow 32 m) bits rval =
      putBits conv false raw element (BitVec.twoPow 32 m) bits rval := by
  rw [putBits, putBits, getUdint_wraps conv hw h, getUdint_inside conv false hw hrun.first]
  exact putBitsLoop_wraps conv hw h hm hrun

theorem getBits_far (hw : Words raw) (h : 2 ^ 62 ≤ element) {mask v : BitVec 32} :
    getBits conv true raw element mask bits ≠ .ok v := by
  have hmax : u64Max = 18446744073709551615 := rfl
  intro hok
  rw [getBits, getUdint_words conv true hw, mul, if_neg (by omega)] at hok
  cases hok

/-- **Bit fields are written and read alike exactly where the offset does not wrap into the
buffer.** -/
theorem bit_fields (hw : Words raw) (hm : m < 32) (hbits : 1 ≤ bits ∧ bits ≤ 32) :
    FieldOk conv checks raw element m bits ↔
      (checks = true ∨ element < 2 ^ 62 ∨
        ¬ RunInside raw (element % 2 ^ 62) (m + (bits - 1))) := by
  have hmod : element % 2 ^ 62 = element % 2 ^ 62 % 2 ^ 62 := by omega
  constructor
  · intro hok
    by_contra hnot
    simp only [not_or, not_not, Bool.not_eq_true, Nat.not_lt] at hnot
    obtain ⟨rfl, hfar, hrun⟩ := hnot
    obtain ⟨v, hv, hvbit⟩ := getBits_inside conv false hw hm hbits hrun
    rw [← getBits_wraps conv hw hmod] at hv
    -- the opposite value in the far run turns over a bit of the near one
    obtain ⟨raw', hput, -, -, hkeep⟩ := (hok v hv).1 (~~~v)
    obtain ⟨raw'', hput', -, -, hbit⟩ := putBits_inside conv false hw hm hbits hrun (~~~v)
    rw [putBits_wraps conv hw hmod hm hrun, hput'] at hput
    obtain rfl : raw'' = raw' := congrArg Prod.snd (Except.ok.inj hput)
    have hout : ¬ (runStart element m ≤ runStart (element % 2 ^ 62) m ∧
        runStart (element % 2 ^ 62) m < runStart element m + bits) := by
      unfold runStart wordOff
      omega
    have hturned := hkeep _ hout
    rw [hbit, if_pos ⟨Nat.le_refl _, by omega⟩, Nat.sub_self, BitVec.getLsbD_not,
      hvbit 0 (by decide), decide_eq_true (show 0 < bits by omega), Nat.add_zero] at hturned
    revert hturned
    cases bitAt raw (runStart (element % 2 ^ 62) m) <;> decide
  · intro hcond
    by_cases hlt : element < 2 ^ 62
    · intro v hv
      exact fieldOk_of_inside conv checks hw hm hbits
        (getBits_eq_ok conv checks hw hlt hm hv) v hv
    · intro v hv
      rcases hcond with rfl | hlow | hout
      · exact absurd hv (getBits_far conv hw (Nat.le_of_not_lt hlt))
      · exact absurd hlow hlt
      · cases checks with
        | true => exact absurd hv (getBits_far conv hw (Nat.le_of_not_lt hlt))
        | false =>
          rw [getBits_wraps conv hw hmod] at hv
          exact absurd (getBits_eq_ok conv false hw (Nat.mod_lt _ (by decide)) hm hv) hout

/-- BITS of two words. -/
def bits2 : List UInt8 := [0xD3, 0x00, 0x00, 0x00, 0x00, 0x40, 0x01, 0x00, 0x00, 0x00]

theorem words_bits2 : Words bits2 := ⟨.inr (by decide), by decide⟩

/-- Four bits across the words. -/
theorem bit_fields_bits2 : FieldOk wholeFloats false bits2 0 30 4 :=
  (bit_fields wholeFloats false words_bits2 (by decide) (by decide)).2 (.inr (.inl (by decide)))

/-- Element 2^62 is element 0 to a build that wraps: its bits are read and written there. -/
theorem far_element_aliases : ¬ FieldOk wholeFloats false bits2 (2 ^ 62) 30 4 := by
  intro hok
  have hv : getBits wholeFloats false bits2 (2 ^ 62) (BitVec.twoPow 32 30) 4 = .ok 0b0101 := by
    decide +kernel
  obtain ⟨raw', hput, -, -, hkeep⟩ := (hok _ hv).1 0
  have hput' : putBits wholeFloats false bits2 (2 ^ 62) (BitVec.twoPow 32 30) 4 0 =
      .ok (true, [0xD3, 0x00, 0x00, 0x00, 0x00, 0x00, 0x00, 0x00, 0x00, 0x00]) := by
    decide +kernel
  rw [hput'] at hput
  obtain rfl := congrArg Prod.snd (Except.ok.inj hput)
  have hbit := hkeep 46 (by unfold runStart wordOff typecodeSize; omega)
  exact absurd hbit (by decide)

end EtherIp.Raw
