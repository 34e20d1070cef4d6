import Mathlib.Data.BitVec

/-!
# Bits moved within a word

`deltaSwap s m x` is the usual step of a bit permutation: with `t = (x ^ x >> s) & m` it
gives `x ^ t ^ t << s`.  Its bits are those of `x` in another order
(`getLsbD_deltaSwap`), so what several steps do is decided on the indices.
-/

namespace Bits

variable {w : Nat}

/-- The bits of `x` at the mask `m` change places with those `s` above them. -/
def deltaSwap (s : Nat) (m x : BitVec w) : BitVec w :=
  let t := (x ^^^ (x >>> s)) &&& m
  x ^^^ t ^^^ (t <<< s)

/-- The bit that a swap puts at `i`. -/
def deltaIndex (s : Nat) (m : BitVec w) (i : Nat) : Nat :=
  if m.getLsbD i then i + s else if s ≤ i ∧ m.getLsbD (i - s) then i - s else i

theorem getLsbD_deltaSwap {s : Nat} {m : BitVec w} (x : BitVec w) {i : Nat} (hi : i < w)
    (hdisj : m.getLsbD i = true → s ≤ i → m.getLsbD (i - s) = false) :
    (deltaSwap s m x).getLsbD i = x.getLsbD (deltaIndex s m i) := by
  have hcancel : ∀ a b : Bool, ((a ^^ (a ^^ b)) = b) ∧ ((a ^^ (b ^^ a)) = b) := by decide
  simp only [deltaSwap, deltaIndex, BitVec.getLsbD_xor, BitVec.getLsbD_and,
    BitVec.getLsbD_ushiftRight, BitVec.getLsbD_shiftLeft, decide_eq_true hi, Bool.true_and]
  by_cases hs : s ≤ i
  · have hback : s + (i - s) = i := by omega
    simp only [decide_eq_false (Nat.not_lt.2 hs), hback, hs, true_and, Bool.not_false,
      Bool.true_and]
    cases hm : m.getLsbD i with
    | true =>
      simp only [hdisj hm hs, Bool.and_true, Bool.and_false, Bool.xor_false, if_true, hcancel,
        Nat.add_comm]
    | false =>
      cases m.getLsbD (i - s) with
      | true => simp only [Bool.and_false, Bool.and_true, Bool.xor_false, hcancel, if_true,
          Bool.false_eq_true, if_false]
      | false => simp only [Bool.and_false, Bool.xor_false, Bool.false_eq_true, if_false]
  · simp only [decide_eq_true (Nat.not_le.1 hs), hs, false_and, if_false, Bool.not_true,
      Bool.false_and, Bool.xor_false]
    cases m.getLsbD i with
    | true => simp only [Bool.and_true, hcancel, if_true, Nat.add_comm]
    | false => simp only [Bool.and_false, Bool.xor_false, Bool.false_eq_true, if_false]

/-- The byte with these bits, the lowest first. -/
def byteOf (f : Nat → Bool) : UInt8 :=
  ⟨BitVec.ofBoolListLE [f 0, f 1, f 2, f 3, f 4, f 5, f 6, f 7]⟩

theorem getLsbD_byteOf {f : Nat → Bool} {i : Nat} (hi : i < 8) :
    (byteOf f).toBitVec.getLsbD i = f i := by
  have hget : (byteOf f).toBitVec.getLsbD i =
      [f 0, f 1, f 2, f 3, f 4, f 5, f 6, f 7].getD i false := BitVec.getLsbD_ofBoolListLE
  rw [hget]
  have hcases : i = 0 ∨ i = 1 ∨ i = 2 ∨ i = 3 ∨ i = 4 ∨ i = 5 ∨ i = 6 ∨ i = 7 := by omega
  obtain rfl | rfl | rfl | rfl | rfl | rfl | rfl | rfl := hcases <;> rfl

theorem byte_ext {a b : UInt8}
    (h : ∀ i, i < 8 → a.toBitVec.getLsbD i = b.toBitVec.getLsbD i) : a = b :=
  UInt8.toBitVec_inj.1 (BitVec.eq_of_getLsbD_eq h)

/-! ## Numbers bit by bit -/

/-- The number made by setting these bits, one after the other. -/
def setBits (bits : List (Nat × Bool)) : Nat :=
  bits.foldl (fun value b => if b.2 then value ||| (1 <<< b.1) else value) 0

theorem testBit_setBits (bits : List (Nat × Bool)) (i : Nat) :
    (setBits bits).testBit i = bits.any fun b => decide (b.1 = i) && b.2 := by
  have hfold : ∀ value : Nat, (bits.foldl
      (fun value (b : Nat × Bool) => if b.2 then value ||| (1 <<< b.1) else value) value).testBit i =
        (value.testBit i || bits.any fun b => decide (b.1 = i) && b.2) := by
    induction bits with
    | nil => intro value; rw [List.any_nil, Bool.or_false]; rfl
    | cons b bits ih =>
      intro value
      obtain ⟨j, bit⟩ := b
      rw [List.foldl_cons, ih, List.any_cons, ← Bool.or_assoc]
      congr 1
      cases bit with
      | true => rw [if_pos rfl, Nat.testBit_or, Nat.one_shiftLeft, Nat.testBit_two_pow,
          Bool.and_true]
      | false => rw [if_neg Bool.false_ne_true, Bool.and_false, Bool.or_false]
  rw [setBits, hfold, Nat.zero_testBit, Bool.false_or]

/-- A bit that is set, or not, where nothing else is said of it. -/
theorem testBit_setBits_of_mem {bits : List (Nat × Bool)} {i : Nat} {b : Bool}
    (hmem : (i, b) ∈ bits) (hall : ∀ b', (i, b') ∈ bits → b' = b) :
    (setBits bits).testBit i = b := by
  rw [testBit_setBits]
  cases b with
  | true => exact List.any_eq_true.2 ⟨(i, true), hmem, by simp⟩
  | false =>
    rw [List.any_eq_false]
    rintro ⟨j, b'⟩ hb'
    by_cases hj : j = i
    · subst hj
      rw [hall b' hb']
      simp
    · simp [hj]

theorem testBit_setBits_of_not_mem {bits : List (Nat × Bool)} {i : Nat}
    (h : ∀ b, (i, b) ∉ bits) : (setBits bits).testBit i = false := by
  rw [testBit_setBits, List.any_eq_false]
  rintro ⟨j, b⟩ hb
  have hj : j ≠ i := by
    intro heq
    subst heq
    exact h b hb
  simp [hj]

end Bits
