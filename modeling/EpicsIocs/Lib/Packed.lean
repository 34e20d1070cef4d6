import Mathlib.Data.Nat.Digits.Defs

/-!
# Values packed into words

Values of `width` bits, `count` to a word, the first in the low bits: a word is the number with these
digits in base `2 ^ width`.

    unpack width count (ofDigits (2 ^ width) l) = l                   (unpack_ofDigits)
    (words width count n l).flatMap (unpack width count) = l           (flatMap_unpack)
-/

namespace Packed

def unpack (width count word : Nat) : List Nat :=
  (List.range count).map fun j => word / 2 ^ (width * j) % 2 ^ width

/-- The first `n` words. -/
def words (width count : Nat) : Nat → List Nat → List Nat
  | 0, _ => []
  | n + 1, l => Nat.ofDigits (2 ^ width) (l.take count) :: words width count n (l.drop count)

variable {width count n : Nat} {l : List Nat}

@[simp] theorem length_unpack (word : Nat) : (unpack width count word).length = count := by
  simp [unpack]

@[simp] theorem length_words (n : Nat) (l : List Nat) : (words width count n l).length = n := by
  induction n generalizing l with
  | zero => rfl
  | succ n ih => rw [words, List.length_cons, ih]

theorem unpack_succ (word : Nat) :
    unpack width (count + 1) word = word % 2 ^ width :: unpack width count (word / 2 ^ width) := by
  rw [unpack, unpack, List.range_succ_eq_map, List.map_cons, List.map_map, Nat.mul_zero,
    Nat.pow_zero, Nat.div_one]
  congr 1
  apply List.map_congr_left
  intro j _
  show word / 2 ^ (width * (j + 1)) % 2 ^ width = word / 2 ^ width / 2 ^ (width * j) % 2 ^ width
  rw [Nat.div_div_eq_div_mul, ← Nat.pow_add, Nat.mul_succ, Nat.add_comm]

theorem unpack_ofDigits (h : ∀ v ∈ l, v < 2 ^ width) :
    unpack width l.length (Nat.ofDigits (2 ^ width) l) = l := by
  induction l with
  | nil => rfl
  | cons v l ih =>
    obtain ⟨hv, hl⟩ := List.forall_mem_cons.1 h
    rw [List.length_cons, unpack_succ, Nat.ofDigits_cons, Nat.add_mul_mod_self_left,
      Nat.mod_eq_of_lt hv, Nat.add_mul_div_left _ _ (Nat.two_pow_pos width), Nat.div_eq_of_lt hv,
      Nat.zero_add, ih hl]

theorem flatMap_unpack (h : ∀ v ∈ l, v < 2 ^ width) (hlen : l.length = count * n) :
    (words width count n l).flatMap (unpack width count) = l := by
  induction n generalizing l with
  | zero =>
    rw [Nat.mul_zero] at hlen
    exact (List.eq_nil_of_length_eq_zero hlen).symm
  | succ n ih =>
    rw [Nat.mul_succ] at hlen
    have htake : (l.take count).length = count := by
      rw [List.length_take]
      omega
    have hdrop : (l.drop count).length = count * n := by
      rw [List.length_drop]
      omega
    have hsmall : ∀ v ∈ l.take count, v < 2 ^ width := fun v hv => h v (List.mem_of_mem_take hv)
    have hunpack := unpack_ofDigits hsmall
    rw [htake] at hunpack
    rw [words, List.flatMap_cons, hunpack, ih (fun v hv => h v (List.mem_of_mem_drop hv)) hdrop]
    exact List.take_append_drop count l

theorem ofDigits_lt (h : ∀ v ∈ l, v < 2 ^ width) :
    Nat.ofDigits (2 ^ width) l < 2 ^ (width * l.length) := by
  induction l with
  | nil => simp
  | cons v l ih =>
    obtain ⟨hv, hl⟩ := List.forall_mem_cons.1 h
    have hrest := ih hl
    rw [Nat.ofDigits_cons, List.length_cons, Nat.mul_succ, Nat.pow_add, Nat.mul_comm _ (2 ^ width)]
    calc v + 2 ^ width * Nat.ofDigits (2 ^ width) l
        < 2 ^ width + 2 ^ width * Nat.ofDigits (2 ^ width) l := Nat.add_lt_add_right hv _
      _ = 2 ^ width * (Nat.ofDigits (2 ^ width) l + 1) := by
        rw [Nat.mul_succ, Nat.add_comm]
      _ ≤ 2 ^ width * 2 ^ (width * l.length) := Nat.mul_le_mul_left _ hrest

/-- The top bit of a word is that of its last value. -/
theorem ofDigits_concat_lt (hwidth : 0 < width) (h : ∀ v ∈ l, v < 2 ^ width) (last : Nat) :
    Nat.ofDigits (2 ^ width) (l ++ [last]) < 2 ^ (width * (l.length + 1) - 1) ↔
      last < 2 ^ (width - 1) := by
  have hlow := ofDigits_lt h
  have hsplit : 2 ^ (width * (l.length + 1) - 1) = 2 ^ (width * l.length) * 2 ^ (width - 1) := by
    rw [← Nat.pow_add, Nat.mul_succ]
    congr 1
    omega
  rw [Nat.ofDigits_append, Nat.ofDigits_singleton, ← Nat.pow_mul, hsplit]
  constructor
  · intro hlt
    exact Nat.lt_of_mul_lt_mul_left (Nat.lt_of_le_of_lt (Nat.le_add_left _ _) hlt)
  · intro hlast
    calc _ < 2 ^ (width * l.length) + 2 ^ (width * l.length) * last := Nat.add_lt_add_right hlow _
      _ = 2 ^ (width * l.length) * (last + 1) := by rw [Nat.mul_succ, Nat.add_comm]
      _ ≤ _ := Nat.mul_le_mul_left _ hlast

end Packed
