import Mathlib.Data.List.Basic
import Mathlib.Tactic.Ring

/-!
# A buffer of equal blocks

A buffer cut into blocks of `n` elements: block `s` is written by overwriting the
elements from `s * n` on (`flatten_set`).  A loop over blocks that replaces each by what a
step makes of it is `overBlocks`, and what holds of the step holds of every block it went
through (`overBlocks_spec`).
-/

namespace Blocks

universe u

variable {α : Type u} {n : Nat}

/-- The blocks all have `n` elements. -/
def Even (n : Nat) (blocks : List (List α)) : Prop := ∀ b ∈ blocks, b.length = n

theorem Even.length_flatten {blocks : List (List α)} (h : Even n blocks) :
    blocks.flatten.length = blocks.length * n := by
  induction blocks with
  | nil => simp
  | cons b blocks ih =>
    have hb := h b List.mem_cons_self
    rw [List.flatten_cons, List.length_append, hb, ih fun c hc => h c (List.mem_cons_of_mem _ hc),
      List.length_cons, Nat.succ_mul, Nat.add_comm]

theorem Even.flatten_take {blocks : List (List α)} (h : Even n blocks) (k : Nat) :
    blocks.flatten.take (k * n) = (blocks.take k).flatten := by
  induction blocks generalizing k with
  | nil => simp
  | cons b blocks ih =>
    have hb := h b List.mem_cons_self
    cases k with
    | zero => simp
    | succ k =>
      have hstep : (k + 1) * n = b.length + k * n := by rw [hb]; ring
      rw [List.flatten_cons, hstep, List.take_length_add_append,
        ih fun c hc => h c (List.mem_cons_of_mem _ hc)]
      rfl

theorem Even.flatten_drop {blocks : List (List α)} (h : Even n blocks) (k : Nat) :
    blocks.flatten.drop (k * n) = (blocks.drop k).flatten := by
  have hcut : blocks.flatten.take (k * n) ++ (blocks.drop k).flatten = blocks.flatten := by
    rw [h.flatten_take, ← List.flatten_append, List.take_append_drop]
  have hwhole := List.take_append_drop (k * n) blocks.flatten
  exact List.append_cancel_left (hwhole.trans hcut.symm)

/-- Writing a block overwrites its elements. -/
theorem Even.flatten_set {blocks : List (List α)} (h : Even n blocks) {s : Nat}
    (hs : s < blocks.length) (b : List α) :
    (blocks.set s b).flatten =
      blocks.flatten.take (s * n) ++ b ++ blocks.flatten.drop ((s + 1) * n) := by
  rw [h.flatten_take, h.flatten_drop, List.set_eq_take_append_cons_drop, if_pos hs,
    List.flatten_append, List.flatten_cons, List.append_assoc]

/-! ## Block by block -/

def block (n : Nat) (buffer : List α) (k : Nat) : List α := (buffer.drop (k * n)).take n

theorem getElem?_block {buffer : List α} {k i : Nat} (hi : i < n) :
    (block n buffer k)[i]? = buffer[k * n + i]? := by
  rw [block, List.getElem?_take_of_lt hi, List.getElem?_drop]

theorem length_block {buffer : List α} {k : Nat} (h : (k + 1) * n ≤ buffer.length) :
    (block n buffer k).length = n := by
  rw [Nat.succ_mul] at h
  rw [block, List.length_take, List.length_drop]
  omega

/-- The first blocks are those of the buffer, -/
theorem block_take {buffer : List α} {m k : Nat} (hk : k < m) :
    block n (buffer.take (m * n)) k = block n buffer k := by
  have hend : (k + 1) * n ≤ m * n := Nat.mul_le_mul_right n hk
  rw [Nat.succ_mul] at hend
  rw [block, block, List.drop_take, List.take_take, Nat.min_eq_left (by omega)]

/-- and so are those behind the first. -/
theorem block_drop {buffer : List α} {m k : Nat} :
    block n (buffer.drop (m * n)) k = block n buffer (m + k) := by
  rw [block, block, List.drop_drop, Nat.add_mul]

theorem Even.block_flatten {blocks : List (List α)} (h : Even n blocks) {k : Nat}
    (hk : k < blocks.length) : block n blocks.flatten k = blocks[k] := by
  have hb := h blocks[k] (List.getElem_mem hk)
  rw [block, h.flatten_drop, List.drop_eq_getElem_cons hk, List.flatten_cons,
    List.take_left' hb]

/-- A buffer is its blocks one after the other. -/
theorem flatten_block {m : Nat} {buffer : List α} (h : buffer.length = m * n) :
    ((List.range m).map (block n buffer)).flatten = buffer := by
  induction m generalizing buffer with
  | zero =>
    rw [Nat.zero_mul] at h
    rw [List.eq_nil_of_length_eq_zero h]
    rfl
  | succ m ih =>
    have hshift : block n buffer ∘ Nat.succ = block n (buffer.drop n) := by
      funext k
      show (buffer.drop ((k + 1) * n)).take n = ((buffer.drop n).drop (k * n)).take n
      rw [List.drop_drop, Nat.succ_mul, Nat.add_comm]
    have hrest : (buffer.drop n).length = m * n := by
      rw [Nat.succ_mul] at h
      rw [List.length_drop]
      omega
    rw [List.range_succ_eq_map, List.map_cons, List.map_map, hshift, List.flatten_cons, ih hrest,
      block, Nat.zero_mul, List.drop_zero, List.take_append_drop]

/-- The buffer with another block `k`. -/
def replace (n : Nat) (buffer : List α) (k : Nat) (b : List α) : List α :=
  buffer.take (k * n) ++ b ++ buffer.drop ((k + 1) * n)

section
variable {buffer b : List α} {k : Nat}

theorem length_replace (h : (k + 1) * n ≤ buffer.length) (hb : b.length = n) :
    (replace n buffer k b).length = buffer.length := by
  have hsucc : (k + 1) * n = k * n + n := Nat.succ_mul k n
  simp only [replace, List.length_append, List.length_take, List.length_drop, hb]
  omega

theorem getElem?_replace (h : (k + 1) * n ≤ buffer.length) (hb : b.length = n) (i : Nat) :
    (replace n buffer k b)[i]? =
      if k * n ≤ i ∧ i < (k + 1) * n then b[i - k * n]? else buffer[i]? := by
  have hsucc : (k + 1) * n = k * n + n := Nat.succ_mul k n
  have htake : (buffer.take (k * n)).length = k * n := by rw [List.length_take]; omega
  rw [replace]
  by_cases hbelow : i < k * n
  · rw [if_neg (by omega), List.append_assoc, List.getElem?_append_left (by omega),
      List.getElem?_take_of_lt hbelow]
  · by_cases hin : i < (k + 1) * n
    · rw [if_pos ⟨by omega, hin⟩, List.append_assoc, List.getElem?_append_right (by omega), htake,
        List.getElem?_append_left (by omega)]
    · have hfront : (buffer.take (k * n) ++ b).length = (k + 1) * n := by
        rw [List.length_append, htake, hb]
        omega
      rw [if_neg (by omega), List.getElem?_append_right (by omega), hfront, List.getElem?_drop]
      congr 1
      omega

theorem block_replace_self (h : (k + 1) * n ≤ buffer.length) (hb : b.length = n) :
    block n (replace n buffer k b) k = b := by
  apply List.ext_getElem?
  intro i
  by_cases hi : i < n
  · have hsucc : (k + 1) * n = k * n + n := Nat.succ_mul k n
    rw [getElem?_block hi, getElem?_replace h hb, if_pos (by omega), Nat.add_sub_cancel_left]
  · have hlen : (block n (replace n buffer k b) k).length = n :=
      length_block (by rw [length_replace h hb]; exact h)
    rw [List.getElem?_eq_none (by omega), List.getElem?_eq_none (by omega)]

theorem block_replace_of_ne (h : (k + 1) * n ≤ buffer.length) (hb : b.length = n) {j : Nat}
    (hj : j ≠ k) : block n (replace n buffer k b) j = block n buffer j := by
  apply List.ext_getElem?
  intro i
  by_cases hi : i < n
  · rw [getElem?_block hi, getElem?_block hi, getElem?_replace h hb, if_neg]
    rintro ⟨hle, hlt⟩
    obtain hjk | hjk := Nat.lt_or_gt_of_ne hj
    · have hmul : (j + 1) * n ≤ k * n := Nat.mul_le_mul_right n hjk
      rw [Nat.succ_mul] at hmul
      omega
    · have hmul : (k + 1) * n ≤ j * n := Nat.mul_le_mul_right n hjk
      omega
  · have hnone : ∀ c : List α, (block n c j)[i]? = none := fun c =>
      List.getElem?_eq_none ((List.length_take_le _ _).trans (Nat.not_lt.1 hi))
    rw [hnone, hnone]

end

variable {σ : Type u}

/-- One block goes through the step; none if it is not inside the buffer. -/
def stepBlock (n : Nat) (step : σ → List α → Option (List α × σ)) (s : List α × σ) (k : Nat) :
    Option (List α × σ) :=
  if (k + 1) * n ≤ s.1.length then
    (step s.2 (block n s.1 k)).map fun r => (replace n s.1 k r.1, r.2)
  else none

/-- These blocks go through the step, one after the other. -/
def overBlocks (n : Nat) (step : σ → List α → Option (List α × σ)) (s : List α × σ)
    (ks : List Nat) : Option (List α × σ) :=
  ks.foldlM (stepBlock n step) s

/-- A step that keeps `P` and makes `R` of every block makes `R` of these blocks, and leaves the
others alone. -/
theorem overBlocks_spec {m : Nat} (step : σ → List α → Option (List α × σ)) (P : σ → Prop)
    (R : List α → List α → Prop) (ks : List Nat) (s : List α × σ)
    (hstep : ∀ k ∈ ks, ∀ st b, P st → b.length = n →
      ∃ r, step st b = some r ∧ r.1.length = n ∧ P r.2 ∧ R b r.1)
    (hks : ∀ k ∈ ks, k < m) (hnodup : ks.Nodup)
    (hlen : s.1.length = m * n) (hP : P s.2) :
    ∃ s', overBlocks n step s ks = some s' ∧ s'.1.length = m * n ∧ P s'.2 ∧
      (∀ k ∈ ks, R (block n s.1 k) (block n s'.1 k)) ∧
      ∀ k, k ∉ ks → block n s'.1 k = block n s.1 k := by
  induction ks generalizing s with
  | nil => exact ⟨s, rfl, hlen, hP, fun k hk => absurd hk List.not_mem_nil, fun k _ => rfl⟩
  | cons k ks ih =>
    obtain ⟨hk, hnodup⟩ := List.nodup_cons.1 hnodup
    have hin : (k + 1) * n ≤ s.1.length := by
      rw [hlen]
      exact Nat.mul_le_mul_right n (hks k List.mem_cons_self)
    obtain ⟨r, hr, hrlen, hrP, hR⟩ := hstep k List.mem_cons_self s.2 (block n s.1 k) hP (length_block hin)
    have hmade : stepBlock n step s k = some (replace n s.1 k r.1, r.2) := by
      rw [stepBlock, if_pos hin, hr]
      rfl
    obtain ⟨s', hrun, hlen', hP', hall, hothers⟩ :=
      ih (replace n s.1 k r.1, r.2) (fun j hj => hstep j (List.mem_cons_of_mem _ hj))
        (fun j hj => hks j (List.mem_cons_of_mem _ hj)) hnodup
        (by rw [length_replace hin hrlen, hlen]) hrP
    refine ⟨s', ?_, hlen', hP', ?_, ?_⟩
    · show (stepBlock n step s k).bind (fun s => overBlocks n step s ks) = some s'
      rw [hmade]
      exact hrun
    · intro j hj
      obtain rfl | hj := List.mem_cons.1 hj
      · rw [hothers _ hk, block_replace_self hin hrlen]
        exact hR
      · have hne : j ≠ k := by
          intro heq
          exact hk (heq ▸ hj)
        have hkept := hall j hj
        rw [block_replace_of_ne hin hrlen hne] at hkept
        exact hkept
    · intro j hj
      obtain ⟨hne, hj⟩ := not_or.1 (mt List.mem_cons.2 hj)
      rw [hothers j hj, block_replace_of_ne hin hrlen hne]

end Blocks
