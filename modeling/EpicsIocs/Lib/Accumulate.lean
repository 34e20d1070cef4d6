import EpicsIocs.Lib.Scatter

/-!
# Buffers that sum

A loop that changes a buffer is a list of updates, each at a position.  `applyAll` makes them in
order, and what an element becomes depends on the updates at its position alone
(`getElem?_applyAll`).  `updatesAt_row` and `updatesAt_grid` say which those are when the updates
go along a row, or along the rows of a part of an image.
-/

namespace Accumulate

universe u

variable {α : Type u}

/-- The buffer after the updates, one after the other. -/
def applyAll (out : List α) (updates : List (Nat × (α → α))) : List α :=
  updates.foldl (fun out u => out.modify u.1 u.2) out

/-- The updates at a position. -/
def updatesAt (i : Nat) (updates : List (Nat × (α → α))) : List (α → α) :=
  (updates.filter (fun u => u.1 = i)).map fun u => u.2

/-- The value after the updates, one after the other. -/
def through (a : α) (updates : List (α → α)) : α := updates.foldl (fun a f => f a) a

@[simp] theorem applyAll_nil (out : List α) : applyAll out [] = out := rfl

theorem applyAll_append (out : List α) (before after : List (Nat × (α → α))) :
    applyAll out (before ++ after) = applyAll (applyAll out before) after := by
  unfold applyAll
  exact List.foldl_append

@[simp] theorem length_applyAll (out : List α) (updates : List (Nat × (α → α))) :
    (applyAll out updates).length = out.length := by
  induction updates generalizing out with
  | nil => rfl
  | cons u updates ih =>
    show (applyAll (out.modify u.1 u.2) updates).length = out.length
    rw [ih, List.length_modify]

@[simp] theorem updatesAt_nil (i : Nat) : updatesAt i ([] : List (Nat × (α → α))) = [] := rfl

theorem updatesAt_cons (i : Nat) (u : Nat × (α → α)) (updates : List (Nat × (α → α))) :
    updatesAt i (u :: updates) =
      if u.1 = i then u.2 :: updatesAt i updates else updatesAt i updates := by
  unfold updatesAt
  by_cases h : u.1 = i
  · rw [if_pos h, List.filter_cons_of_pos (by simpa using h), List.map_cons]
  · rw [if_neg h, List.filter_cons_of_neg (by simpa using h)]

theorem updatesAt_append (i : Nat) (before after : List (Nat × (α → α))) :
    updatesAt i (before ++ after) = updatesAt i before ++ updatesAt i after := by
  unfold updatesAt
  rw [List.filter_append, List.map_append]

/-- An element sees the updates at its position. -/
theorem getElem?_applyAll (out : List α) (updates : List (Nat × (α → α))) (i : Nat) :
    (applyAll out updates)[i]? = out[i]?.map fun a => through a (updatesAt i updates) := by
  induction updates generalizing out with
  | nil =>
    show out[i]? = out[i]?.map fun a => a
    rw [Option.map_id']
  | cons u updates ih =>
    show (applyAll (out.modify u.1 u.2) updates)[i]? = _
    rw [ih, List.getElem?_modify, updatesAt_cons]
    cases out[i]? with
    | none => rfl
    | some a =>
      show some (through (if u.1 = i then u.2 a else a) (updatesAt i updates)) =
        some (through a _)
      by_cases h : u.1 = i
      · rw [if_pos h, if_pos h]
        rfl
      · rw [if_neg h, if_neg h]

theorem updatesAt_flatMap {β : Type*} (i : Nat) (l : List β) (f : β → List (Nat × (α → α))) :
    updatesAt i (l.flatMap f) = l.flatMap fun b => updatesAt i (f b) := by
  induction l with
  | nil => rfl
  | cons b l ih => rw [List.flatMap_cons, updatesAt_append, ih, List.flatMap_cons]

/-- Updates along a row that begins at `base`. -/
theorem updatesAt_row (i base w : Nat) (f : Nat → α → α) :
    updatesAt i ((List.range w).map fun k => (base + k, f k)) =
      if base ≤ i ∧ i < base + w then [f (i - base)] else [] := by
  induction w with
  | zero =>
    rw [if_neg (by omega)]
    rfl
  | succ w ih =>
    rw [List.range_succ, List.map_append, updatesAt_append, ih, List.map_singleton, updatesAt_cons,
      updatesAt_nil]
    by_cases hi : base + w = i
    · rw [if_pos hi, if_neg (by omega), if_pos (by omega), List.nil_append]
      rw [show i - base = w by omega]
    · rw [if_neg hi, List.append_nil]
      by_cases hin : base ≤ i ∧ i < base + w
      · rw [if_pos hin, if_pos (by omega)]
      · rw [if_neg hin, if_neg (by omega)]

/-- Of many lists, one alone has something at the position. -/
theorem updatesAt_flatMap_range {i m y : Nat} {f : Nat → List (Nat × (α → α))} (hy : y < m)
    (hother : ∀ r, r < m → r ≠ y → updatesAt i (f r) = []) :
    updatesAt i ((List.range m).flatMap f) = updatesAt i (f y) := by
  induction m with
  | zero => exact absurd hy (Nat.not_lt_zero y)
  | succ m ih =>
    rw [List.range_succ, List.flatMap_append, updatesAt_append, List.flatMap_singleton]
    by_cases h : y = m
    · have hnone : ∀ n ≤ m, updatesAt i ((List.range n).flatMap f) = [] := by
        intro n hn
        induction n with
        | zero => rfl
        | succ n ihn =>
          rw [List.range_succ, List.flatMap_append, updatesAt_append, List.flatMap_singleton,
            ihn (by omega), hother n (by omega) (by omega), List.append_nil]
      rw [hnone m (Nat.le_refl m), List.nil_append, h]
    · rw [ih (by omega) fun r hr => hother r (by omega), hother m (by omega) (Ne.symm h),
        List.append_nil]

/-- Updates along the columns from `lo` on of the first `h` rows of an image `n` wide. -/
theorem updatesAt_grid {n h lo w x y : Nat} (f : Nat → Nat → α → α) (hcols : lo + w ≤ n)
    (hx : x < n) (hy : y < h) :
    updatesAt (y * n + x)
        ((List.range h).flatMap fun r => (List.range w).map fun k => (r * n + lo + k, f r k)) =
      if lo ≤ x ∧ x < lo + w then [f y (x - lo)] else [] := by
  rw [updatesAt_flatMap_range hy]
  · rw [updatesAt_row]
    by_cases hin : lo ≤ x ∧ x < lo + w
    · rw [if_pos hin, if_pos (by omega), show y * n + x - (y * n + lo) = x - lo by omega]
    · rw [if_neg hin, if_neg (by omega)]
  · intro r hr hne
    rw [updatesAt_row]
    apply if_neg
    intro hin
    have hkey : y * n + x = r * n + (y * n + x - r * n) := by omega
    exact hne (Scatter.radix_inj hx (by omega) hkey).1.symm

end Accumulate
