import Mathlib.Data.List.Basic

/-!
# Greedy packing

A `Budget` says which lists of elements fit one batch; every non-empty part of a
list that fits fits too.  `B.pack acc bs` extends `acc` by elements of `bs` while
the extension fits, and `B.Batches bs bss` holds of the batches a repeated `pack`
makes of `bs` up to the first that comes out empty.

    (B.pack [] bs).1 = bs.take k ↔ k is the largest prefix that fits   (pack_take, Largest.unique)
    B.Batches bs bss → bss.flatten = bs.takeWhile (B.fits [·])          (Batches.flatten)

So what a walk over batches reaches is decided by the first element that fits no
batch, not by where the batches end.
-/

namespace Packing

universe u

/-- Which lists fit one batch. -/
structure Budget (β : Type u) where
  fits : List β → Bool
  sublist : ∀ l l' : List β, l'.Sublist l → l' ≠ [] → fits l → fits l'

namespace Budget

variable {β : Type u} (B : Budget β)

/-- Extend `acc` while it fits: the batch and what is left. -/
def pack : List β → List β → List β × List β
  | acc, [] => (acc, [])
  | acc, b :: bs => if B.fits (acc ++ [b]) then pack (acc ++ [b]) bs else (acc, b :: bs)

/-- The batches of a repeated `pack`. -/
inductive Batches : List β → List (List β) → Prop
  | stop {bs : List β} : (B.pack [] bs).1 = [] → Batches bs []
  | batch {bs : List β} {bss : List (List β)} : (B.pack [] bs).1 ≠ [] →
      Batches (B.pack [] bs).2 bss → Batches bs ((B.pack [] bs).1 :: bss)

/-- `k` is the length of the largest prefix of `bs` that fits. -/
structure Largest (bs : List β) (k : Nat) : Prop where
  le : k ≤ bs.length
  fits : k = 0 ∨ B.fits (bs.take k)
  stop : k = bs.length ∨ B.fits (bs.take (k + 1)) = false

/-! ## Lemmas -/

variable {B}

theorem pack_append (acc bs : List β) : (B.pack acc bs).1 ++ (B.pack acc bs).2 = acc ++ bs := by
  induction bs generalizing acc with
  | nil => simp [pack]
  | cons b bs ih =>
    unfold pack
    split
    · rw [ih, List.append_assoc, List.singleton_append]
    · rfl

theorem pack_fits {acc : List β} (bs : List β) (h : acc = [] ∨ B.fits acc) :
    (B.pack acc bs).1 = [] ∨ B.fits (B.pack acc bs).1 := by
  induction bs generalizing acc with
  | nil => exact h
  | cons b bs ih =>
    unfold pack
    split
    · rename_i hb
      exact ih (Or.inr hb)
    · exact h

theorem pack_stop (acc bs : List β) :
    (B.pack acc bs).2 = [] ∨
      ∃ b rest, (B.pack acc bs).2 = b :: rest ∧ B.fits ((B.pack acc bs).1 ++ [b]) = false := by
  induction bs generalizing acc with
  | nil => exact Or.inl rfl
  | cons b bs ih =>
    unfold pack
    split
    · exact ih _
    · rename_i hb
      exact Or.inr ⟨b, bs, rfl, by simpa using hb⟩

theorem fits_take {bs : List β} {j k : Nat} (hj : 0 < j) (hjk : j ≤ k) (hb : bs ≠ [])
    (h : B.fits (bs.take k)) : B.fits (bs.take j) := by
  refine B.sublist _ _ (List.take_sublist_take_left hjk) ?_ h
  rw [ne_eq, List.take_eq_nil_iff]
  rintro (hz | hz)
  · omega
  · exact hb hz

theorem Largest.le_of {bs : List β} {k k' : Nat} (h : B.Largest bs k) (h' : B.Largest bs k') :
    k' ≤ k := by
  by_contra hlt
  have hle := h'.le
  rcases h.stop with hk | hk
  · omega
  · have hfits : B.fits (bs.take k') := by
      rcases h'.fits with h0 | hf
      · omega
      · exact hf
    have hne : bs ≠ [] := by
      rintro rfl
      simp only [List.length_nil] at hle
      omega
    have hnext : B.fits (bs.take (k + 1)) := fits_take (by omega) (by omega) hne hfits
    rw [hk] at hnext
    cases hnext

/-- One length at most is the largest. -/
theorem Largest.unique {bs : List β} {k k' : Nat} (h : B.Largest bs k) (h' : B.Largest bs k') :
    k = k' :=
  Nat.le_antisymm (h'.le_of h) (h.le_of h')

theorem pack_nil_iff (bs : List β) :
    (B.pack [] bs).1 = [] ↔ bs.takeWhile (fun b => B.fits [b]) = [] := by
  cases bs with
  | nil => simp [pack]
  | cons b bs =>
    unfold pack
    by_cases hb : B.fits [b]
    · have happ := pack_append (B := B) [b] bs
      simp only [List.nil_append, hb, if_true, List.takeWhile_cons, reduceCtorEq, iff_false]
      intro hnil
      rcases pack_stop (B := B) [b] bs with h | ⟨c, rest, h, hc⟩
      · rw [hnil, h] at happ
        cases happ
      · rw [hnil, h] at happ
        rw [hnil] at hc
        simp only [List.nil_append, List.cons_append, List.cons.injEq] at happ hc
        rw [happ.1, hb] at hc
        cases hc
    · simp [hb]

/-- A batch holds only elements that fit alone. -/
theorem pack_alone (bs : List β) : ∀ b ∈ (B.pack [] bs).1, B.fits [b] := by
  intro b hb
  rcases pack_fits bs (Or.inl rfl) with h | h
  · rw [h] at hb
    cases hb
  · exact B.sublist _ _ (List.singleton_sublist.2 hb) (by simp) h

/-- **What the batches reach.**  Everything before the first element that fits no
batch, in order, each once. -/
theorem Batches.flatten {bs : List β} {bss : List (List β)} (h : B.Batches bs bss) :
    bss.flatten = bs.takeWhile (fun b => B.fits [b]) := by
  induction h with
  | stop hnil => rw [(pack_nil_iff _).1 hnil]; rfl
  | @batch bs bss _ _ ih =>
    have happ : (B.pack [] bs).1 ++ (B.pack [] bs).2 = bs := pack_append [] bs
    rw [List.flatten_cons, ih]
    conv => rhs; rw [← happ]
    rw [List.takeWhile_append_of_pos (pack_alone bs)]

end Budget

end Packing
