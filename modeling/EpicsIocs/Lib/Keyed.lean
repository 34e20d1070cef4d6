import Mathlib.Data.List.Sort

/-!
# Sorting by a key

`sort key l`: the stable sort of `l` by `key`.  A list that is strictly sorted by
a key is known by its members (`ext`), so that of entries whose keys differ the
sort is known by the entries.  A map that keeps the order of the keys goes through
a sort (`map_sort`), and what stands in order stays so (`sublist_sort`).
-/

namespace Keyed

universe u v w

variable {α : Type u} {κ : Type v} [LinearOrder κ] (key : α → κ)

def sort (l : List α) : List α := l.insertionSort fun a b => key a ≤ key b

variable (l : List α) in
theorem sort_perm : (sort key l).Perm l := List.perm_insertionSort _ l

variable {key} {l : List α}

@[simp] theorem mem_sort {a : α} : a ∈ sort key l ↔ a ∈ l := (sort_perm key l).mem_iff

theorem sort_sorted : (sort key l).Pairwise fun a b => key a ≤ key b := by
  have htotal : Std.Total fun a b : α => key a ≤ key b := ⟨fun a b => le_total (key a) (key b)⟩
  have htrans : IsTrans α fun a b => key a ≤ key b := ⟨fun _ _ _ => le_trans⟩
  exact List.pairwise_insertionSort _ l

/-- Entries whose keys differ are sorted strictly. -/
theorem sort_strict (h : l.Pairwise fun a b => key a ≠ key b) :
    (sort key l).Pairwise fun a b => key a < key b := by
  have hne := (sort_perm key l).symm.pairwise h fun hab => hab.symm
  exact (sort_sorted.and hne).imp fun hab => lt_of_le_of_ne hab.1 hab.2

theorem sort_of_sorted (h : l.Pairwise fun a b => key a ≤ key b) : sort key l = l :=
  h.insertionSort_eq

variable (key) in
/-- Strictly sorted lists with the same members are the same. -/
theorem ext {l₁ l₂ : List α} (h₁ : l₁.Pairwise fun a b => key a < key b)
    (h₂ : l₂.Pairwise fun a b => key a < key b) (hmem : ∀ a, a ∈ l₁ ↔ a ∈ l₂) : l₁ = l₂ := by
  have hirrefl : Std.Irrefl fun a b : α => key a < key b := ⟨fun a => lt_irrefl (key a)⟩
  have hantisymm : Std.Antisymm fun a b : α => key a < key b :=
    ⟨fun _ _ hab hba => absurd hba (lt_asymm hab)⟩
  exact h₁.eq_of_mem_iff h₂ hmem

theorem map_sort {β : Type w} {key' : β → κ} {f : α → β}
    (h : ∀ a ∈ l, ∀ b ∈ l, key a ≤ key b ↔ key' (f a) ≤ key' (f b)) :
    (sort key l).map f = sort key' (l.map f) :=
  List.map_insertionSort _ _ f l h

/-- What stands in the order of the keys already keeps its order. -/
theorem sublist_sort {c : List α} (hc : c.Pairwise fun a b => key a ≤ key b) (h : c.Sublist l) :
    c.Sublist (sort key l) := by
  have htotal : Std.Total fun a b : α => key a ≤ key b := ⟨fun a b => le_total (key a) (key b)⟩
  have htrans : IsTrans α fun a b => key a ≤ key b := ⟨fun _ _ _ => le_trans⟩
  exact List.sublist_insertionSort hc h

end Keyed
