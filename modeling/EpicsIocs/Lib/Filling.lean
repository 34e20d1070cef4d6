import Mathlib.Data.List.Basic

/-!
# A map filled in a loop

`fill entry l m`: the items of `l` that have an entry put it into `m`, each over what an
earlier one with its key has put there.

A key is taken if an item has it (`mem_fill`), and what stands under it then comes from one
of these items (`exists_of_fill`).  So an item whose key no other item has finds its own value
there (`fill_of_differ`).
-/

namespace Filling

open Std (TreeMap TransOrd LawfulEqOrd)

variable {α κ ν : Type} [Ord κ] {entry : α → Option (κ × ν)}

def put (entry : α → Option (κ × ν)) (m : TreeMap κ ν) (a : α) : TreeMap κ ν :=
  match entry a with
  | some e => m.insert e.1 e.2
  | none => m

def fill (entry : α → Option (κ × ν)) (l : List α) (m : TreeMap κ ν) : TreeMap κ ν :=
  l.foldl (put entry) m

@[simp] theorem fill_nil (m : TreeMap κ ν) : fill entry [] m = m := rfl

@[simp] theorem fill_cons (a : α) (l : List α) (m : TreeMap κ ν) :
    fill entry (a :: l) m = fill entry l (put entry m a) := rfl

theorem put_none {a : α} (h : entry a = none) (m : TreeMap κ ν) : put entry m a = m := by
  rw [put, h]

variable [TransOrd κ] [LawfulEqOrd κ] [DecidableEq κ]

theorem getElem?_put {a : α} {e : κ × ν} (h : entry a = some e) (m : TreeMap κ ν) (k : κ) :
    (put entry m a)[k]? = if e.1 = k then some e.2 else m[k]? := by
  unfold put
  rw [h]
  dsimp only
  rw [TreeMap.getElem?_insert]
  simp only [Std.compare_eq_iff_eq]

/-- What stands under a key comes from an item, or stood there before. -/
theorem exists_of_fill {l : List α} {m : TreeMap κ ν} {k : κ} {v : ν}
    (h : (fill entry l m)[k]? = some v) : (∃ a ∈ l, entry a = some (k, v)) ∨ m[k]? = some v := by
  induction l generalizing m with
  | nil => exact .inr h
  | cons a l ih =>
    rcases ih h with ⟨b, hb, he⟩ | hm
    · exact .inl ⟨b, List.mem_cons_of_mem _ hb, he⟩
    cases he : entry a with
    | none =>
      rw [put_none he] at hm
      exact .inr hm
    | some e =>
      rw [getElem?_put he] at hm
      split at hm
      · rename_i hk
        subst hk
        cases hm
        exact .inl ⟨a, List.mem_cons_self, he⟩
      · exact .inr hm

omit [DecidableEq κ] in
theorem mem_fill {l : List α} {m : TreeMap κ ν} {k : κ} :
    k ∈ fill entry l m ↔ (∃ a ∈ l, ∃ v, entry a = some (k, v)) ∨ k ∈ m := by
  induction l generalizing m with
  | nil => simp
  | cons a l ih =>
    rw [fill_cons, ih]
    cases he : entry a with
    | none => simp [put_none he, he]
    | some e =>
      obtain ⟨k', v⟩ := e
      simp [put, he, or_assoc, or_left_comm]

/-- An item finds its value under its key, if no other item has another value for that key. -/
theorem fill_of_differ {l : List α} {a : α} {k : κ} {v : ν} (ha : a ∈ l)
    (he : entry a = some (k, v)) (h : ∀ b ∈ l, ∀ w, entry b = some (k, w) → w = v) :
    (fill entry l ∅)[k]? = some v := by
  obtain ⟨u, hu⟩ := Option.isSome_iff_exists.1 (TreeMap.mem_iff_isSome_getElem?.1 (mem_fill.2 (.inl ⟨a, ha, v, he⟩)))
  rcases exists_of_fill hu with ⟨b, hb, hbk⟩ | hempty
  · rw [hu, h b hb u hbk]
  · rw [TreeMap.getElem?_emptyc] at hempty
    cases hempty

end Filling
