import Mathlib.Data.List.Basic
import Mathlib.Logic.Function.Basic

/-!
# Indexed writes into a buffer

A loop that fills a buffer element by element is a list of writes; `scatter` makes
them in order.  Where all writes to a position agree, and there is one, the position
holds what they say (`getElem?_scatter`).  `updateAll` changes elements where they are, each once
however often it is named (`getElem?_updateAll`).  `place` makes writes to a memory with any
addresses.
-/

namespace Scatter

universe u

variable {α : Type u}

/-- The buffer after the writes, one after the other. -/
def scatter (out : List α) (writes : List (Nat × α)) : List α :=
  writes.foldl (fun out w => out.set w.1 w.2) out

@[simp] theorem length_scatter (out : List α) (writes : List (Nat × α)) :
    (scatter out writes).length = out.length := by
  induction writes generalizing out with
  | nil => rfl
  | cons w writes ih =>
    show (scatter (out.set w.1 w.2) writes).length = out.length
    rw [ih, List.length_set]

/-- Writes that agree with what is there change nothing there. -/
theorem getElem?_scatter_of_held {out : List α} {writes : List (Nat × α)} {i : Nat} {a : α}
    (hheld : out[i]? = some a) (hall : ∀ b, (i, b) ∈ writes → b = a) :
    (scatter out writes)[i]? = some a := by
  induction writes generalizing out with
  | nil => exact hheld
  | cons w writes ih =>
    obtain ⟨j, b⟩ := w
    refine ih ?_ fun c hc => hall c (List.mem_cons_of_mem _ hc)
    by_cases hj : j = i
    · subst hj
      obtain ⟨hlt, -⟩ := List.getElem?_eq_some_iff.1 hheld
      rw [List.getElem?_set_self hlt, hall b List.mem_cons_self]
    · rw [List.getElem?_set_ne hj, hheld]

/-- What all writes to a position say is there in the end. -/
theorem getElem?_scatter {out : List α} {writes : List (Nat × α)} {i : Nat} {a : α}
    (hi : i < out.length) (hmem : (i, a) ∈ writes) (hall : ∀ b, (i, b) ∈ writes → b = a) :
    (scatter out writes)[i]? = some a := by
  induction writes generalizing out with
  | nil => exact absurd hmem List.not_mem_nil
  | cons w writes ih =>
    obtain ⟨j, b⟩ := w
    have hrest : ∀ c, (i, c) ∈ writes → c = a := fun c hc => hall c (List.mem_cons_of_mem _ hc)
    obtain heq | hmem := List.mem_cons.1 hmem
    · cases heq
      show (scatter (out.set i a) writes)[i]? = some a
      exact getElem?_scatter_of_held (List.getElem?_set_self hi) hrest
    · exact ih (by simpa using hi) hmem hrest

/-! ## Checked writes -/

/-- The buffer after the writes; none if one of them is outside the buffer or has no value. -/
def scatter? (out : List α) (writes : List (Nat × Option α)) : Option (List α) :=
  writes.foldlM (fun out w =>
    w.2.bind fun a => if w.1 < out.length then some (out.set w.1 a) else none) out

theorem scatter?_eq {out : List α} {writes : List (Nat × Option α)}
    (h : ∀ w ∈ writes, w.1 < out.length ∧ ∃ a, w.2 = some a) :
    ∃ made : List (Nat × α), writes = made.map (fun w => (w.1, some w.2)) ∧
      scatter? out writes = some (scatter out made) := by
  induction writes generalizing out with
  | nil => exact ⟨[], rfl, rfl⟩
  | cons w writes ih =>
    obtain ⟨i, r⟩ := w
    obtain ⟨hi, a, ha⟩ := h (i, r) List.mem_cons_self
    dsimp only at hi ha
    subst ha
    have hrest : ∀ w ∈ writes, w.1 < (out.set i a).length ∧ ∃ b, w.2 = some b := by
      intro w hw
      rw [List.length_set]
      exact h w (List.mem_cons_of_mem _ hw)
    obtain ⟨made, hmade, hrun⟩ := ih hrest
    refine ⟨(i, a) :: made, by rw [hmade]; rfl, ?_⟩
    show ((if i < out.length then some (out.set i a) else none).bind fun out =>
      scatter? out writes) = _
    rw [if_pos hi]
    exact hrun

/-- Writes inside the buffer that agree among themselves. -/
theorem scatter?_spec (out : List α) (writes : List (Nat × Option α))
    (h : ∀ w ∈ writes, w.1 < out.length ∧ ∃ a, w.2 = some a)
    (hagree : ∀ i r r', (i, r) ∈ writes → (i, r') ∈ writes → r = r') :
    ∃ out', scatter? out writes = some out' ∧ out'.length = out.length ∧
      ∀ i r, (i, r) ∈ writes → out'[i]? = r := by
  obtain ⟨made, hmade, hrun⟩ := scatter?_eq h
  refine ⟨scatter out made, hrun, length_scatter out made, ?_⟩
  intro i r hmem
  obtain ⟨hi, a, ha⟩ := h _ hmem
  dsimp only at hi ha
  subst ha
  have hmade_mem : ∀ b, (i, b) ∈ made → (i, some b) ∈ writes := by
    intro b hb
    rw [hmade]
    exact List.mem_map.2 ⟨(i, b), hb, rfl⟩
  apply getElem?_scatter hi
  · rw [hmade] at hmem
    obtain ⟨w, hw, heq⟩ := List.mem_map.1 hmem
    cases heq
    exact hw
  · intro b hb
    exact Option.some.inj (hagree i _ _ (hmade_mem b hb) hmem)

/-! ## Updates in place -/

/-- The buffer after an update at each position, one after the other. -/
def updateAll (f : α → α) (out : List α) (positions : List Nat) : List α :=
  positions.foldl (fun out i => out.modify i f) out

@[simp] theorem length_updateAll (f : α → α) (out : List α) (positions : List Nat) :
    (updateAll f out positions).length = out.length := by
  induction positions generalizing out with
  | nil => rfl
  | cons i positions ih =>
    show (updateAll f (out.modify i f) positions).length = out.length
    rw [ih, List.length_modify]

/-- An update that changes nothing the second time is made at the positions, each at most once. -/
theorem getElem?_updateAll {f : α → α} (hf : ∀ a, f (f a) = f a) (out : List α)
    (positions : List Nat) (n : Nat) :
    (updateAll f out positions)[n]? = if n ∈ positions then out[n]?.map f else out[n]? := by
  induction positions generalizing out with
  | nil => rw [if_neg List.not_mem_nil]; rfl
  | cons i positions ih =>
    show (updateAll f (out.modify i f) positions)[n]? = _
    rw [ih, List.getElem?_modify]
    by_cases hi : i = n
    · subst hi
      rw [if_pos List.mem_cons_self]
      split
      · cases out[i]? with
        | none => rfl
        | some a => simp [hf]
      · cases out[i]? with
        | none => rfl
        | some a => simp
    · have hmem : n ∈ i :: positions ↔ n ∈ positions := by
        rw [List.mem_cons]
        exact or_iff_right fun h => hi h.symm
      simp only [hmem, if_neg hi]
      cases out[n]? with
      | none => simp
      | some a => simp

/-- Loop indices are read off an index that mixes them. -/
theorem radix_inj {n q q' r r' : Nat} (hr : r < n) (hr' : r' < n) (h : q * n + r = q' * n + r') :
    q = q' ∧ r = r' := by
  have hn : 0 < n := Nat.zero_lt_of_lt hr
  have hdiv := congrArg (· / n) h
  have hmod := congrArg (· % n) h
  simp only [Nat.add_comm _ r, Nat.add_comm _ r', Nat.add_mul_div_right _ _ hn,
    Nat.add_mul_mod_self_right, Nat.div_eq_of_lt hr, Nat.div_eq_of_lt hr', Nat.mod_eq_of_lt hr,
    Nat.mod_eq_of_lt hr', Nat.zero_add] at hdiv hmod
  exact ⟨hdiv, hmod⟩

theorem radix_lt {n m q r : Nat} (hq : q < m) (hr : r < n) : q * n + r < m * n := by
  have hle : (q + 1) * n ≤ m * n := Nat.mul_le_mul_right n hq
  rw [Nat.succ_mul] at hle
  omega

/-! ## A memory -/

variable {κ : Type u} [DecidableEq κ]

/-- The memory after the writes, one after the other. -/
def place (mem : κ → α) (writes : List (κ × α)) : κ → α :=
  writes.foldl (fun mem w => Function.update mem w.1 w.2) mem

theorem place_append (mem : κ → α) (before after : List (κ × α)) :
    place mem (before ++ after) = place (place mem before) after := by
  unfold place
  exact List.foldl_append

/-- An address holds what was there, or what a write says. -/
theorem place_cases (mem : κ → α) (writes : List (κ × α)) (a : κ) :
    (place mem writes a = mem a ∧ ∀ v, (a, v) ∉ writes) ∨ (a, place mem writes a) ∈ writes := by
  induction writes generalizing mem with
  | nil => exact .inl ⟨rfl, fun v => List.not_mem_nil⟩
  | cons w writes ih =>
    show (place (Function.update mem w.1 w.2) writes a = mem a ∧ ∀ v, (a, v) ∉ w :: writes) ∨
      (a, place (Function.update mem w.1 w.2) writes a) ∈ w :: writes
    obtain ⟨hsame, hnone⟩ | hmem := ih (Function.update mem w.1 w.2)
    · by_cases ha : a = w.1
      · refine .inr ?_
        rw [hsame, ha, Function.update_self]
        exact List.mem_cons_self
      · refine .inl ⟨by rw [hsame, Function.update_of_ne ha], fun v hv => ?_⟩
        obtain heq | hv := List.mem_cons.1 hv
        · exact ha (congrArg Prod.fst heq)
        · exact hnone v hv
    · exact .inr (List.mem_cons_of_mem _ hmem)

/-- An address that no write names. -/
theorem place_of_not_mem {mem : κ → α} {writes : List (κ × α)} {a : κ}
    (h : ∀ v, (a, v) ∉ writes) : place mem writes a = mem a := by
  obtain ⟨hsame, -⟩ | hmem := place_cases mem writes a
  · exact hsame
  · exact absurd hmem (h _)

/-- What all writes to an address say is there in the end. -/
theorem place_of_mem {mem : κ → α} {writes : List (κ × α)} {a : κ} {v : α}
    (hmem : (a, v) ∈ writes) (hall : ∀ w, (a, w) ∈ writes → w = v) :
    place mem writes a = v := by
  obtain ⟨-, hnone⟩ | hw := place_cases mem writes a
  · exact absurd hmem (hnone v)
  · exact hall _ hw

end Scatter
