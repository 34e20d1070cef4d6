import EpicsIocs.Lib.Accumulate
import EpicsIocs.Lib.Blocks
import EpicsIocs.SpecsAnalyser.Acquisition
import Mathlib.Data.List.GetD

/-!
# What an acquisition sums

A device measures a value `scan k x y` for each iteration `k`, energy channel `x` and row `y`.
`Summed` says of an image and a spectrum that they are the sums over what has been read, where `done` is how many
channels of each iteration have been.  A reply to a request for the next channels makes them the sums over these
too (`Summed.stored`).
-/

namespace SpecsAnalyser

open Accumulate Raster

variable {V : Type} (f : Doubles V) (c : Setup) (scan : Nat → Nat → Nat → V)

/-! ## The sums -/

/-- The iterations that have read a channel. -/
def readings (done : List Nat) (x : Nat) : List Nat :=
  (List.range done.length).filter fun k => x < done.getD k 0

/-- The first iteration writes, the others add. -/
def pixelUpdate (k x y : Nat) (a : V) : V :=
  if k = 0 then scan k x y else f.add a (scan k x y)

def pixel (done : List Nat) (x y : Nat) : V :=
  (readings done x).foldl (fun a k => pixelUpdate f scan k x y a) f.zero

def channelUpdate (k x : Nat) (a : V) : V :=
  (List.range c.ny).foldl (fun a y => f.add a (scan k x y)) a

def channel (done : List Nat) (x : Nat) : V :=
  (readings done x).foldl (fun a k => channelUpdate f c scan k x a) f.zero

structure Summed (done : List Nat) (image spectrum : List V) : Prop where
  length_image : image.length = c.nx * c.ny
  length_spectrum : spectrum.length = c.nx
  pixel_eq : ∀ x < c.nx, ∀ y < c.ny, image[y * c.nx + x]? = some (pixel f scan done x y)
  channel_eq : ∀ x < c.nx, spectrum[x]? = some (channel f c scan done x)

section
variable {f c scan}

theorem readings_concat (past : List Nat) (n x : Nat) :
    readings (past ++ [n]) x = readings past x ++ if x < n then [past.length] else [] := by
  unfold readings
  rw [List.length_append, List.length_singleton, List.range_succ, List.filter_append]
  congr 1
  · apply List.filter_congr
    intro k hk
    rw [List.getD_append _ _ _ _ (List.mem_range.1 hk)]
  · rw [List.filter_singleton, List.getD_append_right _ _ _ _ (Nat.le_refl _), Nat.sub_self]
    show (bif decide (x < n) then [past.length] else []) = _
    by_cases h : x < n
    · rw [if_pos h, decide_eq_true h, cond_true]
    · rw [if_neg h, decide_eq_false h, cond_false]

/-- An iteration that has read nothing changes nothing. -/
theorem Summed.begin {past : List Nat} {image spectrum : List V} (h : Summed f c scan past image spectrum) :
    Summed f c scan (past ++ [0]) image spectrum := by
  have hread : ∀ x, readings (past ++ [0]) x = readings past x := by
    intro x
    rw [readings_concat, if_neg (Nat.not_lt_zero x), List.append_nil]
  refine ⟨h.length_image, h.length_spectrum, fun x hx y hy => ?_, fun x hx => ?_⟩
  · rw [h.pixel_eq x hx y hy, pixel, pixel, hread]
  · rw [h.channel_eq x hx, channel, channel, hread]

theorem Summed.initial : Summed f c scan [] (List.replicate (c.nx * c.ny) f.zero)
    (List.replicate c.nx f.zero) := by
  refine ⟨List.length_replicate, List.length_replicate, fun x hx y hy => ?_, fun x hx => ?_⟩
  · rw [List.getElem?_replicate, if_pos]
    · rfl
    · rw [Nat.mul_comm c.nx]
      exact Scatter.radix_lt hy hx
  · rw [List.getElem?_replicate, if_pos hx]
    rfl

end

/-! ## The loops over a reply -/

/-- The reply to a request for the channels from `lo` on, up to `hi`: row after row. -/
def block (k lo hi : Nat) : List V :=
  (List.range c.ny).flatMap fun y => (List.range (hi - lo)).map fun j => scan k (lo + j) y

def imageUpdates (k lo w h : Nat) : List (Nat × (V → V)) :=
  (List.range h).flatMap fun y => (List.range w).map fun j =>
    (y * c.nx + lo + j, pixelUpdate f scan k (lo + j) y)

def spectrumUpdates (k lo w h : Nat) : List (Nat × (V → V)) :=
  (List.range h).flatMap fun y => (List.range w).map fun j =>
    (lo + j, fun a => f.add a (scan k (lo + j) y))

section
variable {f c scan} {k lo w : Nat} {values : List V}

/-- A value within the image and the spectrum. -/
theorem Sums.point_eq {s : Sums V} {x y : Nat} (hx : x < c.nx) (hy : y < c.ny)
    (hlen : s.spectrum.length = c.nx) (hv : values[s.index]? = some (scan k x y)) :
    s.point f c k values y x =
      { image := s.image.modify (y * c.nx + x) (pixelUpdate f scan k x y)
        spectrum := s.spectrum.modify x fun a => f.add a (scan k x y)
        index := s.index + 1 } := by
  have hin : ¬(c.nx ≤ (x : Int).toNat ∨ c.ny ≤ (y : Int).toNat) := by
    rw [Int.toNat_natCast, Int.toNat_natCast]
    omega
  have hchannel : x < s.spectrum.length := by omega
  unfold Sums.point
  rw [hv]
  dsimp only
  rw [if_neg hin, Int.toNat_natCast, Int.toNat_natCast, if_pos hchannel]
  unfold pixelUpdate
  by_cases hk : k = 0
  · subst hk
    rw [if_pos (show ((0 : Nat) : Int) = 0 from rfl), List.set_eq_modify]
    rfl
  · rw [if_neg (show ¬(k : Int) = 0 by omega)]
    simp only [if_neg hk]

/-- The loop over the columns of a row. -/
theorem Sums.row_eq {s : Sums V} {y : Nat} (hcols : lo + w ≤ c.nx) (hy : y < c.ny)
    (hlen : s.spectrum.length = c.nx)
    (hv : ∀ j < w, values[s.index + j]? = some (scan k (lo + j) y)) :
    s.row f c k values ((List.range w).map fun (j : Nat) => (lo : Int) + j) y =
      { image := applyAll s.image ((List.range w).map fun j =>
          (y * c.nx + lo + j, pixelUpdate f scan k (lo + j) y))
        spectrum := applyAll s.spectrum ((List.range w).map fun j =>
          (lo + j, fun a => f.add a (scan k (lo + j) y)))
        index := s.index + w } := by
  induction w with
  | zero => rfl
  | succ w ih =>
    have hrest := ih (by omega) fun j hj => hv j (by omega)
    unfold Sums.row at hrest ⊢
    rw [List.range_succ, List.map_append, List.foldl_append, hrest, List.map_append, List.map_append,
      applyAll_append, applyAll_append]
    have hcast : (lo : Int) + w = (lo + w : Nat) := by omega
    show Sums.point f c k values y ((lo : Int) + w) _ = _
    rw [hcast, Sums.point_eq (by omega) hy (by simpa using hlen) (hv w (by omega))]
    rw [← Nat.add_assoc (y * c.nx) lo w]
    rfl

/-- The loops over the rows. -/
theorem Sums.rows_eq {image spectrum : List V} {h : Nat} (hcols : lo + w ≤ c.nx) (hh : h ≤ c.ny)
    (hlen : spectrum.length = c.nx)
    (hv : ∀ y < c.ny, ∀ j < w, values[y * w + j]? = some (scan k (lo + j) y)) :
    ((List.range h).map fun (y : Nat) => (0 : Int) + y).foldl
        (fun s y => Sums.row f c k values ((List.range w).map fun (j : Nat) => (lo : Int) + j) y s)
        ⟨image, spectrum, 0⟩ =
      { image := applyAll image (imageUpdates f c scan k lo w h)
        spectrum := applyAll spectrum (spectrumUpdates f scan k lo w h)
        index := h * w } := by
  induction h with
  | zero =>
    rw [Nat.zero_mul]
    rfl
  | succ h ih =>
    rw [List.range_succ, List.map_append, List.foldl_append, ih (by omega)]
    show Sums.row f c k values _ ((0 : Int) + h) _ = _
    rw [Int.zero_add, Sums.row_eq hcols (by omega) (by simpa using hlen) (hv h (by omega))]
    unfold imageUpdates spectrumUpdates
    rw [List.range_succ, List.flatMap_append, List.flatMap_append, applyAll_append, applyAll_append,
      List.flatMap_singleton, List.flatMap_singleton, Nat.succ_mul]

/-- A position of the block. -/
theorem getElem?_block {hi y j : Nat} (hy : y < c.ny) (hj : j < hi - lo) :
    (block c scan k lo hi)[y * (hi - lo) + j]? = some (scan k (lo + j) y) := by
  have hflat : block c scan k lo hi =
      ((List.range c.ny).map fun y => (List.range (hi - lo)).map fun j => scan k (lo + j) y).flatten :=
    List.flatMap_def ..
  have heven : Blocks.Even (hi - lo)
      ((List.range c.ny).map fun y => (List.range (hi - lo)).map fun j => scan k (lo + j) y) := by
    intro b hb
    obtain ⟨y, -, rfl⟩ := List.mem_map.1 hb
    rw [List.length_map, List.length_range]
  rw [hflat, ← Blocks.getElem?_block hj, heven.block_flatten]
  · rw [List.getElem_map, List.getElem_range, List.getElem?_map, List.getElem?_range hj]
    rfl
  · rwa [List.length_map, List.length_range]

theorem length_block (hi : Nat) : (block c scan k lo hi).length = c.ny * (hi - lo) := by
  unfold block
  rw [List.length_flatMap]
  simp

/-- The next channels of an iteration. -/
theorem Summed.stored {past : List Nat} {image spectrum : List V} {hi : Nat}
    (h : Summed f c scan (past ++ [lo]) image spectrum) (hlo : lo ≤ hi) (hhi : hi ≤ c.nx) :
    Summed f c scan (past ++ [hi])
      (applyAll image (imageUpdates f c scan past.length lo (hi - lo) c.ny))
      (applyAll spectrum (spectrumUpdates f scan past.length lo (hi - lo) c.ny)) := by
  refine ⟨by simpa using h.length_image, by simpa using h.length_spectrum, fun x hx y hy => ?_,
    fun x hx => ?_⟩
  · rw [getElem?_applyAll, h.pixel_eq x hx y hy, imageUpdates,
      updatesAt_grid (fun y j => pixelUpdate f scan past.length (lo + j) y) (by omega) hx hy]
    unfold pixel
    rw [readings_concat, readings_concat, List.foldl_append, List.foldl_append]
    by_cases hin : lo ≤ x ∧ x < lo + (hi - lo)
    · rw [if_pos hin, if_neg (by omega), if_pos (by omega), show lo + (x - lo) = x by omega]
      rfl
    · rw [if_neg hin]
      by_cases hx : x < lo
      · rw [if_pos hx, if_pos (by omega)]
        rfl
      · rw [if_neg hx, if_neg (by omega)]
        rfl
  · rw [getElem?_applyAll, h.channel_eq x hx, spectrumUpdates, updatesAt_flatMap]
    simp only [updatesAt_row x lo (hi - lo)]
    unfold channel
    rw [readings_concat, readings_concat, List.foldl_append, List.foldl_append]
    by_cases hin : lo ≤ x ∧ x < lo + (hi - lo)
    · simp only [if_pos hin]
      rw [if_neg (by omega), if_pos (by omega), show lo + (x - lo) = x by omega]
      show some (List.foldl _ _ ((List.range c.ny).flatMap fun y => [_])) =
        some (channelUpdate f c scan past.length x _)
      rw [← List.map_eq_flatMap, List.foldl_map]
      rfl
    · simp only [if_neg hin]
      rw [List.flatMap_eq_nil_iff.2 fun y hy => rfl]
      by_cases hx : x < lo
      · rw [if_pos hx, if_pos (by omega)]
        rfl
      · rw [if_neg hx, if_neg (by omega)]
        rfl

end

end SpecsAnalyser
