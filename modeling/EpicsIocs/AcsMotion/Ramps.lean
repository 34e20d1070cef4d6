import Mathlib.Data.Rat.Floor
import Mathlib.Algebra.BigOperators.Intervals
import Mathlib.Tactic.Linarith
import Mathlib.Tactic.LinearCombination
import Mathlib.Tactic.Positivity
import EpicsIocs.AcsMotion.ExactBuild
import EpicsIocs.Lib.Motion

/-! # The ramps of a profile

The acceleration and deceleration that `build_path` puts around the user's points (`accel_plan`,
the ramp loops, `assemble_full_profile` of `profile.rs`).

The ramps share one time each, which `num_accel_segments` rounds to segments of 10 ms: a ramp of
less than half a segment is left out, and the profile begins, or ends, with a jump.  A relative
build takes the speed into the profile from the first displacement, which the profile leaves out,
and not from that of its first element.  `joined_iff`: there is no other jump. -/

namespace AcsMotion

open scoped Numerals

section
variable {K : Type} [Field K] [LinearOrder K] [FloorRing K]

/-! ## The trajectory of a build -/

/-- The positions of an axis through the full profile, from the start; those of a relative one are
from where the axis is. -/
def vertex (s : SpiiProfile K) (p : BuildParams K) (axis i : Nat) : K :=
  if p.moveMode = absolute then
    if i = 0 then (s.axes axis).startPos else (s.axes axis).fullPositions (i - 1)
  else (s.axes axis).startPos + ∑ j ∈ Finset.range i, (s.axes axis).fullPositions j

/-- When it is there. -/
def time (s : SpiiProfile K) (i : Nat) : K := ∑ j ∈ Finset.range i, s.fullTimes j

/-- The user's points. -/
def point (p : BuildParams K) (positions : Nat → K) (k : Nat) : K :=
  if p.moveMode = absolute then positions k else ∑ i ∈ Finset.range k, positions (i + 1)

/-- The mean speed of the element between point `k` and the next. -/
def meanSpeed (p : BuildParams K) (times positions : Nat → K) (k : Nat) : K :=
  (point p positions (k + 1) - point p positions k) / times (k + 1)

/-! ## The claim -/

/-- An axis starts at rest, is at its first point when the acceleration ends and at each point at
its time, and ends at rest; the ramps are at the speeds of the elements that they join, and below
0.9 of what the controller allows. -/
structure AxisJoined (s : SpiiProfile K) (p : BuildParams K) (longest : K × K) (axis : Nat)
    (xacc accel decel : K) : Prop where
  accelerates : ∀ i ≤ s.numAccel,
    vertex s p axis i = Motion.position (vertex s p axis 0) 0 accel (time s i)
  points : ∀ k < p.numPoints.toNat,
    vertex s p axis (s.numAccel + k) = point p (s.axes axis).positions k
  point_times : ∀ k < p.numPoints.toNat, time s (s.numAccel + k) =
    longest.1 + ∑ i ∈ Finset.range k, s.times (i + 1)
  speed_in : Motion.speed 0 accel (time s s.numAccel) =
    meanSpeed p s.times (s.axes axis).positions 0
  decelerates : ∀ i ≤ s.numDecel,
    vertex s p axis (s.numAccel + (p.numPoints.toNat - 1) + i) =
      Motion.position (point p (s.axes axis).positions (p.numPoints.toNat - 1))
        (meanSpeed p s.times (s.axes axis).positions (p.numPoints.toNat - 2)) (-decel)
        (time s (s.numAccel + (p.numPoints.toNat - 1) + i) -
          time s (s.numAccel + (p.numPoints.toNat - 1)))
  rest : Motion.speed (meanSpeed p s.times (s.axes axis).positions (p.numPoints.toNat - 2)) (-decel)
    (time s s.fullSize - time s (s.numAccel + (p.numPoints.toNat - 1))) = 0
  accel_le : |accel| ≤ 9 / 10 * xacc
  decel_le : |decel| ≤ 9 / 10 * xacc

/-- Every index is in its array. -/
structure InArrays (c : Sizes) (s : SpiiProfile K) (p : BuildParams K) : Prop where
  axes : ∀ axis ∈ s.profileAxes, axis < c.numAxes
  points : p.numPoints.toNat ≤ c.maxPoints
  numAccel : s.numAccel ≤ maxAccelSegments
  numDecel : s.numDecel ≤ maxAccelSegments
  fullSize : s.fullSize ≤ c.maxPoints + 2 * maxAccelSegments - 1

/-- What a build leaves has its ramps joined to the user's path. -/
structure PathJoined (c : Sizes) (s : SpiiProfile K) (p : BuildParams K) (r : Replies K)
    (longest : K × K) : Prop where
  in_arrays : InArrays c s p
  full_size : s.fullSize = s.numAccel + (p.numPoints.toNat - 1) + s.numDecel
  total : time s s.fullSize =
    longest.1 + ∑ i ∈ Finset.range (p.numPoints.toNat - 1), s.times (i + 1) + longest.2
  axes : ∀ axis ∈ s.profileAxes, ∀ xacc, r.query .xacc axis = .ok xacc →
    ∃ accel decel, AxisJoined s p longest axis xacc accel decel

/-- Two trajectories are one, but for where the second begins. -/
def SameTrajectory (s w : SpiiProfile K) (p q : BuildParams K) : Prop :=
  s.fullSize = w.fullSize ∧ (∀ i < s.fullSize, s.fullTimes i = w.fullTimes i) ∧
    ∀ axis ∈ s.profileAxes, ∀ i ≤ s.fullSize,
      vertex s p axis i = vertex w q axis i - (w.axes axis).positions 0

/-- The ramps are joined; and where the displacements are those of the positions of `w`, the
trajectory is that of the absolute build of `w`. -/
def Joined (c : Sizes) (base : Base K) (s : SpiiProfile K) (p : Params K) (r : Replies K) : Prop :=
  (∀ longest, accelPlan (select c (baseBuild base s p) p) p r p.numPoints.toNat = .ok longest →
    PathJoined c (build c base s p r).1 p.toBuildParams r longest) ∧
  (p.moveMode ≠ absolute → ∀ w,
    (build c base w { p with moveMode := absolute } r).2.isOk →
    (∀ i < p.numPoints.toNat, base.buildProfile p s.times i =
      base.buildProfile { p with moveMode := absolute } w.times i) →
    (∀ axis ∈ usedAxes c p, ∀ i, i + 1 < p.numPoints.toNat →
      ((select c s p).axes axis).positions (i + 1) =
        (w.axes axis).positions (i + 1) - (w.axes axis).positions i) →
    SameTrajectory (build c base s p r).1 (build c base w { p with moveMode := absolute } r).1
      p.toBuildParams { p with moveMode := absolute }.toBuildParams)

/-! ## When it holds -/

/-- The longest ramp to the speeds is none, or takes half a segment at least. -/
def RampKept (c : Sizes) (p : Params K) (r : Replies K) (speed : Nat → K) : Prop :=
  (p.accelTime = 0 ∧ ∀ axis ∈ usedAxes c p, speed axis = 0) ∨ 1 / 200 ≤ p.accelTime ∨
    ∃ axis ∈ usedAxes c p, ∃ xacc, r.query .xacc axis = .ok xacc ∧
      1 / 200 ≤ |speed axis| / (xacc * (9 / 10))

/-- No ramp is too short for a segment, and in a relative profile the displacement that is left
out is the one behind it. -/
def Smooth (c : Sizes) (base : Base K) (s : SpiiProfile K) (p : Params K) (r : Replies K) : Prop :=
  let times := base.buildProfile p s.times
  let positions := fun axis => ((select c s p).axes axis).positions
  (p.moveMode ≠ absolute → ∀ axis ∈ usedAxes c p, positions axis 0 = positions axis 1) ∧
    RampKept c p r (fun axis => meanSpeed p.toBuildParams times (positions axis) 0) ∧
    RampKept c p r (fun axis =>
      meanSpeed p.toBuildParams times (positions axis) (p.numPoints.toNat - 2))

/-! ## Segments -/

theorem numAccelSegments_le (t : K) : numAccelSegments t ≤ maxAccelSegments := by
  rw [numAccelSegments]
  omega

end

/-! ## The full arrays -/

section
variable {A : Type} {a n d : Nat} {accel profile decel full : Nat → A}

theorem assemble_accel {i : Nat} (h : i < a) : assemble a n d accel profile decel full i = accel i :=
  if_pos h

theorem assemble_profile {k : Nat} (h : k < n - 1) :
    assemble a n d accel profile decel full (a + k) = profile (k + 1) := by
  rw [assemble, if_neg (by omega), if_pos (by omega), Nat.add_sub_cancel_left]

theorem assemble_decel {i : Nat} (h : i < d) :
    assemble a n d accel profile decel full (a + (n - 1) + i) = decel i := by
  rw [assemble, if_neg (by omega), if_neg (by omega), if_pos (by omega), Nat.add_sub_cancel_left]

variable [AddCommMonoid A]

theorem sum_assemble_accel {i : Nat} (h : i ≤ a) :
    ∑ j ∈ Finset.range i, assemble a n d accel profile decel full j =
      ∑ j ∈ Finset.range i, accel j :=
  Finset.sum_congr rfl fun _ hj => assemble_accel ((Finset.mem_range.1 hj).trans_le h)

theorem sum_assemble_profile {k : Nat} (h : k ≤ n - 1) :
    ∑ j ∈ Finset.range (a + k), assemble a n d accel profile decel full j =
      ∑ j ∈ Finset.range a, accel j + ∑ j ∈ Finset.range k, profile (j + 1) := by
  rw [Finset.sum_range_add, sum_assemble_accel le_rfl]
  congr 1
  exact Finset.sum_congr rfl fun _ hj => assemble_profile ((Finset.mem_range.1 hj).trans_le h)

theorem sum_assemble_decel {i : Nat} (h : i ≤ d) :
    ∑ j ∈ Finset.range (a + (n - 1) + i), assemble a n d accel profile decel full j =
      ∑ j ∈ Finset.range (a + (n - 1)), assemble a n d accel profile decel full j +
        ∑ j ∈ Finset.range i, decel j := by
  rw [Finset.sum_range_add]
  congr 1
  exact Finset.sum_congr rfl fun _ hj => assemble_decel ((Finset.mem_range.1 hj).trans_le h)

end

section
variable {K : Type} [Field K] [LinearOrder K] [FloorRing K]

variable {p : Params K}

theorem ofInt_natCast (n : Nat) : (Double.ofInt (n : Int) : K) = n := Int.cast_natCast n

/-- In whole segments of the ramp. -/
theorem segment_eq (t : K) (count i : Nat) :
    t * (Double.ofInt (i : Int) : K) / Double.ofInt (count : Int) = i * (t / count) := by
  rw [ofInt_natCast, ofInt_natCast]
  ring

theorem accelPosition_of_absolute (habs : p.moveMode = absolute) (first v t : K) (count i : Nat) :
    accelPosition p first v t count i =
      first - v * t / 2 + v / t * ((i + 1 : Nat) * (t / count)) ^ 2 / 2 := by
  rw [accelPosition, if_pos habs, square, ← Nat.cast_succ, segment_eq]
  change first - 1 / 2 * v * t + 1 / 2 * (v / t) * _ = _
  ring

theorem accelPosition_of_relative (hrel : p.moveMode ≠ absolute) (first v t : K) (count i : Nat) :
    accelPosition p first v t count i =
      v / t * ((i + 1 : Nat) * (t / count)) ^ 2 / 2 - v / t * (i * (t / count)) ^ 2 / 2 := by
  rw [accelPosition, if_neg hrel, square, square, ← Nat.cast_succ, segment_eq, segment_eq]
  change 1 / 2 * (v / t) * _ = _
  ring

theorem decelPosition_of_absolute (habs : p.moveMode = absolute) (last v t : K) (count i : Nat) :
    decelPosition p last v t count i = last + v * ((i + 1 : Nat) * (t / count)) -
      v / t * ((i + 1 : Nat) * (t / count)) ^ 2 / 2 := by
  rw [decelPosition, if_pos habs, square, ← Nat.cast_succ, segment_eq]
  change last + v * _ - 1 / 2 * (v / t) * _ = _
  ring

theorem decelPosition_of_relative (hrel : p.moveMode ≠ absolute) (last v t : K) (count i : Nat) :
    decelPosition p last v t count i =
      (v * ((i + 1 : Nat) * (t / count)) - v / t * ((i + 1 : Nat) * (t / count)) ^ 2 / 2) -
        (v * (i * (t / count)) - v / t * (i * (t / count)) ^ 2 / 2) := by
  rw [decelPosition, if_neg hrel, square, square, ← Nat.cast_succ, segment_eq, segment_eq]
  change v * _ - 1 / 2 * (v / t) * _ = _
  ring

/-! ## One axis -/

theorem velocities_out (hn : 2 ≤ p.numPoints.toNat) (times positions : Nat → K) :
    (velocities p p.numPoints.toNat times positions).2 =
      meanSpeed p.toBuildParams times positions (p.numPoints.toNat - 2) := by
  have hlast : p.numPoints.toNat - 2 + 1 = p.numPoints.toNat - 1 := by omega
  rw [velocities, meanSpeed, point, point]
  by_cases habs : p.moveMode = absolute
  · rw [if_pos habs, if_pos habs, if_pos habs, hlast]
  · rw [if_neg habs, if_neg habs, if_neg habs, Finset.sum_range_succ, add_sub_cancel_left, hlast]

theorem velocities_in (times positions : Nat → K) :
    (velocities p p.numPoints.toNat times positions).1 =
      if p.moveMode = absolute then meanSpeed p.toBuildParams times positions 0
      else positions 0 / times 1 := by
  rw [velocities, meanSpeed, point, point]
  by_cases habs : p.moveMode = absolute
  · rw [if_pos habs, if_pos habs, if_pos habs, if_pos habs]
  · rw [if_neg habs, if_neg habs]

/-- What a build leaves for an axis that had the `path`. -/
structure Ramped (s : SpiiProfile K) (p : Params K) (longest : K × K) (axis : Nat)
    (path : AxisPath K) : Prop where
  numAccel : s.numAccel = numAccelSegments longest.1
  numDecel : s.numDecel = numAccelSegments longest.2
  full_size : s.fullSize = s.numAccel + (p.numPoints.toNat - 1) + s.numDecel
  full_times : ∃ old, s.fullTimes = assemble s.numAccel p.numPoints.toNat s.numDecel
    (fun _ => longest.1 / s.numAccel) s.times (fun _ => longest.2 / s.numDecel) old
  axis : s.axes axis = path.build p p.numPoints.toNat s.times longest

namespace Ramped

variable {s : SpiiProfile K} {longest : K × K} {axis : Nat} {path : AxisPath K}

theorem time_accel (h : Ramped s p longest axis path) {i : Nat} (hi : i ≤ s.numAccel) :
    time s i = i * (longest.1 / s.numAccel) := by
  obtain ⟨old, htimes⟩ := h.full_times
  rw [time, htimes, sum_assemble_accel hi, Finset.sum_const, Finset.card_range, nsmul_eq_mul]

theorem time_profile (h : Ramped s p longest axis path) {k : Nat}
    (hk : k ≤ p.numPoints.toNat - 1) : time s (s.numAccel + k) =
      time s s.numAccel + ∑ i ∈ Finset.range k, s.times (i + 1) := by
  obtain ⟨old, htimes⟩ := h.full_times
  rw [time, time, htimes, sum_assemble_profile hk, sum_assemble_accel le_rfl]

theorem time_decel (h : Ramped s p longest axis path) {i : Nat} (hi : i ≤ s.numDecel) :
    time s (s.numAccel + (p.numPoints.toNat - 1) + i) =
      time s (s.numAccel + (p.numPoints.toNat - 1)) + i * (longest.2 / s.numDecel) := by
  obtain ⟨old, htimes⟩ := h.full_times
  rw [time, time, htimes, sum_assemble_decel hi, Finset.sum_const, Finset.card_range, nsmul_eq_mul]

theorem startPos (h : Ramped s p longest axis path) : (s.axes axis).startPos =
    if p.moveMode = absolute then
      path.positions 0 - (velocities p p.numPoints.toNat s.times path.positions).1 * longest.1 / 2
    else -((velocities p p.numPoints.toNat s.times path.positions).1 * longest.1 / 2) := by
  have hhalf : ∀ v : K, Double.half * v * longest.1 = v * longest.1 / 2 := by
    intro v
    change 1 / 2 * v * longest.1 = v * longest.1 / 2
    ring
  rw [h.axis, AxisPath.build]
  dsimp only
  rw [hhalf]

theorem fullPositions_accel (h : Ramped s p longest axis path) {j : Nat} (hj : j < s.numAccel) :
    (s.axes axis).fullPositions j = accelPosition p (path.positions 0)
      (velocities p p.numPoints.toNat s.times path.positions).1 longest.1 s.numAccel j := by
  rw [h.axis, AxisPath.build, ← h.numAccel]
  exact assemble_accel hj

/-- In the acceleration. -/
theorem vertex_accel (h : Ramped s p longest axis path) {i : Nat} (hi : i ≤ s.numAccel) :
    vertex s p.toBuildParams axis i = Motion.position (s.axes axis).startPos 0
      ((velocities p p.numPoints.toNat s.times path.positions).1 / longest.1) (time s i) := by
  rw [h.time_accel hi, vertex, Motion.position]
  by_cases habs : p.moveMode = absolute
  · rw [if_pos habs]
    cases i with
    | zero =>
      rw [if_pos rfl, Nat.cast_zero]
      ring
    | succ i =>
      rw [if_neg (Nat.succ_ne_zero i), Nat.add_sub_cancel, h.fullPositions_accel hi, h.startPos,
        if_pos habs, accelPosition_of_absolute habs]
      ring
  · rw [if_neg habs, Finset.sum_congr rfl fun j hj =>
      (h.fullPositions_accel ((Finset.mem_range.1 hj).trans_le hi)).trans
        (accelPosition_of_relative habs _ _ _ _ _),
      Finset.sum_range_sub fun j : Nat => _ / longest.1 * (j * (longest.1 / s.numAccel)) ^ 2 / 2,
      Nat.cast_zero]
    ring

/-- At a point, the acceleration ended at the first. -/
theorem vertex_profile (h : Ramped s p longest axis path)
    (hfirst : vertex s p.toBuildParams axis s.numAccel = point p.toBuildParams path.positions 0)
    {k : Nat} (hk : k ≤ p.numPoints.toNat - 1) :
    vertex s p.toBuildParams axis (s.numAccel + k) = point p.toBuildParams path.positions k := by
  have hfull : ∀ j < p.numPoints.toNat - 1,
      (s.axes axis).fullPositions (s.numAccel + j) = path.positions (j + 1) := by
    intro j hj
    rw [h.axis, AxisPath.build, h.numAccel]
    exact assemble_profile hj
  by_cases habs : p.moveMode = absolute
  · cases k with
    | zero => exact hfirst
    | succ k =>
      rw [vertex, if_pos habs, if_neg (by omega), Nat.add_succ_sub_one, hfull k hk, point,
        if_pos habs]
  · rw [vertex, if_neg habs] at hfirst
    rw [vertex, if_neg habs, Finset.sum_range_add, ← add_assoc, hfirst, point, if_neg habs, point,
      if_neg habs, Finset.sum_range_zero, zero_add]
    exact Finset.sum_congr rfl fun j hj => hfull j ((Finset.mem_range.1 hj).trans_le hk)

/-- In the deceleration. -/
theorem vertex_decel (h : Ramped s p longest axis path)
    (hlast : vertex s p.toBuildParams axis (s.numAccel + (p.numPoints.toNat - 1)) =
      point p.toBuildParams path.positions (p.numPoints.toNat - 1))
    {i : Nat} (hi : i ≤ s.numDecel) :
    vertex s p.toBuildParams axis (s.numAccel + (p.numPoints.toNat - 1) + i) =
      Motion.position (point p.toBuildParams path.positions (p.numPoints.toNat - 1))
        (velocities p p.numPoints.toNat s.times path.positions).2
        (-((velocities p p.numPoints.toNat s.times path.positions).2 / longest.2))
        (i * (longest.2 / s.numDecel)) := by
  have hfull : ∀ j < s.numDecel,
      (s.axes axis).fullPositions (s.numAccel + (p.numPoints.toNat - 1) + j) =
        decelPosition p (path.positions (p.numPoints.toNat - 1))
          (velocities p p.numPoints.toNat s.times path.positions).2 longest.2 s.numDecel j := by
    intro j hj
    rw [h.axis, AxisPath.build, h.numAccel, h.numDecel]
    rw [h.numDecel] at hj
    exact assemble_decel hj
  rw [Motion.position]
  by_cases habs : p.moveMode = absolute
  · cases i with
    | zero =>
      rw [Nat.add_zero, hlast, Nat.cast_zero]
      ring
    | succ i =>
      rw [vertex, if_pos habs, if_neg (by omega), Nat.add_succ_sub_one, hfull i hi,
        decelPosition_of_absolute habs, point, if_pos habs]
      ring
  · rw [vertex, if_neg habs] at hlast
    rw [vertex, if_neg habs, Finset.sum_range_add, ← add_assoc, hlast,
      Finset.sum_congr rfl fun j hj => (hfull j ((Finset.mem_range.1 hj).trans_le hi)).trans
        (decelPosition_of_relative habs _ _ _ _ _),
      Finset.sum_range_sub fun j : Nat => _ * (j * (longest.2 / s.numDecel)) -
        _ / longest.2 * (j * (longest.2 / s.numDecel)) ^ 2 / 2, Nat.cast_zero]
    ring

/-! ## Ramps that are kept -/

theorem positions_eq (h : Ramped s p longest axis path) :
    (s.axes axis).positions = path.positions := by
  rw [h.axis]
  rfl

theorem vertex_zero (h : Ramped s p longest axis path) :
    vertex s p.toBuildParams axis 0 = (s.axes axis).startPos := by
  rw [h.vertex_accel (Nat.zero_le _), time, Finset.sum_range_zero, Motion.position_zero]

theorem startPos_eq (h : Ramped s p longest axis path) : (s.axes axis).startPos =
    point p.toBuildParams path.positions 0 -
      (velocities p p.numPoints.toNat s.times path.positions).1 * longest.1 / 2 := by
  rw [h.startPos, point, Finset.sum_range_zero]
  by_cases habs : p.moveMode = absolute
  · rw [if_pos habs, if_pos habs]
  · rw [if_neg habs, if_neg habs, zero_sub]

/-- The segments of a ramp take its time. -/
theorem segments_time {t : K} {count : Nat} (h : t = 0 ∨ count ≠ 0) [CharZero K] :
    count * (t / count) = t := by
  rcases h with rfl | hne
  · rw [zero_div, mul_zero]
  · exact mul_div_cancel₀ t (Nat.cast_ne_zero.2 hne)

variable [CharZero K]

theorem time_numAccel (h : Ramped s p longest axis path) (hin : longest.1 = 0 ∨ s.numAccel ≠ 0) :
    time s s.numAccel = longest.1 :=
  (h.time_accel le_rfl).trans (segments_time hin)

theorem vertex_first (h : Ramped s p longest axis path) (hin : longest.1 = 0 ∨ s.numAccel ≠ 0) :
    vertex s p.toBuildParams axis s.numAccel = point p.toBuildParams path.positions 0 := by
  rw [h.vertex_accel le_rfl, h.time_numAccel hin, h.startPos_eq]
  by_cases hzero : longest.1 = 0
  · rw [hzero, Motion.position_zero, mul_zero, zero_div, sub_zero]
  · exact Motion.position_rise hzero _ _

theorem time_fullSize (h : Ramped s p longest axis path) (hin : longest.1 = 0 ∨ s.numAccel ≠ 0)
    (hout : longest.2 = 0 ∨ s.numDecel ≠ 0) : time s s.fullSize =
      longest.1 + ∑ i ∈ Finset.range (p.numPoints.toNat - 1), s.times (i + 1) + longest.2 := by
  rw [h.full_size, h.time_decel le_rfl, h.time_profile le_rfl, h.time_numAccel hin,
    segments_time hout]

/-- An axis whose ramps are kept is joined, if the speed into its profile is that of the first
element. -/
theorem axisJoined (h : Ramped s p longest axis path) (hn : 2 ≤ p.numPoints.toNat)
    (hin : longest.1 = 0 ∨ s.numAccel ≠ 0) (hout : longest.2 = 0 ∨ s.numDecel ≠ 0)
    (hspeed : (velocities p p.numPoints.toNat s.times path.positions).1 =
      meanSpeed p.toBuildParams s.times path.positions 0)
    (hrest : longest.1 = 0 → (velocities p p.numPoints.toNat s.times path.positions).1 = 0)
    (hrest' : longest.2 = 0 → (velocities p p.numPoints.toNat s.times path.positions).2 = 0)
    {xacc : K}
    (haccel : |(velocities p p.numPoints.toNat s.times path.positions).1 / longest.1| ≤
      9 / 10 * xacc)
    (hdecel : |(velocities p p.numPoints.toNat s.times path.positions).2 / longest.2| ≤
      9 / 10 * xacc) :
    ∃ accel decel, AxisJoined s p.toBuildParams longest axis xacc accel decel := by
  have hlast := h.vertex_profile (h.vertex_first hin) (k := p.numPoints.toNat - 1) le_rfl
  have hdown : ∀ i ≤ s.numDecel, time s (s.numAccel + (p.numPoints.toNat - 1) + i) -
      time s (s.numAccel + (p.numPoints.toNat - 1)) = i * (longest.2 / s.numDecel) := by
    intro i hi
    rw [h.time_decel hi, add_sub_cancel_left]
  refine ⟨_, _, ?_, ?_, ?_, ?_, ?_, ?_, haccel, hdecel⟩
  · intro i hi
    rw [h.vertex_zero]
    exact h.vertex_accel hi
  · intro k hk
    rw [h.positions_eq]
    exact h.vertex_profile (h.vertex_first hin) (Nat.le_sub_one_of_lt hk)
  · intro k hk
    rw [h.time_profile (Nat.le_sub_one_of_lt hk), h.time_numAccel hin]
  · rw [h.time_numAccel hin, h.positions_eq, ← hspeed]
    by_cases hzero : longest.1 = 0
    · rw [hzero, Motion.speed_zero, hrest hzero]
    · exact Motion.speed_rise hzero _
  · intro i hi
    rw [h.positions_eq, hdown i hi, ← velocities_out hn]
    exact h.vertex_decel hlast hi
  · rw [h.full_size, hdown _ le_rfl, segments_time hout, h.positions_eq, ← velocities_out hn]
    by_cases hzero : longest.2 = 0
    · rw [hzero, Motion.speed_zero, hrest' hzero]
    · exact Motion.speed_fall hzero _

end Ramped


/-! ## The longest ramps -/

/-- The times that a ramp may take to speeds, for the axes on top of what it takes already. -/
def Required (r : Replies K) (accelTime : K) (speed : Nat → K) (axes : List Nat) (sofar : K) :
    Set K :=
  {x | x = sofar ∨ (axes ≠ [] ∧ x = accelTime) ∨ ∃ axis ∈ axes, ∃ xacc,
    r.query .xacc axis = .ok xacc ∧ x = |speed axis| / (xacc * (9 / 10))}

theorem isGreatest_required {r : Replies K} {accelTime : K} {speed : Nat → K} {axes : List Nat}
    {sofar longest xacc : K} {axis : Nat} (hxacc : r.query .xacc axis = .ok xacc)
    (h : IsGreatest (Required r accelTime speed axes
      (max (max sofar (|speed axis| / (xacc * (9 / 10)))) accelTime)) longest) :
    IsGreatest (Required r accelTime speed (axis :: axes) sofar) longest := by
  have hmax := h.2 (.inl rfl)
  refine ⟨?_, ?_⟩
  · rcases h.1 with rfl | ⟨-, rfl⟩ | ⟨later, hlater, x, hx, rfl⟩
    · rcases max_choice (max sofar (|speed axis| / (xacc * (9 / 10)))) accelTime with hm | hm
      · rw [hm]
        rcases max_choice sofar (|speed axis| / (xacc * (9 / 10))) with hm' | hm'
        · exact .inl hm'
        · exact .inr (.inr ⟨axis, List.mem_cons_self, xacc, hxacc, hm'⟩)
      · exact .inr (.inl ⟨List.cons_ne_nil _ _, hm⟩)
    · exact .inr (.inl ⟨List.cons_ne_nil _ _, rfl⟩)
    · exact .inr (.inr ⟨later, List.mem_cons_of_mem _ hlater, x, hx, rfl⟩)
  · rintro y (rfl | ⟨-, rfl⟩ | ⟨other, hother, x, hx, rfl⟩)
    · exact (le_max_left _ _).trans ((le_max_left _ _).trans hmax)
    · exact (le_max_right _ _).trans hmax
    · rcases List.mem_cons.1 hother with rfl | hother
      · rw [hxacc, Except.ok.injEq] at hx
        rw [← hx]
        exact (le_max_right _ _).trans ((le_max_left _ _).trans hmax)
      · exact h.2 (.inr (.inr ⟨other, hother, x, hx, rfl⟩))

theorem accelStep_ok {u : SpiiProfile K} {r : Replies K} {n axis : Nat} {longest later : K × K}
    (h : accelStep u p r n longest axis = .ok later) : ∃ xacc, r.query .xacc axis = .ok xacc ∧
      let velocity := velocities p n u.times (u.axes axis).positions
      later = (max (max longest.1 (|velocity.1| / (xacc * (9 / 10)))) p.accelTime,
        max (max longest.2 (|velocity.2| / (xacc * (9 / 10)))) p.accelTime) := by
  rw [accelStep] at h
  cases hxvel : r.query .xvel axis with
  | error status =>
    rw [Replies.ask, hxvel] at h
    cases h
  | ok xvel =>
    cases hxacc : r.query .xacc axis with
    | error status =>
      rw [Replies.ask, Replies.ask, hxvel, hxacc] at h
      cases h
    | ok xacc =>
      rw [Replies.ask, Replies.ask, hxvel, hxacc] at h
      cases h
      exact ⟨xacc, rfl, rfl⟩

/-- The longest ramps are of the required times, and every axis has its acceleration. -/
theorem accelPlan_spec {u : SpiiProfile K} {r : Replies K} {n : Nat} {longest : K × K}
    (h : accelPlan u p r n = .ok longest) :
    (∀ axis ∈ u.profileAxes, ∃ xacc, r.query .xacc axis = .ok xacc) ∧
      IsGreatest (Required r p.accelTime
        (fun axis => (velocities p n u.times (u.axes axis).positions).1) u.profileAxes 0) longest.1 ∧
      IsGreatest (Required r p.accelTime
        (fun axis => (velocities p n u.times (u.axes axis).positions).2) u.profileAxes 0)
          longest.2 := by
  have hrun : ∀ (axes : List Nat) (start : K × K),
      axes.foldlM (accelStep u p r n) start = .ok longest →
      (∀ axis ∈ axes, ∃ xacc, r.query .xacc axis = .ok xacc) ∧
        IsGreatest (Required r p.accelTime
          (fun axis => (velocities p n u.times (u.axes axis).positions).1) axes start.1) longest.1 ∧
        IsGreatest (Required r p.accelTime
          (fun axis => (velocities p n u.times (u.axes axis).positions).2) axes start.2)
            longest.2 := by
    intro axes
    induction axes with
    | nil =>
      intro start h
      cases h
      have hnone : ∀ speed, ∀ x : K, IsGreatest (Required r p.accelTime speed [] x) x := by
        refine fun speed x => ⟨.inl rfl, ?_⟩
        rintro y (rfl | ⟨hne, -⟩ | ⟨axis, haxis, -⟩)
        · exact le_rfl
        · exact absurd rfl hne
        · exact absurd haxis List.not_mem_nil
      exact ⟨fun _ haxis => absurd haxis List.not_mem_nil, hnone _ _, hnone _ _⟩
    | cons axis axes ih =>
      intro start h
      rw [List.foldlM_cons] at h
      cases hstep : accelStep u p r n start axis with
      | error message =>
        rw [hstep] at h
        cases h
      | ok later =>
        rw [hstep] at h
        obtain ⟨hxaccs, hin, hout⟩ := ih later h
        obtain ⟨xacc, hxacc, rfl⟩ := accelStep_ok hstep
        refine ⟨?_, isGreatest_required hxacc hin, isGreatest_required hxacc hout⟩
        exact List.forall_mem_cons.2 ⟨⟨xacc, hxacc⟩, hxaccs⟩
  have hzero : (Double.ofInt 0 : K) = 0 := Int.cast_zero
  rw [accelPlan, hzero] at h
  exact hrun _ _ h

variable [IsStrictOrderedRing K]

/-- A ramp of less than 5 ms has no segment. -/
theorem numAccelSegments_eq_zero {t : K} (h : 0 ≤ t) :
    numAccelSegments t = 0 ↔ t < 1 / 200 := by
  have hround : Double.round (t / (Double.tenMs : K)) = ⌊t * 100 + 1 / 2⌋ := by
    have hdiv : t / (Double.tenMs : K) = t * 100 := by
      change t / (1 / 100) = t * 100
      rw [div_div_eq_mul_div, div_one]
    rw [hdiv]
    exact if_neg (not_lt.2 (by positivity))
  have hfloor : ⌊t * 100 + 1 / 2⌋ < 1 ↔ t < 1 / 200 := by
    rw [Int.floor_lt, Int.cast_one]
    constructor
    · intro h
      linarith
    · intro h
      linarith
  rw [numAccelSegments, hround, ← hfloor, maxAccelSegments]
  omega

section
variable {r : Replies K} {accelTime : K} {speed : Nat → K} {axes : List Nat} {longest : K}

omit [IsStrictOrderedRing K] in
theorem Required.nonneg (h : IsGreatest (Required r accelTime speed axes 0) longest) :
    0 ≤ longest :=
  h.2 (.inl rfl)

theorem Required.le (h : IsGreatest (Required r accelTime speed axes 0) longest) {axis : Nat}
    (haxis : axis ∈ axes) {xacc : K} (hxacc : r.query .xacc axis = .ok xacc) (hpos : 0 < xacc) :
    |speed axis| ≤ longest * (xacc * (9 / 10)) := by
  rw [← div_le_iff₀ (by positivity)]
  exact h.2 (.inr (.inr ⟨axis, haxis, xacc, hxacc, rfl⟩))

/-- A ramp of the longest time is below 0.9 of what the controller allows. -/
theorem Required.abs_le (h : IsGreatest (Required r accelTime speed axes 0) longest) {axis : Nat}
    (haxis : axis ∈ axes) {xacc : K} (hxacc : r.query .xacc axis = .ok xacc) (hpos : 0 < xacc) :
    |speed axis / longest| ≤ 9 / 10 * xacc := by
  rcases (Required.nonneg h).eq_or_lt with hzero | hlong
  · rw [← hzero, div_zero, abs_zero]
    positivity
  · rw [abs_div, abs_of_pos hlong, div_le_iff₀ hlong]
    have := Required.le h haxis hxacc hpos
    linarith

theorem Required.eq_zero (h : IsGreatest (Required r accelTime speed axes 0) 0) {axis : Nat}
    (haxis : axis ∈ axes) {xacc : K} (hxacc : r.query .xacc axis = .ok xacc) (hpos : 0 < xacc) :
    speed axis = 0 := by
  have := Required.le h haxis hxacc hpos
  rw [zero_mul] at this
  exact abs_nonpos_iff.1 this

end

/-- A ramp is kept if the longest of the required times is none or half a segment. -/
theorem rampKept_iff {c : Sizes} {r : Replies K} {speed : Nat → K} {longest : K}
    (haxes : usedAxes c p ≠ []) (haccel : 0 ≤ p.accelTime)
    (hxaccs : ∀ axis ∈ usedAxes c p, ∃ xacc, r.query .xacc axis = .ok xacc)
    (hpos : ∀ axis ∈ usedAxes c p, ∀ xacc, r.query .xacc axis = .ok xacc → 0 < xacc)
    (h : IsGreatest (Required r p.accelTime speed (usedAxes c p) 0) longest) :
    RampKept c p r speed ↔ longest = 0 ∨ 1 / 200 ≤ longest := by
  have hle : p.accelTime ≤ longest := h.2 (.inr (.inl ⟨haxes, rfl⟩))
  constructor
  · rintro (⟨hzero, hspeeds⟩ | hlong | ⟨axis, haxis, xacc, hxacc, hlong⟩)
    · refine .inl ?_
      rcases h.1 with hx | ⟨-, hx⟩ | ⟨axis, haxis, xacc, -, hx⟩
      · exact hx
      · exact hx.trans hzero
      · rw [hx, hspeeds axis haxis, abs_zero, zero_div]
    · exact .inr (hlong.trans hle)
    · exact .inr (hlong.trans (h.2 (.inr (.inr ⟨axis, haxis, xacc, hxacc, rfl⟩))))
  · rintro (rfl | hlong)
    · refine .inl ⟨le_antisymm hle haccel, fun axis haxis => ?_⟩
      obtain ⟨xacc, hxacc⟩ := hxaccs axis haxis
      exact Required.eq_zero h haxis hxacc (hpos axis haxis xacc hxacc)
    · rcases h.1 with hx | ⟨-, hx⟩ | ⟨axis, haxis, xacc, hxacc, hx⟩
      · rw [hx] at hlong
        norm_num at hlong
      · exact .inr (.inl (hx ▸ hlong))
      · exact .inr (.inr ⟨axis, haxis, xacc, hxacc, hx ▸ hlong⟩)

/-! ## The ramps of a build -/

section
variable {c : Sizes} {base : Base K} {s : SpiiProfile K} {r : Replies K}

omit [IsStrictOrderedRing K] in
/-- What a build leaves for the axes in use. -/
theorem build_ramped (hok : (build c base s p r).2.isOk) : ∃ longest,
    accelPlan (select c (baseBuild base s p) p) p r p.numPoints.toNat = .ok longest ∧
      (build c base s p r).1.profileAxes = usedAxes c p ∧
      (build c base s p r).1.times = base.buildProfile p s.times ∧
      ∀ axis ∈ usedAxes c p,
        Ramped (build c base s p r).1 p longest axis ((select c s p).axes axis) := by
  obtain ⟨-, longest, hplan, heq⟩ := build_ok hok
  have hpath := buildPulses_samePath (c := c) (p := p) (r := r) (planned c base s p longest)
    p.numPoints.toNat p.pulseAxis.toNat
  have hplanned : SamePath (planned c base s p longest)
      (buildAxes (select c (baseBuild base s p) p) p p.numPoints.toNat longest) :=
    planned_samePath longest
  rw [heq]
  refine ⟨longest, hplan, hpath.profileAxes.trans hplanned.profileAxes,
    hpath.times.trans hplanned.times, fun axis haxis => ?_⟩
  refine ⟨hpath.numAccel.trans hplanned.numAccel, hpath.numDecel.trans hplanned.numDecel, ?_,
    ⟨s.fullTimes, ?_⟩, ?_⟩
  · rw [hpath.fullSize, hplanned.fullSize, hpath.numAccel, hplanned.numAccel, hpath.numDecel,
      hplanned.numDecel]
    rfl
  · rw [hpath.fullTimes, hplanned.fullTimes, hpath.numAccel, hplanned.numAccel, hpath.numDecel,
      hplanned.numDecel, hpath.times, hplanned.times, buildAxes]
    dsimp only
    rw [ofInt_natCast, ofInt_natCast]
    rfl
  · rw [hpath.axes, hplanned.axes, hpath.times, hplanned.times]
    exact buildAxes_axes haxis

/-- Ramps that are none or of segments. -/
theorem kept_iff {t : K} (h : 0 ≤ t) : t = 0 ∨ numAccelSegments t ≠ 0 ↔ t = 0 ∨ 1 / 200 ≤ t := by
  rw [ne_eq, numAccelSegments_eq_zero h, not_lt]

omit [IsStrictOrderedRing K] in
/-- Required times depend on the speeds of the axes only. -/
theorem required_congr {accelTime : K} {axes : List Nat} {speed speed' : Nat → K}
    (h : ∀ axis ∈ axes, speed axis = speed' axis) :
    Required r accelTime speed axes 0 = Required r accelTime speed' axes 0 := by
  ext x
  refine or_congr_right (or_congr_right (exists_congr fun axis => and_congr_right fun haxis => ?_))
  rw [h axis haxis]

omit [IsStrictOrderedRing K] in
theorem speed_in_iff {times : Nat → K} (ht : 0 < times 1) (positions : Nat → K) :
    (velocities p p.numPoints.toNat times positions).1 =
        meanSpeed p.toBuildParams times positions 0 ↔
      (p.moveMode ≠ absolute → positions 0 = positions 1) := by
  rw [velocities_in]
  by_cases habs : p.moveMode = absolute
  · rw [if_pos habs]
    exact iff_of_true rfl fun hrel => absurd habs hrel
  · rw [if_neg habs, meanSpeed, point, point, if_neg habs, if_neg habs, Finset.sum_range_one,
      Finset.sum_range_zero, sub_zero, div_left_inj' ht.ne']
    exact ⟨fun heq _ => heq, fun heq => heq habs⟩

omit [IsStrictOrderedRing K] in
theorem rampKept_congr {speed speed' : Nat → K}
    (h : ∀ axis ∈ usedAxes c p, speed axis = speed' axis) :
    RampKept c p r speed ↔ RampKept c p r speed' := by
  refine or_congr (and_congr_right fun _ => ?_) (or_congr_right ?_)
  · exact forall₂_congr fun axis haxis => by rw [h axis haxis]
  · exact exists_congr fun axis => and_congr_right fun haxis => by rw [h axis haxis]

/-- What a build is with its longest ramps. -/
structure Plan (c : Sizes) (base : Base K) (s : SpiiProfile K) (p : Params K) (r : Replies K)
    (longest : K × K) : Prop where
  hn : 2 ≤ p.numPoints.toNat ∧ p.numPoints.toNat ≤ c.maxPoints
  axes_ne : usedAxes c p ≠ []
  plan : accelPlan (select c (baseBuild base s p) p) p r p.numPoints.toNat = .ok longest
  profileAxes : (build c base s p r).1.profileAxes = usedAxes c p
  times : (build c base s p r).1.times = base.buildProfile p s.times
  ramped : ∀ axis ∈ usedAxes c p,
    Ramped (build c base s p r).1 p longest axis ((select c s p).axes axis)
  xaccs : ∀ axis ∈ usedAxes c p, ∃ xacc, r.query .xacc axis = .ok xacc
  first : IsGreatest (Required r p.accelTime (fun axis =>
    (velocities p p.numPoints.toNat (base.buildProfile p s.times)
      ((select c s p).axes axis).positions).1) (usedAxes c p) 0) longest.1
  last : IsGreatest (Required r p.accelTime (fun axis =>
    (velocities p p.numPoints.toNat (base.buildProfile p s.times)
      ((select c s p).axes axis).positions).2) (usedAxes c p) 0) longest.2

omit [IsStrictOrderedRing K] in
theorem exists_plan (hok : (build c base s p r).2.isOk) : ∃ longest, Plan c base s p r longest := by
  obtain ⟨⟨⟨haxes, hn, -⟩, -⟩, -⟩ := build_ok hok
  obtain ⟨longest, hplan, hprofileAxes, htimes, hramped⟩ := build_ramped hok
  obtain ⟨hxaccs, hfirst, hlast⟩ := accelPlan_spec hplan
  exact ⟨longest, hn, haxes, hplan, hprofileAxes, htimes, hramped, hxaccs, hfirst, hlast⟩

namespace Plan

variable {longest : K × K}

/-- The ramps are kept and the speeds into the profile are those of its first element. -/
structure Kept (c : Sizes) (base : Base K) (s : SpiiProfile K) (p : Params K) (longest : K × K) :
    Prop where
  speed_in : ∀ axis ∈ usedAxes c p,
    (velocities p p.numPoints.toNat (base.buildProfile p s.times)
        ((select c s p).axes axis).positions).1 =
      meanSpeed p.toBuildParams (base.buildProfile p s.times) ((select c s p).axes axis).positions 0
  first : longest.1 = 0 ∨ numAccelSegments longest.1 ≠ 0
  last : longest.2 = 0 ∨ numAccelSegments longest.2 ≠ 0

theorem smooth_iff (h : Plan c base s p r longest)
    (htimes : ∀ i, 1 ≤ i → i < p.numPoints.toNat → 0 < base.buildProfile p s.times i)
    (hpos : ∀ axis ∈ usedAxes c p, ∀ xacc, r.query .xacc axis = .ok xacc → 0 < xacc)
    (haccel : 0 ≤ p.accelTime) : Smooth c base s p r ↔ Kept c base s p longest := by
  have hin := fun axis => speed_in_iff (p := p) (htimes 1 le_rfl h.hn.1)
    ((select c s p).axes axis).positions
  have hfirst := rampKept_iff h.axes_ne haccel h.xaccs hpos h.first
  have hlast := rampKept_iff h.axes_ne haccel h.xaccs hpos h.last
  simp only [velocities_out h.hn.1] at hlast
  constructor
  · rintro ⟨hrel, hsmooth, hsmooth'⟩
    have hspeeds := fun axis (haxis : axis ∈ usedAxes c p) => (hin axis).2 fun h => hrel h axis haxis
    exact ⟨hspeeds, (kept_iff (Required.nonneg h.first)).2
      (hfirst.1 ((rampKept_congr hspeeds).2 hsmooth)),
      (kept_iff (Required.nonneg h.last)).2 (hlast.1 hsmooth')⟩
  · rintro ⟨hspeeds, hkept, hkept'⟩
    refine ⟨fun hrel axis haxis => (hin axis).1 (hspeeds axis haxis) hrel, ?_, ?_⟩
    · rw [← rampKept_congr hspeeds, hfirst]
      exact (kept_iff (Required.nonneg h.first)).1 hkept
    · rw [hlast]
      exact (kept_iff (Required.nonneg h.last)).1 hkept'

/-- A path that is joined keeps its ramps. -/
theorem kept_of_joined (h : Plan c base s p r longest)
    (hpos : ∀ axis ∈ usedAxes c p, ∀ xacc, r.query .xacc axis = .ok xacc → 0 < xacc)
    (hjoined : PathJoined c (build c base s p r).1 p.toBuildParams r longest) :
    Kept c base s p longest := by
  have haxis : ∀ axis ∈ usedAxes c p, ∃ xacc accel decel, r.query .xacc axis = .ok xacc ∧
      AxisJoined (build c base s p r).1 p.toBuildParams longest axis xacc accel decel := by
    intro axis haxis
    obtain ⟨xacc, hxacc⟩ := h.xaccs axis haxis
    obtain ⟨accel, decel, haxisJoined⟩ := hjoined.axes axis (h.profileAxes ▸ haxis) xacc hxacc
    exact ⟨xacc, accel, decel, hxacc, haxisJoined⟩
  obtain ⟨lead, hlead⟩ := List.exists_mem_of_ne_nil _ h.axes_ne
  have hramp := h.ramped lead hlead
  have hfirst : longest.1 = 0 ∨ numAccelSegments longest.1 ≠ 0 := by
    by_contra hnot
    rw [not_or, not_not, ← hramp.numAccel] at hnot
    obtain ⟨_, _, _, -, hlead⟩ := haxis lead hlead
    have htime := hlead.point_times 0 (by have := h.hn.1; omega)
    rw [hnot.2, time, Finset.sum_range_zero, Finset.sum_range_zero, add_zero] at htime
    exact hnot.1 htime.symm
  have hlast : longest.2 = 0 ∨ numAccelSegments longest.2 ≠ 0 := by
    by_contra hnot
    rw [not_or, not_not, ← hramp.numDecel] at hnot
    have htotal := hjoined.total
    rw [hjoined.full_size, hnot.2, Nat.add_zero, hramp.time_profile le_rfl,
      hramp.time_numAccel (hramp.numAccel ▸ hfirst)] at htotal
    exact hnot.1 (left_eq_add.1 htotal)
  refine ⟨fun axis hmem => ?_, hfirst, hlast⟩
  have hramp := h.ramped axis hmem
  obtain ⟨xacc, accel, decel, hxacc, hax⟩ := haxis axis hmem
  have hspeed := hax.speed_in
  rw [hramp.time_numAccel (hramp.numAccel ▸ hfirst), hramp.positions_eq, h.times] at hspeed
  rw [← hspeed]
  by_cases hzero : longest.1 = 0
  · have hgreatest := h.first
    rw [hzero] at hgreatest ⊢
    rw [Motion.speed_zero]
    exact Required.eq_zero hgreatest hmem hxacc (hpos axis hmem xacc hxacc)
  · have hend := hax.points 0 (by have := h.hn.1; omega)
    rw [Nat.add_zero, hax.accelerates _ le_rfl, hramp.vertex_zero, hramp.startPos_eq,
      hramp.time_numAccel (hramp.numAccel ▸ hfirst), hramp.positions_eq, h.times,
      Motion.position] at hend
    rw [Motion.speed, zero_add]
    have hmul : longest.1 * ((velocities p p.numPoints.toNat (base.buildProfile p s.times)
        ((select c s p).axes axis).positions).1 - accel * longest.1) = 0 := by
      linear_combination -2 * hend
    exact sub_eq_zero.1 ((mul_eq_zero.1 hmul).resolve_left hzero)

/-- And a path whose ramps are kept is joined. -/
theorem joined_of_kept (h : Plan c base s p r longest)
    (hpos : ∀ axis ∈ usedAxes c p, ∀ xacc, r.query .xacc axis = .ok xacc → 0 < xacc)
    (hkept : Kept c base s p longest) :
    PathJoined c (build c base s p r).1 p.toBuildParams r longest := by
  obtain ⟨lead, hlead⟩ := List.exists_mem_of_ne_nil _ h.axes_ne
  have hramp := h.ramped lead hlead
  have hin : longest.1 = 0 ∨ (build c base s p r).1.numAccel ≠ 0 := by
    rw [hramp.numAccel]
    exact hkept.first
  have hout : longest.2 = 0 ∨ (build c base s p r).1.numDecel ≠ 0 := by
    rw [hramp.numDecel]
    exact hkept.last
  have haccel := numAccelSegments_le longest.1
  have hdecel := numAccelSegments_le longest.2
  rw [← hramp.numAccel] at haccel
  rw [← hramp.numDecel] at hdecel
  refine ⟨⟨?_, h.hn.2, haccel, hdecel, ?_⟩, hramp.full_size, hramp.time_fullSize hin hout, ?_⟩
  · intro axis haxis
    rw [h.profileAxes] at haxis
    exact List.mem_range.1 (List.mem_filter.1 haxis).1
  · have := hramp.full_size
    have := h.hn
    simp only [maxAccelSegments] at *
    omega
  · intro axis haxis xacc hxacc
    rw [h.profileAxes] at haxis
    have hlong := hpos axis haxis xacc hxacc
    refine (h.ramped axis haxis).axisJoined h.hn.1 hin hout ?_ ?_ ?_ ?_ ?_
    · rw [h.times]
      exact hkept.speed_in axis haxis
    · intro hzero
      have hgreatest := h.first
      rw [hzero] at hgreatest
      rw [h.times]
      exact Required.eq_zero hgreatest haxis hxacc hlong
    · intro hzero
      have hgreatest := h.last
      rw [hzero] at hgreatest
      rw [h.times]
      exact Required.eq_zero hgreatest haxis hxacc hlong
    · rw [h.times]
      exact Required.abs_le h.first haxis hxacc hlong
    · rw [h.times]
      exact Required.abs_le h.last haxis hxacc hlong

/-- Up to an index in a ramp, the profile or the other ramp. -/
theorem exists_part {a m d i : Nat} (h : i ≤ a + m + d) :
    i ≤ a ∨ (∃ k ≤ m, i = a + k) ∨ ∃ j ≤ d, i = a + m + j := by
  by_cases ha : i ≤ a
  · exact .inl ha
  · by_cases hm : i ≤ a + m
    · exact .inr (.inl ⟨i - a, by omega, by omega⟩)
    · exact .inr (.inr ⟨i - (a + m), by omega, by omega⟩)

/-- Two builds of one path up to where it begins have one trajectory. -/
theorem sameTrajectory {w : SpiiProfile K} {q : Params K} {longest' : K × K}
    (h : Plan c base s p r longest) (h' : Plan c base w q r longest')
    (hkept : Kept c base s p longest) (hpoints : q.numPoints = p.numPoints)
    (haccel : q.accelTime = p.accelTime) (hused : usedAxes c q = usedAxes c p)
    (htimes : ∀ i < p.numPoints.toNat,
      base.buildProfile p s.times i = base.buildProfile q w.times i)
    (hvelocities : ∀ axis ∈ usedAxes c p,
      velocities p p.numPoints.toNat (base.buildProfile p s.times)
          ((select c s p).axes axis).positions =
        velocities q q.numPoints.toNat (base.buildProfile q w.times)
          ((select c w q).axes axis).positions)
    (hplaces : ∀ axis ∈ usedAxes c p, ∀ k < p.numPoints.toNat,
      point p.toBuildParams ((select c s p).axes axis).positions k =
        point q.toBuildParams ((select c w q).axes axis).positions k -
          ((build c base w q r).1.axes axis).positions 0) :
    SameTrajectory (build c base s p r).1 (build c base w q r).1 p.toBuildParams
      q.toBuildParams := by
  have hlongest : longest' = longest := by
    have hfirst := h'.first
    have hlast := h'.last
    rw [hused, haccel] at hfirst hlast
    rw [← required_congr fun axis haxis => congrArg Prod.fst (hvelocities axis haxis)] at hfirst
    rw [← required_congr fun axis haxis => congrArg Prod.snd (hvelocities axis haxis)] at hlast
    exact Prod.ext (hfirst.unique h.first) (hlast.unique h.last)
  subst hlongest
  obtain ⟨lead, hlead⟩ := List.exists_mem_of_ne_nil _ h.axes_ne
  have hs := h.ramped lead hlead
  have hw := h'.ramped lead (hused ▸ hlead)
  have haccels : (build c base w q r).1.numAccel = (build c base s p r).1.numAccel :=
    hw.numAccel.trans hs.numAccel.symm
  have hdecels : (build c base w q r).1.numDecel = (build c base s p r).1.numDecel :=
    hw.numDecel.trans hs.numDecel.symm
  have hsize : (build c base w q r).1.fullSize = (build c base s p r).1.fullSize := by
    rw [hw.full_size, hs.full_size, haccels, hdecels, hpoints]
  have hin : longest'.1 = 0 ∨ (build c base s p r).1.numAccel ≠ 0 := by
    rw [hs.numAccel]
    exact hkept.first
  have hsum : ∀ k ≤ p.numPoints.toNat - 1,
      ∑ i ∈ Finset.range k, (build c base w q r).1.times (i + 1) =
        ∑ i ∈ Finset.range k, (build c base s p r).1.times (i + 1) := by
    intro k hk
    rw [h.times, h'.times]
    refine Finset.sum_congr rfl fun i hi => (htimes (i + 1) ?_).symm
    have := Finset.mem_range.1 hi
    omega
  have htime : ∀ i ≤ (build c base s p r).1.fullSize,
      time (build c base w q r).1 i = time (build c base s p r).1 i := by
    have hprofile : ∀ k ≤ p.numPoints.toNat - 1,
        time (build c base w q r).1 ((build c base s p r).1.numAccel + k) =
          time (build c base s p r).1 ((build c base s p r).1.numAccel + k) := by
      intro k hk
      have htail := hw.time_profile (k := k) (by rwa [hpoints])
      rw [haccels] at htail
      rw [htail, hs.time_profile hk, hsum k hk, hs.time_accel le_rfl,
        hw.time_accel haccels.ge, haccels]
    intro i hi
    rw [hs.full_size] at hi
    rcases exists_part hi with hi | ⟨k, hk, rfl⟩ | ⟨j, hj, rfl⟩
    · rw [hs.time_accel hi, hw.time_accel (haccels ▸ hi), haccels]
    · exact hprofile k hk
    · have htail := hw.time_decel (i := j) (hdecels ▸ hj)
      rw [haccels, hdecels, hpoints] at htail
      rw [htail, hs.time_decel hj, hprofile _ le_rfl]
  refine ⟨hsize.symm, fun i hi => ?_, fun axis haxis i hi => ?_⟩
  · have hnow := htime i hi.le
    have hnext := htime (i + 1) hi
    rw [time, time, Finset.sum_range_succ, Finset.sum_range_succ, ← time, ← time, hnow] at hnext
    exact (add_left_cancel hnext).symm
  · rw [h.profileAxes] at haxis
    have hs := h.ramped axis haxis
    have hw := h'.ramped axis (hused ▸ haxis)
    have hv := hvelocities axis haxis
    rw [← h.times, ← h'.times] at hv
    have hstart := hs.startPos_eq
    have hstart' := hw.startPos_eq
    have hn := h.hn.1
    have hfrom : ((build c base s p r).1.axes axis).startPos =
        ((build c base w q r).1.axes axis).startPos -
          ((build c base w q r).1.axes axis).positions 0 := by
      rw [hstart, hstart', hplaces axis haxis 0 (by omega), hv]
      ring
    have hin' : longest'.1 = 0 ∨ (build c base w q r).1.numAccel ≠ 0 := by rwa [haccels]
    have hprofile : ∀ k ≤ p.numPoints.toNat - 1,
        vertex (build c base w q r).1 q.toBuildParams axis
            ((build c base s p r).1.numAccel + k) =
          point q.toBuildParams ((select c w q).axes axis).positions k := by
      intro k hk
      rw [← haccels]
      exact hw.vertex_profile (hw.vertex_first hin') (by rwa [hpoints])
    rw [hs.full_size] at hi
    rcases exists_part hi with hi | ⟨k, hk, rfl⟩ | ⟨j, hj, rfl⟩
    · rw [hs.vertex_accel hi, hw.vertex_accel (haccels ▸ hi), hfrom, hv,
        htime i (by rw [hs.full_size]; omega), Motion.position, Motion.position]
      ring
    · rw [hs.vertex_profile (hs.vertex_first hin) hk, hprofile k hk]
      exact hplaces axis haxis k (by omega)
    · have hlast := hprofile _ le_rfl
      rw [← haccels, ← hpoints] at hlast
      have hdown := hw.vertex_decel hlast (i := j) (hdecels ▸ hj)
      rw [haccels, hdecels, hpoints] at hdown
      rw [hs.vertex_decel (hs.vertex_profile (hs.vertex_first hin) le_rfl) hj, hdown,
        hplaces axis haxis _ (by omega), hv, Motion.position, Motion.position, hpoints]
      ring

end Plan

/-- A build's ramps are joined to the user's path, and a relative build follows the absolute one,
exactly if no ramp is too short for a segment and a relative build's first displacement is its
second. -/
theorem joined_iff (hok : (build c base s p r).2.isOk)
    (htimes : ∀ i, 1 ≤ i → i < p.numPoints.toNat → 0 < base.buildProfile p s.times i)
    (hpos : ∀ axis ∈ usedAxes c p, ∀ xacc, r.query .xacc axis = .ok xacc → 0 < xacc)
    (haccel : 0 ≤ p.accelTime) : Joined c base s p r ↔ Smooth c base s p r := by
  obtain ⟨longest, h⟩ := exists_plan hok
  rw [h.smooth_iff htimes hpos haccel]
  constructor
  · rintro ⟨hjoined, -⟩
    exact h.kept_of_joined hpos (hjoined longest h.plan)
  · intro hkept
    refine ⟨fun longest' hplan => ?_, fun hrel w hok' htimes' hdisplacements => ?_⟩
    · rw [h.plan, Except.ok.injEq] at hplan
      exact hplan ▸ h.joined_of_kept hpos hkept
    · obtain ⟨longest', h'⟩ := exists_plan hok'
      have hpositions : ∀ axis, ((select c w { p with moveMode := absolute }).axes axis).positions =
          (w.axes axis).positions := by
        intro axis
        exact congrArg AxisPath.positions (if_neg fun hand =>
          absurd hand.2.2 (show ¬ absolute = relative by decide))
      have hplaces : ∀ axis ∈ usedAxes c p, ∀ k < p.numPoints.toNat,
          point p.toBuildParams ((select c s p).axes axis).positions k =
            (w.axes axis).positions k - (w.axes axis).positions 0 := by
        intro axis haxis k hk
        rw [point, if_neg hrel, ← Finset.sum_range_sub (w.axes axis).positions k]
        refine Finset.sum_congr rfl fun i hi => hdisplacements axis haxis i ?_
        have := Finset.mem_range.1 hi
        omega
      have hmean : ∀ axis ∈ usedAxes c p, ∀ k, k + 1 < p.numPoints.toNat →
          meanSpeed p.toBuildParams (base.buildProfile p s.times)
              ((select c s p).axes axis).positions k =
            meanSpeed { p with moveMode := absolute }.toBuildParams
              (base.buildProfile { p with moveMode := absolute } w.times)
              (w.axes axis).positions k := by
        intro axis haxis k hk
        rw [meanSpeed, hplaces axis haxis _ hk, hplaces axis haxis _ (by omega),
          htimes' _ hk, sub_sub_sub_cancel_right]
        exact congrArg (· / _) (congrArg₂ (· - ·) (if_pos rfl).symm (if_pos rfl).symm)
      refine h.sameTrajectory h' hkept rfl rfl rfl htimes' (fun axis haxis => ?_)
        fun axis haxis k hk => ?_
      · rw [hpositions]
        refine Prod.ext ?_ ?_
        · rw [hkept.speed_in axis haxis, hmean axis haxis 0 h.hn.1, velocities_in]
          exact (if_pos rfl).symm
        · have hlast : p.numPoints.toNat - 2 + 1 < p.numPoints.toNat := by
            have := h.hn.1
            omega
          rw [velocities_out h.hn.1, hmean axis haxis _ hlast]
          exact (velocities_out (p := { p with moveMode := absolute }) h.hn.1 _ _).symm
      · rw [hplaces axis haxis k hk, (h'.ramped axis haxis).positions_eq, hpositions]
        exact congrArg (· - _) (if_pos rfl).symm

end

end

/-! ## Three points -/

/-- Three points a second apart, in a given mode. -/
def threePoints (moveMode : Int) : Params ℚ where
  moveMode
  numPoints := 3
  timeMode := 0
  timePerPoint := 1
  accelTime := 1
  pulseMode := 3
  pulseAxis := 0
  numPulses := 0
  startPulses := 0
  endPulses := 0
  useAxis _ := 1
  position _ := 0
  recResolution _ := some 1
  recOffset _ := some 0
  recDirection _ := some 0
  resolution _ := 1

/-- They are written for the one axis there is. -/
def written (moveMode : Int) (positions : List ℚ) : SpiiProfile ℚ :=
  defineAxisProfile ⟨1, 3, 2⟩ unitBase .new (threePoints moveMode) 0 positions

theorem threePoints_times (moveMode : Int) (times : Nat → ℚ) (i : Nat) (_ : 1 ≤ i)
    (hi : i < (threePoints moveMode).numPoints.toNat) :
    0 < unitBase.buildProfile (threePoints moveMode) times i := by
  have hone : unitBase.buildProfile (threePoints moveMode) times i = 1 := if_pos hi
  rw [hone]
  exact one_pos

theorem drive_xacc (axes : List Nat) :
    ∀ axis ∈ axes, ∀ xacc, drive.query .xacc axis = .ok xacc → 0 < xacc := by
  rintro axis - xacc ⟨⟩
  norm_num

theorem joined_absolute :
    Joined ⟨1, 3, 2⟩ unitBase (written absolute [0, 1, 3]) (threePoints absolute) drive := by
  refine (joined_iff (by decide +kernel) (threePoints_times _ _) (drive_xacc _) (by decide +kernel)).2
    ⟨fun hrel => absurd rfl hrel, .inr (.inl ?_), .inr (.inl ?_)⟩
  · norm_num [threePoints]
  · norm_num [threePoints]

/-- The speed into the profile is 5 in place of 1. -/
theorem not_joined_relative :
    (build ⟨1, 3, 2⟩ unitBase (written relative [5, 1, 1]) (threePoints relative) drive).2.isOk ∧
      ¬ Joined ⟨1, 3, 2⟩ unitBase (written relative [5, 1, 1]) (threePoints relative) drive := by
  have hok : (build ⟨1, 3, 2⟩ unitBase (written relative [5, 1, 1]) (threePoints relative)
      drive).2.isOk := by
    decide +kernel
  refine ⟨hok, fun h => ?_⟩
  obtain ⟨longest, hplan⟩ := exists_plan hok
  have hkept := hplan.kept_of_joined (drive_xacc _) (h.1 longest hplan.plan)
  have hspeed := hkept.speed_in 0 (by decide)
  have hne : (velocities (threePoints relative) 3
      (unitBase.buildProfile (threePoints relative) (written relative [5, 1, 1]).times)
      ((select ⟨1, 3, 2⟩ (written relative [5, 1, 1]) (threePoints relative)).axes 0).positions).1 ≠
      meanSpeed (threePoints relative).toBuildParams
        (unitBase.buildProfile (threePoints relative) (written relative [5, 1, 1]).times)
        ((select ⟨1, 3, 2⟩ (written relative [5, 1, 1]) (threePoints relative)).axes 0).positions
        0 := by
    decide +kernel
  exact hne hspeed

end AcsMotion
