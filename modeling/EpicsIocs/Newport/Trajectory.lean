import Mathlib.Algebra.BigOperators.Intervals
import Mathlib.Data.List.GetD
import Mathlib.Data.Rat.Defs
import Mathlib.Tactic.Linarith
import Mathlib.Tactic.LinearCombination
import Mathlib.Tactic.Positivity
import Mathlib.Tactic.Ring
import EpicsIocs.Newport.Profile

/-! # The motion of a trajectory file

A file takes each axis from rest to rest: the leading element ends at the mean velocity of the
first one, and the trailing one is made for the velocity that the last one ends at.

But for that last velocity: `Profile::generate` divides the last displacement by the time of the
last point, while the element before it has the time of the point before.  `connected_iff`: the
motion is connected exactly if the two times agree or the axis stands still there. -/

namespace Newport

section
variable {K : Type} [Field K] [LinearOrder K]

/-! ## The claim -/

def TrajectoryFile.element (f : TrajectoryFile K) (i : Nat) : Element K :=
  f.elements.getD i ⟨0, []⟩

def Element.displacement (e : Element K) (j : Nat) : K := (e.axes.getD j (0, 0)).1

def Element.velocity (e : Element K) (j : Nat) : K := (e.axes.getD j (0, 0)).2

/-- Axis `j`, which is used, goes through its `positions` and from rest to rest, and no ramp needs
more than 0.9 of what the controller allows. -/
structure AxisConnected (f : TrajectoryFile K) (n j : Nat) (positions : List K)
    (maxAcceleration : K) : Prop where
  travelled : ∑ i ∈ Finset.range (n - 1), (f.element (i + 1)).displacement j =
    positions.getD (n - 1) 0 - positions.getD 0 0
  pre : f.preDistance.getD j 0 = (f.element 0).displacement j
  pre_half : (f.element 0).displacement j = (f.element 0).velocity j / 2 * (f.element 0).time
  speed_in : (f.element 0).velocity j = (f.element 1).displacement j / (f.element 1).time
  post : f.postDistance.getD j 0 = (f.element n).displacement j
  post_half : (f.element n).displacement j =
    (f.element (n - 1)).velocity j / 2 * (f.element n).time
  rest : (f.element n).velocity j = 0
  accel_le : |(f.element 0).velocity j| ≤ 9 / 10 * maxAcceleration * (f.element 0).time
  decel_le : |(f.element (n - 1)).velocity j| ≤ 9 / 10 * maxAcceleration * (f.element n).time

/-- One element more than points, each with all axes; the elements between the ramps take the
times of the points; and an axis that is not used stands still. -/
structure Connected (p : Profile K) (maxAcceleration : List (Option K)) (f : TrajectoryFile K) :
    Prop where
  elements : f.elements.length = p.numPoints + 1
  columns : ∀ e ∈ f.elements, e.axes.length = p.axes.length
  times : ∀ i < p.numPoints - 1, (f.element (i + 1)).time = p.times.getD i 0
  quarter : 1 / 4 ≤ (f.element 0).time ∧ 1 / 4 ≤ (f.element p.numPoints).time
  used : ∀ j axis a, p.axes[j]? = some axis → maxAcceleration[j]? = some (some a) →
    AxisConnected f p.numPoints j axis.positions a
  unused : ∀ j, maxAcceleration[j]? = some none → (∀ i ≤ p.numPoints,
    (f.element i).displacement j = 0 ∧ (f.element i).velocity j = 0) ∧
      f.preDistance.getD j 0 = 0 ∧ f.postDistance.getD j 0 = 0

/-- The moves around the run are by the displacements of the file's ramps. -/
def Moves (f : TrajectoryFile K) (ctx : Ctx K) (p : Params) (registered : List RegisteredAxis)
    (distances : List (Int × K × K)) : Prop :=
  startRun ctx p registered distances =
    ((inGroup p registered).zipIdx.filter fun x => p.useAxis x.1.axisNo).map fun x =>
      let positions := ctx.positions x.1.axisNo p.numPoints.toNat
      let pre := (f.element 0).displacement x.2
      let post := (f.element p.numPoints.toNat).displacement x.2
      if p.moveMode = absolute then
        ⟨x.1.positioner, positions.getD 0 0 - pre, positions.getD (p.numPoints.toNat - 1) 0⟩
      else ⟨x.1.positioner, -pre, -post⟩

/-! ## What is generated -/

namespace Profile

variable {format : K → String} {p : Profile K} {maxAcceleration : List (Option K)}

/-- An axis's velocities at the ramps, none if it is not used. -/
def speeds (p : Profile K) (x : ProfileAxis K × Option K) : K × K :=
  match x.2 with
  | none => (0, 0)
  | some _ => p.velocities x.1.positions

theorem check_ok (h : p.check format maxAcceleration = .ok ()) :
    2 ≤ p.numPoints ∧ maxAcceleration.length = p.axes.length ∧
      (∀ axis ∈ p.axes, axis.positions.length = p.numPoints) ∧ ∀ t ∈ p.times, 0 < t := by
  unfold check at h
  dsimp only at h
  split at h
  · cases h
  split at h
  · cases h
  split at h
  · cases h
  rename_i hn _ hlen
  refine ⟨not_lt.1 hn, not_not.1 hlen, ?_⟩
  split at h
  · cases h
  rename_i hpositions
  split at h
  · cases h
  rename_i htimes
  rw [List.find?_eq_none] at hpositions htimes
  constructor
  · intro axis haxis
    obtain ⟨i, hi, rfl⟩ := List.getElem_of_mem haxis
    have := hpositions (p.axes[i], i) (List.mem_zipIdx_iff_getElem?.2 (List.getElem?_eq_getElem hi))
    simpa using this
  · intro t ht
    obtain ⟨i, hi, rfl⟩ := List.getElem_of_mem ht
    have := htimes (p.times[i], i) (List.mem_zipIdx_iff_getElem?.2 (List.getElem?_eq_getElem hi))
    simpa using this

/-- The loop over the axes gathers their speeds, and ramps that are long enough for each. -/
theorem ramps_ok {axes : List ((ProfileAxis K × Option K) × Nat)} {start ramps : Ramps K}
    (h : axes.foldlM (p.ramp format) start = .ok ramps) :
    ramps.preVelocity = start.preVelocity ++ axes.map (fun x => (p.speeds x.1).1) ∧
      ramps.postVelocity = start.postVelocity ++ axes.map (fun x => (p.speeds x.1).2) ∧
      (start.preTimeMax ≤ ramps.preTimeMax ∧ start.postTimeMax ≤ ramps.postTimeMax) ∧
      ∀ x ∈ axes, ∀ a, x.1.2 = some a → 0 < a * accelRoundoffMargin ∧
        |(p.speeds x.1).1| / (a * accelRoundoffMargin) ≤ ramps.preTimeMax ∧
        |(p.speeds x.1).2| / (a * accelRoundoffMargin) ≤ ramps.postTimeMax := by
  induction axes generalizing start with
  | nil =>
    cases h
    exact ⟨(List.append_nil _).symm, (List.append_nil _).symm, ⟨le_rfl, le_rfl⟩, nofun⟩
  | cons x axes ih =>
    rw [List.foldlM_cons] at h
    obtain ⟨⟨axis, used⟩, j⟩ := x
    cases used with
    | none =>
      obtain ⟨hpre, hpost, htimes, haxes⟩ := ih h
      refine ⟨?_, ?_, htimes, ?_⟩
      · rw [hpre, List.append_assoc]
        rfl
      · rw [hpost, List.append_assoc]
        rfl
      · rintro x hx a ha
        rcases List.mem_cons.1 hx with rfl | hx
        · cases ha
        · exact haxes x hx a ha
    | some accel =>
      rw [ramp] at h
      dsimp only at h
      by_cases hle : accel * accelRoundoffMargin ≤ 0
      · rw [if_pos hle] at h
        cases h
      rw [if_neg hle] at h
      obtain ⟨hpre, hpost, ⟨hlong, hlong'⟩, haxes⟩ := ih h
      refine ⟨?_, ?_, ⟨(le_max_left _ _).trans hlong, (le_max_left _ _).trans hlong'⟩, ?_⟩
      · rw [hpre, List.append_assoc]
        rfl
      · rw [hpost, List.append_assoc]
        rfl
      · rintro x hx a ha
        rcases List.mem_cons.1 hx with rfl | hx
        · cases ha
          exact ⟨not_le.1 hle, (le_max_right _ _).trans hlong, (le_max_right _ _).trans hlong'⟩
        · exact haxes x hx a ha

/-- What a profile that is generated comes to. -/
structure Generated (p : Profile K) (maxAcceleration : List (Option K)) (f : TrajectoryFile K)
    (ramps : Ramps K) : Prop where
  two : 2 ≤ p.numPoints
  accelerations : maxAcceleration.length = p.axes.length
  positions : ∀ axis ∈ p.axes, axis.positions.length = p.numPoints
  times : ∀ t ∈ p.times, 0 < t
  file : f = p.file maxAcceleration ramps
  preVelocity : ramps.preVelocity = (p.axes.zip maxAcceleration).map fun x => (p.speeds x).1
  postVelocity : ramps.postVelocity = (p.axes.zip maxAcceleration).map fun x => (p.speeds x).2
  long : ∀ (j : Nat) axis a, p.axes[j]? = some axis → maxAcceleration[j]? = some (some a) →
    0 < a * accelRoundoffMargin ∧
      |(p.velocities axis.positions).1| / (a * accelRoundoffMargin) ≤ ramps.preTimeMax ∧
      |(p.velocities axis.positions).2| / (a * accelRoundoffMargin) ≤ ramps.postTimeMax

theorem generate_ok {f : TrajectoryFile K} (h : p.generate format maxAcceleration = .ok f) :
    ∃ ramps, Generated p maxAcceleration f ramps := by
  rw [generate] at h
  cases hcheck : p.check format maxAcceleration with
  | error e =>
    rw [hcheck] at h
    cases h
  | ok u =>
    cases hramps : (p.axes.zip maxAcceleration).zipIdx.foldlM (p.ramp format) ⟨[], [], 0, 0⟩ with
    | error e =>
      rw [hcheck, hramps] at h
      cases h
    | ok ramps =>
      rw [hcheck, hramps] at h
      cases h
      obtain ⟨htwo, hlen, hpositions, htimes⟩ := check_ok hcheck
      obtain ⟨hpre, hpost, -, haxes⟩ := ramps_ok hramps
      have hunzip : ∀ g : ProfileAxis K × Option K → K,
          (p.axes.zip maxAcceleration).zipIdx.map (fun x => g x.1) =
            (p.axes.zip maxAcceleration).map g := by
        intro g
        conv => rhs; rw [← List.zipIdx_map_fst 0 (p.axes.zip maxAcceleration), List.map_map]
        rfl
      refine ⟨ramps, htwo, hlen, hpositions, htimes, rfl, ?_, ?_, ?_⟩
      · rw [hpre, List.nil_append]
        exact hunzip fun x => (p.speeds x).1
      · rw [hpost, List.nil_append]
        exact hunzip fun x => (p.speeds x).2
      · intro j axis a haxis ha
        have hmem : ((axis, some a), j) ∈ (p.axes.zip maxAcceleration).zipIdx :=
          List.mem_zipIdx_iff_getElem?.2 (List.getElem?_zip_eq_some.2 ⟨haxis, ha⟩)
        exact haxes _ hmem a rfl

namespace Generated

variable {f : TrajectoryFile K} {ramps : Ramps K} {j : Nat} {axis : ProfileAxis K}
  {used : Option K}

/-- The ramps' times. -/
def preTime (ramps : Ramps K) : K := max ramps.preTimeMax minProfileAccelTime

def postTime (ramps : Ramps K) : K := max ramps.postTimeMax minProfileAccelTime

theorem getElem?_preVelocity (h : Generated p maxAcceleration f ramps)
    (haxis : p.axes[j]? = some axis) (hused : maxAcceleration[j]? = some used) :
    ramps.preVelocity[j]? = some (p.speeds (axis, used)).1 := by
  have hcolumns : (p.axes.zip maxAcceleration)[j]? = some (axis, used) :=
    List.getElem?_zip_eq_some.2 ⟨haxis, hused⟩
  rw [h.preVelocity, List.getElem?_map, hcolumns, Option.map_some]

theorem getElem?_preDistance (h : Generated p maxAcceleration f ramps)
    (haxis : p.axes[j]? = some axis) (hused : maxAcceleration[j]? = some used) :
    f.preDistance[j]? = some (1 / 2 * (p.speeds (axis, used)).1 * preTime ramps) := by
  rw [h.file, Profile.file]
  dsimp only
  rw [List.getElem?_map, h.getElem?_preVelocity haxis hused]
  rfl

theorem getElem?_postDistance (h : Generated p maxAcceleration f ramps)
    (haxis : p.axes[j]? = some axis) (hused : maxAcceleration[j]? = some used) :
    f.postDistance[j]? = some (1 / 2 * (p.speeds (axis, used)).2 * postTime ramps) := by
  have hcolumns : (p.axes.zip maxAcceleration)[j]? = some (axis, used) :=
    List.getElem?_zip_eq_some.2 ⟨haxis, hused⟩
  rw [h.file, Profile.file]
  dsimp only
  rw [List.getElem?_map, h.postVelocity, List.getElem?_map, hcolumns]
  rfl

theorem element_first (h : Generated p maxAcceleration f ramps) :
    f.element 0 = ⟨preTime ramps, f.preDistance.zip ramps.preVelocity⟩ := by
  rw [h.file]
  rfl

theorem element_inner (h : Generated p maxAcceleration f ramps) {i : Nat}
    (hi : i < p.numPoints - 1) : f.element (i + 1) =
      ⟨p.times.getD i 0, List.zipWith (p.elementAxis i) p.axes maxAcceleration⟩ := by
  rw [h.file, TrajectoryFile.element, Profile.file]
  dsimp only
  rw [List.cons_append, List.getD_cons_succ, List.getD_append _ _ _ _ (by simpa using hi),
    List.getD_eq_getElem?_getD, List.getElem?_map, List.getElem?_range hi]
  rfl

theorem element_last (h : Generated p maxAcceleration f ramps) : f.element p.numPoints =
    ⟨postTime ramps, f.postDistance.map fun pd => (pd, 0)⟩ := by
  obtain ⟨n, hn⟩ : ∃ n, p.numPoints = n + 1 := ⟨p.numPoints - 1, by have := h.two; omega⟩
  rw [h.file, TrajectoryFile.element, Profile.file]
  dsimp only
  rw [List.cons_append, hn, List.getD_cons_succ, Nat.add_sub_cancel,
    List.getD_append_right _ _ _ _ (by simp), List.length_map, List.length_range, Nat.sub_self]
  rfl

theorem time_first (h : Generated p maxAcceleration f ramps) :
    (f.element 0).time = preTime ramps := by
  rw [h.element_first]

theorem time_last (h : Generated p maxAcceleration f ramps) :
    (f.element p.numPoints).time = postTime ramps := by
  rw [h.element_last]

/-! ### Columns -/

theorem element_first_column (h : Generated p maxAcceleration f ramps)
    (haxis : p.axes[j]? = some axis) (hused : maxAcceleration[j]? = some used) :
    (f.element 0).displacement j = 1 / 2 * (p.speeds (axis, used)).1 * preTime ramps ∧
      (f.element 0).velocity j = (p.speeds (axis, used)).1 := by
  have hcolumn : (f.element 0).axes[j]? = some (1 / 2 * (p.speeds (axis, used)).1 * preTime ramps,
      (p.speeds (axis, used)).1) := by
    rw [h.element_first]
    exact List.getElem?_zip_eq_some.2
      ⟨h.getElem?_preDistance haxis hused, h.getElem?_preVelocity haxis hused⟩
  rw [Element.displacement, Element.velocity, List.getD_eq_getElem?_getD, hcolumn]
  exact ⟨rfl, rfl⟩

theorem element_inner_column (h : Generated p maxAcceleration f ramps)
    (haxis : p.axes[j]? = some axis) (hused : maxAcceleration[j]? = some used) {i : Nat}
    (hi : i < p.numPoints - 1) :
    (f.element (i + 1)).displacement j = (p.elementAxis i axis used).1 ∧
      (f.element (i + 1)).velocity j = (p.elementAxis i axis used).2 := by
  have hcolumn : (f.element (i + 1)).axes[j]? = some (p.elementAxis i axis used) := by
    rw [h.element_inner hi]
    exact List.getElem?_zipWith_eq_some.2 ⟨axis, used, haxis, hused, rfl⟩
  rw [Element.displacement, Element.velocity, List.getD_eq_getElem?_getD, hcolumn]
  exact ⟨rfl, rfl⟩

theorem element_last_column (h : Generated p maxAcceleration f ramps)
    (haxis : p.axes[j]? = some axis) (hused : maxAcceleration[j]? = some used) :
    (f.element p.numPoints).displacement j = 1 / 2 * (p.speeds (axis, used)).2 * postTime ramps ∧
      (f.element p.numPoints).velocity j = 0 := by
  have hcolumn : (f.element p.numPoints).axes[j]? =
      some (1 / 2 * (p.speeds (axis, used)).2 * postTime ramps, 0) := by
    rw [h.element_last]
    dsimp only
    rw [List.getElem?_map, h.getElem?_postDistance haxis hused, Option.map_some]
  rw [Element.displacement, Element.velocity, List.getD_eq_getElem?_getD, hcolumn]
  exact ⟨rfl, rfl⟩

/-- The last velocity is that of the last displacement, in the time of its own element. -/
theorem velocity_last (h : Generated p maxAcceleration f ramps) (haxis : p.axes[j]? = some axis)
    {a : K} (hused : maxAcceleration[j]? = some (some a)) [IsStrictOrderedRing K] :
    (f.element (p.numPoints - 1)).velocity j =
      (axis.positions.getD (p.numPoints - 1) 0 - axis.positions.getD (p.numPoints - 2) 0) /
        p.times.getD (p.numPoints - 2) 0 := by
  obtain ⟨n, hn⟩ : ∃ n, p.numPoints = n + 2 := ⟨p.numPoints - 2, by have := h.two; omega⟩
  have hcolumn := (h.element_inner_column haxis hused (i := n) (by omega)).2
  rw [hn, Nat.add_sub_cancel, show n + 2 - 1 = n + 1 from rfl, hcolumn, elementAxis]
  dsimp only
  rw [if_neg (by omega), if_neg (by omega), ← two_mul, ← two_mul,
    mul_div_mul_left _ _ two_ne_zero]

/-! ### The motion -/

theorem times_pos (h : Generated p maxAcceleration f ramps) {i : Nat} (hi : i < p.numPoints) :
    0 < p.times.getD i 0 := by
  rw [List.getD_eq_getElem _ _ hi]
  exact h.times _ (List.getElem_mem hi)

theorem displacements (h : Generated p maxAcceleration f ramps) (haxis : p.axes[j]? = some axis)
    {a : K} (hused : maxAcceleration[j]? = some (some a)) :
    ∑ i ∈ Finset.range (p.numPoints - 1), (f.element (i + 1)).displacement j =
      axis.positions.getD (p.numPoints - 1) 0 - axis.positions.getD 0 0 := by
  rw [← Finset.sum_range_sub fun i => axis.positions.getD i 0]
  refine Finset.sum_congr rfl fun i hi => ?_
  rw [(h.element_inner_column haxis hused (Finset.mem_range.1 hi)).1]
  rfl

variable [IsStrictOrderedRing K]

/-- A ramp of its time is below 0.9 of what the controller allows. -/
theorem abs_le_of_ramp {v a t : K} {timeMax : K} (ha : 0 < a * accelRoundoffMargin)
    (h : |v| / (a * accelRoundoffMargin) ≤ timeMax) (ht : timeMax ≤ t) :
    |v| ≤ 9 / 10 * a * t := by
  rw [div_le_iff₀ ha] at h
  have hlong := mul_le_mul_of_nonneg_right ht ha.le
  rw [accelRoundoffMargin] at h hlong
  linarith

theorem axisConnected_iff (h : Generated p maxAcceleration f ramps)
    (haxis : p.axes[j]? = some axis) {a : K} (hused : maxAcceleration[j]? = some (some a)) :
    AxisConnected f p.numPoints j axis.positions a ↔
      axis.positions.getD (p.numPoints - 1) 0 = axis.positions.getD (p.numPoints - 2) 0 ∨
        p.times.getD (p.numPoints - 2) 0 = p.times.getD (p.numPoints - 1) 0 := by
  have htwo := h.two
  obtain ⟨hpre, hvelocity⟩ := h.element_first_column haxis hused
  obtain ⟨hpost, hrest⟩ := h.element_last_column haxis hused
  have hlast := h.velocity_last haxis hused
  obtain ⟨hpos, hin, hout⟩ := h.long j axis a haxis hused
  have htime := h.times_pos (i := p.numPoints - 2) (by omega)
  have htime' := h.times_pos (i := p.numPoints - 1) (by omega)
  have hquarter : (0 : K) < postTime ramps :=
    lt_of_lt_of_le (by rw [minProfileAccelTime]; positivity) (le_max_right _ _)
  have hspeeds : p.speeds (axis, some a) = p.velocities axis.positions := rfl
  rw [hspeeds] at hpre hvelocity hpost
  constructor
  · intro hconnected
    have hhalf := hconnected.post_half
    rw [hpost, hlast, h.time_last] at hhalf
    have hsame : (p.velocities axis.positions).2 =
        (axis.positions.getD (p.numPoints - 1) 0 - axis.positions.getD (p.numPoints - 2) 0) /
          p.times.getD (p.numPoints - 2) 0 := by
      refine mul_right_cancel₀ hquarter.ne' ?_
      linear_combination 2 * hhalf
    rw [velocities, div_eq_div_iff htime'.ne' htime.ne', mul_eq_mul_left_iff, sub_eq_zero] at hsame
    exact hsame.symm
  · intro hsame
    have hagree : (f.element (p.numPoints - 1)).velocity j = (p.velocities axis.positions).2 := by
      rw [hlast, velocities]
      rcases hsame with hstill | htimes
      · rw [hstill, sub_self, zero_div, zero_div]
      · rw [htimes]
    refine ⟨h.displacements haxis hused, ?_, ?_, ?_, ?_, ?_, hrest, ?_, ?_⟩
    · rw [hpre, List.getD_eq_getElem?_getD, h.getElem?_preDistance haxis hused]
      rfl
    · rw [hpre, hvelocity, h.time_first]
      ring
    · rw [hvelocity, (h.element_inner_column haxis hused (i := 0) (by omega)).1,
        h.element_inner (i := 0) (by omega)]
      rfl
    · rw [hpost, List.getD_eq_getElem?_getD, h.getElem?_postDistance haxis hused]
      rfl
    · rw [hpost, hagree, h.time_last]
      ring
    · rw [hvelocity, h.time_first]
      exact abs_le_of_ramp hpos hin (le_max_left _ _)
    · rw [hagree, h.time_last]
      exact abs_le_of_ramp hpos hout (le_max_left _ _)

omit [IsStrictOrderedRing K] in
theorem columns (h : Generated p maxAcceleration f ramps) :
    ∀ e ∈ f.elements, e.axes.length = p.axes.length := by
  have hzip : (p.axes.zip maxAcceleration).length = p.axes.length := by
    rw [List.length_zip, h.accelerations, min_self]
  intro e he
  rw [h.file, Profile.file] at he
  simp only [List.cons_append, List.mem_cons, List.mem_append, List.mem_map, List.mem_range,
    List.not_mem_nil, or_false] at he
  rcases he with rfl | ⟨i, -, rfl⟩ | rfl
  · rw [List.length_zip, List.length_map, min_self, h.preVelocity, List.length_map, hzip]
  · rw [List.length_zipWith, h.accelerations, min_self]
  · rw [List.length_map, List.length_map, h.postVelocity, List.length_map, hzip]

omit [IsStrictOrderedRing K] in
/-- An axis that is not used stands still. -/
theorem still (h : Generated p maxAcceleration f ramps) (hused : maxAcceleration[j]? = some none) :
    (∀ i ≤ p.numPoints, (f.element i).displacement j = 0 ∧ (f.element i).velocity j = 0) ∧
      f.preDistance.getD j 0 = 0 ∧ f.postDistance.getD j 0 = 0 := by
  obtain ⟨axis, haxis⟩ : ∃ axis, p.axes[j]? = some axis := by
    have hj := (List.getElem?_eq_some_iff.1 hused).1
    exact ⟨_, List.getElem?_eq_getElem (h.accelerations ▸ hj)⟩
  have hspeeds : p.speeds (axis, none) = (0, 0) := rfl
  refine ⟨fun i hi => ?_, ?_, ?_⟩
  · rcases Nat.eq_zero_or_pos i with rfl | hpos
    · obtain ⟨hpre, hvelocity⟩ := h.element_first_column haxis hused
      rw [hpre, hvelocity, hspeeds]
      exact ⟨by ring, rfl⟩
    · rcases Nat.lt_or_eq_of_le hi with hlt | rfl
      · obtain ⟨k, rfl⟩ := Nat.exists_eq_succ_of_ne_zero hpos.ne'
        exact h.element_inner_column haxis hused (by omega)
      · obtain ⟨hpost, hvelocity⟩ := h.element_last_column haxis hused
        rw [hpost, hvelocity, hspeeds]
        exact ⟨by ring, rfl⟩
  · rw [List.getD_eq_getElem?_getD, h.getElem?_preDistance haxis hused, hspeeds, Option.getD_some]
    ring
  · rw [List.getD_eq_getElem?_getD, h.getElem?_postDistance haxis hused, hspeeds, Option.getD_some]
    ring

omit [IsStrictOrderedRing K] in
theorem connected_iff_axes (h : Generated p maxAcceleration f ramps) :
    Connected p maxAcceleration f ↔ ∀ j axis a, p.axes[j]? = some axis →
      maxAcceleration[j]? = some (some a) → AxisConnected f p.numPoints j axis.positions a := by
  constructor
  · exact Connected.used
  · intro hused
    refine ⟨?_, h.columns, fun i hi => ?_, ⟨?_, ?_⟩, hused, fun j hj => h.still hj⟩
    · have := h.two
      rw [h.file, Profile.file]
      simp only [List.length_append, List.length_cons, List.length_map, List.length_range,
        List.length_nil]
      omega
    · rw [h.element_inner hi]
    · rw [h.time_first]
      exact le_max_right _ _
    · rw [h.time_last]
      exact le_max_right _ _

end Generated

end Profile

/-! ## The run -/

variable {format : K → String} {ctx : Ctx K} {params : Params} {registered : List RegisteredAxis}
  {sgamma : String → Except Int K} {f : TrajectoryFile K}

omit [Field K] [LinearOrder K] in
/-- Every axis has an acceleration exactly if it is used. -/
theorem maxAccelerations_ok {axes : List RegisteredAxis} {accelerations : List (Option K)}
    (h : maxAccelerations params sgamma axes = .ok accelerations) (j : Nat) (a : RegisteredAxis)
    (ha : axes[j]? = some a) : ∃ used : Option K, accelerations[j]? = some used ∧
      used.isSome = params.useAxis a.axisNo := by
  induction axes generalizing accelerations j with
  | nil => cases ha
  | cons b axes ih =>
    rw [maxAccelerations] at h
    cases hrest : maxAccelerations params sgamma axes with
    | error e =>
      exfalso
      rw [hrest] at h
      by_cases huse : params.useAxis b.axisNo
      · rw [if_pos huse] at h
        cases hb : sgamma b.positioner with
        | error code =>
          rw [hb] at h
          cases h
        | ok x =>
          rw [hb] at h
          cases h
      · rw [if_neg huse] at h
        cases h
    | ok rest =>
      have hhead : ∃ used : Option K, accelerations = used :: rest ∧
          used.isSome = params.useAxis b.axisNo := by
        rw [hrest] at h
        by_cases huse : params.useAxis b.axisNo
        · rw [if_pos huse] at h
          cases hb : sgamma b.positioner with
          | error code =>
            rw [hb] at h
            cases h
          | ok x =>
            rw [hb] at h
            cases h
            exact ⟨some x, rfl, huse.symm⟩
        · rw [if_neg huse] at h
          cases h
          exact ⟨none, rfl, (Bool.eq_false_iff.2 huse).symm⟩
      obtain ⟨used, rfl, hused⟩ := hhead
      cases j with
      | zero =>
        cases ha
        exact ⟨used, rfl, hused⟩
      | succ j => exact ih hrest j ha

omit [LinearOrder K] in
theorem length_positions (ctx : Ctx K) (addr : Int) {n : Nat} (hn : n ≤ ctx.maxPoints) :
    (ctx.positions addr n).length = n := by
  rw [Ctx.positions]
  split
  · exact List.length_replicate
  · rename_i positions heq
    split at heq
    · rw [List.length_take, ctx.axes_length positions (List.mem_of_getElem? heq), min_eq_left hn]
    · cases heq

omit [LinearOrder K] in
/-- The entry of an axis that is registered. -/
theorem distancesOf_of_mem {v : Int → K × K} {a : RegisteredAxis} (h : a ∈ registered) :
    distancesOf (registered.map fun b => (b.axisNo, v b.axisNo)) a.axisNo = v a.axisNo := by
  rw [distancesOf]
  cases hfind : (registered.map fun b => (b.axisNo, v b.axisNo)).reverse.find?
      fun x => x.1 = a.axisNo with
  | none =>
    rw [List.find?_eq_none] at hfind
    have := hfind (a.axisNo, v a.axisNo) (List.mem_reverse.2 (List.mem_map.2 ⟨a, h, rfl⟩))
    exact absurd (decide_eq_true rfl) this
  | some x =>
    obtain ⟨b, -, rfl⟩ := List.mem_map.1 (List.mem_reverse.1 (List.mem_of_find?_eq_some hfind))
    have hkey := List.find?_some hfind
    exact congrArg v (of_decide_eq_true hkey)

/-- A build is of a profile that it generates. -/
theorem build_ok {dist : List (Int × K × K)}
    (h : build format ctx params registered sgamma = .ok (f, dist)) :
    (2 ≤ params.numPoints ∧ params.numPoints.toNat ≤ ctx.maxPoints) ∧
      dist = distances params registered f ∧ ∃ accelerations,
        maxAccelerations params sgamma (inGroup params registered) = .ok accelerations ∧
        (profile ctx params registered).generate format accelerations = .ok f := by
  rw [build] at h
  split at h
  · cases h
  rename_i hpoints
  cases haccelerations : maxAccelerations params sgamma (inGroup params registered) with
  | error e =>
    rw [haccelerations] at h
    cases h
  | ok accelerations =>
    rw [haccelerations] at h
    cases hfile : (profile ctx params registered).generate format accelerations with
    | error e =>
      dsimp only [Except.bind, bind] at h
      rw [hfile] at h
      cases h
    | ok file =>
      dsimp only [Except.bind, bind] at h
      rw [hfile] at h
      cases h
      exact ⟨by omega, rfl, accelerations, rfl, hfile⟩

/-- The distances of a used axis are the displacements of its ramps. -/
theorem distancesOf_build {dist : List (Int × K × K)}
    (h : build format ctx params registered sgamma = .ok (f, dist)) {a : RegisteredAxis} {j : Nat}
    (ha : (inGroup params registered)[j]? = some a) (huse : params.useAxis a.axisNo) :
    distancesOf dist a.axisNo =
      ((f.element 0).displacement j, (f.element params.numPoints.toNat).displacement j) := by
  obtain ⟨hpoints, rfl, accelerations, haccelerations, hgenerate⟩ := build_ok h
  obtain ⟨ramps, hgenerated⟩ := Profile.generate_ok hgenerate
  have hn : (profile ctx params registered).numPoints = params.numPoints.toNat := by
    rw [Profile.numPoints, profile, List.length_take, ctx.times_length, min_eq_left hpoints.2]
  have haxis : ∀ (i : Nat) b, (inGroup params registered)[i]? = some b →
      (profile ctx params registered).axes[i]? =
        some ⟨b.positioner, ctx.positions b.axisNo params.numPoints.toNat⟩ := by
    intro i b hb
    rw [profile]
    dsimp only
    rw [List.getElem?_map, hb, Option.map_some]
  have hmem : a ∈ registered := (List.mem_filter.1 (List.mem_of_getElem? ha)).1
  -- The first axis of the number has the positions of this one, and it is used as well.
  obtain ⟨i, hi⟩ : ∃ i, (inGroup params registered).findIdx? (fun g => g.axisNo = a.axisNo) =
      some i := by
    rw [← Option.isSome_iff_exists, List.findIdx?_isSome, List.any_eq_true]
    exact ⟨a, List.mem_of_getElem? ha, decide_eq_true rfl⟩
  obtain ⟨hlt, hkey, -⟩ := List.findIdx?_eq_some_iff_getElem.1 hi
  have hkey := of_decide_eq_true hkey
  have hfirst := List.getElem?_eq_getElem hlt
  generalize (inGroup params registered)[i] = b at hkey hfirst
  obtain ⟨used, hused, hsome⟩ := maxAccelerations_ok haccelerations j a ha
  obtain ⟨used', hused', hsome'⟩ := maxAccelerations_ok haccelerations i b hfirst
  rw [huse] at hsome
  rw [hkey, huse] at hsome'
  obtain ⟨x, rfl⟩ := Option.isSome_iff_exists.1 hsome
  obtain ⟨x', rfl⟩ := Option.isSome_iff_exists.1 hsome'
  have hpre := (hgenerated.element_first_column (haxis j a ha) hused).1
  have hpost := (hgenerated.element_last_column (haxis j a ha) hused).1
  have hpre' := hgenerated.getElem?_preDistance (haxis i b hfirst) hused'
  have hpost' := hgenerated.getElem?_postDistance (haxis i b hfirst) hused'
  rw [hn] at hpost
  rw [hkey] at hpre' hpost'
  rw [hpre, hpost, distances, distancesOf_of_mem hmem, rampDistances, hi]
  dsimp only
  rw [List.getD_eq_getElem?_getD, List.getD_eq_getElem?_getD, hpre', hpost']
  rfl

theorem moves_of_build {dist : List (Int × K × K)}
    (h : build format ctx params registered sgamma = .ok (f, dist)) :
    Moves f ctx params registered dist := by
  obtain ⟨hpoints, -⟩ := build_ok h
  have hmin : min params.numPoints.toNat ctx.times.length = params.numPoints.toNat := by
    rw [ctx.times_length, min_eq_left hpoints.2]
  rw [Moves, startRun, hmin]
  dsimp only
  conv => lhs; rw [← List.zipIdx_map_fst 0 (inGroup params registered), List.filter_map, List.map_map]
  refine List.map_congr_left fun x hx => ?_
  obtain ⟨hmem, huse⟩ := List.mem_filter.1 hx
  have hlength := length_positions ctx x.1.axisNo hpoints.2
  rw [Function.comp_apply, distancesOf_build h (List.mem_zipIdx_iff_getElem?.1 hmem) huse,
    List.head?_eq_getElem?, List.getLast?_eq_getElem?, hlength, ← List.getD_eq_getElem?_getD,
    ← List.getD_eq_getElem?_getD]

variable [IsStrictOrderedRing K] {p : Profile K} {maxAcceleration : List (Option K)}

/-- A file that is generated is connected, and the moves around its run fit it, exactly if each
used axis stands still in the last element or the last two points have the same time. -/
theorem connected_iff (h : p.generate format maxAcceleration = .ok f) :
    (Connected p maxAcceleration f ∧ ∀ ctx params registered sgamma dist,
      build format ctx params registered sgamma = .ok (f, dist) →
        Moves f ctx params registered dist) ↔
      ∀ (j : Nat) axis a, p.axes[j]? = some axis → maxAcceleration[j]? = some (some a) →
        axis.positions.getD (p.numPoints - 1) 0 = axis.positions.getD (p.numPoints - 2) 0 ∨
          p.times.getD (p.numPoints - 2) 0 = p.times.getD (p.numPoints - 1) 0 := by
  obtain ⟨ramps, hgenerated⟩ := Profile.generate_ok h
  rw [hgenerated.connected_iff_axes]
  constructor
  · rintro ⟨hconnected, -⟩ j axis a haxis hused
    exact (hgenerated.axisConnected_iff haxis hused).1 (hconnected j axis a haxis hused)
  · intro hlast
    exact ⟨fun j axis a haxis hused =>
      (hgenerated.axisConnected_iff haxis hused).2 (hlast j axis a haxis hused),
      fun _ _ _ _ _ => moves_of_build⟩

end

/-! ## Three points -/

/-- One unit a point, the last two points of given times. -/
def unitSteps (first last : ℚ) : Profile ℚ where
  group := "GROUP1"
  times := [1, first, last]
  axes := [⟨"GROUP1.POS", [0, 1, 2]⟩]

theorem unitSteps_generate (first last : ℚ)
    (h : ((unitSteps first last).generate (fun _ => "") [some 10]).isOk) :
    ∃ f, (unitSteps first last).generate (fun _ => "") [some 10] = .ok f := by
  cases hf : (unitSteps first last).generate (fun _ => "") [some 10] with
  | error e =>
    rw [hf] at h
    cases h
  | ok f => exact ⟨f, rfl⟩

theorem connected_even :
    ∃ f, (unitSteps 1 1).generate (fun _ => "") [some 10] = .ok f ∧
      Connected (unitSteps 1 1) [some 10] f := by
  obtain ⟨f, hf⟩ := unitSteps_generate 1 1 (by decide +kernel)
  exact ⟨f, hf, ((connected_iff hf).2 fun _ _ _ _ _ => .inr rfl).1⟩

/-- The last element ends at 1 a second, and the ramp behind it is made for 1/2. -/
theorem not_connected_uneven :
    ∃ f, (unitSteps 1 2).generate (fun _ => "") [some 10] = .ok f ∧
      ¬ Connected (unitSteps 1 2) [some 10] f := by
  obtain ⟨f, hf⟩ := unitSteps_generate 1 2 (by decide +kernel)
  refine ⟨f, hf, fun h => ?_⟩
  obtain ⟨ramps, hgenerated⟩ := Profile.generate_ok hf
  have hlast := (hgenerated.axisConnected_iff (j := 0) rfl rfl).1 (h.used 0 _ 10 rfl rfl)
  exact absurd hlast (by decide +kernel)

end Newport
