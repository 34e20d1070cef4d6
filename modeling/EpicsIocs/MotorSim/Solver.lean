import Mathlib.Analysis.Real.Sqrt
import Mathlib.Tactic.FieldSimp
import Mathlib.Tactic.LinearCombination
import EpicsIocs.MotorSim.Route

/-! # What the solver finds

Over the reals.  A path that `Solves` its problem has no negative time, goes the distance in its
time, keeps to the limit and changes speed at the acceleration.  `find_t`: with the total time
unknown the solver always finds such a path.  `find_t4`: and with `t4` unknown, if it accepts one
without taking a negative time for zero. -/

namespace MotorSim

open scoped Numerals

noncomputable instance : HasSqrt ℝ := ⟨Real.sqrt⟩

/-- The path goes the distance in its time, changing speed at the acceleration. -/
structure Covers (path : Path ℝ) (amax : ℝ) : Prop where
  total : path.sum = path.bigT
  accel1 : path.t1 * amax = |path.v2 - path.vi|
  accel3 : path.t3 * amax = |path.vf - path.v2|
  distance : (path.vi + path.v2) / 2 * path.t1 + path.v2 * path.t2 +
    (path.v2 + path.vf) / 2 * path.t3 + path.vf * path.t4 = path.dist

/-- It is a solution within the limits. -/
structure Solves (path : Path ℝ) (amax vmax : ℝ) : Prop extends Covers path amax where
  t1_nonneg : 0 ≤ path.t1
  t2_nonneg : 0 ≤ path.t2
  t3_nonneg : 0 ≤ path.t3
  t4_nonneg : 0 ≤ path.t4
  v2_le : |path.v2| ≤ vmax

/-- It is for the problem of another one. -/
structure Path.SameEnds (path path' : Path ℝ) : Prop where
  vi : path.vi = path'.vi
  vf : path.vf = path'.vf
  dist : path.dist = path'.dist

/-! ## The phases of a path -/

/-- The acceleration of a phase. -/
noncomputable def slope (dv t : ℝ) : ℝ := if t ≠ 0 then dv / t else 0

noncomputable def Path.phases (path : Path ℝ) : List (Phases.Phase ℝ) :=
  [⟨0, path.t4⟩, ⟨slope (path.vf - path.v2) path.t3, path.t3⟩, ⟨0, path.t2⟩,
    ⟨slope (path.v2 - path.vi) path.t1, path.t1⟩]

theorem slope_mul {dv t : ℝ} (h : t = 0 → dv = 0) : slope dv t * t = dv := by
  unfold slope
  by_cases ht : t = 0
  · rw [if_neg (not_not.2 ht), zero_mul, h ht]
  · rw [if_pos ht, div_mul_cancel₀ _ ht]

theorem abs_slope_le {dv t amax : ℝ} (hamax : 0 ≤ amax) (ht : 0 ≤ t) (h : t * amax = |dv|) :
    |slope dv t| ≤ amax := by
  unfold slope
  by_cases h0 : t = 0
  · rw [if_neg (not_not.2 h0), abs_zero]
    exact hamax
  · rw [if_pos h0, abs_div, ← h, abs_of_nonneg ht, mul_div_cancel_left₀ _ h0]

namespace Solves

variable {path : Path ℝ} {amax vmax : ℝ}

theorem proper (h : Solves path amax vmax) : Phases.Proper path.phases := by
  intro p hp
  simp only [Path.phases, List.mem_cons, List.not_mem_nil, or_false] at hp
  rcases hp with rfl | rfl | rfl | rfl
  exacts [h.t4_nonneg, h.t3_nonneg, h.t2_nonneg, h.t1_nonneg]

theorem total_phases (h : Solves path amax vmax) : Phases.total path.phases = path.bigT := by
  rw [← h.total, Path.sum]
  simp only [Phases.total, Path.phases, List.map_cons, List.map_nil, List.sum_cons, List.sum_nil]
  ring

theorem accel_le (h : Solves path amax vmax) (hamax : 0 ≤ amax) :
    ∀ p ∈ path.phases, |p.accel| ≤ amax := by
  intro p hp
  simp only [Path.phases, List.mem_cons, List.not_mem_nil, or_false] at hp
  rcases hp with rfl | rfl | rfl | rfl
  · simpa using hamax
  · exact abs_slope_le hamax h.t3_nonneg h.accel3
  · simpa using hamax
  · exact abs_slope_le hamax h.t1_nonneg h.accel1

theorem slope1 (h : Solves path amax vmax) :
    slope (path.v2 - path.vi) path.t1 * path.t1 = path.v2 - path.vi :=
  slope_mul fun h0 => abs_eq_zero.1 (by rw [← h.accel1, h0, zero_mul])

theorem slope3 (h : Solves path amax vmax) :
    slope (path.vf - path.v2) path.t3 * path.t3 = path.vf - path.v2 :=
  slope_mul fun h0 => abs_eq_zero.1 (by rw [← h.accel3, h0, zero_mul])

/-- On the path the demand is the motion in its phases. -/
theorem routeDemand_eq (h : Solves path amax vmax) {t : ℝ} (ht : -path.bigT ≤ t) :
    routeDemand path t =
      (Phases.position path.phases 0 path.vf t, Phases.speed path.phases path.vf t) := by
  have h1 := h.slope1
  have h3 := h.slope3
  have htotal := h.total
  unfold Path.sum at htotal
  unfold slope at h1 h3
  unfold routeDemand Path.phases slope
  simp only [Phases.position, Phases.speed, Motion.position, Motion.speed]
  generalize (if path.t1 ≠ 0 then (path.v2 - path.vi) / path.t1 else 0) = a1 at h1 ⊢
  generalize (if path.t3 ≠ 0 then (path.vf - path.v2) / path.t3 else 0) = a3 at h3 ⊢
  have hv2 : path.v2 = path.vf - a3 * path.t3 := by linarith
  by_cases h4 : -path.t4 ≤ t
  · simp only [if_pos h4]
    exact Prod.ext (by ring) (by ring)
  simp only [if_neg h4]
  by_cases h3 : -path.t3 ≤ t + path.t4
  · simp only [if_pos h3]
    exact Prod.ext (by ring) (by ring)
  simp only [if_neg h3]
  by_cases h2 : -path.t2 ≤ t + path.t4 + path.t3
  · simp only [if_pos h2]
    exact Prod.ext (by rw [hv2]; ring) (by rw [hv2]; ring)
  simp only [if_neg h2]
  have h1' : -path.t1 ≤ t + path.t4 + path.t3 + path.t2 := by linarith
  simp only [if_pos h1']
  exact Prod.ext (by rw [hv2]; ring) (by rw [hv2]; ring)

theorem startSpeed (h : Solves path amax vmax) :
    Phases.startSpeed path.phases path.vf = path.vi := by
  have h1 := h.slope1
  have h3 := h.slope3
  simp only [Path.phases, Phases.startSpeed, Motion.speed]
  linarith

theorem startPosition (h : Solves path amax vmax) :
    Phases.startPosition path.phases 0 path.vf = -path.dist := by
  have h1 := h.slope1
  have h3 := h.slope3
  have hdist := h.distance
  simp only [Path.phases, Phases.startPosition, Motion.position, Motion.speed]
  generalize slope (path.v2 - path.vi) path.t1 = a1 at h1 ⊢
  generalize slope (path.vf - path.v2) path.t3 = a3 at h3 ⊢
  have hv2 : path.v2 = path.vf - a3 * path.t3 := by linarith
  have hvi : path.vi = path.v2 - a1 * path.t1 := by linarith
  rw [← hdist, hvi, hv2]
  ring

end Solves

/-! ## The root -/

/-- Far enough from `vi` to `vf`, the top speed is above both. -/
theorem root_up {vi vf c : ℝ} (h : (vi + vf) * |vi - vf| ≤ 2 * c) :
    0 ≤ (vi ^ 2 + vf ^ 2) / 2 + c ∧ vi ≤ √((vi ^ 2 + vf ^ 2) / 2 + c) ∧
      vf ≤ √((vi ^ 2 + vf ^ 2) / 2 + c) := by
  rcases le_total vf vi with hle | hle
  · rw [abs_of_nonneg (sub_nonneg.2 hle)] at h
    have hvi : vi ^ 2 ≤ (vi ^ 2 + vf ^ 2) / 2 + c := by linarith
    have htop : vi ≤ √((vi ^ 2 + vf ^ 2) / 2 + c) := (le_abs_self vi).trans (Real.abs_le_sqrt hvi)
    exact ⟨(sq_nonneg vi).trans hvi, htop, hle.trans htop⟩
  · rw [abs_of_nonpos (sub_nonpos.2 hle)] at h
    have hvf : vf ^ 2 ≤ (vi ^ 2 + vf ^ 2) / 2 + c := by linarith
    have htop : vf ≤ √((vi ^ 2 + vf ^ 2) / 2 + c) := (le_abs_self vf).trans (Real.abs_le_sqrt hvf)
    exact ⟨(sq_nonneg vf).trans hvf, hle.trans htop, htop⟩

/-- `v` is the top speed for the distance `c / a`, upward if `σ` is 1 and downward if it is -1. -/
structure Peak (σ vi vf v c : ℝ) : Prop where
  sign : σ = 1 ∨ σ = -1
  above_vi : σ * vi ≤ σ * v
  above_vf : σ * vf ≤ σ * v
  square : 2 * v ^ 2 = vi ^ 2 + vf ^ 2 + 2 * σ * c

theorem peak_up {vi vf c : ℝ} (h : (vi + vf) * |vi - vf| ≤ 2 * c) :
    Peak 1 vi vf (√((vi ^ 2 + vf ^ 2) / 2 + c)) c := by
  obtain ⟨hnonneg, hvi, hvf⟩ := root_up h
  refine ⟨.inl rfl, by linarith, by linarith, ?_⟩
  rw [Real.sq_sqrt hnonneg]
  ring

theorem peak_down {vi vf c : ℝ} (h : 2 * c ≤ (vi + vf) * |vi - vf|) :
    Peak (-1) vi vf (-√((vi ^ 2 + vf ^ 2) / 2 - c)) c := by
  have hneg : (-vi + -vf) * |-vi - -vf| ≤ 2 * -c := by
    have habs : |-vi - -vf| = |vi - vf| := by rw [neg_sub_neg, abs_sub_comm]
    rw [habs]
    linarith
  obtain ⟨hnonneg, hvi, hvf⟩ := root_up hneg
  rw [neg_sq, neg_sq, ← sub_eq_add_neg] at hnonneg hvi hvf
  refine ⟨.inr rfl, by linarith, by linarith, ?_⟩
  rw [neg_sq, Real.sq_sqrt hnonneg]
  ring

/-- Just from `vi` to `vf`. -/
theorem peak_vi {vi vf c : ℝ} (h : 2 * c = (vi + vf) * |vi - vf|) :
    ∃ σ, Peak σ vi vf vi c := by
  rcases le_total vf vi with hle | hle
  · rw [abs_of_nonneg (sub_nonneg.2 hle)] at h
    exact ⟨1, .inl rfl, le_rfl, by linarith, by linarith⟩
  · rw [abs_of_nonpos (sub_nonpos.2 hle)] at h
    exact ⟨-1, .inr rfl, le_rfl, by linarith, by linarith⟩

/-! ## The top speed found -/

section
variable {path : Path ℝ} {a : ℝ}

theorem min_accel (ha : 0 < a) (vi vf : ℝ) : a * |(vi - vf) / a| = |vi - vf| := by
  rw [abs_div, abs_of_pos ha, mul_div_cancel₀ _ ha.ne']

theorem which_up (ha : 0 < a) (lin : ℝ) {vi vf d s : ℝ} {known : Nat}
    (h : (vi + vf) * |vi - vf| ≤ 2 * (a * d)) (hs : s = (vi ^ 2 + vf ^ 2) / 2 + a * d)
    (hknown : known ≠ maskT2) : Peak 1 vi vf (findWhichV2Sqrt a lin s known - lin) (a * d) := by
  have hnonneg : ¬ s < 0 := by
    rw [hs]
    exact (root_up h).1.not_gt
  have heq : findWhichV2Sqrt a lin s known - lin = √s := by
    simp only [findWhichV2Sqrt, if_neg hknown, if_pos ha, if_neg hnonneg]
    exact add_sub_cancel_left _ _
  rw [heq, hs]
  exact peak_up h

theorem which_down (ha : 0 < a) (lin : ℝ) {vi vf d s : ℝ} {known : Nat}
    (h : 2 * (a * d) ≤ (vi + vf) * |vi - vf|) (hs : s = (vi ^ 2 + vf ^ 2) / 2 - a * d)
    (hknown : known ≠ maskT2) :
    Peak (-1) vi vf (findWhichV2Sqrt (-a) lin s known - lin) (a * d) := by
  have hpeak := peak_down h
  have hnonneg : ¬ s < 0 := by
    have hsquare := hpeak.square
    rw [hs]
    nlinarith [sq_nonneg (-√((vi ^ 2 + vf ^ 2) / 2 - a * d))]
  have heq : findWhichV2Sqrt (-a) lin s known - lin = -√s := by
    simp only [findWhichV2Sqrt, if_neg hknown, if_neg (neg_lt_zero.2 ha).not_gt, if_neg hnonneg]
    exact sub_sub_cancel_left _ _
  rw [heq, hs]
  exact hpeak

/-- `v2`, with the total time unknown. -/
theorem solveV2_t (ha : 0 < a) (h2 : path.t2 = 0) (h4 : path.t4 = 0) :
    ∃ v2 σ, solveV2 path a maskT = some v2 ∧ Peak σ path.vi path.vf v2 (a * path.dist) := by
  set m := 1 / 2 * (path.vi + path.vf) * |(path.vi - path.vf) / a| with hm
  have hmin : 2 * (a * m) = (path.vi + path.vf) * |path.vi - path.vf| := by
    rw [← min_accel ha, hm]
    ring
  have hknown : maskT ≠ maskT2 := by decide
  rcases lt_trichotomy path.dist m with hlt | heq | hgt
  · have hfar : 2 * (a * path.dist) ≤ (path.vi + path.vf) * |path.vi - path.vf| := by
      have := mul_lt_mul_of_pos_left hlt ha
      linarith
    have hpeak := which_down ha 0 hfar rfl hknown
    rw [sub_zero] at hpeak
    refine ⟨_, _, ?_, hpeak⟩
    simp only [solveV2, h2, h4, ← hm, if_true, Option.map_some, mul_zero, zero_mul, add_zero,
      zero_add, sub_zero, hlt.ne, hlt, hlt.not_gt, if_false, and_self, and_false, false_and,
      or_self]
    congr 2
    ring
  · rw [← heq] at hmin
    obtain ⟨σ, hpeak⟩ := peak_vi hmin
    refine ⟨_, σ, ?_, hpeak⟩
    simp only [solveV2, h2, h4, ← hm, heq, if_true, Option.map_some, mul_zero, add_zero]
  · have hfar : (path.vi + path.vf) * |path.vi - path.vf| ≤ 2 * (a * path.dist) := by
      have := mul_lt_mul_of_pos_left hgt ha
      linarith
    have hpeak := which_up ha 0 hfar rfl hknown
    rw [sub_zero] at hpeak
    refine ⟨_, _, ?_, hpeak⟩
    simp only [solveV2, h2, h4, ← hm, if_true, Option.map_some, mul_zero, zero_mul, add_zero,
      zero_add, sub_zero, hgt.ne', hgt, hgt.not_gt, if_false, and_self, and_false, false_and,
      or_self]
    congr 2
    ring

/-- And with `t4` unknown: from `vf` on, it is the same for the speeds less `vf`. -/
theorem solveV2_t4 (ha : 0 < a) (h2 : path.t2 = 0) :
    ∃ v2 σ, solveV2 path a maskT4 = some v2 ∧
      Peak σ (path.vi - path.vf) 0 (v2 - path.vf) (a * (path.dist - path.vf * path.bigT)) := by
  set n := |(path.vi - path.vf) / a| with hn
  set m := 1 / 2 * (path.vi + path.vf) * n + path.vf * (path.bigT - n) with hm
  have hmin : 2 * (a * (m - path.vf * path.bigT)) =
      (path.vi - path.vf + 0) * |path.vi - path.vf - 0| := by
    rw [add_zero, sub_zero, ← min_accel ha, hm, ← hn]
    ring
  have hknown : maskT4 ≠ maskT2 := by decide
  have htag : maskT4 ≠ maskT := by decide
  rcases lt_trichotomy path.dist m with hlt | heq | hgt
  · have hfar : 2 * (a * (path.dist - path.vf * path.bigT)) ≤
        (path.vi - path.vf + 0) * |path.vi - path.vf - 0| := by
      have := mul_lt_mul_of_pos_left hlt ha
      linarith
    have hpeak := which_down ha path.vf hfar rfl hknown
    refine ⟨_, _, ?_, hpeak⟩
    simp only [solveV2, h2, ← hn, ← hm, htag, if_true, Option.map_some, mul_zero, zero_mul,
      add_zero, zero_add, sub_zero, hlt.ne, hlt, hlt.not_gt, if_false, and_self, and_false,
      false_and, or_self]
    congr 2
    ring
  · rw [← heq] at hmin
    obtain ⟨σ, hpeak⟩ := peak_vi hmin
    refine ⟨_, σ, ?_, hpeak⟩
    simp only [solveV2, h2, ← hn, ← hm, heq, htag, if_true, if_false, Option.map_some, mul_zero,
      add_zero, sub_zero]
  · have hfar : (path.vi - path.vf + 0) * |path.vi - path.vf - 0| ≤
        2 * (a * (path.dist - path.vf * path.bigT)) := by
      have := mul_lt_mul_of_pos_left hgt ha
      linarith
    have hpeak := which_up ha path.vf hfar rfl hknown
    refine ⟨_, _, ?_, hpeak⟩
    simp only [solveV2, h2, ← hn, ← hm, htag, if_true, Option.map_some, mul_zero, zero_mul,
      add_zero, zero_add, sub_zero, hgt.ne', hgt, hgt.not_gt, if_false, and_self, and_false,
      false_and, or_self]
    congr 2
    ring

/-! ## The tests -/

theorem isZero_zero (scale : ℝ) : isZero 0 scale := by
  rw [isZero, abs_zero]
  exact abs_nonneg _

theorem Covers.solves {vmax : ℝ} (h : Covers path a) (hneg : ¬ path.SomeNegative)
    (hle : |path.v2| ≤ vmax) : Solves path a vmax := by
  simp only [Path.SomeNegative, not_or, not_lt] at hneg
  obtain ⟨h1, h2, h3, h4, -⟩ := hneg
  exact ⟨h, h1, h2, h3, h4, hle⟩

theorem Covers.findPath_eq {path' : Path ℝ} {unknowns : Nat} (ha : 0 < a) (h : Covers path' a)
    (hneg : ¬ path'.SomeNegative) (hsolve : solve path a unknowns = (path', .ok)) :
    findPath path a unknowns = (path', .ok) := by
  rw [findPath, if_neg ha.not_ge, hsolve]
  dsimp only
  rw [checkTimes, if_neg hneg, checkSum, h.total, sub_self, if_pos (isZero_zero _)]

/-- What the tests change are times. -/
theorem checkTimes_same (path : Path ℝ) :
    (checkTimes path).1.SameEnds path ∧ (checkTimes path).1.v2 = path.v2 := by
  unfold checkTimes checkSum
  split
  · dsimp only
    split <;> exact ⟨⟨rfl, rfl, rfl⟩, rfl⟩
  · exact ⟨⟨rfl, rfl, rfl⟩, rfl⟩

/-- An accepted path keeps its total. -/
theorem checkTimes_bigT (h : (checkTimes path).2 = .ok) :
    (checkTimes path).1.bigT = path.bigT := by
  unfold checkTimes checkSum at h ⊢
  split
  · rename_i hneg
    rw [if_pos hneg] at h
    dsimp only at h ⊢
    split
    · rename_i hcleared
      rw [if_pos hcleared] at h
      cases h
    · rfl
  · rfl

/-! ## With the total time unknown -/

theorem abs_div_mul (ha : 0 < a) (x : ℝ) : |x / a| * a = |x| := by
  rw [abs_div, abs_of_pos ha, div_mul_cancel₀ _ ha.ne']

theorem Peak.abs_vi {σ vi vf v c : ℝ} (h : Peak σ vi vf v c) : |v - vi| = σ * (v - vi) := by
  have habove := h.above_vi
  rcases h.sign with rfl | rfl
  · rw [abs_of_nonneg (by linarith), one_mul]
  · rw [abs_of_nonpos (by linarith), neg_one_mul]

theorem Peak.abs_vf {σ vi vf v c : ℝ} (h : Peak σ vi vf v c) : |vf - v| = σ * (v - vf) := by
  have habove := h.above_vf
  rw [abs_sub_comm]
  rcases h.sign with rfl | rfl
  · rw [abs_of_nonneg (by linarith), one_mul]
  · rw [abs_of_nonpos (by linarith), neg_one_mul]

theorem Peak.sign_sq {σ vi vf v c : ℝ} (h : Peak σ vi vf v c) : σ * σ = 1 := by
  rcases h.sign with rfl | rfl
  · exact mul_one 1
  · rw [neg_mul_neg, mul_one]

/-- The path with `v2` for a top speed, and no phase at a constant one. -/
noncomputable def Path.upTo (path : Path ℝ) (a v2 : ℝ) : Path ℝ :=
  { path with
    v2
    t1 := |(v2 - path.vi) / a|
    t2 := 0
    t3 := |(path.vf - v2) / a|
    t4 := 0
    bigT := |(v2 - path.vi) / a| + 0 + |(path.vf - v2) / a| + 0 }

/-- The first solution with the total time unknown. -/
theorem solve_t (ha : 0 < a) (h4 : path.t4 = 0) :
    ∃ v2 σ, Peak σ path.vi path.vf v2 (a * path.dist) ∧
      solve { path with t2 := 0 } a (maskV2 ||| maskT) = (path.upTo a v2, .ok) := by
  obtain ⟨v2, σ, hv2, hpeak⟩ :=
    @solveV2_t { path with t2 := 0 } a ha rfl h4
  refine ⟨v2, σ, hpeak, ?_⟩
  have hxor : (maskV2 ||| maskT) ^^^ maskV2 = maskT := by decide
  rw [solve, if_pos (.inl rfl), hxor, hv2]
  obtain ⟨dist, vi, vf, w, t1, t2, t3, t4, bigT⟩ := path
  dsimp only at h4
  subst h4
  rfl

/-- The first solution covers the distance. -/
theorem Peak.covers {σ v2 : ℝ} (ha : 0 < a) (h : Peak σ path.vi path.vf v2 (a * path.dist)) :
    Covers (path.upTo a v2) a where
  total := rfl
  accel1 := abs_div_mul ha _
  accel3 := abs_div_mul ha _
  distance := by
    have h1 := (abs_div_mul ha (v2 - path.vi)).trans h.abs_vi
    have h3 := (abs_div_mul ha (path.vf - v2)).trans h.abs_vf
    have hsquare := h.square
    have hsign := h.sign_sq
    apply mul_right_cancel₀ ha.ne'
    dsimp only [Path.upTo]
    generalize |(v2 - path.vi) / a| = t1 at h1 ⊢
    generalize |(path.vf - v2) / a| = t3 at h3 ⊢
    linear_combination (path.vi + v2) / 2 * h1 + (v2 + path.vf) / 2 * h3 + σ / 2 * hsquare +
      a * path.dist * hsign

/-- The limit, in the direction of the peak. -/
theorem Peak.limit {σ vi vf v2 c vmax : ℝ} (h : Peak σ vi vf v2 c) (hvf : |vf| < vmax)
    (hlarge : vmax < |v2|) :
    (if 0 ≤ v2 then vmax else -vmax) = σ * vmax ∧ vmax < σ * v2 := by
  have habove := h.above_vf
  have hpos : 0 < vmax := (abs_nonneg vf).trans_lt hvf
  obtain ⟨hlow, hhigh⟩ := abs_lt.1 hvf
  rcases h.sign with rfl | rfl
  · have hv2 : 0 ≤ v2 := by
      by_contra hneg
      rw [abs_of_neg (not_le.1 hneg)] at hlarge
      linarith
    rw [abs_of_nonneg hv2] at hlarge
    rw [if_pos hv2, one_mul, one_mul]
    exact ⟨rfl, hlarge⟩
  · have hv2 : v2 < 0 := by
      by_contra hnonneg
      rw [abs_of_nonneg (not_lt.1 hnonneg)] at hlarge
      linarith
    rw [abs_of_neg hv2] at hlarge
    rw [if_neg hv2.not_ge, neg_one_mul, neg_one_mul]
    exact ⟨rfl, hlarge⟩

/-- What is left of the distance at the limit is in the direction of the limit. -/
theorem Peak.rest_nonneg {σ vi vf v2 d vmax t1 t3 : ℝ} (ha : 0 < a)
    (h : Peak σ vi vf v2 (a * d)) (hvf : |vf| < vmax) (hlarge : vmax < σ * v2)
    (h1 : t1 * a = |σ * vmax - vi|) (h3 : t3 * a = |vf - σ * vmax|) :
    0 ≤ σ * (d - 1 / 2 * ((vi + σ * vmax) * t1 + (σ * vmax + vf) * t3)) := by
  have hpos : 0 < vmax := (abs_nonneg vf).trans_lt hvf
  have hsign := h.sign_sq
  have hv2 : (σ * v2) ^ 2 = v2 ^ 2 := by rw [mul_pow, sq σ, hsign, one_mul]
  have hvi : (σ * vi) ^ 2 = vi ^ 2 := by rw [mul_pow, sq σ, hsign, one_mul]
  have hdown : |vf - σ * vmax| = vmax - σ * vf := by
    obtain ⟨hlow, hhigh⟩ := abs_lt.1 hvf
    rcases h.sign with rfl | rfl
    · rw [abs_of_nonpos (by linarith)]
      ring
    · rw [abs_of_nonneg (by linarith)]
      ring
  have hscaled : σ * (d - 1 / 2 * ((vi + σ * vmax) * t1 + (σ * vmax + vf) * t3)) * (2 * a) =
      2 * v2 ^ 2 - vi ^ 2 - vmax ^ 2 - (σ * vi + vmax) * |σ * vmax - vi| := by
    rw [hdown] at h3
    linear_combination (-(σ * vi) - σ * σ * vmax) * h1 - (σ * σ * vmax + σ * vf) * h3 - h.square +
      (vf ^ 2 - vmax ^ 2 - vmax * |σ * vmax - vi| + vmax * (σ * vf)) * hsign
  have hrest : 0 ≤ 2 * v2 ^ 2 - vi ^ 2 - vmax ^ 2 - (σ * vi + vmax) * |σ * vmax - vi| := by
    have habs : |σ * vmax - vi| = |vmax - σ * vi| := by
      rcases h.sign with rfl | rfl
      · rw [one_mul, one_mul]
      · rw [← abs_neg]
        congr 1
        ring
    rw [habs, ← hv2, ← hvi]
    have habove := h.above_vi
    rcases le_total (σ * vi) vmax with hle | hle
    · rw [abs_of_nonneg (by linarith)]
      nlinarith
    · -- faster than the limit at the start
      rw [abs_of_nonpos (by linarith)]
      nlinarith
  rw [← hscaled] at hrest
  exact nonneg_of_mul_nonneg_left hrest (by linarith)

/-- The solution at the limit, with the total time unknown. -/
theorem solve_limit_t (ha : 0 < a) (hv2 : path.v2 ≠ 0) (h4 : path.t4 = 0) :
    ∃ path', solve path a (maskT2 ||| maskT) = (path', .ok) ∧ Covers path' a ∧
      path'.SameEnds path ∧ path'.v2 = path.v2 ∧ path'.t4 = 0 := by
  have hmask : ¬ (maskT2 ||| maskT = maskV2 ||| maskT ∨ maskT2 ||| maskT = maskV2 ||| maskT4 ∨
      maskT2 ||| maskT = maskV2 ||| maskT2) := by decide
  have hmask' : maskT2 ||| maskT = maskT ||| maskT4 ∨ maskT2 ||| maskT = maskT ||| maskT2 ∨
      maskT2 ||| maskT = maskT2 ||| maskT4 := by decide
  have hT : (maskT2 ||| maskT) &&& maskT ≠ 0 := by decide
  have hT4 : ¬ ((maskT2 ||| maskT) &&& maskT4 ≠ 0) := by decide
  have hT2 : (maskT2 ||| maskT) &&& maskT2 ≠ 0 := by decide
  rw [solve, if_neg hmask, if_pos hmask', solveTimes]
  simp only [Path.withAccelTimes, if_pos hT, hT4, false_and, if_false, hT2, not_false_eq_true,
    ne_eq, true_and, hv2, if_true]
  refine ⟨_, rfl, ⟨rfl, abs_div_mul ha _, abs_div_mul ha _, ?_⟩, ⟨rfl, rfl, rfl⟩, rfl, h4⟩
  dsimp only
  rw [mul_div_cancel₀ _ hv2]
  ring

/-- It is one of no negative times. -/
theorem Peak.limit_nonneg {σ v2 d vmax : ℝ} (ha : 0 < a) (h : Peak σ path.vi path.vf v2 (a * d))
    (hvf : |path.vf| < vmax) (hlarge : vmax < σ * v2) (hcovers : Covers path a)
    (hv2 : path.v2 = σ * vmax) (hdist : path.dist = d) (h4 : path.t4 = 0) :
    ¬ path.SomeNegative := by
  have hpos : 0 < vmax := (abs_nonneg _).trans_lt hvf
  have haccel1 := hcovers.accel1
  have haccel3 := hcovers.accel3
  have hdistance := hcovers.distance
  rw [hv2] at haccel1 haccel3 hdistance
  rw [hdist, h4] at hdistance
  have hforward := h.rest_nonneg ha hvf hlarge haccel1 haccel3
  have h1 : 0 ≤ path.t1 := nonneg_of_mul_nonneg_left (haccel1 ▸ abs_nonneg _) ha
  have h3 : 0 ≤ path.t3 := nonneg_of_mul_nonneg_left (haccel3 ▸ abs_nonneg _) ha
  have h2 : 0 ≤ path.t2 := by
    have hscaled : σ * (d - 1 / 2 * ((path.vi + σ * vmax) * path.t1 +
        (σ * vmax + path.vf) * path.t3)) = path.t2 * vmax := by
      linear_combination path.t2 * vmax * h.sign_sq - σ * hdistance
    rw [hscaled] at hforward
    exact nonneg_of_mul_nonneg_left hforward hpos
  have hT : 0 ≤ path.bigT := by
    rw [← hcovers.total, Path.sum, h4]
    positivity
  rintro (hneg | hneg | hneg | hneg | hneg)
  exacts [hneg.not_ge h1, hneg.not_ge h2, hneg.not_ge h3, hneg.not_ge h4.ge, hneg.not_ge hT]

/-- With the total time unknown the solver always finds a path. -/
theorem find_t {amax vmax : ℝ} (ha : 0 < amax) (hvf : |path.vf| < vmax) (h4 : path.t4 = 0) :
    ∃ path', findPathWithVmax path amax vmax maskT = (path', .ok) ∧ Solves path' amax vmax ∧
      path'.SameEnds path := by
  have hpos : 0 < vmax := (abs_nonneg _).trans_lt hvf
  obtain ⟨v2, σ, hpeak, hsolve⟩ := solve_t ha h4
  have hcovers := hpeak.covers ha
  have hnonneg : ¬ (path.upTo amax v2).SomeNegative := by
    have hT : 0 ≤ (path.upTo amax v2).bigT := by
      dsimp only [Path.upTo]
      positivity
    rintro (h | h | h | h | h)
    exacts [h.not_ge (abs_nonneg _), h.not_ge le_rfl, h.not_ge (abs_nonneg _), h.not_ge le_rfl,
      h.not_ge hT]
  rw [findPathWithVmax, hcovers.findPath_eq ha hnonneg hsolve]
  dsimp only
  by_cases hlarge : vmax < |(path.upTo amax v2).v2|
  · obtain ⟨hlimit, hover⟩ := hpeak.limit hvf hlarge
    have hw : ((path.upTo amax v2).clamped vmax).v2 = σ * vmax := hlimit
    have hne : ((path.upTo amax v2).clamped vmax).v2 ≠ 0 := by
      rw [hw]
      exact mul_ne_zero (left_ne_zero_of_mul_eq_one hpeak.sign_sq) hpos.ne'
    obtain ⟨path', hsolve', hcovers', hends, hv2, ht4⟩ := solve_limit_t ha hne rfl
    have hends : path'.SameEnds path := ⟨hends.vi, hends.vf, hends.dist⟩
    rw [← hends.vi, ← hends.vf] at hpeak
    rw [← hends.vf] at hvf
    have hnonneg' := hpeak.limit_nonneg ha hvf hover hcovers' (hv2.trans hw) hends.dist ht4
    have hle : |path'.v2| ≤ vmax := by
      rw [hv2, hw, abs_mul, abs_of_pos hpos]
      rcases hpeak.sign with rfl | rfl <;> simp
    rw [if_pos hlarge, hcovers'.findPath_eq ha hnonneg' hsolve']
    exact ⟨path', rfl, hcovers'.solves hnonneg' hle, hends⟩
  · rw [if_neg hlarge]
    exact ⟨_, rfl, hcovers.solves hnonneg (not_lt.1 hlarge), rfl, rfl, rfl⟩

/-! ## With the last time unknown -/

/-- The first solution with `t4` unknown. -/
theorem solve_t4 (ha : 0 < a) :
    ∃ path', solve { path with t2 := 0 } a (maskV2 ||| maskT4) = (path', .ok) ∧
      Covers path' a ∧ path'.SameEnds path ∧ path'.bigT = path.bigT := by
  obtain ⟨v2, σ, hv2, hpeak⟩ := @solveV2_t4 { path with t2 := 0 } a ha rfl
  have hxor : (maskV2 ||| maskT4) ^^^ maskV2 = maskT4 := by decide
  rw [solve, if_pos (.inr (.inl rfl)), hxor, hv2]
  refine ⟨_, rfl, ⟨?_, abs_div_mul ha _, abs_div_mul ha _, ?_⟩, ⟨rfl, rfl, rfl⟩, rfl⟩
  · show |(v2 - path.vi) / a| + 0 + |(path.vf - v2) / a| +
      (path.bigT - (|(v2 - path.vi) / a| + 0 + |(path.vf - v2) / a|)) = path.bigT
    ring
  · show (path.vi + v2) / 2 * |(v2 - path.vi) / a| + v2 * 0 +
      (v2 + path.vf) / 2 * |(path.vf - v2) / a| +
      path.vf * (path.bigT - (|(v2 - path.vi) / a| + 0 + |(path.vf - v2) / a|)) = path.dist
    have habs1 : |v2 - path.vi| = σ * (v2 - path.vi) := by
      have := hpeak.abs_vi
      rwa [sub_sub_sub_cancel_right] at this
    have habs3 : |path.vf - v2| = σ * (v2 - path.vf) := by
      have := hpeak.abs_vf
      rwa [zero_sub, neg_sub, sub_zero] at this
    have h1 := (abs_div_mul ha (v2 - path.vi)).trans habs1
    have h3 := (abs_div_mul ha (path.vf - v2)).trans habs3
    have hsquare := hpeak.square
    have hsign := hpeak.sign_sq
    apply mul_right_cancel₀ ha.ne'
    dsimp only at hsquare
    generalize |(v2 - path.vi) / a| = t1 at h1 ⊢
    generalize |(path.vf - v2) / a| = t3 at h3 ⊢
    linear_combination ((path.vi + v2) / 2 - path.vf) * h1 + ((v2 + path.vf) / 2 - path.vf) * h3 +
      σ / 2 * hsquare + a * (path.dist - path.vf * path.bigT) * hsign

/-- The solution at the limit, with `t2` and `t4` unknown. -/
theorem solve_limit_t4 (ha : 0 < a) (hne : path.v2 ≠ path.vf) :
    ∃ path', solve path a (maskT2 ||| maskT4) = (path', .ok) ∧ Covers path' a ∧
      path'.SameEnds path ∧ path'.v2 = path.v2 ∧ path'.bigT = path.bigT := by
  have hmask : ¬ (maskT2 ||| maskT4 = maskV2 ||| maskT ∨ maskT2 ||| maskT4 = maskV2 ||| maskT4 ∨
      maskT2 ||| maskT4 = maskV2 ||| maskT2) := by decide
  have hmask' : maskT2 ||| maskT4 = maskT ||| maskT4 ∨ maskT2 ||| maskT4 = maskT ||| maskT2 ∨
      maskT2 ||| maskT4 = maskT2 ||| maskT4 := by decide
  have hT : ¬ ((maskT2 ||| maskT4) &&& maskT ≠ 0) := by decide
  rw [solve, if_neg hmask, if_pos hmask', solveTimes]
  simp only [Path.withAccelTimes, if_neg hT, ne_eq, hne, not_false_eq_true, if_true]
  refine ⟨_, rfl, ⟨?_, abs_div_mul ha _, abs_div_mul ha _, ?_⟩, ⟨rfl, rfl, rfl⟩, rfl, rfl⟩
  · dsimp only [Path.sum]
    ring
  · dsimp only
    have hrest : ∀ d : ℝ, d / (path.v2 - path.vf) * (path.v2 - path.vf) = d := fun d =>
      div_mul_cancel₀ d (sub_ne_zero.2 hne)
    generalize hd : path.dist - 1 / 2 * ((path.vi + path.v2) * |(path.v2 - path.vi) / a| +
      (path.v2 + path.vf) * |(path.vf - path.v2) / a|) - path.vf *
        (path.bigT - |(path.v2 - path.vi) / a| - |(path.vf - path.v2) / a|) = d
    linear_combination hrest d - hd

/-- What was solved for last, before its times were looked at. -/
def solved {K : Type} [Field K] [LinearOrder K] [HasSqrt K] (path : Path K) (amax vmax : K)
    (unknown : Nat) : Path K :=
  let first := findPath { path with t2 := 0 } amax (maskV2 ||| unknown)
  if vmax < |first.1.v2| then (solve (first.1.clamped vmax) amax (maskT2 ||| unknown)).1
  else (solve { path with t2 := 0 } amax (maskV2 ||| unknown)).1

/-- With `t4` unknown, a path found with no time below zero. -/
theorem find_t4 {amax vmax : ℝ} (ha : 0 < amax) (hvf : |path.vf| < vmax)
    (hok : (findPathWithVmax path amax vmax maskT4).2 = .ok)
    (hneg : ¬ (solved path amax vmax maskT4).SomeNegative) :
    Solves (findPathWithVmax path amax vmax maskT4).1 amax vmax ∧
      (findPathWithVmax path amax vmax maskT4).1.SameEnds path ∧
      (findPathWithVmax path amax vmax maskT4).1.bigT = path.bigT := by
  obtain ⟨path', hsolve, hcovers, hends, hT⟩ := @solve_t4 path amax ha
  have hfirst : findPath { path with t2 := 0 } amax (maskV2 ||| maskT4) = checkTimes path' := by
    rw [findPath, if_neg ha.not_ge, hsolve]
  obtain ⟨hsame, hv2⟩ := checkTimes_same path'
  unfold findPathWithVmax at hok ⊢
  unfold solved at hneg
  rw [hfirst] at hok hneg ⊢
  have hstatus : (checkTimes path').2 = .ok := by
    rcases hcheck : checkTimes path' with ⟨first, _ | _ | _⟩
    · rfl
    all_goals
      rw [hcheck] at hok
      cases hok
  have hbigT := checkTimes_bigT hstatus
  rcases hcheck : checkTimes path' with ⟨first, status⟩
  rw [hcheck] at hok hneg hsame hv2 hstatus hbigT
  dsimp only at hok hneg hsame hv2 hstatus hbigT ⊢
  subst hstatus
  dsimp only at hok ⊢
  split at hneg
  · rename_i hlarge
    have habs : |(first.clamped vmax).v2| = vmax := by
      have hpos : 0 < vmax := (abs_nonneg _).trans_lt hvf
      dsimp only [Path.clamped]
      split
      · exact abs_of_pos hpos
      · rw [abs_neg, abs_of_pos hpos]
    have hne : (first.clamped vmax).v2 ≠ (first.clamped vmax).vf := by
      intro heq
      have hvf' : (first.clamped vmax).vf = path.vf := hsame.vf.trans hends.vf
      rw [heq, hvf'] at habs
      exact hvf.ne habs
    obtain ⟨path₂, hsolve₂, hcovers₂, hends₂, hw, hT₂⟩ := solve_limit_t4 ha hne
    rw [hsolve₂] at hneg
    rw [if_pos hlarge, hcovers₂.findPath_eq ha hneg hsolve₂]
    refine ⟨hcovers₂.solves hneg (by rw [hw, habs]), ⟨?_, ?_, ?_⟩, ?_⟩
    · exact hends₂.vi.trans (hsame.vi.trans hends.vi)
    · exact hends₂.vf.trans (hsame.vf.trans hends.vf)
    · exact hends₂.dist.trans (hsame.dist.trans hends.dist)
    · exact hT₂.trans (hbigT.trans hT)
  · rename_i hsmall
    rw [hsolve] at hneg
    have heq := hcovers.findPath_eq ha hneg hsolve
    rw [hfirst, hcheck] at heq
    obtain rfl : first = path' := congrArg Prod.fst heq
    rw [if_neg hsmall]
    exact ⟨hcovers.solves hneg (not_lt.1 hsmall), hends, hT⟩

/-! ## Whatever is found, the problem stays -/

theorem Path.SameEnds.trans {path₁ path₂ path₃ : Path ℝ} (h : path₁.SameEnds path₂)
    (h' : path₂.SameEnds path₃) : path₁.SameEnds path₃ :=
  ⟨h.vi.trans h'.vi, h.vf.trans h'.vf, h.dist.trans h'.dist⟩

theorem solve_same (path : Path ℝ) (a : ℝ) (unknowns : Nat) :
    (solve path a unknowns).1.SameEnds path := by
  unfold solve
  split
  · split
    · exact ⟨rfl, rfl, rfl⟩
    · dsimp only [restOfTimes, Path.withAccelTimes]
      split <;> split <;> split <;> exact ⟨rfl, rfl, rfl⟩
  · split
    · dsimp only [solveTimes, Path.withAccelTimes]
      split
      · split
        · exact ⟨rfl, rfl, rfl⟩
        · split <;> exact ⟨rfl, rfl, rfl⟩
      · split <;> exact ⟨rfl, rfl, rfl⟩
    · exact ⟨rfl, rfl, rfl⟩

theorem findPath_same (path : Path ℝ) (a : ℝ) (unknowns : Nat) :
    (findPath path a unknowns).1.SameEnds path := by
  have hsolve := solve_same path a unknowns
  unfold findPath
  split
  · exact ⟨rfl, rfl, rfl⟩
  · split
    · rename_i heq
      rw [heq] at hsolve
      exact (checkTimes_same _).1.trans hsolve
    · rename_i heq
      rwa [heq] at hsolve

theorem findPathWithVmax_same (path : Path ℝ) (amax vmax : ℝ) (unknown : Nat) :
    (findPathWithVmax path amax vmax unknown).1.SameEnds path := by
  have hfirst := findPath_same { path with t2 := 0 } amax (maskV2 ||| unknown)
  have hfirst : (findPath { path with t2 := 0 } amax (maskV2 ||| unknown)).1.SameEnds path :=
    ⟨hfirst.vi, hfirst.vf, hfirst.dist⟩
  unfold findPathWithVmax
  split
  · rename_i first heq
    rw [heq] at hfirst
    split
    · have hlast := findPath_same (first.clamped vmax) amax (maskT2 ||| unknown)
      exact ⟨hlast.vi.trans hfirst.vi, hlast.vf.trans hfirst.vf, hlast.dist.trans hfirst.dist⟩
    · exact hfirst
  · rename_i heq
    rwa [heq] at hfirst

end

end MotorSim
