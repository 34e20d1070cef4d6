import Mathlib.Algebra.BigOperators.Group.Finset.Basic
import Mathlib.Algebra.Order.Floor.Ring
import Mathlib.Data.Rat.Floor
import EpicsIocs.AcsMotion.ProfileBuild
import EpicsIocs.Lib.Motion

/-! # Builds in exact arithmetic

The arithmetic of an ordered field in place of `f64`, and what a build that succeeds leaves. -/

namespace AcsMotion

open Steps
open scoped Numerals

/-- Rounding goes away from zero, as that of `f64` does. -/
scoped instance {K : Type} [Field K] [LinearOrder K] [FloorRing K] : Double K where
  ofInt n := n
  half := 1 / 2
  tenMs := 1 / 100
  margin := 9 / 10
  abs x := |x|
  max x y := max x y
  isZero x := decide (x = 0)
  round x := if x < 0 then -⌊-x + 1 / 2⌋ else ⌊x + 1 / 2⌋

section
variable {K : Type} [Field K] [LinearOrder K] [FloorRing K]

theorem sum_range (f : Nat → K) (m : Nat) : sum ((List.range m).map f) = ∑ i ∈ Finset.range m, f i := by
  induction m with
  | zero => exact Int.cast_zero
  | succ m ih =>
    rw [Finset.sum_range_succ, ← ih, sum, sum, List.range_succ, List.map_append, List.foldl_append]
    rfl

end

section
variable {F : Type} [Double F] {c : Sizes} {base : Base F} {s : SpiiProfile F} {p : Params F}
  {r : Replies F}

/-- The pulses change nothing of the path. -/
structure SamePath (s w : SpiiProfile F) : Prop where
  profileAxes : s.profileAxes = w.profileAxes
  axes : s.axes = w.axes
  times : s.times = w.times
  fullTimes : s.fullTimes = w.fullTimes
  fullSize : s.fullSize = w.fullSize
  numAccel : s.numAccel = w.numAccel
  numDecel : s.numDecel = w.numDecel

theorem buildPulses_samePath (s : SpiiProfile F) (n pulseAxis : Nat) :
    SamePath (buildPulses c s p r n pulseAxis).1 s := by
  unfold buildPulses
  simp only
  split_ifs
  · exact ⟨rfl, rfl, rfl, rfl, rfl, rfl, rfl⟩
  · cases r.putDoubleArray with
    | error status => exact ⟨rfl, rfl, rfl, rfl, rfl, rfl, rfl⟩
    | ok _ => exact ⟨rfl, rfl, rfl, rfl, rfl, rfl, rfl⟩
  · exact ⟨rfl, rfl, rfl, rfl, rfl, rfl, rfl⟩
  · exact ⟨rfl, rfl, rfl, rfl, rfl, rfl, rfl⟩
  · exact ⟨rfl, rfl, rfl, rfl, rfl, rfl, rfl⟩

/-- The state in which a build with `longest` sets up its pulses. -/
def planned (c : Sizes) (base : Base F) (s : SpiiProfile F) (p : Params F) (longest : F × F) :
    SpiiProfile F :=
  definePulses c (buildAxes (select c (baseBuild base s p) p) p p.numPoints.toNat longest) p
    p.pulseAxis.toNat

theorem planned_samePath (longest : F × F) :
    SamePath (planned c base s p longest)
      (buildAxes (select c (baseBuild base s p) p) p p.numPoints.toNat longest) := by
  rw [planned, definePulses_eq]
  exact ⟨rfl, rfl, rfl, rfl, rfl, rfl, rfl⟩

theorem build_ok (h : (build c base s p r).2.isOk) :
    Accepted c p r ∧ ∃ longest,
      accelPlan (select c (baseBuild base s p) p) p r p.numPoints.toNat = .ok longest ∧
      (build c base s p r).1 = (buildPulses c (planned c base s p longest) p r p.numPoints.toNat
        p.pulseAxis.toNat).1 := by
  cases hout : (buildPath c (baseBuild base s p) p r).2 with
  | error message =>
    rw [build] at h
    dsimp only at h
    rw [hout] at h
    cases h
  | ok out =>
    obtain ⟨hchecked, longest, hplan⟩ := buildPath_ok hout
    exact ⟨accepted_of_ok hout, longest, hplan, congrArg Prod.fst (buildPath_eq hchecked hplan)⟩

end

/-! ## Over the rationals -/

/-- One unit a step and no offset. -/
def unitBase : Base ℚ where
  defineProfile _ _ positions := some fun i => positions.getD i 0
  writeTimes := write 5
  buildProfile p _ i := if i < p.numPoints.toNat then p.timePerPoint else 0

def drive : Replies ℚ where
  query _ _ := .ok 100
  putDoubleArray := .ok ()

end AcsMotion
