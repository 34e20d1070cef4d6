import Mathlib.Algebra.Order.BigOperators.Group.List
import Mathlib.Topology.Instances.Real.Lemmas
import Mathlib.Tactic.Linarith
import EpicsIocs.Lib.Motion

/-!
# Motion in phases

Phases of constant acceleration, one before the other: the first of the list is the last in time.
`position` and `speed` are read backward from the end, where the place is `x` and the speed `v`,
at times `t ≤ 0`; before all phases the speed is constant.

Both are continuous (`continuous_speed`, `continuous_position`), and the speed changes by no more
than the accelerations allow (`abs_speed_sub_le`).
-/

namespace Phases

structure Phase (K : Type) where
  accel : K
  duration : K

section
variable {K : Type} [Field K] [LinearOrder K]

def speed : List (Phase K) → K → K → K
  | [], v, _ => v
  | p :: phases, v, t =>
    if -p.duration ≤ t then Motion.speed v p.accel t
    else speed phases (Motion.speed v p.accel (-p.duration)) (t + p.duration)

def position : List (Phase K) → K → K → K → K
  | [], x, v, t => x + v * t
  | p :: phases, x, v, t =>
    if -p.duration ≤ t then Motion.position x v p.accel t
    else position phases (Motion.position x v p.accel (-p.duration))
      (Motion.speed v p.accel (-p.duration)) (t + p.duration)

def total (phases : List (Phase K)) : K := (phases.map Phase.duration).sum

/-- The speed before the phases. -/
def startSpeed : List (Phase K) → K → K
  | [], v => v
  | p :: phases, v => startSpeed phases (Motion.speed v p.accel (-p.duration))

/-- The place where they start. -/
def startPosition : List (Phase K) → K → K → K
  | [], x, _ => x
  | p :: phases, x, v => startPosition phases (Motion.position x v p.accel (-p.duration))
      (Motion.speed v p.accel (-p.duration))

def Proper (phases : List (Phase K)) : Prop := ∀ p ∈ phases, 0 ≤ p.duration

theorem Proper.cons {p : Phase K} {phases : List (Phase K)} (h : Proper (p :: phases)) :
    0 ≤ p.duration ∧ Proper phases := List.forall_mem_cons.1 h

variable [IsStrictOrderedRing K] {phases : List (Phase K)}

theorem total_nonneg (h : Proper phases) : 0 ≤ total phases := by
  refine List.sum_nonneg fun d hd => ?_
  obtain ⟨p, hp, rfl⟩ := List.mem_map.1 hd
  exact h p hp

theorem speed_end (h : Proper phases) (v : K) : speed phases v 0 = v := by
  cases phases with
  | nil => rfl
  | cons p phases =>
    have hd : -p.duration ≤ 0 := neg_nonpos.2 h.cons.1
    rw [speed, if_pos hd, Motion.speed_zero]

theorem position_end (h : Proper phases) (x v : K) : position phases x v 0 = x := by
  cases phases with
  | nil => simp [position]
  | cons p phases =>
    have hd : -p.duration ≤ 0 := neg_nonpos.2 h.cons.1
    rw [position, if_pos hd, Motion.position_zero]

/-- A phase and what is before it agree where they meet. -/
theorem speed_cons (p : Phase K) (h : Proper phases) (v : K) {t : K} (ht : t ≤ -p.duration) :
    speed (p :: phases) v t =
      speed phases (Motion.speed v p.accel (-p.duration)) (t + p.duration) := by
  rw [speed]
  split
  · have ht : t = -p.duration := le_antisymm ht ‹_›
    rw [ht, neg_add_cancel, speed_end h]
  · rfl

theorem position_cons (p : Phase K) (h : Proper phases) (x v : K) {t : K}
    (ht : t ≤ -p.duration) :
    position (p :: phases) x v t = position phases (Motion.position x v p.accel (-p.duration))
      (Motion.speed v p.accel (-p.duration)) (t + p.duration) := by
  rw [position]
  split
  · have ht : t = -p.duration := le_antisymm ht ‹_›
    rw [ht, neg_add_cancel, position_end h]
  · rfl

theorem speed_start (h : Proper phases) (v : K) :
    speed phases v (-total phases) = startSpeed phases v := by
  induction phases generalizing v with
  | nil => rfl
  | cons p phases ih =>
    have htotal : -total (p :: phases) + p.duration = -total phases := by
      simp only [total, List.map_cons, List.sum_cons]
      ring
    have hle : -total (p :: phases) ≤ -p.duration := by
      have := total_nonneg h.cons.2
      linarith
    rw [speed_cons p h.cons.2 v hle, htotal]
    exact ih h.cons.2 _

theorem position_start (h : Proper phases) (x v : K) :
    position phases x v (-total phases) = startPosition phases x v := by
  induction phases generalizing x v with
  | nil => simp [position, startPosition, total]
  | cons p phases ih =>
    have htotal : -total (p :: phases) + p.duration = -total phases := by
      simp only [total, List.map_cons, List.sum_cons]
      ring
    have hle : -total (p :: phases) ≤ -p.duration := by
      have := total_nonneg h.cons.2
      linarith
    rw [position_cons p h.cons.2 x v hle, htotal]
    exact ih h.cons.2 _ _

/-- The speed changes by no more than the accelerations allow. -/
theorem abs_speed_sub_le {bound : K} (hbound : 0 ≤ bound) (h : Proper phases)
    (ha : ∀ p ∈ phases, |p.accel| ≤ bound) (v : K) {s t : K} (hst : s ≤ t) :
    |speed phases v t - speed phases v s| ≤ bound * (t - s) := by
  induction phases generalizing v s t with
  | nil =>
    rw [speed, speed, sub_self, abs_zero]
    exact mul_nonneg hbound (sub_nonneg.2 hst)
  | cons p phases ih =>
    obtain ⟨hp, hphases⟩ := List.forall_mem_cons.1 ha
    have hinside : ∀ s t, s ≤ t → |Motion.speed v p.accel t - Motion.speed v p.accel s| ≤
        bound * (t - s) := by
      intro s t hst
      have heq : Motion.speed v p.accel t - Motion.speed v p.accel s = p.accel * (t - s) := by
        rw [Motion.speed, Motion.speed]
        ring
      rw [heq, abs_mul, abs_of_nonneg (sub_nonneg.2 hst)]
      exact mul_le_mul_of_nonneg_right hp (sub_nonneg.2 hst)
    rcases le_total (-p.duration) s with hs | hs
    · rw [speed, speed, if_pos hs, if_pos (hs.trans hst)]
      exact hinside s t hst
    rw [speed_cons p h.cons.2 v hs]
    rcases le_total (-p.duration) t with ht | ht
    · -- the phase from its start on, and what is before it up to there
      have hbefore := ih h.cons.2 hphases (Motion.speed v p.accel (-p.duration))
        (by linarith : s + p.duration ≤ 0)
      rw [speed_end h.cons.2] at hbefore
      rw [speed, if_pos ht]
      calc |Motion.speed v p.accel t - _|
          ≤ |Motion.speed v p.accel t - Motion.speed v p.accel (-p.duration)| +
            |Motion.speed v p.accel (-p.duration) - _| := abs_sub_le _ _ _
        _ ≤ bound * (t - -p.duration) + bound * (0 - (s + p.duration)) :=
          add_le_add (hinside _ _ ht) hbefore
        _ = bound * (t - s) := by ring
    · rw [speed_cons p h.cons.2 v ht]
      have hrest := ih h.cons.2 hphases (Motion.speed v p.accel (-p.duration))
        (add_le_add_left hst p.duration)
      rwa [add_sub_add_right_eq_sub] at hrest

end

/-! ## Continuity -/

variable {phases : List (Phase ℝ)}

theorem continuous_speed (h : Proper phases) (v : ℝ) : Continuous (speed phases v) := by
  induction phases generalizing v with
  | nil => exact continuous_const
  | cons p phases ih =>
    have hhere : Continuous fun t => Motion.speed v p.accel t := by
      unfold Motion.speed
      fun_prop
    have hbefore := (ih h.cons.2 (Motion.speed v p.accel (-p.duration))).comp
      (continuous_add_const p.duration)
    refine Continuous.if_le hhere hbefore continuous_const continuous_id ?_
    intro t ht
    have ht : t = -p.duration := ht.symm
    rw [ht, neg_add_cancel, speed_end h.cons.2]

theorem continuous_position (h : Proper phases) (x v : ℝ) : Continuous (position phases x v) := by
  induction phases generalizing x v with
  | nil =>
    show Continuous fun t => x + v * t
    fun_prop
  | cons p phases ih =>
    have hhere : Continuous fun t => Motion.position x v p.accel t := by
      unfold Motion.position
      fun_prop
    have hbefore := (ih h.cons.2 (Motion.position x v p.accel (-p.duration))
      (Motion.speed v p.accel (-p.duration))).comp (continuous_add_const p.duration)
    refine Continuous.if_le hhere hbefore continuous_const continuous_id ?_
    intro t ht
    have ht : t = -p.duration := ht.symm
    rw [ht, neg_add_cancel, position_end h.cons.2]

end Phases
