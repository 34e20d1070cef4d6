import EpicsIocs.Lib.Steps
import EpicsIocs.MotorSim.Solver

/-! # The trajectory of a driven route

A route is driven by `setParams` and `find` calls.  Beside it stands the plan of the path it holds:
the demand it was computed at, the end demand, and the limits then in force.

Two tolerances of `find` let a path differ from its plan: the old path is kept for an end demand
that is almost the same, and in a short path a time just below zero is taken for zero.  As long as
neither does any work for the path held, it is admissible (`find_admissible`). -/

namespace MotorSim

open scoped Numerals

/-- What a path was computed for. -/
structure Plan where
  start : Demand ℝ
  endp : Demand ℝ
  amax : ℝ
  vmax : ℝ

/-- `exact`: no tolerance did any work for the path. -/
structure Driven where
  route : Route ℝ
  plan : Plan
  exact : Prop

inductive Call where
  | setParams (amax vmax : ℝ)
  | find (reroute : Reroute) (endp nextp : Demand ℝ)

/-- The call's own part: the path is kept for the same end demand only, and in a new short one that
is accepted no time was below zero. -/
def Sharp (r : Route ℝ) (reroute : Reroute) (endp nextp : Demand ℝ) : Prop :=
  (r.oldPathOk reroute endp → endp = r.endp) ∧
    (reroute ≠ .new ∧ endp.t ≤ nextp.t →
      (findPathWithVmax (r.request endp) r.amax r.vmax maskT4).2 = .ok →
      ¬ r.oldPathOk reroute endp →
      ¬ (solved (r.request endp) r.amax r.vmax maskT4).SomeNegative)

namespace Driven

open Classical in
noncomputable def call (d : Driven) : Call → Driven
  | .setParams amax vmax => { d with route := (d.route.setParams amax vmax).1 }
  | .find reroute endp nextp =>
    let found := d.route.find reroute endp nextp
    { route := found.route
      plan := if d.route.oldPathOk reroute endp then d.plan
        else ⟨d.route.demand, found.endp, d.route.amax, d.route.vmax⟩
      exact := Sharp d.route reroute endp nextp ∧ (d.route.oldPathOk reroute endp → d.exact) }

/-- What the driver keeps to: it routes, and the end speed is below the limit. -/
def Fair (d : Driven) : Call → Prop
  | .setParams _ _ => True
  | .find reroute endp _ => reroute ≠ .off ∧ |endp.v| < d.route.vmax

/-- A new route under way to where it is. -/
def Fresh (d : Driven) : Prop :=
  ∃ demand amax vmax, Route.new demand amax vmax = some d.route ∧
    d.plan = ⟨demand, demand, amax, vmax⟩

end Driven

/-- Routes and how they are driven. -/
noncomputable def driving : Steps.System Driven Call where
  init := Driven.Fresh
  step d c d' := d' = d.call c

/-! ## Admissible paths -/

/-- Position and speed at a time, on a path to an end demand. -/
noncomputable def demandAt (path : Path ℝ) (endp : Demand ℝ) (t : ℝ) : ℝ × ℝ :=
  ((routeDemand path (t - endp.t)).1 + endp.p, (routeDemand path (t - endp.t)).2)

/-- A path is what it was planned to be. -/
structure Admissible (path : Path ℝ) (plan : Plan) : Prop where
  t1_nonneg : 0 ≤ path.t1
  t2_nonneg : 0 ≤ path.t2
  t3_nonneg : 0 ≤ path.t3
  t4_nonneg : 0 ≤ path.t4
  total : path.t1 + path.t2 + path.t3 + path.t4 = path.bigT
  bigT : path.bigT = plan.endp.t - plan.start.t
  v2_le : |path.v2| ≤ plan.vmax
  distance : (path.vi + path.v2) / 2 * path.t1 + path.v2 * path.t2 +
    (path.v2 + path.vf) / 2 * path.t3 + path.vf * path.t4 = plan.endp.p - plan.start.p
  continuous_position : ContinuousOn (fun t => (demandAt path plan.endp t).1) (Set.Ici plan.start.t)
  continuous_speed : ContinuousOn (fun t => (demandAt path plan.endp t).2) (Set.Ici plan.start.t)
  speed_change : ∀ s t, plan.start.t ≤ s → s ≤ t →
    |(demandAt path plan.endp t).2 - (demandAt path plan.endp s).2| ≤ plan.amax * (t - s)
  start : demandAt path plan.endp plan.start.t = (plan.start.p, plan.start.v)
  finish : demandAt path plan.endp plan.endp.t = (plan.endp.p, plan.endp.v)

/-- A route is on its plan. -/
structure OnPlan (path : Path ℝ) (plan : Plan) : Prop where
  amax_pos : 0 < plan.amax
  solves : Solves path plan.amax plan.vmax
  vi : path.vi = plan.start.v
  vf : path.vf = plan.endp.v
  dist : path.dist = plan.endp.p - plan.start.p
  bigT : path.bigT = plan.endp.t - plan.start.t

namespace OnPlan

variable {path : Path ℝ} {plan : Plan}

/-- From the start on, the demand is the motion in the path's phases. -/
theorem demandAt_eq (h : OnPlan path plan) {t : ℝ} (ht : plan.start.t ≤ t) :
    demandAt path plan.endp t =
      (Phases.position path.phases 0 path.vf (t - plan.endp.t) + plan.endp.p,
        Phases.speed path.phases path.vf (t - plan.endp.t)) := by
  have hback : -path.bigT ≤ t - plan.endp.t := by
    rw [h.bigT]
    linarith
  rw [demandAt, h.solves.routeDemand_eq hback]

theorem start_le (h : OnPlan path plan) : plan.start.t ≤ plan.endp.t := by
  have hT : 0 ≤ path.bigT := by
    rw [← h.solves.total_phases]
    exact Phases.total_nonneg h.solves.proper
  rw [h.bigT] at hT
  linarith

theorem demandAt_start (h : OnPlan path plan) :
    demandAt path plan.endp plan.start.t = (plan.start.p, plan.start.v) := by
  have hback : plan.start.t - plan.endp.t = -Phases.total path.phases := by
    rw [h.solves.total_phases, h.bigT]
    ring
  rw [h.demandAt_eq le_rfl, hback, Phases.position_start h.solves.proper,
    Phases.speed_start h.solves.proper, h.solves.startPosition, h.solves.startSpeed, h.dist, h.vi]
  congr 1
  ring

theorem demandAt_end (h : OnPlan path plan) :
    demandAt path plan.endp plan.endp.t = (plan.endp.p, plan.endp.v) := by
  rw [h.demandAt_eq h.start_le, sub_self, Phases.position_end h.solves.proper,
    Phases.speed_end h.solves.proper, zero_add, h.vf]

theorem admissible (h : OnPlan path plan) : Admissible path plan where
  t1_nonneg := h.solves.t1_nonneg
  t2_nonneg := h.solves.t2_nonneg
  t3_nonneg := h.solves.t3_nonneg
  t4_nonneg := h.solves.t4_nonneg
  total := h.solves.total
  bigT := h.bigT
  v2_le := h.solves.v2_le
  distance := h.solves.distance.trans h.dist
  continuous_position := by
    have hposition : Continuous fun t =>
        Phases.position path.phases 0 path.vf (t - plan.endp.t) + plan.endp.p :=
      ((Phases.continuous_position h.solves.proper 0 path.vf).comp
        (continuous_sub_right plan.endp.t)).add_const plan.endp.p
    refine hposition.continuousOn.congr fun t ht => ?_
    exact congrArg Prod.fst (h.demandAt_eq ht)
  continuous_speed := by
    have hspeed : Continuous fun t => Phases.speed path.phases path.vf (t - plan.endp.t) :=
      (Phases.continuous_speed h.solves.proper path.vf).comp (continuous_sub_right plan.endp.t)
    refine hspeed.continuousOn.congr fun t ht => ?_
    exact congrArg Prod.snd (h.demandAt_eq ht)
  speed_change := by
    intro s t hs hst
    have hbound := Phases.abs_speed_sub_le h.amax_pos.le h.solves.proper
      (h.solves.accel_le h.amax_pos.le) path.vf (sub_le_sub_right hst plan.endp.t)
    rw [sub_sub_sub_cancel_right] at hbound
    rw [h.demandAt_eq hs, h.demandAt_eq (hs.trans hst)]
    exact hbound
  start := h.demandAt_start
  finish := h.demandAt_end

end OnPlan

/-! ## What a call leaves -/

namespace Route

variable {r : Route ℝ} {reroute : Reroute} {endp nextp : Demand ℝ}

/-- A new path is always found. -/
theorem newPath_ok (nextT : ℝ) (reroute : Reroute) (ha : 0 < r.amax) (hv : |endp.v| < r.vmax) :
    ∃ path t, r.newPath reroute endp nextT = (path, .ok, t) ∧
      ((reroute ≠ .new ∧ endp.t ≤ nextT →
          (findPathWithVmax (r.request endp) r.amax r.vmax maskT4).2 = .ok →
          ¬ (solved (r.request endp) r.amax r.vmax maskT4).SomeNegative) →
        Solves path r.amax r.vmax ∧ path.SameEnds (r.request endp) ∧
          path.bigT = t - r.demand.t) := by
  unfold newPath
  dsimp only
  by_cases hshort : (reroute ≠ .new ∧ endp.t ≤ nextT) ∧
      (findPathWithVmax (r.request endp) r.amax r.vmax maskT4).2 = .ok
  · rw [if_pos hshort]
    refine ⟨_, _, rfl, fun hexact => ?_⟩
    exact find_t4 ha hv hshort.2 (hexact hshort.1 hshort.2)
  · rw [if_neg hshort]
    generalize hstart : (if reroute ≠ .new ∧ endp.t ≤ nextT then
      (findPathWithVmax (r.request endp) r.amax r.vmax maskT4).1 else r.request endp) = start
    have hends : start.SameEnds (r.request endp) := by
      rw [← hstart]
      split
      · exact findPathWithVmax_same _ _ _ _
      · exact ⟨rfl, rfl, rfl⟩
    have hvf : |start.vf| < r.vmax := by rwa [hends.vf]
    obtain ⟨path, hfind, hsolves, hsame⟩ := @find_t { start with t4 := 0 } _ _ ha hvf rfl
    rw [hfind]
    refine ⟨path, _, rfl, fun _ => ⟨hsolves, ?_, ?_⟩⟩
    · exact ⟨hsame.vi.trans hends.vi, hsame.vf.trans hends.vf, hsame.dist.trans hends.dist⟩
    · have hstatus : ¬ Status.ok = .badParam := by decide
      rw [if_neg hstatus]
      ring

theorem find_kept (hoff : reroute ≠ .off) (hold : r.oldPathOk reroute endp) :
    r.find reroute endp nextp = r.evaluate r.path endp nextp.t .ok := by
  rw [find, if_neg hoff, if_pos hold]

theorem find_new (hoff : reroute ≠ .off) (hold : ¬ r.oldPathOk reroute endp) {path : Path ℝ}
    {t : ℝ} (hpath : r.newPath reroute endp nextp.t = (path, .ok, t)) :
    r.find reroute endp nextp = r.evaluate path { endp with t } nextp.t .ok := by
  have hstatus : ¬ Status.ok = .badParam := by decide
  rw [find, if_neg hoff, if_neg hold, hpath]
  exact if_neg hstatus

end Route

namespace Driven

variable {d : Driven} {reroute : Reroute} {endp nextp : Demand ℝ}

/-- While no tolerance does any work, the route is on its plan. -/
structure Inv (d : Driven) : Prop where
  amax_pos : 0 < d.route.amax
  onPlan : d.exact → OnPlan d.route.path d.plan
  endp : d.exact → d.route.endp = d.plan.endp
  demand : d.exact → demandAt d.route.path d.plan.endp d.route.demand.t =
    (d.route.demand.p, d.route.demand.v)

theorem Fresh.inv (h : d.Fresh) : d.Inv := by
  obtain ⟨route, plan, exact⟩ := d
  obtain ⟨demand, amax, vmax, hnew, hplan⟩ := h
  unfold Route.new at hnew
  obtain ⟨⟨hamax, hvmax, hv⟩, hroute⟩ := Option.ite_none_right_eq_some.1 hnew
  obtain rfl := Option.some.inj hroute
  dsimp only at hplan
  subst hplan
  have hcovers : Covers ⟨0, demand.v, demand.v, demand.v, 0, 0, 0, 0, 0⟩ amax := by
    constructor <;> simp [Path.sum]
  have honPlan : OnPlan ⟨0, demand.v, demand.v, demand.v, 0, 0, 0, 0, 0⟩
      ⟨demand, demand, amax, vmax⟩ := by
    refine ⟨hamax, ⟨hcovers, le_rfl, le_rfl, le_rfl, le_rfl, hv.le⟩, rfl, rfl, ?_, ?_⟩
    · exact (sub_self demand.p).symm
    · exact (sub_self demand.t).symm
  exact ⟨hamax, fun _ => honPlan, fun _ => rfl, fun _ => honPlan.demandAt_start⟩

theorem Inv.setParams (h : d.Inv) (amax vmax : ℝ) : (d.call (.setParams amax vmax)).Inv := by
  dsimp only [call, Route.setParams]
  split
  · rename_i hok
    exact ⟨hok.1, h.onPlan, h.endp, h.demand⟩
  · exact h

end Driven

/-- The call's demands are on the path to the plan's end: the one it gives, and the one before. -/
structure Follows (found : Route.Found ℝ) (plan : Plan) (before endp nextp : Demand ℝ) : Prop where
  plan_endp : plan.endp = found.endp
  route_endp : found.route.endp = found.endp
  endp_p : found.endp.p = endp.p
  endp_v : found.endp.v = endp.v
  before : demandAt found.route.path found.endp before.t = (before.p, before.v)
  route_demand : found.route.demand = found.nextp
  nextp_t : found.nextp.t = nextp.t
  nextp_eq : demandAt found.route.path found.endp nextp.t = (found.nextp.p, found.nextp.v)

namespace Driven

variable {d : Driven} {reroute : Reroute} {endp nextp : Demand ℝ}

/-- A call that keeps the path. -/
theorem Inv.kept (h : d.Inv) (hoff : reroute ≠ .off) (hold : d.route.oldPathOk reroute endp)
    (hexact : (d.call (.find reroute endp nextp)).exact) :
    OnPlan (d.route.find reroute endp nextp).route.path
        (d.call (.find reroute endp nextp)).plan ∧
      Follows (d.route.find reroute endp nextp) (d.call (.find reroute endp nextp)).plan
        d.route.demand endp nextp := by
  obtain ⟨⟨hsame, -⟩, hbefore⟩ := hexact
  have hexact := hbefore hold
  obtain rfl := hsame hold
  have hplan : (d.call (.find reroute d.route.endp nextp)).plan = d.plan := if_pos hold
  have hendp := h.endp hexact
  have hdemand := h.demand hexact
  rw [← hendp] at hdemand
  rw [hplan, Route.find_kept hoff hold]
  exact ⟨h.onPlan hexact, hendp.symm, rfl, rfl, rfl, hdemand, rfl, rfl, rfl⟩

/-- A call that finds a new one. -/
theorem Inv.new (h : d.Inv) (hoff : reroute ≠ .off) (hv : |endp.v| < d.route.vmax)
    (hold : ¬ d.route.oldPathOk reroute endp)
    (hexact : (d.call (.find reroute endp nextp)).exact) :
    OnPlan (d.route.find reroute endp nextp).route.path
        (d.call (.find reroute endp nextp)).plan ∧
      Follows (d.route.find reroute endp nextp) (d.call (.find reroute endp nextp)).plan
        d.route.demand endp nextp := by
  obtain ⟨⟨-, hshort⟩, -⟩ := hexact
  obtain ⟨path, t, hpath, hsolves⟩ := Route.newPath_ok nextp.t reroute h.amax_pos hv
  obtain ⟨hsolves, hends, hT⟩ := hsolves fun hasked hok => hshort hasked hok hold
  have hfind := Route.find_new hoff hold hpath
  have hplan : (d.call (.find reroute endp nextp)).plan =
      ⟨d.route.demand, (d.route.find reroute endp nextp).endp, d.route.amax, d.route.vmax⟩ :=
    if_neg hold
  rw [hplan, hfind]
  have honPlan : OnPlan path
      ⟨d.route.demand, { endp with t }, d.route.amax, d.route.vmax⟩ :=
    ⟨h.amax_pos, hsolves, hends.vi, hends.vf, hends.dist, hT⟩
  exact ⟨honPlan, rfl, rfl, rfl, rfl, honPlan.demandAt_start, rfl, rfl, rfl⟩

theorem Inv.follows (h : d.Inv) (hfair : d.Fair (.find reroute endp nextp))
    (hexact : (d.call (.find reroute endp nextp)).exact) :
    OnPlan (d.route.find reroute endp nextp).route.path
        (d.call (.find reroute endp nextp)).plan ∧
      Follows (d.route.find reroute endp nextp) (d.call (.find reroute endp nextp)).plan
        d.route.demand endp nextp := by
  by_cases hold : d.route.oldPathOk reroute endp
  · exact h.kept hfair.1 hold hexact
  · exact h.new hfair.1 hfair.2 hold hexact

/-- It is never refused. -/
theorem Inv.status_ok (h : d.Inv) (hfair : d.Fair (.find reroute endp nextp)) :
    (d.route.find reroute endp nextp).status = .ok ∧
      (d.route.find reroute endp nextp).route.amax = d.route.amax := by
  by_cases hold : d.route.oldPathOk reroute endp
  · rw [Route.find_kept hfair.1 hold]
    exact ⟨rfl, rfl⟩
  · obtain ⟨path, t, hpath, -⟩ := Route.newPath_ok nextp.t reroute h.amax_pos hfair.2
    rw [Route.find_new hfair.1 hold hpath]
    exact ⟨rfl, rfl⟩

theorem Inv.find (h : d.Inv) (hfair : d.Fair (.find reroute endp nextp)) :
    (d.call (.find reroute endp nextp)).Inv := by
  refine ⟨?_, ?_, ?_, ?_⟩
  · rw [show (d.call (.find reroute endp nextp)).route.amax = d.route.amax from
      (h.status_ok hfair).2]
    exact h.amax_pos
  all_goals intro hexact; obtain ⟨honPlan, hfollows⟩ := h.follows hfair hexact
  · exact honPlan
  · exact hfollows.route_endp.trans hfollows.plan_endp.symm
  · have hdemand := hfollows.nextp_eq
    rw [← hfollows.nextp_t, ← hfollows.route_demand, ← hfollows.plan_endp] at hdemand
    exact hdemand

theorem Inv.call (h : d.Inv) {c : Call} (hfair : d.Fair c) : (d.call c).Inv := by
  cases c with
  | setParams amax vmax => exact h.setParams amax vmax
  | find reroute endp nextp => exact h.find hfair

theorem reachable_inv (hd : (driving.restrict Fair).Reachable d) : d.Inv := by
  refine hd.invariant (fun s (hs : s.Fresh) => hs.inv) fun s c t hs hstep => ?_
  obtain ⟨hcall, hfair⟩ := hstep
  obtain rfl := hcall
  exact hs.call hfair

/-- **Every call of a driven route is answered**, and as long as no tolerance did any work for the
path it leaves, the path is admissible and the demands follow it. -/
theorem find_admissible (hd : (driving.restrict Fair).Reachable d)
    (hfair : d.Fair (.find reroute endp nextp)) :
    (d.route.find reroute endp nextp).status = .ok ∧
      ((d.call (.find reroute endp nextp)).exact →
        Admissible (d.route.find reroute endp nextp).route.path
            (d.call (.find reroute endp nextp)).plan ∧
          Follows (d.route.find reroute endp nextp) (d.call (.find reroute endp nextp)).plan
            d.route.demand endp nextp) := by
  have hinv := reachable_inv hd
  refine ⟨(hinv.status_ok hfair).1, fun hexact => ?_⟩
  obtain ⟨honPlan, hfollows⟩ := hinv.follows hfair hexact
  exact ⟨honPlan.admissible, hfollows⟩

end Driven

/-! ## What the tolerances do -/

/-- At rest at 0, with the limits 1 and 2. -/
noncomputable def atRest : Route ℝ :=
  ⟨1, 2, ⟨0, 0, 0⟩, ⟨0, 0, 0⟩, ⟨0, 0, 0, 0, 0, 0, 0, 0, 0⟩⟩

noncomputable def resting : Driven := ⟨atRest, ⟨⟨0, 0, 0⟩, ⟨0, 0, 0⟩, 1, 2⟩, True⟩

theorem resting_reachable : (driving.restrict Driven.Fair).Reachable resting := by
  refine .init ⟨⟨0, 0, 0⟩, 1, 2, ?_, rfl⟩
  rw [Route.new, if_pos (by norm_num)]
  rfl

theorem find_admissible_atRest :
    (atRest.find .new ⟨0, 1, 0⟩ ⟨1, 0, 0⟩).status = .ok ∧
      Admissible (atRest.find .new ⟨0, 1, 0⟩ ⟨1, 0, 0⟩).route.path
        (resting.call (.find .new ⟨0, 1, 0⟩ ⟨1, 0, 0⟩)).plan := by
  have hfair : resting.Fair (.find .new ⟨0, 1, 0⟩ ⟨1, 0, 0⟩) := by
    refine ⟨by decide, ?_⟩
    norm_num [resting, atRest]
  have hold : ¬ resting.route.oldPathOk .new ⟨0, 1, 0⟩ := by
    rintro ⟨⟨hcalc, -⟩, -⟩
    cases hcalc
  have hexact : (resting.call (.find .new ⟨0, 1, 0⟩ ⟨1, 0, 0⟩)).exact :=
    ⟨⟨fun h => absurd h hold, fun h => absurd rfl h.1⟩, fun h => absurd h hold⟩
  have hcall := Driven.find_admissible resting_reachable hfair
  exact ⟨hcall.1, (hcall.2 hexact).1⟩

/-- An end demand almost the one there was: the old path is kept, and misses its speed. -/
theorem kept_atRest : atRest.oldPathOk .calc ⟨0, 0, 1 / 10 ^ 11⟩ := by
  simp only [Route.oldPathOk, isZero, atRest, sub_self, abs_zero, sub_zero]
  refine ⟨⟨trivial, abs_nonneg _⟩, abs_nonneg _, ?_⟩
  norm_num

/-- A move of time 2 asked for a little too soon. -/
noncomputable def soon : Demand ℝ := ⟨2 - epsilon, 1, 0⟩

theorem epsilon_pos : (0 : ℝ) < epsilon := by
  unfold epsilon
  positivity

theorem solve_soon : solve (atRest.request soon) 1 (maskV2 ||| maskT4) =
    (⟨1, 0, 0, 1, 1, 0, 1, -epsilon, 2 - epsilon⟩, .ok) := by
  have hxor : (maskV2 ||| maskT4) ^^^ maskV2 = maskT4 := by decide
  have hv2 : solveV2 (atRest.request soon) 1 maskT4 = some 1 := by
    simp [solveV2, findWhichV2Sqrt, Route.request, atRest, soon, maskT, maskT2, maskT4]
    norm_num
    exact Real.sqrt_one
  rw [solve, if_pos (.inr (.inl rfl)), hxor, hv2]
  simp [restOfTimes, Path.withAccelTimes, Route.request, atRest, soon, maskV2, maskT, maskT2,
    maskT4]
  ring

/-- The time that is missing is taken for zero. -/
theorem check_soon : checkTimes (⟨1, 0, 0, 1, 1, 0, 1, -epsilon, 2 - epsilon⟩ : Path ℝ) =
    (⟨1, 0, 0, 1, 1, 0, 1, 0, 2 - epsilon⟩, .ok) := by
  have hnegative : Path.SomeNegative (⟨1, 0, 0, 1, 1, 0, 1, -epsilon, 2 - epsilon⟩ : Path ℝ) :=
    .inr (.inr (.inr (.inl (neg_lt_zero.2 epsilon_pos))))
  have hone : clearTime 1 (2 - epsilon : ℝ) = 1 := by norm_num [clearTime, isZero, epsilon]
  have hzero : clearTime 0 (2 - epsilon : ℝ) = 0 := by norm_num [clearTime, isZero]
  have hrest : clearTime (-epsilon) (2 - epsilon : ℝ) = 0 := by
    norm_num [clearTime, isZero, epsilon]
  have hcleared : Path.cleared (⟨1, 0, 0, 1, 1, 0, 1, -epsilon, 2 - epsilon⟩ : Path ℝ) =
      ⟨1, 0, 0, 1, 1, 0, 1, 0, 2 - epsilon⟩ := by
    rw [Path.cleared, hone, hzero, hrest]
  have hnone : ¬ Path.SomeNegative (⟨1, 0, 0, 1, 1, 0, 1, 0, 2 - epsilon⟩ : Path ℝ) := by
    norm_num [Path.SomeNegative, epsilon]
  have hsum : isZero (2 - epsilon - (1 + 0 + 1 + 0)) (2 - epsilon : ℝ) := by
    norm_num [isZero, epsilon]
  rw [checkTimes, if_pos hnegative, hcleared]
  dsimp only
  rw [if_neg hnone, checkSum]
  exact congrArg _ (if_pos hsum)

theorem newPath_soon : atRest.newPath .calc soon 2 =
    (⟨1, 0, 0, 1, 1, 0, 1, 0, 2 - epsilon⟩, .ok, 2 - epsilon) := by
  have hshort : findPathWithVmax (atRest.request soon) 1 2 maskT4 =
      (⟨1, 0, 0, 1, 1, 0, 1, 0, 2 - epsilon⟩, .ok) := by
    have hfirst : findPath (atRest.request soon) 1 (maskV2 ||| maskT4) =
        (⟨1, 0, 0, 1, 1, 0, 1, 0, 2 - epsilon⟩, .ok) := by
      rw [findPath, if_neg (by norm_num), solve_soon]
      exact check_soon
    have hslow : ¬ (2 : ℝ) < |1| := by norm_num
    rw [findPathWithVmax, show { atRest.request soon with t2 := 0 } = atRest.request soon from rfl,
      hfirst]
    exact if_neg hslow
  have hasked : (Reroute.calc ≠ .new ∧ soon.t ≤ 2) ∧
      (findPathWithVmax (atRest.request soon) atRest.amax atRest.vmax maskT4).2 = .ok := by
    refine ⟨⟨by decide, (sub_lt_self 2 epsilon_pos).le⟩, ?_⟩
    exact congrArg Prod.snd hshort
  rw [Route.newPath, if_pos hasked]
  exact congrArg (fun found => (found.1, Status.ok, soon.t)) hshort

/-- A path that misses its end speed, and one whose times are not its total. -/
theorem not_always_admissible :
    (driving.restrict Driven.Fair).Reachable resting ∧
    (resting.Fair (.find .calc ⟨0, 0, 1 / 10 ^ 11⟩ ⟨1, 0, 0⟩) ∧
      (atRest.find .calc ⟨0, 0, 1 / 10 ^ 11⟩ ⟨1, 0, 0⟩).status = .ok ∧
      demandAt (atRest.find .calc ⟨0, 0, 1 / 10 ^ 11⟩ ⟨1, 0, 0⟩).route.path ⟨0, 0, 1 / 10 ^ 11⟩ 0 ≠
        (0, 1 / 10 ^ 11)) ∧
    (resting.Fair (.find .calc ⟨2 - epsilon, 1, 0⟩ ⟨2, 0, 0⟩) ∧
      (atRest.find .calc ⟨2 - epsilon, 1, 0⟩ ⟨2, 0, 0⟩).status = .ok ∧
      (atRest.find .calc ⟨2 - epsilon, 1, 0⟩ ⟨2, 0, 0⟩).route.path.sum ≠
        (atRest.find .calc ⟨2 - epsilon, 1, 0⟩ ⟨2, 0, 0⟩).route.path.bigT) := by
  refine ⟨resting_reachable, ⟨⟨by decide, ?_⟩, ?_, ?_⟩, ⟨by decide, ?_⟩, ?_, ?_⟩
  · norm_num [resting, atRest]
  · rw [Route.find_kept (by decide) kept_atRest]
    rfl
  · rw [Route.find_kept (by decide) kept_atRest]
    norm_num [demandAt, routeDemand, Route.evaluate, atRest]
  · norm_num [resting, atRest]
  all_goals
    have hold : ¬ atRest.oldPathOk .calc soon := by
      rintro ⟨⟨-, ht⟩, -⟩
      norm_num [isZero, atRest, soon, epsilon] at ht
    have hfind := @Route.find_new _ _ _ ⟨2, 0, 0⟩ (by decide) hold _ _ newPath_soon
  · exact congrArg Route.Found.status hfind
  · intro hsum
    have hsum : 2 = (2 - epsilon : ℝ) := by
      rw [show (⟨2 - epsilon, 1, 0⟩ : Demand ℝ) = soon from rfl, hfind] at hsum
      norm_num [Path.sum, Route.evaluate] at hsum
      linarith
    linarith [epsilon_pos]

end MotorSim
