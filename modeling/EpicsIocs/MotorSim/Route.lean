import Mathlib.Algebra.Order.Field.Basic
import EpicsIocs.Lib.Phases

/-! # The route solver

`route.rs`: a path of four phases (accelerate to `v2`, coast, go to `vf`, coast at `vf`) takes an
axis from its demand to the end demand.  Two of `v2`, the total time, `t2` and `t4` are solved for;
a path faster than `vmax` is solved again with `v2` at the limit.

The functions are over any ordered field with a square root. -/

namespace MotorSim

open scoped Numerals

class HasSqrt (K : Type) where
  sqrt : K → K

/-! ## Data -/

inductive Status where
  | ok
  | badParam
  | negTime
  deriving DecidableEq, Repr

/-- `f64::EPSILON` is `2⁻⁵²`. -/
def epsilon {K : Type} [Field K] : K := 1 / 2 ^ 52

/-- The unknowns bit mask. -/
def maskV2 : Nat := 1
def maskT : Nat := 2
def maskT2 : Nat := 4
def maskT4 : Nat := 8

/-- `bigT` is the total time. -/
structure Path (K : Type) where
  dist : K
  vi : K
  vf : K
  v2 : K
  t1 : K
  t2 : K
  t3 : K
  t4 : K
  bigT : K

/-- Position and speed at a time. -/
structure Demand (K : Type) where
  t : K
  p : K
  v : K

inductive Reroute where
  | new
  | off
  | calc
  deriving DecidableEq, Repr

structure Route (K : Type) where
  amax : K
  vmax : K
  demand : Demand K
  endp : Demand K
  path : Path K

section
variable {K : Type} [Field K] [LinearOrder K]

def isZero (a scale : K) : Prop := |a| ≤ |2 * epsilon * scale|

instance (a scale : K) : Decidable (isZero a scale) := by
  unfold isZero
  infer_instance

/-- At `t` from the end, which is at 0: backward through the phases. -/
def routeDemand (path : Path K) (t : K) : K × K :=
  let accel1 := if path.t1 ≠ 0 then (path.v2 - path.vi) / path.t1 else 0
  let accel2 := if path.t3 ≠ 0 then (path.vf - path.v2) / path.t3 else 0
  if -path.t4 ≤ t then (path.vf * t, path.vf)
  else
    let t := t + path.t4
    let p := -path.vf * path.t4
    if -path.t3 ≤ t then
      let v := path.vf + accel2 * t
      (p + 1 / 2 * (v + path.vf) * t, v)
    else
      let t := t + path.t3
      let p := p - 1 / 2 * (path.v2 + path.vf) * path.t3
      if -path.t2 ≤ t then (p + path.v2 * t, path.v2)
      else
        let t := t + path.t2
        let p := p - path.v2 * path.t2
        if -path.t1 ≤ t then
          let v := path.v2 + accel1 * t
          (p + 1 / 2 * (v + path.v2) * t, v)
        else
          -- before the path: `t2` stands here for `t1`, as in the original
          (p + (1 / 2 * (path.vi + path.v2) * path.t2 + (t + path.t1) * path.vi), path.vi)

/-! ## Solving for a path -/

/-- Times below zero by no more than the tolerance become zero. -/
def clearTime (t scale : K) : K := if isZero t scale then 0 else t

def floorTime (t : K) : K := if t < 0 then 0 else t

namespace Path

def sum (path : Path K) : K := path.t1 + path.t2 + path.t3 + path.t4

def SomeNegative (path : Path K) : Prop :=
  path.t1 < 0 ∨ path.t2 < 0 ∨ path.t3 < 0 ∨ path.t4 < 0 ∨ path.bigT < 0

instance (path : Path K) : Decidable path.SomeNegative := by
  unfold SomeNegative
  infer_instance

def cleared (path : Path K) : Path K :=
  { path with
    t1 := clearTime path.t1 path.bigT
    t2 := clearTime path.t2 path.bigT
    t3 := clearTime path.t3 path.bigT
    t4 := clearTime path.t4 path.bigT }

def floored (path : Path K) : Path K :=
  { path with
    t1 := floorTime path.t1
    t2 := floorTime path.t2
    t3 := floorTime path.t3
    t4 := floorTime path.t4
    bigT := floorTime path.bigT }

end Path

/-- The times add up to the total. -/
def checkSum (path : Path K) : Path K × Status :=
  (path, if isZero (path.bigT - path.sum) path.bigT then .ok else .negTime)

/-- The tests behind the solution. -/
def checkTimes (path : Path K) : Path K × Status :=
  if path.SomeNegative then
    let path := path.cleared
    if path.SomeNegative then (path.floored, .negTime) else checkSum path
  else checkSum path

section
variable [HasSqrt K]

def findWhichV2Sqrt (ai linTerm sqrtTerm : K) (unknown : Nat) : K :=
  let sqrtTerm := HasSqrt.sqrt (if sqrtTerm < 0 then 0 else sqrtTerm)
  if unknown = maskT2 then if 0 < ai then linTerm - sqrtTerm else linTerm + sqrtTerm
  else if 0 < ai then linTerm + sqrtTerm else linTerm - sqrtTerm

/-- `v2`, with one more unknown. -/
def solveV2 (path : Path K) (accel : K) (known : Nat) : Option K :=
  let minAccelTime := |(path.vi - path.vf) / accel|
  let terms : Option (K × K) :=
    if known = maskT then
      some (1 / 2 * (path.vi + path.vf) * minAccelTime + path.vf * path.t4, path.t2)
    else if known = maskT4 then
      some (1 / 2 * (path.vi + path.vf) * minAccelTime +
        path.vf * (path.bigT - path.t2 - minAccelTime), path.t2)
    else if known = maskT2 then
      some (1 / 2 * (path.vi + path.vf) * minAccelTime + path.vf * path.t4,
        path.bigT - path.t4 - minAccelTime)
    else none
  terms.map fun (minNotT2Dist, maxT2Time) =>
    let viDist := minNotT2Dist + path.vi * maxT2Time
    let vfDist := minNotT2Dist + path.vf * maxT2Time
    if path.dist = viDist then path.vi
    else if path.dist = vfDist then path.vf
    else if (path.dist < viDist ∧ path.dist > vfDist) ∨
        (path.dist > viDist ∧ path.dist < vfDist) then
      let ai := if path.vf > path.vi then accel else -accel
      if known = maskT4 then
        (path.dist + 1 / 2 * (path.vi - path.vf) * (path.vi - path.vf) / ai -
          path.vf * (path.bigT - path.t2)) / maxT2Time
      else
        (path.dist + 1 / 2 * (path.vi * path.vi - path.vf * path.vf) / ai -
          path.vf * path.t4) / maxT2Time
    else
      let ai := if path.dist < viDist ∧ path.dist < vfDist then -accel else accel
      let (linTerm, sqrtTerm) :=
        if known = maskT then
          let s := 1 / 2 * path.t2 * ai
          (-(1 / 2) * ai * path.t2,
            s * s + 1 / 2 * (path.vi * path.vi + path.vf * path.vf) +
              ai * (path.dist - path.vf * path.t4))
        else if known = maskT4 then
          let s := 1 / 2 * ai * path.t2
          (path.vf - 1 / 2 * ai * path.t2,
            s * s + 1 / 2 * (path.vi - path.vf) * (path.vi - path.vf) +
              ai * (path.dist - path.vf * path.bigT))
        else
          let lin := 1 / 2 * (ai * (path.bigT - path.t4) + path.vi + path.vf)
          (lin, lin * lin - 1 / 2 * (path.vi * path.vi + path.vf * path.vf) -
            ai * (path.dist - path.vf * path.t4))
      findWhichV2Sqrt ai linTerm sqrtTerm known

end

/-- The times to reach `v2` and `vf` by. -/
def Path.withAccelTimes (path : Path K) (accel : K) : Path K :=
  { path with
    t1 := |(path.v2 - path.vi) / accel|
    t3 := |(path.vf - path.v2) / accel| }

/-- The other unknown, where `v2` was one. -/
def restOfTimes (path : Path K) (unknowns : Nat) : Path K :=
  let path := if unknowns &&& maskT ≠ 0 then
    { path with bigT := path.t1 + path.t2 + path.t3 + path.t4 } else path
  let path := if unknowns &&& maskT4 ≠ 0 then
    { path with t4 := path.bigT - (path.t1 + path.t2 + path.t3) } else path
  if unknowns &&& maskT2 ≠ 0 then
    { path with t2 := path.bigT - (path.t1 + path.t3 + path.t4) } else path

/-- Both unknowns, where `v2` is known. -/
def solveTimes (path : Path K) (unknowns : Nat) : Path K × Status :=
  let dist := path.dist -
    1 / 2 * ((path.vi + path.v2) * path.t1 + (path.v2 + path.vf) * path.t3)
  if unknowns &&& maskT ≠ 0 then
    let (path, status) : Path K × Status :=
      if unknowns &&& maskT4 ≠ 0 ∧ path.vf ≠ 0 then
        ({ path with t4 := (dist - path.v2 * path.t2) / path.vf }, .ok)
      else if unknowns &&& maskT2 ≠ 0 ∧ path.v2 ≠ 0 then
        ({ path with t2 := (dist - path.vf * path.t4) / path.v2 }, .ok)
      else (path, .badParam)
    ({ path with bigT := path.t1 + path.t2 + path.t3 + path.t4 }, status)
  else if path.v2 ≠ path.vf then
    let t2 := (dist - path.vf * (path.bigT - path.t1 - path.t3)) / (path.v2 - path.vf)
    ({ path with t2, t4 := path.bigT - path.t1 - t2 - path.t3 }, .ok)
  else (path, .badParam)

variable [HasSqrt K]

/-- The solution, before its times are looked at. -/
def solve (path : Path K) (accel : K) (unknowns : Nat) : Path K × Status :=
  if unknowns = maskV2 ||| maskT ∨ unknowns = maskV2 ||| maskT4 ∨
      unknowns = maskV2 ||| maskT2 then
    match solveV2 path accel (unknowns ^^^ maskV2) with
    | none => (path, .badParam)
    | some v2 => (restOfTimes ({ path with v2 }.withAccelTimes accel) unknowns, .ok)
  else if unknowns = maskT ||| maskT4 ∨ unknowns = maskT ||| maskT2 ∨
      unknowns = maskT2 ||| maskT4 then
    solveTimes (path.withAccelTimes accel) unknowns
  else (path, .badParam)

def findPath (path : Path K) (accel : K) (unknowns : Nat) : Path K × Status :=
  if accel ≤ 0 then (path, .badParam)
  else
    match solve path accel unknowns with
    | (path, .ok) => checkTimes path
    | (path, status) => (path, status)

/-- `v2` at the limit. -/
def Path.clamped (path : Path K) (vmax : K) : Path K :=
  { path with v2 := if 0 ≤ path.v2 then vmax else -vmax }

def findPathWithVmax (path : Path K) (amax vmax : K) (unknown : Nat) : Path K × Status :=
  match findPath { path with t2 := 0 } amax (maskV2 ||| unknown) with
  | (path, .ok) =>
    if vmax < |path.v2| then findPath (path.clamped vmax) amax (maskT2 ||| unknown)
    else (path, .ok)
  | (path, status) => (path, status)

/-! ## The route -/

namespace Route

def new (demand : Demand K) (amax vmax : K) : Option (Route K) :=
  if 0 < amax ∧ 0 < vmax ∧ |demand.v| < vmax then
    some ⟨amax, vmax, demand, demand,
      { dist := 0, vi := demand.v, vf := demand.v, v2 := demand.v,
        t1 := 0, t2 := 0, t3 := 0, t4 := 0, bigT := 0 }⟩
  else none

def setParams (r : Route K) (amax vmax : K) : Route K × Status :=
  if 0 < amax ∧ 0 < vmax ∧ |r.demand.v| < vmax then ({ r with amax, vmax }, .ok)
  else (r, .badParam)

/-- The previous path is still usable. -/
def oldPathOk (r : Route K) (reroute : Reroute) (endp : Demand K) : Prop :=
  (reroute = .calc ∧ isZero (endp.t - r.endp.t) endp.t) ∧
    isZero (endp.p - r.endp.p) 40 ∧ |endp.v - r.endp.v| < r.vmax * (1 / 10 ^ 10)

instance (r : Route K) (reroute : Reroute) (endp : Demand K) :
    Decidable (r.oldPathOk reroute endp) := by
  unfold oldPathOk
  infer_instance

/-- The path to solve for. -/
def request (r : Route K) (endp : Demand K) : Path K :=
  { r.path with
    dist := endp.p - r.demand.p
    vi := r.demand.v
    vf := endp.v
    t2 := 0
    t4 := 0
    bigT := endp.t - r.demand.t }

/-- A new path and the time of its end; the end's time is given up unless the path is short. -/
def newPath (r : Route K) (reroute : Reroute) (endp : Demand K) (nextT : K) :
    Path K × Status × K :=
  let short := findPathWithVmax (r.request endp) r.amax r.vmax maskT4
  if (reroute ≠ .new ∧ endp.t ≤ nextT) ∧ short.2 = .ok then (short.1, .ok, endp.t)
  else
    let start := if reroute ≠ .new ∧ endp.t ≤ nextT then short.1 else r.request endp
    let (path, status) := findPathWithVmax { start with t4 := 0 } r.amax r.vmax maskT
    (path, status, if status = .badParam then endp.t else r.demand.t + path.bigT)

/-- What a call leaves: its status, the route, and the two demands it writes to. -/
structure Found (K : Type) where
  status : Status
  route : Route K
  endp : Demand K
  nextp : Demand K

/-- The demand at the next time. -/
def evaluate (r : Route K) (path : Path K) (endp : Demand K) (nextT : K) (status : Status) :
    Found K :=
  let (p, v) := routeDemand path (nextT - endp.t)
  let nextp : Demand K := ⟨nextT, p + endp.p, v⟩
  ⟨status, { r with path, demand := nextp, endp }, endp, nextp⟩

def find (r : Route K) (reroute : Reroute) (endp nextp : Demand K) : Found K :=
  let r := if reroute = .off then
    { r with demand := { r.demand with v := endp.v,
                                        p := endp.p - (nextp.t - r.demand.t) * endp.v } }
    else r
  if r.oldPathOk reroute endp then r.evaluate r.path endp nextp.t .ok
  else
    let (path, status, t) := r.newPath reroute endp nextp.t
    if status = .badParam then ⟨status, { r with path }, endp, nextp⟩
    else r.evaluate path { endp with t } nextp.t status

end Route

end

end MotorSim
