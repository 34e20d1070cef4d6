import Mathlib.Algebra.Order.Field.Basic
import EpicsIocs.Lib.Motion

/-! # Profiles of the Newport XPS

`Profile::generate` (`xps/profile.rs`), which makes the elements of a trajectory file, and what
`XpsProfile::build` and `start_run` (`xps/profile_move.rs`) make of its distances: the moves before
and after the run. -/

namespace Newport

open scoped Numerals

section
variable {K : Type} [Field K] [LinearOrder K]

/-! ## The trajectory file -/

structure ProfileAxis (K : Type) where
  positioner : String
  positions : List K

structure Profile (K : Type) where
  group : String
  times : List K
  axes : List (ProfileAxis K)

/-- A line of the file: how long it takes, and for each axis its displacement and the velocity at
its end. -/
structure Element (K : Type) where
  time : K
  axes : List (K × K)
  deriving DecidableEq

structure TrajectoryFile (K : Type) where
  elements : List (Element K)
  preDistance : List K
  postDistance : List K
  deriving DecidableEq

/-- The line, with `%f` for the format of a number. -/
def Element.text (format : K → String) (e : Element K) : String :=
  e.axes.foldl (fun line x => line ++ ", " ++ format x.1 ++ ", " ++ format x.2) (format e.time) ++
    "\n"

def TrajectoryFile.text (format : K → String) (f : TrajectoryFile K) : String :=
  String.join (f.elements.map (Element.text format))

inductive ProfileError where
  | shape (message : String)
  | acceleration (message : String)
  | time (message : String)
  deriving DecidableEq

/-- `XPS_MIN_PROFILE_ACCEL_TIME`. -/
def minProfileAccelTime : K := 1 / 4

/-- `XPS_ACCEL_ROUNDOFF_MARGIN`. -/
def accelRoundoffMargin : K := 9 / 10

/-- What the loop over the axes gathers. -/
structure Ramps (K : Type) where
  preVelocity : List K
  postVelocity : List K
  preTimeMax : K
  postTimeMax : K

namespace Profile

def numPoints (p : Profile K) : Nat := p.times.length

variable (format : K → String) (p : Profile K)

/-- The velocity of an axis into the first element and the one out of the last. -/
def velocities (positions : List K) : K × K :=
  let n := p.numPoints
  ((positions.getD 1 0 - positions.getD 0 0) / p.times.getD 0 0,
    (positions.getD (n - 1) 0 - positions.getD (n - 2) 0) / p.times.getD (n - 1) 0)

/-- A round of the loop; an axis that is not used has no ramp. -/
def ramp (ramps : Ramps K) : (ProfileAxis K × Option K) × Nat → Except ProfileError (Ramps K)
  | ((_, none), _) =>
    .ok { ramps with
      preVelocity := ramps.preVelocity ++ [0], postVelocity := ramps.postVelocity ++ [0] }
  | ((axis, some controllerAccel), j) =>
    let maxAccel := controllerAccel * accelRoundoffMargin
    if maxAccel ≤ 0 then
      .error (.acceleration ("axis " ++ toString j ++ " (" ++ axis.positioner ++
        ") max acceleration " ++ format controllerAccel ++ " is not positive"))
    else
      let velocity := p.velocities axis.positions
      .ok ⟨ramps.preVelocity ++ [velocity.1], ramps.postVelocity ++ [velocity.2],
        max ramps.preTimeMax (|velocity.1| / maxAccel),
        max ramps.postTimeMax (|velocity.2| / maxAccel)⟩

/-- The checks of the shape and the times. -/
def check (maxAcceleration : List (Option K)) : Except ProfileError Unit :=
  let n := p.numPoints
  if n < 2 then .error (.shape ("need at least 2 points, got " ++ toString n))
  else if p.axes = [] then .error (.shape "no axes in profile")
  else if maxAcceleration.length ≠ p.axes.length then
    .error (.shape ("max_acceleration has " ++ toString maxAcceleration.length ++
      " entries, expected " ++ toString p.axes.length))
  else
    match p.axes.zipIdx.find? fun x => x.1.positions.length ≠ n with
    | some (axis, a) =>
      .error (.shape ("axis " ++ toString a ++ " (" ++ axis.positioner ++ ") has " ++
        toString axis.positions.length ++ " positions, expected " ++ toString n))
    | none =>
      match p.times.zipIdx.find? fun x => x.1 ≤ 0 with
      | some (t, i) =>
        .error (.time ("time[" ++ toString i ++ "] = " ++ format t ++ " is not positive"))
      | none => .ok ()

/-- The displacement of an axis in an element, and the velocity averaged over it and the next. -/
def elementAxis (i : Nat) (axis : ProfileAxis K) (used : Option K) : K × K :=
  let numElements := p.numPoints - 1
  let t0 := p.times.getD i 0
  let t1 := if i < numElements - 1 then p.times.getD (i + 1) 0 else t0
  let d0 := axis.positions.getD (i + 1) 0 - axis.positions.getD i 0
  let d1 :=
    if i < numElements - 1 then axis.positions.getD (i + 2) 0 - axis.positions.getD (i + 1) 0
    else d0
  let trajVel := (d0 + d1) / (t0 + t1)
  match used with
  | none => (0, 0)
  | some _ => (d0, trajVel)

/-- The file of the ramps, each element with the axes' columns. -/
def file (maxAcceleration : List (Option K)) (ramps : Ramps K) : TrajectoryFile K :=
  let preTimeMax := max ramps.preTimeMax minProfileAccelTime
  let postTimeMax := max ramps.postTimeMax minProfileAccelTime
  let preDistance := ramps.preVelocity.map fun v => 1 / 2 * v * preTimeMax
  let postDistance := ramps.postVelocity.map fun v => 1 / 2 * v * postTimeMax
  { elements :=
      ⟨preTimeMax, preDistance.zip ramps.preVelocity⟩ ::
        ((List.range (p.numPoints - 1)).map fun i =>
          ⟨p.times.getD i 0, List.zipWith (p.elementAxis i) p.axes maxAcceleration⟩) ++
        [⟨postTimeMax, postDistance.map fun pd => (pd, 0)⟩]
    preDistance, postDistance }

def generate (maxAcceleration : List (Option K)) : Except ProfileError (TrajectoryFile K) := do
  p.check format maxAcceleration
  let ramps ← (p.axes.zip maxAcceleration).zipIdx.foldlM (p.ramp format) ⟨[], [], 0, 0⟩
  return p.file maxAcceleration ramps

end Profile

/-! ## Its build and the moves around its run -/

structure RegisteredAxis where
  axisNo : Int
  positioner : String
  group : String

/-- The base's arrays. -/
structure Ctx (K : Type) where
  maxPoints : Nat
  times : List K
  axes : List (List K)
  times_length : times.length = maxPoints
  axes_length : ∀ positions ∈ axes, positions.length = maxPoints

structure Params where
  numPoints : Int
  group : String
  useAxis : Int → Bool
  moveMode : Int

/-- The first positions of the axis at an address. -/
def Ctx.positions (ctx : Ctx K) (addr : Int) (n : Nat) : List K :=
  match if 0 ≤ addr then ctx.axes[addr.toNat]? else none with
  | none => List.replicate n 0
  | some positions => positions.take n

def inGroup (p : Params) (registered : List RegisteredAxis) : List RegisteredAxis :=
  registered.filter fun a => a.group = p.group

/-- Each used axis's maximum acceleration, as the controller answers. -/
def maxAccelerations (p : Params) (sgamma : String → Except Int K) :
    List RegisteredAxis → Except (Int × String) (List (Option K))
  | [] => .ok []
  | a :: axes => do
    let acceleration ←
      if p.useAxis a.axisNo then
        match sgamma a.positioner with
        | .ok acceleration => .ok (some acceleration)
        | .error code => .error (code, "Error calling positionerSGammaParametersSet, status=" ++
            toString code ++ "\n")
      else .ok none
    return acceleration :: (← maxAccelerations p sgamma axes)

def profile (ctx : Ctx K) (p : Params) (registered : List RegisteredAxis) : Profile K where
  group := p.group
  times := ctx.times.take p.numPoints.toNat
  axes := (inGroup p registered).map fun a =>
    ⟨a.positioner, ctx.positions a.axisNo p.numPoints.toNat⟩

/-- The distances of the axis of a number, none if the group has none. -/
def rampDistances (p : Params) (registered : List RegisteredAxis) (file : TrajectoryFile K)
    (axisNo : Int) : K × K :=
  match (inGroup p registered).findIdx? fun g => g.axisNo = axisNo with
  | none => (0, 0)
  | some i => (file.preDistance.getD i 0, file.postDistance.getD i 0)

/-- Each registered axis's distances, by its number. -/
def distances (p : Params) (registered : List RegisteredAxis) (file : TrajectoryFile K) :
    List (Int × K × K) :=
  registered.map fun a => (a.axisNo, rampDistances p registered file a.axisNo)

/-- The later of two entries stays. -/
def distancesOf (distances : List (Int × K × K)) (axisNo : Int) : K × K :=
  ((distances.reverse.find? fun x => x.1 = axisNo).map Prod.snd).getD (0, 0)

def errorText : ProfileError → String
  | .shape m => "profile shape error: " ++ m
  | .acceleration m => "profile acceleration error: " ++ m
  | .time m => "profile time error: " ++ m

/-- The file and the distances that `build` comes to, or its status and message. -/
def build (format : K → String) (ctx : Ctx K) (p : Params) (registered : List RegisteredAxis)
    (sgamma : String → Except Int K) :
    Except (Int × String) (TrajectoryFile K × List (Int × K × K)) :=
  if p.numPoints < 2 ∨ ctx.maxPoints < p.numPoints.toNat then
    .error (-1, "Error, numPoints=" ++ toString p.numPoints ++ ", maxPoints=" ++
      toString ctx.maxPoints ++ "\n")
  else do
    let accelerations ← maxAccelerations p sgamma (inGroup p registered)
    match (profile ctx p registered).generate format accelerations with
    | .error e => .error (-1, errorText e ++ "\n")
    | .ok file => .ok (file, distances p registered file)

def absolute : Int := 0

/-- The targets of the moves before and after the trajectory. -/
structure RunAxis (K : Type) where
  positioner : String
  start : K
  stop : K
  deriving DecidableEq

/-- The moves of `start_run`. -/
def startRun (ctx : Ctx K) (p : Params) (registered : List RegisteredAxis)
    (distances : List (Int × K × K)) : List (RunAxis K) :=
  let n := min p.numPoints.toNat ctx.times.length
  ((inGroup p registered).filter fun a => p.useAxis a.axisNo).map fun a =>
    let pos := ctx.positions a.axisNo n
    let (pre, post) := distancesOf distances a.axisNo
    if p.moveMode = absolute then
      ⟨a.positioner, pos.head?.getD 0 - pre, pos.getLast?.getD 0⟩
    else ⟨a.positioner, -pre, -post⟩

end

end Newport
