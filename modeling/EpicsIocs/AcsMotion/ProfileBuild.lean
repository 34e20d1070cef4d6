import Mathlib.Data.List.Basic
import EpicsIocs.Lib.Steps

/-! # Builds of a profile

`build_path` of the ACS motion driver (`profile.rs`) with what it keeps from one build to the next:
the positions that a relative build converts again in place, the converted pulse positions, and the
range of the pulses.

`build_alone`: in every run of writes and builds, a build that succeeds gives what it would give
without the builds before it, as long as each array entry that it reads and does not convert itself
still is what the user's writes left there.  A relative build breaks that for the absolute ones
behind it (`absolute_after_relative`). -/

namespace AcsMotion

open Steps

/-! ## Numbers and parameters -/

/-- `f64` as the build uses it; `tenMs` is 0.01, `margin` 0.9, and `round` goes on to an `i64`. -/
class Double (F : Type) extends Add F, Sub F, Neg F, Mul F, Div F where
  ofInt : Int → F
  half : F
  tenMs : F
  margin : F
  abs : F → F
  max : F → F → F
  isZero : F → Bool
  round : F → Int

def maxAccelSegments : Nat := 20

def absolute : Int := 0

def relative : Int := 1

/-- What a build reads from the parameters. -/
structure BuildParams (F : Type) where
  moveMode : Int
  numPoints : Int
  timeMode : Int
  timePerPoint : F
  accelTime : F
  pulseMode : Int
  pulseAxis : Int
  numPulses : Int
  startPulses : Int
  endPulses : Int

/-- With the parameters of the axes; `none` is one that is not defined yet. -/
structure Params (F : Type) extends BuildParams F where
  useAxis : Nat → Int
  position : Int → F
  recResolution : Nat → Option F
  recOffset : Nat → Option F
  recDirection : Nat → Option Int
  resolution : Nat → F

/-- How the arrays were initialized. -/
structure Sizes where
  numAxes : Nat
  maxPoints : Nat
  maxPulses : Nat

inductive Var where
  | xvel
  | xacc
  deriving DecidableEq, Repr

def Var.name : Var → String
  | .xvel => "XVEL"
  | .xacc => "XACC"

/-- The controller's answers to a build, or the status of the failure. -/
structure Replies (F : Type) where
  query : Var → Nat → Except Int F
  putDoubleArray : Except Int Unit

/-- The base's conversion of positions to steps, when it succeeds, and the times that a write and
its build leave. -/
structure Base (F : Type) where
  defineProfile : Params F → Nat → List F → Option (Nat → F)
  writeTimes : (Nat → F) → List F → Nat → F
  buildProfile : Params F → (Nat → F) → Nat → F

/-! ## The profile -/

/-- An axis of the profile, with its positions in the base. -/
structure AxisPath (F : Type) where
  positionsUser : Nat → F
  positions : Nat → F
  fullPositions : Nat → F
  startPos : F
  flybackPos : F

structure PulseRange (F : Type) where
  startPos : F
  endPos : F
  spacing : F
  deriving DecidableEq

structure SpiiProfile (F : Type) where
  pulsesUser : Nat → F
  pulses : Nat → F
  axes : Nat → AxisPath F
  times : Nat → F
  fullTimes : Nat → F
  numAccel : Nat
  numDecel : Nat
  fullSize : Nat
  profileAxes : List Nat
  pulseRange : PulseRange F
  dataCollectionInterval : F

section
variable {F : Type} [Double F] (c : Sizes) (base : Base F)

open Double

/-- The profile of `initialize_profile_pulses`. -/
def SpiiProfile.new : SpiiProfile F where
  pulsesUser _ := ofInt 0
  pulses _ := ofInt 0
  axes _ := ⟨fun _ => ofInt 0, fun _ => ofInt 0, fun _ => ofInt 0, ofInt 0, ofInt 0⟩
  times _ := ofInt 0
  fullTimes _ := ofInt 0
  numAccel := 0
  numDecel := 0
  fullSize := 0
  profileAxes := []
  pulseRange := ⟨ofInt 0, ofInt 0, ofInt 0⟩
  dataCollectionInterval := ofInt 0

/-- The first entries of an array of `size` replaced. -/
def write (size : Nat) (array : Nat → F) (values : List F) (i : Nat) : F :=
  if i < min values.length size then values.getD i (array i) else array i

def writePulsePositions (s : SpiiProfile F) (addr : Nat) (value : List F) : SpiiProfile F :=
  if addr < c.numAxes then { s with pulsesUser := write c.maxPulses s.pulsesUser value } else s

/-- The positions kept as written, converted by the base and to controller units. -/
def AxisPath.define (path : AxisPath F) (p : Params F) (addr : Nat) (positions : List F) :
    AxisPath F :=
  let path := { path with positionsUser := write c.maxPoints path.positionsUser positions }
  match base.defineProfile p addr positions with
  | none => path
  | some steps =>
    { path with
      positions := fun i =>
        if i < min positions.length c.maxPoints then steps i * p.resolution addr
        else path.positions i }

def defineAxisProfile (s : SpiiProfile F) (p : Params F) (addr : Nat) (positions : List F) :
    SpiiProfile F :=
  if addr < c.numAxes then
    { s with
      axes := fun axis =>
        if axis = addr then (s.axes axis).define c base p addr positions else s.axes axis }
  else s

/-! ## A build -/

def scale (resolution : F) (direction : Int) : F :=
  if direction = 0 then ofInt 1 / resolution else -(ofInt 1 / resolution)

/-- The factor that `correct_profile` converts with. -/
def correction (p : Params F) (addr numPoints : Nat) : Option F :=
  if c.maxPoints < numPoints then none
  else do
    let resolution ← p.recResolution addr
    let direction ← p.recDirection addr
    if isZero resolution then none else some (scale resolution direction)

def correctProfile (path : AxisPath F) (p : Params F) (addr numPoints : Nat) : AxisPath F :=
  match correction c p addr numPoints with
  | none => path
  | some factor =>
    { path with
      positions := fun i =>
        if i < numPoints then path.positionsUser i * factor * p.resolution addr
        else path.positions i }

/-- The factor and the offset that `define_pulses` converts with. -/
def pulseConversion (p : Params F) (pulseAxis : Nat) : Option (F × F) :=
  if p.numPulses < 0 ∨ c.maxPulses < p.numPulses then none
  else do
    let resolution ← p.recResolution pulseAxis
    let offset ← p.recOffset pulseAxis
    let direction ← p.recDirection pulseAxis
    if isZero resolution then none
    else some (scale resolution direction, if p.moveMode = absolute then offset else ofInt 0)

def definePulses (s : SpiiProfile F) (p : Params F) (pulseAxis : Nat) : SpiiProfile F :=
  match pulseConversion c p pulseAxis with
  | none => s
  | some conversion =>
    { s with
      pulses := fun i =>
        if i < p.numPulses then
          (s.pulsesUser i - conversion.2) * conversion.1 * p.resolution pulseAxis
        else s.pulses i }

/-- One segment per 10 ms. -/
def numAccelSegments (time : F) : Nat :=
  (max 0 (min (round (time / (tenMs : F))) maxAccelSegments)).toNat

/-- An axis's velocity into and out of the profile. -/
def velocities (p : Params F) (n : Nat) (times positions : Nat → F) : F × F :=
  if p.moveMode = absolute then
    ((positions 1 - positions 0) / times 1,
      (positions (n - 1) - positions (n - 2)) / times (n - 1))
  else (positions 0 / times 1, positions (n - 1) / times (n - 1))

def Replies.ask (r : Replies F) (var : Var) (axis : Nat) : Except String F :=
  (r.query var axis).mapError fun status =>
    "Error getting " ++ var.name ++ ", status=" ++ toString status ++ "\n"

/-- A round of `accel_plan`: the longest acceleration and deceleration times so far. -/
def accelStep (s : SpiiProfile F) (p : Params F) (r : Replies F) (n : Nat) (longest : F × F)
    (axis : Nat) : Except String (F × F) := do
  let _maxVelocity ← r.ask .xvel axis
  let xacc ← r.ask .xacc axis
  let velocity := velocities p n s.times (s.axes axis).positions
  return (max (max longest.1 (abs velocity.1 / (xacc * margin))) p.accelTime,
    max (max longest.2 (abs velocity.2 / (xacc * margin))) p.accelTime)

def accelPlan (s : SpiiProfile F) (p : Params F) (r : Replies F) (n : Nat) :
    Except String (F × F) :=
  s.profileAxes.foldlM (accelStep s p r n) (ofInt 0, ofInt 0)

def square (x : F) : F := x * x

/-- Constant acceleration from rest to the first segment's velocity. -/
def accelPosition (p : Params F) (first velocity time : F) (count i : Nat) : F :=
  let accel := velocity / time
  let t2 := time * ofInt (i + 1) / ofInt count
  let t1 := time * ofInt i / ofInt count
  if p.moveMode = absolute then
    first - half * velocity * time + half * accel * square t2
  else half * accel * (square t2 - square t1)

/-- And from the last segment's to rest. -/
def decelPosition (p : Params F) (last velocity time : F) (count i : Nat) : F :=
  let accel := velocity / time
  let t2 := time * ofInt (i + 1) / ofInt count
  let t1 := time * ofInt i / ofInt count
  if p.moveMode = absolute then last + velocity * t2 - half * accel * square t2
  else velocity * (t2 - t1) - half * accel * (square t2 - square t1)

/-- `assemble_full_profile` on one array: the acceleration, the profile from its second point, the
deceleration. -/
def assemble (numAccel n numDecel : Nat) (accel profile decel full : Nat → F) (i : Nat) : F :=
  if i < numAccel then accel i
  else if i < numAccel + (n - 1) then profile (i - numAccel + 1)
  else if i < numAccel + (n - 1) + numDecel then decel (i - (numAccel + (n - 1)))
  else full i

/-- An axis with its start, its flyback and its full profile. -/
def AxisPath.build (path : AxisPath F) (p : Params F) (n : Nat) (times : Nat → F)
    (longest : F × F) : AxisPath F :=
  let velocity := velocities p n times path.positions
  let first := path.positions 0
  let last := path.positions (n - 1)
  let numAccel := numAccelSegments longest.1
  let numDecel := numAccelSegments longest.2
  { path with
    startPos :=
      if p.moveMode = absolute then first - half * velocity.1 * longest.1
      else -(half * velocity.1 * longest.1)
    flybackPos :=
      if p.moveMode = absolute then last else -(half * velocity.2 * longest.2)
    fullPositions :=
      assemble numAccel n numDecel (accelPosition p first velocity.1 longest.1 numAccel)
        path.positions (decelPosition p last velocity.2 longest.2 numDecel) path.fullPositions }

omit [Double F] in
def usedAxes (p : Params F) : List Nat :=
  (List.range c.numAxes).filter fun axis => p.useAxis axis ≠ 0

/-- The axes that are used, a relative profile's displacements converted again. -/
def select (s : SpiiProfile F) (p : Params F) : SpiiProfile F :=
  { s with
    profileAxes := usedAxes c p
    axes := fun axis =>
      if axis < c.numAxes ∧ p.useAxis axis ≠ 0 ∧ p.moveMode = relative then
        correctProfile c (s.axes axis) p axis p.numPoints.toNat
      else s.axes axis }

/-- The profile with its acceleration and deceleration. -/
def buildAxes (s : SpiiProfile F) (p : Params F) (n : Nat) (longest : F × F) : SpiiProfile F :=
  let numAccel := numAccelSegments longest.1
  let numDecel := numAccelSegments longest.2
  { s with
    numAccel, numDecel
    fullSize := numAccel + (n - 1) + numDecel
    fullTimes :=
      assemble numAccel n numDecel (fun _ => longest.1 / ofInt numAccel) s.times
        (fun _ => longest.2 / ofInt numDecel) s.fullTimes
    axes := fun axis =>
      if axis ∈ s.profileAxes then (s.axes axis).build p n s.times longest else s.axes axis }

/-- `iter().sum()`. -/
def sum (xs : List F) : F := xs.foldl (· + ·) (ofInt 0)

/-- Fixed: evenly over the profile. -/
def fixedRange (p : Params F) (n : Nat) (positions : Nat → F) (pulseAxisPos : F) : PulseRange F :=
  let total :=
    if p.moveMode = absolute then positions (n - 1) - positions 0
    else sum ((List.range (n - 1)).map positions)
  { startPos := if p.moveMode = absolute then positions 0 else pulseAxisPos
    endPos := if p.moveMode = absolute then positions (n - 1) else pulseAxisPos + total
    spacing := total / (ofInt p.numPulses - ofInt 1) }

/-- TrajPts: evenly from point `start` to point `stop`. -/
def pointRange (p : Params F) (start stop : Nat) (positions : Nat → F) (pulseAxisPos : F) :
    PulseRange F :=
  let startPos :=
    if p.moveMode = absolute then positions start
    else pulseAxisPos + sum ((List.range start).map positions)
  let endPos :=
    if p.moveMode = absolute then positions stop
    else startPos + sum ((List.range' start (stop - start)).map positions)
  { startPos, endPos, spacing := (endPos - startPos) / (ofInt p.numPulses - ofInt 1) }

/-- The displacements of the pulses added up from `current`. -/
def accumulate (current : F) (pulses : Nat → F) : Nat → F
  | 0 => pulses 0 + current
  | i + 1 => pulses (i + 1) + accumulate current pulses i

/-- Array: the pulse positions that are sent. -/
def arrayPulses (p : Params F) (pulses : Nat → F) (pulseAxisPos : F) (i : Nat) : F :=
  if p.moveMode ≠ absolute ∧ i < min p.numPulses.toNat c.maxPulses then
    accumulate pulseAxisPos pulses i
  else pulses i

/-- `calculateDataCollectionInterval`. -/
def setInterval (s : SpiiProfile F) : SpiiProfile F :=
  { s with
    dataCollectionInterval := sum ((List.range s.fullSize).map s.fullTimes) / ofInt c.maxPoints }

/-- The pulse output; what it sends to `pulsePos`. -/
def buildPulses (s : SpiiProfile F) (p : Params F) (r : Replies F) (n pulseAxis : Nat) :
    SpiiProfile F × Except String (Option (List F)) :=
  let pulseAxisPos := p.position p.pulseAxis * p.resolution pulseAxis
  let positions := (s.axes pulseAxis).positions
  if p.pulseMode = 0 then
    (setInterval c { s with pulseRange := fixedRange p n positions pulseAxisPos }, .ok none)
  else if p.pulseMode = 1 then
    let s := { s with pulses := arrayPulses c p s.pulses pulseAxisPos }
    match r.putDoubleArray with
    | .error status =>
      (s, .error ("Error writing pulse positions, status=" ++ toString status ++ "\n"))
    | .ok _ => (setInterval c s, .ok (some ((List.range c.maxPulses).map s.pulses)))
  else if p.pulseMode = 2 then
    if 0 ≤ p.startPulses ∧ 0 ≤ p.endPulses ∧ p.startPulses < c.maxPoints ∧
        p.endPulses < c.maxPoints then
      (setInterval c { s with
        pulseRange := pointRange p p.startPulses.toNat p.endPulses.toNat positions pulseAxisPos },
        .ok none)
    else (s, .error "Error: start or end pulses outside valid range")
  else (setInterval c s, .ok none)

/-- `build_path` behind the base's build. -/
def buildPath (s : SpiiProfile F) (p : Params F) (r : Replies F) :
    SpiiProfile F × Except String (Option (List F)) :=
  let s := select c s p
  let n := p.numPoints.toNat
  if s.profileAxes = [] then (s, .error "No axes selected")
  else if n < 2 ∨ c.maxPoints < n ∨
      c.maxPoints + 2 * maxAccelSegments - 1 < n + 2 * maxAccelSegments - 1 then
    (s, .error "Error: number of points outside valid range")
  else if p.pulseAxis < 0 ∨ (c.numAxes : Int) ≤ p.pulseAxis then
    (s, .error "Error: pulse axis outside valid range")
  else
    match accelPlan s p r n with
    | .error message => (s, .error message)
    | .ok longest =>
      buildPulses c (definePulses c (buildAxes s p n longest) p p.pulseAxis.toNat) p r n
        p.pulseAxis.toNat

/-- What a run reads of a build, and what the build has sent to `pulsePos`. -/
structure Built (F : Type) where
  message : String
  axes : List Nat
  start : List F
  flyback : List F
  fullPositions : List (List F)
  fullTimes : List F
  numAccel : Nat
  numDecel : Nat
  pulseRange : PulseRange F
  dataCollectionInterval : F
  pulsePos : Option (List F)
  deriving DecidableEq

def SpiiProfile.built (s : SpiiProfile F) (pulsePos : Option (List F)) : Built F where
  message := "Selected axes: " ++ ", ".intercalate (s.profileAxes.map fun axis => toString (axis + 1))
  axes := s.profileAxes
  start := s.profileAxes.map fun axis => (s.axes axis).startPos
  flyback := s.profileAxes.map fun axis => (s.axes axis).flybackPos
  fullPositions :=
    s.profileAxes.map fun axis => (List.range s.fullSize).map (s.axes axis).fullPositions
  fullTimes := (List.range s.fullSize).map s.fullTimes
  numAccel := s.numAccel
  numDecel := s.numDecel
  pulseRange := s.pulseRange
  dataCollectionInterval := s.dataCollectionInterval
  pulsePos

/-- The base's part of a build. -/
def baseBuild (s : SpiiProfile F) (p : Params F) : SpiiProfile F :=
  { s with times := base.buildProfile p s.times }

def build (s : SpiiProfile F) (p : Params F) (r : Replies F) :
    SpiiProfile F × Except String (Built F) :=
  let out := buildPath c (baseBuild base s p) p r
  (out.1, out.2.map out.1.built)

/-! ## Sessions -/

inductive ProfileEvent (F : Type) where
  | params (p : Params F)
  | define (addr : Nat) (positions : List F)
  | times (values : List F)
  | pulses (addr : Nat) (value : List F)
  | build (r : Replies F)

/-- A build, with what the writes before it alone leave. -/
structure BuildRecord (F : Type) where
  params : Params F
  replies : Replies F
  written : SpiiProfile F
  outcome : Except String (Built F)

/-- `written` is the profile had there been no builds. -/
structure ProfileSession (F : Type) where
  params : Params F
  profile : SpiiProfile F
  written : SpiiProfile F
  builds : List (BuildRecord F)

def ProfileSession.after (s : ProfileSession F) : ProfileEvent F → ProfileSession F
  | .params p => { s with params := p }
  | .define addr positions =>
    { s with
      profile := defineAxisProfile c base s.profile s.params addr positions
      written := defineAxisProfile c base s.written s.params addr positions }
  | .times values =>
    { s with
      profile.times := base.writeTimes s.profile.times values
      written.times := base.writeTimes s.written.times values }
  | .pulses addr value =>
    { s with
      profile := writePulsePositions c s.profile addr value
      written := writePulsePositions c s.written addr value }
  | .build r =>
    { s with
      profile := (build c base s.profile s.params r).1
      builds := s.builds ++ [⟨s.params, r, s.written, (build c base s.profile s.params r).2⟩] }

def profileSessions : System (ProfileSession F) (ProfileEvent F) where
  init s := ∃ p, s = ⟨p, .new, .new, []⟩
  step s e t := t = s.after c base e

/-! ## What a build reads -/

/-- The build converts this position itself. -/
def Corrected (p : Params F) (addr i : Nat) : Prop :=
  (addr < c.numAxes ∧ p.useAxis addr ≠ 0 ∧ p.moveMode = relative) ∧ i < p.numPoints.toNat ∧
    (correction c p addr p.numPoints.toNat).isSome

def Kept (p : Params F) (s w : SpiiProfile F) (addr i : Nat) : Prop :=
  Corrected c p addr i ∨ (s.axes addr).positions i = (w.axes addr).positions i

/-- The positions of the pulse axis that its range is taken from. -/
def pulseReads (p : Params F) : List Nat :=
  if p.pulseMode = 0 then
    if p.moveMode = absolute then [0, p.numPoints.toNat - 1]
    else List.range (p.numPoints.toNat - 1)
  else if p.pulseMode = 2 then
    if p.moveMode = absolute then [p.startPulses.toNat, p.endPulses.toNat]
    else List.range p.startPulses.toNat ++
      List.range' p.startPulses.toNat (p.endPulses.toNat - p.startPulses.toNat)
  else []

omit [Double F] in
/-- The checks of a build on its parameters. -/
def Checked (p : Params F) : Prop :=
  usedAxes c p ≠ [] ∧ (2 ≤ p.numPoints.toNat ∧ p.numPoints.toNat ≤ c.maxPoints) ∧
    (0 ≤ p.pulseAxis ∧ p.pulseAxis < c.numAxes)

omit [Double F] in
/-- The checks of a build pass and the controller answers it. -/
def Accepted (p : Params F) (r : Replies F) : Prop :=
  Checked c p ∧
    (∀ axis ∈ usedAxes c p, (r.query .xvel axis).isOk ∧ (r.query .xacc axis).isOk) ∧
    (p.pulseMode = 1 → r.putDoubleArray.isOk) ∧
    (p.pulseMode = 2 → 0 ≤ p.startPulses ∧ 0 ≤ p.endPulses ∧ p.startPulses < c.maxPoints ∧
      p.endPulses < c.maxPoints)

/-- What the build reads of `s`, and does not convert itself, is as in `w`. -/
def Fresh (p : Params F) (s w : SpiiProfile F) : Prop :=
  (∀ i < p.numPoints.toNat, base.buildProfile p s.times i = base.buildProfile p w.times i) ∧
    (∀ axis ∈ usedAxes c p, ∀ i < p.numPoints.toNat, Kept c p s w axis i) ∧
    (∀ i ∈ pulseReads p, Kept c p s w p.pulseAxis.toNat i) ∧
    (p.pulseMode = 1 → ∀ i < c.maxPulses,
      ((pulseConversion c p p.pulseAxis.toNat).isSome ∧ i < p.numPulses) ∨
        s.pulses i = w.pulses i) ∧
    (p.pulseMode ≠ 0 → p.pulseMode ≠ 2 → s.pulseRange = w.pulseRange)

instance [DecidableEq F] (p : Params F) (s w : SpiiProfile F) (addr i : Nat) :
    Decidable (Kept c p s w addr i) :=
  inferInstanceAs (Decidable ((_ ∧ _ ∧ _) ∨ _))

instance [DecidableEq F] (p : Params F) (s w : SpiiProfile F) : Decidable (Fresh c base p s w) :=
  inferInstanceAs (Decidable (_ ∧ _ ∧ _ ∧ _ ∧ _))

/-- A build that is accepted finds what the user's writes have left. -/
def FreshBuild (s : ProfileSession F) : ProfileEvent F → Prop
  | .build r => Accepted c s.params r → Fresh c base s.params s.profile s.written
  | _ => True

/-! ## The same axes -/

variable {c base} {p : Params F} {r : Replies F} {s w : SpiiProfile F} {n : Nat}

theorem velocities_congr (hn : 2 ≤ n) {times times' positions positions' : Nat → F}
    (htimes : ∀ i < n, times i = times' i) (hpositions : ∀ i < n, positions i = positions' i) :
    velocities p n times positions = velocities p n times' positions' := by
  unfold velocities
  rw [hpositions 0 (by omega), hpositions 1 (by omega), hpositions (n - 1) (by omega),
    hpositions (n - 2) (by omega), htimes 1 (by omega), htimes (n - 1) (by omega)]

/-- The two agree on what the acceleration is planned from. -/
structure Alike (s w : SpiiProfile F) (n : Nat) : Prop where
  axes : s.profileAxes = w.profileAxes
  times : ∀ i < n, s.times i = w.times i
  positions : ∀ axis ∈ s.profileAxes, ∀ i < n,
    (s.axes axis).positions i = (w.axes axis).positions i

theorem accelPlan_congr (h : Alike s w n) (hn : 2 ≤ n) : accelPlan s p r n = accelPlan w p r n := by
  have hstep : ∀ longest, ∀ axis ∈ s.profileAxes,
      accelStep s p r n longest axis = accelStep w p r n longest axis := by
    intro longest axis haxis
    unfold accelStep
    rw [velocities_congr hn h.times (h.positions axis haxis)]
  unfold accelPlan
  rw [← h.axes]
  generalize ((ofInt 0, ofInt 0) : F × F) = longest
  revert hstep
  generalize s.profileAxes = axes
  intro hstep
  induction axes generalizing longest with
  | nil => rfl
  | cons axis axes ih =>
    rw [List.foldlM_cons, List.foldlM_cons, hstep longest axis List.mem_cons_self]
    refine bind_congr fun later => ?_
    exact ih later fun longest a ha => hstep longest a (List.mem_cons_of_mem _ ha)

omit [Double F] in
theorem assemble_congr {numAccel numDecel : Nat} {accel profile profile' decel full full' : Nat → F}
    (hprofile : ∀ i < n, profile i = profile' i) {i : Nat}
    (hi : i < numAccel + (n - 1) + numDecel) :
    assemble numAccel n numDecel accel profile decel full i =
      assemble numAccel n numDecel accel profile' decel full' i := by
  unfold assemble
  by_cases haccel : i < numAccel
  · rw [if_pos haccel, if_pos haccel]
  · rw [if_neg haccel, if_neg haccel]
    by_cases hmid : i < numAccel + (n - 1)
    · rw [if_pos hmid, if_pos hmid, hprofile _ (by omega)]
    · rw [if_neg hmid, if_neg hmid, if_pos hi, if_pos hi]

/-- The same positions and times give the same start, flyback and full profile. -/
theorem AxisPath.build_congr (hn : 2 ≤ n) {path path' : AxisPath F} {times times' : Nat → F}
    (htimes : ∀ i < n, times i = times' i)
    (hpositions : ∀ i < n, path.positions i = path'.positions i) (longest : F × F) :
    (path.build p n times longest).startPos = (path'.build p n times' longest).startPos ∧
      (path.build p n times longest).flybackPos = (path'.build p n times' longest).flybackPos ∧
      ∀ i < numAccelSegments longest.1 + (n - 1) + numAccelSegments longest.2,
        (path.build p n times longest).fullPositions i =
          (path'.build p n times' longest).fullPositions i := by
  have hvelocity := velocities_congr (p := p) hn htimes hpositions
  have hfirst := hpositions 0 (by omega)
  have hlast := hpositions (n - 1) (by omega)
  unfold AxisPath.build
  simp only
  rw [hvelocity, hfirst, hlast]
  exact ⟨rfl, rfl, fun i hi => assemble_congr hpositions hi⟩

theorem buildAxes_axes {longest : F × F} {axis : Nat} (h : axis ∈ s.profileAxes) :
    (buildAxes s p n longest).axes axis = (s.axes axis).build p n s.times longest :=
  if_pos h

/-- The two give the same start, flyback and full profile. -/
structure SameAxes (s w : SpiiProfile F) : Prop where
  axes : s.profileAxes = w.profileAxes
  numAccel : s.numAccel = w.numAccel
  numDecel : s.numDecel = w.numDecel
  fullSize : s.fullSize = w.fullSize
  times : ∀ i < s.fullSize, s.fullTimes i = w.fullTimes i
  paths : ∀ axis ∈ s.profileAxes, (s.axes axis).startPos = (w.axes axis).startPos ∧
    (s.axes axis).flybackPos = (w.axes axis).flybackPos ∧
    ∀ i < s.fullSize, (s.axes axis).fullPositions i = (w.axes axis).fullPositions i

theorem Alike.buildAxes (h : Alike s w n) (hn : 2 ≤ n) (longest : F × F) :
    SameAxes (buildAxes s p n longest) (buildAxes w p n longest) where
  axes := h.axes
  numAccel := rfl
  numDecel := rfl
  fullSize := rfl
  times i hi := by
    simp only [AcsMotion.buildAxes]
    exact assemble_congr h.times hi
  paths axis haxis := by
    have hs : axis ∈ s.profileAxes := haxis
    have hw : axis ∈ w.profileAxes := h.axes ▸ hs
    rw [buildAxes_axes hs, buildAxes_axes hw]
    exact AxisPath.build_congr hn h.times (h.positions axis hs) longest

omit [Double F] in
theorem SameAxes.built (h : SameAxes s w) (hrange : s.pulseRange = w.pulseRange)
    (hinterval : s.dataCollectionInterval = w.dataCollectionInterval)
    (pulsePos : Option (List F)) : s.built pulsePos = w.built pulsePos := by
  have hstart : s.profileAxes.map (fun axis => (s.axes axis).startPos) =
      s.profileAxes.map fun axis => (w.axes axis).startPos :=
    List.map_congr_left fun axis haxis => (h.paths axis haxis).1
  have hflyback : s.profileAxes.map (fun axis => (s.axes axis).flybackPos) =
      s.profileAxes.map fun axis => (w.axes axis).flybackPos :=
    List.map_congr_left fun axis haxis => (h.paths axis haxis).2.1
  have hfull : s.profileAxes.map
        (fun axis => (List.range s.fullSize).map (s.axes axis).fullPositions) =
      s.profileAxes.map fun axis => (List.range s.fullSize).map (w.axes axis).fullPositions := by
    refine List.map_congr_left fun axis haxis => List.map_congr_left fun i hi => ?_
    exact (h.paths axis haxis).2.2 i (List.mem_range.1 hi)
  have htimes : (List.range s.fullSize).map s.fullTimes = (List.range s.fullSize).map w.fullTimes :=
    List.map_congr_left fun i hi => h.times i (List.mem_range.1 hi)
  unfold SpiiProfile.built
  rw [hstart, hflyback, hfull, htimes, h.axes, h.numAccel, h.numDecel, h.fullSize, hrange,
    hinterval]

theorem SameAxes.interval (h : SameAxes s w) :
    (setInterval c s).dataCollectionInterval = (setInterval c w).dataCollectionInterval := by
  have htimes : (List.range s.fullSize).map s.fullTimes = (List.range s.fullSize).map w.fullTimes :=
    List.map_congr_left fun i hi => h.times i (List.mem_range.1 hi)
  show sum ((List.range s.fullSize).map s.fullTimes) / _ = sum ((List.range w.fullSize).map _) / _
  rw [htimes, h.fullSize]

theorem SameAxes.built_setInterval (h : SameAxes s w) (hrange : s.pulseRange = w.pulseRange)
    (pulsePos : Option (List F)) :
    (setInterval c s).built pulsePos = (setInterval c w).built pulsePos := by
  have hsame : SameAxes (setInterval c s) (setInterval c w) :=
    ⟨h.axes, h.numAccel, h.numDecel, h.fullSize, h.times, h.paths⟩
  exact hsame.built hrange h.interval pulsePos

omit [Double F] in
theorem SameAxes.withRange (h : SameAxes s w) (range : PulseRange F) :
    SameAxes { s with pulseRange := range } { w with pulseRange := range } :=
  ⟨h.axes, h.numAccel, h.numDecel, h.fullSize, h.times, h.paths⟩

omit [Double F] in
theorem SameAxes.withPulses (h : SameAxes s w) (pulses pulses' : Nat → F) :
    SameAxes { s with pulses } { w with pulses := pulses' } :=
  ⟨h.axes, h.numAccel, h.numDecel, h.fullSize, h.times, h.paths⟩

/-! ## The same pulses -/

theorem sum_congr {xs : List Nat} {f g : Nat → F} (h : ∀ i ∈ xs, f i = g i) :
    sum (xs.map f) = sum (xs.map g) := by
  rw [List.map_congr_left h]

theorem fixedRange_congr (hmode : p.pulseMode = 0) {positions positions' : Nat → F}
    (h : ∀ i ∈ pulseReads p, positions i = positions' i) (pulseAxisPos : F) :
    fixedRange p p.numPoints.toNat positions pulseAxisPos =
      fixedRange p p.numPoints.toNat positions' pulseAxisPos := by
  unfold pulseReads at h
  rw [if_pos hmode] at h
  unfold fixedRange
  by_cases habs : p.moveMode = absolute
  · rw [if_pos habs] at h
    have hfirst := h 0 (by simp)
    have hlast := h (p.numPoints.toNat - 1) (by simp)
    simp only [if_pos habs]
    rw [hfirst, hlast]
  · rw [if_neg habs] at h
    simp only [if_neg habs]
    rw [sum_congr h]

theorem pointRange_congr (hmode : p.pulseMode = 2) {positions positions' : Nat → F}
    (h : ∀ i ∈ pulseReads p, positions i = positions' i) (pulseAxisPos : F) :
    pointRange p p.startPulses.toNat p.endPulses.toNat positions pulseAxisPos =
      pointRange p p.startPulses.toNat p.endPulses.toNat positions' pulseAxisPos := by
  have hother : ¬p.pulseMode = 0 := by omega
  unfold pulseReads at h
  rw [if_neg hother, if_pos hmode] at h
  unfold pointRange
  by_cases habs : p.moveMode = absolute
  · rw [if_pos habs] at h
    have hstart := h p.startPulses.toNat (by simp)
    have hstop := h p.endPulses.toNat (by simp)
    simp only [if_pos habs]
    rw [hstart, hstop]
  · rw [if_neg habs] at h
    have hbefore := sum_congr fun i hi => h i (List.mem_append_left _ hi)
    have hbetween := sum_congr fun i hi => h i (List.mem_append_right _ hi)
    simp only [if_neg habs]
    rw [hbefore, hbetween]

theorem accumulate_congr (current : F) {pulses pulses' : Nat → F} {i : Nat}
    (h : ∀ j ≤ i, pulses j = pulses' j) :
    accumulate current pulses i = accumulate current pulses' i := by
  induction i with
  | zero =>
    unfold accumulate
    rw [h 0 (by omega)]
  | succ i ih =>
    unfold accumulate
    rw [h (i + 1) (by omega), ih fun j hj => h j (by omega)]

theorem arrayPulses_congr {pulses pulses' : Nat → F}
    (h : ∀ i < c.maxPulses, pulses i = pulses' i) (pulseAxisPos : F) {i : Nat}
    (hi : i < c.maxPulses) :
    arrayPulses c p pulses pulseAxisPos i = arrayPulses c p pulses' pulseAxisPos i := by
  unfold arrayPulses
  split
  · exact accumulate_congr _ fun j hj => h j (by omega)
  · exact h i hi

/-- What is read for the pulses is the same. -/
structure SamePulses (c : Sizes) (p : Params F) (s w : SpiiProfile F) : Prop where
  positions : ∀ i ∈ pulseReads p,
    (s.axes p.pulseAxis.toNat).positions i = (w.axes p.pulseAxis.toNat).positions i
  pulses : p.pulseMode = 1 → ∀ i < c.maxPulses, s.pulses i = w.pulses i
  range : p.pulseMode ≠ 0 → p.pulseMode ≠ 2 → s.pulseRange = w.pulseRange

/-- The pulse output and the result are the same. -/
theorem buildPulses_congr (h : SameAxes s w) (hp : SamePulses c p s w)
    {out : Option (List F)}
    (hok : (buildPulses c s p r p.numPoints.toNat p.pulseAxis.toNat).2 = .ok out) :
    (buildPulses c w p r p.numPoints.toNat p.pulseAxis.toNat).2 = .ok out ∧
      (buildPulses c s p r p.numPoints.toNat p.pulseAxis.toNat).1.built out =
        (buildPulses c w p r p.numPoints.toNat p.pulseAxis.toNat).1.built out := by
  unfold buildPulses at hok ⊢
  simp only at hok ⊢
  by_cases hfixed : p.pulseMode = 0
  · rw [if_pos hfixed] at hok
    rw [if_pos hfixed, if_pos hfixed, fixedRange_congr hfixed hp.positions]
    exact ⟨hok, (h.withRange _).built_setInterval rfl out⟩
  · rw [if_neg hfixed] at hok
    rw [if_neg hfixed, if_neg hfixed]
    by_cases harray : p.pulseMode = 1
    · have hrange := hp.range hfixed (by omega)
      have hpulses := fun pulseAxisPos => List.map_congr_left fun i hi =>
        arrayPulses_congr (p := p) (hp.pulses harray) pulseAxisPos (List.mem_range.1 hi)
      rw [if_pos harray] at hok
      rw [if_pos harray, if_pos harray]
      cases hput : r.putDoubleArray with
      | error status =>
        rw [hput] at hok
        cases hok
      | ok _ =>
        rw [hput] at hok
        simp only at hok ⊢
        rw [← hpulses]
        exact ⟨hok, (h.withPulses _ _).built_setInterval hrange out⟩
    · rw [if_neg harray] at hok
      rw [if_neg harray, if_neg harray]
      by_cases hpoints : p.pulseMode = 2
      · rw [if_pos hpoints] at hok
        rw [if_pos hpoints, if_pos hpoints, pointRange_congr hpoints hp.positions]
        split at hok
        · rename_i hvalid
          rw [if_pos hvalid, if_pos hvalid]
          exact ⟨hok, (h.withRange _).built_setInterval rfl out⟩
        · cases hok
      · have hrange := hp.range hfixed hpoints
        rw [if_neg hpoints] at hok
        rw [if_neg hpoints, if_neg hpoints]
        exact ⟨hok, h.built_setInterval hrange out⟩

/-! ## One build -/

/-- The user's positions and pulse positions, which no build changes, are the same. -/
structure SameWrites (s w : SpiiProfile F) : Prop where
  positions : ∀ addr, (s.axes addr).positionsUser = (w.axes addr).positionsUser
  pulses : s.pulsesUser = w.pulsesUser

theorem select_positions (h : SameWrites s w) {addr i : Nat} (hkept : Kept c p s w addr i) :
    ((select c s p).axes addr).positions i = ((select c w p).axes addr).positions i := by
  unfold select
  simp only
  by_cases hused : addr < c.numAxes ∧ p.useAxis addr ≠ 0 ∧ p.moveMode = relative
  · rw [if_pos hused, if_pos hused]
    unfold correctProfile
    cases hfactor : correction c p addr p.numPoints.toNat with
    | none =>
      obtain ⟨-, -, hsome⟩ | hsame := hkept
      · rw [hfactor] at hsome
        cases hsome
      · exact hsame
    | some factor =>
      simp only
      by_cases hi : i < p.numPoints.toNat
      · rw [if_pos hi, if_pos hi, h.positions addr]
      · rw [if_neg hi, if_neg hi]
        obtain ⟨-, hlt, -⟩ | hsame := hkept
        · exact absurd hlt hi
        · exact hsame
  · rw [if_neg hused, if_neg hused]
    obtain ⟨hcorrected, -, -⟩ | hsame := hkept
    · exact absurd hcorrected hused
    · exact hsame

theorem definePulses_pulses (h : SameWrites s w) {pulseAxis i : Nat}
    (hkept : ((pulseConversion c p pulseAxis).isSome ∧ i < p.numPulses) ∨ s.pulses i = w.pulses i) :
    (definePulses c s p pulseAxis).pulses i = (definePulses c w p pulseAxis).pulses i := by
  unfold definePulses
  cases hconversion : pulseConversion c p pulseAxis with
  | none =>
    obtain ⟨hsome, -⟩ | hsame := hkept
    · rw [hconversion] at hsome
      cases hsome
    · exact hsame
  | some conversion =>
    simp only
    by_cases hi : (i : Int) < p.numPulses
    · rw [if_pos hi, if_pos hi, h.pulses]
    · rw [if_neg hi, if_neg hi]
      obtain ⟨-, hlt⟩ | hsame := hkept
      · exact absurd hlt hi
      · exact hsame

/-- The conversion of the pulses touches nothing else. -/
theorem definePulses_eq (s : SpiiProfile F) (p : Params F) (pulseAxis : Nat) :
    definePulses c s p pulseAxis =
      { s with pulses := (definePulses c s p pulseAxis).pulses } := by
  unfold definePulses
  cases pulseConversion c p pulseAxis with
  | none => rfl
  | some conversion => rfl

theorem definePulses_axes (pulseAxis : Nat) : (definePulses c s p pulseAxis).axes = s.axes := by
  rw [definePulses_eq]

theorem definePulses_range (pulseAxis : Nat) :
    (definePulses c s p pulseAxis).pulseRange = s.pulseRange := by
  rw [definePulses_eq]

theorem SameAxes.definePulses (h : SameAxes s w) (pulseAxis : Nat) :
    SameAxes (definePulses c s p pulseAxis) (AcsMotion.definePulses c w p pulseAxis) := by
  rw [definePulses_eq s, definePulses_eq w]
  exact h.withPulses _ _

theorem buildPath_eq (h : Checked c p) {longest : F × F}
    (hplan : accelPlan (select c s p) p r p.numPoints.toNat = .ok longest) :
    buildPath c s p r =
      buildPulses c (definePulses c (buildAxes (select c s p) p p.numPoints.toNat longest) p
        p.pulseAxis.toNat) p r p.numPoints.toNat p.pulseAxis.toNat := by
  obtain ⟨haxes, hpoints, hpulse⟩ := h
  have haxes : ¬(select c s p).profileAxes = [] := haxes
  unfold buildPath
  simp only
  rw [if_neg haxes, if_neg (by omega), if_neg (by omega), hplan]

theorem buildPath_ok {out : Option (List F)} (h : (buildPath c s p r).2 = .ok out) :
    Checked c p ∧ ∃ longest, accelPlan (select c s p) p r p.numPoints.toNat = .ok longest := by
  unfold buildPath at h
  simp only at h
  split at h
  · cases h
  · rename_i haxes
    split at h
    · cases h
    · split at h
      · cases h
      · refine ⟨⟨haxes, by omega, by omega⟩, ?_⟩
        split at h
        · cases h
        · exact ⟨_, by assumption⟩

omit [Double F] in
theorem ask_ok {var : Var} {axis : Nat} {x : F} (h : r.ask var axis = .ok x) :
    (r.query var axis).isOk := by
  unfold Replies.ask at h
  cases hquery : r.query var axis with
  | error status =>
    rw [hquery] at h
    cases h
  | ok _ => rfl

theorem accelPlan_ok {longest : F × F} (h : accelPlan s p r n = .ok longest) :
    ∀ axis ∈ s.profileAxes, (r.query .xvel axis).isOk ∧ (r.query .xacc axis).isOk := by
  unfold accelPlan at h
  generalize ((ofInt 0, ofInt 0) : F × F) = start at h
  generalize s.profileAxes = axes at h
  induction axes generalizing start with
  | nil => simp
  | cons axis axes ih =>
    rw [List.foldlM_cons] at h
    cases hstep : accelStep s p r n start axis with
    | error message =>
      rw [hstep] at h
      cases h
    | ok later =>
      rw [hstep] at h
      intro a ha
      obtain rfl | ha := List.mem_cons.1 ha
      · unfold accelStep at hstep
        cases hxvel : r.ask .xvel a with
        | error message =>
          rw [hxvel] at hstep
          cases hstep
        | ok _ =>
          rw [hxvel] at hstep
          cases hxacc : r.ask .xacc a with
          | error message =>
            rw [hxacc] at hstep
            cases hstep
          | ok _ => exact ⟨ask_ok hxvel, ask_ok hxacc⟩
      · exact ih later h a ha

theorem buildPulses_ok {out : Option (List F)} {pulseAxis : Nat}
    (h : (buildPulses c s p r n pulseAxis).2 = .ok out) :
    (p.pulseMode = 1 → r.putDoubleArray.isOk) ∧
      (p.pulseMode = 2 → 0 ≤ p.startPulses ∧ 0 ≤ p.endPulses ∧ p.startPulses < c.maxPoints ∧
        p.endPulses < c.maxPoints) := by
  unfold buildPulses at h
  simp only at h
  constructor
  · intro hmode
    rw [if_neg (by omega), if_pos hmode] at h
    cases hput : r.putDoubleArray with
    | error status =>
      rw [hput] at h
      cases h
    | ok _ => rfl
  · intro hmode
    rw [if_neg (by omega), if_neg (by omega), if_pos hmode] at h
    split at h
    · assumption
    · cases h

theorem accepted_of_ok {out : Option (List F)} (h : (buildPath c s p r).2 = .ok out) :
    Accepted c p r := by
  obtain ⟨hchecked, longest, hplan⟩ := buildPath_ok h
  rw [buildPath_eq hchecked hplan] at h
  exact ⟨hchecked, accelPlan_ok hplan, buildPulses_ok h⟩

theorem buildAxes_path (s : SpiiProfile F) (longest : F × F) (axis : Nat) :
    ((buildAxes s p n longest).axes axis).positions = (s.axes axis).positions ∧
      ((buildAxes s p n longest).axes axis).positionsUser = (s.axes axis).positionsUser := by
  unfold buildAxes
  simp only
  split
  · exact ⟨rfl, rfl⟩
  · exact ⟨rfl, rfl⟩

theorem select_positionsUser (s : SpiiProfile F) (axis : Nat) :
    ((select c s p).axes axis).positionsUser = (s.axes axis).positionsUser := by
  unfold select
  simp only
  split
  · unfold correctProfile
    split
    · rfl
    · rfl
  · rfl

theorem SameWrites.buildAxes (h : SameWrites s w) (longest : F × F) :
    SameWrites (buildAxes (select c s p) p n longest)
      (AcsMotion.buildAxes (select c w p) p n longest) where
  positions axis := by
    rw [(buildAxes_path _ longest axis).2, (buildAxes_path _ longest axis).2,
      select_positionsUser, select_positionsUser, h.positions]
  pulses := h.pulses

omit [Double F] in
theorem SameWrites.baseBuild (h : SameWrites s w) :
    SameWrites (baseBuild base s p) (AcsMotion.baseBuild base w p) :=
  ⟨h.positions, h.pulses⟩

theorem Fresh.alike (h : Fresh c base p s w) (hwrites : SameWrites s w) :
    Alike (select c (baseBuild base s p) p) (select c (baseBuild base w p) p)
      p.numPoints.toNat where
  axes := rfl
  times := h.1
  positions axis haxis i hi := select_positions hwrites.baseBuild (h.2.1 axis haxis i hi)

/-- The profile when its pulses are built. -/
theorem Fresh.samePulses (h : Fresh c base p s w) (hwrites : SameWrites s w) (longest : F × F) :
    SamePulses c p
      (definePulses c (buildAxes (select c (baseBuild base s p) p) p p.numPoints.toNat longest) p
        p.pulseAxis.toNat)
      (definePulses c (buildAxes (select c (baseBuild base w p) p) p p.numPoints.toNat longest) p
        p.pulseAxis.toNat) where
  positions i hi := by
    rw [definePulses_axes, definePulses_axes, (buildAxes_path _ longest _).1,
      (buildAxes_path _ longest _).1]
    exact select_positions hwrites.baseBuild (h.2.2.1 i hi)
  pulses hmode i hi :=
    definePulses_pulses (hwrites.baseBuild.buildAxes longest) (h.2.2.2.1 hmode i hi)
  range hfixed hpoints := by
    rw [definePulses_range, definePulses_range]
    exact h.2.2.2.2 hfixed hpoints

/-- A build that succeeds gives the same on what the user's writes have left. -/
theorem build_ok_alone (hwrites : SameWrites s w)
    (hfresh : Accepted c p r → Fresh c base p s w) {b : Built F}
    (h : (build c base s p r).2 = .ok b) : (build c base w p r).2 = .ok b := by
  unfold build at h ⊢
  simp only at h ⊢
  cases hout : (buildPath c (baseBuild base s p) p r).2 with
  | error message =>
    rw [hout] at h
    cases h
  | ok out =>
    have hfresh := hfresh (accepted_of_ok hout)
    obtain ⟨hchecked, longest, hplan⟩ := buildPath_ok hout
    have halike := hfresh.alike hwrites
    have hplan' := (accelPlan_congr halike hchecked.2.1.1).symm.trans hplan
    rw [buildPath_eq hchecked hplan] at hout h
    rw [buildPath_eq hchecked hplan']
    obtain ⟨hout', hbuilt⟩ :=
      buildPulses_congr ((halike.buildAxes hchecked.2.1.1 longest).definePulses p.pulseAxis.toNat)
        (hfresh.samePulses hwrites longest) hout
    rw [hout] at h
    rw [hout']
    obtain rfl := Except.ok.inj h
    exact congrArg Except.ok hbuilt.symm

/-! ## All builds -/

omit [Double F] in
theorem SameWrites.trans {v : SpiiProfile F} (h : SameWrites s w) (h' : SameWrites w v) :
    SameWrites s v :=
  ⟨fun addr => (h.positions addr).trans (h'.positions addr), h.pulses.trans h'.pulses⟩

theorem select_writes : SameWrites (select c s p) s := ⟨select_positionsUser s, rfl⟩

theorem definePulses_writes (pulseAxis : Nat) : SameWrites (definePulses c s p pulseAxis) s := by
  rw [definePulses_eq]
  exact ⟨fun _ => rfl, rfl⟩

theorem buildPulses_writes (pulseAxis : Nat) :
    SameWrites (buildPulses c s p r n pulseAxis).1 s := by
  unfold buildPulses
  simp only
  split
  · exact ⟨fun _ => rfl, rfl⟩
  · split
    · split
      · exact ⟨fun _ => rfl, rfl⟩
      · exact ⟨fun _ => rfl, rfl⟩
    · split
      · split
        · exact ⟨fun _ => rfl, rfl⟩
        · exact ⟨fun _ => rfl, rfl⟩
      · exact ⟨fun _ => rfl, rfl⟩

/-- A build leaves what the user has written. -/
theorem build_writes : SameWrites (build c base s p r).1 s := by
  have hselect : SameWrites (select c (baseBuild base s p) p) s :=
    select_writes.trans ⟨fun _ => rfl, rfl⟩
  unfold build buildPath
  simp only
  split
  · exact hselect
  · split
    · exact hselect
    · split
      · exact hselect
      · split
        · exact hselect
        · refine (buildPulses_writes _).trans ((definePulses_writes _).trans ?_)
          exact ⟨fun axis => (buildAxes_path _ _ axis).2.trans (hselect.positions axis), rfl⟩

theorem SameWrites.defineAxisProfile (h : SameWrites s w) (addr : Nat) (positions : List F) :
    SameWrites (defineAxisProfile c base s p addr positions)
      (AcsMotion.defineAxisProfile c base w p addr positions) := by
  have hdefine : ∀ path : AxisPath F, (path.define c base p addr positions).positionsUser =
      write c.maxPoints path.positionsUser positions := by
    intro path
    unfold AxisPath.define
    simp only
    split
    · rfl
    · rfl
  unfold AcsMotion.defineAxisProfile
  by_cases haddr : addr < c.numAxes
  · rw [if_pos haddr, if_pos haddr]
    refine ⟨fun axis => ?_, h.pulses⟩
    simp only
    by_cases hsame : axis = addr
    · rw [if_pos hsame, if_pos hsame, hdefine, hdefine, h.positions]
    · rw [if_neg hsame, if_neg hsame, h.positions]
  · rw [if_neg haddr, if_neg haddr]
    exact h

omit [Double F] in
theorem SameWrites.writePulsePositions (h : SameWrites s w) (addr : Nat) (value : List F) :
    SameWrites (writePulsePositions c s addr value)
      (AcsMotion.writePulsePositions c w addr value) := by
  unfold AcsMotion.writePulsePositions
  by_cases haddr : addr < c.numAxes
  · rw [if_pos haddr, if_pos haddr]
    exact ⟨h.positions, by rw [h.pulses]⟩
  · rw [if_neg haddr, if_neg haddr]
    exact h

theorem sameWrites_of_run {s : ProfileSession F} (h : (profileSessions c base).Reachable s) :
    SameWrites s.profile s.written := by
  refine h.invariant (P := fun s => SameWrites s.profile s.written) ?_ ?_
  · rintro s ⟨p, rfl⟩
    exact ⟨fun _ => rfl, rfl⟩
  · rintro s e t hs rfl
    cases e with
    | params p => exact hs
    | define addr positions => exact hs.defineAxisProfile addr positions
    | times values => exact ⟨hs.positions, hs.pulses⟩
    | pulses addr value => exact hs.writePulsePositions addr value
    | build r => exact build_writes.trans hs

/-- In every run whose builds are fresh, a build that succeeds gives what it would give had none of
the builds before it been made. -/
theorem build_alone {s : ProfileSession F}
    (h : ((profileSessions c base).restrict (FreshBuild c base)).Reachable s) :
    ∀ x ∈ s.builds, ∀ b, x.outcome = .ok b →
      (build c base x.written x.params x.replies).2 = .ok b := by
  refine h.invariant_of (P := fun s => ∀ x ∈ s.builds, ∀ b, x.outcome = .ok b →
    (build c base x.written x.params x.replies).2 = .ok b)
    (fun s hs => sameWrites_of_run hs.of_restrict) ?_ ?_
  · rintro s ⟨p, rfl⟩ x hx
    cases hx
  · rintro s e t hwrites hs ⟨rfl, hfresh⟩
    cases e with
    | build r =>
      intro x hx b hb
      obtain hx | hx := List.mem_append.1 hx
      · exact hs x hx b hb
      · obtain rfl := List.mem_singleton.1 hx
        exact build_ok_alone hwrites hfresh hb
    | _ => exact hs

end

/-! ## An offset of 100 -/

structure Exact where
  val : Rat
  deriving DecidableEq

/-- Exact arithmetic, as `f64` is on these values up to rounding. -/
instance : Double Exact where
  add x y := ⟨x.val + y.val⟩
  sub x y := ⟨x.val - y.val⟩
  neg x := ⟨-x.val⟩
  mul x y := ⟨x.val * y.val⟩
  div x y := ⟨x.val / y.val⟩
  ofInt n := ⟨n⟩
  half := ⟨1 / 2⟩
  tenMs := ⟨1 / 100⟩
  margin := ⟨9 / 10⟩
  abs x := ⟨if x.val < 0 then -x.val else x.val⟩
  max x y := ⟨if x.val < y.val then y.val else x.val⟩
  isZero x := x.val = 0
  round x := if x.val < 0 then -(-x.val + 1 / 2).floor else (x.val + 1 / 2).floor

/-- Steps by the record's resolution, offset and direction; a fixed time fills the array. -/
def motorBase : Base Exact where
  defineProfile p addr positions := do
    let resolution ← p.recResolution addr
    let offset ← p.recOffset addr
    let direction ← p.recDirection addr
    some fun i => (positions.getD i ⟨0⟩ - offset) * scale resolution direction
  writeTimes := write 4
  buildProfile p times :=
    if p.timeMode = 0 then fun i => if i < p.numPoints.toNat then p.timePerPoint else ⟨0⟩
    else times

def oneAxis : Sizes := ⟨1, 4, 2⟩

/-- Four points of half a second and two pulses on axis 0, 0.1 a step and half a unit a step. -/
def fourPoints (moveMode pulseMode : Int) : Params Exact where
  moveMode
  numPoints := 4
  timeMode := 0
  timePerPoint := ⟨1 / 2⟩
  accelTime := ⟨1 / 10⟩
  pulseMode
  pulseAxis := 0
  numPulses := 2
  startPulses := 1
  endPulses := 3
  useAxis _ := 1
  position _ := ⟨0⟩
  recResolution _ := some ⟨1 / 10⟩
  recOffset _ := some ⟨100⟩
  recDirection _ := some 0
  resolution _ := ⟨1 / 2⟩

def servo : Replies Exact where
  query
    | .xvel, _ => .ok ⟨100⟩
    | .xacc, _ => .ok ⟨1000⟩
  putDoubleArray := .ok ()

/-- The positions 0 to 3 and the pulses 1 and 2 are written, and a build made of them. -/
def builtOnce (moveMode pulseMode : Int) : ProfileSession Exact :=
  [ProfileEvent.define 0 [⟨0⟩, ⟨1⟩, ⟨2⟩, ⟨3⟩], .pulses 0 [⟨1⟩, ⟨2⟩], .build servo].foldl
    (ProfileSession.after oneAxis motorBase) ⟨fourPoints moveMode pulseMode, .new, .new, []⟩

/-- A relative build made twice. -/
def builtTwice : ProfileSession Exact :=
  (builtOnce relative 1).after oneAxis motorBase (.build servo)

theorem builtTwice_reachable :
    ((profileSessions oneAxis motorBase).restrict (FreshBuild oneAxis motorBase)).Reachable
      builtTwice := by
  refine ⟨_, [.define 0 [⟨0⟩, ⟨1⟩, ⟨2⟩, ⟨3⟩], .pulses 0 [⟨1⟩, ⟨2⟩], .build servo, .build servo],
    ⟨fourPoints relative 1, rfl⟩, ?_⟩
  refine System.Run.cons ⟨rfl, trivial⟩ (System.Run.cons ⟨rfl, trivial⟩
    (System.Run.cons ⟨rfl, fun _ => ?_⟩ (System.Run.single ⟨rfl, fun _ => ?_⟩)))
  · decide +kernel
  · decide +kernel

theorem build_alone_twice :
    (builtTwice.builds.length = 2 ∧ ∀ x ∈ builtTwice.builds, x.outcome.isOk) ∧
      ∀ x ∈ builtTwice.builds, ∀ b, x.outcome = .ok b →
        (build oneAxis motorBase x.written x.params x.replies).2 = .ok b :=
  ⟨by decide +kernel, build_alone builtTwice_reachable⟩

/-- An absolute build behind a relative one. -/
def absoluteAfter : ProfileSession Exact :=
  ((builtOnce relative 3).after oneAxis motorBase (.params (fourPoints absolute 3))).after oneAxis
    motorBase (.build servo)

theorem absoluteAfter_reachable : (profileSessions oneAxis motorBase).Reachable absoluteAfter :=
  ⟨_, [.define 0 [⟨0⟩, ⟨1⟩, ⟨2⟩, ⟨3⟩], .pulses 0 [⟨1⟩, ⟨2⟩], .build servo,
      .params (fourPoints absolute 3), .build servo], ⟨fourPoints relative 3, rfl⟩,
    System.Run.cons rfl (System.Run.cons rfl (System.Run.cons rfl (System.Run.cons rfl
      (System.Run.single rfl))))⟩

/-- It flies back to 15 in place of -485: the relative build has taken the offset out of the
positions. -/
theorem absoluteAfter_flyback :
    ∃ x ∈ absoluteAfter.builds, x.params.moveMode = absolute ∧
      x.outcome.toOption.map Built.flyback = some [⟨15⟩] ∧
      (build oneAxis motorBase x.written x.params x.replies).2.toOption.map Built.flyback =
        some [⟨-485⟩] := by
  decide +kernel

theorem absolute_after_relative :
    ¬∀ s, (profileSessions oneAxis motorBase).Reachable s → ∀ x ∈ s.builds, ∀ b,
      x.outcome = .ok b → (build oneAxis motorBase x.written x.params x.replies).2 = .ok b := by
  intro hall
  obtain ⟨x, hx, -, hflyback, halone⟩ := absoluteAfter_flyback
  cases hout : x.outcome with
  | error message =>
    rw [hout] at hflyback
    cases hflyback
  | ok b =>
    rw [hall absoluteAfter absoluteAfter_reachable x hx b hout] at halone
    rw [hout, halone] at hflyback
    exact absurd hflyback (by decide +kernel)

end AcsMotion
