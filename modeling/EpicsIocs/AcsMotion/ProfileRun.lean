import Mathlib.Data.List.Pairwise
import EpicsIocs.Lib.Steps

/-! # The point buffer of a profile run

The loops of `run_path` (`run.rs`): the first 50 segments, a segment for each one that the
controller has executed, and the wait for the last ones.  The controller executes between any two
commands, a query may fail, and the run may be halted at any time.

Each segment is sent once and in order, into a buffer with room for it, and the point that is
posted never decreases and is one of the profile's (`run_streams`), as long as a failed query
keeps no count above what is free and no query of the first loop finds the motors behind the
profile's points. -/

namespace AcsMotion

open Steps

/-! ## The code -/

/-- The controller's segment buffer. -/
def pointBuffer : Nat := 50

/-- What the loops read of `RunPlan`, with its pulse range as `run_path` has checked it.  `spread`
is the `f64` expression of `current_pulse`, rounded: of the point and the pulse range. -/
structure RunPlan where
  fullSize : Nat
  numAccel : Nat
  numDecel : Nat
  numPoints : Int
  startPulses : Int
  endPulses : Int
  numPulses : Int
  pulseMode : Int
  spread : Int → Int → Int → Int → Int
  full : (fullSize : Int) = numAccel + (numPoints - 1) + numDecel
  pulses : 1 ≤ startPulses ∧ startPulses ≤ endPulses ∧ endPulses ≤ numPoints

/-- The pulse output has reached by `currentPoint`. -/
def RunPlan.currentPulse (plan : RunPlan) (currentPoint : Int) : Int :=
  if plan.pulseMode = 3 ∨ currentPoint < plan.startPulses then 0
  else if plan.endPulses < currentPoint then plan.numPulses
  else plan.spread currentPoint plan.startPulses plan.endPulses plan.numPulses

inductive Command where
  | path
  | point (index : Nat)
  | go
  | gsfree
  | ends
  | stopDc
  | stopPeg
  deriving DecidableEq, Repr

/-- Where `run_path` is: in the first fill, before and in the first loop, with the points up to
`stop` to send, and in the second. -/
inductive Stage where
  | fill (point : Nat)
  | starting
  | loading
  | asking
  | sending (point stop : Nat)
  | waiting
  | askingLast
  | done
  | aborted (message : String)
  deriving DecidableEq, Repr

/-- `queued` segments are in the controller's buffer. -/
structure Run where
  stage : Stage := .fill 0
  loaded : Int := 0
  executed : Int := 0
  free : Int := 0
  halted : Bool := false
  queued : Nat := 0
  sent : List Command := []
  posted : List (Int × Int) := []
  deriving DecidableEq, Repr

namespace Run

variable (plan : RunPlan)

/-- The run when the profile is about to be loaded. -/
def start : Run where
  sent := [.path]
  posted := [(0, plan.currentPulse 0)]

def send (s : Run) (c : Command) : Run := { s with sent := s.sent ++ [c] }

def sendPoint (s : Run) (point : Nat) : Run :=
  { s.send (.point point) with queued := s.queued + 1 }

def setPoint (s : Run) (currentPoint actualPulses : Int) : Run :=
  { s with posted := s.posted ++ [(currentPoint, actualPulses)] }

def stop (s : Run) : Run :=
  { (s.send .stopDc).send .stopPeg with stage := .aborted "Aborted during profile move" }

/-- The last count when the query fails. -/
def freePoints (s : Run) (answered : Bool) : Int :=
  if answered then (pointBuffer : Int) - s.queued else s.free

/-- The posted point at the end of a round of the first loop. -/
def postLoaded (s : Run) : Run :=
  if plan.numAccel < s.executed then
    s.setPoint (s.executed - plan.numAccel) (plan.currentPulse (s.executed - plan.numAccel))
  else s.setPoint 0 0

/-- The posted point at the end of a round of the second loop. -/
def postWaited (s : Run) : Run :=
  if s.executed < plan.numAccel then s.setPoint 0 0
  else if s.executed < plan.numAccel + plan.numPoints then
    s.setPoint (s.executed - plan.numAccel) (plan.currentPulse (s.executed - plan.numAccel))
  else s.setPoint plan.numPoints (plan.currentPulse plan.numPoints)

/-- The thread's next command, or test; `answered` is whether a query succeeds. -/
def next (s : Run) (answered : Bool) : Run :=
  match s.stage with
  | .fill point =>
    if point < min plan.fullSize pointBuffer then
      { s.sendPoint point with loaded := s.loaded + 1, stage := .fill (point + 1) }
    else if pointBuffer < plan.fullSize then { s.send .go with stage := .loading }
    else { s.send .ends with stage := .starting }
  | .starting => { s.send .go with stage := .waiting }
  | .loading =>
    if s.loaded < plan.fullSize then
      if s.halted then s.stop else { s with stage := .asking }
    else { s.send .ends with stage := .waiting }
  | .asking =>
    let free := s.freePoints answered
    { s.send .gsfree with
      free, executed := s.executed + free
      stage := .sending s.loaded.toNat (min (s.loaded + free) plan.fullSize).toNat }
  | .sending point stop =>
    if point < stop then { s.sendPoint point with stage := .sending (point + 1) stop }
    else { postLoaded plan { s with loaded := s.loaded + s.free } with stage := .loading }
  | .waiting =>
    if s.executed < plan.fullSize then
      if s.halted then s.stop else { s with stage := .askingLast }
    else { (if plan.pulseMode = 3 then s else s.send .stopPeg) with stage := .done }
  | .askingLast =>
    let free := s.freePoints answered
    { postWaited plan { s.send .gsfree with
        free, executed := plan.fullSize - pointBuffer + free } with
      stage := .waiting }
  | .done => s
  | .aborted _ => s

end Run

/-- The controller executes segments, a client halts the run, the thread goes on. -/
inductive RunEvent where
  | execute (segments : Nat)
  | halt
  | next (answered : Bool)
  deriving DecidableEq, Repr

def Run.after (plan : RunPlan) (s : Run) : RunEvent → Run
  | .execute segments => { s with queued := s.queued - segments }
  | .halt => { s with halted := true }
  | .next answered => s.next plan answered

def runs (plan : RunPlan) : System Run RunEvent :=
  .ofFun (· = Run.start plan) fun s e => some (s.after plan e)

/-- A failed query keeps a count of segments that are free, and in the first loop no more than the
profile's points are executed. -/
def Sane (plan : RunPlan) (s : Run) : RunEvent → Prop
  | .next answered =>
    ((s.stage = .asking ∨ s.stage = .askingLast) → answered = false →
      s.free ≤ (pointBuffer : Int) - s.queued) ∧
    (s.stage = .asking → s.executed + s.freePoints answered ≤ plan.numAccel + plan.numPoints)
  | _ => True

instance (plan : RunPlan) (s : Run) : (e : RunEvent) → Decidable (Sane plan s e)
  | .next _ => inferInstanceAs (Decidable (_ ∧ _))
  | .execute _ => isTrue trivial
  | .halt => isTrue trivial

/-- The indices of the points sent. -/
def Run.points (s : Run) : List Nat :=
  s.sent.filterMap fun
    | .point index => some index
    | _ => none

/-! ## The profile's points -/

section
variable (plan : RunPlan)

/-- The profile's point when `executed` segments are. -/
def RunPlan.pointAt (executed : Int) : Int :=
  if executed < plan.numAccel then 0 else min (executed - plan.numAccel) plan.numPoints

theorem RunPlan.numPoints_pos : 1 ≤ plan.numPoints := by
  have h := plan.pulses
  omega

theorem RunPlan.pointAt_nonneg (executed : Int) : 0 ≤ plan.pointAt executed := by
  have h := plan.numPoints_pos
  unfold pointAt
  split
  · omega
  · omega

theorem RunPlan.pointAt_le (executed : Int) : plan.pointAt executed ≤ plan.numPoints := by
  have h := plan.numPoints_pos
  unfold pointAt
  split
  · omega
  · omega

theorem RunPlan.pointAt_mono {executed later : Int} (h : executed ≤ later) :
    plan.pointAt executed ≤ plan.pointAt later := by
  have hpos := plan.numPoints_pos
  unfold pointAt
  split
  · split
    · omega
    · omega
  · split
    · omega
    · omega

/-- No pulses before the profile's first point. -/
theorem RunPlan.currentPulse_zero : plan.currentPulse 0 = 0 := by
  have h := plan.pulses
  exact if_pos (.inr (by omega))

namespace Run

variable {plan} {s : Run}

/-- What both loops post. -/
theorem postLoaded_eq (h : s.executed ≤ plan.numAccel + plan.numPoints) :
    s.postLoaded plan =
      s.setPoint (plan.pointAt s.executed) (plan.currentPulse (plan.pointAt s.executed)) := by
  have hpos := plan.numPoints_pos
  unfold postLoaded RunPlan.pointAt
  by_cases hreached : (plan.numAccel : Int) < s.executed
  · rw [if_pos hreached, if_neg (by omega), Int.min_eq_left (by omega)]
  · rw [if_neg hreached]
    by_cases hbefore : s.executed < plan.numAccel
    · rw [if_pos hbefore, plan.currentPulse_zero]
    · have hzero : s.executed - plan.numAccel = 0 := by omega
      rw [if_neg hbefore, hzero, Int.min_eq_left (by omega), plan.currentPulse_zero]

theorem postWaited_eq :
    s.postWaited plan =
      s.setPoint (plan.pointAt s.executed) (plan.currentPulse (plan.pointAt s.executed)) := by
  unfold postWaited RunPlan.pointAt
  by_cases hbefore : s.executed < plan.numAccel
  · rw [if_pos hbefore, if_pos hbefore, plan.currentPulse_zero]
  · rw [if_neg hbefore, if_neg hbefore]
    by_cases hinside : s.executed < plan.numAccel + plan.numPoints
    · rw [if_pos hinside, Int.min_eq_left (by omega)]
    · rw [if_neg hinside, Int.min_eq_right (by omega)]

theorem points_send (c : Command) (h : ∀ index, c ≠ .point index) :
    (s.send c).points = s.points := by
  unfold points send
  simp only [List.filterMap_append]
  cases c with
  | point index => exact absurd rfl (h index)
  | _ => simp

theorem points_sendPoint (point : Nat) : (s.sendPoint point).points = s.points ++ [point] := by
  simp [points, sendPoint, send]

end Run

/-! ## The invariant -/

/-- The counts where the thread is. -/
def Run.At (s : Run) : Stage → Prop
  | .fill point => s.points.length = point ∧ s.loaded = point ∧ s.executed = 0 ∧ s.free = 0 ∧
      point ≤ min plan.fullSize pointBuffer ∧ s.queued ≤ point ∧ ∀ x ∈ s.posted, x.1 ≤ 0
  | .starting => plan.fullSize ≤ pointBuffer ∧ s.points.length = plan.fullSize ∧
      ∀ x ∈ s.posted, x.1 ≤ 0
  | .loading => s.loaded = s.executed + pointBuffer ∧
      (s.points.length : Int) = min s.loaded plan.fullSize ∧ 0 ≤ s.executed ∧
      s.executed ≤ s.points.length - s.queued ∧ s.loaded ≤ plan.fullSize + s.free ∧
      ∀ x ∈ s.posted, x.1 ≤ plan.pointAt s.executed
  | .asking => s.loaded = s.executed + pointBuffer ∧ s.loaded < plan.fullSize ∧
      (s.points.length : Int) = s.loaded ∧ 0 ≤ s.executed ∧
      s.executed ≤ s.points.length - s.queued ∧ ∀ x ∈ s.posted, x.1 ≤ plan.pointAt s.executed
  | .sending point stop => s.loaded + s.free = s.executed + pointBuffer ∧
      s.loaded < plan.fullSize ∧ s.points.length = point ∧ point ≤ stop ∧
      (stop : Int) = min (s.loaded + s.free) plan.fullSize ∧ 0 ≤ s.executed ∧
      s.executed ≤ s.points.length - s.queued ∧ s.executed ≤ plan.numAccel + plan.numPoints ∧
      s.queued + (stop - point) ≤ pointBuffer ∧ ∀ x ∈ s.posted, x.1 ≤ plan.pointAt s.executed
  | .waiting => s.points.length = plan.fullSize ∧
      ∀ x ∈ s.posted, x.1 ≤ plan.pointAt (plan.fullSize - pointBuffer + s.free)
  | .askingLast => s.points.length = plan.fullSize ∧
      ∀ x ∈ s.posted, x.1 ≤ plan.pointAt (plan.fullSize - pointBuffer + s.free)
  | .done => s.points.length = plan.fullSize
  | .aborted _ => True

/-- Points of the profile with their pulses, none behind a later one. -/
structure Orderly (posted : List (Int × Int)) : Prop where
  inside : ∀ x ∈ posted, 0 ≤ x.1 ∧ x.1 ≤ plan.numPoints ∧ x.2 = plan.currentPulse x.1
  sorted : posted.Pairwise fun x y => x.1 ≤ y.1

structure Run.Inv (s : Run) : Prop where
  points : s.points = List.range s.points.length
  inside : s.points.length ≤ plan.fullSize
  queued : s.queued ≤ pointBuffer
  free : 0 ≤ s.free
  orderly : Orderly plan s.posted
  reached : ∀ x ∈ s.posted, x.1 ≤ plan.pointAt (s.points.length - s.queued)
  ends : Command.ends ∈ s.sent → s.points.length = plan.fullSize
  stage : s.At plan s.stage

variable {plan}

theorem Orderly.snoc {posted : List (Int × Int)} (h : Orderly plan posted) {executed : Int}
    (hle : ∀ x ∈ posted, x.1 ≤ plan.pointAt executed) :
    Orderly plan (posted ++ [(plan.pointAt executed,
      plan.currentPulse (plan.pointAt executed))]) where
  inside x hx := by
    obtain hx | hx := List.mem_append.1 hx
    · exact h.inside x hx
    · obtain rfl := List.mem_singleton.1 hx
      exact ⟨plan.pointAt_nonneg executed, plan.pointAt_le executed, rfl⟩
  sorted := by
    refine List.pairwise_append.2 ⟨h.sorted, List.pairwise_singleton _ _, fun x hx y hy => ?_⟩
    obtain rfl := List.mem_singleton.1 hy
    exact hle x hx

theorem le_snoc {posted : List (Int × Int)} {executed later : Int} {pulses : Int}
    (hle : ∀ x ∈ posted, x.1 ≤ plan.pointAt executed) (h : executed ≤ later) :
    ∀ x ∈ posted ++ [(plan.pointAt executed, pulses)], x.1 ≤ plan.pointAt later := by
  intro x hx
  have hmono := plan.pointAt_mono h
  obtain hx | hx := List.mem_append.1 hx
  · exact Int.le_trans (hle x hx) hmono
  · obtain rfl := List.mem_singleton.1 hx
    exact hmono

namespace Run

variable {s : Run}

theorem inv_start : (start plan).Inv plan where
  points := rfl
  inside := Nat.zero_le _
  queued := Nat.zero_le _
  free := Int.le_refl _
  orderly := by
    refine ⟨fun x hx => ?_, List.pairwise_singleton _ _⟩
    obtain rfl := List.mem_singleton.1 hx
    have hpos := plan.numPoints_pos
    refine ⟨Int.le_refl _, ?_, rfl⟩
    show (0 : Int) ≤ plan.numPoints
    omega
  reached x hx := by
    obtain rfl := List.mem_singleton.1 hx
    exact plan.pointAt_nonneg _
  ends hends := by simp [start] at hends
  stage := by
    refine ⟨rfl, rfl, rfl, rfl, Nat.zero_le _, Nat.le_refl _, fun x hx => ?_⟩
    obtain rfl := List.mem_singleton.1 hx
    exact Int.le_refl _

/-- The controller executes, and what is counted of it is still behind. -/
theorem Inv.execute (h : s.Inv plan) (segments : Nat) :
    Inv plan { s with queued := s.queued - segments } := by
  have hle : s.queued - segments ≤ s.queued := Nat.sub_le _ _
  refine ⟨h.points, h.inside, Nat.le_trans hle h.queued, h.free, h.orderly, fun x hx => ?_, h.ends,
    ?_⟩
  · refine Int.le_trans (h.reached x hx) (plan.pointAt_mono ?_)
    show (s.points.length : Int) - s.queued ≤ s.points.length - (s.queued - segments : Nat)
    omega
  · have hstage := h.stage
    show Run.At plan { s with queued := s.queued - segments } s.stage
    cases hs : s.stage with
    | fill point =>
      rw [hs] at hstage
      obtain ⟨h1, h2, h3, h4, h5, h6, h7⟩ := hstage
      exact ⟨h1, h2, h3, h4, h5, Nat.le_trans hle h6, h7⟩
    | loading =>
      rw [hs] at hstage
      obtain ⟨h1, h2, h3, h4, h5, h6⟩ := hstage
      refine ⟨h1, h2, h3, ?_, h5, h6⟩
      show s.executed ≤ s.points.length - (s.queued - segments : Nat)
      omega
    | asking =>
      rw [hs] at hstage
      obtain ⟨h1, h2, h3, h4, h5, h6⟩ := hstage
      refine ⟨h1, h2, h3, h4, ?_, h6⟩
      show s.executed ≤ s.points.length - (s.queued - segments : Nat)
      omega
    | sending point stop =>
      rw [hs] at hstage
      obtain ⟨h1, h2, h3, h4, h5, h6, h7, h8, h9, h10⟩ := hstage
      refine ⟨h1, h2, h3, h4, h5, h6, ?_, h8, ?_, h10⟩
      · show s.executed ≤ s.points.length - (s.queued - segments : Nat)
        omega
      · show s.queued - segments + (stop - point) ≤ pointBuffer
        omega
    | starting =>
      rw [hs] at hstage
      exact hstage
    | waiting =>
      rw [hs] at hstage
      exact hstage
    | askingLast =>
      rw [hs] at hstage
      exact hstage
    | done =>
      rw [hs] at hstage
      exact hstage
    | aborted message => trivial

/-- A segment more in the buffer, with the counts where the thread is then. -/
theorem Inv.point (h : s.Inv plan) (hroom : s.queued < pointBuffer)
    (hmore : s.points.length < plan.fullSize) {t : Run}
    (ht : t.points = s.points ++ [s.points.length]) (hqueued : t.queued = s.queued + 1)
    (hfree : t.free = s.free) (hposted : t.posted = s.posted)
    (hsent : Command.ends ∈ t.sent → Command.ends ∈ s.sent) (hstage : t.At plan t.stage) :
    t.Inv plan := by
  have hlength : t.points.length = s.points.length + 1 := by
    rw [ht, List.length_append, List.length_singleton]
  refine ⟨?_, by omega, by omega, hfree ▸ h.free, hposted ▸ h.orderly, fun x hx => ?_, ?_, hstage⟩
  · rw [hlength, List.range_succ, ht, ← h.points]
  · rw [hposted] at hx
    have hsame : (t.points.length : Int) - t.queued = s.points.length - s.queued := by omega
    rw [hsame]
    exact h.reached x hx
  · intro hends
    have hfull := h.ends (hsent hends)
    omega

/-- No segment more. -/
theorem Inv.other (h : s.Inv plan) {t : Run} (ht : t.points = s.points)
    (hqueued : t.queued = s.queued) (hfree : 0 ≤ t.free) (horderly : Orderly plan t.posted)
    (hreached : ∀ x ∈ t.posted, x.1 ≤ plan.pointAt (s.points.length - s.queued))
    (hsent : Command.ends ∈ t.sent → s.points.length = plan.fullSize)
    (hstage : t.At plan t.stage) : t.Inv plan := by
  refine ⟨?_, ?_, hqueued ▸ h.queued, hfree, horderly, ?_, ?_, hstage⟩
  · rw [ht]
    exact h.points
  · rw [ht]
    exact h.inside
  · rw [ht, hqueued]
    exact hreached
  · rw [ht]
    exact hsent

theorem ends_send {c : Command} (hc : c ≠ .ends) (h : Command.ends ∈ (s.send c).sent) :
    Command.ends ∈ s.sent := by
  obtain h | h := List.mem_append.1 h
  · exact h
  · exact absurd (List.mem_singleton.1 h).symm hc

/-! ## The thread's steps -/

theorem Inv.next_fill (h : s.Inv plan) {point : Nat} (hs : s.stage = .fill point)
    (answered : Bool) : (s.next plan answered).Inv plan := by
  have hstage := h.stage
  rw [hs] at hstage
  obtain ⟨hlength, hloaded, hexecuted, hfree, hle, hqueued, hposted⟩ := hstage
  unfold next
  rw [hs]
  simp only
  by_cases hmore : point < min plan.fullSize pointBuffer
  · rw [if_pos hmore]
    refine h.point (by omega) (by omega) ?_ rfl rfl rfl (ends_send (by simp)) ?_
    · rw [hlength]
      exact points_sendPoint point
    · refine ⟨?_, ?_, hexecuted, hfree, hmore, Nat.succ_le_succ hqueued, hposted⟩
      · have hpoints := points_sendPoint (s := s) point
        show (s.sendPoint point).points.length = point + 1
        rw [hpoints, List.length_append, hlength, List.length_singleton]
      · show s.loaded + 1 = ((point + 1 : Nat) : Int)
        omega
  · rw [if_neg hmore]
    by_cases hlong : pointBuffer < plan.fullSize
    · have hgo := points_send (s := s) .go (by simp)
      rw [if_pos hlong]
      refine h.other hgo rfl h.free h.orderly h.reached (fun hends => h.ends (ends_send (by simp) hends))
        ⟨?_, ?_, ?_, ?_, ?_, fun x hx => ?_⟩
      · show s.loaded = s.executed + pointBuffer
        omega
      · show ((s.send .go).points.length : Int) = min s.loaded plan.fullSize
        rw [hgo]
        omega
      · show 0 ≤ s.executed
        omega
      · show s.executed ≤ (s.send .go).points.length - s.queued
        rw [hgo]
        omega
      · show s.loaded ≤ plan.fullSize + s.free
        omega
      · exact Int.le_trans (hposted x hx) (plan.pointAt_nonneg _)
    · have hends := points_send (s := s) .ends (by simp)
      rw [if_neg hlong]
      refine h.other hends rfl h.free h.orderly h.reached (fun _ => by omega) ⟨by omega, ?_, hposted⟩
      show (s.send .ends).points.length = plan.fullSize
      rw [hends]
      omega

theorem Inv.next_starting (h : s.Inv plan) (hs : s.stage = .starting) (answered : Bool) :
    (s.next plan answered).Inv plan := by
  have hstage := h.stage
  rw [hs] at hstage
  obtain ⟨hshort, hlength, hposted⟩ := hstage
  have hgo := points_send (s := s) .go (by simp)
  unfold next
  rw [hs]
  simp only
  refine h.other hgo rfl h.free h.orderly h.reached (fun _ => hlength) ⟨?_, fun x hx => ?_⟩
  · show (s.send .go).points.length = plan.fullSize
    rw [hgo, hlength]
  · exact Int.le_trans (hposted x hx) (plan.pointAt_nonneg _)

theorem inv_stop (h : s.Inv plan) : s.stop.Inv plan := by
  have hpoints : s.stop.points = s.points :=
    (points_send (s := s.send .stopDc) .stopPeg (by simp)).trans (points_send .stopDc (by simp))
  refine h.other hpoints rfl h.free h.orderly h.reached (fun hends => h.ends ?_) trivial
  exact ends_send (by simp) (ends_send (s := s.send .stopDc) (by simp) hends)

theorem Inv.next_loading (h : s.Inv plan) (hs : s.stage = .loading) (answered : Bool) :
    (s.next plan answered).Inv plan := by
  have hstage := h.stage
  rw [hs] at hstage
  obtain ⟨hloaded, hlength, hpos, hbehind, hover, hposted⟩ := hstage
  unfold next
  rw [hs]
  simp only
  by_cases hmore : s.loaded < plan.fullSize
  · rw [if_pos hmore]
    by_cases hhalted : s.halted = true
    · rw [if_pos hhalted]
      exact inv_stop h
    · rw [if_neg hhalted]
      refine h.other rfl rfl h.free h.orderly h.reached h.ends ⟨hloaded, hmore, ?_, hpos, hbehind,
        hposted⟩
      show (s.points.length : Int) = s.loaded
      omega
  · have hends := points_send (s := s) .ends (by simp)
    rw [if_neg hmore]
    refine h.other hends rfl h.free h.orderly h.reached (fun _ => by omega) ⟨?_, fun x hx => ?_⟩
    · show (s.send .ends).points.length = plan.fullSize
      rw [hends]
      omega
    · refine Int.le_trans (hposted x hx) (plan.pointAt_mono ?_)
      show s.executed ≤ plan.fullSize - pointBuffer + s.free
      omega

/-- The count that a sane query leaves is of segments that are free. -/
theorem freePoints_le {answered : Bool} (hs : s.stage = .asking ∨ s.stage = .askingLast)
    (hok : Sane plan s (.next answered)) :
    s.freePoints answered ≤ (pointBuffer : Int) - s.queued := by
  cases answered with
  | true => exact Int.le_refl _
  | false => exact hok.1 hs rfl

theorem Inv.freePoints_nonneg (h : s.Inv plan) (answered : Bool) : 0 ≤ s.freePoints answered := by
  have hqueued := h.queued
  cases answered with
  | true =>
    show 0 ≤ (pointBuffer : Int) - s.queued
    omega
  | false => exact h.free

theorem Inv.next_asking (h : s.Inv plan) (hs : s.stage = .asking) {answered : Bool}
    (hok : Sane plan s (.next answered)) : (s.next plan answered).Inv plan := by
  have hstage := h.stage
  rw [hs] at hstage
  obtain ⟨hloaded, hmore, hlength, hpos, hbehind, hposted⟩ := hstage
  have hfree := freePoints_le (.inl hs) hok
  have hnonneg := h.freePoints_nonneg answered
  have hwithin := hok.2 hs
  have hpoints := points_send (s := s) .gsfree (by simp)
  unfold next
  rw [hs]
  simp only
  refine h.other hpoints rfl hnonneg h.orderly h.reached
    (fun hends => h.ends (ends_send (by simp) hends))
    ⟨?_, hmore, ?_, ?_, ?_, ?_, ?_, hwithin, ?_, fun x hx => ?_⟩
  · show s.loaded + s.freePoints answered = s.executed + s.freePoints answered + pointBuffer
    omega
  · show (s.send .gsfree).points.length = s.loaded.toNat
    rw [hpoints]
    omega
  · omega
  · show (((min (s.loaded + s.freePoints answered) plan.fullSize).toNat : Nat) : Int) =
      min (s.loaded + s.freePoints answered) plan.fullSize
    omega
  · show 0 ≤ s.executed + s.freePoints answered
    omega
  · show s.executed + s.freePoints answered ≤ (s.send .gsfree).points.length - s.queued
    rw [hpoints]
    omega
  · show s.queued + ((min (s.loaded + s.freePoints answered) plan.fullSize).toNat -
      s.loaded.toNat) ≤ pointBuffer
    have hqueued := h.queued
    omega
  · refine Int.le_trans (hposted x hx) (plan.pointAt_mono ?_)
    show s.executed ≤ s.executed + s.freePoints answered
    omega

theorem Inv.next_sending (h : s.Inv plan) {point stop : Nat} (hs : s.stage = .sending point stop)
    (answered : Bool) : (s.next plan answered).Inv plan := by
  have hstage := h.stage
  rw [hs] at hstage
  obtain ⟨hloaded, hmore, hlength, hle, hstop, hpos, hbehind, hwithin, hroom, hposted⟩ := hstage
  have hfree := h.free
  unfold next
  rw [hs]
  simp only
  by_cases hnext : point < stop
  · have hpoints := points_sendPoint (s := s) point
    rw [if_pos hnext]
    refine h.point (by omega) (by omega) ?_ rfl rfl rfl (ends_send (by simp))
      ⟨hloaded, hmore, ?_, hnext, hstop, hpos, ?_, hwithin, ?_, hposted⟩
    · rw [hlength]
      exact hpoints
    · show (s.sendPoint point).points.length = point + 1
      rw [hpoints, List.length_append, hlength, List.length_singleton]
    · show s.executed ≤ (s.sendPoint point).points.length - (s.queued + 1 : Nat)
      rw [hpoints, List.length_append, List.length_singleton]
      omega
    · show s.queued + 1 + (stop - (point + 1)) ≤ pointBuffer
      omega
  · have hpost : postLoaded plan { s with stage := .sending point stop, loaded := s.loaded + s.free } =
        setPoint { s with stage := .sending point stop, loaded := s.loaded + s.free }
          (plan.pointAt s.executed) (plan.currentPulse (plan.pointAt s.executed)) :=
      postLoaded_eq hwithin
    rw [if_neg hnext, hpost]
    refine h.other rfl rfl hfree (h.orderly.snoc hposted) (le_snoc hposted hbehind) h.ends
      ⟨hloaded, ?_, hpos, hbehind, ?_, le_snoc hposted (Int.le_refl _)⟩
    · show (s.points.length : Int) = min (s.loaded + s.free) plan.fullSize
      omega
    · show s.loaded + s.free ≤ plan.fullSize + s.free
      omega

theorem Inv.next_waiting (h : s.Inv plan) (hs : s.stage = .waiting) (answered : Bool) :
    (s.next plan answered).Inv plan := by
  have hstage := h.stage
  rw [hs] at hstage
  obtain ⟨hlength, hposted⟩ := hstage
  unfold next
  rw [hs]
  simp only
  by_cases hmore : s.executed < plan.fullSize
  · rw [if_pos hmore]
    by_cases hhalted : s.halted = true
    · rw [if_pos hhalted]
      exact inv_stop h
    · rw [if_neg hhalted]
      exact h.other rfl rfl h.free h.orderly h.reached h.ends ⟨hlength, hposted⟩
  · rw [if_neg hmore]
    by_cases hmode : plan.pulseMode = 3
    · rw [if_pos hmode]
      exact h.other rfl rfl h.free h.orderly h.reached h.ends hlength
    · have hpoints := points_send (s := s) .stopPeg (by simp)
      rw [if_neg hmode]
      refine h.other hpoints rfl h.free h.orderly h.reached
        (fun hends => h.ends (ends_send (by simp) hends)) ?_
      show (s.send .stopPeg).points.length = plan.fullSize
      rw [hpoints, hlength]

theorem Inv.next_askingLast (h : s.Inv plan) (hs : s.stage = .askingLast) {answered : Bool}
    (hok : Sane plan s (.next answered)) : (s.next plan answered).Inv plan := by
  have hstage := h.stage
  rw [hs] at hstage
  obtain ⟨hlength, hposted⟩ := hstage
  have hfree := freePoints_le (.inr hs) hok
  have hpoints := points_send (s := s) .gsfree (by simp)
  -- The count is the last one, or tells what is executed.
  have hlast : ∀ x ∈ s.posted,
      x.1 ≤ plan.pointAt (plan.fullSize - pointBuffer + s.freePoints answered) := by
    cases answered with
    | true =>
      intro x hx
      refine Int.le_trans (h.reached x hx) (plan.pointAt_mono ?_)
      show (s.points.length : Int) - s.queued ≤
        plan.fullSize - pointBuffer + (pointBuffer - s.queued)
      omega
    | false => exact hposted
  unfold next
  rw [hs]
  simp only
  rw [postWaited_eq]
  refine h.other hpoints rfl (h.freePoints_nonneg answered) (h.orderly.snoc hlast)
    (le_snoc hlast ?_) (fun _ => hlength) ⟨?_, le_snoc hlast (Int.le_refl _)⟩
  · show (plan.fullSize : Int) - pointBuffer + s.freePoints answered ≤ s.points.length - s.queued
    omega
  · show (s.send .gsfree).points.length = plan.fullSize
    rw [hpoints, hlength]

theorem Inv.next (h : s.Inv plan) {answered : Bool} (hok : Sane plan s (.next answered)) :
    (s.next plan answered).Inv plan := by
  cases hs : s.stage with
  | fill point => exact h.next_fill hs answered
  | starting => exact h.next_starting hs answered
  | loading => exact h.next_loading hs answered
  | asking => exact h.next_asking hs hok
  | sending point stop => exact h.next_sending hs answered
  | waiting => exact h.next_waiting hs answered
  | askingLast => exact h.next_askingLast hs hok
  | done =>
    have hsame : s.next plan answered = s := by simp [Run.next, hs]
    rw [hsame]
    exact h
  | aborted message =>
    have hsame : s.next plan answered = s := by simp [Run.next, hs]
    rw [hsame]
    exact h

end Run

theorem inv_of_run {s : Run} (h : ((runs plan).restrict (Sane plan)).Reachable s) :
    s.Inv plan := by
  refine h.invariant ?_ ?_
  · rintro s rfl
    exact Run.inv_start
  · rintro s e t hs ⟨hstep, hok⟩
    obtain rfl := Option.some.inj hstep
    cases e with
    | execute segments => exact hs.execute segments
    | halt => exact ⟨hs.points, hs.inside, hs.queued, hs.free, hs.orderly, hs.reached, hs.ends, hs.stage⟩
    | next answered => exact hs.next hok

/-- In a sane run the segments go out once each and in order, into a buffer with room, ENDS behind
the last one, all of them unless the run aborts; the posted points never decrease, are points of
the profile, and have their pulses. -/
theorem run_streams {s : Run} (h : ((runs plan).restrict (Sane plan)).Reachable s) :
    s.points = List.range s.points.length ∧ s.points.length ≤ plan.fullSize ∧
      s.queued ≤ pointBuffer ∧
      (Command.ends ∈ s.sent → s.points = List.range plan.fullSize) ∧
      (s.stage = .done → s.points = List.range plan.fullSize) ∧
      (s.posted.Pairwise fun x y => x.1 ≤ y.1) ∧
      ∀ x ∈ s.posted, 0 ≤ x.1 ∧ x.1 ≤ plan.numPoints ∧ x.2 = plan.currentPulse x.1 := by
  have hinv := inv_of_run h
  refine ⟨hinv.points, hinv.inside, hinv.queued, fun hends => ?_, fun hdone => ?_,
    hinv.orderly.sorted, hinv.orderly.inside⟩
  · rw [← hinv.ends hends]
    exact hinv.points
  · have hstage := hinv.stage
    rw [hdone] at hstage
    have hall : s.points.length = plan.fullSize := hstage
    rw [← hall]
    exact hinv.points

end

/-! ## Runs of short profiles -/

/-- A pulse at each of the profile's points, ten segments before them. -/
def pulseEach (numPoints numDecel : Nat) (h : 1 ≤ numPoints := by decide) : RunPlan where
  fullSize := 10 + (numPoints - 1) + numDecel
  numAccel := 10
  numDecel
  numPoints
  startPulses := 1
  endPulses := numPoints
  numPulses := numPoints
  pulseMode := 0
  spread currentPoint startPulses _ _ := currentPoint - startPulses + 1
  full := by omega
  pulses := by omega

/-- The first fill, `GO` and the test for a halt, when `executed` segments are. -/
def filled (executed : Nat) : List RunEvent :=
  List.replicate 51 (.next true) ++ [.execute executed, .next true]

/-- Two segments behind the first 50, the last ones executed after them. -/
def wholeRun : List RunEvent :=
  filled 20 ++ List.replicate 6 (.next true) ++ [.execute 32] ++ List.replicate 4 (.next true)

theorem run_streams_whole :
    ∃ s : Run, s.stage = .done ∧ s.posted = [(0, 0), (10, 10), (32, 32)] ∧
      s.points = List.range 52 ∧ s.posted.Pairwise fun x y => x.1 ≤ y.1 := by
  have hrun : (wholeRun.foldlM (System.guarded (Sane (pulseEach 32 11))
      fun s e => some (s.after (pulseEach 32 11) e)) (Run.start (pulseEach 32 11))).map
        (fun s => (s.stage, s.posted, decide (Command.ends ∈ s.sent))) =
      some (.done, [(0, 0), (10, 10), (32, 32)], true) := by decide +kernel
  obtain ⟨s, hs, hview⟩ := Option.map_eq_some_iff.1 hrun
  simp only [Prod.mk.injEq] at hview
  obtain ⟨hdone, hposted, hends⟩ := hview
  have hstreams := run_streams (System.reachable_guarded rfl hs)
  exact ⟨s, hdone, hposted, hstreams.2.2.2.1 (of_decide_eq_true hends),
    hstreams.2.2.2.2.2.1⟩

/-- One segment behind the first 50, all of them executed at the first query. -/
def swiftRun : List RunEvent := filled 50 ++ List.replicate 3 (.next true)

/-- The first query answers 10, the second fails. -/
def failedRun : List RunEvent :=
  filled 10 ++ List.replicate 13 (.next true) ++ [.next false, .next true]

theorem swiftRun_posts :
    ∃ s, (runs (pulseEach 32 10)).Reachable s ∧ s.posted = [(0, 0), (40, 32)] := by
  have hrun : (swiftRun.foldlM (fun (s : Run) e => some (s.after (pulseEach 32 10) e))
      (Run.start (pulseEach 32 10))).map Run.posted = some [(0, 0), (40, 32)] := by decide +kernel
  obtain ⟨s, hs, hposted⟩ := Option.map_eq_some_iff.1 hrun
  exact ⟨s, System.reachable_ofFun rfl hs, hposted⟩

/-- The ten segments counted again are sent into a full buffer. -/
theorem failedRun_overfills : ∃ s, (runs (pulseEach 51 10)).Reachable s ∧ s.queued = 51 := by
  have hrun : (failedRun.foldlM (fun (s : Run) e => some (s.after (pulseEach 51 10) e))
      (Run.start (pulseEach 51 10))).map Run.queued = some 51 := by decide +kernel
  obtain ⟨s, hs, hqueued⟩ := Option.map_eq_some_iff.1 hrun
  exact ⟨s, System.reachable_ofFun rfl hs, hqueued⟩

/-- A point behind the profile's 32 is posted, and a failed query overfills the buffer. -/
theorem posts_behind_and_overfills :
    (¬∀ s, (runs (pulseEach 32 10)).Reachable s → ∀ x ∈ s.posted, x.1 ≤ 32) ∧
      ¬∀ s, (runs (pulseEach 51 10)).Reachable s → s.queued ≤ pointBuffer := by
  constructor
  · intro hall
    obtain ⟨s, hs, hposted⟩ := swiftRun_posts
    have hle := hall s hs (40, 32) (by rw [hposted]; decide)
    exact absurd hle (by decide)
  · intro hall
    obtain ⟨s, hs, hqueued⟩ := failedRun_overfills
    have hle := hall s hs
    rw [hqueued] at hle
    exact absurd hle (by decide)

end AcsMotion
