import EpicsIocs.Lib.Steps
import EpicsIocs.TimePix.Window

/-! # Frame accumulation

`Accumulator` as `accum.rs` has it.  `Accumulation` adds the frames given since the
last reset or change of length, each with the window's verdict on it.  The answers
of the allocator are part of the calls, and a call that panics is no step.

`Inv` relates the running sum and the window to the frames added: a setter or a
frame may reconfigure the window, which keeps a suffix of what it held or
nothing. -/

namespace TimePix

open Steps Machine

/-! ## Model -/

def minFramesToSum : Nat := 1
def maxFramesToSum : Nat := 100000
def defaultRetentionLimitMb : Nat := 512

inductive RangeState where
  | ok
  | outputClamped
  | accumulatorSaturated
  deriving DecidableEq, Repr

def RangeState.rank : RangeState → Nat
  | ok => 0
  | outputClamped => 1
  | accumulatorSaturated => 2

def RangeState.max (left right : RangeState) : RangeState :=
  if left.rank < right.rank then right else left

/-- `saturating_add`: the sum capped at `u64::MAX`, and whether it was. -/
def saturatingAdd (left right : Nat) : Nat × Bool :=
  match checkedAdd left right with
  | some sum => (sum, false)
  | none => (u64Max, true)

/-- `usize::try_from(n).unwrap_or(low)`. -/
def usizeOr (n : Int32) (low : Nat) : Nat := if 0 ≤ n.toInt then n.toInt.toNat else low

/-- The running sums with `frame` added, and whether one was capped. -/
def addFrame : List Nat → Frame → List Nat × Bool
  | acc :: running, v :: frame =>
    let sum := saturatingAdd acc v.toNat
    let rest := addFrame running frame
    (sum.1 :: rest.1, sum.2 || rest.2)
  | running, [] => (running, false)
  | [], _ => ([], false)

structure Accumulator where
  len : Nat
  running : List Nat
  current : Frame
  window : RollingWindowSum
  framesToSum : Nat
  retentionLimitMb : Nat
  updateInterval : Nat
  sinceUpdate : Nat
  frameCount : Nat
  totalCounts : Nat
  range : RangeState
  deriving DecidableEq, Repr

structure Update where
  sumUpdated : Bool
  framesSummed : Nat
  windowConfig : Option Configuration
  windowPush : Option RollingSumStatus
  frameCounts : Nat
  reset : Bool
  range : Option RangeState
  deriving DecidableEq, Repr

namespace Accumulator

def new : Accumulator where
  len := 0
  running := []
  current := []
  window := .default
  framesToSum := 10
  retentionLimitMb := defaultRetentionLimitMb
  updateInterval := 1
  sinceUpdate := 0
  frameCount := 0
  totalCounts := 0
  range := .ok

def reportRange (a : Accumulator) (state : RangeState) : Option RangeState × Accumulator :=
  let promoted := if state = .ok then .ok else state.max a.range
  if promoted = a.range ∧ state ≠ .ok then (none, a) else (some promoted, { a with range := promoted })

def windowSum (a : Accumulator) : List Nat := a.window.sum

def budgetBytes (a : Accumulator) : Nat := a.retentionLimitMb * 1024 * 1024

def reconfigure (a : Accumulator) (alloc : Bool) : Option (Option Configuration × Accumulator) :=
  if 0 < a.window.elementCount then
    (a.window.configure a.window.elementCount a.framesToSum a.budgetBytes alloc).map fun r =>
      (some r.1, { a with window := r.2 })
  else some (none, a)

def setFramesToSum (a : Accumulator) (n : Int32) (alloc : Bool) :
    Option (Option Configuration × Accumulator) :=
  reconfigure
    { a with framesToSum := min (max (usizeOr n minFramesToSum) minFramesToSum) maxFramesToSum } alloc

def setRetentionLimitMb (a : Accumulator) (mb : Int32) (alloc : Bool) :
    Option (Option Configuration × Accumulator) :=
  reconfigure { a with retentionLimitMb := max (usizeOr mb 1) 1 } alloc

def updateSumOnNextFrame (a : Accumulator) : Accumulator := { a with sinceUpdate := a.updateInterval }

def setUpdateInterval (a : Accumulator) (n : Int32) : Accumulator :=
  { a with updateInterval := max (usizeOr n 1) 1 }

def reset (a : Accumulator) : Accumulator :=
  { a with
    running := []
    window := a.window.reset
    len := 0
    sinceUpdate := 0
    frameCount := 0
    totalCounts := 0 }

/-- `add` on a frame of another length. -/
def restart (a : Accumulator) (len : Nat) : Option RangeState × Accumulator :=
  reportRange
    { a with
      running := List.replicate len 0
      window := .default
      len
      frameCount := 0
      totalCounts := 0
      sinceUpdate := 0 } .ok

/-- The sums and counters of `add`: the counts in the frame, whether anything
saturated. -/
def count (a : Accumulator) (frame : Frame) : Nat × Bool × Accumulator :=
  let running := addFrame a.running frame
  let frameCounts :=
    (a.running.zip frame).foldl (fun counts p => (saturatingAdd counts p.2.toNat).1) 0
  let total := saturatingAdd a.totalCounts frameCounts
  let frames := saturatingAdd a.frameCount 1
  (frameCounts, running.2 || total.2 || frames.2,
    { a with running := running.1, totalCounts := total.1, frameCount := frames.1 })

/-- The window's part of `add`: its new configuration, its verdict, and the window. -/
def retain (a : Accumulator) (frame : Frame) (sumAlloc frameAlloc : Bool) :
    Option (Option Configuration × Option RollingSumStatus × RollingWindowSum) :=
  let budget := a.budgetBytes
  let configured : Option (Option Configuration × RollingWindowSum) :=
    if a.window.elementCount ≠ a.len ∨ a.window.requestedFrames ≠ a.framesToSum ∨
        a.window.budgetBytes ≠ budget then
      (a.window.configure a.len a.framesToSum budget sumAlloc).map fun r => (some r.1, r.2)
    else some (none, a.window)
  configured.bind fun r =>
    if r.1.all (·.status = .ok) then
      (r.2.push frame frameAlloc).map fun p => (r.1, some p.1, p.2)
    else some (r.1, none, r.2)

/-- `add` up to the window: whether the geometry is new, the counts in the frame, and
the range latch moved. -/
def tally (a : Accumulator) (frame : Frame) : (Bool × Nat × Option RangeState) × Accumulator :=
  let reset := decide (frame.length ≠ a.len)
  let started := if reset then a.restart frame.length else (none, a)
  let counted := started.2.count frame
  let latched :=
    if counted.2.1 then counted.2.2.reportRange .accumulatorSaturated else (started.1, counted.2.2)
  ((reset, counted.1, latched.1), { latched.2 with current := frame })

def add (a : Accumulator) (frame : Frame) (sumAlloc frameAlloc : Bool) :
    Option (Update × Accumulator) :=
  let tallied := a.tally frame
  let (reset, frameCounts, range) := tallied.1
  let a := tallied.2
  (a.retain frame sumAlloc frameAlloc).map fun r =>
    let windowPush := r.2.1
    let window := r.2.2
    let sinceUpdate := a.sinceUpdate + 1
    let sumUpdated :=
      windowPush = some .ok ∧ a.updateInterval ≤ sinceUpdate ∧ 0 < window.frameCount
    (⟨sumUpdated, window.frameCount, r.1, windowPush, frameCounts, reset, range⟩,
      { a with window, sinceUpdate := if sumUpdated then 0 else sinceUpdate })

end Accumulator

inductive Call where
  | add (frame : Frame) (sumAlloc frameAlloc : Bool)
  | setFramesToSum (n : Int32) (alloc : Bool)
  | setRetentionLimitMb (mb : Int32) (alloc : Bool)
  | setUpdateInterval (n : Int32)
  | updateSumOnNextFrame
  | reset
  deriving DecidableEq, Repr

structure Accumulation where
  acc : Accumulator
  /-- The frames added since the last reset or change of length. -/
  log : List (Frame × Option RollingSumStatus)
  deriving DecidableEq, Repr

namespace Accumulation

def init : Accumulation where
  acc := .new
  log := []

def added (s : Accumulation) : List Frame := s.log.map (·.1)

/-- The last `n` of `frames`. -/
def last (n : Nat) (frames : List Frame) : List Frame := frames.drop (frames.length - n)

/-- The frames whose push returned `Ok`. -/
def taken (s : Accumulation) : List Frame := (s.log.filter (·.2 = some .ok)).map (·.1)

/-- Some push found no memory. -/
def Refused (s : Accumulation) : Prop := ∃ entry ∈ s.log, entry.2 = some .allocationFailure

def step (s : Accumulation) : Call → Option Accumulation
  | .add frame sumAlloc frameAlloc =>
    let log := if frame.length = s.acc.len then s.log else []
    (s.acc.add frame sumAlloc frameAlloc).map fun r =>
      { acc := r.2, log := log ++ [(frame, r.1.windowPush)] }
  | .setFramesToSum n alloc =>
    (s.acc.setFramesToSum n alloc).map fun r => { s with acc := r.2 }
  | .setRetentionLimitMb mb alloc =>
    (s.acc.setRetentionLimitMb mb alloc).map fun r => { s with acc := r.2 }
  | .setUpdateInterval n => some { s with acc := s.acc.setUpdateInterval n }
  | .updateSumOnNextFrame => some { s with acc := s.acc.updateSumOnNextFrame }
  | .reset => some { acc := s.acc.reset, log := [] }

end Accumulation

def accumulation : System Accumulation Call := System.ofFun (· = .init) Accumulation.step

/-! ## Lemmas -/

theorem saturatingAdd_fst (left right : Nat) :
    (saturatingAdd left right).1 = min (left + right) u64Max := by
  unfold saturatingAdd checkedAdd
  by_cases h : left + right ≤ u64Max
  · simp [h]
  · simp only [h, if_false]
    omega

theorem addFrame_eq {running : List Nat} {f : Frame} (hlen : running.length = f.length) :
    (addFrame running f).1 = running.zipWith (fun acc v => min (acc + v.toNat) u64Max) f := by
  induction running generalizing f with
  | nil =>
    obtain rfl := List.length_eq_zero_iff.1 hlen.symm
    rfl
  | cons acc running ih =>
    rcases f with _ | ⟨v, f⟩
    · simp at hlen
    · rw [addFrame, List.zipWith_cons_cons, saturatingAdd_fst, ih (by simpa using hlen)]

/-- Capping frame by frame is capping the sum. -/
theorem addFrame_columns {n : Nat} {f : Frame} (hf : f.length = n) (frames : List Frame) :
    (addFrame ((List.range n).map fun i => min (column frames i) u64Max) f).1 =
      (List.range n).map fun i => min (column (frames ++ [f]) i) u64Max := by
  rw [addFrame_eq (by simp [hf])]
  refine List.ext_getElem (by simp [hf]) fun i hi hi' => ?_
  have hif : i < f.length := by simp at hi'; omega
  have hget : (f[i]?.getD 0).toNat = f[i].toNat := by rw [List.getElem?_eq_getElem hif]; rfl
  simp only [List.getElem_zipWith, List.getElem_map, List.getElem_range, column_append,
    column_cons, column_nil, List.getD_eq_getElem?_getD, hget]
  omega

namespace Accumulator

variable {a : Accumulator} {frame : Frame}

theorem reportRange_eq (a : Accumulator) (state : RangeState) :
    ∃ range, (a.reportRange state).2 = { a with range } := by
  by_cases hsame : (if state = .ok then .ok else state.max a.range) = a.range ∧ state ≠ .ok
  · exact ⟨a.range, by rw [reportRange, if_pos hsame]⟩
  · exact ⟨_, by rw [reportRange, if_neg hsame]⟩

/-- What `add` keeps and sets before it comes to the window. -/
theorem tally_eq (a : Accumulator) (frame : Frame) :
    ∃ sinceUpdate frameCount totalCounts range, (a.tally frame).2 =
      { a with
        len := frame.length
        running := (addFrame (if frame.length = a.len then a.running
          else List.replicate frame.length 0) frame).1
        current := frame
        window := if frame.length = a.len then a.window else .default
        sinceUpdate, frameCount, totalCounts, range } := by
  unfold tally
  by_cases hlen : frame.length = a.len
  · simp only [hlen, ne_eq, not_true_eq_false, decide_false, Bool.false_eq_true, if_false, if_true]
    split
    · obtain ⟨range, hrange⟩ := reportRange_eq (a.count frame).2.2 .accumulatorSaturated
      rw [hrange]
      exact ⟨_, _, _, _, rfl⟩
    · exact ⟨_, _, _, _, rfl⟩
  · simp only [hlen, ne_eq, not_false_eq_true, decide_true, if_true, if_false]
    obtain ⟨range, hrange⟩ := reportRange_eq
      { a with
        running := List.replicate frame.length 0
        window := .default
        len := frame.length
        frameCount := 0
        totalCounts := 0
        sinceUpdate := 0 } .ok
    rw [restart, hrange]
    split
    · obtain ⟨range, hrange⟩ := reportRange_eq (count _ frame).2.2 .accumulatorSaturated
      rw [hrange]
      exact ⟨_, _, _, _, rfl⟩
    · exact ⟨_, _, _, _, rfl⟩

/-- The window is empty or has the accumulator's settings. -/
def Holds (a : Accumulator) (w : RollingWindowSum) : Prop :=
  w = .default ∨ w.Wf ∧ w.requestedFrames = a.framesToSum ∧ w.budgetBytes = a.budgetBytes

theorem Holds.wf {w : RollingWindowSum} (h : a.Holds w) : w = .default ∨ w.Wf :=
  h.imp_right And.left

/-- What became of a frame: the window is empty, or it found no memory and keeps a
suffix of its frames, or it took the frame behind such a suffix. -/
def Verdict (push : Option RollingSumStatus) (held : List Frame) (frame : Frame)
    (frames : List Frame) : Prop :=
  push = none ∧ frames = [] ∨
  push = some .allocationFailure ∧ frames <:+ held ∨
  push = some .ok ∧ ∃ kept, kept <:+ held ∧ frames = kept ++ [frame]

theorem push_verdict {w : RollingWindowSum} (hw : w.Wf) (hreq : w.requestedFrames = a.framesToSum)
    (hbudget : w.budgetBytes = a.budgetBytes) (hmax : a.framesToSum ≤ maxFramesToSum)
    (hlen : frame.length = w.elementCount) (alloc : Bool) {held : List Frame}
    (hheld : w.frames <:+ held) :
    ∃ status w', w.push frame alloc = some (status, w') ∧ a.Holds w' ∧
      Verdict (some status) held frame w'.frames := by
  have hfew : w.effectiveFrames ≤ 2 ^ 20 := by
    have := hw.effective_le
    unfold maxFramesToSum at hmax
    omega
  obtain ⟨status, w', hpush, hdone⟩ := RollingWindowSum.push_spec hw hfew hlen alloc
  refine ⟨status, w', hpush, ?_⟩
  obtain ⟨rfl, rfl⟩ | ⟨rfl, hw', -, hreq', hbudget', kept, hkept, hframes⟩ := hdone
  · exact ⟨.inr ⟨hw, hreq, hbudget⟩, .inr (.inl ⟨rfl, hheld⟩)⟩
  · refine ⟨.inr ⟨hw', hreq'.trans hreq, hbudget'.trans hbudget⟩, ?_⟩
    exact .inr (.inr ⟨rfl, kept, hkept.trans hheld, hframes⟩)

theorem retain_spec (a : Accumulator) (frame : Frame)
    (hw : a.window = .default ∨ a.window.Wf) (hlen : frame.length = a.len) (hmin : 0 < a.framesToSum) (hmax : a.framesToSum ≤ maxFramesToSum)
    (sumAlloc frameAlloc : Bool) :
    ∃ config push w', a.retain frame sumAlloc frameAlloc = some (config, push, w') ∧
      a.Holds w' ∧ Verdict push a.window.frames frame w'.frames := by
  unfold retain
  by_cases hstale : a.window.elementCount ≠ a.len ∨ a.window.requestedFrames ≠ a.framesToSum ∨
      a.window.budgetBytes ≠ a.budgetBytes
  · obtain ⟨config, w', hconf, hdone⟩ :=
      RollingWindowSum.configure_spec hw a.len a.framesToSum a.budgetBytes sumAlloc
    simp only [hstale, if_true, hconf, Option.map_some, Option.bind_some, Option.all_some]
    obtain ⟨hrefused, rfl⟩ | ⟨hok, hw', hcount, hreq, hbudget, hkept⟩ := hdone
    · simp only [hrefused, decide_false, Bool.false_eq_true, if_false]
      exact ⟨_, _, _, rfl, .inl rfl, .inl ⟨rfl, rfl⟩⟩
    · obtain ⟨status, w'', hpush, hholds, hverdict⟩ :=
        push_verdict hw' hreq hbudget hmax (hlen.trans hcount.symm) frameAlloc hkept
      simp only [hok, decide_true, if_true, hpush, Option.map_some]
      exact ⟨_, _, _, rfl, hholds, hverdict⟩
  · simp only [hstale, if_false, Option.bind_some, Option.all_none, if_true]
    simp only [not_or, not_not] at hstale
    obtain ⟨hcount, hreq, hbudget⟩ := hstale
    obtain hdefault | hw := hw
    · rw [hdefault] at hreq
      exact absurd hreq (Nat.ne_of_lt hmin)
    · obtain ⟨status, w'', hpush, hholds, hverdict⟩ :=
        push_verdict hw hreq hbudget hmax (hlen.trans hcount.symm) frameAlloc (List.suffix_refl _)
      simp only [hpush, Option.map_some]
      exact ⟨_, _, _, rfl, hholds, hverdict⟩

theorem reconfigure_spec (hw : a.window = .default ∨ a.window.Wf) (alloc : Bool) :
    ∃ config w', a.reconfigure alloc = some (config, { a with window := w' }) ∧ a.Holds w' ∧
      w'.frames <:+ a.window.frames := by
  unfold reconfigure
  obtain hdefault | hwf := hw
  · have hzero : ¬ 0 < a.window.elementCount := by simp [hdefault, RollingWindowSum.default]
    exact ⟨none, a.window, by rw [if_neg hzero], .inl hdefault, List.suffix_refl _⟩
  · obtain ⟨config, w', hconf, hdone⟩ := RollingWindowSum.configure_spec (.inr hwf)
      a.window.elementCount a.framesToSum a.budgetBytes alloc
    simp only [hwf.element_pos, if_true, hconf, Option.map_some]
    refine ⟨_, w', rfl, ?_⟩
    obtain ⟨-, rfl⟩ | ⟨-, hw', -, hreq, hbudget, hkept⟩ := hdone
    · exact ⟨.inl rfl, List.nil_suffix⟩
    · exact ⟨.inr ⟨hw', hreq, hbudget⟩, hkept⟩

/-- **`add`, whatever the allocator answers.** -/
theorem add_spec (hw : a.window = .default ∨ a.window.Wf) (hmin : 0 < a.framesToSum)
    (hmax : a.framesToSum ≤ maxFramesToSum) (frame : Frame) (sumAlloc frameAlloc : Bool) :
    ∃ u a', a.add frame sumAlloc frameAlloc = some (u, a') ∧ a'.len = frame.length ∧
      a'.running = (addFrame (if frame.length = a.len then a.running
        else List.replicate frame.length 0) frame).1 ∧
      a'.framesToSum = a.framesToSum ∧ a'.retentionLimitMb = a.retentionLimitMb ∧
      a'.Holds a'.window ∧
      Verdict u.windowPush (if frame.length = a.len then a.window.frames else []) frame
        a'.window.frames := by
  obtain ⟨sinceUpdate, frameCount, totalCounts, range, htally⟩ := tally_eq a frame
  have hframes : ((a.tally frame).2.window).frames =
      if frame.length = a.len then a.window.frames else [] := by
    rw [htally]
    dsimp only
    split <;> rfl
  obtain ⟨config, push, w', hretain, hholds, hverdict⟩ :=
    retain_spec (a.tally frame).2 frame
      (by
        rw [htally]
        dsimp only
        split
        · exact hw
        · exact .inl rfl)
      (by rw [htally]) (by rw [htally]; exact hmin) (by rw [htally]; exact hmax) sumAlloc frameAlloc
  rw [hframes] at hverdict
  simp only [add, hretain, Option.map_some]
  rw [htally] at hholds ⊢
  exact ⟨_, _, rfl, rfl, rfl, rfl, rfl, hholds, hverdict⟩

end Accumulator

/-! ## The invariant -/

namespace Accumulation

structure Inv (s : Accumulation) : Prop where
  length_eq : ∀ f ∈ s.added, f.length = s.acc.len
  running : s.acc.running = (List.range s.acc.len).map fun i => min (column s.added i) u64Max
  window : s.acc.Holds s.acc.window
  request_pos : 0 < s.acc.framesToSum
  request_le : s.acc.framesToSum ≤ maxFramesToSum
  taken : s.acc.window.frames <:+ s.taken
  added : ¬ s.Refused → s.acc.window.frames <:+ s.added

variable {s s' : Accumulation}

@[simp] theorem added_append (acc : Accumulator) (log log' : List (Frame × Option RollingSumStatus)) :
    (Accumulation.mk acc (log ++ log')).added =
      (Accumulation.mk acc log).added ++ (Accumulation.mk acc log').added := by
  simp [Accumulation.added]

theorem init_inv : Inv .init where
  length_eq := by simp [init, Accumulation.added]
  running := rfl
  window := .inl rfl
  request_pos := by decide
  request_le := by decide
  taken := List.suffix_refl _
  added := fun _ => List.suffix_refl _

/-- A setter leaves the sums and may drop frames of the window. -/
theorem reconfigure_inv (hs : s.Inv) {a : Accumulator} {alloc : Bool}
    {r : Option Configuration × Accumulator} (h : a.reconfigure alloc = some r)
    (hlen : a.len = s.acc.len) (hrun : a.running = s.acc.running)
    (hwindow : a.window = s.acc.window) (hpos : 0 < a.framesToSum)
    (hle : a.framesToSum ≤ maxFramesToSum) :
    Inv { s with acc := r.2 } := by
  obtain ⟨config, w, heq, hholds, hframes⟩ :=
    Accumulator.reconfigure_spec (hwindow ▸ hs.window.wf) alloc
  rw [heq] at h
  cases h
  rw [hwindow] at hframes
  refine ⟨?_, ?_, hholds, hpos, hle, hframes.trans hs.taken, fun h => hframes.trans (hs.added h)⟩
  · exact fun f hf => (hs.length_eq f hf).trans hlen.symm
  · show a.running = (List.range a.len).map _
    rw [hrun, hlen]
    exact hs.running

theorem clear_inv (hs : s.Inv) : Inv { acc := s.acc.reset, log := [] } where
  length_eq := by simp [Accumulation.added]
  running := rfl
  window := hs.window.imp (fun h => by simp only [Accumulator.reset, h]; rfl)
    fun ⟨hw, hreq, hbudget⟩ => ⟨RollingWindowSum.reset_wf hw, hreq, hbudget⟩
  request_pos := hs.request_pos
  request_le := hs.request_le
  taken := List.suffix_refl _
  added := fun _ => List.suffix_refl _

/-- A suffix grown by the same frame. -/
theorem suffix_append {kept frames : List Frame} (h : kept <:+ frames) (frame : Frame) :
    kept ++ [frame] <:+ frames ++ [frame] := by
  obtain ⟨older, rfl⟩ := h
  exact ⟨older, by simp⟩

theorem add_inv (hs : s.Inv) {frame : Frame} {sumAlloc frameAlloc : Bool} {s' : Accumulation}
    (h : s.step (.add frame sumAlloc frameAlloc) = some s') : s'.Inv := by
  obtain ⟨u, a, hadd, hlen, hrun, hreq, hretention, hholds, hverdict⟩ :=
    Accumulator.add_spec hs.window.wf hs.request_pos hs.request_le frame sumAlloc frameAlloc
  simp only [step, hadd, Option.map_some, Option.some.injEq] at h
  subst h
  -- The frames before this one: none of them if the length is new.
  let before : Accumulation := if frame.length = s.acc.len then s else ⟨s.acc, []⟩
  have hlog : (if frame.length = s.acc.len then s.log else []) = before.log := by
    simp only [before]
    split <;> rfl
  have hheld : (if frame.length = s.acc.len then s.acc.window.frames else []) <:+ before.taken ∧
      (¬ before.Refused →
        (if frame.length = s.acc.len then s.acc.window.frames else []) <:+ before.added) := by
    simp only [before]
    split
    · exact ⟨hs.taken, hs.added⟩
    · exact ⟨List.nil_suffix, fun _ => List.nil_suffix⟩
  have hbefore : (∀ f ∈ before.added, f.length = frame.length) ∧
      (if frame.length = s.acc.len then s.acc.running else List.replicate frame.length 0) =
        (List.range frame.length).map fun i => min (column before.added i) u64Max := by
    simp only [before]
    split
    · rename_i hsame
      rw [hsame]
      exact ⟨hs.length_eq, hs.running⟩
    · refine ⟨by simp [Accumulation.added], ?_⟩
      exact List.ext_getElem (by simp) fun i _ _ => by simp [Accumulation.added]
  rw [hlog]
  have hadded : (Accumulation.mk a (before.log ++ [(frame, u.windowPush)])).added =
      before.added ++ [frame] := by
    simp [Accumulation.added]
  have htaken : (Accumulation.mk a (before.log ++ [(frame, u.windowPush)])).taken =
      before.taken ++ if u.windowPush = some .ok then [frame] else [] := by
    simp only [Accumulation.taken, List.filter_append, List.map_append]
    by_cases hok : u.windowPush = some .ok
    · simp [hok]
    · simp [hok]
  have hrefused : ¬ (Accumulation.mk a (before.log ++ [(frame, u.windowPush)])).Refused →
      ¬ before.Refused ∧ u.windowPush ≠ some .allocationFailure := by
    intro hnone
    refine ⟨fun ⟨entry, hentry, hrefused⟩ => hnone ⟨entry, ?_, hrefused⟩, fun hrefused => hnone ?_⟩
    · exact List.mem_append_left _ hentry
    · exact ⟨_, List.mem_append_right _ List.mem_cons_self, hrefused⟩
  refine ⟨?_, ?_, hholds, hreq ▸ hs.request_pos, hreq ▸ hs.request_le, ?_, fun hnone => ?_⟩
  · intro f hf
    rw [hadded, List.mem_append, List.mem_singleton] at hf
    show f.length = a.len
    rw [hlen]
    obtain hf | rfl := hf
    · exact hbefore.1 f hf
    · rfl
  · show a.running = (List.range a.len).map _
    rw [hrun, hlen, hadded, hbefore.2]
    exact addFrame_columns rfl before.added
  · show a.window.frames <:+ _
    rw [htaken]
    obtain ⟨hpush, hnil⟩ | ⟨hpush, hkept⟩ | ⟨hpush, kept, hkept, hframes⟩ := hverdict
    · rw [hnil]
      exact List.nil_suffix
    · simpa [hpush] using hkept.trans hheld.1
    · rw [hframes, hpush, if_pos rfl]
      exact suffix_append (hkept.trans hheld.1) frame
  · show a.window.frames <:+ _
    rw [hadded]
    obtain ⟨hbefore, hpushed⟩ := hrefused hnone
    obtain ⟨-, hnil⟩ | ⟨hpush, -⟩ | ⟨-, kept, hkept, hframes⟩ := hverdict
    · rw [hnil]
      exact List.nil_suffix
    · exact absurd hpush hpushed
    · rw [hframes]
      exact suffix_append (hkept.trans (hheld.2 hbefore)) frame

theorem step_inv {call : Call} (hs : s.Inv) (h : s.step call = some s') : s'.Inv := by
  cases call with
  | add frame sumAlloc frameAlloc => exact add_inv hs h
  | setFramesToSum n alloc =>
    obtain ⟨r, hr, rfl⟩ := Option.map_eq_some_iff.1 h
    refine reconfigure_inv hs hr rfl rfl rfl ?_ ?_
    · simp only [minFramesToSum, maxFramesToSum]
      omega
    · simp only [minFramesToSum, maxFramesToSum]
      omega
  | setRetentionLimitMb mb alloc =>
    obtain ⟨r, hr, rfl⟩ := Option.map_eq_some_iff.1 h
    exact reconfigure_inv hs hr rfl rfl rfl hs.request_pos hs.request_le
  | setUpdateInterval n =>
    cases h
    exact ⟨hs.length_eq, hs.running, hs.window, hs.request_pos, hs.request_le, hs.taken, hs.added⟩
  | updateSumOnNextFrame =>
    cases h
    exact ⟨hs.length_eq, hs.running, hs.window, hs.request_pos, hs.request_le, hs.taken, hs.added⟩
  | reset =>
    cases h
    exact clear_inv hs

/-- No call panics. -/
theorem step_isSome (hs : s.Inv) (call : Call) : (s.step call).isSome := by
  cases call with
  | add frame sumAlloc frameAlloc =>
    obtain ⟨u, a, hadd, -⟩ :=
      Accumulator.add_spec hs.window.wf hs.request_pos hs.request_le frame sumAlloc frameAlloc
    simp [step, hadd]
  | setFramesToSum n alloc =>
    obtain ⟨config, w, heq, -⟩ := Accumulator.reconfigure_spec (a := { s.acc with
      framesToSum := min (max (usizeOr n minFramesToSum) minFramesToSum) maxFramesToSum })
      hs.window.wf alloc
    simp [step, Accumulator.setFramesToSum, heq]
  | setRetentionLimitMb mb alloc =>
    obtain ⟨config, w, heq, -⟩ := Accumulator.reconfigure_spec
      (a := { s.acc with retentionLimitMb := max (usizeOr mb 1) 1 }) hs.window.wf alloc
    simp [step, Accumulator.setRetentionLimitMb, heq]
  | setUpdateInterval n => rfl
  | updateSumOnNextFrame => rfl
  | reset => rfl

end Accumulation

theorem accumulation_inv {s : Accumulation} (h : accumulation.Reachable s) : s.Inv := by
  refine h.invariant ?_ ?_
  · rintro s rfl
    exact Accumulation.init_inv
  · intro s call s' hs hstep
    exact Accumulation.step_inv hs hstep

theorem Accumulation.last_of_suffix {kept frames : List Frame} (h : kept <:+ frames) :
    last kept.length frames = kept := (List.suffix_iff_eq_drop.1 h).symm

/-- A push of `add` says `Ok` or that it found no memory, if there was one. -/
theorem Accumulator.verdict_status {push : Option RollingSumStatus} {held frames : List Frame}
    {frame : Frame} (h : Verdict push held frame frames) :
    push ≠ some .numericOverflow ∧ push ≠ some .frameSizeMismatch := by
  obtain ⟨rfl, -⟩ | ⟨rfl, -⟩ | ⟨rfl, -⟩ := h <;> simp

/-- **The sums are exact.**  In every reachable state the running sum is the capped sum
of the frames added, and the window sum is the sum of the last `frameCount` frames the
window took; these are the last frames added unless a push found no memory.  The window
keeps its limits, no call panics, and a push that fails changes nothing. -/
theorem sums_exact {s : Accumulation} (h : accumulation.Reachable s) :
    (∀ f ∈ s.added, f.length = s.acc.len) ∧
    s.acc.running = (List.range s.acc.len).map (fun i => min (column s.added i) u64Max) ∧
    s.acc.windowSum = columns s.acc.windowSum.length
      (Accumulation.last s.acc.window.frameCount s.taken) ∧
    (¬ s.Refused → s.acc.windowSum = columns s.acc.windowSum.length
      (Accumulation.last s.acc.window.frameCount s.added)) ∧
    s.acc.window.frameCount ≤ s.acc.window.effectiveFrames ∧
    s.acc.window.effectiveFrames ≤ s.acc.framesToSum ∧
    (s.acc.window.configured = true →
      8 * s.acc.windowSum.length + (s.acc.window.frames.map (4 * ·.length)).sum ≤
        s.acc.budgetBytes) ∧
    (∀ call, (s.step call).isSome) ∧
    (∀ frame sumAlloc frameAlloc u a, s.acc.add frame sumAlloc frameAlloc = some (u, a) →
      u.windowPush ≠ some .numericOverflow ∧ u.windowPush ≠ some .frameSizeMismatch) ∧
    (∀ (w w' : RollingWindowSum) values alloc status,
      w.push values alloc = some (status, w') → status ≠ .ok → w' = w) := by
  have hs := accumulation_inv h
  have hsum : s.acc.windowSum = columns s.acc.windowSum.length s.acc.window.frames := by
    obtain hdefault | ⟨hw, -⟩ := hs.window
    · simp [Accumulator.windowSum, hdefault, RollingWindowSum.default, columns]
    · rw [Accumulator.windowSum, hw.sum_eq, length_columns]
  refine ⟨hs.length_eq, hs.running, ?_, fun hnone => ?_, ?_, ?_, ?_, Accumulation.step_isSome hs,
    ?_, fun w w' values alloc status => RollingWindowSum.push_unchanged⟩
  · rw [RollingWindowSum.frameCount, Accumulation.last_of_suffix hs.taken]
    exact hsum
  · rw [RollingWindowSum.frameCount, Accumulation.last_of_suffix (hs.added hnone)]
    exact hsum
  · obtain hdefault | ⟨hw, -⟩ := hs.window
    · rw [hdefault]
      exact Nat.le_refl _
    · exact hw.frames_le
  · obtain hdefault | ⟨hw, hreq, -⟩ := hs.window
    · rw [hdefault]
      exact Nat.zero_le _
    · exact hreq ▸ hw.effective_le
  · intro hconf
    obtain hdefault | ⟨hw, -, hbudget⟩ := hs.window
    · rw [hdefault] at hconf
      cases hconf
    · have hframes : (s.acc.window.frames.map (4 * ·.length)).sum =
          s.acc.window.frames.length * (4 * s.acc.window.elementCount) := by
        rw [List.map_congr_left fun f hf => by rw [hw.length_eq f hf], List.map_const',
          List.sum_replicate_nat]
      have hle := Nat.mul_le_mul_right (4 * s.acc.window.elementCount) hw.frames_le
      have hfits := hw.fits
      rw [Accumulator.windowSum, hw.sum_eq, length_columns, hframes, ← hbudget]
      omega
  · intro frame sumAlloc frameAlloc u a hadd
    obtain ⟨u', a', hadd', -, -, -, -, -, hverdict⟩ :=
      Accumulator.add_spec hs.window.wf hs.request_pos hs.request_le frame sumAlloc frameAlloc
    rw [hadd] at hadd'
    cases hadd'
    exact Accumulator.verdict_status hverdict

/-- A window of two, shrunk to one between frames, then a frame of another length. -/
def shrinkingWindow : List Call :=
  [.setFramesToSum 2 true, .add [1, 2] true true, .add [3, 4] true true, .add [5, 6] true true,
    .setFramesToSum 1 true, .add [7, 8] true true, .setRetentionLimitMb (-1) true]

theorem sums_exact_shrinkingWindow :
    ∃ s : Accumulation, s.acc.running = [16, 20] ∧ s.acc.windowSum = [7, 8] ∧
      s.acc.windowSum = columns s.acc.windowSum.length
        (Accumulation.last s.acc.window.frameCount s.taken) ∧
      s.acc.window.frameCount ≤ s.acc.window.effectiveFrames := by
  have hrun : (shrinkingWindow.foldlM Accumulation.step .init).map
      (fun s => (s.acc.running, s.acc.windowSum)) = some ([16, 20], [7, 8]) := by
    decide +kernel
  obtain ⟨s, hs, hview⟩ := Option.map_eq_some_iff.1 hrun
  obtain ⟨-, -, htaken, -, hframes, -⟩ := sums_exact (System.reachable_ofFun rfl hs)
  exact ⟨s, congrArg Prod.fst hview, congrArg Prod.snd hview, htaken, hframes⟩

/-- The second frame finds no memory: the window still holds the first. -/
def refusedFrame : List Call := [.add [1] true true, .add [2] true false]

theorem windowSum_not_last :
    ¬ ∀ s : Accumulation, accumulation.Reachable s →
      s.acc.windowSum = columns s.acc.windowSum.length
        (Accumulation.last s.acc.window.frameCount s.added) := by
  intro hclaim
  have hrun : (refusedFrame.foldlM Accumulation.step .init).map (fun s =>
      decide (s.acc.windowSum = columns s.acc.windowSum.length
        (Accumulation.last s.acc.window.frameCount s.added))) = some false := by
    decide +kernel
  obtain ⟨s, hs, hview⟩ := Option.map_eq_some_iff.1 hrun
  exact of_decide_eq_false hview (hclaim s (System.reachable_ofFun rfl hs))

end TimePix
