import Mathlib.Algebra.Order.Ring.Rat
import Mathlib.Data.Rat.Floor
import EpicsIocs.Lib.Steps
import EpicsIocs.Lib.Scatter

/-! # A sweep of samples into channels

`SweepState` of `fastsweep.rs`, and the writes and callbacks that change it, each under the
one lock.  The arithmetic on `f64` is a parameter: nothing here depends on how it rounds.

A value is stored in its signal's own row, and computed only from samples since the last
start, erase or change of rate (`sweep_discipline`), as long as a sweep starts with room
for a channel and with no average under way. -/

namespace Mca

open Scatter Steps

/-! ## The code -/

/-- What the driver does with `f64`. -/
structure FloatOps (F : Type) where
  zero : F
  half : F
  ofInt : Int → F
  add : F → F → F
  mul : F → F → F
  div : F → F → F
  lt : F → F → Bool
  /-- Towards zero, and no further than an `i32` goes. -/
  toInt32 : F → Int

/-- Signal `i`'s channel `j` is at `j + i * maxPoints` of `pData`. -/
structure SweepState (F : Type) where
  maxSignals : Nat
  maxPoints : Nat
  pData : List Int
  numAcquired : Nat := 0
  numPoints : Nat := 0
  acquiring : Bool := false
  realTime : F
  elapsedTime : F
  dwellTime : F
  callbackInterval : F
  numAverage : Nat := 1
  accumulated : Nat := 0
  averageStore : List F
  deriving DecidableEq, Repr

/-- What is published. -/
inductive Update (F : Type) where
  | currentChannel (n : Nat)
  | elapsedRealTime (t : F)
  | acquiring (b : Bool)
  | dwellTime (t : F)
  deriving DecidableEq, Repr

section
variable {F : Type} (ops : FloatOps F)

namespace SweepState

def new (maxSignals maxPoints : Nat) : SweepState F where
  maxSignals
  maxPoints
  pData := List.replicate (maxSignals * maxPoints) 0
  realTime := ops.zero
  elapsedTime := ops.zero
  dwellTime := ops.zero
  callbackInterval := ops.zero
  averageStore := List.replicate maxSignals ops.zero

def stopAcquire (s : SweepState F) : SweepState F := { s with acquiring := false }

/-- `average_store` keeps what is in it. -/
def computeNumAverage (s : SweepState F) : SweepState F :=
  let numAverage :=
    if ops.lt ops.zero s.callbackInterval then
      (ops.toInt32 (ops.add (ops.div s.dwellTime s.callbackInterval) ops.half)).toNat
    else 1
  let numAverage := max numAverage 1
  { s with
    numAverage, accumulated := 0
    dwellTime := ops.mul s.callbackInterval (ops.ofInt numAverage) }

/-- The signals' values, with where they go. -/
def stores (s : SweepState F) (newData : List Int) : List (Nat × Int) :=
  ((newData.take s.maxSignals).zipIdx.map fun (value, i) =>
    (i * s.maxPoints + s.numAcquired, value)).filter fun w => w.1 < s.pData.length

/-- `elapsed` is the time since the start. -/
def nextPoint (s : SweepState F) (newData : List Int) (elapsed : F) :
    List (Update F) × SweepState F :=
  if ¬s.acquiring then ([], s)
  else
    let s := { s with pData := scatter s.pData (s.stores newData), numAcquired := s.numAcquired + 1 }
    let s := if s.numPoints ≤ s.numAcquired then s.stopAcquire else s
    let s := { s with elapsedTime := elapsed }
    let s := if ops.lt ops.zero s.realTime ∧ ¬ops.lt s.elapsedTime s.realTime then s.stopAcquire
      else s
    ([.currentChannel s.numAcquired, .elapsedRealTime s.elapsedTime] ++
      (if s.acquiring then [] else [.acquiring false]), s)

/-- A sample added to the averages. -/
def accumulate (store : List F) (newData : List Int) : List F :=
  store.mapIdx fun i sum => match newData[i]? with
    | some v => ops.add sum (ops.ofInt v)
    | none => sum

def mean (store : List F) (n : Nat) : List Int :=
  store.map fun sum => ops.toInt32 (ops.add ops.half (ops.div sum (ops.ofInt n)))

/-- What a callback hands to `next_point`, if anything. -/
def point (s : SweepState F) (newData : List Int) : Option (List Int) :=
  if ¬s.acquiring then none
  else if s.numAverage = 1 then some newData
  else if s.accumulated + 1 < s.numAverage then none
  else some (mean ops (accumulate ops s.averageStore newData) (s.accumulated + 1))

def dataCallback (s : SweepState F) (newData : List Int) (elapsed : F) :
    List (Update F) × SweepState F :=
  if ¬s.acquiring then ([], s)
  else if s.numAverage = 1 then nextPoint ops s newData elapsed
  else
    let s := { s with
      averageStore := accumulate ops s.averageStore newData, accumulated := s.accumulated + 1 }
    if s.accumulated < s.numAverage then ([], s)
    else
      let (updates, s) := nextPoint ops s (mean ops s.averageStore s.accumulated) elapsed
      (updates, { s with
        averageStore := List.replicate s.averageStore.length ops.zero, accumulated := 0 })

/-! ## Writes -/

/-- An acquisition that runs goes on. -/
def startAcquire (s : SweepState F) : List (Update F) × SweepState F :=
  if s.acquiring then ([], s) else ([.acquiring true], { s with acquiring := true })

def erase (s : SweepState F) : List (Update F) × SweepState F :=
  ([.elapsedRealTime ops.zero],
    { s with
      pData := List.replicate s.pData.length 0, numAcquired := 0, elapsedTime := ops.zero })

def setNumChannels (s : SweepState F) (value : Int) : Except String (SweepState F) :=
  if value < 1 ∨ (s.maxPoints : Int) < value then
    .error ("NumChannels " ++ toString value ++ " out of range 1..=" ++ toString s.maxPoints)
  else .ok { s with numPoints := value.toNat }

def setDwellTime (s : SweepState F) (value : F) : List (Update F) × SweepState F :=
  let s := computeNumAverage ops { s with dwellTime := value }
  ([.dwellTime s.dwellTime], s)

/-- An interval from the input. -/
def intervalCallback (s : SweepState F) (seconds : F) : List (Update F) × SweepState F :=
  let s := computeNumAverage ops { s with callbackInterval := seconds }
  ([.dwellTime s.dwellTime], s)

end SweepState

/-- What the clients and the input do. -/
inductive SweepEvent (F : Type) where
  | startAcquire
  | stopAcquire
  | erase
  | numChannels (value : Int)
  | dwellTime (value : F)
  | presetRealTime (value : F)
  | interval (seconds : F)
  | data (newData : List Int) (elapsed : F)

def SweepState.after (s : SweepState F) : SweepEvent F → SweepState F
  | .startAcquire => s.startAcquire.2
  | .stopAcquire => s.stopAcquire
  | .erase => (s.erase ops).2
  | .numChannels value =>
    match s.setNumChannels value with
    | .ok s => s
    | .error _ => s
  | .dwellTime value => (s.setDwellTime ops value).2
  | .presetRealTime value => { s with realTime := value }
  | .interval seconds => (s.intervalCallback ops seconds).2
  | .data newData elapsed => (s.dataCallback ops newData elapsed).2

/-! ## Runs -/

/-- A sweep and what came before: the samples since the last start, erase or change of rate,
and whether the last change of the number of channels was one that did not lower it. -/
structure Sweep (F : Type) where
  state : SweepState F
  since : List (List Int) := []
  kept : Bool := false
  deriving DecidableEq, Repr

namespace Sweep

def sinceAfter (s : Sweep F) : SweepEvent F → List (List Int)
  | .startAcquire => if s.state.acquiring then s.since else []
  | .erase => []
  | .dwellTime _ => []
  | .interval _ => []
  | .data newData _ => s.since ++ [newData]
  | _ => s.since

def keptAfter (s : Sweep F) : SweepEvent F → Bool
  | .numChannels value =>
    match s.state.setNumChannels value with
    | .ok t => s.state.numPoints ≤ t.numPoints
    | .error _ => s.kept
  | _ => s.kept

def after (s : Sweep F) (e : SweepEvent F) : Sweep F :=
  ⟨s.state.after ops e, s.sinceAfter e, s.keptAfter e⟩

end Sweep

/-- A driver of these sizes, its interval as the input had it. -/
def sweeps (maxSignals maxPoints : Nat) : System (Sweep F) (SweepEvent F) where
  init s := ∃ seed, s = ⟨{ SweepState.new ops maxSignals maxPoints with callbackInterval := seed },
    [], false⟩
  step s e t := t = s.after ops e

/-- A sweep starts with room for a channel, what a start, an erase or a change of rate cuts
off is no average, and the number of channels stays beyond what is acquired. -/
def Disciplined (s : Sweep F) : SweepEvent F → Prop
  | .startAcquire =>
    s.state.acquiring = false → s.state.numAcquired < s.state.numPoints ∧ s.state.accumulated = 0
  | .erase => s.state.accumulated = 0
  | .dwellTime _ => s.state.accumulated = 0
  | .interval _ => s.state.accumulated = 0
  | .numChannels value => ∀ t, s.state.setNumChannels value = .ok t →
    (s.state.acquiring = true → s.state.numAcquired < t.numPoints) ∧
      (s.state.numPoints ≤ t.numPoints → s.state.numAcquired ≤ t.numPoints)
  | _ => True

/-- The averages of these samples. -/
def meanOf (n : Nat) (window : List (List Int)) : List Int :=
  SweepState.mean ops (window.foldl (SweepState.accumulate ops) (List.replicate n ops.zero))
    window.length

/-! ## One callback -/

namespace SweepState

@[simp] theorem stopAcquire_pData (s : SweepState F) : s.stopAcquire.pData = s.pData := rfl

@[simp] theorem length_accumulate (store : List F) (newData : List Int) :
    (accumulate ops store newData).length = store.length := by
  unfold accumulate
  exact List.length_mapIdx

/-- A value in row `i` goes to the channel that is next. -/
theorem mem_stores {s : SweepState F} {newData : List Int} {w : Nat × Int}
    (hw : w ∈ s.stores newData) :
    ∃ i < s.maxSignals, w.1 = i * s.maxPoints + s.numAcquired ∧ newData[i]? = some w.2 := by
  unfold stores at hw
  obtain ⟨hw, -⟩ := List.mem_filter.1 hw
  obtain ⟨⟨value, i⟩, hmem, rfl⟩ := List.mem_map.1 hw
  have hget := List.mem_zipIdx_iff_getElem?.1 hmem
  rw [List.getElem?_take] at hget
  by_cases hi : i < s.maxSignals
  · rw [if_pos hi] at hget
    exact ⟨i, hi, rfl, hget⟩
  · rw [if_neg hi] at hget
    cases hget

/-- What `next_point` leaves: a channel more, and no acquisition on a full row. -/
theorem nextPoint_of_acquiring {s : SweepState F} (newData : List Int) (elapsed : F)
    (hacq : s.acquiring = true) :
    ∃ acquiring, (acquiring = true → s.numAcquired + 1 < s.numPoints) ∧
      (nextPoint ops s newData elapsed).2 =
        { s with
          pData := scatter s.pData (s.stores newData)
          numAcquired := s.numAcquired + 1, elapsedTime := elapsed, acquiring } := by
  unfold nextPoint stopAcquire
  rw [if_neg (by simp [hacq])]
  by_cases hfull : s.numPoints ≤ s.numAcquired + 1
  · refine ⟨false, by simp, ?_⟩
    simp [hfull]
  · by_cases hlate : ops.lt ops.zero s.realTime ∧ ¬ops.lt elapsed s.realTime
    · refine ⟨false, by simp, ?_⟩
      simp [hfull, hlate]
    · refine ⟨true, fun _ => by omega, ?_⟩
      simp only [hfull, hlate, if_false, hacq]

/-- A sample in the averages, and no channel for it yet. -/
def averaging (s : SweepState F) (newData : List Int) : SweepState F :=
  { s with
    averageStore := accumulate ops s.averageStore newData, accumulated := s.accumulated + 1 }

/-- All that a callback can do. -/
theorem dataCallback_cases (s : SweepState F) (newData : List Int) (elapsed : F) :
    (s.acquiring = false ∧ s.point ops newData = none ∧
      (s.dataCallback ops newData elapsed).2 = s) ∨
    (s.acquiring = true ∧ s.point ops newData = some newData ∧
      (s.dataCallback ops newData elapsed).2 = (nextPoint ops s newData elapsed).2) ∨
    (s.acquiring = true ∧ s.point ops newData = none ∧
      (s.dataCallback ops newData elapsed).2 = averaging ops s newData) ∨
    ∃ vals, s.acquiring = true ∧ s.point ops newData = some vals ∧
      vals = mean ops (accumulate ops s.averageStore newData) (s.accumulated + 1) ∧
      (s.dataCallback ops newData elapsed).2 =
        { (nextPoint ops (averaging ops s newData) vals elapsed).2 with
          averageStore := List.replicate
            (nextPoint ops (averaging ops s newData) vals elapsed).2.averageStore.length
            ops.zero
          accumulated := 0 } := by
  unfold point dataCallback
  by_cases hacq : s.acquiring = true
  · by_cases hone : s.numAverage = 1
    · exact .inr (.inl ⟨hacq, by simp [hacq, hone], by simp [hacq, hone]⟩)
    · by_cases hmore : s.accumulated + 1 < s.numAverage
      · exact .inr (.inr (.inl ⟨hacq, by simp [hacq, hone, hmore],
          by simp [hacq, hone, hmore, averaging]⟩))
      · refine .inr (.inr (.inr ⟨_, hacq, by simp [hacq, hone, hmore], rfl, ?_⟩))
        simp [hacq, hone, hmore, averaging]
  · exact .inl ⟨by simpa using hacq, by simp [hacq], by simp [hacq]⟩

/-- A callback stores what `point` says, where `stores` says, and nothing else. -/
theorem dataCallback_pData (s : SweepState F) (newData : List Int) (elapsed : F) :
    (s.dataCallback ops newData elapsed).2.pData =
      (s.point ops newData).elim s.pData fun vals => scatter s.pData (s.stores vals) := by
  obtain ⟨-, hp, h⟩ | ⟨hacq, hp, h⟩ | ⟨-, hp, h⟩ | ⟨vals, hacq, hp, -, h⟩ :=
    s.dataCallback_cases ops newData elapsed
  · rw [hp, h]
    rfl
  · obtain ⟨b, -, hb⟩ := nextPoint_of_acquiring ops newData elapsed hacq
    rw [hp, h, hb]
    rfl
  · rw [hp, h]
    rfl
  · obtain ⟨b, -, hb⟩ := nextPoint_of_acquiring ops
      (s := averaging ops s newData) vals elapsed hacq
    rw [hp, h, hb]
    rfl

end SweepState

/-! ## The invariant -/

/-- The average store holds these samples. -/
def Holds (s : SweepState F) (n : Nat) (window : List (List Int)) : Prop :=
  s.averageStore = window.foldl (SweepState.accumulate ops) (List.replicate n ops.zero) ∧
    s.accumulated = window.length

structure Sweep.Inv (maxSignals maxPoints : Nat) (s : Sweep F) : Prop where
  signals : s.state.maxSignals = maxSignals
  points : s.state.maxPoints = maxPoints
  fits : s.state.numPoints ≤ maxPoints
  room : s.state.acquiring = true → s.state.numAcquired < s.state.numPoints
  kept : s.kept = true → s.state.numAcquired ≤ s.state.numPoints
  fresh : ∃ window, window.Sublist s.since ∧ Holds ops s.state maxSignals window

variable {ops} {maxSignals maxPoints : Nat}

theorem Holds.none_iff {s : SweepState F} {window : List (List Int)}
    (h : Holds ops s maxSignals window) (hzero : s.accumulated = 0) : window = [] :=
  List.length_eq_zero_iff.1 (h.2 ▸ hzero)

theorem Holds.length {s : SweepState F} {window : List (List Int)}
    (h : Holds ops s maxSignals window) : s.averageStore.length = maxSignals := by
  rw [h.1]
  clear h
  induction window using List.reverseRecOn with
  | nil => simp
  | append_singleton window newData ih => simpa using ih

theorem Holds.add {s : SweepState F} {window : List (List Int)}
    (h : Holds ops s maxSignals window) (newData : List Int) :
    Holds ops (SweepState.averaging ops s newData) maxSignals (window ++ [newData]) := by
  obtain ⟨hstore, hcount⟩ := h
  constructor
  · rw [List.foldl_append, ← hstore]
    rfl
  · rw [List.length_append, ← hcount]
    rfl

/-- A full window's means. -/
theorem Holds.mean_eq {s : SweepState F} {window : List (List Int)}
    (h : Holds ops s maxSignals window) (newData : List Int) :
    SweepState.mean ops (SweepState.accumulate ops s.averageStore newData) (s.accumulated + 1) =
      meanOf ops maxSignals (window ++ [newData]) := by
  obtain ⟨hstore, hcount⟩ := h.add newData
  unfold meanOf
  rw [← hstore, ← hcount]
  rfl

namespace Sweep.Inv

theorem new (seed : F) : Inv ops maxSignals maxPoints
    ⟨{ SweepState.new ops maxSignals maxPoints with callbackInterval := seed }, [], false⟩ where
  signals := rfl
  points := rfl
  fits := Nat.zero_le _
  room h := by simp [SweepState.new] at h
  kept h := by simp at h
  fresh := ⟨[], List.Sublist.refl _, rfl, rfl⟩

variable {s : Sweep F}

/-- With no average under way, the samples before do not count. -/
theorem restarted (h : Inv ops maxSignals maxPoints s) (hzero : s.state.accumulated = 0) :
    s.state.averageStore = List.replicate maxSignals ops.zero := by
  obtain ⟨window, -, hholds⟩ := h.fresh
  obtain rfl := hholds.none_iff hzero
  exact hholds.1

theorem startAcquire (h : Inv ops maxSignals maxPoints s) (hok : Disciplined s .startAcquire) :
    Inv ops maxSignals maxPoints (s.after ops .startAcquire) := by
  by_cases hacq : s.state.acquiring = true
  · have hsame : s.after ops .startAcquire = s := by
      simp [Sweep.after, SweepState.after, SweepState.startAcquire, sinceAfter, keptAfter, hacq]
    rw [hsame]
    exact h
  · obtain ⟨hroom, hzero⟩ := hok (by simpa using hacq)
    have hstart : s.after ops .startAcquire = ⟨{ s.state with acquiring := true }, [], s.kept⟩ := by
      simp [Sweep.after, SweepState.after, SweepState.startAcquire, sinceAfter, keptAfter, hacq]
    rw [hstart]
    exact ⟨h.signals, h.points, h.fits, fun _ => hroom, h.kept,
      [], List.Sublist.refl _, h.restarted hzero, hzero⟩

theorem stopAcquire (h : Inv ops maxSignals maxPoints s) :
    Inv ops maxSignals maxPoints (s.after ops .stopAcquire) where
  signals := h.signals
  points := h.points
  fits := h.fits
  room hacq := by cases hacq
  kept := h.kept
  fresh := h.fresh

theorem erase (h : Inv ops maxSignals maxPoints s) (hok : Disciplined s .erase) :
    Inv ops maxSignals maxPoints (s.after ops .erase) where
  signals := h.signals
  points := h.points
  fits := h.fits
  room hacq := Nat.zero_lt_of_lt (h.room hacq)
  kept _ := Nat.zero_le _
  fresh := ⟨[], List.Sublist.refl _, h.restarted hok, hok⟩

/-- A change of rate, from the client or from the input. -/
theorem rate (h : Inv ops maxSignals maxPoints s) (hzero : s.state.accumulated = 0)
    (dwellTime callbackInterval : F) :
    Inv ops maxSignals maxPoints
      ⟨SweepState.computeNumAverage ops { s.state with dwellTime, callbackInterval }, [],
        s.kept⟩ where
  signals := h.signals
  points := h.points
  fits := h.fits
  room := h.room
  kept := h.kept
  fresh := ⟨[], List.Sublist.refl _, h.restarted hzero, rfl⟩

theorem numChannels (h : Inv ops maxSignals maxPoints s) {value : Int}
    (hok : Disciplined s (.numChannels value)) :
    Inv ops maxSignals maxPoints (s.after ops (.numChannels value)) := by
  by_cases hout : value < 1 ∨ (s.state.maxPoints : Int) < value
  · have hsame : s.after ops (.numChannels value) = s := by
      simp [Sweep.after, SweepState.after, SweepState.setNumChannels, sinceAfter, keptAfter, hout]
    rw [hsame]
    exact h
  · have hset : s.state.setNumChannels value = .ok { s.state with numPoints := value.toNat } := by
      simp [SweepState.setNumChannels, hout]
    obtain ⟨hroom, hkept⟩ := hok _ hset
    have hafter : s.after ops (.numChannels value) =
        ⟨{ s.state with numPoints := value.toNat }, s.since,
          s.state.numPoints ≤ value.toNat⟩ := by
      simp [Sweep.after, SweepState.after, sinceAfter, keptAfter, hset]
    rw [hafter]
    have hpoints := h.points
    exact ⟨h.signals, h.points, by show value.toNat ≤ maxPoints; omega, hroom,
      fun hb => hkept (by simpa using hb), h.fresh⟩

/-- A point stored leaves room, or ends the acquisition. -/
theorem nextPoint (h : Inv ops maxSignals maxPoints s) {newData : List Int} {elapsed : F}
    (hacq : s.state.acquiring = true) {t : SweepState F} {window : List (List Int)}
    (hsub : window.Sublist (s.since ++ [newData])) (hholds : Holds ops t maxSignals window)
    (ht : ∃ acquiring pData, (acquiring = true → s.state.numAcquired + 1 < s.state.numPoints) ∧
      t = { s.state with
        pData, acquiring, numAcquired := s.state.numAcquired + 1, elapsedTime := elapsed
        averageStore := t.averageStore, accumulated := t.accumulated }) :
    Inv ops maxSignals maxPoints ⟨t, s.since ++ [newData], s.kept⟩ := by
  obtain ⟨acquiring, pData, hmore, ht⟩ := ht
  have hroom := h.room hacq
  refine ⟨?_, ?_, ?_, ?_, ?_, window, hsub, hholds⟩
  · rw [ht]
    exact h.signals
  · rw [ht]
    exact h.points
  · rw [ht]
    exact h.fits
  · rw [ht]
    exact hmore
  · rw [ht]
    exact fun _ => hroom

theorem data (h : Inv ops maxSignals maxPoints s) (newData : List Int) (elapsed : F) :
    Inv ops maxSignals maxPoints (s.after ops (.data newData elapsed)) := by
  obtain ⟨window, hsub, hholds⟩ := h.fresh
  have hlater : window.Sublist (s.since ++ [newData]) :=
    hsub.trans (List.sublist_append_left _ _)
  show Inv ops maxSignals maxPoints
    ⟨(s.state.dataCallback ops newData elapsed).2, s.since ++ [newData], s.kept⟩
  obtain ⟨-, -, hafter⟩ | ⟨hacq, -, hafter⟩ | ⟨hacq, -, hafter⟩ | ⟨vals, hacq, -, -, hafter⟩ :=
    s.state.dataCallback_cases ops newData elapsed
  · rw [hafter]
    exact ⟨h.signals, h.points, h.fits, h.room, h.kept, window, hlater, hholds⟩
  · obtain ⟨b, hmore, hnext⟩ := SweepState.nextPoint_of_acquiring ops newData elapsed hacq
    rw [hafter, hnext]
    exact h.nextPoint hacq hlater hholds ⟨b, _, hmore, rfl⟩
  · rw [hafter]
    exact ⟨h.signals, h.points, h.fits, h.room, h.kept, window ++ [newData],
      hsub.append (List.Sublist.refl _), hholds.add newData⟩
  · obtain ⟨b, hmore, hnext⟩ := SweepState.nextPoint_of_acquiring ops
      (s := SweepState.averaging ops s.state newData) vals elapsed hacq
    rw [hafter, hnext]
    refine h.nextPoint hacq (List.nil_sublist _) ⟨?_, rfl⟩ ⟨b, _, hmore, rfl⟩
    simp [SweepState.averaging, hholds.length]

end Sweep.Inv

theorem inv_of_reachable {s : Sweep F}
    (h : ((sweeps ops maxSignals maxPoints).restrict Disciplined).Reachable s) :
    s.Inv ops maxSignals maxPoints := by
  refine h.invariant ?_ ?_
  · rintro s ⟨seed, rfl⟩
    exact Sweep.Inv.new seed
  · rintro s e t hs ⟨rfl, hok⟩
    cases e with
    | startAcquire => exact hs.startAcquire hok
    | stopAcquire => exact hs.stopAcquire
    | erase => exact hs.erase hok
    | numChannels value => exact hs.numChannels hok
    | dwellTime value => exact hs.rate hok value s.state.callbackInterval
    | presetRealTime value => exact ⟨hs.signals, hs.points, hs.fits, hs.room, hs.kept, hs.fresh⟩
    | interval seconds => exact hs.rate hok s.state.dwellTime seconds
    | data newData elapsed => exact hs.data newData elapsed

/-- What is handed to `next_point` comes of the samples since the last start, erase or change
of rate. -/
theorem Sweep.Inv.computed {s : Sweep F} (h : s.Inv ops maxSignals maxPoints)
    {newData vals : List Int} (hp : s.state.point ops newData = some vals) :
    vals = newData ∨
      ∃ window, window.Sublist (s.since ++ [newData]) ∧ vals = meanOf ops maxSignals window := by
  obtain ⟨window, hsub, hholds⟩ := h.fresh
  obtain ⟨-, hn, -⟩ | ⟨-, hone, -⟩ | ⟨-, hn, -⟩ | ⟨means, -, hmeans, heq, -⟩ :=
    s.state.dataCallback_cases ops newData ops.zero
  · rw [hp] at hn
    cases hn
  · rw [hp] at hone
    exact .inl (Option.some.inj hone)
  · rw [hp] at hn
    cases hn
  · rw [hp] at hmeans
    obtain rfl := Option.some.inj hmeans
    rw [hholds.mean_eq] at heq
    exact .inr ⟨window ++ [newData], hsub.append (List.Sublist.refl _), heq⟩

theorem SweepState.acquiring_of_point {s : SweepState F} {newData vals : List Int}
    (hp : s.point ops newData = some vals) : s.acquiring = true := by
  by_contra hacq
  rw [point, if_pos hacq] at hp
  cases hp

/-- In a disciplined run the number of points fits, what is acquired does not exceed a number
of channels that was not lowered, and what a callback stores is a value of a signal in the
signal's own row, at a channel there is, computed from the samples since the last start, erase
or change of rate. -/
theorem sweep_discipline {s : Sweep F}
    (h : ((sweeps ops maxSignals maxPoints).restrict Disciplined).Reachable s) :
    s.state.numPoints ≤ maxPoints ∧
    (s.kept = true → s.state.numAcquired ≤ s.state.numPoints) ∧
    ∀ newData elapsed,
      (s.state.dataCallback ops newData elapsed).2.pData =
        ((s.state.point ops newData).elim s.state.pData fun vals =>
          scatter s.state.pData (s.state.stores vals)) ∧
      ∀ vals, s.state.point ops newData = some vals →
        (∀ offset value, (offset, value) ∈ s.state.stores vals →
          ∃ i < maxSignals, ∃ channel < s.state.numPoints,
            offset = i * maxPoints + channel ∧ vals[i]? = some value) ∧
        (vals = newData ∨ ∃ window, window.Sublist (s.since ++ [newData]) ∧
          vals = meanOf ops maxSignals window) := by
  have hinv := inv_of_reachable h
  refine ⟨hinv.fits, hinv.kept, fun newData elapsed =>
    ⟨s.state.dataCallback_pData ops newData elapsed, fun vals hp => ⟨?_, hinv.computed hp⟩⟩⟩
  intro offset value hmem
  obtain ⟨i, hi, hoffset, hvalue⟩ := SweepState.mem_stores hmem
  rw [hinv.signals] at hi
  rw [hinv.points] at hoffset
  exact ⟨i, hi, _, hinv.room (SweepState.acquiring_of_point hp), hoffset, hvalue⟩

end

/-! ## Two signals, one channel -/

/-- Exact arithmetic, as `f64` is on these values. -/
def exact : FloatOps Rat where
  zero := 0
  half := 1 / 2
  ofInt n := n
  add := (· + ·)
  mul := (· * ·)
  div := (· / ·)
  lt a b := a < b
  toInt32 q := max (-2147483648) (min 2147483647 (q.num.tdiv q.den))

/-- A channel, a sweep, and a sample. -/
def oneChannel : Sweep Rat :=
  [.numChannels 1, .startAcquire, .data [1, 2] (1 / 100)].foldl (Sweep.after exact)
    ⟨SweepState.new exact 2 1, [], false⟩

theorem oneChannel_reachable : ((sweeps exact 2 1).restrict Disciplined).Reachable oneChannel := by
  refine ⟨_, [.numChannels 1, .startAcquire, .data [1, 2] (1 / 100)], ⟨0, rfl⟩, ?_⟩
  refine System.Run.cons ⟨rfl, fun t ht => ?_⟩ (System.Run.cons ⟨rfl, fun _ => ?_⟩
    (System.Run.single ⟨rfl, trivial⟩))
  · cases ht
    exact ⟨fun hacq => (by cases hacq), fun _ => by decide⟩
  · exact ⟨by decide, rfl⟩

theorem sweep_discipline_oneChannel :
    oneChannel.kept = true ∧ oneChannel.state.numAcquired ≤ oneChannel.state.numPoints :=
  ⟨by decide +kernel, (sweep_discipline oneChannel_reachable).2.1 (by decide +kernel)⟩

/-- The next sweep starts where that one ended: the sample of signal 0 is stored over the one of
signal 1. -/
theorem restart_overwrites_next_row :
    (sweeps exact 2 1).Reachable (oneChannel.after exact .startAcquire) ∧
      oneChannel.state.pData = [1, 2] ∧
      ((oneChannel.after exact .startAcquire).after exact (.data [3, 4] (1 / 100))).state.pData =
        [1, 3] ∧
      (1, 3) ∈ (oneChannel.after exact .startAcquire).state.stores [3, 4] ∧
      ¬∃ i < 2, ∃ channel < (oneChannel.after exact .startAcquire).state.numPoints,
        1 = i * 1 + channel ∧ [3, 4][i]? = some 3 := by
  refine ⟨?_, by decide +kernel, by decide +kernel, by decide +kernel, by decide +kernel⟩
  exact oneChannel_reachable.of_restrict.step rfl

end Mca
