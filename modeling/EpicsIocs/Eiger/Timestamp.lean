import EpicsIocs.Eiger.Rfc3339
import Mathlib.Data.Nat.Basic

/-! # Frame timestamps

`timestamp_from` of `stream2.rs`: the date of the series, cached, plus the start time of the frame
in ticks of the detector's clock.  The ticks are multiplied by 10^9 in 64 bits, so

    (timestampFrom c date (ticks, frequency)).1 = exact ↔ 10 ^ 9 * ticks < 2 ^ 64

(`timestamp_exact`): at 50 MHz a series has six minutes. -/

namespace Eiger

/-- Seconds since 1990 and nanoseconds. -/
structure EpicsTimestamp where
  sec : Nat
  nsec : Nat
  deriving DecidableEq, Repr

/-- The instant in nanoseconds. -/
def EpicsTimestamp.nanos (ts : EpicsTimestamp) : Nat := ts.sec * 10 ^ 9 + ts.nsec

def EpicsTimestamp.ofNanos (n : Nat) : EpicsTimestamp := ⟨n / 10 ^ 9, n % 10 ^ 9⟩

/-- POSIX seconds of 1990-01-01. -/
def posixTimeAtEpicsEpoch : Int := 631152000

/-- Truncated to `epicsUInt32`. -/
def epicsFromPosix (posix : Int) (nsec : Nat) : EpicsTimestamp :=
  ⟨((posix - posixTimeAtEpicsEpoch) % 2 ^ 32).toNat, nsec⟩

/-- C's `rfc3339::ZERO`, converted as C converts it. -/
def zeroTimestamp : EpicsTimestamp := epicsFromPosix (timegm 1900 0 0 0 0 0) 0

/-- What a `series_date` converts to. -/
def seriesTimestamp (date : List UInt8) : EpicsTimestamp :=
  match parseRfc3339 date with
  | some (posix, nsec) => epicsFromPosix posix nsec
  | none => zeroTimestamp

/-- `cached_ts`: the last `series_date` and what it converted to; the empty date it starts with
converts to nothing. -/
structure CachedTs where
  date : List UInt8
  ts : EpicsTimestamp
  converted : date ≠ [] → ts = seriesTimestamp date

def CachedTs.initial : CachedTs := ⟨[], ⟨0, 0⟩, fun h => absurd rfl h⟩

def nsecPerSec : Nat := 1000000000

/-- The elapsed time added to the time of the series, in 64 bits. -/
def addElapsed (series : EpicsTimestamp) (elapsedNs : Nat) : EpicsTimestamp :=
  let frameNsec := (series.nsec + elapsedNs) % 2 ^ 64
  let frameSec := (series.sec + frameNsec / nsecPerSec) % 2 ^ 64
  ⟨frameSec % 2 ^ 32, frameNsec % nsecPerSec % 2 ^ 32⟩

/-- `start_time` is ticks and frequency. -/
def timestampFrom (c : CachedTs) (date : List UInt8) (startTime : Nat × Nat) :
    EpicsTimestamp × CachedTs :=
  let cached := if c.date = date then c else ⟨date, seriesTimestamp date, fun _ => rfl⟩
  -- `wrapping_mul`, and a zero frequency counts as no elapsed time
  let elapsedNs :=
    if startTime.2 = 0 then 0 else nsecPerSec * startTime.1 % 2 ^ 64 / startTime.2
  (addElapsed cached.ts elapsedNs, cached)

theorem timestampFrom_fst (c : CachedTs) (date : List UInt8) (ticks frequency : Nat) :
    (timestampFrom c date (ticks, frequency)).1 =
      addElapsed (timestampFrom c date (ticks, frequency)).2.ts
        (if frequency = 0 then 0 else nsecPerSec * ticks % 2 ^ 64 / frequency) := rfl

/-! ## The cache -/

/-- The cache is transparent for every date but the empty one. -/
theorem timestampFrom_cached {c : CachedTs} {date : List UInt8} (startTime : Nat × Nat)
    (hdate : date ≠ []) : (timestampFrom c date startTime).2.ts = seriesTimestamp date := by
  show (if c.date = date then c else _).ts = _
  split
  · next h => rw [c.converted (h ▸ hdate), h]
  · rfl

theorem ne_nil_of_parse {date : List UInt8} {r : Int × Nat} (h : parseRfc3339 date = some r) :
    date ≠ [] := by
  rintro rfl
  cases h

/-! ## The elapsed time -/

/-- Nanoseconds, rounded down. -/
def elapsed (ticks frequency : Nat) : Nat := 10 ^ 9 * ticks / frequency

/-- A product that wraps loses at least one nanosecond. -/
theorem elapsed_wraps {ticks frequency : Nat} (hpos : 0 < frequency) (hlt : frequency < 2 ^ 64)
    (h : 2 ^ 64 ≤ 10 ^ 9 * ticks) :
    10 ^ 9 * ticks % 2 ^ 64 / frequency < elapsed ticks frequency := by
  unfold elapsed
  generalize 10 ^ 9 * ticks = product at h ⊢
  have hle : product % 2 ^ 64 + frequency ≤ product := by
    have := Nat.mod_add_div product (2 ^ 64)
    have := Nat.div_pos h (by decide)
    omega
  calc product % 2 ^ 64 / frequency < product % 2 ^ 64 / frequency + 1 := Nat.lt_succ_self _
    _ = (product % 2 ^ 64 + frequency) / frequency := (Nat.add_div_right _ hpos).symm
    _ ≤ product / frequency := Nat.div_le_div_right hle

theorem elapsed_mono {ticks ticks' : Nat} (frequency : Nat) (h : ticks ≤ ticks') :
    elapsed ticks frequency ≤ elapsed ticks' frequency :=
  Nat.div_le_div_right (Nat.mul_le_mul_left _ h)

/-! ## The timestamp -/

theorem addElapsed_eq {series : EpicsTimestamp} {elapsedNs : Nat}
    (hfits : series.sec + (series.nsec + elapsedNs) / 10 ^ 9 < 2 ^ 32) :
    addElapsed series elapsedNs = .ofNanos (series.nanos + elapsedNs) := by
  have hsum : (series.nsec + elapsedNs) % 2 ^ 64 = series.nsec + elapsedNs := by
    apply Nat.mod_eq_of_lt
    omega
  have hsec : (series.nanos + elapsedNs) / 10 ^ 9 =
      series.sec + (series.nsec + elapsedNs) / 10 ^ 9 := by
    unfold EpicsTimestamp.nanos
    omega
  have hns : (series.nanos + elapsedNs) % 10 ^ 9 = (series.nsec + elapsedNs) % 10 ^ 9 := by
    unfold EpicsTimestamp.nanos
    omega
  have hmod : (series.nsec + elapsedNs) % 10 ^ 9 < 10 ^ 9 := Nat.mod_lt _ (by decide)
  have hnano : nsecPerSec = 10 ^ 9 := rfl
  simp only [addElapsed, EpicsTimestamp.ofNanos, hnano, hsum, hsec, hns]
  rw [Nat.mod_eq_of_lt (hfits.trans (by decide)), Nat.mod_eq_of_lt hfits,
    Nat.mod_eq_of_lt (hmod.trans (by decide))]

theorem EpicsTimestamp.nanos_ofNanos (n : Nat) : (ofNanos n).nanos = n :=
  Nat.div_add_mod' n _

/-- The date of a series from 1990 on and the start time of a frame, whose sum fits the seconds of
a timestamp. -/
structure FrameTime (date : List UInt8) (posix : Int) (nsec ticks frequency : Nat) : Prop where
  parses : parseRfc3339 date = some (posix, nsec)
  epoch_le : posixTimeAtEpicsEpoch ≤ posix
  frequency_pos : 0 < frequency
  frequency_lt : frequency < 2 ^ 64
  fits : posix - posixTimeAtEpicsEpoch + ((nsec + elapsed ticks frequency) / 10 ^ 9 : Nat) < 2 ^ 32

/-- Series time in nanoseconds since 1990. -/
def seriesNanos (posix : Int) (nsec : Nat) : Nat :=
  (posix - posixTimeAtEpicsEpoch).toNat * 10 ^ 9 + nsec

section
variable {date : List UInt8} {posix : Int} {nsec ticks frequency : Nat}

/-- What is left of the elapsed time is added without loss. -/
theorem timestampFrom_eq (c : CachedTs) (h : FrameTime date posix nsec ticks frequency) :
    (timestampFrom c date (ticks, frequency)).1 =
      .ofNanos (seriesNanos posix nsec + 10 ^ 9 * ticks % 2 ^ 64 / frequency) := by
  have hcached := timestampFrom_cached (c := c) (ticks, frequency) (ne_nil_of_parse h.parses)
  have hle : 10 ^ 9 * ticks % 2 ^ 64 / frequency ≤ elapsed ticks frequency :=
    Nat.div_le_div_right (Nat.mod_le _ _)
  have hdiv : (nsec + 10 ^ 9 * ticks % 2 ^ 64 / frequency) / 10 ^ 9 ≤
      (nsec + elapsed ticks frequency) / 10 ^ 9 :=
    Nat.div_le_div_right (Nat.add_le_add_left hle nsec)
  have hfits := h.fits
  have hepoch := h.epoch_le
  have hts : seriesTimestamp date = ⟨(posix - posixTimeAtEpicsEpoch).toNat, nsec⟩ := by
    rw [seriesTimestamp, h.parses]
    show EpicsTimestamp.mk ((posix - posixTimeAtEpicsEpoch) % 2 ^ 32).toNat nsec = _
    rw [Int.emod_eq_of_lt (Int.sub_nonneg_of_le hepoch)
      (Int.lt_of_le_of_lt (Int.le_add_of_nonneg_right (Int.natCast_nonneg _)) hfits)]
  have hzero : ¬frequency = 0 := Nat.ne_of_gt h.frequency_pos
  have hnano : nsecPerSec = 10 ^ 9 := rfl
  have hsec : (posix - posixTimeAtEpicsEpoch).toNat +
      (nsec + 10 ^ 9 * ticks % 2 ^ 64 / frequency) / 10 ^ 9 < 2 ^ 32 := by
    generalize (nsec + elapsed ticks frequency) / 10 ^ 9 = carry at hdiv hfits
    generalize (nsec + 10 ^ 9 * ticks % 2 ^ 64 / frequency) / 10 ^ 9 = carry' at hdiv ⊢
    omega
  rw [timestampFrom_fst, hcached, hts, if_neg hzero, hnano]
  exact addElapsed_eq hsec

/-- A timestamp is exact as long as the ticks in nanoseconds fit 64 bits. -/
theorem timestamp_exact (c : CachedTs) (h : FrameTime date posix nsec ticks frequency) :
    (timestampFrom c date (ticks, frequency)).1 =
        .ofNanos (seriesNanos posix nsec + elapsed ticks frequency) ↔
      10 ^ 9 * ticks < 2 ^ 64 := by
  rw [timestampFrom_eq c h]
  constructor
  · intro heq
    by_contra hwrap
    have hlt := elapsed_wraps h.frequency_pos h.frequency_lt (Nat.le_of_not_lt hwrap)
    have hnanos := congrArg EpicsTimestamp.nanos heq
    rw [EpicsTimestamp.nanos_ofNanos, EpicsTimestamp.nanos_ofNanos] at hnanos
    omega
  · intro hlt
    rw [Nat.mod_eq_of_lt hlt]
    rfl

end

/-- While the ticks in nanoseconds fit 64 bits, and only then, a frame has the time of its series
plus `ticks / frequency` seconds rounded down to a nanosecond; up to there the timestamps of a
series do not decrease. -/
theorem frame_timestamps {date : List UInt8} {posix : Int} {nsec ticks frequency : Nat}
    (c : CachedTs) (h : FrameTime date posix nsec ticks frequency) :
    (timestampFrom c date (ticks, frequency)).1.nsec < 10 ^ 9 ∧
    ((timestampFrom c date (ticks, frequency)).1 =
        .ofNanos (seriesNanos posix nsec + elapsed ticks frequency) ↔
      10 ^ 9 * ticks < 2 ^ 64) ∧
    (10 ^ 9 * ticks < 2 ^ 64 → ∀ (c' : CachedTs) (earlier : Nat), earlier ≤ ticks →
      (timestampFrom c' date (earlier, frequency)).1.nanos ≤
        (timestampFrom c date (ticks, frequency)).1.nanos) := by
  refine ⟨?_, timestamp_exact c h, fun hlt c' earlier hle => ?_⟩
  · rw [timestampFrom_eq c h]
    exact Nat.mod_lt _ (by decide)
  · have hmono := elapsed_mono frequency hle
    have hearlier : FrameTime date posix nsec earlier frequency :=
      { h with
        fits := by
          have hfits := h.fits
          have hdiv : (nsec + elapsed earlier frequency) / 10 ^ 9 ≤
              (nsec + elapsed ticks frequency) / 10 ^ 9 :=
            Nat.div_le_div_right (Nat.add_le_add_left hmono nsec)
          omega }
    have hlt' : 10 ^ 9 * earlier < 2 ^ 64 := by omega
    rw [(timestamp_exact c h).2 hlt, (timestamp_exact c' hearlier).2 hlt',
      EpicsTimestamp.nanos_ofNanos, EpicsTimestamp.nanos_ofNanos]
    omega

/-- The first of January 1990. -/
def epochText : List UInt8 :=
  "1990-01-01T00:00:00".toList.map Char.toUInt8

theorem parse_epochText : parseRfc3339 epochText = some (posixTimeAtEpicsEpoch, 0) := by
  decide +kernel

/-- The frame times of that series at 50 MHz fit for more than a century. -/
theorem frameTime_epochText {ticks : Nat} (h : elapsed ticks 50000000 / 10 ^ 9 < 2 ^ 32) :
    FrameTime epochText posixTimeAtEpicsEpoch 0 ticks 50000000 := by
  refine ⟨parse_epochText, Int.le_refl _, by decide, by decide, ?_⟩
  rw [Nat.zero_add]
  omega

theorem frame_timestamps_oneSecond :
    (timestampFrom .initial epochText (50000000, 50000000)).1 = ⟨1, 0⟩ :=
  (frame_timestamps .initial (frameTime_epochText (by decide))).2.1.2 (by decide)

/-- One tick further at 50 MHz, six minutes into the series, and the timestamp is that of its
start again. -/
theorem timestamp_falls_back :
    FrameTime epochText posixTimeAtEpicsEpoch 0 18446744074 50000000 ∧
    (timestampFrom .initial epochText (18446744073, 50000000)).1 = ⟨368, 934881460⟩ ∧
    (timestampFrom .initial epochText (18446744074, 50000000)).1 = ⟨0, 5⟩ ∧
    EpicsTimestamp.ofNanos (seriesNanos posixTimeAtEpicsEpoch 0 + elapsed 18446744074 50000000) =
      ⟨368, 934881480⟩ :=
  ⟨frameTime_epochText (by decide), by decide +kernel, by decide +kernel, by decide⟩

end Eiger
