import EpicsIocs.Lib.Bytes
import EpicsIocs.Lib.Steps
import EpicsIocs.Lib.Trailers
import EpicsIocs.Lib.Words

/-!
# Resynchronisation of the TetrAMM

The binary samples of `tetramm_proto.rs` and the read thread of `tetramm.rs` that meets them, with
complete reads of a stream that lost bytes at one point.  The skip after a resync puts the
misalignment of the read right only where it is half a sample: the bytes to a boundary are counted
from the trailer to the end of the read, but the reader stands behind the read already.

    resync ends on a boundary  ↔  2 * (bytes to the next boundary) = one sample, and the trailer
                                  found is not one across the end of a payload   (resync_inSync_iff)
-/

namespace QuadEm.Resync

open Bytes Faults Steps Trailers

/-! ## The code -/

def qeMaxInputs : Nat := 4
def binaryBufferSize : Nat := 80
def bytesPerValue : Nat := 8

inductive Trailer where
  | data
  | triggerStart
  | triggerEnd
  | acqDone
  | lostSync
  deriving DecidableEq, Repr

def Trailer.fromU64 (v : Nat) : Trailer :=
  if v = 0xfff40002ffffffff then .data
  else if v = 0xfff40000ffffffff then .triggerStart
  else if v = 0xfff40001ffffffff then .triggerEnd
  else if v = 0xfff40003ffffffff then .acqDone
  else .lostSync

def dataTrailerBytes : List UInt8 := [0xff, 0xf4, 0x00, 0x02, 0xff, 0xff, 0xff, 0xff]

def binaryFrameLen (numChannels : Nat) : Nat := (numChannels + 1) * bytesPerValue

/-- The currents are the bits of `f64`. -/
structure BinaryFrame where
  currents : List Nat
  trailer : Trailer
  deriving DecidableEq, Repr

def value (data : List UInt8) (ch : Nat) : Nat := beNat ((data.drop (ch * bytesPerValue)).take 8)

def parseBinaryFrame (data : List UInt8) (numChannels : Nat) : Option BinaryFrame :=
  let n := min numChannels qeMaxInputs
  if data.length < binaryFrameLen n then none
  else some
    { currents := (List.range qeMaxInputs).map fun ch => if ch < n then value data ch else 0
      trailer := .fromU64 (value data n) }

def findResyncOffset (buf : List UInt8) : Option Nat :=
  (List.range (binaryBufferSize - bytesPerValue)).find? fun i =>
    i + 8 ≤ buf.length && (buf.drop i).take 8 = dataTrailerBytes

def resyncRemainder (numChannels offset : Nat) : Outcome Empty Nat := do
  let afterTrailer ← Words.sub (binaryFrameLen (min numChannels qeMaxInputs) * 2) bytesPerValue
  Words.sub afterTrailer offset

/-- A complete read of the bytes from `pos` on. -/
def read (wire : Nat → UInt8) (pos len : Nat) : List UInt8 :=
  (List.range len).map fun i => wire (pos + i)

/-- The position after it. -/
def resync (wire : Nat → UInt8) (numChannels pos : Nat) : Outcome Empty Nat :=
  let doubled := binaryFrameLen numChannels * 2
  match findResyncOffset (read wire pos doubled) with
  | some offset => (resyncRemainder numChannels offset).map (pos + doubled + ·)
  | none => .ok (pos + doubled)

/-- A round of `read_thread` in the binary format, to the position after it. -/
def round (wire : Nat → UInt8) (numChannels pos : Nat) : Outcome Empty Nat :=
  let nRequested := binaryFrameLen numChannels
  match parseBinaryFrame (read wire pos nRequested) numChannels with
  | none => .ok (pos + nRequested)
  | some frame =>
    match frame.trailer with
    | .lostSync => resync wire numChannels (pos + nRequested)
    | _ => .ok (pos + nRequested)

/-! ## Streams that lost bytes -/

/-- The samples of a meter with `numChannels` channels, and the bytes that were lost: `lost` of
them, from byte `lostAt` on. -/
structure Lossy (numChannels : Nat) extends Records dataTrailerBytes (8 * numChannels) where
  lostAt : Nat
  lost : Nat

namespace Lossy

variable {n : Nat} (s : Lossy n)

/-- Which byte of the meter's stream comes at `pos`. -/
def source (pos : Nat) : Nat := if pos < s.lostAt then pos else pos + s.lost

def wire (pos : Nat) : UInt8 := s.stream (s.source pos)

/-- A sample starts at `pos`. -/
def Boundary (pos : Nat) : Prop := s.source pos % binaryFrameLen n = 0

/-- The read thread on the stream, round by round. -/
def thread : System Nat Unit := .ofFun (· = 0) fun pos _ => (round s.wire n pos).toOption

def frameAt (pos : Nat) : Option BinaryFrame :=
  parseBinaryFrame (read s.wire pos (binaryFrameLen n)) n

/-- Sample `i`, as it is to be read. -/
def sample (i : Nat) : BinaryFrame where
  currents := (List.range qeMaxInputs).map fun ch => if ch < n then value (s.payload i) ch else 0
  trailer := .data

/-- A sample starts at `pos`, and all that the thread reads from there on are samples. -/
structure InSync (pos : Nat) : Prop where
  boundary : s.Boundary pos
  samples : ∀ as later, s.thread.Run pos as later → ∃ i, s.frameAt later = some (s.sample i)

/-- How far into a sample `pos` is. -/
def phase (pos : Nat) : Nat := s.source pos % binaryFrameLen n

end Lossy

/-! ## Reads -/

theorem length_read (wire : Nat → UInt8) (pos len : Nat) : (read wire pos len).length = len := by
  rw [read, List.length_map, List.length_range]

theorem getElem?_read {wire : Nat → UInt8} {pos len i : Nat} (h : i < len) :
    (read wire pos len)[i]? = some (wire (pos + i)) := by
  rw [read, List.getElem?_map, List.getElem?_range h, Option.map_some]

theorem take_drop_read {wire : Nat → UInt8} {pos len i k : Nat} (h : i + k ≤ len) :
    ((read wire pos len).drop i).take k = read wire (pos + i) k := by
  apply List.ext_getElem?
  intro j
  by_cases hj : j < k
  · rw [List.getElem?_take_of_lt hj, List.getElem?_drop, getElem?_read (by omega), getElem?_read hj,
      Nat.add_assoc]
  · rw [List.getElem?_eq_none (by rw [List.length_take]; omega),
      List.getElem?_eq_none (by rw [length_read]; omega)]

theorem read_eq_trailer {wire : Nat → UInt8} {pos : Nat} :
    read wire pos 8 = dataTrailerBytes ↔ At dataTrailerBytes wire pos := by
  constructor
  · intro h j a ha
    have hj : j < 8 := (List.getElem?_eq_some_iff.1 ha).1
    rw [← h, getElem?_read hj] at ha
    exact Option.some.inj ha
  · intro h
    apply List.ext_getElem?
    intro j
    by_cases hj : j < 8
    · have hget : dataTrailerBytes[j]? = some dataTrailerBytes[j] := List.getElem?_eq_getElem hj
      rw [getElem?_read hj, hget, h j _ hget]
    · rw [List.getElem?_eq_none (by rw [length_read]; omega),
        List.getElem?_eq_none (Nat.not_lt.1 hj)]

theorem fromU64_trailer : Trailer.fromU64 (beNat dataTrailerBytes) = .data := by decide

theorem trailer_ne_nil : dataTrailerBytes ≠ [] := nofun

/-- The trailer overlaps itself by one byte only. -/
theorem overlap_trailer {o : Nat} (h : Overlap dataTrailerBytes o) : o = 7 := by
  obtain ⟨hpos, hlt, hpre⟩ := h
  have table : ∀ o < 8, 0 < o → dataTrailerBytes.drop o <+: dataTrailerBytes → o = 7 := by decide
  exact table o hlt hpos hpre

theorem overlap_seven : Overlap dataTrailerBytes 7 := ⟨by decide, by decide, by decide⟩

/-- What the scan for a trailer finds. -/
theorem findResyncOffset_read {wire : Nat → UInt8} {pos len o : Nat} :
    findResyncOffset (read wire pos len) = some o ↔
      (o < 72 ∧ o + 8 ≤ len ∧ At dataTrailerBytes wire (pos + o)) ∧
        ∀ i < o, ¬At dataTrailerBytes wire (pos + i) := by
  have hfound : ∀ i, i + 8 ≤ len →
      ((i + 8 ≤ (read wire pos len).length && ((read wire pos len).drop i).take 8 = dataTrailerBytes) =
        true ↔ At dataTrailerBytes wire (pos + i)) := by
    intro i hi
    rw [take_drop_read hi, length_read, Bool.and_eq_true, decide_eq_true_iff, decide_eq_true_iff,
      read_eq_trailer]
    exact and_iff_right hi
  rw [findResyncOffset, List.find?_range_eq_some]
  constructor
  · rintro ⟨hat, hmem, hfirst⟩
    have hlen : o + 8 ≤ len := by
      rw [Bool.and_eq_true, decide_eq_true_iff, length_read] at hat
      exact hat.1
    refine ⟨⟨List.mem_range.1 hmem, hlen, (hfound o hlen).1 hat⟩, fun i hi hati => ?_⟩
    have hnot := hfirst i hi
    rw [(hfound i (by omega)).2 hati] at hnot
    cases hnot
  · rintro ⟨⟨ho, hlen, hat⟩, hfirst⟩
    refine ⟨(hfound o hlen).2 hat, List.mem_range.2 ho, fun i hi => ?_⟩
    rw [Bool.not_eq_true', ← Bool.not_eq_true, hfound i (by omega)]
    exact hfirst i hi

/-- The bytes left behind a trailer in a read of two frames. -/
theorem resyncRemainder_of_le {n offset : Nat} (hn : n ≤ 4) (h : offset + 8 ≤ binaryFrameLen n * 2) :
    resyncRemainder n offset = .ok (binaryFrameLen n * 2 - 8 - offset) := by
  rw [resyncRemainder, Nat.min_eq_left (show n ≤ qeMaxInputs from hn), Words.sub_of_le (by rw [bytesPerValue]; omega),
    Words.bind_ok, Words.sub_of_le (by rw [bytesPerValue]; omega), bytesPerValue]

/-- No offset that the scan of two frames returns makes the subtraction underflow. -/
theorem resyncRemainder_isOk {n offset : Nat} (hn : n ≤ 4) {buf : List UInt8}
    (hbuf : buf.length ≤ binaryFrameLen n * 2) (h : findResyncOffset buf = some offset) :
    ∃ remainder, resyncRemainder n offset = .ok remainder := by
  have hat := (List.find?_range_eq_some.1 h).1
  rw [Bool.and_eq_true, decide_eq_true_iff] at hat
  exact ⟨_, resyncRemainder_of_le hn (hat.1.trans hbuf)⟩

/-- What the skip comes to, from a trailer that ends a sample. -/
theorem skip_mod {n y o : Nat} (hn1 : 1 ≤ n) (hn : n ≤ 4) (ho : o + 8 ≤ binaryFrameLen n * 2)
    (htrailer : (y + o) % binaryFrameLen n = 8 * n) (hy : y % binaryFrameLen n ≠ 0) :
    (y + binaryFrameLen n * 2 + (binaryFrameLen n * 2 - 8 - o)) % binaryFrameLen n = 0 ↔
      2 * (y % binaryFrameLen n) = binaryFrameLen n := by
  rw [binaryFrameLen, bytesPerValue] at *
  obtain rfl | rfl | rfl | rfl : n = 1 ∨ n = 2 ∨ n = 3 ∨ n = 4 := by omega
  · omega
  · omega
  · omega
  · omega

/-- From one off by its overlap, the skip ends at an odd place. -/
theorem skip_mod_overlap {n y o : Nat} (hn1 : 1 ≤ n) (hn : n ≤ 4)
    (ho : o + 8 ≤ binaryFrameLen n * 2)
    (htrailer : (y + o) % binaryFrameLen n + 7 = 8 * n ∨ (y + o) % binaryFrameLen n = 8 * n + 7) :
    (y + binaryFrameLen n * 2 + (binaryFrameLen n * 2 - 8 - o)) % binaryFrameLen n ≠ 0 := by
  rw [binaryFrameLen, bytesPerValue] at *
  obtain rfl | rfl | rfl | rfl : n = 1 ∨ n = 2 ∨ n = 3 ∨ n = 4 := by omega
  · omega
  · omega
  · omega
  · omega

namespace Lossy

variable {n : Nat} (s : Lossy n)

theorem period_eq : s.period = binaryFrameLen n := by
  rw [Records.period, binaryFrameLen, bytesPerValue]
  show 8 * n + 8 = _
  omega

theorem source_of_le {pos : Nat} (h : s.lostAt ≤ pos) : s.source pos = pos + s.lost :=
  if_neg (Nat.not_lt.2 h)

theorem source_of_lt {pos : Nat} (h : pos < s.lostAt) : s.source pos = pos := if_pos h

theorem at_wire {pos : Nat} (h : s.lostAt ≤ pos) :
    At dataTrailerBytes s.wire pos ↔ At dataTrailerBytes s.stream (pos + s.lost) := by
  have hwire : ∀ j, s.wire (pos + j) = s.stream (pos + s.lost + j) := by
    intro j
    rw [wire, s.source_of_le (by omega), Nat.add_right_comm]
  rw [At, At]
  simp only [hwire]

/-- A position of the stream, as a place in a sample. -/
theorem div_mul_period (y : Nat) : y / s.period * s.period + y % s.period = y := by
  rw [Nat.mul_comm]
  exact Nat.div_add_mod y s.period

theorem at_of_mod {y : Nat} (h : y % binaryFrameLen n = 8 * n) :
    At dataTrailerBytes s.stream y := by
  rw [← s.period_eq] at h
  rw [← s.div_mul_period y, h]
  exact s.at_trailer _

theorem parse_sample (hn : n ≤ 4) (i : Nat) :
    parseBinaryFrame (s.record i) n = some (s.sample i) := by
  have hlen : (s.record i).length = binaryFrameLen n := by rw [s.length_record, s.period_eq]
  have hvalue : ∀ ch < n, value (s.record i) ch = value (s.payload i) ch := by
    intro ch hch
    have hin : (s.payload i).length = 8 * n := s.length_payload i
    rw [value, value, Records.record, bytesPerValue,
      List.drop_append_of_le_length (by omega),
      List.take_append_of_le_length (by rw [List.length_drop]; omega)]
  have htrailer : value (s.record i) n = beNat dataTrailerBytes := by
    have hin : (s.payload i).length = n * 8 := by rw [s.length_payload, Nat.mul_comm]
    rw [value, Records.record, bytesPerValue, ← hin, List.drop_left]
    rfl
  rw [parseBinaryFrame, Nat.min_eq_left (show n ≤ qeMaxInputs from hn), if_neg (by omega), htrailer, sample]
  refine congrArg some (congrArg₂ BinaryFrame.mk ?_ fromU64_trailer)
  apply List.map_congr_left
  intro ch _
  by_cases hch : ch < n
  · rw [if_pos hch, if_pos hch, hvalue ch hch]
  · rw [if_neg hch, if_neg hch]

/-- A read that starts with a sample, on one side of what was lost, is that sample. -/
theorem frameAt_of_boundary (hn : n ≤ 4) {pos : Nat} (h : s.Boundary pos)
    (hside : pos + binaryFrameLen n ≤ s.lostAt ∨ s.lostAt ≤ pos) :
    ∃ i, s.frameAt pos = some (s.sample i) := by
  have hpos : 0 < binaryFrameLen n := by
    rw [binaryFrameLen, bytesPerValue]
    omega
  have hsource : ∀ x < binaryFrameLen n, s.source (pos + x) = s.source pos + x := by
    intro x hx
    rcases hside with hbefore | hafter
    · rw [s.source_of_lt (by omega), s.source_of_lt (by omega)]
    · rw [s.source_of_le (by omega), s.source_of_le hafter]
      omega
  refine ⟨s.source pos / binaryFrameLen n, ?_⟩
  rw [frameAt, ← s.parse_sample hn]
  congr 1
  apply List.ext_getElem?
  intro x
  by_cases hx : x < binaryFrameLen n
  · have hin : x < (s.record (s.source pos / binaryFrameLen n)).length := by
      rw [s.length_record, s.period_eq]
      exact hx
    have hstream := s.stream_record (List.getElem?_eq_getElem hin)
    rw [s.period_eq, Nat.div_mul_cancel (Nat.dvd_of_mod_eq_zero h)] at hstream
    rw [getElem?_read hx, wire, hsource x hx, hstream, List.getElem?_eq_getElem hin]
  · rw [List.getElem?_eq_none (by rw [length_read]; omega),
      List.getElem?_eq_none (by rw [s.length_record, s.period_eq]; omega)]

/-- A trailer where it is expected. -/
theorem frameAt_of_at (hn : n ≤ 4) {pos : Nat} (h : At dataTrailerBytes s.wire (pos + 8 * n)) :
    ∃ frame, s.frameAt pos = some frame ∧ frame.trailer = .data := by
  have hvalue : value (read s.wire pos (binaryFrameLen n)) n = beNat dataTrailerBytes := by
    rw [value, take_drop_read (by rw [binaryFrameLen, bytesPerValue]; omega), bytesPerValue,
      Nat.mul_comm, read_eq_trailer.2 h]
  rw [frameAt, parseBinaryFrame, Nat.min_eq_left (show n ≤ qeMaxInputs from hn),
    if_neg (by rw [length_read]; exact Nat.lt_irrefl _), hvalue, fromU64_trailer]
  exact ⟨_, rfl, rfl⟩

/-! ## The read thread -/

theorem frameAt_isSome (hn : n ≤ 4) (pos : Nat) : ∃ frame, s.frameAt pos = some frame := by
  rw [frameAt, parseBinaryFrame, Nat.min_eq_left (show n ≤ qeMaxInputs from hn),
    if_neg (by rw [length_read]; exact Nat.lt_irrefl _)]
  exact ⟨_, rfl⟩

theorem round_of_data {pos : Nat} {frame : BinaryFrame} (h : s.frameAt pos = some frame)
    (ht : frame.trailer ≠ .lostSync) : round s.wire n pos = .ok (pos + binaryFrameLen n) := by
  rw [frameAt] at h
  rw [round, h]
  dsimp only
  split
  · contradiction
  · rfl

theorem round_of_lostSync {pos : Nat} {frame : BinaryFrame} (h : s.frameAt pos = some frame)
    (ht : frame.trailer = .lostSync) :
    round s.wire n pos = resync s.wire n (pos + binaryFrameLen n) := by
  rw [frameAt] at h
  rw [round, h]
  dsimp only
  rw [ht]

theorem le_resync {pos pos' : Nat} (h : resync s.wire n pos = .ok pos') : pos ≤ pos' := by
  rw [resync] at h
  split at h
  · obtain ⟨remainder, _, rfl⟩ := Fallible.map_eq_ok.1 h
    omega
  · cases h
    omega

/-- Before the loss the thread stands at the start of a sample. -/
def Aligned (pos : Nat) : Prop := s.lostAt ≤ pos ∨ pos % binaryFrameLen n = 0

theorem boundary_of_lt {pos : Nat} (h : pos < s.lostAt) (hmod : pos % binaryFrameLen n = 0) :
    s.Boundary pos := by
  rw [Boundary, s.source_of_lt h]
  exact hmod

theorem aligned_round (hn : n ≤ 4) {pos pos' : Nat} (h : s.Aligned pos)
    (hround : round s.wire n pos = .ok pos') : s.Aligned pos' := by
  obtain ⟨frame, hframe⟩ := s.frameAt_isSome hn pos
  by_cases ht : frame.trailer = .lostSync
  · rw [s.round_of_lostSync hframe ht] at hround
    have hle := s.le_resync hround
    refine .inl ?_
    by_contra hbefore
    have hmod : pos % binaryFrameLen n = 0 := h.resolve_left (by omega)
    obtain ⟨i, hi⟩ := s.frameAt_of_boundary hn (s.boundary_of_lt (by omega) hmod) (.inl (by omega))
    rw [hframe] at hi
    cases hi
    cases ht
  · rw [s.round_of_data hframe ht] at hround
    cases hround
    rcases h with hafter | hmod
    · exact .inl (by omega)
    · exact .inr (by rw [Nat.add_mod_right, hmod])

theorem step_iff {pos pos' : Nat} {a : Unit} :
    s.thread.step pos a pos' ↔ round s.wire n pos = .ok pos' := by
  show (round s.wire n pos).toOption = some pos' ↔ _
  cases round s.wire n pos with
  | error fault => exact ⟨nofun, nofun⟩
  | ok p => exact ⟨fun h => congrArg Except.ok (Option.some.inj h), fun h => by cases h; rfl⟩

theorem aligned_of_reachable (hn : n ≤ 4) {pos : Nat} (h : s.thread.Reachable pos) :
    s.Aligned pos := by
  refine h.invariant ?_ ?_
  · rintro pos rfl
    exact .inr (Nat.zero_mod _)
  · intro pos _ pos' hpos hstep
    exact s.aligned_round hn hpos (s.step_iff.1 hstep)

/-- A frame without a trailer ends behind the loss, within a sample. -/
theorem of_lostSync (hn : n ≤ 4) {pos : Nat} (h : s.Aligned pos) {frame : BinaryFrame}
    (hframe : s.frameAt pos = some frame) (ht : frame.trailer = .lostSync) :
    s.lostAt ≤ pos + binaryFrameLen n ∧
      (pos + binaryFrameLen n + s.lost) % binaryFrameLen n ≠ 0 := by
  have hnot : ¬At dataTrailerBytes s.wire (pos + 8 * n) := by
    intro hat
    obtain ⟨frame', hframe', hdata⟩ := s.frameAt_of_at hn hat
    rw [hframe] at hframe'
    cases hframe'
    rw [ht] at hdata
    cases hdata
  have hlen : binaryFrameLen n = 8 * n + 8 := by
    rw [binaryFrameLen, bytesPerValue]
    omega
  have hpart : ∀ y x, y % binaryFrameLen n = 0 → x % binaryFrameLen n = 8 * n →
      (y + x) % binaryFrameLen n = 8 * n := by
    intro y x hy hx
    rw [Nat.add_mod, hy, hx, Nat.zero_add, Nat.mod_eq_of_lt (by omega)]
  have hoffset : 8 * n % binaryFrameLen n = 8 * n := Nat.mod_eq_of_lt (by omega)
  constructor
  · by_contra hbefore
    have hmod : pos % binaryFrameLen n = 0 := h.resolve_left (by omega)
    apply hnot
    intro j a ha
    have hj : j < 8 := (List.getElem?_eq_some_iff.1 ha).1
    rw [wire, s.source_of_lt (by omega)]
    exact s.at_of_mod (hpart pos _ hmod hoffset) j a ha
  · intro hzero
    rw [Nat.add_right_comm, Nat.add_mod_right] at hzero
    apply hnot
    intro j a ha
    have hj : j < 8 := (List.getElem?_eq_some_iff.1 ha).1
    by_cases hlt : pos + 8 * n + j < s.lostAt
    · have hmod : pos % binaryFrameLen n = 0 := h.resolve_left (by omega)
      rw [wire, s.source_of_lt hlt]
      exact s.at_of_mod (hpart pos _ hmod hoffset) j a ha
    · rw [wire, s.source_of_le (by omega),
        show pos + 8 * n + j + s.lost = pos + s.lost + 8 * n + j by omega]
      exact s.at_of_mod (hpart _ _ hzero hoffset) j a ha

/-- What a resync behind the loss finds, and where it ends. -/
theorem resync_spec (hn : n ≤ 4) {pos : Nat} (h : s.lostAt ≤ pos) :
    ∃ o, resync s.wire n pos =
        .ok (pos + binaryFrameLen n * 2 + (binaryFrameLen n * 2 - 8 - o)) ∧
      o + 8 ≤ binaryFrameLen n * 2 ∧ At dataTrailerBytes s.stream (pos + s.lost + o) ∧
      ∀ i, At dataTrailerBytes s.stream (pos + s.lost + i) → o ≤ i := by
  classical
  have hlen : binaryFrameLen n = 8 * n + 8 := by
    rw [binaryFrameLen, bytesPerValue]
    omega
  have hlt : (pos + s.lost) % binaryFrameLen n < binaryFrameLen n := Nat.mod_lt _ (by omega)
  -- a trailer that is there for certain, less than a sample ahead
  obtain ⟨k, hk, htrailer⟩ : ∃ k < binaryFrameLen n,
      At dataTrailerBytes s.stream (pos + s.lost + k) := by
    rcases Nat.lt_or_ge (8 * n) ((pos + s.lost) % binaryFrameLen n) with hhi | hlo
    · refine ⟨8 * n + binaryFrameLen n - (pos + s.lost) % binaryFrameLen n, by omega,
        s.at_of_mod ?_⟩
      rw [← Nat.mod_add_mod, Nat.add_sub_cancel' (by omega), Nat.add_mod_right,
        Nat.mod_eq_of_lt (by omega)]
    · refine ⟨8 * n - (pos + s.lost) % binaryFrameLen n, by omega, s.at_of_mod ?_⟩
      rw [← Nat.mod_add_mod, Nat.add_sub_cancel' hlo, Nat.mod_eq_of_lt (by omega)]
  have hexists : ∃ i, At dataTrailerBytes s.stream (pos + s.lost + i) := ⟨k, htrailer⟩
  have hmin : Nat.find hexists ≤ k := Nat.find_min' hexists htrailer
  have hwire : ∀ i, At dataTrailerBytes s.wire (pos + i) ↔
      At dataTrailerBytes s.stream (pos + s.lost + i) := by
    intro i
    rw [s.at_wire (by omega), Nat.add_right_comm]
  have hfind : findResyncOffset (read s.wire pos (binaryFrameLen n * 2)) =
      some (Nat.find hexists) := by
    refine findResyncOffset_read.2 ⟨⟨by omega, by omega, (hwire _).2 (Nat.find_spec hexists)⟩, ?_⟩
    intro i hi hat
    exact Nat.find_min hexists hi ((hwire i).1 hat)
  refine ⟨Nat.find hexists, ?_, by omega, Nat.find_spec hexists, fun i hi => Nat.find_min' _ hi⟩
  rw [resync, hfind]
  dsimp only
  rw [resyncRemainder_of_le hn (by omega)]
  rfl

/-- On a boundary, a run reads samples only. -/
theorem inSync_of_boundary (hn : n ≤ 4) {pos : Nat} (hpos : s.lostAt ≤ pos) (h : s.Boundary pos) :
    s.InSync pos := by
  refine ⟨h, fun as later hrun => ?_⟩
  suffices hkept : s.lostAt ≤ later ∧ s.Boundary later from
    s.frameAt_of_boundary hn hkept.2 (.inr hkept.1)
  induction hrun with
  | nil => exact ⟨hpos, h⟩
  | snoc _ hstep ih =>
    obtain ⟨hle, hb⟩ := ih
    obtain ⟨i, hframe⟩ := s.frameAt_of_boundary hn hb (.inr hle)
    have hround := s.step_iff.1 hstep
    rw [s.round_of_data hframe (by rw [sample]; nofun)] at hround
    cases hround
    refine ⟨by omega, ?_⟩
    rw [Boundary, s.source_of_le hle] at hb
    rw [Boundary, s.source_of_le (by omega), Nat.add_right_comm, Nat.add_mod_right]
    exact hb

/-- The payload at `pos` ends with all but the last byte of a trailer, and the read takes that in:
the scan then stops there, a payload too early. -/
def EndsLikeTrailer (pos : Nat) : Prop :=
  s.phase pos + 15 ≤ binaryFrameLen n ∧
    dataTrailerBytes.take 7 <:+ s.payload (s.source pos / binaryFrameLen n)

theorem resync_boundary_iff (hn1 : 1 ≤ n) (hn : n ≤ 4) {pos : Nat} (h : s.lostAt ≤ pos)
    (hphase : s.phase pos ≠ 0) :
    ∃ pos', resync s.wire n pos = .ok pos' ∧
      (s.Boundary pos' ↔ 2 * s.phase pos = binaryFrameLen n ∧ ¬s.EndsLikeTrailer pos) := by
  obtain ⟨o, hresync, ho, hat, hfirst⟩ := s.resync_spec hn h
  refine ⟨_, hresync, ?_⟩
  have hlen : binaryFrameLen n = 8 * n + 8 := by
    rw [binaryFrameLen, bytesPerValue]
    omega
  have hcases := s.at_cases (by show 8 ≤ 8 * n; omega) hat trailer_ne_nil
  rw [s.period_eq] at hcases
  rw [phase, s.source_of_le h] at hphase
  rw [Boundary, s.source_of_le (by omega), EndsLikeTrailer, phase, s.source_of_le h,
    show pos + binaryFrameLen n * 2 + (binaryFrameLen n * 2 - 8 - o) + s.lost =
      pos + s.lost + binaryFrameLen n * 2 + (binaryFrameLen n * 2 - 8 - o) by omega]
  generalize pos + s.lost = y at *
  have hy : y / binaryFrameLen n * binaryFrameLen n + y % binaryFrameLen n = y := by
    rw [Nat.mul_comm]
    exact Nat.div_add_mod y _
  -- the trailer ahead, in the second half of a sample
  have hahead : y % binaryFrameLen n ≤ 8 * n → o ≤ 8 * n - y % binaryFrameLen n := by
    intro hle
    apply hfirst
    apply s.at_of_mod
    rw [← Nat.mod_add_mod, Nat.add_sub_cancel' hle, Nat.mod_eq_of_lt (by omega)]
  rcases hcases with htrailer | ⟨o', hover, hend, hoff⟩ | ⟨o', hover, hoff⟩
  · rw [skip_mod hn1 hn ho htrailer hphase]
    refine ⟨fun hhalf => ⟨hhalf, ?_⟩, And.left⟩
    rintro ⟨hroom, hends⟩
    have hspurious := s.at_of_end overlap_seven hends
    rw [s.period_eq, show y / binaryFrameLen n * binaryFrameLen n + (8 * n - 7) =
      y + (8 * n - 7 - y % binaryFrameLen n) by omega] at hspurious
    have hle := hfirst _ hspurious
    rw [← Nat.mod_add_mod, Nat.mod_eq_of_lt (by omega)] at htrailer
    omega
  · cases overlap_trailer hover
    refine ⟨fun hb => absurd hb (skip_mod_overlap hn1 hn ho (.inl hoff)), ?_⟩
    rintro ⟨hhalf, hnot⟩
    have hle := hahead (by omega)
    have hlt : y % binaryFrameLen n + o < binaryFrameLen n := by omega
    have hdiv : (y + o) / binaryFrameLen n = y / binaryFrameLen n := by
      apply Nat.div_eq_of_lt_le
      · omega
      · rw [Nat.succ_mul]
        omega
    rw [← Nat.mod_add_mod, Nat.mod_eq_of_lt hlt] at hoff
    rw [hdiv] at hend
    exact absurd ⟨by omega, hend⟩ hnot
  · cases overlap_trailer hover
    refine ⟨fun hb => absurd hb (skip_mod_overlap hn1 hn ho (.inr hoff)), ?_⟩
    rintro ⟨hhalf, _⟩
    have hle := hahead (by omega)
    rw [← Nat.mod_add_mod, Nat.mod_eq_of_lt (by omega)] at hoff
    omega

/-- The round that meets a frame without a trailer. -/
theorem resync_inSync_iff (hn1 : 1 ≤ n) (hn : n ≤ 4) {pos : Nat} (h : s.thread.Reachable pos)
    {frame : BinaryFrame} (hframe : s.frameAt pos = some frame) (ht : frame.trailer = .lostSync) :
    (∀ buf offset, buf.length ≤ binaryFrameLen n * 2 → findResyncOffset buf = some offset →
      ∃ remainder, resyncRemainder n offset = .ok remainder) ∧
    ((∃ pos', round s.wire n pos = .ok pos' ∧ s.InSync pos') ↔
      2 * s.phase (pos + binaryFrameLen n) = binaryFrameLen n ∧
        ¬s.EndsLikeTrailer (pos + binaryFrameLen n)) := by
  refine ⟨fun buf offset hbuf hfind => resyncRemainder_isOk hn hbuf hfind, ?_⟩
  obtain ⟨hafter, hphase⟩ := s.of_lostSync hn (s.aligned_of_reachable hn h) hframe ht
  obtain ⟨pos', hresync, hiff⟩ := s.resync_boundary_iff hn1 hn hafter (by
    rw [phase, s.source_of_le hafter]
    exact hphase)
  rw [s.round_of_lostSync hframe ht, hresync, ← hiff]
  constructor
  · rintro ⟨_, hround, hsync⟩
    cases hround
    exact hsync.boundary
  · intro hb
    exact ⟨pos', rfl, s.inSync_of_boundary hn (hafter.trans (s.le_resync hresync)) hb⟩

/-- Zero currents, and `lost` bytes missing at the start. -/
def zeros (numChannels lost : Nat) : Lossy numChannels where
  payload _ := List.replicate (8 * numChannels) 0
  length_payload _ := List.length_replicate
  no_trailer _ h := absurd (List.eq_of_mem_replicate (h.subset (by decide : 0xff ∈ dataTrailerBytes)))
    (by decide)
  lostAt := 0
  lost := lost

/-- Half a sample lost. -/
theorem resync_inSync_half : ∃ pos', round (zeros 4 20).wire 4 0 = .ok pos' ∧
    (zeros 4 20).InSync pos' := by
  have hframe : (zeros 4 20).frameAt 0 = some ⟨[0, 0xfff40002, 0xffffffff00000000, 0], .lostSync⟩ := by
    decide +kernel
  refine ((zeros 4 20).resync_inSync_iff (by decide) (by decide)
    (Steps.System.Reachable.init rfl) hframe rfl).2.2 ⟨by decide, ?_⟩
  rintro ⟨_, hends⟩
  exact absurd hends (by decide)

/-- Three bytes lost: the thread goes on six bytes into a sample. -/
theorem resync_three_lost : ∃ frame, (zeros 4 3).frameAt 0 = some frame ∧
    frame.trailer = .lostSync ∧ ¬∃ pos', round (zeros 4 3).wire 4 0 = .ok pos' ∧
      (zeros 4 3).InSync pos' := by
  refine ⟨⟨[0, 0, 0, 0xfff400], .lostSync⟩, by decide +kernel, rfl, ?_⟩
  rintro ⟨pos', hround, hsync⟩
  have hpos : round (zeros 4 3).wire 4 0 = .ok 163 := by decide +kernel
  cases hround.symm.trans hpos
  have hmod : (163 + 3) % 40 = 0 := hsync.boundary
  exact absurd hmod (by decide)

end Lossy

end QuadEm.Resync
