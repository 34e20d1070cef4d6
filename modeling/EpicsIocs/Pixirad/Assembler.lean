import EpicsIocs.Lib.Bytes
import EpicsIocs.Lib.Blocks

/-! # Frames from packets

`FrameAssembler` of `udp.rs`.  A packet's identifier counts modulo 45, so its slot in the
frame is known from the group of 45 that the assembler thinks it is in.

    outputs = the sent frames, each with zeros for its lost packets     (feed_frames)

as long as the last packet of every frame arrives.  A frame whose tail is lost takes its
last slots from the next frame, or discards the packet that opens it. -/

namespace Pixirad

open Blocks Bytes

/-! ## The assembler -/

def maxUdpPacketLen : Nat := 1448
def daqPacketFragment : Nat := 45
def autocalData : UInt8 := 0x40
def packetTagBytes : Nat := 2
def packetIdBytes : Nat := 2
def packetIdOffset : Nat := 2
def packetCrcBytes : Nat := 4
def packetSensorDataOffset : Nat := packetTagBytes + packetIdBytes
def packetExtraBytes : Nat := packetIdBytes + packetTagBytes + packetCrcBytes
def packetSensorDataBytes : Nat := maxUdpPacketLen - packetExtraBytes

/-- How many packets the frames have.  An autocalibration frame has no more than a normal one. -/
structure Sensor where
  numUdpPackets : Nat
  numAutocalUdpPackets : Nat
  autocal_pos : 0 < numAutocalUdpPackets
  autocal_le : numAutocalUdpPackets ≤ numUdpPackets

inductive Asic where
  | pii
  | piii
  deriving DecidableEq, Repr

/-- The packets of the sensors there are. -/
def Sensor.fromSize (asic : Asic) (maxSizeY : Int) : Option Sensor :=
  match asic, maxSizeY with
  | .pii, 512 => some ⟨360, 135, by decide, by decide⟩
  | .pii, 1024 => some ⟨720, 270, by decide, by decide⟩
  | .pii, 4096 => some ⟨2539, 1080, by decide, by decide⟩
  | .piii, 512 => some ⟨270, 180, by decide, by decide⟩
  | .piii, 1024 => some ⟨540, 360, by decide, by decide⟩
  | .piii, 4096 => some ⟨2539, 1080, by decide, by decide⟩
  | _, _ => none

def Sensor.packets (sensor : Sensor) (isAutocal : Bool) : Nat :=
  if isAutocal then sensor.numAutocalUdpPackets else sensor.numUdpPackets

structure Frame where
  isAutocal : Bool
  alignErrors : Bool
  payload : List UInt8
  deriving DecidableEq, Repr

/-- `groupStart` and `nextInGroup` in packets. -/
structure FrameAssembler where
  payload : List UInt8
  groupStart : Nat := 0
  nextInGroup : Nat := 0
  expectedPackets : Nat
  isAutocal : Bool := false
  alignErrors : Bool := false
  started : Bool := false
  deriving DecidableEq, Repr

namespace FrameAssembler

section
variable (sensor : Sensor)

def new : FrameAssembler where
  payload := List.replicate (sensor.numUdpPackets * packetSensorDataBytes) 0
  expectedPackets := sensor.numUdpPackets

def reset (asm : FrameAssembler) : FrameAssembler where
  payload := List.replicate asm.payload.length 0
  expectedPackets := sensor.numUdpPackets

/-- The first packet says what kind of frame it is. -/
def start (asm : FrameAssembler) (packet : List UInt8) : FrameAssembler :=
  if asm.started then asm
  else
    let isAutocal := packet.getD 0 0 &&& autocalData != 0
    { asm with isAutocal, expectedPackets := sensor.packets isAutocal, started := true }

def packetId (packet : List UInt8) : Nat :=
  beNat ((packet.drop packetIdOffset).take 2) % daqPacketFragment

/-- Finds the group of the packet. -/
def align (asm : FrameAssembler) (id : Nat) : FrameAssembler :=
  if id < asm.nextInGroup then
    { asm with
      alignErrors := true, groupStart := asm.groupStart + daqPacketFragment, nextInGroup := 0 }
  else if asm.nextInGroup < id then { asm with alignErrors := true }
  else asm

def sensorData (packet : List UInt8) : List UInt8 :=
  (packet.drop packetSensorDataOffset).take packetSensorDataBytes

/-- Writes the packet to its slot. -/
def store (asm : FrameAssembler) (slot : Nat) (data : List UInt8) : FrameAssembler :=
  { asm with
    payload := asm.payload.take (slot * packetSensorDataBytes) ++ data ++
      asm.payload.drop ((slot + 1) * packetSensorDataBytes) }

/-- Goes on behind the packet. -/
def advance (asm : FrameAssembler) (id : Nat) : FrameAssembler :=
  if id + 1 = daqPacketFragment then
    { asm with groupStart := asm.groupStart + daqPacketFragment, nextInGroup := 0 }
  else { asm with nextInGroup := id + 1 }

/-- The frame, if all its packets are behind. -/
def finish (asm : FrameAssembler) : Option Frame × FrameAssembler :=
  if asm.groupStart + asm.nextInGroup < asm.expectedPackets then (none, asm)
  else
    (some ⟨asm.isAutocal, asm.alignErrors,
      asm.payload.take (asm.expectedPackets * packetSensorDataBytes)⟩, asm.reset sensor)

def accept (asm : FrameAssembler) (packet : List UInt8) : Option Frame × FrameAssembler :=
  if packet.length ≠ maxUdpPacketLen then (none, asm)
  else
    let id := packetId packet
    let asm := (asm.start sensor packet).align id
    let slot := asm.groupStart + id
    if asm.expectedPackets ≤ slot then (none, asm.reset sensor)
    else ((asm.store slot (sensorData packet)).advance id).finish sensor

/-- The frames that the packets complete. -/
def feed (asm : FrameAssembler) : List (List UInt8) → List Frame × FrameAssembler
  | [] => ([], asm)
  | packet :: packets =>
    let (frame, asm) := asm.accept sensor packet
    let (frames, asm) := feed asm packets
    (frame.toList ++ frames, asm)

theorem feed_discarded {sensor : Sensor} {asm asm' : FrameAssembler} {packet : List UInt8}
    {packets : List (List UInt8)} (h : asm.accept sensor packet = (none, asm')) :
    asm.feed sensor (packet :: packets) = asm'.feed sensor packets := by
  rw [feed, h]
  rfl

theorem feed_append (asm : FrameAssembler) (first second : List (List UInt8)) :
    (asm.feed sensor (first ++ second)).1 =
        (asm.feed sensor first).1 ++ ((asm.feed sensor first).2.feed sensor second).1 ∧
      (asm.feed sensor (first ++ second)).2 = ((asm.feed sensor first).2.feed sensor second).2 := by
  induction first generalizing asm with
  | nil => exact ⟨rfl, rfl⟩
  | cons packet first ih =>
    obtain ⟨hframes, hasm⟩ := ih (asm.accept sensor packet).2
    simp only [List.cons_append, feed]
    constructor
    · rw [hframes, List.append_assoc]
    · exact hasm

end

end FrameAssembler

/-! ## The detector -/

/-- The packet of a slot carries the slot modulo 45 and the kind of its frame. -/
structure IsPacket (isAutocal : Bool) (slot : Nat) (packet : List UInt8) : Prop where
  full : packet.length = maxUdpPacketLen
  kind : (packet.getD 0 0 &&& autocalData != 0) = isAutocal
  id : beNat ((packet.drop packetIdOffset).take 2) = slot % daqPacketFragment

/-- A frame that is sent, and which of its packets are lost. -/
structure Sent where
  isAutocal : Bool
  packet : Nat → List UInt8
  lost : Nat → Bool
  isPacket : ∀ slot, IsPacket isAutocal slot (packet slot)

namespace Sent

variable (sensor : Sensor) (f : Sent)

def size : Nat := sensor.packets f.isAutocal

/-- Of the packets of these slots, the ones that arrive. -/
def arrived (slots : List Nat) : List (List UInt8) :=
  (slots.filter fun s => !f.lost s).map f.packet

/-- What a frame has in a slot: the data of its packet, or zeros. -/
def slotData (s : Nat) : List UInt8 :=
  if f.lost s then List.replicate packetSensorDataBytes 0
  else FrameAssembler.sensorData (f.packet s)

/-- The frame with zeros for its lost packets. -/
def frame : Frame where
  isAutocal := f.isAutocal
  alignErrors := (List.range (f.size sensor)).any f.lost
  payload := ((List.range (f.size sensor)).map f.slotData).flatten

/-- The identifiers do not come round in a gap. -/
def ShortGaps : Prop :=
  ∀ s, s + daqPacketFragment ≤ f.size sensor → ∃ i < daqPacketFragment, f.lost (s + i) = false

/-- The last packet arrives. -/
def Ends : Prop := f.lost (f.size sensor - 1) = false

end Sent

/-! ## Inside a frame -/

theorem sensorData_length {isAutocal : Bool} {slot : Nat} {packet : List UInt8}
    (h : IsPacket isAutocal slot packet) :
    (FrameAssembler.sensorData packet).length = packetSensorDataBytes := by
  rw [FrameAssembler.sensorData, List.length_take, List.length_drop, h.full]
  decide

namespace Sent

variable (sensor : Sensor) (f : Sent)

theorem slotData_length (s : Nat) : (f.slotData s).length = packetSensorDataBytes := by
  unfold slotData
  split
  · exact List.length_replicate
  · exact sensorData_length (f.isPacket s)

/-- The payload buffer with the slots before `q` filled in. -/
def blocks (q : Nat) : List (List UInt8) :=
  (List.range sensor.numUdpPackets).map fun s =>
    if s < q then f.slotData s else List.replicate packetSensorDataBytes 0

theorem blocks_even (q : Nat) : Even packetSensorDataBytes (f.blocks sensor q) := by
  intro b hb
  obtain ⟨s, -, rfl⟩ := List.mem_map.1 hb
  split
  · exact f.slotData_length s
  · exact List.length_replicate

/-- The assembler behind the last packet that arrived of the slots before `q`. -/
def asmAt (q : Nat) : FrameAssembler where
  payload := (f.blocks sensor q).flatten
  groupStart := q / daqPacketFragment * daqPacketFragment
  nextInGroup := q % daqPacketFragment
  expectedPackets := if 0 < q then f.size sensor else sensor.numUdpPackets
  isAutocal := decide (0 < q) && f.isAutocal
  alignErrors := (List.range q).any f.lost
  started := decide (0 < q)

theorem flatten_blocks_zero :
    (f.blocks sensor 0).flatten =
      List.replicate (sensor.numUdpPackets * packetSensorDataBytes) 0 := by
  have hzero : f.blocks sensor 0 =
      List.replicate sensor.numUdpPackets (List.replicate packetSensorDataBytes 0) := by
    rw [List.eq_replicate_iff, Sent.blocks, List.length_map, List.length_range]
    refine ⟨rfl, fun b hb => ?_⟩
    obtain ⟨s, -, rfl⟩ := List.mem_map.1 hb
    rfl
  rw [hzero, List.flatten_replicate_replicate]

theorem asmAt_zero : f.asmAt sensor 0 = .new sensor := by
  rw [asmAt, flatten_blocks_zero]
  rfl

theorem size_le : f.size sensor ≤ sensor.numUdpPackets := by
  unfold size Sensor.packets
  split
  · exact sensor.autocal_le
  · exact Nat.le_refl _

theorem size_pos : 0 < f.size sensor := by
  have hpos := sensor.autocal_pos
  have hle := sensor.autocal_le
  unfold size Sensor.packets
  split
  · exact hpos
  · omega

/-- The slots from `q` on up to `s` are lost, and `s` is not. -/
structure Gap (q s : Nat) : Prop where
  le : q ≤ s
  lost : ∀ i, q ≤ i → i < s → f.lost i = true
  arrives : f.lost s = false
  short : s < q + daqPacketFragment
  inside : s < f.size sensor

variable {sensor f} {q s : Nat}

/-- The gap's zeros are in the buffer already. -/
theorem Gap.blocks (h : f.Gap sensor q s) :
    (f.blocks sensor q).set s (FrameAssembler.sensorData (f.packet s)) =
      f.blocks sensor (s + 1) := by
  have hle := h.le
  apply List.ext_getElem
  · rw [List.length_set, Sent.blocks, Sent.blocks, List.length_map, List.length_map]
  · intro i hi hi'
    rw [List.getElem_set]
    simp only [Sent.blocks, List.getElem_map, List.getElem_range]
    by_cases hsi : s = i
    · subst hsi
      rw [if_pos rfl, if_pos (Nat.lt_succ_self _), slotData, if_neg]
      rw [h.arrives]
      decide
    · rw [if_neg hsi]
      by_cases hlt : i < q
      · rw [if_pos hlt, if_pos (by omega)]
      · rw [if_neg hlt]
        by_cases hgap : i < s + 1
        · rw [if_pos hgap, slotData, if_pos (h.lost i (by omega) (by omega))]
        · rw [if_neg hgap]

theorem Gap.errors (h : f.Gap sensor q s) :
    (List.range (s + 1)).any f.lost = ((List.range q).any f.lost || decide (q < s)) := by
  have hle := h.le
  rw [Bool.eq_iff_iff, Bool.or_eq_true, List.any_eq_true, List.any_eq_true, decide_eq_true_iff]
  constructor
  · rintro ⟨i, hi, hlost⟩
    have hi := List.mem_range.1 hi
    have hne : i ≠ s := by
      intro heq
      rw [heq, h.arrives] at hlost
      cases hlost
    by_cases hlt : i < q
    · exact .inl ⟨i, List.mem_range.2 hlt, hlost⟩
    · exact .inr (by omega)
  · rintro (⟨i, hi, hlost⟩ | hlt)
    · have hi := List.mem_range.1 hi
      exact ⟨i, List.mem_range.2 (by omega), hlost⟩
    · exact ⟨q, List.mem_range.2 (by omega), h.lost q (Nat.le_refl _) hlt⟩

theorem asmAt_start (q : Nat) :
    (f.asmAt sensor q).start sensor (f.packet s) =
      { f.asmAt sensor q with
        isAutocal := f.isAutocal, expectedPackets := f.size sensor, started := true } := by
  unfold FrameAssembler.start
  by_cases hq : 0 < q
  · have hstarted : (f.asmAt sensor q).started = true := decide_eq_true hq
    rw [if_pos hstarted]
    simp only [asmAt, if_pos hq, decide_eq_true hq, Bool.true_and]
  · have hstarted : (f.asmAt sensor q).started ≠ true := by
      show decide (0 < q) ≠ true
      rw [decide_eq_false hq]
      decide
    rw [if_neg hstarted]
    dsimp only
    rw [(f.isPacket s).kind]
    rfl

theorem packetId_packet (s : Nat) :
    FrameAssembler.packetId (f.packet s) = s % daqPacketFragment := by
  rw [FrameAssembler.packetId, (f.isPacket s).id, Nat.mod_mod]

/-- Behind the gap the assembler is in the group of the packet, and has seen the gap. -/
theorem align_gap (h : f.Gap sensor q s) (asm : FrameAssembler)
    (hgroup : asm.groupStart = q / daqPacketFragment * daqPacketFragment)
    (hnext : asm.nextInGroup = q % daqPacketFragment) :
    ∃ n, asm.align (s % daqPacketFragment) =
      { asm with
        groupStart := s / daqPacketFragment * daqPacketFragment, nextInGroup := n
        alignErrors := asm.alignErrors || decide (q < s) } := by
  have hle := h.le
  have hshort := h.short
  unfold FrameAssembler.align
  rw [hgroup, hnext]
  unfold daqPacketFragment at *
  by_cases hwrap : s % 45 < q % 45
  · have hlt : q < s := by omega
    have hstart : q / 45 * 45 + 45 = s / 45 * 45 := by omega
    rw [if_pos hwrap, hstart, decide_eq_true hlt, Bool.or_true]
    exact ⟨0, rfl⟩
  · have hstart : q / 45 * 45 = s / 45 * 45 := by omega
    rw [if_neg hwrap]
    by_cases hahead : q % 45 < s % 45
    · have hlt : q < s := by omega
      rw [if_pos hahead, decide_eq_true hlt, Bool.or_true, ← hstart, ← hgroup]
      exact ⟨_, rfl⟩
    · have hlt : ¬ q < s := by omega
      rw [if_neg hahead, decide_eq_false hlt, Bool.or_false, ← hstart, ← hgroup]
      exact ⟨_, rfl⟩

theorem finish_asmAt (hq : 0 < q) (hle : q ≤ f.size sensor) :
    (f.asmAt sensor q).finish sensor =
      if q < f.size sensor then (none, f.asmAt sensor q)
      else (some (f.frame sensor), .new sensor) := by
  have hbehind : (f.asmAt sensor q).groupStart + (f.asmAt sensor q).nextInGroup = q :=
    Nat.div_add_mod' q daqPacketFragment
  have hexpected : (f.asmAt sensor q).expectedPackets = f.size sensor := if_pos hq
  unfold FrameAssembler.finish
  rw [hbehind, hexpected]
  by_cases hmore : q < f.size sensor
  · rw [if_pos hmore, if_pos hmore]
  · have hall : q = f.size sensor := by omega
    have hlength : (f.asmAt sensor q).payload.length =
        sensor.numUdpPackets * packetSensorDataBytes := by
      show (f.blocks sensor q).flatten.length = _
      rw [(f.blocks_even sensor q).length_flatten, Sent.blocks, List.length_map, List.length_range]
    have hpayload : (f.asmAt sensor q).payload.take (f.size sensor * packetSensorDataBytes) =
        ((List.range (f.size sensor)).map f.slotData).flatten := by
      show (f.blocks sensor q).flatten.take _ = _
      rw [(f.blocks_even sensor q).flatten_take, Sent.blocks, ← List.map_take, List.take_range,
        Nat.min_eq_left (f.size_le sensor), hall]
      congr 1
      apply List.map_congr_left
      intro i hi
      rw [if_pos (List.mem_range.1 hi)]
    rw [if_neg hmore, if_neg hmore, hpayload]
    refine Prod.ext ?_ ?_
    · show some (Frame.mk (decide (0 < q) && f.isAutocal) ((List.range q).any f.lost) _) =
        some (f.frame sensor)
      rw [decide_eq_true hq, Bool.true_and, hall]
      rfl
    · show FrameAssembler.reset sensor (f.asmAt sensor q) = .new sensor
      rw [FrameAssembler.reset, hlength]
      rfl

/-- A packet behind a gap goes to its slot. -/
theorem accept_gap (h : f.Gap sensor q s) :
    (f.asmAt sensor q).accept sensor (f.packet s) =
      if s + 1 < f.size sensor then (none, f.asmAt sensor (s + 1))
      else (some (f.frame sensor), .new sensor) := by
  have hinside := h.inside
  have hfull := (f.isPacket s).full
  obtain ⟨n, halign⟩ := align_gap h
    { f.asmAt sensor q with
      isAutocal := f.isAutocal, expectedPackets := f.size sensor, started := true } rfl rfl
  have hslot : s / daqPacketFragment * daqPacketFragment + s % daqPacketFragment = s :=
    Nat.div_add_mod' s daqPacketFragment
  have hwithin : ¬ f.size sensor ≤ s := by omega
  have hbuffer : s < (f.blocks sensor q).length := by
    have hle := f.size_le sensor
    rw [Sent.blocks, List.length_map, List.length_range]
    omega
  have hpayload : (f.blocks sensor q).flatten.take (s * packetSensorDataBytes) ++
      FrameAssembler.sensorData (f.packet s) ++
      (f.blocks sensor q).flatten.drop ((s + 1) * packetSensorDataBytes) =
      (f.blocks sensor (s + 1)).flatten := by
    rw [← (f.blocks_even sensor q).flatten_set hbuffer, h.blocks]
  have hadvanced : (FrameAssembler.advance
      ⟨(f.blocks sensor (s + 1)).flatten, s / daqPacketFragment * daqPacketFragment, n,
        f.size sensor, f.isAutocal, (List.range (s + 1)).any f.lost, true⟩
      (s % daqPacketFragment)) = f.asmAt sensor (s + 1) := by
    have hpos : 0 < s + 1 := Nat.succ_pos s
    unfold FrameAssembler.advance asmAt
    rw [if_pos hpos, decide_eq_true hpos, Bool.true_and]
    unfold daqPacketFragment
    by_cases hlast : s % 45 + 1 = 45
    · have hgroup : s / 45 * 45 + 45 = (s + 1) / 45 * 45 := by omega
      have hnext : (s + 1) % 45 = 0 := by omega
      rw [if_pos hlast, hgroup, hnext]
    · have hgroup : s / 45 * 45 = (s + 1) / 45 * 45 := by omega
      have hnext : s % 45 + 1 = (s + 1) % 45 := by omega
      rw [if_neg hlast, hgroup, hnext]
  rw [FrameAssembler.accept, if_neg (not_not.2 hfull)]
  simp only [packetId_packet, asmAt_start, halign, hslot, if_neg hwithin, FrameAssembler.store]
  rw [← finish_asmAt (Nat.succ_pos s) hinside, ← hadvanced, h.errors]
  congr 2
  rw [← hpayload]
  rfl

/-! ## Whole frames -/

theorem feed_single (asm : FrameAssembler) (packet : List UInt8) :
    asm.feed sensor [packet] = ((asm.accept sensor packet).1.toList, (asm.accept sensor packet).2) := by
  simp [FrameAssembler.feed]

theorem arrived_succ (t : Nat) :
    f.arrived (List.range (t + 1)) =
      f.arrived (List.range t) ++ if f.lost t then [] else [f.packet t] := by
  rw [arrived, List.range_succ, List.filter_append, List.map_append]
  cases hlost : f.lost t <;> simp [arrived, hlost]

/-- No gap is longer than the identifiers can tell. -/
theorem ShortGaps.short (h : f.ShortGaps sensor) {t : Nat} (ht : t < f.size sensor)
    (hlost : ∀ i, q ≤ i → i < t → f.lost i = true) : t < q + daqPacketFragment := by
  by_contra hlong
  obtain ⟨i, hi, harrives⟩ := h q (by omega)
  rw [hlost (q + i) (by omega) (by omega)] at harrives
  cases harrives

/-- Before the last packet there is no frame, and the assembler is behind what has arrived. -/
theorem feed_partial (h : f.ShortGaps sensor) {t : Nat} (ht : t ≤ f.size sensor)
    (hend : t = f.size sensor → ¬ f.Ends sensor) :
    ∃ q, q ≤ t ∧ (∀ i, q ≤ i → i < t → f.lost i = true) ∧ (∀ i < q, i + 1 = q → f.lost i = false) ∧
      (FrameAssembler.new sensor).feed sensor (f.arrived (List.range t)) =
        ([], f.asmAt sensor q) := by
  induction t with
  | zero =>
    refine ⟨0, Nat.le_refl _, ?_, ?_, ?_⟩
    · intro i _ hi
      omega
    · intro i hi
      omega
    · rw [asmAt_zero]
      rfl
  | succ t ih =>
    obtain ⟨q, hq, hlost, hlastSeen, hfeed⟩ := ih (by omega) (by omega)
    rw [arrived_succ]
    cases hlast : f.lost t with
    | true =>
      refine ⟨q, by omega, ?_, hlastSeen, ?_⟩
      · intro i hi hit
        by_cases heq : i = t
        · rw [heq, hlast]
        · exact hlost i hi (by omega)
      · rw [if_pos rfl, List.append_nil, hfeed]
    | false =>
      have hgap : f.Gap sensor q t := ⟨hq, hlost, hlast, h.short (by omega) hlost, by omega⟩
      have hmore : t + 1 < f.size sensor := by
        by_contra hall
        have hsize : t + 1 = f.size sensor := by omega
        refine hend hsize ?_
        rw [Ends, ← hsize]
        exact hlast
      refine ⟨t + 1, Nat.le_refl _, ?_, ?_, ?_⟩
      · intro i hi hit
        omega
      · intro i _ hi
        rw [Nat.succ.inj hi]
        exact hlast
      · obtain ⟨hframes, hasm⟩ := FrameAssembler.feed_append sensor (.new sensor)
          (f.arrived (List.range t)) [f.packet t]
        rw [if_neg (by decide)]
        refine Prod.ext ?_ ?_
        · rw [hframes, hfeed, feed_single, accept_gap hgap, if_pos hmore]
          rfl
        · rw [hasm, hfeed, feed_single, accept_gap hgap, if_pos hmore]

variable (sensor f) in
/-- The packets of a frame that arrive. -/
def stream : List (List UInt8) := f.arrived (List.range (f.size sensor))

/-- A frame whose last packet arrives is returned, and the assembler is as new. -/
theorem feed_frame (h : f.ShortGaps sensor) (hends : f.Ends sensor) :
    (FrameAssembler.new sensor).feed sensor (f.stream sensor) =
      ([f.frame sensor], .new sensor) := by
  have hpos := f.size_pos sensor
  obtain ⟨t, ht⟩ : ∃ t, f.size sensor = t + 1 := ⟨f.size sensor - 1, by omega⟩
  have hlast : f.lost t = false := by
    rw [Ends, ht] at hends
    exact hends
  obtain ⟨q, hq, hlost, -, hfeed⟩ := feed_partial h (t := t) (by omega) (by omega)
  have hgap : f.Gap sensor q t := ⟨hq, hlost, hlast, h.short (by omega) hlost, by omega⟩
  have hall : ¬ t + 1 < f.size sensor := by omega
  obtain ⟨hframes, hasm⟩ := FrameAssembler.feed_append sensor (.new sensor)
    (f.arrived (List.range t)) [f.packet t]
  rw [stream, ht, arrived_succ, hlast, if_neg (by decide)]
  refine Prod.ext ?_ ?_
  · rw [hframes, hfeed, feed_single, accept_gap hgap, if_neg hall]
    rfl
  · rw [hasm, hfeed, feed_single, accept_gap hgap, if_neg hall]

variable (sensor) in
/-- The packets of frames sent one after another that arrive. -/
def streams (frames : List Sent) : List (List UInt8) := frames.flatMap fun f => f.stream sensor

theorem feed_frames {frames : List Sent} (h : ∀ f ∈ frames, f.ShortGaps sensor)
    (hends : ∀ f ∈ frames, f.Ends sensor) :
    (FrameAssembler.new sensor).feed sensor (streams sensor frames) =
      (frames.map fun f => f.frame sensor, .new sensor) := by
  induction frames with
  | nil => rfl
  | cons f frames ih =>
    have hfirst := feed_frame (h f List.mem_cons_self) (hends f List.mem_cons_self)
    have hrest := ih (fun g hg => h g (List.mem_cons_of_mem _ hg))
      (fun g hg => hends g (List.mem_cons_of_mem _ hg))
    obtain ⟨hframes, hasm⟩ := FrameAssembler.feed_append sensor (.new sensor) (f.stream sensor)
      (streams sensor frames)
    have hstreams : streams sensor (f :: frames) = f.stream sensor ++ streams sensor frames :=
      List.flatMap_cons
    rw [hstreams]
    refine Prod.ext ?_ ?_
    · rw [hframes, hfirst, hrest]
      rfl
    · rw [hasm, hfirst, hrest]

theorem frame_complete (hall : ∀ s < f.size sensor, f.lost s = false) :
    f.frame sensor = ⟨f.isAutocal, false,
      ((List.range (f.size sensor)).map fun s => FrameAssembler.sensorData (f.packet s)).flatten⟩ := by
  have herrors : (List.range (f.size sensor)).any f.lost = false := by
    rw [List.any_eq_false]
    intro s hs
    rw [hall s (List.mem_range.1 hs)]
    decide
  have hdata : (List.range (f.size sensor)).map f.slotData =
      (List.range (f.size sensor)).map fun s => FrameAssembler.sensorData (f.packet s) := by
    apply List.map_congr_left
    intro s hs
    rw [slotData, hall s (List.mem_range.1 hs)]
    rfl
  rw [frame, herrors, hdata]

theorem frame_damaged {s : Nat} (hs : s < f.size sensor) (hlost : f.lost s = true) :
    (f.frame sensor).alignErrors = true :=
  List.any_eq_true.2 ⟨s, List.mem_range.2 hs, hlost⟩

end Sent

/-- **Loss damages only the frame it hits**, as long as the last packet of each arrives; of the
last frame any packets may be missing yet.  What is returned is the sent frames in order, each
with its own data and zeros for what was lost, complete where nothing was and marked where
something was. -/
theorem loss_stays_in_frame (sensor : Sensor) (frames : List Sent) (last : Sent)
    (hgaps : ∀ f ∈ frames ++ [last], f.ShortGaps sensor) (hends : ∀ f ∈ frames, f.Ends sensor) :
    ((FrameAssembler.new sensor).feed sensor (Sent.streams sensor (frames ++ [last]))).1 =
        frames.map (fun f => f.frame sensor) ++
          (if last.lost (last.size sensor - 1) then [] else [last.frame sensor]) ∧
      ∀ f ∈ frames ++ [last],
        (f.frame sensor).payload = ((List.range (f.size sensor)).map f.slotData).flatten ∧
        ((∃ s < f.size sensor, f.lost s = true) → (f.frame sensor).alignErrors = true) ∧
        ((∀ s < f.size sensor, f.lost s = false) →
          f.frame sensor = ⟨f.isAutocal, false, ((List.range (f.size sensor)).map fun s =>
            FrameAssembler.sensorData (f.packet s)).flatten⟩) := by
  constructor
  · have hfirst := Sent.feed_frames (fun f hf => hgaps f (List.mem_append_left _ hf)) hends
    have hgap := hgaps last (List.mem_append_right _ (List.mem_singleton.2 rfl))
    have hstreams : Sent.streams sensor (frames ++ [last]) =
        Sent.streams sensor frames ++ last.stream sensor := by
      rw [Sent.streams, List.flatMap_append]
      congr 1
      exact List.flatMap_singleton _ _
    obtain ⟨hframes, -⟩ := FrameAssembler.feed_append sensor (.new sensor)
      (Sent.streams sensor frames) (last.stream sensor)
    rw [hstreams, hframes, hfirst]
    congr 1
    cases hlast : last.lost (last.size sensor - 1) with
    | false =>
      rw [if_neg (by decide), Sent.feed_frame hgap hlast]
    | true =>
      have hopen : ¬ last.Ends sensor := by
        rw [Sent.Ends, hlast]
        decide
      obtain ⟨q, -, -, -, hfeed⟩ := Sent.feed_partial hgap (Nat.le_refl _) fun _ => hopen
      rw [if_pos rfl, Sent.stream, hfeed]
  · intro f _
    refine ⟨rfl, ?_, Sent.frame_complete⟩
    rintro ⟨s, hs, hlost⟩
    exact Sent.frame_damaged hs hlost

/-! ## A lost tail -/

/-- The identifier is behind the tag. -/
theorem id_of_tagged (b b' : UInt8) (slot : Nat) (rest : List UInt8) :
    beNat ((([b, b'] ++ (beBytes 2 (slot % daqPacketFragment) ++ rest)).drop packetIdOffset).take 2) =
      slot % daqPacketFragment := by
  have hid : slot % daqPacketFragment < 256 ^ 2 :=
    (Nat.mod_lt _ (by decide)).trans (by decide)
  have htake : ((([b, b'] ++ (beBytes 2 (slot % daqPacketFragment) ++ rest)).drop
      packetIdOffset).take 2) = beBytes 2 (slot % daqPacketFragment) :=
    List.take_left' (length_beBytes 2 _)
  rw [htake, beNat_beBytes_of_lt hid]

/-- A packet of a normal frame filled with a byte. -/
def filledPacket (fill : UInt8) (slot : Nat) : List UInt8 :=
  [0, 0] ++ (beBytes 2 (slot % daqPacketFragment) ++ List.replicate 1444 fill)

theorem filledPacket_isPacket (fill : UInt8) (slot : Nat) :
    IsPacket false slot (filledPacket fill slot) where
  full := by
    rw [filledPacket, List.length_append, List.length_append, length_beBytes, List.length_replicate]
    rfl
  kind := by
    show ((0 : UInt8) &&& autocalData != 0) = false
    decide
  id := id_of_tagged 0 0 slot _

def filled (fill : UInt8) (lost : Nat → Bool) : Sent :=
  ⟨false, filledPacket fill, lost, filledPacket_isPacket fill⟩

/-- A Pixie-II detector of one module: eight groups. -/
def px1 : Sensor := ⟨360, 135, by decide, by decide⟩

/-- Of a frame without its last packet nothing is returned, and the packet that opens the next
frame is discarded. -/
theorem opening_discarded (fill fill' : UInt8) :
    ((FrameAssembler.new px1).feed px1 ((filled fill (· = 359)).stream px1)).1 = [] ∧
      (((FrameAssembler.new px1).feed px1 ((filled fill (· = 359)).stream px1)).2.accept px1
        (filledPacket fill' 0)) = (none, .new px1) := by
  have hgaps : (filled fill (· = 359)).ShortGaps px1 := by
    intro s hs
    have hs : s + 45 ≤ 360 := hs
    by_cases heq : s = 359
    · omega
    · exact ⟨0, by decide, decide_eq_false heq⟩
  have hopen : ¬ (filled fill (· = 359)).Ends px1 := by
    intro hends
    have hends : decide ((359 : Nat) = 359) = false := hends
    cases hends
  obtain ⟨q, hq, hlost, hlast, hfeed⟩ := Sent.feed_partial hgaps (Nat.le_refl _) fun _ => hopen
  have hq : q ≤ 360 := hq
  have hlost : ∀ i, q ≤ i → i < 360 → decide (i = 359) = true := hlost
  have hlast : ∀ i < q, i + 1 = q → decide (i = 359) = false := hlast
  have hq359 : q = 359 := by
    have hge : 359 ≤ q := by
      by_contra hlt
      have heq := of_decide_eq_true (hlost 358 (by omega) (by decide))
      omega
    have hne : q ≠ 360 := by
      intro heq
      have hfalse := hlast 359 (by omega) heq.symm
      cases hfalse
    omega
  have hid : FrameAssembler.packetId (filledPacket fill' 0) = 0 :=
    Sent.packetId_packet (f := filled fill' fun _ => false) 0
  have hlength : ((filled fill (· = 359)).asmAt px1 359).payload.length =
      px1.numUdpPackets * packetSensorDataBytes := by
    show ((filled fill (· = 359)).blocks px1 359).flatten.length = _
    rw [(Sent.blocks_even px1 _ 359).length_flatten, Sent.blocks, List.length_map,
      List.length_range]
  rw [Sent.stream, hfeed, hq359]
  refine ⟨rfl, ?_⟩
  rw [FrameAssembler.accept, if_neg (not_not.2 (filledPacket_isPacket fill' 0).full)]
  have hstart : ((filled fill (· = 359)).asmAt px1 359).start px1 (filledPacket fill' 0) =
      (filled fill (· = 359)).asmAt px1 359 := if_pos rfl
  simp only [hid, hstart]
  have halign : ((filled fill (· = 359)).asmAt px1 359).align 0 =
      { (filled fill (· = 359)).asmAt px1 359 with
        alignErrors := true, groupStart := 360, nextInGroup := 0 } :=
    if_pos (show 0 < 359 % daqPacketFragment by decide)
  rw [halign]
  have hoverflow : (360 : Nat) ≤ 360 + 0 := Nat.le_refl _
  show (if (360 : Nat) ≤ 360 + 0 then _ else _) = _
  rw [if_pos hoverflow]
  refine Prod.ext rfl ?_
  show FrameAssembler.reset px1 _ = .new px1
  rw [FrameAssembler.reset]
  show FrameAssembler.mk (List.replicate
    ((filled fill (· = 359)).asmAt px1 359).payload.length 0) _ _ _ _ _ _ = _
  rw [hlength]
  rfl

/-- Without its first packet a whole frame is one that lost it. -/
theorem filled_stream (fill : UInt8) {sensor : Sensor} (hpos : 0 < sensor.packets false) :
    (filled fill fun _ => false).stream sensor =
      filledPacket fill 0 :: (filled fill (· = 0)).stream sensor := by
  show ((List.range (sensor.packets false)).filter fun _ => true).map (filledPacket fill) =
    filledPacket fill 0 ::
      ((List.range (sensor.packets false)).filter fun s => !decide (s = 0)).map (filledPacket fill)
  obtain ⟨n, hn⟩ := Nat.exists_eq_succ_of_ne_zero hpos.ne'
  have hrest : ((List.range n).map Nat.succ).filter (fun s => !decide (s = 0)) =
      (List.range n).map Nat.succ := by
    apply List.filter_eq_self.2
    intro s hs
    obtain ⟨k, -, rfl⟩ := List.mem_map.1 hs
    rfl
  rw [hn, List.filter_eq_self.2 fun _ _ => rfl, List.range_succ_eq_map,
    List.filter_cons_of_neg (by decide), hrest, List.map_cons]

/-- The frame behind a frame whose last packet is lost is not returned complete, though all its
packets arrive. -/
theorem lost_tail_damages_next :
    ¬ ∀ (sensor : Sensor) (frames : List Sent),
      (∀ i, i + daqPacketFragment ≤
          (frames.flatMap fun f => (List.range (f.size sensor)).map f.lost).length →
        ∃ j < daqPacketFragment,
          (frames.flatMap fun f => (List.range (f.size sensor)).map f.lost)[i + j]? = some false) →
      ∀ f ∈ frames, (∀ s < f.size sensor, f.lost s = false) → f.frame sensor ∈
        ((FrameAssembler.new sensor).feed sensor (Sent.streams sensor frames)).1 := by
  intro hclaim
  have hflags : ([filled 0 (· = 359), filled 1 fun _ => false].flatMap fun f =>
      (List.range (f.size px1)).map f.lost) =
      (List.range 360).map (fun s => decide (s = 359)) ++ (List.range 360).map fun _ => false := by
    simp only [List.flatMap_cons, List.flatMap_nil, List.append_nil]
    rfl
  have hmem := hclaim px1 [filled 0 (· = 359), filled 1 fun _ => false]
    (by
      intro i hi
      rw [hflags] at hi ⊢
      rw [List.length_append, List.length_map, List.length_map, List.length_range] at hi
      have hi : i + 45 ≤ 720 := hi
      have hfalse : ∀ k < 720, k ≠ 359 → ((List.range 360).map (fun s => decide (s = 359)) ++
          (List.range 360).map fun _ => false)[k]? = some false := by
        intro k hk hne
        by_cases hfirst : k < 360
        · rw [List.getElem?_append_left (by rw [List.length_map, List.length_range]; exact hfirst),
            List.getElem?_map, List.getElem?_range hfirst, Option.map_some, decide_eq_false hne]
        · rw [List.getElem?_append_right (by rw [List.length_map, List.length_range]; omega),
            List.length_map, List.length_range, List.getElem?_map, List.getElem?_range (by omega),
            Option.map_some]
      by_cases heq : i = 359
      · exact ⟨1, by decide, hfalse _ (by omega) (by omega)⟩
      · exact ⟨0, by decide, hfalse _ (by omega) (by omega)⟩)
    (filled 1 fun _ => false) (List.mem_cons_of_mem _ List.mem_cons_self) (fun _ _ => rfl)
  obtain ⟨hnone, hdiscard⟩ := opening_discarded 0 1
  have hgaps : (filled 1 (· = 0)).ShortGaps px1 := by
    intro s hs
    by_cases heq : s = 0
    · exact ⟨1, by decide, by rw [heq]; rfl⟩
    · exact ⟨0, by decide, decide_eq_false heq⟩
  have hframe := Sent.feed_frame hgaps (show decide ((359 : Nat) = 0) = false from rfl)
  have houtputs : ((FrameAssembler.new px1).feed px1
      (Sent.streams px1 [filled 0 (· = 359), filled 1 fun _ => false])).1 =
      [(filled 1 (· = 0)).frame px1] := by
    have hstreams : Sent.streams px1 [filled 0 (· = 359), filled 1 fun _ => false] =
        (filled 0 (· = 359)).stream px1 ++ (filled 1 fun _ => false).stream px1 := by
      simp only [Sent.streams, List.flatMap_cons, List.flatMap_nil, List.append_nil]
    obtain ⟨hframes, -⟩ := FrameAssembler.feed_append px1 (.new px1)
      ((filled 0 (· = 359)).stream px1) ((filled 1 fun _ => false).stream px1)
    have hrest : (filled 1 fun _ => false).stream px1 =
        filledPacket 1 0 :: (filled 1 (· = 0)).stream px1 :=
      filled_stream 1 (Nat.zero_lt_succ _)
    rw [hstreams, hframes, hnone, hrest, List.nil_append]
    rw [FrameAssembler.feed_discarded hdiscard, hframe]
  rw [houtputs] at hmem
  have herrors := congrArg Frame.alignErrors (List.mem_singleton.1 hmem)
  rw [Sent.frame_complete fun _ _ => rfl, Sent.frame_damaged (s := 0) (by decide) rfl] at herrors
  cases herrors

/-- Two frames of which the first lost its opening packet. -/
theorem loss_stays_in_frame_opening :
    ((FrameAssembler.new px1).feed px1
      (Sent.streams px1 ([filled 1 (· = 0)] ++ [filled 2 fun _ => false]))).1 =
      [(filled 1 (· = 0)).frame px1, (filled 2 fun _ => false).frame px1] := by
  have hgaps : ∀ f ∈ [filled 1 (· = 0)] ++ [filled 2 fun _ => false], f.ShortGaps px1 := by
    intro f hf s hs
    rcases List.mem_append.1 hf with hf | hf
    · rw [List.mem_singleton.1 hf]
      by_cases heq : s = 0
      · exact ⟨1, by decide, by rw [heq]; rfl⟩
      · exact ⟨0, by decide, decide_eq_false heq⟩
    · rw [List.mem_singleton.1 hf]
      exact ⟨0, by decide, rfl⟩
  exact (loss_stays_in_frame px1 [filled 1 (· = 0)] (filled 2 fun _ => false) hgaps
    (by
      intro f hf
      rw [List.mem_singleton.1 hf]
      exact show decide ((359 : Nat) = 0) = false from rfl)).1

end Pixirad
