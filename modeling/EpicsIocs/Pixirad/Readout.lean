import EpicsIocs.Pixirad.Assembler
import EpicsIocs.Pixirad.Decode

/-! # What the chip sends is what the decoder gives back

A chip counts in shift registers and sends their bits plane by plane (`encode`).  The packets
of a frame, fed to the assembler, give one frame, and the decoder gives its image:

    decode (frame of the packets that carry encode pixels) = pixels     (decode_encode)

It needs the frame to be no longer than its packets, which the table of packet counts does
not grant one of the sensors (`readout_undone`). -/

namespace Pixirad

open Bits Blocks Bytes Scatter

/-! ## The chip -/

section
variable (s : Detector) (isAutocal : Bool)

/-- What a pixel can hold: pulses the register tells apart, or the bits of a setting. -/
def valueBound : Nat := if isAutocal then 2 ^ s.autocalBitCnt else 32767

structure IsImage (pixels : List Nat) : Prop where
  length : pixels.length = s.imagePixels
  bounded : ∀ v ∈ pixels, v < valueBound s isAutocal

/-- The register of a pixel. -/
def register (v : Nat) : Nat := if isAutocal then v else chipState s.asic v

/-- A bit plane of a counter: bit `j` is of output `j`. -/
def planeWord (pixels : List Nat) (module counter plane : Nat) : Nat :=
  setBits ((List.range s.dout).map fun j =>
    (j, (register s isAutocal
      (pixels.getD (module * s.matrixSizePxls + s.readout counter j) 0)).testBit
        (s.codeDepth isAutocal - 1 - plane)))

/-- Counter by counter, plane by plane, and of each the words of the modules. -/
def encode (pixels : List Nat) : List UInt8 :=
  ((List.range (s.modules * s.countersPerModule * s.codeDepth isAutocal)).map fun i =>
    beBytes 2 (planeWord s isAutocal pixels (i % s.modules) (i / s.modules / s.codeDepth isAutocal)
      (i / s.modules % s.codeDepth isAutocal))).flatten

/-- Packets of one frame, none of them lost, that carry the words and some padding. -/
structure Sends (pixels : List Nat) (sent : Sent) : Prop where
  kind : sent.isAutocal = isAutocal
  whole : ∀ slot, sent.lost slot = false
  words : ∃ padding, ((List.range (s.packets isAutocal)).map fun slot =>
    FrameAssembler.sensorData (sent.packet slot)).flatten = encode s isAutocal pixels ++ padding

end

section
variable {s : Detector} {isAutocal : Bool} {pixels : List Nat}

theorem encode_even (s : Detector) (isAutocal : Bool) (pixels : List Nat) : Even 2
    ((List.range (s.modules * s.countersPerModule * s.codeDepth isAutocal)).map fun i =>
      beBytes 2 (planeWord s isAutocal pixels (i % s.modules)
        (i / s.modules / s.codeDepth isAutocal) (i / s.modules % s.codeDepth isAutocal))) := by
  intro b hb
  obtain ⟨i, -, rfl⟩ := List.mem_map.1 hb
  exact length_beBytes 2 _

theorem length_encode : (encode s isAutocal pixels).length =
    s.modules * s.countersPerModule * s.codeDepth isAutocal * 2 := by
  rw [encode, (encode_even s isAutocal pixels).length_flatten, List.length_map, List.length_range]

theorem planeWord_lt (m c p : Nat) : planeWord s isAutocal pixels m c p < 256 ^ 2 := by
  have hpow : (256 : Nat) ^ 2 = 2 ^ 16 := by decide
  rw [hpow]
  apply Nat.lt_pow_two_of_testBit
  intro i hi
  have hle := s.dout_le
  apply testBit_setBits_of_not_mem
  intro b hb
  obtain ⟨j, hj, heq⟩ := List.mem_map.1 hb
  obtain ⟨rfl, -⟩ := Prod.mk.inj heq
  have hlt := List.mem_range.1 hj
  omega

theorem testBit_planeWord (m c p : Nat) {j : Nat} (hj : j < s.dout) :
    (planeWord s isAutocal pixels m c p).testBit j =
      (register s isAutocal (pixels.getD (m * s.matrixSizePxls + s.readout c j) 0)).testBit
        (s.codeDepth isAutocal - 1 - p) := by
  apply testBit_setBits_of_mem
  · exact List.mem_map.2 ⟨j, List.mem_range.2 hj, rfl⟩
  · intro b hb
    obtain ⟨j', -, heq⟩ := List.mem_map.1 hb
    obtain ⟨rfl, rfl⟩ := Prod.mk.inj heq
    rfl

theorem wordAt?_encode (padding : List UInt8) {m c p : Nat} (hm : m < s.modules)
    (hc : c < s.countersPerModule) (hp : p < s.codeDepth isAutocal) :
    wordAt? (encode s isAutocal pixels ++ padding)
      ((c * s.codeDepth isAutocal + p) * s.modules + m) =
        some (planeWord s isAutocal pixels m c p) := by
  obtain ⟨i, hi⟩ : ∃ i, (c * s.codeDepth isAutocal + p) * s.modules + m = i := ⟨_, rfl⟩
  have hin : i < s.modules * s.countersPerModule * s.codeDepth isAutocal := by
    rw [← hi, Nat.mul_assoc, Nat.mul_comm s.modules]
    exact radix_lt (radix_lt hc hp) hm
  have hmodules : 0 < s.modules := Nat.zero_lt_of_lt hm
  have hdepth : 0 < s.codeDepth isAutocal := Nat.zero_lt_of_lt hp
  have hmod : i % s.modules = m := by
    rw [← hi, Nat.add_comm, Nat.add_mul_mod_self_right, Nat.mod_eq_of_lt hm]
  have hdiv : i / s.modules = c * s.codeDepth isAutocal + p := by
    rw [← hi, Nat.add_comm, Nat.add_mul_div_right _ _ hmodules, Nat.div_eq_of_lt hm, Nat.zero_add]
  have hcounter : i / s.modules / s.codeDepth isAutocal = c := by
    rw [hdiv, Nat.add_comm, Nat.add_mul_div_right _ _ hdepth, Nat.div_eq_of_lt hp, Nat.zero_add]
  have hplane : i / s.modules % s.codeDepth isAutocal = p := by
    rw [hdiv, Nat.add_comm, Nat.add_mul_mod_self_right, Nat.mod_eq_of_lt hp]
  have hlen : (encode s isAutocal pixels).length =
      s.modules * s.countersPerModule * s.codeDepth isAutocal * 2 := length_encode
  have hslice : ((encode s isAutocal pixels ++ padding).drop (i * 2)).take 2 =
      beBytes 2 (planeWord s isAutocal pixels m c p) := by
    have hblock := (encode_even s isAutocal pixels).block_flatten (k := i)
      (by rw [List.length_map, List.length_range]; exact hin)
    rw [List.getElem_map, List.getElem_range, hmod, hcounter, hplane] at hblock
    rw [List.drop_append_of_le_length (by omega),
      List.take_append_of_le_length (by rw [List.length_drop]; omega)]
    exact hblock
  have hle : i * 2 + 2 ≤ (encode s isAutocal pixels ++ padding).length := by
    rw [List.length_append]
    omega
  rw [hi, wordAt?, slice?, if_pos hle, Option.map_some, hslice,
    beNat_beBytes_of_lt (planeWord_lt m c p)]

theorem register_lt {v : Nat} (hv : v < valueBound s isAutocal) :
    register s isAutocal v < 2 ^ s.codeDepth isAutocal := by
  cases isAutocal with
  | true => exact hv
  | false =>
    show chipState s.asic v < 2 ^ s.bitPerCntStd
    rw [s.bits_eq]
    exact chipState_lt s.asic v

theorem counted_register {v : Nat} (hv : v < valueBound s isAutocal) :
    counted s isAutocal (register s isAutocal v) = v := by
  cases isAutocal with
  | true => rfl
  | false =>
    have hlt : chipState s.asic v < conversionTableDepth := chipState_lt s.asic v
    show (conversionTable s.asic s.bitPerCntStd).getD (chipState s.asic v % _) 0 = v
    rw [Nat.mod_eq_of_lt hlt, s.bits_eq, List.getD_eq_getElem?_getD, conversionTable_pulses s.asic hv]
    rfl

/-- The planes of a counter of an output are the register of its pixel. -/
theorem convert_encode (padding : List UInt8) {m c j : Nat} (hm : m < s.modules)
    (hc : c < s.countersPerModule) (hj : j < s.dout)
    (hv : pixels.getD (m * s.matrixSizePxls + s.readout c j) 0 < valueBound s isAutocal) :
    convertBitStreamToCounts (s.codeDepth isAutocal)
        (counterWords s (s.codeDepth isAutocal) (encode s isAutocal pixels ++ padding) m c) j =
      register s isAutocal (pixels.getD (m * s.matrixSizePxls + s.readout c j) 0) := by
  have hlt := register_lt hv
  apply Nat.eq_of_testBit_eq
  intro k
  rw [testBit_convert (by rw [counterWords, List.length_map, List.length_range])]
  by_cases hk : k < s.codeDepth isAutocal
  · have hp : s.codeDepth isAutocal - 1 - k < s.codeDepth isAutocal := by omega
    have hback : s.codeDepth isAutocal - 1 - (s.codeDepth isAutocal - 1 - k) = k := by omega
    have hword : (counterWords s (s.codeDepth isAutocal) (encode s isAutocal pixels ++ padding)
        m c).getD (s.codeDepth isAutocal - 1 - k) 0 =
          planeWord s isAutocal pixels m c (s.codeDepth isAutocal - 1 - k) := by
      rw [counterWords, List.getD_eq_getElem?_getD, List.getElem?_map, List.getElem?_range hp,
        Option.map_some, wordAt?_encode padding hm hc hp]
      rfl
    rw [decide_eq_true hk, Bool.true_and, hword, testBit_planeWord _ _ _ hj, hback]
  · have hpow : 2 ^ s.codeDepth isAutocal ≤ 2 ^ k := Nat.pow_le_pow_right (by decide) (by omega)
    rw [decide_eq_false hk, Bool.false_and, Nat.testBit_eq_false_of_lt (hlt.trans_le hpow)]

/-- **The decoder undoes the chip.** -/
theorem decode_encode {d : Decoder} (h : d.Ready s) (himage : IsImage s isAutocal pixels)
    (padding : List UInt8) :
    ∃ d', d.decode isAutocal (encode s isAutocal pixels ++ padding) = some (.ok pixels, d') := by
  have hpayload : s.modules * s.countersPerModule * s.codeDepth isAutocal * 2 ≤
      (encode s isAutocal pixels ++ padding).length := by
    rw [List.length_append, length_encode]
    omega
  obtain ⟨image, d', hrun, -, hlen, hheld⟩ := h.decode_spec hpayload
  have hlength : pixels.length = s.modules * s.matrixSizePxls := himage.length
  have heq : image = pixels := by
    apply List.ext_getElem?
    intro i
    by_cases hi : i < s.modules * s.matrixSizePxls
    · have hpos : 0 < s.matrixSizePxls := by
        apply Nat.pos_of_ne_zero
        intro hzero
        rw [hzero] at hi
        exact absurd hi (Nat.not_lt_zero i)
      have hm : i / s.matrixSizePxls < s.modules := by
        rw [Nat.mul_comm] at hi
        exact Nat.div_lt_of_lt_mul hi
      -- every pixel of the module is that of some counter
      obtain ⟨q, hq, hpixel⟩ := Detector.pixelOf_bijOn.surjOn
        (Set.mem_Iio.2 (Nat.mod_lt i hpos))
      have hqlt : q < s.dout * s.countersPerModule := by
        rw [← s.matrix_eq_sectors]
        exact hq
      have hc : q / s.dout < s.countersPerModule := Nat.div_lt_of_lt_mul hqlt
      have hj : q % s.dout < s.dout :=
        Nat.mod_lt _ (Nat.pos_of_mul_pos_right (Nat.zero_lt_of_lt hqlt))
      have hindex : i / s.matrixSizePxls * s.matrixSizePxls + s.readout (q / s.dout) (q % s.dout) =
          i := by
        have hpixel : s.readout (q / s.dout) (q % s.dout) = i % s.matrixSizePxls := hpixel
        rw [hpixel, Nat.div_add_mod']
      have hget : pixels[i]? = some (pixels.getD i 0) := by
        rw [List.getD_eq_getElem?_getD, List.getElem?_eq_getElem (by omega)]
        rfl
      have hv : pixels.getD i 0 < valueBound s isAutocal :=
        himage.bounded _ (List.mem_of_getElem? hget)
      have hpixel := hheld _ hm _ hc _ hj
      rw [convert_encode padding hm hc hj (by rw [hindex]; exact hv), hindex,
        counted_register hv] at hpixel
      rw [hpixel, hget]
    · rw [List.getElem?_eq_none (by omega), List.getElem?_eq_none (by omega)]
  rw [heq] at hrun
  exact ⟨d', hrun⟩

end

/-! ## Frames of the assembler -/

namespace FrameAssembler

variable (sensor : Sensor)

/-- Between packets. -/
structure Sized (asm : FrameAssembler) : Prop where
  payload : asm.payload.length = sensor.numUdpPackets * packetSensorDataBytes
  expected : asm.expectedPackets ≤ sensor.numUdpPackets
  started : asm.started = true → asm.expectedPackets = sensor.packets asm.isAutocal

variable {sensor}

theorem packets_le (isAutocal : Bool) : sensor.packets isAutocal ≤ sensor.numUdpPackets := by
  unfold Sensor.packets
  split
  · exact sensor.autocal_le
  · exact Nat.le_refl _

theorem new_sized : Sized sensor (.new sensor) where
  payload := List.length_replicate
  expected := Nat.le_refl _
  started h := absurd h Bool.false_ne_true

theorem reset_sized {asm : FrameAssembler} (h : Sized sensor asm) :
    Sized sensor (asm.reset sensor) where
  payload := List.length_replicate.trans h.payload
  expected := Nat.le_refl _
  started hstarted := absurd hstarted Bool.false_ne_true

/-- What a packet that is not refused makes of an assembler: the same frame goes on. -/
structure GoesOn (asm asm' : FrameAssembler) : Prop where
  payload : asm'.payload.length = asm.payload.length
  expected : asm'.expectedPackets = asm.expectedPackets
  isAutocal : asm'.isAutocal = asm.isAutocal

theorem align_goesOn (asm : FrameAssembler) (id : Nat) : GoesOn asm (asm.align id) := by
  unfold align
  split
  · exact ⟨rfl, rfl, rfl⟩
  · split <;> exact ⟨rfl, rfl, rfl⟩

theorem advance_goesOn (asm : FrameAssembler) (id : Nat) : GoesOn asm (asm.advance id) := by
  unfold advance
  split <;> exact ⟨rfl, rfl, rfl⟩

theorem start_sized {asm : FrameAssembler} (h : Sized sensor asm) (packet : List UInt8) :
    Sized sensor (asm.start sensor packet) ∧
      (asm.start sensor packet).expectedPackets =
        sensor.packets (asm.start sensor packet).isAutocal := by
  unfold start
  by_cases hstarted : asm.started = true
  · rw [if_pos hstarted]
    exact ⟨h, h.started hstarted⟩
  · rw [if_neg hstarted]
    exact ⟨⟨h.payload, packets_le _, fun _ => rfl⟩, rfl⟩

/-- One packet: every frame it completes has all the packets of its kind. -/
theorem accept_sized {asm : FrameAssembler} (h : Sized sensor asm) (packet : List UInt8) :
    Sized sensor (asm.accept sensor packet).2 ∧
      ∀ frame, (asm.accept sensor packet).1 = some frame →
        frame.payload.length = sensor.packets frame.isAutocal * packetSensorDataBytes := by
  unfold accept
  by_cases hfull : packet.length = maxUdpPacketLen
  · rw [if_neg (not_not.2 hfull)]
    dsimp only
    obtain ⟨hsized, hkind⟩ := start_sized h packet
    have halign := align_goesOn (asm.start sensor packet) (packetId packet)
    obtain ⟨aligned, haligned⟩ :
        ∃ a, (asm.start sensor packet).align (packetId packet) = a := ⟨_, rfl⟩
    rw [haligned] at halign ⊢
    by_cases hslot : aligned.expectedPackets ≤ aligned.groupStart + packetId packet
    · rw [if_pos hslot]
      refine ⟨⟨?_, Nat.le_refl _, fun hs => absurd hs Bool.false_ne_true⟩, fun frame hf => ?_⟩
      swap
      · exact absurd hf (Option.some_ne_none frame).symm
      exact List.length_replicate.trans (halign.payload.trans hsized.payload)
    · rw [if_neg hslot]
      obtain ⟨slot, hslot_eq⟩ : ∃ slot, aligned.groupStart + packetId packet = slot := ⟨_, rfl⟩
      rw [hslot_eq] at hslot ⊢
      have hexpected : aligned.expectedPackets = sensor.packets aligned.isAutocal := by
        rw [halign.expected, hkind, halign.isAutocal]
      have hle : aligned.expectedPackets ≤ sensor.numUdpPackets := by
        rw [hexpected]
        exact packets_le _
      have hlen : aligned.payload.length = sensor.numUdpPackets * packetSensorDataBytes :=
        halign.payload.trans hsized.payload
      have hdata : (sensorData packet).length = packetSensorDataBytes := by
        rw [sensorData, List.length_take, List.length_drop, hfull]
        decide
      have hstored : (aligned.store slot (sensorData packet)).payload.length =
          sensor.numUdpPackets * packetSensorDataBytes := by
        rw [← hlen]
        apply length_replace _ hdata
        rw [hlen]
        exact Nat.mul_le_mul_right _ (by omega)
      obtain ⟨hpayload, hexpected', hkind'⟩ :=
        advance_goesOn (aligned.store slot (sensorData packet)) (packetId packet)
      obtain ⟨after, hafter⟩ :
          ∃ a, (aligned.store slot (sensorData packet)).advance (packetId packet) = a := ⟨_, rfl⟩
      rw [hafter] at hpayload hexpected' hkind' ⊢
      have hafter_len : after.payload.length = sensor.numUdpPackets * packetSensorDataBytes :=
        hpayload.trans hstored
      have hafter_expected : after.expectedPackets = aligned.expectedPackets := hexpected'
      have hafter_kind : after.isAutocal = aligned.isAutocal := hkind'
      have hafter_sized : Sized sensor after := by
        refine ⟨hafter_len, by rw [hafter_expected]; exact hle, fun _ => ?_⟩
        rw [hafter_expected, hexpected, hafter_kind]
      unfold finish
      split
      · exact ⟨hafter_sized, fun frame hf => absurd hf (Option.some_ne_none frame).symm⟩
      · refine ⟨reset_sized hafter_sized, fun frame hf => ?_⟩
        obtain rfl := Option.some.inj hf
        show (after.payload.take _).length = sensor.packets after.isAutocal * packetSensorDataBytes
        rw [hafter_expected, hexpected, hafter_kind, List.length_take, hafter_len, Nat.min_eq_left]
        exact Nat.mul_le_mul_right _ (packets_le _)
  · rw [if_pos hfull]
    exact ⟨h, fun frame hf => absurd hf (Option.some_ne_none frame).symm⟩

/-- Whatever packets come, every frame has all the packets of its kind. -/
theorem feed_sized {asm : FrameAssembler} (h : Sized sensor asm) (packets : List (List UInt8)) :
    ∀ frame ∈ (asm.feed sensor packets).1,
      frame.payload.length = sensor.packets frame.isAutocal * packetSensorDataBytes := by
  induction packets generalizing asm with
  | nil => exact fun frame hframe => absurd hframe List.not_mem_nil
  | cons packet packets ih =>
    intro frame hframe
    obtain ⟨hsized, hlength⟩ := accept_sized h packet
    obtain hfirst | hrest := List.mem_append.1 hframe
    · exact hlength frame (Option.mem_toList.1 hfirst)
    · exact ih hsized frame hrest

end FrameAssembler

/-! ## Packets -/

def chipPacket (isAutocal : Bool) (slot : Nat) (data : List UInt8) : List UInt8 :=
  [if isAutocal then autocalData else 0, 0] ++
    (beBytes 2 (slot % daqPacketFragment) ++ (data ++ List.replicate packetCrcBytes 0))

theorem sensorData_chipPacket (isAutocal : Bool) (slot : Nat) {data : List UInt8}
    (hdata : data.length = packetSensorDataBytes) :
    FrameAssembler.sensorData (chipPacket isAutocal slot data) = data := by
  have hhead : ([if isAutocal then autocalData else 0, 0] ++
      beBytes 2 (slot % daqPacketFragment)).length = packetSensorDataOffset := by
    rw [List.length_append, length_beBytes]
    rfl
  rw [FrameAssembler.sensorData, chipPacket, ← List.append_assoc, List.drop_left' hhead,
    List.take_left' hdata]

theorem chipPacket_isPacket (isAutocal : Bool) (slot : Nat) {data : List UInt8}
    (hdata : data.length = packetSensorDataBytes) :
    IsPacket isAutocal slot (chipPacket isAutocal slot data) where
  full := by
    rw [chipPacket, List.length_append, List.length_append, List.length_append, length_beBytes,
      List.length_replicate, hdata]
    rfl
  kind := by
    cases isAutocal with
    | true =>
      show (autocalData &&& autocalData != 0) = true
      decide
    | false =>
      show ((0 : UInt8) &&& autocalData != 0) = false
      decide
  id := id_of_tagged _ 0 slot _

/-- The data of a slot, with zeros behind its end. -/
def slotBytes (payload : List UInt8) (slot : Nat) : List UInt8 :=
  (payload.drop (slot * packetSensorDataBytes) ++
    List.replicate packetSensorDataBytes 0).take packetSensorDataBytes

theorem slotBytes_length (payload : List UInt8) (slot : Nat) :
    (slotBytes payload slot).length = packetSensorDataBytes := by
  rw [slotBytes, List.length_take, List.length_append, List.length_replicate]
  omega

/-- A frame of the chip, all packets of which arrive. -/
def chipFrame (isAutocal : Bool) (payload : List UInt8) : Sent where
  isAutocal
  packet slot := chipPacket isAutocal slot (slotBytes payload slot)
  lost _ := false
  isPacket slot := chipPacket_isPacket isAutocal slot (slotBytes_length payload slot)

/-- A payload that fills its packets. -/
theorem chipFrame_data {isAutocal : Bool} {payload : List UInt8} {n : Nat}
    (hlen : payload.length = n * packetSensorDataBytes) :
    ((List.range n).map fun slot => FrameAssembler.sensorData
      ((chipFrame isAutocal payload).packet slot)).flatten = payload := by
  have hslots : ((List.range n).map fun slot => FrameAssembler.sensorData
      ((chipFrame isAutocal payload).packet slot)) =
        (List.range n).map (block packetSensorDataBytes payload) := by
    apply List.map_congr_left
    intro slot hslot
    have hin : (slot + 1) * packetSensorDataBytes ≤ n * packetSensorDataBytes :=
      Nat.mul_le_mul_right _ (List.mem_range.1 hslot)
    rw [Nat.succ_mul] at hin
    show FrameAssembler.sensorData (chipPacket isAutocal slot (slotBytes payload slot)) = _
    rw [sensorData_chipPacket isAutocal slot (slotBytes_length payload slot), slotBytes, block,
      List.take_append_of_le_length]
    rw [List.length_drop]
    omega
  rw [hslots, flatten_block hlen]

/-- The packets of a frame that lost none give it back. -/
theorem feed_whole (sensor : Sensor) {sent : Sent} (hwhole : ∀ slot, sent.lost slot = false) :
    (FrameAssembler.new sensor).feed sensor (sent.stream sensor) =
      ([⟨sent.isAutocal, false, ((List.range (sent.size sensor)).map fun slot =>
        FrameAssembler.sensorData (sent.packet slot)).flatten⟩], .new sensor) := by
  have hgaps : sent.ShortGaps sensor := fun slot _ => ⟨0, by decide, hwhole _⟩
  rw [Sent.feed_frame hgaps (hwhole _), Sent.frame_complete fun slot _ => hwhole slot]

/-! ## From packets to pixels -/

/-- Decoding undoes the readout of a kind of frames. -/
structure Undone (s : Detector) (isAutocal : Bool) : Prop where
  /-- The frames that packets complete are long enough. -/
  enough : ∀ packets, ∀ frame ∈ ((FrameAssembler.new s.toSensor).feed s.toSensor packets).1,
    frame.isAutocal = isAutocal →
      (Decoder.new s).frameBytes isAutocal ≤ frame.payload.length
  /-- The words of an image fit in the packets. -/
  sends : ∀ pixels, IsImage s isAutocal pixels → ∃ sent, Sends s isAutocal pixels sent
  /-- The packets of an image give one frame, and that the image, whatever was decoded before. -/
  image : ∀ pixels sent, IsImage s isAutocal pixels → Sends s isAutocal pixels sent →
    ∀ before, ∃ frame d d',
      (FrameAssembler.new s.toSensor).feed s.toSensor (sent.stream s.toSensor) =
          ([frame], .new s.toSensor) ∧
        (Decoder.new s).decodeAll before = some d ∧
        d.decode frame.isAutocal frame.payload = some (.ok pixels, d')
  /-- Sorting and mapping move the pixels of a module, one to one. -/
  bijective : Set.BijOn s.pixelOf (Set.Iio s.matrixSizePxls) (Set.Iio s.matrixSizePxls) ∧
    ∀ buffer scratch, buffer.length = s.matrixSizePxls → scratch.length = s.matrixSizePxls →
      ∃ r, placePixels s buffer scratch = some r ∧ r.1.length = s.matrixSizePxls ∧
        ∀ i < s.matrixSizePxls, r.1[s.pixelOf i]? = buffer[i]?

section
variable {s : Detector} {isAutocal : Bool}

theorem placePixels_pixelOf {buffer scratch : List Nat} (hb : buffer.length = s.matrixSizePxls)
    (hs : scratch.length = s.matrixSizePxls) :
    ∃ r, placePixels s buffer scratch = some r ∧ r.1.length = s.matrixSizePxls ∧
      ∀ i < s.matrixSizePxls, r.1[s.pixelOf i]? = buffer[i]? := by
  obtain ⟨r, hrun, hlen, -, hplaced⟩ := placePixels_spec hb hs
  refine ⟨r, hrun, hlen, fun i hi => ?_⟩
  rw [s.matrix_eq_sectors] at hi
  have hj : i % s.dout < s.dout :=
    Nat.mod_lt _ (Nat.pos_of_mul_pos_right (Nat.zero_lt_of_lt hi))
  have hheld := hplaced _ (Nat.div_lt_of_lt_mul hi) _ hj
  rw [Nat.div_add_mod'] at hheld
  exact hheld

theorem sends_exists {pixels : List Nat}
    (hfits : s.modules * s.countersPerModule * s.codeDepth isAutocal * 2 ≤
      s.packets isAutocal * packetSensorDataBytes) : ∃ sent, Sends s isAutocal pixels sent := by
  obtain ⟨padding, hpadding⟩ : ∃ padding : List UInt8, padding =
      List.replicate (s.packets isAutocal * packetSensorDataBytes -
        (encode s isAutocal pixels).length) 0 := ⟨_, rfl⟩
  have hlen : (encode s isAutocal pixels ++ padding).length =
      s.packets isAutocal * packetSensorDataBytes := by
    rw [List.length_append, hpadding, List.length_replicate, length_encode]
    omega
  exact ⟨chipFrame isAutocal (encode s isAutocal pixels ++ padding), rfl, fun _ => rfl, padding,
    chipFrame_data hlen⟩

/-- Decoding undoes the readout exactly where the words of a frame fit in its packets. -/
theorem undone_iff_fits : Undone s isAutocal ↔
    s.modules * s.countersPerModule * s.codeDepth isAutocal * 2 ≤
      s.packets isAutocal * packetSensorDataBytes := by
  constructor
  · intro h
    obtain ⟨sent, hsent⟩ : ∃ sent : Sent, sent = chipFrame isAutocal [] := ⟨_, rfl⟩
    have hwhole : ∀ slot, sent.lost slot = false := by
      rw [hsent]
      exact fun _ => rfl
    have hfeed := feed_whole s.toSensor hwhole
    have hlen := h.enough (sent.stream s.toSensor) _ (by rw [hfeed]; exact List.mem_singleton_self _)
      (by rw [hsent]; rfl)
    have hsized := FrameAssembler.feed_sized FrameAssembler.new_sized (sent.stream s.toSensor) _
      (by rw [hfeed]; exact List.mem_singleton_self _)
    have hkind : sent.isAutocal = isAutocal := by rw [hsent]; rfl
    rw [hsized, (Decoder.new_ready s).frameBytes_eq, hkind] at hlen
    exact hlen
  · intro hfits
    refine ⟨?_, fun pixels _ => sends_exists hfits, ?_, Detector.pixelOf_bijOn,
      fun buffer scratch hb hs => placePixels_pixelOf hb hs⟩
    · intro packets frame hframe hkind
      rw [FrameAssembler.feed_sized FrameAssembler.new_sized packets frame hframe, hkind,
        (Decoder.new_ready s).frameBytes_eq]
      exact hfits
    · intro pixels sent himage hsends before
      obtain ⟨padding, hwords⟩ := hsends.words
      obtain ⟨d, hbefore, hready⟩ := (Decoder.new_ready s).decodeAll_ready before
      obtain ⟨d', hdecode⟩ := decode_encode hready himage padding
      refine ⟨_, d, d', feed_whole s.toSensor hsends.whole, hbefore, ?_⟩
      have hsize : sent.size s.toSensor = s.packets isAutocal := by
        rw [Sent.size, hsends.kind]
      dsimp only
      rw [hsends.kind, hsize, hwords]
      exact hdecode

end

/-! ## The sensors there are -/

theorem Asic.fromSizeX_eq_some {x : Int} {asic : Asic} (h : Asic.fromSizeX x = some asic) :
    x = 476 ∧ asic = .pii ∨ x = 402 ∧ asic = .piii := by
  unfold fromSizeX at h
  split at h
  · exact .inl ⟨rfl, (Option.some.inj h).symm⟩
  · exact .inr ⟨rfl, (Option.some.inj h).symm⟩
  · exact absurd h.symm (Option.some_ne_none _)

theorem modulesOfSize_eq_some {y : Int} {modules : Nat} (h : modulesOfSize y = some modules) :
    y = 512 ∧ modules = 1 ∨ y = 1024 ∧ modules = 2 ∨ y = 4096 ∧ modules = 8 := by
  unfold modulesOfSize at h
  split at h
  · exact .inl ⟨rfl, (Option.some.inj h).symm⟩
  · exact .inr (.inl ⟨rfl, (Option.some.inj h).symm⟩)
  · exact .inr (.inr ⟨rfl, (Option.some.inj h).symm⟩)
  · exact absurd h.symm (Option.some_ne_none _)

/-- The autocalibration frames of eight Pixie-III modules are longer than their packets. -/
theorem fits_iff {x y : Int} {s : Detector} (h : Detector.fromSize x y = some s)
    (isAutocal : Bool) :
    s.modules * s.countersPerModule * s.codeDepth isAutocal * 2 ≤
        s.packets isAutocal * packetSensorDataBytes ↔
      ¬ (x = 402 ∧ y = 4096 ∧ isAutocal = true) := by
  obtain ⟨asic, hasic, h⟩ := Option.bind_eq_some_iff.1 h
  obtain ⟨sensor, hsensor, h⟩ := Option.bind_eq_some_iff.1 h
  obtain ⟨modules, hmodules, rfl⟩ := Option.map_eq_some_iff.1 h
  obtain ⟨rfl, rfl⟩ | ⟨rfl, rfl⟩ := Asic.fromSizeX_eq_some hasic <;>
    obtain ⟨rfl, rfl⟩ | ⟨rfl, rfl⟩ | ⟨rfl, rfl⟩ := modulesOfSize_eq_some hmodules <;>
      obtain rfl := Option.some.inj hsensor <;>
        cases isAutocal <;> decide

/-- **Decoding undoes the readout** of every sensor and kind of frame but one, whose packet count
is a Pixie-II's: it leaves every frame too short. -/
theorem readout_undone {x y : Int} {s : Detector} (h : Detector.fromSize x y = some s)
    (isAutocal : Bool) :
    Undone s isAutocal ↔ ¬ (x = 402 ∧ y = 4096 ∧ isAutocal = true) :=
  undone_iff_fits.trans (fits_iff h isAutocal)

/-- A Pixie-II of one module. -/
theorem readout_undone_px1 : ∃ s, Detector.fromSize 476 512 = some s ∧ Undone s false :=
  ⟨_, rfl, (readout_undone (x := 476) (y := 512) rfl false).2 fun h => Bool.false_ne_true h.2.2⟩

/-- Eight Pixie-III modules: of an autocalibration frame all packets of which arrive the
assembler makes a frame that the decoder refuses. -/
theorem autocal_frame_too_short : ∃ s, Detector.fromSize 402 4096 = some s ∧
    (∀ sent : Sent, sent.isAutocal = true → (∀ slot, sent.lost slot = false) →
      ∃ frame, (FrameAssembler.new s.toSensor).feed s.toSensor (sent.stream s.toSensor) =
          ([frame], .new s.toSensor) ∧
        (Decoder.new s).decode true frame.payload =
          some (.error ⟨1555200, 1852416⟩, Decoder.new s)) ∧
    ¬ Undone s true := by
  obtain ⟨s, hs⟩ : ∃ s, Detector.fromSize 402 4096 = some s := ⟨_, rfl⟩
  have hneed : s.modules * s.countersPerModule * s.codeDepth true * 2 = 1852416 := by
    obtain rfl := Option.some.inj hs
    decide
  have hhave : s.packets true * packetSensorDataBytes = 1555200 := by
    obtain rfl := Option.some.inj hs
    decide
  refine ⟨s, hs, ?_, ?_⟩
  · intro sent hkind hwhole
    have hfeed := feed_whole s.toSensor hwhole
    refine ⟨_, hfeed, ?_⟩
    have hlen := FrameAssembler.feed_sized FrameAssembler.new_sized (sent.stream s.toSensor) _
      (by rw [hfeed]; exact List.mem_singleton_self _)
    rw [hkind, hhave] at hlen
    have hlt : (1555200 : Nat) < 1852416 := by decide
    rw [← hneed, ← hlen] at hlt
    have hshort := (Decoder.new_ready s).decode_short hlt
    rw [hlen, hneed] at hshort
    exact hshort
  · rw [undone_iff_fits, hneed, hhave]
    decide

end Pixirad
