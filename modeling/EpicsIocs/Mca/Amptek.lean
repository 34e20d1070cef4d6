import EpicsIocs.Lib.Checksum
import EpicsIocs.Lib.Words

/-!
# Packets of the Amptek DP5

`pack_out`, `framing`, `parse_packet` and `decode_spectrum` of `protocol.rs`, and the packet
half of `receive_packet` of `driver.rs`.  Every index and slice of the code is one that may
panic.  A string of bytes that starts with a packet is `Framed`:

    framing raw pin accepts (pid1, pid2, data)  ↔  Framed raw pid1 pid2 data     (framing_ok_iff)
    packOut pid1 pid2 data, then anything, is Framed                            (framed_packOut)
    three bytes a channel, then a status block, decode to the channels           (decodeSpectrum_cells)
-/

namespace Mca.Amptek

open Bytes Checksum Faults

/-! ## The code -/

def sync1 : UInt8 := 0xF5
def sync2 : UInt8 := 0xFA

def Pid1.rcvStatus : UInt8 := 0x80
def Pid1.rcvSpectrum : UInt8 := 0x81
def Pid1.rcvScopeMisc : UInt8 := 0x82
def Pid1.ack : UInt8 := 0xFF

def Pid2Rcv.dp4StyleStatus : UInt8 := 0x01
def Pid2Rcv.spectrum256Lo : UInt8 := 0x01
def Pid2Rcv.spectrum8192Hi : UInt8 := 0x0C
def Pid2Rcv.configReadback : UInt8 := 0x07
def Pid2Rcv.unprocessedMisc : List UInt8 := [0x01, 0x02, 0x03, 0x04, 0x05, 0x0C]

inductive AckStatus where
  | ok
  | syncError
  | pidError
  | lenError
  | checksumError
  | badParam
  | badHexRec
  | unrecognized
  | fpgaError
  | cp2201NotFound
  | scopeDataNotAvail
  | pc5NotPresent
  | okEthernetShareReq
  | ethernetBusy
  | i2cError
  | okFpgaUploadAddr
  | featureNotFpgaSupported
  | calDataNotPresent
  | other (b : UInt8)
  deriving DecidableEq, Repr

def AckStatus.fromByte (b : UInt8) : AckStatus :=
  match b with
  | 0x00 => .ok
  | 0x01 => .syncError
  | 0x02 => .pidError
  | 0x03 => .lenError
  | 0x04 => .checksumError
  | 0x05 => .badParam
  | 0x06 => .badHexRec
  | 0x07 => .unrecognized
  | 0x08 => .fpgaError
  | 0x09 => .cp2201NotFound
  | 0x0A => .scopeDataNotAvail
  | 0x0B => .pc5NotPresent
  | 0x0C => .okEthernetShareReq
  | 0x0D => .ethernetBusy
  | 0x0E => .i2cError
  | 0x0F => .okFpgaUploadAddr
  | 0x10 => .featureNotFpgaSupported
  | 0x11 => .calDataNotPresent
  | b => .other b

inductive ReceivedPacket where
  | status (data : List UInt8)
  | spectrum (pid2 : UInt8) (data : List UInt8)
  | configReadback (data : List UInt8)
  | ack (status : AckStatus) (data : List UInt8)
  | error (status : AckStatus)
  | unprocessed
  deriving DecidableEq, Repr

def ReceivedPacket.data? : ReceivedPacket → Option (List UInt8)
  | status data => some data
  | spectrum _ data => some data
  | configReadback data => some data
  | ack _ data => some data
  | error _ => none
  | unprocessed => none

/-- Kept across packets. -/
structure PacketHeader where
  len : Nat := 0
  pid1 : UInt8 := 0
  pid2 : UInt8 := 0
  deriving DecidableEq, Repr

def header (pid1 pid2 : UInt8) (len : Nat) : List UInt8 :=
  [sync1, sync2, pid1, pid2, UInt8.ofNat (len >>> 8), UInt8.ofNat (len &&& 0xFF)]

def packOut (pid1 pid2 : UInt8) (data : List UInt8) : Outcome Empty (List UInt8) :=
  if data.length < 2 ^ 16 then do
    let buf := header pid1 pid2 data.length ++ data
    let sum ← Words.sum 32 (buf.map UInt8.toNat)
    let cs := ((sum ^^^ 0xFFFF) + 1) % 2 ^ 32
    pure (buf ++ [UInt8.ofNat ((cs >>> 8) &&& 0xFF), UInt8.ofNat (cs &&& 0xFF)])
  else panics

/-- What a packet carries: PID1, PID2 and DATA. -/
abbrev Parsed : Type := UInt8 × UInt8 × List UInt8

/-- The checks behind the header. -/
def checkSum (raw : List UInt8) (pid1 pid2 : UInt8) (len : Nat) :
    Outcome Empty (Except UInt8 Parsed) :=
  if raw.length < 6 + len + 2 then .ok (.error 3) else do
    let headerAndData ← slice raw 0 (6 + len)
    let sum ← Words.sum 32 (headerAndData.map UInt8.toNat)
    let hi ← item raw (6 + len)
    let lo ← item raw (6 + len + 1)
    let wireChecksum := hi.toNat * 256 + lo.toNat
    if (sum + wireChecksum) % 2 ^ 32 &&& 0xFFFF ≠ 0 then
      .ok (.error 4)
    else do
      let data ← slice raw 6 (6 + len)
      .ok (.ok (pid1, pid2, data))

def framing (raw : List UInt8) (pin : PacketHeader) :
    Outcome Empty (Except UInt8 Parsed × PacketHeader) :=
  if raw.length < 2 then .ok (.error 1, pin) else do
    let s1 ← item raw 0
    let s2 ← item raw 1
    if s1 ≠ sync1 ∨ s2 ≠ sync2 then .ok (.error 1, pin)
    else if raw.length < 6 then .ok (.error 3, pin)
    else do
      let hi ← item raw 4
      if 128 ≤ hi.toNat then .ok (.error 3, pin)
      else do
        let lo ← item raw 5
        let len := hi.toNat * 256 + lo.toNat
        let pid1 ← item raw 2
        let pid2 ← item raw 3
        let parsed ← checkSum raw pid1 pid2 len
        .ok (parsed, { len, pid1, pid2 })

def parsePacketStatus (raw : List UInt8) (pin : PacketHeader) :
    Outcome Empty (Except AckStatus Parsed × PacketHeader) :=
  (framing raw pin).map fun (parsed, pin) => (parsed.mapError AckStatus.fromByte, pin)

def route (pid1 pid2 : UInt8) (data : List UInt8) : ReceivedPacket :=
  if pid1 = Pid1.rcvStatus ∧ pid2 = Pid2Rcv.dp4StyleStatus then .status data
  else if pid1 = Pid1.rcvSpectrum ∧ Pid2Rcv.spectrum256Lo ≤ pid2 ∧ pid2 ≤ Pid2Rcv.spectrum8192Hi then
    .spectrum pid2 data
  else if pid1 = Pid1.rcvScopeMisc ∧ pid2 ∈ Pid2Rcv.unprocessedMisc then .unprocessed
  else if pid1 = Pid1.rcvScopeMisc ∧ pid2 = Pid2Rcv.configReadback then .configReadback data
  else if pid1 = Pid1.ack then .ack (.fromByte pid2) data
  else .error .pidError

def parsePacket (raw : List UInt8) (pin : PacketHeader) :
    Outcome Empty (ReceivedPacket × PacketHeader) :=
  (parsePacketStatus raw pin).map fun (parsed, pin) =>
    (match parsed with
      | .ok (pid1, pid2, data) => route pid1 pid2 data
      | .error status => .error status, pin)

/-- `((i32::from(pid2) - 1) & 14) / 2`. -/
def spectrumShift (pid2 : UInt8) : Nat := ((BitVec.ofNat 32 pid2.toNat - 1) &&& 14).toNat / 2

def channelValue (data : List UInt8) (i : Nat) : Outcome Empty Nat := do
  let base := i * 3
  let b0 ← item data base
  let b1 ← item data (base + 1)
  let b2 ← item data (base + 2)
  pure (b0.toNat + b1.toNat * 256 + b2.toNat * 65536)

def decodeSpectrum (pid2 : UInt8) (data : List UInt8) : Outcome Empty (Nat × List Nat) := do
  let channels := 256 <<< spectrumShift pid2
  let n := min channels (data.length / 3)
  let values ← (List.range n).mapM (channelValue data)
  pure (channels, values)

/-- What `receive_packet` updates; of the status, the block it was decoded from. -/
structure Received where
  pin : PacketHeader := {}
  lastStatus : List UInt8 := []
  spectrum : List Nat := []
  deriving DecidableEq, Repr

def storePacket (r : Received) (packet : ReceivedPacket) : Outcome Empty Received :=
  match packet with
  | .status data => .ok { r with lastStatus := data }
  | .spectrum pid2 data => do
    let (channels, values) ← decodeSpectrum pid2 data
    -- `data.get(channels * 3..channels * 3 + 64)`
    let block :=
      if pid2 &&& 1 = 0 ∧ channels * 3 + 64 ≤ data.length then (data.drop (channels * 3)).take 64
      else r.lastStatus
    .ok { r with lastStatus := block, spectrum := values }
  | _ => .ok r

def receivePacket (r : Received) (raw : List UInt8) :
    Outcome Empty (Option ReceivedPacket × Received) := do
  let (packet, pin) ← parsePacket raw r.pin
  let r ← storePacket { r with pin } packet
  .ok (match packet with
    | .error _ => none
    | .unprocessed => none
    | packet => some packet, r)

/-! ## What is accepted -/

/-- The bytes start with a packet whose 16-bit sum is zero. -/
structure Framed (raw : List UInt8) (pid1 pid2 : UInt8) (data : List UInt8) : Prop where
  short : data.length < 2 ^ 15
  bytes : ∃ hi lo trailing, raw = header pid1 pid2 data.length ++ (data ++ hi :: lo :: trailing) ∧
    (total (header pid1 pid2 data.length ++ data) + (hi.toNat * 256 + lo.toNat)) % 2 ^ 16 = 0

theorem length_header (pid1 pid2 : UInt8) (len : Nat) : (header pid1 pid2 len).length = 6 := rfl

theorem toNat_ofNat_of_lt {n : Nat} (h : n < 256) : (UInt8.ofNat n).toNat = n := by
  rw [UInt8.toNat_ofNat', Nat.mod_eq_of_lt h]

theorem and_ones (n w : Nat) : n &&& (2 ^ w - 1) = n % 2 ^ w := Nat.and_two_pow_sub_one_eq_mod n w

/-- The length bytes of a header, of any two bytes. -/
theorem header_of_bytes (pid1 pid2 hi lo : UInt8) :
    header pid1 pid2 (hi.toNat * 256 + lo.toNat) = [sync1, sync2, pid1, pid2, hi, lo] := by
  have hhi := hi.toNat_lt
  have hlo := lo.toNat_lt
  have h1 : UInt8.ofNat ((hi.toNat * 256 + lo.toNat) >>> 8) = hi := by
    apply UInt8.toNat_inj.1
    rw [Nat.shiftRight_eq_div_pow, UInt8.toNat_ofNat']
    omega
  have h2 : UInt8.ofNat ((hi.toNat * 256 + lo.toNat) &&& 0xFF) = lo := by
    apply UInt8.toNat_inj.1
    rw [show (0xFF : Nat) = 2 ^ 8 - 1 from rfl, and_ones, UInt8.toNat_ofNat']
    omega
  rw [header, h1, h2]

/-- The length bytes read back. -/
theorem header_length {len : Nat} (h : len < 2 ^ 15) (pid1 pid2 : UInt8) :
    ∃ hi lo : UInt8, hi.toNat < 128 ∧ hi.toNat * 256 + lo.toNat = len ∧
      header pid1 pid2 len = [sync1, sync2, pid1, pid2, hi, lo] := by
  refine ⟨UInt8.ofNat (len >>> 8), UInt8.ofNat (len &&& 0xFF), ?_, ?_, rfl⟩
  · rw [Nat.shiftRight_eq_div_pow, UInt8.toNat_ofNat']
    omega
  · rw [show (0xFF : Nat) = 2 ^ 8 - 1 from rfl, and_ones, Nat.shiftRight_eq_div_pow,
      UInt8.toNat_ofNat', UInt8.toNat_ofNat']
    omega

/-- A sum of bytes that stays within 32 bits. -/
theorem sum_bytes {bytes : List UInt8} (h : bytes.length < 2 ^ 17) :
    (Words.sum 32 (bytes.map UInt8.toNat) : Outcome Empty Nat) = .ok (total bytes) := by
  have hle := total_le bytes
  rw [total] at hle ⊢
  exact Words.sum_of_lt (by omega)

theorem checkSum_append {head data : List UInt8} (hhead : head.length = 6)
    (hdata : data.length < 2 ^ 15) (hi lo : UInt8) (trailing : List UInt8) (pid1 pid2 : UInt8) :
    checkSum (head ++ (data ++ hi :: lo :: trailing)) pid1 pid2 data.length =
      .ok (if (total (head ++ data) + (hi.toNat * 256 + lo.toNat)) % 2 ^ 16 = 0 then
        .ok (pid1, pid2, data) else .error 4) := by
  have hlong : ¬(head ++ (data ++ hi :: lo :: trailing)).length < 6 + data.length + 2 := by
    simp only [List.length_append, List.length_cons]
    omega
  have hraw : head ++ (data ++ hi :: lo :: trailing) = (head ++ data) ++ hi :: lo :: trailing := by
    rw [List.append_assoc]
  have hlen : (head ++ data).length = 6 + data.length := by rw [List.length_append, hhead]
  have hslice : (slice (head ++ (data ++ hi :: lo :: trailing)) 0 (6 + data.length) :
      Outcome Empty _) = .ok (head ++ data) := by
    rw [slice_of_le (Nat.zero_le _) (by omega), List.drop_zero, Nat.sub_zero, hraw, ← hlen,
      List.take_left]
  have hdat : (slice (head ++ (data ++ hi :: lo :: trailing)) 6 (6 + data.length) :
      Outcome Empty _) = .ok data := by
    rw [slice_add (by omega), ← hhead, List.drop_left, List.take_left]
  have hget : ∀ i, (head ++ (data ++ hi :: lo :: trailing))[6 + data.length + i]? =
      (hi :: lo :: trailing)[i]? := by
    intro i
    rw [hraw, List.getElem?_append_right (by omega), hlen, Nat.add_sub_cancel_left]
  have hhigh : (head ++ (data ++ hi :: lo :: trailing))[6 + data.length]? = some hi := hget 0
  have hlow : (head ++ (data ++ hi :: lo :: trailing))[6 + data.length + 1]? = some lo := hget 1
  have hsum := sum_bytes (show (head ++ data).length < 2 ^ 17 by omega)
  have hle := total_le (head ++ data)
  have hhi := hi.toNat_lt
  have hlo := lo.toNat_lt
  rw [checkSum, if_neg hlong, hslice, Words.bind_ok, hsum, Words.bind_ok,
    item_of_some hhigh, Words.bind_ok, item_of_some hlow, Words.bind_ok, hdat]
  dsimp only
  rw [Nat.mod_eq_of_lt (by omega), show (0xFFFF : Nat) = 2 ^ 16 - 1 from rfl, and_ones]
  by_cases hz : (total (head ++ data) + (hi.toNat * 256 + lo.toNat)) % 2 ^ 16 = 0
  · rw [if_neg (not_not.2 hz), if_pos hz]
    rfl
  · rw [if_pos hz, if_neg hz]

/-- What the checks of the header come to. -/
theorem framing_cons (s1 s2 pid1 pid2 hi lo : UInt8) (rest : List UInt8) (pin : PacketHeader) :
    framing (s1 :: s2 :: pid1 :: pid2 :: hi :: lo :: rest) pin =
      if s1 ≠ sync1 ∨ s2 ≠ sync2 then .ok (.error 1, pin)
      else if 128 ≤ hi.toNat then .ok (.error 3, pin)
      else (checkSum (s1 :: s2 :: pid1 :: pid2 :: hi :: lo :: rest) pid1 pid2
        (hi.toNat * 256 + lo.toNat)).map fun parsed =>
          (parsed, { len := hi.toNat * 256 + lo.toNat, pid1, pid2 }) := by
  have hlen : ¬(s1 :: s2 :: pid1 :: pid2 :: hi :: lo :: rest).length < 6 := by
    simp only [List.length_cons]
    omega
  have hlen2 : ¬(s1 :: s2 :: pid1 :: pid2 :: hi :: lo :: rest).length < 2 := by
    simp only [List.length_cons]
    omega
  rw [framing, if_neg hlen2, if_neg hlen]
  rfl

theorem framing_append {raw data : List UInt8} {pid1 pid2 hi lo h l : UInt8}
    {trailing : List UInt8} (pin : PacketHeader) (hshort : h.toNat < 128)
    (hlen : h.toNat * 256 + l.toNat = data.length)
    (hraw : raw = [sync1, sync2, pid1, pid2, h, l] ++ (data ++ hi :: lo :: trailing)) :
    framing raw pin = .ok (if (total ([sync1, sync2, pid1, pid2, h, l] ++ data) +
        (hi.toNat * 256 + lo.toNat)) % 2 ^ 16 = 0 then .ok (pid1, pid2, data) else .error 4,
      { len := data.length, pid1, pid2 }) := by
  have hl := l.toNat_lt
  have hcheck := checkSum_append (show [sync1, sync2, pid1, pid2, h, l].length = 6 from rfl)
    (show data.length < 2 ^ 15 by omega) hi lo trailing pid1 pid2
  have hframing := framing_cons sync1 sync2 pid1 pid2 h l (data ++ hi :: lo :: trailing) pin
  rw [if_neg (by simp), if_neg (by omega), hlen] at hframing
  rw [hraw]
  refine hframing.trans ?_
  rw [show sync1 :: sync2 :: pid1 :: pid2 :: h :: l :: (data ++ hi :: lo :: trailing) =
    [sync1, sync2, pid1, pid2, h, l] ++ (data ++ hi :: lo :: trailing) from rfl, hcheck]
  rfl

/-- At least so many elements, the first ones by name. -/
theorem exists_six {raw : List UInt8} (h : ¬raw.length < 6) :
    ∃ s1 s2 pid1 pid2 hi lo rest, raw = s1 :: s2 :: pid1 :: pid2 :: hi :: lo :: rest := by
  obtain ⟨s1, raw, rfl⟩ := List.exists_cons_of_length_pos (l := raw) (by omega)
  rw [List.length_cons] at h
  obtain ⟨s2, raw, rfl⟩ := List.exists_cons_of_length_pos (l := raw) (by omega)
  rw [List.length_cons] at h
  obtain ⟨pid1, raw, rfl⟩ := List.exists_cons_of_length_pos (l := raw) (by omega)
  rw [List.length_cons] at h
  obtain ⟨pid2, raw, rfl⟩ := List.exists_cons_of_length_pos (l := raw) (by omega)
  rw [List.length_cons] at h
  obtain ⟨hi, raw, rfl⟩ := List.exists_cons_of_length_pos (l := raw) (by omega)
  rw [List.length_cons] at h
  obtain ⟨lo, raw, rfl⟩ := List.exists_cons_of_length_pos (l := raw) (by omega)
  exact ⟨s1, s2, pid1, pid2, hi, lo, raw, rfl⟩

/-- A string that holds the bytes its header claims. -/
theorem exists_data {rest : List UInt8} {len : Nat} (h : ¬rest.length < len + 2) :
    ∃ data hi lo trailing, data.length = len ∧ rest = data ++ hi :: lo :: trailing := by
  obtain ⟨hi, tail, htail⟩ := List.exists_cons_of_length_pos (l := rest.drop len) (by
    rw [List.length_drop]
    omega)
  have hlong := congrArg List.length htail
  rw [List.length_drop, List.length_cons] at hlong
  obtain ⟨lo, trailing, rfl⟩ := List.exists_cons_of_length_pos (l := tail) (by omega)
  refine ⟨rest.take len, hi, lo, trailing, ?_, ?_⟩
  · rw [List.length_take]
    omega
  · rw [← htail, List.take_append_drop]

/-- The checks end with a verdict on every string, and accept what is framed. -/
theorem framing_spec (raw : List UInt8) (pin : PacketHeader) :
    ∃ parsed pin', framing raw pin = .ok (parsed, pin') ∧
      ∀ pid1 pid2 data, parsed = .ok (pid1, pid2, data) → Framed raw pid1 pid2 data := by
  by_cases h2 : raw.length < 2
  · exact ⟨.error 1, pin, by rw [framing, if_pos h2], nofun⟩
  by_cases h6 : raw.length < 6
  · obtain ⟨s1, raw, rfl⟩ := List.exists_cons_of_length_pos (l := raw) (by omega)
    obtain ⟨s2, raw, rfl⟩ := List.exists_cons_of_length_pos (l := raw) (by
      rw [List.length_cons] at h2
      omega)
    by_cases hsync : s1 ≠ sync1 ∨ s2 ≠ sync2
    · refine ⟨.error 1, pin, ?_, nofun⟩
      rw [framing, if_neg h2, if_pos h6]
      exact if_pos hsync
    · refine ⟨.error 3, pin, ?_, nofun⟩
      rw [framing, if_neg h2, if_pos h6]
      exact if_neg hsync
  obtain ⟨s1, s2, pid1, pid2, h, l, rest, rfl⟩ := exists_six h6
  have hframing := framing_cons s1 s2 pid1 pid2 h l rest pin
  by_cases hsync : s1 ≠ sync1 ∨ s2 ≠ sync2
  · rw [if_pos hsync] at hframing
    exact ⟨_, _, hframing, nofun⟩
  rw [if_neg hsync] at hframing
  by_cases hh : 128 ≤ h.toNat
  · rw [if_pos hh] at hframing
    exact ⟨_, _, hframing, nofun⟩
  by_cases hlong : rest.length < h.toNat * 256 + l.toNat + 2
  · rw [if_neg hh, checkSum, if_pos (by simp only [List.length_cons]; omega)] at hframing
    exact ⟨_, _, hframing, nofun⟩
  obtain ⟨data, hi, lo, trailing, hlen, rfl⟩ := exists_data hlong
  obtain ⟨rfl, rfl⟩ := not_or.1 hsync |>.imp not_not.1 not_not.1
  have hl := l.toNat_lt
  refine ⟨_, _, framing_append pin (Nat.not_le.1 hh) hlen.symm rfl, ?_⟩
  intro p1 p2 d hd
  split at hd
  · rename_i hzero
    cases hd
    rw [← header_of_bytes, ← hlen] at hzero
    refine ⟨by omega, hi, lo, trailing, ?_, hzero⟩
    rw [hlen, header_of_bytes]
    rfl
  · cases hd

theorem framing_of_framed {raw data : List UInt8} {pid1 pid2 : UInt8}
    (h : Framed raw pid1 pid2 data) (pin : PacketHeader) :
    framing raw pin = .ok (.ok (pid1, pid2, data), { len := data.length, pid1, pid2 }) := by
  obtain ⟨hi, lo, trailing, hraw, hzero⟩ := h.bytes
  obtain ⟨b, l, hb, hlen, hheader⟩ := header_length h.short pid1 pid2
  rw [hheader] at hraw hzero
  rw [framing_append pin hb hlen hraw, if_pos hzero]

theorem framing_ok_iff (raw data : List UInt8) (pid1 pid2 : UInt8) (pin : PacketHeader) :
    (∃ pin', framing raw pin = .ok (.ok (pid1, pid2, data), pin')) ↔ Framed raw pid1 pid2 data := by
  constructor
  · rintro ⟨pin', h⟩
    obtain ⟨parsed, pin'', h', hframed⟩ := framing_spec raw pin
    rw [h] at h'
    cases h'
    exact hframed pid1 pid2 data rfl
  · intro h
    exact ⟨_, framing_of_framed h pin⟩

/-- The last two bytes of a word, most significant first. -/
theorem low_bytes (n : Nat) :
    (UInt8.ofNat ((n >>> 8) &&& 0xFF)).toNat * 256 + (UInt8.ofNat (n &&& 0xFF)).toNat =
      n % 2 ^ 16 := by
  rw [show (0xFF : Nat) = 2 ^ 8 - 1 from rfl, and_ones, and_ones, Nat.shiftRight_eq_div_pow,
    UInt8.toNat_ofNat', UInt8.toNat_ofNat']
  omega

theorem packOut_eq {data : List UInt8} (h : data.length < 2 ^ 15) (pid1 pid2 : UInt8) :
    ∃ hi lo : UInt8, packOut pid1 pid2 data =
        .ok (header pid1 pid2 data.length ++ data ++ [hi, lo]) ∧
      (total (header pid1 pid2 data.length ++ data) + (hi.toNat * 256 + lo.toNat)) % 2 ^ 16 = 0 := by
  have hsum := sum_bytes (show (header pid1 pid2 data.length ++ data).length < 2 ^ 17 by
    rw [List.length_append, length_header]
    omega)
  have hzero := add_complement 16 (total (header pid1 pid2 data.length ++ data))
  have hbytes := low_bytes (complement 16 (total (header pid1 pid2 data.length ++ data)) % 2 ^ 32)
  generalize hcs : complement 16 (total (header pid1 pid2 data.length ++ data)) % 2 ^ 32 = cs at hbytes
  have hpacket : packOut pid1 pid2 data = .ok (header pid1 pid2 data.length ++ data ++
      [UInt8.ofNat ((cs >>> 8) &&& 0xFF), UInt8.ofNat (cs &&& 0xFF)]) := by
    rw [packOut, if_pos (by omega), ← hcs]
    dsimp only
    rw [hsum]
    rfl
  refine ⟨_, _, hpacket, ?_⟩
  rw [hbytes]
  omega

/-- What `packOut` builds is a packet, whatever follows it. -/
theorem framed_packOut {data : List UInt8} (h : data.length < 2 ^ 15) (pid1 pid2 : UInt8) :
    ∃ packet, packOut pid1 pid2 data = .ok packet ∧
      ∀ trailing, Framed (packet ++ trailing) pid1 pid2 data := by
  obtain ⟨hi, lo, hpacket, hzero⟩ := packOut_eq h pid1 pid2
  refine ⟨_, hpacket, fun trailing => ⟨h, hi, lo, trailing, ?_, hzero⟩⟩
  rw [List.append_assoc, List.append_assoc]
  rfl

/-! ## Results -/

theorem parsePacketStatus_of_framed {raw data : List UInt8} {pid1 pid2 : UInt8}
    (h : Framed raw pid1 pid2 data) (pin : PacketHeader) :
    parsePacketStatus raw pin =
      .ok (.ok (pid1, pid2, data), { len := data.length, pid1, pid2 }) := by
  rw [parsePacketStatus, framing_of_framed h pin]
  rfl

theorem parsePacket_of_framed {raw data : List UInt8} {pid1 pid2 : UInt8}
    (h : Framed raw pid1 pid2 data) (pin : PacketHeader) :
    parsePacket raw pin =
      .ok (route pid1 pid2 data, { len := data.length, pid1, pid2 }) := by
  rw [parsePacket, parsePacketStatus_of_framed h pin]
  rfl

/-- The data of a packet, where its kind carries any. -/
theorem data?_route (pid1 pid2 : UInt8) (data : List UInt8) :
    (route pid1 pid2 data).data? = none ∨ (route pid1 pid2 data).data? = some data := by
  rw [route]
  split_ifs
  · exact .inr rfl
  · exact .inr rfl
  · exact .inl rfl
  · exact .inr rfl
  · exact .inr rfl
  · exact .inl rfl

/-- Parsing ends with a packet on every string; its data, if any, are framed there. -/
theorem parsePacket_spec (raw : List UInt8) (pin : PacketHeader) :
    ∃ packet pin', parsePacket raw pin = .ok (packet, pin') ∧
      ∀ data, packet.data? = some data → ∃ pid1 pid2, Framed raw pid1 pid2 data := by
  obtain ⟨parsed, pin', hframing, hframed⟩ := framing_spec raw pin
  rw [parsePacket, parsePacketStatus, hframing]
  cases parsed with
  | error status => exact ⟨_, _, rfl, nofun⟩
  | ok parsed =>
    obtain ⟨pid1, pid2, data⟩ := parsed
    refine ⟨_, _, rfl, fun d hd => ?_⟩
    rcases data?_route pid1 pid2 data with hnone | hsome
    · exact absurd (hnone.symm.trans hd) nofun
    · cases Option.some.inj (hsome.symm.trans hd)
      exact ⟨pid1, pid2, hframed pid1 pid2 data rfl⟩

/-- The 16-bit sum of a packet at the start of `raw` with so many bytes of data, its checksum
included. -/
def sum16 (raw : List UInt8) (len : Nat) : Nat :=
  (total (raw.take (6 + len)) + beNat ((raw.drop (6 + len)).take 2)) % 2 ^ 16

theorem Framed.length_le {raw data : List UInt8} {pid1 pid2 : UInt8}
    (h : Framed raw pid1 pid2 data) : 6 + data.length + 2 ≤ raw.length := by
  obtain ⟨hi, lo, trailing, hraw, _⟩ := h.bytes
  rw [hraw, List.length_append, length_header, List.length_append, List.length_cons,
    List.length_cons]
  omega

theorem Framed.sum16_eq_zero {raw data : List UInt8} {pid1 pid2 : UInt8}
    (h : Framed raw pid1 pid2 data) : sum16 raw data.length = 0 := by
  obtain ⟨hi, lo, trailing, hraw, hzero⟩ := h.bytes
  have hlen : (header pid1 pid2 data.length ++ data).length = 6 + data.length := by
    rw [List.length_append, length_header]
  have hsum : beNat [hi, lo] = hi.toNat * 256 + lo.toNat := by
    rw [beNat, List.foldl_cons, List.foldl_cons, List.foldl_nil, Nat.zero_mul, Nat.zero_add]
  rw [sum16, hraw, ← List.append_assoc, ← hlen, List.take_left, List.drop_left,
    List.take_succ_cons, List.take_succ_cons, List.take_zero, hsum, hzero]

/-- Three bytes for each channel. -/
def cells (counts : List Nat) : List UInt8 := counts.flatMap (leBytes 3)

theorem length_cells (counts : List Nat) : (cells counts).length = counts.length * 3 := by
  induction counts with
  | nil => rfl
  | cons c counts ih =>
    rw [cells, List.flatMap_cons, List.length_append, length_leBytes, ← cells, ih, List.length_cons]
    omega

theorem getElem?_cells {counts : List Nat} {i c j : Nat} (h : counts[i]? = some c) (hj : j < 3)
    (status : List UInt8) : (cells counts ++ status)[i * 3 + j]? = (leBytes 3 c)[j]? := by
  induction counts generalizing i with
  | nil => cases h
  | cons c' counts ih =>
    rw [cells, List.flatMap_cons, ← cells, List.append_assoc]
    cases i with
    | zero =>
      rw [List.getElem?_cons_zero, Option.some.injEq] at h
      rw [Nat.zero_mul, Nat.zero_add, List.getElem?_append_left (by rw [length_leBytes]; exact hj), h]
    | succ i =>
      rw [List.getElem?_cons_succ] at h
      rw [List.getElem?_append_right (by rw [length_leBytes]; omega), length_leBytes,
        show (i + 1) * 3 + j - 3 = i * 3 + j by omega, ih h]

theorem channelValue_cells {counts : List Nat} {i c : Nat} (h : counts[i]? = some c)
    (hc : c < 2 ^ 24) (status : List UInt8) : channelValue (cells counts ++ status) i = .ok c := by
  have hcell := leNat_leBytes_of_lt (k := 3) (n := c) (by omega)
  have h0 := getElem?_cells h (j := 0) (by omega) status
  have h1 := getElem?_cells h (j := 1) (by omega) status
  have h2 := getElem?_cells h (j := 2) (by omega) status
  simp only [leBytes, List.getElem?_cons_zero, List.getElem?_cons_succ, Nat.add_zero] at h0 h1 h2
  rw [channelValue, item_of_some h0, Words.bind_ok, item_of_some h1, Words.bind_ok, item_of_some h2,
    Words.bind_ok]
  simp only [leBytes, leNat] at hcell
  refine congrArg Except.ok ?_
  omega

/-- The number of channels, of either type byte. -/
theorem spectrumShift_eq {k : Nat} (hk : k ≤ 5) {pid2 : UInt8}
    (h : pid2.toNat = 2 * k + 1 ∨ pid2.toNat = 2 * k + 2) : spectrumShift pid2 = k := by
  have table : ∀ k < 6, (((BitVec.ofNat 32 (2 * k + 1) - 1) &&& 14).toNat / 2 = k ∧
      ((BitVec.ofNat 32 (2 * k + 2) - 1) &&& 14).toNat / 2 = k) := by decide
  rw [spectrumShift]
  rcases h with h | h
  · rw [h]
    exact (table k (by omega)).1
  · rw [h]
    exact (table k (by omega)).2

theorem decodeSpectrum_cells {k : Nat} (hk : k ≤ 5) {pid2 : UInt8}
    (hpid2 : pid2.toNat = 2 * k + 1 ∨ pid2.toNat = 2 * k + 2) {counts : List Nat}
    (hlen : counts.length = 256 * 2 ^ k) (hcounts : ∀ c ∈ counts, c < 2 ^ 24)
    (status : List UInt8) :
    decodeSpectrum pid2 (cells counts ++ status) = .ok (256 * 2 ^ k, counts) := by
  have hn : min (256 * 2 ^ k) ((cells counts ++ status).length / 3) = counts.length := by
    rw [List.length_append, length_cells, ← hlen]
    omega
  have hvalues : (List.range counts.length).mapM (channelValue (cells counts ++ status)) =
      .ok ((List.range counts.length).map fun i => counts.getD i 0) := by
    apply Fallible.mapM_of_forall
    intro i hi
    have hget := List.getElem?_eq_getElem (List.mem_range.1 hi)
    rw [List.getD_eq_getElem?_getD, hget]
    exact channelValue_cells hget (hcounts _ (List.getElem_mem _)) status
  have hcount : (List.range counts.length).map (fun i => counts.getD i 0) = counts := by
    apply List.ext_getElem
    · rw [List.length_map, List.length_range]
    · intro i hi _
      rw [List.length_map, List.length_range] at hi
      rw [List.getElem_map, List.getElem_range, List.getD_eq_getElem?_getD, List.getElem?_eq_getElem hi,
        Option.getD_some]
  rw [decodeSpectrum, spectrumShift_eq hk hpid2, Nat.shiftLeft_eq, hn, hvalues, hcount]
  rfl

/-- What is kept of the block behind the channels. -/
def keptStatus (r : Received) (pid2 : UInt8) (status : List UInt8) : List UInt8 :=
  if pid2 &&& 1 = 0 ∧ 64 ≤ status.length then status.take 64 else r.lastStatus

theorem drop_cells {counts : List Nat} {n : Nat} (h : counts.length = n) (status : List UInt8) :
    (cells counts ++ status).drop (n * 3) = status := by
  rw [← h, ← length_cells, List.drop_left]

theorem receivePacket_spectrum {k : Nat} (hk : k ≤ 5) {pid2 : UInt8}
    (hpid2 : pid2.toNat = 2 * k + 1 ∨ pid2.toNat = 2 * k + 2) {counts : List Nat}
    (hlen : counts.length = 256 * 2 ^ k) (hcounts : ∀ c ∈ counts, c < 2 ^ 24)
    {status raw : List UInt8} (h : Framed raw Pid1.rcvSpectrum pid2 (cells counts ++ status))
    (r : Received) :
    receivePacket r raw = .ok (some (.spectrum pid2 (cells counts ++ status)),
      { pin := ⟨(cells counts ++ status).length, Pid1.rcvSpectrum, pid2⟩
        lastStatus := keptStatus r pid2 status
        spectrum := counts }) := by
  have hroute : route Pid1.rcvSpectrum pid2 (cells counts ++ status) =
      .spectrum pid2 (cells counts ++ status) := by
    have hlo : Pid2Rcv.spectrum256Lo ≤ pid2 := UInt8.le_iff_toNat_le.2 (by
      show 1 ≤ pid2.toNat
      omega)
    have hhi : pid2 ≤ Pid2Rcv.spectrum8192Hi := UInt8.le_iff_toNat_le.2 (by
      show pid2.toNat ≤ 12
      omega)
    rw [route, if_neg (fun h => absurd h.1 (by decide)), if_pos ⟨rfl, hlo, hhi⟩]
  have hroom : 256 * 2 ^ k * 3 + 64 ≤ (cells counts ++ status).length ↔ 64 ≤ status.length := by
    rw [List.length_append, length_cells, hlen]
    omega
  rw [receivePacket, parsePacket_of_framed h, hroute, Words.bind_ok]
  dsimp only
  rw [storePacket, decodeSpectrum_cells hk hpid2 hlen hcounts, Words.bind_ok]
  dsimp only
  rw [drop_cells hlen, Words.bind_ok]
  simp only [hroom, keptStatus]

theorem packets :
    (∀ (pid1 pid2 : UInt8) (data : List UInt8), data.length < 32768 →
      ∃ packet, packOut pid1 pid2 data = .ok packet ∧ ∀ trailing pin,
        parsePacketStatus (packet ++ trailing) pin =
            .ok (.ok (pid1, pid2, data), ⟨data.length, pid1, pid2⟩) ∧
          parsePacket (packet ++ trailing) pin =
            .ok (route pid1 pid2 data, ⟨data.length, pid1, pid2⟩)) ∧
    (∀ raw pin, ∃ packet pin', parsePacket raw pin = .ok (packet, pin') ∧
      ∀ data, packet.data? = some data →
        6 + data.length + 2 ≤ raw.length ∧ sum16 raw data.length = 0) ∧
    ∀ k ≤ 5, ∀ pid2 : UInt8, pid2.toNat = 2 * k + 1 ∨ pid2.toNat = 2 * k + 2 →
      ∀ counts : List Nat, counts.length = 256 * 2 ^ k → (∀ c ∈ counts, c < 2 ^ 24) →
      ∀ status : List UInt8,
        decodeSpectrum pid2 (cells counts ++ status) = .ok (256 * 2 ^ k, counts) ∧
        (cells counts ++ status).drop (256 * 2 ^ k * 3) = status ∧
        ((cells counts ++ status).length < 32768 → ∃ packet,
          packOut Pid1.rcvSpectrum pid2 (cells counts ++ status) = .ok packet ∧
          ∀ trailing r, receivePacket r (packet ++ trailing) =
            .ok (some (.spectrum pid2 (cells counts ++ status)),
              { pin := ⟨(cells counts ++ status).length, Pid1.rcvSpectrum, pid2⟩
                lastStatus := keptStatus r pid2 status
                spectrum := counts })) := by
  refine ⟨fun pid1 pid2 data h => ?_, fun raw pin => ?_, fun k hk pid2 hpid2 counts hlen hcounts
    status => ⟨decodeSpectrum_cells hk hpid2 hlen hcounts status, drop_cells hlen status,
      fun hshort => ?_⟩⟩
  · obtain ⟨packet, hpacket, hframed⟩ := framed_packOut (show data.length < 2 ^ 15 by omega) pid1 pid2
    exact ⟨packet, hpacket, fun trailing pin =>
      ⟨parsePacketStatus_of_framed (hframed trailing) pin,
        parsePacket_of_framed (hframed trailing) pin⟩⟩
  · obtain ⟨packet, pin', hparse, hframed⟩ := parsePacket_spec raw pin
    refine ⟨packet, pin', hparse, fun data hdata => ?_⟩
    obtain ⟨pid1, pid2, h⟩ := hframed data hdata
    exact ⟨h.length_le, h.sum16_eq_zero⟩
  · obtain ⟨packet, hpacket, hframed⟩ :=
      framed_packOut (show (cells counts ++ status).length < 2 ^ 15 by omega) Pid1.rcvSpectrum pid2
    exact ⟨packet, hpacket, fun trailing r =>
      receivePacket_spectrum hk hpid2 hlen hcounts (hframed trailing) r⟩

/-- A request of one byte, with bytes of the next packet behind it. -/
theorem packets_one : ∃ packet, packOut 0x20 0x02 [0x41] = .ok packet ∧
    parsePacketStatus (packet ++ [0xF5, 0xFA]) {} =
      .ok (.ok (0x20, 0x02, [0x41]), ⟨1, 0x20, 0x02⟩) := by
  obtain ⟨packet, hpacket, h⟩ := packets.1 0x20 0x02 [0x41] (by decide)
  exact ⟨packet, hpacket, (h [0xF5, 0xFA] {}).1⟩

end Mca.Amptek
