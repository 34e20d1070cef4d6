import EpicsIocs.Lib.Bytes

/-!
# CIP requests and replies (`cip.rs`)

Tag paths, the ReadData / WriteData / MultiRequest encoders with the size
formulas the driver budgets with, and the checks made on replies.  An encoder
of the source appends to its `out`; here it returns the bytes it appends.

    (encodePath tag).length = 2 * pathWords tag                    (length_encodePath)
    (encodeMultiRequest rs).length
      = multiRequestSize rs.length (Σ r ∈ rs, r.length)            (length_encodeMultiRequest)
    (encodeUnconnectedSend m slot).length = unconnectedSendSize m.length
-/

namespace EtherIp

open Bytes

/-! ## Types -/

/-- Abbreviated CIP type codes. -/
inductive CipType
  | bool | sint | int | uint | dint | lint | ulint | real | lreal
  | string | bits | struct
  | unknown (code : Nat)
deriving DecidableEq, Repr

namespace CipType

def fromCode : Nat → CipType
  | 0x00C1 => bool
  | 0x00C2 => sint
  | 0x00C3 => int
  | 0x00C7 => uint
  | 0x00C4 => dint
  | 0x00C5 => lint
  | 0x00C9 => ulint
  | 0x00CA => real
  | 0x00CB => lreal
  | 0x00D0 => string
  | 0x00D3 => bits
  | 0x02A0 => struct
  | other => unknown other

def code : CipType → Nat
  | bool => 0x00C1
  | sint => 0x00C2
  | int => 0x00C3
  | uint => 0x00C7
  | dint => 0x00C4
  | lint => 0x00C5
  | ulint => 0x00C9
  | real => 0x00CA
  | lreal => 0x00CB
  | string => 0x00D0
  | bits => 0x00D3
  | struct => 0x02A0
  | unknown c => c

/-- Byte size of one element; 0 for the types that have no fixed size. -/
def size : CipType → Nat
  | bool | sint => 1
  | int | uint => 2
  | dint | real | bits => 4
  | lint | ulint | lreal => 8
  | string | struct | unknown _ => 0

end CipType

def typecodeSize : Nat := 2
def structStringHandle : Nat := 0x0FCE

/-- Type code at the head of a raw tag data buffer. -/
def typecode (raw : List UInt8) : Option CipType := (rdNat? raw 0 2).map CipType.fromCode

/-! ## Tag paths -/

/-- A name (its UTF-8 bytes) or an array index. -/
inductive TagElement
  | name (n : List UInt8)
  | index (i : Nat)
deriving DecidableEq, Repr

/-- A tag string compiled into CIP path elements. -/
structure ParsedTag where
  elements : List TagElement := []
deriving DecidableEq, Repr

/-- Bytes of one encoded path segment. -/
def TagElement.bytes : TagElement → Nat
  | .name n => 2 + n.length + n.length % 2
  | .index i => if i ≤ 0xFF then 2 else if i ≤ 0xFFFF then 4 else 6

def TagElement.encode : TagElement → List UInt8
  | .name n => [0x91, UInt8.ofNat n.length] ++ n ++ (if n.length % 2 ≠ 0 then [0] else [])
  | .index i =>
    if i ≤ 0xFF then [0x28, UInt8.ofNat i]
    else if i ≤ 0xFFFF then [0x29, 0x00] ++ leBytes 2 i
    else [0x2A, 0x00] ++ leBytes 4 i

namespace ParsedTag

/-- Word size of the encoded path. -/
def pathWords (tag : ParsedTag) : Nat := (tag.elements.map TagElement.bytes).sum / 2

def encodePath (tag : ParsedTag) : List UInt8 := tag.elements.flatMap TagElement.encode

end ParsedTag

@[simp] theorem TagElement.length_encode (e : TagElement) : e.encode.length = e.bytes := by
  cases e with
  | name n =>
    simp only [TagElement.encode, TagElement.bytes]
    split <;> simp <;> omega
  | index i =>
    simp only [TagElement.encode, TagElement.bytes]
    split
    · rfl
    · split <;> simp

theorem TagElement.bytes_even (e : TagElement) : e.bytes % 2 = 0 := by
  cases e with
  | name n => simp only [TagElement.bytes]; omega
  | index i => simp only [TagElement.bytes]; split <;> [rfl; split <;> rfl]

/-- **The path size byte counts the path.** -/
theorem ParsedTag.length_encodePath (tag : ParsedTag) :
    tag.encodePath.length = 2 * tag.pathWords := by
  obtain ⟨es⟩ := tag
  have heven : (es.map TagElement.bytes).sum % 2 = 0 := by
    induction es with
    | nil => rfl
    | cons e es ih =>
      have := e.bytes_even
      simp only [List.map_cons, List.sum_cons]
      omega
  have hlen : (es.flatMap TagElement.encode).length = (es.map TagElement.bytes).sum := by
    simp [List.length_flatMap]
  simp only [ParsedTag.encodePath, ParsedTag.pathWords, hlen]
  omega

/-! ## Message router paths and sizes -/

/-- Word size of a Class/Instance/Attribute path; `attr = 0` means no attribute. -/
def ciaPathWords (instance_ attr : Nat) : Nat :=
  1 + (if instance_ > 0xFF then 2 else 1) + (if attr ≠ 0 then 1 else 0)

def encodeCiaPath (cls instance_ attr : Nat) : List UInt8 :=
  [0x20, UInt8.ofNat cls] ++
  (if instance_ > 0xFF then [0x25, 0x00] ++ leBytes 2 instance_
   else [0x24, UInt8.ofNat instance_]) ++
  (if attr ≠ 0 then [0x30, UInt8.ofNat attr] else [])

def mrRequestSize (pathWords : Nat) : Nat := 2 + pathWords * 2

theorem length_encodeCiaPath (cls instance_ attr : Nat) :
    (encodeCiaPath cls instance_ attr).length = ciaPathWords instance_ attr * 2 := by
  unfold encodeCiaPath ciaPathWords
  split <;> split <;> simp

/-! ## CM_Unconnected_Send -/

/-- The halving loop of `calc_tick_time`. -/
def tickLoop : (fuel ms tickTime : Nat) → Nat × Nat
  | 0, ms, tickTime => (tickTime, ms)
  | fuel + 1, ms, tickTime => if ms > 0xFF then tickLoop fuel (ms / 2) (tickTime + 1) else (tickTime, ms)

/-- A millisecond timeout as time per tick and tick count (a `u32` has at most 32 halvings). -/
def calcTickTime (millisec : Nat) : Option (Nat × Nat) :=
  if millisec > 8355840 then none else some (tickLoop 32 millisec 0)

/-- Total byte size of a CM_Unconnected_Send carrying `messageSize` bytes. -/
def unconnectedSendSize (messageSize : Nat) : Nat :=
  mrRequestSize (ciaPathWords 1 0) + 1 + 1 + 2 + messageSize + messageSize % 2 + 4

/-- `message` wrapped for the slot; the tick time is the fixed 245760 ms. -/
def encodeUnconnectedSend (message : List UInt8) (slot : UInt8) : List UInt8 :=
  let (tickTime, ticks) := (calcTickTime 245760).getD (0, 0)
  [0x52, UInt8.ofNat (ciaPathWords 1 0)] ++ encodeCiaPath 0x06 1 0 ++
  [UInt8.ofNat tickTime, UInt8.ofNat ticks] ++ leBytes 2 message.length ++ message ++
  (if message.length % 2 ≠ 0 then [0] else []) ++ [1, 0, 1, slot]

theorem length_encodeUnconnectedSend (message : List UInt8) (slot : UInt8) :
    (encodeUnconnectedSend message slot).length = unconnectedSendSize message.length := by
  unfold encodeUnconnectedSend unconnectedSendSize mrRequestSize
  simp only [List.length_append, length_encodeCiaPath, length_leBytes, List.length_cons,
    List.length_nil]
  split <;> simp [ciaPathWords] <;> omega

/-! ## ReadData and WriteData -/

def readDataSize (tag : ParsedTag) : Nat := 2 + 2 * tag.pathWords + 2

def encodeReadData (tag : ParsedTag) (elements : Nat) : List UInt8 :=
  [0x4C, UInt8.ofNat tag.pathWords] ++ tag.encodePath ++ leBytes 2 elements

def writeDataSize (tag : ParsedTag) (dataSize : Nat) : Nat := 2 + 2 * tag.pathWords + 4 + dataSize

/-- A write of an atomic type; a buffer too short for `elements` is filled with zeros. -/
def encodeWriteData (tag : ParsedTag) (cipType : CipType) (elements : Nat)
    (rawData : List UInt8) : List UInt8 :=
  let want := cipType.size * elements
  let n := min want rawData.length
  [0x4D, UInt8.ofNat tag.pathWords] ++ tag.encodePath ++ leBytes 2 cipType.code ++
    leBytes 2 elements ++ rawData.take n ++ List.replicate (want - n) 0

/-- Bytes in front of the text of a string write. -/
def writeStringHead (tag : ParsedTag) : Nat := 2 + 2 * tag.pathWords + 2 + 2 + 2 + 2 + 2

/-- Length of the text a string write carries: up to the first NUL, cut at the limit. -/
def writeStringLen (tag : ParsedTag) (rawData : List UInt8) (bufLimit : Nat) : Nat :=
  let len := (rawData.drop 6).findIdx (· == 0)
  if writeStringHead tag + len + 1 > bufLimit then bufLimit - (writeStringHead tag + 1) else len

/-- A write of a Logix STRING struct; `rawData` is `[handle][len][pad][chars..]`. -/
def encodeWriteString (tag : ParsedTag) (elements : Nat) (rawData : List UInt8)
    (bufLimit : Nat) : List UInt8 :=
  let text := rawData.drop 6
  let len := writeStringLen tag rawData bufLimit
  [0x4D, UInt8.ofNat tag.pathWords] ++ tag.encodePath ++ leBytes 2 CipType.struct.code ++
    leBytes 2 structStringHandle ++ leBytes 2 elements ++ leBytes 2 len ++ leBytes 2 0 ++
    text.take len ++ [0]

theorem length_encodeReadData (tag : ParsedTag) (elements : Nat) :
    (encodeReadData tag elements).length = readDataSize tag := by
  simp [encodeReadData, readDataSize, tag.length_encodePath]
  omega

theorem length_encodeWriteData (tag : ParsedTag) (ty : CipType) (elements : Nat)
    (raw : List UInt8) :
    (encodeWriteData tag ty elements raw).length = writeDataSize tag (ty.size * elements) := by
  simp [encodeWriteData, writeDataSize, tag.length_encodePath]
  omega

theorem writeStringLen_le (tag : ParsedTag) (raw : List UInt8) (limit : Nat) :
    writeStringLen tag raw limit ≤ (raw.drop 6).length := by
  have h : (raw.drop 6).findIdx (· == 0) ≤ (raw.drop 6).length := List.findIdx_le_length
  unfold writeStringLen
  simp only
  split <;> omega

theorem length_encodeWriteString (tag : ParsedTag) (elements : Nat) (raw : List UInt8)
    (limit : Nat) :
    (encodeWriteString tag elements raw limit).length =
      writeStringHead tag + writeStringLen tag raw limit + 1 := by
  have h := writeStringLen_le tag raw limit
  simp only [encodeWriteString, List.length_append, List.length_cons, List.length_nil,
    length_leBytes, tag.length_encodePath, List.length_take, Nat.min_eq_left h]
  unfold writeStringHead
  omega

/-! ## MultiRequest -/

/-- Byte size of a MultiRequest wrapping `count` requests of `requestsSize` bytes in all. -/
def multiRequestSize (count requestsSize : Nat) : Nat :=
  2 + ciaPathWords 1 0 * 2 + 2 + 2 * count + requestsSize

/-- Estimated byte size of the matching response. -/
def multiResponseSize (count responsesSize : Nat) : Nat := 4 + 2 + 2 * count + responsesSize

/-- The offset table: each request's distance from the `count` field. -/
def multiOffsets : (offset : Nat) → List (List UInt8) → List UInt8
  | _, [] => []
  | offset, r :: rs => leBytes 2 offset ++ multiOffsets (offset + r.length) rs

def encodeMultiRequest (requests : List (List UInt8)) : List UInt8 :=
  [0x0A, UInt8.ofNat (ciaPathWords 1 0)] ++ encodeCiaPath 0x02 1 0 ++
  leBytes 2 requests.length ++ multiOffsets ((requests.length + 1) * 2) requests ++
  requests.flatten

theorem length_multiOffsets (offset : Nat) (rs : List (List UInt8)) :
    (multiOffsets offset rs).length = 2 * rs.length := by
  induction rs generalizing offset with
  | nil => rfl
  | cons r rs ih => simp [multiOffsets, ih]; omega

/-- A raw MR_Response: service, general status, extended status words, and all its bytes. -/
structure MrResponse where
  service : UInt8
  generalStatus : UInt8
  extWords : UInt8
  raw : List UInt8

namespace MrResponse

def parse : List UInt8 → Option MrResponse
  | service :: reserved :: status :: ext :: rest =>
    some ⟨service, status, ext, service :: reserved :: status :: ext :: rest⟩
  | _ => none

/-- Offset of the data section: after the 4-byte header and the extended status words. -/
def dataOffset (r : MrResponse) : Nat := 4 + 2 * r.extWords.toNat

/-- The data section, given the true length of this response. -/
def data (r : MrResponse) (responseSize : Nat) : List UInt8 :=
  let stop := min responseSize r.raw.length
  if r.dataOffset ≥ stop then [] else (r.raw.take stop).drop r.dataOffset

def isOk (r : MrResponse) : Bool := r.generalStatus == 0

end MrResponse

/-- The data of a successful ReadData response. -/
def checkReadDataResponse (response : List UInt8) (responseSize : Nat) : Option (List UInt8) := do
  let r ← MrResponse.parse response
  if (r.service &&& 0x7F) ≠ 0x4C || !r.isOk then none else some (r.data responseSize)

def checkWriteDataResponse (response : List UInt8) : Bool :=
  match MrResponse.parse response with
  | some r => (r.service &&& 0x7F) == 0x4D && r.isOk
  | none => false

def checkMultiRequestResponse (response : List UInt8) : Bool :=
  match MrResponse.parse response with
  | some r => r.service == 0x0A ||| 0x80 && r.generalStatus == 0
  | none => false

/-- Sub-reply `replyNo` of a MultiRequest response. -/
def getMultiRequestResponse (response : List UInt8) (responseSize replyNo : Nat) :
    Option (List UInt8) := do
  let r ← MrResponse.parse response
  let base := r.dataOffset
  let count ← rdNat? response base 2
  if replyNo ≥ count then none
  else
    let offsets := base + 2
    let offset ← rdNat? response (offsets + 2 * replyNo) 2
    let start := base + offset
    let stop ← if replyNo + 1 < count then
        (rdNat? response (offsets + 2 * (replyNo + 1)) 2).map (base + ·)
      else some responseSize
    if start > stop || stop > response.length then none
    else some ((response.take stop).drop start)

end EtherIp
