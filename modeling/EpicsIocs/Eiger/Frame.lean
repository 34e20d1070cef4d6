import EpicsIocs.TimePix.Stream
import EpicsIocs.Eiger.Checked
import EpicsIocs.Eiger.RoundTrip

/-! # Frames of both stream interfaces

`decode_message` of `stream.rs` (version 1, JSON headers and a blob) and `Stream2Api` of
`stream2.rs` (version 2, one CBOR message): a frame is written into an array from a pool,
decompressed or passed on with a codec.  The JSON parser, the LZ4 library and the pool are
parameters.  `checks` says whether the build checks for overflow. -/

namespace Eiger

open Faults Fallible Machine

/-! ## Arrays -/

inductive DataType where
  | int8
  | uint8
  | int16
  | uint16
  | int32
  | uint32
  deriving DecidableEq, Repr

def DataType.elementSize : DataType → Nat
  | int8 => 1
  | uint8 => 1
  | int16 => 2
  | uint16 => 2
  | int32 => 4
  | uint32 => 4

/-- The type a frame is allocated as. -/
def frameType (dataType : DataType) (signed : Bool) : DataType :=
  match dataType, signed with
  | .uint8, true => .int8
  | .uint16, true => .int16
  | .uint32, true => .int32
  | other, _ => other

inductive CodecName where
  | lz4
  | bslz4
  | lz4hdf5
  deriving DecidableEq, Repr

def CodecName.debug : CodecName → String
  | lz4 => "LZ4"
  | bslz4 => "BSLZ4"
  | lz4hdf5 => "LZ4HDF5"

structure Codec where
  name : CodecName
  compressedSize : Nat
  level : Nat := 0
  shuffle : Nat := 0
  compressor : Nat := 0
  originalDataType : DataType
  deriving DecidableEq, Repr

/-- An array from the pool, filled.  A little-endian host leaves the pixels as they are. -/
structure FrameArray where
  dims : Nat × Nat
  dataType : DataType
  data : List UInt8
  codec : Option Codec := none
  deriving DecidableEq, Repr

/-- The buffers the pool has, with what was in them, or `none`. -/
structure Pool where
  alloc : Nat × Nat → DataType → Option (List UInt8)
  allocSized : Nat × Nat → DataType → Nat → Option (List UInt8)

/-- The bytes that dimensions and an element size multiply out to. -/
def sizeOf (dims : Nat × Nat) (elemSize : Nat) : Nat := dims.1 * dims.2 * elemSize

/-- `alloc` sizes an array by its dimensions, where they can be multiplied, and
`alloc_sized` by the bytes asked for. -/
structure Pool.Lawful (pool : Pool) : Prop where
  length_alloc {dims : Nat × Nat} {t : DataType} {out : List UInt8} :
    pool.alloc dims t = some out → sizeOf dims t.elementSize ≤ u64Max →
      out.length = sizeOf dims t.elementSize
  length_allocSized {dims : Nat × Nat} {t : DataType} {n : Nat} {out : List UInt8} :
    pool.allocSized dims t n = some out → out.length = n
  alloc_le {dims : Nat × Nat} {t : DataType} {out : List UInt8} :
    pool.alloc dims t = some out → out.length ≤ isizeMax
  allocSized_le {dims : Nat × Nat} {t : DataType} {n : Nat} {out : List UInt8} :
    pool.allocSized dims t n = some out → out.length ≤ isizeMax

/-! ## Stream version 1 -/

inductive StreamError where
  | wrongHtype (htype : String)
  | decode (text : String)
  | noArray (frame : Nat)
  deriving DecidableEq, Repr

inductive StreamMessage where
  | header (series : Nat)
  | image (series frame : Nat) (array : FrameArray)
  | «end»
  deriving DecidableEq, Repr

def asStr : TimePix.Json → Option String
  | .string s => some s
  | _ => none

def asArray : TimePix.Json → Option (List TimePix.Json)
  | .array items => some items
  | _ => none

def asU64 : TimePix.Json → Option Nat
  | .number n => n.asU64.map UInt64.toNat
  | _ => none

def startsWith (s start : String) : Bool := start.toList.isPrefixOf s.toList

def dataTypeOf (name : String) : Except StreamError DataType :=
  if startsWith name "uint32" then .ok .uint32
  else if startsWith name "uint16" then .ok .uint16
  else if startsWith name "uint8" then .ok .uint8
  else .error (.decode ("unknown dataType " ++ name))

def codecOf (encoding : String) : Except StreamError (Option CodecName) :=
  if encoding = "<" then .ok none
  else if encoding = "lz4<" then .ok (some .lz4)
  else if encoding = "bs32-lz4<" ∨ encoding = "bs16-lz4<" ∨ encoding = "bs8-lz4<" then
    .ok (some .bslz4)
  else .error (.decode ("unknown encoding " ++ encoding))

/-- What the second part says of the blob. -/
structure ImageHeader where
  dims : Nat × Nat
  dataType : DataType
  codec : Option CodecName
  deriving DecidableEq, Repr

section
variable (fromSlice : List UInt8 → Except String TimePix.Json)

def parseJson (what : String) (part : List UInt8) : Except StreamError TimePix.Json :=
  (fromSlice part).mapError fun e => .decode ("failed to parse " ++ what ++ ": " ++ e)

def htypeOf (part : List UInt8) : Except StreamError String :=
  (parseJson fromSlice "JSON header" part).bind fun v =>
    okOr ((v.get "htype").bind asStr) (.decode "no 'htype' in stream message")

def jsonU64 (v : TimePix.Json) (key : String) : Except StreamError Nat :=
  okOr ((v.get key).bind asU64) (.decode ("unable to read '" ++ key ++ "' token"))

def shapeOf (v : TimePix.Json) : Except StreamError (Nat × Nat) :=
  (okOr ((v.get "shape").bind asArray) (.decode "unable to read 'shape' token")).bind fun shape =>
    match shape with
    | first :: second :: _ =>
      (okOr (asU64 first) (.decode "shape[0] is not a number")).bind fun width =>
        (okOr (asU64 second) (.decode "shape[1] is not a number")).map fun height =>
          (width, height)
    | short => .error (.decode ("'shape' has " ++ toString short.length ++ " entries, need 2"))

/-- The first half of `decode_image`. -/
def imageHeader (shapePart : List UInt8) : Except StreamError ImageHeader :=
  (parseJson fromSlice "image shape JSON" shapePart).bind fun v =>
    (shapeOf v).bind fun dims =>
      (okOr ((v.get "type").bind asStr) (.decode "unable to read 'type' token")).bind fun name =>
        (dataTypeOf name).bind fun dataType =>
          (okOr ((v.get "encoding").bind asStr)
            (.decode "unable to read 'encoding' token")).bind fun encoding =>
              (codecOf encoding).map fun codec => ⟨dims, dataType, codec⟩

variable (checks : Bool) (lz4 : Lz4)

/-- The array for the pixels. -/
def pixels (h : ImageHeader) (signed : Bool) (pool : Pool) (frame : Nat) :
    Outcome StreamError (List UInt8) :=
  get (pool.alloc h.dims (frameType h.dataType signed)) (.noArray frame)

/-- The blob decompressed into `out`. -/
def decompressInto (h : ImageHeader) (name : CodecName) (blob : List UInt8) (uncompressed : Nat)
    (out : List UInt8) : Outcome StreamError (List UInt8) :=
  if name = .lz4 then
    match lz4.decompress blob out.length with
    | .error e => fail (.decode ("LZ4 decompress failed: " ++ e))
    | .ok bytes =>
      if bytes.length ≠ uncompressed then
        fail (.decode ("decompressed to " ++ toString bytes.length ++ " bytes, expected " ++
          toString uncompressed))
      else .ok (bytes ++ out.drop bytes.length)
  else
    (Checked.decodeWithHeaderInto checks lz4 blob h.dataType.elementSize out).mapError
      (Fault.map fun e => .decode e.display)

/-- The compressed bytes with a codec attached. -/
def passThrough (h : ImageHeader) (name : CodecName) (blob : List UInt8) (signed : Bool)
    (pool : Pool) (frame : Nat) : Outcome StreamError FrameArray :=
  (if name = .bslz4 then
    if blob.length < headerLen then fail (.decode "bslz4 payload shorter than its header")
    else .ok (blob.drop headerLen)
  else .ok blob).bind fun payload =>
    let codec : Codec :=
      { name, compressedSize := payload.length, originalDataType := frameType h.dataType signed }
    (get (pool.allocSized h.dims .uint8 payload.length) (.noArray frame)).bind fun out =>
      (copyFromSlice out payload).map fun data => ⟨h.dims, .uint8, data, some codec⟩

/-- The second half of `decode_image`. -/
def decodeBlob (h : ImageHeader) (blob : List UInt8) (decompress signed : Bool) (pool : Pool)
    (frame : Nat) : Outcome StreamError FrameArray :=
  (get (checkedMul h.dims.1 h.dims.2) (.decode "frame dimensions overflow")).bind fun nElems =>
    (mul checks nElems h.dataType.elementSize).bind fun uncompressed =>
      match h.codec with
      | none =>
        if blob.length < uncompressed then
          fail (.decode ("uncompressed frame is " ++ toString blob.length ++
            " bytes, expected " ++ toString uncompressed))
        else
          (pixels h signed pool frame).bind fun out =>
            (slice blob 0 uncompressed).bind fun src =>
              (copyFromSlice out src).map fun data =>
                { dims := h.dims, dataType := frameType h.dataType signed, data }
      | some name =>
        if decompress then
          if ¬(name = .lz4 ∨ name = .bslz4) then
            fail (.decode ("unhandled codec " ++ name.debug))
          else
            (pixels h signed pool frame).bind fun out =>
              (decompressInto checks lz4 h name blob uncompressed out).map fun data =>
                { dims := h.dims, dataType := frameType h.dataType signed, data }
        else passThrough h name blob signed pool frame

def decodeImage (shapePart blob : List UInt8) (decompress signed : Bool) (pool : Pool)
    (frame : Nat) : Outcome StreamError FrameArray :=
  (lift (imageHeader fromSlice shapePart)).bind fun h =>
    decodeBlob checks lz4 h blob decompress signed pool frame

def dheaderSeries (first : List UInt8) : Except StreamError Nat :=
  (parseJson fromSlice "dheader" first).bind fun v => jsonU64 v "series"

def decodeMessage (parts : List (List UInt8)) (decompress signed : Bool) (pool : Pool) :
    Outcome StreamError StreamMessage :=
  match parts with
  | [] => fail (.decode "empty zmq message")
  | first :: rest =>
    (lift (htypeOf fromSlice first)).bind fun htype =>
      if startsWith htype "dseries_end" then .ok .end
      else if startsWith htype "dheader" then (lift (dheaderSeries fromSlice first)).map .header
      else if startsWith htype "dimage" then
        match rest with
        | shapePart :: blob :: _ =>
          (lift (parseJson fromSlice "dimage header" first)).bind fun v =>
            (lift (jsonU64 v "series")).bind fun series =>
              (lift (jsonU64 v "frame")).bind fun frame =>
                (decodeImage fromSlice checks lz4 shapePart blob decompress signed pool frame).map
                  fun array => .image series frame array
        | _ => fail (.decode ("dimage message has " ++ toString parts.length ++
            " parts, need at least 3"))
      else fail (.wrongHtype htype)

end

/-! ## Stream version 2 -/

inductive Stream2Error where
  | error
  | parse (e : ParseError)
  deriving DecidableEq, Repr

/-- What a `Stream2Api` keeps of the messages: the thresholds of the last start message, and
the image whose channels are being read. -/
structure Stream2Api where
  thresholdEnergy : List (String × Ieee.Number) := []
  image : Option (List UInt8 × ImageMsg) := none
  deriving DecidableEq, Repr

/-- What `wait_frame` saw. -/
inductive Seen where
  | image (channels : Nat)
  | «end»
  deriving DecidableEq, Repr

namespace Stream2Api

def getHeader (api : Stream2Api) (buf : List UInt8) : Except Stream2Error Stream2Api :=
  match parseMsg buf with
  | .error e => .error (.parse e)
  | .ok (.start sm) => .ok { api with thresholdEnergy := sm.thresholdEnergy }
  | .ok _ => .error .error

def waitFrame (api : Stream2Api) (buf : List UInt8) : Except Stream2Error (Seen × Stream2Api) :=
  match parseMsg buf with
  | .error e => .error (.parse e)
  | .ok (.image im) => .ok (.image im.data.length, { api with image := some (buf, im) })
  | .ok .end => .ok (.end, api)
  | .ok (.start _) => .error .error

section
variable (checks : Bool) (lz4 : Lz4)

def dataTypeOfTag (tag : Nat) : Except (Option Reported) DataType :=
  if tag = typedArrayUint8 then .ok .uint8
  else if tag = typedArrayUint16LittleEndian then .ok .uint16
  else if tag = typedArrayUint32LittleEndian then .ok .uint32
  else .error (some ⟨"getFrame", "unknown dataType " ++ toString tag⟩)

def refused : Option Reported := some ⟨"getFrame", "failed to allocate NDArray for frame"⟩

/-- The compressed bytes with a codec attached. -/
def passThrough (dims : Nat × Nat) (c : Compression) (dataType : DataType) (blob : List UInt8)
    (signed : Bool) (pool : Pool) : Outcome (Option Reported) FrameArray :=
  (if c.algorithm = "lz4" then .ok (.lz4hdf5, blob)
    else (slice blob headerLen blob.length).map fun payload =>
      (.bslz4, payload)).bind fun (name, payload) =>
        let codec : Codec :=
          { name, compressedSize := payload.length, originalDataType := frameType dataType signed }
        (get (pool.allocSized dims .uint8 payload.length) refused).bind fun out =>
          (copyFromSlice out payload).map fun data => ⟨dims, .uint8, data, some codec⟩

/-- The bytes that the pixels take. -/
def decodedSize (compression : Option Compression) (blob : List UInt8) : Nat :=
  match compression with
  | none => blob.length
  | some c => c.origSize

/-- The pixels, decompressed if they are not. -/
def fill (dims : Nat × Nat) (compression : Option Compression) (dataType : DataType)
    (blob : List UInt8) (signed : Bool) (pool : Pool) : Outcome (Option Reported) FrameArray :=
  (get (pool.allocSized dims (frameType dataType signed) (decodedSize compression blob))
    refused).bind fun out =>
    (match compression with
      | none => copyFromSlice out blob
      | some c => (Checked.uncompress checks lz4 blob dataType.elementSize c.algorithm out).mapError
          (Fault.map some)).map fun data =>
            { dims, dataType := frameType dataType signed, data }

/-- The array of `frame`, without the timestamp and the threshold that go with it.  `none` is
a failure that prints nothing. -/
def frame (api : Stream2Api) (thresh : Nat) (decompress signed : Bool) (pool : Pool) :
    Outcome (Option Reported) FrameArray :=
  match api.image with
  | none => fail none
  | some (buf, im) =>
    match im.data[thresh]? with
    | none => fail none
    | some d =>
      let sid := d.data
      let dims := (sid.dim.2, sid.dim.1)
      (lift (dataTypeOfTag sid.tag)).bind fun dataType =>
        (slice buf sid.bytes.start sid.bytes.stop).bind fun blob =>
          match sid.compression, decompress with
          | some c, false => passThrough dims c dataType blob signed pool
          | compression, _ => fill checks lz4 dims compression dataType blob signed pool

/-- The image is released behind its last channel.  The caller counts the channels up. -/
def getFrame (api : Stream2Api) (thresh : Nat) (decompress signed : Bool) (pool : Pool) :
    Outcome (Option Reported) FrameArray × Stream2Api :=
  (api.frame checks lz4 thresh decompress signed pool,
    match api.image with
    | some (_, im) => if im.data.length ≤ thresh + 1 then { api with image := none } else api
    | none => api)

end

end Stream2Api

end Eiger
