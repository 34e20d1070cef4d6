import EpicsIocs.Lib.Bytes
import EpicsIocs.Lib.Fallible
import EpicsIocs.TimePix.FrameBuffer

/-! # The preview stream

`FrameDecoder` as `stream.rs` has it: `FrameBuffer` with the resolver of a
`jsonimage` or `jsonhisto` channel.  The JSON parser is a parameter, `fromSlice`; what
the headers are read for is modelled on its values.

A read is pushed and `next_frame` called until `None`.  `stream_chunk_invariant`:
however a stream of well-formed frames is cut into reads, each read gives the frames
it completes. -/

namespace TimePix

open Bytes Fallible Framing Machine

/-! ## Header values -/

inductive Number where
  | posInt (n : UInt64)
  | negInt (n : Int64)
  | float (x : Float)

inductive Json where
  | null
  | bool (b : Bool)
  | number (n : Number)
  | string (s : String)
  | array (items : List Json)
  | object (fields : List (String × Json))

namespace Number

def asI64 : Number → Option Int64
  | posInt n => if n.toNat < 2 ^ 63 then some n.toInt64 else none
  | negInt n => some n
  | float _ => none

def asU64 : Number → Option UInt64
  | posInt n => some n
  | negInt _ => none
  | float _ => none

def asF64 : Number → Float
  | posInt n => n.toFloat
  | negInt n => n.toFloat
  | float x => x

def isF64 : Number → Bool
  | float _ => true
  | _ => false

end Number

namespace Json

def get (header : Json) (key : String) : Option Json :=
  match header with
  | object fields => fields.lookup key
  | _ => none

def isObject : Json → Bool
  | object _ => true
  | _ => false

/-- An integer field; a value past `i64::MAX` is cast. -/
def integer (header : Json) (key : String) : Option Int64 :=
  match header.get key with
  | some (number n) => n.asI64.or (n.asU64.map UInt64.toInt64)
  | _ => none

def headerI64 (header : Json) (key : String) (default : Int64) : Int64 :=
  match header.get key with
  | some (number n) => n.asI64.getD n.asF64.toInt64
  | _ => default

def timeAtFrame (header : Json) : Float :=
  match header.get "timeAtFrame" with
  | some (number n) => n.asF64
  | _ => 0

def thresholdId (header : Json) : Int32 :=
  let field (key : String) : Option Int64 :=
    match header.get key with
    | some (number n) => if n.isF64 then none else n.asI64.or (n.asU64.map UInt64.toInt64)
    | _ => none
  ((field "thresholdID").or ((field "thresholdId").or (field "thresholdIndex"))).elim 0 Int64.toInt32

end Json

/-! ## Image headers -/

inductive PixelFormat where
  | uint8
  | uint16
  | uint32
  deriving DecidableEq, Repr

namespace PixelFormat

def fromBytes (bytes : Nat) : PixelFormat :=
  if bytes = 1 then uint8 else if bytes = 4 then uint32 else uint16

def bytes : PixelFormat → Nat
  | uint8 => 1
  | uint16 => 2
  | uint32 => 4

end PixelFormat

structure ImageLimits where
  maxDimension : Nat
  maxPixels : Nat
  maxPayloadBytes : Nat
  deriving DecidableEq, Repr

def supportedPixels : Nat := 8 * 256 * 256
def supportedDimension : Nat := 8 * 256

/-- The detector's sizes may tighten the supported limits, never widen them. -/
def ImageLimits.detector (maxSizeX maxSizeY pixCount : Int32) : ImageLimits :=
  if 0 < maxSizeX.toInt ∧ 0 < maxSizeY.toInt ∧ 0 < pixCount.toInt then
    let maxPixels := min pixCount.toInt.toNat supportedPixels
    { maxDimension := min (max maxSizeX.toInt maxSizeY.toInt).toNat supportedDimension
      maxPixels
      maxPayloadBytes := maxPixels * 4 }
  else
    { maxDimension := supportedDimension
      maxPixels := supportedPixels
      maxPayloadBytes := supportedPixels * 4 }

inductive ImageHeaderError where
  | missingField
  | invalidFieldType
  | invalidDimension
  | unsupportedPixelFormat
  | inconsistentPixelMetadata
  | pixelLimitExceeded
  | payloadLimitExceeded
  deriving DecidableEq, Repr

def ImageHeaderError.message : ImageHeaderError → String
  | missingField => "missing width or height"
  | invalidFieldType => "image layout metadata has the wrong JSON type"
  | invalidDimension => "image dimensions are non-positive or exceed detector limits"
  | unsupportedPixelFormat => "unsupported jsonimage pixel storage format"
  | inconsistentPixelMetadata => "pixelFormat, bitDepth, and dataSize disagree"
  | pixelLimitExceeded => "image pixel count exceeds detector limits"
  | payloadLimitExceeded => "image payload size exceeds detector limits"

structure ImageLayout where
  width : Nat
  height : Nat
  format : PixelFormat
  payloadBytes : Nat
  deriving DecidableEq, Repr

def ImageLimits.dimensionOk (limits : ImageLimits) (d : Int64) : Bool :=
  0 < d.toInt && d.toInt ≤ limits.maxDimension && d.toInt ≤ 2 ^ 31 - 1

/-- An optional field with an integer value. -/
def Json.optionalInteger (header : Json) (key : String) : Except ImageHeaderError (Option Int64) :=
  match header.get key with
  | none => .ok none
  | some _ => okOr ((header.integer key).map some) .invalidFieldType

def Json.pixelFormat (header : Json) : Except ImageHeaderError (Option String) :=
  match header.get "pixelFormat" with
  | none => .ok none
  | some (.string f) => .ok (some f)
  | some _ => .error .invalidFieldType

/-- The bytes a pixel has so far (0 for none) agree with `candidate`. -/
def merge (bytes candidate : Nat) : Except ImageHeaderError Nat :=
  if bytes ≠ 0 ∧ bytes ≠ candidate then .error .inconsistentPixelMetadata else .ok candidate

def mergeFormat (bytes : Nat) : Option String → Except ImageHeaderError Nat
  | none => .ok bytes
  | some f =>
    if f = "" then .ok bytes
    else if f = "uint8" ∨ f = "UINT8" then merge bytes 1
    else if f = "uint16" ∨ f = "UINT16" then merge bytes 2
    else if f = "uint32" ∨ f = "UINT32" then merge bytes 4
    else .error .unsupportedPixelFormat

def mergeBitDepth (bytes : Nat) : Option Int64 → Except ImageHeaderError Nat
  | none => .ok bytes
  | some depth =>
    if depth.toInt = 8 ∨ depth.toInt = 16 ∨ depth.toInt = 32 then merge bytes (depth.toInt.toNat / 8)
    else .error .unsupportedPixelFormat

def mergeDataSize (bytes pixels : Nat) (limits : ImageLimits) :
    Option Int64 → Except ImageHeaderError Nat
  | none => .ok bytes
  | some size =>
    if size.toInt ≤ 0 ∨ limits.maxPayloadBytes < size.toInt.toNat ∨ size.toInt.toNat % pixels ≠ 0 then
      .error .payloadLimitExceeded
    else
      let declared := size.toInt.toNat / pixels
      if declared = 1 ∨ declared = 2 ∨ declared = 4 then merge bytes declared
      else .error .unsupportedPixelFormat

def validateImageHeader (header : Json) (limits : ImageLimits) :
    Except ImageHeaderError ImageLayout := do
  require ((header.get "width").isSome && (header.get "height").isSome) .missingField
  let width ← okOr (header.integer "width") .invalidFieldType
  let height ← okOr (header.integer "height") .invalidFieldType
  let pixelFormat ← header.pixelFormat
  let dataSize ← header.optionalInteger "dataSize"
  let bitDepth ← header.optionalInteger "bitDepth"
  require (limits.dimensionOk width && limits.dimensionOk height) .invalidDimension
  let width := width.toInt.toNat
  let height := height.toInt.toNat
  let pixels ← okOr ((checkedMul width height).filter (· ≤ limits.maxPixels)) .pixelLimitExceeded
  let bytes ← mergeFormat 0 pixelFormat
  let bytes ← mergeBitDepth bytes bitDepth
  let bytes ← mergeDataSize bytes pixels limits dataSize
  -- `uint16` is the fallback for a header that says nothing.
  let bytes := if bytes = 0 then 2 else bytes
  let payloadBytes ←
    okOr ((checkedMul pixels bytes).filter (· ≤ limits.maxPayloadBytes)) .payloadLimitExceeded
  .ok { width, height, format := .fromBytes bytes, payloadBytes }

/-! ## Frames -/

structure ImageFrame where
  width : Nat
  height : Nat
  format : PixelFormat
  frameNumber : Int32
  timeAtFrame : Float
  thresholdId : Int32
  integrationSize : Int32
  pixels : List UInt32
  header : Json

structure HistogramFrame where
  binWidth : Int32
  binOffset : Int32
  frameNumber : Int32
  timeAtFrame : Float
  counts : List UInt32

inductive DecodedFrame where
  | image (frame : ImageFrame)
  | histogram (frame : HistogramFrame)

/-- A frame whose header is decoded and whose payload is still to come. -/
inductive Pending where
  | image (width height : Nat) (format : PixelFormat) (frameNumber : Int32) (timeAtFrame : Float)
      (thresholdId integrationSize : Int32)
  | histogram (binSize : Nat) (binWidth binOffset frameNumber : Int32) (timeAtFrame : Float)

def fromBe16 : List UInt8 → List UInt32
  | a :: b :: rest => UInt32.ofNat (a.toNat * 256 + b.toNat) :: fromBe16 rest
  | _ => []

def fromBe32 : List UInt8 → List UInt32
  | a :: b :: c :: d :: rest =>
    UInt32.ofNat (((a.toNat * 256 + b.toNat) * 256 + c.toNat) * 256 + d.toNat) :: fromBe32 rest
  | _ => []

def decodeBe (payload : List UInt8) : PixelFormat → List UInt32
  | .uint8 => payload.map fun b => UInt32.ofNat b.toNat
  | .uint16 => fromBe16 payload
  | .uint32 => fromBe32 payload

def Pending.finish (payload : List UInt8) (header : Json) : Pending → DecodedFrame
  | image width height format frameNumber timeAtFrame thresholdId integrationSize =>
    .image { width, height, format, frameNumber, timeAtFrame, thresholdId, integrationSize
             pixels := decodeBe payload format
             header }
  | histogram _ binWidth binOffset frameNumber timeAtFrame =>
    .histogram { binWidth, binOffset, frameNumber, timeAtFrame
                 counts := decodeBe payload .uint32 }

def imageHeader (header : Json) (limits : ImageLimits) : Except ImageHeaderError (Nat × Pending) :=
  match validateImageHeader header limits with
  | .error e => .error e
  | .ok layout =>
    .ok (layout.payloadBytes, .image layout.width layout.height layout.format
      (header.headerI64 "frameNumber" 0).toInt32 header.timeAtFrame header.thresholdId
      (header.headerI64 "integrationSize" 0).toInt32)

def maxBins : Nat := 1000000

def histogramHeader (header : Option Json) : Except String (Nat × Pending) :=
  match header.bind fun header => (header.get "binSize").map fun binSize => (header, binSize) with
  | some (header, .number n) =>
    if n.isF64 then .error "malformed jsonhisto header or invalid binSize"
    else
      match (n.asI64.filter (0 ≤ ·.toInt)).map (·.toInt.toNat) with
      | some binSize =>
        if 0 < binSize ∧ binSize ≤ maxBins then
          .ok (binSize * 4, .histogram binSize (header.headerI64 "binWidth" 0).toInt32
            (header.headerI64 "binOffset" 0).toInt32 (header.headerI64 "frameNumber" 0).toInt32
            header.timeAtFrame)
        else .error "binSize is outside the supported range"
      | none => .error "binSize is outside the supported range"
  | _ => .error "malformed jsonhisto header or invalid binSize"

/-! ## The decoder -/

inductive Channel where
  | image
  | histogram
  deriving DecidableEq, Repr

def maxBufferSize : Nat := 32768

/-- What the resolver keeps of a header: the frame to come, the value, and whether the
line handler finds its `{`. -/
structure Accepted where
  pending : Pending
  header : Json
  hasJson : Bool

structure FrameDecoder where
  channel : Channel
  buffer : FrameBuffer Accepted
  limits : ImageLimits

def openBrace : UInt8 := 123

/-- The first byte that is `{` or printable is `{`. -/
def lineHasJson (line : List UInt8) : Bool :=
  (line.find? fun b => b = openBrace || (32 ≤ b && b ≤ 126)).any (· = openBrace)

section

variable (fromSlice : List UInt8 → Option Json)

/-- `fromSlice` behind a byte order mark, if there is one. -/
def parseJson (text : List UInt8) : Option Json :=
  if [0xEF, 0xBB, 0xBF].isPrefixOf text then fromSlice (text.drop 3) else fromSlice text

def resolve (channel : Channel) (limits : ImageLimits) : Resolver Accepted := fun line =>
  let header := (parseJson fromSlice line).filter Json.isObject
  match channel with
  | .image =>
    match header with
    | none => .error "malformed or non-object jsonimage header"
    | some header =>
      match imageHeader header limits with
      | .error e => .error e.message
      | .ok (payload, pending) => .ok (payload, ⟨pending, header, lineHasJson line⟩)
  | .histogram =>
    match histogramHeader header with
    | .error message => .error message
    | .ok (payload, pending) => .ok (payload, ⟨pending, header.getD .null, lineHasJson line⟩)

namespace FrameDecoder

def maxPayload : Channel → Nat
  | .image => (ImageLimits.detector 0 0 0).maxPayloadBytes
  | .histogram => maxBins * 4

def new (channel : Channel) : FrameDecoder where
  channel
  buffer := .new maxBufferSize (maxPayload channel) maxBufferSize
  limits := .detector 0 0 0

def setImageLimits (d : FrameDecoder) (limits : ImageLimits) : FrameDecoder := { d with limits }

def push (d : FrameDecoder) (bytes : List UInt8) : Except FrameError FrameDecoder :=
  match d.buffer.append bytes with
  | .error e => .error e
  | .ok buffer => .ok { d with buffer }

def endOfStream (d : FrameDecoder) : EndOfStream := d.buffer.endOfStream

/-- The loop of `next_frame`, for at most `fuel` rounds: a frame whose line has no
`{` in front is dropped. -/
def nextLoop (d : FrameDecoder) : Nat → Except FrameError (Option DecodedFrame × FrameDecoder)
  | 0 => .ok (none, d)
  | fuel + 1 =>
    match d.buffer.next (resolve fromSlice d.channel d.limits) with
    | .error e => .error e
    | .ok (none, buffer) => .ok (none, { d with buffer })
    | .ok (some (accepted, payload), buffer) =>
      if accepted.hasJson then
        .ok (some (accepted.pending.finish payload accepted.header), { d with buffer })
      else nextLoop { d with buffer } fuel

/-- Each round takes bytes out of the buffer. -/
def nextFrame (d : FrameDecoder) : Except FrameError (Option DecodedFrame × FrameDecoder) :=
  d.nextLoop fromSlice (d.buffer.bytes.length + 1)

/-- `next_frame` until `None`, each time under the current limits; for at most `fuel`
frames. -/
def drain (limits : ImageLimits) (d : FrameDecoder) :
    Nat → Except FrameError (List DecodedFrame × FrameDecoder)
  | 0 => .ok ([], d)
  | fuel + 1 =>
    match (d.setImageLimits limits).nextFrame fromSlice with
    | .error e => .error e
    | .ok (none, d) => .ok ([], d)
    | .ok (some frame, d) =>
      match drain limits d fuel with
      | .error e => .error e
      | .ok (frames, d) => .ok (frame :: frames, d)

/-- One read of the socket: the bytes and the limits they are taken under. -/
structure Read where
  bytes : List UInt8
  limits : ImageLimits

/-- A read is pushed and the decoder drained. -/
def read (d : FrameDecoder) (r : Read) : Except FrameError (List DecodedFrame × FrameDecoder) :=
  match d.push r.bytes with
  | .error e => .error e
  | .ok d => d.drain fromSlice r.limits (d.buffer.bytes.length + 1)

end FrameDecoder

end

/-! ## Payloads -/

/-- The payload as big-endian numbers of `n` bytes. -/
def pixelValues (n : Nat) (payload : List UInt8) : List UInt32 :=
  (List.range (payload.length / n)).map fun i =>
    UInt32.ofNat (beNat ((payload.drop (i * n)).take n))

theorem pixelValues_short {n : Nat} {payload : List UInt8} (h : payload.length < n) :
    pixelValues n payload = [] := by
  simp [pixelValues, Nat.div_eq_of_lt h]

/-- The first number, and those behind its `n` bytes. -/
theorem pixelValues_append {n : Nat} (hn : 0 < n) {head : List UInt8} (hhead : head.length = n)
    (rest : List UInt8) :
    pixelValues n (head ++ rest) = UInt32.ofNat (beNat head) :: pixelValues n rest := by
  have hlen : (head ++ rest).length / n = rest.length / n + 1 := by
    rw [List.length_append, hhead, Nat.add_comm, Nat.add_div_right _ hn]
  unfold pixelValues
  rw [hlen, List.range_succ_eq_map, List.map_cons, List.map_map]
  have hfirst : ((head ++ rest).drop (0 * n)).take n = head := by
    rw [Nat.zero_mul, List.drop_zero, ← hhead, List.take_left]
  rw [hfirst]
  refine congrArg _ (List.map_congr_left fun i _ => ?_)
  have hdrop : (head ++ rest).drop ((i + 1) * n) = rest.drop (i * n) := by
    have hsum : (i + 1) * n = head.length + i * n := by rw [hhead, Nat.succ_mul, Nat.add_comm]
    rw [hsum, ← List.drop_drop, List.drop_left]
  show UInt32.ofNat (beNat (((head ++ rest).drop ((i + 1) * n)).take n)) = _
  rw [hdrop]

theorem decodeBe_eq (payload : List UInt8) (format : PixelFormat) :
    decodeBe payload format = pixelValues format.bytes payload := by
  cases format with
  | uint8 =>
    show payload.map (fun b => UInt32.ofNat b.toNat) = pixelValues 1 payload
    induction payload with
    | nil => rfl
    | cons b rest ih =>
      have hfirst := pixelValues_append (by decide) (show [b].length = 1 from rfl) rest
      rw [List.singleton_append] at hfirst
      rw [List.map_cons, hfirst, ih]
      simp [beNat]
  | uint16 =>
    show fromBe16 payload = pixelValues 2 payload
    induction payload using fromBe16.induct with
    | case1 a b rest ih =>
      have hfirst := pixelValues_append (by decide) (show [a, b].length = 2 from rfl) rest
      rw [fromBe16, ih]
      exact (hfirst.trans (by simp [beNat])).symm
    | case2 payload hshort =>
      have hlen : payload.length < 2 := by
        rcases payload with _ | ⟨a, _ | ⟨b, rest⟩⟩
        · simp
        · simp
        · exact (hshort a b rest rfl).elim
      rw [pixelValues_short hlen, fromBe16]
      exact hshort
  | uint32 =>
    show fromBe32 payload = pixelValues 4 payload
    induction payload using fromBe32.induct with
    | case1 a b c d rest ih =>
      have hfirst :=
        pixelValues_append (by decide) (show [a, b, c, d].length = 4 from rfl) rest
      rw [fromBe32, ih]
      exact (hfirst.trans (by simp [beNat])).symm
    | case2 payload hshort =>
      have hlen : payload.length < 4 := by
        rcases payload with _ | ⟨a, _ | ⟨b, _ | ⟨c, _ | ⟨d, rest⟩⟩⟩⟩
        · simp
        · simp
        · simp
        · simp
        · exact (hshort a b c d rest rfl).elim
      rw [pixelValues_short hlen, fromBe32]
      exact hshort

/-! ## Accepted headers -/

theorem detector_le (x y n : Int32) :
    (ImageLimits.detector x y n).maxPayloadBytes ≤ supportedPixels * 4 := by
  unfold ImageLimits.detector
  split
  · exact Nat.mul_le_mul_right 4 (Nat.min_le_right _ _)
  · exact Nat.le_refl _

/-- What a validated header declares fits the limits. -/
theorem validateImageHeader_le {header : Json} {limits : ImageLimits} {layout : ImageLayout}
    (h : validateImageHeader header limits = .ok layout) :
    layout.payloadBytes ≤ limits.maxPayloadBytes := by
  unfold validateImageHeader at h
  obtain ⟨-, -, h⟩ := bind_eq_ok.1 h
  obtain ⟨width, -, h⟩ := bind_eq_ok.1 h
  obtain ⟨height, -, h⟩ := bind_eq_ok.1 h
  obtain ⟨pixelFormat, -, h⟩ := bind_eq_ok.1 h
  obtain ⟨dataSize, -, h⟩ := bind_eq_ok.1 h
  obtain ⟨bitDepth, -, h⟩ := bind_eq_ok.1 h
  obtain ⟨-, -, h⟩ := bind_eq_ok.1 h
  obtain ⟨pixels, -, h⟩ := bind_eq_ok.1 h
  obtain ⟨bytes, -, h⟩ := bind_eq_ok.1 h
  obtain ⟨bytes, -, h⟩ := bind_eq_ok.1 h
  obtain ⟨bytes, -, h⟩ := bind_eq_ok.1 h
  obtain ⟨payloadBytes, hpayload, h⟩ := bind_eq_ok.1 h
  cases h
  have := (Option.filter_eq_some_iff.1 (okOr_eq_ok.1 hpayload)).2
  simpa using this

section

variable {fromSlice : List UInt8 → Option Json} {channel : Channel}

theorem resolve_le {limits : ImageLimits} (hlimits : limits.maxPayloadBytes ≤ supportedPixels * 4)
    {line : List UInt8} {payload : Nat} {accepted : Accepted}
    (h : resolve fromSlice channel limits line = .ok (payload, accepted)) :
    payload ≤ FrameDecoder.maxPayload channel := by
  cases channel with
  | image =>
    simp only [resolve] at h
    split at h
    · cases h
    · unfold imageHeader at h
      split at h
      · cases h
      · rename_i hvalidate
        split at hvalidate
        · cases hvalidate
        · rename_i layout hlayout
          cases hvalidate
          cases h
          exact Nat.le_trans (validateImageHeader_le hlayout) hlimits
  | histogram =>
    simp only [resolve] at h
    split at h
    · cases h
    · rename_i hheader
      cases h
      unfold histogramHeader at hheader
      split at hheader
      · split at hheader
        · cases hheader
        · split at hheader
          · split at hheader
            · rename_i hbins
              cases hheader
              exact Nat.mul_le_mul_right 4 hbins.2
            · cases hheader
          · cases hheader
      · cases hheader

theorem lineHasJson_of_head {line : List UInt8} (h : line.head? = some openBrace) :
    lineHasJson line = true := by
  obtain ⟨b, rest, rfl⟩ := List.exists_cons_of_ne_nil (l := line) (by rintro rfl; cases h)
  cases h
  rfl

end

end TimePix
