import EpicsIocs.Eiger.Reader

/-! # The messages of stream version 2

The start, image and end messages of `stream2.rs`: one map, its first entry the type of the
message.  `msgFields` walks a map entry by entry; what is behind a key is read by the
message's own function, or skipped if the key is not known. -/

namespace Eiger

open Cbor Fallible Ieee Machine Reader

structure Compression where
  algorithm : String
  elemSize : Nat
  origSize : Nat
  deriving DecidableEq, Repr

/-- `dim` is rows and columns, `bytes` where the array is in the message. -/
structure MultidimArray where
  dim : Nat × Nat
  tag : Nat
  bytes : Range
  compression : Option Compression
  deriving DecidableEq, Repr

/-- One channel of an image message. -/
structure ImageData where
  channel : String
  data : MultidimArray
  deriving DecidableEq, Repr

/-- The energies of the thresholds, in map order. -/
structure StartMsg where
  thresholdEnergy : List (String × Number) := []
  deriving DecidableEq, Repr

structure ImageMsg where
  seriesDate : Option String := none
  startTime : Nat × Nat := (0, 0)
  data : List ImageData := []
  deriving DecidableEq, Repr

inductive Msg where
  | start (msg : StartMsg)
  | image (msg : ImageMsg)
  | «end»
  deriving DecidableEq, Repr

def multiDimensionalArrayRowMajor : Nat := 40
def dectrisCompressionTag : Nat := 56500
def typedArrayUint8 : Nat := 64
def typedArrayUint16LittleEndian : Nat := 69
def typedArrayUint32LittleEndian : Nat := 70

def typedArrayElemSize (tag : Nat) : PResult Nat :=
  if 64 ≤ tag ∧ tag ≤ 87 then
    let f := (tag >>> 4) &&& 1
    let ll := tag &&& 3
    .ok (1 <<< (f + ll))
  else .error .notImplemented

variable {buf : List UInt8}

/-- The same value so many times. -/
def times {α : Type} (op : Reader buf → PResult (α × Reader buf)) :
    Nat → Reader buf → PResult (List α × Reader buf)
  | 0, r => .ok ([], r)
  | n + 1, r => (op r).bind fun (a, r) => (times op n r).map fun (as, r) => (a :: as, r)

/-! ## Arrays -/

/-- Entered at its tag. -/
def dectrisCompression (r : Reader buf) : PResult ((Compression × Range) × Reader buf) :=
  r.tag.bind fun (tag, r) =>
    if tag ≠ dectrisCompressionTag then .error .parse
    else (r.enterCounted majorArray).bind fun (n, r) =>
      if n ≠ 3 then .error .parse
      else r.text.bind fun (algorithm, r) =>
        r.uint64.bind fun (elemSize, r) =>
          r.byteRange.bind fun (bytes, r) =>
            if algorithm = "bslz4" ∨ algorithm = "lz4" then
              if bytes.len < 12 then .error .decode
              else
                let origSize := Bytes.beNat ((buf.drop bytes.start).take 8)
                .ok ((⟨algorithm, elemSize, origSize⟩, bytes), r)
            else .error .notImplemented

def bytesOf (r : Reader buf) : PResult ((Option Compression × Range) × Reader buf) :=
  r.major.bind fun m =>
    if m = majorTag then
      r.tag.bind fun (tag, _) =>
        if tag ≠ dectrisCompressionTag then .error .parse
        else (dectrisCompression r).map fun ((c, b), r) => ((some c, b), r)
    else r.byteRange.map fun (b, r) => ((none, b), r)

/-- The bytes that the elements take once they are decompressed. -/
def pixelBytes (compression : Option Compression) (bytes : Range) : Nat :=
  match compression with
  | none => bytes.len
  | some c => c.origSize

structure TypedArray where
  tag : Nat
  compression : Option Compression
  bytes : Range
  len : Nat
  deriving DecidableEq, Repr

def typedArray (r : Reader buf) : PResult (TypedArray × Reader buf) :=
  r.tag.bind fun (tag, r) =>
    (bytesOf r).bind fun ((compression, bytes), r) =>
      (typedArrayElemSize tag).bind fun elemSize =>
        let size := pixelBytes compression bytes
        if size % elemSize ≠ 0 then .error .parse
        else .ok (⟨tag, compression, bytes, size / elemSize⟩, r)

def wrappingMul (a b : Nat) : Nat := a * b % 2 ^ 64

def multidimArray (r : Reader buf) : PResult (MultidimArray × Reader buf) :=
  r.tag.bind fun (tag, r) =>
    if tag ≠ multiDimensionalArrayRowMajor then .error .parse
    else (r.enterCounted majorArray).bind fun (n, r) =>
      if n ≠ 2 then .error .parse
      else r.array2Uint64.bind fun (dim, r) =>
        (typedArray r).bind fun (a, r) =>
          if wrappingMul dim.1 dim.2 ≠ a.len then .error .parse
          else .ok (⟨dim, a.tag, a.bytes, a.compression⟩, r)

def channelArray (r : Reader buf) : PResult (ImageData × Reader buf) :=
  r.text.bind fun (channel, r) => (multidimArray r).map fun (data, r) => (⟨channel, data⟩, r)

def channelArrays (r : Reader buf) : PResult (List ImageData × Reader buf) :=
  (r.enterCounted majorMap).bind fun (n, r) => times channelArray n r

/-! ## Maps -/

/-- What a message does with a key: whether it took the value, and the message with it. -/
abbrev FieldReader (M : Type) (buf : List UInt8) : Type :=
  List UInt8 → M → Reader buf → PResult (Bool × M × Reader buf)

section
variable {M : Type}

/-- The value behind a key, skipped if the message does not take it. -/
def fieldValue (f : FieldReader M buf) (key : List UInt8) (m : M) (r : Reader buf) :
    PResult (M × Reader buf) :=
  (f key m r).bind fun (taken, m, r) => if taken then .ok (m, r) else r.skip.map fun r => (m, r)

/-- A key that is too long is still unread.  It is then what is skipped as the value, and
the value is read as the next key. -/
def keyOrEmpty (key : Option (List UInt8)) (remaining : Len) : List UInt8 × Len :=
  match key, remaining with
  | some key, remaining => (key, remaining)
  | none, .definite n => ([], .definite (n + 1))
  | none, .indefinite => ([], .indefinite)

/-- One entry, `remaining` what is left behind its key. -/
def msgField (keepTag : List UInt8 → Bool) (f : FieldReader M buf) (remaining : Len) (m : M)
    (r : Reader buf) : PResult ((M × Len) × Reader buf) :=
  r.key.bind fun (key, r) =>
    let (key, remaining) := keyOrEmpty key remaining
    (if keepTag key then .ok r else r.skipTags).bind fun r =>
      (r.more remaining).bind fun ((again, remaining), r) =>
        if ¬again then .error .decode
        else (fieldValue f key m r).map fun (m, r) => ((m, remaining), r)

/-- The entries of a map already entered.  An entry is two items, which are counted one by
one. -/
def msgFields (keepTag : List UInt8 → Bool) (f : FieldReader M buf) :
    Nat → Len → M → Reader buf → PResult (M × Reader buf)
  | 0, _, _, _ => .error .decode
  | fuel + 1, remaining, m, r =>
    (r.more remaining).bind fun ((again, remaining), r) =>
      if ¬again then .ok (m, r)
      else (msgField keepTag f remaining m r).bind fun ((m, remaining), r) =>
        msgFields keepTag f fuel remaining m r

def fields (keepTag : List UInt8 → Bool) (f : FieldReader M buf) (m : M) (r : Reader buf) :
    PResult (M × Reader buf) :=
  (r.enter majorMap).bind fun (len, r) => msgFields keepTag f buf.length len m r

end

/-- A value that leaves the message as it is. -/
def ignored {α M : Type} (m : M) (value : PResult (α × Reader buf)) :
    PResult (Bool × M × Reader buf) :=
  value.map fun (_, r) => (true, m, r)

def noTag (_ : List UInt8) : Bool := false

def axisKeys : List (List UInt8) := ["increment", "start"].map utf8

def axisField : FieldReader Unit buf := fun key m r =>
  if key ∈ axisKeys then ignored m r.double else .ok (false, m, r)

def goniometerAxis (r : Reader buf) : PResult (Unit × Reader buf) := fields noTag axisField () r

def goniometerKeys : List (List UInt8) := ["chi", "kappa", "omega", "phi", "two_theta"].map utf8

def goniometerField : FieldReader Unit buf := fun key m r =>
  if key ∈ goniometerKeys then ignored m (goniometerAxis r) else .ok (false, m, r)

/-! ## Messages -/

/-- What is behind the keys of a start message. -/
inductive StartKind where
  | uint
  | text
  | double
  | bool
  | channels
  | lookupTable
  | translation
  | arrays
  | goniometer
  | thresholdEnergy
  | userData
  deriving DecidableEq, Repr

def lookupTableKey : List UInt8 := utf8 "countrate_correction_lookup_table"

def startKind (key : List UInt8) : Option StartKind :=
  if key ∈ ["series_id", "image_size_x", "image_size_y", "number_of_images",
      "saturation_value"].map utf8 then some .uint
  else if key ∈ ["series_unique_id", "arm_date", "detector_description",
      "detector_serial_number", "image_dtype", "sensor_material"].map utf8 then some .text
  else if key ∈ ["beam_center_x", "beam_center_y", "count_time", "frame_time", "incident_energy",
      "incident_wavelength", "pixel_size_x", "pixel_size_y", "sensor_thickness"].map utf8 then
    some .double
  else if key ∈ ["countrate_correction_enabled", "flatfield_enabled", "pixel_mask_enabled",
      "virtual_pixel_interpolation_enabled"].map utf8 then some .bool
  else if key = utf8 "channels" then some .channels
  else if key = lookupTableKey then some .lookupTable
  else if key = utf8 "detector_translation" then some .translation
  else if key ∈ ["flatfield", "pixel_mask"].map utf8 then some .arrays
  else if key = utf8 "goniometer" then some .goniometer
  else if key = utf8 "threshold_energy" then some .thresholdEnergy
  else if key = utf8 "user_data" then some .userData
  else none

def energy (r : Reader buf) : PResult ((String × Number) × Reader buf) :=
  r.text.bind fun (channel, r) => r.double.map fun (energy, r) => ((channel, energy), r)

def channels (r : Reader buf) : PResult (List String × Reader buf) :=
  (r.enterCounted majorArray).bind fun (n, r) => times Reader.text n r

def translation (r : Reader buf) : PResult (List Number × Reader buf) :=
  (r.enterCounted majorArray).bind fun (n, r) =>
    if n ≠ 3 then .error .parse else times Reader.double 3 r

def thresholdEnergies (r : Reader buf) : PResult (List (String × Number) × Reader buf) :=
  (r.enterCounted majorMap).bind fun (n, r) => times energy n r

def startField : FieldReader StartMsg buf := fun key m r =>
  match startKind key with
  | some .uint => ignored m r.uint64
  | some .text => ignored m r.text
  | some .double => ignored m r.double
  | some .bool => ignored m r.bool
  | some .channels => ignored m (channels r)
  | some .lookupTable => ignored m (typedArray r)
  | some .translation => ignored m (translation r)
  | some .arrays => ignored m (channelArrays r)
  | some .goniometer => ignored m (fields noTag goniometerField () r)
  | some .thresholdEnergy =>
    (thresholdEnergies r).map fun (energies, r) =>
      (true, { m with thresholdEnergy := m.thresholdEnergy ++ energies }, r)
  | some .userData => r.skip.map fun r => (true, m, r)
  | none => .ok (false, m, r)

def startMsg (top : Len) (r : Reader buf) : PResult (StartMsg × Reader buf) :=
  msgFields (fun key => key = lookupTableKey) startField buf.length top {} r

/-- What is behind the keys of an image message. -/
inductive ImageKind where
  | uint
  | text
  | time
  | seriesDate
  | startTime
  | userData
  | data
  deriving DecidableEq, Repr

def imageKind (key : List UInt8) : Option ImageKind :=
  if key ∈ ["series_id", "image_id"].map utf8 then some .uint
  else if key = utf8 "series_unique_id" then some .text
  else if key ∈ ["real_time", "stop_time"].map utf8 then some .time
  else if key = utf8 "series_date" then some .seriesDate
  else if key = utf8 "start_time" then some .startTime
  else if key = utf8 "user_data" then some .userData
  else if key = utf8 "data" then some .data
  else none

def imageField : FieldReader ImageMsg buf := fun key m r =>
  match imageKind key with
  | some .uint => ignored m r.uint64
  | some .text => ignored m r.text
  | some .time => ignored m r.array2Uint64
  | some .seriesDate => r.text.map fun (date, r) => (true, { m with seriesDate := some date }, r)
  | some .startTime => r.array2Uint64.map fun (time, r) => (true, { m with startTime := time }, r)
  | some .userData => r.skip.map fun r => (true, m, r)
  | some .data =>
    (channelArrays r).map fun (data, r) => (true, { m with data := m.data ++ data }, r)
  | none => .ok (false, m, r)

def imageMsg (top : Len) (r : Reader buf) : PResult (ImageMsg × Reader buf) :=
  msgFields noTag imageField buf.length top {} r

/-- What is behind the keys of an end message. -/
inductive EndKind where
  | uint
  | text
  deriving DecidableEq, Repr

def endKind (key : List UInt8) : Option EndKind :=
  if key = utf8 "series_id" then some .uint
  else if key = utf8 "series_unique_id" then some .text
  else none

def endField : FieldReader Unit buf := fun key m r =>
  match endKind key with
  | some .uint => ignored m r.uint64
  | some .text => ignored m r.text
  | none => .ok (false, m, r)

def endMsg (top : Len) (r : Reader buf) : PResult (Unit × Reader buf) :=
  msgFields noTag endField buf.length top () r

/-- Self-described CBOR. -/
def magic : List UInt8 := [0xd9, 0xd9, 0xf7]

/-- The entries behind the type, by the type. -/
def msgBody (kind : List UInt8) (top : Len) (r : Reader buf) : PResult Msg :=
  if kind = utf8 "start" then (startMsg top r).map fun (m, _) => .start m
  else if kind = utf8 "image" then (imageMsg top r).map fun (m, _) => .image m
  else if kind = utf8 "end" then (endMsg top r).map fun _ => .end
  else .error .parse

def parseMsg (buf : List UInt8) : PResult Msg :=
  if ¬magic <+: buf then .error .signature
  else (Reader.enter (⟨magic.length⟩ : Reader buf) majorMap).bind fun (top, r) =>
    (r.more top).bind fun ((again, top), r) =>
      if ¬again then .error .parse
      else r.key.bind fun (key, r) =>
        if key ≠ some (utf8 "type") then .error .parse
        else r.skipTags.bind fun r =>
          (r.more top).bind fun ((again, top), r) =>
            if ¬again then .error .decode
            else r.key.bind fun (kind, r) => msgBody (kind.getD []) top r

end Eiger
