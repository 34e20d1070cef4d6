import EpicsIocs.Lib.Steps
import EpicsIocs.Eiger.Frame

/-! # Dimensions and pixels

An array without a codec holds as many bytes as its dimensions and its type multiply out
to, and no sum or product on the way overflows, as long as the announced dimensions
multiply out within 64 bits (`frame_geometry`).  Beyond, version 1 multiplies by the
element size and version 2 the two dimensions without a check. -/

namespace Eiger

open Cbor Faults Fallible Machine Reader Steps

/-- A received part, no longer than a slice can be. -/
structure Part where
  bytes : List UInt8
  fits : bytes.length ≤ isizeMax

/-- The pixels of an array that is not compressed are what its dimensions say. -/
def FrameArray.Filled (a : FrameArray) : Prop :=
  a.codec = none → sizeOf a.dims a.dataType.elementSize = a.data.length

/-! ## Stream version 1 -/

theorem frameType_elementSize (t : DataType) (signed : Bool) :
    (frameType t signed).elementSize = t.elementSize := by
  cases t <;> cases signed <;> rfl

/-- The blob is of the size its header announces: it is the pixels and perhaps more behind
them, or what it decompresses to is. -/
def ImageHeader.Matches (lz4 : Lz4) (h : ImageHeader) (blob : List UInt8) : Prop :=
  match h.codec with
  | none => sizeOf h.dims h.dataType.elementSize ≤ blob.length
  | some .bslz4 => Bytes.beNat (blob.take 8) = sizeOf h.dims h.dataType.elementSize
  | some _ => ∃ bytes, lz4.decompress blob (sizeOf h.dims h.dataType.elementSize) = .ok bytes ∧
      bytes.length = sizeOf h.dims h.dataType.elementSize

section
variable {checks : Bool} {lz4 : Lz4} {pool : Pool} {h : ImageHeader} {blob out : List UInt8}
  {decompress signed : Bool} {frame : Nat}

theorem pixels_safe (hpool : pool.Lawful) (hfits : sizeOf h.dims h.dataType.elementSize ≤ u64Max) :
    Safe (fun out => out.length = sizeOf h.dims h.dataType.elementSize ∧ out.length ≤ isizeMax)
      (pixels h signed pool frame) := by
  refine Safe.get fun out hout => ?_
  have hlen := hpool.length_alloc hout
  rw [frameType_elementSize] at hlen
  exact ⟨hlen hfits, hpool.alloc_le hout⟩

theorem decompressInto_safe {name : CodecName} (hname : name = .lz4 ∨ name = .bslz4)
    (hcodec : h.codec = some name) (hblob : blob.length ≤ isizeMax)
    (hlen : out.length = sizeOf h.dims h.dataType.elementSize) (hout : out.length ≤ isizeMax) :
    Safe (fun data => data.length = sizeOf h.dims h.dataType.elementSize ∧ h.Matches lz4 blob)
      (decompressInto checks lz4 h name blob (sizeOf h.dims h.dataType.elementSize) out) := by
  unfold decompressInto
  rcases hname with rfl | rfl
  · rw [if_pos rfl]
    cases hbytes : lz4.decompress blob out.length with
    | error e => exact .fail
    | ok bytes =>
      dsimp only
      by_cases hsize : bytes.length ≠ sizeOf h.dims h.dataType.elementSize
      · rw [if_pos hsize]
        exact .fail
      · have hsize := not_not.1 hsize
        rw [if_neg (not_not.2 hsize)]
        refine .ok ⟨?_, ?_⟩
        · rw [List.length_append, List.length_drop]
          omega
        · simp only [ImageHeader.Matches, hcodec]
          exact ⟨bytes, hlen ▸ hbytes, hsize⟩
  · rw [if_neg (by decide)]
    obtain ⟨heq, hfills⟩ := Checked.decodeWithHeaderInto_spec checks lz4
      h.dataType.elementSize hblob hout
    rw [heq]
    refine (Safe.lift fun data hdata => ?_).mapError
    obtain ⟨hfilled, htotal⟩ := hfills data hdata
    refine ⟨hfilled.trans hlen, ?_⟩
    simp only [ImageHeader.Matches, hcodec]
    exact htotal.trans hlen

theorem passThrough_safe (hpool : pool.Lawful) {name : CodecName} :
    Safe (fun a => a.codec ≠ none) (passThrough h name blob signed pool frame) := by
  refine Safe.bind (Q := fun _ => True) ?_ fun payload _ => ?_
  · split
    · split
      · exact .fail
      · exact .ok trivial
    · exact .ok trivial
  · refine Safe.bind (Safe.get fun out hout => hpool.length_allocSized hout) fun out hout => ?_
    rw [copyFromSlice_of_eq hout]
    exact .ok nofun

theorem decodeBlob_safe (hpool : pool.Lawful) (hblob : blob.length ≤ isizeMax)
    (hfits : h.dims.1 * h.dims.2 ≤ u64Max → sizeOf h.dims h.dataType.elementSize ≤ u64Max) :
    Safe (fun a => a.Filled ∧ (a.codec = none → a.dims = h.dims ∧ h.Matches lz4 blob))
      (decodeBlob checks lz4 h blob decompress signed pool frame) := by
  refine Safe.bind (Safe.get fun nElems hn => checkedMul_eq_some.1 hn) ?_
  rintro nElems ⟨hdims, rfl⟩
  have hfits := hfits hdims
  rw [mul_of_le hfits, ok_bind]
  have hpixels : ∀ out : List UInt8, out.length = sizeOf h.dims h.dataType.elementSize →
      h.Matches lz4 blob →
      (FrameArray.mk h.dims (frameType h.dataType signed) out none).Filled ∧
        ((none : Option Codec) = none → h.dims = h.dims ∧ h.Matches lz4 blob) := by
    intro out hout hmatches
    refine ⟨fun _ => ?_, fun _ => ⟨rfl, hmatches⟩⟩
    show sizeOf h.dims (frameType h.dataType signed).elementSize = out.length
    rw [frameType_elementSize, hout]
  cases hcodec : h.codec with
  | none =>
    dsimp only
    by_cases hshort : blob.length < sizeOf h.dims h.dataType.elementSize
    · exact (if_pos hshort).symm ▸ .fail
    · have hlong := Nat.not_lt.1 hshort
      refine (if_neg hshort).symm ▸ Safe.bind (pixels_safe hpool hfits) ?_
      rintro out ⟨hout, -⟩
      have hslice : (slice blob 0 (sizeOf h.dims h.dataType.elementSize) :
          Outcome StreamError (List UInt8)) = .ok (blob.take (sizeOf h.dims h.dataType.elementSize)) :=
        slice_of_le (Nat.zero_le _) hlong
      have hlen := List.length_take_of_le hlong
      show Safe _ (Except.bind (slice blob 0 (sizeOf h.dims h.dataType.elementSize)) _)
      rw [hslice, ok_bind, copyFromSlice_of_eq (hout.trans hlen.symm)]
      refine .ok (hpixels _ hlen ?_)
      simp only [ImageHeader.Matches, hcodec]
      exact hlong
  | some name =>
    dsimp only
    cases decompress with
    | false =>
      exact (passThrough_safe hpool).imp fun a ha => ⟨fun h => absurd h ha, fun h => absurd h ha⟩
    | true =>
      rw [if_pos rfl]
      by_cases hname : name = .lz4 ∨ name = .bslz4
      · rw [if_neg (not_not.2 hname)]
        refine Safe.bind (pixels_safe hpool hfits) ?_
        rintro out ⟨hlen, hout⟩
        refine Safe.map (decompressInto_safe hname hcodec hblob hlen hout) ?_
        rintro data ⟨hdata, hmatches⟩
        exact hpixels data hdata hmatches
      · rw [if_pos hname]
        exact .fail

end

/-- The header of an image message. -/
def Announces (fromSlice : List UInt8 → Except String TimePix.Json) (parts : List Part)
    (h : ImageHeader) (blob : List UInt8) : Prop :=
  ∃ first shapePart blobPart rest, parts = first :: shapePart :: blobPart :: rest ∧
    imageHeader fromSlice shapePart.bytes = .ok h ∧ blobPart.bytes = blob

theorem decodeMessage_safe {checks : Bool} {lz4 : Lz4} {pool : Pool}
    {fromSlice : List UInt8 → Except String TimePix.Json} {parts : List Part}
    {decompress signed : Bool} (hpool : pool.Lawful)
    (hfits : ∀ h blob, Announces fromSlice parts h blob → h.dims.1 * h.dims.2 ≤ u64Max →
      sizeOf h.dims h.dataType.elementSize ≤ u64Max) :
    Safe (fun msg => ∀ series frame array, msg = .image series frame array →
        array.Filled ∧ (array.codec = none → ∃ h blob, Announces fromSlice parts h blob ∧
          array.dims = h.dims ∧ h.Matches lz4 blob))
      (decodeMessage fromSlice checks lz4 (parts.map Part.bytes) decompress signed pool) := by
  unfold decodeMessage
  cases parts with
  | nil => exact .fail
  | cons first rest =>
    refine Safe.bind (Safe.lift fun _ _ => trivial) fun htype _ => ?_
    by_cases hend : startsWith htype "dseries_end"
    · rw [if_pos hend]
      exact .ok nofun
    rw [if_neg hend]
    by_cases hheader : startsWith htype "dheader"
    · rw [if_pos hheader]
      exact Safe.map (Safe.lift fun _ _ => trivial) fun _ _ => nofun
    rw [if_neg hheader]
    by_cases himage : startsWith htype "dimage"
    · rw [if_pos himage]
      rcases rest with - | ⟨shapePart, - | ⟨blobPart, rest⟩⟩
      · exact .fail
      · exact .fail
      · refine Safe.bind (Safe.lift fun _ _ => trivial) fun v _ => ?_
        refine Safe.bind (Safe.lift fun _ _ => trivial) fun series _ => ?_
        refine Safe.bind (Safe.lift fun _ _ => trivial) fun frame _ => ?_
        refine Safe.map (Safe.bind (Safe.lift fun h hh => hh) fun h hh => ?_) (Q := fun array =>
          array.Filled ∧ (array.codec = none → ∃ h blob,
            Announces fromSlice (first :: shapePart :: blobPart :: rest) h blob ∧
              array.dims = h.dims ∧ h.Matches lz4 blob)) ?_
        · have hannounces : Announces fromSlice (first :: shapePart :: blobPart :: rest) h
              blobPart.bytes := ⟨first, shapePart, blobPart, rest, rfl, hh, rfl⟩
          refine (decodeBlob_safe hpool blobPart.fits (hfits _ _ hannounces)).imp ?_
          rintro array ⟨hfilled, hmatches⟩
          exact ⟨hfilled, fun hcodec => ⟨h, _, hannounces, hmatches hcodec⟩⟩
        · rintro array harray _ _ _ ⟨⟩
          exact harray
    · rw [if_neg himage]
      exact .fail

/-! ## Stream version 2 -/

/-- The dimensions of an accepted array multiply out to its bytes, unless they overflow, and a
compressed array has its header. -/
structure MultidimArray.Sized (a : MultidimArray) : Prop where
  size_eq : ∀ elemSize, typedArrayElemSize a.tag = .ok elemSize → a.dim.1 * a.dim.2 ≤ u64Max →
    sizeOf a.dim elemSize = pixelBytes a.compression a.bytes
  header_le : a.compression ≠ none → headerLen ≤ a.bytes.len

section
variable {buf : List UInt8}

theorem dectrisCompression_header {r r' : Reader buf} {c : Compression} {range : Range}
    (h : dectrisCompression r = .ok ((c, range), r')) : headerLen ≤ range.len := by
  obtain ⟨⟨tag, r⟩, -, h⟩ := of_bind h
  obtain ⟨-, h⟩ := of_guard h
  obtain ⟨⟨n, r⟩, -, h⟩ := of_bind h
  obtain ⟨-, h⟩ := of_guard h
  obtain ⟨⟨algorithm, r⟩, -, h⟩ := of_bind h
  obtain ⟨⟨elemSize, r⟩, -, h⟩ := of_bind h
  obtain ⟨⟨bytes, r⟩, -, h⟩ := of_bind h
  dsimp only at h
  split_ifs at h with halgorithm hlen
  cases h
  exact Nat.not_lt.1 hlen

theorem bytesOf_header {r r' : Reader buf} {c : Option Compression} {range : Range}
    (h : bytesOf r = .ok ((c, range), r')) (hc : c ≠ none) : headerLen ≤ range.len := by
  obtain ⟨m, -, h⟩ := of_bind h
  by_cases hm : m = majorTag
  · rw [if_pos hm] at h
    obtain ⟨⟨tag, _⟩, -, h⟩ := of_bind h
    obtain ⟨-, h⟩ := of_guard h
    obtain ⟨⟨⟨c', bytes⟩, r⟩, hbytes, h⟩ := of_map h
    cases h
    exact dectrisCompression_header hbytes
  · rw [if_neg hm] at h
    obtain ⟨⟨bytes, r⟩, -, h⟩ := of_map h
    cases h
    exact absurd rfl hc

theorem multidimArray_sized {r r' : Reader buf} {a : MultidimArray}
    (h : multidimArray r = .ok (a, r')) : a.Sized := by
  obtain ⟨⟨tag, r⟩, -, h⟩ := of_bind h
  obtain ⟨-, h⟩ := of_guard h
  obtain ⟨⟨n, r⟩, -, h⟩ := of_bind h
  obtain ⟨-, h⟩ := of_guard h
  obtain ⟨⟨dim, r⟩, -, h⟩ := of_bind h
  obtain ⟨⟨array, r⟩, harray, h⟩ := of_bind h
  obtain ⟨hprod, h⟩ := of_guard h
  cases h
  obtain ⟨⟨tag, r⟩, -, harray⟩ := of_bind harray
  obtain ⟨⟨⟨c, bytes⟩, r⟩, hbytes, harray⟩ := of_bind harray
  obtain ⟨elemSize, helem, harray⟩ := of_bind harray
  obtain ⟨hwhole, harray⟩ := of_guard harray
  cases harray
  refine ⟨fun elemSize' helem' hfits => ?_, fun hc => bytesOf_header hbytes hc⟩
  have hsame : elemSize' = elemSize := Except.ok.inj (helem'.symm.trans helem)
  have hexact : dim.1 * dim.2 % 2 ^ 64 = dim.1 * dim.2 :=
    Nat.mod_eq_of_lt (Nat.lt_of_le_of_lt hfits (by decide))
  have hlen : dim.1 * dim.2 = pixelBytes c bytes / elemSize :=
    hexact.symm.trans (not_not.1 hprod)
  show dim.1 * dim.2 * elemSize' = pixelBytes c bytes
  rw [hsame, hlen]
  exact Nat.div_mul_cancel (Nat.dvd_of_mod_eq_zero (not_not.1 hwhole))

theorem channelArray_sized {r r' : Reader buf} {d : ImageData} (h : channelArray r = .ok (d, r')) :
    d.data.Sized := by
  obtain ⟨⟨channel, r⟩, -, h⟩ := of_bind h
  obtain ⟨⟨data, r⟩, hdata, h⟩ := of_map h
  cases h
  exact multidimArray_sized hdata

end

theorem dataTypeOfTag_elemSize {tag : Nat} {t : DataType}
    (h : Stream2Api.dataTypeOfTag tag = .ok t) : typedArrayElemSize tag = .ok t.elementSize := by
  unfold Stream2Api.dataTypeOfTag at h
  split_ifs at h with h8 h16 h32
  · cases h
    rw [h8]
    rfl
  · cases h
    rw [h16]
    rfl
  · cases h
    rw [h32]
    rfl

namespace Stream2Api

section
variable {checks : Bool} {lz4 : Lz4} {pool : Pool} {blob : List UInt8} {signed : Bool}
  {dims : Nat × Nat} {t : DataType}

theorem passThrough_safe (hpool : pool.Lawful) {c : Compression}
    (hlen : headerLen ≤ blob.length) :
    Safe FrameArray.Filled (passThrough dims c t blob signed pool) := by
  refine Safe.bind (Q := fun _ => True) ?_ ?_
  · split
    · exact .ok trivial
    · rw [slice_drop hlen]
      exact .ok trivial
  · rintro ⟨name, payload⟩ -
    refine Safe.bind (Safe.get fun out hout => hpool.length_allocSized hout) fun out hout => ?_
    rw [copyFromSlice_of_eq hout]
    exact .ok nofun

theorem fill_safe (hpool : pool.Lawful) {compression : Option Compression}
    (hblob : blob.length ≤ isizeMax) (hlen : compression ≠ none → headerLen ≤ blob.length)
    (hsize : sizeOf dims t.elementSize = decodedSize compression blob) :
    Safe FrameArray.Filled (fill checks lz4 dims compression t blob signed pool) := by
  unfold fill
  refine Safe.bind (Safe.get fun out hout =>
    And.intro (hpool.length_allocSized hout) (hpool.allocSized_le hout)) ?_
  rintro out ⟨hout, hfits⟩
  refine Safe.map (Q := fun data => data.length = sizeOf dims t.elementSize) ?_ fun data hdata _ => ?_
  · cases compression with
    | none =>
      dsimp only [decodedSize] at hsize hout ⊢
      rw [copyFromSlice_of_eq hout]
      exact .ok hsize.symm
    | some c =>
      dsimp only [decodedSize] at hsize hout ⊢
      have hpos : 0 < t.elementSize := by cases t <;> decide
      obtain ⟨heq, hfills⟩ := Checked.uncompress_spec checks lz4 hblob (hlen nofun) hpos
        hfits c.algorithm
      rw [heq]
      exact (Safe.lift fun data hdata => ((hfills data hdata).trans hout).trans hsize.symm).mapError
  · show sizeOf dims (frameType t signed).elementSize = data.length
    rw [frameType_elementSize, hdata]

end

/-- What is kept of a message was parsed from it. -/
def Parsed (api : Stream2Api) : Prop :=
  ∀ buf im, api.image = some (buf, im) → parseMsg buf = .ok (.image im) ∧ buf.length ≤ isizeMax

theorem frame_safe {checks : Bool} {lz4 : Lz4} {pool : Pool} (hpool : pool.Lawful)
    {api : Stream2Api} (hapi : api.Parsed) {thresh : Nat} {decompress signed : Bool}
    (hfits : ∀ buf im, api.image = some (buf, im) → ∀ d ∈ im.data,
      d.data.dim.1 * d.data.dim.2 ≤ u64Max) :
    Safe FrameArray.Filled (api.frame checks lz4 thresh decompress signed pool) := by
  unfold frame
  cases himage : api.image with
  | none => exact .fail
  | some kept =>
    obtain ⟨buf, im⟩ := kept
    obtain ⟨hparse, hbuf⟩ := hapi buf im himage
    dsimp only
    cases hchannel : im.data[thresh]? with
    | none => exact .fail
    | some d =>
      have hd : d ∈ im.data := List.mem_of_getElem? hchannel
      have hsized : d.data.Sized := parseMsg_forall (fun _ _ _ => channelArray_sized) hparse d hd
      obtain ⟨hstart, hstop⟩ : d.data.bytes.Inside buf := parseMsg_inside hparse d hd
      dsimp only
      refine Safe.bind (Safe.lift fun t ht => dataTypeOfTag_elemSize ht) fun t ht => ?_
      have hsize := hsized.size_eq _ ht (hfits buf im himage d hd)
      have hswap : sizeOf (d.data.dim.2, d.data.dim.1) t.elementSize =
          sizeOf d.data.dim t.elementSize := by
        show d.data.dim.2 * d.data.dim.1 * _ = d.data.dim.1 * d.data.dim.2 * _
        rw [Nat.mul_comm d.data.dim.2]
      rw [slice_of_le hstart hstop, ok_bind]
      have hblob : ((buf.drop d.data.bytes.start).take
          (d.data.bytes.stop - d.data.bytes.start)).length = d.data.bytes.len := by
        rw [List.length_take, List.length_drop, Range.len]
        omega
      have hshort : d.data.bytes.len ≤ isizeMax := by
        rw [Range.len]
        omega
      have hheader := hsized.header_le
      cases hcompression : d.data.compression with
      | none =>
        rw [hcompression] at hsize
        exact fill_safe hpool (hblob.trans_le hshort) (fun h => absurd rfl h)
          (hswap.trans (hsize.trans hblob.symm))
      | some c =>
        rw [hcompression] at hsize hheader
        cases decompress with
        | false => exact passThrough_safe hpool ((hheader nofun).trans_eq hblob.symm)
        | true =>
          exact fill_safe hpool (hblob.trans_le hshort) (fun h => (hheader h).trans_eq hblob.symm)
            (hswap.trans hsize)

end Stream2Api

/-! ## Runs -/

/-- What the stream task does with a `Stream2Api`. -/
inductive Stream2Event where
  | getHeader (part : Part)
  | waitFrame (part : Part)
  | getFrame (thresh : Nat) (decompress signed : Bool) (pool : Pool)

/-- A message that is refused leaves everything as it was. -/
def Stream2Api.after (checks : Bool) (lz4 : Lz4) (api : Stream2Api) : Stream2Event → Stream2Api
  | .getHeader part =>
    match api.getHeader part.bytes with
    | .ok api' => api'
    | .error _ => api
  | .waitFrame part =>
    match api.waitFrame part.bytes with
    | .ok (_, api') => api'
    | .error _ => api
  | .getFrame thresh decompress signed pool =>
    (api.getFrame checks lz4 thresh decompress signed pool).2

/-- A connected stream, in any order of calls. -/
def stream2 (checks : Bool) (lz4 : Lz4) : System Stream2Api Stream2Event where
  init api := api = {}
  step api e api' := api' = api.after checks lz4 e

theorem Stream2Api.Parsed.after {checks : Bool} {lz4 : Lz4} {api : Stream2Api} (h : api.Parsed)
    (e : Stream2Event) : (api.after checks lz4 e).Parsed := by
  cases e with
  | getHeader part =>
    simp only [Stream2Api.after, getHeader]
    cases parseMsg part.bytes with
    | error e => exact h
    | ok msg =>
      cases msg with
      | start sm => exact h
      | image im => exact h
      | «end» => exact h
  | waitFrame part =>
    simp only [Stream2Api.after, waitFrame]
    cases hparse : parseMsg part.bytes with
    | error e => exact h
    | ok msg =>
      cases msg with
      | start sm => exact h
      | image im =>
        intro buf im' heq
        cases heq
        exact ⟨hparse, part.fits⟩
      | «end» => exact h
  | getFrame thresh decompress signed pool =>
    simp only [Stream2Api.after, getFrame]
    cases api.image with
    | none => exact h
    | some kept =>
      dsimp only
      split
      · exact nofun
      · exact h

theorem stream2_parsed {checks : Bool} {lz4 : Lz4} {api : Stream2Api}
    (h : (stream2 checks lz4).Reachable api) : api.Parsed := by
  refine h.invariant ?_ ?_
  · rintro _ rfl
    exact nofun
  · rintro api e _ hapi rfl
    exact hapi.after e

/-- **Frame geometry.**  Version 1: unless the product of two dimensions that can be
multiplied overflows with the element size, nothing overflows or panics, an array without a
codec is filled as its dimensions say, and its blob was of the announced size.  Version 2:
the same of every channel of a message whose dimensions can be multiplied, in every state of
the stream; and a message with an array of another size is refused. -/
theorem frame_geometry (checks : Bool) (lz4 : Lz4) :
    (∀ (fromSlice : List UInt8 → Except String TimePix.Json) (parts : List Part)
        (decompress signed : Bool) (pool : Pool), pool.Lawful →
      (∀ h blob, Announces fromSlice parts h blob → h.dims.1 * h.dims.2 ≤ u64Max →
        sizeOf h.dims h.dataType.elementSize ≤ u64Max) →
      Safe (fun msg => ∀ series frame array, msg = .image series frame array →
          array.Filled ∧ (array.codec = none → ∃ h blob, Announces fromSlice parts h blob ∧
            array.dims = h.dims ∧ h.Matches lz4 blob))
        (decodeMessage fromSlice checks lz4 (parts.map Part.bytes) decompress signed pool)) ∧
    (∀ api, (stream2 checks lz4).Reachable api →
      ∀ (thresh : Nat) (decompress signed : Bool) (pool : Pool), pool.Lawful →
      (∀ buf im, api.image = some (buf, im) → ∀ d ∈ im.data,
        d.data.dim.1 * d.data.dim.2 ≤ u64Max) →
      Safe FrameArray.Filled (api.getFrame checks lz4 thresh decompress signed pool).1) ∧
    (∀ (buf : List UInt8) (m : ImageMsg), parseMsg buf = .ok (.image m) → ∀ d ∈ m.data,
      ∀ elemSize, typedArrayElemSize d.data.tag = .ok elemSize →
      d.data.dim.1 * d.data.dim.2 ≤ u64Max →
      sizeOf d.data.dim elemSize = pixelBytes d.data.compression d.data.bytes) := by
  refine ⟨?_, ?_, ?_⟩
  · intro fromSlice parts decompress signed pool hpool hfits
    exact decodeMessage_safe hpool hfits
  · intro api hapi thresh decompress signed pool hpool hfits
    exact Stream2Api.frame_safe hpool (stream2_parsed hapi) hfits
  · intro buf m hparse d hd elemSize helem hfits
    have hsized : d.data.Sized := parseMsg_forall (fun _ _ _ => channelArray_sized) hparse d hd
    exact hsized.size_eq elemSize helem hfits

/-! ## Two frames -/

/-- A pool with room for small arrays. -/
def smallPool : Pool where
  alloc dims t :=
    if sizeOf dims t.elementSize ≤ 64 then some (List.replicate (sizeOf dims t.elementSize) 0)
    else none
  allocSized _ _ n := if n ≤ 64 then some (List.replicate n 0) else none

theorem smallPool_lawful : smallPool.Lawful where
  length_alloc {dims t out} h _ := by
    obtain ⟨-, h⟩ := Option.ite_none_right_eq_some.1 h
    rw [← Option.some.inj h, List.length_replicate]
  length_allocSized {dims t n out} h := by
    obtain ⟨-, h⟩ := Option.ite_none_right_eq_some.1 h
    rw [← Option.some.inj h, List.length_replicate]
  alloc_le {dims t out} h := by
    obtain ⟨hle, h⟩ := Option.ite_none_right_eq_some.1 h
    rw [← Option.some.inj h, List.length_replicate]
    exact hle.trans (by decide)
  allocSized_le {dims t n out} h := by
    obtain ⟨hle, h⟩ := Option.ite_none_right_eq_some.1 h
    rw [← Option.some.inj h, List.length_replicate]
    exact hle.trans (by decide)

def onePixelText : List UInt8 :=
  utf8 ("\x7b\"htype\":\"dimage-1.0\",\"series\":1,\"frame\":0,\"shape\":[1,1]," ++
    "\"type\":\"uint8\",\"encoding\":\"<\"\x7d")

/-- The header of one pixel of one byte, and of an image with nothing but that. -/
def onePixelJson : TimePix.Json :=
  .object [("htype", .string "dimage-1.0"), ("series", .number (.posInt 1)),
    ("frame", .number (.posInt 0)), ("shape", .array [.number (.posInt 1), .number (.posInt 1)]),
    ("type", .string "uint8"), ("encoding", .string "<")]

/-- A blob of two bytes for one pixel is accepted. -/
theorem onePixel_twoBytes :
    ¬ ∀ (checks : Bool) (lz4 : Lz4) (fromSlice : List UInt8 → Except String TimePix.Json)
      (parts : List (List UInt8)) (decompress signed : Bool) (pool : Pool) (h : ImageHeader)
      (blob : List UInt8), pool.Lawful →
      (parts[1]?.map fun part => imageHeader fromSlice part) = some (.ok h) →
      parts[2]? = some blob → h.codec = none →
      sizeOf h.dims h.dataType.elementSize ≠ blob.length →
      ∃ e, decodeMessage fromSlice checks lz4 parts decompress signed pool = fail e := by
  intro hclaim
  obtain ⟨e, he⟩ := hclaim true literalLz4 (fun _ => .ok onePixelJson)
    [onePixelText, onePixelText, [7, 8]] true false smallPool ⟨(1, 1), .uint8, none⟩ [7, 8]
    smallPool_lawful rfl rfl rfl (by decide)
  have haccepted : decodeMessage (fun _ => .ok onePixelJson) true literalLz4
      [onePixelText, onePixelText, [7, 8]] true false smallPool =
      .ok (.image 1 0 { dims := (1, 1), dataType := .uint8, data := [7] }) := by rfl
  rw [haccepted] at he
  cases he

def onePixelParts : List Part :=
  [⟨onePixelText, by decide⟩, ⟨onePixelText, by decide⟩, ⟨[7], by decide⟩]

def fourPixelsImage : ImageMsg :=
  { seriesDate := some "2026", data := [⟨"threshold_1", ⟨(2, 2), 64, ⟨63, 67⟩, none⟩⟩] }

def fourPixelsApi : Stream2Api := { image := some (fourPixelsMsg, fourPixelsImage) }

theorem fourPixelsApi_reachable : (stream2 true literalLz4).Reachable fourPixelsApi := by
  refine System.Reachable.step (System.Reachable.init rfl)
    (a := .waitFrame ⟨fourPixelsMsg, by decide⟩) ?_
  show fourPixelsApi = ({} : Stream2Api).after true literalLz4 _
  decide +kernel

/-- One pixel of version 1 and four of version 2. -/
theorem frame_geometry_fourPixels :
    (∃ array, decodeMessage (fun _ => .ok onePixelJson) true literalLz4
        (onePixelParts.map Part.bytes) true false smallPool = .ok (.image 1 0 array) ∧
      array.Filled) ∧
    (∃ array, (fourPixelsApi.getFrame true literalLz4 0 true false smallPool).1 = .ok array ∧
      array.Filled) ∧
    sizeOf (2, 2) 1 = 4 := by
  obtain ⟨h1, h2, h3⟩ := frame_geometry true literalLz4
  have hjson : decodeMessage (fun _ => .ok onePixelJson) true literalLz4
      (onePixelParts.map Part.bytes) true false smallPool =
      .ok (.image 1 0 { dims := (1, 1), dataType := .uint8, data := [7] }) := by rfl
  have hchannels : ∀ buf im, fourPixelsApi.image = some (buf, im) → ∀ d ∈ im.data,
      d.data.dim.1 * d.data.dim.2 ≤ u64Max := by
    rintro _ _ ⟨⟩ d hd
    rw [List.mem_singleton.1 hd]
    decide
  have hsafe := h1 (fun _ => .ok onePixelJson) onePixelParts true false smallPool smallPool_lawful
    (by
      rintro h blob ⟨first, shapePart, blobPart, rest, hparts, hh, -⟩ -
      cases hparts
      cases hh
      decide)
  have hframe := h2 fourPixelsApi fourPixelsApi_reachable 0 true false smallPool smallPool_lawful
    hchannels
  refine ⟨⟨_, hjson, (hsafe.2 _ hjson _ _ _ rfl).1⟩, ⟨⟨(2, 2), .uint8, [1, 2, 3, 4], none⟩, ?_, ?_⟩, ?_⟩
  · decide +kernel
  · exact hframe.2 _ (by decide +kernel)
  · exact h3 fourPixelsMsg fourPixelsImage (by decide +kernel) _ List.mem_cons_self 1 rfl (by decide)

end Eiger
