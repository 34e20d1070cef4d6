import EpicsIocs.Lib.Blocks
import EpicsIocs.Lib.Faults
import EpicsIocs.Merlin.MqHeader

/-! # Images of data frames

`image_payload` and `decode_into` (`image.rs`): the pixels behind a header, bottom row first, are
copied into a buffer top row first.

    pixel (x, y) of the buffer is pixel (x, height - 1 - y) of the payload          (imageExact)

The detector says which byte of a pixel comes first (`swap`). -/

namespace Merlin

open Blocks Bytes Faults Ints Machine

/-- Those that a payload may have. -/
inductive NDDataType where
  | uint8
  | uint16
  | uint32
  deriving DecidableEq, Repr

def NDDataType.bytes : NDDataType → Nat
  | uint8 => 1
  | uint16 => 2
  | uint32 => 4

/-- A buffer by its elements; there are seven other types. -/
inductive NDDataViewMut where
  | u8 (d : List UInt8)
  | u16 (d : List UInt16)
  | u32 (d : List UInt32)
  | other
  deriving DecidableEq, Repr

namespace NDDataViewMut

def dataType : NDDataViewMut → Option NDDataType
  | u8 _ => some .uint8
  | u16 _ => some .uint16
  | u32 _ => some .uint32
  | other => none

def values : NDDataViewMut → List Nat
  | u8 d => d.map UInt8.toNat
  | u16 d => d.map UInt16.toNat
  | u32 d => d.map UInt32.toNat
  | other => []

end NDDataViewMut

structure ImagePayload where
  src : List UInt8
  width : Nat
  height : Nat
  dataType : NDDataType
  swap : Bool
  deriving DecidableEq, Repr

/-- The type of the pixels of a depth. -/
def typeOfDepth (pixelDepth : Int) : Option NDDataType :=
  if pixelDepth = 8 then some .uint8
  else if pixelDepth = 16 then some .uint16
  else if pixelDepth = 32 then some .uint32
  else none

def imagePayload (checks : Bool) (body : List UInt8) (offset width height : Nat)
    (pixelDepth : Int) (swap : Bool) : Outcome MpxError ImagePayload :=
  match typeOfDepth pixelDepth with
  | none => fail .malformed
  | some dataType =>
    match (checkedMul width height).bind fun n => checkedMul n dataType.bytes with
    | none => fail .malformed
    | some needed =>
      if offset > body.length ∨ body.length - offset < needed then
        (add checks offset needed).bind fun n => fail (.badBodySize (asSigned 64 n))
      else
        (add checks offset needed).bind fun stop =>
          (slice body offset stop).bind fun src => .ok { src, width, height, dataType, swap }

section Flip

variable {T : Type} (src : List UInt8) (width height n : Nat) (pixel : List UInt8 → T)

/-- `as_chunks`, without what is left over. -/
def asChunks (row : List UInt8) : List (List UInt8) :=
  (List.range (row.length / n)).map (block n row)

/-- One round of `flip_into`.  No product is more than the size of the image. -/
def flipRow (dst : List T) (y : Nat) : Outcome MpxError (List T) :=
  let sy := height - 1 - y
  (slice src (sy * width * n) ((sy + 1) * width * n)).bind fun row =>
    (slice dst (y * width) ((y + 1) * width)).bind fun d =>
      let copied := ((asChunks n row).map pixel).take d.length
      .ok (replace width dst y (copied ++ d.drop copied.length))

def flipInto (dst : List T) : Outcome MpxError (List T) :=
  (List.range height).foldlM (flipRow src width height n pixel) dst

end Flip

/-- The number that a pixel's bytes are. -/
def ordered (swap : Bool) (c : List UInt8) : Nat := if swap then beNat c else leNat c

def decodeInto (p : ImagePayload) (out : NDDataViewMut) : Outcome MpxError NDDataViewMut :=
  match out with
  | .u8 d => (flipInto p.src p.width p.height 1 (fun c => c.headD 0) d).map .u8
  | .u16 d =>
    (flipInto p.src p.width p.height 2 (fun c => UInt16.ofNat (ordered p.swap c)) d).map .u16
  | .u32 d =>
    (flipInto p.src p.width p.height 4 (fun c => UInt32.ofNat (ordered p.swap c)) d).map .u32
  | .other => panics

/-! ## The flip -/

section Flip

variable {T : Type} {src : List UInt8} {dst : List T} {width height n : Nat}
  {pixel : List UInt8 → T}

/-- The pixels of a row. -/
def rowPixels (src : List UInt8) (width n : Nat) (pixel : List UInt8 → T) (sy : Nat) : List T :=
  (List.range width).map fun x => pixel (block n src (sy * width + x))

theorem flipRow_eq (hn : 0 < n) (hsrc : src.length = width * height * n)
    (hdst : dst.length = width * height) {y : Nat} (hy : y < height) :
    flipRow src width height n pixel dst y =
      .ok (replace width dst y (rowPixels src width n pixel (height - 1 - y))) := by
  have hsy : (height - 1 - y + 1) * width ≤ height * width := Nat.mul_le_mul_right width (by omega)
  have hstop : (height - 1 - y + 1) * width * n ≤ src.length := by
    rw [hsrc, Nat.mul_comm width]
    exact Nat.mul_le_mul_right n hsy
  have hrow : (height - 1 - y + 1) * width * n = (height - 1 - y) * width * n + width * n := by
    rw [Nat.succ_mul, Nat.add_mul]
  have hdy : (y + 1) * width ≤ dst.length := by
    rw [hdst, Nat.mul_comm width]
    exact Nat.mul_le_mul_right width hy
  have hdrow : (y + 1) * width = y * width + width := Nat.succ_mul y width
  have hlen : ((src.drop ((height - 1 - y) * width * n)).take (width * n)).length = width * n := by
    rw [List.length_take, List.length_drop]
    omega
  have hchunks : ((asChunks n ((src.drop ((height - 1 - y) * width * n)).take (width * n))).map
      pixel) = rowPixels src width n pixel (height - 1 - y) := by
    rw [asChunks, hlen, Nat.mul_div_cancel _ hn, List.map_map, rowPixels]
    apply List.map_congr_left
    intro x hx
    rw [Function.comp_apply, block_take (List.mem_range.1 hx), block_drop]
  have hpixels : (rowPixels src width n pixel (height - 1 - y)).length = width := by
    rw [rowPixels, List.length_map, List.length_range]
  have hd : ((dst.drop (y * width)).take width).length = width := by
    rw [List.length_take, List.length_drop]
    omega
  unfold flipRow
  dsimp only
  rw [hrow, slice_add (hrow ▸ hstop), ok_bind, hdrow, slice_add (hdrow ▸ hdy), ok_bind, hchunks,
    List.take_of_length_le (by omega), List.drop_of_length_le (by omega), List.append_nil]

/-- After the first rows, those are copied, and the others are as they were. -/
theorem foldlM_flipRow (hn : 0 < n) (hsrc : src.length = width * height * n)
    (hdst : dst.length = width * height) {k : Nat} (hk : k ≤ height) :
    ∃ out, (List.range k).foldlM (flipRow src width height n pixel) dst = .ok out ∧
      out.length = width * height ∧
      ∀ y < k, ∀ x < width,
        out[y * width + x]? = some (pixel (block n src ((height - 1 - y) * width + x))) := by
  induction k with
  | zero => exact ⟨dst, rfl, hdst, fun y hy => absurd hy (Nat.not_lt_zero y)⟩
  | succ k ih =>
    obtain ⟨out, hrun, hlen, hrows⟩ := ih (by omega)
    have hrow : (rowPixels src width n pixel (height - 1 - k)).length = width := by
      rw [rowPixels, List.length_map, List.length_range]
    have hin : (k + 1) * width ≤ out.length := by
      rw [hlen, Nat.mul_comm width]
      exact Nat.mul_le_mul_right width hk
    refine ⟨replace width out k (rowPixels src width n pixel (height - 1 - k)), ?_, ?_, ?_⟩
    · rw [List.range_succ, List.foldlM_append, hrun]
      show (List.foldlM _ out [k] : Outcome MpxError (List T)) = _
      rw [List.foldlM_cons, flipRow_eq hn hsrc hlen hk]
      rfl
    · rw [length_replace hin hrow, hlen]
    · intro y hy x hx
      rw [getElem?_replace hin hrow]
      by_cases hlast : y = k
      · subst hlast
        rw [if_pos ⟨Nat.le_add_right _ _, by rw [Nat.succ_mul]; omega⟩, Nat.add_sub_cancel_left,
          rowPixels, List.getElem?_map, List.getElem?_range hx]
        rfl
      · have hbefore : (y + 1) * width ≤ k * width := Nat.mul_le_mul_right width (by omega)
        rw [Nat.succ_mul] at hbefore
        rw [if_neg (by omega)]
        exact hrows y (by omega) x hx

theorem flipInto_exact (hn : 0 < n) (hsrc : src.length = width * height * n)
    (hdst : dst.length = width * height) :
    ∃ out, flipInto src width height n pixel dst = .ok out ∧ out.length = width * height ∧
      ∀ y < height, ∀ x < width,
        out[y * width + x]? = some (pixel (block n src ((height - 1 - y) * width + x))) :=
  foldlM_flipRow hn hsrc hdst (Nat.le_refl _)

/-- The same, of the numbers in the buffers. -/
theorem flipInto_values {toNat : T → Nat} {number : List UInt8 → Nat} (hn : 0 < n)
    (hsrc : src.length = width * height * n) (hdst : dst.length = width * height)
    (hpixel : ∀ c : List UInt8, c.length = n → toNat (pixel c) = number c) :
    ∃ out, flipInto src width height n pixel dst = .ok out ∧ out.length = width * height ∧
      ∀ y < height, ∀ x < width, (out.map toNat)[y * width + x]? =
        some (number (block n src ((height - 1 - y) * width + x))) := by
  obtain ⟨out, hrun, hlen, hrows⟩ := @flipInto_exact T src dst width height n pixel hn hsrc hdst
  refine ⟨out, hrun, hlen, fun y hy x hx => ?_⟩
  have hrow : (height - 1 - y + 1) * width ≤ height * width :=
    Nat.mul_le_mul_right width (by omega)
  rw [Nat.succ_mul] at hrow
  have hchunk : (block n src ((height - 1 - y) * width + x)).length = n := by
    apply length_block
    rw [hsrc, Nat.mul_comm width]
    exact Nat.mul_le_mul_right n (by omega)
  rw [List.getElem?_map, hrows y hy x hx, Option.map_some, hpixel _ hchunk]

end Flip

/-! ## The payload -/

theorem ordered_lt (swap : Bool) (c : List UInt8) : ordered swap c < 256 ^ c.length := by
  cases swap with
  | false => exact leNat_lt c
  | true => exact beNat_lt c

theorem toNat_headD {swap : Bool} {c : List UInt8} (h : c.length = 1) :
    (c.headD 0).toNat = ordered swap c := by
  obtain ⟨b, rfl⟩ := List.length_eq_one_iff.1 h
  cases swap with
  | false => exact (Nat.add_zero _).symm
  | true => exact (Nat.zero_add _).symm

/-- An image of `width` by `height` numbers, upside down. -/
def Flipped (swap : Bool) (width height bytes : Nat) (payload : List UInt8) (values : List Nat) :
    Prop :=
  values.length = width * height ∧
    ∀ y < height, ∀ x < width, values[y * width + x]? =
      some (ordered swap
        ((payload.drop (((height - 1 - y) * width + x) * bytes)).take bytes))

theorem decodeInto_flipped {p : ImagePayload} {out : NDDataViewMut}
    (hsrc : p.src.length = p.width * p.height * p.dataType.bytes)
    (htype : out.dataType = some p.dataType) (hout : out.values.length = p.width * p.height) :
    ∃ out', decodeInto p out = .ok out' ∧ out'.dataType = some p.dataType ∧
      Flipped p.swap p.width p.height p.dataType.bytes p.src out'.values := by
  cases out with
  | u8 d =>
    have hp : .uint8 = p.dataType := Option.some.inj htype
    rw [← hp] at hsrc ⊢
    rw [NDDataViewMut.values, List.length_map] at hout
    obtain ⟨d', hrun, hlen, hrows⟩ := flipInto_values Nat.one_pos hsrc hout
      (fun c hc => @toNat_headD p.swap c hc)
    refine ⟨.u8 d', ?_, rfl, ?_, hrows⟩
    · rw [decodeInto, hrun]
      rfl
    · rw [NDDataViewMut.values, List.length_map, hlen]
  | u16 d =>
    have hp : .uint16 = p.dataType := Option.some.inj htype
    rw [← hp] at hsrc ⊢
    rw [NDDataViewMut.values, List.length_map] at hout
    obtain ⟨d', hrun, hlen, hrows⟩ := flipInto_values Nat.two_pos hsrc hout
      (fun c hc => UInt16.toNat_ofNat_of_lt' (hc ▸ ordered_lt p.swap c))
    refine ⟨.u16 d', ?_, rfl, ?_, hrows⟩
    · rw [decodeInto, hrun]
      rfl
    · rw [NDDataViewMut.values, List.length_map, hlen]
  | u32 d =>
    have hp : .uint32 = p.dataType := Option.some.inj htype
    rw [← hp] at hsrc ⊢
    rw [NDDataViewMut.values, List.length_map] at hout
    obtain ⟨d', hrun, hlen, hrows⟩ := flipInto_values (Nat.succ_pos 3) hsrc hout
      (fun c hc => UInt32.toNat_ofNat_of_lt' (hc ▸ ordered_lt p.swap c))
    refine ⟨.u32 d', ?_, rfl, ?_, hrows⟩
    · rw [decodeInto, hrun]
      rfl
    · rw [NDDataViewMut.values, List.length_map, hlen]
  | other => cases htype

/-! ## Frames -/

section Frame

variable {F : Type} (t : Readers F) (checks swap : Bool)

namespace MqHeader

variable (m : MqHeader F)

/-- The bytes of a pixel, and of the image. -/
def pixelBytes : Nat := (m.pixelDepth / 8).toNat
def imageBytes : Nat := m.xSize * m.ySize * m.pixelBytes

/-- What `image_payload` makes of the frame of a header. -/
def payloadIn (body : List UInt8) : Outcome MpxError ImagePayload :=
  imagePayload checks body m.offset m.xSize m.ySize m.pixelDepth swap

/-- A payload that is long enough fills any buffer of its type and size with the image; from a
shorter one comes an error. -/
def ImageExact (body : List UInt8) : Prop :=
  (m.imageBytes ≤ body.length - m.offset →
    ∃ p, m.payloadIn checks swap body = .ok p ∧
      ∀ out : NDDataViewMut, out.dataType = some p.dataType →
        out.values.length = m.xSize * m.ySize →
          ∃ out', decodeInto p out = .ok out' ∧ out'.dataType = some p.dataType ∧
            Flipped swap m.xSize m.ySize m.pixelBytes (body.drop m.offset) out'.values) ∧
  (body.length - m.offset < m.imageBytes → ∃ e, m.payloadIn checks swap body = fail e)

end MqHeader

/-- A frame comes out as its header and its payload are. -/
def FrameExact (header payload : List UInt8) : Prop :=
  ∃ m, readHeader t header.length (header.length + payload.length) (splitCommas header) = .ok m ∧
    parseMqHeader t (header ++ payload) = .ok m ∧
    m.offset = header.length ∧
    m.ImageExact checks swap (header ++ payload)

variable {t checks swap} {m : MqHeader F} {header payload : List UInt8}

/-- No size below 2^31 by 2^31 overflows. -/
theorem imageBytes_le {width height bytes : Nat} (hwidth : width < 2 ^ 31) (hheight : height < 2 ^ 31)
    (hbytes : bytes ≤ 4) : width * height * bytes ≤ (2 ^ 31 - 1) * (2 ^ 31 - 1) * 4 :=
  Nat.mul_le_mul (Nat.mul_le_mul (by omega) (by omega)) hbytes

theorem imagePayload_eq {body : List UInt8} {offset width height : Nat} {pixelDepth : Int}
    {dataType : NDDataType} (htype : typeOfDepth pixelDepth = some dataType)
    (hoffset : offset < 2 ^ 31) (hwidth : width < 2 ^ 31) (hheight : height < 2 ^ 31)
    (hin : offset ≤ body.length) :
    imagePayload checks body offset width height pixelDepth swap =
      if body.length - offset < width * height * dataType.bytes then
        fail (.badBodySize (asSigned 64 (offset + width * height * dataType.bytes : Nat)))
      else .ok {
        src := (body.drop offset).take (width * height * dataType.bytes)
        width, height, dataType, swap } := by
  have hbytes : 1 ≤ dataType.bytes ∧ dataType.bytes ≤ 4 := by
    cases dataType <;> decide
  have hsize := imageBytes_le hwidth hheight hbytes.2
  have hpixels : width * height ≤ width * height * dataType.bytes :=
    Nat.le_mul_of_pos_right _ hbytes.1
  have hneeded : ((checkedMul width height).bind fun n => checkedMul n dataType.bytes) =
      some (width * height * dataType.bytes) := by
    rw [checkedMul_eq_some.2 ⟨by unfold u64Max; omega, rfl⟩]
    exact checkedMul_eq_some.2 ⟨by unfold u64Max; omega, rfl⟩
  unfold imagePayload
  rw [htype]
  dsimp only
  rw [hneeded]
  dsimp only
  rw [add_of_le (by unfold u64Max; omega)]
  by_cases hshort : body.length - offset < width * height * dataType.bytes
  · rw [if_pos (.inr hshort), if_pos hshort]
    rfl
  · rw [if_neg (by omega), if_neg hshort, ok_bind, slice_add (by omega)]
    rfl

theorem typeOfDepth_eq {d : Int} (h : d ∈ [8, 16, 32]) :
    ∃ dataType, typeOfDepth d = some dataType ∧ dataType.bytes = (d / 8).toNat := by
  simp only [List.mem_cons, List.not_mem_nil, or_false] at h
  obtain rfl | rfl | rfl := h
  · exact ⟨.uint8, rfl, rfl⟩
  · exact ⟨.uint16, rfl, rfl⟩
  · exact ⟨.uint32, rfl, rfl⟩

theorem imageExact {body : List UInt8} (hdepth : m.pixelDepth ∈ [8, 16, 32])
    (hoffset : m.offset < 2 ^ 31) (hx : m.xSize < 2 ^ 31) (hy : m.ySize < 2 ^ 31)
    (hin : m.offset ≤ body.length) : m.ImageExact checks swap body := by
  obtain ⟨dataType, htype, hbytes⟩ := typeOfDepth_eq hdepth
  have hpayload := @imagePayload_eq checks swap body _ _ _ _ _ htype hoffset hx hy hin
  rw [hbytes] at hpayload
  constructor
  · intro hlong
    have hlen : ((body.drop m.offset).take m.imageBytes).length = m.imageBytes := by
      rw [List.length_take, List.length_drop]
      omega
    refine ⟨_, hpayload.trans (if_neg (Nat.not_lt.2 hlong)), fun out htype' hout => ?_⟩
    obtain ⟨out', hrun, htype'', hvalues, hrows⟩ := decodeInto_flipped
      (show ((body.drop m.offset).take m.imageBytes).length = m.xSize * m.ySize * dataType.bytes by
        rw [hlen, hbytes]
        rfl) htype' hout
    refine ⟨out', hrun, htype'', hvalues, fun y hy x hx => ?_⟩
    have hrow : (m.ySize - 1 - y + 1) * m.xSize ≤ m.ySize * m.xSize :=
      Nat.mul_le_mul_right m.xSize (by omega)
    rw [Nat.succ_mul, Nat.mul_comm m.ySize] at hrow
    have hk : (m.ySize - 1 - y) * m.xSize + x < m.xSize * m.ySize := by omega
    rw [hrows y hy x hx, hbytes]
    exact congrArg (fun c => some (ordered swap c)) (block_take hk)
  · intro hshort
    exact ⟨_, hpayload.trans (if_pos hshort)⟩

/-- Whatever the payload is, the image is exact where the header is read. -/
theorem frameExact_iff (h : MqText t header) :
    FrameExact t checks swap header payload ↔ Readable t header payload := by
  constructor
  · rintro ⟨m, -, hparse, hoffset, -⟩
    exact parseMqHeader_offset h hparse hoffset
  · intro hread
    obtain ⟨m, hm⟩ := h.readHeader_ok payload.length
    obtain ⟨hpos, hle, hoffset, hx, hy, hdepth⟩ := of_readHeader hm
    have hholds : ∀ tok, (t.atoi tok).toNat < 2 ^ 31 := by
      intro tok
      have hlt : t.atoi tok < (256 ^ 4 / 2 : Nat) := (t.atoi_holds tok).2
      omega
    have hlen : header.length < 2 ^ 31 := by
      obtain ⟨tok, -, htok⟩ := Option.map_eq_some_iff.1 h.offset
      have hlt := hholds tok
      omega
    refine ⟨m, hm, (parseMqHeader_of_readable h hread).trans hm, hoffset, ?_⟩
    apply imageExact
    · exact hdepth ▸ h.depth
    · exact hoffset ▸ hlen
    · exact hx ▸ hholds _
    · exact hy ▸ hholds _
    · rw [hoffset, List.length_append]
      omega

/-- The payloads of a length are read alike, and each comes out as it is. -/
def PayloadApart (t : Readers F) (checks swap : Bool) (header : List UInt8) (n : Nat) : Prop :=
  ∀ p q : List UInt8, p.length = n → q.length = n →
    parseMqHeader t (header ++ p) = parseMqHeader t (header ++ q) ∧
      FrameExact t checks swap header p

/-- **Of the frames of a header, each is exact where its header is in front and the pixels among the
first 64 bytes are text; all are, for the payloads of a length, where none are among them.** -/
theorem payloadApart_iff (h : MqText t header) :
    (∀ payload, FrameExact t checks swap header payload ↔ Readable t header payload) ∧
      ∀ n, PayloadApart t checks swap header n ↔
        OffsetInFront t header ∧ (n = 0 ∨ 64 ≤ header.length) := by
  refine ⟨fun payload => frameExact_iff h, fun n => ⟨fun hapart => ?_, ?_⟩⟩
  · -- bytes that are no text
    have hbytes : (List.replicate n (0x80 : UInt8)).length = n := List.length_replicate
    obtain ⟨-, hexact⟩ := hapart _ _ hbytes hbytes
    obtain ⟨hfront, hvalid⟩ := (frameExact_iff h).1 hexact
    refine ⟨hfront, ?_⟩
    by_contra hnot
    obtain ⟨hn, hshort⟩ := not_or.1 hnot
    rw [List.take_replicate] at hvalid
    obtain ⟨k, hk⟩ := Nat.exists_eq_succ_of_ne_zero
      (show min (64 - header.length) n ≠ 0 by omega)
    rw [hk, List.replicate_succ] at hvalid
    exact Utf8.not_valid_continuation hvalid
  · rintro ⟨hfront, hnone⟩ p q hp hq
    have hread : ∀ x : List UInt8, x.length = n → Readable t header x := by
      intro x hx
      refine ⟨hfront, ?_⟩
      have hnil : x.take (64 - header.length) = [] := by
        rw [List.take_eq_nil_iff, ← List.length_eq_zero_iff]
        omega
      rw [hnil]
      exact Utf8.valid_nil
    refine ⟨?_, (frameExact_iff h).2 (hread p hp)⟩
    rw [parseMqHeader_of_readable h (hread p hp), parseMqHeader_of_readable h (hread q hq), hp, hq]

end Frame

/-! ## Two headers -/

/-- Readers of unsigned numbers. -/
def plainReaders : Readers Nat where
  atoi tok := asSigned 32 (digitsAtoi tok)
  atoi_holds tok := by
    have hle := Int.le_bmod (x := digitsAtoi tok) (m := 2 ^ 32) (by decide)
    have hlt := Int.bmod_lt (x := digitsAtoi tok) (m := 2 ^ 32) (by decide)
    unfold asSigned
    show -((256 ^ 4 / 2 : Nat) : Int) ≤ _ ∧ _ < ((256 ^ 4 / 2 : Nat) : Int)
    omega
  strtoul tok := (digitsAtoi tok).toNat
  parseF64 tok := (digitsAtoi tok).toNat

/-- `MQ1,1,64,1,1,1,U8`, filled up to 64 bytes. -/
def paddedHeader : List UInt8 :=
  [77, 81, 49, 44, 49, 44, 54, 52, 44, 49, 44, 49, 44, 49, 44, 85, 56] ++ List.replicate 47 32

/-- Its only pixel is read whatever it is. -/
theorem payloadApart_padded : PayloadApart plainReaders true true paddedHeader 1 :=
  ((payloadApart_iff {
      ascii := by unfold Utf8.Ascii; decide +kernel
      magic := by decide
      enough := by decide
      offset := by decide
      x_pos := by decide
      y_pos := by decide
      depth := by decide }).2 1).2 ⟨by unfold OffsetInFront; decide, .inr (by decide)⟩

/-- `MQ1,1,17,1,1,1,U8`. -/
def shortHeader : List UInt8 :=
  [77, 81, 49, 44, 49, 44, 49, 55, 44, 49, 44, 49, 44, 49, 44, 85, 56]

/-- A pixel of 128 makes the header unreadable, one of 65 does not. -/
theorem pixel_read_as_text : MqText plainReaders shortHeader ∧
    ¬ ∀ p q : List UInt8, p.length = q.length →
      parseMqHeader plainReaders (shortHeader ++ p) = parseMqHeader plainReaders (shortHeader ++ q)
      := by
  refine ⟨⟨by unfold Utf8.Ascii; decide +kernel, by decide, by decide, by decide, by decide, by decide,
    by decide⟩, fun hsame => ?_⟩
  have hdark : parseMqHeader plainReaders (shortHeader ++ [128]) = .error .malformed := by
    decide +kernel
  have hbright : parseMqHeader plainReaders (shortHeader ++ [65]) ≠ .error .malformed := by
    decide +kernel
  exact hbright ((hsame [65] [128] rfl).trans hdark)

end Merlin
