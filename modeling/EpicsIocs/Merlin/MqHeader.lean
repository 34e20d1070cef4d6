import EpicsIocs.Lib.Ints
import EpicsIocs.Lib.Utf8
import EpicsIocs.Merlin.Protocol

/-! # Headers of data frames

`parse_mq_header` (`protocol.rs`): the text in front of the pixels.  How far it goes is read from the
first 64 bytes of the body, which must be text as a whole; a short header brings pixels into them.

    its offset is the header's length
      → it is in front, and the payload's bytes among the first 64 are text    (parseMqHeader_offset)
      → it is read from the header's fields alone                      (parseMqHeader_of_readable) -/

namespace Merlin

open Ints

/-- `atoi` gives an `i32`, `strtoul` reads hexadecimal, and `parseF64` is `parse_f64`. -/
structure Readers (F : Type) where
  atoi : List UInt8 → Int
  atoi_holds : ∀ tok, int32.Holds (atoi tok)
  strtoul : List UInt8 → Nat
  parseF64 : List UInt8 → F

inductive NDAttrValue (F : Type) where
  | int8 (v : Int)
  | int16 (v : Int)
  | int32 (v : Int)
  | uint16 (v : Nat)
  | float64 (v : F)
  | string (text : List UInt8)
  deriving DecidableEq, Repr

abbrev Attr (F : Type) : Type := String × NDAttrValue F

structure MqHeader (F : Type) where
  frameNumber : Int
  offset : Nat
  chipCount : Int
  xSize : Nat
  ySize : Nat
  pixelDepth : Int
  profileSelect : Int
  attrs : List (Attr F)
  deriving DecidableEq, Repr

/-- A cast to a signed type of so many bits. -/
def asSigned (bits : Nat) (v : Int) : Int := v.bmod (2 ^ bits)

/-- `OPT1` and `END1`. -/
def opt1 : List UInt8 := [79, 80, 84, 49]
def end1 : List UInt8 := [69, 78, 68, 49]

def optFields : List String :=
  ["ROI X", "ROI Y", "ROI Width", "ROI Height", "Profile Select", "DACs Present"]
def profileSelectPos : Nat := 4
def dacsPresentPos : Nat := 5

/-- The names of the values of a chip. -/
def dacInfo : List String :=
  ["Preamp", "Ikrum", "Shaper", "Disc", "Disc LS", "Shaper Test", "DAC Disc L", "DAC Test",
    "DAC DISC H", "Delay", "TP Buff In", "TP Buff Out", "RPZ", "GND", "TP Ref", "FBK", "Cas",
    "TP Ref A", "TP Ref B"]

section Parse

variable {F : Type} (t : Readers F)

/-- The number behind the type letter. -/
def depthOf (tok : List UInt8) : Int := t.atoi (tok.dropWhile fun c => !(48 ≤ c && c ≤ 57))

/-- Up to `n` optional values, to `END1` at most, and the fields behind them. -/
def optValues : Nat → List (List UInt8) → List Int × List (List UInt8)
  | 0, f => ([], f)
  | _ + 1, [] => ([], [])
  | n + 1, tok :: f =>
    if tok.take 4 = end1 then ([], tok :: f)
    else (t.atoi tok :: (optValues n f).1, (optValues n f).2)

/-- The optional section, if there is one, and the fields behind it. -/
def optSection (f : List (List UInt8)) : List Int × List (List UInt8) :=
  if (f[0]?.getD []).take 4 = opt1 then
    let (values, f) := optValues t optFields.length (f.drop 1)
    (values, if (f[0]?.getD []).take 4 = end1 then f.drop 1 else f)
  else ([], f)

/-- So many chips' values, as far as the fields go. -/
def dacBlocks : Nat → Nat → List (List UInt8) → List (Attr F)
  | 0, _, _ => []
  | _ + 1, _, [] => []
  | n + 1, chip, format :: f =>
    (s!"DAC {chip} Format", .string format) ::
      ((f.take 8).mapIdx fun i tok =>
        (s!"Chip {chip} Threshold bits {i}", .uint16 (t.atoi tok % 2 ^ 16).toNat)) ++
      ((dacInfo.zip ((f.drop 8).take dacInfo.length)).map fun (name, tok) =>
        (s!"Chip {chip} {name}", .int16 (asSigned 16 (t.atoi tok)))) ++
      dacBlocks n (chip + 1) ((f.drop 8).drop dacInfo.length)

/-- The fields from the eighth to the fourteenth, where there are any. -/
def namedFields (f : List (List UInt8)) : List (Attr F) :=
  [f[7]?.map fun tok => ("Sensor Layout", .string tok),
    f[8]?.map fun tok => ("Chip Select", .uint16 (t.strtoul tok % 2 ^ 16)),
    f[9]?.map fun tok => ("Time stamp", .string tok),
    f[10]?.map fun tok => ("Shutter Time", .float64 (t.parseF64 tok)),
    f[11]?.map fun tok => ("Counter", .int8 (asSigned 8 (t.atoi tok))),
    f[12]?.map fun tok => ("Colour Mode", .int8 (asSigned 8 (t.atoi tok))),
    f[13]?.map fun tok => ("Gain Mode", .int8 (asSigned 8 (t.atoi tok)))].reduceOption

/-- The header from its fields. -/
def readHeader (offset : Int) (bodyLen : Nat) (f : List (List UInt8)) :
    Except MpxError (MqHeader F) :=
  if f.length < 7 then .error .malformed
  else if offset ≤ 0 ∨ offset.toNat > bodyLen then .error .malformed
  else
    let frameNumber := t.atoi (f[1]?.getD [])
    let chipCount := t.atoi (f[3]?.getD [])
    let xSize := t.atoi (f[4]?.getD [])
    let ySize := t.atoi (f[5]?.getD [])
    if xSize ≤ 0 ∨ ySize ≤ 0 then .error .malformed
    else
      let pixelDepth := depthOf t (f[6]?.getD [])
      let (values, chips) := optSection t (f.drop 22)
      .ok {
        frameNumber
        offset := offset.toNat
        chipCount
        xSize := xSize.toNat
        ySize := ySize.toNat
        pixelDepth
        profileSelect := values[profileSelectPos]?.getD 0
        attrs :=
          [("Frame Number", .int32 frameNumber), ("Chip Count", .int8 (asSigned 8 chipCount)),
            ("X Size", .int32 xSize), ("Y Size", .int32 ySize),
            ("Pixel Depth", .int32 pixelDepth)] ++
          namedFields t f ++
          (((f.drop 14).take 8).mapIdx fun i tok =>
            (s!"Threshold {i}", .float64 (t.parseF64 tok))) ++
          ((optFields.zip values).map fun (name, v) => (name, .int16 (asSigned 16 v))) ++
          if values[dacsPresentPos]?.getD 1 ≠ 0 then dacBlocks t chipCount.toNat 0 chips else [] }

/-- The offset as the first bytes have it. -/
def declaredOffset (probe : List UInt8) : Int := ((fields probe)[2]?.map t.atoi).getD 0

def parseMqHeader (body : List UInt8) : Except MpxError (MqHeader F) :=
  let declared := declaredOffset t (body.take 64)
  let textEnd := if 0 < declared ∧ declared.toNat ≤ body.length then declared.toNat
    else body.length
  readHeader t declared body.length (fields (body.take textEnd))

end Parse

/-! ## The fields of a header -/

theorem exists_splitCommas (l : List UInt8) : ∃ f fs, splitCommas l = f :: fs := by
  induction l with
  | nil => exact ⟨_, _, rfl⟩
  | cons b l ih =>
    obtain ⟨f, fs, h⟩ := ih
    by_cases hb : b = comma
    · exact ⟨[], splitCommas l, by rw [splitCommas, if_pos hb]⟩
    · exact ⟨b :: f, fs, by rw [splitCommas, if_neg hb, h]⟩

/-- Bytes behind a text change nothing in its fields but the last. -/
theorem splitCommas_append {l : List UInt8} (x : List UInt8) {k : Nat}
    (hk : k + 1 < (splitCommas l).length) :
    (splitCommas (l ++ x))[k]? = (splitCommas l)[k]? := by
  induction l generalizing k with
  | nil =>
    rw [splitCommas, List.length_singleton] at hk
    omega
  | cons b l ih =>
    rw [List.cons_append, splitCommas, splitCommas]
    rw [splitCommas] at hk
    by_cases hb : b = comma
    · rw [if_pos hb] at hk
      rw [if_pos hb, if_pos hb]
      cases k with
      | zero => rfl
      | succ k => exact ih (by rw [List.length_cons] at hk; omega)
    · obtain ⟨f, fs, hfs⟩ := exists_splitCommas l
      obtain ⟨f', fs', hfs'⟩ := exists_splitCommas (l ++ x)
      rw [if_neg hb, hfs, List.length_cons] at hk
      rw [if_neg hb, if_neg hb, hfs, hfs']
      have hkept := @ih k (by rw [hfs, List.length_cons]; exact hk)
      rw [hfs, hfs'] at hkept
      cases k with
      | zero =>
        obtain rfl : f' = f := Option.some.inj hkept
        rfl
      | succ k => exact hkept

theorem fields_of_valid {l : List UInt8} (h : Utf8.Valid l) : fields l = splitCommas l :=
  if_pos ((Utf8.isSome_fromUTF8? l).2 h)

theorem fields_of_not_valid {l : List UInt8} (h : ¬ Utf8.Valid l) : fields l = [[]] :=
  if_neg fun hsome => h ((Utf8.isSome_fromUTF8? l).1 hsome)

/-- `MQ1`. -/
def mq1 : List UInt8 := [77, 81, 49]

section Text

variable {F : Type} (t : Readers F)

/-- A header as the detector writes it: it counts its own bytes. -/
structure MqText (header : List UInt8) : Prop where
  ascii : Utf8.Ascii header
  magic : (splitCommas header)[0]? = some mq1
  enough : 7 ≤ (splitCommas header).length
  offset : (splitCommas header)[2]?.map t.atoi = some (header.length : Int)
  x_pos : 0 < t.atoi ((splitCommas header)[4]?.getD [])
  y_pos : 0 < t.atoi ((splitCommas header)[5]?.getD [])
  depth : depthOf t ((splitCommas header)[6]?.getD []) ∈ [8, 16, 32]

/-- The third field is within the first 64 bytes, as far as it is read. -/
def OffsetInFront (header : List UInt8) : Prop :=
  (splitCommas (header.take 64))[2]?.map t.atoi = some (header.length : Int)

/-- The offset is in front, and the pixels among the first 64 bytes are text. -/
def Readable (header payload : List UInt8) : Prop :=
  OffsetInFront t header ∧ Utf8.Valid (payload.take (64 - header.length))

variable {t} {header payload : List UInt8}

theorem MqText.length_pos (h : MqText t header) : 0 < header.length := by
  have henough := h.enough
  cases header with
  | nil =>
    rw [splitCommas, List.length_singleton] at henough
    omega
  | cons b header => exact Nat.succ_pos _

/-- A short header is in front as a whole. -/
theorem MqText.offsetInFront (h : MqText t header) (hshort : header.length ≤ 64) :
    OffsetInFront t header := by
  rw [OffsetInFront, List.take_of_length_le hshort]
  exact h.offset

theorem declaredOffset_pos {probe : List UInt8} {n : Nat} (hn : 0 < n) :
    declaredOffset t probe = n ↔
      Utf8.Valid probe ∧ (splitCommas probe)[2]?.map t.atoi = some (n : Int) := by
  unfold declaredOffset
  by_cases hvalid : Utf8.Valid probe
  · rw [fields_of_valid hvalid]
    cases hfield : (splitCommas probe)[2]? with
    | none =>
      rw [Option.map_none, Option.getD_none]
      exact iff_of_false (by omega) nofun
    | some tok =>
      rw [Option.map_some, Option.getD_some, Option.some_inj]
      exact (and_iff_right hvalid).symm
  · rw [fields_of_not_valid hvalid]
    exact iff_of_false (by show ¬ (0 : Int) = n; omega) fun h => hvalid h.1

theorem declaredOffset_iff (h : MqText t header) :
    declaredOffset t ((header ++ payload).take 64) = header.length ↔ Readable t header payload := by
  have hascii : Utf8.Ascii (header.take 64) := fun b hb => h.ascii b (List.mem_of_mem_take hb)
  have hfield : (splitCommas (header.take 64 ++ payload.take (64 - header.length)))[2]? =
      (splitCommas (header.take 64))[2]? := by
    by_cases hshort : header.length ≤ 64
    · rw [List.take_of_length_le hshort]
      exact splitCommas_append _ (by have := h.enough; omega)
    · rw [Nat.sub_eq_zero_of_le (by omega), List.take_zero, List.append_nil]
  rw [declaredOffset_pos h.length_pos, List.take_append, Utf8.valid_append hascii, hfield]
  exact and_comm

/-- What a header gives of the offset, the sizes and the depth. -/
theorem of_readHeader {offset : Int} {bodyLen : Nat} {f : List (List UInt8)} {m : MqHeader F}
    (h : readHeader t offset bodyLen f = .ok m) :
    0 < offset ∧ offset.toNat ≤ bodyLen ∧ m.offset = offset.toNat ∧
      m.xSize = (t.atoi (f[4]?.getD [])).toNat ∧ m.ySize = (t.atoi (f[5]?.getD [])).toNat ∧
      m.pixelDepth = depthOf t (f[6]?.getD []) := by
  unfold readHeader at h
  by_cases hfew : f.length < 7
  · rw [if_pos hfew] at h
    cases h
  · rw [if_neg hfew] at h
    by_cases hoffset : offset ≤ 0 ∨ offset.toNat > bodyLen
    · rw [if_pos hoffset] at h
      cases h
    · rw [if_neg hoffset] at h
      by_cases hsize : t.atoi (f[4]?.getD []) ≤ 0 ∨ t.atoi (f[5]?.getD []) ≤ 0
      · rw [if_pos hsize] at h
        cases h
      · rw [if_neg hsize] at h
        cases h
        exact ⟨by omega, by omega, rfl, rfl, rfl, rfl⟩

theorem MqText.readHeader_ok (h : MqText t header) (n : Nat) :
    ∃ m, readHeader t header.length (header.length + n) (splitCommas header) = .ok m := by
  have henough := h.enough
  have hpos := h.length_pos
  have hx := h.x_pos
  have hy := h.y_pos
  unfold readHeader
  rw [if_neg (by omega), if_neg (by omega), if_neg (by omega)]
  exact ⟨_, rfl⟩

theorem parseMqHeader_of_readable (h : MqText t header) (hread : Readable t header payload) :
    parseMqHeader t (header ++ payload) =
      readHeader t header.length (header.length + payload.length) (splitCommas header) := by
  have hpos := h.length_pos
  have hbound : (0 : Int) < header.length ∧
      (header.length : Int).toNat ≤ (header ++ payload).length := by
    rw [List.length_append]
    omega
  unfold parseMqHeader
  dsimp only
  rw [(declaredOffset_iff h).2 hread, if_pos hbound, Int.toNat_natCast, List.take_left,
    fields_of_valid (Utf8.valid_of_ascii h.ascii), List.length_append]

/-- Nothing else makes the payload start behind the header. -/
theorem parseMqHeader_offset (h : MqText t header) {m : MqHeader F}
    (hparse : parseMqHeader t (header ++ payload) = .ok m) (hoffset : m.offset = header.length) :
    Readable t header payload := by
  obtain ⟨hpos, -, hm, -⟩ := of_readHeader hparse
  apply (declaredOffset_iff h).1
  omega

end Text

end Merlin
