import EpicsIocs.Lib.Blocks
import EpicsIocs.Lib.Fallible
import EpicsIocs.Lib.Ints
import EpicsIocs.Lib.Text
import Mathlib.Data.List.Infix

/-! # The ASCII command layer

`octet.rs` between the bytes of a PLC variable and the text of a reply or of a command.  An
array is its elements behind each other, and in the text commas between them.

    asciiToBinary (binaryToAscii data) = data                              (ascii_round_trip)
    the bytes of a text fit the variable, unless it is a STRING of none    (write_bounded_iff) -/

namespace TwinCat.Octet

open Blocks Bytes Ints Text

/-! ## The code -/

inductive AdsType where
  | void
  | int8
  | uint8
  | int16
  | uint16
  | int32
  | uint32
  | int64
  | uint64
  | real32
  | real64
  | real80
  | bigType
  | string
  | wString
  | bit
  | unknown (id : UInt32)
  deriving DecidableEq, Repr

inductive OctetError where
  | invalidDataType (plc : AdsType)
  | badValue (text : List Char) (plc : AdsType)
  | bufferExceeded (size need : Nat)
  deriving DecidableEq, Repr

/-- What is outside: `%.6f` and the reading of a real, both on its bits, and the text of bytes. -/
structure Library where
  fixed32 : UInt32 → List Char
  fixed64 : UInt64 → List Char
  parse32 : List Char → Option UInt32
  parse64 : List Char → Option UInt64
  fromUtf8Lossy : List UInt8 → List Char

def dutAxisStatus : List Char := "DUT_AxisStatus_v0_01".toList

def axisStatusSize : Nat := 96

/-- The bytes of a text. -/
def asBytes (text : List Char) : List UInt8 := text.flatMap String.utf8EncodeChar

/-- `chunks_exact`. -/
def chunksExact (n : Nat) (data : List UInt8) : List (List UInt8) :=
  (List.range (data.length / n)).map (block n data)

def textWidth : AdsType → Option Nat
  | .int8 => some 1
  | .uint8 => some 1
  | .bit => some 1
  | .int16 => some 2
  | .uint16 => some 2
  | .int32 => some 4
  | .uint32 => some 4
  | .real32 => some 4
  | .int64 => some 8
  | .uint64 => some 8
  | .real64 => some 8
  | _ => none

section
variable (lib : Library)

/-- A type without a width has no element. -/
def formatElement (plc : AdsType) (c : List UInt8) : List Char :=
  match plc with
  | .int8 => decimal (Ints.int8.ofLeBytes c)
  | .uint8 => decimal (Ints.uint8.ofLeBytes c)
  | .bit => decimal (if c.getD 0 0 = 0 then 0 else 1)
  | .int16 => decimal (Ints.int16.ofLeBytes c)
  | .uint16 => decimal (Ints.uint16.ofLeBytes c)
  | .int32 => decimal (Ints.int32.ofLeBytes c)
  | .uint32 => decimal (Ints.uint32.ofLeBytes c)
  | .int64 => decimal (Ints.int64.ofLeBytes c)
  | .uint64 => decimal (Ints.uint64.ofLeBytes c)
  | .real32 => lib.fixed32 (UInt32.ofNat (leNat c))
  | .real64 => lib.fixed64 (UInt64.ofNat (leNat c))
  | _ => []

def axisStatusToAscii (data : List UInt8) (name : List Char) : Except OctetError (List Char) :=
  if data.length < axisStatusSize then .error (.bufferExceeded data.length axisStatusSize)
  else
    let b off := decimal (if data.getD off 0 = 0 then 0 else 1)
    let u16At off := decimal (leNat ((data.drop off).take 2))
    let u32At off := decimal (leNat ((data.drop off).take 4))
    let f64At off := lib.fixed64 (UInt64.ofNat (leNat ((data.drop off).take 8)))
    let fields := [b 0, b 1, b 2, u16At 4, u16At 6, f64At 8, f64At 16, f64At 24, f64At 32,
      b 40, b 41, b 42, b 43, f64At 48, b 56, b 57, b 58, u32At 60, f64At 64, f64At 72, f64At 80,
      b 88, b 89]
    .ok (name ++ '=' :: [','].intercalate fields ++ [';'])

def binaryToAscii (data : List UInt8) (plc : AdsType) (size : Nat) (name typeName : List Char) :
    Except OctetError (List Char) :=
  if plc = .bigType then
    if dutAxisStatus <:+: typeName then axisStatusToAscii lib data name
    else .error (.invalidDataType plc)
  else if plc = .string then .ok (lib.fromUtf8Lossy (data.takeWhile (· ≠ 0)))
  else
    match textWidth plc with
    | none => .error (.invalidDataType plc)
    | some elem =>
      let total := min size data.length
      if total < elem then .error (.bufferExceeded data.length elem)
      else .ok ([','].intercalate ((chunksExact elem (data.take total)).map (formatElement lib plc)))

def parseElement (plc : AdsType) (t : List Char) : Option (List UInt8) :=
  match plc with
  | .int8 => (Ints.int8.parse t).map Ints.int8.toLeBytes
  | .uint8 => (Ints.uint8.parse t).map Ints.uint8.toLeBytes
  | .bit => (Ints.uint8.parse t).map fun v => [if v = 0 then 0 else 1]
  | .int16 => (Ints.int16.parse t).map Ints.int16.toLeBytes
  | .uint16 => (Ints.uint16.parse t).map Ints.uint16.toLeBytes
  | .int32 => (Ints.int32.parse t).map Ints.int32.toLeBytes
  | .uint32 => (Ints.uint32.parse t).map Ints.uint32.toLeBytes
  | .int64 => (Ints.int64.parse t).map Ints.int64.toLeBytes
  | .uint64 => (Ints.uint64.parse t).map Ints.uint64.toLeBytes
  | .real32 => (lib.parse32 t).map fun bits => leBytes 4 bits.toNat
  | .real64 => (lib.parse64 t).map fun bits => leBytes 8 bits.toNat
  | _ => none

/-- The fields of a text, `out` what the ones before them gave. -/
def parseFields (plc : AdsType) (elem bufSize : Nat) :
    List UInt8 → List (List Char) → Except OctetError (List UInt8)
  | out, [] => .ok out
  | out, field :: fields =>
    let t := trim field
    match parseElement lib plc t with
    | none => .error (.badValue t plc)
    | some bytes =>
      if out.length + elem > bufSize then .error (.bufferExceeded bufSize (out.length + elem))
      else parseFields plc elem bufSize (out ++ bytes) fields

def asciiToBinary (text : List Char) (plc : AdsType) (bufSize : Nat) :
    Except OctetError (List UInt8) :=
  if plc = .string then
    let out := (asBytes text).take bufSize
    if out.length = bufSize ∧ 0 < bufSize then .ok (out.set (bufSize - 1) 0) else .ok (out ++ [0])
  else
    match textWidth plc with
    | none => .error (.invalidDataType plc)
    | some elem => parseFields lib plc elem bufSize [] (text.splitOn ',')

end

/-! ## There and back -/

/-- The integer types. -/
def AdsType.intType : AdsType → Option IntType
  | .int8 => some Ints.int8
  | .uint8 => some Ints.uint8
  | .int16 => some Ints.int16
  | .uint16 => some Ints.uint16
  | .int32 => some Ints.int32
  | .uint32 => some Ints.uint32
  | .int64 => some Ints.int64
  | .uint64 => some Ints.uint64
  | _ => none

/-- What a BIT is after a round trip. -/
def truth (b : UInt8) : UInt8 := if b = 0 then 0 else 1

section
variable {lib : Library} {plc : AdsType} {t : IntType}

theorem textWidth_of_int (h : plc.intType = some t) : textWidth plc = some t.bytes := by
  cases plc <;> cases h <;> rfl

theorem bytes_pos_of_int (h : plc.intType = some t) : 0 < t.bytes := by
  cases plc <;> cases h <;> decide

theorem formatElement_of_int (h : plc.intType = some t) (c : List UInt8) :
    formatElement lib plc c = decimal (t.ofLeBytes c) := by
  cases plc <;> cases h <;> rfl

theorem parseElement_of_int (h : plc.intType = some t) (text : List Char) :
    parseElement lib plc text = (t.parse text).map t.toLeBytes := by
  cases plc <;> cases h <;> rfl

theorem solid_decimal (v : Int) : ∀ c ∈ decimal v, isWhitespace c = false := by
  intro c hc
  rcases mem_decimal hc with rfl | hdigit
  · decide
  · exact isWhitespace_of_isDigit hdigit

theorem comma_not_mem_decimal (v : Int) : ',' ∉ decimal v := by
  intro hmem
  rcases mem_decimal hmem with hminus | hdigit
  · exact absurd hminus (by decide)
  · exact absurd hdigit (by decide)

/-- An element of an integer type comes back. -/
theorem parse_format_int (h : plc.intType = some t) {c : List UInt8} (hc : c.length = t.bytes) :
    parseElement lib plc (trim (formatElement lib plc c)) = some c := by
  have hholds := IntType.ofLeBytes_holds hc (bytes_pos_of_int h)
  rw [formatElement_of_int h, trim_of_solid (solid_decimal _), parseElement_of_int h,
    IntType.parse_decimal hholds, Option.map_some, IntType.toLeBytes_ofLeBytes hc]

theorem parse_format_bit {c : List UInt8} (hc : c.length = 1) :
    parseElement lib .bit (trim (formatElement lib .bit c)) = some (c.map truth) := by
  obtain ⟨b, rfl⟩ := List.length_eq_one_iff.1 hc
  have hformat : formatElement lib .bit [b] = decimal (if b = 0 then 0 else 1) := rfl
  have hparse : ∀ v : Int, 0 ≤ v → v < 256 →
      parseElement lib .bit (decimal v) = some [if v = 0 then 0 else 1] := by
    intro v hlo hhi
    have hholds : Ints.uint8.Holds v := ⟨hlo, hhi⟩
    show (Ints.uint8.parse (decimal v)).map _ = _
    rw [IntType.parse_decimal hholds, Option.map_some]
  rw [hformat, trim_of_solid (solid_decimal _), List.map_singleton, truth]
  by_cases hb : b = 0
  · rw [if_pos hb, if_pos hb, hparse 0 (by decide) (by decide), if_pos rfl]
  · rw [if_neg hb, if_neg hb, hparse 1 (by decide) (by decide), if_neg (by decide)]

/-- Fields that all come back, one element each. -/
theorem parseFields_format {elem bufSize : Nat} {f : List UInt8 → List UInt8}
    {chunks : List (List UInt8)} (out : List UInt8)
    (hparse : ∀ c ∈ chunks,
      parseElement lib plc (trim (formatElement lib plc c)) = some (f c) ∧ (f c).length = elem)
    (hfits : out.length + chunks.length * elem ≤ bufSize) :
    parseFields lib plc elem bufSize out (chunks.map (formatElement lib plc)) =
      .ok (out ++ (chunks.map f).flatten) := by
  induction chunks generalizing out with
  | nil => simp [parseFields]
  | cons c chunks ih =>
    obtain ⟨hc, hlen⟩ := hparse c List.mem_cons_self
    have hstep : (c :: chunks).length * elem = elem + chunks.length * elem := by
      rw [List.length_cons, Nat.succ_mul, Nat.add_comm]
    have hroom : ¬ out.length + elem > bufSize := by omega
    have hrest : (out ++ f c).length + chunks.length * elem ≤ bufSize := by
      rw [List.length_append, hlen]
      omega
    rw [List.map_cons, parseFields, hc]
    dsimp only
    rw [if_neg hroom, ih _ (fun c hc => hparse c (List.mem_cons_of_mem _ hc)) hrest,
      List.map_cons, List.flatten_cons, List.append_assoc]

theorem chunksExact_spec {elem : Nat} {data : List UInt8}
    (hmul : data.length % elem = 0) :
    (chunksExact elem data).length * elem = data.length ∧
      (chunksExact elem data).flatten = data ∧ ∀ c ∈ chunksExact elem data, c.length = elem := by
  have hlen : data.length = data.length / elem * elem :=
    (Nat.div_mul_cancel (Nat.dvd_of_mod_eq_zero hmul)).symm
  refine ⟨?_, flatten_block hlen, ?_⟩
  · rw [chunksExact, List.length_map, List.length_range]
    exact hlen.symm
  · intro c hc
    obtain ⟨k, hk, rfl⟩ := List.mem_map.1 hc
    have hle : (k + 1) * elem ≤ data.length / elem * elem :=
      Nat.mul_le_mul_right _ (List.mem_range.1 hk)
    exact length_block (hlen ▸ hle)

/-- What comes back of data whose elements come back. -/
theorem round_trip_of {elem : Nat} {f : List UInt8 → List UInt8} {data : List UInt8}
    (hwidth : textWidth plc = some elem) (hne : data ≠ [])
    (hmul : data.length % elem = 0) (name typeName : List Char)
    (hcomma : ∀ c, ',' ∉ formatElement lib plc c)
    (hparse : ∀ c : List UInt8, c.length = elem →
      parseElement lib plc (trim (formatElement lib plc c)) = some (f c) ∧ (f c).length = elem) :
    ((binaryToAscii lib data plc data.length name typeName).bind fun text =>
      asciiToBinary lib text plc data.length) = .ok ((chunksExact elem data).map f).flatten := by
  obtain ⟨hcount, -, hchunk⟩ := chunksExact_spec hmul
  have hbig : plc ≠ .bigType := by
    rintro rfl
    cases hwidth
  have hstring : plc ≠ .string := by
    rintro rfl
    cases hwidth
  have henough : ¬ min data.length data.length < elem := by
    have hdvd := Nat.le_of_dvd (List.length_pos_iff.2 hne) (Nat.dvd_of_mod_eq_zero hmul)
    omega
  have hsome : (chunksExact elem data).map (formatElement lib plc) ≠ [] := by
    intro hnil
    rw [List.map_eq_nil_iff] at hnil
    rw [hnil, List.length_nil, Nat.zero_mul] at hcount
    exact hne (List.eq_nil_of_length_eq_zero hcount.symm)
  have hfields : ([','].intercalate ((chunksExact elem data).map (formatElement lib plc))).splitOn
      ',' = (chunksExact elem data).map (formatElement lib plc) := by
    apply List.splitOn_intercalate _ _ hsome
    intro text htext
    obtain ⟨c, -, rfl⟩ := List.mem_map.1 htext
    exact hcomma c
  have hfit : ([] : List UInt8).length + (chunksExact elem data).length * elem ≤ data.length := by
    rw [List.length_nil, hcount, Nat.zero_add]
  have hparsed := @parseFields_format lib plc elem data.length f (chunksExact elem data) []
    (fun c hc => hparse c (hchunk c hc)) hfit
  rw [binaryToAscii, if_neg hbig, if_neg hstring, hwidth]
  dsimp only
  rw [if_neg henough, Nat.min_self, List.take_length]
  show asciiToBinary lib _ plc data.length = _
  rw [asciiToBinary, if_neg hstring, hwidth]
  dsimp only
  rw [hfields, hparsed, List.nil_append]

/-- **Round trip.** -/
theorem ascii_round_trip (lib : Library) (data : List UInt8) (hne : data ≠ [])
    (name typeName : List Char) :
    (∀ plc t, AdsType.intType plc = some t → data.length % t.bytes = 0 →
      ((binaryToAscii lib data plc data.length name typeName).bind fun text =>
        asciiToBinary lib text plc data.length) = .ok data) ∧
    ((binaryToAscii lib data .bit data.length name typeName).bind fun text =>
      asciiToBinary lib text .bit data.length) = .ok (data.map truth) := by
  constructor
  · intro plc t h hmul
    obtain ⟨-, hflat, -⟩ := chunksExact_spec hmul
    rw [round_trip_of (f := id) (textWidth_of_int h) hne hmul, List.map_id, hflat]
    · intro c
      rw [formatElement_of_int h]
      exact comma_not_mem_decimal _
    · intro c hc
      exact ⟨parse_format_int h hc, hc⟩
  · have hmul : data.length % 1 = 0 := Nat.mod_one _
    obtain ⟨-, hflat, -⟩ := chunksExact_spec hmul
    rw [round_trip_of (f := fun c => c.map truth) rfl hne hmul,
      ← List.map_flatten, hflat]
    · exact fun c => comma_not_mem_decimal _
    · intro c hc
      exact ⟨parse_format_bit hc, by rw [List.length_map, hc]⟩

/-- Three INT16 at the ends of their range. -/
theorem ascii_round_trip_int16 :
    ((binaryToAscii ⟨fun _ => [], fun _ => [], fun _ => none, fun _ => none, fun _ => []⟩
        [0xff, 0x7f, 0x00, 0x80, 0xff, 0xff] .int16 6 [] []).bind fun text =>
      asciiToBinary ⟨fun _ => [], fun _ => [], fun _ => none, fun _ => none, fun _ => []⟩
        text .int16 6) = .ok [0xff, 0x7f, 0x00, 0x80, 0xff, 0xff] :=
  (ascii_round_trip _ [0xff, 0x7f, 0x00, 0x80, 0xff, 0xff] (by decide) [] []).1 .int16 Ints.int16
    rfl (by decide)

/-! ## What a write may fill -/

theorem length_parseElement {elem : Nat} {text : List Char} {bytes : List UInt8}
    (hwidth : textWidth plc = some elem) (h : parseElement lib plc text = some bytes) :
    bytes.length = elem := by
  cases hint : plc.intType with
  | some t =>
    rw [parseElement_of_int hint] at h
    rw [textWidth_of_int hint] at hwidth
    obtain ⟨v, -, rfl⟩ := Option.map_eq_some_iff.1 h
    cases hwidth
    exact IntType.length_toLeBytes v
  | none =>
    cases plc with
    | bit =>
      obtain ⟨v, -, rfl⟩ := Option.map_eq_some_iff.1 h
      cases hwidth
      rfl
    | real32 =>
      obtain ⟨bits, -, rfl⟩ := Option.map_eq_some_iff.1 h
      cases hwidth
      exact length_leBytes _ _
    | real64 =>
      obtain ⟨bits, -, rfl⟩ := Option.map_eq_some_iff.1 h
      cases hwidth
      exact length_leBytes _ _
    | _ =>
      first
        | exact absurd hint (Option.some_ne_none _)
        | exact absurd h.symm (Option.some_ne_none _)

theorem length_parseFields {elem bufSize : Nat} {fields : List (List Char)} {out bytes : List UInt8}
    (hwidth : textWidth plc = some elem) (hout : out.length ≤ bufSize)
    (h : parseFields lib plc elem bufSize out fields = .ok bytes) : bytes.length ≤ bufSize := by
  induction fields generalizing out with
  | nil =>
    obtain rfl := Except.ok.inj h
    exact hout
  | cons field fields ih =>
    rw [parseFields] at h
    cases hparse : parseElement lib plc (trim field) with
    | none =>
      rw [hparse] at h
      cases h
    | some b =>
      rw [hparse] at h
      obtain ⟨hroom, h⟩ := Fallible.of_guard h
      refine ih ?_ h
      rw [List.length_append, length_parseElement hwidth hparse]
      omega

/-- A STRING is cut where it would leave no place for its NUL. -/
theorem asciiToBinary_string (lib : Library) (text : List Char) (bufSize : Nat) :
    ∃ bytes, asciiToBinary lib text .string bufSize = .ok bytes ∧
      bytes.getLast? = some 0 ∧ (0 < bufSize → bytes.length ≤ bufSize) ∧
      (bufSize = 0 → bytes = [0]) := by
  have htake := List.length_take_le bufSize (asBytes text)
  rw [asciiToBinary, if_pos rfl]
  dsimp only
  split
  · rename_i hfull
    obtain ⟨hlen, hpos⟩ := hfull
    refine ⟨_, rfl, ?_, ?_, ?_⟩
    · rw [List.getLast?_eq_getElem?, List.length_set, hlen]
      exact List.getElem?_set_self (by omega)
    · intro _
      rw [List.length_set]
      omega
    · intro hzero
      omega
  · rename_i hfull
    refine ⟨_, rfl, List.getLast?_concat, ?_, ?_⟩
    · intro hpos
      have hless : (List.take bufSize (asBytes text)).length ≠ bufSize := fun heq => hfull ⟨heq, hpos⟩
      rw [List.length_append, List.length_singleton]
      omega
    · rintro rfl
      rfl

/-- The bytes fit, and a STRING that has a place ends in its NUL. -/
def Bounded (lib : Library) (text : List Char) (plc : AdsType) (bufSize : Nat) : Prop :=
  ∀ bytes, asciiToBinary lib text plc bufSize = .ok bytes →
    bytes.length ≤ bufSize ∧ (plc = .string → 0 < bufSize → bytes.getLast? = some 0)

/-- **Only a STRING of no bytes is overrun**, by its NUL. -/
theorem write_bounded_iff (lib : Library) (text : List Char) (plc : AdsType) (bufSize : Nat) :
    Bounded lib text plc bufSize ↔ ¬ (plc = .string ∧ bufSize = 0) := by
  by_cases hstring : plc = .string
  · subst hstring
    obtain ⟨bytes, hok, hlast, hfits, hzero⟩ := asciiToBinary_string lib text bufSize
    constructor
    · rintro hbounded ⟨-, hnone⟩
      have hlen := (hbounded bytes hok).1
      rw [hzero hnone, hnone] at hlen
      exact absurd hlen (by decide)
    · intro hsome bytes' hok'
      obtain rfl := Except.ok.inj (hok.symm.trans hok')
      have hpos : 0 < bufSize := by
        refine Nat.pos_of_ne_zero fun hnone => ?_
        exact hsome ⟨rfl, hnone⟩
      exact ⟨hfits hpos, fun _ _ => hlast⟩
  · constructor
    · rintro - ⟨hplc, -⟩
      exact hstring hplc
    · intro _ bytes hok
      refine ⟨?_, fun hplc => absurd hplc hstring⟩
      rw [asciiToBinary, if_neg hstring] at hok
      cases hwidth : textWidth plc with
      | none =>
        rw [hwidth] at hok
        cases hok
      | some elem =>
        rw [hwidth] at hok
        exact length_parseFields hwidth (Nat.zero_le _) hok

/-- A text for a STRING of no bytes is one byte. -/
theorem string_overruns_nothing :
    ¬ ∀ (lib : Library) (text : List Char) (plc : AdsType) (bufSize : Nat),
      Bounded lib text plc bufSize := by
  intro hclaim
  have hbounded := hclaim ⟨fun _ => [], fun _ => [], fun _ => none, fun _ => none, fun _ => []⟩
    ['H', 'i'] .string 0
  exact absurd (hbounded [0] rfl).1 (by decide)

end

end TwinCat.Octet
