import Mathlib.Data.BitVec
import EpicsIocs.EtherIp.Cip
import EpicsIocs.Lib.Faults

/-! # Elements of a raw tag buffer

The value accessors of `cip.rs` over `[type][data]`: the offset of an element is a product and a
sum in `usize`, the read behind it is bounded by the buffer.

    getX checks raw element = get (valueAt decodeX raw element) ()     (getElement_eq)
    putX checks raw element = .ok (storeAt encodeX raw element)        (putElement_eq)

where the element's end fits 64 bits, in both builds.  A string is read from as much of its slot as
the buffer has (`getString_eq`), and written to the first slot only (`putString_eq`). -/

namespace EtherIp.Raw

open Bytes Faults Machine

/-! ## Words of a buffer -/

/-- `b.get(start..stop)`. -/
def getRange (b : List UInt8) (start stop : Nat) : Option (List UInt8) :=
  if start ≤ stop ∧ stop ≤ b.length then some ((b.drop start).take (stop - start)) else none

/-- `rd_u16`, `rd_u32` and `rd_u64`, for `n` bytes; `fail ()` is `None`. -/
def rd (checks : Bool) (n : Nat) (b : List UInt8) (i : Nat) : Outcome Unit Nat :=
  (add checks i n).bind fun stop => get ((getRange b i stop).map leNat) ()

/-- `b.get(i)`. -/
def rdU8 (b : List UInt8) (i : Nat) : Outcome Unit Nat := get (b[i]?.map UInt8.toNat) ()

/-- The answer of `wr_slice` and the buffer behind it. -/
def wrSlice (checks : Bool) (b : List UInt8) (i : Nat) (src : List UInt8) :
    Outcome Unit (Bool × List UInt8) :=
  (add checks i src.length).map fun stop =>
    if i ≤ stop ∧ stop ≤ b.length then (true, b.take i ++ src ++ b.drop stop) else (false, b)

/-- Byte offset of an element. -/
def elemOff (checks : Bool) (t : CipType) (element : Nat) : Outcome Unit Nat :=
  (mul checks element t.size).bind fun n => add checks typecodeSize n

/-! ## Numbers -/

/-- What the accessors take from floating point. -/
structure Floats (F : Type) where
  ofInt : Int → F
  ofBits32 : BitVec 32 → F
  ofBits64 : BitVec 64 → F
  toI32 : F → BitVec 32
  toU32 : F → BitVec 32
  toI64 : F → BitVec 64
  bits32 : F → BitVec 32
  bits64 : F → BitVec 64
  bits32OfInt : Int → BitVec 32

/-- How the bytes of an element are read: how many, and their value. -/
abbrev Decoder (β : Type) := CipType → Option (Nat × (Nat → β))

/-- The bytes that are written to an element. -/
abbrev Encoder := CipType → Option (List UInt8)

def getElement {β : Type} (checks : Bool) (decode : Decoder β) (raw : List UInt8) (element : Nat) :
    Outcome Unit β :=
  (get (typecode raw) ()).bind fun t =>
  (elemOff checks t element).bind fun i =>
  match decode t with
  | none => fail ()
  | some (n, value) => (if n = 1 then rdU8 raw i else rd checks n raw i).map value

def putElement (checks : Bool) (encode : Encoder) (raw : List UInt8) (element : Nat) :
    Outcome Unit (Bool × List UInt8) :=
  match typecode raw with
  | none => .ok (false, raw)
  | some t =>
    (elemOff checks t element).bind fun i =>
    match encode t with
    | none => .ok (false, raw)
    | some src => wrSlice checks raw i src

variable {F : Type} (conv : Floats F)

def decodeDouble : Decoder F
  | .bool => some (1, fun v => conv.ofInt v)
  | .sint => some (1, fun v => conv.ofInt (BitVec.ofNat 8 v).toInt)
  | .int => some (2, fun v => conv.ofInt (BitVec.ofNat 16 v).toInt)
  | .uint => some (2, fun v => conv.ofInt v)
  | .dint => some (4, fun v => conv.ofInt (BitVec.ofNat 32 v).toInt)
  | .bits => some (4, fun v => conv.ofInt v)
  | .lint => some (8, fun v => conv.ofInt (BitVec.ofNat 64 v).toInt)
  | .ulint => some (8, fun v => conv.ofInt v)
  | .real => some (4, fun v => conv.ofBits32 (BitVec.ofNat 32 v))
  | .lreal => some (8, fun v => conv.ofBits64 (BitVec.ofNat 64 v))
  | .string | .struct | .unknown _ => none

/-- SINT is read unsigned here, INT and UINT signed. -/
def decodeDint : Decoder (BitVec 32)
  | .bool | .sint => some (1, fun v => BitVec.ofNat 32 v)
  | .int | .uint => some (2, fun v => (BitVec.ofNat 16 v).signExtend 32)
  | .dint | .bits => some (4, fun v => BitVec.ofNat 32 v)
  | .real => some (4, fun v => conv.toI32 (conv.ofBits32 (BitVec.ofNat 32 v)))
  | .lreal => some (8, fun v => conv.toI32 (conv.ofBits64 (BitVec.ofNat 64 v)))
  | .lint | .ulint | .string | .struct | .unknown _ => none

def decodeUdint : Decoder (BitVec 32)
  | .bool | .sint => some (1, fun v => BitVec.ofNat 32 v)
  | .int | .uint => some (2, fun v => BitVec.ofNat 32 v)
  | .dint | .bits => some (4, fun v => BitVec.ofNat 32 v)
  | .real => some (4, fun v => conv.toU32 (conv.ofBits32 (BitVec.ofNat 32 v)))
  | .lreal => some (8, fun v => conv.toU32 (conv.ofBits64 (BitVec.ofNat 64 v)))
  | .lint | .ulint | .string | .struct | .unknown _ => none

def decodeLint : Decoder (BitVec 64)
  | .lint | .ulint => some (8, fun v => BitVec.ofNat 64 v)
  | _ => none

def decodeUsint : Decoder UInt8
  | .bool | .sint => some (1, fun v => UInt8.ofNat v)
  | _ => none

def getDouble (checks : Bool) : List UInt8 → Nat → Outcome Unit F :=
  getElement checks (decodeDouble conv)
def getDint (checks : Bool) : List UInt8 → Nat → Outcome Unit (BitVec 32) :=
  getElement checks (decodeDint conv)
def getUdint (checks : Bool) : List UInt8 → Nat → Outcome Unit (BitVec 32) :=
  getElement checks (decodeUdint conv)
def getLint (checks : Bool) : List UInt8 → Nat → Outcome Unit (BitVec 64) :=
  getElement checks decodeLint

/-- Unlike the others this one has the offset computed only for the types that it reads. -/
def getUsint (checks : Bool) (raw : List UInt8) (element : Nat) : Outcome Unit UInt8 :=
  (get (typecode raw) ()).bind fun t =>
  match t with
  | .bool | .sint =>
    (elemOff checks t element).bind fun i => (rdU8 raw i).map UInt8.ofNat
  | _ => fail ()

def encodeDouble (value : F) : Encoder
  | .bool | .sint => some (leBytes 1 (conv.toI64 value).toNat)
  | .int | .uint => some (leBytes 2 (conv.toI64 value).toNat)
  | .dint | .bits => some (leBytes 4 (conv.toI64 value).toNat)
  | .lint | .ulint => some (leBytes 8 (conv.toI64 value).toNat)
  | .real => some (leBytes 4 (conv.bits32 value).toNat)
  | .lreal => some (leBytes 8 (conv.bits64 value).toNat)
  | .string | .struct | .unknown _ => none

/-- A signed value; LINT and ULINT are written though they are not read. -/
def encodeDint (value : BitVec 32) : Encoder
  | .bool | .sint => some (leBytes 1 value.toNat)
  | .int | .uint => some (leBytes 2 value.toNat)
  | .dint | .bits => some (leBytes 4 value.toNat)
  | .lint | .ulint => some (leBytes 8 (value.signExtend 64).toNat)
  | .real => some (leBytes 4 (conv.bits32OfInt value.toInt).toNat)
  | .lreal => some (leBytes 8 (conv.bits64 (conv.ofInt value.toInt)).toNat)
  | .string | .struct | .unknown _ => none

def encodeUdint (value : BitVec 32) : Encoder
  | .bool | .sint => some (leBytes 1 value.toNat)
  | .int | .uint => some (leBytes 2 value.toNat)
  | .dint | .bits => some (leBytes 4 value.toNat)
  | .real => some (leBytes 4 (conv.bits32OfInt value.toNat).toNat)
  | .lreal => some (leBytes 8 (conv.bits64 (conv.ofInt value.toNat)).toNat)
  | .lint | .ulint | .string | .struct | .unknown _ => none

def encodeLint (value : BitVec 64) : Encoder
  | .lint | .ulint => some (leBytes 8 value.toNat)
  | _ => none

def putDouble (checks : Bool) (raw : List UInt8) (element : Nat) (value : F) :
    Outcome Unit (Bool × List UInt8) := putElement checks (encodeDouble conv value) raw element
def putDint (checks : Bool) (raw : List UInt8) (element : Nat) (value : BitVec 32) :
    Outcome Unit (Bool × List UInt8) := putElement checks (encodeDint conv value) raw element
def putUdint (checks : Bool) (raw : List UInt8) (element : Nat) (value : BitVec 32) :
    Outcome Unit (Bool × List UInt8) := putElement checks (encodeUdint conv value) raw element
def putLint (checks : Bool) (raw : List UInt8) (element : Nat) (value : BitVec 64) :
    Outcome Unit (Bool × List UInt8) := putElement checks (encodeLint value) raw element

/-! ## Strings -/

def structStringLenBytes : Nat := 4
def structStringMax : Nat := 82
def structStringBuf : Nat := 84
def structStringStride : Nat := structStringLenBytes + structStringBuf

/-- The text of valid UTF-8; `lossy` is what is made of other bytes. -/
def fromUtf8Lossy (lossy : List UInt8 → String) (b : List UInt8) : String :=
  (String.fromUTF8? ⟨b.toArray⟩).getD (lossy b)

/-- The characters of a string element, before a NUL ends them. -/
def stringBytes (checks : Bool) (raw : List UInt8) (element cap : Nat) : Outcome Unit (List UInt8) :=
  (get (typecode raw) ()).bind fun t =>
  match t with
  | .string => (get (getRange raw (typecodeSize + 2) raw.length) ()).map fun data => data.take cap
  | .struct =>
    (rd checks 2 raw typecodeSize).bind fun handle =>
    if handle ≠ structStringHandle then fail ()
    else
      (mul checks element structStringStride).bind fun n =>
      (add checks (typecodeSize + 2) n).bind fun base =>
      (rd checks 2 raw base).bind fun len =>
      (add checks base structStringLenBytes).bind fun start =>
      (get (getRange raw start raw.length) ()).map fun text =>
        text.take (min (min (min len cap) text.length) structStringBuf)
  | _ => fail ()

/-- At most `max` bytes with the terminator. -/
def getString (lossy : List UInt8 → String) (checks : Bool) (raw : List UInt8) (element max : Nat) :
    Outcome Unit String :=
  if max = 0 then fail ()
  else (stringBytes checks raw element (max - 1)).map fun b =>
    fromUtf8Lossy lossy (b.takeWhile (· != 0))

/-- Where the length word and the text of the string are that is written. -/
def lenAt : Nat := typecodeSize + 2
def textAt : Nat := lenAt + structStringLenBytes

/-- How much of a text is written. -/
def stagedLen (raw value : List UInt8) : Nat :=
  min (min value.length (raw.length - textAt - 1)) structStringMax

/-- The text goes to the front of the buffer: no element is given. -/
def putString (raw value : List UInt8) : Bool × List UInt8 :=
  if typecode raw ≠ some .struct then (false, raw)
  else
    match rdNat? raw typecodeSize 2 with
    | none => (false, raw)
    | some handle =>
      if handle ≠ structStringHandle then (false, raw)
      else if textAt ≥ raw.length then (false, raw)
      else
        match overwrite? raw lenAt (leBytes 2 (stagedLen raw value)) with
        | none => (false, raw)
        | some raw' =>
          match overwrite? raw' textAt (value.take (stagedLen raw value)) with
          | none => (false, raw')
          | some raw'' => (true, raw''.set (textAt + stagedLen raw value) 0)

/-! ## Where nothing overflows -/

/-- The value of the bytes of an element that lies inside the buffer. -/
def valueAt {β : Type} (decode : Decoder β) (raw : List UInt8) (element : Nat) : Option β :=
  (typecode raw).bind fun t => (decode t).bind fun d =>
    (rdNat? raw (typecodeSize + element * t.size) t.size).map d.2

/-- Whether the bytes are written to an element that lies inside the buffer, and the buffer. -/
def storeAt (encode : Encoder) (raw : List UInt8) (element : Nat) : Bool × List UInt8 :=
  match (typecode raw).bind fun t => (encode t).bind fun src =>
      overwrite? raw (typecodeSize + element * t.size) src with
  | some raw' => (true, raw')
  | none => (false, raw)

/-- The end of the element is a `usize`. -/
def OffsetFits (raw : List UInt8) (element : Nat) : Prop :=
  ∀ t, typecode raw = some t → typecodeSize + element * t.size + t.size ≤ u64Max

/-- Each type is read by as many bytes as it has. -/
def Decoder.Sized {β : Type} (decode : Decoder β) : Prop :=
  ∀ t d, decode t = some d → d.1 = t.size

def Encoder.Sized (encode : Encoder) : Prop := ∀ t src, encode t = some src → src.length = t.size

theorem rd_eq {checks : Bool} {n i : Nat} (b : List UInt8) (h : i + n ≤ u64Max) :
    rd checks n b i = get (rdNat? b i n) () := by
  rw [rd, add_of_le h, ok_bind]
  have hrange : getRange b i (i + n) = slice? b i n := by
    unfold getRange slice?
    rw [Nat.add_sub_cancel_left]
    simp
  rw [hrange]
  rfl

theorem rdU8_eq (b : List UInt8) (i : Nat) : rdU8 b i = get (rdNat? b i 1) () := by
  have hread : rdNat? b i 1 = b[i]?.map UInt8.toNat := by
    unfold rdNat? slice?
    by_cases hi : i < b.length
    · rw [if_pos (Nat.succ_le_of_lt hi), List.getElem?_eq_getElem hi, List.drop_eq_getElem_cons hi]
      rfl
    · rw [if_neg (by omega), List.getElem?_eq_none (by omega)]
      rfl
  rw [rdU8, hread]

theorem wrSlice_eq {checks : Bool} {i : Nat} {src : List UInt8} (b : List UInt8)
    (h : i + src.length ≤ u64Max) :
    wrSlice checks b i src = .ok (match overwrite? b i src with
      | some b' => (true, b')
      | none => (false, b)) := by
  rw [wrSlice, add_of_le h]
  refine congrArg Except.ok ?_
  show (if i ≤ i + src.length ∧ i + src.length ≤ b.length then _ else _) = _
  unfold overwrite?
  by_cases hle : i + src.length ≤ b.length
  · rw [if_pos hle, if_pos ⟨Nat.le_add_right _ _, hle⟩]
  · rw [if_neg hle, if_neg fun hand => hle hand.2]

theorem elemOff_eq {checks : Bool} {t : CipType} {element : Nat}
    (h : typecodeSize + element * t.size + t.size ≤ u64Max) :
    elemOff checks t element = .ok (typecodeSize + element * t.size) := by
  rw [elemOff, mul_of_le (by omega), ok_bind, add_of_le (by omega)]

theorem getElement_eq {β : Type} {checks : Bool} {decode : Decoder β} (hdecode : decode.Sized)
    {raw : List UInt8} {element : Nat} (h : OffsetFits raw element) :
    getElement checks decode raw element = get (valueAt decode raw element) () := by
  unfold getElement valueAt
  cases ht : typecode raw with
  | none => rfl
  | some t =>
    have hfits := h t ht
    rw [get_some, ok_bind, elemOff_eq hfits, ok_bind, Option.bind_some]
    cases hd : decode t with
    | none => rfl
    | some d =>
      obtain ⟨n, value⟩ := d
      obtain rfl : n = t.size := hdecode t _ hd
      rw [Option.bind_some, get_map]
      dsimp only
      by_cases hone : t.size = 1
      · rw [if_pos hone, rdU8_eq, hone]
      · rw [if_neg hone, rd_eq raw hfits]

theorem putElement_eq {checks : Bool} {encode : Encoder} (hencode : encode.Sized)
    {raw : List UInt8} {element : Nat} (h : OffsetFits raw element) :
    putElement checks encode raw element = .ok (storeAt encode raw element) := by
  unfold putElement storeAt
  cases ht : typecode raw with
  | none => rfl
  | some t =>
    have hfits := h t ht
    dsimp only
    rw [elemOff_eq hfits, ok_bind, Option.bind_some]
    cases hsrc : encode t with
    | none => rfl
    | some src =>
      rw [Option.bind_some]
      exact wrSlice_eq raw (by rw [hencode t src hsrc]; exact hfits)

theorem decodeDouble_sized : (decodeDouble conv).Sized := by
  intro t d h
  cases t <;> cases h <;> rfl

theorem decodeDint_sized : (decodeDint conv).Sized := by
  intro t d h
  cases t <;> cases h <;> rfl

theorem decodeUdint_sized : (decodeUdint conv).Sized := by
  intro t d h
  cases t <;> cases h <;> rfl

theorem decodeLint_sized : Decoder.Sized decodeLint := by
  intro t d h
  cases t <;> cases h <;> rfl

theorem encodeDouble_sized (value : F) : (encodeDouble conv value).Sized := by
  intro t src h
  cases t <;> cases h <;> exact length_leBytes _ _

theorem encodeDint_sized (value : BitVec 32) : (encodeDint conv value).Sized := by
  intro t src h
  cases t <;> cases h <;> exact length_leBytes _ _

theorem encodeUdint_sized (value : BitVec 32) : (encodeUdint conv value).Sized := by
  intro t src h
  cases t <;> cases h <;> exact length_leBytes _ _

theorem encodeLint_sized (value : BitVec 64) : (encodeLint value).Sized := by
  intro t src h
  cases t <;> cases h <;> exact length_leBytes _ _

theorem getUsint_eq {checks : Bool} {raw : List UInt8} {element : Nat}
    (h : OffsetFits raw element) :
    getUsint checks raw element = get (valueAt decodeUsint raw element) () := by
  unfold getUsint valueAt
  cases ht : typecode raw with
  | none => rfl
  | some t =>
    rw [get_some, ok_bind, Option.bind_some]
    have hread : ∀ u : CipType, u = t → u.size = 1 → (elemOff checks u element).bind
        (fun i => (rdU8 raw i).map UInt8.ofNat) =
          get ((rdNat? raw (typecodeSize + element * u.size) u.size).map UInt8.ofNat) () := by
      rintro u rfl hsize
      rw [elemOff_eq (h u ht), ok_bind, rdU8_eq, get_map, hsize]
    cases t with
    | bool => exact hread .bool rfl rfl
    | sint => exact hread .sint rfl rfl
    | _ => rfl

/-! ## Strings, where nothing overflows -/

/-- The text of a string element as far as the buffer has it. -/
def stringAt (raw : List UInt8) (element cap : Nat) : Option (List UInt8) :=
  match typecode raw with
  | some .string => if 4 ≤ raw.length then some ((raw.drop 4).take cap) else none
  | some .struct =>
    if rdNat? raw 2 2 = some structStringHandle ∧ 8 + element * structStringStride ≤ raw.length then
      (rdNat? raw (4 + element * structStringStride) 2).map fun len =>
        (raw.drop (8 + element * structStringStride)).take (min (min len cap) structStringBuf)
    else none
  | _ => none

theorem getRange_tail (b : List UInt8) (start : Nat) :
    getRange b start b.length = if start ≤ b.length then some (b.drop start) else none := by
  unfold getRange
  by_cases h : start ≤ b.length
  · rw [if_pos ⟨h, Nat.le_refl _⟩, if_pos h, List.take_of_length_le]
    rw [List.length_drop]
  · rw [if_neg fun hand => h hand.1, if_neg h]

theorem take_min_length (l : List UInt8) (n k : Nat) :
    l.take (min (min n l.length) k) = l.take (min n k) := by
  rw [show min (min n l.length) k = min (min n k) l.length by omega, ← List.take_take,
    List.take_length]

theorem stringBytes_eq {checks : Bool} {raw : List UInt8} {element : Nat} (cap : Nat)
    (h : 8 + element * structStringStride ≤ u64Max) :
    stringBytes checks raw element cap = get (stringAt raw element cap) () := by
  unfold stringBytes stringAt
  cases ht : typecode raw with
  | none => rfl
  | some t =>
    rw [get_some, ok_bind]
    cases t with
    | string =>
      dsimp only
      rw [getRange_tail]
      show (get (if 4 ≤ raw.length then some (raw.drop 4) else none) ()).map _ = _
      split
      · rfl
      · rfl
    | struct =>
      have hstart : (add checks (typecodeSize + 2 + element * structStringStride)
          structStringLenBytes : Outcome Unit Nat) = .ok (8 + element * structStringStride) := by
        have heq : typecodeSize + 2 + element * structStringStride + structStringLenBytes =
            8 + element * structStringStride := by
          show 4 + _ + 4 = _
          omega
        rw [add_of_le (by rw [heq]; exact h), heq]
      dsimp only
      rw [rd_eq raw (by decide)]
      show (get (rdNat? raw 2 2) ()).bind _ = _
      cases hh : rdNat? raw 2 2 with
      | none => rfl
      | some handle =>
        rw [get_some, ok_bind]
        by_cases hhandle : handle = structStringHandle
        · rw [if_neg (not_not.2 hhandle), mul_of_le (by omega), ok_bind,
            add_of_le (show typecodeSize + 2 + element * structStringStride ≤ u64Max by
              show 4 + _ ≤ _; omega), ok_bind]
          show (rd checks 2 raw (4 + element * structStringStride)).bind _ = _
          rw [rd_eq raw (by omega), hhandle]
          by_cases hle : 8 + element * structStringStride ≤ raw.length
          · rw [if_pos ⟨rfl, hle⟩, get_map]
            cases rdNat? raw (4 + element * structStringStride) 2 with
            | none => rfl
            | some len =>
              rw [get_some, ok_bind, hstart, ok_bind, getRange_tail, if_pos hle]
              refine congrArg Except.ok ?_
              exact take_min_length _ _ _
          · rw [if_neg fun hand => hle hand.2]
            cases rdNat? raw (4 + element * structStringStride) 2 with
            | none => rfl
            | some len =>
              rw [get_some, ok_bind, hstart, ok_bind, getRange_tail, if_neg hle]
              rfl
        · rw [if_pos hhandle, if_neg fun hand => hhandle (Option.some.inj hand.1)]
          rfl
    | _ => rfl

theorem getString_eq {lossy : List UInt8 → String} {checks : Bool} {raw : List UInt8}
    {element max : Nat} (hmax : 0 < max) (h : 8 + element * structStringStride ≤ u64Max) :
    getString lossy checks raw element max =
      get ((stringAt raw element (max - 1)).map fun b =>
        fromUtf8Lossy lossy (b.takeWhile (· != 0))) () := by
  rw [getString, if_neg (Nat.ne_of_gt hmax), stringBytes_eq _ h, get_map]

/-- A Logix STRING with a byte of text at least. -/
def Staged (raw : List UInt8) : Prop :=
  typecode raw = some .struct ∧ rdNat? raw 2 2 = some structStringHandle ∧ 8 < raw.length

theorem overwrite?_of_le {b src : List UInt8} {i : Nat} (h : i + src.length ≤ b.length) :
    overwrite? b i src = some (b.take i ++ src ++ b.drop (i + src.length)) := if_pos h

theorem set_append_drop {b front : List UInt8} {i : Nat} (c : UInt8) (hfront : front.length = i)
    (hi : i < b.length) : (front ++ b.drop i).set i c = front ++ [c] ++ b.drop (i + 1) := by
  subst hfront
  rw [List.set_append_right _ _ (Nat.le_refl _), Nat.sub_self, List.drop_eq_getElem_cons hi,
    List.set_cons_zero, List.append_assoc]
  rfl

/-- The buffer with the length word written. -/
theorem overwrite_length {raw : List UInt8} (h : 8 < raw.length) (n : Nat) :
    ∃ raw', overwrite? raw 4 (leBytes 2 n) = some raw' ∧ raw'.length = raw.length ∧
      raw'.take 8 = raw.take 4 ++ leBytes 2 n ++ (raw.drop 6).take 2 ∧
      ∀ k, 8 ≤ k → raw'.drop k = raw.drop k := by
  have hle : 4 + (leBytes 2 n).length ≤ raw.length := by
    rw [length_leBytes]
    omega
  have hover := overwrite?_of_le hle
  rw [length_leBytes] at hover
  have hfront : (raw.take 4 ++ leBytes 2 n).length = 6 := by
    simp
    omega
  refine ⟨_, hover, length_of_overwrite? hover, ?_, fun k hk => ?_⟩
  · rw [List.take_append, List.take_of_length_le (by omega), hfront]
  · rw [List.drop_append, List.drop_of_length_le (by omega), hfront, List.nil_append,
      List.drop_drop]
    congr 1
    omega

theorem stagedLen_le (raw value : List UInt8) :
    stagedLen raw value ≤ raw.length - 9 ∧ stagedLen raw value ≤ value.length ∧
      stagedLen raw value ≤ 82 := by
  have htext : textAt = 8 := rfl
  have hmax : structStringMax = 82 := rfl
  unfold stagedLen
  omega

theorem putString_staged {raw : List UInt8} (h : Staged raw) (value : List UInt8) :
    putString raw value = (true, raw.take 4 ++ leBytes 2 (stagedLen raw value) ++
      (raw.drop 6).take 2 ++ value.take (stagedLen raw value) ++ [0] ++
        raw.drop (9 + stagedLen raw value)) := by
  obtain ⟨ht, hhandle, hlong⟩ := h
  obtain ⟨hroom, hvalue, -⟩ := stagedLen_le raw value
  have htext : (value.take (stagedLen raw value)).length = stagedLen raw value := by
    rw [List.length_take, Nat.min_eq_left hvalue]
  obtain ⟨raw', hraw', hlength, htake, hdrop⟩ := overwrite_length hlong (stagedLen raw value)
  have hle : textAt + (value.take (stagedLen raw value)).length ≤ raw'.length := by
    rw [htext, hlength]
    show 8 + _ ≤ _
    omega
  have hover := overwrite?_of_le hle
  rw [htext, show raw'.take textAt = _ from htake,
    show raw'.drop (textAt + _) = _ from hdrop _ (Nat.le_add_right 8 _)] at hover
  rw [putString, if_neg (not_not.2 ht),
    show rdNat? raw typecodeSize 2 = some structStringHandle from hhandle]
  dsimp only
  rw [if_neg (not_not.2 rfl), if_neg (show ¬ textAt ≥ raw.length from Nat.not_le.2 hlong),
    show overwrite? raw lenAt (leBytes 2 (stagedLen raw value)) = some raw' from hraw']
  dsimp only
  rw [hover]
  refine congrArg (Prod.mk true) ?_
  have hlen : (raw.take 4 ++ leBytes 2 (stagedLen raw value) ++ (raw.drop 6).take 2 ++
      value.take (stagedLen raw value)).length = 8 + stagedLen raw value := by
    simp only [List.length_append, List.length_take, List.length_drop, length_leBytes]
    omega
  have hset := set_append_drop (b := raw) 0 hlen (by omega)
  rw [show 8 + stagedLen raw value + 1 = 9 + stagedLen raw value by omega] at hset
  exact hset

theorem putString_not_staged {raw : List UInt8} (h : ¬ Staged raw) (value : List UInt8) :
    putString raw value = (false, raw) := by
  by_cases ht : typecode raw ≠ some .struct
  · rw [putString, if_pos ht]
  · rw [putString, if_neg ht]
    cases hh : rdNat? raw typecodeSize 2 with
    | none => rfl
    | some handle =>
      dsimp only
      by_cases hhandle : handle ≠ structStringHandle
      · rw [if_pos hhandle]
      · rw [if_neg hhandle]
        have hshort : textAt ≥ raw.length := by
          by_contra hlong
          have hhandle' : rdNat? raw 2 2 = some structStringHandle := by
            rw [← not_not.1 hhandle]
            exact hh
          exact h ⟨not_not.1 ht, hhandle', Nat.not_le.1 hlong⟩
        rw [if_pos hshort]

/-! ## All accessors -/

/-- **Each accessor reads and writes the bytes of its element, and nothing else.**  Where the end of
the element is a `usize`, a number is read exactly from an element inside the buffer and written
exactly to one, the buffer else as it was; a string is read from what the buffer has of its slot. -/
theorem accessors_bounded (lossy : List UInt8 → String) (checks : Bool) (raw : List UInt8)
    (element : Nat) (h : OffsetFits raw element) :
    getDouble conv checks raw element = get (valueAt (decodeDouble conv) raw element) () ∧
      getDint conv checks raw element = get (valueAt (decodeDint conv) raw element) () ∧
      getUdint conv checks raw element = get (valueAt (decodeUdint conv) raw element) () ∧
      getLint checks raw element = get (valueAt decodeLint raw element) () ∧
      getUsint checks raw element = get (valueAt decodeUsint raw element) () ∧
      (8 + element * structStringStride ≤ u64Max → ∀ max, 0 < max →
        getString lossy checks raw element max = get ((stringAt raw element (max - 1)).map fun b =>
          fromUtf8Lossy lossy (b.takeWhile (· != 0))) ()) ∧
      (∀ value, putDouble conv checks raw element value =
        .ok (storeAt (encodeDouble conv value) raw element)) ∧
      (∀ value, putDint conv checks raw element value =
        .ok (storeAt (encodeDint conv value) raw element)) ∧
      (∀ value, putUdint conv checks raw element value =
        .ok (storeAt (encodeUdint conv value) raw element)) ∧
      (∀ value, putLint checks raw element value = .ok (storeAt (encodeLint value) raw element)) ∧
      ∀ value, ((putString raw value).1 = true ↔ Staged raw) ∧
        (¬ Staged raw → putString raw value = (false, raw)) := by
  refine ⟨getElement_eq (decodeDouble_sized conv) h, getElement_eq (decodeDint_sized conv) h,
    getElement_eq (decodeUdint_sized conv) h, getElement_eq decodeLint_sized h, getUsint_eq h,
    fun hstring max hmax => getString_eq hmax hstring,
    fun value => putElement_eq (encodeDouble_sized conv value) h,
    fun value => putElement_eq (encodeDint_sized conv value) h,
    fun value => putElement_eq (encodeUdint_sized conv value) h,
    fun value => putElement_eq (encodeLint_sized value) h, fun value => ⟨?_, ?_⟩⟩
  · constructor
    · intro htrue
      by_contra hnot
      rw [putString_not_staged hnot] at htrue
      contradiction
    · intro hstaged
      rw [putString_staged hstaged]
  · exact fun hnot => putString_not_staged hnot value

/-- Whole numbers for floating point. -/
def wholeFloats : Floats Int where
  ofInt n := n
  ofBits32 b := b.toInt
  ofBits64 b := b.toInt
  toI32 n := BitVec.ofInt 32 n
  toU32 n := BitVec.ofInt 32 n
  toI64 n := BitVec.ofInt 64 n
  bits32 n := BitVec.ofInt 32 n
  bits64 n := BitVec.ofInt 64 n
  bits32OfInt n := BitVec.ofInt 32 n

/-- A DINT of one element. -/
def dint1 : List UInt8 := [0xC4, 0x00, 0x01, 0x02, 0x03, 0x04]

theorem accessors_bounded_dint1 :
    getDint wholeFloats true dint1 0 = .ok 0x04030201 ∧
      getDint wholeFloats true dint1 1 = fail () ∧
      putDint wholeFloats true dint1 1 7 = .ok (false, dint1) := by
  have hfits : ∀ element, element ≤ 1 → OffsetFits dint1 element := by
    intro element hle t ht
    obtain rfl : CipType.dint = t := Option.some.inj ht
    show 2 + element * 4 + 4 ≤ 2 ^ 64 - 1
    omega
  have h0 := accessors_bounded wholeFloats (fun _ => "") true dint1 0 (hfits 0 (by decide))
  have h1 := accessors_bounded wholeFloats (fun _ => "") true dint1 1 (hfits 1 (by decide))
  exact ⟨h0.2.1, h1.2.1, h1.2.2.2.2.2.2.2.1 7⟩

/-- A Logix STRING cut off behind three characters. -/
def shortSlot : List UInt8 :=
  [0xA0, 0x02, 0xCE, 0x0F, 0x03, 0x00, 0x00, 0x00, 0x57, 0x6F, 0x77]

/-- It is read all the same. -/
theorem short_slot_read :
    shortSlot.length < 4 + structStringStride ∧
      ∃ text, getString (fun _ => "") true shortSlot 0 40 = .ok text :=
  ⟨by decide, _, rfl⟩

end EtherIp.Raw
