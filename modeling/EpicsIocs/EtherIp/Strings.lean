import Mathlib.Data.List.TakeWhile
import EpicsIocs.EtherIp.Accessors
import EpicsIocs.EtherIp.Driver

/-! # Staging a string

A string record's write (`stage_write` of `device.rs`) compares its value with the element that its
link names, and stores it where they differ:

    get_string(buf, element, size) = val → nothing to write
    else put_string(buf, val), and a write is requested

`put_string` is given no element.  In an array of Logix STRING structs the string so arrives in the
first one, whichever element was compared (`string_staging`). -/

namespace EtherIp.Raw

open Bytes Faults Machine

/-! ## The write pass -/

/-- The bytes of a string. -/
def utf8 (s : String) : List UInt8 := s.toByteArray.data.toList

variable (lossy : List UInt8 → String) (checks : Bool)

/-- Whether the string is stored, and the buffer. -/
def stageString (raw : List UInt8) (element size : Nat) (val : String) :
    Outcome Unit (Bool × List UInt8) :=
  match getString lossy checks raw element size with
  | .ok cur => if cur = val then .ok (false, raw) else .ok (putString raw (utf8 val))
  | .error .panic => panics
  | .error (.error ()) => .ok (false, raw)

/-- What a write pass leaves: the tag's data, whether a write is wanted, and `WRITE_ALARM`. -/
structure Staging where
  data : TagData
  changed : Bool
  alarm : Bool

/-- `stage_write` of a stringout or lso. -/
def stageWrite (d : TagData) (elements element size : Nat) (val : String) : Outcome Unit Staging :=
  if d.hasValue = false ∨ elements ≤ element then .ok ⟨d, false, true⟩
  else (stageString lossy checks d.buf element size val).map fun r =>
    ⟨{ d with buf := r.2, doWrite := d.doWrite || r.1 }, r.1, false⟩

/-! ## Arrays of strings -/

/-- The bytes of an element: length, pad and characters. -/
def slot (raw : List UInt8) (j : Nat) : List UInt8 :=
  (raw.drop (4 + j * structStringStride)).take structStringStride

/-- A buffer of `count` Logix STRING structs, as long as a slice can be. -/
structure StringArray (raw : List UInt8) (count : Nat) : Prop where
  type : typecode raw = some .struct
  handle : rdNat? raw 2 2 = some structStringHandle
  length : raw.length = 4 + count * structStringStride
  bounded : raw.length ≤ isizeMax

/-- The characters of an element that a reader with room for `cap` of them sees. -/
def slotBytes (s : List UInt8) (cap : Nat) : List UInt8 :=
  ((s.drop 4).take (min (min (leNat (s.take 2)) cap) structStringBuf)).takeWhile (· != 0)

/-- The text of an element for a reader of `size` bytes. -/
def slotText (raw : List UInt8) (element size : Nat) : String :=
  fromUtf8Lossy lossy (slotBytes (slot raw element) (size - 1))

variable {raw : List UInt8} {count element size : Nat} {val : String}

theorem StringArray.fits (h : StringArray raw count) (he : element < count) :
    4 + element * structStringStride + structStringStride ≤ raw.length := by
  have hlen := h.length
  have hle : (element + 1) * structStringStride ≤ count * structStringStride :=
    Nat.mul_le_mul_right _ he
  rw [Nat.add_mul, Nat.one_mul] at hle
  omega

theorem take_slot (raw : List UInt8) (element : Nat) :
    (slot raw element).take 2 = (raw.drop (4 + element * structStringStride)).take 2 := by
  rw [slot, List.take_take]
  rfl

theorem drop_slot (raw : List UInt8) (element n : Nat) :
    ((slot raw element).drop 4).take (min n structStringBuf) =
      (raw.drop (8 + element * structStringStride)).take (min n structStringBuf) := by
  have hstride : structStringStride = 4 + structStringBuf := rfl
  rw [slot, List.drop_take, List.drop_drop, List.take_take,
    show 4 + element * structStringStride + 4 = 8 + element * structStringStride by omega,
    show structStringStride - 4 = structStringBuf from rfl]
  congr 1
  omega

/-- An element inside is always read. -/
theorem getString_slot (h : StringArray raw count) (he : element < count) (hsize : 0 < size) :
    getString lossy checks raw element size = .ok (slotText lossy raw element size) := by
  have hfits := h.fits he
  have hbound := h.bounded
  have hstride : structStringStride = 88 := rfl
  have hisize : isizeMax = 9223372036854775807 := rfl
  have hmax : u64Max = 18446744073709551615 := rfl
  have hat : rdNat? raw (4 + element * structStringStride) 2 =
      some (leNat ((raw.drop (4 + element * structStringStride)).take 2)) :=
    congrArg (Option.map leNat) (if_pos (by omega))
  rw [getString_eq hsize (by omega), stringAt, h.type]
  dsimp only
  rw [if_pos ⟨h.handle, by omega⟩, hat, Option.map_some, Option.map_some, get_some, ← drop_slot,
    ← take_slot]
  rfl

theorem stageString_slot (h : StringArray raw count) (he : element < count) (hsize : 0 < size) :
    stageString lossy checks raw element size val =
      if slotText lossy raw element size = val then .ok (false, raw)
      else .ok (putString raw (utf8 val)) := by
  rw [stageString, getString_slot lossy checks h he hsize]

/-! ## Behind a store -/

/-- The buffer with a string in its first element. -/
def stored (raw value : List UInt8) : List UInt8 :=
  raw.take 4 ++ leBytes 2 value.length ++ (raw.drop 6).take 2 ++ value ++ [0] ++
    raw.drop (9 + value.length)

theorem putString_array (h : StringArray raw count) (hcount : 0 < count) {value : List UInt8}
    (hlen : value.length ≤ 82) : putString raw value = (true, stored raw value) := by
  have hfits := h.fits hcount
  have hstride : structStringStride = 88 := rfl
  have htext : textAt = 8 := rfl
  have hmax : structStringMax = 82 := rfl
  have hstaged : stagedLen raw value = value.length := by
    unfold stagedLen
    omega
  rw [putString_staged ⟨h.type, h.handle, by omega⟩, hstaged, List.take_length]
  rfl

section Stored

variable (h : StringArray raw count) (hcount : 0 < count) {value : List UInt8}
  (hlen : value.length ≤ 82)

include h hcount

theorem take_stored : (stored raw value).take 4 = raw.take 4 := by
  have hfits := h.fits hcount
  have hstride : structStringStride = 88 := rfl
  have hfront : (raw.take 4).length = 4 := by
    rw [List.length_take]
    omega
  unfold stored
  simp only [List.append_assoc]
  rw [List.take_append_of_le_length (by omega), List.take_take, Nat.min_self]

include hlen

theorem length_stored : (stored raw value).length = raw.length := by
  have hfits := h.fits hcount
  have hstride : structStringStride = 88 := rfl
  simp only [stored, List.length_append, List.length_take, List.length_drop, length_leBytes,
    List.length_cons, List.length_nil]
  omega

theorem drop_stored {k : Nat} (hk : 92 ≤ k) : (stored raw value).drop k = raw.drop k := by
  have hfits := h.fits hcount
  have hstride : structStringStride = 88 := rfl
  have hfront : (raw.take 4 ++ leBytes 2 value.length ++ (raw.drop 6).take 2 ++ value ++
      [0]).length = 9 + value.length := by
    simp only [List.length_append, List.length_take, List.length_drop, length_leBytes,
      List.length_cons, List.length_nil]
    omega
  rw [stored, List.drop_append, List.drop_of_length_le (by omega), hfront, List.nil_append,
    List.drop_drop]
  congr 1
  omega

theorem StringArray.stored : StringArray (stored raw value) count := by
  have hlength := length_stored h hcount hlen
  have hfits := h.fits hcount
  have hstride : structStringStride = 88 := rfl
  have hfront := @take_stored raw count h hcount value
  -- the type and the handle are in the first four bytes
  have hread : ∀ i, i + 2 ≤ 4 → rdNat? (Raw.stored raw value) i 2 = rdNat? raw i 2 := by
    intro i hi
    have htake : ∀ b : List UInt8, (b.drop i).take 2 = ((b.take 4).drop i).take 2 := fun b => by
      rw [List.drop_take, List.take_take, Nat.min_eq_left (by omega)]
    unfold rdNat? slice?
    rw [hlength, htake, hfront, ← htake]
  refine ⟨?_, (hread 2 (by decide)).trans h.handle, hlength.trans h.length,
    by rw [hlength]; exact h.bounded⟩
  have htype := h.type
  unfold typecode at htype ⊢
  rwa [hread 0 (by decide)]

/-- Every other element is as it was. -/
theorem slot_stored {j : Nat} (hj : 0 < j) : slot (Raw.stored raw value) j = slot raw j := by
  have hstride : structStringStride = 88 := rfl
  have hle : structStringStride ≤ j * structStringStride := Nat.le_mul_of_pos_left _ hj
  rw [slot, slot, drop_stored h hcount hlen (by omega)]

/-- The first element has the string, for a reader with room for it. -/
theorem slotBytes_stored (hnul : 0 ∉ value) {cap : Nat} (hcap : value.length ≤ cap) :
    slotBytes (slot (Raw.stored raw value) 0) cap = value := by
  have hfits := h.fits hcount
  have hstride : structStringStride = 88 := rfl
  have hbuf : structStringBuf = 84 := rfl
  have hfront : (raw.take 4).length = 4 := by
    rw [List.length_take]
    omega
  have hpad : ((raw.drop 6).take 2).length = 2 := by
    rw [List.length_take, List.length_drop]
    omega
  have hdrop4 : (Raw.stored raw value).drop 4 = leBytes 2 value.length ++ (raw.drop 6).take 2 ++
      value ++ [0] ++ raw.drop (9 + value.length) := by
    unfold Raw.stored
    simp only [List.append_assoc]
    rw [List.drop_append, List.drop_of_length_le (by omega), hfront, List.nil_append]
    rfl
  have hword : leNat ((slot (Raw.stored raw value) 0).take 2) = value.length := by
    rw [take_slot, show 4 + 0 * structStringStride = 4 from rfl, hdrop4]
    simp only [List.append_assoc]
    rw [List.take_append_of_le_length (by rw [length_leBytes]),
      List.take_of_length_le (by rw [length_leBytes]), leNat_leBytes_of_lt (by omega)]
  have htext : (Raw.stored raw value).drop 8 = value ++ ([0] ++ raw.drop (9 + value.length)) := by
    have hhead : (leBytes 2 value.length ++ (raw.drop 6).take 2).length = 4 := by
      rw [List.length_append, length_leBytes, hpad]
    rw [show (8 : Nat) = 4 + 4 from rfl, ← List.drop_drop, hdrop4]
    simp only [List.append_assoc]
    rw [← List.append_assoc (leBytes 2 value.length), List.drop_append,
      List.drop_of_length_le (by omega), hhead, List.nil_append]
    rfl
  rw [slotBytes, hword, drop_slot, show 8 + 0 * structStringStride = 8 from rfl, htext,
    Nat.min_eq_left hcap, Nat.min_eq_left (by omega), List.take_left']
  · exact List.takeWhile_eq_self_iff.2 fun c hc => bne_iff_ne.2 fun h0 => hnul (h0 ▸ hc)
  · rfl

end Stored

/-! ## Two writes -/

theorem fromUtf8Lossy_utf8 (val : String) : fromUtf8Lossy lossy (utf8 val) = val := by
  have hbytes : (⟨(utf8 val).toArray⟩ : ByteArray) = val.toByteArray := rfl
  have hvalid : val.toByteArray.IsValidUTF8 := val.isValidUTF8
  rw [fromUtf8Lossy, hbytes, String.fromUTF8?, dif_pos hvalid]
  rfl

/-- There is a value, the element was fetched, and it reads otherwise. -/
def Stores (d : TagData) (elements element size : Nat) (val : String) : Prop :=
  d.hasValue = true ∧ element < elements ∧ slotText lossy d.buf element size ≠ val

instance (d : TagData) (elements element size : Nat) (val : String) :
    Decidable (Stores lossy d elements element size val) :=
  inferInstanceAs (Decidable (_ ∧ _ ∧ _))

/-- The string that is stored for an element is read back from it, alone, and not stored again. -/
def StagingOk (d : TagData) (count elements element size : Nat) (val : String) : Prop :=
  ∀ d', stageWrite lossy checks d elements element size val = .ok ⟨d', true, false⟩ →
    getString lossy checks d'.buf element size = .ok val ∧
    (∀ j, j < count → j ≠ element → slot d'.buf j = slot d.buf j) ∧
    stageWrite lossy checks d' elements element size val = .ok ⟨d', false, false⟩

variable {d : TagData} {elements : Nat}

/-- The data with the string in the first element and a write wanted. -/
def withString (d : TagData) (val : String) : TagData :=
  { d with buf := stored d.buf (utf8 val), doWrite := true }

theorem stageWrite_stores (h : StringArray d.buf count) (he : element < count) (hsize : 0 < size)
    (hlen : (utf8 val).length ≤ 82) (hstores : Stores lossy d elements element size val) :
    stageWrite lossy checks d elements element size val = .ok ⟨withString d val, true, false⟩ := by
  obtain ⟨hvalue, hlt, hne⟩ := hstores
  have hgo : ¬ (d.hasValue = false ∨ elements ≤ element) := by
    rintro (hno | hle)
    · rw [hvalue] at hno
      exact Bool.noConfusion hno
    · exact Nat.not_le_of_lt hlt hle
  rw [stageWrite, if_neg hgo, stageString_slot lossy checks h he hsize, if_neg hne,
    putString_array h (Nat.zero_lt_of_lt he) hlen]
  show (Except.ok (Staging.mk _ _ _) : Outcome Unit Staging) = _
  rw [Bool.or_true]
  rfl

theorem stageWrite_keeps (h : StringArray d.buf count) (he : element < count) (hsize : 0 < size)
    (hstores : ¬ Stores lossy d elements element size val) :
    ∃ alarm, stageWrite lossy checks d elements element size val = .ok ⟨d, false, alarm⟩ ∧
      (alarm = true ↔ d.hasValue = false ∨ elements ≤ element) := by
  by_cases hgo : d.hasValue = false ∨ elements ≤ element
  · refine ⟨true, ?_, iff_of_true rfl hgo⟩
    rw [stageWrite, if_pos hgo]
  · refine ⟨false, ?_, iff_of_false (by decide) hgo⟩
    have hgo' := hgo
    simp only [not_or, Bool.not_eq_false, Nat.not_le] at hgo'
    have heq : slotText lossy d.buf element size = val := by
      by_contra hne
      exact hstores ⟨hgo'.1, hgo'.2, hne⟩
    rw [stageWrite, if_neg hgo, stageString_slot lossy checks h he hsize, if_pos heq]
    show (Except.ok (Staging.mk _ _ _) : Outcome Unit Staging) = _
    rw [Bool.or_false]

/-- **A string record's write is good exactly for the first element, or where it stores nothing.** -/
theorem string_staging (h : StringArray d.buf count) (he : element < count)
    (hnul : 0 ∉ utf8 val) (hlen : (utf8 val).length ≤ 82) (hsize : (utf8 val).length < size) :
    StagingOk lossy checks d count elements element size val ↔
      (Stores lossy d elements element size val → element = 0) := by
  have hpos : 0 < size := Nat.zero_lt_of_lt hsize
  have hcount : 0 < count := Nat.zero_lt_of_lt he
  have hstored : StringArray (withString d val).buf count := h.stored hcount hlen
  constructor
  · intro hok hstores
    by_contra hne
    -- the element is not touched, and so reads as before
    obtain ⟨hread, -, -⟩ := hok _ (stageWrite_stores lossy checks h he hpos hlen hstores)
    rw [getString_slot lossy checks hstored he hpos] at hread
    have hslot : slot (withString d val).buf element = slot d.buf element :=
      slot_stored h hcount hlen (Nat.pos_of_ne_zero hne)
    have htext := Except.ok.inj hread
    rw [slotText, hslot] at htext
    exact hstores.2.2 htext
  · intro hcond d' hstage
    by_cases hstores : Stores lossy d elements element size val
    · obtain rfl := hcond hstores
      rw [stageWrite_stores lossy checks h he hpos hlen hstores] at hstage
      obtain rfl : withString d val = d' := congrArg Staging.data (Except.ok.inj hstage)
      have htext : slotText lossy (withString d val).buf 0 size = val := by
        rw [slotText, show slotBytes (slot (withString d val).buf 0) (size - 1) = utf8 val from
          slotBytes_stored h hcount hlen hnul (by omega)]
        exact fromUtf8Lossy_utf8 lossy val
      refine ⟨?_, fun j _ hj => slot_stored h hcount hlen (Nat.pos_of_ne_zero hj), ?_⟩
      · rw [getString_slot lossy checks hstored he hpos, htext]
      · obtain ⟨alarm, hkeeps, halarm⟩ := stageWrite_keeps lossy checks hstored he hpos
          (fun hno : Stores lossy (withString d val) elements 0 size val => hno.2.2 htext)
        have hquiet : alarm = false := by
          rw [← Bool.not_eq_true, halarm]
          have hvalue : (withString d val).hasValue = true := hstores.1
          rintro (hno | hle)
          · rw [hvalue] at hno
            exact Bool.noConfusion hno
          · exact Nat.not_le_of_lt hstores.2.1 hle
        rw [hkeeps, hquiet]
    · obtain ⟨alarm, hkeeps, -⟩ := stageWrite_keeps lossy checks h he hpos hstores
      rw [hkeeps] at hstage
      cases hstage

/-- Two elements, `Wow` in the first one and nothing in the other. -/
def twoStrings : TagData where
  buf := [0xA0, 0x02, 0xCE, 0x0F, 0x03, 0x00, 0x00, 0x00, 0x57, 0x6F, 0x77] ++
    List.replicate 169 0
  validDataSize := 180

theorem stringArray_twoStrings : StringArray twoStrings.buf 2 :=
  ⟨by decide +kernel, by decide +kernel, by decide +kernel, by decide +kernel⟩

theorem string_staging_first :
    StagingOk (fun _ => "") true twoStrings 2 2 0 40 "Hi" :=
  (string_staging _ true stringArray_twoStrings (by decide) (by decide) (by decide) (by decide)).2
    fun _ => rfl

/-- A string for the second element goes to the first one. -/
theorem second_string_in_first :
    ¬ StagingOk (fun _ => "") true twoStrings 2 2 1 40 "Hi" ∧
      ∃ d', stageWrite (fun _ => "") true twoStrings 2 1 40 "Hi" = .ok ⟨d', true, false⟩ ∧
        slot d'.buf 0 ≠ slot twoStrings.buf 0 ∧ slot d'.buf 1 = slot twoStrings.buf 1 := by
  have hstores : Stores (fun _ => "") twoStrings 2 1 40 "Hi" := by decide +kernel
  refine ⟨fun hok => ?_, _, stageWrite_stores _ true stringArray_twoStrings (by decide) (by decide)
    (by decide) hstores, by decide +kernel, by decide +kernel⟩
  have hkept := (hok _ (stageWrite_stores _ true stringArray_twoStrings (by decide) (by decide)
    (by decide) hstores)).2.1 0 (by decide) (by decide)
  revert hkept
  decide +kernel

end EtherIp.Raw
