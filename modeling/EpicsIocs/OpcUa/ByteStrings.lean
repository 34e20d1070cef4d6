import EpicsIocs.Lib.Fallible
import EpicsIocs.Lib.Text
import EpicsIocs.OpcUa.Link
import Mathlib.Data.List.Forall2

/-! # The text of byte strings

A ByteString is hexadecimal text in a record: pairs of upper-case digits on the way in, as many
as the record's buffer takes, and groups of digits between blanks on the way out (`value.rs`).

    hexDecode (hexEncode b) = some b, and more   (byte_strings_as_text)
-/

namespace OpcUa

open Fallible Text

/-- `char::to_digit(16)`. -/
def toDigit (c : Char) : Option Nat :=
  if '0' ≤ c ∧ c ≤ '9' then some (c.toNat - 48)
  else if 'a' ≤ c ∧ c ≤ 'f' then some (c.toNat - 87)
  else if 'A' ≤ c ∧ c ≤ 'F' then some (c.toNat - 55)
  else none

/-- `char::from_digit(_, 16)`, in upper case. -/
def hexDigit (digit : Nat) : Char := (Nat.digitChar digit).toUpper

def hexEncode (bytes : List UInt8) : List Char :=
  bytes.flatMap fun (b : UInt8) => [hexDigit (b >>> 4).toNat, hexDigit (b &&& 0xf).toNat]

/-- The pairs from the left; a digit left over is dropped. -/
def pairBytes : List Nat → List UInt8
  | hi :: lo :: digits => UInt8.ofNat (hi <<< 4 ||| lo) :: pairBytes digits
  | _ => []

/-- The bytes of a group. -/
def groupBytes : List Nat → Option (List UInt8)
  | [single] => some [UInt8.ofNat single]
  | digits => if digits.length % 2 = 1 then none else some (pairBytes digits)

def hexDecode (s : List Char) : Option (List UInt8) :=
  (splitWhitespace s).foldlM (fun out group =>
    (group.mapM toDigit).bind fun digits => (groupBytes digits).map (out ++ ·)) []

/-- Whole pairs, and room for the terminator. -/
def printByteString (bytes : List UInt8) (len : Nat) : List UInt8 :=
  (hexEncode (bytes.take ((len - 2) / 2))).map fun c => UInt8.ofNat c.toNat

/-- Text keeps a terminator's room. -/
def cutText (text : List UInt8) (len : Nat) : List UInt8 := text.take (len - 1)

/-- The element types of an array. -/
inductive TextType where
  | string
  | xmlElement
  | localizedText
  | qualifiedName
  | byteString
  | other (name : String)
  deriving DecidableEq, Repr

inductive TextValue where
  | string (text : String)
  | xmlElement (text : String)
  | localizedText (locale : Option String) (text : String)
  | qualifiedName (namespaceIndex : Nat) (name : String)
  | byteString (bytes : List UInt8)
  | other (typeName : String)
  deriving DecidableEq, Repr

structure TextArray where
  valueType : TextType
  values : List TextValue
  deriving DecidableEq, Repr

inductive TextError where
  | readMismatch (incoming target : String)
  | writeMismatch (incoming expected target : String)
  | outOfRange (text : List Char)
  deriving DecidableEq, Repr

def utf8 (text : String) : List UInt8 := text.toUTF8.toList

def readText (len : Nat) : TextValue → Except TextError (List UInt8)
  | .string text => .ok (cutText (utf8 text) len)
  | .xmlElement text => .ok (cutText (utf8 text) len)
  | .localizedText _ text => .ok (cutText (utf8 text) len)
  | .qualifiedName _ name => .ok (cutText (utf8 name) len)
  | .byteString bytes => .ok (printByteString bytes len)
  | .other typeName => .error (.readMismatch typeName "epicsString")

/-- An array as elements of `len` bytes. -/
def readStringArray (array : TextArray) (len : Nat) : Except TextError (List (List UInt8)) :=
  array.values.mapM (readText len)

/-- The node's element at the index of the next one, or the one built before it. -/
def kept (array : TextArray) (built : List TextValue) : Option TextValue :=
  (array.values[built.length]?).or built.getLast?

/-- `locale|text`; without a locale the one that is kept. -/
def localized (array : TextArray) (built : List TextValue) (value : List Char) : TextValue :=
  match splitOnce '|' value with
  | some (locale, text) => .localizedText (some (String.ofList locale)) (String.ofList text)
  | none =>
    match kept array built with
    | some (.localizedText locale _) => .localizedText locale (String.ofList value)
    | _ => .localizedText none (String.ofList value)

/-- `namespace|name`; `namespaceIndex` reads the number. -/
def qualified (namespaceIndex : List Char → Nat) (array : TextArray) (built : List TextValue)
    (value : List Char) : TextValue :=
  match splitOnce '|' value with
  | some (ns, name) => .qualifiedName (namespaceIndex ns) (String.ofList name)
  | none =>
    match kept array built with
    | some (.qualifiedName index _) => .qualifiedName index (String.ofList value)
    | _ => .qualifiedName 0 (String.ofList value)

def writeByteString (text : List Char) : Except TextError TextValue :=
  (okOr (hexDecode text) (.outOfRange text)).map .byteString

/-- Elements of text as an array of the node's type. -/
def writeStringArray (namespaceIndex : List Char → Nat) (values : List (List Char))
    (array : TextArray) : Except TextError TextArray :=
  let elements : Except TextError (List TextValue) := match array.valueType with
    | .string => .ok (values.map fun text => .string (String.ofList text))
    | .xmlElement => .ok (values.map fun text => .xmlElement (String.ofList text))
    | .localizedText =>
      .ok (values.foldl (fun built value => built ++ [localized array built value]) [])
    | .qualifiedName => .ok (values.foldl
        (fun built value => built ++ [qualified namespaceIndex array built value]) [])
    | .byteString => values.mapM writeByteString
    | .other name => .error (.writeMismatch name "String" "epicsString")
  elements.map fun elements => ⟨array.valueType, elements⟩

/-! ## Digits -/

/-- The digits of either case. -/
def IsHexDigit (c : Char) : Prop := c ∈ "0123456789abcdefABCDEF".toList

theorem toDigit_hexDigit : ∀ digit < 16, toDigit (hexDigit digit) = some digit := by decide

theorem hexDigit_solid : ∀ digit < 16,
    isWhitespace (hexDigit digit) = false ∧ (hexDigit digit).toNat < 256 := by decide

theorem isHexDigit_of_toDigit {c : Char} {digit : Nat} (h : toDigit c = some digit) :
    IsHexDigit c := by
  have hcode : ∀ n < 103, (48 ≤ n ∧ n ≤ 57) ∨ (97 ≤ n ∧ n ≤ 102) ∨ (65 ≤ n ∧ n ≤ 70) →
      n ∈ "0123456789abcdefABCDEF".toList.map Char.toNat := by decide
  have hmem : c.toNat ∈ "0123456789abcdefABCDEF".toList.map Char.toNat := by
    unfold toDigit at h
    simp only [Char.le_def, UInt32.le_iff_toNat_le] at h
    have hval : c.val.toNat = c.toNat := rfl
    split at h
    next hc =>
      have h0 : 48 ≤ c.val.toNat := hc.1
      have h9 : c.val.toNat ≤ 57 := hc.2
      exact hcode _ (by omega) (by omega)
    next =>
      split at h
      next hc =>
        have h0 : 97 ≤ c.val.toNat := hc.1
        have h9 : c.val.toNat ≤ 102 := hc.2
        exact hcode _ (by omega) (by omega)
      next =>
        split at h
        next hc =>
          have h0 : 65 ≤ c.val.toNat := hc.1
          have h9 : c.val.toNat ≤ 70 := hc.2
          exact hcode _ (by omega) (by omega)
        next => cases h
  obtain ⟨d, hd, heq⟩ := List.mem_map.1 hmem
  rw [IsHexDigit, ← Char.toNat_inj.1 heq]
  exact hd

theorem toDigit_of_isHexDigit {c : Char} (h : IsHexDigit c) :
    ∃ digit < 16, toDigit c = some digit := by
  have hall : "0123456789abcdefABCDEF".toList.all fun c =>
      (List.range 16).any fun digit => toDigit c == some digit := by decide
  obtain ⟨digit, hmem, heq⟩ := List.any_eq_true.1 (List.all_eq_true.1 hall c h)
  exact ⟨digit, List.mem_range.1 hmem, eq_of_beq heq⟩

/-- What a digit stands for. -/
def digitValue (c : Char) : Nat := (toDigit c).getD 0

theorem toDigit_eq {c : Char} (h : IsHexDigit c) : toDigit c = some (digitValue c) := by
  obtain ⟨digit, -, heq⟩ := toDigit_of_isHexDigit h
  rw [digitValue, heq, Option.getD_some]

theorem digitValue_lt {c : Char} (h : IsHexDigit c) : digitValue c < 16 := by
  obtain ⟨digit, hlt, heq⟩ := toDigit_of_isHexDigit h
  rw [digitValue, heq, Option.getD_some]
  exact hlt

/-! ## Groups -/

/-- A group that has bytes: one digit, or pairs. -/
def IsGroup (group : List Char) : Prop :=
  (∀ c ∈ group, IsHexDigit c) ∧ (group.length = 1 ∨ group.length % 2 = 0)

/-- Its bytes, each from two digits, or from one alone. -/
def groupValue : List Char → List UInt8
  | hi :: lo :: group => UInt8.ofNat (16 * digitValue hi + digitValue lo) :: groupValue group
  | [single] => [UInt8.ofNat (digitValue single)]
  | [] => []

theorem mapM_toDigit_eq_some {group : List Char} {digits : List Nat} :
    group.mapM toDigit = some digits ↔
      (∀ c ∈ group, IsHexDigit c) ∧ digits = group.map digitValue := by
  induction group generalizing digits with
  | nil =>
    rw [List.mapM_nil]
    exact ⟨fun h => ⟨fun c hc => absurd hc List.not_mem_nil, (Option.some.inj h).symm⟩,
      fun h => by rw [h.2]; rfl⟩
  | cons c group ih =>
    rw [List.mapM_cons]
    constructor
    · intro h
      obtain ⟨digit, hdigit, h⟩ := Option.bind_eq_some_iff.1 h
      obtain ⟨rest, hrest, h⟩ := Option.bind_eq_some_iff.1 h
      obtain ⟨hall, rfl⟩ := ih.1 hrest
      have hc := isHexDigit_of_toDigit hdigit
      rw [toDigit_eq hc] at hdigit
      refine ⟨List.forall_mem_cons.2 ⟨hc, hall⟩, ?_⟩
      rw [← Option.some.inj h, ← Option.some.inj hdigit]
      rfl
    · rintro ⟨hall, rfl⟩
      obtain ⟨hc, hall⟩ := List.forall_mem_cons.1 hall
      rw [toDigit_eq hc, ih.2 ⟨hall, rfl⟩]
      rfl

theorem nibbles : ∀ hi < 16, ∀ lo < 16,
    UInt8.ofNat (hi <<< 4 ||| lo) = UInt8.ofNat (16 * hi + lo) := by decide

theorem pairBytes_digits {group : List Char} (h : ∀ c ∈ group, IsHexDigit c)
    (heven : group.length % 2 = 0) : pairBytes (group.map digitValue) = groupValue group := by
  fun_induction groupValue group with
  | case1 hi lo group ih =>
    obtain ⟨hhi, hrest⟩ := List.forall_mem_cons.1 h
    obtain ⟨hlo, hrest⟩ := List.forall_mem_cons.1 hrest
    rw [List.map_cons, List.map_cons, pairBytes, ih hrest (by simp at heven; omega),
      nibbles _ (digitValue_lt hhi) _ (digitValue_lt hlo)]
  | case2 single => simp at heven
  | case3 => rfl

/-- Unless it is one digit alone a group is read in pairs. -/
theorem groupBytes_many {group : List Char} (hone : group.length ≠ 1) :
    groupBytes (group.map digitValue) =
      if group.length % 2 = 1 then none else some (pairBytes (group.map digitValue)) := by
  rw [groupBytes, List.length_map]
  intro single heq
  have hlen := congrArg List.length heq
  rw [List.length_map] at hlen
  exact hone hlen

/-- A group has bytes exactly if it is one digit or pairs of them. -/
theorem group_eq_some {group : List Char} {bytes : List UInt8} :
    ((group.mapM toDigit).bind groupBytes) = some bytes ↔
      IsGroup group ∧ bytes = groupValue group := by
  rw [Option.bind_eq_some_iff]
  constructor
  · rintro ⟨digits, hdigits, hbytes⟩
    obtain ⟨hall, rfl⟩ := mapM_toDigit_eq_some.1 hdigits
    by_cases hone : group.length = 1
    · obtain ⟨c, rfl⟩ := List.length_eq_one_iff.1 hone
      exact ⟨⟨hall, Or.inl rfl⟩, (Option.some.inj hbytes).symm⟩
    · rw [groupBytes_many hone, Option.ite_none_left_eq_some] at hbytes
      obtain ⟨hodd, hbytes⟩ := hbytes
      have heven : group.length % 2 = 0 := by omega
      refine ⟨⟨hall, Or.inr heven⟩, ?_⟩
      rw [← Option.some.inj hbytes, pairBytes_digits hall heven]
  · rintro ⟨⟨hall, hlen⟩, rfl⟩
    refine ⟨group.map digitValue, mapM_toDigit_eq_some.2 ⟨hall, rfl⟩, ?_⟩
    rcases hlen with hone | heven
    · obtain ⟨c, rfl⟩ := List.length_eq_one_iff.1 hone
      rfl
    · have hone : group.length ≠ 1 := by omega
      rw [groupBytes_many hone, if_neg (by omega), pairBytes_digits hall heven]

/-- All groups in turn. -/
theorem foldlM_groups {groups : List (List Char)} {out bytes : List UInt8} :
    groups.foldlM (fun out group =>
      (group.mapM toDigit).bind fun digits => (groupBytes digits).map (out ++ ·)) out =
        some bytes ↔
      (∀ group ∈ groups, IsGroup group) ∧ bytes = out ++ groups.flatMap groupValue := by
  induction groups generalizing out with
  | nil =>
    rw [List.foldlM_nil]
    refine ⟨fun h => ⟨fun _ hg => absurd hg List.not_mem_nil, ?_⟩, fun h => ?_⟩
    · rw [← Option.some.inj h, List.flatMap_nil, List.append_nil]
    · rw [h.2, List.flatMap_nil, List.append_nil]
      rfl
  | cons group groups ih =>
    have hstep : ((group.mapM toDigit).bind fun digits => (groupBytes digits).map (out ++ ·)) =
        ((group.mapM toDigit).bind groupBytes).map (out ++ ·) := by
      rw [Option.map_bind]
      rfl
    rw [List.foldlM_cons, hstep, List.flatMap_cons, List.forall_mem_cons, ← List.append_assoc]
    constructor
    · intro h
      obtain ⟨next, hnext, hrest⟩ := Option.bind_eq_some_iff.1 h
      obtain ⟨value, hvalue, rfl⟩ := Option.map_eq_some_iff.1 hnext
      obtain ⟨hgroup, rfl⟩ := group_eq_some.1 hvalue
      obtain ⟨hall, heq⟩ := ih.1 hrest
      exact ⟨⟨hgroup, hall⟩, heq⟩
    · rintro ⟨⟨hgroup, hall⟩, heq⟩
      rw [group_eq_some.2 ⟨hgroup, rfl⟩]
      exact ih.2 ⟨hall, heq⟩

theorem hexDecode_eq_some {text : List Char} {bytes : List UInt8} :
    hexDecode text = some bytes ↔
      (∀ group ∈ splitWhitespace text, IsGroup group) ∧
        bytes = (splitWhitespace text).flatMap groupValue := by
  rw [hexDecode, foldlM_groups, List.nil_append]

/-! ## There and back -/

theorem hexEncode_cons (b : UInt8) (bytes : List UInt8) :
    hexEncode (b :: bytes) =
      hexDigit (b >>> 4).toNat :: hexDigit (b &&& 0xf).toNat :: hexEncode bytes := rfl

theorem length_hexEncode (bytes : List UInt8) : (hexEncode bytes).length = 2 * bytes.length := by
  induction bytes with
  | nil => rfl
  | cons b bytes ih =>
    rw [hexEncode_cons, List.length_cons, List.length_cons, ih, List.length_cons]
    omega

theorem high_nibble (b : UInt8) : (b >>> 4).toNat = b.toNat / 16 := by
  rw [UInt8.toNat_shiftRight]
  exact Nat.shiftRight_eq_div_pow _ _

theorem low_nibble (b : UInt8) : (b &&& 0xf).toNat = b.toNat % 16 := by
  rw [UInt8.toNat_and]
  exact Nat.and_two_pow_sub_one_eq_mod b.toNat 4

/-- The digits that are written. -/
theorem mem_hexEncode {bytes : List UInt8} {c : Char} (h : c ∈ hexEncode bytes) :
    ∃ digit < 16, c = hexDigit digit := by
  obtain ⟨b, -, hc⟩ := List.mem_flatMap.1 h
  have hlt := b.toNat_lt
  rcases List.mem_cons.1 hc with rfl | hc
  · exact ⟨_, by rw [high_nibble]; omega, rfl⟩
  · rw [List.mem_singleton.1 hc]
    exact ⟨_, by rw [low_nibble]; omega, rfl⟩

theorem digitValue_hexDigit {digit : Nat} (h : digit < 16) :
    digitValue (hexDigit digit) = digit := by
  rw [digitValue, toDigit_hexDigit digit h, Option.getD_some]

theorem groupValue_hexEncode (bytes : List UInt8) : groupValue (hexEncode bytes) = bytes := by
  induction bytes with
  | nil => rfl
  | cons b bytes ih =>
    have hlt := b.toNat_lt
    rw [hexEncode_cons, groupValue, ih, high_nibble, low_nibble,
      digitValue_hexDigit (by omega), digitValue_hexDigit (by omega), Nat.div_add_mod,
      UInt8.ofNat_toNat]

theorem isGroup_hexEncode (bytes : List UInt8) : IsGroup (hexEncode bytes) := by
  refine ⟨fun c hc => ?_, Or.inr ?_⟩
  · obtain ⟨digit, hlt, rfl⟩ := mem_hexEncode hc
    exact isHexDigit_of_toDigit (toDigit_hexDigit digit hlt)
  · rw [length_hexEncode]
    omega

theorem hexDecode_hexEncode (bytes : List UInt8) : hexDecode (hexEncode bytes) = some bytes := by
  by_cases hnil : bytes = []
  · subst hnil
    rfl
  · have hne : hexEncode bytes ≠ [] := by
      intro heq
      have hlen := length_hexEncode bytes
      rw [heq, List.length_nil] at hlen
      have hpos := List.length_pos_iff.2 hnil
      omega
    have hsolid : ∀ c ∈ hexEncode bytes, isWhitespace c = false := by
      intro c hc
      obtain ⟨digit, hlt, rfl⟩ := mem_hexEncode hc
      exact (hexDigit_solid digit hlt).1
    rw [hexDecode_eq_some, splitWhitespace_of_solid hne hsolid]
    refine ⟨fun group hgroup => ?_, ?_⟩
    · rw [List.mem_singleton.1 hgroup]
      exact isGroup_hexEncode bytes
    · rw [List.flatMap_singleton, groupValue_hexEncode]

/-! ## Arrays -/

/-- The text of bytes that are ASCII. -/
def ofAscii (bytes : List UInt8) : List Char := bytes.map fun b => Char.ofNat b.toNat

theorem ofAscii_printByteString (bytes : List UInt8) (len : Nat) :
    ofAscii (printByteString bytes len) = hexEncode (bytes.take ((len - 2) / 2)) := by
  rw [ofAscii, printByteString, List.map_map]
  refine (List.map_congr_left fun c hc => ?_).trans (List.map_id _)
  obtain ⟨digit, hlt, rfl⟩ := mem_hexEncode hc
  show Char.ofNat (UInt8.ofNat (hexDigit digit).toNat).toNat = hexDigit digit
  rw [UInt8.toNat_ofNat_of_lt' (hexDigit_solid digit hlt).2, Char.ofNat_toNat]

/-- Its text stops so far before the end of the buffer that the last pair starts below `len - 3`. -/
def Fits (len : Nat) (bytes : List UInt8) : Prop :=
  bytes = [] ∨ (hexEncode bytes).length + 1 < len

/-- The longest prefix of `bytes` that fits. -/
structure LongestFitting (len : Nat) (bytes cut : List UInt8) : Prop where
  isPrefix : cut <+: bytes
  fits : Fits len cut
  longest : ∀ other, other <+: bytes → Fits len other → other.length ≤ cut.length

theorem longestFitting_take (bytes : List UInt8) (len : Nat) :
    LongestFitting len bytes (bytes.take ((len - 2) / 2)) where
  isPrefix := List.take_prefix _ _
  fits := by
    rw [Fits, length_hexEncode]
    by_cases hnil : bytes.take ((len - 2) / 2) = []
    · exact Or.inl hnil
    · right
      have hpos := List.length_pos_iff.2 hnil
      rw [List.length_take] at hpos ⊢
      omega
  longest := by
    intro other hpre hfits
    have hlen := hpre.length_le
    rw [List.length_take]
    rcases hfits with rfl | hfits
    · exact Nat.zero_le _
    · rw [length_hexEncode] at hfits
      omega

theorem readStringArray_byteStrings (bs : List (List UInt8)) (len : Nat) :
    readStringArray ⟨.byteString, bs.map .byteString⟩ len =
      .ok (bs.map fun bytes => printByteString bytes len) := by
  rw [readStringArray, List.mapM_map]
  exact mapM_of_forall fun bytes _ => rfl

theorem writeStringArray_printed (namespaceIndex : List Char → Nat) (bs : List (List UInt8))
    (len : Nat) (values : List TextValue) :
    writeStringArray namespaceIndex (bs.map fun bytes => ofAscii (printByteString bytes len))
      ⟨.byteString, values⟩ =
        .ok ⟨.byteString, (bs.map fun bytes => bytes.take ((len - 2) / 2)).map .byteString⟩ := by
  have hwrite : (bs.map fun bytes => ofAscii (printByteString bytes len)).mapM writeByteString =
      .ok (bs.map fun bytes => .byteString (bytes.take ((len - 2) / 2))) := by
    rw [List.mapM_map]
    refine mapM_of_forall fun bytes _ => ?_
    rw [Function.comp_apply, ofAscii_printByteString, writeByteString, hexDecode_hexEncode]
    rfl
  rw [List.map_map]
  exact congrArg (Except.map _) hwrite

/-- **ByteStrings as text.**  The text of bytes reads as these bytes; text has bytes exactly if
each of its groups is one digit or pairs of digits, and then those of its groups; and an array
written as it was printed is each element up to what fits the buffer. -/
theorem byte_strings_as_text :
    (∀ bytes, hexDecode (hexEncode bytes) = some bytes) ∧
      (∀ text bytes, hexDecode text = some bytes ↔
        (∀ group ∈ splitWhitespace text,
          (∀ c ∈ group, IsHexDigit c) ∧ (group.length = 1 ∨ group.length % 2 = 0)) ∧
          bytes = (splitWhitespace text).flatMap groupValue) ∧
      ∀ (namespaceIndex : List Char → Nat) (bs : List (List UInt8)) (len : Nat)
        (values : List TextValue), ∃ printed cuts,
          readStringArray ⟨.byteString, bs.map .byteString⟩ len = .ok printed ∧
            writeStringArray namespaceIndex (printed.map ofAscii) ⟨.byteString, values⟩ =
              .ok ⟨.byteString, cuts.map .byteString⟩ ∧
              List.Forall₂ (LongestFitting len) bs cuts := by
  refine ⟨hexDecode_hexEncode, fun text bytes => hexDecode_eq_some, ?_⟩
  intro namespaceIndex bs len values
  refine ⟨_, bs.map fun bytes => bytes.take ((len - 2) / 2), readStringArray_byteStrings bs len,
    ?_, ?_⟩
  · rw [List.map_map]
    exact writeStringArray_printed namespaceIndex bs len values
  · rw [List.forall₂_map_right_iff]
    exact List.forall₂_same.2 fun bytes _ => longestFitting_take bytes len

/-- A single digit is a byte, three digits are none. -/
example : hexDecode "1 23".toList = some [1, 0x23] ∧ hexDecode "123".toList = none := by decide

end OpcUa
