import Mathlib.Data.Nat.Digits.Defs
import EpicsIocs.Lib.Bytes
import EpicsIocs.Lib.Faults

/-! # Packets of an array write

`bincomm.rs`: a write of an array over a span goes out in one packet, or in numbered ones of
as many values as fit beside the printed span.  `i32` arithmetic panics on overflow in a
build with overflow checks (`checks`) and wraps in one without. -/

namespace AcsMotion

open Bytes Faults

/-! ## The code -/

def maxPacketData : Nat := 1400
def frameStart : UInt8 := 0xd3
def frameEnd : UInt8 := 0xd6
def writeDArrayCmd : UInt8 := 0xf2
def writeLdArrayCmd : UInt8 := 0x37

/-- The bytes of a string. -/
def utf8 (s : String) : List UInt8 := s.toUTF8.data.toList

/-- A result of `i32` arithmetic. -/
def i32 {ε : Type} (checks : Bool) (n : Int) : Outcome ε Int32 :=
  if -2147483648 ≤ n ∧ n ≤ 2147483647 ∨ ¬checks then .ok (Int32.ofInt n) else panics

/-- `usize` subtraction. -/
def sub {ε : Type} (checks : Bool) (a b : Nat) : Outcome ε Nat :=
  if b ≤ a then .ok (a - b) else if checks then panics else .ok (2 ^ 64 + a - b)

/-- The inclusive index ranges of a variable: `var(i1,j1)(i2,j2)`. -/
structure Span where
  idx1 : Int32 × Int32
  idx2 : Int32 × Int32
  deriving DecidableEq

namespace Span

/-- `(start,end)(0,0)`. -/
def one (start stop : Int32) : Span := ⟨(start, stop), (0, 0)⟩

def elements {ε : Type} (checks : Bool) (s : Span) : Outcome ε Nat :=
  (i32 checks (s.idx1.2.toInt - s.idx1.1.toInt)).bind fun rows =>
  (i32 checks (rows.toInt + 1)).bind fun rows =>
  (i32 checks (s.idx2.2.toInt - s.idx2.1.toInt)).bind fun columns =>
  (i32 checks (columns.toInt + 1)).bind fun columns =>
  (i32 checks (rows.toInt * columns.toInt)).map fun n => n.toInt.toNat

def name (s : Span) (var : String) : String :=
  var ++ "(" ++ toString s.idx1.1.toInt ++ "," ++ toString s.idx1.2.toInt ++ ")(" ++
    toString s.idx2.1.toInt ++ "," ++ toString s.idx2.2.toInt ++ ")"

end Span

/-- What a packet says: with a slice number, it is one of several. -/
structure Packet where
  slice : Option Nat
  var : String
  span : Span
  values : List UInt64
  deriving DecidableEq

namespace Packet

/-- `[%slice]%>>[08]var(..)(..)/%values`. -/
def body (p : Packet) : List UInt8 :=
  (match p.slice with
    | some n => utf8 ("%" ++ toString n)
    | none => []) ++
  utf8 "%>>" ++ [0x08] ++ utf8 (p.span.name p.var) ++ utf8 "/%" ++
  p.values.flatMap fun value => leBytes 8 value.toNat

def id (p : Packet) : UInt8 := if p.slice.isSome then writeLdArrayCmd else writeDArrayCmd

end Packet

def frame (id : UInt8) (body : List UInt8) : List UInt8 :=
  [frameStart, id, UInt8.ofNat body.length, UInt8.ofNat (body.length / 256)] ++ body ++ [frameEnd]

/-- One packet of an array write. -/
structure WriteCmd where
  packet : Packet
  remainingSlices : Nat
  packetDoubles : Nat
  deriving DecidableEq

def WriteCmd.frame (cmd : WriteCmd) : List UInt8 := AcsMotion.frame cmd.packet.id cmd.packet.body

/-- Of a division by zero, a panic. -/
def divCeil {ε : Type} (a b : Nat) : Outcome ε Nat :=
  if b = 0 then panics else .ok ((a + b - 1) / b)

/-- Packet `slice` of `data` written to `var` over `span`. -/
def writeFloat64ArrayCmd {ε : Type} (checks : Bool) (var : String) (span : Span)
    (data : List UInt64) (slice : Nat) : Outcome ε WriteCmd :=
  (span.elements checks).bind fun numDoubles =>
  let nameLen := (span.name var).utf8ByteSize
  if nameLen + 6 + numDoubles * 8 ≤ maxPacketData then
    (Faults.slice data 0 (0 + numDoubles)).map fun values => ⟨⟨none, var, span, values⟩, 0, numDoubles⟩
  else
    (sub checks maxPacketData nameLen).bind fun room =>
    (sub checks room 8).bind fun room =>
    (divCeil numDoubles (room / 8)).bind fun packets =>
    (sub checks packets 1).bind fun last =>
    (if slice = last then sub checks numDoubles (slice * (room / 8)) else .ok (room / 8)).bind
      fun packetDoubles =>
    (sub checks packets slice).bind fun remaining =>
    (sub checks remaining 1).bind fun remaining =>
    (Faults.slice data (slice * (room / 8)) (slice * (room / 8) + packetDoubles)).map fun values =>
      ⟨⟨some slice, var, span, values⟩, remaining, packetDoubles⟩

/-! ## Counting elements -/

theorem i32_of_mem {ε : Type} {checks : Bool} {n : Int} (hlo : -2147483648 ≤ n)
    (hhi : n ≤ 2147483647) : (i32 checks n : Outcome ε Int32) = .ok (Int32.ofInt n) :=
  if_pos (.inl ⟨hlo, hhi⟩)

theorem toInt_ofInt {n : Int} (hlo : -2147483648 ≤ n) (hhi : n ≤ 2147483647) :
    (Int32.ofInt n).toInt = n :=
  Int32.toInt_ofInt_of_le hlo (by omega)

theorem sub_of_le {ε : Type} {checks : Bool} {a b : Nat} (h : b ≤ a) :
    (sub checks a b : Outcome ε Nat) = .ok (a - b) := if_pos h

/-- What a checked operation gives is exact. -/
theorem toInt_of_i32 {ε : Type} {n : Int} {m : Int32} (h : (i32 true n : Outcome ε Int32) = .ok m) :
    m.toInt = n := by
  by_cases hn : -2147483648 ≤ n ∧ n ≤ 2147483647
  · rw [i32_of_mem hn.1 hn.2] at h
    cases h
    exact toInt_ofInt hn.1 hn.2
  · rw [i32, if_neg (by simpa using hn)] at h
    cases h

namespace Span

/-- The numbers of indices of a span that has elements. -/
def rows (s : Span) : Nat := (s.idx1.2.toInt - s.idx1.1.toInt + 1).toNat

def columns (s : Span) : Nat := (s.idx2.2.toInt - s.idx2.1.toInt + 1).toNat

/-- A range that ends where it starts, or later. -/
structure Proper (s : Span) : Prop where
  idx1 : s.idx1.1.toInt ≤ s.idx1.2.toInt
  idx2 : s.idx2.1.toInt ≤ s.idx2.2.toInt

/-- An `i32` counts the elements. -/
def Counted (s : Span) : Prop := s.rows * s.columns ≤ 2147483647

variable {s : Span}

theorem Proper.rows_pos (h : s.Proper) : 0 < s.rows := by
  have h1 := h.idx1
  unfold rows
  omega

theorem Proper.columns_pos (h : s.Proper) : 0 < s.columns := by
  have h2 := h.idx2
  unfold columns
  omega

theorem Proper.rows_eq (h : s.Proper) :
    (s.rows : Int) = s.idx1.2.toInt - s.idx1.1.toInt + 1 := by
  have h1 := h.idx1
  unfold rows
  omega

theorem Proper.columns_eq (h : s.Proper) :
    (s.columns : Int) = s.idx2.2.toInt - s.idx2.1.toInt + 1 := by
  have h2 := h.idx2
  unfold columns
  omega

theorem elements_eq {ε : Type} (checks : Bool) (h : s.Proper) (hc : s.Counted) :
    (s.elements checks : Outcome ε Nat) = .ok (s.rows * s.columns) := by
  have hr := h.rows_eq
  have hw := h.columns_eq
  have hrows : s.rows ≤ s.rows * s.columns := Nat.le_mul_of_pos_right _ h.columns_pos
  have hcolumns : s.columns ≤ s.rows * s.columns := Nat.le_mul_of_pos_left _ h.rows_pos
  have hpos1 := h.rows_pos
  have hpos2 := h.columns_pos
  unfold Counted at hc
  have hprod : (s.rows : Int) * s.columns ≤ 2147483647 := by exact_mod_cast hc
  have hprod0 : 0 ≤ (s.rows : Int) * s.columns := by positivity
  unfold elements
  rw [i32_of_mem (by omega) (by omega), ok_bind, toInt_ofInt (by omega) (by omega),
    i32_of_mem (by omega) (by omega), ok_bind, toInt_ofInt (by omega) (by omega),
    i32_of_mem (by omega) (by omega), ok_bind, toInt_ofInt (by omega) (by omega),
    i32_of_mem (by omega) (by omega), ok_bind, toInt_ofInt (by omega) (by omega),
    ← hr, ← hw, i32_of_mem (by omega) (by omega)]
  show Except.ok (Int32.ofInt _).toInt.toNat = _
  rw [toInt_ofInt (by omega) (by omega)]
  congr 1

/-- With overflow checks, only spans whose elements an `i32` counts have a count. -/
theorem counted_of_elements {ε : Type} {n : Nat} (h : s.Proper)
    (hn : (s.elements true : Outcome ε Nat) = .ok n) : s.Counted := by
  unfold elements at hn
  obtain ⟨a, ha, hn⟩ := Fallible.of_bind hn
  obtain ⟨rows, hrows, hn⟩ := Fallible.of_bind hn
  obtain ⟨b, hb, hn⟩ := Fallible.of_bind hn
  obtain ⟨columns, hcolumns, hn⟩ := Fallible.of_bind hn
  obtain ⟨m, hm, -⟩ := Fallible.of_map hn
  have hprod := toInt_of_i32 hm
  rw [toInt_of_i32 hrows, toInt_of_i32 ha, toInt_of_i32 hcolumns, toInt_of_i32 hb, ← h.rows_eq,
    ← h.columns_eq] at hprod
  have hle := m.toInt_le
  unfold Counted
  have hcast : ((s.rows * s.columns : Nat) : Int) ≤ 2147483647 := by
    push_cast
    rw [← hprod]
    exact m.toInt_le
  exact_mod_cast hcast

end Span

/-! ## Printed spans -/

theorem utf8ByteSize_ofList {l : List Char} (h : ∀ c ∈ l, c.isDigit) :
    (String.ofList l).utf8ByteSize = l.length := by
  induction l with
  | nil => simp
  | cons c l ih =>
    have hc : c.utf8Size = 1 := by
      have hdigit := h c List.mem_cons_self
      rw [Char.isDigit, Bool.and_eq_true, decide_eq_true_eq, decide_eq_true_eq] at hdigit
      unfold Char.utf8Size
      rw [if_pos]
      have hle : c.val ≤ 57 := hdigit.2
      exact UInt32.le_trans hle (by decide)
    rw [String.ofList_cons, String.utf8ByteSize_append, String.utf8ByteSize_singleton, hc,
      ih fun c hc => h c (List.mem_cons_of_mem _ hc), List.length_cons]
    omega

theorem utf8ByteSize_repr (n : Nat) : n.repr.utf8ByteSize = n.repr.length := by
  rw [Nat.repr_eq_ofList_toDigits, utf8ByteSize_ofList, String.length_ofList]
  exact fun c hc => Nat.isDigit_of_mem_toDigits (by decide) (by decide) hc

theorem utf8ByteSize_toString (n : Int32) : (toString n.toInt).utf8ByteSize ≤ 11 := by
  have hlo := n.le_toInt
  have hhi := n.toInt_lt
  show (Int.repr n.toInt).utf8ByteSize ≤ 11
  obtain ⟨m, hm⟩ | ⟨m, hm⟩ : (∃ m : Nat, n.toInt = (m : Int)) ∨
      ∃ m : Nat, n.toInt = Int.negSucc m := by
    cases n.toInt with
    | ofNat m => exact .inl ⟨m, rfl⟩
    | negSucc m => exact .inr ⟨m, rfl⟩
  · have hlength := (Nat.length_repr_le_iff (n := m) (k := 10) (by decide)).2 (by omega)
    rw [hm]
    show m.repr.utf8ByteSize ≤ 11
    rw [utf8ByteSize_repr]
    omega
  · have hlength := (Nat.length_repr_le_iff (n := m.succ) (k := 10) (by decide)).2 (by omega)
    rw [hm, Int.repr, String.utf8ByteSize_append, utf8ByteSize_repr]
    have hminus : "-".utf8ByteSize = 1 := by decide
    omega

/-- Any span printed behind the name leaves room for a value. -/
def ShortName (var : String) : Prop :=
  ∀ span : Span, (span.name var).utf8ByteSize + 16 ≤ maxPacketData

theorem shortName_of_le {var : String} (h : var.utf8ByteSize ≤ 1334) : ShortName var := by
  intro span
  have h1 := utf8ByteSize_toString span.idx1.1
  have h2 := utf8ByteSize_toString span.idx1.2
  have h3 := utf8ByteSize_toString span.idx2.1
  have h4 := utf8ByteSize_toString span.idx2.2
  have hopen : "(".utf8ByteSize = 1 := by decide
  have hcomma : ",".utf8ByteSize = 1 := by decide
  have hbetween : ")(".utf8ByteSize = 2 := by decide
  have hclose : ")".utf8ByteSize = 1 := by decide
  unfold Span.name maxPacketData
  simp only [String.utf8ByteSize_append]
  omega

/-! ## One packet -/

/-- The values in a packet that is one of several. -/
def perPacket (span : Span) (var : String) : Nat :=
  (maxPacketData - (span.name var).utf8ByteSize - 8) / 8

theorem length_utf8 (s : String) : (utf8 s).length = s.utf8ByteSize := by
  simp [utf8]

theorem length_values (values : List UInt64) :
    (values.flatMap fun value => leBytes 8 value.toNat).length = 8 * values.length := by
  induction values with
  | nil => rfl
  | cons value values ih =>
    rw [List.flatMap_cons, List.length_append, ih, length_leBytes, List.length_cons]
    omega

section
variable {ε : Type} {checks : Bool} {var : String} {span : Span} {data : List UInt64} {n : Nat}

theorem perPacket_pos (hvar : ShortName var) : 0 < perPacket span var := by
  have hroom := hvar span
  unfold perPacket
  omega

/-- A write that fits one packet. -/
theorem writeFloat64ArrayCmd_single (hn : (span.elements checks : Outcome ε Nat) = .ok n)
    (hfits : (span.name var).utf8ByteSize + 6 + n * 8 ≤ maxPacketData) (slice : Nat) :
    (writeFloat64ArrayCmd checks var span data slice : Outcome ε WriteCmd) =
      if n ≤ data.length then .ok ⟨⟨none, var, span, data.take n⟩, 0, n⟩ else panics := by
  unfold writeFloat64ArrayCmd
  rw [hn, ok_bind]
  simp only [if_pos hfits]
  by_cases hle : n ≤ data.length
  · rw [if_pos hle, slice_add (by omega)]
    rfl
  · rw [if_neg hle, Faults.slice, if_neg (by omega)]
    rfl

theorem packetDoubles_eq {per slice : Nat} (hpos : 0 < per) (hslice : slice * per < n) :
    (if slice = (n - 1) / per then .ok (n - slice * per) else .ok per : Outcome ε Nat) =
      .ok (min per (n - slice * per)) := by
  have hlt := Nat.lt_div_mul_add hpos (a := n - 1)
  by_cases hlast : slice = (n - 1) / per
  · rw [if_pos hlast, Nat.min_eq_right]
    rw [hlast]
    omega
  · have hle := (Nat.le_div_iff_mul_le hpos).2 (show slice * per ≤ n - 1 by omega)
    have hnext : slice + 1 ≤ (n - 1) / per := by omega
    have hmul := Nat.mul_le_mul_right per hnext
    have hdiv := Nat.div_mul_le_self (n - 1) per
    rw [Nat.succ_mul] at hmul
    rw [if_neg hlast, Nat.min_eq_left]
    omega

/-- A packet of several: a full one, or the last. -/
theorem writeFloat64ArrayCmd_slice (hvar : ShortName var)
    (hn : (span.elements checks : Outcome ε Nat) = .ok n)
    (hlong : ¬(span.name var).utf8ByteSize + 6 + n * 8 ≤ maxPacketData) {slice : Nat}
    (hslice : slice * perPacket span var < n) :
    (writeFloat64ArrayCmd checks var span data slice : Outcome ε WriteCmd) =
      if slice * perPacket span var + min (perPacket span var) (n - slice * perPacket span var) ≤
          data.length then
        .ok ⟨⟨some slice, var, span, (data.drop (slice * perPacket span var)).take
            (min (perPacket span var) (n - slice * perPacket span var))⟩,
          (n - 1) / perPacket span var - slice,
          min (perPacket span var) (n - slice * perPacket span var)⟩
      else panics := by
  have hroom := hvar span
  have hpos : 0 < perPacket span var := perPacket_pos hvar
  have hper : (maxPacketData - (span.name var).utf8ByteSize - 8) / 8 = perPacket span var := rfl
  have hpackets : (n + perPacket span var - 1) / perPacket span var =
      (n - 1) / perPacket span var + 1 := by
    rw [← Nat.add_div_right _ hpos]
    congr 1
    omega
  have hlast : slice ≤ (n - 1) / perPacket span var :=
    (Nat.le_div_iff_mul_le hpos).2 (by omega)
  unfold writeFloat64ArrayCmd
  rw [hn, ok_bind]
  simp only [if_neg hlong]
  rw [sub_of_le (by omega), ok_bind, sub_of_le (by omega), ok_bind, hper, divCeil,
    if_neg (by omega), ok_bind, hpackets, sub_of_le (by omega), ok_bind, Nat.add_sub_cancel,
    sub_of_le (Nat.le_of_lt hslice), packetDoubles_eq hpos hslice, ok_bind, sub_of_le (by omega),
    ok_bind, sub_of_le (by omega), ok_bind]
  by_cases hle : slice * perPacket span var +
      min (perPacket span var) (n - slice * perPacket span var) ≤ data.length
  · rw [if_pos hle, slice_add hle, Nat.sub_right_comm, Nat.add_sub_cancel]
    rfl
  · rw [if_neg hle, Faults.slice, if_neg (by omega)]
    rfl

end

/-- No more bytes than a packet has, and one digit for the slice number. -/
def Packet.Fits (p : Packet) : Prop :=
  p.body.length ≤ maxPacketData ∧ ∀ n, p.slice = some n → (toString n).length = 1

theorem fits_single {var : String} {span : Span} {values : List UInt64}
    (h : (span.name var).utf8ByteSize + 6 + values.length * 8 ≤ maxPacketData) :
    Packet.Fits ⟨none, var, span, values⟩ := by
  have hquery : (utf8 "%>>").length = 3 := by decide
  have hsep : (utf8 "/%").length = 2 := by decide
  constructor
  · unfold Packet.body
    simp only [List.length_append, List.length_nil, List.length_cons, length_values, length_utf8]
      at hquery hsep ⊢
    omega
  · intro n hn
    cases hn

theorem fits_slice {var : String} {span : Span} {values : List UInt64} {slice : Nat}
    (hvar : ShortName var) (hslice : slice < 10) (h : values.length ≤ perPacket span var) :
    Packet.Fits ⟨some slice, var, span, values⟩ := by
  have hroom := hvar span
  have hquery : (utf8 "%>>").length = 3 := by decide
  have hsep : (utf8 "/%").length = 2 := by decide
  have hdigit : ∀ n < 10, (utf8 ("%" ++ toString n)).length = 2 := by decide +kernel
  have hnumber := hdigit slice hslice
  have hone : ∀ n < 10, (toString n).length = 1 := by decide +kernel
  constructor
  · unfold perPacket at h
    unfold Packet.body
    simp only [List.length_append, List.length_nil, List.length_cons, length_values, length_utf8]
      at hquery hsep hnumber ⊢
    omega
  · intro n hn
    cases hn
    exact hone slice hslice

end AcsMotion
