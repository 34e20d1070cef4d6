import EpicsIocs.Lib.Scatter
import EpicsIocs.AcsMotion.BinComm

/-! # An array written in slices

`put_slices` of `comm.rs`: ten packets of a span, and the rest as a new array from where they
stopped.  The controller stores the values of a numbered series one after the other, in
row-major order, from the start of the span in its packets.

The span holds the data and nothing else is written (`Writes`) exactly when each span the
write goes on with continues the one before it (`Continued`, `putSlices_writes_iff`). -/

namespace AcsMotion

open Faults Scatter

/-! ## The code -/

section
variable {σ : Type}

def commError (message : String) : String := "SPiiPlusComm: " ++ message

/-- `globalVarCheck`'s dimensions. -/
def Span.dimensions {ε : Type} (checks : Bool) (s : Span) : Outcome ε Nat :=
  (i32 checks (s.idx2.2.toInt - s.idx2.1.toInt)).bind fun columns =>
  if 0 < columns.toInt then .ok 2
  else (i32 checks (s.idx1.2.toInt - s.idx1.1.toInt)).map fun rows =>
    if 0 < rows.toInt then 1 else 0

/-- `i32` division. -/
def divMod {ε : Type} (a b : Int32) : Outcome ε (Int32 × Int32) :=
  if b = 0 ∨ a.toInt = -2147483648 ∧ b.toInt = -1 then panics
  else .ok (Int32.ofInt (a.toInt.tdiv b.toInt), Int32.ofInt (a.toInt.tmod b.toInt))

/-- The span of what is left after ten packets, `sent` values in all. -/
def rebase {ε : Type} (checks : Bool) (dimensions : Nat) (span : Span) (sent : Nat) :
    Outcome ε Span :=
  match dimensions with
  | 1 => .ok { span with idx1 := (Int32.ofInt sent, span.idx1.2) }
  | 2 =>
    (i32 checks (span.idx1.2.toInt + 1)).bind fun width =>
    (divMod (Int32.ofInt sent) width).map fun (column, row) =>
      ⟨(row, span.idx1.2), (column, span.idx2.2)⟩
  | _ => .ok span

/-- The loop's variables. -/
structure PutState where
  span : Span
  slice : Nat := 0
  sent : Nat := 0
  offset : Nat := 0

/-- `exchange` sends a packet and gives what the device is then; there are no more packets than
values. -/
def putLoop (checks : Bool) (exchange : σ → Packet → Except String σ) (var : String)
    (data : List UInt64) (dimensions : Nat) : Nat → PutState → σ → Outcome String σ
  | 0, _, _ => panics
  | fuel + 1, s, device =>
    (slice data s.offset data.length).bind fun rest =>
    (writeFloat64ArrayCmd checks var s.span rest s.slice).bind fun cmd =>
    (lift (exchange device cmd.packet)).bind fun device =>
    let sent := s.sent + cmd.packetDoubles
    if cmd.remainingSlices = 0 then .ok device
    else if s.slice + 1 = 10 then
      (rebase checks dimensions s.span sent).bind fun span =>
        putLoop checks exchange var data dimensions fuel ⟨span, 0, sent, sent⟩ device
    else
      putLoop checks exchange var data dimensions fuel { s with slice := s.slice + 1, sent } device

/-- `globalVarCheck` is whether the variable is to be declared, or that its reading failed. -/
def putSlices (checks : Bool) (exchange : σ → Packet → Except String σ)
    (globalVarCheck : Except String Bool) (createGlobalRealVar : Except String Unit)
    (data : List UInt64) (var : String) (span : Span) (device : σ) : Outcome String σ :=
  (span.elements checks).bind fun count =>
  if data.length < count then
    fail (commError ("putDoubleArray: " ++ var ++ " needs " ++ toString count ++ " values, got " ++
      toString data.length))
  else
    (span.dimensions checks).bind fun dimensions =>
    (lift (globalVarCheck.mapError fun _ => commError (var ++ ": globalVarCheck failed"))).bind
      fun missing =>
    (lift (if missing then createGlobalRealVar.mapError fun _ =>
        commError (var ++ ": createGlobalRealVar failed") else .ok ())).bind fun _ =>
    putLoop checks exchange var data dimensions (data.length + 1) ⟨span, 0, 0, 0⟩ device

end

/-! ## The controller -/

namespace Span

/-- The element at `k` in row-major order. -/
def element (s : Span) (k : Nat) : Int × Int :=
  (s.idx1.1.toInt + k / (s.idx2.2.toInt - s.idx2.1.toInt + 1),
    s.idx2.1.toInt + k % (s.idx2.2.toInt - s.idx2.1.toInt + 1))

end Span

/-- `next` counts the values of the series so far. -/
structure Controller where
  mem : Int × Int → UInt64
  next : Nat := 0
  packets : List Packet := []

/-- Slice 0, and a packet without a number, start a series. -/
def Controller.store (c : Controller) (p : Packet) : Controller :=
  let start := if p.slice.getD 0 = 0 then 0 else c.next
  { mem := place c.mem ((p.values.zipIdx start).map fun (value, k) => (p.span.element k, value))
    next := start + p.values.length
    packets := c.packets ++ [p] }

/-- Every packet is acknowledged. -/
def Controller.acknowledge (c : Controller) (p : Packet) : Except String Controller :=
  .ok (c.store p)

/-! ## One packet of the loop -/

section
variable {checks : Bool} {var : String} {data : List UInt64} {dimensions : Nat}

/-- The loop is at a packet of its span, and what it has sent is behind it. -/
structure PutState.At (checks : Bool) (var : String) (length n : Nat) (s : PutState) : Prop where
  elements : (s.span.elements checks : Outcome String Nat) = .ok n
  slice : s.slice < 10
  sent : s.sent = s.offset + s.slice * perPacket s.span var
  held : s.sent ≤ length
  more : s.slice ≠ 0 → ¬(s.span.name var).utf8ByteSize + 6 + n * 8 ≤ maxPacketData ∧
    s.slice * perPacket s.span var < n

/-- A packet of these values of the data. -/
def PutState.packet (s : PutState) (var : String) (data : List UInt64) (number : Option Nat)
    (count : Nat) : Packet :=
  ⟨number, var, s.span, (data.drop s.sent).take count⟩

variable {n : Nat} {s : PutState}

theorem drop_offset (hs : s.At checks var data.length n) :
    (slice data s.offset data.length : Outcome String (List UInt64)) = .ok (data.drop s.offset) :=
  slice_drop (by have h1 := hs.sent; have h2 := hs.held; omega)

/-- A span that fits one packet. -/
theorem putLoop_single (hs : s.At checks var data.length n)
    (hfits : (s.span.name var).utf8ByteSize + 6 + n * 8 ≤ maxPacketData) (fuel : Nat)
    (c : Controller) :
    putLoop checks Controller.acknowledge var data dimensions (fuel + 1) s c =
      if s.offset + n ≤ data.length then .ok (c.store (s.packet var data none n)) else panics := by
  have hzero : s.slice = 0 := by
    by_contra hne
    exact (hs.more hne).1 hfits
  have hsent : s.sent = s.offset := by
    rw [hs.sent, hzero, Nat.zero_mul, Nat.add_zero]
  have hheld := hs.held
  rw [putLoop, drop_offset hs, ok_bind, writeFloat64ArrayCmd_single hs.elements hfits,
    List.length_drop]
  by_cases hle : s.offset + n ≤ data.length
  · rw [if_pos hle, if_pos (by omega), PutState.packet, hsent]
    rfl
  · rw [if_neg hle, if_neg (by omega)]
    rfl

/-- One packet of several. -/
theorem putLoop_slice (hvar : ShortName var) (hs : s.At checks var data.length n)
    (hlong : ¬(s.span.name var).utf8ByteSize + 6 + n * 8 ≤ maxPacketData)
    (hslice : s.slice * perPacket s.span var < n) (fuel : Nat) (c : Controller) :
    putLoop checks Controller.acknowledge var data dimensions (fuel + 1) s c =
      if n ≤ (s.slice + 1) * perPacket s.span var then
        if s.offset + n ≤ data.length then
          .ok (c.store (s.packet var data (some s.slice) (n - s.slice * perPacket s.span var)))
        else panics
      else if s.sent + perPacket s.span var ≤ data.length then
        if s.slice + 1 = 10 then
          (rebase checks dimensions s.span (s.sent + perPacket s.span var)).bind fun span =>
            putLoop checks Controller.acknowledge var data dimensions fuel
              ⟨span, 0, s.sent + perPacket s.span var, s.sent + perPacket s.span var⟩
              (c.store (s.packet var data (some s.slice) (perPacket s.span var)))
        else
          putLoop checks Controller.acknowledge var data dimensions fuel
            { s with slice := s.slice + 1, sent := s.sent + perPacket s.span var }
            (c.store (s.packet var data (some s.slice) (perPacket s.span var)))
      else panics := by
  have hpos : 0 < perPacket s.span var := perPacket_pos hvar
  have hsent := hs.sent
  have hheld := hs.held
  have hremaining : (n - 1) / perPacket s.span var - s.slice = 0 ↔
      n ≤ (s.slice + 1) * perPacket s.span var := by
    have hlt := Nat.div_lt_iff_lt_mul hpos (x := n - 1) (y := s.slice + 1)
    omega
  have hdrop : (data.drop s.offset).drop (s.slice * perPacket s.span var) = data.drop s.sent := by
    rw [List.drop_drop, ← hsent]
  rw [putLoop, drop_offset hs, ok_bind,
    writeFloat64ArrayCmd_slice hvar hs.elements hlong hslice, List.length_drop, hdrop]
  have hmul : (s.slice + 1) * perPacket s.span var =
      s.slice * perPacket s.span var + perPacket s.span var := Nat.succ_mul _ _
  by_cases hlast : n ≤ (s.slice + 1) * perPacket s.span var
  · rw [if_pos hlast, Nat.min_eq_right (by omega)]
    by_cases hle : s.offset + n ≤ data.length
    · rw [if_pos hle, if_pos (by omega), ok_bind]
      show (if (n - 1) / perPacket s.span var - s.slice = 0 then _ else _) = _
      rw [if_pos (hremaining.2 hlast)]
      rfl
    · rw [if_neg hle, if_neg (by omega)]
      rfl
  · rw [if_neg hlast, Nat.min_eq_left (by omega)]
    by_cases hle : s.sent + perPacket s.span var ≤ data.length
    · rw [if_pos hle, if_pos (by omega), ok_bind]
      show (if (n - 1) / perPacket s.span var - s.slice = 0 then _ else _) = _
      rw [if_neg (mt hremaining.1 hlast)]
      rfl
    · rw [if_neg hle, if_neg (by omega)]
      rfl

/-! ## The elements written -/

/-- The elements that the loop writes from here on, when it comes to an end. -/
inductive Packets (checks : Bool) (var : String) (dimensions length : Nat) :
    PutState → List (Int × Int) → Prop where
  | single {s : PutState} {n : Nat} : s.At checks var length n →
      (s.span.name var).utf8ByteSize + 6 + n * 8 ≤ maxPacketData → s.offset + n ≤ length →
      Packets checks var dimensions length s ((List.range n).map s.span.element)
  | last {s : PutState} {n : Nat} : s.At checks var length n →
      ¬(s.span.name var).utf8ByteSize + 6 + n * 8 ≤ maxPacketData →
      s.slice * perPacket s.span var < n → n ≤ (s.slice + 1) * perPacket s.span var →
      s.offset + n ≤ length →
      Packets checks var dimensions length s ((List.range' (s.slice * perPacket s.span var)
        (n - s.slice * perPacket s.span var)).map s.span.element)
  | next {s : PutState} {n : Nat} {rest : List (Int × Int)} : s.At checks var length n →
      ¬(s.span.name var).utf8ByteSize + 6 + n * 8 ≤ maxPacketData →
      (s.slice + 1) * perPacket s.span var < n → s.sent + perPacket s.span var ≤ length →
      s.slice + 1 ≠ 10 →
      Packets checks var dimensions length { s with slice := s.slice + 1, sent := s.sent + perPacket s.span var } rest →
      Packets checks var dimensions length s ((List.range' (s.slice * perPacket s.span var)
        (perPacket s.span var)).map s.span.element ++ rest)
  | rebased {s : PutState} {n : Nat} {span : Span} {rest : List (Int × Int)} : s.At checks var length n →
      ¬(s.span.name var).utf8ByteSize + 6 + n * 8 ≤ maxPacketData →
      (s.slice + 1) * perPacket s.span var < n → s.sent + perPacket s.span var ≤ length →
      s.slice + 1 = 10 →
      (rebase checks dimensions s.span (s.sent + perPacket s.span var) : Outcome String Span) =
        .ok span →
      Packets checks var dimensions length ⟨span, 0, s.sent + perPacket s.span var, s.sent + perPacket s.span var⟩ rest →
      Packets checks var dimensions length s ((List.range' (s.slice * perPacket s.span var)
        (perPacket s.span var)).map s.span.element ++ rest)

theorem PutState.At.next (hs : s.At checks var data.length n)
    (hlong : ¬(s.span.name var).utf8ByteSize + 6 + n * 8 ≤ maxPacketData)
    (hmore : (s.slice + 1) * perPacket s.span var < n)
    (hheld : s.sent + perPacket s.span var ≤ data.length) (hslice : s.slice + 1 ≠ 10) :
    PutState.At checks var data.length n
      { s with slice := s.slice + 1, sent := s.sent + perPacket s.span var } where
  elements := hs.elements
  slice := by
    have hlt := hs.slice
    show s.slice + 1 < 10
    omega
  sent := by
    show s.sent + perPacket s.span var = s.offset + (s.slice + 1) * perPacket s.span var
    rw [hs.sent, Nat.succ_mul]
    omega
  held := hheld
  more _ := ⟨hlong, hmore⟩

/-- Of several packets, the next one has values. -/
theorem PutState.At.inside (hvar : ShortName var) (hs : s.At checks var data.length n)
    (hlong : ¬(s.span.name var).utf8ByteSize + 6 + n * 8 ≤ maxPacketData) :
    s.slice * perPacket s.span var < n := by
  by_cases hzero : s.slice = 0
  · have hroom := hvar s.span
    rw [hzero]
    omega
  · exact (hs.more hzero).2

/-- The start of a span that has a count. -/
theorem PutState.At.start {span : Span} {offset length : Nat}
    (hn : (span.elements checks : Outcome String Nat) = .ok n) (hheld : offset ≤ length) :
    PutState.At checks var length n ⟨span, 0, offset, offset⟩ where
  elements := hn
  slice := Nat.succ_pos 9
  sent := by simp
  held := hheld
  more h := absurd rfl h

theorem putLoop_no_elements {span : Span} {offset fuel : Nat} {c c' : Controller}
    (hheld : offset ≤ data.length)
    (h : putLoop checks Controller.acknowledge var data dimensions fuel ⟨span, 0, offset, offset⟩ c
      = .ok c') : ∃ n, (span.elements checks : Outcome String Nat) = .ok n := by
  cases fuel with
  | zero => cases h
  | succ fuel =>
    rw [putLoop, slice_drop hheld, ok_bind] at h
    obtain ⟨cmd, hcmd, -⟩ := Fallible.of_bind h
    obtain ⟨n, hn, -⟩ := Fallible.of_bind hcmd
    exact ⟨n, hn⟩

/-- A span without a count ends the loop at once. -/
theorem putLoop_of_error {span : Span} {offset : Nat} {fault : Fault String}
    (hheld : offset ≤ data.length)
    (he : (span.elements checks : Outcome String Nat) = .error fault) (fuel : Nat)
    (c : Controller) :
    putLoop checks Controller.acknowledge var data dimensions (fuel + 1)
      ⟨span, 0, offset, offset⟩ c = .error fault := by
  rw [putLoop, slice_drop hheld, ok_bind, writeFloat64ArrayCmd, he]
  rfl

/-- The loop does not end for want of fuel. -/
theorem putLoop_fuel (hvar : ShortName var) {fuel : Nat} {c : Controller}
    (hs : s.At checks var data.length n) (hfuel : data.length - s.sent < fuel) :
    putLoop checks Controller.acknowledge var data dimensions (fuel + 1) s c =
      putLoop checks Controller.acknowledge var data dimensions fuel s c := by
  induction fuel generalizing s n c with
  | zero => omega
  | succ fuel ih =>
    by_cases hfits : (s.span.name var).utf8ByteSize + 6 + n * 8 ≤ maxPacketData
    · rw [putLoop_single hs hfits, putLoop_single hs hfits]
    · have hslice := hs.inside hvar hfits
      have hpos : 0 < perPacket s.span var := perPacket_pos hvar
      rw [putLoop_slice hvar hs hfits hslice, putLoop_slice hvar hs hfits hslice]
      by_cases hlast : n ≤ (s.slice + 1) * perPacket s.span var
      · rw [if_pos hlast, if_pos hlast]
      · rw [if_neg hlast, if_neg hlast]
        by_cases hle : s.sent + perPacket s.span var ≤ data.length
        · rw [if_pos hle, if_pos hle]
          by_cases hten : s.slice + 1 = 10
          · rw [if_pos hten, if_pos hten]
            refine Fallible.bind_congr fun span _ => ?_
            obtain ⟨k, rfl⟩ : ∃ k, fuel = k + 1 := ⟨fuel - 1, by omega⟩
            cases hm : (span.elements checks : Outcome String Nat) with
            | ok m =>
              refine ih (PutState.At.start hm hle) ?_
              show data.length - (s.sent + perPacket s.span var) < k + 1
              omega
            | error fault => rw [putLoop_of_error hle hm, putLoop_of_error hle hm]
          · rw [if_neg hten, if_neg hten]
            refine ih (hs.next hfits (Nat.lt_of_not_le hlast) hle hten) ?_
            show data.length - (s.sent + perPacket s.span var) < fuel
            omega
        · rw [if_neg hle, if_neg hle]

/-- A loop that comes to an end has written the elements of its packets. -/
theorem packets_of_run (hvar : ShortName var) {fuel : Nat} {c c' : Controller}
    (hs : s.At checks var data.length n)
    (h : putLoop checks Controller.acknowledge var data dimensions fuel s c = .ok c') :
    ∃ elements, Packets checks var dimensions data.length s elements := by
  induction fuel generalizing s n c with
  | zero => cases h
  | succ fuel ih =>
    by_cases hfits : (s.span.name var).utf8ByteSize + 6 + n * 8 ≤ maxPacketData
    · rw [putLoop_single hs hfits] at h
      by_cases hle : s.offset + n ≤ data.length
      · exact ⟨_, .single hs hfits hle⟩
      · rw [if_neg hle] at h
        cases h
    · have hslice := hs.inside hvar hfits
      rw [putLoop_slice hvar hs hfits hslice] at h
      by_cases hlast : n ≤ (s.slice + 1) * perPacket s.span var
      · rw [if_pos hlast] at h
        by_cases hle : s.offset + n ≤ data.length
        · exact ⟨_, .last hs hfits hslice hlast hle⟩
        · rw [if_neg hle] at h
          cases h
      · rw [if_neg hlast] at h
        by_cases hle : s.sent + perPacket s.span var ≤ data.length
        · rw [if_pos hle] at h
          by_cases hten : s.slice + 1 = 10
          · rw [if_pos hten] at h
            obtain ⟨span, hspan, h⟩ := Fallible.of_bind h
            obtain ⟨m, hm⟩ := putLoop_no_elements hle h
            obtain ⟨rest, hrest⟩ := ih (PutState.At.start hm hle) h
            exact ⟨_, .rebased hs hfits (Nat.lt_of_not_le hlast) hle hten hspan hrest⟩
          · rw [if_neg hten] at h
            obtain ⟨rest, hrest⟩ := ih (hs.next hfits (Nat.lt_of_not_le hlast) hle hten) h
            exact ⟨_, .next hs hfits (Nat.lt_of_not_le hlast) hle hten hrest⟩
        · rw [if_neg hle] at h
          cases h

/-! ## What is written there -/

theorem writes_zip {κ α : Type} (f : Nat → κ) (values : List α) (start : Nat) :
    ((values.zipIdx start).map fun (value, k) => (f k, value)) =
      ((List.range' start values.length).map f).zip values := by
  induction values generalizing start with
  | nil => rfl
  | cons value values ih =>
    rw [List.zipIdx_cons, List.map_cons, ih, List.length_cons, List.range'_succ]
    rfl

theorem zip_front {κ α : Type} (front rest : List κ) {values : List α} {n : Nat}
    (hfront : front.length = n) (hn : n ≤ values.length) :
    (front ++ rest).zip values = front.zip (values.take n) ++ rest.zip (values.drop n) := by
  conv => lhs; rw [← List.take_append_drop n values]
  rw [List.zip_append]
  rw [hfront, List.length_take]
  omega

theorem zip_take {κ α : Type} {front : List κ} {values : List α} {n : Nat}
    (hfront : front.length = n) (hn : n ≤ values.length) :
    front.zip values = front.zip (values.take n) := by
  simpa using zip_front front [] hfront hn

/-- A packet in its series is stored behind the ones before. -/
theorem store_eq {number : Option Nat} {start count : Nat} {c : Controller}
    (hstart : (if number.getD 0 = 0 then 0 else c.next) = start)
    (hcount : s.sent + count ≤ data.length) :
    c.store (s.packet var data number count) =
      ⟨place c.mem (((List.range' start count).map s.span.element).zip
          ((data.drop s.sent).take count)), start + count,
        c.packets ++ [s.packet var data number count]⟩ := by
  have hlength : ((data.drop s.sent).take count).length = count := by
    rw [List.length_take, List.length_drop]
    omega
  unfold Controller.store PutState.packet
  simp only [hstart]
  rw [writes_zip s.span.element, hlength]

theorem PutState.At.packet_fits (hvar : ShortName var) (hs : s.At checks var data.length n)
    {count : Nat} (hcount : count ≤ perPacket s.span var) :
    (s.packet var data (some s.slice) count).Fits :=
  fits_slice hvar hs.slice (Nat.le_trans (List.length_take_le _ _) hcount)

/-- A packet is its own, or was there before. -/
theorem mem_packets {c : Controller} {p q : Packet} (hp : p.Fits)
    (hq : q ∈ (c.store p).packets) : q ∈ c.packets ∨ q.Fits := by
  obtain hq | hq := List.mem_append.1 hq
  · exact .inl hq
  · obtain rfl := List.mem_singleton.1 hq
    exact .inr hp

/-- A full packet, and what the rest of the loop writes behind it. -/
theorem written_behind (hvar : ShortName var) (hs : s.At checks var data.length n)
    (hheld : s.sent + perPacket s.span var ≤ data.length) {c c' : Controller}
    (hstart : (if (some s.slice).getD 0 = 0 then 0 else c.next) = s.slice * perPacket s.span var)
    {rest : List (Int × Int)}
    (hmem : c'.mem = place (c.store (s.packet var data (some s.slice) (perPacket s.span var))).mem
      (rest.zip (data.drop (s.sent + perPacket s.span var))))
    (hlength : s.sent + perPacket s.span var + rest.length ≤ data.length)
    (hfits : ∀ p ∈ c'.packets,
      p ∈ (c.store (s.packet var data (some s.slice) (perPacket s.span var))).packets ∨ p.Fits) :
    c'.mem = place c.mem (((List.range' (s.slice * perPacket s.span var)
        (perPacket s.span var)).map s.span.element ++ rest).zip (data.drop s.sent)) ∧
      s.sent + ((List.range' (s.slice * perPacket s.span var)
        (perPacket s.span var)).map s.span.element ++ rest).length ≤ data.length ∧
      ∀ p ∈ c'.packets, p ∈ c.packets ∨ p.Fits := by
  have hfit := hs.packet_fits hvar (Nat.le_refl _)
  have hroom : perPacket s.span var ≤ (data.drop s.sent).length := by
    rw [List.length_drop]
    omega
  refine ⟨?_, ?_, fun p hp => ?_⟩
  · rw [hmem, store_eq hstart hheld, zip_front _ _ (by simp) hroom, place_append, List.drop_drop]
  · rw [List.length_append, List.length_map, List.length_range']
    omega
  · obtain hp | hp := hfits p hp
    · exact mem_packets hfit hp
    · exact .inr hp

/-- The loop comes to an end, its elements written and its packets as they must be. -/
theorem run_of_packets (hvar : ShortName var) {elements : List (Int × Int)}
    (h : Packets checks var dimensions data.length s elements) {fuel : Nat} {c : Controller}
    (hfuel : data.length - s.sent < fuel)
    (hstart : (if (some s.slice).getD 0 = 0 then 0 else c.next) =
      s.slice * perPacket s.span var) :
    ∃ c', putLoop checks Controller.acknowledge var data dimensions fuel s c = .ok c' ∧
      c'.mem = place c.mem (elements.zip (data.drop s.sent)) ∧
      s.sent + elements.length ≤ data.length ∧
      ∀ p ∈ c'.packets, p ∈ c.packets ∨ p.Fits := by
  obtain ⟨fuel, rfl⟩ : ∃ k, fuel = k + 1 := ⟨fuel - 1, by omega⟩
  induction h generalizing fuel c with
  | @single s n hs hfits hle =>
    have hzero : s.slice = 0 := by
      by_contra hne
      exact (hs.more hne).1 hfits
    have hsent : s.sent = s.offset := by
      rw [hs.sent, hzero, Nat.zero_mul, Nat.add_zero]
    have hheld : s.sent + n ≤ data.length := by omega
    have hfit : (s.packet var data none n).Fits := by
      refine fits_single ?_
      have hlength := List.length_take_le n (data.drop s.sent)
      omega
    refine ⟨_, by rw [putLoop_single hs hfits, if_pos hle], ?_, ?_, fun p => mem_packets hfit⟩
    · rw [store_eq rfl hheld, List.range_eq_range']
      refine congrArg (place c.mem) (zip_take (by simp) ?_).symm
      rw [List.length_drop]
      omega
    · rw [List.length_map, List.length_range]
      exact hheld
  | @last s n hs hlong hslice hlast hle =>
    have hsent := hs.sent
    have hmul : (s.slice + 1) * perPacket s.span var =
        s.slice * perPacket s.span var + perPacket s.span var := Nat.succ_mul _ _
    have hheld : s.sent + (n - s.slice * perPacket s.span var) ≤ data.length := by omega
    have hfit := hs.packet_fits hvar
      (show n - s.slice * perPacket s.span var ≤ perPacket s.span var by omega)
    refine ⟨_, by rw [putLoop_slice hvar hs hlong hslice, if_pos hlast, if_pos hle], ?_, ?_,
      fun p => mem_packets hfit⟩
    · rw [store_eq hstart hheld]
      refine congrArg (place c.mem) (zip_take (by simp) ?_).symm
      rw [List.length_drop]
      omega
    · rw [List.length_map, List.length_range']
      exact hheld
  | @next s n rest hs hlong hmore hheld hslice hrest ih =>
    have hpos : 0 < perPacket s.span var := perPacket_pos hvar
    have hmul : (s.slice + 1) * perPacket s.span var =
        s.slice * perPacket s.span var + perPacket s.span var := Nat.succ_mul _ _
    have hnext : (if (some (s.slice + 1)).getD 0 = 0 then 0 else
        (c.store (s.packet var data (some s.slice) (perPacket s.span var))).next) =
        (s.slice + 1) * perPacket s.span var := by
      rw [store_eq hstart hheld, hmul]
      exact if_neg (Nat.succ_ne_zero _)
    obtain ⟨c', hrun, hmem, hlength, hfits⟩ := ih hnext (fuel - 1)
      (by show data.length - (s.sent + perPacket s.span var) < fuel - 1 + 1; omega)
    refine ⟨c', ?_, written_behind hvar hs hheld hstart hmem hlength hfits⟩
    rw [putLoop_slice hvar hs hlong (by omega), if_neg (by omega), if_pos hheld, if_neg hslice]
    rw [show fuel - 1 + 1 = fuel by omega] at hrun
    exact hrun
  | @rebased s n span rest hs hlong hmore hheld hslice hspan hrest ih =>
    have hpos : 0 < perPacket s.span var := perPacket_pos hvar
    have hmul : (s.slice + 1) * perPacket s.span var =
        s.slice * perPacket s.span var + perPacket s.span var := Nat.succ_mul _ _
    obtain ⟨c', hrun, hmem, hlength, hfits⟩ := ih
      (c := c.store (s.packet var data (some s.slice) (perPacket s.span var)))
      ((if_pos rfl).trans (Nat.zero_mul _).symm) (fuel - 1)
      (by show data.length - (s.sent + perPacket s.span var) < fuel - 1 + 1; omega)
    refine ⟨c', ?_, written_behind hvar hs hheld hstart hmem hlength hfits⟩
    rw [putLoop_slice hvar hs hlong (by omega), if_neg (by omega), if_pos hheld, if_pos hslice,
      hspan, ok_bind]
    rw [show fuel - 1 + 1 = fuel by omega] at hrun
    exact hrun

end

/-! ## Spans that continue a span -/

namespace Span

/-- The span goes on at element `sent` of the whole, and its first `count` elements stay in one
row, if it does not start one. -/
structure Continues (whole : Span) (sent count : Nat) (span : Span) : Prop where
  start : 0 < count → (span.idx1.1.toInt, span.idx2.1.toInt) = whole.element sent
  row : sent % whole.columns = 0 ∨ count ≤ whole.columns - sent % whole.columns

variable {whole span : Span}

theorem element_eq {s : Span} {w : Nat} (hw : (w : Int) = s.idx2.2.toInt - s.idx2.1.toInt + 1)
    (k : Nat) :
    s.element k = (s.idx1.1.toInt + (k / w : Nat), s.idx2.1.toInt + (k % w : Nat)) := by
  unfold element
  rw [← hw, Int.natCast_ediv, Int.natCast_emod]

theorem element_zero (s : Span) : s.element 0 = (s.idx1.1.toInt, s.idx2.1.toInt) := by
  simp [element]

theorem Proper.element_injective {s : Span} (h : s.Proper) {j k : Nat}
    (heq : s.element j = s.element k) : j = k := by
  rw [element_eq h.columns_eq, element_eq h.columns_eq] at heq
  obtain ⟨hdiv, hmod⟩ := Prod.mk.inj heq
  have hdiv : j / s.columns = k / s.columns := by omega
  have hmod : j % s.columns = k % s.columns := by omega
  rw [← Nat.div_add_mod j s.columns, ← Nat.div_add_mod k s.columns, hdiv, hmod]

/-- Where the span starts there and ends as the whole does, its elements up to the end of the row
are the next ones, and all its elements if it starts a row. -/
theorem element_of_start (hw : whole.Proper) (hend : span.idx2.2 = whole.idx2.2) {sent : Nat}
    (hstart : (span.idx1.1.toInt, span.idx2.1.toInt) = whole.element sent) (k : Nat) :
    span.element k =
      (whole.idx1.1.toInt + (sent / whole.columns + k / (whole.columns - sent % whole.columns) : Nat),
        whole.idx2.1.toInt + (sent % whole.columns +
          k % (whole.columns - sent % whole.columns) : Nat)) := by
  rw [element_eq hw.columns_eq] at hstart
  obtain ⟨h1, h2⟩ := Prod.mk.inj hstart
  have hlt := Nat.mod_lt sent hw.columns_pos
  have hcolumns := hw.columns_eq
  have hwidth : ((whole.columns - sent % whole.columns : Nat) : Int) =
      span.idx2.2.toInt - span.idx2.1.toInt + 1 := by
    rw [hend, h2]
    omega
  rw [element_eq hwidth, h1, h2]
  push_cast
  ring_nf

/-- A span continues the whole exactly when its elements are the next ones. -/
theorem continues_iff (hw : whole.Proper) (hend : span.idx2.2 = whole.idx2.2) {sent count : Nat} :
    whole.Continues sent count span ↔
      ∀ k < count, span.element k = whole.element (sent + k) := by
  have hpos := hw.columns_pos
  have hlt := Nat.mod_lt sent hpos
  have hsplit := Nat.div_add_mod sent whole.columns
  constructor
  · rintro ⟨hstart, hrow⟩ k hk
    rw [element_of_start hw hend (hstart (by omega)), element_eq hw.columns_eq]
    obtain hzero | hin := hrow
    · have hsent : sent = whole.columns * (sent / whole.columns) := by omega
      have hdiv : (sent + k) / whole.columns = sent / whole.columns + k / whole.columns := by
        conv => lhs; rw [hsent, Nat.mul_add_div hpos]
      have hmod : (sent + k) % whole.columns = k % whole.columns := by
        conv => lhs; rw [hsent, Nat.mul_add_mod]
      rw [hdiv, hmod, hzero, Nat.sub_zero, Nat.zero_add]
    · have hdiv : (sent + k) / whole.columns = sent / whole.columns := by
        conv => lhs; rw [← hsplit, Nat.add_assoc, Nat.mul_add_div hpos]
        rw [Nat.div_eq_of_lt (a := sent % whole.columns + k) (by omega), Nat.add_zero]
      have hmod : (sent + k) % whole.columns = sent % whole.columns + k := by
        conv => lhs; rw [← hsplit, Nat.add_assoc, Nat.mul_add_mod]
        exact Nat.mod_eq_of_lt (by omega)
      have hkdiv : k / (whole.columns - sent % whole.columns) = 0 := Nat.div_eq_of_lt (by omega)
      have hkmod : k % (whole.columns - sent % whole.columns) = k := Nat.mod_eq_of_lt (by omega)
      rw [hdiv, hmod, hkdiv, hkmod, Nat.add_zero]
  · intro hall
    have hstart : 0 < count → (span.idx1.1.toInt, span.idx2.1.toInt) = whole.element sent := by
      intro hcount
      rw [← element_zero, hall 0 hcount, Nat.add_zero]
    refine ⟨hstart, ?_⟩
    by_contra hout
    obtain ⟨hzero, hlong⟩ := not_or.1 hout
    have hk := hall (whole.columns - sent % whole.columns) (by omega)
    rw [element_of_start hw hend (hstart (by omega)), element_eq hw.columns_eq, Nat.mod_self] at hk
    have hnext : sent + (whole.columns - sent % whole.columns) =
        whole.columns * (sent / whole.columns + 1) := by
      rw [Nat.mul_succ]
      omega
    rw [hnext, Nat.mul_mod_right] at hk
    have h2 := (Prod.mk.inj hk).2
    omega

end Span

/-- Each span the write goes on with continues the whole, from `span` with `sent` values sent. -/
inductive Continued (checks : Bool) (var : String) (dimensions : Nat) (whole : Span) :
    Span → Nat → Prop where
  | last {span : Span} {sent n : Nat} :
      (span.elements checks : Outcome String Nat) = .ok n → n ≤ 10 * perPacket span var →
      sent + n = whole.rows * whole.columns → whole.Continues sent n span →
      Continued checks var dimensions whole span sent
  | more {span next : Span} {sent n : Nat} :
      (span.elements checks : Outcome String Nat) = .ok n → 10 * perPacket span var < n →
      whole.Continues sent (10 * perPacket span var) span →
      (rebase checks dimensions span (sent + 10 * perPacket span var) : Outcome String Span) =
        .ok next →
      Continued checks var dimensions whole next (sent + 10 * perPacket span var) →
      Continued checks var dimensions whole span sent

section
variable {checks : Bool} {var : String} {dimensions : Nat} {whole : Span} {length : Nat}

theorem rebase_end {span next : Span} {sent : Nat}
    (h : (rebase checks dimensions span sent : Outcome String Span) = .ok next) :
    next.idx2.2 = span.idx2.2 := by
  unfold rebase at h
  split at h
  · cases h
    rfl
  · obtain ⟨width, -, h⟩ := Fallible.of_bind h
    obtain ⟨indices, -, rfl⟩ := Fallible.of_map h
    rfl
  · cases h
    rfl

/-! ## Which elements are written -/

theorem continued_of_series (hw : whole.Proper) {span : Span} {sent n : Nat}
    (hend : span.idx2.2 = whole.idx2.2) (hn : (span.elements checks : Outcome String Nat) = .ok n)
    (hnext : ∀ k < min n (10 * perPacket span var), span.element k = whole.element (sent + k))
    (hlast : n ≤ 10 * perPacket span var → sent + n = whole.rows * whole.columns)
    (hmore : 10 * perPacket span var < n → ∃ next,
      (rebase checks dimensions span (sent + 10 * perPacket span var) : Outcome String Span) =
        .ok next ∧
      Continued checks var dimensions whole next (sent + 10 * perPacket span var)) :
    Continued checks var dimensions whole span sent := by
  have hcontinues := (Span.continues_iff hw hend).2 hnext
  by_cases hfew : n ≤ 10 * perPacket span var
  · rw [Nat.min_eq_left hfew] at hcontinues
    exact .last hn hfew (hlast hfew) hcontinues
  · rw [Nat.min_eq_right (by omega)] at hcontinues
    obtain ⟨next, hspan, hrest⟩ := hmore (by omega)
    exact .more hn (by omega) hcontinues hspan hrest

/-- The elements of a packet, read off the list. -/
theorem getElem?_packet (span : Span) (rest : List (Int × Int)) {start count k : Nat}
    (hlo : start ≤ k) (hhi : k < start + count) :
    ((List.range' start count).map span.element ++ rest)[k - start]? = some (span.element k) := by
  rw [List.getElem?_append_left (by rw [List.length_map, List.length_range']; omega),
    List.getElem?_map, List.getElem?_range' (by omega)]
  show some (span.element (start + 1 * (k - start))) = _
  congr 2
  omega

/-- A packet and what is written behind it, where all of it is next. -/
theorem behind {s : PutState} {count : Nat} {start : Nat} {rest : List (Int × Int)}
    (hnext : ∀ k < ((List.range' start count).map s.span.element ++ rest).length,
      ((List.range' start count).map s.span.element ++ rest)[k]? =
        some (whole.element (s.sent + k)))
    (hall : s.sent + ((List.range' start count).map s.span.element ++ rest).length =
      whole.rows * whole.columns) :
    (s.sent = s.offset + start → ∀ k, start ≤ k → k < start + count →
        s.span.element k = whole.element (s.offset + k)) ∧
      (∀ k < rest.length, rest[k]? = some (whole.element (s.sent + count + k))) ∧
      s.sent + count + rest.length = whole.rows * whole.columns := by
  have hlength : ((List.range' start count).map s.span.element ++ rest).length =
      count + rest.length := by
    rw [List.length_append, List.length_map, List.length_range']
  rw [hlength] at hnext hall
  refine ⟨fun hsent k hlo hk => ?_, fun k hk => ?_, by omega⟩
  · have hget := hnext (k - start) (by omega)
    rw [getElem?_packet s.span rest hlo hk, hsent] at hget
    have hplace : s.offset + start + (k - start) = s.offset + k := by omega
    rw [hplace] at hget
    exact Option.some.inj hget
  · have hget := hnext (count + k) (by omega)
    rw [List.getElem?_append_right (by rw [List.length_map, List.length_range']; omega),
      List.length_map, List.length_range', Nat.add_sub_cancel_left, ← Nat.add_assoc] at hget
    exact hget

/-- Where packets write the elements that are next, the span continues the whole, and so do the
spans behind it. -/
theorem continued_of_packets (hw : whole.Proper) (hvar : ShortName var) {s : PutState}
    {elements : List (Int × Int)} (h : Packets checks var dimensions length s elements)
    (hend : s.span.idx2.2 = whole.idx2.2)
    (hnext : ∀ k < elements.length, elements[k]? = some (whole.element (s.sent + k)))
    (hall : s.sent + elements.length = whole.rows * whole.columns) :
    ∃ n, (s.span.elements checks : Outcome String Nat) = .ok n ∧
      (∀ k, s.slice * perPacket s.span var ≤ k → k < min n (10 * perPacket s.span var) →
        s.span.element k = whole.element (s.offset + k)) ∧
      (n ≤ 10 * perPacket s.span var → s.offset + n = whole.rows * whole.columns) ∧
      (10 * perPacket s.span var < n → ∃ next,
        (rebase checks dimensions s.span (s.offset + 10 * perPacket s.span var) :
          Outcome String Span) = .ok next ∧
        Continued checks var dimensions whole next (s.offset + 10 * perPacket s.span var)) := by
  induction h with
  | @single s n hs hfits hle =>
    have hzero : s.slice = 0 := by
      by_contra hne
      exact (hs.more hne).1 hfits
    have hsent : s.sent = s.offset := by
      rw [hs.sent, hzero, Nat.zero_mul, Nat.add_zero]
    have hshort : n ≤ 10 * perPacket s.span var := by
      have hroom := hvar s.span
      unfold perPacket
      omega
    rw [List.length_map, List.length_range] at hnext hall
    refine ⟨n, hs.elements, fun k _ hk => ?_, fun _ => by omega, fun hmore => by omega⟩
    have hget := hnext k (by omega)
    rw [List.getElem?_map, List.getElem?_range (by omega), hsent] at hget
    exact Option.some.inj hget
  | @last s n hs hlong hslice hlast hle =>
    have hsent := hs.sent
    have hten : (s.slice + 1) * perPacket s.span var ≤ 10 * perPacket s.span var :=
      Nat.mul_le_mul_right _ hs.slice
    rw [List.length_map, List.length_range'] at hnext hall
    refine ⟨n, hs.elements, fun k hlo hk => ?_, fun _ => by omega, fun hmore => by omega⟩
    have hget := hnext (k - s.slice * perPacket s.span var) (by omega)
    have hpacket := getElem?_packet s.span [] hlo
      (show k < s.slice * perPacket s.span var + (n - s.slice * perPacket s.span var) by omega)
    rw [List.append_nil] at hpacket
    rw [hpacket] at hget
    have hplace : s.sent + (k - s.slice * perPacket s.span var) = s.offset + k := by omega
    rw [hplace] at hget
    exact Option.some.inj hget
  | @next s n rest hs hlong hmore hheld hslice hrest ih =>
    have hsent := hs.sent
    have hmul : (s.slice + 1) * perPacket s.span var =
        s.slice * perPacket s.span var + perPacket s.span var := Nat.succ_mul _ _
    obtain ⟨hfront, hrestNext, hrestAll⟩ := behind hnext hall
    obtain ⟨m, hm, haligned, hend', hmore'⟩ := ih hend hrestNext hrestAll
    obtain rfl : n = m := Except.ok.inj (hs.elements.symm.trans hm)
    refine ⟨n, hs.elements, fun k hlo hk => ?_, hend', hmore'⟩
    by_cases hin : k < (s.slice + 1) * perPacket s.span var
    · exact hfront hsent k hlo (by omega)
    · exact haligned k (by show (s.slice + 1) * perPacket s.span var ≤ k; omega) hk
  | @rebased s n span rest hs hlong hmore hheld hslice hspan hrest ih =>
    have hsent := hs.sent
    have hmul : (s.slice + 1) * perPacket s.span var =
        s.slice * perPacket s.span var + perPacket s.span var := Nat.succ_mul _ _
    have hten : s.sent + perPacket s.span var = s.offset + 10 * perPacket s.span var := by
      rw [← hslice]
      omega
    obtain ⟨hfront, hrestNext, hrestAll⟩ := behind hnext hall
    obtain ⟨m, hm, haligned, hlast, hmore'⟩ :=
      ih ((rebase_end hspan).trans hend) hrestNext hrestAll
    refine ⟨n, hs.elements, fun k hlo hk => hfront hsent k hlo ?_, fun hfew => ?_, fun _ => ?_⟩
    · rw [← hslice] at hk
      omega
    · rw [← hslice] at hfew
      omega
    · rw [← hten]
      refine ⟨span, hspan, continued_of_series hw ((rebase_end hspan).trans hend) hm ?_ hlast hmore'⟩
      exact fun k hk => haligned k (by simp) hk

/-- At a packet of several. -/
theorem at_slice {span : Span} {offset n slice : Nat}
    (hn : (span.elements checks : Outcome String Nat) = .ok n)
    (hlong : ¬(span.name var).utf8ByteSize + 6 + n * 8 ≤ maxPacketData) (hslice : slice < 10)
    (hmore : slice * perPacket span var < n)
    (hheld : offset + slice * perPacket span var ≤ length) :
    PutState.At checks var length n ⟨span, slice, offset + slice * perPacket span var, offset⟩ :=
  ⟨hn, hslice, rfl, hheld, fun _ => ⟨hlong, hmore⟩⟩

theorem map_range'_append (f : Nat → Int × Int) {start count total : Nat} (h : count ≤ total) :
    (List.range' start count).map f ++ (List.range' (start + count) (total - count)).map f =
      (List.range' start total).map f := by
  rw [← List.map_append, List.range'_append_1]
  congr 2
  omega

variable (dimensions) in
/-- The packets of a span that ends with one of them. -/
theorem packets_last {span : Span} {offset n : Nat}
    (hn : (span.elements checks : Outcome String Nat) = .ok n)
    (hlong : ¬(span.name var).utf8ByteSize + 6 + n * 8 ≤ maxPacketData)
    (hfew : n ≤ 10 * perPacket span var) (hin : offset + n ≤ length) (left slice : Nat)
    (hleft : slice + left = 9) (hmore : slice * perPacket span var < n) :
    Packets checks var dimensions length
      ⟨span, slice, offset + slice * perPacket span var, offset⟩
      ((List.range' (slice * perPacket span var) (n - slice * perPacket span var)).map
        span.element) := by
  induction left generalizing slice with
  | zero =>
    obtain rfl : slice = 9 := by omega
    exact .last (at_slice hn hlong (by decide) hmore (by omega)) hlong hmore hfew hin
  | succ left ih =>
    have hmul : (slice + 1) * perPacket span var =
        slice * perPacket span var + perPacket span var := Nat.succ_mul _ _
    have hat : PutState.At checks var length n
        ⟨span, slice, offset + slice * perPacket span var, offset⟩ :=
      at_slice hn hlong (by omega) hmore (by omega)
    by_cases hlast : n ≤ (slice + 1) * perPacket span var
    · exact .last hat hlong hmore hlast hin
    · have hrest := ih (slice + 1) (by omega) (Nat.lt_of_not_le hlast)
      rw [hmul, ← Nat.add_assoc] at hrest
      have hpacket := Packets.next hat hlong (Nat.lt_of_not_le hlast)
        (show offset + slice * perPacket span var + perPacket span var ≤ length by omega)
        (show slice + 1 ≠ 10 by omega) hrest
      rw [← Nat.sub_sub,
        map_range'_append _ (show perPacket span var ≤ n - slice * perPacket span var by omega)]
        at hpacket
      exact hpacket

/-- Ten packets of a span, and what is written behind them. -/
theorem packets_more {span next : Span} {offset n : Nat} {rest : List (Int × Int)}
    (hn : (span.elements checks : Outcome String Nat) = .ok n)
    (hlong : ¬(span.name var).utf8ByteSize + 6 + n * 8 ≤ maxPacketData)
    (hmany : 10 * perPacket span var < n) (hin : offset + 10 * perPacket span var ≤ length)
    (hspan : (rebase checks dimensions span (offset + 10 * perPacket span var) :
      Outcome String Span) = .ok next)
    (hrest : Packets checks var dimensions length
      ⟨next, 0, offset + 10 * perPacket span var, offset + 10 * perPacket span var⟩ rest)
    (left slice : Nat) (hleft : slice + left = 9) :
    Packets checks var dimensions length
      ⟨span, slice, offset + slice * perPacket span var, offset⟩
      ((List.range' (slice * perPacket span var)
        (10 * perPacket span var - slice * perPacket span var)).map span.element ++ rest) := by
  have hmul : (slice + 1) * perPacket span var =
      slice * perPacket span var + perPacket span var := Nat.succ_mul _ _
  have hten : (slice + 1) * perPacket span var ≤ 10 * perPacket span var :=
    Nat.mul_le_mul_right _ (by omega)
  have hat : PutState.At checks var length n
      ⟨span, slice, offset + slice * perPacket span var, offset⟩ :=
    at_slice hn hlong (by omega) (by omega) (by omega)
  induction left generalizing slice with
  | zero =>
    obtain rfl : slice = 9 := by omega
    have hsum : offset + 9 * perPacket span var + perPacket span var =
        offset + 10 * perPacket span var := by omega
    have hone : 10 * perPacket span var - 9 * perPacket span var = perPacket span var := by omega
    rw [hone]
    exact .rebased hat hlong (by show 10 * _ < n; omega) (by rw [hsum]; exact hin) rfl
      (by rw [hsum]; exact hspan) (by rw [hsum]; exact hrest)
  | succ left ih =>
    have hmul' : (slice + 1 + 1) * perPacket span var =
        (slice + 1) * perPacket span var + perPacket span var := Nat.succ_mul _ _
    have hten' : (slice + 1 + 1) * perPacket span var ≤ 10 * perPacket span var :=
      Nat.mul_le_mul_right _ (by omega)
    have hbehind := ih (slice + 1) (by omega) hmul' hten'
      (at_slice hn hlong (by omega) (by omega) (by omega))
    rw [hmul, ← Nat.add_assoc] at hbehind
    have hpacket := Packets.next hat hlong (show (slice + 1) * perPacket span var < n by omega)
      (show offset + slice * perPacket span var + perPacket span var ≤ length by omega)
      (show slice + 1 ≠ 10 by omega) hbehind
    rw [← Nat.sub_sub, ← List.append_assoc, map_range'_append _
      (show perPacket span var ≤ 10 * perPacket span var - slice * perPacket span var by omega)]
      at hpacket
    exact hpacket

/-- Where the spans continue the whole, the packets write the elements that are next. -/
theorem packets_of_continued (hw : whole.Proper) (hvar : ShortName var) {span : Span} {sent : Nat}
    (h : Continued checks var dimensions whole span sent) (hend : span.idx2.2 = whole.idx2.2)
    (hlength : whole.rows * whole.columns ≤ length) :
    ∃ left, sent + left = whole.rows * whole.columns ∧
      Packets checks var dimensions length ⟨span, 0, sent, sent⟩
        ((List.range' sent left).map whole.element) := by
  have hmap : ∀ {span : Span} {sent count : Nat},
      (∀ k < count, span.element k = whole.element (sent + k)) →
      (List.range' 0 count).map span.element = (List.range' sent count).map whole.element := by
    intro span sent count hnext
    refine List.ext_getElem (by simp) fun k hk _ => ?_
    have hk : k < count := by simpa using hk
    simpa using hnext k hk
  induction h with
  | @last span sent n hn hfew hall hcontinues =>
    have hnext := (Span.continues_iff hw hend).1 hcontinues
    refine ⟨n, hall, ?_⟩
    rw [← hmap hnext]
    by_cases hfits : (span.name var).utf8ByteSize + 6 + n * 8 ≤ maxPacketData
    · rw [← List.range_eq_range']
      exact .single (PutState.At.start hn (by omega)) hfits (by show sent + n ≤ length; omega)
    · have hroom := hvar span
      have hpackets := packets_last dimensions hn hfits hfew
        (show sent + n ≤ length by omega) 9 0 rfl (by unfold maxPacketData at *; omega)
      rw [Nat.zero_mul, Nat.add_zero, Nat.sub_zero] at hpackets
      exact hpackets
  | @more span next sent n hn hmany hcontinues hspan hrest ih =>
    have hnext := (Span.continues_iff hw hend).1 hcontinues
    obtain ⟨left, hleft, hpackets⟩ := ih ((rebase_end hspan).trans hend)
    have hlong : ¬(span.name var).utf8ByteSize + 6 + n * 8 ≤ maxPacketData := by
      have hroom := hvar span
      unfold perPacket at hmany
      omega
    have hseries := packets_more hn hlong hmany (by omega) hspan hpackets 9 0 rfl
    rw [Nat.zero_mul, Nat.add_zero, Nat.sub_zero, hmap hnext, ← List.map_append,
      List.range'_append_1] at hseries
    exact ⟨10 * perPacket span var + left, by omega, hseries⟩

end

/-! ## What the span holds -/

/-- Whatever the data and the controller's memory: the write returns, the elements of the span
hold the data in order, nothing else is written, and the packets are as they must be. -/
def Writes (checks : Bool) (var : String) (span : Span) : Prop :=
  ∀ (data : List UInt64) (mem : Int × Int → UInt64) (next : Nat) (missing : Bool),
    span.rows * span.columns ≤ data.length →
    ∃ c, putSlices checks Controller.acknowledge (.ok missing) (.ok ()) data var span
        ⟨mem, next, []⟩ = .ok c ∧
      (∀ k < span.rows * span.columns, data[k]? = some (c.mem (span.element k))) ∧
      (∀ a, (∀ k < span.rows * span.columns, span.element k ≠ a) → c.mem a = mem a) ∧
      ∀ p ∈ c.packets, p.Fits

section
variable {checks : Bool} {var : String} {span : Span}

/-- A write whose check and declaration succeed is its loop. -/
theorem putSlices_eq {data : List UInt64} {missing : Bool} {count : Nat} {c : Controller}
    (hn : (span.elements checks : Outcome String Nat) = .ok count) (hlength : count ≤ data.length) :
    putSlices checks Controller.acknowledge (.ok missing) (.ok ()) data var span c =
      (span.dimensions checks).bind fun dimensions =>
        putLoop checks Controller.acknowledge var data dimensions (data.length + 1)
          ⟨span, 0, 0, 0⟩ c := by
  unfold putSlices
  rw [hn, ok_bind, if_neg (by omega)]
  cases missing with
  | false => rfl
  | true => rfl

theorem mem_zip {elements : List (Int × Int)} {data : List UInt64} {a : Int × Int}
    {v : UInt64} (h : (a, v) ∈ elements.zip data) :
    ∃ i : Nat, elements[i]? = some a ∧ data[i]? = some v := by
  obtain ⟨i, hi⟩ := List.mem_iff_getElem?.1 h
  rw [List.getElem?_zip_eq_some] at hi
  exact ⟨i, hi⟩

theorem writes_of_continued (hspan : span.Proper) (hvar : ShortName var) (hcounted : span.Counted)
    {dimensions : Nat}
    (hdims : (span.dimensions checks : Outcome String Nat) = .ok dimensions)
    (h : Continued checks var dimensions span span 0) : Writes checks var span := by
  intro data mem next missing hlength
  obtain ⟨left, hleft, hpackets⟩ := packets_of_continued hspan hvar h rfl hlength
  obtain rfl : left = span.rows * span.columns := by omega
  obtain ⟨c, hrun, hmem, -, hfits⟩ := run_of_packets (c := ⟨mem, next, []⟩) hvar hpackets
    (Nat.lt_succ_of_le (Nat.sub_le _ _)) (by simp)
  rw [← List.range_eq_range', List.drop_zero] at hmem
  have hget : ∀ {k : Nat} {a : Int × Int},
      ((List.range (span.rows * span.columns)).map span.element)[k]? = some a →
        k < span.rows * span.columns ∧ span.element k = a := by
    intro k a hk
    rw [List.getElem?_map, Option.map_eq_some_iff] at hk
    obtain ⟨j, hj, rfl⟩ := hk
    obtain ⟨hlt, rfl⟩ := List.getElem?_eq_some_iff.1 hj
    rw [List.length_range] at hlt
    simp [hlt]
  refine ⟨c, ?_, fun k hk => ?_, fun a ha => ?_, fun p hp => ?_⟩
  · rw [putSlices_eq (Span.elements_eq checks hspan hcounted) hlength, hdims, ok_bind, hrun]
  · have hdata : data[k]? = some data[k] := List.getElem?_eq_getElem (by omega)
    rw [hmem, hdata]
    refine congrArg some (place_of_mem ?_ fun w hw => ?_).symm
    · refine List.mem_iff_getElem?.2 ⟨k, ?_⟩
      rw [List.getElem?_zip_eq_some]
      refine ⟨?_, hdata⟩
      rw [List.getElem?_map, List.getElem?_range hk]
      rfl
    · obtain ⟨i, helement, hvalue⟩ := mem_zip hw
      obtain ⟨-, heq⟩ := hget helement
      obtain rfl := hspan.element_injective heq
      rw [hdata] at hvalue
      exact (Option.some.inj hvalue).symm
  · rw [hmem]
    refine place_of_not_mem fun v hv => ?_
    obtain ⟨i, helement, -⟩ := mem_zip hv
    obtain ⟨hi, heq⟩ := hget helement
    exact ha i hi heq
  · obtain hp | hp := hfits p hp
    · cases hp
    · exact hp

/-- Values that differ from each other. -/
def numbered (n : Nat) : List UInt64 := (List.range n).map UInt64.ofNat

theorem getElem?_numbered {n k : Nat} {v : UInt64} (hn : n ≤ 2147483647)
    (h : (numbered n)[k]? = some v) : k < n ∧ v.toNat = k := by
  rw [numbered, List.getElem?_map, Option.map_eq_some_iff] at h
  obtain ⟨j, hj, rfl⟩ := h
  obtain ⟨hlt, rfl⟩ := List.getElem?_eq_some_iff.1 hj
  rw [List.length_range] at hlt
  rw [List.getElem_range]
  exact ⟨hlt, UInt64.toNat_ofNat_of_lt (by rw [UInt64.size]; omega)⟩

theorem counted_of_writes (hspan : span.Proper) (hbuild : checks = true ∨ span.Counted)
    (h : Writes checks var span) : span.Counted := by
  obtain rfl | hcounted := hbuild
  · obtain ⟨c, hrun, -⟩ := h (List.replicate (span.rows * span.columns) 0) (fun _ => 0) 0 false
      (by rw [List.length_replicate])
    obtain ⟨n, hn, -⟩ := Fallible.of_bind hrun
    exact Span.counted_of_elements hspan hn
  · exact hcounted

/-- Numbered values tell where they went. -/
theorem packets_of_writes (hspan : span.Proper) (hvar : ShortName var) (hcounted : span.Counted)
    (h : Writes checks var span) :
    ∃ dimensions elements, (span.dimensions checks : Outcome String Nat) = .ok dimensions ∧
      Packets checks var dimensions (span.rows * span.columns) ⟨span, 0, 0, 0⟩ elements ∧
      elements.length = span.rows * span.columns ∧
      ∀ k < span.rows * span.columns, elements[k]? = some (span.element k) := by
  have hcount : span.rows * span.columns ≤ 2147483647 := hcounted
  have hlength : (numbered (span.rows * span.columns)).length = span.rows * span.columns := by
    simp [numbered]
  obtain ⟨c, hrun, hheld, -, -⟩ := h (numbered (span.rows * span.columns))
    (fun _ => UInt64.ofNat (span.rows * span.columns)) 0 false hlength.ge
  rw [putSlices_eq (Span.elements_eq checks hspan hcounted) hlength.ge] at hrun
  obtain ⟨dimensions, hdims, hrun⟩ := Fallible.of_bind hrun
  obtain ⟨elements, hpackets⟩ := packets_of_run hvar
    (PutState.At.start (Span.elements_eq checks hspan hcounted) (Nat.zero_le _)) hrun
  obtain ⟨c', hrun', hmem, hin, -⟩ := run_of_packets
    (c := ⟨fun _ => UInt64.ofNat (span.rows * span.columns), 0, []⟩) hvar hpackets
    (Nat.lt_succ_of_le (Nat.sub_le _ _)) (by simp)
  obtain rfl : c = c' := Except.ok.inj (hrun.symm.trans hrun')
  rw [List.drop_zero] at hmem
  have hplaced : ∀ k < span.rows * span.columns, elements[k]? = some (span.element k) := by
    intro k hk
    obtain ⟨-, hvalue⟩ := getElem?_numbered hcount (hheld k hk)
    rw [hmem] at hvalue
    obtain ⟨hsame, -⟩ | hwritten := place_cases
      (fun _ => UInt64.ofNat (span.rows * span.columns))
      (elements.zip (numbered (span.rows * span.columns))) (span.element k)
    · rw [hsame] at hvalue
      have hold : (UInt64.ofNat (span.rows * span.columns)).toNat = span.rows * span.columns :=
        UInt64.toNat_ofNat_of_lt (by rw [UInt64.size]; omega)
      omega
    · obtain ⟨i, helement, hdata⟩ := mem_zip hwritten
      obtain ⟨-, hi⟩ := getElem?_numbered hcount hdata
      obtain rfl : i = k := hi.symm.trans hvalue
      exact helement
  refine ⟨dimensions, elements, hdims, hlength ▸ hpackets, ?_, hplaced⟩
  have hle : 0 + elements.length ≤ _ := hin
  by_contra hne
  have hlt := (List.getElem?_eq_some_iff.1 (hplaced elements.length (by omega))).1
  omega

theorem continued_of_writes (hspan : span.Proper) (hvar : ShortName var) (hcounted : span.Counted)
    (h : Writes checks var span) :
    ∃ dimensions, (span.dimensions checks : Outcome String Nat) = .ok dimensions ∧
      Continued checks var dimensions span span 0 := by
  obtain ⟨dimensions, elements, hdims, hpackets, hlength, hplaced⟩ :=
    packets_of_writes hspan hvar hcounted h
  obtain ⟨n, hn, hnext, hlast, hmore⟩ := continued_of_packets hspan hvar hpackets rfl
    (fun k hk => by rw [hplaced k (by omega), Nat.zero_add]) (by rw [hlength]; exact Nat.zero_add _)
  refine ⟨dimensions, hdims, continued_of_series hspan rfl hn (fun k hk => ?_) hlast hmore⟩
  exact hnext k (by simp) hk

variable (checks) in
/-- The write of any data over the span is right exactly when an `i32` counts the elements and
each span the write goes on with continues the span. -/
theorem putSlices_writes_iff (hspan : span.Proper) (hvar : ShortName var)
    (hbuild : checks = true ∨ span.Counted) :
    Writes checks var span ↔
      span.Counted ∧ ∃ dimensions,
        (span.dimensions checks : Outcome String Nat) = .ok dimensions ∧
          Continued checks var dimensions span span 0 := by
  constructor
  · intro h
    have hcounted := counted_of_writes hspan hbuild h
    exact ⟨hcounted, continued_of_writes hspan hvar hcounted h⟩
  · rintro ⟨hcounted, dimensions, hdims, hcontinued⟩
    exact writes_of_continued hspan hvar hcounted hdims hcontinued

end

/-! ## Spans of one column -/

section
variable {checks : Bool} {var : String} {span : Span}

/-- A span that ten packets cover. -/
theorem continued_of_ten {dimensions : Nat} (hspan : span.Proper) (hcounted : span.Counted)
    (hfew : span.rows * span.columns ≤ 10 * perPacket span var) :
    Continued checks var dimensions span span 0 := by
  refine .last (Span.elements_eq checks hspan hcounted) hfew (Nat.zero_add _) ?_
  exact ⟨fun _ => (Span.element_zero span).symm, .inl (Nat.zero_mod _)⟩

variable (checks) in
theorem dimensions_eq (hspan : span.Proper) (hcounted : span.Counted) :
    (span.dimensions checks : Outcome String Nat) =
      .ok (if 1 < span.columns then 2 else if 1 < span.rows then 1 else 0) := by
  have hrows := hspan.rows_eq
  have hcolumns := hspan.columns_eq
  have h1 : span.rows ≤ span.rows * span.columns := Nat.le_mul_of_pos_right _ hspan.columns_pos
  have h2 : span.columns ≤ span.rows * span.columns := Nat.le_mul_of_pos_left _ hspan.rows_pos
  have hpos1 := hspan.rows_pos
  have hpos2 := hspan.columns_pos
  unfold Span.Counted at hcounted
  unfold Span.dimensions
  rw [i32_of_mem (by omega) (by omega), ok_bind, toInt_ofInt (by omega) (by omega),
    i32_of_mem (by omega) (by omega)]
  by_cases hwide : 1 < span.columns
  · rw [if_pos (by omega), if_pos hwide]
  · rw [if_neg (by omega), if_neg hwide]
    show Except.ok (if 0 < (Int32.ofInt _).toInt then 1 else 0) = _
    rw [toInt_ofInt (by omega) (by omega)]
    by_cases hlong : 1 < span.rows
    · rw [if_pos (by omega), if_pos hlong]
    · rw [if_neg (by omega), if_neg hlong]

/-- The rest of a span of one column. -/
def Span.rest (span : Span) (sent : Nat) : Span :=
  { span with idx1 := (Int32.ofInt sent, span.idx1.2) }

variable (checks) in
/-- Of a column that starts at index 0, each rest continues it. -/
theorem continued_rest (hspan : span.Proper) (hvar : ShortName var)
    (hcounted : span.Counted) (hline : span.columns = 1)
    (hzero : span.idx1.1.toInt = 0) (left : Nat) {sent : Nat} (hleft : sent + left = span.rows)
    (hpos : 0 < left) : Continued checks var 1 span (span.rest sent) sent := by
  induction left using Nat.strong_induction_on generalizing sent with
  | h left ih =>
    have hrows := hspan.rows_eq
    have hmax : span.rows ≤ 2147483647 := by
      rw [Span.Counted, hline, Nat.mul_one] at hcounted
      exact hcounted
    have hstart : (Int32.ofInt sent).toInt = sent := toInt_ofInt (by omega) (by omega)
    have hproper : (span.rest sent).Proper :=
      ⟨by show (Int32.ofInt sent).toInt ≤ span.idx1.2.toInt; omega, hspan.idx2⟩
    have hrest : (span.rest sent).rows = left := by
      have heq : ((span.rest sent).rows : Int) = span.idx1.2.toInt - (Int32.ofInt sent).toInt + 1 :=
        hproper.rows_eq
      omega
    have hcolumn : (span.rest sent).columns = 1 := hline
    have hn : ((span.rest sent).elements checks : Outcome String Nat) = .ok left := by
      have hcounted : (span.rest sent).Counted := by
        unfold Span.Counted
        rw [hrest, hcolumn]
        omega
      rw [Span.elements_eq checks hproper hcounted, hrest, hcolumn, Nat.mul_one]
    have hcontinues : ∀ count, span.Continues sent count (span.rest sent) := by
      refine fun count => ⟨fun _ => ?_, .inl (by rw [hline, Nat.mod_one])⟩
      rw [Span.element_eq hspan.columns_eq, hline, Nat.div_one, Nat.mod_one, hzero]
      show ((Int32.ofInt sent).toInt, span.idx2.1.toInt) = _
      rw [hstart]
      simp
    by_cases hfew : left ≤ 10 * perPacket (span.rest sent) var
    · exact .last hn hfew (by rw [hline, Nat.mul_one]; exact hleft) (hcontinues _)
    · have hper : 0 < perPacket (span.rest sent) var := perPacket_pos hvar
      refine .more hn (Nat.lt_of_not_le hfew) (hcontinues _) rfl ?_
      exact ih (left - 10 * perPacket (span.rest sent) var) (by omega) (by omega) (by omega)

/-- Of a column, only one that starts at index 0 is continued behind ten packets. -/
theorem start_of_continued (hspan : span.Proper) (hvar : ShortName var) (hline : span.columns = 1)
    (hcounted : span.Counted) (h : Continued checks var 1 span span 0)
    (hmany : 10 * perPacket span var < span.rows) : span.idx1.1.toInt = 0 := by
  have hn : (span.elements checks : Outcome String Nat) = .ok (span.rows * span.columns) :=
    Span.elements_eq checks hspan hcounted
  rw [hline, Nat.mul_one] at hn
  cases h with
  | last hm hfew _ _ =>
    cases hn.symm.trans hm
    omega
  | @more _ next _ m hm _ _ hnext hrest =>
    have hspan' : next = span.rest (0 + 10 * perPacket span var) := (Except.ok.inj hnext).symm
    have hsmall : perPacket span var ≤ 175 := by
      unfold perPacket maxPacketData
      omega
    have hfirst : ∀ {count : Nat}, 0 < count →
        span.Continues (0 + 10 * perPacket span var) count next → span.idx1.1.toInt = 0 := by
      intro count hpos hcontinues
      have hstart := hcontinues.start hpos
      rw [Span.element_eq hspan.columns_eq, hline, Nat.div_one, hspan'] at hstart
      have heq : (Int32.ofInt (0 + 10 * perPacket span var : Nat)).toInt =
          span.idx1.1.toInt + (0 + 10 * perPacket span var : Nat) := (Prod.mk.inj hstart).1
      rw [toInt_ofInt (by omega) (by omega)] at heq
      omega
    cases hrest with
    | last _ _ htotal hcontinues =>
      rw [hline, Nat.mul_one] at htotal
      exact hfirst (by omega) hcontinues
    | more _ _ hcontinues _ _ =>
      have hper : 0 < perPacket next var := perPacket_pos hvar
      exact hfirst (by omega) hcontinues

/-- A column is written right exactly when it starts at index 0 or ten packets cover it. -/
theorem writes_line_iff (hspan : span.Proper) (hvar : ShortName var) (hcounted : span.Counted)
    (hline : span.columns = 1) :
    Writes checks var span ↔ span.rows ≤ 10 * perPacket span var ∨ span.idx1.1.toInt = 0 := by
  have hdims := dimensions_eq checks hspan hcounted
  rw [if_neg (by omega)] at hdims
  have hper : 0 < perPacket span var := perPacket_pos hvar
  constructor
  · intro h
    by_cases hfew : span.rows ≤ 10 * perPacket span var
    · exact .inl hfew
    · obtain ⟨dimensions, hd, hcontinued⟩ := continued_of_writes hspan hvar hcounted h
      rw [hdims, if_pos (by omega)] at hd
      cases hd
      exact .inr (start_of_continued hspan hvar hline hcounted hcontinued (by omega))
  · intro h
    by_cases hfew : span.rows ≤ 10 * perPacket span var
    · refine writes_of_continued hspan hvar hcounted hdims (continued_of_ten hspan hcounted ?_)
      rw [hline, Nat.mul_one]
      exact hfew
    · have hzero := h.resolve_left hfew
      rw [if_pos (by omega)] at hdims
      have hfirst : span.rest 0 = span := by
        have hidx : Int32.ofInt ((0 : Nat) : Int) = span.idx1.1 :=
          Int32.toInt_inj.1 (by rw [hzero]; rfl)
        unfold Span.rest
        rw [hidx]
      have hcontinued := continued_rest checks hspan hvar hcounted hline hzero
        span.rows (Nat.zero_add _) hspan.rows_pos
      rw [hfirst] at hcontinued
      exact writes_of_continued hspan hvar hcounted hdims hcontinued

end

/-! ## Spans from index 0 and from index 1 -/

theorem one_proper (start : Int32) (h : start.toInt ≤ 1800) : (Span.one start 1800).Proper :=
  ⟨h, Int.le_refl _⟩

theorem one_counted (start : Int32) (h : (Span.one start 1800).rows ≤ 1801) :
    (Span.one start 1800).Counted := by
  have hcolumns : (Span.one start 1800).columns = 1 := rfl
  unfold Span.Counted
  rw [hcolumns]
  omega

/-- 1801 values from index 0. -/
theorem putSlices_writes_fromZero : Writes true "GV" (Span.one 0 1800) := by
  have hcounted := one_counted 0 (by decide)
  refine (putSlices_writes_iff true (one_proper 0 (by decide)) (shortName_of_le (by decide))
    (.inl rfl)).2 ⟨hcounted, 1, dimensions_eq true (one_proper 0 (by decide)) hcounted, ?_⟩
  exact continued_rest true (one_proper 0 (by decide)) (shortName_of_le (by decide)) hcounted rfl rfl
    1801 rfl (by decide)

/-- 1800 values from index 1, 172 to a packet: after 1720 of them the write goes on at index 1720,
which is held by the last one. -/
theorem not_writes_from_one : ¬Writes false "GV" (Span.one 1 1800) := by
  rw [writes_line_iff (one_proper 1 (by decide)) (shortName_of_le (by decide))
    (one_counted 1 (by decide)) rfl]
  decide +kernel

end AcsMotion
