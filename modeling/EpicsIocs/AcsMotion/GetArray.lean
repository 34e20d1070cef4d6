import EpicsIocs.AcsMotion.BinComm
import EpicsIocs.Lib.Blocks

/-!
# Array reads, slice by slice

`read_array_cmd` and `read_slice_cmd` of `bincomm.rs`, `write_read_binary` and `get_array` of
`comm.rs`, against a controller that answers each command with the next `maxPacketData` bytes.

Each command asks for as many bytes as its reply has, and the array comes back whole
(`getArray_packets`).  A reply that is short makes the call an error (`getArray_short`); a reply
that is an error is only read as one where as many bytes are asked for as it has, so the call
succeeds on an error that answers a command for a single integer (`Reads`, `reads_iff`).
-/

namespace AcsMotion

open Bytes Faults

/-! ## The code -/

def maxPacketSize : Nat := 1405
def replyStart : UInt8 := 0xe3
def replyEnd : UInt8 := 0xe6
def sliceAvailable : UInt8 := 0x80

inductive Element where
  | float64
  | int32
  deriving DecidableEq, Repr

namespace Element

def size : Element → Nat
  | float64 => 8
  | int32 => 4

def readCmd : Element → UInt8
  | float64 => 0xf0
  | int32 => 0xf1

def readLongCmd : Element → UInt8
  | float64 => 0x41
  | int32 => 0x44

def readSliceCmd : Element → UInt8
  | float64 => 0x42
  | int32 => 0x45

end Element

structure ReadCmd where
  frame : List UInt8
  inBytes : Nat
  dataBytes : Nat
  deriving DecidableEq, Repr

section
variable (element : Element) (var : String) (span : Span)

/-- `read_array_cmd` for `n` elements. -/
def arrayCmd (n : Nat) : ReadCmd :=
  let dataBytes := n * element.size
  { frame := frame (if maxPacketData < dataBytes then element.readLongCmd else element.readCmd)
      (utf8 "%??" ++ [UInt8.ofNat element.size] ++ utf8 (span.name var))
    inBytes := if maxPacketData < dataBytes then maxPacketSize else dataBytes + 5
    dataBytes }

/-- `read_slice_cmd` for `n` elements. -/
def sliceCmd (slice n : Nat) : ReadCmd :=
  let dataBytes := n * element.size
  let full := dataBytes / maxPacketData
  { frame := frame element.readSliceCmd
      (utf8 ("%" ++ toString slice ++ "%??") ++ [UInt8.ofNat element.size] ++ utf8 (span.name var))
    inBytes := if slice < full then maxPacketSize else dataBytes - full * maxPacketData + 5
    dataBytes }

def readArrayCmd {ε : Type} (checks : Bool) : Outcome ε ReadCmd :=
  (span.elements checks).map (arrayCmd element var span)

def readSliceCmd {ε : Type} (checks : Bool) (slice : Nat) : Outcome ε ReadCmd :=
  (span.elements checks).map (sliceCmd element var span slice)

end

/-- The octet port, its EOS cleared and its input flushed: what a read of `n` bytes gives of those
the device sends. -/
structure OctetPort (E : Type) where
  read : List UInt8 → Nat → List UInt8 × Except E Unit
  complete : ∀ sent n, n ≤ sent.length → read sent n = (sent.take n, .ok ())
  timeout : ∀ sent n, sent.length < n → ∃ e, read sent n = (sent, .error e)

inductive GetError (E : Type) where
  | binary (errno : Int)
  | port (e : E)
  | short (length : Nat)
  deriving DecidableEq, Repr

/-- The error number of `[E3][id][06][00]?####[0D][E6]`. -/
def binaryErrorNumber (atoi : List UInt8 → Int) (reply : List UInt8) : Option Int :=
  if 7 ≤ reply.length ∧ reply[4]? = some 0x3F ∧ reply[reply.length - 2]? = some 0x0D then
    let digits := (reply.drop 5).take (reply.length - 7)
    if reply[0]? ≠ some replyStart ∨ reply[reply.length - 1]? ≠ some replyEnd ∨
        ¬(reply[2]? = some 6 ∧ reply[3]? = some 0) ∨ digits.length ≠ 4 then none
    else some (atoi digits)
  else none

section
variable {E : Type} (checks : Bool) (port : OctetPort E) (atoi : List UInt8 → Int)

/-- The device answers the query with `sent`. -/
def writeReadBinary (sent : List UInt8) (inBytes : Nat) :
    Except (GetError E) (List UInt8 × Bool) :=
  let (reply, status) := port.read sent inBytes
  let errno := (binaryErrorNumber atoi reply).getD 0
  if errno ≠ 0 then .error (.binary errno)
  else
    match status with
    | .error e => .error (.port e)
    | .ok _ =>
      if reply.length < 5 then .error (.short reply.length)
      else .ok ((reply.drop 4).take (reply.length - 5), reply.getD 3 0 &&& sliceAvailable ≠ 0)

variable (element : Element) (var : String) (span : Span) (replies : Nat → List UInt8)

/-- The result of the call and the commands sent. -/
abbrev Got (E : Type) (α : Type) : Type := Outcome (GetError E) α × List ReadCmd

/-- The loop at `slice`; a round for each unit of fuel. -/
def getSlices : Nat → Nat → List UInt8 → Bool → Option (Got E (List UInt8))
  | 0, _, _, _ => none
  | fuel + 1, slice, data, more =>
    if more then
      match readSliceCmd element var span checks slice with
      | .error fault => some (.error fault, [])
      | .ok cmd =>
        match writeReadBinary port atoi (replies slice) cmd.inBytes with
        | .error e => some (fail e, [cmd])
        | .ok (next, again) =>
          (getSlices fuel (slice + 1) (data ++ next) again).map fun (r, cmds) => (r, cmd :: cmds)
    else some (.ok data, [])

/-- `replies i` is the answer to the `i`-th command. -/
def getArray (fuel : Nat) : Option (Got E (List UInt8)) :=
  match readArrayCmd element var span checks with
  | .error fault => some (.error fault, [])
  | .ok cmd =>
    match writeReadBinary port atoi (replies 0) cmd.inBytes with
    | .error e => some (fail e, [cmd])
    | .ok (data, more) =>
      (getSlices checks port atoi element var span replies fuel 1 data more).map
        fun (r, cmds) => (r, cmd :: cmds)

/-- The bits of `f64`. -/
def getDoubleArray (fuel : Nat) : Option (Got E (List UInt64)) :=
  (getArray checks port atoi .float64 var span replies fuel).map fun (r, cmds) =>
    (r.map fun bytes => (List.range (bytes.length / 8)).map fun i =>
      UInt64.ofNat (leNat (Blocks.block 8 bytes i)), cmds)

def getIntegerArray (fuel : Nat) : Option (Got E (List Int32)) :=
  (getArray checks port atoi .int32 var span replies fuel).map fun (r, cmds) =>
    (r.map fun bytes => (List.range (bytes.length / 4)).map fun i =>
      (UInt32.ofNat (leNat (Blocks.block 4 bytes i))).toInt32, cmds)

end

/-! ## The controller -/

/-- The data of the `j`-th reply. -/
def packetData (array : List UInt8) (j : Nat) : List UInt8 :=
  (array.drop (maxPacketData * j)).take maxPacketData

/-- The flag is set while bytes remain. -/
def packet (id : UInt8) (array : List UInt8) (j : Nat) : List UInt8 :=
  let data := packetData array j
  let more := if maxPacketData * (j + 1) < array.length then sliceAvailable else 0
  [replyStart, id, UInt8.ofNat data.length, UInt8.ofNat (data.length / 256) ||| more] ++ data ++
    [replyEnd]

/-- An error reply with these four characters. -/
def errorReply (id d0 d1 d2 d3 : UInt8) : List UInt8 :=
  [replyStart, id, 6, 0, 0x3F, d0, d1, d2, d3, 0x0D, replyEnd]

/-- The slices behind the first packet of so many bytes. -/
def sliceCount (dataBytes : Nat) : Nat := (dataBytes - 1) / maxPacketData

/-- An error, or fewer bytes than `expected` has. -/
inductive Bad (expected : List UInt8) : List UInt8 → Prop
  | error (id d0 d1 d2 d3 : UInt8) : Bad expected (errorReply id d0 d1 d2 d3)
  | short {reply : List UInt8} (h : reply.length < expected.length) : Bad expected reply

/-- The bytes of a span's elements. -/
def Span.bytes (span : Span) (element : Element) : Nat := span.rows * span.columns * element.size

section
variable {E : Type} (checks : Bool) (port : OctetPort E) (atoi : List UInt8 → Int)
  (element : Element) (var : String) (span : Span)

/-- What an array read of the span is to do: against the controller it returns the array, with as
many commands as there are packets, each for as many bytes as its reply has; and with a bad
reply to one of them it is an error. -/
structure Reads : Prop where
  whole : ∀ (array : List UInt8) (ids : Nat → UInt8), array.length = span.bytes element →
    ∃ rounds cmds, cmds.length = 1 + sliceCount (span.bytes element) ∧
      (∀ j cmd, cmds[j]? = some cmd → cmd.inBytes = (packet (ids j) array j).length) ∧
      ∀ fuel ≥ rounds, getArray checks port atoi element var span
        (fun j => packet (ids j) array j) fuel = some (.ok array, cmds)
  doubles : element = .float64 → ∀ (values : List UInt64) (ids : Nat → UInt8),
    values.length = span.rows * span.columns → ∃ rounds cmds, ∀ fuel ≥ rounds,
      getDoubleArray checks port atoi var span
        (fun j => packet (ids j) (values.flatMap fun v => leBytes 8 v.toNat) j) fuel =
        some (.ok values, cmds)
  integers : element = .int32 → ∀ (values : List Int32) (ids : Nat → UInt8),
    values.length = span.rows * span.columns → ∃ rounds cmds, ∀ fuel ≥ rounds,
      getIntegerArray checks port atoi var span
        (fun j => packet (ids j) (values.flatMap fun v => leBytes 4 v.toUInt32.toNat) j) fuel =
        some (.ok values, cmds)
  fails : ∀ (array : List UInt8) (ids : Nat → UInt8) (replies : Nat → List UInt8) (j : Nat),
    array.length = span.bytes element → j ≤ sliceCount (span.bytes element) →
    (∀ i < j, replies i = packet (ids i) array i) → Bad (packet (ids j) array j) (replies j) →
    ∃ rounds e cmds, ∀ fuel ≥ rounds,
      getArray checks port atoi element var span replies fuel = some (fail e, cmds)

end

/-! ## One exchange -/

theorem size_dvd (element : Element) : 4 ∣ element.size := by
  cases element with
  | float64 => exact ⟨2, rfl⟩
  | int32 => exact ⟨1, rfl⟩

theorem bytes_dvd (span : Span) (element : Element) : 4 ∣ span.bytes element :=
  Dvd.dvd.mul_left (size_dvd element) _

section
variable {array : List UInt8} {j : Nat} {id : UInt8}

theorem length_packetData :
    (packetData array j).length = min maxPacketData (array.length - maxPacketData * j) := by
  rw [packetData, List.length_take, List.length_drop]

theorem length_packet : (packet id array j).length = (packetData array j).length + 5 := by
  simp only [packet, List.length_append, List.length_cons, List.length_nil]
  omega

/-- The array up to a packet, and the packet. -/
theorem take_append_packetData :
    array.take (maxPacketData * j) ++ packetData array j = array.take (maxPacketData * (j + 1)) := by
  rw [packetData, Nat.mul_succ, List.take_add]

theorem flag_packet :
    ((packet id array j).getD 3 0 &&& sliceAvailable ≠ 0) ↔
      maxPacketData * (j + 1) < array.length := by
  have hsmall : (packetData array j).length / 256 < 6 := by
    rw [length_packetData, maxPacketData]
    omega
  have table : ∀ x < 6, (UInt8.ofNat x ||| sliceAvailable) &&& sliceAvailable ≠ 0 ∧
      (UInt8.ofNat x ||| 0) &&& sliceAvailable = 0 := by decide
  have hget : (packet id array j).getD 3 0 = UInt8.ofNat ((packetData array j).length / 256) |||
      (if maxPacketData * (j + 1) < array.length then sliceAvailable else 0) := rfl
  rw [hget]
  by_cases hmore : maxPacketData * (j + 1) < array.length
  · rw [if_pos hmore]
    exact iff_of_true (table _ hsmall).1 hmore
  · rw [if_neg hmore]
    exact iff_of_false (not_not.2 (table _ hsmall).2) hmore

end

theorem binaryErrorNumber_of_length (atoi : List UInt8 → Int) {reply : List UInt8}
    (h : reply.length ≠ 11) : binaryErrorNumber atoi reply = none := by
  rw [binaryErrorNumber]
  by_cases hshape : 7 ≤ reply.length ∧ reply[4]? = some 0x3F ∧ reply[reply.length - 2]? = some 0x0D
  · have hdigits : ((reply.drop 5).take (reply.length - 7)).length ≠ 4 := by
      rw [List.length_take, List.length_drop]
      omega
    rw [if_pos hshape]
    exact if_pos (.inr (.inr (.inr hdigits)))
  · rw [if_neg hshape]

section
variable {E : Type} (port : OctetPort E) (atoi : List UInt8 → Int)

/-- A reply that has all the bytes asked for, and is not as long as an error. -/
theorem writeReadBinary_of_length {reply : List UInt8} {inBytes : Nat}
    (hle : inBytes ≤ reply.length) (h5 : 5 ≤ inBytes) (h11 : inBytes ≠ 11) :
    writeReadBinary port atoi reply inBytes =
      .ok (((reply.take inBytes).drop 4).take (inBytes - 5),
        decide ((reply.take inBytes).getD 3 0 &&& sliceAvailable ≠ 0)) := by
  have hlen : (reply.take inBytes).length = inBytes := by
    rw [List.length_take, Nat.min_eq_left hle]
  rw [writeReadBinary, port.complete reply inBytes hle]
  dsimp only
  rw [binaryErrorNumber_of_length atoi (by rw [hlen]; exact h11), Option.getD_none,
    if_neg (not_not.2 rfl), if_neg (by omega), hlen]

theorem writeReadBinary_packet {array : List UInt8} (hdvd : 4 ∣ array.length) (id : UInt8) (j : Nat) :
    writeReadBinary port atoi (packet id array j) (packet id array j).length =
      .ok (packetData array j, decide (maxPacketData * (j + 1) < array.length)) := by
  have h11 : (packet id array j).length ≠ 11 := by
    rw [length_packet, length_packetData, maxPacketData]
    omega
  have hdata : ((packet id array j).drop 4).take ((packet id array j).length - 5) =
      packetData array j := by
    rw [length_packet, Nat.add_sub_cancel]
    exact List.take_left
  rw [writeReadBinary_of_length port atoi (Nat.le_refl _) (by rw [length_packet]; omega) h11,
    List.take_length, hdata, decide_eq_decide.2 flag_packet]

/-- A reply with fewer bytes than asked for. -/
theorem writeReadBinary_short {reply : List UInt8} {inBytes : Nat} (h : reply.length < inBytes) :
    ∃ e, writeReadBinary port atoi reply inBytes = .error e := by
  obtain ⟨e, he⟩ := port.timeout reply inBytes h
  rw [writeReadBinary, he]
  dsimp only
  by_cases herrno : (binaryErrorNumber atoi reply).getD 0 ≠ 0
  · exact ⟨_, if_pos herrno⟩
  · exact ⟨_, if_neg herrno⟩

end

/-! ## What the commands ask for -/

section
variable {element : Element} {n : Nat} {array : List UInt8}

theorem inBytes_arrayCmd (var : String) (span : Span) (h : array.length = n * element.size) (id : UInt8) :
    (arrayCmd element var span n).inBytes = (packet id array 0).length := by
  rw [length_packet, length_packetData, h, arrayCmd]
  dsimp only
  by_cases hlong : maxPacketData < n * element.size
  · rw [if_pos hlong, Nat.mul_zero, Nat.sub_zero, Nat.min_eq_left (by omega)]
    rfl
  · rw [if_neg hlong, Nat.mul_zero, Nat.sub_zero, Nat.min_eq_right (by omega)]

theorem inBytes_sliceCmd (var : String) (span : Span) (h : array.length = n * element.size) {j : Nat}
    (hj : maxPacketData * j < n * element.size) (id : UInt8) :
    (sliceCmd element var span j n).inBytes = (packet id array j).length := by
  rw [length_packet, length_packetData, h, sliceCmd]
  rw [maxPacketData] at *
  dsimp only
  by_cases hfull : j < n * element.size / 1400
  · rw [if_pos hfull, Nat.min_eq_left (by omega)]
    rfl
  · rw [if_neg hfull]
    omega

end

/-! ## Runs -/

section
variable {E : Type} {checks : Bool} {port : OctetPort E} {atoi : List UInt8 → Int}
  {element : Element} {var : String} {span : Span} {n : Nat} {array : List UInt8}
  {ids : Nat → UInt8} {replies : Nat → List UInt8}

theorem readArrayCmd_eq {ε : Type} (hn : (span.elements checks : Outcome ε Nat) = .ok n) :
    (readArrayCmd element var span checks : Outcome ε ReadCmd) =
      .ok (arrayCmd element var span n) := by
  rw [readArrayCmd, hn]
  rfl

theorem readSliceCmd_eq {ε : Type} (hn : (span.elements checks : Outcome ε Nat) = .ok n)
    (slice : Nat) : (readSliceCmd element var span checks slice : Outcome ε ReadCmd) =
      .ok (sliceCmd element var span slice n) := by
  rw [readSliceCmd, hn]
  rfl

theorem length_dvd (h : array.length = n * element.size) : 4 ∣ array.length := by
  rw [h]
  exact Dvd.dvd.mul_left (size_dvd element) n

/-- A round of the loop that gets the packet it asks for. -/
theorem getSlices_step (hn : (span.elements checks : Outcome (GetError E) Nat) = .ok n)
    (h : array.length = n * element.size) {slice : Nat}
    (hreply : replies slice = packet (ids slice) array slice)
    (hmore : maxPacketData * slice < array.length) (fuel : Nat) :
    getSlices checks port atoi element var span replies (fuel + 1) slice
        (array.take (maxPacketData * slice)) (decide (maxPacketData * slice < array.length)) =
      (getSlices checks port atoi element var span replies fuel (slice + 1)
        (array.take (maxPacketData * (slice + 1)))
        (decide (maxPacketData * (slice + 1) < array.length))).map
          fun (r, cmds) => (r, sliceCmd element var span slice n :: cmds) := by
  have hin := inBytes_sliceCmd var span h (h ▸ hmore) (ids slice)
  rw [getSlices, decide_eq_true hmore, readSliceCmd_eq hn]
  dsimp only
  rw [if_pos rfl, hreply, hin, writeReadBinary_packet port atoi (length_dvd h)]
  dsimp only
  rw [take_append_packetData]

variable (ids) in
/-- Packets up to the `j`-th. -/
theorem getSlices_packets (hn : (span.elements checks : Outcome (GetError E) Nat) = .ok n)
    (h : array.length = n * element.size) {slice k : Nat}
    (hreplies : ∀ i, slice ≤ i → i < slice + k → replies i = packet (ids i) array i ∧
      maxPacketData * i < array.length) (fuel : Nat) :
    getSlices checks port atoi element var span replies (fuel + k) slice
        (array.take (maxPacketData * slice)) (decide (maxPacketData * slice < array.length)) =
      (getSlices checks port atoi element var span replies fuel (slice + k)
        (array.take (maxPacketData * (slice + k)))
        (decide (maxPacketData * (slice + k) < array.length))).map fun (r, cmds) =>
          (r, (List.range' slice k).map (fun i => sliceCmd element var span i n) ++ cmds) := by
  induction k generalizing slice with
  | zero =>
    rw [Nat.add_zero, Nat.add_zero]
    exact Option.map_id'.symm
  | succ k ih =>
    obtain ⟨hreply, hmore⟩ := hreplies slice (Nat.le_refl _) (by omega)
    have hrest := @ih (slice + 1) (fun i hlo hhi => hreplies i (by omega) (by omega))
    rw [← Nat.add_assoc, getSlices_step hn h hreply hmore, hrest, Option.map_map,
      Nat.add_right_comm slice 1 k]
    rfl

/-- The commands of the first `k` packets. -/
def commands (element : Element) (var : String) (span : Span) (n k : Nat) : List ReadCmd :=
  arrayCmd element var span n :: (List.range' 1 k).map fun i => sliceCmd element var span i n

theorem length_commands (k : Nat) : (commands element var span n k).length = 1 + k := by
  rw [commands, List.length_cons, List.length_map, List.length_range', Nat.add_comm]

theorem getElem?_commands_succ {j k : Nat} {cmd : ReadCmd}
    (h : (commands element var span n k)[j + 1]? = some cmd) :
    j + 1 ≤ k ∧ cmd = sliceCmd element var span (j + 1) n := by
  rw [commands, List.getElem?_cons_succ, List.getElem?_map] at h
  obtain ⟨i, hi, rfl⟩ := Option.map_eq_some_iff.1 h
  have hj : j < k := by
    have hlt := (List.getElem?_eq_some_iff.1 hi).1
    rwa [List.length_range'] at hlt
  rw [List.getElem?_range' hj] at hi
  cases hi
  exact ⟨hj, by rw [Nat.one_mul, Nat.add_comm]⟩

variable (ids) in
/-- The call up to its `k`-th slice. -/
theorem getArray_prefix (hn : (span.elements checks : Outcome (GetError E) Nat) = .ok n)
    (h : array.length = n * element.size) {k : Nat}
    (hreplies : ∀ i ≤ k, replies i = packet (ids i) array i)
    (hmore : ∀ i, 0 < i → i ≤ k → maxPacketData * i < array.length) (fuel : Nat) :
    getArray checks port atoi element var span replies (fuel + k) =
      (getSlices checks port atoi element var span replies fuel (k + 1)
        (array.take (maxPacketData * (k + 1)))
        (decide (maxPacketData * (k + 1) < array.length))).map fun (r, cmds) =>
          (r, commands element var span n k ++ cmds) := by
  have hin := inBytes_arrayCmd var span h (ids 0)
  have hdata : packetData array 0 = array.take (maxPacketData * 1) := rfl
  rw [getArray, readArrayCmd_eq hn]
  dsimp only
  rw [hreplies 0 (Nat.zero_le k), hin, writeReadBinary_packet port atoi (length_dvd h)]
  dsimp only
  rw [Nat.zero_add, hdata, getSlices_packets ids hn h
    (fun i (hlo : 1 ≤ i) (hhi : i < 1 + k) => ⟨hreplies i (by omega), hmore i hlo (by omega)⟩), Option.map_map,
    Nat.add_comm 1 k]
  rfl

/-- A slice is asked for as long as bytes remain. -/
theorem lt_of_le_sliceCount {j : Nat} (hpos : 0 < j) (hj : j ≤ sliceCount array.length) :
    maxPacketData * j < array.length := by
  rw [sliceCount, maxPacketData] at *
  omega

theorem getArray_packets (hn : (span.elements checks : Outcome (GetError E) Nat) = .ok n)
    (h : array.length = n * element.size) {fuel : Nat} (hfuel : sliceCount array.length < fuel) :
    getArray checks port atoi element var span (fun j => packet (ids j) array j) fuel =
      some (.ok array, commands element var span n (sliceCount array.length)) := by
  obtain ⟨rest, rfl⟩ := Nat.exists_eq_add_of_le' (Nat.succ_le_of_lt hfuel)
  have hall : array.length ≤ maxPacketData * (sliceCount array.length + 1) := by
    rw [sliceCount, maxPacketData]
    omega
  rw [show rest + (sliceCount array.length).succ = (rest + 1) + sliceCount array.length by omega,
    getArray_prefix ids hn h (fun i _ => rfl) (fun i hpos hi => lt_of_le_sliceCount hpos hi),
    getSlices, decide_eq_false (by omega), List.take_of_length_le hall]
  exact congrArg some (Prod.ext rfl (List.append_nil _))

variable (ids) in
/-- A short reply to one of the commands. -/
theorem getArray_short (hn : (span.elements checks : Outcome (GetError E) Nat) = .ok n)
    (h : array.length = n * element.size) {j : Nat} (hj : j ≤ sliceCount array.length)
    (hreplies : ∀ i < j, replies i = packet (ids i) array i)
    (hshort : (replies j).length < (packet (ids j) array j).length) :
    ∃ rounds e cmds, ∀ fuel ≥ rounds,
      getArray checks port atoi element var span replies fuel = some (fail e, cmds) := by
  cases j with
  | zero =>
    rw [← inBytes_arrayCmd var span h] at hshort
    obtain ⟨e, he⟩ := writeReadBinary_short port atoi hshort
    refine ⟨0, e, [arrayCmd element var span n], fun fuel _ => ?_⟩
    rw [getArray, readArrayCmd_eq hn]
    dsimp only
    rw [he]
  | succ k =>
    have hmore : ∀ i, 0 < i → i ≤ k + 1 → maxPacketData * i < array.length :=
      fun i hpos hi => lt_of_le_sliceCount hpos (by omega)
    rw [← inBytes_sliceCmd var span h
      (h ▸ hmore (k + 1) (Nat.succ_pos k) (Nat.le_refl _))] at hshort
    obtain ⟨e, he⟩ := writeReadBinary_short port atoi hshort
    refine ⟨k + 1, e, commands element var span n k ++ [sliceCmd element var span (k + 1) n],
      fun fuel hfuel => ?_⟩
    obtain ⟨rest, rfl⟩ := Nat.exists_eq_add_of_le' hfuel
    rw [show rest + (k + 1) = (rest + 1) + k by omega,
      getArray_prefix ids hn h (fun i hi => hreplies i (by omega))
        (fun i hpos hi => hmore i hpos (by omega)),
      getSlices, decide_eq_true (hmore (k + 1) (Nat.succ_pos k) (Nat.le_refl _)), readSliceCmd_eq hn]
    dsimp only
    rw [if_pos rfl, he]
    rfl

variable (ids replies) in
/-- An error that answers the last command, where that asks for fewer bytes than an error has. -/
theorem getArray_error (hn : (span.elements checks : Outcome (GetError E) Nat) = .ok n)
    (h : array.length = n * element.size) (hlast : array.length = 0 ∨ array.length % 1400 = 4)
    (hreplies : ∀ i < sliceCount array.length, replies i = packet (ids i) array i)
    (herror : replies (sliceCount array.length) = errorReply 0 0x31 0x30 0x30 0x31) (fuel : Nat) :
    ∃ data cmds, getArray checks port atoi element var span replies
      (fuel + 1 + sliceCount array.length) = some (.ok data, cmds) := by
  have hasked : ∀ inBytes, inBytes = 5 ∨ inBytes = 9 → ∃ data,
      writeReadBinary port atoi (replies (sliceCount array.length)) inBytes = .ok (data, false) := by
    rw [herror]
    rintro inBytes (rfl | rfl)
    · exact ⟨_, writeReadBinary_of_length port atoi (by decide) (by decide) (by decide)⟩
    · exact ⟨_, writeReadBinary_of_length port atoi (by decide) (by decide) (by decide)⟩
  have hsize : ∀ id, (packet id array (sliceCount array.length)).length = 5 ∨
      (packet id array (sliceCount array.length)).length = 9 := by
    intro id
    rw [length_packet, length_packetData, sliceCount, maxPacketData]
    omega
  generalize hj : sliceCount array.length = j at *
  cases j with
  | zero =>
    obtain ⟨data, hdata⟩ := hasked _ (inBytes_arrayCmd var span h 0 ▸ hsize 0)
    refine ⟨data, [arrayCmd element var span n], ?_⟩
    rw [getArray, readArrayCmd_eq hn]
    dsimp only
    rw [hdata]
    rfl
  | succ k =>
    have hmore : ∀ i, 0 < i → i ≤ k + 1 → maxPacketData * i < array.length :=
      fun i hpos hi => lt_of_le_sliceCount hpos (by omega)
    have hlt := hmore (k + 1) (Nat.succ_pos k) (Nat.le_refl _)
    obtain ⟨data, hdata⟩ := hasked _
      (inBytes_sliceCmd var span h (h ▸ hlt) 0 ▸ hsize 0)
    refine ⟨array.take (maxPacketData * (k + 1)) ++ data,
      commands element var span n k ++ [sliceCmd element var span (k + 1) n], ?_⟩
    rw [show fuel + 1 + (k + 1) = (fuel + 1 + 1) + k by omega,
      getArray_prefix ids hn h (fun i hi => hreplies i (by omega))
        (fun i hpos hi => hmore i hpos (by omega)),
      getSlices, decide_eq_true hlt, readSliceCmd_eq hn]
    dsimp only
    rw [if_pos rfl, hdata]
    rfl

/-- The commands of any run. -/
theorem getSlices_commands (hn : (span.elements checks : Outcome (GetError E) Nat) = .ok n)
    {fuel slice : Nat} {data : List UInt8} {more : Bool} {r : Outcome (GetError E) (List UInt8)}
    {cmds : List ReadCmd}
    (h : getSlices checks port atoi element var span replies fuel slice data more = some (r, cmds))
    {i : Nat} {cmd : ReadCmd} (hi : cmds[i]? = some cmd) :
    cmd = sliceCmd element var span (slice + i) n := by
  induction fuel generalizing slice data more r cmds i with
  | zero => cases h
  | succ fuel ih =>
    rw [getSlices, readSliceCmd_eq hn] at h
    cases more with
    | false =>
      cases h
      cases hi
    | true =>
      rw [if_pos rfl] at h
      dsimp only at h
      cases hreply : writeReadBinary port atoi (replies slice)
          (sliceCmd element var span slice n).inBytes with
      | error e =>
        rw [hreply] at h
        cases h
        cases i with
        | zero =>
          cases hi
          rfl
        | succ i => cases hi
      | ok got =>
        rw [hreply] at h
        obtain ⟨⟨r', cmds'⟩, hrest, heq⟩ := Option.map_eq_some_iff.1 h
        cases heq
        cases i with
        | zero =>
          cases hi
          rfl
        | succ i =>
          rw [List.getElem?_cons_succ] at hi
          rw [ih hrest hi, Nat.add_right_comm, Nat.add_assoc]

theorem getArray_commands (hn : (span.elements checks : Outcome (GetError E) Nat) = .ok n)
    {fuel : Nat} {r : Outcome (GetError E) (List UInt8)} {cmds : List ReadCmd}
    (h : getArray checks port atoi element var span replies fuel = some (r, cmds)) {i : Nat}
    {cmd : ReadCmd} (hi : cmds[i]? = some cmd) :
    cmd = if i = 0 then arrayCmd element var span n else sliceCmd element var span i n := by
  rw [getArray, readArrayCmd_eq hn] at h
  dsimp only at h
  cases hreply : writeReadBinary port atoi (replies 0) (arrayCmd element var span n).inBytes with
  | error e =>
    rw [hreply] at h
    cases h
    cases i with
    | zero =>
      cases hi
      rfl
    | succ i => cases hi
  | ok got =>
    rw [hreply] at h
    obtain ⟨⟨r', cmds'⟩, hrest, heq⟩ := Option.map_eq_some_iff.1 h
    cases heq
    cases i with
    | zero =>
      cases hi
      rfl
    | succ i =>
      rw [List.getElem?_cons_succ] at hi
      rw [getSlices_commands hn hrest hi, if_neg (Nat.succ_ne_zero i), Nat.add_comm]

/-- Sizes that agree with every reply are of the same array. -/
theorem bytes_eq {d d' : Nat} (hle : d < d' ∨ d = d' ∨ d' = 0)
    (hfirst : (if maxPacketData < d then maxPacketSize else d + 5) = min maxPacketData d' + 5)
    (hslices : ∀ j, 0 < j → j ≤ sliceCount d' →
      (if j < d / maxPacketData then maxPacketSize else d - d / maxPacketData * maxPacketData + 5) =
        min maxPacketData (d' - maxPacketData * j) + 5) : d = d' := by
  rw [maxPacketData, maxPacketSize] at *
  have hsecond := hslices (d / 1400)
  rw [if_neg (Nat.lt_irrefl _), sliceCount, maxPacketData] at hsecond
  split_ifs at hfirst
  · omega
  · omega

end

/-! ## How many elements -/

namespace Span

variable {span : Span}

theorem elements_le {ε : Type} {checks : Bool} {n : Nat}
    (h : (span.elements checks : Outcome ε Nat) = .ok n) : n ≤ 2147483647 := by
  unfold elements at h
  obtain ⟨_, _, h⟩ := Fallible.of_bind h
  obtain ⟨_, _, h⟩ := Fallible.of_bind h
  obtain ⟨_, _, h⟩ := Fallible.of_bind h
  obtain ⟨_, _, h⟩ := Fallible.of_bind h
  obtain ⟨m, _, rfl⟩ := Fallible.of_map h
  have hm : m.toInt ≤ 2147483647 := m.toInt_le
  omega

/-- A count that is wrong is too small, or of a span without elements. -/
theorem elements_cases {ε : Type} {checks : Bool} {n : Nat}
    (h : (span.elements checks : Outcome ε Nat) = .ok n) :
    n < span.rows * span.columns ∨ n = span.rows * span.columns ∨ span.rows * span.columns = 0 := by
  by_cases hzero : span.rows * span.columns = 0
  · exact .inr (.inr hzero)
  by_cases hc : span.Counted
  · have hrows : span.rows ≠ 0 := fun hr => hzero (by rw [hr, Nat.zero_mul])
    have hcolumns : span.columns ≠ 0 := fun hr => hzero (by rw [hr, Nat.mul_zero])
    have hproper : span.Proper := by
      unfold rows at hrows
      unfold columns at hcolumns
      exact ⟨by omega, by omega⟩
    rw [elements_eq checks hproper hc] at h
    cases h
    exact .inr (.inl rfl)
  · have hle := elements_le h
    unfold Counted at hc
    exact .inl (by omega)

end Span

/-! ## Values -/

theorem even_leBytes (k : Nat) (values : List Nat) :
    Blocks.Even k (values.map (leBytes k)) := by
  intro b hb
  obtain ⟨v, _, rfl⟩ := List.mem_map.1 hb
  exact length_leBytes k v

/-- Values read back from their bytes. -/
theorem values_of_bytes {α : Type} {k : Nat} (hk : 0 < k) (toNat : α → Nat) (ofNat : Nat → α)
    (hlt : ∀ v, toNat v < 256 ^ k) (hof : ∀ v, ofNat (toNat v) = v) (values : List α) :
    (List.range ((values.flatMap fun v => leBytes k (toNat v)).length / k)).map (fun i =>
      ofNat (leNat (Blocks.block k (values.flatMap fun v => leBytes k (toNat v)) i))) = values := by
  have hflat : (values.flatMap fun v => leBytes k (toNat v)) =
      ((values.map toNat).map (leBytes k)).flatten := by
    rw [List.map_map, List.flatMap_def]
    rfl
  have heven := even_leBytes k (values.map toNat)
  have hlen : (((values.map toNat).map (leBytes k)).flatten).length / k = values.length := by
    rw [heven.length_flatten, List.length_map, List.length_map, Nat.mul_div_cancel _ hk]
  rw [hflat, hlen]
  apply List.ext_getElem
  · rw [List.length_map, List.length_range]
  · intro i hi hi'
    rw [List.getElem_map, List.getElem_range, heven.block_flatten (by
      rw [List.length_map, List.length_map]
      exact hi'), List.getElem_map, List.getElem_map, leNat_leBytes_of_lt (hlt _), hof]

/-! ## Results -/

section
variable {E : Type} {checks : Bool} {port : OctetPort E} {atoi : List UInt8 → Int}
  {element : Element} {var : String} {span : Span}

theorem length_flatMap_leBytes {α : Type} (k : Nat) (toNat : α → Nat) (values : List α) :
    (values.flatMap fun v => leBytes k (toNat v)).length = values.length * k := by
  rw [List.length_flatMap, List.map_congr_left (fun v _ => length_leBytes k (toNat v)),
    List.map_const', List.sum_replicate_nat]

theorem getDoubleArray_packets {values : List UInt64} {ids : Nat → UInt8}
    (hn : (span.elements checks : Outcome (GetError E) Nat) = .ok (span.rows * span.columns))
    (hcount : values.length = span.rows * span.columns) {fuel : Nat}
    (hfuel : sliceCount (values.flatMap fun v => leBytes 8 v.toNat).length + 1 ≤ fuel) :
    getDoubleArray checks port atoi var span
        (fun j => packet (ids j) (values.flatMap fun v => leBytes 8 v.toNat) j) fuel =
      some (.ok values, commands .float64 var span (span.rows * span.columns)
        (sliceCount (values.flatMap fun v => leBytes 8 v.toNat).length)) := by
  have hlen := length_flatMap_leBytes 8 UInt64.toNat values
  rw [hcount] at hlen
  rw [getDoubleArray, getArray_packets hn hlen hfuel]
  refine congrArg some (Prod.ext (congrArg Except.ok ?_) rfl)
  exact values_of_bytes (by decide) UInt64.toNat UInt64.ofNat (fun v => v.toNat_lt)
    (fun v => UInt64.ofNat_toNat) values

theorem getIntegerArray_packets {values : List Int32} {ids : Nat → UInt8}
    (hn : (span.elements checks : Outcome (GetError E) Nat) = .ok (span.rows * span.columns))
    (hcount : values.length = span.rows * span.columns) {fuel : Nat}
    (hfuel : sliceCount (values.flatMap fun v => leBytes 4 v.toUInt32.toNat).length + 1 ≤ fuel) :
    getIntegerArray checks port atoi var span
        (fun j => packet (ids j) (values.flatMap fun v => leBytes 4 v.toUInt32.toNat) j) fuel =
      some (.ok values, commands .int32 var span (span.rows * span.columns)
        (sliceCount (values.flatMap fun v => leBytes 4 v.toUInt32.toNat).length)) := by
  have hlen := length_flatMap_leBytes 4 (fun v : Int32 => v.toUInt32.toNat) values
  rw [hcount] at hlen
  rw [getIntegerArray, getArray_packets hn hlen hfuel]
  refine congrArg some (Prod.ext (congrArg Except.ok ?_) rfl)
  exact values_of_bytes (by decide) (fun v : Int32 => v.toUInt32.toNat)
    (fun n => (UInt32.ofNat n).toInt32) (fun v => v.toUInt32.toNat_lt)
    (fun v => by rw [UInt32.ofNat_toNat, Int32.toInt32_toUInt32]) values

/-- An error is short where more than its eleven bytes are expected. -/
theorem Bad.length_lt {expected reply : List UInt8} (h : Bad expected reply)
    (hlong : 11 < expected.length) : reply.length < expected.length := by
  cases h with
  | error id d0 d1 d2 d3 => exact hlong
  | short h => exact h

/-- The count that the sizes come from is the span's. -/
theorem Reads.elements_eq (h : Reads checks port atoi element var span) :
    (span.elements checks : Outcome (GetError E) Nat) = .ok (span.rows * span.columns) := by
  obtain ⟨rounds, cmds, hlen, hin, hrun⟩ := h.whole (List.replicate (span.bytes element) 0)
    (fun _ => 0) List.length_replicate
  have hgot := hrun rounds (Nat.le_refl _)
  cases hn : (span.elements checks : Outcome (GetError E) Nat) with
  | error fault =>
    rw [getArray, readArrayCmd, hn] at hgot
    cases hgot
  | ok n =>
    have hasked : ∀ i < cmds.length, (if i = 0 then arrayCmd element var span n
        else sliceCmd element var span i n).inBytes =
          min maxPacketData (span.bytes element - maxPacketData * i) + 5 := by
      intro i hi
      have hcmd := List.getElem?_eq_getElem hi
      rw [← getArray_commands hn hgot hcmd, hin i _ hcmd, length_packet, length_packetData,
        List.length_replicate]
    have hbytes : n * element.size = span.bytes element := by
      apply bytes_eq
      · rcases Span.elements_cases hn with hlt | heq | hzero
        · exact .inl (Nat.mul_lt_mul_of_pos_right hlt (by cases element <;> decide))
        · exact .inr (.inl (by rw [heq, Span.bytes]))
        · exact .inr (.inr (by rw [Span.bytes, hzero, Nat.zero_mul]))
      · have hfirst := hasked 0 (by omega)
        rw [if_pos rfl, Nat.mul_zero, Nat.sub_zero] at hfirst
        exact hfirst
      · intro j hpos hj
        have hslice := hasked j (by omega)
        rw [if_neg (by omega)] at hslice
        exact hslice
    rw [Nat.eq_of_mul_eq_mul_right (by cases element <;> decide) hbytes]

theorem reads_iff : Reads checks port atoi element var span ↔
    (span.elements checks : Outcome (GetError E) Nat) = .ok (span.rows * span.columns) ∧
      span.bytes element ≠ 0 ∧ span.bytes element % maxPacketData ≠ 4 := by
  constructor
  · intro h
    have hn := h.elements_eq
    refine ⟨hn, ?_⟩
    by_contra hlast
    have hlast : span.bytes element = 0 ∨ span.bytes element % 1400 = 4 := by
      rw [maxPacketData] at hlast
      omega
    have hlen : (List.replicate (span.bytes element) (0 : UInt8)).length = span.bytes element :=
      List.length_replicate
    obtain ⟨rounds, e, cmds, hrun⟩ := h.fails (List.replicate (span.bytes element) 0) (fun _ => 0)
      (fun i => if i < sliceCount (span.bytes element) then
        packet 0 (List.replicate (span.bytes element) 0) i else errorReply 0 0x31 0x30 0x30 0x31)
      (sliceCount (span.bytes element)) hlen (Nat.le_refl _) (fun i hi => if_pos hi) (by
        rw [if_neg (Nat.lt_irrefl _)]
        exact .error _ _ _ _ _)
    obtain ⟨data, cmds', hok⟩ := getArray_error (fun _ => 0) _ hn (hlen.trans rfl) (by rw [hlen]; exact hlast)
      (fun i hi => if_pos (by rwa [hlen] at hi)) (if_neg (by rw [hlen]; exact Nat.lt_irrefl _)) rounds
    rw [hrun _ (by omega)] at hok
    cases hok
  · rintro ⟨hn, hne, hlast⟩
    rw [maxPacketData] at hlast
    have hdvd := bytes_dvd span element
    refine ⟨fun array ids hlen => ?_, ?_, ?_, fun array ids replies j hlen hj hreplies hbad => ?_⟩
    · refine ⟨sliceCount array.length + 1, commands element var span _ (sliceCount array.length),
        by rw [length_commands, hlen], fun j cmd hcmd => ?_,
        fun fuel hfuel => getArray_packets hn hlen (by omega)⟩
      cases j with
      | zero =>
        cases hcmd
        exact inBytes_arrayCmd var span hlen _
      | succ j =>
        obtain ⟨hj, rfl⟩ := getElem?_commands_succ hcmd
        have hlt := lt_of_le_sliceCount (Nat.succ_pos j) hj
        rw [hlen] at hlt
        exact inBytes_sliceCmd var span hlen hlt _
    · rintro rfl values ids hcount
      exact ⟨_, _, fun fuel hfuel => getDoubleArray_packets hn hcount hfuel⟩
    · rintro rfl values ids hcount
      exact ⟨_, _, fun fuel hfuel => getIntegerArray_packets hn hcount hfuel⟩
    · refine getArray_short ids hn hlen (by rwa [hlen]) hreplies (hbad.length_lt ?_)
      rw [length_packet, length_packetData, hlen, maxPacketData]
      rw [sliceCount, maxPacketData] at hj
      omega

end

/-- Reads that end in time, or with what has come. -/
def timedPort : OctetPort Unit where
  read sent n := if n ≤ sent.length then (sent.take n, .ok ()) else (sent, .error ())
  complete _ _ h := if_pos h
  timeout _ _ h := ⟨(), if_neg (Nat.not_le.2 h)⟩

/-- The error 1001 for a read of one integer is read as the integer `?100`. -/
theorem reads_one_integer : ¬Reads true timedPort (fun _ => 1001) .int32 "IN" (.one 0 0) := by
  intro h
  obtain ⟨rounds, e, cmds, hrun⟩ := h.fails [0, 0, 0, 0] (fun _ => 0)
    (fun _ => errorReply 0 0x31 0x30 0x30 0x31) 0 (by decide) (by decide) (fun i hi => by omega)
    (.error _ _ _ _ _)
  have hn : ((Span.one 0 0).elements true : Outcome (GetError Unit) Nat) = .ok 1 := by decide
  have hlen : ([0, 0, 0, 0] : List UInt8).length = 1 * Element.int32.size := rfl
  obtain ⟨data, cmds', hok⟩ := getArray_error (fun _ => 0)
    (fun _ => errorReply 0 0x31 0x30 0x30 0x31) hn hlen (.inr rfl)
    (fun i hi => absurd hi (Nat.not_lt_zero i)) rfl rounds
  rw [hrun _ (by omega)] at hok
  cases hok

end AcsMotion
