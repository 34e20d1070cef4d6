import EpicsIocs.EtherIp.Accessors

/-! # Sub-replies of a MultiRequest response

`get_multi_request_response` (`cip.rs`) over the layout that `encode_multi_request` writes: the
count, each sub-reply's offset from the count, the sub-replies.

    getMultiRequestResponse (multiResponse header replies) length i = replies[i]?   (getMultiRequestResponse_layout)

and over any bytes the arithmetic on `usize` is the one on numbers (`usize_eq`). -/

namespace EtherIp

open Bytes Faults Machine Raw

/-! ## On `usize` -/

/-- The offset in the table's row `i`, from the count field at `base`. -/
def tableEntry (checks : Bool) (response : List UInt8) (base i : Nat) : Outcome Unit Nat :=
  (mul checks 2 i).bind fun n =>
  (add checks (base + 2) n).bind fun row =>
  (rd checks 2 response row).bind fun offset => get (checkedAdd base offset) ()

/-- `get_multi_request_response`, with the arithmetic and the slice that could panic. -/
def getMultiRequestResponseUsize (checks : Bool) (response : List UInt8)
    (responseSize replyNo : Nat) : Outcome Unit (List UInt8) :=
  (get (MrResponse.parse response) ()).bind fun r =>
  (rd checks 2 response r.dataOffset).bind fun count =>
  if replyNo ≥ count then fail ()
  else
    (tableEntry checks response r.dataOffset replyNo).bind fun start =>
    (if replyNo + 1 < count then tableEntry checks response r.dataOffset (replyNo + 1)
      else .ok responseSize).bind fun stop =>
    if start > stop || stop > response.length then fail () else slice response start stop

theorem rdNat?_lt {b : List UInt8} {i n v : Nat} (h : rdNat? b i n = some v) : v < 256 ^ n := by
  unfold rdNat? slice? at h
  split at h
  · obtain rfl := Option.some.inj h
    refine Nat.lt_of_lt_of_le (leNat_lt _) (Nat.pow_le_pow_right (by decide) ?_)
    rw [List.length_take]
    exact Nat.min_le_left _ _
  · cases h

theorem dataOffset_le (r : MrResponse) : r.dataOffset ≤ 514 := by
  have := r.extWords.toNat_lt
  unfold MrResponse.dataOffset
  omega

theorem tableEntry_eq {checks : Bool} {base i : Nat} (response : List UInt8) (hbase : base ≤ 514)
    (hi : i ≤ 65536) :
    tableEntry checks response base i =
      get ((rdNat? response (base + 2 + 2 * i) 2).map (base + ·)) () := by
  have hmax : u64Max = 18446744073709551615 := rfl
  rw [tableEntry, mul_of_le (by omega), ok_bind, add_of_le (by omega), ok_bind,
    rd_eq response (by omega)]
  cases hoffset : rdNat? response (base + 2 + 2 * i) 2 with
  | none => rfl
  | some offset =>
    have hlt : offset < 65536 := rdNat?_lt hoffset
    rw [get_some, ok_bind, checkedAdd, if_pos (by omega)]
    rfl

/-- Nothing wraps or panics, whatever the bytes. -/
theorem usize_eq (checks : Bool) (response : List UInt8) (responseSize replyNo : Nat) :
    getMultiRequestResponseUsize checks response responseSize replyNo =
      get (getMultiRequestResponse response responseSize replyNo) () := by
  unfold getMultiRequestResponseUsize getMultiRequestResponse
  cases MrResponse.parse response with
  | none => rfl
  | some r =>
    have hbase := dataOffset_le r
    have hmax : u64Max = 18446744073709551615 := rfl
    rw [get_some, ok_bind, rd_eq response (by omega)]
    simp only [Option.bind_eq_bind, Option.bind_some]
    cases hcount : rdNat? response r.dataOffset 2 with
    | none => rfl
    | some count =>
      have hlt : count < 65536 := rdNat?_lt hcount
      rw [get_some, ok_bind, Option.bind_some]
      by_cases hge : replyNo ≥ count
      · rw [if_pos hge, if_pos hge]
        rfl
      · rw [if_neg hge, if_neg hge, tableEntry_eq response hbase (by omega),
          tableEntry_eq response hbase (by omega)]
        cases rdNat? response (r.dataOffset + 2 + 2 * replyNo) 2 with
        | none => rfl
        | some offset =>
          rw [Option.map_some, get_some, ok_bind, Option.bind_some]
          have hstop : ∀ stop, (if r.dataOffset + offset > stop || stop > response.length then
              fail () else slice response (r.dataOffset + offset) stop) =
              get (if r.dataOffset + offset > stop || stop > response.length then none
                else some ((response.take stop).drop (r.dataOffset + offset))) () := by
            intro stop
            by_cases hout : (r.dataOffset + offset > stop || stop > response.length) = true
            · rw [if_pos hout, if_pos hout]
              rfl
            · rw [if_neg hout, if_neg hout, get_some, List.drop_take]
              simp only [Bool.or_eq_true, decide_eq_true_eq, not_or, Nat.not_lt] at hout
              exact slice_of_le hout.1 hout.2
          by_cases hlast : replyNo + 1 < count
          · rw [if_pos hlast, if_pos hlast]
            cases rdNat? response (r.dataOffset + 2 + 2 * (replyNo + 1)) 2 with
            | none => rfl
            | some next => exact hstop _
          · rw [if_neg hlast, if_neg hlast]
            exact hstop responseSize

/-- Whatever the bytes, what is returned lies inside the response. -/
theorem getMultiRequestResponse_infix {response part : List UInt8} {responseSize replyNo : Nat}
    (h : getMultiRequestResponse response responseSize replyNo = some part) :
    part <:+: response := by
  unfold getMultiRequestResponse at h
  obtain ⟨r, -, h⟩ := Option.bind_eq_some_iff.1 h
  obtain ⟨count, -, h⟩ := Option.bind_eq_some_iff.1 h
  obtain ⟨-, h⟩ := Option.ite_none_left_eq_some.1 h
  obtain ⟨offset, -, h⟩ := Option.bind_eq_some_iff.1 h
  have hpart : ∀ stop, (if (decide (r.dataOffset + offset > stop) ||
      decide (stop > response.length)) = true then none
      else some ((response.take stop).drop (r.dataOffset + offset))) = some part →
        part <:+: response := by
    intro stop hsome
    obtain ⟨-, hsome⟩ := Option.ite_none_left_eq_some.1 hsome
    obtain rfl := Option.some.inj hsome
    exact (List.drop_suffix _ _).isInfix.trans (List.take_prefix _ _).isInfix
  dsimp only at h
  split at h
  · obtain ⟨stop, -, h⟩ := Option.bind_eq_some_iff.1 h
    exact hpart stop h
  · exact hpart responseSize h

/-! ## The layout -/

/-- The header of a response: with its extended status, of as many words as it says. -/
structure MrHeader where
  service : UInt8
  reserved : UInt8
  status : UInt8
  words : UInt8
  ext : List UInt8
  counted : ext.length = 2 * words.toNat

def MrHeader.bytes (h : MrHeader) : List UInt8 :=
  [h.service, h.reserved, h.status, h.words] ++ h.ext

/-- As `encode_multi_request` lays out requests. -/
def multiResponse (header : MrHeader) (replies : List (List UInt8)) : List UInt8 :=
  header.bytes ++ leBytes 2 replies.length ++ multiOffsets ((replies.length + 1) * 2) replies ++
    replies.flatten

/-- Bytes of the count, the offsets and the sub-replies. -/
def multiSize (replies : List (List UInt8)) : Nat :=
  2 + 2 * replies.length + (replies.map List.length).sum

theorem MrHeader.length_bytes (h : MrHeader) : h.bytes.length = 4 + 2 * h.words.toNat := by
  rw [bytes, List.length_append, h.counted]
  rfl

theorem rdNat?_append_right (a b : List UInt8) (i n : Nat) :
    rdNat? (a ++ b) (a.length + i) n = rdNat? b i n := by
  unfold rdNat? slice?
  rw [List.length_append, List.drop_append, List.drop_of_length_le (Nat.le_add_right _ _),
    Nat.add_sub_cancel_left, List.nil_append]
  have hiff : a.length + i + n ≤ a.length + b.length ↔ i + n ≤ b.length := by omega
  simp only [hiff]

theorem rdNat?_append_left {a : List UInt8} (b : List UInt8) {i n : Nat} (h : i + n ≤ a.length) :
    rdNat? (a ++ b) i n = rdNat? a i n := by
  unfold rdNat? slice?
  rw [if_pos (by rw [List.length_append]; omega), if_pos h, List.drop_append_of_le_length (by omega),
    List.take_append_of_le_length (by rw [List.length_drop]; omega)]

theorem rdNat?_leBytes {n v : Nat} (h : v < 256 ^ n) : rdNat? (leBytes n v) 0 n = some v := by
  unfold rdNat? slice?
  rw [if_pos (by simp), List.drop_zero, List.take_of_length_le (by simp)]
  exact congrArg some (leNat_leBytes_of_lt h)

/-- Sizes of the sub-replies in front of one. -/
def sizeBefore (replies : List (List UInt8)) (i : Nat) : Nat :=
  ((replies.take i).map List.length).sum

theorem sizeBefore_le (replies : List (List UInt8)) (i : Nat) :
    sizeBefore replies i ≤ (replies.map List.length).sum := by
  have hsplit : (replies.map List.length).sum =
      ((replies.take i).map List.length).sum + ((replies.drop i).map List.length).sum := by
    rw [← List.sum_append, ← List.map_append, List.take_append_drop]
  unfold sizeBefore
  omega

theorem sizeBefore_succ {replies : List (List UInt8)} {i : Nat} (h : i < replies.length) :
    sizeBefore replies (i + 1) = sizeBefore replies i + replies[i].length := by
  unfold sizeBefore
  rw [List.take_succ_eq_append_getElem h, List.map_append, List.sum_append]
  simp

/-- Row `i` of the table is the offset of sub-reply `i`. -/
theorem rdNat?_multiOffsets {offset i : Nat} {replies : List (List UInt8)}
    (h : i < replies.length) (hsize : offset + sizeBefore replies i < 65536) :
    rdNat? (multiOffsets offset replies) (2 * i) 2 = some (offset + sizeBefore replies i) := by
  induction replies generalizing offset i with
  | nil => simp at h
  | cons r rs ih =>
    cases i with
    | zero =>
      rw [multiOffsets, rdNat?_append_left _ (by simp)]
      have hzero : sizeBefore (r :: rs) 0 = 0 := rfl
      rw [hzero] at hsize ⊢
      exact rdNat?_leBytes hsize
    | succ i =>
      have hsucc : sizeBefore (r :: rs) (i + 1) = r.length + sizeBefore rs i := by
        simp [sizeBefore]
      have hrow : 2 * (i + 1) = (leBytes 2 offset).length + 2 * i := by
        rw [length_leBytes]
        omega
      rw [hsucc] at hsize ⊢
      rw [multiOffsets, hrow, rdNat?_append_right, ih (by simpa using h) (by omega), Nat.add_assoc]

/-- The sub-reply between its start and its end. -/
theorem drop_take_flatten {replies : List (List UInt8)} {i : Nat} (h : i < replies.length) :
    (replies.flatten.take (sizeBefore replies (i + 1))).drop (sizeBefore replies i) = replies[i] := by
  have hlen : ∀ k, (replies.take k).flatten.length = sizeBefore replies k := fun k => by
    rw [List.length_flatten]
    rfl
  have htake : replies.flatten.take (sizeBefore replies (i + 1)) =
      (replies.take (i + 1)).flatten := by
    have hsplit : replies.flatten = (replies.take (i + 1)).flatten ++
        (replies.drop (i + 1)).flatten := by
      rw [← List.flatten_append, List.take_append_drop]
    rw [← hlen (i + 1), hsplit, List.take_left]
  rw [htake, List.take_succ_eq_append_getElem h, List.flatten_append, ← hlen i, List.drop_left]
  simp

/-- What is in front of the sub-replies. -/
def multiFront (header : MrHeader) (replies : List (List UInt8)) : List UInt8 :=
  header.bytes ++ (leBytes 2 replies.length ++ multiOffsets ((replies.length + 1) * 2) replies)

theorem multiResponse_eq (header : MrHeader) (replies : List (List UInt8)) :
    multiResponse header replies = multiFront header replies ++ replies.flatten := by
  unfold multiResponse multiFront
  simp only [List.append_assoc]

theorem length_multiFront (header : MrHeader) (replies : List (List UInt8)) :
    (multiFront header replies).length = header.bytes.length + (replies.length + 1) * 2 := by
  rw [multiFront, List.length_append, List.length_append, length_leBytes, length_multiOffsets]
  omega

/-- A sub-reply in the whole response. -/
theorem drop_take_multiResponse (header : MrHeader) {replies : List (List UInt8)} {i : Nat}
    (h : i < replies.length) :
    ((multiResponse header replies).take
        ((multiFront header replies).length + sizeBefore replies (i + 1))).drop
        ((multiFront header replies).length + sizeBefore replies i) = replies[i] := by
  rw [multiResponse_eq, List.take_length_add_append, List.drop_length_add_append,
    drop_take_flatten h]

/-- The start of a sub-reply by the table. -/
theorem rdNat?_multiResponse (header : MrHeader) {replies : List (List UInt8)}
    (hsize : multiSize replies < 65536) {i : Nat} (h : i < replies.length) :
    rdNat? (multiResponse header replies) (header.bytes.length + 2 + 2 * i) 2 =
      some ((replies.length + 1) * 2 + sizeBefore replies i) := by
  have hle := sizeBefore_le replies i
  have hmulti : multiSize replies = 2 + 2 * replies.length + (replies.map List.length).sum := rfl
  have hrow : header.bytes.length + 2 + 2 * i =
      (header.bytes ++ leBytes 2 replies.length).length + 2 * i := by
    rw [List.length_append, length_leBytes]
  have htable : 2 * i + 2 ≤ (multiOffsets ((replies.length + 1) * 2) replies).length := by
    rw [length_multiOffsets]
    omega
  rw [hrow, multiResponse, List.append_assoc (header.bytes ++ _), rdNat?_append_right,
    rdNat?_append_left _ htable, rdNat?_multiOffsets h (by omega)]

theorem rdNat?_count (header : MrHeader) {replies : List (List UInt8)}
    (hsize : multiSize replies < 65536) :
    rdNat? (multiResponse header replies) header.bytes.length 2 = some replies.length := by
  have hmulti : multiSize replies = 2 + 2 * replies.length + (replies.map List.length).sum := rfl
  rw [multiResponse, List.append_assoc, List.append_assoc]
  show rdNat? _ (header.bytes.length + 0) 2 = _
  rw [rdNat?_append_right, rdNat?_append_left _ (by simp), rdNat?_leBytes (by omega)]

theorem getMultiRequestResponse_layout (header : MrHeader) {replies : List (List UInt8)}
    (hsize : multiSize replies < 65536) (i : Nat) :
    getMultiRequestResponse (multiResponse header replies) (multiResponse header replies).length i =
      replies[i]? := by
  have hfront := length_multiFront header replies
  have hlength : (multiResponse header replies).length =
      (multiFront header replies).length + sizeBefore replies replies.length := by
    rw [multiResponse_eq, List.length_append, List.length_flatten, sizeBefore, List.take_length]
  have hparse : MrResponse.parse (multiResponse header replies) =
      some ⟨header.service, header.status, header.words, multiResponse header replies⟩ := rfl
  have hoffset : MrResponse.dataOffset
      ⟨header.service, header.status, header.words, multiResponse header replies⟩ =
        header.bytes.length := header.length_bytes.symm
  simp only [getMultiRequestResponse, hparse, Option.bind_eq_bind, Option.bind_some, hoffset,
    rdNat?_count header hsize]
  by_cases hi : i < replies.length
  · rw [if_neg (Nat.not_le.2 hi), rdNat?_multiResponse header hsize hi, Option.bind_some,
      List.getElem?_eq_getElem hi]
    have hstart : header.bytes.length + ((replies.length + 1) * 2 + sizeBefore replies i) =
        (multiFront header replies).length + sizeBefore replies i := by omega
    have hsucc := sizeBefore_succ hi
    have hle := sizeBefore_le replies (i + 1)
    have hall : sizeBefore replies replies.length = (replies.map List.length).sum := by
      rw [sizeBefore, List.take_length]
    -- the part up to the next start, or to the end of the response
    have hpart : (if (decide (header.bytes.length + ((replies.length + 1) * 2 +
          sizeBefore replies i) > (multiFront header replies).length + sizeBefore replies (i + 1)) ||
        decide ((multiFront header replies).length + sizeBefore replies (i + 1) >
          (multiResponse header replies).length)) = true then none
        else some (((multiResponse header replies).take ((multiFront header replies).length +
          sizeBefore replies (i + 1))).drop (header.bytes.length + ((replies.length + 1) * 2 +
            sizeBefore replies i)))) = some replies[i] := by
      rw [hstart, if_neg, drop_take_multiResponse header hi]
      simp only [Bool.or_eq_true, decide_eq_true_eq, not_or, Nat.not_lt]
      omega
    by_cases hnext : i + 1 < replies.length
    · have hstop : header.bytes.length + ((replies.length + 1) * 2 + sizeBefore replies (i + 1)) =
          (multiFront header replies).length + sizeBefore replies (i + 1) := by omega
      rw [if_pos hnext, rdNat?_multiResponse header hsize hnext, Option.map_some, Option.bind_some,
        hstop]
      exact hpart
    · have hlast : i + 1 = replies.length := by omega
      rw [if_neg hnext, hlength, ← hlast]
      rw [hlength, ← hlast] at hpart
      exact hpart
  · rw [if_pos (Nat.not_lt.1 hi), List.getElem?_eq_none (Nat.not_lt.1 hi)]

/-- **Each tag gets its own reply.**  Of a response in this layout the `i`-th sub-reply is returned
for each `i`, and of any bytes a part of them, without a panic. -/
theorem multi_reply_split (checks : Bool) :
    (∀ (header : MrHeader) (replies : List (List UInt8)) (i : Nat), multiSize replies < 65536 →
      getMultiRequestResponseUsize checks (multiResponse header replies)
        (multiResponse header replies).length i = get replies[i]? ()) ∧
      ∀ (response : List UInt8) (responseSize replyNo : Nat),
        Safe (· <:+: response)
          (getMultiRequestResponseUsize checks response responseSize replyNo) := by
  refine ⟨fun header replies i hsize => ?_, fun response responseSize replyNo => ?_⟩
  · rw [usize_eq, getMultiRequestResponse_layout header hsize]
  · rw [usize_eq]
    exact Safe.get fun part hpart => getMultiRequestResponse_infix hpart

/-- A response of two sub-replies behind one extended status word. -/
theorem multi_reply_split_two :
    getMultiRequestResponseUsize true
      [0x8A, 0, 0, 1, 0xFF, 0xFF, 2, 0, 6, 0, 8, 0, 0xCC, 0x01, 0xCD] 15 1 = .ok [0xCD] :=
  (multi_reply_split true).1 ⟨0x8A, 0, 0, 1, [0xFF, 0xFF], rfl⟩ [[0xCC, 0x01], [0xCD]] 1 (by decide)

end EtherIp
