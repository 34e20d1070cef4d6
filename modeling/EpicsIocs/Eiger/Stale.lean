import EpicsIocs.Eiger.Frame

/-! # Buffers with earlier frames in them

The decoders write into a buffer from a pool, which holds an earlier frame.  Two buffers of one
size are alike to them: whatever they leave of the content would be in the result.

    decode out = decode out'  if out and out' are as long   (no_stale_pixels)

`decompress_lz4hdf5` is here as `stream2.rs` has it, block by block in the buffer, where
`decompressLz4hdf5` puts the blocks one after the other. -/

namespace Eiger

open Bytes Faults Machine

/-! ## The blocks of lz4hdf5, in place -/

section
variable (checks : Bool) (lz4 : Lz4) (buf : List UInt8)

/-- `decompress_into`: how many bytes it wrote, and the block with these in front of what it
held. -/
def Lz4.decompressInto (payload block : List UInt8) : Except String (Nat × List UInt8) :=
  (lz4.decompress payload block.length).map fun bytes =>
    (bytes.length, bytes ++ block.drop bytes.length)

/-- One block of the buffer, raw or compressed. -/
def lz4hdf5Block (payload block : List UInt8) : Outcome Unit (List UInt8) :=
  if payload.length = block.length then copyFromSlice block payload
  else match lz4.decompressInto payload block with
    | .error _ => fail ()
    | .ok (n, filled) => if n ≠ block.length then fail () else .ok filled

/-- The blocks of `out`, the payload from `pos` on. -/
def lz4hdf5Into (blockSize : Nat) : Nat → Nat → List UInt8 → Outcome Unit (List UInt8)
  | 0, _, _ => .ok []
  | fuel + 1, pos, out =>
    if out.isEmpty then .ok []
    else
      (add checks pos 4).bind fun start => (get (slice? buf pos 4) ()).bind fun len =>
        let clen := beNat len
        (get (checkedAdd start clen) ()).bind fun _ =>
          (get (slice? buf start clen) ()).bind fun payload =>
            (lz4hdf5Block lz4 payload (out.take blockSize)).bind fun block =>
              (add checks start clen).bind fun pos =>
                (lz4hdf5Into blockSize fuel pos (out.drop blockSize)).map fun rest => block ++ rest

/-- `chunks_mut` ends with the buffer, after at most as many blocks as it has bytes. -/
def decompressLz4hdf5Into (out : List UInt8) : Outcome Unit (List UInt8) :=
  (get (slice? buf 0 8) ()).bind fun total => (get (slice? buf 8 4) ()).bind fun size =>
    if beNat size = 0 ∨ beNat total ≠ out.length then fail ()
    else lz4hdf5Into checks lz4 buf (beNat size) out.length 12 out

end

section
variable {checks : Bool} {lz4 : Lz4} {buf : List UInt8} {elemSize : Nat}

/-- A block that decodes has nothing left of what it held. -/
theorem lz4hdf5Block_eq (payload block : List UInt8) :
    lz4hdf5Block lz4 payload block =
      if payload.length = block.length then .ok payload
      else get (((lz4.decompress payload block.length).toOption).filter fun bytes =>
        bytes.length = block.length) () := by
  rw [lz4hdf5Block]
  split
  next hraw => exact copyFromSlice_of_eq hraw.symm
  next hraw =>
    rw [Lz4.decompressInto]
    cases lz4.decompress payload block.length with
    | error e => rfl
    | ok bytes =>
      show (if bytes.length ≠ block.length then fail () else
        .ok (bytes ++ block.drop bytes.length)) =
          get ((some bytes).filter fun bytes => bytes.length = block.length) ()
      by_cases hlen : bytes.length = block.length
      · rw [if_neg (not_not.2 hlen), Option.filter_some, if_pos (decide_eq_true hlen), hlen,
          List.drop_length, List.append_nil]
        rfl
      · rw [if_pos hlen, Option.filter_some, if_neg (by simpa using hlen)]
        rfl

/-- In place or one after the other, the blocks are the same. -/
theorem lz4hdf5Into_eq {blockSize fuel pos : Nat} (out : List UInt8) :
    lz4hdf5Into checks lz4 buf blockSize fuel pos out =
      Checked.lz4hdf5Blocks checks lz4 buf blockSize fuel out.length pos := by
  induction fuel generalizing pos out with
  | zero => rfl
  | succ fuel ih =>
    rw [lz4hdf5Into, Checked.lz4hdf5Blocks]
    by_cases hdone : out = []
    · subst hdone
      rfl
    have hne : ¬out.isEmpty = true := by
      rw [List.isEmpty_iff]
      exact hdone
    have hlen : out.length ≠ 0 := by
      rw [Ne, List.length_eq_zero_iff]
      exact hdone
    rw [if_neg hne, if_neg hlen]
    refine Fallible.bind_congr fun start _ => ?_
    refine Fallible.bind_congr fun len _ => ?_
    refine Fallible.bind_congr fun _ _ => ?_
    refine Fallible.bind_congr fun payload hpayload => ?_
    have hraw : payload.length = beNat len := by
      have hslice := of_get hpayload
      unfold slice? at hslice
      split at hslice
      · cases hslice
        rw [List.length_take, List.length_drop]
        omega
      · cases hslice
    have hdrop : (out.drop blockSize).length = out.length - min blockSize out.length := by
      rw [List.length_drop]
      omega
    rw [lz4hdf5Block_eq, List.length_take, hraw]
    refine Fallible.bind_congr fun block _ => ?_
    refine Fallible.bind_congr fun pos' _ => ?_
    rw [ih, hdrop]

/-- The decoder in place does what the one above it says, and never panics. -/
theorem decompressLz4hdf5Into_eq (hbuf : buf.length ≤ isizeMax) (out : List UInt8) :
    decompressLz4hdf5Into checks lz4 buf out = get (decompressLz4hdf5 lz4 buf out) () := by
  rw [← @Checked.decompressLz4hdf5_eq checks lz4 buf out hbuf]
  refine Fallible.bind_congr fun total _ => ?_
  refine Fallible.bind_congr fun size _ => ?_
  split
  · rfl
  · exact lz4hdf5Into_eq out

/-! ## Bitshuffled blocks -/

/-- Every byte is written over. -/
theorem untransBitElem_congr (hpos : 0 < elemSize) {rows : Nat} {input out out' : List UInt8}
    (hout : out.length = 8 * rows * elemSize) (hlen : out'.length = out.length) :
    untransBitElem input out elemSize = untransBitElem input out' elemSize := by
  apply block_ext hpos ((length_untransBitElem input out elemSize).trans hout)
  · rw [length_untransBitElem, length_untransBitElem, hlen]
  · intro i hi j hj k hk c hc
    rw [bit_untransBitElem hout hi hj hk hc, bit_untransBitElem (hlen.trans hout) hi hj hk hc]

theorem decodeBlock_congr (hpos : 0 < elemSize) {pos rows : Nat} {out out' : List UInt8}
    (hout : out.length = 8 * rows * elemSize) (hlen : out'.length = out.length) :
    decodeBlock lz4 buf elemSize pos out = decodeBlock lz4 buf elemSize pos out' := by
  unfold decodeBlock
  rw [hlen]
  dsimp only
  simp only [untransBitElem_congr hpos hout hlen]

/-- Two decoders that have written the same, with as much left to write. -/
structure Cursor.Alike (s s' : Cursor) : Prop where
  pos : s'.pos = s.pos
  filled : s'.filled = s.filled
  stale : s'.stale.length = s.stale.length

/-- The same error, or decoders that are alike again. -/
def AlikeResults (x x' : Except Bslz4Error Cursor) : Prop :=
  (∃ e, x = .error e ∧ x' = .error e) ∨ ∃ s s', x = .ok s ∧ x' = .ok s' ∧ s.Alike s'

theorem Cursor.block_alike (hpos : 0 < elemSize) {n rows : Nat} (hn : n = 8 * rows * elemSize)
    {s s' : Cursor} (h : s.Alike s') (hroom : n ≤ s.stale.length) :
    AlikeResults (s.block lz4 buf elemSize n) (s'.block lz4 buf elemSize n) := by
  have hblock : decodeBlock lz4 buf elemSize s.pos (s.stale.take n) =
      decodeBlock lz4 buf elemSize s'.pos (s'.stale.take n) := by
    rw [h.pos]
    have htake : (s.stale.take n).length = 8 * rows * elemSize := by
      rw [List.length_take_of_le hroom, hn]
    apply decodeBlock_congr hpos htake
    rw [List.length_take, List.length_take, h.stale]
  rw [Cursor.block, Cursor.block, ← hblock]
  cases decodeBlock lz4 buf elemSize s.pos (s.stale.take n) with
  | error e => exact Or.inl ⟨e, rfl, rfl⟩
  | ok r =>
    refine Or.inr ⟨_, _, rfl, rfl, rfl, ?_, ?_⟩
    · show s'.filled ++ r.2 = s.filled ++ r.2
      rw [h.filled]
    · show (s'.stale.drop n).length = (s.stale.drop n).length
      rw [List.length_drop, List.length_drop, h.stale]

theorem Cursor.stale_of_block {n : Nat} {s t : Cursor} (h : s.block lz4 buf elemSize n = .ok t) :
    t.stale = s.stale.drop n := by
  rw [Cursor.block] at h
  cases hblock : decodeBlock lz4 buf elemSize s.pos (s.stale.take n) with
  | error e =>
    rw [hblock] at h
    cases h
  | ok r =>
    rw [hblock] at h
    cases h
    rfl

theorem Cursor.stale_of_blocks {n k : Nat} {s t : Cursor}
    (h : s.blocks lz4 buf elemSize n k = .ok t) : t.stale = s.stale.drop (k * n) := by
  induction k generalizing s with
  | zero =>
    cases h
    rw [Nat.zero_mul, List.drop_zero]
  | succ k ih =>
    obtain ⟨next, hnext, hrest⟩ := Fallible.of_bind h
    rw [ih hrest, stale_of_block hnext, List.drop_drop, Nat.succ_mul, Nat.add_comm]

theorem Cursor.blocks_alike (hpos : 0 < elemSize) {n rows k : Nat} (hn : n = 8 * rows * elemSize)
    {s s' : Cursor} (h : s.Alike s') (hroom : k * n ≤ s.stale.length) :
    AlikeResults (s.blocks lz4 buf elemSize n k) (s'.blocks lz4 buf elemSize n k) := by
  induction k generalizing s s' with
  | zero => exact Or.inr ⟨s, s', rfl, rfl, h⟩
  | succ k ih =>
    rw [Nat.succ_mul] at hroom
    rw [Cursor.blocks, Cursor.blocks]
    rcases Cursor.block_alike hpos hn h (by omega) with
      ⟨e, he, he'⟩ | ⟨t, t', ht, ht', halike⟩
    · rw [he, he']
      exact Or.inl ⟨e, rfl, rfl⟩
    · rw [ht, ht']
      apply ih halike
      rw [Cursor.stale_of_block ht, List.length_drop]
      omega

/-- At the end nothing is left that is not written. -/
theorem Cursor.tail_alike {leftover : Nat} {s s' : Cursor} (h : s.Alike s')
    (hleft : s.stale.length = leftover) : s.tail buf leftover = s'.tail buf leftover := by
  have hend : s.stale.drop leftover = [] := List.drop_eq_nil_of_le (by omega)
  have hend' : s'.stale.drop leftover = [] := List.drop_eq_nil_of_le (by rw [h.stale]; omega)
  rw [Cursor.tail, Cursor.tail, h.pos, h.filled, hend, hend']
  split
  · rfl
  · have hnil : s.stale = [] := List.eq_nil_of_length_eq_zero (by omega)
    have hnil' : s'.stale = [] := List.eq_nil_of_length_eq_zero (by rw [h.stale]; omega)
    rw [hnil, hnil']

/-- Full blocks, a short one and the raw tail are the whole buffer. -/
theorem decodeBlocksInto_congr (hpos : 0 < elemSize) {out out' : List UInt8}
    (hdvd : elemSize ∣ out.length) (hlen : out'.length = out.length) (blockSize : Nat) :
    decodeBlocksInto lz4 buf elemSize out blockSize =
      decodeBlocksInto lz4 buf elemSize out' blockSize := by
  simp only [decodeBlocksInto, hlen]
  generalize (if blockSize = 0 then defaultBlockSize elemSize else blockSize) = size
  by_cases hgrid : size % blockedMult ≠ 0
  · rw [if_pos hgrid, if_pos hgrid]
  rw [if_neg hgrid, if_neg hgrid]
  have h8 : size % 8 = 0 := not_not.1 hgrid
  have helements := elements_eq (out.length / elemSize) h8
  have hbytes : out.length / elemSize * elemSize = out.length := Nat.div_mul_cancel hdvd
  generalize out.length / elemSize = nElems at helements hbytes ⊢
  generalize hlast : nElems % size - nElems % size % blockedMult = last
  have hlastEq : nElems % size - nElems % size % 8 = last := hlast
  rw [hlastEq] at helements
  have hparts : nElems / size * (size * elemSize) + last * elemSize + nElems % 8 * elemSize =
      out.length := by
    rw [← Nat.mul_assoc, ← Nat.add_mul, ← Nat.add_mul, helements, hbytes]
  have hsize : size * elemSize = 8 * (size / 8) * elemSize := by
    rw [Nat.mul_div_cancel' (Nat.dvd_of_mod_eq_zero h8)]
  have hshort : last * elemSize = 8 * (last / 8) * elemSize := by
    rw [Nat.mul_div_cancel' (Nat.dvd_of_mod_eq_zero (by omega))]
  have hstart : Cursor.Alike ⟨0, [], out⟩ ⟨0, [], out'⟩ := ⟨rfl, rfl, hlen⟩
  have hfull := @Cursor.blocks_alike lz4 buf elemSize hpos _ _ (nElems / size) hsize _ _ hstart
    (show _ ≤ out.length by omega)
  rcases hfull with ⟨e, he, he'⟩ | ⟨s, s', hs, hs', halike⟩
  · rw [he, he']
  rw [hs, hs']
  have hleft : s.stale.length = out.length - nElems / size * (size * elemSize) := by
    rw [Cursor.stale_of_blocks hs, List.length_drop]
  show Except.bind (if 0 < last then _ else _) _ = Except.bind (if 0 < last then _ else _) _
  by_cases hany : 0 < last
  · rw [if_pos hany, if_pos hany]
    rcases @Cursor.block_alike lz4 buf elemSize hpos _ _ hshort _ _ halike (by omega) with
      ⟨e, he, he'⟩ | ⟨t, t', ht, ht', halike'⟩
    · rw [he, he']
    · rw [ht, ht']
      apply Cursor.tail_alike halike'
      rw [Cursor.stale_of_block ht, List.length_drop, hleft]
      show _ = nElems % 8 * elemSize
      omega
  · rw [if_neg hany, if_neg hany]
    apply Cursor.tail_alike halike
    rw [hleft]
    show _ = nElems % 8 * elemSize
    have hnone : last * elemSize = 0 := by rw [Nat.eq_zero_of_not_pos hany, Nat.zero_mul]
    omega

/-! ## The decoders -/

/-- The LZ4 branch of `decode_image` fills the buffer, or it is an error. -/
theorem decompressInto_congr (h : ImageHeader) (blob : List UInt8) {out out' : List UInt8}
    (hlen : out'.length = out.length) :
    decompressInto checks lz4 h .lz4 blob out.length out =
      decompressInto checks lz4 h .lz4 blob out.length out' := by
  rw [decompressInto, decompressInto, if_pos rfl, if_pos rfl, hlen]
  cases lz4.decompress blob out.length with
  | error e => rfl
  | ok bytes =>
    dsimp only
    split
    · rfl
    next hwhole =>
      have hdrop : out.drop bytes.length = [] := List.drop_eq_nil_of_le (by omega)
      have hdrop' : out'.drop bytes.length = [] := List.drop_eq_nil_of_le (by omega)
      rw [hdrop, hdrop']

theorem decompressInto_lz4_safe (h : ImageHeader) (blob out : List UInt8) (n : Nat) :
    Safe (fun _ => True) (decompressInto checks lz4 h .lz4 blob n out) := by
  rw [decompressInto, if_pos rfl]
  cases lz4.decompress blob out.length with
  | error e => exact .fail
  | ok bytes =>
    dsimp only
    split
    · exact .fail
    · exact .ok trivial

end

/-- **No stale pixels.**  What was in the buffer is not in the result, and no payload makes a
decoder leave the payload or the buffer. -/
theorem no_stale_pixels (checks : Bool) (lz4 : Lz4) (buf out out' : List UInt8)
    (hbuf : buf.length ≤ isizeMax) (hout : out.length ≤ isizeMax)
    (hlen : out'.length = out.length) :
    (∀ elemSize blockSize, 0 < elemSize → elemSize ∣ out.length →
        Checked.decodeBlocksInto checks lz4 buf elemSize out blockSize =
            Checked.decodeBlocksInto checks lz4 buf elemSize out' blockSize ∧
          Checked.decodeBlocksInto checks lz4 buf elemSize out blockSize ≠ panics) ∧
      (decompressLz4hdf5Into checks lz4 buf out = decompressLz4hdf5Into checks lz4 buf out' ∧
        decompressLz4hdf5Into checks lz4 buf out ≠ panics) ∧
      ∀ h : ImageHeader,
        decompressInto checks lz4 h .lz4 buf out.length out =
            decompressInto checks lz4 h .lz4 buf out.length out' ∧
          decompressInto checks lz4 h .lz4 buf out.length out ≠ panics := by
  refine ⟨fun elemSize blockSize hpos hdvd => ?_, ?_, fun h => ?_⟩
  · rw [(Checked.decodeBlocksInto_spec checks lz4 hbuf hpos hout blockSize).1,
      (Checked.decodeBlocksInto_spec checks lz4 hbuf hpos (hlen ▸ hout) blockSize).1,
      decodeBlocksInto_congr hpos hdvd hlen]
    exact ⟨rfl, (Safe.lift fun _ _ => trivial).1⟩
  · have hsame : decompressLz4hdf5 lz4 buf out = decompressLz4hdf5 lz4 buf out' := by
      rw [decompressLz4hdf5, decompressLz4hdf5, hlen]
    rw [decompressLz4hdf5Into_eq hbuf, decompressLz4hdf5Into_eq hbuf, ← hsame]
    exact ⟨rfl, (Safe.lift fun _ _ => trivial).1⟩
  · exact ⟨decompressInto_congr h buf hlen, (decompressInto_lz4_safe h buf out out.length).1⟩

/-- One raw block of three bytes, over an earlier frame. -/
theorem no_stale_pixels_raw :
    decompressLz4hdf5Into true ⟨fun x => x, fun _ _ => .error ""⟩
        [0, 0, 0, 0, 0, 0, 0, 3, 0, 0, 0, 8, 0, 0, 0, 3, 1, 2, 3] [9, 9, 9] =
      decompressLz4hdf5Into true ⟨fun x => x, fun _ _ => .error ""⟩
        [0, 0, 0, 0, 0, 0, 0, 3, 0, 0, 0, 8, 0, 0, 0, 3, 1, 2, 3] [4, 5, 6] :=
  (no_stale_pixels true _ _ [9, 9, 9] [4, 5, 6] (by decide) (by decide) rfl).2.1.1

end Eiger
