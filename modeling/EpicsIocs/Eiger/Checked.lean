import EpicsIocs.Lib.Faults
import EpicsIocs.Eiger.Bslz4

/-! # The decoder on machine words

The decoder of `bslz4.rs` and the one of `lz4hdf5` blocks again, with every sum, product,
slice and index of the source as the machine makes it: a `usize` that overflows, a slice
that leaves its buffer and an index out of range are panics, or wrap in a build without
overflow checks.

    Checked.decodeBlocksInto = lift Eiger.decodeBlocksInto     (decodeBlocksInto_eq)

and likewise for the other entries: for buffers no longer than a slice can be, nothing
overflows and nothing panics, in either build. -/

namespace Eiger.Checked

open Bytes Faults Machine

/-! ## The decoder -/

/-- Where `trans_byte_bitrow` reads. -/
def bitrowReads (size elemSize : Nat) : List Nat :=
  let nbyteRow := size / 8
  (List.range elemSize).flatMap fun jj => (List.range nbyteRow).flatMap fun ii =>
    (List.range 8).map fun kk => (jj * 8 + kk) * nbyteRow + ii

/-- The last bytes of the words `shuffle_bit_eightelem` reads. -/
def eightelemReads (size elemSize : Nat) : List Nat :=
  let nbyte := elemSize * size
  ((List.range elemSize).map (8 * ·)).flatMap fun jj =>
    ((List.range (nbyte / (8 * elemSize))).map (· * (8 * elemSize))).map fun ii => ii + jj + 7

section
variable (checks : Bool) (lz4 : Lz4) (buf : List UInt8) (elemSize : Nat)

/-- `tmp` is as long as `out`. -/
def untransBitElem (input out : List UInt8) : Outcome Bslz4Error (List UInt8) :=
  let size := out.length / elemSize
  let tmp := transByteBitrow input (List.replicate out.length 0) size elemSize
  (touch input.length (bitrowReads size elemSize)).bind fun _ =>
    (touch tmp.length ((bitrowWrites input size elemSize).map Prod.fst)).bind fun _ =>
      (touch tmp.length (eightelemReads size elemSize)).bind fun _ =>
        (touch out.length ((eightelemWrites tmp size elemSize).map Prod.fst)).bind fun _ =>
          .ok (Eiger.untransBitElem input out elemSize)

def decodeBlock (pos : Nat) (out : List UInt8) : Outcome Bslz4Error (Nat × List UInt8) :=
  (add checks pos 4).bind fun start =>
    if start > buf.length then fail (.truncated "block length")
    else
      (slice buf pos start).bind fun len =>
        match checkedAdd start (beNat len) with
        | none => fail (.truncated "block length overflows")
        | some stop =>
          if stop > buf.length then fail (.truncated "block payload")
          else
            (slice buf start stop).bind fun payload =>
              match lz4.decompress payload out.length with
              | .error e => fail (.lz4 e)
              | .ok shuffled =>
                if shuffled.length ≠ out.length then fail (.truncated "block decoded short")
                else (untransBitElem elemSize shuffled out).map fun block => (stop, block)

/-- The block is `out[at..at + n]`, `at` the length of what is filled. -/
def block (n : Nat) (s : Cursor) : Outcome Bslz4Error Cursor :=
  (add checks s.filled.length n).bind fun stop =>
    (slice (s.filled ++ s.stale) s.filled.length stop).bind fun out =>
      (decodeBlock checks lz4 buf elemSize s.pos out).map fun (pos, out) =>
        ⟨pos, s.filled ++ out, s.stale.drop n⟩

def blocks (blockSize : Nat) : Nat → Cursor → Outcome Bslz4Error Cursor
  | 0, s => .ok s
  | k + 1, s =>
    (mul checks blockSize elemSize).bind fun n =>
      (block checks lz4 buf elemSize n s).bind fun s => blocks blockSize k s

def tail (leftover : Nat) (s : Cursor) : Outcome Bslz4Error (List UInt8) :=
  if 0 < leftover then
    (add checks s.pos leftover).bind fun stop =>
      if stop > buf.length then fail (.truncated "trailing raw elements")
      else
        (slice buf s.pos stop).bind fun raw =>
          (add checks s.filled.length leftover).bind fun stop =>
            (slice (s.filled ++ s.stale) s.filled.length stop).bind fun out =>
              (copyFromSlice out raw).map fun raw => s.filled ++ raw ++ s.stale.drop leftover
  else .ok (s.filled ++ s.stale)

/-- The element size is not 0, nor is the block size. -/
def decodeBlocksInto (out : List UInt8) (blockSize : Nat) : Outcome Bslz4Error (List UInt8) :=
  let blockSize := if blockSize = 0 then defaultBlockSize elemSize else blockSize
  if blockSize % blockedMult ≠ 0 then fail (.blockSize blockSize)
  else
    let nElems := out.length / elemSize
    let last := nElems % blockSize
    let last := last - last % blockedMult
    ((blocks checks lz4 buf elemSize blockSize (nElems / blockSize) ⟨0, [], out⟩).bind fun s =>
      if 0 < last then
        (mul checks last elemSize).bind fun n => block checks lz4 buf elemSize n s
      else .ok s).bind fun s =>
        (mul checks (nElems % blockedMult) elemSize).bind fun leftover =>
          tail checks buf leftover s

/-- The header is there, or this is an error. -/
def decodeWithHeaderInto (out : List UInt8) : Outcome Bslz4Error (List UInt8) :=
  let elemSize := max elemSize 1
  (lift (header buf elemSize)).bind fun (totalBytes, blockSize) =>
    if totalBytes ≠ out.length then fail (.sizeMismatch totalBytes out.length)
    else
      (slice buf headerLen buf.length).bind fun buf =>
        decodeBlocksInto checks lz4 buf elemSize out blockSize

/-- Without an error to say, as `None` is. -/
def lz4hdf5Blocks (blockSize : Nat) : Nat → Nat → Nat → Outcome Unit (List UInt8)
  | 0, _, _ => .ok []
  | fuel + 1, left, pos =>
    if left = 0 then .ok []
    else
      let n := min blockSize left
      (add checks pos 4).bind fun start => (get (slice? buf pos 4) ()).bind fun len =>
        let clen := beNat len
        (get (checkedAdd start clen) ()).bind fun _ =>
          (get (slice? buf start clen) ()).bind fun payload =>
            (if clen = n then .ok payload
              else get (((lz4.decompress payload n).toOption).filter fun block =>
                block.length = n) ()).bind fun block =>
                  (add checks start clen).bind fun pos =>
                    (lz4hdf5Blocks blockSize fuel (left - n) pos).map fun rest => block ++ rest

def decompressLz4hdf5 (out : List UInt8) : Outcome Unit (List UInt8) :=
  (get (slice? buf 0 8) ()).bind fun total => (get (slice? buf 8 4) ()).bind fun size =>
    if beNat size = 0 ∨ beNat total ≠ out.length then fail ()
    else lz4hdf5Blocks checks lz4 buf (beNat size) out.length out.length 12

/-- `buf` is the blob. -/
def uncompress (algorithm : String) (out : List UInt8) : Outcome Reported (List UInt8) :=
  if algorithm = "lz4" then
    (decompressLz4hdf5 checks lz4 buf out).mapError
      (Fault.map fun _ => ⟨"uncompress", "decompress_lz4hdf5 failed, result=0\n"⟩)
  else
    (slice buf headerLen buf.length).bind fun blocks =>
      (decodeBlocksInto checks lz4 blocks elemSize out 0).mapError
        (Fault.map fun e =>
          ⟨"uncompress", "bshuf_decompress_lz4 failed, result=" ++ e.display⟩)

end

/-! ## Indices -/

section
variable {checks : Bool} {lz4 : Lz4} {buf input out : List UInt8} {elemSize rows : Nat}

theorem bitrowReads_lt {i : Nat} (h : i ∈ bitrowReads (8 * rows) elemSize) :
    i < 8 * rows * elemSize := by
  have hrows : 8 * rows / 8 = rows := by omega
  simp only [bitrowReads, hrows, List.mem_flatMap, List.mem_map, List.mem_range] at h
  obtain ⟨jj, hjj, ii, hii, kk, hkk, rfl⟩ := h
  have hrow : jj * 8 + kk + 1 ≤ 8 * elemSize := by omega
  calc (jj * 8 + kk) * rows + ii
      < (jj * 8 + kk + 1) * rows := by rw [Nat.succ_mul]; omega
    _ ≤ 8 * elemSize * rows := Nat.mul_le_mul_right _ hrow
    _ = 8 * rows * elemSize := by ring

theorem eightelemReads_lt (hpos : 0 < elemSize) {i : Nat}
    (h : i ∈ eightelemReads (8 * rows) elemSize) : i < 8 * rows * elemSize := by
  have hrows : elemSize * (8 * rows) / (8 * elemSize) = rows := by
    rw [show elemSize * (8 * rows) = 8 * elemSize * rows by ring]
    exact Nat.mul_div_cancel_left _ (by omega)
  simp only [eightelemReads, hrows, List.mem_flatMap, List.mem_map, List.mem_range] at h
  obtain ⟨_, ⟨jj, hjj, rfl⟩, _, ⟨ii, hii, rfl⟩, rfl⟩ := h
  have hgroup : (ii + 1) * (8 * elemSize) ≤ rows * (8 * elemSize) := Nat.mul_le_mul_right _ hii
  have hsplit : (ii + 1) * (8 * elemSize) = ii * (8 * elemSize) + 8 * elemSize := by ring
  have hsize : rows * (8 * elemSize) = 8 * rows * elemSize := by ring
  omega

theorem bitrowWrites_lt {i : Nat}
    (h : i ∈ (bitrowWrites input (8 * rows) elemSize).map Prod.fst) : i < 8 * rows * elemSize := by
  obtain ⟨w, hw, rfl⟩ := List.mem_map.1 h
  obtain ⟨j, hj, i, hi, k, hk, rfl⟩ := mem_bitrowWrites.1 hw
  exact square_index_lt hi hj hk

@[simp] theorem length_transByteBitrow (input out : List UInt8) (size elemSize : Nat) :
    (transByteBitrow input out size elemSize).length = out.length :=
  Scatter.length_scatter _ _

theorem untransBitElem_eq (hpos : 0 < elemSize) (hout : out.length = 8 * rows * elemSize)
    (hinput : input.length = out.length) :
    untransBitElem elemSize input out = .ok (Eiger.untransBitElem input out elemSize) := by
  have hsize : out.length / elemSize = 8 * rows := by rw [hout, Nat.mul_div_cancel _ hpos]
  have hread : ∀ i ∈ bitrowReads (8 * rows) elemSize, i < input.length :=
    fun i hi => hinput ▸ hout ▸ bitrowReads_lt hi
  simp only [untransBitElem, hsize, length_transByteBitrow, List.length_replicate]
  rw [touch_of_lt hread, Except.bind, touch_of_lt fun i hi => hout ▸ bitrowWrites_lt hi, Except.bind,
    touch_of_lt fun i hi => hout ▸ eightelemReads_lt hpos hi, Except.bind,
    touch_of_lt fun i hi => hout ▸ (mem_eightelemWrites_fst hpos).1 hi, Except.bind]

end

/-! ## Blocks -/

section
variable {checks : Bool} {lz4 : Lz4} {buf out : List UInt8} {elemSize : Nat}

theorem decodeBlock_eq (hbuf : buf.length ≤ isizeMax) (hpos : 0 < elemSize) {pos rows : Nat}
    (hstart : pos ≤ buf.length) (hout : out.length = 8 * rows * elemSize) :
    decodeBlock checks lz4 buf elemSize pos out =
      lift (Eiger.decodeBlock lz4 buf elemSize pos out) := by
  have hmax : isizeMax + 2 ^ 32 ≤ u64Max := by decide
  rw [decodeBlock, add_of_le (by omega), Eiger.decodeBlock]
  show (if pos + 4 > buf.length then _ else _) = _
  by_cases hhead : pos + 4 > buf.length
  · rw [if_pos hhead, if_pos hhead]
    rfl
  rw [if_neg hhead, if_neg hhead, slice_add (by omega)]
  have hlen : beNat ((buf.drop pos).take 4) < 2 ^ 32 := by
    have hlt := beNat_lt ((buf.drop pos).take 4)
    have htake : ((buf.drop pos).take 4).length = 4 := by
      rw [List.length_take, List.length_drop]
      omega
    rwa [htake] at hlt
  dsimp only [Except.bind]
  generalize beNat ((buf.drop pos).take 4) = clen at hlen ⊢
  rw [checkedAdd, if_pos (by omega)]
  dsimp only
  by_cases hbody : pos + 4 + clen > buf.length
  · rw [if_pos hbody, if_pos hbody]
    rfl
  rw [if_neg hbody, if_neg hbody, slice_add (by omega)]
  dsimp only [Except.bind]
  cases lz4.decompress ((buf.drop (pos + 4)).take clen) out.length with
  | error e => rfl
  | ok shuffled =>
    by_cases hsame : shuffled.length ≠ out.length
    · dsimp only
      rw [if_pos hsame, if_pos hsame]
      rfl
    · dsimp only
      rw [if_neg hsame, if_neg hsame, untransBitElem_eq hpos hout (not_not.1 hsame)]
      rfl

/-- A block that decodes ends within the payload and fills its place. -/
theorem of_decodeBlock {pos pos' : Nat} {block : List UInt8}
    (h : Eiger.decodeBlock lz4 buf elemSize pos out = .ok (pos', block)) :
    pos' ≤ buf.length ∧ block.length = out.length := by
  rw [Eiger.decodeBlock] at h
  obtain ⟨-, h⟩ := Fallible.of_guard h
  obtain ⟨hfits, h⟩ := Fallible.of_guard h
  cases hdecompress : lz4.decompress ((buf.drop (pos + 4)).take
      (beNat ((buf.drop pos).take 4))) out.length with
  | error e =>
    rw [hdecompress] at h
    cases h
  | ok shuffled =>
    rw [hdecompress] at h
    obtain ⟨-, h⟩ := Fallible.of_guard h
    cases h
    exact ⟨Nat.not_lt.1 hfits, length_untransBitElem _ _ _⟩

/-- How far a decoder of `total` bytes can be. -/
structure Within (buf : List UInt8) (total : Nat) (s : Cursor) : Prop where
  pos_le : s.pos ≤ buf.length
  whole : s.filled.length + s.stale.length = total

theorem Within.block {s s' : Cursor} {total n : Nat} (hs : Within buf total s)
    (hn : n ≤ s.stale.length) (h : s.block lz4 buf elemSize n = .ok s') :
    Within buf total s' ∧ s'.stale.length = s.stale.length - n := by
  have hwhole := hs.whole
  rw [Cursor.block] at h
  cases hdecode : Eiger.decodeBlock lz4 buf elemSize s.pos (s.stale.take n) with
  | error e =>
    rw [hdecode] at h
    cases h
  | ok r =>
    rw [hdecode] at h
    cases h
    obtain ⟨hpos, hlen⟩ := of_decodeBlock hdecode
    rw [List.length_take_of_le hn] at hlen
    refine ⟨⟨hpos, ?_⟩, List.length_drop⟩
    show (s.filled ++ r.2).length + (s.stale.drop n).length = total
    rw [List.length_append, List.length_drop]
    omega

variable (checks lz4) in
theorem block_eq (hbuf : buf.length ≤ isizeMax) (hpos : 0 < elemSize) {s : Cursor}
    {total n rows : Nat} (htotal : total ≤ isizeMax) (hs : Within buf total s)
    (hn : n ≤ s.stale.length) (hrows : n = 8 * rows * elemSize) :
    block checks lz4 buf elemSize n s = lift (s.block lz4 buf elemSize n) := by
  have hwhole := hs.whole
  have hmax : isizeMax ≤ u64Max := by decide
  have hout : (s.stale.take n).length = 8 * rows * elemSize := by
    rw [List.length_take_of_le hn, hrows]
  rw [block, add_of_le (by omega)]
  dsimp only [Except.bind]
  rw [slice_add (by rw [List.length_append]; omega), List.drop_left]
  dsimp only [Except.bind]
  rw [decodeBlock_eq hbuf hpos hs.pos_le hout, Cursor.block]
  cases Eiger.decodeBlock lz4 buf elemSize s.pos (s.stale.take n) with
  | error e => rfl
  | ok r => rfl

variable (checks lz4) in
theorem blocks_eq (hbuf : buf.length ≤ isizeMax) (hpos : 0 < elemSize) {total : Nat}
    (htotal : total ≤ isizeMax) {blockSize k : Nat} (h8 : blockSize % 8 = 0) {s : Cursor}
    (hs : Within buf total s) (hk : k * (blockSize * elemSize) ≤ s.stale.length) :
    blocks checks lz4 buf elemSize blockSize k s =
        lift (s.blocks lz4 buf elemSize (blockSize * elemSize) k) ∧
      ∀ s', s.blocks lz4 buf elemSize (blockSize * elemSize) k = .ok s' →
        Within buf total s' ∧
          s'.stale.length = s.stale.length - k * (blockSize * elemSize) := by
  have hrows : blockSize * elemSize = 8 * (blockSize / 8) * elemSize := by
    rw [Nat.mul_div_cancel' (Nat.dvd_of_mod_eq_zero h8)]
  have hmax : isizeMax ≤ u64Max := by decide
  induction k generalizing s with
  | zero =>
    refine ⟨rfl, fun s' h => ?_⟩
    cases h
    exact ⟨hs, by omega⟩
  | succ k ih =>
    have hwhole := hs.whole
    rw [Nat.succ_mul] at hk ⊢
    have hfirst : blockSize * elemSize ≤ s.stale.length := by omega
    have hblock := block_eq checks lz4 hbuf hpos htotal hs hfirst hrows
    rw [blocks, mul_of_le (by omega), Cursor.blocks]
    dsimp only [Except.bind]
    rw [hblock]
    cases hnext : s.block lz4 buf elemSize (blockSize * elemSize) with
    | error e => exact ⟨rfl, fun _ h => by cases h⟩
    | ok next =>
      obtain ⟨hwithin, hleft⟩ := hs.block hfirst hnext
      obtain ⟨heq, hrun⟩ := ih hwithin (by omega)
      refine ⟨heq, fun s' h => ?_⟩
      obtain ⟨hwithin', hleft'⟩ := hrun s' h
      exact ⟨hwithin', by omega⟩

theorem tail_eq (hbuf : buf.length ≤ isizeMax) {s : Cursor} {total leftover : Nat}
    (htotal : total ≤ isizeMax) (hs : Within buf total s) (hleft : leftover ≤ s.stale.length) :
    tail checks buf leftover s = lift (s.tail buf leftover) := by
  have hwhole := hs.whole
  have hpos := hs.pos_le
  have hmax : isizeMax + isizeMax ≤ u64Max := by decide
  by_cases hany : 0 < leftover
  · rw [tail, if_pos hany, add_of_le (by omega), Cursor.tail, if_pos hany]
    dsimp only [Except.bind]
    by_cases hfits : s.pos + leftover > buf.length
    · rw [if_pos hfits, if_pos hfits]
      rfl
    · rw [if_neg hfits, if_neg hfits, slice_add (by omega)]
      dsimp only [Except.bind]
      rw [add_of_le (by omega)]
      dsimp only [Except.bind]
      rw [slice_add (by rw [List.length_append]; omega), List.drop_left]
      dsimp only [Except.bind]
      rw [copyFromSlice_of_eq]
      · rfl
      · rw [List.length_take_of_le hleft, List.length_take, List.length_drop]
        omega
  · rw [tail, if_neg hany, Cursor.tail, if_neg hany]
    rfl

theorem Within.tail {s : Cursor} {total leftover : Nat} {pixels : List UInt8}
    (hs : Within buf total s) (hleft : leftover ≤ s.stale.length)
    (h : s.tail buf leftover = .ok pixels) : pixels.length = total := by
  have hwhole := hs.whole
  rw [Cursor.tail] at h
  split at h
  · obtain ⟨hfits, h⟩ := Fallible.of_guard h
    cases h
    simp only [List.length_append, List.length_take, List.length_drop]
    omega
  · cases h
    rw [List.length_append, hwhole]

variable (checks lz4) in
/-- **Nothing overflows and nothing panics** in the decoder, and it fills the output. -/
theorem decodeBlocksInto_spec (hbuf : buf.length ≤ isizeMax) (hpos : 0 < elemSize)
    (hout : out.length ≤ isizeMax) (blockSize : Nat) :
    decodeBlocksInto checks lz4 buf elemSize out blockSize =
        lift (Eiger.decodeBlocksInto lz4 buf elemSize out blockSize) ∧
      ∀ pixels, Eiger.decodeBlocksInto lz4 buf elemSize out blockSize = .ok pixels →
        pixels.length = out.length := by
  have hmax : isizeMax + isizeMax ≤ u64Max := by decide
  simp only [decodeBlocksInto, Eiger.decodeBlocksInto]
  generalize hsize : (if blockSize = 0 then defaultBlockSize elemSize else blockSize) = size
  by_cases hgrid : size % blockedMult ≠ 0
  · rw [if_pos hgrid, if_pos hgrid]
    exact ⟨rfl, fun _ h => by cases h⟩
  rw [if_neg hgrid, if_neg hgrid]
  have h8 : size % 8 = 0 := not_not.1 hgrid
  have helements := elements_eq (out.length / elemSize) h8
  generalize hn : out.length / elemSize = nElems at helements ⊢
  have hbytes : nElems * elemSize ≤ out.length := hn ▸ Nat.div_mul_le_self _ _
  generalize hlast : nElems % size - nElems % size % blockedMult = last
  have hlastEq : nElems % size - nElems % size % 8 = last := hlast
  rw [hlastEq] at helements
  have hparts : nElems / size * (size * elemSize) + last * elemSize + nElems % 8 * elemSize ≤
      out.length := by
    rw [← Nat.mul_assoc, ← Nat.add_mul, ← Nat.add_mul, helements]
    exact hbytes
  have hstart : Within buf out.length ⟨0, [], out⟩ := ⟨Nat.zero_le _, Nat.zero_add _⟩
  obtain ⟨hblocks, hrun⟩ := blocks_eq checks lz4 hbuf hpos hout
    (k := nElems / size) h8 hstart (show _ ≤ out.length by omega)
  rw [hblocks, lift_bind, lift_bind]
  cases hfull : Cursor.blocks lz4 buf elemSize (size * elemSize) (nElems / size) ⟨0, [], out⟩ with
  | error e => exact ⟨rfl, fun _ h => by cases h⟩
  | ok s =>
    obtain ⟨hs, hleft⟩ := hrun s hfull
    have hleft : s.stale.length = out.length - nElems / size * (size * elemSize) := hleft
    have hlast8 : last * elemSize = 8 * (last / 8) * elemSize := by
      rw [Nat.mul_div_cancel' (Nat.dvd_of_mod_eq_zero (by omega))]
    have htail : ∀ s' : Cursor, Within buf out.length s' →
        s'.stale.length = s.stale.length - last * elemSize →
        ((mul checks (nElems % blockedMult) elemSize).bind fun leftover =>
            tail checks buf leftover s') =
            lift (s'.tail buf (nElems % blockedMult * elemSize)) ∧
          ∀ pixels, s'.tail buf (nElems % blockedMult * elemSize) = .ok pixels →
            pixels.length = out.length := by
      intro s' hs' hleft'
      have hrest : nElems % blockedMult * elemSize ≤ s'.stale.length := by
        rw [blockedMult]
        omega
      have hwhole := hs'.whole
      rw [mul_of_le (by omega)]
      exact ⟨tail_eq hbuf hout hs' hrest, fun _ h => hs'.tail hrest h⟩
    have hroom : last * elemSize ≤ s.stale.length := by omega
    show Except.bind (if 0 < last then _ else _) _ =
        Except.bind (lift (if 0 < last then _ else _)) _ ∧
      ∀ pixels, Except.bind (if 0 < last then _ else _) _ = .ok pixels → _
    by_cases hany : 0 < last
    · rw [if_pos hany, if_pos hany, mul_of_le (by omega)]
      dsimp only [Except.bind]
      rw [block_eq checks lz4 hbuf hpos hout hs hroom hlast8]
      cases hshort : s.block lz4 buf elemSize (last * elemSize) with
      | error e => exact ⟨rfl, fun _ h => by cases h⟩
      | ok s' =>
        obtain ⟨hs', hleft'⟩ := hs.block hroom hshort
        exact htail s' hs' hleft'
    · have hnone : last = 0 := Nat.eq_zero_of_not_pos hany
      rw [if_neg hany, if_neg hany]
      exact htail s hs (by rw [hnone, Nat.zero_mul, Nat.sub_zero])

theorem of_header {total size : Nat} (h : header buf elemSize = .ok (total, size)) :
    headerLen ≤ buf.length ∧ total = beNat (buf.take 8) := by
  obtain ⟨hlen, h⟩ := Fallible.of_guard h
  cases h
  exact ⟨Nat.not_lt.1 hlen, rfl⟩

variable (checks lz4 elemSize) in
theorem decodeWithHeaderInto_spec (hbuf : buf.length ≤ isizeMax) (hout : out.length ≤ isizeMax) :
    decodeWithHeaderInto checks lz4 buf elemSize out =
        lift (Eiger.decodeWithHeaderInto lz4 buf out elemSize) ∧
      ∀ pixels, Eiger.decodeWithHeaderInto lz4 buf out elemSize = .ok pixels →
        pixels.length = out.length ∧ beNat (buf.take 8) = out.length := by
  have hpos : 0 < max elemSize 1 := Nat.lt_of_lt_of_le Nat.one_pos (Nat.le_max_right _ _)
  rw [decodeWithHeaderInto, Eiger.decodeWithHeaderInto, lift_bind]
  cases hheader : header buf (max elemSize 1) with
  | error e => exact ⟨rfl, fun _ h => by cases h⟩
  | ok r =>
    obtain ⟨total, size⟩ := r
    obtain ⟨hlen, htotal⟩ := of_header hheader
    have hrest : (buf.drop headerLen).length ≤ isizeMax := by
      rw [List.length_drop]
      omega
    have hok : (lift (.ok (total, size)) : Outcome Bslz4Error _) = .ok (total, size) := rfl
    rw [hok]
    dsimp only [Except.bind]
    by_cases hsame : total ≠ out.length
    · simp only [if_pos hsame]
      exact ⟨rfl, fun _ h => by cases h⟩
    · simp only [if_neg hsame]
      rw [slice_drop hlen]
      obtain ⟨heq, hfills⟩ := decodeBlocksInto_spec checks lz4 hrest hpos hout size
      exact ⟨heq, fun pixels h => ⟨hfills pixels h, htotal ▸ not_not.1 hsame⟩⟩

theorem beNat_slice?_lt {b bs : List UInt8} {i n : Nat} (h : slice? b i n = some bs) :
    i + n ≤ b.length ∧ beNat bs < 256 ^ n := by
  unfold slice? at h
  split at h
  · rename_i hfits
    cases h
    have hlt := beNat_lt ((b.drop i).take n)
    have htake : ((b.drop i).take n).length = n := by
      rw [List.length_take, List.length_drop]
      omega
    rw [htake] at hlt
    exact ⟨hfits, hlt⟩
  · cases h

theorem lz4hdf5Blocks_eq (hbuf : buf.length ≤ isizeMax) {blockSize fuel left pos : Nat}
    (hstart : pos ≤ buf.length) :
    lz4hdf5Blocks checks lz4 buf blockSize fuel left pos =
      get (Eiger.lz4hdf5Blocks lz4 buf blockSize fuel left pos) () := by
  have hmax : isizeMax + 2 ^ 32 ≤ u64Max := by decide
  induction fuel generalizing left pos with
  | zero => rfl
  | succ fuel ih =>
    rw [lz4hdf5Blocks, Eiger.lz4hdf5Blocks]
    by_cases hdone : left = 0
    · rw [if_pos hdone, if_pos hdone]
      rfl
    rw [if_neg hdone, if_neg hdone]
    dsimp only
    rw [add_of_le (by omega), ok_bind, get_bind]
    refine Fallible.bind_congr fun len hlen => ?_
    obtain ⟨hfits, hclen⟩ := beNat_slice?_lt (of_get hlen)
    generalize beNat len = clen at hclen ⊢
    have hsum : checkedAdd (pos + 4) clen = some (pos + 4 + clen) := if_pos (by omega)
    rw [hsum, get_some, ok_bind, get_bind]
    refine Fallible.bind_congr fun payload hpayload => ?_
    obtain ⟨hend, -⟩ := beNat_slice?_lt (of_get hpayload)
    rw [get_bind]
    have hchoice : (if clen = min blockSize left then .ok payload
        else get (((lz4.decompress payload (min blockSize left)).toOption).filter fun block =>
          block.length = min blockSize left) () : Outcome Unit (List UInt8)) =
        get (if clen = min blockSize left then some payload
          else ((lz4.decompress payload (min blockSize left)).toOption).filter fun block =>
            block.length = min blockSize left) () := by
      split
      · rfl
      · rfl
    rw [hchoice]
    refine Fallible.bind_congr fun block _ => ?_
    rw [add_of_le (by omega), ok_bind, get_map, ← ih hend]

/-- Every block has its size, so together they fill the output. -/
theorem length_lz4hdf5Blocks {blockSize fuel left pos : Nat} (hsize : 0 < blockSize)
    (hfuel : left ≤ fuel) {pixels : List UInt8}
    (h : Eiger.lz4hdf5Blocks lz4 buf blockSize fuel left pos = some pixels) :
    pixels.length = left := by
  induction fuel generalizing left pos pixels with
  | zero =>
    cases h
    exact (Nat.le_zero.1 hfuel).symm
  | succ fuel ih =>
    rw [Eiger.lz4hdf5Blocks] at h
    by_cases hdone : left = 0
    · rw [if_pos hdone] at h
      cases h
      exact hdone.symm
    rw [if_neg hdone] at h
    obtain ⟨len, -, h⟩ := Option.bind_eq_some_iff.1 h
    obtain ⟨payload, hpayload, h⟩ := Option.bind_eq_some_iff.1 h
    obtain ⟨block, hblock, h⟩ := Option.bind_eq_some_iff.1 h
    obtain ⟨rest, hrest, rfl⟩ := Option.map_eq_some_iff.1 h
    have hn : block.length = min blockSize left := by
      by_cases hraw : beNat len = min blockSize left
      · rw [if_pos hraw] at hblock
        cases hblock
        unfold slice? at hpayload
        split at hpayload
        · cases hpayload
          rw [List.length_take, List.length_drop]
          omega
        · cases hpayload
      · rw [if_neg hraw] at hblock
        exact of_decide_eq_true (Option.filter_eq_some_iff.1 hblock).2
    have hleft := ih (by omega) hrest
    rw [List.length_append, hn, hleft]
    omega

theorem decompressLz4hdf5_eq (hbuf : buf.length ≤ isizeMax) :
    decompressLz4hdf5 checks lz4 buf out = get (Eiger.decompressLz4hdf5 lz4 buf out) () := by
  rw [decompressLz4hdf5, Eiger.decompressLz4hdf5, get_bind]
  refine Fallible.bind_congr fun total _ => ?_
  rw [get_bind]
  refine Fallible.bind_congr fun size hsize => ?_
  obtain ⟨hfits, -⟩ := beNat_slice?_lt (of_get hsize)
  split
  · rfl
  · exact lz4hdf5Blocks_eq hbuf (by omega)

theorem length_decompressLz4hdf5 {pixels : List UInt8}
    (h : Eiger.decompressLz4hdf5 lz4 buf out = some pixels) : pixels.length = out.length := by
  obtain ⟨total, -, h⟩ := Option.bind_eq_some_iff.1 h
  obtain ⟨size, -, h⟩ := Option.bind_eq_some_iff.1 h
  split at h
  · cases h
  · rename_i hsize
    exact length_lz4hdf5Blocks (by omega) (Nat.le_refl _) h

variable (checks lz4) in
/-- The header is in the blob, as the parser checked. -/
theorem uncompress_spec (hbuf : buf.length ≤ isizeMax) (hlen : headerLen ≤ buf.length)
    (hpos : 0 < elemSize) (hout : out.length ≤ isizeMax) (algorithm : String) :
    uncompress checks lz4 buf elemSize algorithm out =
        lift (Eiger.uncompress lz4 buf algorithm elemSize out) ∧
      ∀ pixels, Eiger.uncompress lz4 buf algorithm elemSize out = .ok pixels →
        pixels.length = out.length := by
  rw [uncompress, Eiger.uncompress]
  by_cases hlz4 : algorithm = "lz4"
  · simp only [if_pos hlz4]
    rw [decompressLz4hdf5_eq hbuf]
    cases hpixels : Eiger.decompressLz4hdf5 lz4 buf out with
    | none => exact ⟨rfl, fun _ h => by cases h⟩
    | some filled =>
      refine ⟨rfl, fun pixels h => ?_⟩
      cases h
      exact length_decompressLz4hdf5 hpixels
  · have hrest : (buf.drop headerLen).length ≤ isizeMax := by
      rw [List.length_drop]
      omega
    obtain ⟨heq, hfills⟩ := decodeBlocksInto_spec checks lz4 hrest hpos hout 0
    simp only [if_neg hlz4]
    rw [slice_drop hlen]
    dsimp only [Except.bind]
    rw [heq]
    cases hpixels : Eiger.decodeBlocksInto lz4 (buf.drop headerLen) elemSize out 0 with
    | error e => exact ⟨rfl, fun _ h => by cases h⟩
    | ok filled =>
      refine ⟨rfl, fun pixels h => ?_⟩
      cases h
      exact hfills _ hpixels

end

end Eiger.Checked
