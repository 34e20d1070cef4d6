import EpicsIocs.Eiger.Bitshuffle

/-! # Three ways into one decoder

A bslz4 payload is a 12-byte header (total bytes, block size in bytes), the LZ4-compressed
bitshuffled blocks each behind its length, and the last `n % 8` elements as they are
(`bslz4.rs`).  `decode_blocks_into` is the decoder.  Stream version 1 and the HDF5 filter
give it the block size of the header, stream version 2 gives it 0, the default
(`stream2.rs`).

The first two decode every payload; stream version 2 does exactly where the default cuts
the pixels into the same blocks (`bslz4_paths_agree_iff`). -/

namespace Eiger

open Bytes

/-! ## The decoder -/

/-- The LZ4 library: a block compressor, and a decompressor into that many bytes. -/
structure Lz4 where
  compress : List UInt8 → List UInt8
  decompress : List UInt8 → Nat → Except String (List UInt8)

def headerLen : Nat := 12
def targetBlockSizeB : Nat := 8192
def blockedMult : Nat := 8
def minRecommendBlock : Nat := 128

inductive Bslz4Error where
  | truncated (what : String)
  | sizeMismatch (header expected : Nat)
  | lz4 (text : String)
  | blockSize (n : Nat)
  deriving DecidableEq, Repr

def Bslz4Error.display : Bslz4Error → String
  | truncated what => "bslz4 payload truncated: " ++ what
  | sizeMismatch header expected =>
    "bslz4 header declares " ++ toString header ++ " bytes, frame geometry needs " ++
      toString expected
  | lz4 m => "bslz4 lz4 block: " ++ m
  | blockSize n => "bslz4 block size " ++ toString n ++ " is not a multiple of 8"

def defaultBlockSize (elemSize : Nat) : Nat :=
  let bs := targetBlockSizeB / max elemSize 1
  let bs := bs / blockedMult * blockedMult
  max bs minRecommendBlock

section
variable (lz4 : Lz4) (buf : List UInt8) (elemSize : Nat)

/-- One block into `out`, and the offset behind it.  A slice is far shorter than a `usize`
can say, so the additions do not overflow. -/
def decodeBlock (pos : Nat) (out : List UInt8) : Except Bslz4Error (Nat × List UInt8) :=
  if pos + 4 > buf.length then .error (.truncated "block length")
  else
    let clen := beNat ((buf.drop pos).take 4)
    let start := pos + 4
    if start + clen > buf.length then .error (.truncated "block payload")
    else
      match lz4.decompress ((buf.drop start).take clen) out.length with
      | .error e => .error (.lz4 e)
      | .ok shuffled =>
        if shuffled.length ≠ out.length then .error (.truncated "block decoded short")
        else .ok (start + clen, untransBitElem shuffled out elemSize)

/-- How far the decoder is: the offset in the payload, and the output before and from
there on. -/
structure Cursor where
  pos : Nat
  filled : List UInt8
  stale : List UInt8
  deriving DecidableEq, Repr

/-- The next block of `n` bytes. -/
def Cursor.block (n : Nat) (s : Cursor) : Except Bslz4Error Cursor :=
  match decodeBlock lz4 buf elemSize s.pos (s.stale.take n) with
  | .error e => .error e
  | .ok (pos, block) => .ok ⟨pos, s.filled ++ block, s.stale.drop n⟩

def Cursor.blocks (n : Nat) : Nat → Cursor → Except Bslz4Error Cursor
  | 0, s => .ok s
  | k + 1, s => (s.block lz4 buf elemSize n).bind fun s => s.blocks n k

/-- The elements behind the last block. -/
def Cursor.tail (leftover : Nat) (s : Cursor) : Except Bslz4Error (List UInt8) :=
  if 0 < leftover then
    if s.pos + leftover > buf.length then .error (.truncated "trailing raw elements")
    else .ok (s.filled ++ (buf.drop s.pos).take leftover ++ s.stale.drop leftover)
  else .ok (s.filled ++ s.stale)

/-- `out` stands for the buffer's bytes before and after. -/
def decodeBlocksInto (out : List UInt8) (blockSize : Nat) : Except Bslz4Error (List UInt8) :=
  let blockSize := if blockSize = 0 then defaultBlockSize elemSize else blockSize
  if blockSize % blockedMult ≠ 0 then .error (.blockSize blockSize)
  else
    let nElems := out.length / elemSize
    let last := nElems % blockSize
    let last := last - last % blockedMult
    let leftover := nElems % blockedMult * elemSize
    ((Cursor.blocks lz4 buf elemSize (blockSize * elemSize) (nElems / blockSize) ⟨0, [], out⟩).bind
      fun s => if 0 < last then s.block lz4 buf elemSize (last * elemSize) else .ok s).bind
      fun s => s.tail buf leftover

end

/-- Total bytes, and the block size in elements. -/
def header (buf : List UInt8) (elemSize : Nat) : Except Bslz4Error (Nat × Nat) :=
  if buf.length < headerLen then .error (.truncated "header")
  else .ok (beNat (buf.take 8), beNat ((buf.drop 8).take 4) / elemSize)

/-- The HDF5 filter's chunk. -/
def decodeWithHeader (lz4 : Lz4) (buf : List UInt8) (elemSize : Nat) :
    Except Bslz4Error (List UInt8) :=
  let elemSize := max elemSize 1
  (header buf elemSize).bind fun (totalBytes, blockSize) =>
    decodeBlocksInto lz4 (buf.drop headerLen) elemSize
      (List.replicate (totalBytes - totalBytes % elemSize) 0) blockSize

/-- Stream version 1. -/
def decodeWithHeaderInto (lz4 : Lz4) (buf out : List UInt8) (elemSize : Nat) :
    Except Bslz4Error (List UInt8) :=
  let elemSize := max elemSize 1
  (header buf elemSize).bind fun (totalBytes, blockSize) =>
    if totalBytes ≠ out.length then .error (.sizeMismatch totalBytes out.length)
    else decodeBlocksInto lz4 (buf.drop headerLen) elemSize out blockSize

/-- The blocks of an lz4 payload from `pos` on, `left` bytes in blocks of `blockSize`. -/
def lz4hdf5Blocks (lz4 : Lz4) (buf : List UInt8) (blockSize : Nat) :
    Nat → Nat → Nat → Option (List UInt8)
  | 0, _, _ => some []
  | fuel + 1, left, pos =>
    if left = 0 then some []
    else
      let n := min blockSize left
      (slice? buf pos 4).bind fun len =>
        let clen := beNat len
        (slice? buf (pos + 4) clen).bind fun payload =>
          (if clen = n then some payload
            else ((lz4.decompress payload n).toOption).filter fun block => block.length = n).bind
            fun block => (lz4hdf5Blocks lz4 buf blockSize fuel (left - n) (pos + 4 + clen)).map
              fun rest => block ++ rest

def decompressLz4hdf5 (lz4 : Lz4) (buf out : List UInt8) : Option (List UInt8) :=
  (slice? buf 0 8).bind fun total => (slice? buf 8 4).bind fun size =>
    if beNat size = 0 ∨ beNat total ≠ out.length then none
    else lz4hdf5Blocks lz4 buf (beNat size) out.length out.length 12

/-- A line the driver printed. -/
structure Reported where
  fname : String
  line : String
  deriving DecidableEq, Repr

/-- Stream version 2. -/
def uncompress (lz4 : Lz4) (blob : List UInt8) (algorithm : String) (elemSize : Nat)
    (out : List UInt8) : Except Reported (List UInt8) :=
  if algorithm = "lz4" then
    match decompressLz4hdf5 lz4 blob out with
    | none => .error ⟨"uncompress", "decompress_lz4hdf5 failed, result=0\n"⟩
    | some out => .ok out
  else
    match decodeBlocksInto lz4 (blob.drop headerLen) elemSize out 0 with
    | .error e => .error ⟨"uncompress", "bshuf_decompress_lz4 failed, result=" ++ e.display⟩
    | .ok out => .ok out

/-! ## The encoder -/

section
variable (lz4 : Lz4) (elemSize : Nat)

def frame (block : List UInt8) : List UInt8 :=
  beBytes 4 (lz4.compress (bitshuffle elemSize block)).length ++
    lz4.compress (bitshuffle elemSize block)

/-- `k` blocks of `n` bytes. -/
def frames (n : Nat) : Nat → List UInt8 → List UInt8
  | 0, _ => []
  | k + 1, pixels => frame lz4 elemSize (pixels.take n) ++ frames n k (pixels.drop n)

/-- The blocks of that many elements, one shorter block, and the raw tail. -/
def encodeBlocks (blockSize : Nat) (pixels : List UInt8) : List UInt8 :=
  let nElems := pixels.length / elemSize
  let last := nElems % blockSize - nElems % blockSize % 8
  let full := nElems / blockSize * (blockSize * elemSize)
  frames lz4 elemSize (blockSize * elemSize) (nElems / blockSize) pixels ++
    ((if 0 < last then frame lz4 elemSize ((pixels.drop full).take (last * elemSize)) else []) ++
      pixels.drop (full + last * elemSize))

def encode (blockSize : Nat) (pixels : List UInt8) : List UInt8 :=
  beBytes 8 pixels.length ++ (beBytes 4 (blockSize * elemSize) ++
    encodeBlocks lz4 elemSize blockSize pixels)

end

/-- The decompressor gives back what was compressed, and nothing else. -/
structure Lz4.Lawful (lz4 : Lz4) : Prop where
  decompress_compress (x : List UInt8) : lz4.decompress (lz4.compress x) x.length = .ok x
  decompress_eq (x : List UInt8) (n : Nat) (y : List UInt8) :
    lz4.decompress (lz4.compress x) n = .ok y → y = x

/-! ## One block -/

section
variable {lz4 : Lz4} {buf rest x out : List UInt8} {elemSize pos : Nat}

/-- The decoder finds the compressed block. -/
theorem decodeBlock_of_frame (hbuf : buf.drop pos = frame lz4 elemSize x ++ rest)
    (hfit : (lz4.compress (bitshuffle elemSize x)).length < 2 ^ 32) :
    decodeBlock lz4 buf elemSize pos out =
      match lz4.decompress (lz4.compress (bitshuffle elemSize x)) out.length with
      | .error e => .error (.lz4 e)
      | .ok shuffled =>
        if shuffled.length ≠ out.length then .error (.truncated "block decoded short")
        else .ok (pos + (frame lz4 elemSize x).length, untransBitElem shuffled out elemSize) := by
  generalize hz : lz4.compress (bitshuffle elemSize x) = z at hfit
  have hframe : frame lz4 elemSize x = beBytes 4 z.length ++ z := by rw [frame, hz]
  have hlen : buf.length - pos = 4 + z.length + rest.length := by
    rw [← List.length_drop, hbuf, hframe, List.length_append, List.length_append, length_beBytes]
  rw [hframe, List.append_assoc] at hbuf
  have hclen : beNat ((buf.drop pos).take 4) = z.length := by
    rw [hbuf, List.take_left' (length_beBytes 4 _)]
    exact beNat_beBytes_of_lt (by omega)
  have hpayload : (buf.drop (pos + 4)).take z.length = z := by
    rw [← List.drop_drop, hbuf, List.drop_left' (length_beBytes 4 _), List.take_left]
  have hhead : ¬ pos + 4 > buf.length := by omega
  have hend : pos + 4 + z.length = pos + (frame lz4 elemSize x).length := by
    rw [hframe, List.length_append, length_beBytes]
    omega
  have hbody : ¬ pos + (frame lz4 elemSize x).length > buf.length := by omega
  simp only [decodeBlock, if_neg hhead, hclen, hpayload, hend, if_neg hbody]

theorem drop_frame (hbuf : buf.drop pos = frame lz4 elemSize x ++ rest) :
    buf.drop (pos + (frame lz4 elemSize x).length) = rest := by
  rw [← List.drop_drop, hbuf, List.drop_left]

/-- A block of the expected size decodes. -/
theorem decodeBlock_frame (hlz4 : lz4.Lawful)
    (hbuf : buf.drop pos = frame lz4 elemSize x ++ rest)
    (hfit : (lz4.compress (bitshuffle elemSize x)).length < 2 ^ 32) (hpos : 0 < elemSize)
    {rows : Nat} (hx : x.length = 8 * rows * elemSize) (hout : out.length = x.length) :
    decodeBlock lz4 buf elemSize pos out = .ok (pos + (frame lz4 elemSize x).length, x) := by
  have hdecompress := hlz4.decompress_compress (bitshuffle elemSize x)
  rw [length_bitshuffle, ← hout] at hdecompress
  have hsame : ¬ (bitshuffle elemSize x).length ≠ out.length := by
    rw [length_bitshuffle, hout]
    exact not_not.2 rfl
  rw [decodeBlock_of_frame hbuf hfit, hdecompress]
  simp only [if_neg hsame, untransBitElem_bitshuffle hpos hx hout]

/-- A block of another size does not. -/
theorem decodeBlock_size (hlz4 : lz4.Lawful)
    (hbuf : buf.drop pos = frame lz4 elemSize x ++ rest)
    (hfit : (lz4.compress (bitshuffle elemSize x)).length < 2 ^ 32)
    (hout : out.length ≠ x.length) : ∃ e, decodeBlock lz4 buf elemSize pos out = .error e := by
  rw [decodeBlock_of_frame hbuf hfit]
  cases hdecompress : lz4.decompress (lz4.compress (bitshuffle elemSize x)) out.length with
  | error e => exact ⟨_, rfl⟩
  | ok shuffled =>
    have hlen : shuffled.length ≠ out.length := by
      rw [hlz4.decompress_eq _ _ _ hdecompress, length_bitshuffle]
      exact hout.symm
    exact ⟨_, if_pos hlen⟩

/-! ## All blocks -/

theorem Cursor.block_frame (hlz4 : lz4.Lawful) {s : Cursor}
    (hbuf : buf.drop s.pos = frame lz4 elemSize x ++ rest)
    (hfit : (lz4.compress (bitshuffle elemSize x)).length < 2 ^ 32) (hpos : 0 < elemSize)
    {rows : Nat} (hx : x.length = 8 * rows * elemSize) (hstale : x.length ≤ s.stale.length) :
    s.block lz4 buf elemSize x.length =
      .ok ⟨s.pos + (frame lz4 elemSize x).length, s.filled ++ x, s.stale.drop x.length⟩ := by
  have hout : (s.stale.take x.length).length = x.length := List.length_take_of_le hstale
  rw [Cursor.block, decodeBlock_frame hlz4 hbuf hfit hpos hx hout]

theorem Cursor.blocks_frames (hlz4 : lz4.Lawful) {n k : Nat} {pixels : List UInt8} {s : Cursor}
    (hbuf : buf.drop s.pos = frames lz4 elemSize n k pixels ++ rest)
    (hfit : ∀ x : List UInt8, x.length ≤ pixels.length →
      (lz4.compress (bitshuffle elemSize x)).length < 2 ^ 32)
    (hpos : 0 < elemSize) {rows : Nat} (hn : n = 8 * rows * elemSize)
    (hpixels : k * n ≤ pixels.length) (hstale : k * n ≤ s.stale.length) :
    ∃ pos, s.blocks lz4 buf elemSize n k =
        .ok ⟨pos, s.filled ++ pixels.take (k * n), s.stale.drop (k * n)⟩ ∧ buf.drop pos = rest := by
  induction k generalizing s pixels with
  | zero =>
    refine ⟨s.pos, ?_, hbuf⟩
    rw [Cursor.blocks, Nat.zero_mul, List.take_zero, List.append_nil, List.drop_zero]
  | succ k ih =>
    have hstep : (k + 1) * n = n + k * n := by rw [Nat.succ_mul, Nat.add_comm]
    have hx : (pixels.take n).length = n := List.length_take_of_le (by omega)
    rw [frames, List.append_assoc] at hbuf
    have hblock := Cursor.block_frame hlz4 hbuf (hfit _ (List.length_take_le' n pixels)) hpos
      (hx.trans hn) (hx.trans_le (by omega))
    rw [hx] at hblock
    let next : Cursor := ⟨s.pos + (frame lz4 elemSize (pixels.take n)).length,
      s.filled ++ pixels.take n, s.stale.drop n⟩
    have hnext : buf.drop next.pos = frames lz4 elemSize n k (pixels.drop n) ++ rest :=
      drop_frame hbuf
    have hshort : (pixels.drop n).length ≤ pixels.length := by simp
    have hleft : k * n ≤ (pixels.drop n).length := by
      rw [List.length_drop]
      omega
    have hroom : k * n ≤ next.stale.length := by
      show k * n ≤ (s.stale.drop n).length
      rw [List.length_drop]
      omega
    obtain ⟨pos, hblocks, hrest⟩ :=
      ih hnext (fun x hlen => hfit x (hlen.trans hshort)) hleft hroom
    refine ⟨pos, ?_, hrest⟩
    rw [Cursor.blocks, hblock]
    show Cursor.blocks lz4 buf elemSize n k next = _
    rw [hblocks, hstep, List.take_add, ← List.append_assoc, ← List.drop_drop]

theorem Cursor.tail_raw {s : Cursor} {raw : List UInt8} {leftover : Nat}
    (hbuf : buf.drop s.pos = raw) (hraw : raw.length = leftover)
    (hstale : s.stale.length = leftover) : s.tail buf leftover = .ok (s.filled ++ raw) := by
  by_cases hzero : 0 < leftover
  · have hlen : buf.length - s.pos = leftover := by rw [← List.length_drop, hbuf, hraw]
    have hroom : ¬ s.pos + leftover > buf.length := by omega
    rw [Cursor.tail, if_pos hzero, if_neg hroom, hbuf, ← hraw, List.take_length, hraw, ← hstale,
      List.drop_length, List.append_nil]
  · have hnil : leftover = 0 := Nat.eq_zero_of_not_pos hzero
    rw [hnil] at hraw hstale
    rw [Cursor.tail, if_neg hzero, List.eq_nil_of_length_eq_zero hraw,
      List.eq_nil_of_length_eq_zero hstale]

/-- The elements of the full blocks, of the short one and of the tail. -/
theorem elements_eq (nElems : Nat) {blockSize : Nat} (h8 : blockSize % 8 = 0) :
    nElems / blockSize * blockSize + (nElems % blockSize - nElems % blockSize % 8) + nElems % 8 =
      nElems := by
  have hmod : nElems % blockSize % 8 = nElems % 8 :=
    Nat.mod_mod_of_dvd _ (Nat.dvd_of_mod_eq_zero h8)
  have hle := Nat.mod_le (nElems % blockSize) 8
  have hdiv := Nat.div_add_mod' nElems blockSize
  omega

theorem decodeBlocksInto_zero (lz4 : Lz4) (buf : List UInt8) (elemSize : Nat) (out : List UInt8) :
    decodeBlocksInto lz4 buf elemSize out 0 =
      decodeBlocksInto lz4 buf elemSize out (defaultBlockSize elemSize) := by
  have hdefault : defaultBlockSize elemSize ≠ 0 := by
    have hle : minRecommendBlock ≤ defaultBlockSize elemSize := Nat.le_max_right _ _
    rw [minRecommendBlock] at hle
    omega
  simp only [decodeBlocksInto, if_true, if_neg hdefault]

/-- The short block, if there is one. -/
theorem Cursor.short_frame (hlz4 : lz4.Lawful) {s : Cursor} {last : Nat} {pixels : List UInt8}
    (hbuf : buf.drop s.pos =
      (if 0 < last then frame lz4 elemSize (pixels.take (last * elemSize)) else []) ++ rest)
    (hfit : ∀ x : List UInt8, x.length ≤ pixels.length →
      (lz4.compress (bitshuffle elemSize x)).length < 2 ^ 32)
    (hpos : 0 < elemSize) (hlast : last % 8 = 0) (hpixels : last * elemSize ≤ pixels.length)
    (hstale : last * elemSize ≤ s.stale.length) :
    ∃ pos, (if 0 < last then s.block lz4 buf elemSize (last * elemSize) else .ok s) =
        .ok ⟨pos, s.filled ++ pixels.take (last * elemSize), s.stale.drop (last * elemSize)⟩ ∧
      buf.drop pos = rest := by
  by_cases hany : 0 < last
  · have hshort : (pixels.take (last * elemSize)).length = last * elemSize :=
      List.length_take_of_le hpixels
    have hrows : (pixels.take (last * elemSize)).length = 8 * (last / 8) * elemSize := by
      rw [hshort, Nat.mul_div_cancel' (Nat.dvd_of_mod_eq_zero hlast)]
    rw [if_pos hany] at hbuf ⊢
    have hblock := Cursor.block_frame hlz4 hbuf (hfit _ (List.length_take_le' _ _)) hpos hrows
      (hshort.trans_le hstale)
    rw [hshort] at hblock
    exact ⟨_, hblock, drop_frame hbuf⟩
  · have hnone : last = 0 := Nat.eq_zero_of_not_pos hany
    rw [if_neg hany] at hbuf ⊢
    refine ⟨s.pos, ?_, hbuf⟩
    rw [hnone, Nat.zero_mul, List.take_zero, List.append_nil, List.drop_zero]

/-- Full blocks, the short one and the tail. -/
theorem Cursor.sections (hlz4 : lz4.Lawful) {n full last leftover : Nat} {pixels : List UInt8}
    (hpos : 0 < elemSize) {rows : Nat} (hn : n = 8 * rows * elemSize) (hlast : last % 8 = 0)
    (hpixels : pixels.length = full * n + last * elemSize + leftover)
    (hout : out.length = pixels.length)
    (hfit : ∀ x : List UInt8, x.length ≤ pixels.length →
      (lz4.compress (bitshuffle elemSize x)).length < 2 ^ 32)
    (hbuf : buf = frames lz4 elemSize n full pixels ++
      ((if 0 < last then frame lz4 elemSize ((pixels.drop (full * n)).take (last * elemSize))
        else []) ++ pixels.drop (full * n + last * elemSize))) :
    ((Cursor.blocks lz4 buf elemSize n full ⟨0, [], out⟩).bind
      fun s => if 0 < last then s.block lz4 buf elemSize (last * elemSize) else .ok s).bind
      (fun s => s.tail buf leftover) = .ok pixels := by
  have hstart : buf.drop (Cursor.mk 0 [] out).pos = _ := hbuf
  obtain ⟨pos, hblocks, hrest⟩ := Cursor.blocks_frames hlz4 hstart hfit hpos hn (by omega)
    (show full * n ≤ out.length by omega)
  let middle : Cursor := ⟨pos, [] ++ pixels.take (full * n), out.drop (full * n)⟩
  have hleft : (pixels.drop (full * n)).length = last * elemSize + leftover := by
    rw [List.length_drop]
    omega
  have hroom : last * elemSize ≤ middle.stale.length := by
    show last * elemSize ≤ (out.drop (full * n)).length
    rw [List.length_drop]
    omega
  obtain ⟨pos', hshort, hraw⟩ := Cursor.short_frame (s := middle) hlz4 hrest
    (fun x hx => hfit x (hx.trans (by rw [List.length_drop]; omega))) hpos hlast (by omega) hroom
  have hfilled : middle.filled ++ (pixels.drop (full * n)).take (last * elemSize) =
      pixels.take (full * n + last * elemSize) := List.take_add.symm
  have hstale : (middle.stale.drop (last * elemSize)).length = leftover := by
    show ((out.drop (full * n)).drop (last * elemSize)).length = leftover
    rw [List.length_drop, List.length_drop]
    omega
  have htail := Cursor.tail_raw (s := ⟨pos', pixels.take (full * n + last * elemSize),
    middle.stale.drop (last * elemSize)⟩) hraw (by rw [List.length_drop]; omega) hstale
  rw [List.take_append_drop] at htail
  rw [hblocks]
  show Except.bind (if 0 < last then Cursor.block lz4 buf elemSize (last * elemSize) middle
    else .ok middle) (fun s => s.tail buf leftover) = _
  rw [hshort, hfilled]
  exact htail

/-- **Round trip** of the blocks, when both sides know their size. -/
theorem decodeBlocksInto_encodeBlocks (hlz4 : lz4.Lawful) {blockSize nElems : Nat}
    {pixels : List UInt8} (hpos : 0 < elemSize) (hblock : 0 < blockSize) (h8 : blockSize % 8 = 0)
    (hpixels : pixels.length = nElems * elemSize) (hout : out.length = pixels.length)
    (hfit : ∀ x : List UInt8, x.length ≤ pixels.length →
      (lz4.compress (bitshuffle elemSize x)).length < 2 ^ 32) :
    decodeBlocksInto lz4 (encodeBlocks lz4 elemSize blockSize pixels) elemSize out blockSize =
      .ok pixels := by
  have hcount : pixels.length / elemSize = nElems := by
    rw [hpixels, Nat.mul_div_cancel _ hpos]
  have hcountOut : out.length / elemSize = nElems := by rw [hout, hcount]
  have hnonzero : blockSize ≠ 0 := Nat.ne_of_gt hblock
  have hgrid : ¬ blockSize % blockedMult ≠ 0 := not_not.2 h8
  have helements := elements_eq nElems h8
  have hlast : (nElems % blockSize - nElems % blockSize % 8) % 8 = 0 := by omega
  have hrows : blockSize * elemSize = 8 * (blockSize / 8) * elemSize := by
    rw [Nat.mul_div_cancel' (Nat.dvd_of_mod_eq_zero h8)]
  have hbytes : pixels.length = nElems / blockSize * (blockSize * elemSize) +
      (nElems % blockSize - nElems % blockSize % 8) * elemSize + nElems % 8 * elemSize := by
    rw [← Nat.mul_assoc, ← Nat.add_mul, ← Nat.add_mul, helements, hpixels]
  have hsections := Cursor.sections hlz4 hpos hrows hlast hbytes hout hfit
    (show encodeBlocks lz4 elemSize blockSize pixels = _ by rw [encodeBlocks, hcount])
  simp only [decodeBlocksInto, if_neg hnonzero, if_neg hgrid, hcountOut]
  exact hsections

/-! ## Another block size -/

theorem defaultBlockSize_mod (elemSize : Nat) : defaultBlockSize elemSize % 8 = 0 := by
  have hmul : targetBlockSizeB / max elemSize 1 / blockedMult * blockedMult % 8 = 0 :=
    Nat.mul_mod_left _ _
  rw [defaultBlockSize, minRecommendBlock]
  omega

theorem defaultBlockSize_pos (elemSize : Nat) : 0 < defaultBlockSize elemSize :=
  Nat.lt_of_lt_of_le (by decide) (Nat.le_max_right _ minRecommendBlock)

/-- All elements but the tail in one block. -/
theorem encodeBlocks_one {blockSize nElems : Nat} {pixels : List UInt8} (hpos : 0 < elemSize)
    (hblock : 0 < blockSize) (h8 : blockSize % 8 = 0)
    (hpixels : pixels.length = nElems * elemSize) (hone : nElems / 8 * 8 ≤ blockSize) :
    encodeBlocks lz4 elemSize blockSize pixels =
      (if 0 < nElems / 8 * 8 then frame lz4 elemSize (pixels.take (nElems / 8 * 8 * elemSize))
        else []) ++ pixels.drop (nElems / 8 * 8 * elemSize) := by
  have hcount : pixels.length / elemSize = nElems := by
    rw [hpixels, Nat.mul_div_cancel _ hpos]
  by_cases hlt : nElems < blockSize
  · have hlast : nElems % blockSize - nElems % blockSize % 8 = nElems / 8 * 8 := by
      rw [Nat.mod_eq_of_lt hlt]
      omega
    simp only [encodeBlocks, hcount, Nat.div_eq_of_lt hlt, hlast, frames, Nat.zero_mul,
      List.drop_zero, List.nil_append, Nat.zero_add]
  · -- The block is full, and the elements behind it are the tail.
    have hsize : nElems / 8 * 8 = blockSize := by omega
    have hdiv : nElems / blockSize = 1 := by
      rw [Nat.div_eq_iff hblock]
      omega
    have hlast : nElems % blockSize - nElems % blockSize % 8 = 0 := by
      have hmod : nElems % blockSize = nElems - blockSize := by
        rw [Nat.mod_eq_sub_mod (Nat.not_lt.1 hlt), Nat.mod_eq_of_lt (by omega)]
      omega
    simp only [encodeBlocks, hcount, hdiv, hlast, frames, Nat.one_mul, Nat.zero_mul, Nat.add_zero,
      List.append_nil, Nat.lt_irrefl, if_false, List.nil_append, hsize, hblock, if_true]

/-- The first block has the block size, or all elements. -/
theorem encodeBlocks_first {blockSize nElems : Nat} {pixels : List UInt8} (hpos : 0 < elemSize)
    (hblock : 0 < blockSize) (h8 : blockSize % 8 = 0)
    (hpixels : pixels.length = nElems * elemSize) (hany : 0 < nElems / 8 * 8) :
    ∃ rest, encodeBlocks lz4 elemSize blockSize pixels =
      frame lz4 elemSize (pixels.take (min blockSize (nElems / 8 * 8) * elemSize)) ++ rest := by
  by_cases hone : nElems / 8 * 8 ≤ blockSize
  · rw [Nat.min_eq_right hone, encodeBlocks_one hpos hblock h8 hpixels hone, if_pos hany]
    exact ⟨_, rfl⟩
  · have hmore : blockSize < nElems / 8 * 8 := Nat.not_le.1 hone
    have hcount : pixels.length / elemSize = nElems := by
      rw [hpixels, Nat.mul_div_cancel _ hpos]
    obtain ⟨full, hfull⟩ : ∃ full, nElems / blockSize = full + 1 :=
      Nat.exists_eq_succ_of_ne_zero (Nat.ne_of_gt (Nat.div_pos (by omega) hblock))
    rw [Nat.min_eq_left (Nat.le_of_lt hmore)]
    simp only [encodeBlocks, hcount, hfull, frames, List.append_assoc]
    exact ⟨_, rfl⟩

/-- A first block that does not decode fails them all. -/
theorem decodeBlocksInto_first {blockSize nElems : Nat} {e : Bslz4Error} (hpos : 0 < elemSize)
    (hblock : 0 < blockSize) (h8 : blockSize % 8 = 0) (hout : out.length = nElems * elemSize)
    (hany : 0 < nElems / 8 * 8)
    (h : decodeBlock lz4 buf elemSize 0 (out.take (min blockSize (nElems / 8 * 8) * elemSize)) =
      .error e) : decodeBlocksInto lz4 buf elemSize out blockSize = .error e := by
  have hcount : out.length / elemSize = nElems := by rw [hout, Nat.mul_div_cancel _ hpos]
  have hnonzero : blockSize ≠ 0 := Nat.ne_of_gt hblock
  have hgrid : ¬ blockSize % blockedMult ≠ 0 := not_not.2 h8
  by_cases hlt : nElems < blockSize
  · have hmin : min blockSize (nElems / 8 * 8) = nElems / 8 * 8 := Nat.min_eq_right (by omega)
    have hlast : nElems % blockSize - nElems % blockSize % blockedMult = nElems / 8 * 8 := by
      rw [Nat.mod_eq_of_lt hlt, blockedMult]
      omega
    rw [hmin] at h
    simp only [decodeBlocksInto, if_neg hnonzero, if_neg hgrid, hcount, Nat.div_eq_of_lt hlt, hlast,
      Cursor.blocks, Except.bind, if_pos hany, Cursor.block, h]
  · have hmin : min blockSize (nElems / 8 * 8) = blockSize := Nat.min_eq_left (by omega)
    obtain ⟨full, hfull⟩ : ∃ full, nElems / blockSize = full + 1 :=
      Nat.exists_eq_succ_of_ne_zero (Nat.ne_of_gt (Nat.div_pos (Nat.not_lt.1 hlt) hblock))
    rw [hmin] at h
    simp only [decodeBlocksInto, if_neg hnonzero, if_neg hgrid, hcount, hfull, Cursor.blocks,
      Cursor.block, h, Except.bind]

end

/-! ## The three paths -/

section
variable {lz4 : Lz4} {elemSize blockSize nElems : Nat} {pixels out : List UInt8}

theorem drop_encode (lz4 : Lz4) (elemSize blockSize : Nat) (pixels : List UInt8) :
    (encode lz4 elemSize blockSize pixels).drop headerLen =
      encodeBlocks lz4 elemSize blockSize pixels := by
  rw [encode, ← List.append_assoc]
  exact List.drop_left' (by simp [headerLen])

theorem header_encode (hpos : 0 < elemSize) (htotal : pixels.length < 2 ^ 64)
    (hsize : blockSize * elemSize < 2 ^ 32) :
    header (encode lz4 elemSize blockSize pixels) elemSize = .ok (pixels.length, blockSize) := by
  have hlen : ¬ (encode lz4 elemSize blockSize pixels).length < headerLen := by
    rw [encode, ← List.append_assoc, List.length_append, List.length_append, length_beBytes,
      length_beBytes, headerLen]
    omega
  have htake : (encode lz4 elemSize blockSize pixels).take 8 = beBytes 8 pixels.length :=
    List.take_left' (length_beBytes 8 _)
  have hdrop : ((encode lz4 elemSize blockSize pixels).drop 8).take 4 =
      beBytes 4 (blockSize * elemSize) := by
    rw [encode, List.drop_left' (length_beBytes 8 _)]
    exact List.take_left' (length_beBytes 4 _)
  rw [header, if_neg hlen, htake, hdrop, beNat_beBytes_of_lt (by omega),
    beNat_beBytes_of_lt (by omega), Nat.mul_div_cancel _ hpos]

/-- The pixels and the payload a detector can make of them. -/
structure Payload (lz4 : Lz4) (elemSize blockSize : Nat) (pixels : List UInt8) : Prop where
  elemSize_pos : 0 < elemSize
  blockSize_pos : 0 < blockSize
  blockSize_mod : blockSize % 8 = 0
  whole : pixels.length % elemSize = 0
  total_fits : pixels.length < 2 ^ 64
  blockSize_fits : blockSize * elemSize < 2 ^ 32
  block_fits : ∀ x : List UInt8, x.length ≤ pixels.length →
    (lz4.compress (bitshuffle elemSize x)).length < 2 ^ 32

theorem decodeWithHeader_encode (hlz4 : lz4.Lawful) (h : Payload lz4 elemSize blockSize pixels) :
    decodeWithHeader lz4 (encode lz4 elemSize blockSize pixels) elemSize = .ok pixels := by
  have hmax : max elemSize 1 = elemSize := Nat.max_eq_left h.elemSize_pos
  have hpixels : pixels.length = pixels.length / elemSize * elemSize :=
    (Nat.div_mul_cancel (Nat.dvd_of_mod_eq_zero h.whole)).symm
  have hout : (List.replicate (pixels.length - pixels.length % elemSize) (0 : UInt8)).length =
      pixels.length := by
    rw [List.length_replicate, h.whole, Nat.sub_zero]
  simp only [decodeWithHeader, hmax, drop_encode,
    header_encode h.elemSize_pos h.total_fits h.blockSize_fits]
  exact decodeBlocksInto_encodeBlocks hlz4 h.elemSize_pos h.blockSize_pos h.blockSize_mod hpixels
    hout h.block_fits

theorem decodeWithHeaderInto_encode (hlz4 : lz4.Lawful)
    (h : Payload lz4 elemSize blockSize pixels) (hout : out.length = pixels.length) :
    decodeWithHeaderInto lz4 (encode lz4 elemSize blockSize pixels) out elemSize = .ok pixels := by
  have hmax : max elemSize 1 = elemSize := Nat.max_eq_left h.elemSize_pos
  have hpixels : pixels.length = pixels.length / elemSize * elemSize :=
    (Nat.div_mul_cancel (Nat.dvd_of_mod_eq_zero h.whole)).symm
  have hsame : ¬ pixels.length ≠ out.length := not_not.2 hout.symm
  simp only [decodeWithHeaderInto, hmax, drop_encode,
    header_encode h.elemSize_pos h.total_fits h.blockSize_fits]
  show (if pixels.length ≠ out.length then _ else _) = _
  rw [if_neg hsame]
  exact decodeBlocksInto_encodeBlocks hlz4 h.elemSize_pos h.blockSize_pos h.blockSize_mod hpixels
    hout h.block_fits

/-- The default cuts the pixels into the same blocks. -/
def SameBlocks (elemSize blockSize : Nat) (pixels : List UInt8) : Prop :=
  let whole := pixels.length / elemSize / 8 * 8
  min blockSize whole = min (defaultBlockSize elemSize) whole

instance (elemSize blockSize : Nat) (pixels : List UInt8) :
    Decidable (SameBlocks elemSize blockSize pixels) :=
  inferInstanceAs (Decidable (_ = _))

theorem decode_of_sameBlocks (hlz4 : lz4.Lawful) (h : Payload lz4 elemSize blockSize pixels)
    (hout : out.length = pixels.length) (hsame : SameBlocks elemSize blockSize pixels) :
    decodeBlocksInto lz4 (encodeBlocks lz4 elemSize blockSize pixels) elemSize out 0 =
      .ok pixels := by
  have hpixels : pixels.length = pixels.length / elemSize * elemSize :=
    (Nat.div_mul_cancel (Nat.dvd_of_mod_eq_zero h.whole)).symm
  have hencode : encodeBlocks lz4 elemSize blockSize pixels =
      encodeBlocks lz4 elemSize (defaultBlockSize elemSize) pixels := by
    by_cases heq : blockSize = defaultBlockSize elemSize
    · rw [heq]
    · have hsame : min blockSize (pixels.length / elemSize / 8 * 8) =
          min (defaultBlockSize elemSize) (pixels.length / elemSize / 8 * 8) := hsame
      rw [encodeBlocks_one h.elemSize_pos h.blockSize_pos h.blockSize_mod hpixels (by omega),
        encodeBlocks_one h.elemSize_pos (defaultBlockSize_pos _) (defaultBlockSize_mod _) hpixels
          (by omega)]
  rw [decodeBlocksInto_zero, hencode]
  exact decodeBlocksInto_encodeBlocks hlz4 h.elemSize_pos (defaultBlockSize_pos _)
    (defaultBlockSize_mod _) hpixels hout h.block_fits

theorem decode_of_otherBlocks (hlz4 : lz4.Lawful) (h : Payload lz4 elemSize blockSize pixels)
    (hout : out.length = pixels.length) (hother : ¬ SameBlocks elemSize blockSize pixels) :
    ∃ e, decodeBlocksInto lz4 (encodeBlocks lz4 elemSize blockSize pixels) elemSize out 0 =
      .error e := by
  have hpixels : pixels.length = pixels.length / elemSize * elemSize :=
    (Nat.div_mul_cancel (Nat.dvd_of_mod_eq_zero h.whole)).symm
  have hother : min blockSize (pixels.length / elemSize / 8 * 8) ≠
      min (defaultBlockSize elemSize) (pixels.length / elemSize / 8 * 8) := hother
  have hany : 0 < pixels.length / elemSize / 8 * 8 := by omega
  obtain ⟨rest, hfirst⟩ : ∃ rest, encodeBlocks lz4 elemSize blockSize pixels = _ :=
    encodeBlocks_first h.elemSize_pos h.blockSize_pos h.blockSize_mod hpixels hany
  -- Both sizes are within the pixels, so the two first blocks differ in length.
  have htake : ∀ size, (min size (pixels.length / elemSize / 8 * 8)) * elemSize ≤ pixels.length := by
    intro size
    calc min size (pixels.length / elemSize / 8 * 8) * elemSize
        ≤ pixels.length / elemSize * elemSize := Nat.mul_le_mul_right _ (by omega)
      _ = pixels.length := hpixels.symm
  have hlength : (out.take (min (defaultBlockSize elemSize) (pixels.length / elemSize / 8 * 8) *
      elemSize)).length ≠
      (pixels.take (min blockSize (pixels.length / elemSize / 8 * 8) * elemSize)).length := by
    rw [List.length_take_of_le ((htake _).trans_eq hout.symm), List.length_take_of_le (htake _)]
    exact fun heq => hother (Nat.eq_of_mul_eq_mul_right h.elemSize_pos heq).symm
  obtain ⟨e, he⟩ := decodeBlock_size hlz4
    (show (encodeBlocks lz4 elemSize blockSize pixels).drop 0 = _ from hfirst)
    (h.block_fits _ (List.length_take_le' _ _)) hlength
  rw [decodeBlocksInto_zero]
  exact ⟨e, decodeBlocksInto_first h.elemSize_pos (defaultBlockSize_pos _) (defaultBlockSize_mod _)
    (hout.trans hpixels) hany he⟩

theorem uncompress_bslz4 (lz4 : Lz4) (blob : List UInt8) (elemSize : Nat) (out : List UInt8) :
    uncompress lz4 blob "bslz4" elemSize out =
      match decodeBlocksInto lz4 (blob.drop headerLen) elemSize out 0 with
      | .error e => .error ⟨"uncompress", "bshuf_decompress_lz4 failed, result=" ++ e.display⟩
      | .ok out => .ok out :=
  if_neg (by decide)

/-- **The paths agree** exactly if the default cuts the pixels into the blocks of the payload. -/
theorem bslz4_paths_agree_iff (hlz4 : lz4.Lawful) (h : Payload lz4 elemSize blockSize pixels)
    (hout : out.length = pixels.length) :
    (decodeWithHeaderInto lz4 (encode lz4 elemSize blockSize pixels) out elemSize = .ok pixels ∧
      uncompress lz4 (encode lz4 elemSize blockSize pixels) "bslz4" elemSize out = .ok pixels ∧
      decodeWithHeader lz4 (encode lz4 elemSize blockSize pixels) elemSize = .ok pixels) ↔
      SameBlocks elemSize blockSize pixels := by
  constructor
  · rintro ⟨-, huncompress, -⟩
    by_contra hother
    obtain ⟨e, he⟩ := decode_of_otherBlocks hlz4 h hout hother
    rw [uncompress_bslz4, drop_encode, he] at huncompress
    cases huncompress
  · intro hsame
    refine ⟨decodeWithHeaderInto_encode hlz4 h hout, ?_, decodeWithHeader_encode hlz4 h⟩
    rw [uncompress_bslz4, drop_encode, decode_of_sameBlocks hlz4 h hout hsame]

end

/-! ## A payload of literals -/

/-- The bytes behind a token that says 15. -/
def lengthBytes (n : Nat) : List UInt8 := List.replicate (n / 255) 255 ++ [UInt8.ofNat (n % 255)]

/-- An LZ4 block of one run of literals. -/
def literals (x : List UInt8) : List UInt8 :=
  if x.length < 15 then UInt8.ofNat (16 * x.length) :: x
  else 240 :: (lengthBytes (x.length - 15) ++ x)

def readLength : Nat → List UInt8 → Option (Nat × List UInt8)
  | _, [] => none
  | n, b :: rest => if b = 255 then readLength (n + 255) rest else some (n + b.toNat, rest)

/-- A decoder of blocks without matches. -/
def readLiterals (z : List UInt8) (n : Nat) : Except String (List UInt8) :=
  match z with
  | [] => .error "expected another byte, found none"
  | token :: rest =>
    match if token.toNat / 16 = 15 then readLength 15 rest else some (token.toNat / 16, rest) with
    | none => .error "expected another byte, found none"
    | some (len, x) =>
      if x.length ≠ len then .error "literal is out of bounds of the input"
      else if n < len then .error "provided output is too small for the decompressed data"
      else .ok x

def literalLz4 : Lz4 := ⟨literals, readLiterals⟩

theorem readLength_replicate (k n : Nat) {r : Nat} (hr : r < 255) (x : List UInt8) :
    readLength n (List.replicate k 255 ++ UInt8.ofNat r :: x) = some (n + 255 * k + r, x) := by
  induction k generalizing n with
  | zero =>
    have hval : (UInt8.ofNat r).toNat = r := by
      rw [UInt8.toNat_ofNat']
      omega
    have hne : UInt8.ofNat r ≠ 255 := by
      intro heq
      rw [heq] at hval
      exact absurd hval.symm (Nat.ne_of_lt hr)
    rw [List.replicate_zero, List.nil_append, readLength, if_neg hne, hval]
    rfl
  | succ k ih =>
    rw [List.replicate_succ, List.cons_append, readLength, if_pos rfl, ih]
    rw [Option.some.injEq, Prod.mk.injEq]
    exact ⟨by omega, rfl⟩

theorem readLiterals_literals (x : List UInt8) (n : Nat) :
    readLiterals (literals x) n =
      if n < x.length then .error "provided output is too small for the decompressed data"
      else .ok x := by
  by_cases hlen : x.length < 15
  · have htoken : (UInt8.ofNat (16 * x.length)).toNat / 16 = x.length := by
      rw [UInt8.toNat_ofNat']
      omega
    have hne : x.length ≠ 15 := by omega
    rw [literals, if_pos hlen, readLiterals, htoken, if_neg hne]
    exact if_neg (not_not.2 rfl)
  · have hrest : lengthBytes (x.length - 15) ++ x = List.replicate ((x.length - 15) / 255) 255 ++
        UInt8.ofNat ((x.length - 15) % 255) :: x := by
      rw [lengthBytes, List.append_assoc]
      rfl
    have hsum : 15 + 255 * ((x.length - 15) / 255) + (x.length - 15) % 255 = x.length := by omega
    rw [literals, if_neg hlen, readLiterals, hrest]
    rw [if_pos (by decide), readLength_replicate _ _ (by omega), hsum]
    exact if_neg (not_not.2 rfl)

theorem literalLz4_lawful : literalLz4.Lawful where
  decompress_compress x := (readLiterals_literals x x.length).trans (if_neg (Nat.lt_irrefl _))
  decompress_eq x n y h := by
    have h : readLiterals (literals x) n = .ok y := h
    rw [readLiterals_literals] at h
    split at h
    · cases h
    · cases h
      rfl

theorem length_literals (x : List UInt8) : (literals x).length ≤ 2 * x.length + 1 := by
  rw [literals]
  split
  · rw [List.length_cons]
    omega
  · rw [List.length_cons, List.length_append, lengthBytes, List.length_append,
      List.length_replicate, List.length_singleton]
    omega

theorem literalLz4_payload {elemSize blockSize : Nat} {pixels : List UInt8} (hpos : 0 < elemSize)
    (hblock : 0 < blockSize) (h8 : blockSize % 8 = 0) (hwhole : pixels.length % elemSize = 0)
    (hsmall : pixels.length < 2 ^ 30) (hsize : blockSize * elemSize < 2 ^ 32) :
    Payload literalLz4 elemSize blockSize pixels where
  elemSize_pos := hpos
  blockSize_pos := hblock
  blockSize_mod := h8
  whole := hwhole
  total_fits := by omega
  blockSize_fits := hsize
  block_fits x hx := by
    have hlen := length_literals (bitshuffle elemSize x)
    rw [length_bitshuffle] at hlen
    show (literals (bitshuffle elemSize x)).length < 2 ^ 32
    omega

/-- Ten pixels of two bytes: a block of eight, whatever the block size, and two behind it. -/
theorem bslz4_paths_agree_tenPixels :
    ∃ pixels : List UInt8, pixels.length = 20 ∧
      decodeWithHeaderInto literalLz4 (encode literalLz4 2 16 pixels) (List.replicate 20 0) 2 =
        .ok pixels ∧
      uncompress literalLz4 (encode literalLz4 2 16 pixels) "bslz4" 2 (List.replicate 20 0) =
        .ok pixels ∧
      decodeWithHeader literalLz4 (encode literalLz4 2 16 pixels) 2 = .ok pixels := by
  let pixels : List UInt8 := [1, 0, 2, 0, 3, 0, 4, 0, 5, 0, 6, 0, 7, 0, 8, 1, 9, 2, 10, 3]
  exact ⟨pixels, rfl, (bslz4_paths_agree_iff literalLz4_lawful
    (literalLz4_payload (by decide) (by decide) (by decide) (by decide) (by decide) (by decide))
    (by decide)).2 (by decide)⟩

/-- Stream version 2 drops a frame in blocks of eight. -/
theorem uncompress_small_blocks :
    ¬ ∀ (lz4 : Lz4) (elemSize blockSize : Nat) (pixels out : List UInt8), lz4.Lawful →
      Payload lz4 elemSize blockSize pixels → out.length = pixels.length →
      uncompress lz4 (encode lz4 elemSize blockSize pixels) "bslz4" elemSize out = .ok pixels := by
  intro hclaim
  have hpayload : Payload literalLz4 1 8 (List.replicate 16 7) :=
    literalLz4_payload (by decide) (by decide) (by decide) (by decide) (by decide) (by decide)
  have hdecodes := hclaim literalLz4 1 8 (List.replicate 16 7) (List.replicate 16 0)
    literalLz4_lawful hpayload rfl
  obtain ⟨e, he⟩ := decode_of_otherBlocks literalLz4_lawful hpayload
    (show (List.replicate 16 (0 : UInt8)).length = _ from rfl) (by decide)
  rw [uncompress_bslz4, drop_encode, he] at hdecodes
  cases hdecodes

end Eiger
