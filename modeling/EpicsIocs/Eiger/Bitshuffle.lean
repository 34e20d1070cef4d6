import EpicsIocs.Lib.Bits
import EpicsIocs.Lib.Bytes
import EpicsIocs.Lib.Scatter

/-! # Bitshuffle

A bitshuffled block holds bit 0 of every element, then bit 1 of every element, and so
on (`bitshuffle`).  `untransBitElem` undoes it the way `bslz4.rs` does: the rows of bits
are gathered eight elements at a time, and every 8x8 square of bits is transposed.

    untransBitElem (bitshuffle elemSize block) out elemSize = block     (untransBitElem_bitshuffle) -/

namespace Eiger

open Bits Bytes Scatter

/-! ## The code -/

/-- Transpose of the 8x8 bits of a word. -/
def transBit8x8 (x : UInt64) : UInt64 :=
  let t := (x ^^^ (x >>> 7)) &&& 0x00AA00AA00AA00AA
  let x := x ^^^ t ^^^ (t <<< 7)
  let t := (x ^^^ (x >>> 14)) &&& 0x0000CCCC0000CCCC
  let x := x ^^^ t ^^^ (t <<< 14)
  let t := (x ^^^ (x >>> 28)) &&& 0x00000000F0F0F0F0
  x ^^^ t ^^^ (t <<< 28)

def readU64Le (b : List UInt8) (off : Nat) : UInt64 := UInt64.ofNat (leNat ((b.drop off).take 8))

/-- The writes of `trans_byte_bitrow`.  The input has the length of the output, so every
index is in range. -/
def bitrowWrites (input : List UInt8) (size elemSize : Nat) : List (Nat × UInt8) :=
  let nbyteRow := size / 8
  (List.range elemSize).flatMap fun jj => (List.range nbyteRow).flatMap fun ii =>
    (List.range 8).map fun kk =>
      (ii * 8 * elemSize + jj * 8 + kk, input.getD ((jj * 8 + kk) * nbyteRow + ii) 0)

def transByteBitrow (input out : List UInt8) (size elemSize : Nat) : List UInt8 :=
  scatter out (bitrowWrites input size elemSize)

/-- The writes of `shuffle_bit_eightelem`: `jj` goes up in eights and `ii` in steps of eight
elements. -/
def eightelemWrites (input : List UInt8) (size elemSize : Nat) : List (Nat × UInt8) :=
  let nbyte := elemSize * size
  ((List.range elemSize).map (8 * ·)).flatMap fun jj =>
    ((List.range (nbyte / (8 * elemSize))).map (· * (8 * elemSize))).flatMap fun ii =>
      let x := transBit8x8 (readU64Le input (ii + jj))
      (List.range 8).map fun kk =>
        (ii + jj / 8 + kk * elemSize, (x >>> UInt64.ofNat (8 * kk)).toUInt8)

def shuffleBitEightelem (input out : List UInt8) (size elemSize : Nat) : List UInt8 :=
  scatter out (eightelemWrites input size elemSize)

def untransBitElem (input out : List UInt8) (elemSize : Nat) : List UInt8 :=
  let size := out.length / elemSize
  let tmp := transByteBitrow input (List.replicate out.length 0) size elemSize
  shuffleBitEightelem tmp out size elemSize

/-! ## What it undoes -/

/-- Bit `i` of byte `b`. -/
def bit (b : UInt8) (i : Nat) : Bool := b.toBitVec.getLsbD i

/-- Row `q / rows` of the result holds that bit of every element, eight elements to a byte. -/
def bitshuffle (elemSize : Nat) (block : List UInt8) : List UInt8 :=
  let rows := block.length / elemSize / 8
  (List.range block.length).map fun q => byteOf fun k =>
    bit (block.getD ((8 * (q % rows) + k) * elemSize + q / rows / 8) 0) (q / rows % 8)

@[simp] theorem length_bitshuffle (elemSize : Nat) (block : List UInt8) :
    (bitshuffle elemSize block).length = block.length := by
  simp [bitshuffle]

/-! ## Squares of bits -/

def mask7 : BitVec 64 := 0x00AA00AA00AA00AA#64
def mask14 : BitVec 64 := 0x0000CCCC0000CCCC#64
def mask28 : BitVec 64 := 0x00000000F0F0F0F0#64

theorem toBitVec_transBit8x8 (x : UInt64) :
    (transBit8x8 x).toBitVec = deltaSwap 28 mask28 (deltaSwap 14 mask14 (deltaSwap 7 mask7 x.toBitVec)) :=
  rfl

/-- The masks meet no bit twice, and together the swaps transpose the square. -/
theorem deltaIndex_masks : ∀ i < 64,
    (mask28.getLsbD i = true → 28 ≤ i → mask28.getLsbD (i - 28) = false) ∧
      deltaIndex 28 mask28 i < 64 ∧
      (mask14.getLsbD i = true → 14 ≤ i → mask14.getLsbD (i - 14) = false) ∧
      deltaIndex 14 mask14 i < 64 ∧
      (mask7.getLsbD i = true → 7 ≤ i → mask7.getLsbD (i - 7) = false) ∧
      deltaIndex 7 mask7 (deltaIndex 14 mask14 (deltaIndex 28 mask28 i)) = 8 * (i % 8) + i / 8 := by
  decide +kernel

/-- Bit `c` of byte `r` is bit `r` of byte `c`. -/
theorem getLsbD_transBit8x8 (x : UInt64) {r c : Nat} (hr : r < 8) (hc : c < 8) :
    (transBit8x8 x).toBitVec.getLsbD (8 * r + c) = x.toBitVec.getLsbD (8 * c + r) := by
  obtain ⟨hdisj28, hlt28, -, -, -, hindex⟩ := deltaIndex_masks (8 * r + c) (by omega)
  obtain ⟨-, -, hdisj14, hlt14, -, -⟩ := deltaIndex_masks _ hlt28
  obtain ⟨-, -, -, -, hdisj7, -⟩ := deltaIndex_masks _ hlt14
  have hswap : (8 * r + c) % 8 = c ∧ (8 * r + c) / 8 = r := by omega
  rw [toBitVec_transBit8x8, getLsbD_deltaSwap _ (by omega) hdisj28,
    getLsbD_deltaSwap _ hlt28 hdisj14, getLsbD_deltaSwap _ hlt14 hdisj7, hindex, hswap.1, hswap.2]

/-! ## Bytes of a block -/

section
variable {elemSize rows i j k : Nat}

/-- Where byte `j` of element `8 * i + k` is. -/
theorem element_index (i k : Nat) (hj : j < elemSize) :
    (i * (8 * elemSize) + j + k * elemSize) % elemSize = j ∧
      (i * (8 * elemSize) + j + k * elemSize) / elemSize = 8 * i + k := by
  have heq : i * (8 * elemSize) + j + k * elemSize = j + elemSize * (8 * i + k) := by ring
  rw [heq, Nat.add_mul_mod_self_left, Nat.add_mul_div_left _ _ (Nat.zero_lt_of_lt hj),
    Nat.mod_eq_of_lt hj, Nat.div_eq_of_lt hj, Nat.zero_add]
  exact ⟨rfl, rfl⟩

/-- Where byte `k` of square `j` of group `i` is. -/
theorem square_index (hj : j < elemSize) (hk : k < 8) :
    (i * 8 * elemSize + j * 8 + k) % 8 = k ∧
      (i * 8 * elemSize + j * 8 + k) / 8 % elemSize = j ∧
      (i * 8 * elemSize + j * 8 + k) / 8 / elemSize = i := by
  have heq : i * 8 * elemSize + j * 8 + k = k + 8 * (j + elemSize * i) := by ring
  have hpos : 0 < elemSize := Nat.zero_lt_of_lt hj
  have hdiv : (i * 8 * elemSize + j * 8 + k) / 8 = j + elemSize * i := by omega
  rw [hdiv, Nat.add_mul_mod_self_left, Nat.add_mul_div_left _ _ hpos, Nat.mod_eq_of_lt hj,
    Nat.div_eq_of_lt hj]
  omega

theorem square_index_lt (hi : i < rows) (hj : j < elemSize) (hk : k < 8) :
    i * 8 * elemSize + j * 8 + k < 8 * rows * elemSize := by
  have hgroup : (i + 1) * (8 * elemSize) ≤ rows * (8 * elemSize) := Nat.mul_le_mul_right _ hi
  have hsplit : (i + 1) * (8 * elemSize) = i * 8 * elemSize + 8 * elemSize := by ring
  have hrows : rows * (8 * elemSize) = 8 * rows * elemSize := by ring
  omega

theorem mem_bitrowWrites {input : List UInt8} {w : Nat × UInt8} :
    w ∈ bitrowWrites input (8 * rows) elemSize ↔ ∃ j < elemSize, ∃ i < rows, ∃ k < 8,
      w = (i * 8 * elemSize + j * 8 + k, input.getD ((j * 8 + k) * rows + i) 0) := by
  have hrows : 8 * rows / 8 = rows := by omega
  simp only [bitrowWrites, hrows, List.mem_flatMap, List.mem_map, List.mem_range, eq_comm]

theorem mem_eightelemWrites {input : List UInt8} (hpos : 0 < elemSize) {w : Nat × UInt8} :
    w ∈ eightelemWrites input (8 * rows) elemSize ↔ ∃ j < elemSize, ∃ i < rows, ∃ k < 8,
      w = (i * (8 * elemSize) + j + k * elemSize,
        (transBit8x8 (readU64Le input (i * (8 * elemSize) + 8 * j)) >>>
          UInt64.ofNat (8 * k)).toUInt8) := by
  have hrows : elemSize * (8 * rows) / (8 * elemSize) = rows := by
    rw [show elemSize * (8 * rows) = 8 * elemSize * rows by ring]
    exact Nat.mul_div_cancel_left _ (by omega)
  have hcol : ∀ j, 8 * j / 8 = j := by omega
  simp only [eightelemWrites, hrows, List.flatMap_map, List.mem_flatMap, List.mem_map,
    List.mem_range, hcol, eq_comm]

/-- The gathered rows: byte `k` of a square is from row `8 * j + k`. -/
theorem getD_transByteBitrow {input out : List UInt8} (hout : out.length = 8 * rows * elemSize)
    (hi : i < rows) (hj : j < elemSize) (hk : k < 8) :
    (transByteBitrow input out (8 * rows) elemSize).getD (i * (8 * elemSize) + 8 * j + k) 0 =
      input.getD ((j * 8 + k) * rows + i) 0 := by
  have hindex : i * (8 * elemSize) + 8 * j + k = i * 8 * elemSize + j * 8 + k := by ring
  have hget : (transByteBitrow input out (8 * rows) elemSize)[i * 8 * elemSize + j * 8 + k]? =
      some (input.getD ((j * 8 + k) * rows + i) 0) := by
    refine getElem?_scatter (hout ▸ square_index_lt hi hj hk)
      (mem_bitrowWrites.2 ⟨j, hj, i, hi, k, hk, rfl⟩) fun b hb => ?_
    obtain ⟨j', hj', i', -, k', hk', heq⟩ := mem_bitrowWrites.1 hb
    obtain ⟨hfst, hsnd⟩ := Prod.ext_iff.1 heq
    dsimp only at hfst hsnd
    obtain ⟨hk1, hj1, hi1⟩ := square_index (i := i) hj hk
    obtain ⟨hk2, hj2, hi2⟩ := square_index (i := i') hj' hk'
    rw [hfst] at hk1 hj1 hi1
    rw [hsnd, ← hk1, ← hj1, ← hi1, hk2, hj2, hi2]
  rw [hindex, List.getD_eq_getElem?_getD, hget]
  rfl

end

theorem getLsbD_readU64Le {b : List UInt8} {off c : Nat} {k : Nat} (hc : c < 8) (hk : k < 8) :
    (readU64Le b off).toBitVec.getLsbD (8 * c + k) = bit (b.getD (off + c) 0) k := by
  have hget : ((b.drop off).take 8).getD c 0 = b.getD (off + c) 0 := by
    simp [List.getElem?_take_of_lt hc]
  have hlt : 8 * c + k < 64 := by omega
  rw [← hget]
  show (BitVec.ofNat 64 (leNat ((b.drop off).take 8))).getLsbD (8 * c + k) = _
  rw [BitVec.getLsbD_ofNat, testBit_leNat _ _ hk, decide_eq_true hlt, Bool.true_and]
  rfl

/-- Byte `k` of a word. -/
theorem bit_toUInt8_shiftRight (x : UInt64) {c k : Nat} (hc : c < 8) (hk : k < 8) :
    bit (x >>> UInt64.ofNat (8 * k)).toUInt8 c = x.toBitVec.getLsbD (8 * k + c) := by
  have hshift : ((UInt64.ofNat (8 * k)).toBitVec % 64).toNat = 8 * k := by
    show (BitVec.ofNat 64 (8 * k) % 64#64).toNat = 8 * k
    rw [BitVec.toNat_umod, BitVec.toNat_ofNat]
    show 8 * k % 2 ^ 64 % 64 = 8 * k
    omega
  rw [bit, UInt64.toBitVec_toUInt8, UInt64.toBitVec_shiftRight, BitVec.getLsbD_setWidth,
    decide_eq_true hc, Bool.true_and]
  show (x.toBitVec >>> ((UInt64.ofNat (8 * k)).toBitVec % 64).toNat).getLsbD c = _
  rw [hshift, BitVec.getLsbD_ushiftRight]

section
variable {elemSize rows i j k : Nat} {block : List UInt8}

/-- Bit `c` of byte `j` of every element is row `8 * j + c`. -/
theorem getD_bitshuffle (hblock : block.length = 8 * rows * elemSize) (hpos : 0 < elemSize)
    (hi : i < rows) {c : Nat} (hc : c < 8) (hj : j < elemSize) (hk : k < 8) :
    bit ((bitshuffle elemSize block).getD ((j * 8 + c) * rows + i) 0) k =
      bit (block.getD (i * (8 * elemSize) + j + k * elemSize) 0) c := by
  have hrows : block.length / elemSize / 8 = rows := by
    rw [hblock, Nat.mul_div_cancel _ hpos]
    omega
  have hq : (j * 8 + c) * rows + i < block.length := by
    have hrow : (j * 8 + c + 1) * rows ≤ elemSize * 8 * rows := Nat.mul_le_mul_right _ (by omega)
    have hsplit : (j * 8 + c + 1) * rows = (j * 8 + c) * rows + rows := by ring
    have hall : elemSize * 8 * rows = block.length := by rw [hblock]; ring
    omega
  have hcoords : ((j * 8 + c) * rows + i) % rows = i ∧ ((j * 8 + c) * rows + i) / rows = j * 8 + c := by
    have heq : (j * 8 + c) * rows + i = i + rows * (j * 8 + c) := by ring
    rw [heq, Nat.add_mul_mod_self_left, Nat.add_mul_div_left _ _ (Nat.zero_lt_of_lt hi),
      Nat.mod_eq_of_lt hi, Nat.div_eq_of_lt hi, Nat.zero_add]
    exact ⟨rfl, rfl⟩
  have hbyte : (j * 8 + c) / 8 = j ∧ (j * 8 + c) % 8 = c := by omega
  have hindex : (8 * i + k) * elemSize + j = i * (8 * elemSize) + j + k * elemSize := by ring
  rw [bitshuffle, List.getD_eq_getElem?_getD, List.getElem?_map, List.getElem?_range hq,
    Option.map_some, Option.getD_some, bit, getLsbD_byteOf hk, hrows, hcoords.1, hcoords.2,
    hbyte.1, hbyte.2, hindex]

/-- Every place of a block is a byte of an element. -/
theorem element_cases (hpos : 0 < elemSize) {p : Nat} (hp : p < 8 * rows * elemSize) :
    ∃ i j k, i < rows ∧ j < elemSize ∧ k < 8 ∧ p = i * (8 * elemSize) + j + k * elemSize := by
  have helem : p / elemSize < 8 * rows := (Nat.div_lt_iff_lt_mul hpos).2 hp
  refine ⟨p / elemSize / 8, p % elemSize, p / elemSize % 8, by omega, Nat.mod_lt _ hpos,
    Nat.mod_lt _ (by decide), ?_⟩
  calc p = elemSize * (p / elemSize) + p % elemSize := (Nat.div_add_mod p elemSize).symm
    _ = elemSize * (8 * (p / elemSize / 8) + p / elemSize % 8) + p % elemSize := by
        rw [Nat.div_add_mod (p / elemSize) 8]
    _ = p / elemSize / 8 * (8 * elemSize) + p % elemSize + p / elemSize % 8 * elemSize := by
        ring

/-- The byte the last loop writes for byte `j` of element `8 * i + k`. -/
def squareByte (tmp : List UInt8) (elemSize i j k : Nat) : UInt8 :=
  (transBit8x8 (readU64Le tmp (i * (8 * elemSize) + 8 * j)) >>> UInt64.ofNat (8 * k)).toUInt8

/-- Its bits are from the rows of that byte of the elements. -/
theorem bit_squareByte {input out : List UInt8} (hout : out.length = 8 * rows * elemSize)
    (hi : i < rows) (hj : j < elemSize) (hk : k < 8) {c : Nat} (hc : c < 8) :
    bit (squareByte (transByteBitrow input out (8 * rows) elemSize) elemSize i j k) c =
      bit (input.getD ((j * 8 + c) * rows + i) 0) k := by
  rw [squareByte, bit_toUInt8_shiftRight _ hc hk, getLsbD_transBit8x8 _ hk hc,
    getLsbD_readU64Le hc hk, getD_transByteBitrow hout hi hj hc]

/-- The last loop writes every byte once. -/
theorem getElem?_shuffleBitEightelem {tmp out : List UInt8}
    (hout : out.length = 8 * rows * elemSize) (hi : i < rows) (hj : j < elemSize) (hk : k < 8) :
    (shuffleBitEightelem tmp out (8 * rows) elemSize)[i * (8 * elemSize) + j + k * elemSize]? =
      some (squareByte tmp elemSize i j k) := by
  have hpos : 0 < elemSize := Nat.zero_lt_of_lt hj
  have hlt : i * (8 * elemSize) + j + k * elemSize < out.length := by
    have hindex : i * (8 * elemSize) + j + k * elemSize = (8 * i + k) * elemSize + j := by ring
    rw [hindex, hout]
    exact radix_lt (by omega) hj
  refine getElem?_scatter hlt ((mem_eightelemWrites hpos).2 ⟨j, hj, i, hi, k, hk, rfl⟩)
    fun b hb => ?_
  obtain ⟨j', hj', i', -, k', hk', heq⟩ := (mem_eightelemWrites hpos).1 hb
  obtain ⟨hfst, hsnd⟩ := Prod.ext_iff.1 heq
  dsimp only at hfst hsnd
  obtain ⟨hj1, he1⟩ := element_index i k hj
  obtain ⟨hj2, he2⟩ := element_index i' k' hj'
  rw [hfst, hj2] at hj1
  rw [hfst, he2] at he1
  obtain rfl : i' = i := by omega
  obtain rfl : k' = k := by omega
  rw [hsnd, hj1]
  rfl

/-- Bit `c` of byte `j` of element `8 * i + k`. -/
theorem bit_untransBitElem {input out : List UInt8} (hout : out.length = 8 * rows * elemSize)
    (hi : i < rows) (hj : j < elemSize) (hk : k < 8) {c : Nat} (hc : c < 8) :
    bit ((untransBitElem input out elemSize).getD (i * (8 * elemSize) + j + k * elemSize) 0) c =
      bit (input.getD ((j * 8 + c) * rows + i) 0) k := by
  have hsize : out.length / elemSize = 8 * rows := by
    rw [hout, Nat.mul_div_cancel _ (Nat.zero_lt_of_lt hj)]
  have hzero : (List.replicate out.length (0 : UInt8)).length = 8 * rows * elemSize := by
    rw [List.length_replicate, hout]
  rw [untransBitElem, hsize, List.getD_eq_getElem?_getD,
    getElem?_shuffleBitEightelem hout hi hj hk, Option.getD_some,
    bit_squareByte hzero hi hj hk hc]

theorem length_untransBitElem (input out : List UInt8) (elemSize : Nat) :
    (untransBitElem input out elemSize).length = out.length := length_scatter _ _

/-- Bytes are the same if they are at every byte of every element. -/
theorem block_ext {a b : List UInt8} (hpos : 0 < elemSize) (ha : a.length = 8 * rows * elemSize)
    (hb : b.length = a.length)
    (h : ∀ i < rows, ∀ j < elemSize, ∀ k < 8, ∀ c < 8,
      bit (a.getD (i * (8 * elemSize) + j + k * elemSize) 0) c =
        bit (b.getD (i * (8 * elemSize) + j + k * elemSize) 0) c) : a = b := by
  refine List.ext_getElem hb.symm fun p hp hp' => ?_
  obtain ⟨i, j, k, hi, hj, hk, rfl⟩ := element_cases hpos (ha ▸ hp)
  have hbyte := byte_ext (h i hi j hj k hk)
  rw [List.getD_eq_getElem?_getD, List.getD_eq_getElem?_getD, List.getElem?_eq_getElem hp,
    List.getElem?_eq_getElem hp'] at hbyte
  exact hbyte

/-- **Round trip.** -/
theorem untransBitElem_bitshuffle (hpos : 0 < elemSize)
    (hblock : block.length = 8 * rows * elemSize) {out : List UInt8}
    (hout : out.length = block.length) :
    untransBitElem (bitshuffle elemSize block) out elemSize = block := by
  have hlen := length_untransBitElem (bitshuffle elemSize block) out elemSize
  refine block_ext hpos (hlen.trans (hout.trans hblock)) (hlen.trans hout).symm ?_
  intro i hi j hj k hk c hc
  rw [bit_untransBitElem (hout.trans hblock) hi hj hk hc,
    getD_bitshuffle hblock hpos hi hc hj hk]

/-- Every place of shuffled bytes is a row of a byte of the elements. -/
theorem row_cases {q : Nat} (hq : q < 8 * rows * elemSize) :
    ∃ i j c, i < rows ∧ j < elemSize ∧ c < 8 ∧ q = (j * 8 + c) * rows + i := by
  have hrows : 0 < rows := by
    rcases Nat.eq_zero_or_pos rows with rfl | hrows
    · rw [Nat.mul_zero, Nat.zero_mul] at hq
      exact absurd hq (Nat.not_lt_zero q)
    · exact hrows
  have hrow : q / rows < 8 * elemSize := by
    rw [Nat.div_lt_iff_lt_mul hrows]
    calc q < 8 * rows * elemSize := hq
      _ = 8 * elemSize * rows := by ring
  refine ⟨q % rows, q / rows / 8, q / rows % 8, Nat.mod_lt _ hrows, by omega,
    Nat.mod_lt _ (by decide), ?_⟩
  have hdiv : q / rows / 8 * 8 + q / rows % 8 = q / rows := by omega
  rw [hdiv, Nat.mul_comm]
  exact (Nat.div_add_mod q rows).symm

/-- The other way round. -/
theorem bitshuffle_untransBitElem {input out : List UInt8} (hpos : 0 < elemSize)
    (hinput : input.length = 8 * rows * elemSize) (hout : out.length = input.length) :
    bitshuffle elemSize (untransBitElem input out elemSize) = input := by
  have hlen : (untransBitElem input out elemSize).length = 8 * rows * elemSize := by
    rw [length_untransBitElem, hout, hinput]
  have hsame : (bitshuffle elemSize (untransBitElem input out elemSize)).length =
      input.length := by
    rw [length_bitshuffle, hlen, hinput]
  refine List.ext_getElem hsame fun q hq hq' => ?_
  obtain ⟨i, j, c, hi, hj, hc, rfl⟩ := row_cases (hinput ▸ hq')
  have hbyte : (bitshuffle elemSize (untransBitElem input out elemSize)).getD
      ((j * 8 + c) * rows + i) 0 = input.getD ((j * 8 + c) * rows + i) 0 := by
    refine byte_ext fun k hk => ?_
    show bit _ k = bit _ k
    rw [getD_bitshuffle hlen hpos hi hc hj hk,
      bit_untransBitElem (hout.trans hinput) hi hj hk hc]
  rw [List.getD_eq_getElem?_getD, List.getD_eq_getElem?_getD, List.getElem?_eq_getElem hq,
    List.getElem?_eq_getElem hq'] at hbyte
  exact hbyte

/-- Where the last loop writes is every byte. -/
theorem mem_eightelemWrites_fst (hpos : 0 < elemSize) {tmp : List UInt8} {p : Nat} :
    p ∈ (eightelemWrites tmp (8 * rows) elemSize).map Prod.fst ↔ p < 8 * rows * elemSize := by
  constructor
  · intro hmem
    obtain ⟨w, hw, rfl⟩ := List.mem_map.1 hmem
    obtain ⟨j, hj, i, hi, k, hk, rfl⟩ := (mem_eightelemWrites hpos).1 hw
    have hindex : i * (8 * elemSize) + j + k * elemSize = (8 * i + k) * elemSize + j := by ring
    show i * (8 * elemSize) + j + k * elemSize < _
    rw [hindex]
    exact radix_lt (by omega) hj
  · intro hp
    obtain ⟨i, j, k, hi, hj, hk, rfl⟩ := element_cases hpos hp
    exact List.mem_map.2 ⟨_, (mem_eightelemWrites hpos).2 ⟨j, hj, i, hi, k, hk, rfl⟩, rfl⟩

end

/-- **The inverse of the bitshuffle.**  The last loop writes every byte of the output and
nothing outside it; bit `k` of byte `b` of element `e` is bit `e % 8` of byte
`(b * 8 + k) * (n / 8) + e / 8` of the input; every output comes of exactly one input, and a
shuffled block becomes that block. -/
theorem untransBitElem_inverse (elemSize n : Nat) (hpos : 0 < elemSize) (hn : n % 8 = 0)
    (out : List UInt8) (hout : out.length = n * elemSize) :
    (∀ input : List UInt8, ∀ p, p ∈ (eightelemWrites
        (transByteBitrow input (List.replicate out.length 0) (out.length / elemSize) elemSize)
          (out.length / elemSize) elemSize).map Prod.fst ↔ p < out.length) ∧
      (∀ input : List UInt8, ∀ e < n, ∀ b < elemSize, ∀ k < 8,
        bit ((untransBitElem input out elemSize).getD (e * elemSize + b) 0) k =
          bit (input.getD ((b * 8 + k) * (n / 8) + e / 8) 0) (e % 8)) ∧
      (∀ block : List UInt8, block.length = n * elemSize →
        ∃! input : List UInt8, input.length = n * elemSize ∧
          untransBitElem input out elemSize = block) ∧
      ∀ block : List UInt8, block.length = n * elemSize →
        untransBitElem (bitshuffle elemSize block) out elemSize = block := by
  obtain ⟨rows, rfl⟩ : ∃ rows, n = 8 * rows := ⟨n / 8, by omega⟩
  have hsize : out.length / elemSize = 8 * rows := by rw [hout, Nat.mul_div_cancel _ hpos]
  have hrows : 8 * rows / 8 = rows := by omega
  refine ⟨fun input p => ?_, fun input e he b hb k hk => ?_, fun block hblock => ?_,
    fun block hblock => ?_⟩
  · rw [hsize, mem_eightelemWrites_fst hpos, hout]
  · have hindex : e * elemSize + b = e / 8 * (8 * elemSize) + b + e % 8 * elemSize := by
      calc e * elemSize + b = (8 * (e / 8) + e % 8) * elemSize + b := by rw [Nat.div_add_mod]
        _ = e / 8 * (8 * elemSize) + b + e % 8 * elemSize := by ring
    rw [hindex, hrows]
    exact bit_untransBitElem hout (by omega) hb (Nat.mod_lt _ (by decide)) hk
  · refine ⟨bitshuffle elemSize block, ⟨?_, ?_⟩, fun input hinput => ?_⟩
    · rw [length_bitshuffle, hblock]
    · exact untransBitElem_bitshuffle hpos hblock (hout.trans hblock.symm)
    · rw [← hinput.2, bitshuffle_untransBitElem hpos hinput.1 (hout.trans hinput.1.symm)]
  · exact untransBitElem_bitshuffle hpos hblock (hout.trans hblock.symm)

/-- Eight elements of two bytes. -/
theorem untransBitElem_inverse_8x2 :
    untransBitElem (bitshuffle 2 (List.replicate 16 3)) (List.replicate 16 0) 2 =
      List.replicate 16 3 :=
  (untransBitElem_inverse 2 8 (by decide) (by decide) (List.replicate 16 0) rfl).2.2.2 _ rfl

end Eiger
