import EpicsIocs.Lib.Ints
import EpicsIocs.Lib.Packed
import EpicsIocs.Mythen.Driver

/-! # Readouts

What `acquire` makes of a reply (`task.rs`): one of the expected length goes to `publish`, which takes
a negative first word for an error and decodes anything else into an array of the pool.

A raw readout packs several counts into a word and uses all of its bits, so a whole readout is
published with its counts

    ↔ the first word's last count has its top bit clear, or there is one count to a word
                                                                  (takeReply_readout_iff) -/

namespace Mythen

open Bytes Ints

/-- The mask of one channel within a word. -/
def channelMask (nbits : Int) : Nat :=
  match nbits with
  | 16 => 0xffff
  | 8 => 0xff
  | 4 => 0xf
  | _ => 0x00ffffff

/-- `as_chunks::<4>().0`, each from its little-endian bytes. -/
def readWords : List UInt8 → List Nat
  | a :: b :: c :: d :: rest => leNat [a, b, c, d] :: readWords rest
  | _ => []

/-- The loop over the words and the groups of channels, `out` before it and behind it. -/
def decodeWords (nbits : Int) : List Nat → List Nat → List Nat
  | [], out => out
  | word :: words, out =>
    if channelsPerWord nbits ≤ out.length then
      (List.range (channelsPerWord nbits)).map
          (fun j => word >>> (nbits.toNat * j) &&& channelMask nbits) ++
        decodeWords nbits words (out.drop (channelsPerWord nbits))
    else out

def decodeRawReadout (nbits : Int) (reply : List UInt8) (out : List Nat) : List Nat :=
  decodeWords nbits (readWords reply) out

/-- What comes of a reply. -/
inductive Taken where
  | notWhole
  | errorWord
  | dropped
  | published (array : List Nat)
  deriving DecidableEq, Repr

/-- `alloc` is the pool: an array of so many elements, with anything in it. -/
def publish (alloc : Nat → Option (List Nat)) (reply : List UInt8) (nmodules : Nat) (nbits : Int) :
    Taken :=
  if 4 ≤ reply.length ∧ 0 ≤ int32.ofLeBytes (reply.take 4) then
    match alloc (nmodules * channelsPerModule) with
    | none => .dropped
    | some array => .published (decodeRawReadout nbits reply array)
  else .errorWord

/-- The bit depth to decode with. -/
def decodeNbits (readMode nbits : Int) : Int := if readMode = readModeRaw then nbits else correctedNbits

/-- A reply, in `acquire`. -/
def takeReply (alloc : Nat → Option (List Nat)) (readMode nbits : Int) (nmodules : Nat)
    (reply : List UInt8) : Taken :=
  if reply.length = readoutLen readMode nmodules nbits then
    publish alloc reply nmodules (decodeNbits readMode nbits)
  else .notWhole

/-! ## What the detector sends -/

/-- The bit depths that the detector offers. -/
def Offered (nbits : Int) : Prop := nbits = 24 ∨ nbits = 16 ∨ nbits = 8 ∨ nbits = 4

/-- Counts as the detector packs them, `n` words. -/
def packWords (nbits : Int) (n : Nat) (counts : List Nat) : List UInt8 :=
  (Packed.words nbits.toNat (channelsPerWord nbits) n counts).flatMap (leBytes 4)

/-- The readout of so many modules. -/
def packReadout (readMode nbits : Int) (nmodules : Nat) (counts : List Nat) : List UInt8 :=
  packWords (decodeNbits readMode nbits)
    (nmodules * (channelsPerModule / channelsPerWord (decodeNbits readMode nbits))) counts

/-- The counts of so many modules. -/
structure Counts (readMode nbits : Int) (nmodules : Nat) (counts : List Nat) : Prop where
  length : counts.length = nmodules * channelsPerModule
  fits : ∀ c ∈ counts, c < 2 ^ (decodeNbits readMode nbits).toNat

/-- One count to a word, or the last one of the first word has its top bit clear. -/
def TopClear (depth : Int) (counts : List Nat) : Prop :=
  depth = 24 ∨ ∀ c, counts[channelsPerWord depth - 1]? = some c → c < 2 ^ (depth.toNat - 1)

/-! ## Decoding -/

/-- The bytes of words. -/
theorem readWords_leBytes {words : List Nat} (h : ∀ w ∈ words, w < 2 ^ 32) :
    readWords (words.flatMap (leBytes 4)) = words := by
  induction words with
  | nil => rfl
  | cons w words ih =>
    obtain ⟨hw, hwords⟩ := List.forall_mem_cons.1 h
    rw [List.flatMap_cons]
    show leNat (leBytes 4 w) :: readWords (words.flatMap (leBytes 4)) = w :: words
    rw [leNat_leBytes_of_lt hw, ih hwords]

theorem decodeWords_eq {nbits : Int} {words out : List Nat}
    (h : out.length = channelsPerWord nbits * words.length) :
    decodeWords nbits words out = words.flatMap fun word =>
      (List.range (channelsPerWord nbits)).map
        fun j => word >>> (nbits.toNat * j) &&& channelMask nbits := by
  induction words generalizing out with
  | nil =>
    show out = []
    exact List.eq_nil_of_length_eq_zero (by simpa using h)
  | cons word words ih =>
    rw [List.length_cons, Nat.mul_succ] at h
    rw [decodeWords, if_pos (by omega), List.flatMap_cons, ih]
    rw [List.length_drop]
    omega

/-- What a bit depth stands for. -/
structure Depth (nbits : Int) : Prop where
  pos : 0 < nbits.toNat
  mask : channelMask nbits = 2 ^ nbits.toNat - 1
  width : nbits.toNat * channelsPerWord nbits ≤ 32
  full : nbits = 24 ∨ nbits.toNat * channelsPerWord nbits = 32
  perWord : 0 < channelsPerWord nbits
  perModule : channelsPerWord nbits * (channelsPerModule / channelsPerWord nbits) = channelsPerModule

theorem Offered.depth {nbits : Int} (h : Offered nbits) : Depth nbits := by
  rcases h with rfl | rfl | rfl | rfl <;> constructor <;> decide

theorem Offered.decodeNbits {nbits : Int} (h : Offered nbits) (readMode : Int) :
    Offered (decodeNbits readMode nbits) := by
  unfold Mythen.decodeNbits
  split
  · exact h
  · exact .inl rfl

section

variable {nbits : Int} {n : Nat} {counts stale : List Nat}

theorem words_lt {width count : Nat} {l : List Nat} (hwidth : width * count ≤ 32)
    (h : ∀ v ∈ l, v < 2 ^ width) : ∀ w ∈ Packed.words width count n l, w < 2 ^ 32 := by
  induction n generalizing l with
  | zero => exact fun w hw => absurd hw List.not_mem_nil
  | succ n ih =>
    intro w hw
    rcases List.mem_cons.1 hw with rfl | hw
    · have hlt := Packed.ofDigits_lt fun v hv => h v (List.mem_of_mem_take (i := count) hv)
      refine hlt.trans_le (Nat.pow_le_pow_right (by decide) ?_)
      exact (Nat.mul_le_mul_left _ (List.length_take_le _ _)).trans hwidth
    · exact ih (fun v hv => h v (List.mem_of_mem_drop hv)) w hw

theorem length_packWords : (packWords nbits n counts).length = 4 * n := by
  have hlength : ∀ words : List Nat, (words.flatMap (leBytes 4)).length = 4 * words.length := by
    intro words
    induction words with
    | nil => rfl
    | cons w words ih =>
      rw [List.flatMap_cons, List.length_append, ih, length_leBytes, List.length_cons]
      omega
  rw [packWords, hlength, Packed.length_words]

/-- What is packed decodes to its counts, whatever the array held. -/
theorem decode_packWords (hdepth : Depth nbits) (hfits : ∀ c ∈ counts, c < 2 ^ nbits.toNat)
    (hlen : counts.length = channelsPerWord nbits * n) (hstale : stale.length = counts.length) :
    decodeRawReadout nbits (packWords nbits n counts) stale = counts := by
  have hwords := words_lt (n := n) hdepth.width hfits
  have hout : stale.length = channelsPerWord nbits *
      (Packed.words nbits.toNat (channelsPerWord nbits) n counts).length := by
    rw [Packed.length_words, hstale, hlen]
  have hunpack : ∀ word, (List.range (channelsPerWord nbits)).map
      (fun j => word >>> (nbits.toNat * j) &&& channelMask nbits) =
        Packed.unpack nbits.toNat (channelsPerWord nbits) word := by
    intro word
    rw [Packed.unpack, hdepth.mask]
    apply List.map_congr_left
    intro j _
    rw [Nat.and_two_pow_sub_one_eq_mod, Nat.shiftRight_eq_div_pow]
  rw [decodeRawReadout, packWords, readWords_leBytes hwords, decodeWords_eq hout]
  simp only [hunpack]
  exact Packed.flatMap_unpack hfits hlen

theorem ofLeBytes_nonneg_iff {w : Nat} (h : w < 2 ^ 32) :
    0 ≤ int32.ofLeBytes (leBytes 4 w) ↔ w < 2 ^ 31 := by
  have hstop : int32.stop = 2 ^ 31 := by decide
  have hsize : int32.size = 2 ^ 32 := by decide
  rw [IntType.ofLeBytes, leNat_leBytes_of_lt h, hstop, hsize]
  split <;> omega

/-- The first word is no error word where its last count has its top bit clear. -/
theorem first_nonneg_iff (hdepth : Depth nbits) (hfits : ∀ c ∈ counts, c < 2 ^ nbits.toNat)
    (hlen : counts.length = channelsPerWord nbits * n) (hn : 0 < n) :
    0 ≤ int32.ofLeBytes ((packWords nbits n counts).take 4) ↔ TopClear nbits counts := by
  obtain ⟨n, rfl⟩ := Nat.exists_eq_succ_of_ne_zero hn.ne'
  have hwords := words_lt (n := n + 1) hdepth.width hfits
  have htake : (packWords nbits (n + 1) counts).take 4 =
      leBytes 4 (Nat.ofDigits (2 ^ nbits.toNat) (counts.take (channelsPerWord nbits))) := by
    rw [packWords, Packed.words, List.flatMap_cons]
    exact List.take_left' (length_leBytes 4 _)
  have hfirst : Nat.ofDigits (2 ^ nbits.toNat) (counts.take (channelsPerWord nbits)) < 2 ^ 32 :=
    hwords _ List.mem_cons_self
  rw [htake, ofLeBytes_nonneg_iff hfirst]
  have hsmall : ∀ c ∈ counts.take (channelsPerWord nbits), c < 2 ^ nbits.toNat :=
    fun c hc => hfits c (List.mem_of_mem_take hc)
  rcases hdepth.full with rfl | hfull
  · refine iff_of_true ?_ (.inl rfl)
    refine (Packed.ofDigits_lt hsmall).trans_le (Nat.pow_le_pow_right (by decide) ?_)
    refine (Nat.mul_le_mul_left _ (List.length_take_le _ _)).trans ?_
    decide
  · have hper := hdepth.perWord
    have hlt : channelsPerWord nbits - 1 < counts.length := by
      rw [hlen, Nat.mul_succ]
      omega
    have hsplit : counts.take (channelsPerWord nbits) =
        counts.take (channelsPerWord nbits - 1) ++ [counts[channelsPerWord nbits - 1]] := by
      rw [← List.take_succ_eq_append_getElem hlt, Nat.sub_add_cancel hper]
    have hinit : (counts.take (channelsPerWord nbits - 1)).length + 1 = channelsPerWord nbits := by
      rw [List.length_take]
      omega
    have htop := Packed.ofDigits_concat_lt hdepth.pos
      (fun c hc => hfits c (List.mem_of_mem_take hc) : ∀ c ∈ counts.take (channelsPerWord nbits - 1),
        c < 2 ^ nbits.toNat) counts[channelsPerWord nbits - 1]
    rw [hinit, hfull, ← hsplit] at htop
    rw [htop]
    have hne : nbits ≠ 24 := by
      rintro rfl
      revert hfull
      decide
    constructor
    · intro hclear
      refine .inr fun c hc => ?_
      rw [List.getElem?_eq_getElem hlt] at hc
      rwa [← Option.some.inj hc]
    · rintro (h24 | hclear)
      · exact absurd h24 hne
      · exact hclear _ (List.getElem?_eq_getElem hlt)

end

/-! ## Whole readouts -/

variable {readMode nbits : Int} {nmodules : Nat} {counts stale : List Nat}
  {alloc : Nat → Option (List Nat)}

/-- The bytes of a readout are as many as the acquisition expects. -/
theorem length_packReadout :
    (packReadout readMode nbits nmodules counts).length = readoutLen readMode nmodules nbits := by
  rw [packReadout, length_packWords, readoutLen, decodeNbits]
  have hcorrected : channelsPerModule / channelsPerWord correctedNbits = channelsPerModule := by
    decide
  split
  · rw [← Nat.mul_assoc]
    rfl
  · rw [hcorrected, ← Nat.mul_assoc]
    rfl

/-- **A whole readout is published with its counts,** exactly if the top bit of the first word is
clear; it is taken for an error otherwise. -/
theorem takeReply_readout_iff (hoffered : Offered nbits) (hmodules : 0 < nmodules)
    (hcounts : Counts readMode nbits nmodules counts)
    (halloc : alloc (nmodules * channelsPerModule) = some stale)
    (hstale : stale.length = nmodules * channelsPerModule) :
    ((packReadout readMode nbits nmodules counts).length = readoutLen readMode nmodules nbits ∧
        takeReply alloc readMode nbits nmodules (packReadout readMode nbits nmodules counts) =
          .published counts ↔ TopClear (decodeNbits readMode nbits) counts) ∧
      (takeReply alloc readMode nbits nmodules (packReadout readMode nbits nmodules counts) =
          .errorWord ↔ ¬ TopClear (decodeNbits readMode nbits) counts) := by
  have hdepth := (hoffered.decodeNbits readMode).depth
  have hwhole := @length_packReadout readMode nbits nmodules counts
  have hlen : counts.length = channelsPerWord (decodeNbits readMode nbits) *
      (nmodules * (channelsPerModule / channelsPerWord (decodeNbits readMode nbits))) := by
    rw [hcounts.length, Nat.mul_left_comm, hdepth.perModule]
  have hwords : 0 < nmodules * (channelsPerModule / channelsPerWord (decodeNbits readMode nbits)) := by
    have hcount : 0 < counts.length := by
      rw [hcounts.length]
      exact Nat.mul_pos hmodules (by decide)
    rw [hlen] at hcount
    exact Nat.pos_of_mul_pos_left hcount
  have hlong : 4 ≤ (packReadout readMode nbits nmodules counts).length := by
    rw [packReadout, length_packWords]
    omega
  have hfirst := first_nonneg_iff hdepth hcounts.fits hlen hwords
  have hdecode := decode_packWords hdepth hcounts.fits hlen (hstale.trans hcounts.length.symm)
  rw [takeReply, if_pos hwhole, publish, halloc]
  by_cases hclear : TopClear (decodeNbits readMode nbits) counts
  · rw [if_pos ⟨hlong, hfirst.2 hclear⟩]
    refine ⟨iff_of_true ⟨hwhole, congrArg Taken.published hdecode⟩ hclear, ?_⟩
    exact iff_of_false nofun (not_not.2 hclear)
  · rw [if_neg fun h => hclear (hfirst.1 h.2)]
    exact ⟨iff_of_false (fun h => nomatch h.2) hclear, iff_of_true rfl hclear⟩

/-- One module of 24-bit counts, all 7. -/
theorem takeReply_readout_sevens :
    takeReply (fun n => some (List.replicate n 0)) readModeRaw 24 1
      (packReadout readModeRaw 24 1 (List.replicate 1280 7)) = .published (List.replicate 1280 7) := by
  have hcounts : Counts readModeRaw 24 1 (List.replicate 1280 7) := by
    refine ⟨List.length_replicate, fun c hc => ?_⟩
    rw [List.eq_of_mem_replicate hc]
    decide
  exact ((takeReply_readout_iff (.inl rfl) Nat.one_pos hcounts rfl List.length_replicate).1.2
    (.inl rfl)).2

/-- One module of 8-bit counts, all 200, is whole, and taken for an error. -/
theorem readout_taken_for_error :
    Counts readModeRaw 8 1 (List.replicate 1280 200) ∧
      (packReadout readModeRaw 8 1 (List.replicate 1280 200)).length = readoutLen readModeRaw 1 8 ∧
      takeReply (fun n => some (List.replicate n 0)) readModeRaw 8 1
        (packReadout readModeRaw 8 1 (List.replicate 1280 200)) = .errorWord := by
  refine ⟨⟨List.length_replicate, fun c hc => ?_⟩, length_packReadout, by decide +kernel⟩
  rw [List.eq_of_mem_replicate hc]
  decide

end Mythen
