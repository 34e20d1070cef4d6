import EpicsIocs.Bruker.Frame
import EpicsIocs.Lib.Blocks

/-!
# Frame files for every image

A header with the numbers it is to say (`parseHeader_headerBytes`), and the spellings of an image's
pixels; the two make a file for every image of 32-bit pixels, at any pixel width and any baseline that
the image can have (`exists_file`).
-/

namespace Bruker

open Faults Bytes Machine Ints

/-! ## Header lines -/

def asciiBytes (text : List Char) : List UInt8 := text.map fun c => UInt8.ofNat c.toNat

/-- Numbers, each with a blank behind it. -/
def numbersText (vs : List Int) : List Char := vs.flatMap fun v => decimal v ++ [' ']

/-- A line without a key. -/
def lineBytes (vs : List Int) : List UInt8 :=
  List.replicate dataOffset 32 ++
    asciiBytes (numbersText vs ++ List.replicate (lineLen - dataOffset - (numbersText vs).length) ' ')

theorem fromUtf8Lossy_asciiBytes {text : List Char} (h : ∀ c ∈ text, c.toNat < 128) :
    (Eiger.fromUtf8Lossy (asciiBytes text)).toList = text := by
  have hbytes : asciiBytes text = Eiger.utf8 (String.ofList text) := by
    induction text with
    | nil => rfl
    | cons c text ih =>
      have hc := h c List.mem_cons_self
      have hone : ∀ n < 128, Eiger.utf8 (String.ofList [Char.ofNat n]) = [UInt8.ofNat n] := by
        decide +kernel
      have hcons : Eiger.utf8 (String.ofList (c :: text)) =
          Eiger.utf8 (String.ofList [c]) ++ Eiger.utf8 (String.ofList text) := by
        rw [← List.singleton_append, String.ofList_append, Eiger.utf8, String.toByteArray_append]
        simp [Eiger.utf8]
      have hchar := hone c.toNat hc
      rw [Char.ofNat_toNat] at hchar
      rw [hcons, hchar, ← ih fun d hd => h d (List.mem_cons_of_mem _ hd)]
      rfl
  rw [hbytes, Eiger.fromUtf8Lossy_utf8, String.toList_ofList]

theorem ascii_numbersText {vs : List Int} : ∀ c ∈ numbersText vs, c.toNat < 128 := by
  intro c hc
  obtain ⟨v, -, hc⟩ := List.mem_flatMap.1 hc
  obtain hc | hc := List.mem_append.1 hc
  · obtain rfl | hdigit := mem_decimal hc
    · decide
    · rw [Char.isDigit, Bool.and_eq_true, decide_eq_true_eq, decide_eq_true_eq] at hdigit
      have hhi : c.toNat ≤ 57 := UInt32.le_iff_toNat_le.1 hdigit.2
      omega
  · rw [List.mem_singleton.1 hc]
    decide

theorem solid_decimal (v : Int) : ∀ c ∈ decimal v, Text.isWhitespace c = false := by
  intro c hc
  obtain rfl | hdigit := mem_decimal hc
  · decide
  · exact Text.isWhitespace_of_isDigit hdigit

theorem splitWhitespace_blanks (n : Nat) : Text.splitWhitespace (List.replicate n ' ') = [] := by
  induction n with
  | zero => rfl
  | succ n ih =>
    unfold Text.splitWhitespace at ih ⊢
    rw [List.replicate_succ, List.splitOnP_cons_eq_if_modifyHead, if_pos (by decide)]
    exact ih

/-- The groups of a line are its numbers. -/
theorem splitWhitespace_numbersText (vs : List Int) (n : Nat) :
    Text.splitWhitespace (numbersText vs ++ List.replicate n ' ') = vs.map decimal := by
  induction vs with
  | nil => exact splitWhitespace_blanks n
  | cons v vs ih =>
    have hne : decimal v ≠ [] := by
      unfold decimal
      split
      · exact List.cons_ne_nil _ _
      · exact Nat.toDigits_ne_nil
    have htext : numbersText (v :: vs) ++ List.replicate n ' ' =
        decimal v ++ ' ' :: (numbersText vs ++ List.replicate n ' ') := by
      unfold numbersText
      rw [List.flatMap_cons, List.append_assoc, List.append_assoc]
      rfl
    unfold Text.splitWhitespace at ih ⊢
    rw [htext, List.splitOnP_append_cons_of_forall_mem (solid_decimal v) ' ' (by decide),
      List.filter_cons_of_pos (by simpa using hne), ih]
    rfl

theorem mapWhile_decimal {vs : List Int} (h : ∀ v ∈ vs, int64.Holds v) :
    mapWhile int64.parse (vs.map decimal) = vs := by
  induction vs with
  | nil => rfl
  | cons v vs ih =>
    rw [List.map_cons, mapWhile, IntType.parse_decimal (h v List.mem_cons_self)]
    dsimp only
    rw [ih fun w hw => h w (List.mem_cons_of_mem _ hw)]

/-- A line with no more text than it has room for. -/
def Fits (vs : List Int) : Prop :=
  (∀ v ∈ vs, int64.Holds v) ∧ (numbersText vs).length ≤ lineLen - dataOffset

/-- Lines, and blanks up to the end of the last block. -/
def headerBytes (lines : Nat → List Int) : List UInt8 :=
  (List.range linesRead).flatMap (fun n => lineBytes (lines n)) ++ List.replicate 256 32

section
variable {lines : Nat → List Int} {rest : List UInt8}

theorem length_lineBytes {vs : List Int} (h : Fits vs) : (lineBytes vs).length = lineLen := by
  have hroom := h.2
  have hsum : dataOffset + (lineLen - dataOffset) = lineLen := rfl
  unfold lineBytes asciiBytes
  rw [List.length_append, List.length_replicate, List.length_map, List.length_append,
    List.length_replicate]
  omega

theorem even_lineBytes (h : ∀ n, Fits (lines n)) :
    Blocks.Even lineLen ((List.range linesRead).map fun n => lineBytes (lines n)) := by
  intro b hb
  obtain ⟨n, -, rfl⟩ := List.mem_map.1 hb
  exact length_lineBytes (h n)

theorem length_headerBytes (h : ∀ n, Fits (lines n)) : (headerBytes lines).length = 6656 := by
  unfold headerBytes
  rw [List.length_append, List.length_replicate, List.flatMap_def, (even_lineBytes h).length_flatten,
    List.length_map, List.length_range]
  rfl

/-- The line's numbers are read back. -/
theorem numbers_headerBytes (h : ∀ n, Fits (lines n)) {n count : Nat} (hn : n < linesRead)
    (hcount : count ≤ (lines n).length) :
    numbers (headerBytes lines ++ rest) n count = .ok (lines n) := by
  have hlen := length_headerBytes h
  have hline : (n + 1) * lineLen ≤ 6400 := Nat.mul_le_mul_right lineLen (show n + 1 ≤ 80 from hn)
  have hoff : dataOffset ≤ lineLen := by decide
  have hstop : (n + 1) * lineLen = n * lineLen + lineLen := Nat.succ_mul n lineLen
  have hslice : (slice (headerBytes lines ++ rest) (n * lineLen + dataOffset) ((n + 1) * lineLen) :
      Outcome String (List UInt8)) = .ok ((lineBytes (lines n)).drop dataOffset) := by
    rw [slice_of_le (by omega) (by rw [List.length_append]; omega)]
    congr 1
    have hblock : Blocks.block lineLen (headerBytes lines ++ rest) n = lineBytes (lines n) := by
      unfold headerBytes
      rw [List.append_assoc, ← Blocks.block_take (n := lineLen) hn, List.flatMap_def, List.take_left',
        (even_lineBytes h).block_flatten (by simpa using hn), List.getElem_map, List.getElem_range]
      rw [(even_lineBytes h).length_flatten, List.length_map, List.length_range]
    rw [← hblock, Blocks.block, List.drop_take, List.drop_drop]
    congr 1
    omega
  have htext : (lineBytes (lines n)).drop dataOffset =
      asciiBytes (numbersText (lines n) ++
        List.replicate (lineLen - dataOffset - (numbersText (lines n)).length) ' ') :=
    List.drop_left' List.length_replicate
  unfold numbers
  dsimp only
  rw [if_neg (by rw [List.length_append]; omega), hslice]
  show (if _ then _ else _) = _
  rw [htext, fromUtf8Lossy_asciiBytes, splitWhitespace_numbersText, mapWhile_decimal (h n).1,
    if_neg (Nat.not_lt.2 hcount)]
  intro c hc
  obtain hc | hc := List.mem_append.1 hc
  · exact ascii_numbersText c hc
  · rw [List.eq_of_mem_replicate hc]
    decide

end

/-! ## A header -/

theorem length_decimal_le {v : Int} {k : Nat} (hk : 0 < k) (h : v.natAbs < 10 ^ k) :
    (decimal v).length ≤ k + 1 := by
  have hdigits := (Nat.length_toDigits_le_iff (by decide : 1 < 10) hk).2 h
  unfold decimal
  split
  · rw [List.length_cons]
    omega
  · omega

theorem length_numbersText_le {vs : List Int} {k : Nat} (hk : 0 < k) (h : ∀ v ∈ vs, v.natAbs < 10 ^ k) :
    (numbersText vs).length ≤ vs.length * (k + 2) := by
  induction vs with
  | nil => exact Nat.zero_le _
  | cons v vs ih =>
    have hv := length_decimal_le hk (h v List.mem_cons_self)
    have ih := ih fun w hw => h w (List.mem_cons_of_mem _ hw)
    unfold numbersText at ih ⊢
    rw [List.flatMap_cons, List.length_append, List.length_append, List.length_singleton,
      List.length_cons, Nat.succ_mul]
    omega

theorem fits_of_lt {vs : List Int} (hlen : vs.length ≤ 6) (h : ∀ v ∈ vs, v.natAbs < 10 ^ 10) : Fits vs := by
  refine ⟨fun v hv => ?_, ?_⟩
  · have hlt := h v hv
    constructor
    · show -(9223372036854775808 : Int) ≤ v
      omega
    · show v < 9223372036854775808
      omega
  · have hle := length_numbersText_le (by decide) h
    have hroom : lineLen - dataOffset = 72 := rfl
    omega

/-- The lines that are read of a header. -/
def linesOf (h : Header) : Nat → List Int
  | 0 => [h.format]
  | 1 => [h.version]
  | 2 => [h.headerBlocks]
  | 20 => [h.numUnderflows, h.numOverflows1, h.numOverflows2]
  | 39 => [h.bytesPerPixel, h.underflowBytesPerPixel]
  | 40 => [h.rows]
  | 41 => [h.cols]
  | 42 => [h.wordOrder]
  | 79 => [h.numExposures, h.bias, h.baselineOffset, h.orientation, h.overscan]
  | _ => []

def IsI32 (v : Int) : Prop := -2 ^ 31 ≤ v ∧ v < 2 ^ 31

/-- A header that `headerBytes` can say. -/
structure Writable (h : Header) : Prop where
  format_eq : h.format = 100
  version_ge : 11 ≤ h.version
  blocks_eq : h.headerBlocks = 13
  width : isWidth h.bytesPerPixel = true
  underflowWidth : isWidth h.underflowBytesPerPixel = true
  rows_pos : 0 < h.rows
  rows_lt : h.rows < 2 ^ 31
  cols_pos : 0 < h.cols
  cols_lt : h.cols < 2 ^ 31
  order_eq : h.wordOrder = 0
  isI32 : ∀ v ∈ [h.version, h.numUnderflows, h.numOverflows1, h.numOverflows2, h.numExposures, h.bias,
    h.baselineOffset, h.orientation, h.overscan], IsI32 v

theorem asI32_eq {v : Int} (h : IsI32 v) : asI32 v = v := by
  obtain ⟨hlo, hhi⟩ := h
  unfold asI32
  apply Int.bmod_eq_of_le
  · omega
  · omega

theorem length_linesOf_le (h : Header) (n : Nat) : (linesOf h n).length ≤ 6 := by
  unfold linesOf
  split <;> simp

theorem Writable.fits {h : Header} (hw : Writable h) (n : Nat) : Fits (linesOf h n) := by
  have hall : ∀ v ∈ [h.version, h.numUnderflows, h.numOverflows1, h.numOverflows2, h.numExposures, h.bias,
      h.baselineOffset, h.orientation, h.overscan], v.natAbs < 10 ^ 10 := by
    intro v hv
    obtain ⟨hlo, hhi⟩ := hw.isI32 v hv
    omega
  simp only [List.forall_mem_cons] at hall
  obtain ⟨hversion, hnu, hn1, hn2, hexposures, hbias, hbaseline, horientation, hoverscan, -⟩ := hall
  have hnone : ∀ v ∈ ([] : List Int), v.natAbs < 10 ^ 10 := nofun
  refine fits_of_lt (length_linesOf_le h n) ?_
  unfold linesOf
  split <;> try simp only [List.forall_mem_cons]
  · exact ⟨by rw [hw.format_eq]; decide, hnone⟩
  · exact ⟨hversion, hnone⟩
  · exact ⟨by rw [hw.blocks_eq]; decide, hnone⟩
  · exact ⟨hnu, hn1, hn2, hnone⟩
  · have hwidth := width_le hw.width
    have hunder := width_le hw.underflowWidth
    exact ⟨by omega, by omega, hnone⟩
  · have hrows := hw.rows_lt
    exact ⟨by omega, hnone⟩
  · have hcols := hw.cols_lt
    exact ⟨by omega, hnone⟩
  · exact ⟨by rw [hw.order_eq]; decide, hnone⟩
  · exact ⟨hexposures, hbias, hbaseline, horientation, hoverscan, hnone⟩
  · exact hnone

/-- **The header reads back.** -/
theorem parseHeader_headerBytes {checks : Bool} {h : Header} (hw : Writable h) (rest : List UInt8) :
    parseHeader checks (headerBytes (linesOf h) ++ rest) = .ok h := by
  have hread : ∀ n count, n < linesRead → count ≤ (linesOf h n).length →
      numbers (headerBytes (linesOf h) ++ rest) n count = .ok (linesOf h n) := fun n count hn hcount =>
    numbers_headerBytes hw.fits hn hcount
  have hlen : 6656 ≤ (headerBytes (linesOf h) ++ rest).length := by
    rw [List.length_append, length_headerBytes hw.fits]
    omega
  have hi32 : ∀ v ∈ [h.version, h.numUnderflows, h.numOverflows1, h.numOverflows2, h.numExposures, h.bias,
      h.baselineOffset, h.orientation, h.overscan], asI32 v = v := fun v hv => asI32_eq (hw.isI32 v hv)
  simp only [List.forall_mem_cons] at hi32
  obtain ⟨hversion, hnu, hn1, hn2, hexposures, hbias, hbaseline, horientation, hoverscan, -⟩ := hi32
  have hformat := hw.format_eq
  have hrows := hw.rows_pos
  have hcols := hw.cols_pos
  have hversion' := hw.version_ge
  have hmul : (mul checks (13 : Int).toNat blockLen : Outcome String Nat) = .ok 6656 := mul_of_le (by decide)
  generalize headerBytes (linesOf h) ++ rest = bytes at hread hlen
  unfold parseHeader
  rw [hread 0 1 (by decide) (Nat.le_refl _), hread 1 1 (by decide) (Nat.le_refl _),
    hread 2 1 (by decide) (Nat.le_refl _), hread 20 3 (by decide) (Nat.le_refl _),
    hread 39 2 (by decide) (Nat.le_refl _), hread 40 1 (by decide) (Nat.le_refl _),
    hread 41 1 (by decide) (Nat.le_refl _), hread 42 1 (by decide) (Nat.le_refl _),
    hread 79 5 (by decide) (Nat.le_refl _)]
  simp only [linesOf, bind, Except.bind, List.getD_cons_zero, List.getD_cons_succ]
  have horder : asI32 h.wordOrder = 0 := by
    rw [hw.order_eq]
    rfl
  have hformat' : asI32 h.format = h.format := by
    rw [hformat]
    rfl
  have hblocks : ((h.headerBlocks : Int)).toNat = 13 := by
    rw [hw.blocks_eq]
    rfl
  have hmul : (mul checks 13 blockLen : Outcome String Nat) = .ok 6656 := mul_of_le (by decide)
  have hroom : ¬(bytes.length < 6656 ∨ 6656 < linesRead * lineLen) := by
    have hsum : linesRead * lineLen = 6400 := rfl
    omega
  rw [hformat', hversion, horder, hnu, hn1, hn2, hexposures, hbias, hbaseline, horientation, hoverscan,
    hblocks, hmul, hw.width, hw.underflowWidth, if_neg (by omega), if_neg (by rw [hw.blocks_eq]; decide)]
  dsimp only
  rw [if_neg hroom, if_neg (not_not.2 rfl), if_neg (by decide), if_neg (by decide), if_neg (by omega)]
  congr 1
  have hsame := hw.blocks_eq
  have hzero := hw.order_eq
  cases h
  dsimp only at hsame hzero
  subst hsame hzero
  rfl

/-- A frame of one byte. -/
theorem decode_eq_ok_one :
    decode true (headerBytes (linesOf ⟨100, 11, 13, 0, 0, 0, 1, 2, 1, 1, 0, 1, 0, 0, 0, 0⟩) ++ [5]) =
        .ok ⟨1, 1, [5]⟩ ↔
      ∃ codes t, Stored ⟨100, 11, 13, 0, 0, 0, 1, 2, 1, 1, 0, 1, 0, 0, 0, 0⟩
          (headerBytes (linesOf ⟨100, 11, 13, 0, 0, 0, 1, 2, 1, 1, 0, 1, 0, 0, 0, 0⟩) ++ [5]) codes t ∧
        ∃ ss : List (Spelling 1 (t.underflows ≠ [])), Spelled codes t ⟨0, 0, 0⟩ ss ∧
          (⟨1, 1, [5]⟩ : Image) = ⟨1, 1, ss.map (Spelling.value 0)⟩ := by
  have hw : Writable ⟨100, 11, 13, 0, 0, 0, 1, 2, 1, 1, 0, 1, 0, 0, 0, 0⟩ := by
    refine ⟨rfl, by decide, rfl, by decide, by decide, by decide, by decide, by decide, by decide, rfl, ?_⟩
    simp [IsI32]
  have hfile : (headerBytes (linesOf ⟨100, 11, 13, 0, 0, 0, 1, 2, 1, 1, 0, 1, 0, 0, 0, 0⟩) ++
      [5]).length ≤ isizeMax := by
    rw [List.length_append, length_headerBytes hw.fits]
    decide
  exact decode_eq_ok hfile (parseHeader_headerBytes hw _) fun _ => by decide

/-! ## Spellings of an image -/

/-- The value that a pixel is stored as. -/
def stored (baseline : Int) (v : Nat) : Nat := (v + (2 ^ 32 - (baseline % 2 ^ 32).toNat)) % 2 ^ 32

/-- The entries of a spelling fit their tables. -/
structure Fitting {bytesPerPixel : Nat} {hasUnderflows : Prop} (s : Spelling bytesPerPixel hasUnderflows) :
    Prop where
  code_lt : s.code < 256 ^ bytesPerPixel
  over1_lt : ∀ v ∈ s.over1, v < 256 ^ 2
  over2_lt : ∀ v ∈ s.over2, v < 256 ^ 4

/-- Every value but 0 is spelled without an underflow. -/
theorem exists_spelling_raw {bytesPerPixel raw : Nat} (hasUnderflows : Prop)
    (hw : isWidth bytesPerPixel = true) (hraw : raw < 2 ^ 32) (hpos : raw ≠ 0) :
    ∃ s : Spelling bytesPerPixel hasUnderflows, s.raw = raw ∧ s.under = none ∧ Fitting s := by
  have hnone : (none : Option Nat).isSome = true ↔ False := iff_of_false Bool.false_ne_true id
  have hcases : bytesPerPixel = 4 ∨ bytesPerPixel = 2 ∨ bytesPerPixel = 1 := by
    unfold isWidth at hw
    simp only [Bool.or_eq_true, decide_eq_true_eq] at hw
    omega
  have hover2 : ∀ v ∈ some raw, v < 256 ^ 4 := by
    intro v hv
    rw [← Option.some.inj hv]
    omega
  obtain rfl | rfl | rfl := hcases
  · refine ⟨⟨raw, none, none, none, ?_, ?_, ?_⟩, rfl, rfl, ⟨hraw, nofun, nofun⟩⟩
    · simp
    · simp
    · simp [hpos]
  · by_cases h : raw < 65535
    · have hcode : raw < 256 ^ 2 := by omega
      have hplain : raw ≠ 65535 := by omega
      refine ⟨⟨raw, none, none, none, ?_, ?_, ?_⟩, rfl, rfl, ⟨hcode, nofun, nofun⟩⟩
      · simp
      · simp [hplain]
      · simp [hpos]
    · have hcode : 65535 < 256 ^ 2 := by decide
      refine ⟨⟨65535, none, some raw, none, ?_, ?_, ?_⟩, rfl, rfl, ⟨hcode, nofun, hover2⟩⟩
      · simp
      · simp
      · simp [hpos]
  · have hmark : 255 < 256 ^ 1 := by decide
    by_cases h : raw < 255
    · have hcode : raw < 256 ^ 1 := by omega
      have hplain : raw ≠ 255 ∧ raw ≠ 65535 := by omega
      refine ⟨⟨raw, none, none, none, ?_, ?_, ?_⟩, rfl, rfl, ⟨hcode, nofun, nofun⟩⟩
      · simp [hplain.1]
      · simp [hplain.2]
      · simp [hpos]
    · by_cases h' : raw < 65535
      · have hplain : raw ≠ 65535 := by omega
        have hover1 : ∀ v ∈ some raw, v < 256 ^ 2 := by
          intro v hv
          rw [← Option.some.inj hv]
          omega
        refine ⟨⟨255, some raw, none, none, ?_, ?_, ?_⟩, rfl, rfl, ⟨hmark, hover1, nofun⟩⟩
        · simp
        · simp [hplain]
        · simp [hpos]
      · have hover1 : ∀ v ∈ some 65535, v < 256 ^ 2 := by
          intro v hv
          rw [← Option.some.inj hv]
          decide
        refine ⟨⟨255, some 65535, some raw, none, ?_, ?_, ?_⟩, rfl, rfl, ⟨hmark, hover1, hover2⟩⟩
        · simp
        · simp
        · simp [hpos]

/-- A pixel that is the baseline is an underflow. -/
theorem exists_spelling {bytesPerPixel v : Nat} {baseline : Int} {hasUnderflows : Prop}
    (hw : isWidth bytesPerPixel = true) (hv : v < 2 ^ 32)
    (hunder : v = (baseline % 2 ^ 32).toNat → hasUnderflows) :
    ∃ s : Spelling bytesPerPixel hasUnderflows, s.value baseline = v ∧
      s.under = (if v = (baseline % 2 ^ 32).toNat then some v else none) ∧ Fitting s := by
  have hbase : (baseline % 2 ^ 32).toNat < 2 ^ 32 := by omega
  by_cases h : v = (baseline % 2 ^ 32).toNat
  · have hP := hunder h
    have hcode : 0 < 256 ^ bytesPerPixel := Nat.pos_of_ne_zero (by simp)
    refine ⟨⟨0, none, none, some v, ?_, ?_, ?_⟩, rfl, (if_pos h).symm, ⟨hcode, nofun, nofun⟩⟩
    · simp
    · simp
    · simp [hP]
  · have hpos : stored baseline v ≠ 0 := by
      unfold stored
      omega
    obtain ⟨s, hs, hnone, hfit⟩ := exists_spelling_raw hasUnderflows hw
      (show stored baseline v < 2 ^ 32 from Nat.mod_lt _ (by decide)) hpos
    refine ⟨s, ?_, by rw [hnone, if_neg h], hfit⟩
    unfold Spelling.value
    rw [hs, if_neg hpos]
    unfold stored
    split <;> omega

theorem exists_spellings {bytesPerPixel : Nat} {baseline : Int} (hasUnderflows : Prop) {pixels : List Nat}
    (hw : isWidth bytesPerPixel = true) (hpixels : ∀ v ∈ pixels, v < 2 ^ 32)
    (hunder : ∀ v ∈ pixels, v = (baseline % 2 ^ 32).toNat → hasUnderflows) :
    ∃ ss : List (Spelling bytesPerPixel hasUnderflows), ss.map (Spelling.value baseline) = pixels ∧
      ss.flatMap (fun s => s.under.toList) = pixels.filter (· = (baseline % 2 ^ 32).toNat) ∧
      ∀ s ∈ ss, Fitting s := by
  induction pixels with
  | nil => exact ⟨[], rfl, rfl, nofun⟩
  | cons v pixels ih =>
    rw [List.forall_mem_cons] at hpixels hunder
    obtain ⟨s, hvalue, hs, hfit⟩ := exists_spelling hw hpixels.1 hunder.1
    obtain ⟨ss, hvalues, hss, hfits⟩ := ih hpixels.2 hunder.2
    refine ⟨s :: ss, by rw [List.map_cons, hvalue, hvalues], ?_, List.forall_mem_cons.2 ⟨hfit, hfits⟩⟩
    rw [List.flatMap_cons, hs, hss, List.filter_cons]
    by_cases h : v = (baseline % 2 ^ 32).toNat
    · rw [if_pos h, if_pos (decide_eq_true h)]
      rfl
    · rw [if_neg h, if_neg (by simpa using h)]
      rfl

/-! ## Files -/

/-- The entries and what pads them. -/
def tableBytes (width : Nat) (entries : List Nat) : List UInt8 :=
  entries.flatMap (leBytes width) ++
    List.replicate ((entries.length * width + 15) / 16 * 16 - entries.length * width) 0

theorem length_tableBytes (width : Nat) (entries : List Nat) :
    (tableBytes width entries).length = (entries.length * width + 15) / 16 * 16 := by
  unfold tableBytes
  rw [List.length_append, length_flatMap_leBytes, List.length_replicate]
  omega

theorem tableAt_tableBytes {width start stop : Nat} {entries : List Nat} {before after : List UInt8}
    (h : ∀ v ∈ entries, v < 256 ^ width) (hstart : start = before.length)
    (hstop : stop = (before ++ tableBytes width entries).length) :
    TableAt (before ++ tableBytes width entries ++ after) start entries.length width entries stop := by
  rw [List.length_append, length_tableBytes] at hstop
  refine ⟨rfl, h, ?_, by omega, ?_⟩
  · rw [hstart, List.append_assoc, List.drop_left, tableBytes, List.append_assoc]
    exact List.prefix_append _ _
  · rw [List.length_append, List.length_append, length_tableBytes]
    omega

/-- A file with these spellings behind a header. -/
def fileBytes {bytesPerPixel : Nat} {hasUnderflows : Prop} (header : List UInt8) (underflowWidth : Nat)
    (underflows : List Nat) (ss : List (Spelling bytesPerPixel hasUnderflows)) : List UInt8 :=
  header ++ (ss.map Spelling.code).flatMap (leBytes bytesPerPixel) ++ tableBytes underflowWidth underflows ++
    tableBytes 2 (ss.flatMap fun s => s.over1.toList) ++ tableBytes 4 (ss.flatMap fun s => s.over2.toList)

theorem mem_flatMap_toList {bytesPerPixel : Nat} {hasUnderflows : Prop}
    {ss : List (Spelling bytesPerPixel hasUnderflows)} {part : Spelling bytesPerPixel hasUnderflows → Option Nat}
    {v : Nat} (h : v ∈ ss.flatMap fun s => (part s).toList) : ∃ s ∈ ss, v ∈ part s := by
  obtain ⟨s, hs, hv⟩ := List.mem_flatMap.1 h
  exact ⟨s, hs, Option.mem_toList.1 hv⟩

theorem length_flatMap_toList {bytesPerPixel : Nat} {hasUnderflows : Prop}
    (ss : List (Spelling bytesPerPixel hasUnderflows)) (part : Spelling bytesPerPixel hasUnderflows → Option Nat) :
    (ss.flatMap fun s => (part s).toList).length ≤ ss.length := by
  induction ss with
  | nil => exact Nat.le_refl _
  | cons s ss ih =>
    have hone : (part s).toList.length ≤ 1 := by
      cases part s with
      | none => exact Nat.zero_le _
      | some v => exact Nat.le_refl _
    rw [List.flatMap_cons, List.length_append, List.length_cons]
    omega

/-- The file stores what it is made of. -/
theorem stored_fileBytes {h : Header} {hasUnderflows : Prop} {header : List UInt8} {u : List Nat}
    {ss : List (Spelling h.bytesPerPixel hasUnderflows)} (hheader : header.length = 6656)
    (hblocks : h.headerBlocks = 13) (hlen : ss.length = h.rows * h.cols) (hsize : ss.length < 2 ^ 64)
    (hu : ∀ v ∈ u, v < 256 ^ h.underflowBytesPerPixel) (hfit : ∀ s ∈ ss, Fitting s)
    (hnu : h.numUnderflows = u.length)
    (hn1 : h.numOverflows1 = (ss.flatMap fun s => s.over1.toList).length)
    (hn2 : h.numOverflows2 = (ss.flatMap fun s => s.over2.toList).length) :
    Stored h (fileBytes header h.underflowBytesPerPixel u ss) (ss.map Spelling.code)
      ⟨u, ss.flatMap fun s => s.over1.toList, ss.flatMap fun s => s.over2.toList⟩ := by
  have hstart : h.headerBlocks * blockLen % 2 ^ 64 = header.length := by
    rw [hblocks, hheader]
    rfl
  let o1 := ss.flatMap fun s => s.over1.toList
  let o2 := ss.flatMap fun s => s.over2.toList
  let codes := header ++ (ss.map Spelling.code).flatMap (leBytes h.bytesPerPixel)
  have ho1 : ∀ v ∈ o1, v < 256 ^ 2 := by
    intro v hv
    obtain ⟨s, hs, hv⟩ := mem_flatMap_toList hv
    exact (hfit s hs).over1_lt v hv
  have ho2 : ∀ v ∈ o2, v < 256 ^ 4 := by
    intro v hv
    obtain ⟨s, hs, hv⟩ := mem_flatMap_toList hv
    exact (hfit s hs).over2_lt v hv
  have hpixels : codes.length = header.length + (ss.map Spelling.code).length * h.bytesPerPixel := by
    rw [List.length_append, length_flatMap_leBytes]
  have hfirst : fileBytes header h.underflowBytesPerPixel u ss =
      codes ++ tableBytes h.underflowBytesPerPixel u ++ (tableBytes 2 o1 ++ tableBytes 4 o2) :=
    List.append_assoc _ _ _
  have hlast : fileBytes header h.underflowBytesPerPixel u ss =
      codes ++ tableBytes h.underflowBytesPerPixel u ++ tableBytes 2 o1 ++ tableBytes 4 o2 ++ [] :=
    (List.append_nil _).symm
  refine ⟨?_, fun v hv => ?_, ?_, (codes ++ tableBytes h.underflowBytesPerPixel u).length,
    (codes ++ tableBytes h.underflowBytesPerPixel u ++ tableBytes 2 o1).length,
    (codes ++ tableBytes h.underflowBytesPerPixel u ++ tableBytes 2 o1 ++ tableBytes 4 o2).length, ?_, ?_, ?_⟩
  · rw [List.length_map, ← hlen, Nat.mod_eq_of_lt hsize]
  · obtain ⟨s, hs, rfl⟩ := List.mem_map.1 hv
    exact (hfit s hs).code_lt
  · rw [hstart, hfirst, List.append_assoc, List.append_assoc, List.drop_left]
    exact List.prefix_append _ _
  · rw [hnu, hstart, ← hpixels, hfirst]
    exact tableAt_tableBytes hu rfl rfl
  · rw [hn1]
    exact tableAt_tableBytes ho1 rfl rfl
  · rw [hn2, hlast]
    exact tableAt_tableBytes ho2 rfl rfl

/-- The header of a file with so many pixels and table entries. -/
abbrev headerOf (rows cols width underflowWidth : Nat) (baseline : Int) (u o1 o2 : Nat) : Header :=
  { format := 100, version := 11, headerBlocks := 13, numUnderflows := u, numOverflows1 := o1
    numOverflows2 := o2, bytesPerPixel := width, underflowBytesPerPixel := underflowWidth, rows := rows
    cols := cols, wordOrder := 0, numExposures := 1, bias := 0, baselineOffset := baseline
    orientation := 0, overscan := 0 }

/-- There are no more entries than pixels. -/
theorem writable_headerOf {rows cols width underflowWidth u o1 o2 : Nat} {baseline : Int}
    (hrows : 0 < rows) (hcols : 0 < cols) (hsize : rows * cols < 2 ^ 31) (hwidth : isWidth width = true)
    (hunder : isWidth underflowWidth = true) (hbase : IsI32 baseline) (hu : u ≤ rows * cols)
    (ho1 : o1 ≤ rows * cols) (ho2 : o2 ≤ rows * cols) :
    Writable (headerOf rows cols width underflowWidth baseline u o1 o2) := by
  have hrowsle : rows ≤ rows * cols := Nat.le_mul_of_pos_right rows hcols
  have hcolsle : cols ≤ rows * cols := Nat.le_mul_of_pos_left cols hrows
  have hnat : ∀ n : Nat, n < 2 ^ 31 → IsI32 n := fun n hn => ⟨by omega, by omega⟩
  refine ⟨rfl, Int.le_refl 11, rfl, hwidth, hunder, hrows, hrowsle.trans_lt hsize, hcols,
    hcolsle.trans_lt hsize, rfl, ?_⟩
  simp only [List.forall_mem_cons]
  exact ⟨hnat 11 (by decide), hnat _ (hu.trans_lt hsize), hnat _ (ho1.trans_lt hsize),
    hnat _ (ho2.trans_lt hsize), hnat 1 (by decide), hnat 0 (by decide), hbase, hnat 0 (by decide),
    hnat 0 (by decide), nofun⟩

/-- A file of fewer than `2 ^ 31` pixels can be addressed. -/
theorem length_fileBytes_le {width underflowWidth : Nat} {hasUnderflows : Prop} {header : List UInt8}
    {underflows : List Nat} {ss : List (Spelling width hasUnderflows)} (hheader : header.length = 6656)
    (hwidth : isWidth width = true) (hunder : isWidth underflowWidth = true) (hsize : ss.length < 2 ^ 31)
    (hu : underflows.length ≤ ss.length) :
    (fileBytes header underflowWidth underflows ss).length ≤ isizeMax := by
  have hwide : ss.length * width ≤ ss.length * 4 := Nat.mul_le_mul_left _ (width_le hwidth)
  have hwide' : underflows.length * underflowWidth ≤ underflows.length * 4 :=
    Nat.mul_le_mul_left _ (width_le hunder)
  have ho1 := length_flatMap_toList ss Spelling.over1
  have ho2 := length_flatMap_toList ss Spelling.over2
  have hmax : isizeMax = 2 ^ 63 - 1 := rfl
  unfold fileBytes
  simp only [List.length_append, length_tableBytes, length_flatMap_leBytes, List.length_map, hheader]
  omega

/-- **Every image has a file.**  The pixels are any 32-bit values, the pixel width, the underflow width and the
baseline any that a header can say; only a pixel that is the baseline itself has to fit an underflow. -/
theorem exists_file {checks : Bool} {rows cols width underflowWidth : Nat} {baseline : Int} {pixels : List Nat}
    (hrows : 0 < rows) (hcols : 0 < cols) (hsize : rows * cols < 2 ^ 31) (hlen : pixels.length = rows * cols)
    (hwidth : isWidth width = true) (hunder : isWidth underflowWidth = true) (hbase : IsI32 baseline)
    (hpixels : ∀ v ∈ pixels, v < 2 ^ 32)
    (hfit : ∀ v ∈ pixels, v = (baseline % 2 ^ 32).toNat → v < 256 ^ underflowWidth) :
    ∃ bytes h, parseHeader checks bytes = .ok h ∧ h.bytesPerPixel = width ∧
      h.underflowBytesPerPixel = underflowWidth ∧ h.baselineOffset = baseline ∧
      decode checks bytes = .ok ⟨rows, cols, pixels⟩ := by
  let u := pixels.filter (· = (baseline % 2 ^ 32).toNat)
  obtain ⟨ss, hvalues, hu, hfits⟩ := exists_spellings (u ≠ []) hwidth hpixels
    fun v hv heq => List.ne_nil_of_mem (List.mem_filter.2 ⟨hv, by simpa using heq⟩)
  let o1 := ss.flatMap fun s => s.over1.toList
  let o2 := ss.flatMap fun s => s.over2.toList
  have hcount : ss.length = rows * cols := by
    rw [← hlen, ← hvalues, List.length_map]
  have hulen : u.length ≤ pixels.length := List.length_filter_le _ _
  have ho1len : o1.length ≤ ss.length := length_flatMap_toList ss Spelling.over1
  have ho2len : o2.length ≤ ss.length := length_flatMap_toList ss Spelling.over2
  let h := headerOf rows cols width underflowWidth baseline u.length o1.length o2.length
  have hw : Writable h := writable_headerOf hrows hcols hsize hwidth hunder hbase (hulen.trans_eq hlen)
    (ho1len.trans_eq hcount) (ho2len.trans_eq hcount)
  have hheader := length_headerBytes hw.fits
  have hstored : Stored h (fileBytes (headerBytes (linesOf h)) underflowWidth u ss) (ss.map Spelling.code)
      ⟨u, o1, o2⟩ := by
    refine stored_fileBytes hheader rfl hcount (by omega) (fun v hv => ?_) hfits rfl rfl rfl
    obtain ⟨hmem, heq⟩ := List.mem_filter.1 hv
    exact hfit v hmem (by simpa using heq)
  have hspelled : Spelled (ss.map Spelling.code) ⟨u, o1, o2⟩ ⟨0, 0, 0⟩ ss := by
    refine ⟨rfl, List.prefix_rfl, List.prefix_rfl, ?_⟩
    rw [hu]
    exact List.prefix_rfl
  have hparse : parseHeader checks (fileBytes (headerBytes (linesOf h)) underflowWidth u ss) = .ok h := by
    unfold fileBytes
    rw [List.append_assoc, List.append_assoc, List.append_assoc]
    exact parseHeader_headerBytes hw _
  have hfile : (fileBytes (headerBytes (linesOf h)) underflowWidth u ss).length ≤ isizeMax :=
    length_fileBytes_le hheader hwidth hunder (hcount.trans_lt hsize) (hulen.trans_eq (hlen.trans hcount.symm))
  have hbaseline : h.baseline = baseline := if_neg (by dsimp only [h, headerOf]; omega)
  refine ⟨_, h, hparse, rfl, rfl, rfl, (decode_eq_ok hfile hparse fun _ => ?_).2
    ⟨_, _, hstored, ss, hspelled, ?_⟩⟩
  · have hmax : u64Max = 2 ^ 64 - 1 := rfl
    show rows * cols ≤ u64Max
    omega
  · rw [hbaseline, hvalues]

/-- An underflow, overflows of both tables and a plain pixel, of one byte each. -/
theorem exists_file_four : ∃ bytes h, parseHeader false bytes = .ok h ∧ h.bytesPerPixel = 1 ∧
    h.underflowBytesPerPixel = 2 ∧ h.baselineOffset = 12 ∧
    decode false bytes = .ok ⟨1, 4, [12, 1000, 70000, 7]⟩ :=
  exists_file (by decide) (by decide) (by decide) (by decide) (by decide) (by decide)
    ⟨by decide, by decide⟩ (by decide) (by decide)

end Bruker
