import EpicsIocs.Mar345.Unpack
import EpicsIocs.Mar345.Header

/-!
# Packed images and what is decoded from them

A packed image is a list of chunks whose deltas differ from its pixels by what is predicted of them; how
the pixels are cut into chunks and how wide the deltas are is the encoder's choice.

    Encodes x chunks img → getPck (file of chunks, with lines before and bytes behind) = img      (getPck_encoded)
    Encodes x chunks img → getPck of a part of the file has the pixels that lie in the part       (getPck_part)
-/

namespace Mar345

open BitStream Bytes

/-- A chunk: `2 ^ log` deltas of the width at `sel`. -/
structure Chunk where
  log : Nat
  sel : Nat
  deltas : List Int
  log_lt : log < 8
  sel_lt : sel < 8
  length_deltas : deltas.length = 2 ^ log
  fits : ∀ d ∈ deltas, d.bmod (2 ^ bitdecode sel) = d

/-- The descriptor and the first `k` deltas. -/
def Chunk.head (c : Chunk) (k : Nat) : List Field :=
  (3, c.log) :: (3, c.sel) ::
    (c.deltas.take k).map fun d => (bitdecode c.sel, (d % 2 ^ bitdecode c.sel).toNat)

def deltasOf (cs : List Chunk) : List Int := cs.flatMap Chunk.deltas

def fieldsOf (cs : List Chunk) : List Field := cs.flatMap fun c => c.head c.deltas.length

/-- The fields up to the `k`-th delta. -/
def fieldsUpTo : (k : Nat) → List Chunk → List Field
  | _, [] => []
  | k, c :: cs => if k = 0 then [] else c.head k ++ fieldsUpTo (k - c.deltas.length) cs

/-- The deltas are those of the image: a pixel is its delta and its prediction, as 16 bits. -/
structure Encodes (x : Nat) (cs : List Chunk) (img : List Int) : Prop where
  enough : img.length ≤ (deltasOf cs).length
  pixel : ∀ p v d, img[p]? = some v → (deltasOf cs)[p]? = some d → v = asI16 (d + predict x (img.take p))

/-- The bytes of a packed image, `n` of them for the chunks. -/
def bodyOf (n : Nat) (cs : List Chunk) : List UInt8 := leBytes n (packed (fieldsOf cs))

variable {x y nx ny total len k n : Nat} {s : Unpacker} {done img : List Int} {cs : List Chunk}

/-! ## Fields -/

theorem fieldsUpTo_zero (cs : List Chunk) : fieldsUpTo 0 cs = [] := by
  cases cs <;> rfl

theorem Chunk.head_isPrefix (c : Chunk) {k l : Nat} (h : k ≤ l) : c.head k <+: c.head l := by
  obtain ⟨rest, hrest⟩ := (List.take_prefix_take_left (l := c.deltas) h).map
    fun d => (bitdecode c.sel, (d % 2 ^ bitdecode c.sel).toNat)
  exact ⟨rest, by rw [Chunk.head, Chunk.head, ← hrest, List.cons_append, List.cons_append]⟩

theorem Chunk.head_eq (c : Chunk) (h : c.deltas.length ≤ k) : c.head k = c.head c.deltas.length := by
  rw [Chunk.head, Chunk.head, List.take_of_length_le h, List.take_length]

theorem fieldsUpTo_isPrefix (k : Nat) (cs : List Chunk) : fieldsUpTo k cs <+: fieldsOf cs := by
  induction cs generalizing k with
  | nil => exact List.nil_prefix
  | cons c cs ih =>
    rw [fieldsUpTo, fieldsOf, List.flatMap_cons]
    split_ifs with hzero
    · exact List.nil_prefix
    · by_cases hlen : c.deltas.length ≤ k
      · rw [c.head_eq hlen]
        exact (List.prefix_append_right_inj _).2 (ih _)
      · rw [show k - c.deltas.length = 0 by omega, fieldsUpTo_zero, List.append_nil]
        exact (c.head_isPrefix (by omega)).trans (List.prefix_append _ _)

theorem fit_head (c : Chunk) (k : Nat) : Fit (c.head k) := by
  intro f hf
  rw [Chunk.head, List.mem_cons, List.mem_cons, List.mem_map] at hf
  rcases hf with rfl | rfl | ⟨d, -, rfl⟩
  · exact c.log_lt
  · exact c.sel_lt
  · have hpos : 0 < 2 ^ bitdecode c.sel := Nat.two_pow_pos _
    have hcast : (2 : Int) ^ bitdecode c.sel = (2 ^ bitdecode c.sel : Nat) :=
      (Int.natCast_pow 2 _).symm
    have hlt : d % 2 ^ bitdecode c.sel < 2 ^ bitdecode c.sel := Int.emod_lt_of_pos _ (by omega)
    have hnonneg : 0 ≤ d % 2 ^ bitdecode c.sel := Int.emod_nonneg _ (by omega)
    show (d % 2 ^ bitdecode c.sel).toNat < 2 ^ bitdecode c.sel
    omega

theorem fit_fieldsOf (cs : List Chunk) : Fit (fieldsOf cs) := by
  intro f hf
  obtain ⟨c, -, hf⟩ := List.mem_flatMap.1 hf
  exact fit_head c _ f hf

/-! ## The loops over the chunks -/

theorem paint_append (x : Nat) (done a b : List Int) :
    paint x done (a ++ b) = paint x (paint x done a) b := by
  induction a generalizing done with
  | nil => rfl
  | cons d a ih => exact ih _

theorem Painted.take (h : Painted s done len) : s.img.take s.pixel = done := by
  rw [h.img, h.pixel, List.take_left']
  rfl

/-- The descriptor of a chunk and those of its deltas that are there. -/
theorem unpackWord_head (c : Chunk) {fields : List Field} (hread : s.Reads (c.head k ++ fields))
    (hpixel : s.pixel < total) (hroom : done.length + (c.deltas.take k).length ≤ total)
    (htotal : total ≤ len) (hpaint : Painted s done len) :
    ∃ s', s'.Reads fields ∧ Painted s' (paint x done (c.deltas.take k)) len ∧ unpackWord x total s =
      unpackWord x total (deltas x total c.sel (2 ^ c.log - (c.deltas.take k).length) s') := by
  rw [Chunk.head, List.cons_append, List.cons_append] at hread
  obtain ⟨t, htread, htvalids, htpixel, htimg, hteq⟩ :=
    exists_filled (g := unpackWord x total) (p := s.pixel) (n := 6)
      (fun u hu hlt => ⟨hu.fillDescriptor hlt (by
        rw [width_cons, width_cons]
        exact hlt.trans_le (by show 6 ≤ 3 + (3 + _); omega)), Unpacker.gap_fillDescriptor hlt,
        u.pixel_fillDescriptor, u.img_fillDescriptor⟩)
      (fun u hu hlt => by rw [unpackWord, hu, if_pos hpixel, if_pos hlt]) hread rfl
  obtain ⟨hlog, hsel, hrest⟩ := htread.describe c.log_lt c.sel_lt htvalids
  have hpaint' : Painted t.describe.2.2 done len :=
    ⟨htimg.trans hpaint.img, htpixel.trans hpaint.pixel⟩
  have hfull : (c.deltas.take k).length ≤ 2 ^ c.log :=
    (List.length_take_le' _ _).trans c.length_deltas.le
  obtain ⟨s', hs', hpaint'', hdeltas⟩ := deltas_reads (x := x) (i := c.sel) hrest
    (fun d hd => c.fits d (List.mem_of_mem_take hd)) hfull hroom htotal hpaint'
  refine ⟨s', hs', hpaint'', ?_⟩
  rw [hteq, unpackWord, htpixel, if_pos hpixel, if_neg (Nat.not_lt.2 htvalids)]
  dsimp only
  rw [hlog, hsel, hdeltas]

theorem take_unpackWord (hpaint : Painted s done len) :
    (unpackWord x total s).img.take done.length = done := by
  rw [← hpaint.pixel, (keeps_unpackWord x total s).front, hpaint.take]

/-- The pixels whose deltas the bytes hold are decoded, whatever comes behind. -/
theorem unpackWord_upTo (hk : k ≤ (deltasOf cs).length) (hread : s.Reads (fieldsUpTo k cs))
    (hroom : done.length + k ≤ total) (htotal : total ≤ len) (hpaint : Painted s done len) :
    (unpackWord x total s).img.take (done.length + k) = paint x done ((deltasOf cs).take k) := by
  induction cs generalizing s done k with
  | nil =>
    obtain rfl : k = 0 := Nat.le_zero.1 hk
    exact take_unpackWord hpaint
  | cons c cs ih =>
    by_cases hzero : k = 0
    · subst hzero
      exact take_unpackWord hpaint
    · rw [fieldsUpTo, if_neg hzero] at hread
      have htake : (c.deltas.take k).length ≤ k := List.length_take_le _ _
      obtain ⟨s', hs', hpaint', hstep⟩ := unpackWord_head c hread (by rw [hpaint.pixel]; omega)
        (by omega) htotal hpaint
      rw [hstep, deltasOf, List.flatMap_cons, List.take_append, paint_append]
      by_cases hlen : c.deltas.length ≤ k
      · -- the whole chunk is there
        have hds : c.deltas.take k = c.deltas := List.take_of_length_le hlen
        rw [hds] at hpaint' ⊢
        rw [← c.length_deltas, Nat.sub_self, deltas, if_neg (fun h => absurd h.1 (Nat.lt_irrefl 0))]
        rw [deltasOf, List.flatMap_cons, List.length_append] at hk
        have hsum : (paint x done c.deltas).length + (k - c.deltas.length) = done.length + k := by
          rw [length_paint]
          omega
        rw [← hsum]
        exact ih (by rw [deltasOf]; omega) hs' (by omega) hpaint'
      · -- the bytes, or the image, end within the chunk
        have hkeeps := (keeps_deltas x total c.sel (2 ^ c.log - (c.deltas.take k).length) s').trans
          (keeps_unpackWord x total _)
        have hpixel : s'.pixel = done.length + k := by
          rw [hpaint'.pixel, length_paint, List.length_take_of_le (by omega)]
        rw [show k - c.deltas.length = 0 by omega, List.take_zero, ← hpixel, hkeeps.front, hpaint'.take]
        rfl

/-! ## Files -/

/-- The deltas of an image paint it. -/
theorem Encodes.paint_eq (h : Encodes x cs img) (hk : k ≤ img.length) :
    paint x [] ((deltasOf cs).take k) = img.take k := by
  induction k with
  | zero => rfl
  | succ k ih =>
    have hlen := h.enough
    obtain ⟨v, hv⟩ : ∃ v, img[k]? = some v := ⟨_, List.getElem?_eq_getElem (by omega)⟩
    obtain ⟨d, hd⟩ : ∃ d, (deltasOf cs)[k]? = some d := ⟨_, List.getElem?_eq_getElem (by omega)⟩
    rw [List.take_add_one, List.take_add_one, hv, hd, paint_append, ih (by omega), h.pixel k v d hv hd]
    rfl

/-- The decoder in front of the chunks. -/
def start (data : List UInt8) (len : Nat) : Unpacker where
  data := data
  valids := 0
  spillbits := 0
  window := 0
  spill := 0
  pixel := 0
  img := List.replicate len 0

theorem painted_start (data : List UInt8) (len : Nat) : Painted (start data len) [] len := ⟨rfl, rfl⟩

theorem reads_start {data : List UInt8} {fields : List Field} (h : Holds (ofBytes data) fields) :
    (start data len).Reads fields :=
  ⟨⟨Nat.zero_le _, Nat.zero_le _, fun hpos => absurd hpos (Nat.lt_irrefl 0)⟩, h⟩

section
variable {lines : List (List UInt8)} (hlines : ∀ line ∈ lines, Skipped line) (hx : 0 < x) (hx' : x < 10000)
  (hy : 0 < y) (hy' : y < 10000)

include hlines hx hx' hy hy'

theorem getPck_eq (data : List UInt8) (nx ny : Nat) :
    getPck (lines.flatten ++ (headerLine x y ++ data)) nx ny =
      (unpackWord x (min (x * y) (imageLen nx ny)) (start data (imageLen nx ny))).img := by
  rw [getPck, scanHeader_lines hlines hx hx' hy hy']
  dsimp only
  rw [if_pos ⟨by omega, by omega⟩, List.length_replicate, Int.toNat_natCast,
    show ((x : Int) * (y : Int)).toNat = x * y by rw [← Int.natCast_mul, Int.toNat_natCast]]
  rfl

/-- The pixels whose deltas lie in the bytes are the image's. -/
theorem take_getPck {data : List UInt8} (henc : Encodes x cs img) (himg : img.length = x * y)
    (hdata : Holds (ofBytes data) (fieldsUpTo k cs)) (hk : k ≤ x * y) (hsize : k ≤ imageLen nx ny) :
    (getPck (lines.flatten ++ (headerLine x y ++ data)) nx ny).take k = img.take k := by
  have hlen := henc.enough
  have hupTo := unpackWord_upTo (x := x) (k := k) (by omega) (reads_start hdata)
    (by rw [List.length_nil]; omega) (Nat.min_le_right (x * y) (imageLen nx ny))
    (painted_start data _)
  rw [List.length_nil, Nat.zero_add, henc.paint_eq (by omega)] at hupTo
  rw [getPck_eq hlines hx hx' hy hy', hupTo]

end

/-- One pixel with a delta of 16 bits. -/
def pixelChunk (d : Int) : Chunk where
  log := 0
  sel := 6
  deltas := [asI16 d]
  log_lt := by decide
  sel_lt := by decide
  length_deltas := rfl
  fits := by
    intro d' hd'
    rw [List.mem_singleton.1 hd']
    exact Int.bmod_bmod

/-- The plainest encoding: a chunk for each pixel. -/
def chunksOf (x : Nat) (img : List Int) : List Chunk :=
  (List.range img.length).map fun p => pixelChunk (img.getD p 0 - predict x (img.take p))

theorem deltasOf_map_pixelChunk (ds : List Int) : deltasOf (ds.map pixelChunk) = ds.map asI16 := by
  induction ds with
  | nil => rfl
  | cons d ds ih => exact congrArg (asI16 d :: ·) ih

theorem asI16_asI16_add (a b : Int) : asI16 (asI16 a + b) = asI16 (a + b) :=
  Int.bmod_add_bmod

theorem encodes_chunksOf (h : ∀ v ∈ img, asI16 v = v) : Encodes x (chunksOf x img) img := by
  have hdeltas : deltasOf (chunksOf x img) = (List.range img.length).map
      fun p => asI16 (img.getD p 0 - predict x (img.take p)) := by
    have hmap := deltasOf_map_pixelChunk
      ((List.range img.length).map fun p => img.getD p 0 - predict x (img.take p))
    rwa [List.map_map, List.map_map] at hmap
  refine ⟨?_, ?_⟩
  · rw [hdeltas, List.length_map, List.length_range]
  · intro p v d hv hd
    obtain ⟨hp, hget⟩ := List.getElem?_eq_some_iff.1 hv
    rw [hdeltas, List.getElem?_map, List.getElem?_range hp, Option.map_some] at hd
    rw [← Option.some.inj hd, asI16_asI16_add, Int.sub_add_cancel, List.getD_eq_getElem _ _ hp, hget]
    exact (h v (List.mem_of_getElem? hv)).symm

section
variable {lines : List (List UInt8)} (hlines : ∀ line ∈ lines, Skipped line) (hx : 0 < x) (hx' : x < 10000)
  (hy : 0 < y) (hy' : y < 10000)

include hlines hx hx' hy hy'

/-- **Round trip.**  Every image of 16-bit pixels has chunks that encode it, and from a file of any such
chunks, cut as the encoder likes, behind other lines and before other bytes, it is decoded again: into a
larger buffer with zeros behind it, into a smaller one as far as it goes. -/
theorem getPck_encoded (himg : img.length = x * y) (hpixels : ∀ v ∈ img, asI16 v = v) :
    (∃ cs, Encodes x cs img) ∧
      ∀ cs, Encodes x cs img → ∀ n, width (fieldsOf cs) ≤ 8 * n → ∀ tail nx ny,
        getPck (lines.flatten ++ (headerLine x y ++ (bodyOf n cs ++ tail))) nx ny =
          (img ++ List.replicate (imageLen nx ny) 0).take (imageLen nx ny) := by
  refine ⟨⟨chunksOf x img, encodes_chunksOf hpixels⟩, ?_⟩
  intro cs henc n hn tail nx ny
  have hholds : Holds (ofBytes (bodyOf n cs ++ tail)) (fieldsUpTo (min (x * y) (imageLen nx ny)) cs) := by
    obtain ⟨rest, hrest⟩ := fieldsUpTo_isPrefix (min (x * y) (imageLen nx ny)) cs
    have hall := holds_ofBytes (fit_fieldsOf cs) hn tail
    rw [← hrest] at hall
    rw [bodyOf, ← hrest]
    exact hall.left
  have hfront := take_getPck hlines hx hx' hy hy' henc himg hholds (Nat.min_le_left _ _)
    (Nat.min_le_right _ _)
  rw [getPck_eq hlines hx hx' hy hy'] at hfront ⊢
  have hkeeps := keeps_unpackWord x (min (x * y) (imageLen nx ny))
    (start (bodyOf n cs ++ tail) (imageLen nx ny))
  have hback := hkeeps.back
  rw [← List.take_append_drop (min (x * y) (imageLen nx ny))
    (unpackWord x (min (x * y) (imageLen nx ny)) (start (bodyOf n cs ++ tail) (imageLen nx ny))).img,
    hfront, hback]
  show img.take _ ++ (List.replicate (imageLen nx ny) 0).drop _ = _
  rw [List.take_append, List.drop_replicate, List.take_replicate, himg,
    Nat.min_eq_left (Nat.sub_le (imageLen nx ny) (x * y))]
  by_cases hsize : x * y ≤ imageLen nx ny
  · rw [Nat.min_eq_left hsize, List.take_of_length_le himg.le, List.take_of_length_le (himg.trans_le hsize)]
  · rw [Nat.min_eq_right (by omega), Nat.sub_self, Nat.sub_eq_zero_of_le (by omega)]

/-- **A part of a file.**  Of a file that agrees with a packed image in the first `n` bytes behind the
header, whatever it has there afterwards, the pixels are decoded whose deltas lie in these bytes. -/
theorem getPck_part (himg : img.length = x * y) (henc : Encodes x cs img)
    (hn : width (fieldsOf cs) ≤ 8 * n) {m : Nat} {data : List UInt8}
    (hsame : data.take m = (bodyOf n cs).take m) (hm : m ≤ data.length) {k : Nat} (hk : k ≤ x * y)
    (hbits : width (fieldsUpTo k cs) ≤ 8 * m) (hsize : k ≤ imageLen nx ny) :
    (getPck (lines.flatten ++ (headerLine x y ++ data)) nx ny).take k = img.take k := by
  obtain ⟨rest, hrest⟩ := fieldsUpTo_isPrefix k cs
  have hfit := fit_fieldsOf cs
  have hall := holds_ofBytes hfit hn []
  rw [List.append_nil, ← hrest] at hall
  have hpart : Fit (fieldsUpTo k cs) := by
    intro f hf
    rw [← hrest] at hfit
    exact hfit f (List.mem_append_left _ hf)
  refine take_getPck hlines hx hx' hy hy' henc himg ?_ hk hsize
  refine hall.left.of_take_eq hpart hbits hm ?_
  rw [hrest]
  exact hsame.symm

end

theorem skipped_header : ∀ line ∈ [ascii "MAR 345 image" ++ ['\n'.toUInt8]], Skipped line := by
  intro line hline
  rw [List.mem_singleton.1 hline]
  refine Skipped.line (by decide) (by decide) ?_
  intro x y h
  have hnone := scanfPack_of_head (c := 'M'.toUInt8) (by decide) (by decide)
    (ascii "AR 345 image" ++ ['\n'.toUInt8])
  exact absurd (hnone.symm.trans h) (by simp)

/-- Four pixels, behind a line of text. -/
theorem getPck_encoded_four :
    getPck ([ascii "MAR 345 image" ++ ['\n'.toUInt8]].flatten ++
      (headerLine 2 2 ++ (bodyOf 11 (chunksOf 2 [1000, 998, -3, 7]) ++ [0]))) 2 2 = [1000, 998, -3, 7] := by
  have hall := getPck_encoded (x := 2) (y := 2) skipped_header (by decide) (by decide) (by decide)
    (by decide) (by decide : [1000, 998, -3, 7].length = 2 * 2) (by decide)
  exact (hall.2 _ (encodes_chunksOf (by decide)) 11 (by decide) [0] 2 2).trans (by decide)

/-- The first two of them, from the first six bytes. -/
theorem getPck_part_two :
    (getPck ([ascii "MAR 345 image" ++ ['\n'.toUInt8]].flatten ++
      (headerLine 2 2 ++ (bodyOf 11 (chunksOf 2 [1000, 998, -3, 7])).take 6)) 2 2).take 2 = [1000, 998] := by
  have henc : Encodes 2 (chunksOf 2 [1000, 998, -3, 7]) [1000, 998, -3, 7] :=
    encodes_chunksOf (by decide)
  exact getPck_part (y := 2) skipped_header (by decide) (by decide) (by decide) (by decide) (by decide)
    henc (n := 11) (by decide) (m := 6) (by decide) (by decide) (k := 2) (by decide) (by decide) (by decide)

end Mar345
