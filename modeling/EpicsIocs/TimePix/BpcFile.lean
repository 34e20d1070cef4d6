import EpicsIocs.Lib.Arith
import EpicsIocs.Lib.Bytes
import EpicsIocs.Lib.Machine
import EpicsIocs.Lib.Scatter
import Mathlib.Data.List.GetD
import Mathlib.Data.Set.Function
import Mathlib.Order.Interval.Set.Defs
import Mathlib.Tactic.Ring

/-! # The BPC file and its mask

The layout of the file in `mask.rs`, chip by chip, slice by slice, pixel by pixel, and the bit that
masks a pixel: bit 0 of its last byte.  `apply_mask_to_bpc` sets it from bit 0 of a waveform,
`mask_from_bpc` shows it as bit 1.

`selectedSliceIndex_bijOn`: the pixels and slices are the pixels of the file, one to one.
`getElem?_applyMaskToBpc`: what is written, and nothing else. -/

namespace TimePix

open Bytes Ints Ints.Arith Machine Scatter

inductive DetectorFamily where
  | unknown
  | tpx3
  | mpx3
  deriving DecidableEq, Repr

/-- Zero for a family whose mask is not documented. -/
def bytesPerPixel : DetectorFamily → Nat
  | .tpx3 => 1
  | .mpx3 => 2
  | .unknown => 0

/-- An element of the waveform, an `i32`. -/
abbrev Cell : Type := BitVec 32

section
variable (family : DetectorFamily)

/-- The packed pixel at `offset`, words big-endian. -/
def pixelValue (bytes : List UInt8) (offset : Nat) : Option Nat :=
  let width := bytesPerPixel family
  (checkedAdd offset width).bind fun _ =>
    (slice? bytes offset width).bind fun pixel =>
      match pixel with
      | [b] => some b.toNat
      | [hi, lo] => some (beNat [hi, lo])
      | _ => none

def isMasked (bytes : List UInt8) (offset : Nat) : Bool :=
  (pixelValue family bytes offset).any fun v => v &&& 1 != 0

/-- Bit 0 of the pixel's last byte; `false` and nothing changed outside the file. -/
def setMasked (bytes : List UInt8) (offset : Nat) (masked : Bool) : Bool × List UInt8 :=
  let width := bytesPerPixel family
  match ((checkedAdd offset width).filter fun stop => width != 0 && stop ≤ bytes.length).map
    (· - 1) with
  | none => (false, bytes)
  | some last =>
    (true, bytes.modify last fun b => if masked then b ||| 1 else b &&& ~~~1)

/-- One element of the waveform shown; the waveform was zeroed. -/
def showMask (bpc : List UInt8) : List Cell → List (Option Nat) → List Cell
  | dst :: out, offset :: offsets =>
    (if offset.any (isMasked family bpc) then dst ||| (1 <<< 1) else dst) ::
      showMask bpc out offsets
  | out, _ => out

/-- An empty file leaves the waveform untouched. -/
def maskFromBpc (offsets : List (Option Nat)) (bpc : List UInt8) (out : List Cell) : List Cell :=
  if bpc.isEmpty then out else showMask family bpc (out.map fun _ => 0) offsets

/-- Masks the pixels of the elements with bit 0, and never unmasks. -/
def applyMaskToBpc (offsets : List (Option Nat)) (mask : List Cell) (bpc : List UInt8) :
    List UInt8 :=
  (mask.zip offsets).foldl (fun bpc element =>
    match element.2 with
    | some k => if element.1 &&& 1 ≠ 0 then (setMasked family bpc k true).2 else bpc
    | none => bpc) bpc

end

/-! ## The layout -/

/-- Zero for an invalid or overflowing geometry. -/
def bytesPerChip (pixelsPerChip : Nat) (bytesPerPixel slices : Int) : Nat :=
  if pixelsPerChip = 0 ∨ bytesPerPixel ≤ 0 ∨ slices ≤ 0 then 0
  else
    ((checkedMul bytesPerPixel.toNat slices.toNat).bind fun m =>
      checkedMul pixelsPerChip m).getD 0

/-- The first byte of a pixel in a slice.  The products without a check are `none` outside where
they overflow. -/
def selectedSliceIndex (logical pixelsPerChip : Nat) (bytesPerPixel slices selected : Int) :
    Option (Option Nat) :=
  let chipBytes := bytesPerChip pixelsPerChip bytesPerPixel slices
  if chipBytes = 0 ∨ selected < 0 ∨ selected ≥ slices then some none
  else do
    let bpp := bytesPerPixel.toNat
    let chip := logical / pixelsPerChip
    let localPixel := logical % pixelsPerChip
    match checkedMul chip chipBytes with
    | none => some none
    | some start =>
      let skip ← (of uint64 selected * of uint64 pixelsPerChip * of uint64 bpp).value
      match checkedAdd start skip.toNat with
      | none => some none
      | some slice =>
        let within ← (of uint64 localPixel * of uint64 bpp).value
        some (checkedAdd slice within.toNat)

section
variable {ppc bpp slices : Nat}

theorem bytesPerChip_eq (hppc : 0 < ppc) (hbpp : 0 < bpp) (hslices : 0 < slices)
    (hfit : ppc * (bpp * slices) ≤ u64Max) :
    bytesPerChip ppc bpp slices = ppc * (bpp * slices) := by
  have hm : bpp * slices ≤ u64Max := (Nat.le_mul_of_pos_left _ hppc).trans hfit
  rw [bytesPerChip, if_neg (by omega), Int.toNat_natCast, Int.toNat_natCast,
    checkedMul_eq_some.2 ⟨hm, rfl⟩, Option.bind_some, checkedMul_eq_some.2 ⟨hfit, rfl⟩,
    Option.getD_some]

theorem holds_uint64 {v : Int} : uint64.Holds v ↔ 0 ≤ v ∧ v < 18446744073709551616 := Iff.rfl

theorem of_mul_nat {a b : Nat} (ha : a ≤ u64Max) (hb : b ≤ u64Max) :
    of uint64 a * of uint64 b = of uint64 ((a * b : Nat) : Int) := by
  unfold u64Max at ha hb
  rw [of_mul_of (holds_uint64.2 (by omega)) (holds_uint64.2 (by omega)), Int.natCast_mul]

/-- The pixel of the file that a pixel and a slice are. -/
def filePixel (ppc slices : Nat) (p : Nat × Nat) : Nat :=
  (p.1 / ppc * slices + p.2) * ppc + p.1 % ppc

theorem value_of_nat {a : Nat} (ha : a ≤ u64Max) : (of uint64 a).value = some (a : Int) := by
  unfold u64Max at ha
  exact value_of (holds_uint64.2 (by omega))

/-- Inside the file no step overflows, and the pixel ends in it. -/
theorem selectedSliceIndex_eq {chips logical selected : Nat} (hppc : 0 < ppc) (hbpp : 0 < bpp)
    (hsize : chips * (ppc * (bpp * slices)) ≤ u64Max) (hlogical : logical < chips * ppc)
    (hselected : selected < slices) :
    selectedSliceIndex logical ppc bpp slices selected =
      some (some (bpp * filePixel ppc slices (logical, selected))) := by
  have hslices : 0 < slices := by omega
  have hchip : logical / ppc < chips := Nat.div_lt_of_lt_mul (by rwa [Nat.mul_comm])
  have hchips : 0 < chips := Nat.zero_lt_of_lt hchip
  have hmod : logical % ppc < ppc := Nat.mod_lt _ hppc
  have hfile : bpp * filePixel ppc slices (logical, selected) =
      logical / ppc * (ppc * (bpp * slices)) + selected * ppc * bpp + logical % ppc * bpp := by
    unfold filePixel
    ring
  have hend : bpp * filePixel ppc slices (logical, selected) ≤ u64Max := by
    have hpixel : filePixel ppc slices (logical, selected) < chips * slices * ppc :=
      radix_lt (radix_lt hchip hselected) hmod
    calc bpp * filePixel ppc slices (logical, selected) ≤ bpp * (chips * slices * ppc) :=
          Nat.mul_le_mul_left _ (Nat.le_of_lt hpixel)
      _ = chips * (ppc * (bpp * slices)) := by ring
      _ ≤ u64Max := hsize
  have hbytes := bytesPerChip_eq hppc hbpp hslices
    ((Nat.le_mul_of_pos_left _ hchips).trans hsize)
  have hskip : selected * ppc ≤ selected * ppc * bpp := Nat.le_mul_of_pos_right _ hbpp
  have hsel : selected ≤ selected * ppc := Nat.le_mul_of_pos_right _ hppc
  have hinner : logical % ppc ≤ logical % ppc * bpp := Nat.le_mul_of_pos_right _ hbpp
  have hslice : 0 < ppc * (bpp * slices) := Nat.mul_pos hppc (Nat.mul_pos hbpp hslices)
  have hppcle : ppc ≤ u64Max ∧ bpp ≤ u64Max := by
    have hone : ppc * (bpp * slices) ≤ u64Max := (Nat.le_mul_of_pos_left _ hchips).trans hsize
    have hwidth : bpp ≤ bpp * slices := Nat.le_mul_of_pos_right _ hslices
    exact ⟨(Nat.le_mul_of_pos_right _ (Nat.mul_pos hbpp hslices)).trans hone,
      (hwidth.trans (Nat.le_mul_of_pos_left _ hppc)).trans hone⟩
  rw [hfile] at hend
  unfold selectedSliceIndex
  rw [hbytes, hfile]
  generalize logical / ppc = chip at hchip hend ⊢
  generalize logical % ppc = inner at hmod hinner hend ⊢
  have hstart : checkedMul chip (ppc * (bpp * slices)) = some (chip * (ppc * (bpp * slices))) :=
    checkedMul_eq_some.2 ⟨by omega, rfl⟩
  have hoffset : (of uint64 selected * of uint64 ppc * of uint64 bpp).value =
      some ((selected * ppc * bpp : Nat) : Int) := by
    rw [of_mul_nat (by omega) hppcle.1, of_mul_nat (by omega) hppcle.2, value_of_nat (by omega)]
  have hwithin : (of uint64 inner * of uint64 bpp).value = some ((inner * bpp : Nat) : Int) := by
    rw [of_mul_nat (by omega) hppcle.2, value_of_nat (by omega)]
  have hsum : checkedAdd (chip * (ppc * (bpp * slices))) (selected * ppc * bpp) =
      some (chip * (ppc * (bpp * slices)) + selected * ppc * bpp) :=
    checkedAdd_eq_some.2 ⟨by omega, rfl⟩
  rw [if_neg (by omega)]
  simp only [Int.toNat_natCast, hstart, hoffset, hwithin, hsum, Option.bind_eq_bind,
    Option.bind_some]
  exact congrArg some (checkedAdd_eq_some.2 ⟨hend, rfl⟩)

theorem filePixel_bijOn {chips : Nat} (hppc : 0 < ppc) :
    Set.BijOn (filePixel ppc slices) {p | p.1 < chips * ppc ∧ p.2 < slices}
      (Set.Iio (chips * slices * ppc)) := by
  refine ⟨?_, ?_, ?_⟩
  · rintro ⟨logical, selected⟩ ⟨hlogical, hselected⟩
    exact radix_lt (radix_lt (Nat.div_lt_of_lt_mul (by rwa [Nat.mul_comm])) hselected)
      (Nat.mod_lt _ hppc)
  · rintro ⟨a, s⟩ ⟨-, hs⟩ ⟨b, t⟩ ⟨-, ht⟩ heq
    obtain ⟨hrow, hmod⟩ := radix_inj (Nat.mod_lt _ hppc) (Nat.mod_lt _ hppc) heq
    obtain ⟨hdiv, hst⟩ := radix_inj hs ht hrow
    have hab : a = b := by
      rw [← Nat.div_add_mod a ppc, ← Nat.div_add_mod b ppc, hdiv, hmod]
    exact Prod.ext hab hst
  · intro k hk
    have hk : k < chips * slices * ppc := hk
    have hrow : k / ppc < chips * slices := Nat.div_lt_of_lt_mul (by rwa [Nat.mul_comm])
    have hslices : 0 < slices := Nat.pos_of_ne_zero fun h => by simp [h] at hrow
    have hchip : k / ppc / slices < chips := Nat.div_lt_of_lt_mul (by rwa [Nat.mul_comm])
    have hinner : (k / ppc / slices * ppc + k % ppc) / ppc = k / ppc / slices := by
      rw [Nat.add_comm, Nat.add_mul_div_right _ _ hppc, Nat.div_eq_of_lt (Nat.mod_lt _ hppc),
        Nat.zero_add]
    have hlast : (k / ppc / slices * ppc + k % ppc) % ppc = k % ppc := by
      rw [Nat.add_comm, Nat.add_mul_mod_self_right, Nat.mod_mod]
    refine ⟨(k / ppc / slices * ppc + k % ppc, k / ppc % slices),
      ⟨radix_lt hchip (Nat.mod_lt _ hppc), Nat.mod_lt _ hslices⟩, ?_⟩
    rw [filePixel, hinner, hlast, Nat.div_add_mod', Nat.div_add_mod']

/-- The offset of a pixel of the file, as `selected_slice_index` returns it. -/
def offsetOf (bpp k : Nat) : Option (Option Nat) := some (some (bpp * k))

/-- Pixels and slices are the pixels of the file, one to one. -/
theorem selectedSliceIndex_bijOn {chips : Nat} (hppc : 0 < ppc) (hbpp : 0 < bpp)
    (hsize : chips * (ppc * (bpp * slices)) ≤ u64Max) :
    Set.BijOn (fun p : Nat × Nat => selectedSliceIndex p.1 ppc bpp slices p.2)
      {p | p.1 < chips * ppc ∧ p.2 < slices} (offsetOf bpp '' Set.Iio (chips * slices * ppc)) := by
  have hinj : Function.Injective (offsetOf bpp) := fun a b h =>
    Nat.eq_of_mul_eq_mul_left hbpp (Option.some.inj (Option.some.inj h))
  refine (hinj.injOn.bijOn_image.comp (filePixel_bijOn hppc)).congr ?_
  rintro ⟨logical, selected⟩ ⟨hlogical, hselected⟩
  exact (selectedSliceIndex_eq hppc hbpp hsize hlogical hselected).symm

end

/-! ## The mask -/

/-- Bit 0 of an element. -/
def marked (mask : List Cell) (i : Nat) : Bool := mask.getD i 0 &&& 1 != 0

/-- Offsets of pixels of a file, each once. -/
structure OffsetTable (family : DetectorFamily) (bpc : List UInt8) where
  offsets : List Nat
  nodup : offsets.Nodup
  inside : ∀ k ∈ offsets, k + bytesPerPixel family ≤ bpc.length

section
variable {family : DetectorFamily} {bytes : List UInt8} {k : Nat}

/-- The byte with the mask bit of the pixel at `k`. -/
def maskByte (family : DetectorFamily) (k : Nat) : Nat := k + bytesPerPixel family - 1

theorem bytesPerPixel_pos (hf : family ≠ .unknown) : 0 < bytesPerPixel family := by
  cases family with
  | unknown => exact absurd rfl hf
  | tpx3 => decide
  | mpx3 => decide

theorem setMasked_inside (hf : family ≠ .unknown) (hlen : bytes.length ≤ u64Max)
    (hk : k + bytesPerPixel family ≤ bytes.length) :
    setMasked family bytes k true = (true, bytes.modify (maskByte family k) (· ||| 1)) := by
  have hpos := bytesPerPixel_pos hf
  have hstop : checkedAdd k (bytesPerPixel family) = some (k + bytesPerPixel family) :=
    checkedAdd_eq_some.2 ⟨hk.trans hlen, rfl⟩
  have hinside : (bytesPerPixel family != 0 && k + bytesPerPixel family ≤ bytes.length) = true := by
    rw [Bool.and_eq_true, bne_iff_ne, decide_eq_true_eq]
    omega
  simp only [setMasked, hstop, Option.filter_some, hinside, if_true, Option.map_some]
  rfl

theorem bit_toNat (b : UInt8) : (b.toNat &&& 1 != 0) = (b &&& 1 != 0) := by
  rw [Bool.eq_iff_iff, bne_iff_ne, bne_iff_ne, ne_eq, ne_eq, ← UInt8.toNat_inj]
  rfl

/-- Bit 0 of a big-endian word is that of its last byte. -/
theorem bit_beNat (hi lo : UInt8) : (beNat [hi, lo] &&& 1 != 0) = (lo &&& 1 != 0) := by
  have hvalue : beNat [hi, lo] = hi.toNat * 256 + lo.toNat := by
    simp [beNat]
  have hbit : beNat [hi, lo] &&& 1 = lo.toNat &&& 1 := by
    rw [Nat.and_one_is_mod, Nat.and_one_is_mod, hvalue]
    omega
  rw [hbit, bit_toNat]

theorem slice?_one (h : k + 1 ≤ bytes.length) : slice? bytes k 1 = some [bytes.getD k 0] := by
  have hk : k < bytes.length := h
  rw [slice?, if_pos h, List.drop_eq_getElem_cons hk, List.getD_eq_getElem bytes 0 hk]
  rfl

theorem slice?_two (h : k + 2 ≤ bytes.length) :
    slice? bytes k 2 = some [bytes.getD k 0, bytes.getD (k + 1) 0] := by
  have hk : k < bytes.length := by omega
  have hk' : k + 1 < bytes.length := h
  rw [slice?, if_pos h, List.drop_eq_getElem_cons hk, List.drop_eq_getElem_cons hk',
    List.getD_eq_getElem bytes 0 hk, List.getD_eq_getElem bytes 0 hk']
  rfl

theorem isMasked_inside (hf : family ≠ .unknown) (hlen : bytes.length ≤ u64Max)
    (hk : k + bytesPerPixel family ≤ bytes.length) :
    isMasked family bytes k = (bytes.getD (maskByte family k) 0 &&& 1 != 0) := by
  have hstop : checkedAdd k (bytesPerPixel family) = some (k + bytesPerPixel family) :=
    checkedAdd_eq_some.2 ⟨hk.trans hlen, rfl⟩
  unfold isMasked pixelValue
  simp only [hstop, Option.bind_some]
  cases family with
  | unknown => exact absurd rfl hf
  | tpx3 =>
    rw [show bytesPerPixel .tpx3 = 1 from rfl, slice?_one hk]
    exact bit_toNat _
  | mpx3 =>
    rw [show bytesPerPixel .mpx3 = 2 from rfl, slice?_two hk]
    exact bit_beNat _ _

/-! ### Writing -/

/-- The bytes that `apply_mask_to_bpc` changes. -/
def maskedBytes (family : DetectorFamily) (mask : List Cell) (table : List Nat) : List Nat :=
  (mask.zip table).filterMap fun element =>
    if element.1 &&& 1 ≠ 0 then some (maskByte family element.2) else none

theorem applyMaskToBpc_eq (hf : family ≠ .unknown) (mask : List Cell) {table : List Nat}
    (hlen : bytes.length ≤ u64Max)
    (htable : ∀ k ∈ table, k + bytesPerPixel family ≤ bytes.length) :
    applyMaskToBpc family (table.map some) mask bytes =
      updateAll (· ||| 1) bytes (maskedBytes family mask table) := by
  induction mask generalizing bytes table with
  | nil => rfl
  | cons v mask ih =>
    cases table with
    | nil => rfl
    | cons k table =>
      obtain ⟨hk, htable⟩ := List.forall_mem_cons.1 htable
      have hstep : applyMaskToBpc family ((k :: table).map some) (v :: mask) bytes =
          applyMaskToBpc family (table.map some) mask
            (if v &&& 1 ≠ 0 then (setMasked family bytes k true).2 else bytes) := rfl
      rw [hstep, setMasked_inside hf hlen hk]
      unfold maskedBytes
      rw [List.zip_cons_cons, List.filterMap_cons]
      by_cases hv : v &&& 1 ≠ 0
      · simp only [if_pos hv]
        exact ih (by rwa [List.length_modify]) (by rwa [List.length_modify])
      · simp only [if_neg hv]
        exact ih hlen htable

theorem mem_maskedBytes {mask : List Cell} {table : List Nat} {n : Nat} :
    n ∈ maskedBytes family mask table ↔
      ∃ (i : Nat) (k : Nat), table[i]? = some k ∧ marked mask i = true ∧ n = maskByte family k := by
  unfold maskedBytes
  rw [List.mem_filterMap]
  constructor
  · rintro ⟨⟨v, k⟩, hmem, hsome⟩
    obtain ⟨i, hi⟩ := List.mem_iff_getElem?.1 hmem
    obtain ⟨hv, hk⟩ := List.getElem?_zip_eq_some.1 hi
    split at hsome
    · next hbit =>
      refine ⟨i, k, hk, ?_, (Option.some.inj hsome).symm⟩
      rw [marked, List.getD_eq_getElem?_getD, hv, Option.getD_some]
      exact bne_iff_ne.2 hbit
    · cases hsome
  · rintro ⟨i, k, hk, hbit, rfl⟩
    rw [marked, List.getD_eq_getElem?_getD] at hbit
    cases hv : mask[i]? with
    | none =>
      rw [hv] at hbit
      exact absurd hbit (by decide)
    | some v =>
      rw [hv] at hbit
      refine ⟨(v, k), List.mem_iff_getElem?.2 ⟨i, List.getElem?_zip_eq_some.2 ⟨hv, hk⟩⟩, ?_⟩
      exact if_pos (bne_iff_ne.1 hbit)

/-- What is written: bit 0 of the last byte of every pixel whose element is marked. -/
theorem getElem?_applyMaskToBpc (hf : family ≠ .unknown) (hlen : bytes.length ≤ u64Max)
    (t : OffsetTable family bytes) (mask : List Cell) (n : Nat) :
    (applyMaskToBpc family (t.offsets.map some) mask bytes)[n]? =
      if n ∈ maskedBytes family mask t.offsets then bytes[n]?.map (· ||| 1) else bytes[n]? := by
  have hidem : ∀ b : UInt8, (b ||| 1) ||| 1 = b ||| 1 := by
    intro b
    rw [UInt8.or_assoc, UInt8.or_self]
  rw [applyMaskToBpc_eq hf mask hlen t.inside, getElem?_updateAll hidem]

theorem length_applyMaskToBpc (hf : family ≠ .unknown) (hlen : bytes.length ≤ u64Max)
    (t : OffsetTable family bytes) (mask : List Cell) :
    (applyMaskToBpc family (t.offsets.map some) mask bytes).length = bytes.length := by
  rw [applyMaskToBpc_eq hf mask hlen t.inside, length_updateAll]

/-! ### Showing -/

theorem getElem?_showMask (bpc : List UInt8) {out : List Cell} {table : List Nat} {i k : Nat}
    (hi : i < out.length) (hk : table[i]? = some k) :
    (showMask family bpc (out.map fun _ => 0) (table.map some))[i]? =
      some (if isMasked family bpc k then 2 else 0) := by
  induction out generalizing table i with
  | nil => exact absurd hi (Nat.not_lt_zero _)
  | cons v out ih =>
    cases table with
    | nil => cases hk
    | cons k' table =>
      cases i with
      | zero =>
        obtain rfl : k' = k := Option.some.inj hk
        show some (if isMasked family bpc k' then (0 : Cell) ||| (1 <<< 1) else 0) = _
        cases isMasked family bpc k' <;> rfl
      | succ i => exact ih (Nat.lt_of_succ_lt_succ hi) hk

theorem length_showMask (bpc : List UInt8) (out : List Cell) (offsets : List (Option Nat)) :
    (showMask family bpc out offsets).length = out.length := by
  induction out generalizing offsets with
  | nil => rfl
  | cons v out ih =>
    cases offsets with
    | nil => rfl
    | cons offset offsets => exact congrArg (· + 1) (ih offsets)

theorem length_maskFromBpc (offsets : List (Option Nat)) (bpc : List UInt8) (out : List Cell) :
    (maskFromBpc family offsets bpc out).length = out.length := by
  unfold maskFromBpc
  split
  · rfl
  · rw [length_showMask, List.length_map]

/-- A pixel is masked afterwards if it was, or if its element is marked. -/
theorem isMasked_applyMaskToBpc (hf : family ≠ .unknown) (hlen : bytes.length ≤ u64Max)
    (t : OffsetTable family bytes) (mask : List Cell) {i : Nat} (hk : t.offsets[i]? = some k) :
    isMasked family (applyMaskToBpc family (t.offsets.map some) mask bytes) k =
      (marked mask i || isMasked family bytes k) := by
  have hinside := t.inside k (List.mem_of_getElem? hk)
  have hlen' := length_applyMaskToBpc hf hlen t mask
  have hpos := bytesPerPixel_pos hf
  have hbyte : maskByte family k < bytes.length := by
    unfold maskByte
    omega
  have hmem : maskByte family k ∈ maskedBytes family mask t.offsets ↔ marked mask i = true := by
    rw [mem_maskedBytes]
    constructor
    · rintro ⟨i', k', hk', hbit, heq⟩
      have hsame : k' = k := by
        unfold maskByte at heq
        omega
      rw [hsame] at hk'
      have hlt := (List.getElem?_eq_some_iff.1 hk).1
      rwa [(List.getElem?_inj hlt t.nodup).1 (hk.trans hk'.symm)]
    · exact fun hbit => ⟨i, k, hk, hbit, rfl⟩
  have hbit : ∀ b : UInt8, (b ||| 1) &&& 1 = 1 := by
    intro b
    apply UInt8.toNat_inj.1
    rw [UInt8.toNat_and, UInt8.toNat_or, UInt8.toNat_one, Nat.and_one_is_mod]
    exact Nat.or_mod_two_eq_one.2 (.inr rfl)
  rw [isMasked_inside hf (hlen'.symm ▸ hlen) (hlen'.symm ▸ hinside), isMasked_inside hf hlen hinside,
    List.getD_eq_getElem?_getD, getElem?_applyMaskToBpc hf hlen t mask,
    List.getD_eq_getElem?_getD, List.getElem?_eq_getElem hbyte]
  by_cases hmark : marked mask i = true
  · rw [if_pos (hmem.2 hmark), hmark, Option.map_some, Option.getD_some, hbit]
    rfl
  · rw [if_neg (mt hmem.1 hmark), Bool.eq_false_of_not_eq_true hmark, Bool.false_or]

end

/-- Pixels and slices are the pixels of the file, one to one, and none ends outside it.  A mask that
is written and shown again shows what was marked or masked before, and only bit 0 of the last byte
of a marked pixel changes in the file. -/
theorem bpc_file :
    (∀ ppc bpp slices chips : Nat, 0 < ppc → bpp = 1 ∨ bpp = 2 →
      chips * (ppc * (bpp * slices)) ≤ u64Max →
      Set.BijOn (fun p : Nat × Nat => selectedSliceIndex p.1 ppc bpp slices p.2)
        {p | p.1 < chips * ppc ∧ p.2 < slices} (offsetOf bpp '' Set.Iio (chips * slices * ppc)) ∧
      ∀ k < chips * slices * ppc, bpp * k + bpp ≤ chips * (ppc * (bpp * slices))) ∧
    ∀ (family : DetectorFamily) (bpc : List UInt8) (t : OffsetTable family bpc)
      (mask out : List Cell), family ≠ .unknown → bpc.length ≤ u64Max →
      let bpc' := applyMaskToBpc family (t.offsets.map some) mask bpc
      (∀ (i k : Nat), i < out.length → t.offsets[i]? = some k →
        (maskFromBpc family (t.offsets.map some) bpc' out)[i]? =
          some (if marked mask i || isMasked family bpc k then 2 else 0)) ∧
      (maskFromBpc family (t.offsets.map some) bpc' out).length = out.length ∧
      bpc'.length = bpc.length ∧
      ∀ n, bpc'[n]? = if n ∈ maskedBytes family mask t.offsets then bpc[n]?.map (· ||| 1)
        else bpc[n]? := by
  refine ⟨fun ppc bpp slices chips hppc hbpp hsize => ⟨?_, fun k hk => ?_⟩,
    fun family bpc t mask out hf hlen => ⟨fun i k hi hk => ?_, ?_, ?_, fun n => ?_⟩⟩
  · exact selectedSliceIndex_bijOn hppc (by omega) hsize
  · calc bpp * k + bpp = bpp * (k + 1) := rfl
      _ ≤ bpp * (chips * slices * ppc) := Nat.mul_le_mul_left _ hk
      _ = chips * (ppc * (bpp * slices)) := by ring
  · have hne : (applyMaskToBpc family (t.offsets.map some) mask bpc).isEmpty = false := by
      have hinside := t.inside k (List.mem_of_getElem? hk)
      have hpos := bytesPerPixel_pos hf
      rw [Bool.eq_false_iff, ne_eq, List.isEmpty_iff, ← List.length_eq_zero_iff,
        length_applyMaskToBpc hf hlen]
      omega
    rw [maskFromBpc, hne, if_neg Bool.false_ne_true, getElem?_showMask _ hi hk,
      isMasked_applyMaskToBpc hf hlen t mask hk]
  · exact length_maskFromBpc ..
  · exact length_applyMaskToBpc hf hlen t mask
  · exact getElem?_applyMaskToBpc hf hlen t mask n

/-- Two words, the second masked before and the first marked. -/
theorem bpc_file_twoWords :
    let shown := maskFromBpc .mpx3 [some 0, some 2]
      (applyMaskToBpc .mpx3 [some 0, some 2] [1, 0] [8, 8, 8, 9]) [7, 7]
    shown[0]? = some 2 ∧ shown[1]? = some 2 ∧
      selectedSliceIndex 0 2 2 2 1 ∈ offsetOf 2 '' Set.Iio 4 := by
  obtain ⟨hlayout, hmask⟩ := bpc_file
  obtain ⟨hshow, -⟩ := hmask .mpx3 [8, 8, 8, 9] ⟨[0, 2], by decide, by decide⟩ [1, 0] [7, 7]
    (by decide) (by decide)
  obtain ⟨hbij, -⟩ := hlayout 2 2 2 1 (by decide) (.inr rfl) (by decide)
  exact ⟨hshow 0 0 (by decide) rfl, hshow 1 2 (by decide) rfl,
    hbij.mapsTo (show ((0, 1) : Nat × Nat) ∈ {p : Nat × Nat | p.1 < 1 * 2 ∧ p.2 < 2} by decide)⟩

end TimePix
