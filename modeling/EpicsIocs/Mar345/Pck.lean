import Mathlib.Data.BitVec
import EpicsIocs.Lib.BitStream
import EpicsIocs.Lib.Decimal
import EpicsIocs.Lib.Machine

/-!
# The decoder of packed images

`get_pck` (`pck.rs`): the header line is looked for line by line, and the bits behind it are taken in
chunks, each a descriptor of six bits (how many pixels, and how wide their deltas are) and the deltas.
A delta is added to what the pixels before it predict.

Words are their 32 bits.  The counts `valids`, `spillbits`, `pixnum` and the widths are never negative
and are natural numbers; pixels are the integers of an `i16`.
-/

namespace Mar345

open Bytes

/-! ## Words -/

/-- The low `n` bits set. -/
def setbits (n : Nat) : BitVec 32 :=
  if n = 0 then 0 else if 32 ≤ n then 0xFFFFFFFF else (1#32 <<< n) - 1#32

def shiftLeft (x : BitVec 32) (n : Nat) : BitVec 32 :=
  if n = 0 then x else if 32 ≤ n then 0 else (x &&& setbits (32 - n)) <<< n

def shiftRight (x : BitVec 32) (n : Nat) : BitVec 32 :=
  if n = 0 then x else if 32 ≤ n then 0 else (x >>> n) &&& setbits (32 - n)

/-- `i32::wrapping_add`. -/
def wrappingAdd (a b : Int) : Int := (a + b).bmod (2 ^ 32)

/-- `as i16`. -/
def asI16 (v : Int) : Int := v.bmod (2 ^ 16)

/-! ## The header -/

def ascii (text : String) : List UInt8 := text.toList.map Char.toUInt8

def isAsciiWhitespace (b : UInt8) : Bool := b ∈ [0x20, 0x09, 0x0A, 0x0C, 0x0D]

/-- `%d` of at most `maxw` characters (no limit at `none`), and the rest of the input. -/
def scanInt (maxw : Option Nat) (input : List UInt8) : Option (Int × List UInt8) :=
  let input := input.dropWhile isAsciiWhitespace
  let sign := input.takeWhile (fun b => b = '+'.toUInt8 || b = '-'.toUInt8) |>.take 1
  let input := input.drop sign.length
  let digits := input.takeWhile Decimal.isDigit
  let digits := match maxw with
    | none => digits
    | some w => digits.take (w - sign.length)
  if digits = [] then none
  else
    let magnitude : Int := Decimal.value digits
    let v := if sign = ['-'.toUInt8] then -magnitude else magnitude
    -- `parse::<i32>` refuses what an `i32` does not hold
    if -2 ^ 31 ≤ v ∧ v < 2 ^ 31 then some (v, input.drop digits.length) else none

/-- The loop over the format, with the integers converted so far. -/
def scanf (fmt input : List UInt8) (ints : List Int) : Option (List Int) :=
  match fmt with
  | [] => some ints
  | fc :: fmt =>
    if isAsciiWhitespace fc then scanf fmt (input.dropWhile isAsciiWhitespace) ints
    else if fc = '%'.toUInt8 then
      let width := Decimal.value (fmt.takeWhile Decimal.isDigit)
      let rest := fmt.dropWhile Decimal.isDigit
      if rest.head? ≠ some 'd'.toUInt8 then none
      else
        match scanInt (if 0 < width then some width else none) input with
        | none => none
        | some (v, input) => if 2 ≤ ints.length then none else scanf (rest.drop 1) input (ints ++ [v])
    else
      match input with
      | [] => none
      | b :: input => if b ≠ fc then none else scanf fmt input ints
termination_by fmt.length
decreasing_by
  · exact Nat.lt_succ_self _
  · have hle := (List.dropWhile_sublist Decimal.isDigit (l := fmt)).length_le
    simp only [List.length_drop, List.length_cons]
    omega
  · exact Nat.lt_succ_self _

def format : List UInt8 := ascii "\nCCP4 packed image, X: %04d, Y: %04d\n"

def scanfPack (input : List UInt8) : Option (Int × Int) :=
  match scanf format input [] with
  | some [x, y] => some (x, y)
  | _ => none

def BUFSIZ : Nat := 8192

/-- The inner loop of `scan_header`: at most `room` more bytes of a line that begins with `header`.
Whether the file ended, the two numbers, and the bytes behind the line. -/
def scanLine : (room : Nat) → (header : List UInt8) → List UInt8 → Bool × Int × Int × List UInt8
  | 0, _, data => (false, 0, 0, data)
  | _ + 1, _, [] => (true, 0, 0, [])
  | room + 1, header, c :: data =>
    if c = '\n'.toUInt8 then
      match scanfPack (header ++ [c]) with
      | some (x, y) => (false, x, y, data)
      | none => (false, 0, 0, data)
    else scanLine room (header ++ [c]) data

theorem scanLine_le (room : Nat) (header data : List UInt8) :
    (scanLine room header data).2.2.2.length ≤ data.length := by
  induction room generalizing header data with
  | zero => exact Nat.le_refl _
  | succ room ih =>
    cases data with
    | nil => exact Nat.le_refl _
    | cons c data =>
      rw [scanLine]
      split_ifs with hc
      · split <;> exact Nat.le_succ _
      · exact (ih _ _).trans (Nat.le_succ _)

theorem scanLine_lt {room : Nat} (hroom : 0 < room) {header data : List UInt8}
    (h : (scanLine room header data).1 = false) :
    (scanLine room header data).2.2.2.length < data.length := by
  obtain ⟨room, rfl⟩ : ∃ k, room = k + 1 := ⟨room - 1, by omega⟩
  cases data with
  | nil => exact absurd h (by simp [scanLine])
  | cons c data =>
    rw [scanLine]
    split_ifs with hc
    · split <;> exact Nat.lt_succ_self _
    · exact Nat.lt_succ_of_le (scanLine_le _ _ _)

/-- Line by line until one has the two numbers, and the bytes behind it. -/
def scanHeader (data : List UInt8) : Int × Int × List UInt8 :=
  let line := scanLine (BUFSIZ - 1) ['\n'.toUInt8] data
  if line.1 = false ∧ (line.2.1 = 0 ∨ line.2.2.1 = 0) then scanHeader line.2.2.2 else line.2
termination_by data.length
decreasing_by exact scanLine_lt (by decide) (by tauto)

/-! ## The pixels -/

/-- `BITDECODE`: how wide the deltas are. -/
def bitdecode (i : Nat) : Nat := [0, 4, 5, 6, 7, 8, 16, 32].getD i 0

theorem bitdecode_le (i : Nat) : bitdecode i ≤ 32 := by
  by_cases h : i < 8
  · revert i
    decide
  · have hnone : [0, 4, 5, 6, 7, 8, 16, 32][i]? = none := List.getElem?_eq_none (Nat.le_of_not_lt h)
    rw [bitdecode, List.getD_eq_getElem?_getD, hnone]
    exact Nat.zero_le _

/-- What `unpack_word` keeps: the bytes to come, its bits, and the image. -/
structure Unpacker where
  data : List UInt8
  valids : Nat
  spillbits : Nat
  window : BitVec 32
  spill : BitVec 32
  pixel : Nat
  img : List Int

namespace Unpacker

/-- `spill = r.getc(); spillbits = 8`; at the end of the file `getc` gives -1. -/
def getc (s : Unpacker) : Unpacker :=
  match s.data with
  | b :: data => { s with data := data, spill := b.toBitVec.setWidth 32, spillbits := 8 }
  | [] => { s with spill := -1, spillbits := 8 }

/-- Fewer than the six bits of a descriptor are valid. -/
def fillDescriptor (s : Unpacker) : Unpacker :=
  if 0 < s.spillbits then
    { s with
      window := s.window ||| shiftLeft s.spill s.valids, valids := s.valids + s.spillbits,
      spillbits := 0 }
  else s.getc

/-- Fewer bits are valid than a delta is wide. -/
def fillDelta (s : Unpacker) : Unpacker :=
  if 0 < s.spillbits then
    let window := s.window ||| shiftLeft s.spill s.valids
    if s.spillbits < 32 - s.valids then
      { s with window := window, valids := s.valids + s.spillbits, spillbits := 0 }
    else
      let usedbits := 32 - s.valids
      { s with
        window := window, spill := shiftRight s.spill usedbits, spillbits := s.spillbits - usedbits,
        valids := 32 }
  else s.getc

/-- A delta, its sign extended. -/
def nextint (bitnum : Nat) (s : Unpacker) : Int × Unpacker :=
  if bitnum = 0 then (0, s)
  else
    let ni := s.window &&& setbits bitnum
    let ni := if ni &&& (1#32 <<< (bitnum - 1)) ≠ 0 then ni ||| ~~~setbits bitnum else ni
    (ni.toInt, { s with valids := s.valids - bitnum, window := shiftRight s.window bitnum })

/-- The pixel that a delta makes: the first as it is, others on what is to the left, and from the second
row on the average of four neighbours. -/
def store (xw : Nat) (nextint : Int) (s : Unpacker) : Unpacker :=
  let at_ (i : Nat) : Int := s.img.getD i 0
  let p := s.pixel
  let v :=
    if xw < p then
      let pred := (at_ (p - 1) + at_ (p - xw + 1) + at_ (p - xw) + at_ (p - xw - 1) + 2).tdiv 4
      asI16 (wrappingAdd nextint pred)
    else if p ≠ 0 then asI16 (wrappingAdd (at_ (p - 1)) nextint)
    else asI16 nextint
  { s with img := s.img.set p v, pixel := p + 1 }

/-- How far the bits are from a full window. -/
def gap (s : Unpacker) : Nat := 2 * (32 - s.valids) + if s.spillbits = 0 then 1 else 0

theorem gap_fillDelta {s : Unpacker} (h : s.valids < 32) : s.fillDelta.gap < s.gap := by
  rw [fillDelta]
  split_ifs with hspill hroom
  · show 2 * (32 - (s.valids + s.spillbits)) + 1 < 2 * (32 - s.valids) + _
    split_ifs <;> omega
  · show 2 * (32 - 32) + _ < 2 * (32 - s.valids) + _
    split_ifs <;> omega
  · rw [getc]
    have hzero : s.spillbits = 0 := by omega
    split <;> · show 2 * (32 - s.valids) + 0 < 2 * (32 - s.valids) + _; rw [if_pos hzero]; omega

theorem gap_fillDescriptor {s : Unpacker} (h : s.valids < 6) : s.fillDescriptor.gap < s.gap := by
  rw [fillDescriptor]
  split_ifs with hspill
  · show 2 * (32 - (s.valids + s.spillbits)) + 1 < 2 * (32 - s.valids) + _
    split_ifs <;> omega
  · rw [getc]
    have hzero : s.spillbits = 0 := by omega
    split <;> · show 2 * (32 - s.valids) + 0 < 2 * (32 - s.valids) + _; rw [if_pos hzero]; omega

@[simp] theorem pixel_fillDelta (s : Unpacker) : s.fillDelta.pixel = s.pixel := by
  rw [fillDelta, getc]
  repeat' split
  all_goals rfl

@[simp] theorem pixel_fillDescriptor (s : Unpacker) : s.fillDescriptor.pixel = s.pixel := by
  rw [fillDescriptor, getc]
  repeat' split
  all_goals rfl

@[simp] theorem pixel_nextint (bitnum : Nat) (s : Unpacker) : (s.nextint bitnum).2.pixel = s.pixel := by
  rw [nextint]
  split_ifs <;> rfl

@[simp] theorem pixel_store (xw : Nat) (next : Int) (s : Unpacker) :
    (s.store xw next).pixel = s.pixel + 1 := rfl

end Unpacker

/-- The inner loop of `unpack_word`: `pixnum` deltas of the width at `i`. -/
def deltas (xw total i : Nat) (pixnum : Nat) (s : Unpacker) : Unpacker :=
  if 0 < pixnum ∧ s.pixel < total then
    if s.valids < bitdecode i then deltas xw total i pixnum s.fillDelta
    else
      let next := s.nextint (bitdecode i)
      deltas xw total i (pixnum - 1) (next.2.store xw next.1)
  else s
termination_by (pixnum, s.gap)
decreasing_by
  · have hle := bitdecode_le i
    exact Prod.Lex.right _ (Unpacker.gap_fillDelta (by omega))
  · exact Prod.Lex.left _ _ (by omega)

theorem pixel_le_deltas (xw total i pixnum : Nat) (s : Unpacker) :
    s.pixel ≤ (deltas xw total i pixnum s).pixel := by
  induction pixnum, s using deltas.induct xw total i with
  | case1 pixnum s h hlt ih =>
    rw [deltas, if_pos h, if_pos hlt]
    exact (Unpacker.pixel_fillDelta s).symm.trans_le ih
  | case2 pixnum s h hlt next ih =>
    rw [deltas, if_pos h, if_neg hlt]
    refine (Nat.le_succ _).trans (le_trans ?_ ih)
    rw [Unpacker.pixel_store, Unpacker.pixel_nextint]
  | case3 pixnum s h =>
    rw [deltas, if_neg h]

theorem pixel_lt_deltas {xw total i pixnum : Nat} (hpixnum : 0 < pixnum) {s : Unpacker}
    (htotal : s.pixel < total) : s.pixel < (deltas xw total i pixnum s).pixel := by
  induction pixnum, s using deltas.induct xw total i with
  | case1 pixnum s h hlt ih =>
    rw [deltas, if_pos h, if_pos hlt]
    rw [← Unpacker.pixel_fillDelta s] at htotal ⊢
    exact ih hpixnum htotal
  | case2 pixnum s h hlt next ih =>
    rw [deltas, if_pos h, if_neg hlt]
    refine lt_of_lt_of_le ?_ (pixel_le_deltas _ _ _ _ _)
    rw [Unpacker.pixel_store, Unpacker.pixel_nextint]
    exact Nat.lt_succ_self _
  | case3 pixnum s h => exact absurd ⟨hpixnum, htotal⟩ h

/-- The bits of a descriptor leave the window. -/
def Unpacker.describe (s : Unpacker) : Nat × Nat × Unpacker :=
  let pixnum := 1 <<< (s.window &&& setbits 3).toNat
  let window := shiftRight s.window 3
  let i := (window &&& setbits 3).toNat
  (pixnum, i, { s with window := shiftRight window 3, valids := s.valids - 6 })

theorem Unpacker.describe_pos (s : Unpacker) : 0 < s.describe.1 := by
  show 0 < 1 <<< _
  rw [Nat.one_shiftLeft]
  exact Nat.two_pow_pos _

/-- The outer loop of `unpack_word`. -/
def unpackWord (xw total : Nat) (s : Unpacker) : Unpacker :=
  if s.pixel < total then
    if s.valids < 6 then unpackWord xw total s.fillDescriptor
    else
      let chunk := s.describe
      unpackWord xw total (deltas xw total chunk.2.1 chunk.1 chunk.2.2)
  else s
termination_by (total - s.pixel, s.gap)
decreasing_by
  · rw [Unpacker.pixel_fillDescriptor]
    exact Prod.Lex.right _ (Unpacker.gap_fillDescriptor (by assumption))
  · have hlt : s.describe.2.2.pixel <
        (deltas xw total s.describe.2.1 s.describe.1 s.describe.2.2).pixel :=
      pixel_lt_deltas s.describe_pos (by assumption)
    have hsame : s.describe.2.2.pixel = s.pixel := rfl
    exact Prod.Lex.left _ _ (by omega)

/-- `nx.saturating_mul(ny)` pixels. -/
def imageLen (nx ny : Nat) : Nat := min (nx * ny) Machine.u64Max

def getPck (data : List UInt8) (nx ny : Nat) : List Int :=
  let img := List.replicate (imageLen nx ny) 0
  let (x, y, data) := scanHeader data
  if 0 < x ∧ 0 < y then
    (unpackWord x.toNat (min (x * y).toNat img.length)
      { data := data, valids := 0, spillbits := 0, window := 0, spill := 0, pixel := 0, img := img }).img
  else img

end Mar345
