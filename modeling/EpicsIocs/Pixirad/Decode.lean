import EpicsIocs.Lib.Bits
import EpicsIocs.Pixirad.Counter
import Mathlib.Order.Interval.Finset.Nat

/-! # From a frame to an image

`Decoder` of `decode.rs`: the words are gathered module by module, the bit planes become
counters, the counters pulses, and the pixels go where they belong.  A counter of an output
ends up at its pixel of the module (`decode_spec`):

    image[module * matrix + readout counter output] = what the planes say of it

Indices outside a buffer would be a panic; a run that panics has no result here. -/

namespace Pixirad

open Bits Blocks Bytes Scatter

/-! ## The sensor -/

/-- A sensor with its geometry. -/
structure Detector extends Sensor where
  asic : Asic
  modules : Nat
  rows : Nat
  cols : Nat
  dout : Nat
  colsPerDout : Nat
  matrixSizePxls : Nat
  bitPerCntStd : Nat
  autocalBitCnt : Nat
  dout_le : dout ≤ 16
  cols_eq : cols = dout * colsPerDout
  matrix_eq : matrixSizePxls = rows * cols
  bits_eq : bitPerCntStd = 15
  autocal_bits_le : autocalBitCnt ≤ bitPerCntStd

def Asic.fromSizeX (maxSizeX : Int) : Option Asic :=
  match maxSizeX with
  | 476 => some .pii
  | 402 => some .piii
  | _ => none

def modulesOfSize (maxSizeY : Int) : Option Nat :=
  match maxSizeY with
  | 512 => some 1
  | 1024 => some 2
  | 4096 => some 8
  | _ => none

def Asic.autocalBitCnt : Asic → Nat
  | .pii => 5
  | .piii => 9

theorem Asic.autocalBitCnt_le (asic : Asic) : asic.autocalBitCnt ≤ 15 := by
  cases asic <;> decide

namespace Detector

def fromSize (maxSizeX maxSizeY : Int) : Option Detector :=
  (Asic.fromSizeX maxSizeX).bind fun asic =>
    (Sensor.fromSize asic maxSizeY).bind fun sensor =>
      (modulesOfSize maxSizeY).map fun modules =>
        { sensor with
          asic, modules, rows := maxSizeX.toNat, cols := 512, dout := 16, colsPerDout := 32
          matrixSizePxls := maxSizeX.toNat * 512, bitPerCntStd := 15
          autocalBitCnt := asic.autocalBitCnt, dout_le := Nat.le_refl _, cols_eq := rfl
          matrix_eq := rfl, bits_eq := rfl
          autocal_bits_le := asic.autocalBitCnt_le }

variable (s : Detector)

def codeDepth (isAutocal : Bool) : Nat := if isAutocal then s.autocalBitCnt else s.bitPerCntStd

def imagePixels : Nat := s.modules * s.matrixSizePxls

def countersPerModule : Nat := s.colsPerDout * s.rows

theorem codeDepth_le (isAutocal : Bool) : s.codeDepth isAutocal ≤ s.bitPerCntStd := by
  unfold codeDepth
  split
  · exact s.autocal_bits_le
  · exact Nat.le_refl _

theorem matrix_eq_counters : s.matrixSizePxls = s.countersPerModule * s.dout := by
  rw [s.matrix_eq, s.cols_eq, countersPerModule, Nat.mul_comm s.dout, ← Nat.mul_assoc,
    Nat.mul_comm s.rows]

theorem matrix_eq_sectors : s.matrixSizePxls = s.dout * s.countersPerModule := by
  rw [s.matrix_eq_counters, Nat.mul_comm]

theorem matrix_eq_cols : s.matrixSizePxls = s.cols * s.rows := by
  rw [s.matrix_eq, Nat.mul_comm]

end Detector

/-! ## The steps of the decoder -/

/-- A counter of output `j`: bit plane `i` has bit `codeDepth - 1 - i` of it. -/
def convertBitStreamToCounts (codeDepth : Nat) (planes : List Nat) (j : Nat) : Nat :=
  setBits ((planes.take codeDepth).zipIdx.map fun (plane, i) =>
    (codeDepth - 1 - i, plane.testBit j))

def decodeCounts (table buffer : List Nat) : Option (List Nat) :=
  buffer.mapM fun v => table[v % conversionTableDepth]?

section
variable (s : Detector)

/-- The sorted buffer, and the scratch it was sorted in. -/
def databufferSorting (buffer scratch : List Nat) : Option (List Nat × List Nat) :=
  let pixelsInSector := s.colsPerDout * s.rows
  (scatter? scratch ((List.range s.dout).flatMap fun sector =>
    (List.range pixelsInSector).map fun pixel =>
      ((sector + 1) * pixelsInSector - pixel - 1, buffer[sector + pixel * s.dout]?))).bind
    fun scratch =>
      if buffer.length ≤ scratch.length then some (scratch.take buffer.length, scratch) else none

def mapOnPixieII (buffer : List Nat) : Option (List Nat) :=
  (overBlocks s.rows (fun _ column => some (column.reverse, ())) (buffer, ())
    ((List.range s.cols).filter fun col => col % 2 = 1)).map Prod.fst

/-- One sector. -/
def mapSector (scratch sector : List Nat) : Option (List Nat × List Nat) :=
  (scatter? scratch ((List.range s.rows).flatMap fun row => (List.range s.colsPerDout).map fun col =>
    (row + (s.colsPerDout - 1 - col) * s.rows, sector[row * s.colsPerDout + col]?))).bind
    fun scratch =>
      if s.rows * s.colsPerDout ≤ scratch.length then
        some (scratch.take (s.rows * s.colsPerDout), scratch)
      else none

def mapOnPixieIII (buffer scratch : List Nat) : Option (List Nat × List Nat) :=
  overBlocks (s.rows * s.colsPerDout) (mapSector s) (buffer, scratch) (List.range s.dout)

/-- The pixels of a module to their places. -/
def placePixels (buffer scratch : List Nat) : Option (List Nat × List Nat) :=
  (databufferSorting s buffer scratch).bind fun sorted =>
    match s.asic with
    | .pii => (mapOnPixieII s sorted.1).map fun buffer => (buffer, sorted.2)
    | .piii => mapOnPixieIII s sorted.1 sorted.2

end

/-- Word `i` of the payload. -/
def wordAt? (payload : List UInt8) (i : Nat) : Option Nat := (slice? payload (i * 2) 2).map beNat

structure FrameTooShort where
  have_ : Nat
  need : Nat
  deriving DecidableEq, Repr

structure Decoder where
  sensor : Detector
  table : List Nat
  planes : List Nat
  scratch : List Nat
  image : List Nat

namespace Decoder

def new (sensor : Detector) : Decoder where
  sensor
  table := conversionTable sensor.asic sensor.bitPerCntStd
  planes := List.replicate (sensor.modules * sensor.countersPerModule * sensor.bitPerCntStd) 0
  scratch := List.replicate sensor.matrixSizePxls 0
  image := List.replicate sensor.imagePixels 0

variable (d : Decoder)

def frameBytes (isAutocal : Bool) : Nat :=
  let s := d.sensor
  s.modules * s.colsPerDout * s.rows * s.codeDepth isAutocal * 2

/-- The modules are interleaved word by word. -/
def gather (codeDepth : Nat) (payload : List UInt8) : Option (List Nat) :=
  let s := d.sensor
  let countersPerModule := s.colsPerDout * s.rows
  scatter? d.planes ((List.range s.modules).flatMap fun module =>
    (List.range countersPerModule).flatMap fun counter => (List.range codeDepth).map fun plane =>
      (module * countersPerModule * codeDepth + counter * codeDepth + plane,
        wordAt? payload (module + counter * s.modules * codeDepth + plane * s.modules)))

/-- The counters of the outputs, in the order they are read out. -/
def counters (codeDepth : Nat) (planes : List Nat) : Option (List Nat) :=
  let s := d.sensor
  let countersPerModule := s.colsPerDout * s.rows
  scatter? d.image ((List.range s.modules).flatMap fun module =>
    (List.range countersPerModule).flatMap fun counter => (List.range s.dout).map fun j =>
      let start := module * countersPerModule * codeDepth + counter * codeDepth
      (module * s.matrixSizePxls + counter * s.dout + j,
        if start + codeDepth ≤ planes.length then
          some (convertBitStreamToCounts codeDepth ((planes.drop start).take codeDepth) j)
        else none))

/-- A module's counters to its pixels.  An autocalibration frame does not count. -/
def decodeModule (isAutocal : Bool) (scratch buffer : List Nat) : Option (List Nat × List Nat) :=
  (if isAutocal then some buffer else decodeCounts d.table buffer).bind fun buffer =>
    placePixels d.sensor buffer scratch

def decode (isAutocal : Bool) (payload : List UInt8) :
    Option (Except FrameTooShort (List Nat) × Decoder) :=
  let s := d.sensor
  let codeDepth := s.codeDepth isAutocal
  let need := d.frameBytes isAutocal
  if payload.length < need then some (.error ⟨payload.length, need⟩, d)
  else
    (d.gather codeDepth payload).bind fun planes =>
      (d.counters codeDepth planes).bind fun image =>
        (overBlocks s.matrixSizePxls (d.decodeModule isAutocal) (image, d.scratch)
          (List.range s.modules)).map fun decoded =>
            (.ok decoded.1, { d with planes, scratch := decoded.2, image := decoded.1 })

/-- The decoder after some frames. -/
def decodeAll (d : Decoder) : List (Bool × List UInt8) → Option Decoder
  | [] => some d
  | frame :: frames => (d.decode frame.1 frame.2).bind fun r => decodeAll r.2 frames

end Decoder

/-! ## Bits and words -/

/-- Bit `k` of a counter is in plane `codeDepth - 1 - k`. -/
theorem testBit_convert {codeDepth : Nat} {planes : List Nat} (hlen : planes.length = codeDepth)
    (j k : Nat) : (convertBitStreamToCounts codeDepth planes j).testBit k =
      (decide (k < codeDepth) && (planes.getD (codeDepth - 1 - k) 0).testBit j) := by
  have hmem : ∀ i b, (i, b) ∈ ((planes.take codeDepth).zipIdx.map fun (plane, i) =>
      (codeDepth - 1 - i, plane.testBit j)) ↔
        ∃ p < codeDepth, i = codeDepth - 1 - p ∧ b = (planes.getD p 0).testBit j := by
    intro i b
    rw [List.take_of_length_le (Nat.le_of_eq hlen), List.mem_map]
    constructor
    · rintro ⟨⟨plane, p⟩, hw, heq⟩
      have hget : planes[p]? = some plane := List.mem_zipIdx_iff_getElem?.1 hw
      obtain ⟨hlt, -⟩ := List.getElem?_eq_some_iff.1 hget
      obtain ⟨rfl, rfl⟩ := Prod.mk.inj heq
      refine ⟨p, by omega, rfl, ?_⟩
      rw [List.getD_eq_getElem?_getD, hget]
      rfl
    · rintro ⟨p, hp, rfl, rfl⟩
      have hget : planes[p]? = some (planes.getD p 0) := by
        rw [List.getD_eq_getElem?_getD, List.getElem?_eq_getElem (by omega)]
        rfl
      exact ⟨(planes.getD p 0, p), List.mem_zipIdx_iff_getElem?.2 hget, rfl⟩
  unfold convertBitStreamToCounts
  by_cases hk : k < codeDepth
  · rw [decide_eq_true hk, Bool.true_and]
    apply testBit_setBits_of_mem
    · exact (hmem _ _).2 ⟨codeDepth - 1 - k, by omega, by omega, rfl⟩
    · intro b hb
      obtain ⟨p, hp, hkp, rfl⟩ := (hmem _ _).1 hb
      have heq : p = codeDepth - 1 - k := by omega
      rw [heq]
  · rw [decide_eq_false hk, Bool.false_and]
    apply testBit_setBits_of_not_mem
    intro b hb
    obtain ⟨p, hp, hkp, -⟩ := (hmem _ _).1 hb
    omega

theorem wordAt?_of_le {payload : List UInt8} {i n : Nat} (hi : i < n) (h : n * 2 ≤ payload.length) :
    ∃ w, wordAt? payload i = some w := by
  have hle : i * 2 + 2 ≤ payload.length := by omega
  exact ⟨_, by rw [wordAt?, slice?, if_pos hle]; rfl⟩

/-! ## The order of the pixels -/

namespace Detector

variable (s : Detector)

/-- The pixel of a module that a counter of an output is of.  A sector, `colsPerDout` columns, is
read out backwards; a Pixie-II goes up and down its columns, a Pixie-III along the rows from the
last column. -/
def readout (counter output : Nat) : Nat :=
  let pixel := s.countersPerModule - 1 - counter
  match s.asic with
  | .pii =>
    let col := output * s.colsPerDout + pixel / s.rows
    let row := pixel % s.rows
    col * s.rows + if col % 2 = 1 then s.rows - 1 - row else row
  | .piii =>
    let col := output * s.colsPerDout + (s.colsPerDout - 1 - pixel % s.colsPerDout)
    let row := pixel / s.colsPerDout
    col * s.rows + row

end Detector

section
variable {s : Detector} {buffer scratch : List Nat}

theorem databufferSorting_spec (hb : buffer.length = s.matrixSizePxls)
    (hs : scratch.length = s.matrixSizePxls) :
    ∃ r, databufferSorting s buffer scratch = some r ∧ r.1.length = s.matrixSizePxls ∧
      r.2.length = s.matrixSizePxls ∧
      ∀ j < s.dout, ∀ c < s.countersPerModule,
        r.1[j * s.countersPerModule + (s.countersPerModule - 1 - c)]? = buffer[c * s.dout + j]? := by
  have hmem : ∀ i r, (i, r) ∈ ((List.range s.dout).flatMap fun sector =>
      (List.range (s.colsPerDout * s.rows)).map fun pixel =>
        ((sector + 1) * (s.colsPerDout * s.rows) - pixel - 1, buffer[sector + pixel * s.dout]?)) ↔
      ∃ j < s.dout, ∃ c < s.countersPerModule,
        i = j * s.countersPerModule + (s.countersPerModule - 1 - c) ∧
          r = buffer[c * s.dout + j]? := by
    intro i r
    simp only [List.mem_flatMap, List.mem_map, List.mem_range, Prod.mk.injEq]
    have hindex : ∀ j c, c < s.countersPerModule → (j + 1) * (s.colsPerDout * s.rows) - c - 1 =
        j * s.countersPerModule + (s.countersPerModule - 1 - c) := by
      intro j c hc
      have hsucc : (j + 1) * (s.colsPerDout * s.rows) =
          j * s.countersPerModule + s.countersPerModule := Nat.succ_mul _ _
      omega
    constructor
    · rintro ⟨j, hj, c, hc, rfl, rfl⟩
      exact ⟨j, hj, c, hc, hindex j c hc, by rw [Nat.add_comm]⟩
    · rintro ⟨j, hj, c, hc, rfl, rfl⟩
      exact ⟨j, hj, c, hc, hindex j c hc, by rw [Nat.add_comm]⟩
  obtain ⟨sorted, hrun, hlen, hheld⟩ := scatter?_spec scratch _
    (fun w hw => by
      obtain ⟨j, hj, c, hc, hi, hr⟩ := (hmem w.1 w.2).1 hw
      constructor
      · rw [hi, hs, s.matrix_eq_sectors]
        exact radix_lt hj (by omega)
      · have hlt : c * s.dout + j < buffer.length := by
          rw [hb, s.matrix_eq_counters]
          exact radix_lt hc hj
        exact ⟨_, hr.trans (List.getElem?_eq_getElem hlt)⟩)
    (fun i r r' hr hr' => by
      obtain ⟨j, hj, c, hc, hi, rfl⟩ := (hmem i r).1 hr
      obtain ⟨j', hj', c', hc', hi', rfl⟩ := (hmem i r').1 hr'
      obtain ⟨hjj, hcc⟩ := radix_inj (by omega) (by omega) (hi.symm.trans hi')
      have hc_eq : c = c' := by omega
      rw [hjj, hc_eq])
  have hscratch : sorted.length = s.matrixSizePxls := hlen.trans hs
  refine ⟨(sorted, sorted), ?_, hscratch, hscratch, ?_⟩
  · unfold databufferSorting
    dsimp only
    rw [hrun]
    show (if buffer.length ≤ sorted.length then some (sorted.take buffer.length, sorted) else none) = _
    rw [hb, ← hscratch, if_pos (Nat.le_refl _), List.take_length]
  · intro j hj c hc
    exact hheld _ _ ((hmem _ _).2 ⟨j, hj, c, hc, rfl, rfl⟩)

/-- The odd columns are turned round. -/
theorem mapOnPixieII_spec (hb : buffer.length = s.matrixSizePxls) :
    ∃ r, mapOnPixieII s buffer = some r ∧ r.length = s.matrixSizePxls ∧
      ∀ col < s.cols, ∀ row < s.rows,
        r[col * s.rows + if col % 2 = 1 then s.rows - 1 - row else row]? =
          buffer[col * s.rows + row]? := by
  have hodd : ∀ col, col ∈ (List.range s.cols).filter (fun col => col % 2 = 1) ↔
      col < s.cols ∧ col % 2 = 1 := by
    intro col
    rw [List.mem_filter, List.mem_range, decide_eq_true_iff]
  obtain ⟨r, hrun, hlen, -, hreversed, hkept⟩ := overBlocks_spec (m := s.cols)
    (fun _ (column : List Nat) => some (column.reverse, ())) (fun _ => True)
    (fun column column' => column' = column.reverse) _ (buffer, ())
    (fun _ _ _ b _ hb => ⟨_, rfl, by rw [List.length_reverse, hb], trivial, rfl⟩)
    (fun col hcol => ((hodd col).1 hcol).1) (List.nodup_range.filter _)
    (by rw [← s.matrix_eq_cols, hb]) trivial
  have hlen' : r.1.length = s.matrixSizePxls := by rw [hlen, s.matrix_eq_cols]
  refine ⟨r.1, by rw [mapOnPixieII, hrun]; rfl, hlen', ?_⟩
  intro col hcol row hrow
  by_cases hcolodd : col % 2 = 1
  · have hblock : block s.rows r.1 col = (block s.rows buffer col).reverse :=
      hreversed col ((hodd col).2 ⟨hcol, hcolodd⟩)
    have hcut : (block s.rows buffer col).length = s.rows := by
      apply length_block
      rw [hb, s.matrix_eq_cols]
      exact Nat.mul_le_mul_right _ hcol
    rw [if_pos hcolodd, ← getElem?_block (by omega), hblock,
      List.getElem?_reverse (by omega), hcut, ← getElem?_block hrow]
    congr 1
    omega
  · have hblock : block s.rows r.1 col = block s.rows buffer col :=
      hkept col fun hmem => hcolodd ((hodd col).1 hmem).2
    rw [if_neg hcolodd, ← getElem?_block hrow, hblock, getElem?_block hrow]

/-- A sector row by row from its last column becomes one column by column. -/
theorem mapSector_spec {sector : List Nat} (hb : sector.length = s.rows * s.colsPerDout)
    (hs : s.rows * s.colsPerDout ≤ scratch.length) :
    ∃ r, mapSector s scratch sector = some r ∧ r.1.length = s.rows * s.colsPerDout ∧
      r.2.length = scratch.length ∧
      ∀ row < s.rows, ∀ col < s.colsPerDout,
        r.1[row + (s.colsPerDout - 1 - col) * s.rows]? = sector[row * s.colsPerDout + col]? := by
  have hmem : ∀ i r, (i, r) ∈ ((List.range s.rows).flatMap fun row =>
      (List.range s.colsPerDout).map fun col =>
        (row + (s.colsPerDout - 1 - col) * s.rows, sector[row * s.colsPerDout + col]?)) ↔
      ∃ row < s.rows, ∃ col < s.colsPerDout,
        i = (s.colsPerDout - 1 - col) * s.rows + row ∧
          r = sector[row * s.colsPerDout + col]? := by
    intro i r
    simp only [List.mem_flatMap, List.mem_map, List.mem_range, Prod.mk.injEq]
    constructor
    · rintro ⟨row, hrow, col, hcol, rfl, rfl⟩
      exact ⟨row, hrow, col, hcol, Nat.add_comm _ _, rfl⟩
    · rintro ⟨row, hrow, col, hcol, rfl, rfl⟩
      exact ⟨row, hrow, col, hcol, Nat.add_comm _ _, rfl⟩
  have hinside : ∀ row < s.rows, ∀ col < s.colsPerDout,
      (s.colsPerDout - 1 - col) * s.rows + row < s.rows * s.colsPerDout := by
    intro row hrow col hcol
    rw [Nat.mul_comm s.rows]
    exact radix_lt (by omega) hrow
  obtain ⟨mapped, hrun, hlen, hheld⟩ := scatter?_spec scratch _
    (fun w hw => by
      obtain ⟨row, hrow, col, hcol, hi, hr⟩ := (hmem w.1 w.2).1 hw
      constructor
      · rw [hi]
        exact Nat.lt_of_lt_of_le (hinside row hrow col hcol) hs
      · have hlt : row * s.colsPerDout + col < sector.length := by
          rw [hb]
          exact radix_lt hrow hcol
        exact ⟨_, hr.trans (List.getElem?_eq_getElem hlt)⟩)
    (fun i r r' hr hr' => by
      obtain ⟨row, hrow, col, hcol, hi, rfl⟩ := (hmem i r).1 hr
      obtain ⟨row', hrow', col', hcol', hi', rfl⟩ := (hmem i r').1 hr'
      obtain ⟨hcc, hrr⟩ := radix_inj hrow hrow' (hi.symm.trans hi')
      have hcol_eq : col = col' := by omega
      rw [hrr, hcol_eq])
  have hle : s.rows * s.colsPerDout ≤ mapped.length := by rw [hlen]; exact hs
  refine ⟨(mapped.take (s.rows * s.colsPerDout), mapped), ?_, ?_, hlen, ?_⟩
  · unfold mapSector
    rw [hrun]
    show (if s.rows * s.colsPerDout ≤ mapped.length then _ else none) = _
    rw [if_pos hle]
  · rw [List.length_take, Nat.min_eq_left hle]
  · intro row hrow col hcol
    have hin := hinside row hrow col hcol
    rw [Nat.add_comm row, List.getElem?_take_of_lt hin]
    exact hheld _ _ ((hmem _ _).2 ⟨row, hrow, col, hcol, rfl, rfl⟩)

theorem mapOnPixieIII_spec (hb : buffer.length = s.matrixSizePxls)
    (hs : scratch.length = s.matrixSizePxls) :
    ∃ r, mapOnPixieIII s buffer scratch = some r ∧ r.1.length = s.matrixSizePxls ∧
      r.2.length = s.matrixSizePxls ∧
      ∀ j < s.dout, ∀ row < s.rows, ∀ col < s.colsPerDout,
        r.1[(j * s.colsPerDout + (s.colsPerDout - 1 - col)) * s.rows + row]? =
          buffer[j * s.countersPerModule + (row * s.colsPerDout + col)]? := by
  have hsector : s.rows * s.colsPerDout = s.countersPerModule := Nat.mul_comm _ _
  have hmatrix : s.matrixSizePxls = s.dout * (s.rows * s.colsPerDout) := by
    rw [s.matrix_eq_sectors, hsector]
  obtain ⟨r, hrun, hlen, hlen', hmapped, -⟩ := overBlocks_spec (m := s.dout) (mapSector s)
    (fun scratch => scratch.length = s.matrixSizePxls)
    (fun sector sector' => ∀ row < s.rows, ∀ col < s.colsPerDout,
      sector'[row + (s.colsPerDout - 1 - col) * s.rows]? = sector[row * s.colsPerDout + col]?)
    (List.range s.dout) (buffer, scratch)
    (fun j hj scratch sector hscratch hsec => by
      have hle : s.rows * s.colsPerDout ≤ scratch.length := by
        rw [hscratch, hmatrix]
        exact Nat.le_mul_of_pos_left _ (Nat.zero_lt_of_lt (List.mem_range.1 hj))
      obtain ⟨r, hr, hr1, hr2, hheld⟩ := mapSector_spec hsec hle
      exact ⟨r, hr, hr1, hr2.trans hscratch, hheld⟩)
    (fun j hj => List.mem_range.1 hj) List.nodup_range (hb.trans hmatrix) hs
  refine ⟨r, hrun, hlen.trans hmatrix.symm, hlen', ?_⟩
  intro j hj row hrow col hcol
  have hin : row + (s.colsPerDout - 1 - col) * s.rows < s.rows * s.colsPerDout := by
    have hlt := radix_lt (q := s.colsPerDout - 1 - col) (m := s.colsPerDout) (by omega) hrow
    rw [Nat.mul_comm s.rows]
    omega
  have hin' : row * s.colsPerDout + col < s.rows * s.colsPerDout := radix_lt hrow hcol
  have hheld := hmapped j (List.mem_range.2 hj) row hrow col hcol
  rw [getElem?_block hin, getElem?_block hin', hsector] at hheld
  rw [← hheld]
  congr 1
  rw [Detector.countersPerModule]
  ring

theorem readout_pii (h : s.asic = .pii) {c p : Nat} (hp : s.countersPerModule - 1 - c = p)
    (j : Nat) : s.readout c j = (j * s.colsPerDout + p / s.rows) * s.rows +
      if (j * s.colsPerDout + p / s.rows) % 2 = 1 then s.rows - 1 - p % s.rows else p % s.rows := by
  unfold Detector.readout
  rw [hp, h]

theorem readout_piii (h : s.asic = .piii) {c p : Nat} (hp : s.countersPerModule - 1 - c = p)
    (j : Nat) : s.readout c j =
      (j * s.colsPerDout + (s.colsPerDout - 1 - p % s.colsPerDout)) * s.rows + p / s.colsPerDout := by
  unfold Detector.readout
  rw [hp, h]

/-- A pixel of a sector by its column and its row. -/
theorem sector_split {p : Nat} (hp : p < s.countersPerModule) :
    p / s.rows < s.colsPerDout ∧ p % s.rows < s.rows ∧
      p / s.colsPerDout < s.rows ∧ p % s.colsPerDout < s.colsPerDout := by
  have hpos : 0 < s.colsPerDout * s.rows := Nat.zero_lt_of_lt hp
  have hcols := Nat.pos_of_mul_pos_right hpos
  have hrows := Nat.pos_of_mul_pos_left hpos
  exact ⟨Nat.div_lt_of_lt_mul (by rw [Nat.mul_comm]; exact hp), Nat.mod_lt _ hrows,
    Nat.div_lt_of_lt_mul hp, Nat.mod_lt _ hcols⟩

/-- Sorting and mapping take each counter to its pixel. -/
theorem placePixels_spec (hb : buffer.length = s.matrixSizePxls)
    (hs : scratch.length = s.matrixSizePxls) :
    ∃ r, placePixels s buffer scratch = some r ∧ r.1.length = s.matrixSizePxls ∧
      r.2.length = s.matrixSizePxls ∧
      ∀ c < s.countersPerModule, ∀ j < s.dout, r.1[s.readout c j]? = buffer[c * s.dout + j]? := by
  obtain ⟨sorted, hsort, hlen, hscratch, hsorted⟩ := databufferSorting_spec hb hs
  have hplace : placePixels s buffer scratch =
      match s.asic with
      | .pii => (mapOnPixieII s sorted.1).map fun buffer => (buffer, sorted.2)
      | .piii => mapOnPixieIII s sorted.1 sorted.2 := by
    rw [placePixels, hsort]
    rfl
  cases hasic : s.asic with
  | pii =>
    obtain ⟨mapped, hmap, hlen', hmapped⟩ := mapOnPixieII_spec hlen
    rw [hasic] at hplace
    refine ⟨(mapped, sorted.2), ?_, hlen', hscratch, ?_⟩
    · rw [hplace]
      dsimp only
      rw [hmap]
      rfl
    · intro c hc j hj
      obtain ⟨p, hp⟩ : ∃ p, s.countersPerModule - 1 - c = p := ⟨_, rfl⟩
      obtain ⟨hcol, hrow, -, -⟩ := sector_split (s := s) (p := p) (by omega)
      have hcols : j * s.colsPerDout + p / s.rows < s.cols := by
        rw [s.cols_eq]
        exact radix_lt hj hcol
      have hindex : (j * s.colsPerDout + p / s.rows) * s.rows + p % s.rows =
          j * s.countersPerModule + p := by
        have hdiv := Nat.div_add_mod' p s.rows
        rw [Detector.countersPerModule, Nat.add_mul, Nat.mul_assoc]
        omega
      have hheld := hmapped _ hcols _ hrow
      rw [hindex, ← hp, hsorted j hj c hc, hp] at hheld
      rw [readout_pii hasic hp, hheld]
  | piii =>
    obtain ⟨mapped, hmap, hlen', hscratch', hmapped⟩ := mapOnPixieIII_spec hlen hscratch
    rw [hasic] at hplace
    refine ⟨mapped, hplace.trans hmap, hlen', hscratch', ?_⟩
    intro c hc j hj
    obtain ⟨p, hp⟩ : ∃ p, s.countersPerModule - 1 - c = p := ⟨_, rfl⟩
    obtain ⟨-, -, hrow, hcol⟩ := sector_split (s := s) (p := p) (by omega)
    have hheld := hmapped j hj _ hrow _ hcol
    rw [Nat.div_add_mod', ← hp, hsorted j hj c hc, hp] at hheld
    rw [readout_piii hasic hp, hheld]

/-- Counters of outputs and pixels of a module are one to one. -/
theorem readout_inj {c c' j j' : Nat} (hc : c < s.countersPerModule) (hc' : c' < s.countersPerModule)
    (h : s.readout c j = s.readout c' j') : c = c' ∧ j = j' := by
  obtain ⟨p, hp⟩ : ∃ p, s.countersPerModule - 1 - c = p := ⟨_, rfl⟩
  obtain ⟨p', hp'⟩ : ∃ p, s.countersPerModule - 1 - c' = p := ⟨_, rfl⟩
  obtain ⟨hcol, hrow, hrow3, hcol3⟩ := sector_split (s := s) (p := p) (by omega)
  obtain ⟨hcol', hrow', hrow3', hcol3'⟩ := sector_split (s := s) (p := p') (by omega)
  have hpixel : p = p' ∧ j = j' := by
    cases hasic : s.asic with
    | pii =>
      rw [readout_pii hasic hp, readout_pii hasic hp'] at h
      obtain ⟨hcols, hrows⟩ := radix_inj (by split <;> omega) (by split <;> omega) h
      obtain ⟨hj, hdiv⟩ := radix_inj hcol hcol' hcols
      rw [hcols] at hrows
      have hmod : p % s.rows = p' % s.rows := by split at hrows <;> omega
      exact ⟨by rw [← Nat.div_add_mod' p s.rows, hdiv, hmod, Nat.div_add_mod'], hj⟩
    | piii =>
      rw [readout_piii hasic hp, readout_piii hasic hp'] at h
      obtain ⟨hcols, hdiv⟩ := radix_inj hrow3 hrow3' h
      obtain ⟨hj, hback⟩ := radix_inj (by omega) (by omega) hcols
      have hmod : p % s.colsPerDout = p' % s.colsPerDout := by omega
      exact ⟨by rw [← Nat.div_add_mod' p s.colsPerDout, hdiv, hmod, Nat.div_add_mod'], hj⟩
  obtain ⟨hpp, hj⟩ := hpixel
  exact ⟨by omega, hj⟩

theorem readout_lt {c j : Nat} (hc : c < s.countersPerModule) (hj : j < s.dout) :
    s.readout c j < s.matrixSizePxls := by
  obtain ⟨p, hp⟩ : ∃ p, s.countersPerModule - 1 - c = p := ⟨_, rfl⟩
  obtain ⟨hcol, hrow, hrow3, hcol3⟩ := sector_split (s := s) (p := p) (by omega)
  rw [s.matrix_eq_cols, s.cols_eq]
  cases hasic : s.asic with
  | pii =>
    rw [readout_pii hasic hp]
    exact radix_lt (radix_lt hj hcol) (by split <;> omega)
  | piii =>
    rw [readout_piii hasic hp]
    exact radix_lt (radix_lt hj (by omega)) hrow3

/-- The pixel of an index in the order of the counters. -/
def Detector.pixelOf (s : Detector) (i : Nat) : Nat := s.readout (i / s.dout) (i % s.dout)

theorem Detector.pixelOf_bijOn :
    Set.BijOn s.pixelOf (Set.Iio s.matrixSizePxls) (Set.Iio s.matrixSizePxls) := by
  have hsplit : ∀ i, i < s.matrixSizePxls → i / s.dout < s.countersPerModule ∧ i % s.dout < s.dout := by
    intro i hi
    rw [s.matrix_eq_sectors] at hi
    have hpos := Nat.pos_of_mul_pos_right (Nat.zero_lt_of_lt hi)
    exact ⟨Nat.div_lt_of_lt_mul hi, Nat.mod_lt _ hpos⟩
  have hmaps : Set.MapsTo s.pixelOf (Set.Iio s.matrixSizePxls) (Set.Iio s.matrixSizePxls) := by
    intro i hi
    obtain ⟨hc, hj⟩ := hsplit i hi
    exact readout_lt hc hj
  have hinj : Set.InjOn s.pixelOf (Set.Iio s.matrixSizePxls) := by
    intro i hi i' hi' h
    obtain ⟨hc, -⟩ := hsplit i hi
    obtain ⟨hc', -⟩ := hsplit i' hi'
    obtain ⟨hdiv, hmod⟩ := readout_inj hc hc' h
    rw [← Nat.div_add_mod' i s.dout, hdiv, hmod, Nat.div_add_mod']
  exact ((Set.finite_Iio _).injOn_iff_bijOn_of_mapsTo hmaps).1 hinj

end

/-! ## A whole frame -/

/-- A decoder of a sensor, between frames. -/
structure Decoder.Ready (s : Detector) (d : Decoder) : Prop where
  sensor : d.sensor = s
  table : d.table = conversionTable s.asic s.bitPerCntStd
  planes : d.planes.length = s.modules * s.countersPerModule * s.bitPerCntStd
  scratch : d.scratch.length = s.matrixSizePxls
  image : d.image.length = s.modules * s.matrixSizePxls

theorem Decoder.new_ready (s : Detector) : (Decoder.new s).Ready s where
  sensor := rfl
  table := rfl
  planes := List.length_replicate
  scratch := List.length_replicate
  image := List.length_replicate

/-- The words of a counter of a module. -/
def counterWords (s : Detector) (codeDepth : Nat) (payload : List UInt8) (module counter : Nat) :
    List Nat :=
  (List.range codeDepth).map fun plane =>
    (wordAt? payload ((counter * codeDepth + plane) * s.modules + module)).getD 0

/-- What becomes of the value of a counter. -/
def counted (s : Detector) (isAutocal : Bool) (v : Nat) : Nat :=
  if isAutocal then v
  else (conversionTable s.asic s.bitPerCntStd).getD (v % conversionTableDepth) 0

namespace Decoder.Ready

variable {s : Detector} {d : Decoder} {isAutocal : Bool}

theorem frameBytes_eq (h : d.Ready s) : d.frameBytes isAutocal =
    s.modules * s.countersPerModule * s.codeDepth isAutocal * 2 := by
  rw [frameBytes, h.sensor, Detector.countersPerModule, Nat.mul_assoc s.modules]

theorem gather_spec (h : d.Ready s) {codeDepth : Nat} (hdepth : codeDepth ≤ s.bitPerCntStd)
    {payload : List UInt8}
    (hpayload : s.modules * s.countersPerModule * codeDepth * 2 ≤ payload.length) :
    ∃ planes, d.gather codeDepth payload = some planes ∧ planes.length = d.planes.length ∧
      ∀ m < s.modules, ∀ c < s.countersPerModule,
        block codeDepth planes (m * s.countersPerModule + c) =
          counterWords s codeDepth payload m c := by
  have hmem : ∀ i r, (i, r) ∈ ((List.range s.modules).flatMap fun module =>
      (List.range (s.colsPerDout * s.rows)).flatMap fun counter =>
        (List.range codeDepth).map fun plane =>
          (module * (s.colsPerDout * s.rows) * codeDepth + counter * codeDepth + plane,
            wordAt? payload (module + counter * s.modules * codeDepth + plane * s.modules))) ↔
      ∃ m < s.modules, ∃ c < s.countersPerModule, ∃ p < codeDepth,
        i = (m * s.countersPerModule + c) * codeDepth + p ∧
          r = wordAt? payload ((c * codeDepth + p) * s.modules + m) := by
    intro i r
    simp only [List.mem_flatMap, List.mem_map, List.mem_range, Prod.mk.injEq]
    have htarget : ∀ m c p, m * (s.colsPerDout * s.rows) * codeDepth + c * codeDepth + p =
        (m * s.countersPerModule + c) * codeDepth + p := by
      intro m c p
      rw [Nat.add_mul]
      rfl
    have hsource : ∀ m c p, m + c * s.modules * codeDepth + p * s.modules =
        (c * codeDepth + p) * s.modules + m := by
      intro m c p
      ring
    constructor
    · rintro ⟨m, hm, c, hc, p, hp, rfl, rfl⟩
      exact ⟨m, hm, c, hc, p, hp, htarget m c p, by rw [hsource]⟩
    · rintro ⟨m, hm, c, hc, p, hp, rfl, rfl⟩
      exact ⟨m, hm, c, hc, p, hp, htarget m c p, by rw [hsource]⟩
  have hword : ∀ m < s.modules, ∀ c < s.countersPerModule, ∀ p < codeDepth,
      ∃ w, wordAt? payload ((c * codeDepth + p) * s.modules + m) = some w := by
    intro m hm c hc p hp
    apply wordAt?_of_le _ hpayload
    rw [Nat.mul_assoc, Nat.mul_comm s.modules]
    exact radix_lt (radix_lt hc hp) hm
  have hplanes : s.modules * s.countersPerModule * codeDepth ≤ d.planes.length := by
    rw [h.planes]
    exact Nat.mul_le_mul_left _ hdepth
  obtain ⟨planes, hrun, hlen, hheld⟩ := scatter?_spec d.planes _
    (fun w hw => by
      obtain ⟨m, hm, c, hc, p, hp, hi, hr⟩ := (hmem w.1 w.2).1 hw
      obtain ⟨v, hv⟩ := hword m hm c hc p hp
      refine ⟨?_, v, hr.trans hv⟩
      rw [hi]
      exact Nat.lt_of_lt_of_le (radix_lt (radix_lt hm hc) hp) hplanes)
    (fun i r r' hr hr' => by
      obtain ⟨m, hm, c, hc, p, hp, hi, rfl⟩ := (hmem i r).1 hr
      obtain ⟨m', hm', c', hc', p', hp', hi', rfl⟩ := (hmem i r').1 hr'
      obtain ⟨hmc, rfl⟩ := radix_inj hp hp' (hi.symm.trans hi')
      obtain ⟨rfl, rfl⟩ := radix_inj hc hc' hmc
      rfl)
  refine ⟨planes, ?_, hlen, ?_⟩
  · unfold gather
    dsimp only
    rw [h.sensor]
    exact hrun
  · intro m hm c hc
    have hin : (m * s.countersPerModule + c + 1) * codeDepth ≤ planes.length := by
      rw [hlen]
      exact (Nat.mul_le_mul_right codeDepth (radix_lt hm hc)).trans hplanes
    apply List.ext_getElem?
    intro p
    by_cases hp : p < codeDepth
    · obtain ⟨w, hw⟩ := hword m hm c hc p hp
      rw [getElem?_block hp, hheld _ _ ((hmem _ _).2 ⟨m, hm, c, hc, p, hp, rfl, rfl⟩),
        counterWords, List.getElem?_map, List.getElem?_range hp, Option.map_some, hw]
      rfl
    · rw [List.getElem?_eq_none, List.getElem?_eq_none]
      · rw [counterWords, List.length_map, List.length_range]
        omega
      · rw [length_block hin]
        omega

theorem counters_spec (h : d.Ready s) {codeDepth : Nat} {planes : List Nat}
    (hplanes : s.modules * s.countersPerModule * codeDepth ≤ planes.length) :
    ∃ image, d.counters codeDepth planes = some image ∧
      image.length = s.modules * s.matrixSizePxls ∧
      ∀ m < s.modules, ∀ c < s.countersPerModule, ∀ j < s.dout,
        image[m * s.matrixSizePxls + (c * s.dout + j)]? = some (convertBitStreamToCounts codeDepth
          (block codeDepth planes (m * s.countersPerModule + c)) j) := by
  have hmem : ∀ i r, (i, r) ∈ ((List.range s.modules).flatMap fun module =>
      (List.range (s.colsPerDout * s.rows)).flatMap fun counter =>
        (List.range s.dout).map fun j =>
          (module * s.matrixSizePxls + counter * s.dout + j,
            if module * (s.colsPerDout * s.rows) * codeDepth + counter * codeDepth + codeDepth ≤
                planes.length then
              some (convertBitStreamToCounts codeDepth ((planes.drop
                (module * (s.colsPerDout * s.rows) * codeDepth + counter * codeDepth)).take
                  codeDepth) j)
            else none)) ↔
      ∃ m < s.modules, ∃ c < s.countersPerModule, ∃ j < s.dout,
        i = m * s.matrixSizePxls + (c * s.dout + j) ∧
          r = some (convertBitStreamToCounts codeDepth
            (block codeDepth planes (m * s.countersPerModule + c)) j) := by
    intro i r
    simp only [List.mem_flatMap, List.mem_map, List.mem_range, Prod.mk.injEq]
    have hread : ∀ m < s.modules, ∀ c < s.countersPerModule, ∀ j,
        (if m * (s.colsPerDout * s.rows) * codeDepth + c * codeDepth + codeDepth ≤
            planes.length then
          some (convertBitStreamToCounts codeDepth ((planes.drop
            (m * (s.colsPerDout * s.rows) * codeDepth + c * codeDepth)).take codeDepth) j)
        else none) = some (convertBitStreamToCounts codeDepth
          (block codeDepth planes (m * s.countersPerModule + c)) j) := by
      intro m hm c hc j
      have hstart : m * (s.colsPerDout * s.rows) * codeDepth + c * codeDepth =
          (m * s.countersPerModule + c) * codeDepth := (Nat.add_mul _ _ _).symm
      have hin : (m * s.countersPerModule + c) * codeDepth + codeDepth ≤ planes.length := by
        rw [← Nat.succ_mul]
        exact (Nat.mul_le_mul_right codeDepth (radix_lt hm hc)).trans hplanes
      rw [hstart, if_pos hin]
      rfl
    constructor
    · rintro ⟨m, hm, c, hc, j, hj, rfl, rfl⟩
      exact ⟨m, hm, c, hc, j, hj, Nat.add_assoc _ _ _, hread m hm c hc j⟩
    · rintro ⟨m, hm, c, hc, j, hj, rfl, rfl⟩
      exact ⟨m, hm, c, hc, j, hj, Nat.add_assoc _ _ _, hread m hm c hc j⟩
  have hcounter : ∀ c < s.countersPerModule, ∀ j < s.dout, c * s.dout + j < s.matrixSizePxls := by
    intro c hc j hj
    rw [s.matrix_eq_counters]
    exact radix_lt hc hj
  obtain ⟨image, hrun, hlen, hheld⟩ := scatter?_spec d.image _
    (fun w hw => by
      obtain ⟨m, hm, c, hc, j, hj, hi, hr⟩ := (hmem w.1 w.2).1 hw
      refine ⟨?_, _, hr⟩
      rw [hi, h.image]
      exact radix_lt hm (hcounter c hc j hj))
    (fun i r r' hr hr' => by
      obtain ⟨m, hm, c, hc, j, hj, hi, rfl⟩ := (hmem i r).1 hr
      obtain ⟨m', hm', c', hc', j', hj', hi', rfl⟩ := (hmem i r').1 hr'
      obtain ⟨rfl, hcj⟩ := radix_inj (hcounter c hc j hj) (hcounter c' hc' j' hj')
        (hi.symm.trans hi')
      obtain ⟨rfl, rfl⟩ := radix_inj hj hj' hcj
      rfl)
  refine ⟨image, ?_, hlen.trans h.image, ?_⟩
  · unfold Decoder.counters
    dsimp only
    rw [h.sensor]
    exact hrun
  · intro m hm c hc j hj
    exact hheld _ _ ((hmem _ _).2 ⟨m, hm, c, hc, j, hj, rfl, rfl⟩)

theorem decodeCounts_eq {table : List Nat} (hlen : table.length = conversionTableDepth)
    (buffer : List Nat) : decodeCounts table buffer =
      some (buffer.map fun v => table.getD (v % conversionTableDepth) 0) := by
  unfold decodeCounts
  induction buffer with
  | nil => rfl
  | cons v buffer ih =>
    have hin : v % conversionTableDepth < table.length := by
      rw [hlen]
      exact Nat.mod_lt _ (by decide)
    have hget : table[v % conversionTableDepth]? =
        some (table.getD (v % conversionTableDepth) 0) := by
      rw [List.getD_eq_getElem?_getD, List.getElem?_eq_getElem hin]
      rfl
    rw [List.mapM_cons, hget, ih]
    rfl

theorem decodeModule_spec (h : d.Ready s) {scratch buffer : List Nat}
    (hb : buffer.length = s.matrixSizePxls) (hs : scratch.length = s.matrixSizePxls) :
    ∃ r, d.decodeModule isAutocal scratch buffer = some r ∧ r.1.length = s.matrixSizePxls ∧
      r.2.length = s.matrixSizePxls ∧
      ∀ c < s.countersPerModule, ∀ j < s.dout,
        r.1[s.readout c j]? = buffer[c * s.dout + j]?.map (counted s isAutocal) := by
  have hcounted : (if isAutocal then some buffer else decodeCounts d.table buffer) =
      some (buffer.map (counted s isAutocal)) := by
    cases isAutocal with
    | true => exact congrArg some (List.map_id buffer).symm
    | false =>
      have hlen : d.table.length = conversionTableDepth := by
        rw [h.table, s.bits_eq, conversionTable_length]
      rw [if_neg Bool.false_ne_true, decodeCounts_eq hlen, h.table]
      rfl
  have hmaplen : (buffer.map (counted s isAutocal)).length = s.matrixSizePxls := by
    rw [List.length_map, hb]
  obtain ⟨r, hrun, hlen, hscratch, hplaced⟩ := placePixels_spec hmaplen hs
  refine ⟨r, ?_, hlen, hscratch, ?_⟩
  · rw [decodeModule, hcounted, h.sensor]
    exact hrun
  · intro c hc j hj
    rw [hplaced c hc j hj, List.getElem?_map]

theorem decode_short (h : d.Ready s) {payload : List UInt8}
    (hshort : payload.length < s.modules * s.countersPerModule * s.codeDepth isAutocal * 2) :
    d.decode isAutocal payload = some (.error ⟨payload.length,
      s.modules * s.countersPerModule * s.codeDepth isAutocal * 2⟩, d) := by
  unfold decode
  dsimp only
  rw [h.frameBytes_eq, if_pos hshort]

/-- Every counter ends up at its pixel. -/
theorem decode_spec (h : d.Ready s) {payload : List UInt8}
    (hpayload : s.modules * s.countersPerModule * s.codeDepth isAutocal * 2 ≤ payload.length) :
    ∃ image d', d.decode isAutocal payload = some (.ok image, d') ∧ d'.Ready s ∧
      image.length = s.modules * s.matrixSizePxls ∧
      ∀ m < s.modules, ∀ c < s.countersPerModule, ∀ j < s.dout,
        image[m * s.matrixSizePxls + s.readout c j]? =
          some (counted s isAutocal (convertBitStreamToCounts (s.codeDepth isAutocal)
            (counterWords s (s.codeDepth isAutocal) payload m c) j)) := by
  obtain ⟨planes, hgather, hplen, hwords⟩ := h.gather_spec (s.codeDepth_le isAutocal) hpayload
  have hplanes : s.modules * s.countersPerModule * s.codeDepth isAutocal ≤ planes.length := by
    rw [hplen, h.planes]
    exact Nat.mul_le_mul_left _ (s.codeDepth_le isAutocal)
  obtain ⟨read, hcounters, hrlen, hread⟩ := h.counters_spec hplanes
  obtain ⟨r, hrun, hlen, hscratch, hplaced, -⟩ := overBlocks_spec (m := s.modules)
    (d.decodeModule isAutocal) (fun scratch => scratch.length = s.matrixSizePxls)
    (fun buffer buffer' => ∀ c < s.countersPerModule, ∀ j < s.dout,
      buffer'[s.readout c j]? = buffer[c * s.dout + j]?.map (counted s isAutocal))
    (List.range s.modules) (read, d.scratch)
    (fun _ _ _ _ hs hb => h.decodeModule_spec hb hs)
    (fun m hm => List.mem_range.1 hm) List.nodup_range hrlen h.scratch
  refine ⟨r.1, { d with planes, scratch := r.2, image := r.1 }, ?_,
    ⟨h.sensor, h.table, hplen.trans h.planes, hscratch, hlen⟩, hlen, ?_⟩
  · unfold decode
    dsimp only
    rw [h.frameBytes_eq, if_neg (Nat.not_lt.2 hpayload), h.sensor, hgather]
    show (d.counters (s.codeDepth isAutocal) planes).bind _ = _
    rw [hcounters]
    show (overBlocks s.matrixSizePxls (d.decodeModule isAutocal) (read, d.scratch)
      (List.range s.modules)).map _ = _
    rw [hrun]
    rfl
  · intro m hm c hc j hj
    have hin : c * s.dout + j < s.matrixSizePxls := by
      rw [s.matrix_eq_counters]
      exact radix_lt hc hj
    have hheld := hplaced m (List.mem_range.2 hm) c hc j hj
    rw [getElem?_block (readout_lt hc hj), getElem?_block hin, hread m hm c hc j hj,
      hwords m hm c hc] at hheld
    exact hheld

/-- No frame stops a decoder. -/
theorem decodeAll_ready (h : d.Ready s) (frames : List (Bool × List UInt8)) :
    ∃ d', d.decodeAll frames = some d' ∧ d'.Ready s := by
  induction frames generalizing d with
  | nil => exact ⟨d, rfl, h⟩
  | cons frame frames ih =>
    obtain ⟨isAutocal, payload⟩ := frame
    have hstep : ∃ r, d.decode isAutocal payload = some r ∧ r.2.Ready s := by
      by_cases hshort :
          payload.length < s.modules * s.countersPerModule * s.codeDepth isAutocal * 2
      · exact ⟨_, h.decode_short hshort, h⟩
      · obtain ⟨image, d', hrun, hready, -⟩ := h.decode_spec (Nat.not_lt.1 hshort)
        exact ⟨_, hrun, hready⟩
    obtain ⟨r, hr, hready⟩ := hstep
    obtain ⟨d', hrest, hready'⟩ := ih hready
    refine ⟨d', ?_, hready'⟩
    rw [decodeAll, hr]
    exact hrest

end Decoder.Ready

end Pixirad
