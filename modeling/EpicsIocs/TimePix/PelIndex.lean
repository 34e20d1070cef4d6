import EpicsIocs.Lib.Arith
import EpicsIocs.Lib.Tiles
import Mathlib.Data.Fintype.Prod
import Mathlib.Tactic.FinCases

/-! # The pixel map

`pel_index` and `dual_quad_image_to_bpc` of `mask.rs`: image pixel `(i, j)` to its place in the BPC
file, by chip count and detector orientation.  The formulas are in the arithmetic of `i32`; the
result is `none` where that overflows.

Each layout is a `Tiling`, one chip a tile, so that its map is a bijection
(`pel_index_bijections`). -/

namespace TimePix

open Ints Ints.Arith Tiles

/-- What `rowsCols` gives. -/
structure Geometry where
  rows : Int
  cols : Int
  xChips : Int
  yChips : Int
  pelWidth : Int
  deriving DecidableEq, Repr

abbrev I32 : Type := Arith int32

/-! ## The formulas -/

section
variable (i j w : I32)

/-- By orientation, for one chip. -/
def singleIndex (orientation : Int) : Option I32 :=
  match orientation with
  | 0 => some (i + (w - 1 - j) * w)
  | 1 => some (j + i * w)
  | 2 => some ((w - 1 - i) + j * w)
  | 3 => some ((w - 1 - j) + (w - 1 - i) * w)
  | 4 => some ((w - 1 - i) + (w - 1 - j) * w)
  | 5 => some (j + (w - 1 - i) * w)
  | 6 => some (i + j * w)
  | 7 => some ((w - 1 - j) + i * w)
  | _ => none

/-- By orientation and tile, for the quad; `ii` and `jj` are the coordinates in a tile on the far
side. -/
def quadIndex (sq ii jj : I32) (orientation xc yc : Int) : Option I32 :=
  match orientation, xc, yc with
  | 0, 1, 1 => some (ii + (w - 1 - jj) * w)
  | 0, 1, 0 => some (sq + (w - 1 - ii) + j * w)
  | 0, 0, 0 => some (2 * sq + (w - 1 - i) + j * w)
  | 0, 0, 1 => some (3 * sq + i + (w - 1 - jj) * w)
  | 1, 1, 1 => some (sq + (w - 1 - jj) + (w - 1 - ii) * w)
  | 1, 1, 0 => some (2 * sq + (w - 1 - j) + (w - 1 - ii) * w)
  | 1, 0, 0 => some (3 * sq + j + i * w)
  | 1, 0, 1 => some (jj + i * w)
  | 2, 1, 1 => some (2 * sq + ii + (w - 1 - jj) * w)
  | 2, 1, 0 => some (3 * sq + (w - 1 - ii) + j * w)
  | 2, 0, 0 => some ((w - 1 - i) + j * w)
  | 2, 0, 1 => some (sq + i + (w - 1 - jj) * w)
  | 3, 1, 1 => some (3 * sq + (w - 1 - jj) + (w - 1 - ii) * w)
  | 3, 1, 0 => some ((w - 1 - j) + (w - 1 - ii) * w)
  | 3, 0, 0 => some (sq + j + i * w)
  | 3, 0, 1 => some (2 * sq + jj + i * w)
  | 4, 1, 1 => some (3 * sq + (w - 1 - ii) + (w - 1 - jj) * w)
  | 4, 1, 0 => some (2 * sq + ii + j * w)
  | 4, 0, 0 => some (sq + i + j * w)
  | 4, 0, 1 => some ((w - 1 - i) + (w - 1 - jj) * w)
  | 5, 1, 1 => some (jj + (w - 1 - ii) * w)
  | 5, 1, 0 => some (3 * sq + j + (w - 1 - ii) * w)
  | 5, 0, 0 => some (2 * sq + (w - 1 - j) + i * w)
  | 5, 0, 1 => some (sq + (w - 1 - jj) + i * w)
  | 6, 1, 1 => some (sq + (w - 1 - ii) + (w - 1 - jj) * w)
  | 6, 1, 0 => some (ii + j * w)
  | 6, 0, 0 => some (3 * sq + i + j * w)
  | 6, 0, 1 => some (2 * sq + (w - 1 - i) + (w - 1 - jj) * w)
  | 7, 1, 1 => some (2 * sq + jj + (w - 1 - ii) * w)
  | 7, 1, 0 => some (sq + j + (w - 1 - ii) * w)
  | 7, 0, 0 => some ((w - 1 - j) + i * w)
  | 7, 0, 1 => some (3 * sq + (w - 1 - jj) + i * w)
  | _, _, _ => none

end

def quadNames : List String :=
  ["UP", "RIGHT", "DOWN", "LEFT", "UP MIRRORED", "RIGHT MIRRORED", "DOWN MIRRORED",
    "LEFT MIRRORED"]

/-- C `quadImageToBpc`: the chip of a quad and the coordinates in it. -/
def quadImageToBpc (qx qy w : Int) : I32 × I32 × I32 :=
  if qx ≥ w ∧ qy ≥ w then (0, of int32 qx - of int32 w, 2 * of int32 w - 1 - of int32 qy)
  else if qx ≥ w then (1, 2 * of int32 w - 1 - of int32 qx, of int32 qy)
  else if qy < w then (2, of int32 w - 1 - of int32 qx, of int32 qy)
  else (3, of int32 qx, 2 * of int32 w - 1 - of int32 qy)

/-- Two quads side by side, the right one turned by 180 degrees; `some none` is the source's
`None`. -/
def dualQuadImageToBpc (x y w : Int) : Option (Option Int) := do
  if w ≤ 0 ∨ x < 0 then return none
  if x ≥ (← (4 * of int32 w).value) ∨ y < 0 then return none
  if y ≥ (← (2 * of int32 w).value) then return none
  let (qx, qy, chipOffset) ← if x ≥ (← (2 * of int32 w).value) then do
      pure (← (4 * of int32 w - 1 - of int32 x).value, ← (2 * of int32 w - 1 - of int32 y).value,
        4 * of int32 w * of int32 w)
    else pure (x, y, of int32 0)
  let (chip, lx, ly) := quadImageToBpc qx qy w
  some <$> (chipOffset + chip * of int32 w * of int32 w + lx + ly * of int32 w).value

/-- The logical BPC pixel of image pixel `(i, j)`, and the warning on the way. -/
def pelIndex (g : Geometry) (numChips orientation i j : Int) : Option (Int × Option String) :=
  let w := g.pelWidth
  if w ≤ 0 ∨ i < 0 ∨ i ≥ g.cols ∨ j < 0 ∨ j ≥ g.rows then
    some (-1, some "pelIndex: image coordinate outside detector geometry")
  else do
    let xc := i / w
    let yc := j / w
    let sq ← (of int32 w * of int32 w).value
    match numChips with
    | 1 =>
      match singleIndex (of int32 i) (of int32 j) (of int32 w) orientation with
      | some index => return (← index.value, none)
      | none => return (0, some "pelIndex: single-chip orientation not supported")
    | 4 =>
      match if orientation < 0 then none else quadNames[orientation.toNat]? with
      | none => return (0, some "pelIndex: quad orientation not supported for this layout")
      | some name =>
        let ii ← (of int32 i - of int32 w).value
        let jj ← (of int32 j - of int32 w).value
        match quadIndex (of int32 i) (of int32 j) (of int32 w) (of int32 sq) (of int32 ii)
          (of int32 jj) orientation xc yc with
        | some index => return (← index.value, none)
        | none =>
          return (-1, some s!"pelIndex: {name} layout chip index out of range for 2x2")
    | 8 =>
      if orientation ≠ 0 then
        return (-1, some "pelIndex: 8-chip mapping only for DetectorOrientation UP (0)")
      else if g.xChips ≠ 4 ∨ g.yChips ≠ 2 ∨ xc ≥ g.xChips ∨ yc ≥ g.yChips then
        return (-1, some "pelIndex: two-quad mapping requires a 4x2 chip grid")
      else
        match ← dualQuadImageToBpc i j w with
        | some index => return (index, none)
        | none => return (-1, some "pelIndex: invalid two-quad image coordinate")
    | n => return (0, some s!"pelIndex: chip count {n} not supported (use 1, 4, or 8)")

/-! ## The tilings -/

def singleTiling (orientation : Fin 8) : Tiling 1 1 where
  chip _ _ := 0
  symmetry _ _ :=
    match orientation with
    | 0 => ⟨false, false, true⟩
    | 1 => ⟨true, false, false⟩
    | 2 => ⟨false, true, false⟩
    | 3 => ⟨true, true, true⟩
    | 4 => ⟨false, true, true⟩
    | 5 => ⟨true, false, true⟩
    | 6 => ⟨false, false, false⟩
    | 7 => ⟨true, true, false⟩
  chip_bijective := by decide

/-- The place of a tile on the way around the quad, from the last column and row on. -/
def ringPlace (xc yc : Fin 2) : Nat :=
  if xc = 1 then (if yc = 1 then 0 else 1) else (if yc = 0 then 2 else 3)

/-- The chips follow each other around the quad, the other way in the mirrored orientations; two
tiles that share an edge are turned or mirrored onto each other. -/
def quadTiling (orientation : Fin 8) : Tiling 2 2 where
  chip xc yc :=
    if orientation.val < 4 then ⟨(orientation + ringPlace xc yc) % 4, Nat.mod_lt _ (by decide)⟩
    else ⟨(orientation + 3 - ringPlace xc yc) % 4, Nat.mod_lt _ (by decide)⟩
  symmetry xc yc :=
    match decide (orientation.val < 4), decide (orientation.val % 2 = 0) with
    | true, true => ⟨false, yc = 0, yc = 1⟩
    | true, false => ⟨true, xc = 1, xc = 1⟩
    | false, true => ⟨false, yc = 1, yc = 1⟩
    | false, false => ⟨true, xc = 0, xc = 1⟩
  chip_bijective := by
    revert orientation
    decide

/-- Chips 2, 1, 4, 7 over 3, 0, 5, 6. -/
def dualQuadTiling : Tiling 4 2 where
  chip xc yc :=
    if yc = 0 then ([2, 1, 4, 7] : List (Fin 8)).get xc else ([3, 0, 5, 6] : List (Fin 8)).get xc
  symmetry _ yc := ⟨false, yc = 0, yc = 1⟩
  chip_bijective := by decide

/-! ## The formulas are tilings -/

/-- The shape of the formulas: a chip and a symmetry, of coordinates in a tile. -/
def place (x y w sq : I32) (chip : Fin 4) (s : Symmetry) : I32 :=
  let u := if s.swap then y else x
  let v := if s.swap then x else y
  let a := if s.flipX then w - 1 - u else u
  let b := if s.flipY then w - 1 - v else v
  match chip with
  | 0 => a + b * w
  | 1 => sq + a + b * w
  | 2 => 2 * sq + a + b * w
  | 3 => 3 * sq + a + b * w

theorem singleIndex_place (x y w sq : I32) (o : Fin 8) :
    singleIndex x y w o.val = some (place x y w sq 0 ((singleTiling o).symmetry 0 0)) := by
  fin_cases o <;> rfl

/-- By the coordinates in the tile, which on the far side of an axis are `ii` and `jj`. -/
theorem quadIndex_place {x y w sq i j ii jj : I32} (o : Fin 8) (xc yc : Fin 2)
    (hx : (if xc = 1 then ii else i) = x) (hy : (if yc = 1 then jj else j) = y) :
    quadIndex i j w sq ii jj o.val xc.val yc.val =
      some (place x y w sq ((quadTiling o).chip xc yc) ((quadTiling o).symmetry xc yc)) := by
  subst hx hy
  fin_cases o <;> fin_cases xc <;> fin_cases yc <;> rfl

/-! ## Nothing overflows -/

section
variable {w : Int}

theorem of_flip {a : Int} (hw : w ≤ 2147483647) (ha : 0 ≤ a) (ha' : a < w) (flipped : Bool) :
    (if flipped then of int32 w - 1 - of int32 a else of int32 a) =
      of int32 (Tiles.flip w flipped a) := by
  cases flipped with
  | false => rfl
  | true =>
    have hone : of int32 w - 1 = of int32 (w - 1) :=
      of_sub_of (b := 1) (holds_int32.2 (by omega)) (holds_int32.2 (by omega))
    rw [if_pos rfl, hone]
    exact of_sub_of (holds_int32.2 (by omega)) (holds_int32.2 (by omega))

theorem of_rowMajor {a b c : Int} (hfit : c + w * w ≤ 2147483647) (hc : 0 ≤ c)
    (ha : 0 ≤ a ∧ a < w) (hb : 0 ≤ b ∧ b < w) :
    of int32 c + of int32 a + of int32 b * of int32 w = of int32 (c + (a + b * w)) := by
  have hw : 0 < w := by omega
  have hle : 1 * w ≤ w * w := Int.mul_le_mul_of_nonneg_right (by omega) (Int.le_of_lt hw)
  have hlt := rowMajor_lt ha.2 hb.2 hw
  have hmul : 0 ≤ b * w := Int.mul_nonneg hb.1 (Int.le_of_lt hw)
  rw [of_add_of (holds_int32.2 (by omega)) (holds_int32.2 (by omega)),
    of_mul_of (holds_int32.2 (by omega)) (holds_int32.2 (by omega)),
    of_add_of (holds_int32.2 (by omega)) (holds_int32.2 (by omega)), Int.add_assoc]

/-- Where the last number of a chip fits, its formulas give the numbers of the tiling. -/
theorem place_eq (c : Fin 4) (s : Symmetry) {p : Int × Int} (hp : p ∈ square w)
    (hfit : ((c : Int) + 1) * (w * w) ≤ 2147483647) :
    place (of int32 p.1) (of int32 p.2) (of int32 w) (of int32 (w * w)) c s =
      of int32 ((c : Int) * (w * w) + s.cell w p) := by
  have hturn := (s.exchange_bijOn w).mapsTo hp
  obtain ⟨hu, hv⟩ := mem_square.1 hturn
  have hw : 0 < w := by omega
  have hsq : 0 < w * w := Int.mul_pos hw hw
  have hle : 1 * w ≤ w * w := Int.mul_le_mul_of_nonneg_right (by omega) (Int.le_of_lt hw)
  have hchip : 0 ≤ (c : Int) * (w * w) := Int.mul_nonneg (Int.natCast_nonneg _) (by omega)
  rw [Int.add_mul, Int.one_mul] at hfit
  have hx : (if s.swap then of int32 p.2 else of int32 p.1) = of int32 (s.exchange p).1 := by
    unfold Symmetry.exchange
    split <;> rfl
  have hy : (if s.swap then of int32 p.1 else of int32 p.2) = of int32 (s.exchange p).2 := by
    unfold Symmetry.exchange
    split <;> rfl
  have ha := of_flip (by omega : w ≤ 2147483647) hu.1 hu.2 s.flipX
  have hb := of_flip (by omega : w ≤ 2147483647) hv.1 hv.2 s.flipY
  have hcell := of_rowMajor (by omega) hchip (Tiles.flip_mem s.flipX hu)
    (Tiles.flip_mem s.flipY hv)
  unfold place
  simp only [hx, hy, ha, hb]
  match c with
  | 0 =>
    have hzero : of int32 0 + of int32 (Tiles.flip w s.flipX (s.exchange p).1) =
        of int32 (Tiles.flip w s.flipX (s.exchange p).1) := by
      have := Tiles.flip_mem s.flipX hu
      rw [of_add_of (holds_int32.2 (by omega)) (holds_int32.2 (by omega)), Int.zero_add]
    rw [show ((0 : Fin 4) : Int) * (w * w) = 0 from Int.zero_mul _] at hcell ⊢
    rw [hzero] at hcell
    exact hcell
  | 1 =>
    rw [show ((1 : Fin 4) : Int) * (w * w) = w * w from Int.one_mul _] at hcell ⊢
    exact hcell
  | 2 =>
    have htwo : (2 : I32) * of int32 (w * w) = of int32 (2 * (w * w)) :=
      of_mul_of (a := 2) (holds_int32.2 (by omega)) (holds_int32.2 (by omega))
    rw [htwo]
    exact hcell
  | 3 =>
    have hthree : (3 : I32) * of int32 (w * w) = of int32 (3 * (w * w)) :=
      of_mul_of (a := 3) (holds_int32.2 (by omega)) (holds_int32.2 (by omega))
    rw [hthree]
    exact hcell

theorem place_value (c : Fin 4) (s : Symmetry) {p : Int × Int} (hp : p ∈ square w)
    (hfit : ((c : Int) + 1) * (w * w) ≤ 2147483647) :
    (place (of int32 p.1) (of int32 p.2) (of int32 w) (of int32 (w * w)) c s).value =
      some ((c : Int) * (w * w) + s.cell w p) := by
  obtain ⟨⟨hx, hx'⟩, -⟩ := mem_square.1 hp
  have hw : 0 < w := by omega
  obtain ⟨hcell, hcell'⟩ := (s.cell_bijOn hw).mapsTo hp
  have hchip : 0 ≤ (c : Int) * (w * w) :=
    Int.mul_nonneg (Int.natCast_nonneg _) (Int.le_of_lt (Int.mul_pos hw hw))
  rw [Int.add_mul, Int.one_mul] at hfit
  rw [place_eq c s hp (by rw [Int.add_mul, Int.one_mul]; exact hfit)]
  exact value_of (holds_int32.2 (by omega))

/-! ## One chip and four -/

/-- A detector of `n × n` chips. -/
structure Geometry.IsSquare (g : Geometry) (n w : Int) : Prop where
  rows_eq : g.rows = n * w
  cols_eq : g.cols = n * w
  pelWidth_eq : g.pelWidth = w

/-- The result of `pel_index` for a pixel that has a number. -/
def numbered (k : Int) : Option (Int × Option String) := some (k, none)

theorem numbered_injective : Function.Injective numbered :=
  fun _ _ h => congrArg Prod.fst (Option.some.inj h)

theorem width_lt (hw : 0 < w) (hfit : w * w ≤ 2147483647) : w ≤ 2147483647 := by
  have hle : 1 * w ≤ w * w := Int.mul_le_mul_of_nonneg_right (by omega) (Int.le_of_lt hw)
  omega

theorem value_sq (hw : 0 < w) (hfit : w * w ≤ 2147483647) :
    (of int32 w * of int32 w).value = some (w * w) := by
  have hle := width_lt hw hfit
  have hpos : 0 < w * w := Int.mul_pos hw hw
  rw [of_mul_of (holds_int32.2 (by omega)) (holds_int32.2 (by omega))]
  exact value_of (holds_int32.2 (by omega))

theorem pelIndex_single {g : Geometry} (hg : g.IsSquare 1 w) (hfit : w * w ≤ 2147483647)
    (o : Fin 8) :
    IsTiled (singleTiling o) w numbered fun p => pelIndex g 1 o.val p.1 p.2 := by
  intro xc yc p hp
  obtain ⟨hx, hy⟩ := mem_square.1 hp
  have hw : 0 < w := by omega
  have hzero : ∀ (c : Fin 1) (a : Int), (c : Int) * w + a = a := by
    intro c a
    rw [Subsingleton.elim c 0]
    exact (congrArg (· + a) (Int.zero_mul w)).trans (Int.zero_add a)
  have hinside : ¬(w ≤ 0 ∨ p.1 < 0 ∨ p.1 ≥ g.cols ∨ p.2 < 0 ∨ p.2 ≥ g.rows) := by
    rw [hg.rows_eq, hg.cols_eq]
    omega
  have hplace := place_value 0 ((singleTiling o).symmetry 0 0) hp
    (show ((0 : Int) + 1) * (w * w) ≤ _ by omega)
  simp only [hzero]
  unfold pelIndex
  simp only [hg.pelWidth_eq, if_neg hinside, value_sq hw hfit, Option.bind_eq_bind,
    Option.bind_some, singleIndex_place _ _ _ (of int32 (w * w)) o, hplace]
  rfl

/-- A formula of the quad that does not overflow is what `pel_index` returns. -/
theorem pelIndex_quad {g : Geometry} (hg : g.IsSquare 2 w) (hfit : 4 * (w * w) ≤ 2147483647)
    (o : Fin 8) {i j k : Int} {index : I32} (hi : 0 ≤ i ∧ i < 2 * w) (hj : 0 ≤ j ∧ j < 2 * w)
    (h : quadIndex (of int32 i) (of int32 j) (of int32 w) (of int32 (w * w)) (of int32 (i - w))
      (of int32 (j - w)) o.val (i / w) (j / w) = some index) (hk : index.value = some k) :
    pelIndex g 4 o.val i j = numbered k := by
  have hw : 0 < w := by omega
  have hpos : 0 < w * w := Int.mul_pos hw hw
  have hle := width_lt hw (by omega)
  have hdouble : 2 * w ≤ 4 * (w * w) := by
    have hone : 1 * w ≤ w * w := Int.mul_le_mul_of_nonneg_right (by omega) (Int.le_of_lt hw)
    omega
  have hinside : ¬(w ≤ 0 ∨ i < 0 ∨ i ≥ g.cols ∨ j < 0 ∨ j ≥ g.rows) := by
    rw [hg.rows_eq, hg.cols_eq]
    omega
  have hname : (if (o.val : Int) < 0 then none else quadNames[(o.val : Int).toNat]?) =
      some (quadNames.get ⟨o.val, o.isLt⟩) := by
    rw [if_neg (by omega), Int.toNat_natCast]
    exact List.getElem?_eq_getElem o.isLt
  have hii : (of int32 i - of int32 w).value = some (i - w) := by
    rw [of_sub_of (holds_int32.2 (by omega)) (holds_int32.2 (by omega))]
    exact value_of (holds_int32.2 (by omega))
  have hjj : (of int32 j - of int32 w).value = some (j - w) := by
    rw [of_sub_of (holds_int32.2 (by omega)) (holds_int32.2 (by omega))]
    exact value_of (holds_int32.2 (by omega))
  unfold pelIndex
  simp only [hg.pelWidth_eq, if_neg hinside, value_sq hw (by omega), Option.bind_eq_bind,
    Option.bind_some, hname, hii, hjj, h, hk]
  rfl

/-- The coordinate in a tile. -/
theorem of_tile (w : Int) (c : Fin 2) (a : Int) :
    (if c = 1 then of int32 ((c : Int) * w + a - w) else of int32 ((c : Int) * w + a)) =
      of int32 a := by
  match c with
  | 0 =>
    show of int32 (0 * w + a) = _
    rw [Int.zero_mul, Int.zero_add]
  | 1 =>
    show of int32 (1 * w + a - w) = _
    rw [Int.one_mul, Int.add_comm, Int.add_sub_cancel]

theorem pelIndex_quad_tiled {g : Geometry} (hg : g.IsSquare 2 w)
    (hfit : 4 * (w * w) ≤ 2147483647) (o : Fin 8) :
    IsTiled (quadTiling o) w numbered fun p => pelIndex g 4 o.val p.1 p.2 := by
  intro xc yc p hp
  obtain ⟨hx, hy⟩ := mem_square.1 hp
  have hw : 0 < w := by omega
  have hpos : 0 < w * w := Int.mul_pos hw hw
  have hdiv : ∀ (c a : Int), 0 ≤ a ∧ a < w → (c * w + a) / w = c := by
    intro c a ha
    rw [Int.add_comm, Int.add_mul_ediv_right _ _ (Int.ne_of_gt hw),
      Int.ediv_eq_zero_of_lt ha.1 ha.2, Int.zero_add]
  have hbounds : ∀ (c : Fin 2) (a : Int), 0 ≤ a ∧ a < w →
      0 ≤ (c : Int) * w + a ∧ (c : Int) * w + a < 2 * w := by
    intro c a ha
    have hlo : 0 ≤ (c : Int) * w := Int.mul_nonneg (Int.natCast_nonneg _) (Int.le_of_lt hw)
    have hhi : (c : Int) * w ≤ 1 * w :=
      Int.mul_le_mul_of_nonneg_right (by omega) (Int.le_of_lt hw)
    omega
  have hchip : ∀ c : Fin 4, ((c : Int) + 1) * (w * w) ≤ 2147483647 := by
    intro c
    have hle : ((c : Int) + 1) * (w * w) ≤ 4 * (w * w) :=
      Int.mul_le_mul_of_nonneg_right (by omega) (Int.le_of_lt hpos)
    omega
  refine pelIndex_quad hg hfit o (hbounds xc p.1 hx) (hbounds yc p.2 hy) ?_
    (place_value _ _ hp (hchip _))
  rw [hdiv _ _ hx, hdiv _ _ hy]
  exact quadIndex_place o xc yc (of_tile w xc p.1) (of_tile w yc p.2)

/-! ## Two quads -/

/-- The result of the two-quad map for a pixel that has a number. -/
def inImage (k : Int) : Option (Option Int) := some (some k)

theorem inImage_injective : Function.Injective inImage :=
  fun _ _ h => Option.some.inj (Option.some.inj h)

/-- The chips of the left quad, 2 and 1 over 3 and 0. -/
def leftChip (xc yc : Fin 2) : Int :=
  if xc = 0 then (if yc = 0 then 2 else 3) else (if yc = 0 then 1 else 0)

theorem quadImageToBpc_eq (hw : 2 * w ≤ 2147483647) (xc yc : Fin 2) {p : Int × Int}
    (hp : p ∈ square w) :
    quadImageToBpc (xc * w + p.1) (yc * w + p.2) w =
      (of int32 (leftChip xc yc), of int32 (Tiles.flip w (yc = 0) p.1),
        of int32 (Tiles.flip w (yc = 1) p.2)) := by
  obtain ⟨hx, hy⟩ := mem_square.1 hp
  have htwo : 2 * of int32 w - 1 = of int32 (2 * w - 1) := by
    rw [show 2 * of int32 w = of int32 (2 * w) from
      of_mul_of (a := 2) (holds_int32.2 (by omega)) (holds_int32.2 (by omega))]
    exact of_sub_of (b := 1) (holds_int32.2 (by omega)) (holds_int32.2 (by omega))
  have hone : of int32 w - 1 = of int32 (w - 1) :=
    of_sub_of (b := 1) (holds_int32.2 (by omega)) (holds_int32.2 (by omega))
  have hflip : ∀ a : Int, 0 ≤ a ∧ a < w →
      of int32 (2 * w - 1) - of int32 (1 * w + a) = of int32 (w - 1 - a) ∧
      of int32 (1 * w + a) - of int32 w = of int32 a ∧
      of int32 (w - 1) - of int32 (0 * w + a) = of int32 (w - 1 - a) ∧
      of int32 (0 * w + a) = of int32 a := by
    intro a ha
    rw [Int.one_mul, Int.zero_mul, Int.zero_add,
      of_sub_of (holds_int32.2 (by omega)) (holds_int32.2 (by omega)),
      of_sub_of (holds_int32.2 (by omega)) (holds_int32.2 (by omega)),
      of_sub_of (holds_int32.2 (by omega)) (holds_int32.2 (by omega))]
    exact ⟨congrArg _ (by omega), congrArg _ (by omega), rfl, rfl⟩
  obtain ⟨hxflip, hxfar, hxnear, hx0⟩ := hflip p.1 hx
  obtain ⟨hyflip, hyfar, hynear, hy0⟩ := hflip p.2 hy
  unfold quadImageToBpc
  rw [htwo, hone]
  match xc, yc with
  | 0, 0 =>
    show (if 0 * w + p.1 ≥ w ∧ 0 * w + p.2 ≥ w then _ else if 0 * w + p.1 ≥ w then _
      else if 0 * w + p.2 < w then _ else _) = _
    rw [if_neg (by omega), if_neg (by omega), if_pos (by omega)]
    exact congrArg₂ Prod.mk rfl (congrArg₂ Prod.mk hxnear hy0)
  | 0, 1 =>
    show (if 0 * w + p.1 ≥ w ∧ 1 * w + p.2 ≥ w then _ else if 0 * w + p.1 ≥ w then _
      else if 1 * w + p.2 < w then _ else _) = _
    rw [if_neg (by omega), if_neg (by omega), if_neg (by omega)]
    exact congrArg₂ Prod.mk rfl (congrArg₂ Prod.mk hx0 hyflip)
  | 1, 0 =>
    show (if 1 * w + p.1 ≥ w ∧ 0 * w + p.2 ≥ w then _ else if 1 * w + p.1 ≥ w then _ else _) = _
    rw [if_neg (by omega), if_pos (by omega)]
    exact congrArg₂ Prod.mk rfl (congrArg₂ Prod.mk hxflip hy0)
  | 1, 1 =>
    show (if 1 * w + p.1 ≥ w ∧ 1 * w + p.2 ≥ w then _ else _) = _
    rw [if_pos (by omega)]
    exact congrArg₂ Prod.mk rfl (congrArg₂ Prod.mk hxfar hyflip)

theorem of_double (hw : 0 < w) (hfit : 4 * w ≤ 2147483647) :
    4 * of int32 w = of int32 (4 * w) ∧ 2 * of int32 w = of int32 (2 * w) :=
  ⟨of_mul_of (a := 4) (holds_int32.2 (by omega)) (holds_int32.2 (by omega)),
    of_mul_of (a := 2) (holds_int32.2 (by omega)) (holds_int32.2 (by omega))⟩

theorem value_double (hw : 0 < w) (hfit : 4 * w ≤ 2147483647) :
    (4 * of int32 w).value = some (4 * w) ∧ (2 * of int32 w).value = some (2 * w) := by
  obtain ⟨hfour, htwo⟩ := of_double hw hfit
  rw [hfour, htwo]
  exact ⟨value_of (holds_int32.2 (by omega)), value_of (holds_int32.2 (by omega))⟩

theorem chips_value {off c a b : Int} (hfit : off + 4 * (w * w) ≤ 2147483647) (hoff : 0 ≤ off)
    (hc : 0 ≤ c) (hc' : c ≤ 3) (ha : 0 ≤ a ∧ a < w) (hb : 0 ≤ b ∧ b < w) :
    (of int32 off + of int32 c * of int32 w * of int32 w + of int32 a +
      of int32 b * of int32 w).value = some (off + c * (w * w) + (a + b * w)) := by
  have hw : 0 < w := by omega
  have hsq : 0 < w * w := Int.mul_pos hw hw
  have hle := width_lt hw (by omega)
  have hlo : 0 ≤ c * w := Int.mul_nonneg hc (Int.le_of_lt hw)
  have hhi : c * w ≤ 3 * w := Int.mul_le_mul_of_nonneg_right hc' (Int.le_of_lt hw)
  have hsqle : 1 * w ≤ w * w := Int.mul_le_mul_of_nonneg_right (by omega) (Int.le_of_lt hw)
  have hlo' : 0 ≤ c * (w * w) := Int.mul_nonneg hc (Int.le_of_lt hsq)
  have hhi' : c * (w * w) ≤ 3 * (w * w) := Int.mul_le_mul_of_nonneg_right hc' (Int.le_of_lt hsq)
  have hlt := rowMajor_lt ha.2 hb.2 hw
  have hmul : 0 ≤ b * w := Int.mul_nonneg hb.1 (Int.le_of_lt hw)
  rw [of_mul_of (holds_int32.2 (by omega)) (holds_int32.2 (by omega)),
    of_mul_of (holds_int32.2 (by omega)) (holds_int32.2 (by omega)), Int.mul_assoc,
    of_add_of (holds_int32.2 (by omega)) (holds_int32.2 (by omega)),
    of_rowMajor (by omega) (by omega) ha hb]
  exact value_of (holds_int32.2 (by omega))

/-- Both halves, by the coordinates in a tile of the left quad. -/
theorem dual_halves (hfit : 8 * (w * w) ≤ 2147483647) (xc yc : Fin 2) {p : Int × Int}
    (hp : p ∈ square w) :
    let k := leftChip xc yc * (w * w) + (Symmetry.mk false (yc = 0) (yc = 1)).cell w p
    dualQuadImageToBpc (xc * w + p.1) (yc * w + p.2) w = inImage (0 + k) ∧
    dualQuadImageToBpc (4 * w - 1 - (xc * w + p.1)) (2 * w - 1 - (yc * w + p.2)) w =
      inImage (4 * (w * w) + k) := by
  obtain ⟨hx, hy⟩ := mem_square.1 hp
  have hw : 0 < w := by omega
  have hsq : 0 < w * w := Int.mul_pos hw hw
  have hsqle : 1 * w ≤ w * w := Int.mul_le_mul_of_nonneg_right (by omega) (Int.le_of_lt hw)
  have hbounds : ∀ (c : Fin 2) (a : Int), 0 ≤ a ∧ a < w →
      0 ≤ (c : Int) * w + a ∧ (c : Int) * w + a < 2 * w := by
    intro c a ha
    have hlo : 0 ≤ (c : Int) * w := Int.mul_nonneg (Int.natCast_nonneg _) (Int.le_of_lt hw)
    have hhi : (c : Int) * w ≤ 1 * w :=
      Int.mul_le_mul_of_nonneg_right (by omega) (Int.le_of_lt hw)
    omega
  have hquad := quadImageToBpc_eq (by omega) xc yc hp
  have hchip : 0 ≤ leftChip xc yc ∧ leftChip xc yc ≤ 3 := by
    unfold leftChip
    split <;> split <;> omega
  have hvalue := fun off hoff hoff' => @chips_value w off _ _ _ hoff hoff' hchip.1 hchip.2
    (Tiles.flip_mem (decide (yc = 0)) hx) (Tiles.flip_mem (decide (yc = 1)) hy)
  obtain ⟨hfour', htwo'⟩ := of_double hw (by omega : 4 * w ≤ 2147483647)
  obtain ⟨hfour, htwo⟩ := value_double hw (by omega : 4 * w ≤ 2147483647)
  obtain ⟨hxlo, hxhi⟩ := hbounds xc p.1 hx
  obtain ⟨hylo, hyhi⟩ := hbounds yc p.2 hy
  generalize (xc : Int) * w + p.1 = x at hxlo hxhi hquad ⊢
  generalize (yc : Int) * w + p.2 = y at hylo hyhi hquad ⊢
  intro k
  constructor
  · unfold dualQuadImageToBpc
    simp only [hfour, htwo, Option.bind_eq_bind, Option.bind_some]
    rw [if_neg (by omega), if_neg (by omega), if_neg (by omega), if_neg (by omega)]
    simp only [pure, Option.bind_some, hquad]
    rw [hvalue 0 (by omega) (Int.le_refl 0)]
    exact congrArg inImage (Int.add_assoc ..)
  · have hqx : (4 * of int32 w - 1 - of int32 (4 * w - 1 - x)).value = some x := by
      rw [hfour', show of int32 (4 * w) - 1 = of int32 (4 * w - 1) from
        of_sub_of (b := 1) (holds_int32.2 (by omega)) (holds_int32.2 (by omega)),
        of_sub_of (holds_int32.2 (by omega)) (holds_int32.2 (by omega)), Int.sub_sub_self]
      exact value_of (holds_int32.2 (by omega))
    have hqy : (2 * of int32 w - 1 - of int32 (2 * w - 1 - y)).value = some y := by
      rw [htwo', show of int32 (2 * w) - 1 = of int32 (2 * w - 1) from
        of_sub_of (b := 1) (holds_int32.2 (by omega)) (holds_int32.2 (by omega)),
        of_sub_of (holds_int32.2 (by omega)) (holds_int32.2 (by omega)), Int.sub_sub_self]
      exact value_of (holds_int32.2 (by omega))
    have hoffset : 4 * of int32 w * of int32 w = of int32 (4 * (w * w)) := by
      rw [hfour', of_mul_of (holds_int32.2 (by omega)) (holds_int32.2 (by omega)), Int.mul_assoc]
    unfold dualQuadImageToBpc
    simp only [hfour, htwo, Option.bind_eq_bind, Option.bind_some]
    rw [if_neg (by omega), if_neg (by omega), if_neg (by omega), if_pos (by omega)]
    simp only [pure, Option.bind_some, hqx, hqy, hquad, hoffset]
    rw [hvalue (4 * (w * w)) (by omega) (by omega)]
    exact congrArg inImage (Int.add_assoc ..)

/-- A tile of the right quad is one of the left, turned. -/
theorem turned_cell (w : Int) (yc : Fin 2) (p : Int × Int) :
    (Symmetry.mk false (1 - yc = 0) (1 - yc = 1)).cell w (w - 1 - p.1, w - 1 - p.2) =
      (Symmetry.mk false (yc = 0) (yc = 1)).cell w p := by
  match yc with
  | 0 =>
    show (w - 1 - p.1) + (w - 1 - (w - 1 - p.2)) * w = (w - 1 - p.1) + p.2 * w
    rw [Int.sub_sub_self]
  | 1 =>
    show (w - 1 - (w - 1 - p.1)) + (w - 1 - p.2) * w = p.1 + (w - 1 - p.2) * w
    rw [Int.sub_sub_self]

theorem leftChip_eq : ∀ (xc : Fin 4) (yc : Fin 2) (h : xc.val < 2),
    leftChip ⟨xc, h⟩ yc = (dualQuadTiling.chip xc yc : Int) := by
  decide

theorem rightChip_eq : ∀ (xc : Fin 4) (yc : Fin 2) (h : ¬xc.val < 2),
    4 + leftChip ⟨3 - xc, by omega⟩ (1 - yc) = (dualQuadTiling.chip xc yc : Int) := by
  decide

theorem dual_tiled (hfit : 8 * (w * w) ≤ 2147483647) :
    IsTiled dualQuadTiling w inImage fun p => dualQuadImageToBpc p.1 p.2 w := by
  intro xc yc p hp
  obtain ⟨hx, hy⟩ := mem_square.1 hp
  by_cases hleft : xc.val < 2
  · obtain ⟨hk, -⟩ := dual_halves hfit ⟨xc, hleft⟩ yc hp
    rw [leftChip_eq xc yc hleft, Int.zero_add] at hk
    exact hk
  · have hp' : (w - 1 - p.1, w - 1 - p.2) ∈ square w :=
      mem_square.2 ⟨by dsimp only; omega, by dsimp only; omega⟩
    obtain ⟨-, hk⟩ := dual_halves hfit ⟨3 - xc, by omega⟩ (1 - yc) hp'
    have hxcast : ((3 - xc.val : Nat) : Int) * w = 3 * w - xc * w := by
      rw [Int.ofNat_sub (by omega), Int.sub_mul]
      rfl
    have hycast : ((1 - yc : Fin 2) : Int) * w = 1 * w - yc * w := by
      match yc with
      | 0 => exact (Int.sub_zero _).symm.trans (congrArg _ (Int.zero_mul w).symm)
      | 1 => exact (Int.zero_mul w).trans (Int.sub_self _).symm
    have hxeq : 4 * w - 1 - (((3 - xc.val : Nat) : Int) * w + (w - 1 - p.1)) = xc * w + p.1 := by
      omega
    have hyeq : 2 * w - 1 - (((1 - yc : Fin 2) : Int) * w + (w - 1 - p.2)) = yc * w + p.2 := by
      omega
    rw [turned_cell, ← Int.add_assoc, ← Int.add_mul, rightChip_eq xc yc hleft] at hk
    dsimp only at hk
    rw [hxeq, hyeq] at hk
    exact hk

/-! ## The bijections -/

/-- An image coordinate the map refuses. -/
theorem pelIndex_outside {g : Geometry} (n o : Int) {p : Int × Int}
    (h : ¬((0 ≤ p.1 ∧ p.1 < g.cols) ∧ 0 ≤ p.2 ∧ p.2 < g.rows)) :
    pelIndex g n o p.1 p.2 =
      some (-1, some "pelIndex: image coordinate outside detector geometry") :=
  if_pos (by omega)

theorem dual_outside (hw : 0 < w) (hfit : 8 * (w * w) ≤ 2147483647) {p : Int × Int}
    (h : p ∉ image w 4 2) : dualQuadImageToBpc p.1 p.2 w = some none := by
  have hsqle : 1 * w ≤ w * w := Int.mul_le_mul_of_nonneg_right (by omega) (Int.le_of_lt hw)
  obtain ⟨hfour, htwo⟩ := value_double hw (by omega)
  have hout : ¬((0 ≤ p.1 ∧ p.1 < 4 * w) ∧ 0 ≤ p.2 ∧ p.2 < 2 * w) := h
  unfold dualQuadImageToBpc
  simp only [hfour, htwo, Option.bind_eq_bind, Option.bind_some]
  by_cases hx : w ≤ 0 ∨ p.1 < 0
  · rw [if_pos hx]
    rfl
  · rw [if_neg hx]
    by_cases hy : p.1 ≥ 4 * w ∨ p.2 < 0
    · rw [if_pos hy]
      rfl
    · rw [if_neg hy, if_pos (by omega)]
      rfl

/-- The right half is the left half turned, four chips further on. -/
theorem dual_turned (hw : 0 < w) (hfit : 8 * (w * w) ≤ 2147483647) {p : Int × Int}
    (hp : p ∈ image w 2 2) :
    ∃ k, dualQuadImageToBpc p.1 p.2 w = inImage k ∧
      dualQuadImageToBpc (4 * w - 1 - p.1) (2 * w - 1 - p.2) w = inImage (k + 4 * (w * w)) := by
  obtain ⟨xc, yc, hp⟩ := exists_tile (X := 2) (Y := 2) hw hp
  obtain ⟨hl, hr⟩ := dual_halves hfit xc yc ((shift_bijOn w (xc * w) (yc * w)).mapsTo hp)
  dsimp only at hl hr
  rw [Int.add_comm _ (p.1 - _), Int.sub_add_cancel, Int.add_comm _ (p.2 - _),
    Int.sub_add_cancel] at hl hr
  exact ⟨_, hl.trans (congrArg inImage (Int.zero_add _)),
    hr.trans (congrArg inImage (Int.add_comm ..))⟩

end

/-- For chips `w` pixels wide, while the numbers fit: one chip, the quad and the two quads map
their images onto the numbers of their pixels, one to one. -/
theorem pel_index_bijections (w : Int) (hw : 0 < w) :
    (w * w ≤ 2147483647 → ∀ (g : Geometry) (o : Fin 8), g.IsSquare 1 w →
      Set.BijOn (fun p => pelIndex g 1 o.val p.1 p.2) (image w 1 1)
        (numbered '' Set.Ico 0 (w * w))) ∧
    (4 * (w * w) ≤ 2147483647 → ∀ (g : Geometry) (o : Fin 8), g.IsSquare 2 w →
      Set.BijOn (fun p => pelIndex g 4 o.val p.1 p.2) (image w 2 2)
        (numbered '' Set.Ico 0 (4 * (w * w))) ∧
      ∀ xc yc : Fin 2, ∃ chip : Fin 4, Set.BijOn (fun p => pelIndex g 4 o.val p.1 p.2)
        (tile w xc yc) (numbered '' block w chip)) ∧
    (8 * (w * w) ≤ 2147483647 →
      Set.BijOn (fun p => dualQuadImageToBpc p.1 p.2 w) (image w 4 2)
        (inImage '' Set.Ico 0 (8 * (w * w))) ∧
      (∀ p ∈ image w 2 2, ∃ k, dualQuadImageToBpc p.1 p.2 w = inImage k ∧
        dualQuadImageToBpc (4 * w - 1 - p.1) (2 * w - 1 - p.2) w = inImage (k + 4 * (w * w))) ∧
      ∀ p ∉ image w 4 2, dualQuadImageToBpc p.1 p.2 w = some none) ∧
    ∀ (g : Geometry) (n o : Int) (p : Int × Int),
      ¬((0 ≤ p.1 ∧ p.1 < g.cols) ∧ 0 ≤ p.2 ∧ p.2 < g.rows) →
      pelIndex g n o p.1 p.2 =
        some (-1, some "pelIndex: image coordinate outside detector geometry") := by
  refine ⟨fun hfit g o hg => ?_, fun hfit g o hg => ⟨?_, fun xc yc => ?_⟩,
    fun hfit => ⟨?_, fun p hp => dual_turned hw hfit hp, fun p hp => dual_outside hw hfit hp⟩,
    fun g n o p hp => pelIndex_outside n o hp⟩
  · have h := (pelIndex_single hg hfit o).bijOn hw numbered_injective
    rwa [show ((1 * 1 : Nat) : Int) * (w * w) = w * w from Int.one_mul _] at h
  · exact (pelIndex_quad_tiled hg hfit o).bijOn hw numbered_injective
  · exact ⟨_, (pelIndex_quad_tiled hg hfit o).tile_bijOn hw numbered_injective xc yc⟩
  · exact (dual_tiled hfit).bijOn hw inImage_injective

/-- The real chips. -/
theorem pel_index_bijections_256 :
    Set.BijOn (fun p => pelIndex ⟨512, 512, 2, 2, 256⟩ 4 3 p.1 p.2) (image 256 2 2)
      (numbered '' Set.Ico 0 262144) :=
  ((pel_index_bijections 256 (by decide)).2.1 (by decide) ⟨512, 512, 2, 2, 256⟩ 3
    ⟨rfl, rfl, rfl⟩).1

end TimePix
