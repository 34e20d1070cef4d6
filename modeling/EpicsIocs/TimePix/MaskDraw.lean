import EpicsIocs.Lib.Arith
import EpicsIocs.Lib.Raster
import EpicsIocs.TimePix.BpcFile
import Mathlib.Algebra.Order.Ring.Abs
import Mathlib.Algebra.Order.Ring.Int
import Mathlib.Tactic.Linarith

/-! # Drawing in the mask

The operations of `mask.rs` on the mask waveform: reset, rectangle and circle, clipped to the image.
Coordinates are `i64`, the distances of a circle `i128`; an overflow or an index outside the waveform
is a panic.

`rectangle` and `circle` set or clear bit 0 of their pixels and change nothing else
(`mask_drawing`). -/

namespace TimePix

open Ints Ints.Arith Machine Faults Raster

/-- C `ADTimePix3MaskGeometry::Status` failures. -/
inductive DrawError where
  | invalidArgument
  | bufferTooSmall
  deriving DecidableEq, Repr

def DrawError.message : DrawError → String
  | invalidArgument => "invalid mask geometry or operation"
  | bufferTooSmall => "mask waveform is smaller than detector geometry"

/-- On the waveform. -/
abbrev Draw (α : Type) : Type := Action (List Cell) DrawError α

abbrev I64 : Type := Arith int64

def int128 : IntType := ⟨true, 16⟩

def refuse (e : DrawError) : Draw α := throw (.error e)

/-- `as usize`. -/
def asUsize (v : Int) : Nat := (v % 2 ^ 64).toNat

/-- The elements that an operation may touch. -/
def validate (image : int32.Value × int32.Value) : Draw Nat := do
  let (width, height) := image
  if width.val ≤ 0 ∨ height.val ≤ 0 then refuse .invalidArgument
  else
    match checkedMul (asUsize width.val) (asUsize height.val) with
    | none => refuse .invalidArgument
    | some required => if (← get).length < required then refuse .bufferTooSmall else pure required

def setMaskBit (masked : Bool) (cell : Cell) : Cell := if masked then cell ||| 1 else cell &&& ~~~1

/-- C `ADTimePix3MaskGeometry::reset`. -/
def reset (image : int32.Value × int32.Value) (value : Cell) : Draw Unit := do
  let required ← validate image
  if required ≤ (← get).length then
    modify fun buf => List.replicate required value ++ buf.drop required
  else throw .panic

/-- The body of the loops: one element of the waveform. -/
def setPixel (width : Int) (masked : Bool) (ix iy : Int) : Draw Unit := do
  let i ← Action.checked (of int64 iy * of int64 width + of int64 ix).value
  if asUsize i < (← get).length then modify fun buf => buf.modify (asUsize i) (setMaskBit masked)
  else throw .panic

/-- C `ADTimePix3MaskGeometry::rectangle`, clipped to the image. -/
def rectangle (image : int32.Value × int32.Value) (x sizeX y sizeY : int32.Value) (masked : Bool) :
    Draw Unit := do
  let (width, height) := image
  let _ ← validate image
  if sizeX.val < 0 ∨ sizeY.val < 0 then refuse .invalidArgument
  else
    let x0 := max x.val 0
    let y0 := max y.val 0
    let x1 := min width.val (← Action.checked (of int64 x.val + of int64 sizeX.val).value)
    let y1 := min height.val (← Action.checked (of int64 y.val + of int64 sizeY.val).value)
    (upTo y0 y1).forM fun iy => (upTo x0 x1).forM fun ix => setPixel width.val masked ix iy

/-- The body of the loops of `circle`. -/
def setInCircle (width : Int) (masked : Bool) (cx cy r2 ix iy : Int) : Draw Unit := do
  let dx ← Action.checked (of int64 ix - of int64 cx).value
  let dy ← Action.checked (of int64 iy - of int64 cy).value
  let d2 ← Action.checked
    (of int128 dx * of int128 dx + of int128 dy * of int128 dy).value
  if d2 ≤ r2 then setPixel width masked ix iy else pure ()

/-- C `ADTimePix3MaskGeometry::circle`, clipped to the image. -/
def circle (image : int32.Value × int32.Value) (cx cy radius : int32.Value) (masked : Bool) :
    Draw Unit := do
  let (width, height) := image
  let _ ← validate image
  if radius.val < 0 then refuse .invalidArgument
  else
    let cx := cx.val
    let cy := cy.val
    let r := radius.val
    let r2 ← Action.checked (of int128 r * of int128 r).value
    let y0 := max (← Action.checked (of int64 cy - of int64 r).value) 0
    let y1 := min (← Action.checked (of int64 cy + of int64 r).value)
      (← Action.checked (of int64 height.val - 1).value)
    (upTo y0 (y1 + 1)).forM fun iy => do
      let x0 := max (← Action.checked (of int64 cx - of int64 r).value) 0
      let x1 := min (← Action.checked (of int64 cx + of int64 r).value)
        (← Action.checked (of int64 width.val - 1).value)
      (upTo x0 (x1 + 1)).forM fun ix => setInCircle width.val masked cx cy r2 ix iy

/-! ## No refusal without a reason -/

section
variable {width height : int32.Value} {buf : List Cell}

/-- The waveform holds the image. -/
def Fits (width height : int32.Value) (buf : List Cell) : Prop :=
  (0 < width.val ∧ 0 < height.val) ∧ width.val * height.val ≤ buf.length

theorem bounds (v : int32.Value) : -2147483648 ≤ v.val ∧ v.val < 2147483648 := holds_int32.1 v.2

theorem area_lt (hw : 0 < width.val) (hh : 0 < height.val) :
    width.val * height.val ≤ 2147483647 * 2147483647 := by
  have hwidth := bounds width
  have hheight := bounds height
  exact Int.mul_le_mul (by omega) (by omega) (by omega) (by omega)

theorem checkedMul_image (hw : 0 < width.val) (hh : 0 < height.val) :
    checkedMul (asUsize width.val) (asUsize height.val) =
      some (width.val * height.val).toNat := by
  have hwidth := bounds width
  have hheight := bounds height
  have harea := area_lt hw hh
  have hcast : (asUsize width.val * asUsize height.val : Nat) = (width.val * height.val).toNat := by
    have hsize : ∀ v : Int, 0 < v → v < 2147483648 → asUsize v = v.toNat := fun v hv hv' => by
      unfold asUsize
      omega
    rw [hsize _ hw hwidth.2, hsize _ hh hheight.2, Int.toNat_mul (by omega) (by omega)]
  refine checkedMul_eq_some.2 ⟨?_, hcast.symm⟩
  rw [hcast, u64Max]
  omega

theorem validate_fits (h : Fits width height buf) :
    (validate (width, height)).run buf = (.ok (width.val * height.val).toNat, buf) := by
  obtain ⟨⟨hw, hh⟩, hlen⟩ := h
  unfold validate
  dsimp only
  rw [if_neg (by omega), checkedMul_image hw hh]
  dsimp only
  rw [Action.run_get_bind, if_neg (by omega)]
  rfl

theorem validate_refuses (h : ¬Fits width height buf) :
    ∃ e, (validate (width, height)).run buf = (.error (.error e), buf) := by
  unfold validate
  dsimp only
  by_cases hzero : width.val ≤ 0 ∨ height.val ≤ 0
  · rw [if_pos hzero]
    exact ⟨_, rfl⟩
  · have hpos : 0 < width.val ∧ 0 < height.val := by omega
    have hlen : ¬width.val * height.val ≤ buf.length := fun hlen => h ⟨hpos, hlen⟩
    rw [if_neg hzero, checkedMul_image hpos.1 hpos.2]
    dsimp only
    rw [Action.run_get_bind, if_pos (by omega)]
    exact ⟨_, rfl⟩

/-! ## The loops paint -/

theorem setMaskBit_twice (masked : Bool) (c : Cell) :
    setMaskBit masked (setMaskBit masked c) = setMaskBit masked c := by
  cases masked with
  | false =>
    show c &&& ~~~1 &&& ~~~1 = c &&& ~~~1
    rw [BitVec.and_assoc, BitVec.and_self]
  | true =>
    show (c ||| 1) ||| 1 = c ||| 1
    rw [BitVec.or_assoc, BitVec.or_self]

/-- Bit 0 is written, and the other bits stay. -/
theorem getLsbD_setMaskBit (masked : Bool) (c : Cell) (i : Nat) :
    (setMaskBit masked c).getLsbD i = if i = 0 then masked else c.getLsbD i := by
  have hone : (1 : Cell).getLsbD i = decide (i = 0) := by
    simp [BitVec.getLsbD_one]
  by_cases hi : i < 32
  · cases masked with
    | false =>
      show (c &&& ~~~1).getLsbD i = _
      rw [BitVec.getLsbD_and, BitVec.getLsbD_not, hone]
      by_cases hzero : i = 0 <;> simp [hi, hzero]
    | true =>
      show (c ||| 1).getLsbD i = _
      rw [BitVec.getLsbD_or, hone]
      by_cases hzero : i = 0 <;> simp [hzero]
  · rw [if_neg (by omega), BitVec.getLsbD_of_ge _ _ (by omega), BitVec.getLsbD_of_ge _ _ (by omega)]

theorem setPixel_paints {masked : Bool} {p : Int × Int} (hp : p ∈ pixels width.val height.val) :
    Paints width.val height.val (setMaskBit masked) {p}
      (setPixel width.val masked p.1 p.2 : Draw Unit) := by
  obtain ⟨hx, hy⟩ := mem_pixels.1 hp
  have hwidth := bounds width
  have hheight := bounds height
  have harea := @area_lt width height (by omega) (by omega)
  have hcast := index_cast hp
  have hlt := index_lt hp
  have hrow : p.2 * width.val ≤ p.2 * width.val + p.1 := by omega
  have hrow' : 0 ≤ p.2 * width.val := Int.mul_nonneg hy.1 (by omega)
  refine .modify hp fun buf hbuf => ?_
  have hindex : (of int64 p.2 * of int64 width.val + of int64 p.1).value =
      some (p.2 * width.val + p.1) := by
    rw [of_mul_of (holds_int64.2 (by omega)) (holds_int64.2 (by omega))]
    exact value_of_add (holds_int64.2 (by omega)) (holds_int64.2 (by omega))
      (holds_int64.2 (by omega))
  have hsize : asUsize (p.2 * width.val + p.1) = index width.val p := by
    unfold asUsize
    omega
  unfold setPixel
  rw [hindex, Action.checked_bind, hsize, Action.run_get_bind, if_pos (by omega)]
  rfl

/-- The pixels of a rectangle. -/
def rectangleArea (x sizeX y sizeY : Int) : Set (Int × Int) :=
  {p | (x ≤ p.1 ∧ p.1 < x + sizeX) ∧ y ≤ p.2 ∧ p.2 < y + sizeY}

/-- The pixels of a circle. -/
def circleArea (cx cy radius : Int) : Set (Int × Int) :=
  {p | (p.1 - cx) ^ 2 + (p.2 - cy) ^ 2 ≤ radius ^ 2}

/-- The call does what it says: the pixels of the area get the mask bit. -/
def Masks (width height : int32.Value) (masked : Bool) (area : Set (Int × Int)) (op : Draw Unit)
    (buf : List Cell) : Prop :=
  ∃ buf', op.run buf = (.ok (), buf') ∧
    Painted width.val height.val (setMaskBit masked) area buf buf'

theorem rectangle_masks {x sizeX y sizeY : int32.Value} {masked : Bool}
    (hfits : Fits width height buf) (hsx : 0 ≤ sizeX.val) (hsy : 0 ≤ sizeY.val) :
    Masks width height masked (rectangleArea x.val sizeX.val y.val sizeY.val)
      (rectangle (width, height) x sizeX y sizeY masked) buf := by
  have hx := bounds x
  have hy := bounds y
  have hsx' := bounds sizeX
  have hsy' := bounds sizeY
  have hright : (of int64 x.val + of int64 sizeX.val).value = some (x.val + sizeX.val) :=
    value_of_add (holds_int64.2 (by omega)) (holds_int64.2 (by omega)) (holds_int64.2 (by omega))
  have hbottom : (of int64 y.val + of int64 sizeY.val).value = some (y.val + sizeY.val) :=
    value_of_add (holds_int64.2 (by omega)) (holds_int64.2 (by omega)) (holds_int64.2 (by omega))
  have hloop : Paints width.val height.val (setMaskBit masked)
      (rectangleArea x.val sizeX.val y.val sizeY.val)
      ((upTo (max y.val 0) (min height.val (y.val + sizeY.val))).forM fun iy =>
        (upTo (max x.val 0) (min width.val (x.val + sizeX.val))).forM fun ix =>
          setPixel width.val masked ix iy) := by
    refine (Paints.rows (setMaskBit_twice masked) (C := Set.univ) fun iy ix hiy hix => ?_).congr
      fun p hp => ?_
    · rw [Set.inter_univ]
      exact setPixel_paints (p := (ix, iy)) (mem_pixels.2 ⟨by omega, by omega⟩)
    · obtain ⟨hpx, hpy⟩ := mem_pixels.1 hp
      constructor
      · rintro ⟨hrow, hcol, -⟩
        exact ⟨by omega, by omega⟩
      · rintro ⟨hcol, hrow⟩
        exact ⟨by omega, by omega, Set.mem_univ p⟩
  unfold Masks rectangle
  dsimp only
  rw [Action.run_bind_ok (validate_fits hfits), if_neg (by omega), hright, Action.checked_bind,
    hbottom, Action.checked_bind]
  exact hloop buf hfits.2

theorem holds_int128 {v : Int} : int128.Holds v ↔
    -170141183460469231731687303715884105728 ≤ v ∧
      v < 170141183460469231731687303715884105728 := Iff.rfl

/-- A square of a difference of coordinates. -/
theorem square_bounds {d b : Int} (hd : -b ≤ d ∧ d ≤ b) : 0 ≤ d * d ∧ d * d ≤ b * b :=
  ⟨mul_self_nonneg d, mul_self_le_mul_self_of_le_of_neg_le hd.2 (by omega)⟩

theorem setInCircle_paints {masked : Bool} {cx cy radius : int32.Value} {p : Int × Int}
    (hp : p ∈ pixels width.val height.val) :
    Paints width.val height.val (setMaskBit masked) ({p} ∩ circleArea cx.val cy.val radius.val)
      (setInCircle width.val masked cx.val cy.val (radius.val * radius.val) p.1 p.2) := by
  obtain ⟨hx, hy⟩ := mem_pixels.1 hp
  have hwidth := bounds width
  have hheight := bounds height
  have hcx := bounds cx
  have hcy := bounds cy
  have hdx : (of int64 p.1 - of int64 cx.val).value = some (p.1 - cx.val) :=
    value_of_sub (holds_int64.2 (by omega)) (holds_int64.2 (by omega)) (holds_int64.2 (by omega))
  have hdy : (of int64 p.2 - of int64 cy.val).value = some (p.2 - cy.val) :=
    value_of_sub (holds_int64.2 (by omega)) (holds_int64.2 (by omega)) (holds_int64.2 (by omega))
  have harea : p ∈ circleArea cx.val cy.val radius.val ↔
      (p.1 - cx.val) * (p.1 - cx.val) + (p.2 - cy.val) * (p.2 - cy.val) ≤
        radius.val * radius.val := by
    rw [← sq, ← sq, ← sq]
    exact Iff.rfl
  unfold setInCircle
  rw [hdx, Action.checked_bind, hdy, Action.checked_bind]
  have hsx := @square_bounds (p.1 - cx.val) 4294967296 (by omega)
  have hsy := @square_bounds (p.2 - cy.val) 4294967296 (by omega)
  have hd2 : (of int128 (p.1 - cx.val) * of int128 (p.1 - cx.val) +
      of int128 (p.2 - cy.val) * of int128 (p.2 - cy.val)).value =
      some ((p.1 - cx.val) * (p.1 - cx.val) + (p.2 - cy.val) * (p.2 - cy.val)) := by
    rw [of_mul_of (holds_int128.2 (by omega)) (holds_int128.2 (by omega)),
      of_mul_of (holds_int128.2 (by omega)) (holds_int128.2 (by omega))]
    exact value_of_add (holds_int128.2 (by omega)) (holds_int128.2 (by omega))
      (holds_int128.2 (by omega))
  rw [hd2, Action.checked_bind]
  by_cases hin : p ∈ circleArea cx.val cy.val radius.val
  · rw [if_pos (harea.1 hin)]
    refine (setPixel_paints hp).congr fun q hq => ?_
    constructor
    · rintro rfl
      exact ⟨rfl, hin⟩
    · exact And.left
  · rw [if_neg (mt harea.2 hin)]
    refine Paints.pure.congr fun q hq => ?_
    constructor
    · exact False.elim
    · rintro ⟨rfl, hq⟩
      exact hin hq

/-- A pixel of the circle is in the square about it. -/
theorem circleArea_square {cx cy radius : Int} {p : Int × Int} (hr : 0 ≤ radius)
    (hp : p ∈ circleArea cx cy radius) :
    (cx - radius ≤ p.1 ∧ p.1 ≤ cx + radius) ∧ cy - radius ≤ p.2 ∧ p.2 ≤ cy + radius := by
  have hp : (p.1 - cx) ^ 2 + (p.2 - cy) ^ 2 ≤ radius ^ 2 := hp
  have hx : (p.1 - cx) ^ 2 ≤ radius ^ 2 := by linarith [sq_nonneg (p.2 - cy)]
  have hy : (p.2 - cy) ^ 2 ≤ radius ^ 2 := by linarith [sq_nonneg (p.1 - cx)]
  have hx := abs_le_of_sq_le_sq' hx hr
  have hy := abs_le_of_sq_le_sq' hy hr
  omega

theorem circle_masks {cx cy radius : int32.Value} {masked : Bool}
    (hfits : Fits width height buf) (hr : 0 ≤ radius.val) :
    Masks width height masked (circleArea cx.val cy.val radius.val)
      (circle (width, height) cx cy radius masked) buf := by
  have hwidth := bounds width
  have hheight := bounds height
  have hcx := bounds cx
  have hcy := bounds cy
  have hr' := bounds radius
  have hsq := @square_bounds radius.val 2147483648 (by omega)
  have hr2 : (of int128 radius.val * of int128 radius.val).value =
      some (radius.val * radius.val) :=
    value_of_mul (holds_int128.2 (by omega)) (holds_int128.2 (by omega))
      (holds_int128.2 (by omega))
  have hlo : ∀ c : int32.Value, (of int64 c.val - of int64 radius.val).value =
      some (c.val - radius.val) := fun c => by
    have hc := bounds c
    exact value_of_sub (holds_int64.2 (by omega)) (holds_int64.2 (by omega))
      (holds_int64.2 (by omega))
  have hhi : ∀ c : int32.Value, (of int64 c.val + of int64 radius.val).value =
      some (c.val + radius.val) := fun c => by
    have hc := bounds c
    exact value_of_add (holds_int64.2 (by omega)) (holds_int64.2 (by omega))
      (holds_int64.2 (by omega))
  have hlast : ∀ c : int32.Value, (of int64 c.val - 1).value = some (c.val - 1) := fun c => by
    have hc := bounds c
    exact value_of_sub (b := 1) (holds_int64.2 (by omega)) (holds_int64.2 (by omega))
      (holds_int64.2 (by omega))
  have hloop : Paints width.val height.val (setMaskBit masked)
      (circleArea cx.val cy.val radius.val)
      ((upTo (max (cy.val - radius.val) 0)
        (min (cy.val + radius.val) (height.val - 1) + 1)).forM fun iy =>
        (upTo (max (cx.val - radius.val) 0)
          (min (cx.val + radius.val) (width.val - 1) + 1)).forM fun ix =>
          setInCircle width.val masked cx.val cy.val (radius.val * radius.val) ix iy) := by
    refine (Paints.rows (setMaskBit_twice masked) fun iy ix hiy hix =>
      setInCircle_paints (p := (ix, iy)) (mem_pixels.2 ⟨by omega, by omega⟩)).congr
      fun p hp => ?_
    obtain ⟨hpx, hpy⟩ := mem_pixels.1 hp
    constructor
    · rintro ⟨-, -, hin⟩
      exact hin
    · intro hin
      have hsquare := circleArea_square hr hin
      exact ⟨by omega, by omega, hin⟩
  unfold Masks circle
  dsimp only
  rw [Action.run_bind_ok (validate_fits hfits), if_neg (by omega), hr2, Action.checked_bind]
  simp only [hlo, hhi, hlast, Action.checked_bind]
  exact hloop buf hfits.2

/-- A reset assigns to every pixel of the image. -/
theorem reset_run (hfits : Fits width height buf) (value : Cell) :
    ∃ buf', (reset (width, height) value).run buf = (.ok (), buf') ∧
      Painted width.val height.val (fun _ => value) Set.univ buf buf' := by
  obtain ⟨⟨hw, hh⟩, hlen⟩ := hfits
  unfold reset
  rw [Action.run_bind_ok (validate_fits ⟨⟨hw, hh⟩, hlen⟩), Action.run_get_bind, if_pos (by omega)]
  refine ⟨_, rfl, ?_, fun p hp => ?_, fun n hn => ?_⟩
  · rw [List.length_append, List.length_replicate, List.length_drop]
    omega
  · have hlt := index_lt hp
    have hin : index width.val p < buf.length := by omega
    rw [if_pos (Set.mem_univ p), List.getElem?_append_left (by rw [List.length_replicate]; omega),
      List.getElem?_replicate, if_pos (by omega), List.getElem?_eq_getElem hin, Option.map_some]
  · rw [List.getElem?_append_right (by rw [List.length_replicate]; omega), List.length_replicate,
      List.getElem?_drop, Nat.add_sub_cancel' (by omega)]

/-! ## Refusals -/

theorem rectangle_refuses {x sizeX y sizeY : int32.Value} (masked : Bool)
    (h : ¬(Fits width height buf ∧ 0 ≤ sizeX.val ∧ 0 ≤ sizeY.val)) :
    ∃ e, (rectangle (width, height) x sizeX y sizeY masked).run buf = (.error (.error e), buf) := by
  unfold rectangle
  dsimp only
  by_cases hfits : Fits width height buf
  · rw [Action.run_bind_ok (validate_fits hfits), if_pos]
    · exact ⟨_, rfl⟩
    · have hneg : ¬(0 ≤ sizeX.val ∧ 0 ≤ sizeY.val) := fun hsizes => h ⟨hfits, hsizes⟩
      omega
  · obtain ⟨e, he⟩ := validate_refuses hfits
    exact ⟨e, Action.run_bind_error he _⟩

theorem circle_refuses {cx cy radius : int32.Value} (masked : Bool)
    (h : ¬(Fits width height buf ∧ 0 ≤ radius.val)) :
    ∃ e, (circle (width, height) cx cy radius masked).run buf = (.error (.error e), buf) := by
  unfold circle
  dsimp only
  by_cases hfits : Fits width height buf
  · rw [Action.run_bind_ok (validate_fits hfits), if_pos]
    · exact ⟨_, rfl⟩
    · have hneg : ¬0 ≤ radius.val := fun hr => h ⟨hfits, hr⟩
      omega
  · obtain ⟨e, he⟩ := validate_refuses hfits
    exact ⟨e, Action.run_bind_error he _⟩

end

/-- A rectangle or a circle that is not refused sets or clears bit 0 of exactly its pixels in the
image, without an overflow or an index outside; a refusal leaves the waveform as it is. -/
theorem mask_drawing (width height : int32.Value) (masked : Bool) (buf : List Cell) :
    (∀ x sizeX y sizeY : int32.Value,
      (Fits width height buf ∧ 0 ≤ sizeX.val ∧ 0 ≤ sizeY.val →
        Masks width height masked (rectangleArea x.val sizeX.val y.val sizeY.val)
          (rectangle (width, height) x sizeX y sizeY masked) buf) ∧
      (¬(Fits width height buf ∧ 0 ≤ sizeX.val ∧ 0 ≤ sizeY.val) →
        ∃ e, (rectangle (width, height) x sizeX y sizeY masked).run buf =
          (.error (.error e), buf))) ∧
    (∀ cx cy radius : int32.Value,
      (Fits width height buf ∧ 0 ≤ radius.val →
        Masks width height masked (circleArea cx.val cy.val radius.val)
          (circle (width, height) cx cy radius masked) buf) ∧
      (¬(Fits width height buf ∧ 0 ≤ radius.val) →
        ∃ e, (circle (width, height) cx cy radius masked).run buf = (.error (.error e), buf))) ∧
    ∀ (c : Cell) (i : Nat),
      (setMaskBit masked c).getLsbD i = if i = 0 then masked else c.getLsbD i := by
  refine ⟨fun x sizeX y sizeY => ⟨?_, rectangle_refuses masked⟩,
    fun cx cy radius => ⟨?_, circle_refuses masked⟩, getLsbD_setMaskBit masked⟩
  · rintro ⟨hfits, hsx, hsy⟩
    exact rectangle_masks hfits hsx hsy
  · rintro ⟨hfits, hr⟩
    exact circle_masks hfits hr

/-- Over the left edge of an image of two by two. -/
theorem mask_drawing_leftEdge :
    Masks ⟨2, by decide⟩ ⟨2, by decide⟩ true (rectangleArea (-1) 2 0 2)
      (rectangle (⟨2, by decide⟩, ⟨2, by decide⟩) ⟨-1, by decide⟩ ⟨2, by decide⟩ ⟨0, by decide⟩
        ⟨2, by decide⟩ true) [4, 4, 4, 4, 4] :=
  ((mask_drawing ⟨2, by decide⟩ ⟨2, by decide⟩ true [4, 4, 4, 4, 4]).1 ⟨-1, by decide⟩
    ⟨2, by decide⟩ ⟨0, by decide⟩ ⟨2, by decide⟩).1
    ⟨⟨⟨by decide, by decide⟩, by decide⟩, by decide, by decide⟩

example : ((rectangle (⟨2, by decide⟩, ⟨2, by decide⟩) ⟨-1, by decide⟩ ⟨2, by decide⟩
    ⟨0, by decide⟩ ⟨2, by decide⟩ true).run [4, 4, 4, 4, 4]).2 = [5, 4, 5, 4, 4] := by
  decide

end TimePix
