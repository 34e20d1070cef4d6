import Mathlib.Data.Int.ConditionallyCompleteOrder
import Mathlib.Data.Set.Function
import Mathlib.Order.ConditionallyCompleteLattice.Basic
import Mathlib.Order.Interval.Set.Defs
import Mathlib.Algebra.Ring.Int.Defs

/-!
# Images made of square tiles

An image of `X × Y` tiles, each `w` pixels square, numbered tile by tile: a pixel's number is that
of its tile times `w * w`, plus its cell in the tile, where the cells of a tile are counted row by
row after one of the eight symmetries of the square.

    every symmetry numbers the square bijectively                         (Symmetry.cell_bijOn)
    a tile is sent onto one block of numbers                              (IsTiled.tile_bijOn)
    the image is sent onto all of them                                    (IsTiled.bijOn)
-/

namespace Tiles

open Set

/-- The pixels of a square. -/
def square (w : Int) : Set (Int × Int) := Ico 0 w ×ˢ Ico 0 w

theorem mem_square {w : Int} {p : Int × Int} :
    p ∈ square w ↔ (0 ≤ p.1 ∧ p.1 < w) ∧ 0 ≤ p.2 ∧ p.2 < w := Iff.rfl

def rowMajor (w : Int) (p : Int × Int) : Int := p.1 + p.2 * w

theorem rowMajor_lt {w a b : Int} (ha : a < w) (hb : b < w) (hw : 0 < w) : a + b * w < w * w := by
  have hmul : (b + 1) * w ≤ w * w := Int.mul_le_mul_of_nonneg_right hb (Int.le_of_lt hw)
  rw [Int.add_mul, Int.one_mul] at hmul
  omega

theorem rowMajor_bijOn {w : Int} (hw : 0 < w) : BijOn (rowMajor w) (square w) (Ico 0 (w * w)) := by
  have hinv : InvOn (fun k => (k % w, k / w)) (rowMajor w) (square w) (Ico 0 (w * w)) := by
    constructor
    · rintro ⟨a, b⟩ ⟨⟨ha, ha'⟩, -⟩
      have hmod : (a + b * w) % w = a := by
        rw [Int.add_mul_emod_self_right, Int.emod_eq_of_lt ha ha']
      have hdiv : (a + b * w) / w = b := by
        rw [Int.add_mul_ediv_right _ _ (Int.ne_of_gt hw), Int.ediv_eq_zero_of_lt ha ha',
          Int.zero_add]
      exact Prod.ext hmod hdiv
    · intro k _
      exact Int.emod_add_ediv_mul k w
  refine hinv.bijOn ?_ ?_
  · rintro ⟨a, b⟩ ⟨⟨ha, ha'⟩, hb, hb'⟩
    exact ⟨Int.add_nonneg ha (Int.mul_nonneg hb (Int.le_of_lt hw)), rowMajor_lt ha' hb' hw⟩
  · rintro k ⟨hk, hk'⟩
    exact ⟨⟨Int.emod_nonneg k (Int.ne_of_gt hw), Int.emod_lt_of_pos k hw⟩,
      Int.ediv_nonneg hk (Int.le_of_lt hw), Int.ediv_lt_of_lt_mul hw hk'⟩

/-! ## Symmetries -/

/-- A coordinate, or the one as far from the other end. -/
def flip (w : Int) (flipped : Bool) (a : Int) : Int := if flipped then w - 1 - a else a

theorem flip_flip (w : Int) (flipped : Bool) (a : Int) : flip w flipped (flip w flipped a) = a := by
  unfold flip
  split <;> omega

theorem flip_mem {w a : Int} (flipped : Bool) (h : 0 ≤ a ∧ a < w) :
    0 ≤ flip w flipped a ∧ flip w flipped a < w := by
  unfold flip
  split <;> omega

/-- Coordinates exchanged or not, then each from either end. -/
structure Symmetry where
  swap : Bool
  flipX : Bool
  flipY : Bool
  deriving DecidableEq, Repr

namespace Symmetry

def exchange (s : Symmetry) (p : Int × Int) : Int × Int := if s.swap then p.swap else p

def turn (s : Symmetry) (w : Int) (p : Int × Int) : Int × Int :=
  (flip w s.flipX p.1, flip w s.flipY p.2)

/-- The cell of a pixel of the square. -/
def cell (s : Symmetry) (w : Int) (p : Int × Int) : Int := rowMajor w (s.turn w (s.exchange p))

variable (s : Symmetry) {w : Int}

theorem exchange_bijOn (w : Int) : BijOn s.exchange (square w) (square w) := by
  have hinv : LeftInvOn s.exchange s.exchange (square w) := by
    intro p _
    unfold exchange
    split <;> rfl
  have hmaps : MapsTo s.exchange (square w) (square w) := by
    intro p hp
    unfold exchange
    split
    · exact ⟨hp.2, hp.1⟩
    · exact hp
  exact InvOn.bijOn ⟨hinv, hinv⟩ hmaps hmaps

theorem turn_bijOn (w : Int) : BijOn (s.turn w) (square w) (square w) := by
  have hinv : LeftInvOn (s.turn w) (s.turn w) (square w) :=
    fun p _ => Prod.ext (flip_flip w s.flipX p.1) (flip_flip w s.flipY p.2)
  have hmaps : MapsTo (s.turn w) (square w) (square w) :=
    fun p hp => ⟨flip_mem _ hp.1, flip_mem _ hp.2⟩
  exact InvOn.bijOn ⟨hinv, hinv⟩ hmaps hmaps

theorem cell_bijOn (hw : 0 < w) : BijOn (s.cell w) (square w) (Ico 0 (w * w)) :=
  (rowMajor_bijOn hw).comp ((s.turn_bijOn w).comp (s.exchange_bijOn w))

end Symmetry

/-! ## Tilings -/

/-- The number and the symmetry of each tile. -/
structure Tiling (X Y : Nat) where
  chip : Fin X → Fin Y → Fin (X * Y)
  symmetry : Fin X → Fin Y → Symmetry
  chip_bijective : Function.Bijective fun tile : Fin X × Fin Y => chip tile.1 tile.2

/-- The pixels of a tile. -/
def tile (w : Int) (xc yc : Nat) : Set (Int × Int) :=
  Ico (xc * w) (xc * w + w) ×ˢ Ico (yc * w) (yc * w + w)

/-- The pixels of an image of `X × Y` tiles. -/
def image (w : Int) (X Y : Nat) : Set (Int × Int) := Ico 0 (X * w) ×ˢ Ico 0 (Y * w)

/-- The numbers of a tile. -/
def block (w : Int) (n : Nat) : Set Int := Ico ((n : Int) * (w * w)) ((n : Int) * (w * w) + w * w)

/-- `f` gives the pixels the numbers of the tiling, as `g` writes them. -/
def IsTiled {β : Type} {X Y : Nat} (t : Tiling X Y) (w : Int) (g : Int → β)
    (f : Int × Int → β) : Prop :=
  ∀ (xc : Fin X) (yc : Fin Y), ∀ p ∈ square w, f (xc * w + p.1, yc * w + p.2) =
    g ((t.chip xc yc : Int) * (w * w) + (t.symmetry xc yc).cell w p)

/-! ## What a tiling numbers -/

theorem shift_bijOn (w a b : Int) : BijOn (fun p : Int × Int => (p.1 - a, p.2 - b))
    (Ico a (a + w) ×ˢ Ico b (b + w)) (square w) := by
  have hinv : InvOn (fun p : Int × Int => (p.1 + a, p.2 + b)) (fun p => (p.1 - a, p.2 - b))
      (Ico a (a + w) ×ˢ Ico b (b + w)) (square w) := by
    constructor
    · intro p _
      exact Prod.ext (Int.sub_add_cancel p.1 a) (Int.sub_add_cancel p.2 b)
    · intro p _
      exact Prod.ext (Int.add_sub_cancel p.1 a) (Int.add_sub_cancel p.2 b)
  refine hinv.bijOn ?_ ?_
  · rintro p ⟨⟨h1, h2⟩, h3, h4⟩
    refine mem_square.2 ⟨⟨?_, ?_⟩, ?_, ?_⟩ <;> dsimp only <;> omega
  · rintro p ⟨⟨h1, h2⟩, h3, h4⟩
    refine ⟨⟨?_, ?_⟩, ?_, ?_⟩ <;> dsimp only <;> omega

theorem add_bijOn (c n : Int) : BijOn (fun k => c + k) (Ico 0 n) (Ico c (c + n)) := by
  have hinv : InvOn (fun k => k - c) (fun k => c + k) (Ico 0 n) (Ico c (c + n)) := by
    constructor
    · intro k _
      dsimp only
      omega
    · intro k _
      dsimp only
      omega
  refine hinv.bijOn ?_ ?_
  · rintro k ⟨h, h'⟩
    constructor <;> dsimp only <;> omega
  · rintro k ⟨h, h'⟩
    constructor <;> dsimp only <;> omega

section
variable {X Y : Nat} {w : Int}

theorem exists_tile (hw : 0 < w) {p : Int × Int} (hp : p ∈ image w X Y) :
    ∃ (xc : Fin X) (yc : Fin Y), p ∈ tile w xc yc := by
  obtain ⟨⟨hx, hx'⟩, hy, hy'⟩ := hp
  have hxc := Int.ediv_lt_of_lt_mul hw hx'
  have hyc := Int.ediv_lt_of_lt_mul hw hy'
  have hxn := Int.ediv_nonneg hx (Int.le_of_lt hw)
  have hyn := Int.ediv_nonneg hy (Int.le_of_lt hw)
  refine ⟨⟨(p.1 / w).toNat, by omega⟩, ⟨(p.2 / w).toNat, by omega⟩, ?_⟩
  have hxcast : (((p.1 / w).toNat : Nat) : Int) = p.1 / w := Int.toNat_of_nonneg hxn
  have hycast : (((p.2 / w).toNat : Nat) : Int) = p.2 / w := Int.toNat_of_nonneg hyn
  have hxmod := Int.emod_add_ediv_mul p.1 w
  have hymod := Int.emod_add_ediv_mul p.2 w
  have hxlt := Int.emod_lt_of_pos p.1 hw
  have hylt := Int.emod_lt_of_pos p.2 hw
  have hxge := Int.emod_nonneg p.1 (Int.ne_of_gt hw)
  have hyge := Int.emod_nonneg p.2 (Int.ne_of_gt hw)
  refine ⟨⟨?_, ?_⟩, ?_, ?_⟩ <;> simp only [hxcast, hycast] <;> omega

theorem tile_subset (hw : 0 < w) (xc : Fin X) (yc : Fin Y) : tile w xc yc ⊆ image w X Y := by
  rintro p ⟨⟨h1, h2⟩, h3, h4⟩
  have hx : ((xc : Int) + 1) * w ≤ X * w :=
    Int.mul_le_mul_of_nonneg_right (by have := xc.isLt; omega) (Int.le_of_lt hw)
  have hy : ((yc : Int) + 1) * w ≤ Y * w :=
    Int.mul_le_mul_of_nonneg_right (by have := yc.isLt; omega) (Int.le_of_lt hw)
  have hx0 : 0 ≤ (xc : Int) * w := Int.mul_nonneg (Int.natCast_nonneg _) (Int.le_of_lt hw)
  have hy0 : 0 ≤ (yc : Int) * w := Int.mul_nonneg (Int.natCast_nonneg _) (Int.le_of_lt hw)
  rw [Int.add_mul, Int.one_mul] at hx hy
  refine ⟨⟨?_, ?_⟩, ?_, ?_⟩ <;> omega

variable {β : Type} {t : Tiling X Y} {g : Int → β} {f : Int × Int → β}

/-- A tile is sent onto the block of its number. -/
theorem IsTiled.tile_bijOn (h : IsTiled t w g f) (hw : 0 < w) (hg : Function.Injective g)
    (xc : Fin X) (yc : Fin Y) :
    BijOn f (tile w xc yc) (g '' block w (t.chip xc yc)) := by
  have hcells := (add_bijOn ((t.chip xc yc : Int) * (w * w)) (w * w)).comp
    (((t.symmetry xc yc).cell_bijOn hw).comp (shift_bijOn w (xc * w) (yc * w)))
  refine (hg.injOn.bijOn_image.comp hcells).congr fun p hp => ?_
  have hf := h xc yc _ ((shift_bijOn w (xc * w) (yc * w)).mapsTo hp)
  dsimp only [Function.comp] at hf ⊢
  rw [← hf]
  congr 1
  exact Prod.ext (by dsimp only; omega) (by dsimp only; omega)

/-- Blocks of different numbers have nothing in common. -/
theorem block_unique {a b : Nat} {k : Int} (ha : k ∈ block w a) (hb : k ∈ block w b) : a = b := by
  obtain ⟨ha, ha'⟩ := ha
  obtain ⟨hb, hb'⟩ := hb
  have hn : 0 < w * w := by omega
  have hdiv : ∀ c : Nat, (c : Int) * (w * w) ≤ k → k < (c : Int) * (w * w) + w * w →
      k / (w * w) = c := by
    intro c hc hc'
    have hrest : k = (k - (c : Int) * (w * w)) + (c : Int) * (w * w) := by omega
    rw [hrest, Int.add_mul_ediv_right _ _ (Int.ne_of_gt hn),
      Int.ediv_eq_zero_of_lt (by omega) (by omega), Int.zero_add]
  exact Int.ofNat.inj ((hdiv a ha ha').symm.trans (hdiv b hb hb'))

theorem block_subset (hw : 0 < w) {n N : Nat} (h : n < N) :
    block w n ⊆ Ico 0 ((N : Int) * (w * w)) := by
  rintro k ⟨hk, hk'⟩
  have hww : 0 < w * w := Int.mul_pos hw hw
  have hle : ((n : Int) + 1) * (w * w) ≤ N * (w * w) :=
    Int.mul_le_mul_of_nonneg_right (by omega) (Int.le_of_lt hww)
  have hpos : 0 ≤ (n : Int) * (w * w) :=
    Int.mul_nonneg (Int.natCast_nonneg _) (Int.le_of_lt hww)
  rw [Int.add_mul, Int.one_mul] at hle
  constructor <;> omega

theorem exists_block (hw : 0 < w) {N : Nat} {k : Int} (hk : k ∈ Ico 0 ((N : Int) * (w * w))) :
    ∃ n < N, k ∈ block w n := by
  obtain ⟨hk, hk'⟩ := hk
  have hww : 0 < w * w := Int.mul_pos hw hw
  have hlt := Int.ediv_lt_of_lt_mul hww hk'
  have hnn := Int.ediv_nonneg hk (Int.le_of_lt hww)
  have hcast : (((k / (w * w)).toNat : Nat) : Int) = k / (w * w) := Int.toNat_of_nonneg hnn
  have hmod := Int.emod_add_ediv_mul k (w * w)
  have hmodlt := Int.emod_lt_of_pos k hww
  have hmodge := Int.emod_nonneg k (Int.ne_of_gt hww)
  refine ⟨(k / (w * w)).toNat, by omega, ?_⟩
  rw [block, hcast]
  constructor <;> omega

/-- The image is sent onto all numbers. -/
theorem IsTiled.bijOn (h : IsTiled t w g f) (hw : 0 < w) (hg : Function.Injective g) :
    BijOn f (image w X Y) (g '' Ico 0 ((X * Y : Nat) * (w * w))) := by
  refine ⟨?_, ?_, ?_⟩
  · intro p hp
    obtain ⟨xc, yc, hp⟩ := exists_tile hw hp
    exact image_mono (block_subset hw (t.chip xc yc).isLt) ((h.tile_bijOn hw hg xc yc).mapsTo hp)
  · intro p hp q hq heq
    obtain ⟨xp, yp, hp⟩ := exists_tile hw hp
    obtain ⟨xq, yq, hq⟩ := exists_tile hw hq
    obtain ⟨k, hk, hpk⟩ := (h.tile_bijOn hw hg xp yp).mapsTo hp
    obtain ⟨k', hk', hqk⟩ := (h.tile_bijOn hw hg xq yq).mapsTo hq
    obtain rfl : k = k' := hg ((hpk.trans heq).trans hqk.symm)
    obtain ⟨rfl, rfl⟩ := Prod.mk.inj (t.chip_bijective.injective (Fin.ext (block_unique hk hk')))
    exact (h.tile_bijOn hw hg xp yp).injOn hp hq heq
  · rintro _ ⟨k, hk, rfl⟩
    obtain ⟨n, hn, hk⟩ := exists_block hw hk
    obtain ⟨⟨xc, yc⟩, hchip⟩ := t.chip_bijective.surjective ⟨n, hn⟩
    have hval : (t.chip xc yc : Nat) = n := congrArg Fin.val hchip
    obtain ⟨p, hp, hpk⟩ := (h.tile_bijOn hw hg xc yc).surjOn ⟨k, hval ▸ hk, rfl⟩
    exact ⟨p, tile_subset hw xc yc hp, hpk⟩

end

end Tiles
