import EpicsIocs.Lib.Faults
import EpicsIocs.Lib.Ints
import Mathlib.Data.Set.Lattice

/-!
# Painting an image in a buffer

An image `w` pixels wide is the first elements of a buffer, row after row.  `Paints` says of an
action that it changes the elements of an area's pixels, each as if once, and none else; it
composes:

    Paints w h f A m → Paints w h f B n → Paints w h f (A ∪ B) (m >>= fun _ => n)   (Paints.bind)
    Paints w h f {p | ∃ b ∈ l, p ∈ A b} (l.forM body)   where `body b` paints `A b`  (Paints.forM)
-/

namespace Raster

open Faults

/-- The integers from `lo` up to `hi`, without `hi`. -/
def upTo (lo hi : Int) : List Int := (List.range (hi - lo).toNat).map fun (n : Nat) => lo + n

theorem mem_upTo {lo hi v : Int} : v ∈ upTo lo hi ↔ lo ≤ v ∧ v < hi := by
  rw [upTo, List.mem_map]
  constructor
  · rintro ⟨n, hn, rfl⟩
    rw [List.mem_range] at hn
    omega
  · rintro ⟨hlo, hhi⟩
    refine ⟨(v - lo).toNat, ?_, ?_⟩
    · rw [List.mem_range]
      omega
    · omega

def pixels (w h : Int) : Set (Int × Int) := {p | (0 ≤ p.1 ∧ p.1 < w) ∧ 0 ≤ p.2 ∧ p.2 < h}

theorem mem_pixels {w h : Int} {p : Int × Int} :
    p ∈ pixels w h ↔ (0 ≤ p.1 ∧ p.1 < w) ∧ 0 ≤ p.2 ∧ p.2 < h := Iff.rfl

/-- The element of a pixel. -/
def index (w : Int) (p : Int × Int) : Nat := (p.2 * w + p.1).toNat

section
variable {w h : Int} {p q : Int × Int}

theorem index_cast (hp : p ∈ pixels w h) : (index w p : Int) = p.2 * w + p.1 := by
  obtain ⟨hx, hy⟩ := mem_pixels.1 hp
  have hrow : 0 ≤ p.2 * w := Int.mul_nonneg hy.1 (by omega)
  exact Int.toNat_of_nonneg (by omega)

theorem index_lt (hp : p ∈ pixels w h) : (index w p : Int) < w * h := by
  obtain ⟨hx, hy⟩ := mem_pixels.1 hp
  have hrow : (p.2 + 1) * w ≤ h * w := Int.mul_le_mul_of_nonneg_right (by omega) (by omega)
  rw [index_cast hp, Int.mul_comm w h]
  rw [Int.add_mul, Int.one_mul] at hrow
  omega

theorem index_inj (hp : p ∈ pixels w h) (hq : q ∈ pixels w h) (heq : index w p = index w q) :
    p = q := by
  obtain ⟨hx, hy⟩ := mem_pixels.1 hp
  obtain ⟨hx', hy'⟩ := mem_pixels.1 hq
  have heq : p.2 * w + p.1 = q.2 * w + q.1 := by
    rw [← index_cast hp, ← index_cast hq, heq]
  have hmod : p.1 = q.1 := by
    have hrem : (p.2 * w + p.1) % w = (q.2 * w + q.1) % w := by rw [heq]
    rwa [Int.add_comm, Int.add_mul_emod_self_right, Int.add_comm _ q.1,
      Int.add_mul_emod_self_right, Int.emod_eq_of_lt hx.1 hx.2, Int.emod_eq_of_lt hx'.1 hx'.2]
      at hrem
  have hrow : p.2 * w = q.2 * w := by omega
  exact Prod.ext hmod (Int.eq_of_mul_eq_mul_right (by omega) hrow)

end

variable {α ε β : Type}

open Classical in
/-- Every element is a pixel's or behind the image. -/
structure Painted (w h : Int) (f : α → α) (area : Set (Int × Int)) (buf buf' : List α) : Prop where
  length_eq : buf'.length = buf.length
  pixel : ∀ p ∈ pixels w h,
    buf'[index w p]? = if p ∈ area then buf[index w p]?.map f else buf[index w p]?
  behind : ∀ n : Nat, w * h ≤ n → buf'[n]? = buf[n]?

/-- The action succeeds on every buffer that holds the image. -/
def Paints (w h : Int) (f : α → α) (area : Set (Int × Int)) (m : Action (List α) ε Unit) : Prop :=
  ∀ buf : List α, w * h ≤ buf.length →
    ∃ buf', m.run buf = (.ok (), buf') ∧ Painted w h f area buf buf'

namespace Paints

variable {w h : Int} {f : α → α} {A B : Set (Int × Int)} {m n : Action (List α) ε Unit}

theorem pure : Paints w h f ∅ (pure () : Action (List α) ε Unit) := by
  intro buf hbuf
  refine ⟨buf, rfl, rfl, fun p hp => ?_, fun n hn => rfl⟩
  rw [if_neg (Set.notMem_empty p)]

open Classical in
/-- What happens off the image does not matter. -/
theorem congr (hm : Paints w h f A m) (hAB : ∀ p ∈ pixels w h, p ∈ A ↔ p ∈ B) :
    Paints w h f B m := by
  intro buf hbuf
  obtain ⟨buf', hrun, hpaint⟩ := hm buf hbuf
  refine ⟨buf', hrun, hpaint.length_eq, fun p hp => ?_, hpaint.behind⟩
  rw [hpaint.pixel p hp, if_congr (hAB p hp) rfl rfl]

theorem bind (hf : ∀ a, f (f a) = f a) (hm : Paints w h f A m) (hn : Paints w h f B n) :
    Paints w h f (A ∪ B) (m >>= fun _ => n) := by
  intro buf hbuf
  obtain ⟨buf₁, hrun₁, hpaint₁⟩ := hm buf hbuf
  obtain ⟨buf₂, hrun₂, hpaint₂⟩ := hn buf₁ (by rw [hpaint₁.length_eq]; exact hbuf)
  refine ⟨buf₂, ?_, ?_, fun p hp => ?_, fun n hn => ?_⟩
  · rw [Action.run_bind_ok hrun₁, hrun₂]
  · rw [hpaint₂.length_eq, hpaint₁.length_eq]
  · have htwice : ∀ c : Option α, (c.map f).map f = c.map f := by
      intro c
      cases c with
      | none => rfl
      | some a => exact congrArg some (hf a)
    rw [hpaint₂.pixel p hp, hpaint₁.pixel p hp]
    by_cases hA : p ∈ A
    · by_cases hB : p ∈ B
      · rw [if_pos hB, if_pos hA, if_pos (.inl hA), htwice]
      · rw [if_neg hB, if_pos hA, if_pos (.inl hA)]
    · by_cases hB : p ∈ B
      · rw [if_pos hB, if_neg hA, if_pos (.inr hB)]
      · rw [if_neg hB, if_neg hA, if_neg (show p ∉ A ∪ B from not_or.2 ⟨hA, hB⟩)]
  · rw [hpaint₂.behind n hn, hpaint₁.behind n hn]

/-- A loop paints what its rounds paint. -/
theorem forM (hf : ∀ a, f (f a) = f a) {area : β → Set (Int × Int)} (l : List β)
    {body : β → Action (List α) ε Unit} (hbody : ∀ b ∈ l, Paints w h f (area b) (body b)) :
    Paints w h f {p | ∃ b ∈ l, p ∈ area b} (l.forM body) := by
  induction l with
  | nil => exact pure.congr fun p hp => by simp
  | cons b l ih =>
    obtain ⟨hfirst, hrest⟩ := List.forall_mem_cons.1 hbody
    show Paints w h f _ (body b >>= fun _ => l.forM body)
    refine (bind hf hfirst (ih hrest)).congr fun p hp => ?_
    rw [Set.mem_union, Set.mem_ofPred_eq, Set.mem_ofPred_eq, List.exists_mem_cons_iff]

/-- Two loops, of which each round paints its pixel where that is in `C`. -/
theorem rows (hf : ∀ a, f (f a) = f a) {C : Set (Int × Int)} {y0 y1 x0 x1 : Int}
    {body : Int → Int → Action (List α) ε Unit}
    (hbody : ∀ iy ix, (y0 ≤ iy ∧ iy < y1) → (x0 ≤ ix ∧ ix < x1) →
      Paints w h f ({(ix, iy)} ∩ C) (body iy ix)) :
    Paints w h f {p | (y0 ≤ p.2 ∧ p.2 < y1) ∧ (x0 ≤ p.1 ∧ p.1 < x1) ∧ p ∈ C}
      ((upTo y0 y1).forM fun iy => (upTo x0 x1).forM (body iy)) := by
  have hrows := forM hf (upTo y0 y1) fun iy hiy => forM hf (upTo x0 x1) fun ix hix =>
    hbody iy ix (mem_upTo.1 hiy) (mem_upTo.1 hix)
  refine hrows.congr fun p hp => ?_
  constructor
  · rintro ⟨iy, hiy, ix, hix, hpix, hC⟩
    obtain rfl := Set.mem_singleton_iff.1 hpix
    exact ⟨mem_upTo.1 hiy, mem_upTo.1 hix, hC⟩
  · rintro ⟨hy, hx, hC⟩
    exact ⟨p.2, mem_upTo.2 hy, p.1, mem_upTo.2 hx, rfl, hC⟩

/-- An update of one element. -/
theorem modify {p : Int × Int} (hp : p ∈ pixels w h)
    (hrun : ∀ buf, w * h ≤ buf.length → m.run buf = (.ok (), buf.modify (index w p) f)) :
    Paints w h f {p} m := by
  intro buf hbuf
  refine ⟨_, hrun buf hbuf, List.length_modify .., fun q hq => ?_, fun n hn => ?_⟩
  · rw [List.getElem?_modify]
    by_cases hpq : q = p
    · rw [if_pos (Set.mem_singleton_iff.2 hpq), hpq]
      simp
    · have hne : index w p ≠ index w q := fun heq => hpq (index_inj hp hq heq).symm
      rw [if_neg fun hmem => hpq (Set.mem_singleton_iff.1 hmem)]
      simp [hne]
  · have hlt := index_lt hp
    have hne : index w p ≠ n := by omega
    simp [hne]

end Paints

end Raster
