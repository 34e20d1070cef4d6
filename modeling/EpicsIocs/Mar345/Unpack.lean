import Mathlib.Data.List.GetD
import EpicsIocs.Mar345.Pck

/-!
# What the loops of the decoder read

The words of the decoder are a reservoir of the stream of bits: filling keeps what it holds, and a
descriptor or a delta is the next field of it.  So the loops read the chunks one after the other, and
each delta becomes the pixel that its prediction and it make (`paint`).
-/

namespace Mar345

open BitStream

/-! ## Words as numbers -/

theorem toNat_setbits {n : Nat} (hn : n ≤ 32) : (setbits n).toNat = 2 ^ n - 1 := by
  by_cases h0 : n = 0
  · subst h0
    rfl
  · by_cases h32 : 32 ≤ n
    · obtain rfl : n = 32 := by omega
      rfl
    · rw [setbits, if_neg h0, if_neg h32, BitVec.toNat_sub, BitVec.toNat_shiftLeft, Nat.shiftLeft_eq]
      have hpow : 2 ^ n < 2 ^ 32 := Nat.pow_lt_pow_right Nat.one_lt_two (by omega)
      have hpos : 0 < 2 ^ n := Nat.two_pow_pos n
      simp only [BitVec.toNat_ofNat, Nat.reducePow, Nat.reduceMod, Nat.one_mul, Nat.reduceSub] at hpow ⊢
      rw [Nat.mod_eq_of_lt hpow]
      omega

theorem toNat_and_setbits (x : BitVec 32) {n : Nat} (hn : n ≤ 32) :
    (x &&& setbits n).toNat = x.toNat % 2 ^ n := by
  rw [BitVec.toNat_and, toNat_setbits hn, Nat.and_two_pow_sub_one_eq_mod]

theorem toNat_shiftRight (x : BitVec 32) {n : Nat} (hn : n ≤ 32) :
    (shiftRight x n).toNat = x.toNat / 2 ^ n := by
  have hx : x.toNat < 2 ^ 32 := x.isLt
  by_cases h0 : n = 0
  · subst h0
    rw [shiftRight, if_pos rfl, Nat.pow_zero, Nat.div_one]
  · by_cases h32 : 32 ≤ n
    · obtain rfl : n = 32 := by omega
      rw [Nat.div_eq_of_lt hx]
      rfl
    · rw [shiftRight, if_neg h0, if_neg h32, toNat_and_setbits _ (Nat.sub_le _ _),
        BitVec.toNat_ushiftRight, Nat.shiftRight_eq_div_pow, Nat.mod_eq_of_lt]
      apply Nat.div_lt_of_lt_mul
      rwa [← Nat.pow_add, Nat.add_sub_cancel' hn]

theorem toNat_shiftLeft (x : BitVec 32) {n : Nat} (hn : n ≤ 32) :
    (shiftLeft x n).toNat = 2 ^ n * (x.toNat % 2 ^ (32 - n)) := by
  have hx : x.toNat < 2 ^ 32 := x.isLt
  by_cases h0 : n = 0
  · subst h0
    rw [shiftLeft, if_pos rfl, Nat.pow_zero, Nat.one_mul, Nat.mod_eq_of_lt hx]
  · by_cases h32 : 32 ≤ n
    · obtain rfl : n = 32 := by omega
      rw [Nat.sub_self, Nat.pow_zero, Nat.mod_one, Nat.mul_zero]
      rfl
    · rw [shiftLeft, if_neg h0, if_neg h32, BitVec.toNat_shiftLeft,
        toNat_and_setbits _ (Nat.sub_le _ _), Nat.shiftLeft_eq, Nat.mul_comm, Nat.mod_eq_of_lt]
      have hlt : x.toNat % 2 ^ (32 - n) < 2 ^ (32 - n) := Nat.mod_lt _ (Nat.two_pow_pos _)
      calc 2 ^ n * (x.toNat % 2 ^ (32 - n)) < 2 ^ n * 2 ^ (32 - n) :=
            Nat.mul_lt_mul_of_pos_left hlt (Nat.two_pow_pos n)
        _ = 2 ^ 32 := by rw [← Nat.pow_add, Nat.add_sub_cancel' hn]

/-- The spill goes above the window's bits. -/
theorem toNat_or_shiftLeft {window spill : BitVec 32} {n : Nat} (hn : n ≤ 32)
    (hwindow : window.toNat < 2 ^ n) :
    (window ||| shiftLeft spill n).toNat = window.toNat + 2 ^ n * (spill.toNat % 2 ^ (32 - n)) := by
  rw [BitVec.toNat_or, toNat_shiftLeft _ hn, Nat.or_comm, ← Nat.two_pow_add_eq_or_of_lt hwindow,
    Nat.add_comm]

/-- Whether a number of `n` bits is negative. -/
theorem and_shiftLeft_ne_zero {ni : BitVec 32} {n : Nat} (hn : 0 < n) (hn32 : n ≤ 32)
    (hni : ni.toNat < 2 ^ n) : ni &&& (1#32 <<< (n - 1)) ≠ 0 ↔ 2 ^ (n - 1) ≤ ni.toNat := by
  have hbit : ni &&& (1#32 <<< (n - 1)) ≠ 0 ↔ ni.getLsbD (n - 1) = true := by
    show ni &&& BitVec.twoPow 32 (n - 1) ≠ 0 ↔ _
    rw [BitVec.and_twoPow]
    split_ifs with h
    · refine iff_of_true (fun hzero => ?_) h
      have hget := congrArg (BitVec.getLsbD · (n - 1)) hzero
      simp [BitVec.getLsbD_twoPow] at hget
      omega
    · exact iff_of_false (fun habs => habs rfl) h
  rw [hbit]
  show ni.toNat.testBit (n - 1) = true ↔ _
  constructor
  · exact Nat.ge_two_pow_of_testBit
  · intro h
    apply Nat.testBit_of_two_pow_le_and_two_pow_add_one_gt h
    rwa [Nat.sub_add_cancel hn]

/-- A number of `n` bits, the highest of them its sign. -/
theorem toInt_signExtend {ni : BitVec 32} {n : Nat} (hn : 0 < n) (hn32 : n ≤ 32)
    (hni : ni.toNat < 2 ^ n) :
    (if ni &&& (1#32 <<< (n - 1)) ≠ 0 then ni ||| ~~~setbits n else ni).toInt =
      (ni.toNat : Int).bmod (2 ^ n) := by
  have hor : (ni ||| ~~~setbits n).toNat = 2 ^ 32 - 2 ^ n + ni.toNat := by
    have hhigh : 2 ^ 32 - 2 ^ n = 2 ^ n * (2 ^ (32 - n) - 1) := by
      rw [Nat.mul_sub, ← Nat.pow_add, Nat.add_sub_cancel' hn32, Nat.mul_one]
    have hpos : 0 < 2 ^ n := Nat.two_pow_pos n
    rw [BitVec.toNat_or, BitVec.toNat_not, toNat_setbits hn32, Nat.or_comm,
      show 2 ^ 32 - 1 - (2 ^ n - 1) = 2 ^ 32 - 2 ^ n by omega, hhigh,
      ← Nat.two_pow_add_eq_or_of_lt hni]
  have hcond := and_shiftLeft_ne_zero hn hn32 hni
  have hpow : 2 ^ n = 2 ^ (n - 1) * 2 := by
    rw [← Nat.pow_succ]
    congr 1
    omega
  have hle : 2 ^ (n - 1) ≤ 2 ^ 31 := Nat.pow_le_pow_right Nat.zero_lt_two (by omega)
  have hpos : 0 < 2 ^ (n - 1) := Nat.two_pow_pos _
  rw [BitVec.toInt_eq_toNat_bmod]
  by_cases h : 2 ^ (n - 1) ≤ ni.toNat
  · rw [if_pos (hcond.2 h), hor]
    generalize 2 ^ (n - 1) = half at *
    have hinner : (ni.toNat : Int).bmod (2 ^ n) = ni.toNat - (2 ^ n : Nat) := by
      refine (Int.bmod_eq_iff (Nat.two_pow_pos n)).2 ⟨by omega, by omega, -1, by omega⟩
    rw [hinner]
    exact (Int.bmod_eq_iff (by decide)).2 ⟨by omega, by omega, -1, by omega⟩
  · rw [if_neg (mt hcond.1 h)]
    generalize 2 ^ (n - 1) = half at *
    have hinner : (ni.toNat : Int).bmod (2 ^ n) = ni.toNat :=
      (Int.bmod_eq_iff (Nat.two_pow_pos n)).2 ⟨by omega, by omega, 0, by omega⟩
    rw [hinner]
    exact (Int.bmod_eq_iff (by decide)).2 ⟨by omega, by omega, 0, by omega⟩

namespace Unpacker

/-- The bits not taken yet. -/
def reservoir (s : Unpacker) : Reservoir :=
  ⟨s.window.toNat, s.valids, s.spill.toNat % 2 ^ s.spillbits, s.spillbits, s.data⟩

/-- The file has not ended yet. -/
structure Sound (s : Unpacker) : Prop where
  valids_le : s.valids ≤ 32
  spillbits_le : s.spillbits ≤ 8
  spill_lt : 0 < s.spillbits → s.spill.toNat < 2 ^ s.spillbits

/-- The decoder is sound, and what comes next are these fields. -/
structure Reads (s : Unpacker) (fields : List Field) : Prop extends s.Sound where
  holds : Holds s.reservoir fields

variable {s : Unpacker} {fields : List Field} {n v : Nat}

/-- A decoder with the words of a reservoir holds what it does. -/
theorem holds_of {r : Reservoir} (h : Holds r fields) (hwindow : s.window.toNat = r.window)
    (hvalids : s.valids = r.valids) (hspill : s.spill.toNat % 2 ^ s.spillbits = r.spill)
    (hspillbits : s.spillbits = r.spillbits) (hdata : s.data = r.data) : Holds s.reservoir fields := by
  obtain ⟨window, valids, spill, spillbits, data⟩ := r
  subst hwindow hvalids hspill hspillbits hdata
  exact h

/-- As long as enough bits are there, the next byte is no end of file. -/
theorem Reads.getc (h : s.Reads fields) (hzero : s.spillbits = 0) (hlt : s.valids < width fields) :
    s.getc.Reads fields := by
  obtain ⟨b, data, hdata⟩ : ∃ b data, s.data = b :: data := by
    cases hdata : s.data with
    | nil =>
      have henough := h.holds.enough
      simp only [Reservoir.bits, reservoir, hzero, hdata, List.length_nil] at henough
      omega
    | cons b data => exact ⟨b, data, rfl⟩
  have hb : b.toNat < 2 ^ 8 := b.toNat_lt
  have hspill : (b.toBitVec.setWidth 32).toNat = b.toNat := by
    rw [BitVec.toNat_setWidth]
    exact Nat.mod_eq_of_lt (hb.trans (by decide))
  have heq : s.getc = { s with data := data, spill := b.toBitVec.setWidth 32, spillbits := 8 } := by
    rw [Unpacker.getc, hdata]
  rw [heq]
  refine ⟨⟨h.valids_le, Nat.le_refl _, fun _ => hspill.trans_lt hb⟩, ?_⟩
  refine holds_of (h.holds.load hzero hdata) rfl rfl ?_ rfl rfl
  exact (congrArg (· % 2 ^ 8) hspill).trans (Nat.mod_eq_of_lt hb)

/-- The lowest `n` bits of the spill go into the window. -/
theorem Reads.pour (h : s.Reads fields) (hn : n ≤ s.spillbits) (hroom : s.valids + n ≤ 32)
    (hlow : s.spill.toNat % 2 ^ (32 - s.valids) = s.spill.toNat % 2 ^ n) (spill : BitVec 32)
    (hspill : n < s.spillbits → spill.toNat = s.spill.toNat / 2 ^ n) :
    Reads { s with
      window := s.window ||| shiftLeft s.spill s.valids, valids := s.valids + n, spill := spill,
      spillbits := s.spillbits - n } fields := by
  have hpow : 2 ^ s.spillbits = 2 ^ n * 2 ^ (s.spillbits - n) := by
    rw [← Nat.pow_add, Nat.add_sub_cancel' hn]
  refine ⟨⟨hroom, (Nat.sub_le _ _).trans h.spillbits_le, ?_⟩, ?_⟩
  · intro hpos
    show spill.toNat < 2 ^ (s.spillbits - n)
    have hpos : 0 < s.spillbits - n := hpos
    rw [hspill (by omega)]
    apply Nat.div_lt_of_lt_mul
    rw [← hpow]
    exact h.spill_lt (by omega)
  · refine holds_of (h.holds.pour hn) ?_ rfl ?_ rfl rfl
    · have hclean : s.window.toNat < 2 ^ s.valids := h.holds.clean
      show (s.window ||| shiftLeft s.spill s.valids).toNat =
        s.window.toNat + 2 ^ s.valids * (s.spill.toNat % 2 ^ s.spillbits % 2 ^ n)
      rw [toNat_or_shiftLeft (by omega) hclean, hlow, hpow, Nat.mod_mul_right_mod]
    · show spill.toNat % 2 ^ (s.spillbits - n) = s.spill.toNat % 2 ^ s.spillbits / 2 ^ n
      by_cases hlt : n < s.spillbits
      · rw [hspill hlt, hpow, Nat.mod_mul_right_div_self]
      · obtain rfl : n = s.spillbits := by omega
        rw [Nat.sub_self, Nat.pow_zero, Nat.mod_one,
          Nat.div_eq_of_lt (Nat.mod_lt _ (Nat.two_pow_pos _))]

/-- The whole spill goes into the window. -/
theorem Reads.pour_all (h : s.Reads fields) (hpos : 0 < s.spillbits) (hroom : s.valids + s.spillbits ≤ 32) :
    Reads { s with
      window := s.window ||| shiftLeft s.spill s.valids, valids := s.valids + s.spillbits,
      spillbits := 0 } fields := by
  have hlt := h.spill_lt hpos
  have hwide : 2 ^ s.spillbits ≤ 2 ^ (32 - s.valids) := Nat.pow_le_pow_right Nat.zero_lt_two (by omega)
  have hpour := h.pour (Nat.le_refl s.spillbits) hroom
    (by rw [Nat.mod_eq_of_lt hlt, Nat.mod_eq_of_lt (hlt.trans_le hwide)]) s.spill
    (fun habs => absurd habs (Nat.lt_irrefl _))
  rwa [Nat.sub_self] at hpour

theorem Reads.fillDescriptor (h : s.Reads fields) (hvalids : s.valids < 6)
    (hlt : s.valids < width fields) : s.fillDescriptor.Reads fields := by
  rw [Unpacker.fillDescriptor]
  split_ifs with hspill
  · have hbits := h.spillbits_le
    exact h.pour_all hspill (by omega)
  · exact h.getc (by omega) hlt

theorem Reads.fillDelta (h : s.Reads fields) (hvalids : s.valids < 32)
    (hlt : s.valids < width fields) : s.fillDelta.Reads fields := by
  rw [Unpacker.fillDelta]
  split_ifs with hspill hroom
  · exact h.pour_all hspill (by omega)
  · have hused : s.valids + (32 - s.valids) = 32 := by omega
    have hpour := h.pour (n := 32 - s.valids) (by omega) (by omega) rfl
      (shiftRight s.spill (32 - s.valids)) (fun _ => toNat_shiftRight _ (Nat.sub_le _ _))
    rwa [hused] at hpour
  · exact h.getc (by omega) hlt

/-- The next field is in the window, and the others are next when it is shifted out. -/
theorem Reads.shift (h : s.Reads ((n, v) :: fields)) (hv : v < 2 ^ n) (hn : n ≤ s.valids) :
    (s.window &&& setbits n).toNat = v ∧
      Reads { s with valids := s.valids - n, window := shiftRight s.window n } fields := by
  have hn32 : n ≤ 32 := hn.trans h.valids_le
  obtain ⟨hvalue, hrest⟩ := h.holds.take hv hn
  refine ⟨(toNat_and_setbits _ hn32).trans hvalue,
    ⟨(Nat.sub_le _ _).trans h.valids_le, h.spillbits_le, h.spill_lt⟩, ?_⟩
  exact holds_of hrest (toNat_shiftRight _ hn32) rfl rfl rfl rfl

/-- The descriptor of a chunk. -/
theorem Reads.describe {log i : Nat} (h : s.Reads ((3, log) :: (3, i) :: fields)) (hlog : log < 8)
    (hi : i < 8) (hvalids : 6 ≤ s.valids) :
    s.describe.1 = 2 ^ log ∧ s.describe.2.1 = i ∧ s.describe.2.2.Reads fields := by
  obtain ⟨hfirst, hrest⟩ := h.shift hlog (by omega)
  obtain ⟨hsecond, hrest⟩ := hrest.shift hi (by show 3 ≤ s.valids - 3; omega)
  refine ⟨?_, hsecond, hrest⟩
  show 1 <<< (s.window &&& setbits 3).toNat = 2 ^ log
  rw [hfirst, Nat.one_shiftLeft]

/-- A fitting delta of `n` bits is what it was. -/
theorem Reads.nextint {d : Int} (h : s.Reads ((n, (d % 2 ^ n).toNat) :: fields)) (hfit : d.bmod (2 ^ n) = d)
    (hn : n ≤ s.valids) :
    (s.nextint n).1 = d ∧ (s.nextint n).2.Reads fields ∧ (s.nextint n).2.img = s.img := by
  have hcast : (2 : Int) ^ n = (2 ^ n : Nat) := (Int.natCast_pow 2 n).symm
  have hpos : 0 < 2 ^ n := Nat.two_pow_pos n
  have hmod : 0 ≤ d % 2 ^ n ∧ d % 2 ^ n < 2 ^ n :=
    ⟨Int.emod_nonneg _ (by omega), Int.emod_lt_of_pos _ (by omega)⟩
  have hv : (d % 2 ^ n).toNat < 2 ^ n := by omega
  obtain ⟨hvalue, hrest⟩ := h.shift hv hn
  rw [Unpacker.nextint]
  split_ifs with hzero
  · subst hzero
    refine ⟨?_, ?_, rfl⟩
    · rw [← hfit, Nat.pow_zero, Int.bmod_one]
    · exact hrest
  · refine ⟨?_, hrest, rfl⟩
    have hni : (s.window &&& setbits n).toNat < 2 ^ n := hvalue.trans_lt hv
    refine (toInt_signExtend (by omega) (hn.trans h.valids_le) hni).trans ?_
    rw [hvalue, Int.toNat_of_nonneg hmod.1]
    calc (d % 2 ^ n).bmod (2 ^ n) = d.bmod (2 ^ n) := by
          rw [hcast, Int.emod_bmod]
      _ = d := hfit

end Unpacker

/-! ## Filling -/

/-- A loop that fills its bits until `n` are there goes on with a decoder that has them. -/
theorem exists_filled {α : Type*} {n : Nat} {fields : List Field} {p : Nat} {fill : Unpacker → Unpacker}
    {g : Unpacker → α}
    (hfill : ∀ s : Unpacker, s.Reads fields → s.valids < n →
      (fill s).Reads fields ∧ (fill s).gap < s.gap ∧ (fill s).pixel = s.pixel ∧ (fill s).img = s.img)
    (hloop : ∀ s : Unpacker, s.pixel = p → s.valids < n → g s = g (fill s))
    {s : Unpacker} (h : s.Reads fields) (hp : s.pixel = p) :
    ∃ s' : Unpacker, s'.Reads fields ∧ n ≤ s'.valids ∧ s'.pixel = s.pixel ∧ s'.img = s.img ∧
      g s = g s' := by
  induction hgap : s.gap using Nat.strong_induction_on generalizing s with
  | _ gap ih =>
    by_cases hlt : s.valids < n
    · obtain ⟨hreads, hless, hpixel, himg⟩ := hfill s h hlt
      obtain ⟨s', hreads', hvalids, hpixel', himg', heq⟩ :=
        ih _ (hgap ▸ hless) hreads (hpixel.trans hp) rfl
      exact ⟨s', hreads', hvalids, hpixel'.trans hpixel, himg'.trans himg, (hloop s hp hlt).trans heq⟩
    · exact ⟨s, h, Nat.le_of_not_lt hlt, rfl, rfl, rfl⟩

theorem Unpacker.img_getc (s : Unpacker) : s.getc.img = s.img := by
  rw [getc]
  split <;> rfl

theorem Unpacker.img_fillDelta (s : Unpacker) : s.fillDelta.img = s.img := by
  rw [fillDelta]
  split_ifs
  · rfl
  · rfl
  · exact s.img_getc

theorem Unpacker.img_fillDescriptor (s : Unpacker) : s.fillDescriptor.img = s.img := by
  rw [fillDescriptor]
  split_ifs
  · rfl
  · exact s.img_getc

/-! ## Pixels -/

/-- What the pixels before it say of the next one. -/
def predict (x : Nat) (done : List Int) : Int :=
  let at_ (i : Nat) : Int := done.getD i 0
  let p := done.length
  if x < p then (at_ (p - 1) + at_ (p - x + 1) + at_ (p - x) + at_ (p - x - 1) + 2).tdiv 4
  else if p ≠ 0 then at_ (p - 1)
  else 0

/-- The image that deltas make behind the pixels `done`. -/
def paint (x : Nat) (done : List Int) : List Int → List Int
  | [] => done
  | d :: ds => paint x (done ++ [asI16 (d + predict x done)]) ds

/-- The first pixels of the image are `done`, the others are still zero. -/
structure Painted (s : Unpacker) (done : List Int) (len : Nat) : Prop where
  img : s.img = done ++ List.replicate (len - done.length) 0
  pixel : s.pixel = done.length

variable {x total len i pixnum : Nat} {s : Unpacker} {done ds : List Int} {fields : List Field}

@[simp] theorem length_paint (x : Nat) (done ds : List Int) :
    (paint x done ds).length = done.length + ds.length := by
  induction ds generalizing done with
  | nil => rfl
  | cons d ds ih =>
    rw [paint, ih, List.length_append, List.length_cons, List.length_cons, List.length_nil]
    omega

theorem asI16_wrappingAdd (a b : Int) : asI16 (wrappingAdd a b) = asI16 (a + b) :=
  Int.bmod_bmod_of_dvd (by decide)

theorem Painted.getD (h : Painted s done len) (i : Nat) : s.img.getD i 0 = done.getD i 0 := by
  rw [h.img]
  by_cases hi : i < done.length
  · rw [List.getD_append _ _ _ _ hi]
  · rw [List.getD_append_right _ _ _ _ (by omega), List.getD_eq_default (l := done) _ (by omega)]
    rw [List.getD_eq_getElem?_getD, List.getElem?_replicate]
    split_ifs <;> rfl

theorem Painted.store (h : Painted s done len) (hlen : done.length < len) (d : Int) :
    Painted (s.store x d) (done ++ [asI16 (d + predict x done)]) len := by
  have hvalue : (s.store x d).img = s.img.set s.pixel (asI16 (d + predict x done)) := by
    rw [Unpacker.store, predict]
    simp only [h.getD, h.pixel]
    split_ifs with hx hp
    · rw [asI16_wrappingAdd]
    · rw [asI16_wrappingAdd, Int.add_comm]
    · rw [Int.add_zero]
  refine ⟨?_, ?_⟩
  · have hsplit : len - done.length = (len - (done.length + 1)) + 1 := by omega
    rw [hvalue, h.img, h.pixel, hsplit, List.replicate_succ, List.set_append_right _ _ (Nat.le_refl _),
      Nat.sub_self, List.set_cons_zero, List.append_assoc, List.singleton_append, List.length_append]
    rfl
  · rw [Unpacker.pixel_store, h.pixel, List.length_append]
    rfl

/-- The deltas of a chunk that are there become pixels, and the loop goes on behind them. -/
theorem deltas_reads (hread : s.Reads (ds.map (fun d => (bitdecode i, (d % 2 ^ bitdecode i).toNat)) ++ fields))
    (hfit : ∀ d ∈ ds, d.bmod (2 ^ bitdecode i) = d) (hds : ds.length ≤ pixnum)
    (hroom : done.length + ds.length ≤ total) (htotal : total ≤ len) (hpaint : Painted s done len) :
    ∃ s', s'.Reads fields ∧ Painted s' (paint x done ds) len ∧
      deltas x total i pixnum s = deltas x total i (pixnum - ds.length) s' := by
  induction ds generalizing s done pixnum with
  | nil => exact ⟨s, hread, hpaint, rfl⟩
  | cons d ds ih =>
    rw [List.map_cons, List.cons_append] at hread
    rw [List.length_cons] at hds hroom
    have hwide : bitdecode i ≤ 32 := bitdecode_le i
    have hin : 0 < pixnum ∧ s.pixel < total := ⟨by omega, by rw [hpaint.pixel]; omega⟩
    obtain ⟨t, htread, htvalids, htpixel, htimg, hteq⟩ :=
      exists_filled (g := deltas x total i pixnum) (p := s.pixel) (n := bitdecode i)
        (fun u hu hlt => ⟨hu.fillDelta (by omega) (by rw [width_cons]; exact Nat.lt_add_right _ hlt),
          Unpacker.gap_fillDelta (by omega), u.pixel_fillDelta, u.img_fillDelta⟩)
        (fun u hu hlt => by rw [deltas, hu, if_pos hin, if_pos hlt]) hread rfl
    obtain ⟨hnext, hrest, himg⟩ := htread.nextint (hfit d List.mem_cons_self) htvalids
    have hpaint' : Painted (t.nextint (bitdecode i)).2 done len :=
      ⟨himg.trans (htimg.trans hpaint.img), (t.pixel_nextint _).trans (htpixel.trans hpaint.pixel)⟩
    have hstep : deltas x total i pixnum t =
        deltas x total i (pixnum - 1) ((t.nextint (bitdecode i)).2.store x d) := by
      rw [deltas, htpixel, if_pos hin, if_neg (Nat.not_lt.2 htvalids)]
      simp only [hnext]
    have hread' : Unpacker.Reads ((t.nextint (bitdecode i)).2.store x d)
        (ds.map (fun d => (bitdecode i, (d % 2 ^ bitdecode i).toNat)) ++ fields) :=
      ⟨⟨hrest.valids_le, hrest.spillbits_le, hrest.spill_lt⟩, hrest.holds⟩
    have hless : ds.length ≤ pixnum - 1 := by omega
    obtain ⟨s', hs', hpaint'', heq⟩ := ih hread' (fun d hd => hfit d (List.mem_cons_of_mem _ hd)) hless (by rw [List.length_append, List.length_singleton]; omega)
      (hpaint'.store (by omega) d)
    refine ⟨s', hs', hpaint'', ?_⟩
    rw [hteq, hstep, heq, Nat.sub_sub, Nat.add_comm, List.length_cons]

/-! ## What the loops leave alone -/

/-- Pixels before the current one stay, and so does the rest of the buffer. -/
structure Keeps (total : Nat) (s s' : Unpacker) : Prop where
  front : s'.img.take s.pixel = s.img.take s.pixel
  back : s'.img.drop total = s.img.drop total
  length : s'.img.length = s.img.length
  pixel_le : s.pixel ≤ s'.pixel

theorem Keeps.refl (s : Unpacker) : Keeps total s s := ⟨rfl, rfl, rfl, Nat.le_refl _⟩

theorem Keeps.trans {s' s'' : Unpacker} (h : Keeps total s s') (h' : Keeps total s' s'') :
    Keeps total s s'' := by
  refine ⟨?_, h'.back.trans h.back, h'.length.trans h.length, h.pixel_le.trans h'.pixel_le⟩
  have hfront := congrArg (List.take s.pixel) h'.front
  rw [List.take_take, List.take_take, Nat.min_eq_left h.pixel_le] at hfront
  exact hfront.trans h.front

theorem Keeps.of_eq {s' : Unpacker} (himg : s'.img = s.img) (hpixel : s'.pixel = s.pixel) :
    Keeps total s s' := ⟨by rw [himg], by rw [himg], by rw [himg], hpixel.ge⟩

theorem keeps_store (hlt : s.pixel < total) (d : Int) : Keeps total s (s.store x d) := by
  refine ⟨?_, ?_, List.length_set, Nat.le_succ _⟩
  · show (s.img.set s.pixel _).take s.pixel = _
    rw [List.take_set_of_le (Nat.le_refl _)]
  · show (s.img.set s.pixel _).drop total = _
    rw [List.drop_set_of_lt hlt]

theorem keeps_nextint (n : Nat) (s : Unpacker) : Keeps total s (s.nextint n).2 := by
  refine Keeps.of_eq ?_ (s.pixel_nextint n)
  rw [Unpacker.nextint]
  split_ifs <;> rfl

theorem keeps_deltas (x total i pixnum : Nat) (s : Unpacker) :
    Keeps total s (deltas x total i pixnum s) := by
  induction pixnum, s using deltas.induct x total i with
  | case1 pixnum s h hlt ih =>
    rw [deltas, if_pos h, if_pos hlt]
    exact (Keeps.of_eq s.img_fillDelta s.pixel_fillDelta).trans ih
  | case2 pixnum s h hlt next ih =>
    rw [deltas, if_pos h, if_neg hlt]
    have hpixel : (s.nextint (bitdecode i)).2.pixel < total := by
      rw [Unpacker.pixel_nextint]
      exact h.2
    exact ((keeps_nextint _ s).trans (keeps_store hpixel _)).trans ih
  | case3 pixnum s h =>
    rw [deltas, if_neg h]
    exact Keeps.refl s

theorem keeps_unpackWord (x total : Nat) (s : Unpacker) : Keeps total s (unpackWord x total s) := by
  induction s using unpackWord.induct x total with
  | case1 s h hlt ih =>
    rw [unpackWord, if_pos h, if_pos hlt]
    exact (Keeps.of_eq s.img_fillDescriptor s.pixel_fillDescriptor).trans ih
  | case2 s h hlt chunk ih =>
    rw [unpackWord, if_pos h, if_neg hlt]
    have hdescribe : Keeps total s s.describe.2.2 := Keeps.of_eq rfl rfl
    exact (hdescribe.trans (keeps_deltas _ _ _ _ _)).trans ih
  | case3 s h =>
    rw [unpackWord, if_neg h]
    exact Keeps.refl s

end Mar345
