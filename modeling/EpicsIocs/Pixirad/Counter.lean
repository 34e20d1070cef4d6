import EpicsIocs.Lib.Lfsr
import EpicsIocs.Lib.Scatter
import EpicsIocs.Pixirad.Assembler
import Mathlib.Data.List.Range
import Mathlib.Tactic.NormNum.Prime

/-! # Pulse counts from counter states

A pixel counts with a shift register, and the conversion tables of `decode.rs` go from the
state of the register back to the number of pulses.

    table[state after n pulses] = n      for n ≤ 32766     (conversionTable_pulses)

The registers have 15 bits and come round after 32767 pulses, one state short of all. -/

namespace Pixirad

open Scatter

/-! ## The tables -/

def conversionTableDepth : Nat := 32768
def psCounterWidth : Nat := 15
def piiiPrandom15bitsB0 : Nat := 13
def piiiPrandom15bitsB1 : Nat := 14
def piiiPrandom07bitsB0 : Nat := 5
def piiiPrandom07bitsB1 : Nat := 6

def piiNext (state : Nat) : Nat :=
  let bit1 := (state >>> 14) &&& 1
  let bit2 := (state >>> 6) &&& 1
  let feedback := 1 - (bit1 ^^^ bit2)
  (state * 2 + feedback) % (1 <<< psCounterWidth)

/-- The states are below the depth, so every index is in the table. -/
def piiConversionTable : List Nat :=
  let filled := (List.range' 1 (conversionTableDepth - 1)).foldl
    (fun (table, state) i => (table.set (piiNext state) i, piiNext state))
    (List.replicate conversionTableDepth 0, 0)
  filled.1.set 0 0

def piiiNext (bit0 bit1 mask state : Nat) : Nat :=
  let b := if state &&& (1 <<< bit0) ≠ 0 then 1 else 0
  let b := if state &&& (1 <<< bit1) ≠ 0 then b + 2 else b
  (state * 2 + [1, 0, 0, 1].getD b 0) &&& mask

/-- Pulses to states. -/
def piiiForward (codeDepth : Nat) : List Nat :=
  let bits := if codeDepth = 15 then (piiiPrandom15bitsB0, piiiPrandom15bitsB1)
    else (piiiPrandom07bitsB0, piiiPrandom07bitsB1)
  let mask := (1 <<< codeDepth) - 1
  ((List.range (min mask (conversionTableDepth - 1))).foldl
    (fun (table, state) i =>
      (table.set (i + 1) (piiiNext bits.1 bits.2 mask state), piiiNext bits.1 bits.2 mask state))
    (List.replicate conversionTableDepth 0, 0)).1

/-- States to pulses. -/
def piiiConversionTable (codeDepth : Nat) : List Nat :=
  let forward := piiiForward codeDepth
  let table := forward.zipIdx.foldl
    (fun table (state, i) => table.set (state % conversionTableDepth) i) forward
  table.set 0 0

def conversionTable (asic : Asic) (bitPerCntStd : Nat) : List Nat :=
  match asic with
  | .pii => piiConversionTable
  | .piii => piiiConversionTable bitPerCntStd

/-! ## The registers -/

/-- The bit that is fed back beside the highest. -/
def Asic.tap : Asic → Nat
  | .pii => 6
  | .piii => 13

/-- The state of a pixel's register after so many pulses. -/
def chipState (asic : Asic) (pulses : Nat) : Nat := (Lfsr.step psCounterWidth asic.tap)^[pulses] 0

theorem chipState_lt (asic : Asic) (pulses : Nat) : chipState asic pulses < 2 ^ psCounterWidth := by
  cases pulses with
  | zero => exact Nat.two_pow_pos _
  | succ n =>
    rw [chipState, Function.iterate_succ_apply']
    exact Lfsr.step_lt _ _ _

theorem chipState_succ (asic : Asic) (pulses : Nat) :
    chipState asic (pulses + 1) = Lfsr.step psCounterWidth asic.tap (chipState asic pulses) :=
  Function.iterate_succ_apply' _ _ _

/-- After 32767 pulses both registers are back at zero, and not after a seventh, a 31st or a
151st of them. -/
theorem run_period : ∀ asic : Asic,
    (Lfsr.table psCounterWidth asic.tap).run 15 32767 0 = 0 ∧
      (Lfsr.table psCounterWidth asic.tap).run 15 4681 0 ≠ 0 ∧
      (Lfsr.table psCounterWidth asic.tap).run 15 1057 0 ≠ 0 ∧
      (Lfsr.table psCounterWidth asic.tap).run 15 217 0 ≠ 0 := by
  intro asic
  cases asic <;> decide +kernel

theorem run_chipState (asic : Asic) {n : Nat} (hn : n < 2 ^ 15) :
    (Lfsr.table psCounterWidth asic.tap).run 15 n 0 = chipState asic n :=
  Lfsr.Table.run_eq (Lfsr.table_represents _ _) 15 hn (Nat.two_pow_pos _)

theorem chipState_round (asic : Asic) : chipState asic 32767 = 0 := by
  obtain ⟨hround, -⟩ := run_period asic
  rw [← run_chipState asic (by decide), hround]

theorem chipState_injOn (asic : Asic) : Set.InjOn (chipState asic) (Set.Iio 32767) := by
  obtain ⟨-, h7, h31, h151⟩ := run_period asic
  rw [run_chipState asic (by decide)] at h7 h31 h151
  apply Lfsr.injOn_of_period (chipState_round asic)
  intro p hp hdvd
  have hfactors : p ∣ 7 * (31 * 151) := hdvd
  have hprimes : p = 7 ∨ p = 31 ∨ p = 151 := by
    rw [hp.dvd_mul, hp.dvd_mul, Nat.prime_dvd_prime_iff_eq hp (by norm_num),
      Nat.prime_dvd_prime_iff_eq hp (by norm_num), Nat.prime_dvd_prime_iff_eq hp (by norm_num)]
      at hfactors
    exact hfactors
  obtain rfl | rfl | rfl := hprimes
  · exact h7
  · exact h31
  · exact h151

/-- No state but that of no pulses is seen twice. -/
theorem chipState_unique {asic : Asic} {n i : Nat} (hn : n < 32767) (hpos : 0 < n) (hi : i ≤ 32767)
    (h : chipState asic i = chipState asic n) : i = n := by
  by_cases hlt : i < 32767
  · exact chipState_injOn asic hlt hn h
  · obtain rfl : i = 32767 := by omega
    have hzero : chipState asic 0 = chipState asic n := (chipState_round asic).symm.trans h
    have heq := chipState_injOn asic (Set.mem_Iio.2 (by omega)) hn hzero
    omega

theorem bit_toNat (n i : Nat) : (n >>> i) &&& 1 = (n.testBit i).toNat := by
  rw [Nat.and_one_is_mod, Nat.shiftRight_eq_div_pow, Nat.testBit_eq_decide_div_mod_eq]
  obtain hmod | hmod := Nat.mod_two_eq_zero_or_one (n / 2 ^ i)
  · rw [hmod]
    rfl
  · rw [hmod]
    rfl

theorem piiNext_eq (state : Nat) : piiNext state = Lfsr.step psCounterWidth Asic.pii.tap state := by
  have hfeedback : ∀ a b : Bool, 1 - (a.toNat ^^^ b.toNat) = (a == b).toNat := by decide
  simp only [piiNext, bit_toNat, hfeedback]
  rw [Nat.mul_comm state 2, Nat.one_shiftLeft]
  rfl

theorem and_one_shiftLeft (n i : Nat) : n &&& (1 <<< i) ≠ 0 ↔ n.testBit i = true := by
  rw [Nat.one_shiftLeft, Nat.and_two_pow]
  cases n.testBit i with
  | true => simp
  | false => simp

theorem piiiNext_eq (state : Nat) :
    piiiNext piiiPrandom15bitsB0 piiiPrandom15bitsB1 ((1 <<< 15) - 1) state =
      Lfsr.step psCounterWidth Asic.piii.tap state := by
  unfold piiiNext
  simp only [and_one_shiftLeft]
  rw [Nat.one_shiftLeft, Nat.and_two_pow_sub_one_eq_mod, Nat.mul_comm state 2]
  show _ = (2 * state + (state.testBit 14 == state.testBit 13).toNat) % 2 ^ 15
  congr 2
  show [1, 0, 0, 1].getD (if state.testBit 14 = true then (if state.testBit 13 = true then 1 else 0) + 2
    else if state.testBit 13 = true then 1 else 0) 0 = _
  cases state.testBit 14 <;> cases state.testBit 13 <;> rfl

/-! ## What the tables hold -/

/-- A table with a write for every state but zero's, of its own number of pulses. -/
theorem inverted {asic : Asic} {table : List Nat} {writes : List (Nat × Nat)}
    (hlen : table.length = conversionTableDepth)
    (hmem : ∀ n, 0 < n → n < 32767 → (chipState asic n, n) ∈ writes)
    (hall : ∀ i v, (i, v) ∈ writes → v ≤ 32767 ∧ i = chipState asic v) {n : Nat} (hn : n < 32767) :
    ((scatter table writes).set 0 0)[chipState asic n]? = some n := by
  have hlt : chipState asic n < conversionTableDepth := chipState_lt asic n
  by_cases hpos : 0 < n
  · have hne : 0 ≠ chipState asic n := by
      intro hzero
      have h0 : chipState asic 0 = chipState asic n := hzero
      have heq := chipState_unique hn hpos (Nat.zero_le _) h0
      omega
    rw [List.getElem?_set_ne hne]
    apply getElem?_scatter (by rw [hlen]; exact hlt) (hmem n hpos hn)
    intro v hv
    obtain ⟨hle, hstate⟩ := hall _ v hv
    exact chipState_unique hn hpos hle hstate.symm
  · obtain rfl : n = 0 := by omega
    show ((scatter table writes).set 0 0)[0]? = some 0
    rw [List.getElem?_set_self]
    rw [length_scatter, hlen]
    decide

/-- The loops over the register are lists of writes. -/
theorem foldl_register {asic : Asic} {next : Nat → Nat}
    (hnext : ∀ state, next state = Lfsr.step psCounterWidth asic.tap state)
    (write : Nat → Nat → Nat × Nat) (k a n : Nat) (table : List Nat) :
    (List.range' a k).foldl
        (fun (s : List Nat × Nat) i =>
          (s.1.set (write i (next s.2)).1 (write i (next s.2)).2, next s.2))
        (table, chipState asic n) =
      (scatter table ((List.range k).map fun d => write (a + d) (chipState asic (n + d + 1))),
        chipState asic (n + k)) := by
  induction k generalizing a n table with
  | zero => rfl
  | succ k ih =>
    have hstate : next (chipState asic n) = chipState asic (n + 1) := by
      rw [hnext, chipState_succ]
    have hshift : (fun d => write (a + d) (chipState asic (n + d + 1))) ∘ Nat.succ =
        fun d => write (a + 1 + d) (chipState asic (n + 1 + d + 1)) := by
      funext d
      show write (a + (d + 1)) (chipState asic (n + (d + 1) + 1)) = _
      have ha : a + (d + 1) = a + 1 + d := by omega
      have hn : n + (d + 1) = n + 1 + d := by omega
      rw [ha, hn]
    rw [List.range'_succ, List.foldl_cons, List.range_succ_eq_map, List.map_cons, List.map_map,
      hshift]
    dsimp only
    rw [hstate, ih, Nat.add_right_comm, Nat.add_assoc n k 1]
    rfl

theorem piiConversionTable_eq : piiConversionTable =
    (scatter (List.replicate conversionTableDepth 0)
      ((List.range (conversionTableDepth - 1)).map fun d => (chipState .pii (d + 1), 1 + d))).set
        0 0 := by
  have hloop := foldl_register piiNext_eq (fun i state => (state, i)) (conversionTableDepth - 1) 1 0
    (List.replicate conversionTableDepth 0)
  simp only [Nat.zero_add] at hloop
  have hstart : chipState .pii 0 = 0 := rfl
  rw [hstart] at hloop
  rw [piiConversionTable, hloop]

theorem piiiForward_writes : piiiForward 15 = scatter (List.replicate conversionTableDepth 0)
    ((List.range (conversionTableDepth - 1)).map fun d => (d + 1, chipState .piii (d + 1))) := by
  have hcount : min ((1 <<< 15) - 1) (conversionTableDepth - 1) = conversionTableDepth - 1 := by
    decide
  have hloop := foldl_register piiiNext_eq (fun i state => (i + 1, state))
    (min ((1 <<< 15) - 1) (conversionTableDepth - 1)) 0 0 (List.replicate conversionTableDepth 0)
  have hfirst := congrArg Prod.fst hloop
  rw [← List.range_eq_range'] at hfirst
  rw [piiiForward]
  refine hfirst.trans ?_
  rw [hcount]
  simp only [Nat.zero_add]

theorem piiiForward_eq :
    piiiForward 15 = (List.range conversionTableDepth).map (chipState .piii) := by
  rw [piiiForward_writes]
  apply List.ext_getElem?
  intro n
  by_cases hn : n < conversionTableDepth
  · rw [List.getElem?_map, List.getElem?_range hn, Option.map_some]
    by_cases hpos : 0 < n
    · have hpred : n - 1 + 1 = n := by omega
      apply getElem?_scatter (by rw [List.length_replicate]; exact hn)
      · refine List.mem_map.2 ⟨n - 1, ?_, by rw [hpred]⟩
        rw [List.mem_range]
        omega
      · intro v hv
        obtain ⟨i, hi, heq⟩ := List.mem_map.1 hv
        obtain ⟨rfl, rfl⟩ := Prod.mk.inj heq
        rfl
    · obtain rfl : n = 0 := by omega
      have hheld : (List.replicate conversionTableDepth 0)[0]? = some (chipState .piii 0) := by
        rw [List.getElem?_replicate_of_lt hn]
        rfl
      apply getElem?_scatter_of_held hheld
      intro v hv
      obtain ⟨i, hi, heq⟩ := List.mem_map.1 hv
      cases heq
  · rw [List.getElem?_eq_none, List.getElem?_eq_none]
    · rw [List.length_map, List.length_range]
      omega
    · rw [length_scatter, List.length_replicate]
      omega

theorem piiiConversionTable_eq : piiiConversionTable 15 =
    (scatter (piiiForward 15)
      ((List.range conversionTableDepth).map fun i => (chipState .piii i, i))).set 0 0 := by
  have hzip : (piiiForward 15).zipIdx =
      (List.range conversionTableDepth).map fun i => (chipState .piii i, i) := by
    rw [piiiForward_eq]
    apply List.ext_getElem?
    intro n
    rw [List.getElem?_zipIdx, List.getElem?_map, List.getElem?_map, Option.map_map]
    by_cases hn : n < conversionTableDepth
    · rw [List.getElem?_range hn]
      simp
    · rw [List.getElem?_eq_none (by rw [List.length_range]; omega)]
      rfl
  rw [piiiConversionTable, hzip, scatter, List.foldl_map, List.foldl_map]
  refine congrArg (fun table : List Nat => table.set 0 0) ?_
  apply List.foldl_ext
  intro table i hi
  have hlt : chipState .piii i < conversionTableDepth := chipState_lt .piii i
  exact congrArg (fun state => table.set state i) (Nat.mod_eq_of_lt hlt)

theorem conversionTable_length (asic : Asic) :
    (conversionTable asic 15).length = conversionTableDepth := by
  cases asic with
  | pii =>
    show piiConversionTable.length = _
    rw [piiConversionTable_eq, List.length_set, length_scatter, List.length_replicate]
  | piii =>
    show (piiiConversionTable 15).length = _
    rw [piiiConversionTable_eq, List.length_set, length_scatter, piiiForward_eq, List.length_map,
      List.length_range]

/-- The tables undo the registers. -/
theorem conversionTable_pulses (asic : Asic) {n : Nat} (hn : n < 32767) :
    (conversionTable asic 15)[chipState asic n]? = some n := by
  cases asic with
  | pii =>
    show piiConversionTable[_]? = _
    rw [piiConversionTable_eq]
    apply inverted List.length_replicate _ _ hn
    · intro n hpos hn
      have hpred : n - 1 + 1 = n := by omega
      have hlt : n - 1 < conversionTableDepth - 1 :=
        lt_of_lt_of_le (by omega : n - 1 < 32766) (by decide)
      exact List.mem_map.2 ⟨n - 1, List.mem_range.2 hlt, by rw [Nat.add_comm 1, hpred]⟩
    · intro i v hv
      obtain ⟨j, hj, heq⟩ := List.mem_map.1 hv
      obtain ⟨rfl, rfl⟩ := Prod.mk.inj heq
      have hlt : j < 32767 := List.mem_range.1 hj
      exact ⟨by omega, by rw [Nat.add_comm 1]⟩
  | piii =>
    show (piiiConversionTable 15)[_]? = _
    have hlen : (piiiForward 15).length = conversionTableDepth := by
      rw [piiiForward_eq, List.length_map, List.length_range]
    rw [piiiConversionTable_eq]
    apply inverted hlen _ _ hn
    · intro n hpos hn
      have hlt : n < conversionTableDepth := hn.trans (by decide)
      exact List.mem_map.2 ⟨n, List.mem_range.2 hlt, rfl⟩
    · intro i v hv
      obtain ⟨j, hj, heq⟩ := List.mem_map.1 hv
      obtain ⟨rfl, rfl⟩ := Prod.mk.inj heq
      exact ⟨Nat.le_of_lt_succ (List.mem_range.1 hj), rfl⟩

end Pixirad
