import EpicsIocs.Lib.Machine
import Mathlib.Data.List.Forall2
import Mathlib.Data.List.GetD

/-! # The exact sum of the last frames

`RollingWindowSum` as `window.rs` has it, on a 64-bit `usize`.  Arithmetic is
checked: a function that would panic (a `u64` subtraction below zero, an addition
past `u64::MAX`, an index out of range) returns `none`.  `alloc` is the answer of
`try_reserve_exact`.

`columns n frames` is the re-summation.  `Wf` says that the incremental sum equals
it and that the window keeps its limits; `configure_spec` and `push_spec` say that
no function panics on such a window and what it does. -/

namespace TimePix

open Machine

/-! ## Model -/

inductive RollingSumStatus where
  | ok
  | invalidArgument
  | sizeOverflow
  | budgetTooSmall
  | allocationFailure
  | frameSizeMismatch
  | numericOverflow
  deriving DecidableEq, Repr

structure Configuration where
  status : RollingSumStatus
  requestedFrames : Nat
  effectiveFrames : Nat
  elementCount : Nat
  budgetBytes : Nat
  requiredBytes : Nat
  limited : Bool
  deriving DecidableEq, Repr

abbrev Frame := List UInt32

/-- `s += v` over the zip of the two. -/
def addEach : List Nat → Frame → Option (List Nat)
  | s :: sum, v :: values => do
    let s ← checkedAdd s v.toNat
    let sum ← addEach sum values
    some (s :: sum)
  | sum, [] => some sum
  | [], _ => some []

/-- `s -= v` over the zip of the two. -/
def subEach : List Nat → Frame → Option (List Nat)
  | s :: sum, v :: values => do
    let s ← checkedSub s v.toNat
    let sum ← subEach sum values
    some (s :: sum)
  | sum, [] => some sum
  | [], _ => some []

/-- `any` stops at the first element that would not fit.  `oldest[i]` may be out of
range. -/
def overflows : List Nat → Frame → Option Frame → Option Bool
  | s :: sum, v :: next, none =>
    match checkedAdd s v.toNat with
    | none => some true
    | some _ => overflows sum next none
  | s :: sum, v :: next, some (o :: oldest) => do
    let base ← checkedSub s o.toNat
    match checkedAdd base v.toNat with
    | none => some true
    | some _ => overflows sum next (some oldest)
  | _ :: _, _ :: _, some [] => none
  | _, _, _ => some false

structure RollingWindowSum where
  elementCount : Nat
  requestedFrames : Nat
  effectiveFrames : Nat
  budgetBytes : Nat
  sum : List Nat
  frames : List Frame
  deriving DecidableEq, Repr

namespace RollingWindowSum

def default : RollingWindowSum where
  elementCount := 0
  requestedFrames := 0
  effectiveFrames := 0
  budgetBytes := 0
  sum := []
  frames := []

def configured (w : RollingWindowSum) : Bool := 0 < w.effectiveFrames && !w.sum.isEmpty

def frameCount (w : RollingWindowSum) : Nat := w.frames.length

def evictOldest (w : RollingWindowSum) : Option RollingWindowSum :=
  match w.frames with
  | [] => some w
  | oldest :: frames => do
    let sum ← subEach w.sum oldest
    some { w with sum, frames }

/-- `while self.frames.len() > self.effective_frames`, for at most `fuel` rounds. -/
def evictWhile (w : RollingWindowSum) : Nat → Option RollingWindowSum
  | 0 => some w
  | fuel + 1 =>
    if w.frames.length > w.effectiveFrames then do
      let w ← w.evictOldest
      w.evictWhile fuel
    else some w

/-- The sizes `configure` works out before it allocates: the effective frames and the
bytes required, or the status and bytes of its refusal. -/
def sizes (elementCount requestedFrames budgetBytes : Nat) :
    Except (RollingSumStatus × Nat) (Nat × Nat) :=
  if elementCount = 0 ∨ requestedFrames = 0 ∨ budgetBytes = 0 then .error (.invalidArgument, 0)
  else
    match checkedMul elementCount 8, checkedMul elementCount 4 with
    | some sumBytes, some frameBytes =>
      match checkedAdd sumBytes frameBytes with
      | none => .error (.sizeOverflow, 0)
      | some minimum =>
        if budgetBytes < minimum then .error (.budgetTooSmall, minimum)
        else
          let effectiveFrames := min requestedFrames ((budgetBytes - sumBytes) / frameBytes)
          match (checkedMul effectiveFrames frameBytes).bind (checkedAdd · sumBytes) with
          | none => .error (.sizeOverflow, 0)
          | some required => .ok (effectiveFrames, required)
    | _, _ => .error (.sizeOverflow, 0)

/-- `configure` allocates a new sum for a new geometry only. -/
def Fresh (w : RollingWindowSum) (elementCount : Nat) : Prop :=
  w.elementCount ≠ elementCount ∨ w.sum.length ≠ elementCount

instance (w : RollingWindowSum) (elementCount : Nat) : Decidable (w.Fresh elementCount) :=
  inferInstanceAs (Decidable (_ ∨ _))

/-- What `configure` sets before it evicts. -/
def grant (w : RollingWindowSum) (elementCount requestedFrames effectiveFrames budgetBytes : Nat) :
    RollingWindowSum :=
  let w := if w.Fresh elementCount then
      { w with frames := [], sum := List.replicate elementCount 0, elementCount }
    else w
  { w with requestedFrames, effectiveFrames, budgetBytes }

def configure (w : RollingWindowSum) (elementCount requestedFrames budgetBytes : Nat)
    (alloc : Bool) : Option (Configuration × RollingWindowSum) :=
  let fail (status : RollingSumStatus) (requiredBytes : Nat) :
      Option (Configuration × RollingWindowSum) :=
    some (⟨status, requestedFrames, 0, elementCount, budgetBytes, requiredBytes, false⟩, .default)
  match sizes elementCount requestedFrames budgetBytes with
  | .error (status, requiredBytes) => fail status requiredBytes
  | .ok (effectiveFrames, requiredBytes) =>
    if w.Fresh elementCount ∧ alloc = false then fail .allocationFailure requiredBytes
    else do
      let w := w.grant elementCount requestedFrames effectiveFrames budgetBytes
      let w ← w.evictWhile w.frames.length
      some (⟨.ok, requestedFrames, effectiveFrames, elementCount, budgetBytes, requiredBytes,
        effectiveFrames < requestedFrames⟩, w)

def push (w : RollingWindowSum) (values : Frame) (alloc : Bool) :
    Option (RollingSumStatus × RollingWindowSum) :=
  if values.length ≠ w.elementCount ∨ w.configured = false then some (.frameSizeMismatch, w)
  else if alloc = false then some (.allocationFailure, w)
  else
    let evict := w.frames.length = w.effectiveFrames
    -- `frames[0]` of a window without frames would panic.
    (if evict then w.frames.head?.map some else some none).bind fun oldest =>
    (overflows w.sum values oldest).bind fun overflows =>
    if overflows then some (.numericOverflow, w)
    else
      (if evict then w.evictOldest else some w).bind fun w =>
      (addEach w.sum values).map fun sum =>
      (.ok, { w with sum, frames := w.frames ++ [values] })

/-- Drops the frames and zeroes the sum; the configuration stays. -/
def reset (w : RollingWindowSum) : RollingWindowSum :=
  { w with frames := [], sum := w.sum.map fun _ => 0 }

end RollingWindowSum

/-! ## Re-summation -/

/-- Element `i` summed over the frames. -/
def column (frames : List Frame) (i : Nat) : Nat := (frames.map fun f => (f.getD i 0).toNat).sum

def columns (n : Nat) (frames : List Frame) : List Nat := (List.range n).map (column frames)

@[simp] theorem column_nil (i : Nat) : column [] i = 0 := rfl

@[simp] theorem column_cons (f : Frame) (frames : List Frame) (i : Nat) :
    column (f :: frames) i = (f.getD i 0).toNat + column frames i := by
  simp [column]

@[simp] theorem column_append (frames frames' : List Frame) (i : Nat) :
    column (frames ++ frames') i = column frames i + column frames' i := by
  simp [column]

@[simp] theorem length_columns (n : Nat) (frames : List Frame) :
    (columns n frames).length = n := by
  simp [columns]

theorem columns_nil (n : Nat) : columns n [] = List.replicate n 0 := by
  refine List.ext_getElem (by simp) fun i hi hi' => ?_
  simp [columns]

/-- Frames of `k` add up to less than `k * 2 ^ 32` in each element. -/
theorem column_lt (frames : List Frame) (i : Nat) :
    column frames i ≤ frames.length * (2 ^ 32 - 1) := by
  induction frames with
  | nil => simp
  | cons f frames ih =>
    have := (f.getD i 0).toNat_lt
    rw [column_cons, List.length_cons]
    omega

/-- Adding the newest frame. -/
theorem zipWith_add_columns {n : Nat} {f : Frame} (hf : f.length = n) (frames : List Frame) :
    (columns n frames).zipWith (fun s v => s + v.toNat) f = columns n (frames ++ [f]) := by
  refine List.ext_getElem (by simp [hf]) fun i hi hi' => ?_
  have hif : i < f.length := by simp at hi'; omega
  simp [columns, List.getElem?_eq_getElem hif]

/-- Taking the oldest frame away. -/
theorem zipWith_sub_columns {n : Nat} {f : Frame} (hf : f.length = n) (frames : List Frame) :
    (columns n (f :: frames)).zipWith (fun s v => s - v.toNat) f = columns n frames := by
  refine List.ext_getElem (by simp [hf]) fun i hi hi' => ?_
  have hif : i < f.length := by simp at hi'; omega
  simp [columns, List.getElem?_eq_getElem hif]

theorem forall₂_le_columns {n : Nat} {f : Frame} (hf : f.length = n) (frames : List Frame) :
    List.Forall₂ (fun s v => v.toNat ≤ s) (columns n (f :: frames)) f := by
  rw [List.forall₂_iff_get]
  refine ⟨by simp [hf], fun i hi hi' => ?_⟩
  have hif : i < f.length := hi'
  simp [columns, List.getElem?_eq_getElem hif]

/-- No element of so few frames comes near `u64::MAX`. -/
theorem forall₂_fit_columns {n : Nat} {frames : List Frame} (hfew : frames.length ≤ 2 ^ 20)
    {values : Frame} (hlen : values.length = n) :
    List.Forall₂ (fun s v => s + v.toNat ≤ u64Max) (columns n frames) values := by
  rw [List.forall₂_iff_get]
  refine ⟨by simp [hlen], fun i hi hi' => ?_⟩
  have hcolumn := column_lt frames i
  have hv := (values.get ⟨i, hi'⟩).toNat_lt
  have hmul := Nat.mul_le_mul_right (2 ^ 32 - 1) hfew
  simp only [columns, List.get_eq_getElem, List.getElem_map, List.getElem_range] at hcolumn hv ⊢
  unfold u64Max
  omega

theorem addEach_eq {sum : List Nat} {values : Frame}
    (h : List.Forall₂ (fun s v => s + v.toNat ≤ u64Max) sum values) :
    addEach sum values = some (sum.zipWith (fun s v => s + v.toNat) values) := by
  induction h with
  | nil => rfl
  | cons hfit _ ih => simp [addEach, checkedAdd, hfit, ih]

theorem subEach_eq {sum : List Nat} {values : Frame}
    (h : List.Forall₂ (fun s v => v.toNat ≤ s) sum values) :
    subEach sum values = some (sum.zipWith (fun s v => s - v.toNat) values) := by
  induction h with
  | nil => rfl
  | cons hle _ ih => simp [subEach, checkedSub, hle, ih]

theorem overflows_none_eq {sum : List Nat} {next : Frame}
    (h : List.Forall₂ (fun s v => s + v.toNat ≤ u64Max) sum next) :
    overflows sum next none = some false := by
  induction h with
  | nil => rfl
  | cons hfit _ ih => simp [overflows, checkedAdd, hfit, ih]

theorem overflows_some_eq {sum : List Nat} {next oldest : Frame}
    (hfit : List.Forall₂ (fun s v => s + v.toNat ≤ u64Max) sum next)
    (hle : List.Forall₂ (fun s o => o.toNat ≤ s) sum oldest) :
    overflows sum next (some oldest) = some false := by
  induction hfit generalizing oldest with
  | nil => cases hle; rfl
  | cons hfit _ ih =>
    cases hle with
    | cons hle hrest =>
      have hbase : ∀ o v s : Nat, s + v ≤ u64Max → s - o + v ≤ u64Max := by omega
      simp [overflows, checkedAdd, checkedSub, hle, hbase _ _ _ hfit, ih hrest]

/-! ## The window's invariant -/

namespace RollingWindowSum

/-- The window with these frames and their sum. -/
def holding (w : RollingWindowSum) (frames : List Frame) : RollingWindowSum :=
  { w with sum := columns w.elementCount frames, frames }

@[simp] theorem holding_frames (w : RollingWindowSum) (frames : List Frame) :
    (w.holding frames).frames = frames := rfl

@[simp] theorem holding_elementCount (w : RollingWindowSum) (frames : List Frame) :
    (w.holding frames).elementCount = w.elementCount := rfl

@[simp] theorem holding_sum (w : RollingWindowSum) (frames : List Frame) :
    (w.holding frames).sum = columns w.elementCount frames := rfl

/-- What a configured window keeps. -/
structure Wf (w : RollingWindowSum) : Prop where
  element_pos : 0 < w.elementCount
  sum_eq : w.sum = columns w.elementCount w.frames
  length_eq : ∀ f ∈ w.frames, f.length = w.elementCount
  effective_pos : 0 < w.effectiveFrames
  effective_le : w.effectiveFrames ≤ w.requestedFrames
  frames_le : w.frames.length ≤ w.effectiveFrames
  fits : 8 * w.elementCount + w.effectiveFrames * (4 * w.elementCount) ≤ w.budgetBytes

theorem eq_holding {w : RollingWindowSum} (h : w.sum = columns w.elementCount w.frames) :
    w = w.holding w.frames := by
  rw [holding, ← h]

theorem evictOldest_holding {w : RollingWindowSum} {f : Frame} (hf : f.length = w.elementCount)
    (frames : List Frame) : (w.holding (f :: frames)).evictOldest = some (w.holding frames) := by
  have hsub : subEach (columns w.elementCount (f :: frames)) f =
      some (columns w.elementCount frames) := by
    rw [subEach_eq (forall₂_le_columns hf frames), zipWith_sub_columns hf]
  simp [evictOldest, holding, hsub]

/-- The loop drops the oldest frames down to `effective_frames`. -/
theorem evictWhile_holding {w : RollingWindowSum} (fuel : Nat) {frames : List Frame}
    (hf : ∀ f ∈ frames, f.length = w.elementCount) (hfuel : frames.length ≤ fuel) :
    (w.holding frames).evictWhile fuel =
      some (w.holding (frames.drop (frames.length - w.effectiveFrames))) := by
  induction fuel generalizing frames with
  | zero =>
    have hnil : frames = [] := List.length_eq_zero_iff.1 (by omega)
    subst hnil
    simp [evictWhile]
  | succ fuel ih =>
    by_cases hmore : frames.length > w.effectiveFrames
    · obtain ⟨f, rest, rfl⟩ := List.exists_cons_of_length_pos (Nat.zero_lt_of_lt hmore)
      have hstep := evictOldest_holding (hf f List.mem_cons_self) rest
      have hrest := ih (fun g hg => hf g (List.mem_cons_of_mem f hg)) (by simpa using hfuel)
      have hdrop : (f :: rest).length - w.effectiveFrames =
          rest.length - w.effectiveFrames + 1 := by
        simp only [List.length_cons] at hmore ⊢
        omega
      have hwhile : (w.holding (f :: rest)).frames.length >
          (w.holding (f :: rest)).effectiveFrames := hmore
      rw [evictWhile, if_pos hwhile, hstep, hdrop, List.drop_succ_cons]
      exact hrest
    · have hwhile : ¬ (w.holding frames).frames.length > (w.holding frames).effectiveFrames := hmore
      rw [evictWhile, if_neg hwhile, Nat.sub_eq_zero_of_le (Nat.not_lt.1 hmore), List.drop_zero]

/-! ## Specifications -/

/-- The frames `configure` grants are at least one, at most those requested, and fit
the budget beside the sum. -/
theorem sizes_ok {n r b e q : Nat} (h : sizes n r b = .ok (e, q)) :
    0 < n ∧ 0 < e ∧ e ≤ r ∧ q = 8 * n + e * (4 * n) ∧ q ≤ b := by
  unfold sizes at h
  split at h
  · cases h
  · rename_i hpos
    split at h
    · rename_i sumBytes frameBytes hsum hframe
      obtain ⟨-, rfl⟩ := checkedMul_eq_some.1 hsum
      obtain ⟨-, rfl⟩ := checkedMul_eq_some.1 hframe
      split at h
      · cases h
      · rename_i minimum hmin
        obtain ⟨-, rfl⟩ := checkedAdd_eq_some.1 hmin
        split at h
        · cases h
        · rename_i hbudget
          dsimp only at h
          split at h
          · cases h
          · rename_i required hreq
            cases h
            obtain ⟨retained, hret, hreq⟩ := Option.bind_eq_some_iff.1 hreq
            obtain ⟨-, rfl⟩ := checkedMul_eq_some.1 hret
            obtain ⟨-, rfl⟩ := checkedAdd_eq_some.1 hreq
            have hframe : 0 < n * 4 := by omega
            have hone : 1 ≤ (b - n * 8) / (n * 4) := by
              rw [Nat.le_div_iff_mul_le hframe]
              omega
            have hfit : min r ((b - n * 8) / (n * 4)) * (n * 4) ≤ b - n * 8 :=
              Nat.le_trans (Nat.mul_le_mul_right _ (Nat.min_le_right _ _))
                (Nat.div_mul_le_self _ _)
            refine ⟨by omega, by omega, Nat.min_le_left _ _, ?_, by omega⟩
            rw [Nat.mul_comm 8, Nat.mul_comm 4, Nat.add_comm]
    · cases h

theorem sizes_error {n r b : Nat} {refusal : RollingSumStatus × Nat}
    (h : sizes n r b = .error refusal) : refusal.1 ≠ .ok := by
  unfold sizes at h
  dsimp only at h
  split at h
  · cases h
    decide
  split at h
  · split at h
    · cases h
      decide
    split at h
    · cases h
      simp
    split at h
    · cases h
      decide
    · cases h
  · cases h
    decide

/-- The loop of `configure` starts from the old frames, or none. -/
theorem grant_eq_holding {w : RollingWindowSum} (hw : w = .default ∨ w.Wf) {n : Nat} (hn : 0 < n)
    (r e b : Nat) :
    ∃ frames, frames <:+ w.frames ∧ (∀ f ∈ frames, f.length = n) ∧
      w.grant n r e b = (⟨n, r, e, b, [], []⟩ : RollingWindowSum).holding frames := by
  by_cases hfresh : w.Fresh n
  · refine ⟨[], List.nil_suffix, by simp, ?_⟩
    rw [grant, if_pos hfresh, holding, columns_nil]
  · obtain ⟨hcount, -⟩ : w.elementCount = n ∧ w.sum.length = n := by
      simpa [Fresh, not_or] using hfresh
    obtain rfl | hw := hw
    · exact absurd hcount (Nat.ne_of_lt hn)
    · refine ⟨w.frames, List.suffix_refl _, fun f hf => (hw.length_eq f hf).trans hcount, ?_⟩
      rw [grant, if_neg hfresh, holding, hw.sum_eq, hcount]

/-- **`configure` on any window that keeps its invariant.**  It returns; it refuses and
empties the window, or it grants what was asked and keeps the newest frames it has room
for, none if the geometry is new. -/
theorem configure_spec {w : RollingWindowSum} (hw : w = .default ∨ w.Wf) (n r b : Nat)
    (alloc : Bool) :
    ∃ c w', w.configure n r b alloc = some (c, w') ∧
      (c.status ≠ .ok ∧ w' = .default ∨
        c.status = .ok ∧ w'.Wf ∧ w'.elementCount = n ∧ w'.requestedFrames = r ∧
          w'.budgetBytes = b ∧ w'.frames <:+ w.frames) := by
  unfold configure
  cases hsizes : sizes n r b with
  | error refusal => exact ⟨_, _, rfl, .inl ⟨sizes_error hsizes, rfl⟩⟩
  | ok granted =>
    obtain ⟨e, q⟩ := granted
    obtain ⟨hn, he, her, hq, hqb⟩ := sizes_ok hsizes
    dsimp only
    by_cases hrefused : w.Fresh n ∧ alloc = false
    · rw [if_pos hrefused]
      exact ⟨_, _, rfl, .inl ⟨by simp, rfl⟩⟩
    obtain ⟨frames, hsuffix, hlength, hstart⟩ := grant_eq_holding hw hn r e b
    rw [if_neg hrefused, hstart, holding_frames, evictWhile_holding _ hlength (Nat.le_refl _)]
    refine ⟨_, _, rfl, .inr ⟨rfl, ⟨hn, rfl, ?_, he, her, ?_, ?_⟩, rfl, rfl, rfl, ?_⟩⟩
    · exact fun f hf => hlength f (List.mem_of_mem_drop hf)
    · show (frames.drop (frames.length - e)).length ≤ e
      rw [List.length_drop]
      omega
    · show 8 * n + e * (4 * n) ≤ b
      omega
    · exact (List.drop_suffix _ _).trans hsuffix

theorem addEach_columns {n : Nat} {frames : List Frame} (hfew : frames.length ≤ 2 ^ 20)
    {values : Frame} (hlen : values.length = n) :
    addEach (columns n frames) values = some (columns n (frames ++ [values])) := by
  rw [addEach_eq (forall₂_fit_columns hfew hlen), zipWith_add_columns hlen]

/-- A full window loses its oldest frame to the new one. -/
theorem push_full {w : RollingWindowSum} {f values : Frame} {rest : List Frame}
    (hconf : (w.holding (f :: rest)).configured = true)
    (hfull : (f :: rest).length = w.effectiveFrames) (hfew : (f :: rest).length ≤ 2 ^ 20)
    (hf : f.length = w.elementCount) (hlen : values.length = w.elementCount) :
    (w.holding (f :: rest)).push values true = some (.ok, w.holding (rest ++ [values])) := by
  have hrefuse : ¬ (values.length ≠ (w.holding (f :: rest)).elementCount ∨
      (w.holding (f :: rest)).configured = false) := by
    simp [hconf, hlen]
  have hover : overflows (columns w.elementCount (f :: rest)) values (some f) = some false :=
    overflows_some_eq (forall₂_fit_columns hfew hlen) (forall₂_le_columns hf rest)
  have hevict := evictOldest_holding hf rest
  have hadd := addEach_columns (n := w.elementCount)
    (show rest.length ≤ 2 ^ 20 from Nat.le_trans (Nat.le_succ _) hfew) hlen
  have hfull' : (f :: rest).length = (w.holding (f :: rest)).effectiveFrames := hfull
  rw [push, if_neg hrefuse]
  simp only [hfull', if_true, Bool.true_eq_false, if_false, holding_frames, List.head?_cons,
    Option.map_some, Option.bind_some, holding_sum, hover,
    Bool.false_eq_true, hevict, hadd]
  rfl

theorem push_room {w : RollingWindowSum} {values : Frame} {frames : List Frame}
    (hconf : (w.holding frames).configured = true) (hroom : frames.length ≠ w.effectiveFrames)
    (hfew : frames.length ≤ 2 ^ 20) (hlen : values.length = w.elementCount) :
    (w.holding frames).push values true = some (.ok, w.holding (frames ++ [values])) := by
  have hrefuse : ¬ (values.length ≠ (w.holding frames).elementCount ∨
      (w.holding frames).configured = false) := by
    simp [hconf, hlen]
  have hover : overflows (columns w.elementCount frames) values none = some false :=
    overflows_none_eq (forall₂_fit_columns hfew hlen)
  have hadd := addEach_columns (n := w.elementCount) hfew hlen
  have hroom' : frames.length ≠ (w.holding frames).effectiveFrames := hroom
  rw [push, if_neg hrefuse]
  simp only [hroom', if_false, Bool.true_eq_false, holding_frames, Option.bind_some, holding_sum,
    hover, Bool.false_eq_true, hadd]
  rfl

/-- **`push` on a configured window of few enough frames.**  It takes the frame, for the
oldest one if it is full, or the allocation fails and nothing changes. -/
theorem push_spec {w : RollingWindowSum} (hw : w.Wf) (hfew : w.effectiveFrames ≤ 2 ^ 20)
    {values : Frame} (hlen : values.length = w.elementCount) (alloc : Bool) :
    ∃ status w', w.push values alloc = some (status, w') ∧
      (status = .allocationFailure ∧ w' = w ∨
        status = .ok ∧ w'.Wf ∧ w'.elementCount = w.elementCount ∧
          w'.requestedFrames = w.requestedFrames ∧ w'.budgetBytes = w.budgetBytes ∧
          ∃ frames, frames <:+ w.frames ∧ w'.frames = frames ++ [values]) := by
  have hconf : w.configured = true := by
    have hsum : w.sum ≠ [] := by
      intro hnil
      have := congrArg List.length (hw.sum_eq ▸ hnil)
      rw [length_columns] at this
      exact absurd this (Nat.ne_of_gt hw.element_pos)
    simp [configured, hw.effective_pos, hsum]
  have hgrow : ∀ frames, frames <:+ w.frames → frames.length < w.effectiveFrames →
      (w.holding (frames ++ [values])).Wf := by
    intro frames hsuffix hlt
    refine ⟨hw.element_pos, rfl, fun f hf => ?_, hw.effective_pos, hw.effective_le, ?_, hw.fits⟩
    · obtain hf | hf := List.mem_append.1 hf
      · exact hw.length_eq f (hsuffix.subset hf)
      · rw [List.mem_singleton.1 hf]
        exact hlen
    · show (frames ++ [values]).length ≤ w.effectiveFrames
      rw [List.length_append, List.length_singleton]
      omega
  cases alloc with
  | false =>
    refine ⟨.allocationFailure, w, ?_, .inl ⟨rfl, rfl⟩⟩
    simp [push, hlen, hconf]
  | true =>
    have heq := eq_holding hw.sum_eq
    have hlt := hw.frames_le
    by_cases hfull : w.frames.length = w.effectiveFrames
    · obtain ⟨f, rest, hframes⟩ := List.exists_cons_of_length_pos (hfull ▸ hw.effective_pos)
      rw [hframes] at heq hfull hlt
      have hpush := push_full (heq ▸ hconf) hfull (Nat.le_trans hlt hfew)
        (hw.length_eq f (hframes ▸ List.mem_cons_self)) hlen
      have hsuffix : rest <:+ w.frames := hframes ▸ List.suffix_cons f rest
      rw [← heq] at hpush
      refine ⟨.ok, _, hpush, .inr ⟨rfl, hgrow rest hsuffix ?_, rfl, rfl, rfl, rest, hsuffix, rfl⟩⟩
      simp only [List.length_cons] at hfull
      omega
    · have hpush := push_room (heq ▸ hconf) hfull (Nat.le_trans hlt hfew) hlen
      rw [← heq] at hpush
      have hsuffix := List.suffix_refl w.frames
      refine ⟨.ok, _, hpush, .inr ⟨rfl, hgrow _ hsuffix ?_, rfl, rfl, rfl, _, hsuffix, rfl⟩⟩
      omega

/-- Whatever a push says but `Ok`, it leaves the window as it was. -/
theorem push_unchanged {w w' : RollingWindowSum} {values : Frame} {alloc : Bool}
    {status : RollingSumStatus} (h : w.push values alloc = some (status, w'))
    (hstatus : status ≠ .ok) : w' = w := by
  unfold push at h
  split at h
  · cases h
    rfl
  split at h
  · cases h
    rfl
  obtain ⟨oldest, -, h⟩ := Option.bind_eq_some_iff.1 h
  obtain ⟨overflow, -, h⟩ := Option.bind_eq_some_iff.1 h
  cases overflow with
  | true =>
    cases h
    rfl
  | false =>
    obtain ⟨evicted, -, h⟩ := Option.bind_eq_some_iff.1 h
    obtain ⟨sum, -, h⟩ := Option.map_eq_some_iff.1 h
    cases h
    exact absurd rfl hstatus

/-- Dropping every frame keeps the invariant. -/
theorem reset_wf {w : RollingWindowSum} (hw : w.Wf) : w.reset.Wf where
  element_pos := hw.element_pos
  sum_eq := by
    show w.sum.map (fun _ => 0) = columns w.elementCount []
    rw [columns_nil, List.map_const', hw.sum_eq, length_columns]
  length_eq := by simp [reset]
  effective_pos := hw.effective_pos
  effective_le := hw.effective_le
  frames_le := Nat.zero_le _
  fits := hw.fits

end RollingWindowSum

end TimePix
