import EpicsIocs.Lib.Arith
import EpicsIocs.Lib.Faults
import EpicsIocs.Lib.Multiples

/-! # Integer features

`write_node` (`feature.rs`) for an integer node: the request is rounded to a multiple of the
increment, toward zero, and then limited to the minimum and the maximum.  The values that a node
accepts are counted from its minimum, so what is sent is one of them for every request

    ↔ there is one value only, or the minimum is a multiple of the increment and so is the maximum,
      or no multiple is above the one or the other               (writeNode_accepted_iff)

`i64` values are integers; an operation that leaves the type is a panic. -/

namespace GenICam

open Ints Faults

abbrev NodeResult := Except String

/-- Of `GenICamNode`, what an integer node is asked; `readInteger` is asked behind the write. -/
structure Node where
  readIntegerMin : NodeResult int64.Value
  readIntegerMax : NodeResult int64.Value
  readIncrement : NodeResult int64.Value
  writeInteger : Int → NodeResult Unit
  isReadable : Bool
  readInteger : NodeResult int64.Value

/-- The types of asyn parameters; of those that hold no number, one. -/
inductive ParamType where
  | int32
  | int64
  | float64
  | octet
  deriving DecidableEq, Repr

/-- The parameter, as each of the types; none if it is undefined or of another one. -/
structure Param where
  int32 : Option Int32
  int64 : Option Int64
  float64 : Option Float

def paramAsI64 (asynType : ParamType) (param : Param) : Int64 :=
  match asynType with
  | .int32 => (param.int32.getD 0).toInt64
  | .int64 => param.int64.getD 0
  | .float64 => (param.float64.getD 0).toInt64
  | .octet => 0

/-- The value asked for: the explicit one, or the parameter's. -/
def requested (asynType : ParamType) (param : Param) (value : Option Float) : Int :=
  match value with
  | some v => v.toInt64.toInt
  | none => (paramAsI64 asynType param).toInt

/-- `(v / inc) * inc`. -/
def roundToIncrement (v inc : Int) : Arith int64 :=
  if inc ≠ 1 ∧ inc ≠ 0 then .of int64 v / .of int64 inc * .of int64 inc else .of int64 v

/-- The value within the limits, and the warnings. -/
def limit (name : String) (v min max : Int) : Int × List String :=
  let (v, warnings) := if v < min then
      (min, [s!"node {name} value {v} is less than minimum {min}, setting to minimum"])
    else (v, [])
  if v > max then
    (max, warnings ++
      [s!"node {name} value {v} is greater than maximum {max}, setting to maximum"])
  else (v, warnings)

/-- What is to be written. -/
def Node.prepare (node : Node) (name : String) (v : Int) : Outcome String (Int × List String) := do
  let max ← lift node.readIntegerMax
  let min ← lift node.readIntegerMin
  let inc ← lift node.readIncrement
  let v ← (roundToIncrement v inc).value.elim panics .ok
  return limit name v min max

/-- What comes of a write: the value passed to `write_integer`, if it came to that, the warnings, and
the value read back, none where the node is not readable. -/
structure Written where
  sent : Option Int
  warnings : List String
  readback : Outcome String (Option Int)

def Node.writeNode (node : Node) (name : String) (v : Int) : Written :=
  match node.prepare name v with
  | .error e => ⟨none, [], .error e⟩
  | .ok (v, warnings) =>
    ⟨some v, warnings, lift do
      node.writeInteger v
      if node.isReadable then return some (← node.readInteger).1 else return none⟩

/-! ## What a node accepts -/

/-- The values of an integer node. -/
structure Range where
  min : Int
  max : Int
  inc : Int
  min_le : min ≤ max
  inc_pos : 1 ≤ inc

namespace Range

variable (r : Range)

/-- One of `min`, `min + inc`, … that is not above `max`. -/
def Legal (v : Int) : Prop := r.min ≤ v ∧ v ≤ r.max ∧ r.inc ∣ v - r.min

/-- The largest one. -/
def last : Int := r.min + (r.max - r.min) / r.inc * r.inc

theorem dvd_last : r.inc ∣ r.last - r.min := by
  rw [last, add_sub_cancel_left]
  exact ⟨_, mul_comm _ _⟩

theorem last_le : r.last ≤ r.max := by
  have hinc := r.inc_pos
  have := Int.ediv_mul_le (r.max - r.min) (by omega : r.inc ≠ 0)
  rw [last]
  omega

theorem le_last : r.min ≤ r.last := by
  have hinc := r.inc_pos
  have hle := r.min_le
  have := mul_nonneg (Int.ediv_nonneg (by omega : 0 ≤ r.max - r.min) (by omega : 0 ≤ r.inc))
    (by omega : 0 ≤ r.inc)
  rw [last]
  omega

theorem min_legal : r.Legal r.min := ⟨le_rfl, r.min_le, by rw [sub_self]; exact dvd_zero _⟩

theorem last_legal : r.Legal r.last := ⟨r.le_last, r.last_le, r.dvd_last⟩

theorem max_lt_last_add : r.max < r.last + r.inc := by
  have hinc := r.inc_pos
  have := Int.lt_ediv_add_one_mul_self (r.max - r.min) (by omega : 0 < r.inc)
  rw [last]
  linarith

theorem legal_le_last {v : Int} (h : r.Legal v) : v ≤ r.last := by
  have hlt : v - r.min < r.last - r.min + r.inc := by
    have := h.2.1
    have := r.max_lt_last_add
    omega
  have := Multiples.le_of_lt_add (by have := r.inc_pos; omega) h.2.2 r.dvd_last hlt
  omega

/-- What the right value for a request is. -/
structure Right (v w : Int) : Prop where
  legal : r.Legal w
  same : r.Legal v → w = v
  below : v < r.min → w = r.min
  above : r.max < v → w = r.last

/-- The largest multiple of the increment in an `i64`. -/
def top : Int := Multiples.truncate r.inc (2 ^ 63 - 1)

/-- The multiples of the increment are the legal values, as far as they matter. -/
def Even : Prop :=
  r.min = r.max ∨ (r.inc ∣ r.min ∧ (r.inc ∣ r.max ∨ r.top ≤ r.max)) ∨ r.top ≤ r.min

/-- The multiple of the increment that a request is rounded to, within the limits. -/
def fit (v : Int) : Int := Min.min r.max (Max.max r.min (Multiples.truncate r.inc v))

end Range

/-- The node has this range. -/
structure Node.Has (node : Node) (r : Range) : Prop where
  min : node.readIntegerMin.map Subtype.val = .ok r.min
  max : node.readIntegerMax.map Subtype.val = .ok r.max
  inc : node.readIncrement.map Subtype.val = .ok r.inc

/-- Every request is answered with the right value, no step overflows, and a larger request with a
value that is no smaller. -/
structure Node.Accepted (node : Node) (name : String) (r : Range) : Prop where
  right : ∀ v, int64.Holds v → ∃ w, (node.writeNode name v).sent = some w ∧ r.Right v w
  monotone : ∀ v v', int64.Holds v → int64.Holds v' → v ≤ v' → ∀ w w',
    (node.writeNode name v).sent = some w → (node.writeNode name v').sent = some w' → w ≤ w'

/-! ## What is sent -/

theorem roundToIncrement_eq {v inc : Int} (hv : int64.Holds v) (hinc : int64.Holds inc)
    (hpos : 1 ≤ inc) : (roundToIncrement v inc).value = some (Multiples.truncate inc v) := by
  unfold roundToIncrement
  by_cases hone : inc = 1
  · rw [if_neg (fun h => h.1 hone), Arith.value_of hv, hone, Multiples.truncate_one]
  · have hne : inc ≠ 0 := by omega
    have hlt : 0 < inc := by omega
    obtain ⟨hlo, hhi⟩ := holds_int64.1 hv
    -- The product is between 0 and the request.
    have hproduct : int64.Holds (Multiples.truncate inc v) := by
      rw [holds_int64]
      rcases le_total 0 v with h | h
      · have := Multiples.truncate_nonneg hlt h
        have := Multiples.truncate_le_self hlt h
        omega
      · have := Multiples.truncate_nonpos hlt h
        have := Multiples.self_le_truncate hlt h
        omega
    have hquotient : int64.Holds (v.tdiv inc) := by
      rw [holds_int64]
      have habs : (v.tdiv inc).natAbs ≤ v.natAbs / 2 := by
        rw [Int.natAbs_tdiv]
        exact Nat.div_le_div_left (by omega) (by decide)
      omega
    rw [if_pos ⟨hone, hne⟩, Arith.of_div_of hv hinc hne,
      Arith.value_of_mul hquotient hinc hproduct]
    rfl

theorem limit_fst (name : String) {v lo hi : Int} (hle : lo ≤ hi) :
    (limit name v lo hi).1 = min hi (max lo v) := by
  unfold limit
  by_cases hlo : v < lo
  · rw [if_pos hlo]
    dsimp only
    rw [if_neg (by omega)]
    dsimp only
    omega
  · rw [if_neg hlo]
    dsimp only
    by_cases hhi : v > hi
    · rw [if_pos hhi]
      dsimp only
      omega
    · rw [if_neg hhi]
      dsimp only
      omega

namespace Range

variable {r : Range} {v : Int}

theorem inc_pos' (r : Range) : 0 < r.inc := Int.lt_of_lt_of_le Int.zero_lt_one r.inc_pos

theorem fit_mono {w : Int} (h : v ≤ w) : r.fit v ≤ r.fit w := by
  have := Multiples.truncate_mono r.inc_pos' h
  unfold fit
  omega

theorem le_top (hv : v < 2 ^ 63) : Multiples.truncate r.inc v ≤ r.top :=
  Multiples.truncate_mono r.inc_pos' (by omega)

theorem top_lt : r.top < 2 ^ 63 := by
  have := Multiples.truncate_le_self r.inc_pos' (by decide : (0 : Int) ≤ 2 ^ 63 - 1)
  rw [top]
  omega

theorem lt_top_add : 2 ^ 63 ≤ r.top + r.inc := by
  have := Multiples.lt_truncate_add r.inc_pos' (by decide : (0 : Int) ≤ 2 ^ 63 - 1)
  rw [top]
  omega

/-- The only legal value is sent. -/
theorem right_of_single (hsingle : r.max < r.min + r.inc) (hfit : r.fit v = r.min) :
    r.Right v (r.fit v) := by
  have hlast : r.last = r.min := by
    have hle := Multiples.le_of_lt_add r.inc_pos' r.dvd_last (dvd_zero r.inc)
      (by have := r.last_le; omega)
    have := r.le_last
    omega
  rw [hfit]
  refine ⟨r.min_legal, fun h => ?_, fun _ => rfl, fun _ => hlast.symm⟩
  have := r.legal_le_last h
  have := h.1
  omega

/-- Where the minimum is a multiple of the increment, the legal values are multiples. -/
theorem legal_iff_dvd (hmin : r.inc ∣ r.min) : r.Legal v ↔ r.min ≤ v ∧ v ≤ r.max ∧ r.inc ∣ v := by
  have hdvd : r.inc ∣ v - r.min ↔ r.inc ∣ v := by
    constructor
    · intro h
      have := Int.dvd_add h hmin
      rwa [sub_add_cancel] at this
    · exact fun h => Int.dvd_sub h hmin
  rw [Legal, hdvd]

/-- A request above the maximum is rounded to the last value. -/
theorem fit_above (hmin : r.inc ∣ r.min) (hmax : r.inc ∣ r.max ∨ r.top ≤ r.max)
    (hv : v < 2 ^ 63) (h : r.max < v) : r.fit v = r.last := by
  have hlast : r.inc ∣ r.last := ((legal_iff_dvd hmin).1 r.last_legal).2.2
  have hle := r.last_le
  have hmin_le := r.le_last
  have hreach := Multiples.le_truncate r.inc_pos' hlast (by omega : r.last ≤ v)
  rcases hmax with hmax | hmax
  · have hbound := legal_le_last r ((legal_iff_dvd hmin).2 ⟨r.min_le, le_rfl, hmax⟩)
    unfold fit
    omega
  · have htop := le_top (r := r) hv
    have hbound := legal_le_last r
      ((legal_iff_dvd hmin).2 ⟨by omega, by omega, Multiples.dvd_truncate r.inc v⟩)
    unfold fit
    omega

theorem right_of_multiples (hmin : r.inc ∣ r.min) (hmax : r.inc ∣ r.max ∨ r.top ≤ r.max)
    (hv : v < 2 ^ 63) : r.Right v (r.fit v) := by
  have hle := r.min_le
  have hbelow : v ≤ r.min → Multiples.truncate r.inc v ≤ r.min :=
    Multiples.truncate_le r.inc_pos' hmin
  constructor
  · by_cases habove : r.max < v
    · rw [fit_above hmin hmax hv habove]
      exact r.last_legal
    · have hmost : Multiples.truncate r.inc v ≤ r.max := by
        rcases hmax with hmax | hmax
        · exact Multiples.truncate_le r.inc_pos' hmax (not_lt.1 habove)
        · exact (le_top hv).trans hmax
      by_cases hleast : r.min ≤ Multiples.truncate r.inc v
      · have hfit : r.fit v = Multiples.truncate r.inc v := by
          unfold fit
          omega
        rw [hfit, legal_iff_dvd hmin]
        exact ⟨hleast, hmost, Multiples.dvd_truncate r.inc v⟩
      · have hfit : r.fit v = r.min := by
          unfold fit
          omega
        rw [hfit]
        exact r.min_legal
  · intro h
    have hdvd := ((legal_iff_dvd hmin).1 h).2.2
    have := h.1
    have := h.2.1
    rw [fit, Multiples.truncate_of_dvd hdvd]
    omega
  · intro h
    have := hbelow h.le
    unfold fit
    omega
  · exact fit_above hmin hmax hv

theorem fit_right (heven : r.Even) (hmax : r.max < 2 ^ 63) (hv : v < 2 ^ 63) :
    r.Right v (r.fit v) := by
  have hle := r.min_le
  rcases heven with heq | ⟨hmin, hmultiple⟩ | htop
  · apply right_of_single
    · have := r.inc_pos
      omega
    · unfold fit
      omega
  · exact right_of_multiples hmin hmultiple hv
  · apply right_of_single
    · have := r.lt_top_add
      omega
    · have := (le_top hv).trans htop
      unfold fit
      omega

/-- The first multiple behind the minimum is sent as it is, or the maximum in its place. -/
theorem dvd_min_of_right (hlo : -2 ^ 63 ≤ r.min) (hne : r.min < r.max) (htop : r.min < r.top)
    (h : ∀ v, int64.Holds v → r.Right v (r.fit v)) : r.inc ∣ r.min := by
  by_contra hmin
  have hdvd := Multiples.dvd_above r.inc r.min
  have hlt := Multiples.lt_above r.inc_pos' r.min
  have hadd := Multiples.above_le_add r.inc_pos' r.min
  have hmost := Multiples.above_le r.inc_pos' (Multiples.dvd_truncate r.inc (2 ^ 63 - 1)) htop
  have hholds : int64.Holds (Multiples.above r.inc r.min) := by
    rw [holds_int64]
    have := r.top_lt
    unfold top at this
    omega
  have hright := h _ hholds
  have htruncate := Multiples.truncate_of_dvd hdvd
  rcases le_or_gt (Multiples.above r.inc r.min) r.max with hle | hgt
  · have hfit : r.fit (Multiples.above r.inc r.min) = Multiples.above r.inc r.min := by
      rw [fit, htruncate]
      omega
    have hlegal := hright.legal.2.2
    rw [hfit] at hlegal
    have := Int.dvd_sub hdvd hlegal
    rw [sub_sub_cancel] at this
    exact hmin this
  · have hfit : r.fit (Multiples.above r.inc r.min) = r.max := by
      rw [fit, htruncate]
      omega
    have hlegal := hright.legal.2.2
    rw [hfit] at hlegal
    -- The maximum would be a whole increment behind the minimum, and the multiple behind both.
    have := Int.le_of_dvd (by omega) hlegal
    have heq : Multiples.above r.inc r.min = r.min + r.inc := by omega
    rw [heq] at hdvd
    exact hmin ((Int.dvd_add_left (dvd_refl r.inc)).1 hdvd)

theorem even_of_right (hlo : -2 ^ 63 ≤ r.min) (h : ∀ v, int64.Holds v → r.Right v (r.fit v)) :
    r.Even := by
  by_contra hnot
  obtain ⟨hne, hmultiple, htop⟩ := not_or.1 hnot |>.imp_right not_or.1
  have hle := r.min_le
  have hmin := dvd_min_of_right hlo (by omega) (by omega) h
  obtain ⟨hmax, htop'⟩ := not_or.1 fun hmax => hmultiple ⟨hmin, hmax⟩
  have hdvd : r.inc ∣ r.top := Multiples.dvd_truncate r.inc (2 ^ 63 - 1)
  have hholds : int64.Holds r.top := by
    rw [holds_int64]
    have := r.top_lt
    omega
  have hright := h _ hholds
  have hfit : r.fit r.top = r.max := by
    rw [fit, Multiples.truncate_of_dvd hdvd]
    omega
  have hlegal := hright.legal
  rw [hfit, legal_iff_dvd hmin] at hlegal
  exact hmax hlegal.2.2

end Range

namespace Node

variable {node : Node} {name : String} {r : Range}

theorem Has.holds (h : node.Has r) :
    int64.Holds r.min ∧ int64.Holds r.max ∧ int64.Holds r.inc := by
  obtain ⟨min, -, hmin⟩ := Fallible.map_eq_ok.1 h.min
  obtain ⟨max, -, hmax⟩ := Fallible.map_eq_ok.1 h.max
  obtain ⟨inc, -, hinc⟩ := Fallible.map_eq_ok.1 h.inc
  exact ⟨hmin ▸ min.2, hmax ▸ max.2, hinc ▸ inc.2⟩

/-- What is sent, and that no step overflows. -/
theorem sent_eq (h : node.Has r) {v : Int} (hv : int64.Holds v) :
    (node.writeNode name v).sent = some (r.fit v) := by
  obtain ⟨min, hmin, hminval⟩ := Fallible.map_eq_ok.1 h.min
  obtain ⟨max, hmax, hmaxval⟩ := Fallible.map_eq_ok.1 h.max
  obtain ⟨inc, hinc, hincval⟩ := Fallible.map_eq_ok.1 h.inc
  have hround := roundToIncrement_eq hv h.holds.2.2 r.inc_pos
  have hprepare : node.prepare name v =
      .ok (limit name (Multiples.truncate r.inc v) r.min r.max) := by
    rw [← hincval] at hround
    unfold prepare
    rw [hmin, hmax, hinc, ← hminval, ← hmaxval, ← hincval]
    show ((roundToIncrement v inc).value.elim panics .ok >>= _) = _
    rw [hround]
    rfl
  rw [writeNode, hprepare]
  exact congrArg some (limit_fst name r.min_le)

/-- **A node is always sent a value it accepts, the right one,** exactly if its values are the
multiples of the increment, as far as they matter. -/
theorem writeNode_accepted_iff (h : node.Has r) (name : String) :
    node.Accepted name r ↔ r.Even := by
  obtain ⟨hmin, hmax, -⟩ := h.holds
  constructor
  · intro haccepted
    refine Range.even_of_right hmin.1 fun v hv => ?_
    obtain ⟨w, hsent, hright⟩ := haccepted.right v hv
    rw [sent_eq h hv] at hsent
    rwa [Option.some.inj hsent]
  · intro heven
    constructor
    · exact fun v hv => ⟨_, sent_eq h hv, Range.fit_right heven hmax.2 hv.2⟩
    · intro v v' hv hv' hle w w' hw hw'
      rw [sent_eq h hv] at hw
      rw [sent_eq h hv'] at hw'
      rw [← Option.some.inj hw, ← Option.some.inj hw']
      exact Range.fit_mono hle

end Node

/-! ## Two nodes -/

instance (r : Range) (v : Int) : Decidable (r.Legal v) :=
  inferInstanceAs (Decidable (_ ∧ _ ∧ _))

/-- A width in steps of 16 from 16 to 64. -/
def widthNode : Node where
  readIntegerMin := .ok ⟨16, by decide⟩
  readIntegerMax := .ok ⟨64, by decide⟩
  readIncrement := .ok ⟨16, by decide⟩
  writeInteger _ := .ok ()
  isReadable := true
  readInteger := .ok ⟨32, by decide⟩

def widths : Range := ⟨16, 64, 16, by decide, by decide⟩

theorem width_accepted : widthNode.Accepted "Width" widths :=
  (Node.writeNode_accepted_iff ⟨rfl, rfl, rfl⟩ "Width").2
    (.inr (.inl ⟨by decide, .inl (by decide)⟩))

/-- In steps of 20 from 10 to 100. -/
def offsetNode : Node where
  readIntegerMin := .ok ⟨10, by decide⟩
  readIntegerMax := .ok ⟨100, by decide⟩
  readIncrement := .ok ⟨20, by decide⟩
  writeInteger _ := .ok ()
  isReadable := true
  readInteger := .ok ⟨30, by decide⟩

def offsets : Range := ⟨10, 100, 20, by decide, by decide⟩

/-- 30 is legal, and 20 is sent; above the maximum, the maximum is sent, which is not legal. -/
theorem offset_not_accepted :
    (offsetNode.writeNode "OffsetX" 30).sent = some 20 ∧ offsets.Legal 30 ∧ ¬ offsets.Legal 20 ∧
      (offsetNode.writeNode "OffsetX" 200).sent = some 100 ∧ ¬ offsets.Legal 100 := by
  refine ⟨rfl, by decide, by decide, rfl, by decide⟩

end GenICam
