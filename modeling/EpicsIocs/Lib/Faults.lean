import EpicsIocs.Lib.Machine
import EpicsIocs.Lib.Fallible

/-!
# Errors and panics

A computation on `usize` ends with a value, with an error of its own, or in a panic.
`add` and `mul` panic on overflow in a build with overflow checks (`checks`) and wrap in
one without; where the result fits both builds compute it (`add_of_le`, `mul_of_le`), so
a computation that is the same as one on natural numbers neither wraps nor panics.
An `Action` is such a computation on a state, which a failure leaves as it was when it came.
-/

namespace Faults

open Machine

variable {ε α β : Type}

/-- How a computation fails. -/
inductive Fault (ε : Type) where
  | panic
  | error (e : ε)
  deriving DecidableEq, Repr

abbrev Outcome (ε α : Type) : Type := Except (Fault ε) α

/-- A computation that fails with an error only. -/
def lift (x : Except ε α) : Outcome ε α := x.mapError Fault.error

/-- Of an optional value, the error where there is none. -/
def get (x : Option α) (e : ε) : Outcome ε α := lift (Fallible.okOr x e)

/-- The same failure, its error in other words. -/
def Fault.map {δ : Type} (f : ε → δ) : Fault ε → Fault δ
  | panic => .panic
  | error e => .error (f e)

def fail (e : ε) : Outcome ε α := .error (.error e)

def panics : Outcome ε α := .error .panic

/-- The largest length of a slice of bytes. -/
def isizeMax : Nat := 2 ^ 63 - 1

def add (checks : Bool) (a b : Nat) : Outcome ε Nat :=
  if a + b ≤ u64Max then .ok (a + b) else if checks then panics else .ok ((a + b) % 2 ^ 64)

def mul (checks : Bool) (a b : Nat) : Outcome ε Nat :=
  if a * b ≤ u64Max then .ok (a * b) else if checks then panics else .ok (a * b % 2 ^ 64)

/-- `l[i]`. -/
def item (l : List α) (i : Nat) : Outcome ε α := l[i]?.elim panics .ok

/-- `l[start..stop]`. -/
def slice (l : List α) (start stop : Nat) : Outcome ε (List α) :=
  if start ≤ stop ∧ stop ≤ l.length then .ok ((l.drop start).take (stop - start)) else panics

/-- `out` after it is overwritten with `src`. -/
def copyFromSlice (out src : List α) : Outcome ε (List α) :=
  if out.length = src.length then .ok src else panics

/-- Accesses at these indices. -/
def touch (length : Nat) (indices : List Nat) : Outcome ε Unit :=
  if indices.all (· < length) then .ok () else panics

theorem add_of_le {checks : Bool} {a b : Nat} (h : a + b ≤ u64Max) :
    (add checks a b : Outcome ε Nat) = .ok (a + b) := if_pos h

theorem mul_of_le {checks : Bool} {a b : Nat} (h : a * b ≤ u64Max) :
    (mul checks a b : Outcome ε Nat) = .ok (a * b) := if_pos h

theorem item_of_some {l : List α} {i : Nat} {a : α} (h : l[i]? = some a) :
    (item l i : Outcome ε α) = .ok a := by rw [item, h]; rfl

theorem slice_of_le {l : List α} {start stop : Nat} (h : start ≤ stop) (hl : stop ≤ l.length) :
    (slice l start stop : Outcome ε (List α)) = .ok ((l.drop start).take (stop - start)) :=
  if_pos ⟨h, hl⟩

/-- The slice of that many elements. -/
theorem slice_add {l : List α} {start n : Nat} (h : start + n ≤ l.length) :
    (slice l start (start + n) : Outcome ε (List α)) = .ok ((l.drop start).take n) := by
  rw [slice_of_le (Nat.le_add_right _ _) h, Nat.add_sub_cancel_left]

theorem slice_drop {l : List α} {start : Nat} (h : start ≤ l.length) :
    (slice l start l.length : Outcome ε (List α)) = .ok (l.drop start) := by
  rw [slice_of_le h (Nat.le_refl _), List.take_of_length_le]
  rw [List.length_drop]

theorem copyFromSlice_of_eq {out src : List α} (h : out.length = src.length) :
    (copyFromSlice out src : Outcome ε (List α)) = .ok src := if_pos h

theorem touch_of_lt {length : Nat} {indices : List Nat} (h : ∀ i ∈ indices, i < length) :
    (touch length indices : Outcome ε Unit) = .ok () :=
  if_pos (List.all_eq_true.2 fun i hi => decide_eq_true (h i hi))

theorem lift_bind (x : Except ε α) (f : α → Except ε β) :
    lift (x.bind f) = (lift x).bind fun a => lift (f a) := by
  cases x with
  | error e => rfl
  | ok a => rfl

theorem ok_bind (a : α) (f : α → Outcome ε β) : (Except.ok a : Outcome ε α).bind f = f a := rfl

theorem get_some (a : α) (e : ε) : get (some a) e = .ok a := rfl

theorem get_bind (x : Option α) (f : α → Option β) (e : ε) :
    get (x.bind f) e = (get x e).bind fun a => get (f a) e := by
  cases x with
  | none => rfl
  | some a => rfl

theorem get_map (x : Option α) (f : α → β) (e : ε) : get (x.map f) e = (get x e).map f := by
  cases x with
  | none => rfl
  | some a => rfl

theorem of_get {x : Option α} {e : ε} {a : α} (h : get x e = .ok a) : x = some a := by
  cases x with
  | none => cases h
  | some b =>
    cases h
    rfl

/-- The computation does not panic, and its value is as `P` says. -/
def Safe (P : α → Prop) (x : Outcome ε α) : Prop := x ≠ panics ∧ ∀ a, x = .ok a → P a

theorem Safe.ok {P : α → Prop} {a : α} (h : P a) : Safe P (.ok a : Outcome ε α) := by
  refine ⟨nofun, fun b hb => ?_⟩
  cases hb
  exact h

theorem Safe.fail {P : α → Prop} {e : ε} : Safe P (fail e) := ⟨nofun, nofun⟩

theorem Safe.imp {P Q : α → Prop} {x : Outcome ε α} (hx : Safe P x) (h : ∀ a, P a → Q a) :
    Safe Q x := ⟨hx.1, fun a ha => h a (hx.2 a ha)⟩

theorem Safe.bind {P : β → Prop} {Q : α → Prop} {x : Outcome ε α} {f : α → Outcome ε β}
    (hx : Safe Q x) (hf : ∀ a, Q a → Safe P (f a)) : Safe P (x.bind f) := by
  cases x with
  | error fault =>
    refine ⟨fun h => hx.1 ?_, nofun⟩
    cases h
    rfl
  | ok a => exact hf a (hx.2 a rfl)

theorem Safe.map {P : β → Prop} {Q : α → Prop} {x : Outcome ε α} {f : α → β} (hx : Safe Q x)
    (hf : ∀ a, Q a → P (f a)) : Safe P (x.map f) := by
  cases x with
  | error fault =>
    refine ⟨fun h => hx.1 ?_, nofun⟩
    cases h
    rfl
  | ok a => exact .ok (hf a (hx.2 a rfl))

theorem Safe.lift {P : α → Prop} {x : Except ε α} (h : ∀ a, x = .ok a → P a) :
    Safe P (lift x) := by
  cases x with
  | error e => exact .fail
  | ok a => exact .ok (h a rfl)

theorem Safe.get {P : α → Prop} {x : Option α} {e : ε} (h : ∀ a, x = some a → P a) :
    Safe P (get x e) := by
  cases x with
  | none => exact .fail
  | some a => exact .ok (h a rfl)

theorem Safe.mapError {δ : Type} {P : α → Prop} {x : Outcome ε α} {f : ε → δ} (hx : Safe P x) :
    Safe P (x.mapError (Fault.map f)) := by
  cases x with
  | ok a => exact .ok (hx.2 a rfl)
  | error fault =>
    cases fault with
    | panic => exact absurd rfl hx.1
    | error e => exact .fail

/-! ## With a state -/

variable {σ : Type}

/-- A computation on a state; what was written before it fails stays written. -/
abbrev Action (σ ε α : Type) : Type := ExceptT (Fault ε) (StateM σ) α

namespace Action

def run (x : Action σ ε α) (s : σ) : Outcome ε α × σ := StateT.run (ExceptT.run x) s

/-- A value that is absent where an operation on the way overflowed. -/
def checked (x : Option α) : Action σ ε α :=
  match x with
  | some a => pure a
  | none => throw .panic

theorem run_get_bind (f : σ → Action σ ε α) (s : σ) :
    run ((MonadState.get : Action σ ε σ) >>= f) s = run (f s) s := rfl

theorem run_bind_ok {x : Action σ ε α} {s s' : σ} {a : α} (h : run x s = (.ok a, s'))
    (f : α → Action σ ε β) : run (x >>= f) s = run (f a) s' := by
  show StateT.run (ExceptT.run x >>= ExceptT.bindCont f) s = _
  rw [StateT.run_bind, show StateT.run (ExceptT.run x) s = (.ok a, s') from h]
  rfl

theorem run_bind_error {x : Action σ ε α} {s s' : σ} {e : Fault ε} (h : run x s = (.error e, s'))
    (f : α → Action σ ε β) : run (x >>= f) s = (.error e, s') := by
  show StateT.run (ExceptT.run x >>= ExceptT.bindCont f) s = _
  rw [StateT.run_bind, show StateT.run (ExceptT.run x) s = (.error e, s') from h]
  rfl

theorem checked_bind (a : α) (f : α → Action σ ε β) :
    (checked (some a) : Action σ ε α) >>= f = f a := pure_bind a f

end Action

end Faults
