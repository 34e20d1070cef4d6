/-!
# Computations that may fail

`require` and `okOr` turn a test and an optional value into a step that fails with a
given error; the lemmas take a successful computation apart.
-/

namespace Fallible

variable {ε α β : Type}

/-- Fails unless `condition` holds. -/
def require (condition : Bool) (error : ε) : Except ε Unit :=
  if condition then .ok () else .error error

/-- The value, or a failure for want of one. -/
def okOr (value : Option α) (error : ε) : Except ε α :=
  match value with
  | some a => .ok a
  | none => .error error

theorem bind_eq_ok {x : Except ε α} {f : α → Except ε β} {b : β} :
    (x >>= f) = .ok b ↔ ∃ a, x = .ok a ∧ f a = .ok b := by
  cases x with
  | error e =>
    constructor
    · intro h
      cases h
    · rintro ⟨a, h, -⟩
      cases h
  | ok a =>
    constructor
    · exact fun h => ⟨a, rfl, h⟩
    · rintro ⟨a', h, hb⟩
      cases h
      exact hb

/-- A computation that succeeded, taken apart. -/
theorem of_bind {x : Except ε α} {f : α → Except ε β} {b : β} (h : x.bind f = .ok b) :
    ∃ a, x = .ok a ∧ f a = .ok b := bind_eq_ok.1 h

theorem map_eq_ok {x : Except ε α} {f : α → β} {b : β} :
    x.map f = .ok b ↔ ∃ a, x = .ok a ∧ f a = b := by
  cases x with
  | error e =>
    constructor
    · intro h
      cases h
    · rintro ⟨a, h, -⟩
      cases h
  | ok a =>
    constructor
    · exact fun h => ⟨a, rfl, Except.ok.inj h⟩
    · rintro ⟨a', h, rfl⟩
      cases h
      rfl

theorem of_map {x : Except ε α} {f : α → β} {b : β} (h : x.map f = .ok b) :
    ∃ a, x = .ok a ∧ f a = b := map_eq_ok.1 h

/-- Two continuations need to agree only on what the computation gives. -/
theorem bind_congr {x : Except ε α} {f g : α → Except ε β} (h : ∀ a, x = .ok a → f a = g a) :
    x.bind f = x.bind g := by
  cases x with
  | error e => rfl
  | ok a => exact h a rfl

theorem of_guard {c : Prop} [Decidable c] {error : ε} {x : Except ε α} {a : α}
    (h : (if c then .error error else x) = .ok a) : ¬c ∧ x = .ok a := by
  by_cases hc : c
  · rw [if_pos hc] at h
    cases h
  · rw [if_neg hc] at h
    exact ⟨hc, h⟩

theorem okOr_eq_ok {value : Option α} {error : ε} {a : α} :
    okOr value error = .ok a ↔ value = some a := by
  cases value <;> simp [okOr]

theorem mapM_of_forall {f : α → Except ε β} {g : α → β} {as : List α}
    (h : ∀ a ∈ as, f a = .ok (g a)) : as.mapM f = .ok (as.map g) := by
  induction as with
  | nil => rfl
  | cons a as ih =>
    obtain ⟨ha, has⟩ := List.forall_mem_cons.1 h
    rw [List.mapM_cons, ha, ih has]
    rfl

end Fallible
