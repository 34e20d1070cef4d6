import Mathlib.Data.List.Basic

/-!
# Values with fields

A value may have fields that are values again, and a field can be replaced, which leaves the
others.  The two laws of one field carry over to paths: what was put is found
(`walk_replace`), and a path that neither extends the path replaced nor is a prefix of it leads
where it did (`walk_replace_ne`).
-/

universe u v

/-- Reading a field, and replacing one, which may fail. -/
structure Fields (V : Type u) (K : Type v) where
  get : V → K → Option V
  set : V → K → V → Option V
  get_set : ∀ {value k x value'}, set value k x = some value' → get value' k = some x
  get_set_ne : ∀ {value k x value' j}, set value k x = some value' → j ≠ k →
    get value' j = get value j

namespace Fields

variable {V : Type u} {K : Type v} (F : Fields V K)

/-- What a path leads to. -/
def walk : V → List K → Option V
  | value, [] => some value
  | value, k :: path => (F.get value k).bind fun field => walk field path

/-- The value with what a path leads to replaced by `x`. -/
def replace (x : V) : V → List K → Option V
  | _, [] => some x
  | value, k :: path =>
    (F.get value k).bind fun field => (replace x field path).bind fun field' => F.set value k field'

variable {F}

theorem replace_cons {x value value' : V} {k : K} {path : List K}
    (h : F.replace x value (k :: path) = some value') :
    ∃ field field', F.get value k = some field ∧ F.replace x field path = some field' ∧
      F.set value k field' = some value' := by
  obtain ⟨field, hget, h⟩ := Option.bind_eq_some_iff.1 h
  obtain ⟨field', hreplace, hset⟩ := Option.bind_eq_some_iff.1 h
  exact ⟨field, field', hget, hreplace, hset⟩

/-- A prefix of the path leads to the value in which the rest was replaced. -/
theorem walk_replace_append {x value value' : V} {path rest : List K}
    (h : F.replace x value (path ++ rest) = some value') :
    ∃ field field', F.walk value path = some field ∧ F.replace x field rest = some field' ∧
      F.walk value' path = some field' := by
  induction path generalizing value value' with
  | nil => exact ⟨value, value', rfl, h, rfl⟩
  | cons k path ih =>
    obtain ⟨next, next', hget, hreplace, hset⟩ := replace_cons h
    obtain ⟨field, field', hwalk, hrest, hwalk'⟩ := ih hreplace
    refine ⟨field, field', ?_, hrest, ?_⟩
    · rw [walk, hget]
      exact hwalk
    · rw [walk, F.get_set hset]
      exact hwalk'

/-- **What was put is found.** -/
theorem walk_replace {x value value' : V} {path : List K}
    (h : F.replace x value path = some value') : F.walk value' path = some x := by
  rw [← List.append_nil path] at h
  obtain ⟨field, field', -, hrest, hwalk⟩ := walk_replace_append h
  rw [hwalk]
  exact hrest.symm

/-- **Everything beside it is as it was.** -/
theorem walk_replace_ne {x value value' : V} {path other : List K}
    (h : F.replace x value path = some value') (h1 : ¬path <+: other) (h2 : ¬other <+: path) :
    F.walk value' other = F.walk value other := by
  induction path generalizing value value' other with
  | nil => exact absurd List.nil_prefix h1
  | cons k path ih =>
    obtain ⟨field, field', hget, hreplace, hset⟩ := replace_cons h
    cases other with
    | nil => exact absurd List.nil_prefix h2
    | cons j other =>
      by_cases hj : j = k
      · subst hj
        rw [walk, walk, F.get_set hset, hget]
        show F.walk field' other = F.walk field other
        apply ih hreplace
        · exact fun hpre => h1 (List.cons_prefix_cons.2 ⟨rfl, hpre⟩)
        · exact fun hpre => h2 (List.cons_prefix_cons.2 ⟨rfl, hpre⟩)
      · rw [walk, walk, F.get_set_ne hset hj]

/-- Where a field is less than what it is a field of, so is what is replaced. -/
theorem lt_of_replace {m : V → Nat} (hm : ∀ value k x value', F.set value k x = some value' →
    m x < m value') {x value value' : V} {path : List K}
    (h : F.replace x value path = some value') (hne : path ≠ []) : m x < m value' := by
  induction path generalizing value value' with
  | nil => exact absurd rfl hne
  | cons k path ih =>
    obtain ⟨field, field', -, hreplace, hset⟩ := replace_cons h
    have hlt := hm _ _ _ _ hset
    by_cases hnil : path = []
    · subst hnil
      cases hreplace
      exact hlt
    · exact Nat.lt_trans (ih hreplace hnil) hlt

end Fields
