import Mathlib.Algebra.GroupWithZero.Nat
import Mathlib.Data.List.Basic

/-!
# Transducers

A machine that takes one symbol at a time and gives out some symbols at each: `run` over a list,
and over the parts of it one after the other (`run_append`).  Where each step adds at most one to
the weight of the state and of what is given out, a run adds at most its length (`weight_run`).
-/

namespace Transducer

universe u v w

variable {σ : Type u} {α : Type v} {β : Type w} (step : σ → α → σ × List β)

def run : σ → List α → σ × List β
  | s, [] => (s, [])
  | s, a :: l =>
    let (s, out) := step s a
    let (s, rest) := run s l
    (s, out ++ rest)

theorem run_nil (s : σ) : run step s [] = (s, []) := rfl

theorem run_cons (s : σ) (a : α) (l : List α) :
    run step s (a :: l) =
      ((run step (step s a).1 l).1, (step s a).2 ++ (run step (step s a).1 l).2) := rfl

theorem run_append (s : σ) (l l' : List α) :
    run step s (l ++ l') =
      ((run step (run step s l).1 l').1, (run step s l).2 ++ (run step (run step s l).1 l').2) := by
  induction l generalizing s with
  | nil => rfl
  | cons a l ih => rw [List.cons_append, run_cons, ih, run_cons, List.append_assoc]

variable {step}

/-- Runs that are known on both parts. -/
theorem run_append_of {s s' s'' : σ} {l l' : List α} {out out' : List β}
    (h : run step s l = (s', out)) (h' : run step s' l' = (s'', out')) :
    run step s (l ++ l') = (s'', out ++ out') := by
  rw [run_append, h, h']

/-- A step that gives out nothing, and what follows. -/
theorem run_cons_of {s s' : σ} {a : α} {l : List α} (h : step s a = (s', [])) :
    run step s (a :: l) = run step s' l := by
  rw [run_cons, h, List.nil_append]

/-- What holds of everything each step gives out holds of everything a run does. -/
theorem forall_run {P : β → Prop} (h : ∀ s a, ∀ b ∈ (step s a).2, P b) (s : σ) (l : List α) :
    ∀ b ∈ (run step s l).2, P b := by
  induction l generalizing s with
  | nil => nofun
  | cons a l ih =>
    intro b hb
    rcases List.mem_append.1 hb with hhead | htail
    · exact h s a b hhead
    · exact ih _ b htail

theorem weight_run {weight : σ → Nat} {cost : β → Nat}
    (h : ∀ s a, ((step s a).2.map cost).sum + weight (step s a).1 ≤ weight s + 1) (s : σ)
    (l : List α) :
    ((run step s l).2.map cost).sum + weight (run step s l).1 ≤ weight s + l.length := by
  induction l generalizing s with
  | nil => exact Nat.le_of_eq (Nat.zero_add _)
  | cons a l ih =>
    have hstep := h s a
    have hrest := ih (step s a).1
    rw [run_cons, List.map_append, List.sum_append, List.length_cons]
    dsimp only
    omega

end Transducer
