import Mathlib.Data.List.Basic
import Mathlib.Data.List.Induction

/-!
# Labelled transition systems

`System σ α`: initial states and labelled steps.  `Run S s as t` is a run from
`s` to `t` whose steps carry the labels `as`.  The one induction every safety
proof needs is `System.Reachable.invariant`: what holds initially and is kept
by each step holds in every reachable state.

`S.restrict G` keeps only the steps that meet the guard `G`: its runs are the
runs of `S` whose steps all meet `G` (`Run.of_restrict`).

`Logged P log` says of a log that grows at its end how each entry stands to the
ones before it.
-/

namespace Steps

universe u v

/-- Initial states and labelled steps. -/
structure System (σ : Type u) (α : Type v) where
  init : σ → Prop
  step : σ → α → σ → Prop

namespace System

variable {σ : Type u} {α : Type v} (S : System σ α)

/-- `S.Run s as t`: from `s`, steps labelled `as` lead to `t`. -/
inductive Run : σ → List α → σ → Prop
  | nil (s : σ) : Run s [] s
  | snoc {s t t' : σ} {as : List α} {a : α} :
      Run s as t → S.step t a t' → Run s (as ++ [a]) t'

/-- Reachable from an initial state. -/
def Reachable (t : σ) : Prop := ∃ s as, S.init s ∧ S.Run s as t

/-- Only the steps that meet `G`. -/
def restrict (G : σ → α → Prop) : System σ α where
  init := S.init
  step s a t := S.step s a t ∧ G s a

variable {S}

theorem Run.single {s t : σ} {a : α} (h : S.step s a t) : S.Run s [a] t :=
  Run.snoc (Run.nil s) h

theorem Run.trans {s t t' : σ} {as bs : List α} (h1 : S.Run s as t) (h2 : S.Run t bs t') :
    S.Run s (as ++ bs) t' := by
  induction h2 with
  | nil => simpa using h1
  | snoc _ hstep ih =>
    rw [← List.append_assoc]
    exact Run.snoc ih hstep

theorem Run.cons {s t t' : σ} {a : α} {as : List α} (h1 : S.step s a t) (h2 : S.Run t as t') :
    S.Run s (a :: as) t' :=
  (Run.single h1).trans h2

/-- What each step keeps of the labels so far and the state they lead to. -/
theorem Run.history {P : List α → σ → Prop} {s : σ} (hnil : P [] s)
    (hstep : ∀ as t a t', P as t → S.step t a t' → P (as ++ [a]) t')
    {t : σ} {as : List α} (h : S.Run s as t) : P as t := by
  induction h with
  | nil => exact hnil
  | snoc _ ha ih => exact hstep _ _ _ _ ih ha

theorem Run.of_nil {s t : σ} (h : S.Run s [] t) : t = s := by
  generalize hbs : ([] : List α) = bs at h
  cases h with
  | nil => rfl
  | snoc _ _ => simp at hbs

/-- The last step of a run. -/
theorem Run.of_snoc {s t : σ} {a : α} {as : List α} (h : S.Run s (as ++ [a]) t) :
    ∃ r, S.Run s as r ∧ S.step r a t := by
  generalize hbs : as ++ [a] = bs at h
  cases h with
  | nil => simp at hbs
  | snoc hrun hstep =>
    obtain ⟨rfl, ha⟩ := List.append_inj' hbs rfl
    cases ha
    exact ⟨_, hrun, hstep⟩

/-- A run passes through a state between any two parts of its labels. -/
theorem Run.of_append {s t : σ} {as bs : List α} (h : S.Run s (as ++ bs) t) :
    ∃ r, S.Run s as r ∧ S.Run r bs t := by
  induction bs using List.reverseRecOn generalizing t with
  | nil => exact ⟨t, by simpa using h, Run.nil t⟩
  | append_singleton bs b ih =>
    rw [← List.append_assoc] at h
    obtain ⟨m, hm, hstep⟩ := h.of_snoc
    obtain ⟨r, h1, h2⟩ := ih hm
    exact ⟨r, h1, Run.snoc h2 hstep⟩

/-- The first step of a run. -/
theorem Run.of_cons {s t : σ} {a : α} {as : List α} (h : S.Run s (a :: as) t) :
    ∃ r, S.step s a r ∧ S.Run r as t := by
  have h : S.Run s ([a] ++ as) t := h
  obtain ⟨r, h1, h2⟩ := h.of_append
  obtain ⟨m, h0, hstep⟩ := Run.of_snoc (show S.Run s ([] ++ [a]) r from h1)
  obtain rfl := h0.of_nil
  exact ⟨r, hstep, h2⟩

theorem Reachable.init {s : σ} (h : S.init s) : S.Reachable s := ⟨s, [], h, Run.nil s⟩

theorem Reachable.step {s t : σ} {a : α} (h : S.Reachable s) (hs : S.step s a t) :
    S.Reachable t := by
  obtain ⟨s0, as, hi, hr⟩ := h
  exact ⟨s0, as ++ [a], hi, Run.snoc hr hs⟩

theorem Reachable.run {s t : σ} {as : List α} (h : S.Reachable s) (hr : S.Run s as t) :
    S.Reachable t := by
  obtain ⟨s0, bs, hi, hb⟩ := h
  exact ⟨s0, bs ++ as, hi, hb.trans hr⟩

/-- What each step keeps, a run keeps. -/
theorem Run.keeps {P : σ → Prop} (hstep : ∀ s a t, P s → S.step s a t → P t)
    {s t : σ} {as : List α} (h : S.Run s as t) (hs : P s) : P t := by
  induction h with
  | nil => exact hs
  | snoc _ ha ih => exact hstep _ _ _ ih ha

/-- **Invariant rule.** -/
theorem Reachable.invariant {P : σ → Prop} (hinit : ∀ s, S.init s → P s)
    (hstep : ∀ s a t, P s → S.step s a t → P t) {t : σ} (h : S.Reachable t) : P t := by
  obtain ⟨s, as, hi, hr⟩ := h
  exact hr.keeps hstep (hinit s hi)

/-- The invariant rule, with the invariant known to hold before each step's source too. -/
theorem Reachable.invariant_of {P Q : σ → Prop} (hQ : ∀ s, S.Reachable s → Q s)
    (hinit : ∀ s, S.init s → P s)
    (hstep : ∀ s a t, Q s → P s → S.step s a t → P t) {t : σ} (h : S.Reachable t) : P t := by
  have key : S.Reachable t ∧ P t := by
    obtain ⟨s, as, hi, hr⟩ := h
    refine hr.keeps (P := fun s => S.Reachable s ∧ P s) ?_ ⟨Reachable.init hi, hinit s hi⟩
    rintro s a t ⟨hs, hp⟩ ha
    exact ⟨hs.step ha, hstep s a t (hQ s hs) hp ha⟩
  exact key.2

/-- A guarded run is a run. -/
theorem Run.of_restrict {G : σ → α → Prop} {s t : σ} {as : List α}
    (h : (S.restrict G).Run s as t) : S.Run s as t := by
  induction h with
  | nil => exact Run.nil _
  | snoc _ ha ih => exact Run.snoc ih ha.1

theorem Reachable.of_restrict {G : σ → α → Prop} {t : σ} (h : (S.restrict G).Reachable t) :
    S.Reachable t := by
  obtain ⟨s, as, hi, hr⟩ := h
  exact ⟨s, as, hi, hr.of_restrict⟩

/-- A run whose labels meet a guard in every state is a guarded run. -/
theorem Run.restrict {G : σ → α → Prop} {s t : σ} {as : List α} (h : S.Run s as t)
    (hG : ∀ a ∈ as, ∀ s, G s a) : (S.restrict G).Run s as t := by
  induction h with
  | nil => exact Run.nil _
  | snoc _ ha ih =>
    refine Run.snoc (ih fun a hmem => hG a (List.mem_append_left _ hmem)) ⟨ha, hG _ ?_ _⟩
    exact List.mem_append_right _ List.mem_cons_self

/-! ## Systems given by a step function -/

/-- The labels are the inputs of `f`, which may refuse a step. -/
def ofFun (init : σ → Prop) (f : σ → α → Option σ) : System σ α where
  init := init
  step s a t := f s a = some t

/-- Running `f` over the labels is a run. -/
theorem run_ofFun {init : σ → Prop} {f : σ → α → Option σ} {as : List α} {s t : σ}
    (h : as.foldlM f s = some t) : (ofFun init f).Run s as t := by
  induction as generalizing s with
  | nil =>
    rw [List.foldlM_nil] at h
    cases h
    exact Run.nil _
  | cons a as ih =>
    rw [List.foldlM_cons] at h
    obtain ⟨s', hs, ht⟩ := Option.bind_eq_some_iff.1 h
    exact Run.cons hs (ih ht)

theorem reachable_ofFun {init : σ → Prop} {f : σ → α → Option σ} {as : List α} {s t : σ}
    (hs : init s) (h : as.foldlM f s = some t) : (ofFun init f).Reachable t :=
  ⟨s, as, hs, run_ofFun h⟩

/-- Refuses what `G` does not allow. -/
def guarded (G : σ → α → Prop) [∀ s a, Decidable (G s a)] (f : σ → α → Option σ) (s : σ) (a : α) :
    Option σ :=
  if G s a then f s a else none

theorem run_guarded {init : σ → Prop} {G : σ → α → Prop} [∀ s a, Decidable (G s a)]
    {f : σ → α → Option σ} {as : List α} {s t : σ} (h : (ofFun init (guarded G f)).Run s as t) :
    ((ofFun init f).restrict G).Run s as t := by
  induction h with
  | nil => exact Run.nil _
  | snoc _ ha ih =>
    obtain ⟨hG, hstep⟩ := Option.ite_none_right_eq_some.1 ha
    exact Run.snoc ih ⟨hstep, hG⟩

/-- Running `f` behind a guard reaches what guarded runs reach. -/
theorem reachable_guarded {init : σ → Prop} {G : σ → α → Prop} [∀ s a, Decidable (G s a)]
    {f : σ → α → Option σ} {as : List α} {s t : σ} (hs : init s)
    (h : as.foldlM (guarded G f) s = some t) : ((ofFun init f).restrict G).Reachable t :=
  ⟨s, as, hs, run_guarded (run_ofFun h)⟩

end System

/-! ## Logs -/

section Logs

variable {ε : Type u}

/-- Each entry of a log stands in `P` to the entries before it. -/
def Logged (P : List ε → ε → Prop) (log : List ε) : Prop :=
  ∀ before e after, log = before ++ e :: after → P before e

variable {P : List ε → ε → Prop} {log : List ε}

theorem Logged.nil : Logged P [] := by
  intro before e after heq
  simp at heq

theorem Logged.snoc (h : Logged P log) {e : ε} (he : P log e) : Logged P (log ++ [e]) := by
  intro before x after heq
  -- The entry is the last one, or an entry of the log there was.
  obtain rfl | ⟨after, last, rfl⟩ := after.eq_nil_or_concat
  · obtain ⟨rfl, hx⟩ := List.append_inj' heq rfl
    cases hx
    exact he
  · rw [List.concat_eq_append, ← List.cons_append, ← List.append_assoc] at heq
    exact h before x after (List.append_inj' heq rfl).1

end Logs

end Steps
