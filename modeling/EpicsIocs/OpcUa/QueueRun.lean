import EpicsIocs.OpcUa.Queue
import Mathlib.Algebra.BigOperators.Group.List.Basic
import Mathlib.Algebra.Ring.Int.Defs
import Mathlib.Data.List.Induction
import Mathlib.Algebra.GroupWithZero.Nat

/-! # Runs of an update queue

Pushes and pops in any order.  An update stands for itself and for those it replaced
(`weight`): however a push drops one, the weights add up to the pushes, and the contents
that are left are some of the pushed ones, in their order, the newest among them. -/

namespace OpcUa

variable {V : Type}

/-- What an update says. -/
structure Content (V : Type) where
  reason : ProcessReason
  data : Option V
  status : UInt32
  timestamp : Nat
  deriving DecidableEq, Repr

def Update.content (u : Update V) : Content V := ⟨u.reason, u.data, u.status, u.timestamp⟩

/-- Every update is pushed as it is made. -/
def Content.update (c : Content V) : Update V := .new c.reason c.data c.status c.timestamp

inductive QueueOp (V : Type) where
  | push (c : Content V)
  | pop
  deriving DecidableEq, Repr

/-- A queue, what was pushed, and the updates that were popped. -/
structure History (V : Type) where
  queue : UpdateQueue V
  pushed : List (Content V)
  popped : List (Update V)

namespace History

def start (capacity : Nat) (discardOldest : Bool) : History V :=
  ⟨.new capacity discardOldest, [], []⟩

def step (h : History V) : QueueOp V → History V
  | .push c => { h with queue := (h.queue.push c.update).1, pushed := h.pushed ++ [c] }
  | .pop =>
    match h.queue.pop with
    | none => h
    | some ((u, _), queue) => { h with queue, popped := h.popped ++ [u] }

def run (capacity : Nat) (discardOldest : Bool) (ops : List (QueueOp V)) : History V :=
  ops.foldl step (start capacity discardOldest)

end History

/-! ## One push -/

/-- How many pushed updates these stand for. -/
def weight (us : List (Update V)) : Nat := (us.map fun u => u.overrides + 1).sum

theorem weight_append (us vs : List (Update V)) : weight (us ++ vs) = weight us + weight vs := by
  rw [weight, List.map_append, List.sum_append]
  rfl

theorem weight_cons (u : Update V) (us : List (Update V)) :
    weight (u :: us) = u.overrides + 1 + weight us := by
  rw [weight, List.map_cons, List.sum_cons]
  rfl

theorem weight_nil : weight ([] : List (Update V)) = 0 := rfl

theorem weight_eq (us : List (Update V)) :
    weight us = us.length + (us.map (·.overrides)).sum := by
  induction us with
  | nil => rfl
  | cons u us ih =>
    rw [weight_cons, ih, List.length_cons, List.map_cons, List.sum_cons]
    omega

namespace UpdateQueue

theorem weight_dropOldest (q : List (Update V)) (u : Update V) :
    weight (dropOldest q u) = weight q + (u.overrides + 1) := by
  cases q with
  | nil =>
    simp only [dropOldest, weight_cons, weight_nil]
    omega
  | cons dropped q =>
    cases q with
    | nil =>
      simp only [dropOldest, weight_cons, weight_nil, Update.absorbLost]
      omega
    | cons next rest =>
      simp only [dropOldest, weight_cons, weight_nil, weight_append, Update.absorbLost]
      omega

theorem weight_mergeNewest (q : List (Update V)) (u : Update V) :
    weight (mergeNewest q u) = weight q + (u.overrides + 1) := by
  induction q with
  | nil =>
    simp only [mergeNewest, weight_cons, weight_nil]
    omega
  | cons v q ih =>
    cases q with
    | nil =>
      simp only [mergeNewest, weight_cons, weight_nil, Update.takeOverFrom]
      omega
    | cons w rest =>
      have hstep : mergeNewest (v :: w :: rest) u = v :: mergeNewest (w :: rest) u := rfl
      rw [hstep, weight_cons, ih, weight_cons v]
      omega

/-- The front goes, or its place is taken. -/
theorem contents_dropOldest (q : List (Update V)) (u : Update V) :
    ((dropOldest q u).map Update.content).Sublist (q.map Update.content ++ [u.content]) ∧
      ((dropOldest q u).map Update.content).getLast? = some u.content := by
  cases q with
  | nil => exact ⟨List.Sublist.refl _, rfl⟩
  | cons dropped q =>
    cases q with
    | nil => exact ⟨List.sublist_cons_self _ _, rfl⟩
    | cons next rest =>
      have hcontents : (dropOldest (dropped :: next :: rest) u).map Update.content =
          (next :: rest).map Update.content ++ [u.content] := by
        rw [dropOldest, List.map_cons, List.map_append]
        rfl
      rw [hcontents]
      exact ⟨List.sublist_cons_self _ _, List.getLast?_concat⟩

/-- The back goes. -/
theorem contents_mergeNewest {q : List (Update V)} (hne : q ≠ []) (u : Update V) :
    (mergeNewest q u).map Update.content = q.dropLast.map Update.content ++ [u.content] := by
  induction q with
  | nil => exact absurd rfl hne
  | cons v q ih =>
    cases q with
    | nil => rfl
    | cons w rest =>
      have hstep : mergeNewest (v :: w :: rest) u = v :: mergeNewest (w :: rest) u := rfl
      rw [hstep, List.map_cons, ih (List.cons_ne_nil _ _)]
      rfl

theorem capacity_of_pop {q q' : UpdateQueue V} {u : Update V} {next : ProcessReason}
    (h : q.pop = some ((u, next), q')) : q'.capacity = q.capacity := by
  unfold pop at h
  split at h
  · cases h
  · cases h
    rfl

theorem weight_pushed (q : UpdateQueue V) (u : Update V) :
    weight (q.pushed u) = weight q.queue + (u.overrides + 1) := by
  unfold pushed
  split
  · rw [weight_append]
    rfl
  · split
    · exact weight_dropOldest _ _
    · exact weight_mergeNewest _ _

/-- What a push leaves is what was there and the new content, less at most one, and the new content
is last. -/
theorem contents_pushed (q : UpdateQueue V) (u : Update V) :
    ((q.pushed u).map Update.content).Sublist (q.queue.map Update.content ++ [u.content]) ∧
      ((q.pushed u).map Update.content).getLast? = some u.content := by
  unfold pushed
  split
  · rw [List.map_append]
    exact ⟨List.Sublist.refl _, List.getLast?_concat⟩
  · rename_i hfull
    split
    · exact contents_dropOldest _ _
    · rw [contents_mergeNewest (q.ne_nil_of_full hfull)]
      refine ⟨?_, List.getLast?_concat⟩
      apply List.Sublist.append _ (List.Sublist.refl _)
      exact (List.dropLast_sublist _).map _

end UpdateQueue

/-! ## Runs -/

namespace History

structure Inv (capacity : Nat) (h : History V) : Prop where
  capacity : h.queue.capacity = max capacity 1
  pushes : h.pushed.length = weight (h.popped ++ h.queue.queue)
  order : ((h.popped ++ h.queue.queue).map Update.content).Sublist h.pushed
  newest : ((h.popped ++ h.queue.queue).map Update.content).getLast? = h.pushed.getLast?

variable {capacity : Nat} {h : History V}

theorem Inv.push (hinv : Inv capacity h) (c : Content V) : Inv capacity (h.step (.push c)) where
  capacity := hinv.capacity
  pushes := by
    have hpushes := hinv.pushes
    show (h.pushed ++ [c]).length = weight (h.popped ++ h.queue.pushed c.update)
    have hone : c.update.overrides + 1 = 1 := rfl
    rw [weight_append] at hpushes ⊢
    rw [UpdateQueue.weight_pushed, hone, List.length_append, List.length_singleton]
    omega
  order := by
    show ((h.popped ++ h.queue.pushed c.update).map Update.content).Sublist (h.pushed ++ [c])
    have hleft := (UpdateQueue.contents_pushed h.queue c.update).1
    have horder := hinv.order
    rw [List.map_append] at horder ⊢
    calc (h.popped.map Update.content ++ (h.queue.pushed c.update).map Update.content).Sublist
          (h.popped.map Update.content ++ (h.queue.queue.map Update.content ++ [c])) :=
            hleft.append_left _
      _ = h.popped.map Update.content ++ h.queue.queue.map Update.content ++ [c] :=
            (List.append_assoc _ _ _).symm
      List.Sublist _ (h.pushed ++ [c]) := horder.append (List.Sublist.refl _)
  newest := by
    show ((h.popped ++ h.queue.pushed c.update).map Update.content).getLast? =
      (h.pushed ++ [c]).getLast?
    have hlast := (UpdateQueue.contents_pushed h.queue c.update).2
    rw [List.map_append, List.getLast?_append, hlast, List.getLast?_concat]
    rfl

theorem Inv.pop (hinv : Inv capacity h) : Inv capacity (h.step .pop) := by
  cases hpop : h.queue.pop with
  | none =>
    have hsame : h.step .pop = h := by rw [step, hpop]
    rw [hsame]
    exact hinv
  | some r =>
    obtain ⟨⟨u, next⟩, queue⟩ := r
    have hstep : h.step .pop = { h with queue, popped := h.popped ++ [u] } := by rw [step, hpop]
    have hqueue := (UpdateQueue.pop_eq_some hpop).1
    have hsame : h.popped ++ [u] ++ queue.queue = h.popped ++ h.queue.queue := by
      rw [hqueue, List.append_assoc]
      rfl
    rw [hstep]
    refine ⟨?_, ?_, ?_, ?_⟩
    · show queue.capacity = max capacity 1
      rw [UpdateQueue.capacity_of_pop hpop]
      exact hinv.capacity
    · show h.pushed.length = weight (h.popped ++ [u] ++ queue.queue)
      rw [hsame]
      exact hinv.pushes
    · show ((h.popped ++ [u] ++ queue.queue).map Update.content).Sublist h.pushed
      rw [hsame]
      exact hinv.order
    · show ((h.popped ++ [u] ++ queue.queue).map Update.content).getLast? = h.pushed.getLast?
      rw [hsame]
      exact hinv.newest

theorem inv_run (capacity : Nat) (discardOldest : Bool) (ops : List (QueueOp V)) :
    Inv capacity (run capacity discardOldest ops) := by
  induction ops using List.reverseRecOn with
  | nil => exact ⟨rfl, rfl, List.Sublist.refl _, rfl⟩
  | append_singleton ops op ih =>
    have hlast : run capacity discardOldest (ops ++ [op]) =
        (run capacity discardOldest ops).step op := by
      rw [run, List.foldl_append]
      rfl
    rw [hlast]
    cases op with
    | push c => exact ih.push c
    | pop => exact ih.pop

/-- **What every run of pushes and pops keeps.** -/
theorem queue_accounts (capacity : Nat) (discardOldest : Bool) (ops : List (QueueOp V)) :
    let h := run capacity discardOldest ops
    h.queue.queue.length ≤ max capacity 1 ∧
      h.pushed.length = h.popped.length + h.queue.queue.length +
        ((h.popped ++ h.queue.queue).map (·.overrides)).sum ∧
      ((h.popped ++ h.queue.queue).map Update.content).Sublist h.pushed ∧
      (∀ newest, h.pushed.getLast? = some newest →
        (h.queue.queue.getLast?.map Update.content = some newest) ∨
          h.queue.queue = [] ∧ h.popped.getLast?.map Update.content = some newest) ∧
      ∀ c : Content V, (h.queue.push c.update).2 = true ↔ h.queue.queue = [] := by
  have hinv := inv_run capacity discardOldest ops
  generalize run capacity discardOldest ops = h at hinv
  refine ⟨?_, ?_, hinv.order, ?_, fun c => h.queue.push_first c.update⟩
  · rw [← hinv.capacity]
    exact h.queue.fits
  · rw [hinv.pushes, weight_eq, List.length_append]
  · intro newest hnewest
    have hlast := hinv.newest
    rw [hnewest, List.getLast?_map, List.getLast?_append] at hlast
    cases hqueue : h.queue.queue with
    | nil =>
      rw [hqueue] at hlast
      exact .inr ⟨rfl, hlast⟩
    | cons u rest =>
      left
      obtain ⟨back, hback⟩ : ∃ back, (u :: rest).getLast? = some back :=
        ⟨_, List.getLast?_eq_some_getLast (List.cons_ne_nil _ _)⟩
      rw [hqueue, hback] at hlast
      rw [hback]
      exact hlast

/-- A full queue of two that drops the oldest. -/
example : (run 2 true [.push ⟨.incomingData, some 1, 0, 1⟩, .push ⟨.incomingData, some 2, 0, 2⟩,
    .push ⟨.incomingData, some 3, 0, 3⟩]).queue.queue.map (fun u => (u.data, u.overrides)) =
    [(some 2, 1), (some 3, 0)] := by
  decide

end History

end OpcUa
