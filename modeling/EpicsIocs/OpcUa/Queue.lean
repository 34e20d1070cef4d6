import Mathlib.Data.List.Basic

/-! # The queue of incoming updates of one record

Every record's data element owns one.  The client pushes, the record pops one
update a process cycle.  A full queue drops one update and the survivor counts
the loss; either way the queue is never empty after a push
(`UpdateQueue.push_queue_ne_nil`) and the push answers whether it was empty
before (`UpdateQueue.push_first`). -/

namespace OpcUa

/-- Why a record is being processed. -/
inductive ProcessReason where
  | none
  | incomingData
  | connectionLoss
  | readComplete
  | readFailure
  | writeComplete
  | writeFailure
  | readRequest
  | writeRequest
  deriving DecidableEq, Repr

/-- Where an item is in its lifecycle. -/
inductive ConnectionStatus where
  | down
  | initialRead
  | initialWrite
  | up
  deriving DecidableEq, Repr

/-- One queued update; `V` is the type of the values nodes hold. -/
structure Update (V : Type) where
  reason : ProcessReason
  data : Option V
  status : UInt32
  timestamp : Nat
  /-- How many updates this one replaced because the queue was full. -/
  overrides : Nat
  deriving DecidableEq, Repr

variable {V : Type}

def Update.new (reason : ProcessReason) (data : Option V) (status : UInt32) (timestamp : Nat) :
    Update V :=
  { reason, data, status, timestamp, overrides := 0 }

/-- The newer content wins, and the loss count carries. -/
def Update.takeOverFrom (u other : Update V) : Update V :=
  { other with overrides := u.overrides + (other.overrides + 1) }

/-- `count` updates were lost ahead of this one; the dropped one itself is the `+ 1`. -/
def Update.absorbLost (u : Update V) (count : Nat) : Update V :=
  { u with overrides := u.overrides + (count + 1) }

/-- A bounded queue: the capacity is the link's `cqsize`, the discard policy its
`discard` option. -/
structure UpdateQueue (V : Type) where
  capacity : Nat
  discardOldest : Bool
  queue : List (Update V)
  capacity_pos : 0 < capacity
  fits : queue.length ≤ capacity

namespace UpdateQueue

/-- A capacity of 0 would leave nowhere to put an update, so it is raised to 1. -/
def new (capacity : Nat) (discardOldest : Bool) : UpdateQueue V where
  capacity := max capacity 1
  discardOldest
  queue := []
  capacity_pos := by omega
  fits := by simp

/-- On overrun with `discardOldest` the front goes, and its loss count goes to
the next update, or to the pushed one when nothing else remains. -/
def dropOldest : List (Update V) → Update V → List (Update V)
  | [], update => [update]
  | [dropped], update => [update.absorbLost dropped.overrides]
  | dropped :: next :: rest, update =>
    next.absorbLost dropped.overrides :: (rest ++ [update])

/-- Otherwise the update at the back takes on the new content. -/
def mergeNewest : List (Update V) → Update V → List (Update V)
  | [], update => [update]
  | [back], update => [back.takeOverFrom update]
  | u :: rest, update => u :: mergeNewest rest update

theorem length_dropOldest (q : List (Update V)) (update : Update V) (h : q ≠ []) :
    (dropOldest q update).length = q.length := by
  match q, h with
  | [_], _ => rfl
  | _ :: _ :: rest, _ => simp [dropOldest]

theorem length_mergeNewest (q : List (Update V)) (update : Update V) (h : q ≠ []) :
    (mergeNewest q update).length = q.length := by
  induction q with
  | nil => exact absurd rfl h
  | cons u rest ih =>
    cases rest with
    | nil => rfl
    | cons v rest => simp [mergeNewest, ih (by simp)]

/-- The list a push leaves. -/
def pushed (q : UpdateQueue V) (update : Update V) : List (Update V) :=
  if q.queue.length < q.capacity then q.queue ++ [update]
  else if q.discardOldest then dropOldest q.queue update
  else mergeNewest q.queue update

theorem ne_nil_of_full (q : UpdateQueue V) (h : ¬q.queue.length < q.capacity) : q.queue ≠ [] := by
  intro hnil
  have := q.capacity_pos
  rw [hnil] at h
  exact h this

theorem length_pushed (q : UpdateQueue V) (update : Update V) :
    (q.pushed update).length = min (q.queue.length + 1) q.capacity := by
  have hfits := q.fits
  unfold pushed
  split
  next h => simp; omega
  next h =>
    have hne := q.ne_nil_of_full h
    split
    · rw [length_dropOldest _ _ hne]; omega
    · rw [length_mergeNewest _ _ hne]; omega

/-- Push an update, dropping one if the queue is full; the answer says whether
the queue was empty, the client's signal to request record processing. -/
def push (q : UpdateQueue V) (update : Update V) : UpdateQueue V × Bool :=
  ({ q with
      queue := q.pushed update
      fits := by rw [length_pushed]; omega },
    if q.queue.length < q.capacity then q.queue.isEmpty else false)

/-- Pop the update the record is to process, with the reason the next process
cycle would see. -/
def pop (q : UpdateQueue V) : Option ((Update V × ProcessReason) × UpdateQueue V) :=
  match h : q.queue with
  | [] => none
  | update :: rest =>
    some ((update, (rest.head?.map (·.reason)).getD .none),
      { q with
          queue := rest
          fits := by have := q.fits; rw [h] at this; simp at this; omega })

/-! ## Lemmas -/

theorem push_queue (q : UpdateQueue V) (update : Update V) :
    (q.push update).1.queue = q.pushed update := rfl

theorem push_queue_ne_nil (q : UpdateQueue V) (update : Update V) :
    (q.push update).1.queue ≠ [] := by
  have hlen := q.length_pushed update
  have hpos := q.capacity_pos
  intro hnil
  rw [push_queue] at hnil
  rw [hnil, List.length_nil] at hlen
  omega

/-- A push answers `true` exactly when the queue was empty. -/
theorem push_first (q : UpdateQueue V) (update : Update V) :
    (q.push update).2 = true ↔ q.queue = [] := by
  have hpos := q.capacity_pos
  unfold push
  constructor
  · intro h
    dsimp only at h
    split at h
    · exact List.isEmpty_iff.1 h
    · cases h
  · intro h
    simp [h, hpos]

theorem mem_dropOldest {q : List (Update V)} {update u : Update V} (h : u ∈ dropOldest q update) :
    ∃ v ∈ update :: q, v.reason = u.reason := by
  match q with
  | [] => exact ⟨u, by simpa [dropOldest] using h, rfl⟩
  | [_] =>
    rw [dropOldest, List.mem_singleton] at h
    exact ⟨update, by simp, by rw [h]; rfl⟩
  | dropped :: next :: rest =>
    rw [dropOldest, List.mem_cons, List.mem_append, List.mem_singleton] at h
    obtain rfl | h | rfl := h
    · exact ⟨next, by simp, rfl⟩
    · exact ⟨u, by simp [h], rfl⟩
    · exact ⟨u, by simp, rfl⟩

theorem mem_mergeNewest {q : List (Update V)} {update u : Update V}
    (h : u ∈ mergeNewest q update) : ∃ v ∈ update :: q, v.reason = u.reason := by
  induction q with
  | nil => exact ⟨u, by simpa [mergeNewest] using h, rfl⟩
  | cons w rest ih =>
    cases rest with
    | nil =>
      rw [mergeNewest, List.mem_singleton] at h
      exact ⟨update, by simp, by rw [h]; rfl⟩
    | cons x rest =>
      rw [mergeNewest, List.mem_cons] at h
      · obtain rfl | h := h
        · exact ⟨u, by simp, rfl⟩
        · obtain ⟨v, hv, hreason⟩ := ih h
          exact ⟨v, by simp only [List.mem_cons] at hv ⊢; tauto, hreason⟩
      · exact fun hnil => nomatch hnil

/-- A queued update has the reason of one that was queued or of the pushed one. -/
theorem mem_push {q : UpdateQueue V} {update u : Update V} (h : u ∈ (q.push update).1.queue) :
    ∃ v ∈ update :: q.queue, v.reason = u.reason := by
  rw [push_queue, pushed] at h
  split at h
  · rw [List.mem_append, List.mem_singleton] at h
    exact ⟨u, by simp only [List.mem_cons]; tauto, rfl⟩
  · split at h
    · exact mem_dropOldest h
    · exact mem_mergeNewest h

/-- What a pop takes and leaves. -/
theorem pop_eq_some {q q' : UpdateQueue V} {update : Update V} {next : ProcessReason}
    (h : q.pop = some ((update, next), q')) :
    q.queue = update :: q'.queue ∧ next = (q'.queue.head?.map (·.reason)).getD .none := by
  unfold pop at h
  split at h
  · cases h
  · next u rest hq =>
    cases h
    exact ⟨hq, rfl⟩

theorem pop_eq_none {q : UpdateQueue V} (h : q.pop = none) : q.queue = [] := by
  unfold pop at h
  split at h
  · assumption
  · cases h

end UpdateQueue

end OpcUa
