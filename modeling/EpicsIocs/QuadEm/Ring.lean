import Mathlib.Algebra.Ring.Int.Defs
import Mathlib.Data.List.Basic
import EpicsIocs.Lib.Steps

/-! # The ring of an electrometer

The samples of `drvQuadEM` stay in a ring (`RingState`), and the counts of them that make an array
go through a queue to the callback task.  The read thread, the port actor and the task take their
locks one at a time.

`counts_cover`: the samples in the ring are the ones of the counts in flight, in order, and the
ones that no trigger has taken yet; each count that is drained finds its own, as long as a full
ring or a flush does not take samples away from a count in flight, no count is lost on its way, and
none overtakes another.  A sample pushed into a full ring breaks it (`overflow_breaks_accounting`). -/

namespace QuadEm

open Steps

/-! ## The ring -/

def defaultRingBufferSize : Nat := 2048

structure RingState (α : Type) where
  buf : List α := []
  capacity : Nat
  ringCount : Int := 0
  rawCount : Int := 0
  ringOverflows : Int := 0
  deriving DecidableEq

namespace RingState

variable {α : Type}

def new (capacity : Nat) : RingState α where
  capacity := if capacity = 0 then defaultRingBufferSize else capacity

/-- The oldest sample is discarded when the ring is full. -/
def push (ring : RingState α) (sample : α) : RingState α :=
  let ring :=
    if ring.capacity ≤ ring.buf.length then
      { ring with
        buf := ring.buf.tail
        ringCount := ring.ringCount - 1
        rawCount := ring.rawCount - 1
        ringOverflows := ring.ringOverflows + 1 }
    else ring
  { ring with
    buf := ring.buf ++ [sample]
    ringCount := ring.ringCount + 1
    rawCount := ring.rawCount + 1 }

/-- The oldest `n` samples and the ring without them. -/
def drain (ring : RingState α) (n : Nat) : Option (List α × RingState α) :=
  if ring.buf.length < n then none
  else some (ring.buf.take n,
    { ring with buf := ring.buf.drop n, ringCount := ring.ringCount - n })

def flush (ring : RingState α) : RingState α :=
  { ring with buf := [], ringCount := 0, rawCount := 0 }

def takeRawCount (ring : RingState α) : Option (Int × RingState α) :=
  if ring.rawCount < 1 then none else some (ring.rawCount, { ring with rawCount := 0 })

end RingState

/-! ## Threads -/

inductive AcquireMode where
  | continuous
  | multiple
  | single
  deriving DecidableEq, Repr

def AcquireMode.fromI32 (v : Int) : AcquireMode :=
  if v = 1 then .multiple else if v = 2 then .single else .continuous

structure AcqState where
  numAverage : Int := 0
  acquireMode : Int := 0
  numAcquire : Int := 0
  numAcquired : Int := 0
  deriving DecidableEq, Repr

def AcqState.mode (acq : AcqState) : AcquireMode := .fromI32 acq.acquireMode

/-- The arrays that the task is to publish. -/
def AcqState.limit (acq : AcqState) : Int := if acq.mode = .single then 1 else acq.numAcquire

/-- Who may hold a count that is taken and not sent. -/
inductive Thread where
  | reader
  | actor
  deriving DecidableEq, Repr

inductive Reader where
  | reading
  | pushed
  | due
  | sending
  deriving DecidableEq, Repr

/-- The actor is `starting` between the flush and the new count of an acquisition. -/
inductive Actor where
  | idle
  | sending
  | starting
  deriving DecidableEq, Repr

/-- The callback task, with the arrays it is to publish as it has read them; `none` is no end. -/
inductive Task where
  | idle
  | received (n : Int)
  | draining (n : Int) (numAcquire : Option Int)
  | counting (numAcquire : Option Int)
  | stopping
  deriving DecidableEq, Repr

/-- The count the task holds. -/
def Task.count : Task → List Int
  | .received n => [n]
  | .draining n _ => [n]
  | _ => []

/-- The samples since a trigger or a flush, the ones that the full ring discarded of them first. -/
structure Window (α : Type) where
  since : List α := []
  lost : Nat := 0
  deriving DecidableEq

def Window.samples {α : Type} (w : Window α) : List α := w.since.drop w.lost

/-- The last four tell what has been: the samples since the last trigger, what the triggers took,
what the task drained for each count, and all samples. -/
structure Shared (α : Type) where
  ring : RingState α
  acq : AcqState := {}
  reader : Reader := .reading
  actor : Actor := .idle
  hands : List (Thread × Int) := []
  queue : List Int := []
  task : Task := .idle
  window : Window α := {}
  taken : List (Window α) := []
  drained : List (Option (List α)) := []
  history : List α := []
  deriving DecidableEq

inductive Event (α : Type) where
  | push (sample : α)
  | test
  | gate
  | take (thread : Thread)
  | send (thread : Thread) (accepted : Bool)
  | receive
  | check
  | drain
  | count
  | finish
  | average (numAverage : Int)
  | mode (acquireMode numAcquire : Int)
  | flush
  | start
  | reset
  | restart
  | stop

namespace Shared

variable {α : Type}

/-- The counts in flight: with the task, in the queue, and not sent yet. -/
def outstanding (s : Shared α) : List Int :=
  s.task.count ++ s.queue ++ s.hands.map Prod.snd

/-- The first two steps of `compute_positions`; a device may also trigger at a gate. -/
def push (s : Shared α) (sample : α) : Shared α :=
  { s with
    ring := s.ring.push sample
    reader := .pushed
    window :=
      { since := s.window.since ++ [sample]
        lost := if s.ring.capacity ≤ s.ring.buf.length then s.window.lost + 1 else s.window.lost }
    history := s.history ++ [sample] }

def test (s : Shared α) : Shared α :=
  if 0 < s.acq.numAverage ∧ s.acq.numAverage ≤ s.ring.rawCount then { s with reader := .due }
  else { s with reader := .reading }

/-- `thread` is done with `trigger_callbacks`. -/
def release (s : Shared α) : Thread → Shared α
  | .reader => { s with reader := .reading }
  | .actor => { s with actor := .idle }

/-- `thread` has a count to send. -/
def hold (s : Shared α) : Thread → Shared α
  | .reader => { s with reader := .sending }
  | .actor => { s with actor := .sending }

/-- `trigger_callbacks` up to the send. -/
def takeCount (s : Shared α) (thread : Thread) : Shared α :=
  match s.ring.takeRawCount with
  | none => s.release thread
  | some (n, ring) =>
    { s.hold thread with
      ring
      hands := s.hands ++ [(thread, n)]
      window := {}
      taken := s.taken ++ [s.window] }

/-- `try_send`. -/
def send (s : Shared α) (thread : Thread) (accepted : Bool) : Option (Shared α) :=
  (s.hands.find? (·.1 = thread)).map fun own =>
    { s.release thread with
      hands := s.hands.eraseP (·.1 = thread)
      queue := if accepted then s.queue ++ [own.2] else s.queue }

/-- `callback_loop` to the count. -/
def receive (s : Shared α) : Option (Shared α) :=
  match s.task, s.queue with
  | .idle, n :: queue => some { s with queue, task := if n < 1 then .idle else .received n }
  | _, _ => none

/-- Whether the task drains what it has received. -/
def wanted (s : Shared α) : Prop :=
  s.acq.mode = .continuous ∨ s.acq.numAcquired < s.acq.limit

instance (s : Shared α) : Decidable s.wanted := inferInstanceAs (Decidable (_ ∨ _))

def check (s : Shared α) : Option (Shared α) :=
  match s.task with
  | .received n =>
    if s.wanted then
      some { s with
        task := .draining n (if s.acq.mode = .continuous then none else some s.acq.limit) }
    else some { s with task := .idle }
  | _ => none

/-- `do_data_callbacks`. -/
def drain (s : Shared α) : Option (Shared α) :=
  match s.task with
  | .draining n numAcquire =>
    match s.ring.drain n.toNat with
    | none => some { s with task := .idle, drained := s.drained ++ [none] }
    | some (samples, ring) =>
      some { s with ring, task := .counting numAcquire, drained := s.drained ++ [some samples] }
  | _ => none

def count (s : Shared α) : Option (Shared α) :=
  match s.task with
  | .counting numAcquire =>
    some { s with
      ring.ringOverflows := 0
      acq.numAcquired := s.acq.numAcquired + 1
      task := if numAcquire = some (s.acq.numAcquired + 1) then .stopping else .idle }
  | _ => none

def flush (s : Shared α) : Shared α := { s with ring := s.ring.flush, window := {} }

/-- A step of the read thread, of the task (`receive` to `finish`), or of the actor: its writes of
the averaging time (`average`, `flush`), the mode and the number of arrays, acquire (`start`,
`reset`; `stop`) and the restart of a pause. -/
def step (s : Shared α) : Event α → Option (Shared α)
  | .push sample => if s.reader = .reading then some (s.push sample) else none
  | .test => if s.reader = .pushed then some s.test else none
  | .gate => if s.reader = .reading then some { s with reader := .due } else none
  | .take .reader => if s.reader = .due then some (s.takeCount .reader) else none
  | .take .actor => if s.actor = .idle then some (s.takeCount .actor) else none
  | .send .reader accepted => if s.reader = .sending then s.send .reader accepted else none
  | .send .actor accepted => if s.actor = .sending then s.send .actor accepted else none
  | .receive => s.receive
  | .check => s.check
  | .drain => s.drain
  | .count => s.count
  | .finish => if s.task = .stopping ∧ s.actor = .idle then some { s with task := .idle } else none
  | .average numAverage =>
    if s.actor = .idle then some { s with acq.numAverage := numAverage } else none
  | .mode acquireMode numAcquire =>
    if s.actor = .idle then
      some { s with acq := { s.acq with acquireMode, numAcquire } }
    else none
  | .flush => if s.actor = .idle then some s.flush else none
  | .start => if s.actor = .idle then some { s.flush with actor := .starting } else none
  | .reset =>
    if s.actor = .starting then some { s with acq.numAcquired := 0, actor := .idle } else none
  | .restart => if s.actor = .idle then some { s with acq.numAcquired := 0 } else none
  | .stop => if s.actor = .idle then some s else none

def system (capacity : Nat) : System (Shared α) (Event α) :=
  .ofFun (fun s => ∃ acq, s = { ring := .new capacity, acq }) step

/-- No sample of a count in flight is discarded or flushed, and each count is sent, received and
drained in the order of its trigger. -/
def Sound (s : Shared α) : Event α → Prop
  | .push _ => s.ring.buf.length < s.ring.capacity ∨ s.outstanding = []
  | .flush => s.outstanding = []
  | .start => s.outstanding = []
  | .send thread accepted => accepted = true ∧
      ∀ own ∈ s.hands.find? (·.1 = thread), ∀ h ∈ s.hands.takeWhile (·.1 ≠ thread), h.2 = own.2
  | .check => s.wanted
  | _ => True

instance (s : Shared α) : (e : Event α) → Decidable (s.Sound e)
  | .push _ => inferInstanceAs (Decidable (_ ∨ _))
  | .flush => inferInstanceAs (Decidable (_ = _))
  | .start => inferInstanceAs (Decidable (_ = _))
  | .send _ _ => inferInstanceAs (Decidable (_ ∧ _))
  | .check => inferInstanceAs (Decidable (wanted _))
  | .test | .gate | .take _ | .receive | .drain | .count | .finish | .average _ | .mode _ _
  | .reset | .restart | .stop => isTrue trivial

/-! ## The counts cover the samples -/

/-- The windows of the counts in flight. -/
def ahead (s : Shared α) : List (Window α) := s.taken.drop s.drained.length

structure Inv (s : Shared α) : Prop where
  capacity : 0 < s.ring.capacity
  lost : s.window.lost ≤ s.window.since.length
  buf : s.ring.buf = s.ahead.flatMap Window.samples ++ s.window.samples
  raw : s.ring.rawCount = s.window.samples.length
  counts : s.outstanding = s.ahead.map fun w => (w.samples.length : Int)
  drained : s.drained = (s.taken.take s.drained.length).map fun w => some w.samples
  history : (s.taken.flatMap Window.samples ++ s.window.samples).Sublist s.history
  nonempty : ∀ w ∈ s.taken, 1 ≤ w.samples.length

variable {s t : Shared α}

theorem inv_init {capacity : Nat} (acq : AcqState) :
    Inv ({ ring := .new capacity, acq } : Shared α) where
  capacity := by
    show 0 < if capacity = 0 then defaultRingBufferSize else capacity
    split
    · decide
    · omega
  lost := Nat.le_refl _
  buf := rfl
  raw := rfl
  counts := rfl
  drained := rfl
  history := List.Sublist.refl _
  nonempty _ h := by cases h

/-- A step that leaves the ring, the windows and the counts in flight as they are. -/
theorem Inv.other (h : s.Inv) (hbuf : t.ring.buf = s.ring.buf) (hraw : t.ring.rawCount = s.ring.rawCount)
    (hcapacity : t.ring.capacity = s.ring.capacity) (hcounts : t.outstanding = s.outstanding)
    (hwindow : t.window = s.window) (htaken : t.taken = s.taken) (hdrained : t.drained = s.drained)
    (hhistory : t.history = s.history) : t.Inv := by
  have hahead : t.ahead = s.ahead := by
    unfold ahead
    rw [htaken, hdrained]
  refine ⟨?_, ?_, ?_, ?_, ?_, ?_, ?_, ?_⟩
  · rw [hcapacity]
    exact h.capacity
  · rw [hwindow]
    exact h.lost
  · rw [hbuf, hahead, hwindow]
    exact h.buf
  · rw [hraw, hwindow]
    exact h.raw
  · rw [hcounts, hahead]
    exact h.counts
  · rw [hdrained, htaken]
    exact h.drained
  · rw [htaken, hwindow, hhistory]
    exact h.history
  · rw [htaken]
    exact h.nonempty

theorem Inv.ahead_eq_nil (h : s.Inv) (hs : s.outstanding = []) : s.ahead = [] := by
  have hcounts := h.counts
  rw [hs] at hcounts
  exact List.map_eq_nil_iff.1 hcounts.symm

theorem Inv.push (h : s.Inv) (x : α) (hok : s.Sound (.push x)) : (s.push x).Inv := by
  have hbuf := h.buf
  have hraw := h.raw
  have hlost := h.lost
  by_cases hfull : s.ring.capacity ≤ s.ring.buf.length
  · -- What is discarded is the oldest of the window.
    have hahead : s.ahead = [] := by
      obtain hroom | hnone := hok
      · omega
      · exact h.ahead_eq_nil hnone
    rw [hahead, List.flatMap_nil, List.nil_append] at hbuf
    have hcapacity := h.capacity
    have hsome : s.window.lost < s.window.since.length := by
      have hlength := congrArg List.length hbuf
      rw [Window.samples, List.length_drop] at hlength
      omega
    have hwindow : (s.push x).window.samples = s.window.samples.tail ++ [x] := by
      unfold Shared.push Window.samples
      simp only [if_pos hfull]
      rw [List.drop_append_of_le_length (by omega), List.tail_drop]
    have hpushed : (s.push x).ring.buf = s.ring.buf.tail ++ [x] := by
      unfold Shared.push RingState.push
      simp only [if_pos hfull]
    refine ⟨?_, ?_, ?_, ?_, h.counts, h.drained, ?_, h.nonempty⟩
    · unfold Shared.push RingState.push
      simp only [if_pos hfull]
      exact hcapacity
    · unfold Shared.push
      simp only [if_pos hfull, List.length_append, List.length_singleton]
      omega
    · rw [hpushed, hwindow, hbuf]
      show _ = s.ahead.flatMap Window.samples ++ _
      rw [hahead, List.flatMap_nil, List.nil_append]
    · rw [hwindow, List.length_append, List.length_tail, List.length_singleton]
      unfold Shared.push RingState.push
      simp only [if_pos hfull]
      rw [hraw]
      have hpositive : 0 < s.window.samples.length := by
        rw [Window.samples, List.length_drop]
        omega
      omega
    · rw [hwindow, ← List.append_assoc]
      refine List.Sublist.append (List.Sublist.trans ?_ h.history) (List.Sublist.refl _)
      exact List.Sublist.append (List.Sublist.refl _) (List.tail_sublist _)
  · have hwindow : (s.push x).window.samples = s.window.samples ++ [x] := by
      unfold Shared.push Window.samples
      simp only [if_neg hfull]
      exact List.drop_append_of_le_length hlost
    have hpushed : (s.push x).ring.buf = s.ring.buf ++ [x] := by
      unfold Shared.push RingState.push
      simp only [if_neg hfull]
    refine ⟨?_, ?_, ?_, ?_, h.counts, h.drained, ?_, h.nonempty⟩
    · unfold Shared.push RingState.push
      simp only [if_neg hfull]
      exact h.capacity
    · unfold Shared.push
      simp only [if_neg hfull, List.length_append, List.length_singleton]
      omega
    · rw [hpushed, hwindow, hbuf, List.append_assoc]
      rfl
    · rw [hwindow, List.length_append, List.length_singleton]
      unfold Shared.push RingState.push
      simp only [if_neg hfull]
      rw [hraw]
      omega
    · rw [hwindow, ← List.append_assoc]
      exact List.Sublist.append h.history (List.Sublist.refl _)

theorem Inv.flush (h : s.Inv) (hnone : s.outstanding = []) : s.flush.Inv where
  capacity := h.capacity
  lost := Nat.le_refl _
  buf := by
    show [] = s.ahead.flatMap Window.samples ++ []
    rw [h.ahead_eq_nil hnone]
    rfl
  raw := rfl
  counts := h.counts
  drained := h.drained
  history := by
    refine List.Sublist.trans ?_ h.history
    exact List.Sublist.append (List.Sublist.refl _) (List.nil_sublist _)
  nonempty := h.nonempty

theorem Inv.drained_le (h : s.Inv) : s.drained.length ≤ s.taken.length := by
  have hlength := congrArg List.length h.drained
  rw [List.length_map, List.length_take] at hlength
  omega

/-- A count is taken: its window is the one since the trigger before. -/
theorem Inv.taken (h : s.Inv) (hsome : ¬s.ring.rawCount < 1)
    (hring : t.ring = { s.ring with rawCount := 0 })
    (hcounts : t.outstanding = s.outstanding ++ [s.ring.rawCount]) (hwindow : t.window = {})
    (htaken : t.taken = s.taken ++ [s.window]) (hdrained : t.drained = s.drained)
    (hhistory : t.history = s.history) : t.Inv := by
  have hle := h.drained_le
  have hraw := h.raw
  have hahead : t.ahead = s.ahead ++ [s.window] := by
    unfold ahead
    rw [htaken, hdrained, List.drop_append_of_le_length hle]
  have hempty : t.window.samples = [] := by
    rw [hwindow]
    rfl
  refine ⟨?_, ?_, ?_, ?_, ?_, ?_, ?_, ?_⟩
  · rw [hring]
    exact h.capacity
  · rw [hwindow]
    exact Nat.le_refl _
  · rw [hring, hahead, hempty, List.flatMap_append, List.flatMap_singleton, List.append_nil]
    exact h.buf
  · rw [hring, hempty]
    rfl
  · rw [hcounts, hahead, h.counts, hraw, List.map_append, List.map_singleton]
  · rw [hdrained, htaken, List.take_append_of_le_length hle]
    exact h.drained
  · rw [htaken, hempty, hhistory, List.flatMap_append, List.flatMap_singleton, List.append_nil]
    exact h.history
  · intro w hw
    rw [htaken] at hw
    obtain hw | hw := List.mem_append.1 hw
    · exact h.nonempty w hw
    · obtain rfl := List.mem_singleton.1 hw
      omega

theorem Inv.takeCount (h : s.Inv) (thread : Thread) : (s.takeCount thread).Inv := by
  unfold Shared.takeCount RingState.takeRawCount
  by_cases hnone : s.ring.rawCount < 1
  · rw [if_pos hnone]
    cases thread with
    | reader => exact h.other rfl rfl rfl rfl rfl rfl rfl rfl
    | actor => exact h.other rfl rfl rfl rfl rfl rfl rfl rfl
  · rw [if_neg hnone]
    have hcounts : ∀ u : Shared α, u.task = s.task → u.queue = s.queue →
        u.hands = s.hands ++ [(thread, s.ring.rawCount)] →
        u.outstanding = s.outstanding ++ [s.ring.rawCount] := by
      intro u htask hqueue hhands
      unfold outstanding
      rw [htask, hqueue, hhands, List.map_append, List.map_singleton, ← List.append_assoc]
    cases thread with
    | reader => exact h.taken hnone rfl (hcounts _ rfl rfl rfl) rfl rfl rfl rfl
    | actor => exact h.taken hnone rfl (hcounts _ rfl rfl rfl) rfl rfl rfl rfl

/-- Of equal counts, it does not matter which is sent. -/
theorem erase_counts {p : Thread × Int → Bool} {own : Thread × Int} {hands : List (Thread × Int)}
    (hfind : hands.find? p = some own)
    (hbefore : ∀ h ∈ hands.takeWhile fun h => !p h, h.2 = own.2) :
    own.2 :: (hands.eraseP p).map Prod.snd = hands.map Prod.snd := by
  induction hands with
  | nil => cases hfind
  | cons hand hands ih =>
    by_cases hown : p hand = true
    · rw [List.find?_cons_of_pos hown] at hfind
      obtain rfl := Option.some.inj hfind
      rw [List.eraseP_cons_of_pos hown, List.map_cons]
    · rw [List.find?_cons_of_neg hown] at hfind
      have hwhile : (hand :: hands).takeWhile (fun h => !p h) =
          hand :: hands.takeWhile fun h => !p h := List.takeWhile_cons_of_pos (by simpa using hown)
      rw [hwhile] at hbefore
      have hsame := hbefore hand List.mem_cons_self
      have hrest := ih hfind fun h hh => hbefore h (List.mem_cons_of_mem _ hh)
      rw [List.eraseP_cons_of_neg hown, List.map_cons, List.map_cons, ← hrest, hsame]

theorem Inv.send (h : s.Inv) {thread : Thread} {accepted : Bool}
    (hok : s.Sound (.send thread accepted)) (ht : s.send thread accepted = some t) : t.Inv := by
  obtain ⟨rfl, hbefore⟩ := hok
  obtain ⟨own, hfind, rfl⟩ := Option.map_eq_some_iff.1 ht
  have hwhile : (s.hands.takeWhile fun h => !decide (h.1 = thread)) =
      s.hands.takeWhile (·.1 ≠ thread) := by
    simp
  have herase := erase_counts hfind (by rw [hwhile]; exact hbefore own hfind)
  have hcounts : ∀ u : Shared α, u.task = s.task → u.queue = s.queue ++ [own.2] →
      u.hands = s.hands.eraseP (·.1 = thread) → u.outstanding = s.outstanding := by
    intro u htask hqueue hhands
    unfold outstanding
    rw [htask, hqueue, hhands, ← herase]
    simp only [List.append_assoc, List.cons_append, List.nil_append]
  cases thread with
  | reader => exact h.other rfl rfl rfl (hcounts _ rfl rfl rfl) rfl rfl rfl rfl
  | actor => exact h.other rfl rfl rfl (hcounts _ rfl rfl rfl) rfl rfl rfl rfl

/-- A count in flight is of the oldest window. -/
theorem Inv.front (h : s.Inv) {n : Int} {rest : List Int} (hn : s.outstanding = n :: rest) :
    ∃ w ws, s.ahead = w :: ws ∧ n = w.samples.length ∧ 1 ≤ w.samples.length ∧
      rest = ws.map fun w => (w.samples.length : Int) := by
  have hcounts := h.counts
  rw [hn] at hcounts
  obtain ⟨w, ws, hahead, hw, hws⟩ := List.map_eq_cons_iff.1 hcounts.symm
  have hmem : w ∈ s.taken := by
    refine List.mem_of_mem_drop (i := s.drained.length) ?_
    show w ∈ s.ahead
    rw [hahead]
    exact List.mem_cons_self
  exact ⟨w, ws, hahead, hw.symm, h.nonempty w hmem, hws.symm⟩

theorem Inv.receive (h : s.Inv) (ht : s.receive = some t) : t.Inv := by
  unfold Shared.receive at ht
  split at ht
  · rename_i n queue htask hqueue
    obtain rfl := Option.some.inj ht
    have hout : s.outstanding = n :: (queue ++ s.hands.map Prod.snd) := by
      unfold outstanding
      rw [htask, hqueue]
      rfl
    obtain ⟨w, ws, -, hn, hpos, -⟩ := h.front hout
    have hreceived : ¬n < 1 := by omega
    refine h.other rfl rfl rfl ?_ rfl rfl rfl rfl
    unfold outstanding
    simp only [if_neg hreceived]
    rw [htask, hqueue]
    rfl
  · cases ht

theorem Inv.check (h : s.Inv) (hok : s.wanted) (ht : s.check = some t) : t.Inv := by
  unfold Shared.check at ht
  split at ht
  · rename_i n htask
    rw [if_pos hok] at ht
    obtain rfl := Option.some.inj ht
    refine h.other rfl rfl rfl ?_ rfl rfl rfl rfl
    unfold outstanding
    rw [htask]
    rfl
  · cases ht

theorem Inv.drain (h : s.Inv) (ht : s.drain = some t) : t.Inv := by
  unfold Shared.drain at ht
  split at ht
  · rename_i n numAcquire htask
    have hout : s.outstanding = n :: (s.queue ++ s.hands.map Prod.snd) := by
      unfold outstanding
      rw [htask]
      rfl
    obtain ⟨w, ws, hahead, hn, -, hrest⟩ := h.front hout
    have hcount : n.toNat = w.samples.length := by omega
    have hbuf := h.buf
    rw [hahead, List.flatMap_cons, List.append_assoc] at hbuf
    have hdrain : s.ring.drain n.toNat = some (w.samples,
        { s.ring with
          buf := ws.flatMap Window.samples ++ s.window.samples
          ringCount := s.ring.ringCount - n.toNat }) := by
      unfold RingState.drain
      rw [hcount, hbuf, if_neg (by rw [List.length_append]; omega),
        List.take_append_of_le_length (Nat.le_refl _), List.take_length,
        List.drop_append_of_le_length (Nat.le_refl _), List.drop_length, List.nil_append]
    rw [hdrain] at ht
    obtain rfl := Option.some.inj ht
    have hnext : s.taken.drop (s.drained.length + 1) = ws := by
      rw [← List.tail_drop]
      show s.ahead.tail = ws
      rw [hahead, List.tail_cons]
    have hat : s.taken[s.drained.length]? = some w := by
      have hhead : s.ahead[0]? = some w := by rw [hahead, List.getElem?_cons_zero]
      rw [ahead, List.getElem?_drop, Nat.add_zero] at hhead
      exact hhead
    refine ⟨h.capacity, h.lost, ?_, h.raw, ?_, ?_, h.history, h.nonempty⟩
    · unfold ahead
      simp only [List.length_append, List.length_singleton]
      rw [hnext]
    · unfold ahead outstanding
      simp only [List.length_append, List.length_singleton]
      rw [hnext, ← hrest]
      rfl
    · simp only [List.length_append, List.length_singleton]
      rw [List.take_add_one, hat, List.map_append, ← h.drained]
      rfl
  · cases ht

theorem Inv.count (h : s.Inv) (ht : s.count = some t) : t.Inv := by
  unfold Shared.count at ht
  split at ht
  · rename_i numAcquire htask
    obtain rfl := Option.some.inj ht
    refine h.other rfl rfl rfl ?_ rfl rfl rfl rfl
    unfold outstanding
    rw [htask]
    simp only
    split
    · rfl
    · rfl
  · cases ht

theorem Inv.step (h : s.Inv) {e : Event α} (hok : s.Sound e) (ht : s.step e = some t) : t.Inv := by
  cases e with
  | push x =>
    obtain ⟨-, hx⟩ := Option.ite_none_right_eq_some.1 ht
    obtain rfl := Option.some.inj hx
    exact h.push x hok
  | test =>
    obtain ⟨-, hx⟩ := Option.ite_none_right_eq_some.1 ht
    obtain rfl := Option.some.inj hx
    unfold test
    split
    · exact h.other rfl rfl rfl rfl rfl rfl rfl rfl
    · exact h.other rfl rfl rfl rfl rfl rfl rfl rfl
  | take thread =>
    cases thread with
    | reader =>
      obtain ⟨-, hx⟩ := Option.ite_none_right_eq_some.1 ht
      obtain rfl := Option.some.inj hx
      exact h.takeCount .reader
    | actor =>
      obtain ⟨-, hx⟩ := Option.ite_none_right_eq_some.1 ht
      obtain rfl := Option.some.inj hx
      exact h.takeCount .actor
  | send thread accepted =>
    cases thread with
    | reader => exact h.send hok (Option.ite_none_right_eq_some.1 ht).2
    | actor => exact h.send hok (Option.ite_none_right_eq_some.1 ht).2
  | receive => exact h.receive ht
  | check => exact h.check hok ht
  | drain => exact h.drain ht
  | count => exact h.count ht
  | finish =>
    obtain ⟨⟨htask, -⟩, hx⟩ := Option.ite_none_right_eq_some.1 ht
    obtain rfl := Option.some.inj hx
    refine h.other rfl rfl rfl ?_ rfl rfl rfl rfl
    unfold outstanding
    rw [htask]
    rfl
  | flush =>
    obtain ⟨-, hx⟩ := Option.ite_none_right_eq_some.1 ht
    obtain rfl := Option.some.inj hx
    exact h.flush hok
  | start =>
    obtain ⟨-, hx⟩ := Option.ite_none_right_eq_some.1 ht
    obtain rfl := Option.some.inj hx
    exact (h.flush hok).other rfl rfl rfl rfl rfl rfl rfl rfl
  | gate =>
    obtain ⟨-, hx⟩ := Option.ite_none_right_eq_some.1 ht
    obtain rfl := Option.some.inj hx
    exact h.other rfl rfl rfl rfl rfl rfl rfl rfl
  | average numAverage =>
    obtain ⟨-, hx⟩ := Option.ite_none_right_eq_some.1 ht
    obtain rfl := Option.some.inj hx
    exact h.other rfl rfl rfl rfl rfl rfl rfl rfl
  | mode acquireMode numAcquire =>
    obtain ⟨-, hx⟩ := Option.ite_none_right_eq_some.1 ht
    obtain rfl := Option.some.inj hx
    exact h.other rfl rfl rfl rfl rfl rfl rfl rfl
  | reset =>
    obtain ⟨-, hx⟩ := Option.ite_none_right_eq_some.1 ht
    obtain rfl := Option.some.inj hx
    exact h.other rfl rfl rfl rfl rfl rfl rfl rfl
  | restart =>
    obtain ⟨-, hx⟩ := Option.ite_none_right_eq_some.1 ht
    obtain rfl := Option.some.inj hx
    exact h.other rfl rfl rfl rfl rfl rfl rfl rfl
  | stop =>
    obtain ⟨-, hx⟩ := Option.ite_none_right_eq_some.1 ht
    obtain rfl := Option.some.inj hx
    exact h

theorem inv_of_run {capacity : Nat} (h : ((system capacity).restrict Sound).Reachable s) :
    s.Inv := by
  refine h.invariant ?_ ?_
  · rintro s ⟨acq, rfl⟩
    exact inv_init acq
  · rintro s e t hs ⟨ht, hok⟩
    exact hs.step hok ht

/-- In a sound run each drain finds exactly the samples since the trigger before its own, oldest
first and in none but one array, and the count since the last trigger is of the samples that no
count in flight covers. -/
theorem counts_cover {capacity : Nat} (h : ((system capacity).restrict Sound).Reachable s) :
    s.drained = (s.taken.take s.drained.length).map (fun w => some w.samples) ∧
      s.outstanding = (s.taken.drop s.drained.length).map (fun w => (w.samples.length : Int)) ∧
      (s.taken.flatMap Window.samples).Sublist s.history ∧
      0 ≤ s.ring.rawCount ∧ s.ring.rawCount + s.outstanding.sum = s.ring.buf.length := by
  have hinv := inv_of_run h
  have hraw := hinv.raw
  refine ⟨hinv.drained, hinv.counts, ?_, by omega, ?_⟩
  · exact (List.sublist_append_left _ _).trans hinv.history
  · have hsum : ∀ ws : List (Window α), (ws.map fun w => (w.samples.length : Int)).sum =
        (ws.flatMap Window.samples).length := by
      intro ws
      induction ws with
      | nil => rfl
      | cons w ws ih =>
        rw [List.map_cons, List.sum_cons, ih, List.flatMap_cons, List.length_append]
        omega
    rw [hinv.counts, hsum, hinv.buf, List.length_append]
    omega

/-! ## Two samples an array -/

/-- Samples 1 and 2, whose count is sent, and sample 3. -/
def threeSamples : List (Event Nat) :=
  [.average 2, .push 1, .test, .push 2, .test, .take .reader, .send .reader true, .push 3, .test]

/-- The task takes a count and drains it. -/
def oneArray : List (Event Nat) := [.receive, .check, .drain]

theorem counts_cover_oneArray :
    ∃ s : Shared Nat, s.drained = [some [1, 2]] ∧
      s.ring.rawCount + s.outstanding.sum = s.ring.buf.length := by
  have hrun : ((threeSamples ++ oneArray).foldlM (System.guarded Sound step)
      ({ ring := .new 4, acq := {} } : Shared Nat)).map drained = some [some [1, 2]] := by
    decide +kernel
  obtain ⟨s, hs, hdrained⟩ := Option.map_eq_some_iff.1 hrun
  exact ⟨s, hdrained, (counts_cover (System.reachable_guarded ⟨_, rfl⟩ hs)).2.2.2.2⟩

/-- In a ring of two, sample 3 takes sample 1 away from the count that is sent: its array is 2
and 3. -/
theorem overflow_breaks_accounting :
    ¬∀ s : Shared Nat, (system 2).Reachable s →
      s.drained = (s.taken.take s.drained.length).map fun w => some w.samples := by
  have hrun : ((threeSamples ++ oneArray).foldlM step
      ({ ring := .new 2, acq := {} } : Shared Nat)).map (fun s => (s.drained, s.taken)) =
        some ([some [2, 3]], [{ since := [1, 2], lost := 0 }]) := by
    decide +kernel
  obtain ⟨s, hs, hview⟩ := Option.map_eq_some_iff.1 hrun
  obtain ⟨hdrained, htaken⟩ := Prod.mk.inj hview
  intro hall
  have heq := hall s (System.reachable_ofFun ⟨_, rfl⟩ hs)
  rw [hdrained, htaken] at heq
  exact absurd heq (by decide)

end Shared

end QuadEm
