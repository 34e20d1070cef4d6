import EpicsIocs.QuadEm.Ring

/-! # Counted acquisitions

In Single and in Multiple mode the callback task counts the arrays it publishes and writes
acquire = 0 at the last one.  `acquisitions_separate`: between a start and the stop behind it there
are at most as many arrays as were asked for, all of samples pushed since the start, and the task
stops at the last of them, as long as an acquisition starts with nothing of the one before on its
way.  Else an array of that one ends it (`stale_array_stops`). -/

namespace QuadEm

open Steps

/-! ## Acquisitions -/

/-- The meter, whose samples are pushed with the number of starts before them, and the acquisition
since the last start: the arrays it is to publish, the ones it has until the stop, and whether the
task has stopped it. -/
structure Acquisition (α : Type) where
  meter : Shared (Nat × α)
  starts : Nat := 0
  limit : Option Int := none
  running : Bool := false
  arrays : List (List (Nat × α)) := []
  ended : Bool := false
  deriving DecidableEq

namespace Acquisition

variable {α : Type}

def tagged (s : Acquisition α) : Event α → Event (Nat × α)
  | .push sample => .push (s.starts, sample)
  | .test => .test
  | .gate => .gate
  | .take thread => .take thread
  | .send thread accepted => .send thread accepted
  | .receive => .receive
  | .check => .check
  | .drain => .drain
  | .count => .count
  | .finish => .finish
  | .average numAverage => .average numAverage
  | .mode acquireMode numAcquire => .mode acquireMode numAcquire
  | .flush => .flush
  | .start => .start
  | .reset => .reset
  | .restart => .restart
  | .stop => .stop

/-- An acquisition starts. -/
def begin (s : Acquisition α) (meter : Shared (Nat × α)) : Acquisition α where
  meter
  starts := s.starts + 1
  limit := if s.meter.acq.mode = .continuous then none else some s.meter.acq.limit
  running := true

/-- The acquisition behind a step of the meter. -/
def after (s : Acquisition α) (meter : Shared (Nat × α)) : Event α → Acquisition α
  | .start => s.begin meter
  | .restart => s.begin meter
  | .stop => { s with meter, running := false }
  | .finish => { s with meter, running := false, ended := s.ended || s.running }
  | .drain =>
    { s with
      meter
      arrays :=
        if s.running then
          s.arrays ++ (meter.drained.drop s.meter.drained.length).filterMap id
        else s.arrays }
  | _ => { s with meter }

def step (s : Acquisition α) (e : Event α) : Option (Acquisition α) :=
  (s.meter.step (s.tagged e)).map fun meter => s.after meter e

def system (capacity : Nat) : System (Acquisition α) (Event α) :=
  .ofFun (fun s => ∃ acq, s = { meter := { ring := .new capacity, acq } }) step

/-- An acquisition starts with no count in flight and an idle task (without a flush, also with an
empty ring); none is received before the new count is set; and while it runs its mode stays. -/
def Separate (s : Acquisition α) : Event α → Prop
  | .start => s.meter.outstanding = [] ∧ s.meter.task = .idle
  | .restart => s.meter.outstanding = [] ∧ s.meter.task = .idle ∧ s.meter.ring.buf = []
  | .receive => s.meter.actor ≠ .starting
  | .mode _ _ => s.running = false
  | _ => True

instance [DecidableEq α] (s : Acquisition α) : (e : Event α) → Decidable (s.Separate e)
  | .start => inferInstanceAs (Decidable (_ ∧ _))
  | .restart => inferInstanceAs (Decidable (_ ∧ _ ∧ _))
  | .receive => inferInstanceAs (Decidable (_ ≠ _))
  | .mode _ _ => inferInstanceAs (Decidable (_ = _))
  | .push _ | .test | .gate | .take _ | .send _ _ | .check | .drain | .count | .finish
  | .average _ | .flush | .reset | .stop => isTrue trivial

/-! ## The count of the arrays -/

end Acquisition

/-- The task has published an array that it has not counted. -/
def Task.uncounted : Task → Int
  | .counting _ => 1
  | _ => 0

/-- Where the task may be when `published` of `limit` arrays are. -/
def Task.Within (limit : Int) (published : Nat) : Task → Prop
  | .idle => published < limit
  | .received _ => published < limit
  | .draining _ numAcquire => numAcquire = some limit ∧ published < limit
  | .counting numAcquire => numAcquire = some limit ∧ published ≤ limit
  | .stopping => (published : Int) = limit

namespace Acquisition

variable {α : Type}

structure Inv (s : Acquisition α) : Prop where
  buf : ∀ x ∈ s.meter.ring.buf, x.1 = s.starts
  arrays : ∀ a ∈ s.arrays, ∀ x ∈ a, x.1 = s.starts
  limit : s.running = true →
    s.limit = if s.meter.acq.mode = .continuous then none else some s.meter.acq.limit
  starting : s.running = true → s.meter.actor = .starting →
    s.arrays = [] ∧ s.meter.task = .idle
  counted : s.running = true → s.meter.actor ≠ .starting →
    s.meter.acq.numAcquired + s.meter.task.uncounted = s.arrays.length
  within : s.running = true → ∀ n, s.limit = some n → 1 ≤ n →
    s.meter.task.Within n s.arrays.length
  atMost : ∀ n, s.limit = some n → 1 ≤ n → s.arrays.length ≤ n
  ended : s.ended = true → s.running = false ∧
    ∀ n, s.limit = some n → 1 ≤ n → (s.arrays.length : Int) = n

variable {s t : Acquisition α} {meter : Shared (Nat × α)}

theorem inv_init {capacity : Nat} (acq : AcqState) :
    Inv ({ meter := { ring := .new capacity, acq } } : Acquisition α) where
  buf _ h := by cases h
  arrays _ h := by cases h
  limit h := by cases h
  starting h := by cases h
  counted h := by cases h
  within h := by cases h
  atMost _ h := by cases h
  ended h := by cases h

/-- A step that leaves the task, the count, the mode and the start alone. -/
theorem Inv.other (h : s.Inv) (hbuf : ∀ x ∈ meter.ring.buf, x.1 = s.starts)
    (htask : meter.task = s.meter.task) (hacq : meter.acq.numAcquired = s.meter.acq.numAcquired)
    (hmode : meter.acq.mode = s.meter.acq.mode) (hlimit : meter.acq.limit = s.meter.acq.limit)
    (hactor : meter.actor = .starting ↔ s.meter.actor = .starting) :
    Inv { s with meter } where
  buf := hbuf
  arrays := h.arrays
  limit hrun := by
    show s.limit = if meter.acq.mode = .continuous then none else some meter.acq.limit
    rw [hmode, hlimit]
    exact h.limit hrun
  starting hrun hstarting := by
    show s.arrays = [] ∧ meter.task = .idle
    rw [htask]
    exact h.starting hrun (hactor.1 hstarting)
  counted hrun hstarting := by
    show meter.acq.numAcquired + meter.task.uncounted = s.arrays.length
    rw [htask, hacq]
    exact h.counted hrun fun hs => hstarting (hactor.2 hs)
  within hrun n hn hpos := by
    show meter.task.Within n s.arrays.length
    rw [htask]
    exact h.within hrun n hn hpos
  atMost := h.atMost
  ended := h.ended

/-- What is not running may go on as it likes. -/
theorem Inv.idle (h : s.Inv) (hbuf : ∀ x ∈ meter.ring.buf, x.1 = s.starts)
    (hrun : s.running = false) : Inv { s with meter } where
  buf := hbuf
  arrays := h.arrays
  limit hr := absurd hr (by rw [hrun]; decide)
  starting hr := absurd hr (by rw [hrun]; decide)
  counted hr := absurd hr (by rw [hrun]; decide)
  within hr := absurd hr (by rw [hrun]; decide)
  atMost := h.atMost
  ended := h.ended

theorem inv_begin (hbuf : meter.ring.buf = []) (hlimit : meter.acq.limit = s.meter.acq.limit)
    (hmode : meter.acq.mode = s.meter.acq.mode) (htask : meter.task = .idle)
    (hacq : meter.actor ≠ .starting → meter.acq.numAcquired = 0) : (s.begin meter).Inv where
  buf x hx := by
    have hx : x ∈ meter.ring.buf := hx
    rw [hbuf] at hx
    cases hx
  arrays _ ha := by cases ha
  limit _ := by
    show (if s.meter.acq.mode = .continuous then none else some s.meter.acq.limit) =
      if meter.acq.mode = .continuous then none else some meter.acq.limit
    rw [hmode, hlimit]
  starting _ _ := ⟨rfl, htask⟩
  counted _ hstarting := by
    show meter.acq.numAcquired + meter.task.uncounted = 0
    rw [htask, hacq hstarting]
    rfl
  within _ n _ hpos := by
    show meter.task.Within n 0
    rw [htask]
    show ((0 : Nat) : Int) < n
    omega
  atMost n _ hpos := by
    show ((0 : Nat) : Int) ≤ n
    omega
  ended h := by cases h

theorem mem_push {ring : RingState α} {x y : α} (h : y ∈ (ring.push x).buf) :
    y ∈ ring.buf ∨ y = x := by
  unfold RingState.push at h
  obtain h | h := List.mem_append.1 h
  · split at h
    · exact .inl (List.mem_of_mem_tail h)
    · exact .inl h
  · exact .inr (List.mem_singleton.1 h)

theorem mem_drain {ring ring' : RingState α} {n : Nat} {samples : List α}
    (h : ring.drain n = some (samples, ring')) :
    (∀ x ∈ samples, x ∈ ring.buf) ∧ ∀ x ∈ ring'.buf, x ∈ ring.buf := by
  unfold RingState.drain at h
  obtain ⟨-, h⟩ := Option.ite_none_left_eq_some.1 h
  obtain ⟨rfl, rfl⟩ := Prod.mk.inj (Option.some.inj h)
  exact ⟨fun x hx => List.mem_of_mem_take hx, fun x hx => List.mem_of_mem_drop hx⟩

/-- A trigger changes neither the samples nor the task. -/
theorem Inv.takeCount (h : s.Inv) {thread : Thread} (hactor : thread = .actor → s.meter.actor = .idle) :
    Inv { s with meter := s.meter.takeCount thread } := by
  unfold Shared.takeCount RingState.takeRawCount
  by_cases hnone : s.meter.ring.rawCount < 1
  · rw [if_pos hnone]
    cases thread with
    | reader => exact h.other h.buf rfl rfl rfl rfl Iff.rfl
    | actor =>
      refine h.other h.buf rfl rfl rfl rfl ?_
      rw [hactor rfl]
      rfl
  · rw [if_neg hnone]
    cases thread with
    | reader => exact h.other h.buf rfl rfl rfl rfl Iff.rfl
    | actor =>
      refine h.other h.buf rfl rfl rfl rfl ?_
      rw [hactor rfl]
      exact ⟨fun hs => (by cases hs), fun hs => (by cases hs)⟩

theorem Inv.send (h : s.Inv) {thread : Thread} {accepted : Bool}
    (hactor : thread = .actor → s.meter.actor = .sending)
    (hm : s.meter.send thread accepted = some meter) : Inv { s with meter } := by
  obtain ⟨own, -, rfl⟩ := Option.map_eq_some_iff.1 hm
  cases thread with
  | reader => exact h.other h.buf rfl rfl rfl rfl Iff.rfl
  | actor =>
    refine h.other h.buf rfl rfl rfl rfl ?_
    rw [hactor rfl]
    exact ⟨fun hs => (by cases hs), fun hs => (by cases hs)⟩

/-- The task has moved on. -/
theorem Inv.task (h : s.Inv) (hstarting : s.running = true → s.meter.actor ≠ .starting)
    (hbuf : ∀ x ∈ meter.ring.buf, x.1 = s.starts) (hactor : meter.actor = s.meter.actor)
    (hmode : meter.acq.mode = s.meter.acq.mode) (hlimit : meter.acq.limit = s.meter.acq.limit)
    {arrays : List (List (Nat × α))} (harrays : ∀ a ∈ arrays, ∀ x ∈ a, x.1 = s.starts)
    (hstopped : s.running = false → arrays = s.arrays)
    (hcounted : s.running = true → meter.acq.numAcquired + meter.task.uncounted = arrays.length)
    (hwithin : s.running = true → ∀ n, s.limit = some n → 1 ≤ n →
      meter.task.Within n arrays.length) : Inv { s with meter, arrays } where
  buf := hbuf
  arrays := harrays
  limit hrun := by
    show s.limit = if meter.acq.mode = .continuous then none else some meter.acq.limit
    rw [hmode, hlimit]
    exact h.limit hrun
  starting hrun hs := absurd (hactor ▸ hs) (hstarting hrun)
  counted hrun _ := hcounted hrun
  within := hwithin
  atMost n hn hpos := by
    show (arrays.length : Int) ≤ n
    by_cases hrun : s.running = true
    · have hw := hwithin hrun n hn hpos
      cases htask : meter.task with
      | idle =>
        rw [htask] at hw
        exact Int.le_of_lt hw
      | received _ =>
        rw [htask] at hw
        exact Int.le_of_lt hw
      | draining _ _ =>
        rw [htask] at hw
        exact Int.le_of_lt hw.2
      | counting _ =>
        rw [htask] at hw
        exact hw.2
      | stopping =>
        rw [htask] at hw
        exact Int.le_of_eq hw
    · rw [hstopped (by simpa using hrun)]
      exact h.atMost n hn hpos
  ended hended := by
    obtain ⟨hrun, hlength⟩ := h.ended hended
    refine ⟨hrun, ?_⟩
    show ∀ n, s.limit = some n → 1 ≤ n → (arrays.length : Int) = n
    rw [hstopped hrun]
    exact hlength

theorem Inv.receive (h : s.Inv) (hok : s.meter.actor ≠ .starting)
    (hm : s.meter.receive = some meter) : Inv { s with meter } := by
  unfold Shared.receive at hm
  split at hm
  · rename_i n queue htask hqueue
    obtain rfl := Option.some.inj hm
    have hcounted := fun hrun => h.counted hrun hok
    have hwithin := h.within
    rw [htask] at hcounted hwithin
    apply h.task fun _ => hok
    · exact h.buf
    · rfl
    · rfl
    · rfl
    · exact h.arrays
    · exact fun _ => rfl
    · intro hrun
      simp only
      split
      · exact hcounted hrun
      · exact hcounted hrun
    · intro hrun n hn hpos
      simp only
      split
      · exact hwithin hrun n hn hpos
      · exact hwithin hrun n hn hpos
  · cases hm

/-- A task that is busy runs in no start. -/
theorem Inv.not_starting (h : s.Inv) (htask : s.meter.task ≠ .idle) (hrun : s.running = true) :
    s.meter.actor ≠ .starting :=
  fun hs => htask (h.starting hrun hs).2

theorem Inv.check (h : s.Inv) (hm : s.meter.check = some meter) : Inv { s with meter } := by
  unfold Shared.check at hm
  split at hm
  · rename_i n htask
    have hbusy := h.not_starting (by rw [htask]; exact fun hidle => by cases hidle)
    have hcounted := fun hrun => h.counted hrun (hbusy hrun)
    have hwithin := h.within
    rw [htask] at hcounted hwithin
    have hlimit := h.limit
    by_cases hwanted : s.meter.wanted
    · rw [if_pos hwanted] at hm
      obtain rfl := Option.some.inj hm
      apply h.task hbusy
      · exact h.buf
      · rfl
      · rfl
      · rfl
      · exact h.arrays
      · exact fun _ => rfl
      · exact hcounted
      · intro hrun n hn hpos
        refine ⟨?_, hwithin hrun n hn hpos⟩
        rw [← hlimit hrun]
        exact hn
    · rw [if_neg hwanted] at hm
      obtain rfl := Option.some.inj hm
      apply h.task hbusy
      · exact h.buf
      · rfl
      · rfl
      · rfl
      · exact h.arrays
      · exact fun _ => rfl
      · exact hcounted
      · exact hwithin
  · cases hm

/-- What a drain adds. -/
theorem drained_behind {β : Type} (drained : List (Option β)) (result : Option β) :
    ((drained ++ [result]).drop drained.length).filterMap id = result.toList := by
  rw [List.drop_left]
  cases result with
  | none => rfl
  | some _ => rfl

theorem Inv.drain (h : s.Inv) (hm : s.meter.drain = some meter) :
    (s.after meter .drain).Inv := by
  unfold Shared.drain at hm
  split at hm
  · rename_i n numAcquire htask
    have hbusy := h.not_starting (by rw [htask]; exact fun hidle => by cases hidle)
    have hcounted := fun hrun => h.counted hrun (hbusy hrun)
    have hwithin := h.within
    rw [htask] at hcounted hwithin
    cases hdrain : s.meter.ring.drain n.toNat with
    | none =>
      rw [hdrain] at hm
      obtain rfl := Option.some.inj hm
      unfold after
      simp only
      rw [drained_behind, Option.toList_none, List.append_nil, ite_self]
      apply h.task hbusy
      · exact h.buf
      · rfl
      · rfl
      · rfl
      · exact h.arrays
      · exact fun _ => rfl
      · exact hcounted
      · exact fun hrun n hn hpos => (hwithin hrun n hn hpos).2
    | some result =>
      rw [hdrain] at hm
      obtain rfl := Option.some.inj hm
      obtain ⟨hsamples, hrest⟩ := mem_drain hdrain
      unfold after
      simp only
      rw [drained_behind, Option.toList_some]
      apply h.task hbusy
      · exact fun x hx => h.buf x (hrest x hx)
      · rfl
      · rfl
      · rfl
      · split
        · intro a ha x hx
          obtain ha | ha := List.mem_append.1 ha
          · exact h.arrays a ha x hx
          · obtain rfl := List.mem_singleton.1 ha
            exact h.buf x (hsamples x hx)
        · exact h.arrays
      · intro hrun
        rw [if_neg (by rw [hrun]; decide)]
      · intro hrun
        have hlength := hcounted hrun
        rw [if_pos hrun, List.length_append, List.length_singleton]
        show s.meter.acq.numAcquired + 1 = _
        have hnone : (Task.draining n numAcquire).uncounted = 0 := rfl
        omega
      · intro hrun n hn hpos
        obtain ⟨hlimit, hlt⟩ := hwithin hrun n hn hpos
        rw [if_pos hrun, List.length_append, List.length_singleton]
        refine ⟨hlimit, ?_⟩
        show ((s.arrays.length + 1 : Nat) : Int) ≤ n
        omega
  · cases hm

theorem Inv.count (h : s.Inv) (hm : s.meter.count = some meter) : Inv { s with meter } := by
  unfold Shared.count at hm
  split at hm
  · rename_i numAcquire htask
    obtain rfl := Option.some.inj hm
    have hbusy := h.not_starting (by rw [htask]; exact fun hidle => by cases hidle)
    have hcounted := fun hrun => h.counted hrun (hbusy hrun)
    have hwithin := h.within
    rw [htask] at hcounted hwithin
    apply h.task hbusy
    · exact h.buf
    · rfl
    · rfl
    · rfl
    · exact h.arrays
    · exact fun _ => rfl
    · intro hrun
      have hlength := hcounted hrun
      have hone : (Task.counting numAcquire).uncounted = 1 := rfl
      simp only
      split
      · show s.meter.acq.numAcquired + 1 + 0 = _
        omega
      · show s.meter.acq.numAcquired + 1 + 0 = _
        omega
    · intro hrun n hn hpos
      have hlength := hcounted hrun
      have hone : (Task.counting numAcquire).uncounted = 1 := rfl
      obtain ⟨hlimit, hle⟩ := hwithin hrun n hn hpos
      simp only
      split
      · rename_i hlast
        rw [hlimit] at hlast
        have hlast := Option.some.inj hlast
        show (s.arrays.length : Int) = n
        omega
      · rename_i hlast
        rw [hlimit] at hlast
        have hlast : ¬n = s.meter.acq.numAcquired + 1 := fun heq => hlast (congrArg some heq)
        show (s.arrays.length : Int) < n
        omega
  · cases hm

/-- What is stopped stays as it is. -/
theorem Inv.stop (h : s.Inv) (hbuf : ∀ x ∈ meter.ring.buf, x.1 = s.starts) {ended : Bool}
    (hended : ended = true → s.ended = true ∨ s.running = true ∧ s.meter.task = .stopping) :
    Inv { s with meter, running := false, ended } where
  buf := hbuf
  arrays := h.arrays
  limit hr := by cases hr
  starting hr := by cases hr
  counted hr := by cases hr
  within hr := by cases hr
  atMost := h.atMost
  ended he := by
    refine ⟨rfl, fun n hn hpos => ?_⟩
    obtain hbefore | ⟨hrun, htask⟩ := hended he
    · exact (h.ended hbefore).2 n hn hpos
    · have hw := h.within hrun n hn hpos
      rw [htask] at hw
      exact hw

/-- What is kept of an allowed step of the meter. -/
theorem allowed {c : Prop} [Decidable c] {x meter : Shared (Nat × α)}
    (h : (if c then some x else none) = some meter) : c ∧ x = meter := by
  obtain ⟨hc, hx⟩ := Option.ite_none_right_eq_some.1 h
  exact ⟨hc, Option.some.inj hx⟩

theorem Inv.step (h : s.Inv) {e : Event α} (hok : s.Separate e) (ht : s.step e = some t) :
    t.Inv := by
  obtain ⟨meter, hm, rfl⟩ := Option.map_eq_some_iff.1 ht
  cases e with
  | push sample =>
    obtain ⟨-, rfl⟩ := allowed hm
    refine h.other (fun x hx => ?_) rfl rfl rfl rfl Iff.rfl
    obtain hx | rfl := mem_push hx
    · exact h.buf x hx
    · rfl
  | test =>
    obtain ⟨-, rfl⟩ := allowed hm
    unfold Shared.test
    split
    · exact h.other h.buf rfl rfl rfl rfl Iff.rfl
    · exact h.other h.buf rfl rfl rfl rfl Iff.rfl
  | gate =>
    obtain ⟨-, rfl⟩ := allowed hm
    exact h.other h.buf rfl rfl rfl rfl Iff.rfl
  | take thread =>
    cases thread with
    | reader =>
      obtain ⟨-, rfl⟩ := allowed hm
      exact h.takeCount fun hactor => by cases hactor
    | actor =>
      obtain ⟨hidle, rfl⟩ := allowed hm
      exact h.takeCount fun _ => hidle
  | send thread accepted =>
    cases thread with
    | reader => exact h.send (fun hactor => by cases hactor) (Option.ite_none_right_eq_some.1 hm).2
    | actor =>
      obtain ⟨hsending, hsend⟩ := Option.ite_none_right_eq_some.1 hm
      exact h.send (fun _ => hsending) hsend
  | receive => exact h.receive hok hm
  | check => exact h.check hm
  | drain => exact h.drain hm
  | count => exact h.count hm
  | finish =>
    obtain ⟨⟨htask, -⟩, rfl⟩ := allowed hm
    apply h.stop
    · exact h.buf
    · intro hended
      obtain hbefore | hrun := Bool.or_eq_true_iff.1 hended
      · exact .inl hbefore
      · exact .inr ⟨hrun, htask⟩
  | average numAverage =>
    obtain ⟨-, rfl⟩ := allowed hm
    exact h.other h.buf rfl rfl rfl rfl Iff.rfl
  | mode acquireMode numAcquire =>
    obtain ⟨-, rfl⟩ := allowed hm
    exact h.idle h.buf hok
  | flush =>
    obtain ⟨-, rfl⟩ := allowed hm
    exact h.other (fun x hx => by cases hx) rfl rfl rfl rfl Iff.rfl
  | start =>
    obtain ⟨-, rfl⟩ := allowed hm
    exact inv_begin rfl rfl rfl hok.2 fun hstarting => absurd rfl hstarting
  | reset =>
    obtain ⟨hstarting, rfl⟩ := allowed hm
    refine ⟨h.buf, h.arrays, h.limit, fun _ hs => (by cases hs), fun hrun _ => ?_, h.within,
      h.atMost, h.ended⟩
    obtain ⟨hnone, htask⟩ := h.starting hrun hstarting
    show 0 + s.meter.task.uncounted = s.arrays.length
    rw [hnone, htask]
    rfl
  | restart =>
    obtain ⟨-, rfl⟩ := allowed hm
    exact inv_begin hok.2.2 rfl rfl hok.2.1 fun _ => rfl
  | stop =>
    obtain ⟨-, rfl⟩ := allowed hm
    exact h.stop h.buf fun hended => .inl hended

theorem inv_of_run {capacity : Nat} (h : ((system capacity).restrict Separate).Reachable s) :
    s.Inv := by
  refine h.invariant ?_ ?_
  · rintro s ⟨acq, rfl⟩
    exact inv_init acq
  · rintro s e t hs ⟨ht, hok⟩
    exact hs.step hok ht

/-- When the acquisitions are separate, one of `n` arrays has at most `n` until it stops, of samples
pushed since it started; the task stops it when it has published the last one, and only then. -/
theorem acquisitions_separate {capacity : Nat}
    (h : ((system capacity).restrict Separate).Reachable s) {n : Int} (hn : s.limit = some n)
    (hpos : 1 ≤ n) :
    s.arrays.length ≤ n ∧ (∀ a ∈ s.arrays, ∀ x ∈ a, x.1 = s.starts) ∧
      (s.ended = true → (s.arrays.length : Int) = n) ∧
      (s.running = true → s.meter.task = .stopping → (s.arrays.length : Int) = n) ∧
      (s.running = true → (s.arrays.length : Int) = n →
        s.meter.task = .counting (some n) ∨ s.meter.task = .stopping) := by
  have hinv := inv_of_run h
  refine ⟨hinv.atMost n hn hpos, hinv.arrays, fun hended => (hinv.ended hended).2 n hn hpos,
    fun hrun htask => ?_, fun hrun hlast => ?_⟩
  · have hw := hinv.within hrun n hn hpos
    rw [htask] at hw
    exact hw
  · have hw := hinv.within hrun n hn hpos
    cases htask : s.meter.task with
    | idle =>
      rw [htask] at hw
      exact absurd hlast (Int.ne_of_lt hw)
    | received _ =>
      rw [htask] at hw
      exact absurd hlast (Int.ne_of_lt hw)
    | draining _ _ =>
      rw [htask] at hw
      exact absurd hlast (Int.ne_of_lt hw.2)
    | counting numAcquire =>
      rw [htask] at hw
      obtain ⟨rfl, -⟩ := hw
      exact .inl rfl
    | stopping => exact .inr rfl

/-! ## Single mode -/

/-- An acquisition starts, and a sample makes an array that is not counted yet. -/
def published : List (Event Nat) :=
  [.average 1, .start, .reset, .push 7, .test, .take .reader, .send .reader true, .receive, .check,
    .drain]

def countedOnce : List (Event Nat) := published ++ [.count, .finish]

def startedAgain : List (Event Nat) := published ++ [.stop, .start, .reset, .count]

def single : Acquisition Nat := { meter := { ring := .new 4, acq := { acquireMode := 2 } } }

theorem acquisitions_separate_single :
    ∃ s : Acquisition Nat, s.arrays = [[(1, 7)]] ∧ s.ended = true ∧
      (s.ended = true → (s.arrays.length : Int) = 1) := by
  have hrun : (countedOnce.foldlM (System.guarded Separate step) single).map
      (fun s => (s.arrays, s.ended, s.limit)) = some ([[(1, 7)]], true, some 1) := by
    decide +kernel
  obtain ⟨s, hs, hview⟩ := Option.map_eq_some_iff.1 hrun
  simp only [Prod.mk.injEq] at hview
  obtain ⟨harrays, hended, hlimit⟩ := hview
  exact ⟨s, harrays, hended, (acquisitions_separate (System.reachable_guarded ⟨_, rfl⟩ hs) hlimit
    (by decide)).2.2.1⟩

/-- Stopped and started again before that array is counted, the task ends the new acquisition with
none published. -/
theorem stale_array_stops :
    ¬∀ s : Acquisition Nat, (system 4).Reachable s → ∀ n, s.limit = some n → 1 ≤ n →
      s.running = true → s.meter.task = .stopping → (s.arrays.length : Int) = n := by
  have hrun : (startedAgain.foldlM step single).map
      (fun s => (s.arrays, s.running, s.meter.task, s.limit)) =
        some ([], true, .stopping, some 1) := by
    decide +kernel
  obtain ⟨s, hs, hview⟩ := Option.map_eq_some_iff.1 hrun
  simp only [Prod.mk.injEq] at hview
  obtain ⟨harrays, hrunning, htask, hlimit⟩ := hview
  intro hall
  have hlast := hall s (System.reachable_ofFun ⟨_, rfl⟩ hs) 1 hlimit (by decide) hrunning htask
  rw [harrays] at hlast
  exact absurd hlast (by decide)

end Acquisition

end QuadEm
