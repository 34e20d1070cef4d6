import EpicsIocs.Lib.Steps
import EpicsIocs.OpcUa.Device

/-! # No update is stranded

The wake channel has one slot, and only the push of a first update, an owed wake
and a pop that leaves another update behind put a wake-up into it.  `Bound` is one
leaf with the device of its record; its steps are the pushes of the client, the
puts that order an item's action, the passes a pulse brings (`takePulse`, `arm`,
any number of reads, `reconcile`) and the reads of passes no pulse brought.  The
framework runs the passes of a record one at a time.

A pulse's pass with no read is one that was refused before it reached the device
(`DISA`, a breakpoint, simulation mode). -/

namespace OpcUa

open Steps

variable {V : Type}

/-- Where the framework is with the wake-up it took last. -/
inductive PulsePhase where
  | idle
  | taken
  | armed
  deriving DecidableEq, Repr

structure Bound (V : Type) where
  leaf : Leaf V
  device : OpcuaDevice
  record : OpcuaItemRecord
  pulse : PulsePhase

/-- Every update the client queues has a reason. -/
def Pushed (V : Type) : Type := { update : Update V // update.reason ≠ .none }

inductive WakeAct (V : Type) where
  | push (update : Pushed V)
  | order (reason : ProcessReason)
  | setState (state : ConnectionStatus)
  | takePulse
  | arm
  | read
  | reconcile

namespace Bound

/-- A leaf as its record's binding creates it. -/
def start (link : LinkInfo) (isItem isOutput : Bool) (defactn : Nat) : Bound V where
  leaf := .new link
  device := { isItem, isOutput, pulsePass := false }
  record := { defactn, pending := none }
  pulse := .idle

def step (s : Bound V) : WakeAct V → Option (Bound V)
  | .push update => some { s with leaf := s.leaf.push update.1 }
  | .order reason => some { s with record := { s.record with pending := some reason } }
  | .setState state => some { s with leaf := { s.leaf with state } }
  | .takePulse =>
    if s.pulse = .idle ∧ s.leaf.notify = true then
      some { s with leaf := { s.leaf with notify := false }, pulse := .taken }
    else none
  | .arm =>
    if s.pulse = .taken then
      some { s with device := s.device.armReadbackCallback, pulse := .armed }
    else none
  | .read =>
    let (_, device, record, leaf) := s.device.read s.record s.leaf
    some { s with device, record, leaf }
  | .reconcile =>
    if s.pulse = .armed then
      let (device, leaf) := s.device.reconcileReadbackCallback s.leaf
      some { s with device, leaf, pulse := .idle }
    else none

/-- A pulse's pass is in progress that still has to pop or reconcile. -/
def PassToCome (s : Bound V) : Prop :=
  s.pulse = .taken ∨ s.pulse = .armed ∧ s.device.pulsePass = true

/-- Something will still bring a pass for what is queued. -/
def Covered (s : Bound V) : Prop := s.leaf.notify = true ∨ s.PassToCome ∨ s.leaf.owed = true

structure Inv (s : Bound V) : Prop where
  reasons : ∀ update ∈ s.leaf.queue.queue, update.reason ≠ .none
  armed : s.device.pulsePass = true → s.pulse = .armed
  covered : s.leaf.queue.queue ≠ [] → s.Covered

end Bound

/-- Bindings of every link and every kind of record. -/
def wakeSystem (V : Type) : System (Bound V) (WakeAct V) :=
  System.ofFun (fun s => ∃ link isItem isOutput defactn, s = .start link isItem isOutput defactn)
    Bound.step

namespace Bound

/-! ## Lemmas -/

theorem start_inv (link : LinkInfo) (isItem isOutput : Bool) (defactn : Nat) :
    (start link isItem isOutput defactn : Bound V).Inv where
  reasons := fun _ h => nomatch h
  armed := fun h => nomatch h
  covered := fun h => absurd rfl h

theorem push_inv {s : Bound V} (hs : s.Inv) (update : Pushed V) :
    ({ s with leaf := s.leaf.push update.1 } : Bound V).Inv := by
  rw [Leaf.push_eq]
  refine ⟨fun u hu => ?_, hs.armed, fun _ => ?_⟩
  · obtain ⟨v, hv, hreason⟩ := UpdateQueue.mem_push hu
    rw [← hreason]
    obtain rfl | hv := List.mem_cons.1 hv
    · exact update.2
    · exact hs.reasons v hv
  · by_cases hfirst : s.leaf.queue.queue = []
    · -- The first update wakes.
      refine .inl ?_
      simp [(UpdateQueue.push_first s.leaf.queue update.1).2 hfirst]
    · obtain hnotify | hpass | howed := hs.covered hfirst
      · exact .inl (by simp [hnotify])
      · exact .inr (.inl hpass)
      -- An owed wake is paid by this push.
      · exact .inl (by simp [howed])

/-- The pop of a pulse's pass: what it leaves behind it wakes the record for. -/
theorem pop_inv {s : Bound V} (hs : s.Inv) :
    ({ s with device := { s.device with pulsePass := false }, leaf := s.leaf.pop.2 } :
      Bound V).Inv := by
  cases hpop : s.leaf.pop with
  | mk update leaf' =>
    cases update with
    | none =>
      obtain ⟨rfl, hnil⟩ := Leaf.pop_eq_none hpop
      exact ⟨hs.reasons, fun h => (nomatch h), fun h => absurd hnil h⟩
    | some update =>
      obtain ⟨hcons, queue, hleaf⟩ := Leaf.pop_eq_some hpop
      have hreasons : ∀ u ∈ leaf'.queue.queue, u.reason ≠ .none :=
        fun u hu => hs.reasons u (hcons ▸ List.mem_cons_of_mem _ hu)
      refine ⟨hreasons, fun h => (nomatch h), fun hne => .inl ?_⟩
      obtain ⟨next, rest, hrest⟩ := List.exists_cons_of_ne_nil hne
      have hnext := hreasons next (by simp at hrest; simp [hrest])
      have hnotify := congrArg Leaf.notify hleaf
      dsimp only at hrest hnotify ⊢
      rw [hnotify, hrest]
      simp [hnext]

theorem read_inv {s : Bound V} (hs : s.Inv) {deed : Deed V} {device : OpcuaDevice}
    {record : OpcuaItemRecord} {leaf : Leaf V}
    (h : s.device.read s.record s.leaf = (deed, device, record, leaf)) :
    ({ s with device, record, leaf } : Bound V).Inv := by
  obtain ⟨rfl, rfl⟩ | ⟨-, rfl, rfl⟩ := OpcuaDevice.read_cases h
  · exact ⟨hs.reasons, hs.armed, hs.covered⟩
  · have hpop := pop_inv hs
    exact ⟨hpop.reasons, hpop.armed, hpop.covered⟩

theorem takePulse_inv {s : Bound V} (hs : s.Inv) (hidle : s.pulse = .idle) :
    ({ s with leaf := { s.leaf with notify := false }, pulse := .taken } : Bound V).Inv where
  reasons := hs.reasons
  armed := fun h => by rw [hs.armed h] at hidle; cases hidle
  covered := fun _ => .inr (.inl (.inl rfl))

theorem reconcile_inv {s : Bound V} (hs : s.Inv) (harmed : s.pulse = .armed) :
    ({ s with
        device := (s.device.reconcileReadbackCallback s.leaf).1
        leaf := (s.device.reconcileReadbackCallback s.leaf).2
        pulse := .idle } : Bound V).Inv := by
  unfold OpcuaDevice.reconcileReadbackCallback
  refine ⟨?_, fun h => (nomatch h), fun hne => ?_⟩
  · cases s.device.pulsePass <;> exact hs.reasons
  · cases hpass : s.device.pulsePass with
    | true => exact .inr (.inr rfl)
    | false =>
      obtain hnotify | (htaken | ⟨-, hset⟩) | howed := hs.covered (by simpa [hpass] using hne)
      · exact .inl hnotify
      · rw [htaken] at harmed
        cases harmed
      · rw [hset] at hpass
        cases hpass
      · exact .inr (.inr howed)

theorem step_inv {s s' : Bound V} {a : WakeAct V} (hs : s.Inv) (h : s.step a = some s') :
    s'.Inv := by
  cases a with
  | push update =>
    cases h
    exact push_inv hs update
  | order reason =>
    cases h
    exact ⟨hs.reasons, hs.armed, hs.covered⟩
  | setState state =>
    cases h
    exact ⟨hs.reasons, hs.armed, hs.covered⟩
  | takePulse =>
    obtain ⟨⟨hidle, -⟩, heq⟩ := Option.ite_none_right_eq_some.1 h
    cases heq
    exact takePulse_inv hs hidle
  | arm =>
    obtain ⟨-, heq⟩ := Option.ite_none_right_eq_some.1 h
    cases heq
    exact ⟨hs.reasons, fun _ => rfl, fun _ => .inr (.inl (.inr ⟨rfl, rfl⟩))⟩
  | read =>
    cases h
    exact read_inv hs rfl
  | reconcile =>
    obtain ⟨harmed, heq⟩ := Option.ite_none_right_eq_some.1 h
    cases heq
    exact reconcile_inv hs harmed

/-- A step is a push, leaves the queue, or is the pop of an armed pass. -/
theorem step_queue {s s' : Bound V} {a : WakeAct V} (hs : s.Inv) (h : s.step a = some s') :
    (∃ update, a = .push update) ∨ s'.leaf.queue = s.leaf.queue ∨
      a = .read ∧ s.pulse = .armed ∧
        ∃ update, s.leaf.queue.queue = update :: s'.leaf.queue.queue := by
  cases a with
  | push update => exact .inl ⟨update, rfl⟩
  | order reason => cases h; exact .inr (.inl rfl)
  | setState state => cases h; exact .inr (.inl rfl)
  | takePulse =>
    obtain ⟨-, heq⟩ := Option.ite_none_right_eq_some.1 h
    cases heq
    exact .inr (.inl rfl)
  | arm =>
    obtain ⟨-, heq⟩ := Option.ite_none_right_eq_some.1 h
    cases heq
    exact .inr (.inl rfl)
  | read =>
    cases h
    refine .inr ?_
    obtain ⟨-, hleaf⟩ | ⟨hpass, -, hleaf⟩ :=
      OpcuaDevice.read_cases (rfl : s.device.read s.record s.leaf = _)
    · exact .inl (congrArg Leaf.queue hleaf)
    · rw [hleaf]
      cases hpop : s.leaf.pop with
      | mk update leaf' =>
        cases update with
        | none => exact .inl (congrArg Leaf.queue (Leaf.pop_eq_none hpop).1)
        | some update => exact .inr ⟨rfl, hs.armed hpass, update, (Leaf.pop_eq_some hpop).1⟩
  | reconcile =>
    obtain ⟨-, heq⟩ := Option.ite_none_right_eq_some.1 h
    cases heq
    refine .inr (.inl ?_)
    dsimp only
    cases s.device.pulsePass <;> rfl

end Bound

theorem wake_inv {s : Bound V} (h : (wakeSystem V).Reachable s) : s.Inv := by
  refine h.invariant ?_ ?_
  · rintro s ⟨link, isItem, isOutput, defactn, rfl⟩
    exact Bound.start_inv link isItem isOutput defactn
  · intro s a t hs hstep
    exact Bound.step_inv hs hstep

/-- **No stranded update.**  In every reachable state a queued update has a
wake-up in the channel, a pulse's pass still to pop or reconcile, or an owed wake;
and only the read of a pulse's pass pops. -/
theorem no_stranded_update :
    ∀ s : Bound V, (wakeSystem V).Reachable s →
      (s.leaf.queue.queue ≠ [] →
        s.leaf.notify = true ∨ s.PassToCome ∨ s.leaf.owed = true) ∧
      ∀ a s', s.step a = some s' →
        (∃ update, a = .push update) ∨ s'.leaf.queue = s.leaf.queue ∨
          a = .read ∧ s.pulse = .armed ∧
            ∃ update, s.leaf.queue.queue = update :: s'.leaf.queue.queue := by
  intro s hs
  exact ⟨(wake_inv hs).covered, fun a s' hstep => Bound.step_queue (wake_inv hs) hstep⟩

/-- A pulse's pass that a put to READ took: the update stays queued and its wake
is owed. -/
def orderTakesPass : List (WakeAct Nat) :=
  [.push ⟨.new .incomingData (some 7) 0 0, by decide⟩, .takePulse, .order .readRequest, .arm,
    .read, .reconcile]

theorem no_stranded_update_orderTakesPass :
    ∃ s : Bound Nat, (s.leaf.queue.queue.map (·.data), s.leaf.notify, s.leaf.owed) =
        ([some 7], false, true) ∧
      (s.leaf.notify = true ∨ s.PassToCome ∨ s.leaf.owed = true) := by
  let s0 : Bound Nat := .start ⟨3, true, true, .read, []⟩ true false 0
  have hrun : (orderTakesPass.foldlM Bound.step s0).map
      (fun s => (s.leaf.queue.queue.map (·.data), s.leaf.notify, s.leaf.owed)) =
        some ([some 7], false, true) := by decide +kernel
  obtain ⟨s, hs, hview⟩ := Option.map_eq_some_iff.1 hrun
  refine ⟨s, hview, (no_stranded_update s (System.reachable_ofFun ⟨_, _, _, _, rfl⟩ hs)).1 ?_⟩
  intro hnil
  rw [hnil] at hview
  cases hview

end OpcUa
