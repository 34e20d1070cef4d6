import EpicsIocs.OpcUa.ConnectionLoss

/-! # The dispatcher tasks

Each subscription of a connection has a task of its own.  It takes notifications
out of its channel, finds the item in the connection's list of monitored items by
the client handle, and gives it the value (`Item.setIncomingData`, which sets the
item's last value and its leaves).  A task holds its channel and the list for as
long as it runs, so it outlives the connection.

* Each notification goes to the item that was monitored under its client handle
  on its connection (`ToMonitored`).
* A notification that is still with a dispatcher when the item is given the
  connection's loss is applied afterwards (`late_notification_is_applied`); where
  none is, none is (`notifications_applied`).

The log is a ghost: the monitored items created, the losses given and the
notifications applied, in the order they happened. -/

namespace OpcUa

open Steps

variable {V : Type}

/-- A value the server pushed. -/
structure Notification (V : Type) where
  clientHandle : Nat
  value : V
  status : UInt32
  timestamp : Nat
  deriving DecidableEq, Repr

/-- What a dispatcher does with the notification it took. -/
inductive Hand (V : Type) where
  | empty
  | received (notification : Notification V)
  /-- The item the client handle names is found; the value is applied next. -/
  | found (item : Nat) (notification : Notification V)
  deriving DecidableEq, Repr

/-- The task of one subscription. -/
structure Dispatcher (V : Type) where
  connection : Nat
  channel : List (Notification V) := []
  hand : Hand V := .empty
  deriving DecidableEq, Repr

def Hand.held : Hand V → List (Notification V)
  | .empty => []
  | .received notification => [notification]
  | .found _ notification => [notification]

/-- The notifications a dispatcher has still to apply. -/
def Dispatcher.held (dispatcher : Dispatcher V) : List (Notification V) :=
  dispatcher.hand.held ++ dispatcher.channel

inductive Event where
  /-- A monitored item was asked for under the client handle. -/
  | monitored (connection handle item : Nat)
  /-- The item's leaves were given the `ConnectionLoss` of the connection. -/
  | lost (connection item : Nat)
  /-- A notification of the connection was applied to the item. -/
  | applied (connection handle item : Nat)
  deriving DecidableEq, Repr

/-- The session with its dispatchers. -/
structure Dispatch (V : Type) where
  session : Session V
  dispatchers : List (Dispatcher V) := []
  /-- The items of each connection in the order of their client handles. -/
  monitored : Nat → List Nat := fun _ => []
  /-- The items `add_monitored_items` has been through on each connection. -/
  visited : Nat → List Nat := fun _ => []
  log : List Event := []

inductive DispatchAct (V : Type) where
  | session (act : SessionAct V)
  /-- `create_subscriptions` starts the task of one. -/
  | subscribe
  /-- `add_monitored_items` comes to an item of a subscription the server created. -/
  | monitor (i : Nat)
  /-- The server's notification is put in the channel of dispatcher `d`. -/
  | notify (d : Nat) (notification : Notification V)
  | receive (d : Nat)
  | look (d : Nat)
  | apply (d : Nat)

/-- The item that the step gives a `ConnectionLoss`. -/
def Session.givenLoss (s : Session V) : SessionAct V → Option Nat
  | .markItem _ =>
    match s.worker with
    | .losing (i :: _) => some i
    | _ => none
  | .monitorRefused i _ => some i
  | _ => none

namespace Dispatch

/-- The item a client handle names on a connection: the handles count from one. -/
def itemOf (s : Dispatch V) (connection : Nat) : Nat → Option Nat
  | 0 => none
  | handle + 1 => (s.monitored connection)[handle]?

def visit (s : Dispatch V) (i : Nat) : Dispatch V :=
  let connection := s.session.losses
  { s with visited := Function.update s.visited connection (s.visited connection ++ [i]) }

def setDispatcher (s : Dispatch V) (d : Nat) (dispatcher : Dispatcher V) : Dispatch V :=
  { s with dispatchers := s.dispatchers.set d dispatcher }

/-- The monitored item is asked for under the length its list then has. -/
def monitorStep (s : Dispatch V) (i : Nat) : Dispatch V :=
  let connection := s.session.losses
  let items := s.monitored connection ++ [i]
  { s.visit i with
    monitored := Function.update s.monitored connection items
    log := s.log ++ [.monitored connection items.length i] }

def sessionStep (s : Dispatch V) (session : Session V) : Option Nat → Dispatch V
  | none => { s with session }
  | some i => { s.visit i with session, log := s.log ++ [.lost s.session.losses i] }

def applyStep (s : Dispatch V) (E : Elements V) (connection i : Nat)
    (notification : Notification V) : Dispatch V :=
  { s with
    session := s.session.modifyItem i (Item.setIncomingData E notification.value .incomingData
      notification.status notification.timestamp)
    log := s.log ++ [.applied connection notification.clientHandle i] }

def step (E : Elements V) (s : Dispatch V) : DispatchAct V → Option (Dispatch V)
  -- The dispatchers' part of the session is `apply`.
  | .session (.dispatch ..) => none
  | .session act => do
    let session ← s.session.step E act
    some (s.sessionStep session (s.session.givenLoss act))
  | .subscribe =>
    match s.session.worker with
    | .connecting _ =>
      some { s with dispatchers := s.dispatchers ++ [{ connection := s.session.losses }] }
    | _ => none
  -- An item is on one subscription, so that it is come to once.
  | .monitor i =>
    match s.session.worker with
    | .monitoring => if i ∈ s.visited s.session.losses then none else some (s.monitorStep i)
    | _ => none
  | .notify d notification => do
    let dispatcher ← s.dispatchers[d]?
    some (s.setDispatcher d { dispatcher with channel := dispatcher.channel ++ [notification] })
  | .receive d => do
    let dispatcher ← s.dispatchers[d]?
    match dispatcher.hand, dispatcher.channel with
    | .empty, notification :: channel =>
      some (s.setDispatcher d { dispatcher with channel, hand := .received notification })
    | _, _ => none
  | .look d => do
    let dispatcher ← s.dispatchers[d]?
    match dispatcher.hand with
    | .received notification =>
      let hand := match s.itemOf dispatcher.connection notification.clientHandle with
        | some i => .found i notification
        | none => .empty
      some (s.setDispatcher d { dispatcher with hand })
    | _ => none
  | .apply d => do
    let dispatcher ← s.dispatchers[d]?
    match dispatcher.hand with
    | .found i notification =>
      some ((s.setDispatcher d { dispatcher with hand := .empty }).applyStep E
        dispatcher.connection i notification)
    | _ => none

/-- No dispatcher of a connection has a notification for an item when the item is
given the connection's loss, and none comes afterwards. -/
def LossFindsNone (s : Dispatch V) : DispatchAct V → Prop
  | .session act =>
    ∀ i ∈ s.session.givenLoss act, ∀ dispatcher ∈ s.dispatchers,
      dispatcher.connection = s.session.losses → ∀ notification ∈ dispatcher.held,
        s.itemOf dispatcher.connection notification.clientHandle ≠ some i
  | .notify d notification =>
    ∀ dispatcher ∈ s.dispatchers[d]?,
      ∀ i ∈ s.itemOf dispatcher.connection notification.clientHandle,
        .lost dispatcher.connection i ∉ s.log
  | _ => True

instance (s : Dispatch V) : (act : DispatchAct V) → Decidable (s.LossFindsNone act)
  | .session act => inferInstanceAs (Decidable (∀ i ∈ s.session.givenLoss act, _))
  | .notify d _ => inferInstanceAs (Decidable (∀ dispatcher ∈ s.dispatchers[d]?, _))
  | .subscribe => isTrue trivial
  | .monitor _ => isTrue trivial
  | .receive _ => isTrue trivial
  | .look _ => isTrue trivial
  | .apply _ => isTrue trivial

end Dispatch

def dispatchSystem (E : Elements V) : System (Dispatch V) (DispatchAct V) :=
  System.ofFun (fun s => ∃ links, s = { session := .start links }) (Dispatch.step E)

/-- A notification is applied to the item, and no other, that was monitored under
its client handle on its connection. -/
def ToMonitored : List Event → Prop :=
  Logged fun before e => ∀ connection handle i, e = .applied connection handle i →
    ∀ j, .monitored connection handle j ∈ before ↔ j = i

/-- No notification of a connection is applied to an item that was given its loss. -/
def NotAfterLoss : List Event → Prop :=
  Logged fun before e => ∀ connection handle i, e = .applied connection handle i →
    .lost connection i ∉ before

/-! ## Lemmas -/

namespace Session

theorem deedStep_kept {s s' : Session V} {i j : Nat} {leaf : Leaf V} {deed : Deed V}
    (h : s.deedStep i j leaf deed = some s') : s'.losses = s.losses ∧ s'.worker = s.worker := by
  unfold deedStep at h
  split at h
  · cases h
    exact ⟨rfl, rfl⟩
  · obtain ⟨-, h⟩ := Option.ite_none_left_eq_some.1 h
    cases h
    exact ⟨rfl, rfl⟩
  · cases h
    split <;> exact ⟨rfl, rfl⟩
  · cases h
    exact ⟨rfl, rfl⟩

theorem storeStep_kept (s : Session V) (i j since : Nat) (leaf : Leaf V) (value : Option V) :
    (s.storeStep i j since leaf value).losses = s.losses ∧
      (s.storeStep i j since leaf value).worker = s.worker := by
  cases value <;> exact ⟨rfl, rfl⟩

theorem recvStep_losses {s s' : Session V} {commands : List (Priority × Request)}
    (h : s.recvStep commands = some s') : s'.losses = s.losses := by
  cases commands with
  | nil => cases h
  | cons command commands =>
    cases h
    dsimp only
    split <;> rfl

@[simp] theorem startRead_losses (s : Session V) (initial : Bool) (batch : List (List Queued)) :
    (s.startRead initial batch).losses = s.losses := by
  cases batch <;> rfl

@[simp] theorem startWrite_losses (s : Session V) (batch : List (List Queued)) :
    (s.startWrite batch).losses = s.losses := by
  cases batch <;> rfl

theorem flushStep_losses (s : Session V) (writeLimit readLimit : Nat) :
    (s.flushStep writeLimit readLimit).losses = s.losses := by
  unfold flushStep
  split
  · exact startWrite_losses _ _
  · split
    · exact startRead_losses _ _ _
    · rfl

theorem callReadStep_losses (s : Session V) (initial : Bool) (chunk : List Queued)
    (rest : List (List Queued)) (now : Nat) (outcome : Outcome) :
    (s.callReadStep initial chunk rest now outcome).losses = s.losses := by
  cases outcome with
  | answered good => rfl
  | failed => simp [callReadStep]
  | connectionError => cases initial <;> simp [callReadStep, startLoss]

theorem callWriteStep_losses (s : Session V) (values : List (Sent V)) (rest : List (List Queued))
    (now : Nat) (outcome : Outcome) :
    (s.callWriteStep values rest now outcome).losses = s.losses := by
  cases outcome <;> simp [callWriteStep, startLoss]

theorem collectStep_losses (s : Session V) (E : Elements V) (q : Queued) (chunk : List Queued)
    (values : List (Sent V)) (rest : List (List Queued)) :
    (s.collectStep E q chunk values rest).losses = s.losses := by
  unfold collectStep
  split
  · rfl
  · split <;> rfl

theorem advanceStep_losses {s s' : Session V} {limit : Nat} (h : s.advanceStep limit = some s') :
    s'.losses = s.losses := by
  unfold advanceStep at h
  split at h
  case h_3 =>
    obtain ⟨-, h⟩ := Option.ite_none_right_eq_some.1 h
    cases h
    exact startRead_losses _ _ _
  all_goals cases h
  · rfl
  · exact startRead_losses _ _ _
  · exact startRead_losses _ _ _
  · rfl
  · rfl
  · exact startWrite_losses _ _

/-- While the worker marks a loss it does nothing else. -/
theorem step_losing (E : Elements V) {s s' : Session V} {act : SessionAct V} {todo : List Nat}
    (hw : s.worker = .losing todo) (h : s.step E act = some s') :
    act = .marked ∨ ∃ todo', s'.worker = .losing todo' := by
  cases act with
  | marked => exact Or.inl rfl
  | markItem now =>
    simp only [step] at h
    split at h
    next i todo' _ =>
      cases h
      exact Or.inr ⟨todo', rfl⟩
    next => cases h
  | deed i j deed =>
    obtain ⟨leaf, -, h⟩ := Option.bind_eq_some_iff.1 h
    have hkept := deedStep_kept (Option.ite_none_right_eq_some.1 h).2
    exact Or.inr ⟨todo, hkept.2.trans hw⟩
  | checkRead i j =>
    obtain ⟨leaf, -, h⟩ := Option.bind_eq_some_iff.1 h
    split at h
    · cases h
      exact Or.inr ⟨todo, hw⟩
    · cases h
  | store i j value =>
    obtain ⟨leaf, -, h⟩ := Option.bind_eq_some_iff.1 h
    split at h
    next since _ =>
      cases h
      exact Or.inr ⟨todo, (s.storeStep_kept i j since leaf value).2.trans hw⟩
    next => cases h
  | request i j =>
    simp only [step] at h
    split at h
    · cases h
      exact Or.inr ⟨todo, hw⟩
    · cases h
  | dispatch i value status timestamp =>
    cases h
    exact Or.inr ⟨todo, hw⟩
  | _ => simp [step, advanceStep, hw] at h

theorem marked_losses (E : Elements V) {s s' : Session V} (h : s.step E .marked = some s') :
    s'.losses = s.losses + 1 := by
  simp only [step] at h
  split at h
  · cases h
    rfl
  · cases h

/-- Only the end of a loss counts the connection up. -/
theorem step_losses (E : Elements V) {s s' : Session V} {act : SessionAct V} (hact : act ≠ .marked)
    (h : s.step E act = some s') : s'.losses = s.losses := by
  cases act with
  | marked => exact absurd rfl hact
  | deed i j deed =>
    obtain ⟨leaf, -, h⟩ := Option.bind_eq_some_iff.1 h
    exact (deedStep_kept (Option.ite_none_right_eq_some.1 h).2).1
  | store i j value =>
    obtain ⟨leaf, -, h⟩ := Option.bind_eq_some_iff.1 h
    split at h
    · cases h
      exact (storeStep_kept _ _ _ _ _ _).1
    · cases h
  | checkRead i j =>
    obtain ⟨leaf, -, h⟩ := Option.bind_eq_some_iff.1 h
    split at h
    · cases h
      rfl
    · cases h
  | advance limit => exact advanceStep_losses h
  | callRead outcome now =>
    simp only [step] at h
    split at h
    · obtain ⟨-, h⟩ := Option.ite_none_left_eq_some.1 h
      cases h
      exact callReadStep_losses _ _ _ _ _ _
    · cases h
  | deliver answer =>
    simp only [step] at h
    split at h
    · cases h
      cases answer <;> rfl
    · cases h
  | recv =>
    simp only [step] at h
    split at h
    · exact recvStep_losses h
    · cases h
  | flush writeLimit readLimit =>
    simp only [step] at h
    split at h
    · cases h
      exact s.flushStep_losses writeLimit readLimit
    · cases h
  | collect =>
    simp only [step] at h
    split at h
    · cases h
      exact collectStep_losses _ _ _ _ _ _
    · cases h
  | callWrite outcome now =>
    simp only [step] at h
    split at h
    · cases h
      exact callWriteStep_losses _ _ _ _ _
    · cases h
  | dispatch i value status timestamp =>
    cases h
    rfl
  -- What is left moves the worker or visits an item.
  | _ =>
    simp only [step] at h
    split at h
    · cases h
      rfl
    · cases h

end Session

namespace Dispatch

/-- A monitored item takes the next handle of its connection. -/
theorem itemOf_monitorStep (s : Dispatch V) (i connection handle j : Nat) :
    (s.monitorStep i).itemOf connection handle = some j ↔
      s.itemOf connection handle = some j ∨ (connection = s.session.losses ∧
        handle = (s.monitored s.session.losses ++ [i]).length ∧ j = i) := by
  cases handle with
  | zero => simp [itemOf]
  | succ k =>
    simp only [itemOf, monitorStep, visit, Function.update_apply, List.length_append,
      List.length_singleton, Nat.add_right_cancel_iff]
    by_cases hc : connection = s.session.losses
    · subst hc
      rw [if_pos rfl, List.getElem?_append]
      by_cases hk : k < (s.monitored s.session.losses).length
      · rw [if_pos hk]
        constructor
        · exact Or.inl
        · rintro (h | ⟨-, rfl, -⟩)
          · exact h
          · omega
      · have hnone : (s.monitored s.session.losses)[k]? = none := List.getElem?_eq_none (by omega)
        rw [if_neg hk, hnone, List.getElem?_singleton]
        constructor
        · intro h
          obtain ⟨hzero, hj⟩ := Option.ite_none_right_eq_some.1 h
          exact Or.inr ⟨rfl, by omega, (Option.some.inj hj).symm⟩
        · rintro (h | ⟨-, rfl, rfl⟩)
          · cases h
          · simp
    · rw [if_neg hc]
      simp [hc]

theorem step_session {E : Elements V} {s s' : Dispatch V} {act : SessionAct V}
    (h : s.step E (.session act) = some s') :
    ∃ session, s.session.step E act = some session ∧
      s' = s.sessionStep session (s.session.givenLoss act) := by
  cases act with
  | dispatch i value status timestamp => cases h
  | _ =>
    obtain ⟨session, hsession, h⟩ := Option.bind_eq_some_iff.1 h
    cases h
    exact ⟨session, hsession, rfl⟩

/-- What holds however the tasks are scheduled. -/
structure Inv (s : Dispatch V) : Prop where
  lost_le : ∀ connection i, .lost connection i ∈ s.log → connection ≤ s.session.losses
  /-- An item given the loss of the connection in use is not monitored on it afterwards. -/
  lost_now : ∀ i, .lost s.session.losses i ∈ s.log →
    i ∈ s.visited s.session.losses ∨ ∃ todo, s.session.worker = .losing todo
  monitored : ∀ connection handle i,
    .monitored connection handle i ∈ s.log ↔ s.itemOf connection handle = some i
  found : ∀ dispatcher ∈ s.dispatchers, ∀ i notification, dispatcher.hand = .found i notification →
    s.itemOf dispatcher.connection notification.clientHandle = some i
  log : ToMonitored s.log

namespace Inv

variable {s : Dispatch V}

theorem start (links : List (List LinkInfo)) :
    ({ session := .start links } : Dispatch V).Inv where
  lost_le := fun _ _ h => nomatch h
  lost_now := fun _ h => nomatch h
  monitored := by
    intro connection handle i
    cases handle <;> simp [itemOf]
  found := fun _ h => nomatch h
  log := Logged.nil

theorem setDispatcher (h : s.Inv) (d : Nat) {dispatcher : Dispatcher V}
    (hfound : ∀ i notification, dispatcher.hand = .found i notification →
      s.itemOf dispatcher.connection notification.clientHandle = some i) :
    (s.setDispatcher d dispatcher).Inv where
  lost_le := h.lost_le
  lost_now := h.lost_now
  monitored := h.monitored
  found := by
    intro other hother i notification hhand
    obtain hmem | rfl := List.mem_or_eq_of_mem_set hother
    · exact h.found other hmem i notification hhand
    · exact hfound i notification hhand
  log := h.log

theorem subscribe (h : s.Inv) :
    ({ s with dispatchers := s.dispatchers ++ [{ connection := s.session.losses }] } :
      Dispatch V).Inv where
  lost_le := h.lost_le
  lost_now := h.lost_now
  monitored := h.monitored
  found := by
    intro dispatcher hmem i notification hhand
    obtain hmem | hmem := List.mem_append.1 hmem
    · exact h.found dispatcher hmem i notification hhand
    · rw [List.mem_singleton.1 hmem] at hhand
      cases hhand
  log := h.log

theorem monitorStep (h : s.Inv) (i : Nat) : (s.monitorStep i).Inv where
  lost_le := by
    intro connection j hlost
    exact h.lost_le connection j (by simpa [Dispatch.monitorStep, visit] using hlost)
  lost_now := by
    intro j hlost
    refine (h.lost_now j (by simpa [Dispatch.monitorStep, visit] using hlost)).imp_left fun hj => ?_
    simp [Dispatch.monitorStep, visit, hj]
  monitored := by
    intro connection handle j
    rw [itemOf_monitorStep, ← h.monitored]
    simp [Dispatch.monitorStep, visit]
  found := by
    intro dispatcher hmem j notification hhand
    rw [itemOf_monitorStep]
    exact Or.inl (h.found dispatcher hmem j notification hhand)
  log := h.log.snoc fun _ _ _ heq => nomatch heq

theorem applyStep (h : s.Inv) (E : Elements V) {connection i : Nat} {notification : Notification V}
    (hfound : s.itemOf connection notification.clientHandle = some i) :
    (s.applyStep E connection i notification).Inv where
  lost_le := by
    intro c j hlost
    exact h.lost_le c j (by simpa [Dispatch.applyStep] using hlost)
  lost_now := by
    intro j hlost
    have hold : .lost s.session.losses j ∈ s.log := by
      simpa [Dispatch.applyStep, Session.modifyItem] using hlost
    exact h.lost_now j hold
  monitored := by
    intro c handle j
    refine Iff.trans ?_ (h.monitored c handle j)
    simp [Dispatch.applyStep]
  found := h.found
  log := by
    refine h.log.snoc fun c handle k heq j => ?_
    cases heq
    rw [h.monitored, hfound, Option.some.injEq, eq_comm]

theorem losses_le (E : Elements V) {session : Session V} {act : SessionAct V}
    (hstep : s.session.step E act = some session) : s.session.losses ≤ session.losses := by
  by_cases hact : act = .marked
  · subst hact
    have hmarked := Session.marked_losses E hstep
    omega
  · exact (Session.step_losses E hact hstep).ge

/-- The items whose loss was given stay so when the session goes on. -/
theorem lost_now_step (h : s.Inv) {E : Elements V} {session : Session V} {act : SessionAct V}
    (hstep : s.session.step E act = some session) {i : Nat}
    (hlost : .lost session.losses i ∈ s.log) :
    i ∈ s.visited session.losses ∨ ∃ todo, session.worker = .losing todo := by
  by_cases hact : act = .marked
  · -- No loss of the next connection has been given.
    subst hact
    have hle := h.lost_le _ i hlost
    have hmarked := Session.marked_losses E hstep
    omega
  · rw [Session.step_losses E hact hstep] at hlost ⊢
    obtain hvisited | ⟨todo, hw⟩ := h.lost_now i hlost
    · exact Or.inl hvisited
    · exact Or.inr ((Session.step_losing E hw hstep).resolve_left hact)

theorem sessionStep (h : s.Inv) {E : Elements V} {session : Session V} {act : SessionAct V}
    (hstep : s.session.step E act = some session) :
    (s.sessionStep session (s.session.givenLoss act)).Inv := by
  have hle := losses_le E hstep
  cases hgiven : s.session.givenLoss act with
  | none =>
    exact {
      lost_le := fun connection i hlost => (h.lost_le connection i hlost).trans hle
      lost_now := fun i hlost => h.lost_now_step hstep hlost
      monitored := h.monitored
      found := h.found
      log := h.log }
  | some i =>
    have hact : act ≠ .marked := by
      rintro rfl
      cases hgiven
    have hlosses := Session.step_losses E hact hstep
    exact {
      lost_le := by
        intro connection j hlost
        obtain hlost | hlost := List.mem_append.1 hlost
        · exact (h.lost_le connection j hlost).trans hle
        · cases List.mem_singleton.1 hlost
          exact hle
      lost_now := by
        intro j hlost
        obtain hlost | hlost := List.mem_append.1 hlost
        · refine (h.lost_now_step hstep hlost).imp_left fun hj => ?_
          rw [hlosses] at hj
          simp [Dispatch.sessionStep, visit, hlosses, hj]
        · obtain rfl := (Event.lost.inj (List.mem_singleton.1 hlost)).2
          left
          simp [Dispatch.sessionStep, visit, hlosses]
      monitored := by
        intro connection handle j
        refine Iff.trans ?_ (h.monitored connection handle j)
        simp [Dispatch.sessionStep]
      found := h.found
      log := h.log.snoc fun _ _ _ heq => nomatch heq }

/-- No item come to for the first time is lost on the connection in use. -/
theorem not_lost (h : s.Inv) (hmonitoring : s.session.worker = .monitoring) {i : Nat}
    (hi : i ∉ s.visited s.session.losses) : .lost s.session.losses i ∉ s.log := by
  intro hlost
  obtain hvisited | ⟨todo, hlosing⟩ := h.lost_now i hlost
  · exact hi hvisited
  · rw [hmonitoring] at hlosing
    cases hlosing

theorem step (h : s.Inv) (E : Elements V) {s' : Dispatch V} {act : DispatchAct V}
    (hs : s.step E act = some s') : s'.Inv := by
  cases act with
  | session act =>
    obtain ⟨session, hsession, rfl⟩ := step_session hs
    exact h.sessionStep hsession
  | subscribe =>
    simp only [Dispatch.step] at hs
    split at hs
    · cases hs
      exact h.subscribe
    · cases hs
  | monitor i =>
    simp only [Dispatch.step] at hs
    split at hs
    · obtain ⟨-, hs⟩ := Option.ite_none_left_eq_some.1 hs
      cases hs
      exact h.monitorStep i
    · cases hs
  | notify d notification =>
    obtain ⟨dispatcher, hd, hs⟩ := Option.bind_eq_some_iff.1 hs
    cases hs
    exact h.setDispatcher d fun i n hhand =>
      h.found dispatcher (List.mem_of_getElem? hd) i n hhand
  | receive d =>
    obtain ⟨dispatcher, hd, hs⟩ := Option.bind_eq_some_iff.1 hs
    split at hs
    · cases hs
      refine h.setDispatcher d fun _ _ hhand => ?_
      cases hhand
    · cases hs
  | look d =>
    obtain ⟨dispatcher, hd, hs⟩ := Option.bind_eq_some_iff.1 hs
    split at hs
    next notification hhand =>
      cases hs
      refine h.setDispatcher d fun i n hfound => ?_
      dsimp only at hfound ⊢
      split at hfound
      next j hj =>
        cases hfound
        exact hj
      next => cases hfound
    next => cases hs
  | apply d =>
    obtain ⟨dispatcher, hd, hs⟩ := Option.bind_eq_some_iff.1 hs
    split at hs
    next i notification hhand =>
      cases hs
      refine applyStep (h.setDispatcher d fun _ _ hempty => ?_) E ?_
      · cases hempty
      · exact h.found dispatcher (List.mem_of_getElem? hd) i notification hhand
    next => cases hs

end Inv

/-- Nothing a dispatcher holds is for an item that was given its connection's loss. -/
structure Current (s : Dispatch V) : Prop where
  held : ∀ dispatcher ∈ s.dispatchers, ∀ notification ∈ dispatcher.held, ∀ i,
    s.itemOf dispatcher.connection notification.clientHandle = some i →
      .lost dispatcher.connection i ∉ s.log
  log : NotAfterLoss s.log

namespace Current

variable {s : Dispatch V}

theorem start (links : List (List LinkInfo)) :
    ({ session := .start links } : Dispatch V).Current where
  held := fun _ h => nomatch h
  log := Logged.nil

theorem setDispatcher (h : s.Current) (d : Nat) {dispatcher : Dispatcher V}
    (hheld : ∀ notification ∈ dispatcher.held, ∀ i,
      s.itemOf dispatcher.connection notification.clientHandle = some i →
        .lost dispatcher.connection i ∉ s.log) : (s.setDispatcher d dispatcher).Current where
  held := by
    intro other hother
    obtain hmem | rfl := List.mem_or_eq_of_mem_set hother
    · exact h.held other hmem
    · exact hheld
  log := h.log

theorem subscribe (h : s.Current) :
    ({ s with dispatchers := s.dispatchers ++ [{ connection := s.session.losses }] } :
      Dispatch V).Current where
  held := by
    intro dispatcher hmem notification hheld
    obtain hmem | hmem := List.mem_append.1 hmem
    · exact h.held dispatcher hmem notification hheld
    · rw [List.mem_singleton.1 hmem] at hheld
      cases hheld
  log := h.log

theorem monitorStep (h : s.Current) {i : Nat} (hi : .lost s.session.losses i ∉ s.log) :
    (s.monitorStep i).Current where
  held := by
    intro dispatcher hmem notification hheld j hj hlog
    have hlost : .lost dispatcher.connection j ∈ s.log := by
      simpa [Dispatch.monitorStep, visit] using hlog
    obtain hold | ⟨hconnection, -, rfl⟩ := (itemOf_monitorStep s i _ _ j).1 hj
    · exact h.held dispatcher hmem notification hheld j hold hlost
    · rw [hconnection] at hlost
      exact hi hlost
  log := h.log.snoc fun _ _ _ heq => nomatch heq

theorem applyStep (h : s.Current) (E : Elements V) {connection i : Nat}
    (notification : Notification V) (hi : .lost connection i ∉ s.log) :
    (s.applyStep E connection i notification).Current where
  held := by
    intro dispatcher hmem other hheld j hj hlost
    refine h.held dispatcher hmem other hheld j hj ?_
    simpa [Dispatch.applyStep] using hlost
  log := by
    refine h.log.snoc fun c handle k heq => ?_
    cases heq
    exact hi

theorem sessionStep (h : s.Current) (session : Session V) {act : SessionAct V}
    (hnone : s.LossFindsNone (.session act)) :
    (s.sessionStep session (s.session.givenLoss act)).Current := by
  cases hgiven : s.session.givenLoss act with
  | none => exact ⟨h.held, h.log⟩
  | some i =>
    refine ⟨fun dispatcher hmem notification hheld j hj hlost => ?_,
      h.log.snoc fun _ _ _ heq => nomatch heq⟩
    obtain hlost | hlost := List.mem_append.1 hlost
    · exact h.held dispatcher hmem notification hheld j hj hlost
    · obtain ⟨hconnection, rfl⟩ := Event.lost.inj (List.mem_singleton.1 hlost)
      exact hnone j hgiven dispatcher hmem hconnection notification hheld hj

theorem step (h : s.Current) (hinv : s.Inv) (E : Elements V) {s' : Dispatch V}
    {act : DispatchAct V} (hs : s.step E act = some s') (hnone : s.LossFindsNone act) :
    s'.Current := by
  cases act with
  | session act =>
    obtain ⟨session, -, rfl⟩ := step_session hs
    exact h.sessionStep session hnone
  | subscribe =>
    simp only [Dispatch.step] at hs
    split at hs
    · cases hs
      exact h.subscribe
    · cases hs
  | monitor i =>
    simp only [Dispatch.step] at hs
    split at hs
    next hmonitoring =>
      obtain ⟨hi, hs⟩ := Option.ite_none_left_eq_some.1 hs
      cases hs
      exact h.monitorStep (hinv.not_lost hmonitoring hi)
    next => cases hs
  | notify d notification =>
    obtain ⟨dispatcher, hd, hs⟩ := Option.bind_eq_some_iff.1 hs
    cases hs
    refine h.setDispatcher d fun n hn => ?_
    rw [Dispatcher.held, ← List.append_assoc] at hn
    obtain hn | hn := List.mem_append.1 hn
    · exact h.held dispatcher (List.mem_of_getElem? hd) n hn
    · rw [List.mem_singleton.1 hn]
      exact hnone dispatcher hd
  | receive d =>
    obtain ⟨dispatcher, hd, hs⟩ := Option.bind_eq_some_iff.1 hs
    split at hs
    next notification channel hhand hchannel =>
      cases hs
      refine h.setDispatcher d fun n hn => ?_
      refine h.held dispatcher (List.mem_of_getElem? hd) n ?_
      rw [Dispatcher.held, hhand, hchannel]
      exact hn
    next => cases hs
  | look d =>
    obtain ⟨dispatcher, hd, hs⟩ := Option.bind_eq_some_iff.1 hs
    split at hs
    next notification hhand =>
      cases hs
      refine h.setDispatcher d fun n hn => ?_
      refine h.held dispatcher (List.mem_of_getElem? hd) n ?_
      rw [Dispatcher.held, hhand]
      simp only [Dispatcher.held] at hn
      split at hn
      · exact hn
      · exact List.mem_cons_of_mem _ hn
    next => cases hs
  | apply d =>
    obtain ⟨dispatcher, hd, hs⟩ := Option.bind_eq_some_iff.1 hs
    split at hs
    next i notification hhand =>
      cases hs
      have hmem := List.mem_of_getElem? hd
      have hheld : ∀ n ∈ dispatcher.channel, n ∈ dispatcher.held :=
        fun n hn => List.mem_append_right _ hn
      refine applyStep (h.setDispatcher d fun n hn => ?_) E notification ?_
      · exact h.held dispatcher hmem n (hheld n hn)
      · refine h.held dispatcher hmem notification ?_ i (hinv.found dispatcher hmem i _ hhand)
        rw [Dispatcher.held, hhand]
        exact List.mem_cons_self
    next => cases hs

end Current

end Dispatch

/-! ## Notifications and connections -/

/-- **Notifications.**  Each is applied to the item that was monitored under its
client handle on its connection; and in a run in which no dispatcher has one for an
item when the item is given the connection's loss, and none comes later, none of
a connection is applied to an item that was given its loss. -/
theorem notifications_applied (E : Elements V) :
    (∀ s, (dispatchSystem E).Reachable s → ToMonitored s.log) ∧
      ∀ s, ((dispatchSystem E).restrict Dispatch.LossFindsNone).Reachable s →
        NotAfterLoss s.log := by
  have hinv : ∀ s, (dispatchSystem E).Reachable s → s.Inv := by
    intro s hs
    refine hs.invariant ?_ ?_
    · rintro s ⟨links, rfl⟩
      exact Dispatch.Inv.start links
    · intro s act s' h hstep
      exact h.step E hstep
  refine ⟨fun s hs => (hinv s hs).log, fun s hs => ?_⟩
  have hcurrent : s.Current := by
    refine hs.invariant_of (fun s hs => hinv s hs.of_restrict) ?_ ?_
    · rintro s ⟨links, rfl⟩
      exact Dispatch.Current.start links
    · rintro s act s' h hc ⟨hstep, hnone⟩
      exact hc.step h E hstep hnone
  exact hcurrent.log

/-- A connect with one subscription, up to its initial read. -/
def connectAndSubscribe : List (DispatchAct Nat) :=
  [.session .connect, .subscribe, .session (.advance 1)]

/-- The initial read, and the one item monitored. -/
def readAndMonitor : List (DispatchAct Nat) :=
  [.session (.advance 1), .session (.callRead (.answered [true]) 0),
    .session (.deliver (.data 1 0 0)), .session (.advance 1), .session (.advance 1),
    .session (.advance 1), .monitor 0, .session .serve]

def loseConnection : List (DispatchAct Nat) :=
  [.session .disconnect, .session (.markItem 0), .session .marked]

/-- The server sends a value of the one item to dispatcher `d`. -/
def notified (d value : Nat) : List (DispatchAct Nat) := [.notify d ⟨1, value, 0, 0⟩]

/-- Dispatcher `d` deals with a notification. -/
def dispatchOne (d : Nat) : List (DispatchAct Nat) := [.receive d, .look d, .apply d]

/-- A notification waits in its channel while the connection closes, and is applied
in the initial read of the next one: the item's value is the old connection's, and
its leaf is up. -/
theorem late_notification_is_applied :
    ∃ s, (dispatchSystem scalars).Reachable s ∧
      s.session.items.map (fun item => (item.lastValue, item.leaves.map (·.state))) =
        [(some 9, [.up])] ∧ ¬NotAfterLoss s.log := by
  have hrun : ((connectAndSubscribe ++ readAndMonitor ++ notified 0 9 ++ loseConnection ++
      connectAndSubscribe ++ dispatchOne 0).foldlM (Dispatch.step scalars)
        { session := .start oneOutput }).map (fun s : Dispatch Nat =>
          (s.session.items.map fun item => (item.lastValue, item.leaves.map (·.state)), s.log)) =
      some ([(some 9, [.up])], [.monitored 0 1 0, .lost 0 0, .applied 0 1 0]) := by decide +kernel
  obtain ⟨s, hs, hview⟩ := Option.map_eq_some_iff.1 hrun
  obtain ⟨hitems, hlog⟩ := Prod.mk.inj hview
  refine ⟨s, System.reachable_ofFun ⟨_, rfl⟩ hs, hitems, fun hnot => ?_⟩
  rw [hlog] at hnot
  exact hnot [.monitored 0 1 0, .lost 0 0] (.applied 0 1 0) [] rfl 0 1 0 rfl (by decide)

/-- Two connections with a notification each, applied before the loss. -/
theorem notifications_applied_twoConnections :
    ∃ s : Dispatch Nat, s.log = [.monitored 0 1 0, .applied 0 1 0, .lost 0 0, .monitored 1 1 0,
        .applied 1 1 0] ∧ ToMonitored s.log ∧ NotAfterLoss s.log := by
  have hrun : ((connectAndSubscribe ++ readAndMonitor ++ notified 0 8 ++ dispatchOne 0 ++
      loseConnection ++ connectAndSubscribe ++ readAndMonitor ++ notified 1 9 ++ dispatchOne 1).foldlM
        (System.guarded Dispatch.LossFindsNone (Dispatch.step scalars))
        { session := .start oneOutput }).map Dispatch.log =
      some [.monitored 0 1 0, .applied 0 1 0, .lost 0 0, .monitored 1 1 0, .applied 1 1 0] := by
    decide +kernel
  obtain ⟨s, hs, hlog⟩ := Option.map_eq_some_iff.1 hrun
  have hreach : ((dispatchSystem scalars).restrict Dispatch.LossFindsNone).Reachable s :=
    System.reachable_guarded ⟨oneOutput, rfl⟩ hs
  obtain ⟨hto, hnot⟩ := notifications_applied scalars
  exact ⟨s, hlog, hto s hreach.of_restrict, hnot s hreach⟩

end OpcUa
