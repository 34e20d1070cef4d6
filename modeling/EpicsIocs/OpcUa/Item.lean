import EpicsIocs.OpcUa.Queue

/-! # Items and their leaves

An item is one node; a leaf is one record bound to it.  Updates reach the record
through the leaf's queue, and `Leaf.push`, `Leaf.pop` and `Leaf.oweWake` are the
only operations on it.  The wake channel has one slot: `notify` says whether it
holds a wake-up the record has not taken. -/

namespace OpcUa

/-- What a record does with the initial read. -/
inductive Bini where
  | read
  | ignore
  | write
  deriving DecidableEq, Repr

/-- What the leaf reads of its record's link. -/
structure LinkInfo where
  clientQueueSize : Nat
  discardOldest : Bool
  /-- The record has an item of its own rather than an element of one. -/
  linkedToItem : Bool
  bini : Bini
  elementPath : List String
  deriving DecidableEq, Repr

/-- One record's binding to an item. -/
structure Leaf (V : Type) where
  link : LinkInfo
  queue : UpdateQueue V
  /-- A pass a wake brought took nothing. -/
  owed : Bool
  /-- The value the record last wrote, waiting to go out. -/
  outgoing : Option V
  /-- Set when `outgoing` has not reached the server yet. -/
  dirty : Bool
  /-- The value the element last received. -/
  incoming : Option V
  state : ConnectionStatus
  notify : Bool

variable {V : Type}

/-- The values of nodes, as far as items look into them. -/
structure Elements (V : Type) where
  empty : V
  /-- The element a path names in a value. -/
  elementOf : V → List String → Option V
  /-- The value with the element a path names replaced; `none` without a
  dictionary, or when the element does not encode. -/
  withElement : V → List String → V → Option V

namespace Leaf

def new (link : LinkInfo) : Leaf V where
  link
  queue := .new link.clientQueueSize link.discardOldest
  owed := false
  outgoing := none
  dirty := false
  incoming := none
  state := .down
  notify := false

/-- A full channel holds a wake-up the record has not taken yet. -/
def wake (leaf : Leaf V) : Leaf V := { leaf with notify := true }

/-- Queue an update, and wake the record if this is the one it will see first or
a wake is owed. -/
def push (leaf : Leaf V) (update : Update V) : Leaf V :=
  let (queue, first) := leaf.queue.push update
  let pushed := { leaf with queue, owed := false }
  if leaf.owed || first then pushed.wake else pushed

/-- The pass a wake brought never reached the device: the next push wakes. -/
def oweWake (leaf : Leaf V) : Leaf V := { leaf with owed := true }

/-- Take the update this pass processes for, and wake the record again if another
is queued behind it. -/
def pop (leaf : Leaf V) : Option (Update V) × Leaf V :=
  match leaf.queue.pop with
  | none => (none, leaf)
  | some ((update, next), queue) =>
    let popped := { leaf with queue }
    (some update, if next ≠ .none then popped.wake else popped)

/-- Ask the record to process for a reason no value came with. -/
def requestProcessing (leaf : Leaf V) (reason : ProcessReason) (now : Nat) : Leaf V :=
  leaf.push (.new reason none 0 now)

/-- The leaf's part of `Item::set_incoming_data`. -/
def setIncomingData (E : Elements V) (data : V) (reason : ProcessReason) (status : UInt32)
    (timestamp : Nat) (leaf : Leaf V) : Leaf V :=
  let element := E.elementOf data leaf.link.elementPath
  let leaf := { leaf with incoming := element.or leaf.incoming }
  match leaf.state, leaf.link.bini with
  | .initialRead, .ignore => { leaf with state := .up }
  | .initialRead, .write =>
    { leaf with state := .initialWrite }.push (.new .writeRequest none status timestamp)
  | state, _ =>
    let pushed := leaf.push <| match element with
      | some element => .new reason (some element) status timestamp
      | none => .new .readFailure none status timestamp
    if state = .initialRead then { pushed with state := .up } else pushed

/-- The leaf's part of `Item::set_incoming_event`. -/
def setIncomingEvent (reason : ProcessReason) (now : Nat) (leaf : Leaf V) : Leaf V :=
  let leaf := if reason = .connectionLoss then { leaf with state := .down, incoming := none }
    else leaf
  leaf.push (.new reason none 0 now)

/-- The leaf's part of `Item::take_outgoing`. -/
def takeOutgoing (leaf : Leaf V) : Option V × Leaf V :=
  if leaf.dirty then (leaf.outgoing, { leaf with outgoing := none, dirty := false })
  else (none, leaf)

/-! ## Lemmas -/

theorem push_eq (leaf : Leaf V) (update : Update V) :
    leaf.push update = { leaf with
      queue := (leaf.queue.push update).1
      owed := false
      notify := leaf.owed || (leaf.queue.push update).2 || leaf.notify } := by
  unfold push
  cases leaf.owed <;> cases h : (leaf.queue.push update).2 <;> simp [wake, h]

/-- A pop that takes nothing leaves the leaf, whose queue is empty. -/
theorem pop_eq_none {leaf leaf' : Leaf V} (h : leaf.pop = (none, leaf')) :
    leaf' = leaf ∧ leaf.queue.queue = [] := by
  unfold pop at h
  split at h
  next hq =>
    cases h
    exact ⟨rfl, UpdateQueue.pop_eq_none hq⟩
  · cases h

/-- A pop that takes an update wakes the record when the next one has a reason. -/
theorem pop_eq_some {leaf leaf' : Leaf V} {update : Update V}
    (h : leaf.pop = (some update, leaf')) :
    leaf.queue.queue = update :: leaf'.queue.queue ∧
      ∃ queue, leaf' = { leaf with
        queue, notify := leaf.notify ||
          decide ((leaf'.queue.queue.head?.map (·.reason)).getD .none ≠ .none) } := by
  unfold pop at h
  split at h
  · cases h
  next u next queue hq =>
    obtain ⟨hcons, hnext⟩ := UpdateQueue.pop_eq_some hq
    by_cases hwake : next = .none
    · simp only [hwake, ne_eq, not_true_eq_false, ↓reduceIte, Prod.mk.injEq,
        Option.some.injEq] at h
      obtain ⟨rfl, rfl⟩ := h
      refine ⟨hcons, queue, ?_⟩
      rw [← hnext]
      simp [hwake]
    · simp only [ne_eq, hwake, not_false_eq_true, ↓reduceIte, Prod.mk.injEq,
        Option.some.injEq] at h
      obtain ⟨rfl, rfl⟩ := h
      refine ⟨hcons, queue, ?_⟩
      simp only [wake, ← hnext, ne_eq, hwake, not_false_eq_true, decide_true, Bool.or_true]

theorem push_dirty (leaf : Leaf V) (update : Update V) : (leaf.push update).dirty = leaf.dirty := by
  rw [push_eq]

theorem setIncomingEvent_dirty (reason : ProcessReason) (now : Nat) (leaf : Leaf V) :
    (leaf.setIncomingEvent reason now).dirty = leaf.dirty := by
  unfold setIncomingEvent
  rw [push_dirty]
  split <;> rfl

theorem setIncomingData_dirty (E : Elements V) (data : V) (reason : ProcessReason)
    (status : UInt32) (timestamp : Nat) (leaf : Leaf V) :
    (leaf.setIncomingData E data reason status timestamp).dirty = leaf.dirty := by
  unfold setIncomingData
  dsimp only
  split
  · rfl
  · rw [push_dirty]
  · split <;> exact push_dirty _ _

theorem takeOutgoing_dirty (leaf : Leaf V) : leaf.takeOutgoing.2.dirty = false := by
  unfold takeOutgoing
  cases h : leaf.dirty with
  | true => rfl
  | false => exact h

end Leaf

/-- One node, with every record bound to it. -/
structure Item (V : Type) where
  leaves : List (Leaf V)
  /-- The item's own last value, from which every leaf's element is taken. -/
  lastValue : Option V

namespace Item

def setState (state : ConnectionStatus) (item : Item V) : Item V :=
  { item with leaves := item.leaves.map fun leaf => { leaf with state } }

/-- A value arrived from the server. -/
def setIncomingData (E : Elements V) (data : V) (reason : ProcessReason) (status : UInt32)
    (timestamp : Nat) (item : Item V) : Item V where
  lastValue := some data
  leaves := item.leaves.map (Leaf.setIncomingData E data reason status timestamp)

/-- An event with no value: a read failure, a write result, a connection loss. -/
def setIncomingEvent (reason : ProcessReason) (now : Nat) (item : Item V) : Item V where
  lastValue := if reason = .connectionLoss then none else item.lastValue
  leaves := item.leaves.map (Leaf.setIncomingEvent reason now)

/-- What the write carries once one more leaf's value is in it: the value itself
for a leaf on the node, otherwise the value so far, or the last one received, with
the leaf's element replaced. -/
def assemble (E : Elements V) (lastValue result : Option V) (link : LinkInfo) (value : V) : V :=
  if link.elementPath = [] then value
  else
    let base := (result.or lastValue).getD E.empty
    (E.withElement base link.elementPath value).getD base

/-- The value to write to the node: the item's last value with every dirty leaf's
element replaced. -/
def takeOutgoing (E : Elements V) (item : Item V) : Option V × Item V :=
  (item.leaves.foldl (fun result leaf => match leaf.takeOutgoing.1 with
      | none => result
      | some value => some (assemble E item.lastValue result leaf.link value)) none,
    { item with leaves := item.leaves.map fun leaf => leaf.takeOutgoing.2 })

def hasDirtyLeaf (item : Item V) : Bool := item.leaves.any (·.dirty)

end Item

end OpcUa
