import EpicsIocs.OpcUa.Item

/-! # Device support of one record

A pass of the record ends in at most one deed of the device: a value taken, an
alarm, a request to the session, or the record's value sent.  Only the pass an
update's pulse brought pops (`OpcuaDevice.takeUpdate_cases`). -/

namespace OpcUa

inductive Alarm where
  | comm
  | read
  | write
  deriving DecidableEq, Repr

/-- What a pass has the device do, once it knows the reason it processes for. -/
inductive Deed (V : Type) where
  | nothing
  | alarm (stat : Alarm)
  | takeValue (update : Update V)
  | requestRead
  | requestWrite
  | send
  deriving DecidableEq, Repr

structure OpcuaDevice where
  /-- The record is an `opcuaItem`. -/
  isItem : Bool
  isOutput : Bool
  /-- This pass is the one an update's pulse brought. -/
  pulsePass : Bool
  deriving DecidableEq, Repr

/-- The fields of the `opcuaItem` record its action depends on. -/
structure OpcuaItemRecord where
  defactn : Nat
  /-- The action a put to READ or WRITE ordered. -/
  pending : Option ProcessReason
  deriving DecidableEq, Repr

def defActionWrite : Nat := 1

def OpcuaItemRecord.defaultReason (rec : OpcuaItemRecord) : ProcessReason :=
  if rec.defactn = defActionWrite then .writeRequest else .readRequest

variable {V : Type}

namespace OpcuaDevice

/-- The update this pass takes: the next queued one on the pass its pulse
brought, none on any other. -/
def takeUpdate (device : OpcuaDevice) (leaf : Leaf V) : Option (Update V) × OpcuaDevice × Leaf V :=
  if device.pulsePass then
    let (update, leaf) := leaf.pop
    (update, { device with pulsePass := false }, leaf)
  else (none, device, leaf)

/-- The deed of an `opcuaItem` record that processes for `reason`. -/
def itemDeed (reason : ProcessReason) (state : ConnectionStatus)
    (defaultReason : ProcessReason) : Deed V :=
  if reason = .connectionLoss then .alarm .comm
  else if state = .down then .alarm .comm
  else match reason with
    | .readFailure => .alarm .read
    | .writeFailure => .alarm .write
    | .readRequest => .requestRead
    | .writeRequest => .requestWrite
    | .none => if defaultReason = .writeRequest then .requestWrite else .requestRead
    | _ => .nothing

/-- A put to READ or WRITE takes this pass; an update stays queued for the pass
its own pulse brings. -/
def itemAction (device : OpcuaDevice) (rec : OpcuaItemRecord) (leaf : Leaf V) :
    Deed V × OpcuaDevice × OpcuaItemRecord × Leaf V :=
  let rec' := { rec with pending := none }
  match rec.pending with
  | some reason => (itemDeed reason leaf.state rec.defaultReason, device, rec', leaf)
  | none =>
    let (update, device, leaf) := device.takeUpdate leaf
    let reason := (update.map (·.reason)).getD .none
    (itemDeed reason leaf.state rec.defaultReason, device, rec', leaf)

/-- The record pops the update its pulse was for. -/
def deliver (device : OpcuaDevice) (update : Update V) : Deed V :=
  match update.reason with
  | .readFailure => .alarm .read
  | .writeFailure => .alarm .write
  | .connectionLoss => .alarm .comm
  | .writeComplete => .nothing
  -- `bini=write`: the item is asking the record to send its own value.
  | .writeRequest => if device.isOutput then .send else .nothing
  | .readRequest | .none => .requestRead
  | .incomingData | .readComplete => .takeValue update

def read (device : OpcuaDevice) (rec : OpcuaItemRecord) (leaf : Leaf V) :
    Deed V × OpcuaDevice × OpcuaItemRecord × Leaf V :=
  if device.isItem then device.itemAction rec leaf
  else match device.takeUpdate leaf with
    | (some update, device, leaf) => (device.deliver update, device, rec, leaf)
    -- An output reads only on a pulse's pass; an input starts a read.
    | (none, device, leaf) =>
      (if device.isOutput then .nothing else .requestRead, device, rec, leaf)

def armReadbackCallback (device : OpcuaDevice) : OpcuaDevice := { device with pulsePass := true }

/-- Still set: the pass never reached `read` and its update is queued. -/
def reconcileReadbackCallback (device : OpcuaDevice) (leaf : Leaf V) : OpcuaDevice × Leaf V :=
  ({ device with pulsePass := false }, if device.pulsePass then leaf.oweWake else leaf)

/-! ## Lemmas -/

/-- A take either changes nothing, or is the pop of a pulse's pass. -/
theorem takeUpdate_cases (device : OpcuaDevice) (leaf : Leaf V) :
    device.takeUpdate leaf = (none, device, leaf) ∧ device.pulsePass = false ∨
      device.takeUpdate leaf = (leaf.pop.1, { device with pulsePass := false }, leaf.pop.2) ∧
        device.pulsePass = true := by
  unfold takeUpdate
  cases device.pulsePass with
  | false => exact .inl ⟨rfl, rfl⟩
  | true => exact .inr ⟨rfl, rfl⟩

/-- A read leaves the device and the leaf as they are, or is the pop of a pulse's
pass. -/
theorem read_cases {device device' : OpcuaDevice} {rec rec' : OpcuaItemRecord}
    {leaf leaf' : Leaf V} {deed : Deed V}
    (h : device.read rec leaf = (deed, device', rec', leaf')) :
    device' = device ∧ leaf' = leaf ∨
      device.pulsePass = true ∧ device' = { device with pulsePass := false } ∧
        leaf' = leaf.pop.2 := by
  unfold read itemAction at h
  split at h
  · split at h
    · cases h
      exact .inl ⟨rfl, rfl⟩
    · obtain ⟨ht, -⟩ | ⟨ht, hp⟩ := device.takeUpdate_cases leaf
      · rw [ht] at h
        cases h
        exact .inl ⟨rfl, rfl⟩
      · rw [ht] at h
        cases h
        exact .inr ⟨hp, rfl, rfl⟩
  · obtain ⟨ht, -⟩ | ⟨ht, hp⟩ := device.takeUpdate_cases leaf
    · rw [ht] at h
      cases h
      exact .inl ⟨rfl, rfl⟩
    · rw [ht] at h
      split at h
      next heq =>
        simp only [Prod.mk.injEq] at heq
        obtain ⟨-, rfl, rfl⟩ := heq
        cases h
        exact .inr ⟨hp, rfl, rfl⟩
      next heq =>
        simp only [Prod.mk.injEq] at heq
        obtain ⟨-, rfl, rfl⟩ := heq
        cases h
        exact .inr ⟨hp, rfl, rfl⟩

end OpcuaDevice

end OpcUa
