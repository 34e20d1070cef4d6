import EpicsIocs.Lib.Steps
import EpicsIocs.TwinCat.Shared

/-! # Refreshes between the driver's threads

`refresh_param` is a sequence of short critical sections with round trips to the
PLC in between.  The actor thread runs it on a bind, the supervisor on its passes;
the supervisor also drops the connection, drops AMS ports and connects anew.  Here
each critical section is one step, any number of refreshes and writes are under
way, and the supervisor's sections fall between any two of theirs.

Ghost fields number the connections and remember which one issued each stored
handle.  The PLC issues no notification handle that is in use. -/

namespace TwinCat

open Steps

/-- Where one `refresh_param` is.  `c` is the connection of the client it holds. -/
inductive RefreshPc where
  | start
  | fields (c : Nat)
  | symbolInfo (c : Nat)
  | takeHandle (c : Nat) (size : UInt32)
  | getHandle (c : Nat) (size : UInt32)
  | store (c : Nat) (handle : Option UInt32) (size : UInt32)
  | bulkEntry (c : Nat)
  | bulkPlace (c : Nat) (amsPort : Nat) (entry : SumEntry) (existing : Option (Nat × Nat))
  | bulkStore (c : Nat) (slot : Option (Nat × Nat))
  | removeTake (c : Nat)
  | removeMap (c : Nat) (handle : UInt32)
  | addClient (c : Nat)
  /-- `add_notification` takes the client again: `c'`. -/
  | addFields (c c' : Nat)
  | addRequest (c c' : Nat)
  | addMap (c c' : Nat) (handle : UInt32)
  | addStore (c c' : Nat) (handle : UInt32)
  | sample (c : Nat)
  | sampleRead (c : Nat)
  | clear (c : Nat)
  | ended
  deriving DecidableEq, Repr

/-- The connection of the client a refresh holds. -/
def RefreshPc.client : RefreshPc → Option Nat
  | .start | .ended => none
  | .fields c | .symbolInfo c | .takeHandle c _ | .getHandle c _ | .store c _ _ | .bulkEntry c
  | .bulkPlace c _ _ _ | .bulkStore c _ | .removeTake c | .removeMap c _ | .addClient c
  | .addFields c _ | .addRequest c _ | .addMap c _ _ | .addStore c _ _ | .sample c
  | .sampleRead c | .clear c => some c

structure RefreshThread where
  reason : Nat
  pc : RefreshPc
  deriving DecidableEq, Repr

/-- What a round trip brings; a step without one ignores it. -/
inductive PlcReply where
  | failed
  | done
  | symbol (size : UInt32)
  | handle (handle : UInt32)
  | clock (handles : Option (UInt32 × UInt32))
  deriving DecidableEq, Repr

/-- The sections of `drop_ams_port`. -/
inductive DropStage where
  | invalidate
  | handles (reasons : List Nat)
  | notifications (reasons : List Nat)
  | flag
  deriving DecidableEq, Repr

/-- Where the supervisor is in a `disconnect` or a `drop_ams_port`; `rest` is the
ports a `disconnect` has still to drop. -/
inductive Supervisor where
  | idle
  | clearNotifications
  | clearBulk
  | listPorts
  | dropping (amsPort : Nat) (stage : DropStage) (rest : Option (List Nat))
  | resetPorts
  deriving DecidableEq, Repr

/-- The port the supervisor is dropping. -/
def Supervisor.port : Supervisor → Option Nat
  | .dropping amsPort _ _ => some amsPort
  | _ => none

/-- A write has read its address: the connection that issued the handle in it,
`none` for an absolute address. -/
structure Writer where
  issuedOn : Option Nat
  deriving DecidableEq, Repr

/-- A write sent to the PLC. -/
structure SentWrite where
  issuedOn : Option Nat
  sentOn : Nat
  deriving DecidableEq, Repr

structure Driver where
  shared : AdsShared
  /-- How many connections there have been. -/
  connections : Nat
  threads : List RefreshThread
  writers : List Writer
  supervisor : Supervisor
  /-- The connection that issued the handle of each parameter. -/
  handleOn : Nat → Nat
  /-- The connection that issued the notification of each parameter. -/
  notificationOn : Nat → Nat
  writes : List SentWrite

inductive DriverAct where
  | bind (info : DrvInfo) (plcSize : UInt32)
  | beginRefresh (reason : Nat)
  | refresh (thread : Nat) (reply : PlcReply)
  | readAddress (reason : Nat)
  /-- The write of writer `i` takes the client, and goes out when there is one. -/
  | write (i : Nat)
  | connect
  | disconnect
  | dropAmsPort (amsPort : Nat)
  | symbolsChanged (amsPort : Nat)
  | supervise
  deriving DecidableEq, Repr

namespace Driver

def start : Driver where
  shared := .new
  connections := 0
  threads := []
  writers := []
  supervisor := .idle
  handleOn := fun _ => 0
  notificationOn := fun _ => 0
  writes := []

/-- The PLC issues no notification handle that is in use. -/
def issuable (s : Driver) (handle : UInt32) : Bool :=
  (s.shared.lookup handle).isNone && s.threads.all fun t =>
    match t.pc with
    | .addMap _ _ h => h ≠ handle
    | _ => true

/-- Where a refresh goes once the parameter is resolved. -/
def feedPc (p : ParamState) (c : Nat) (size : UInt32) : RefreshPc :=
  if p.info.hasInput = false then .clear c
  else if p.info.isBulkRead = true ∧ size ≤ bulkMaxVariableBytes then .bulkEntry c
  else if p.feed = .notification then .removeTake c
  else .addClient c

def setShared (s : Driver) (shared : AdsShared) : Driver := { s with shared }

/-- The next section of a refresh of `reason`, and where it is then. -/
def advance (s : Driver) (reason : Nat) (reply : PlcReply) : RefreshPc → Option (Driver × RefreshPc)
  | .start =>
    match s.shared.client with
    | some c => some (s, .fields c)
    | none => some (s, .ended)
  | .fields c =>
    match s.shared.param? reason with
    | some p => some (s, if p.symbolName.isSome then .symbolInfo c else .store c none p.plcSize)
    | none => some (s, .ended)
  | .symbolInfo c =>
    match reply with
    | .symbol size => some (s, .takeHandle c size)
    | _ => some (s, .ended)
  | .takeHandle c size => some (s.setShared (s.shared.takeHandle reason), .getHandle c size)
  | .getHandle c size =>
    match reply with
    | .handle handle => some (s, .store c (some handle) size)
    | _ => some (s, .ended)
  | .store c handle size =>
    match s.shared.param? reason with
    | some p =>
      some ({ s with
        shared := s.shared.storeResolved reason handle size
        handleOn := Function.update s.handleOn reason c }, feedPc p c size)
    | none => some (s, .ended)
  | .bulkEntry c =>
    match s.shared.param? reason with
    | some p =>
      match AdsShared.bulkEntry p with
      | some (entry, existing) => some (s, .bulkPlace c p.info.amsPort entry existing)
      | none => some (s, .ended)
    | none => some (s, .ended)
  | .bulkPlace c amsPort entry existing =>
    let tsHandles := match reply with
      | .clock handles => handles
      | _ => none
    match s.shared.placeInBulk reason amsPort entry existing tsHandles with
    | some (slot, shared) => some (s.setShared shared, .bulkStore c slot)
    -- The index is out of range: the thread panics.
    | none => some (s, .ended)
  | .bulkStore c slot => some (s.setShared (s.shared.storeSlot reason slot), .sample c)
  | .removeTake c =>
    match s.shared.takeNotification reason with
    | some (handle, shared) => some (s.setShared shared, .removeMap c handle)
    | none => some (s, .addClient c)
  | .removeMap c handle => some (s.setShared (s.shared.removeNotification handle), .addClient c)
  | .addClient c =>
    match s.shared.client with
    | some c' => some (s, .addFields c c')
    | none => some (s, .ended)
  | .addFields c c' =>
    match s.shared.param? reason >>= ParamState.wireAddress with
    | some _ => some (s, .addRequest c c')
    | none => some (s, .ended)
  | .addRequest c c' =>
    match reply with
    | .handle handle => if s.issuable handle then some (s, .addMap c c' handle) else none
    | _ => some (s, .ended)
  | .addMap c c' handle =>
    some (s.setShared (s.shared.insertNotification handle reason), .addStore c c' handle)
  | .addStore c c' handle =>
    some ({ s with
      shared := s.shared.storeNotification reason handle
      notificationOn := Function.update s.notificationOn reason c' }, .sample c)
  | .sample c =>
    match s.shared.param? reason >>= ParamState.wireAddress with
    | some _ => some (s, .sampleRead c)
    | none => some (s, .ended)
  -- The first sample is published; the resolution does not depend on it.
  | .sampleRead c =>
    match reply with
    | .done => some (s, .clear c)
    | _ => some (s, .ended)
  | .clear _ => some (s.setShared (s.shared.clearRefresh reason), .ended)
  | .ended => none

/-- After a port is dropped: the next one of a `disconnect`, or back. -/
def dropNext : Option (List Nat) → Supervisor
  | none => .idle
  | some [] => .resetPorts
  | some (amsPort :: rest) => .dropping amsPort .invalidate (some rest)

/-- The supervisor's next section. -/
def supervise (s : Driver) : Option Driver :=
  match s.supervisor with
  | .idle => none
  | .clearNotifications =>
    some { s with shared := { s.shared with notifications := [] }, supervisor := .clearBulk }
  | .clearBulk => some { s with shared := { s.shared with bulk := [] }, supervisor := .listPorts }
  | .listPorts => some { s with supervisor := dropNext (some (s.shared.ports.map (·.amsPort))) }
  | .dropping amsPort .invalidate rest =>
    some { s with
      shared := s.shared.invalidateAmsPort amsPort
      supervisor := .dropping amsPort (.handles (s.shared.invalidated amsPort)) rest }
  | .dropping amsPort (.handles reasons) rest =>
    some { s with
      shared := s.shared.forgetHandles reasons
      supervisor := .dropping amsPort (.notifications reasons) rest }
  | .dropping amsPort (.notifications reasons) rest =>
    some { s with
      shared := s.shared.forgetNotifications reasons
      supervisor := .dropping amsPort .flag rest }
  | .dropping amsPort .flag rest =>
    some { s with shared := s.shared.flagPort amsPort, supervisor := dropNext rest }
  | .resetPorts => some { s with shared := s.shared.resetPorts, supervisor := .idle }

/-- The connection that issued the handle a write of this parameter goes to. -/
def issuedOn (s : Driver) (reason : Nat) (p : ParamState) : Option Nat :=
  p.symbolName.map fun _ => s.handleOn reason

def step (s : Driver) : DriverAct → Option Driver
  | .bind info plcSize => some (s.setShared (s.shared.createParam info plcSize))
  -- Its callers pick a parameter of the PLC that waits for it or has no address.
  | .beginRefresh reason =>
    match s.shared.param? reason with
    | some p =>
      if p.info.dataSource = .plc ∧ (p.refreshNeeded = true ∨ p.wireAddress = none) then
        some { s with threads := s.threads ++ [⟨reason, .start⟩] }
      else none
    | none => none
  | .refresh thread reply => do
    let t ← s.threads[thread]?
    let (s', pc) ← s.advance t.reason reply t.pc
    some { s' with threads := s'.threads.set thread { t with pc } }
  -- A write of an AMS state goes to no handle.
  | .readAddress reason =>
    match s.shared.param? reason with
    | some p =>
      if p.info.dataSource = .plc ∧ p.wireAddress.isSome then
        some { s with writers := s.writers ++ [⟨s.issuedOn reason p⟩] }
      else none
    | none => none
  | .write i => do
    let w ← s.writers[i]?
    let s' := { s with writers := s.writers.eraseIdx i }
    some (match s.shared.client with
      | some c => { s' with writes := s.writes ++ [⟨w.issuedOn, c⟩] }
      | none => s')
  | .connect =>
    if s.supervisor = .idle ∧ s.shared.client = none then
      some { s with
        shared := { s.shared with client := some s.connections }
        connections := s.connections + 1 }
    else none
  | .disconnect =>
    if s.supervisor = .idle ∧ s.shared.client.isSome then
      some { s with
        shared := { s.shared with client := none }
        supervisor := .clearNotifications }
    else none
  | .dropAmsPort amsPort =>
    if s.supervisor = .idle then
      some { s with supervisor := .dropping amsPort .invalidate none }
    else none
  | .symbolsChanged amsPort =>
    if s.supervisor = .idle then some (s.setShared (s.shared.invalidateAmsPort amsPort)) else none
  | .supervise => s.supervise

/-- Nothing is under way. -/
def Quiescent (s : Driver) : Prop :=
  s.supervisor = .idle ∧ (∀ t ∈ s.threads, t.pc = .ended) ∧ s.writers = []

/-- What a parameter that needs no refresh holds was obtained on connection `c`. -/
structure ParamFresh (s : Driver) (reason : Nat) (p : ParamState) (c : Nat) : Prop where
  connected : s.shared.client = some c
  handle : p.symbolName.isSome → p.handle.isSome ∧ s.handleOn reason = c
  fed : p.info.hasInput = true → p.feed ≠ .none
  notification : p.feed = .notification → ∃ h, p.notification = some h ∧
    s.shared.lookup h = some reason ∧ s.notificationOn reason = c

def Fresh (s : Driver) : Prop :=
  ∀ reason p, s.shared.param? reason = some p → p.info.dataSource = .plc →
    p.refreshNeeded = false → ∃ c, s.ParamFresh reason p c

/-- A refresh of a parameter on this port holds a client. -/
def RefreshesPort (s : Driver) (amsPort : Nat) : Prop :=
  ∃ t ∈ s.threads, t.pc.client.isSome ∧
    ∃ p ∈ s.shared.param? t.reason, p.info.amsPort = amsPort

/-- The supervisor is dropping this port. -/
def DropsPort (s : Driver) (amsPort : Nat) : Prop :=
  ∃ stage rest, s.supervisor = .dropping amsPort stage rest

/-- Refreshes, writes and the supervisor keep apart: a refresh takes the client when
its parameter needs it, alone, and not while its port is dropped; no connection is
dropped under a refresh, no port under a refresh of its parameters; and no new
connection comes while a write has read its address. -/
def Apart (s : Driver) : DriverAct → Prop
  | .refresh thread _ => ∀ t ∈ s.threads[thread]?, t.pc = .start →
      s.shared.client.isSome → ∀ p ∈ s.shared.param? t.reason,
        p.refreshNeeded = true ∧ ¬s.DropsPort p.info.amsPort ∧
          ∀ t' ∈ s.threads, t'.pc.client.isSome → t'.reason ≠ t.reason
  | .disconnect => ∀ t ∈ s.threads, t.pc.client = none
  | .dropAmsPort amsPort => ¬s.RefreshesPort amsPort
  | .connect => s.writers = []
  | _ => True

instance (s : Driver) (amsPort : Nat) : Decidable (s.RefreshesPort amsPort) := by
  unfold RefreshesPort
  infer_instance

theorem dropsPort_iff {s : Driver} {amsPort : Nat} :
    s.DropsPort amsPort ↔ s.supervisor.port = some amsPort := by
  constructor
  · rintro ⟨stage, rest, hsup⟩
    rw [hsup]
    rfl
  · intro hport
    unfold DropsPort
    cases hsup : s.supervisor <;> rw [hsup] at hport <;> cases hport
    exact ⟨_, _, rfl⟩

instance (s : Driver) (amsPort : Nat) : Decidable (s.DropsPort amsPort) :=
  decidable_of_iff _ dropsPort_iff.symm

instance (s : Driver) (a : DriverAct) : Decidable (s.Apart a) := by
  cases a <;> unfold Apart <;> infer_instance

end Driver

def driverSystem : System Driver DriverAct := System.ofFun (· = .start) Driver.step

end TwinCat
