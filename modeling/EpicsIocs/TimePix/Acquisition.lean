import EpicsIocs.Lib.Steps
import Mathlib.Data.Finset.Basic

/-! # The acquisition's lifecycle

`Coordinator` is what the mutex of the coordinator guards, and each call under it is one function.  The
port's thread runs the starts and the stops, one after the other; `Actor` says where it is, one place for
each request to Serval.  The monitor polls the measurement beside it and posts a stop to the port, and the
connection poll posts a status.  `AcquisitionSystem` lets these, the clients, the stream workers and Serval
take their steps in any order. -/

namespace TimePix.Acquisition

open Steps

/-! ## The coordinator -/

inductive Phase where
  | idle
  | starting
  | running
  | stopping
  | fault
  deriving DecidableEq, Repr

def Phase.name : Phase → String
  | .idle => "Idle"
  | .starting => "Starting"
  | .running => "Running"
  | .stopping => "Stopping"
  | .fault => "Fault"

inductive Resource where
  | remoteMeasurement
  | monitorThread
  | previewWorker
  | integratedPreviewWorker
  | imageWorker
  | histogramWorker
  deriving DecidableEq, Repr

structure Snapshot where
  phase : Phase
  resources : Finset Resource
  deriving DecidableEq

def Snapshot.has (s : Snapshot) (resource : Resource) : Bool := resource ∈ s.resources

def Snapshot.connectedStatusMessage (s : Snapshot) : String :=
  match s.phase with
  | .idle => "OK"
  | .starting => "Starting acquisition..."
  | .running => "Acquisition running"
  | .stopping => "Stopping acquisition..."
  | .fault =>
    if s.resources ≠ ∅ then "Acquisition fault; write Acquire=0 to retry cleanup"
    else "Acquisition fault; retry acquisition"

structure CleanupClaim where
  owner : Bool
  fault : Bool
  snapshot : Snapshot

structure Coordinator where
  phase : Phase
  resources : Finset Resource
  faultPending : Bool
  deriving DecidableEq

namespace Coordinator

def default : Coordinator where
  phase := .idle
  resources := ∅
  faultPending := false

def snapshot (s : Coordinator) : Snapshot := ⟨s.phase, s.resources⟩

/-- Idle or faulted. -/
def settled (s : Coordinator) : Bool := s.phase = .idle || s.phase = .fault

def beginStart (s : Coordinator) : Bool × Coordinator :=
  if !s.settled || s.resources ≠ ∅ then (false, s)
  else (true, { s with phase := .starting, faultPending := false })

def noteResource (s : Coordinator) (resource : Resource) : Bool × Coordinator :=
  if s.phase ≠ .starting then (false, s)
  else (true, { s with resources := insert resource s.resources })

def required : Finset Resource := {.remoteMeasurement, .monitorThread}

def commitStart (s : Coordinator) : Bool × Coordinator :=
  if s.phase ≠ .starting ∨ ¬ required ⊆ s.resources then (false, s)
  else (true, { s with phase := .running })

def beginStop (s : Coordinator) (fault : Bool) : CleanupClaim × Coordinator :=
  let s := { s with faultPending := s.faultPending || fault }
  let claim : CleanupClaim := ⟨false, s.faultPending, s.snapshot⟩
  if s.phase = .stopping then (claim, s)
  else if s.settled && s.resources = ∅ then
    (claim, if s.faultPending then { s with phase := .fault } else s)
  else
    ({ claim with owner := true, snapshot := { claim.snapshot with phase := .stopping } },
      { s with phase := .stopping })

def finishStop (s : Coordinator) (remoteStopped fault : Bool) : Phase × Coordinator :=
  let resources := if remoteStopped then ∅ else s.resources ∩ {.remoteMeasurement}
  let finalFault := fault || s.faultPending || resources ≠ ∅
  let phase := if finalFault then Phase.fault else .idle
  (phase, { phase, resources, faultPending := false })

def monitoring (s : Coordinator) : Bool := s.phase = .starting || s.phase = .running

end Coordinator

/-! ## Serval's status -/

def statusIsIdle (status : Option String) : Option Bool :=
  status.map fun s => s = "DA_IDLE" || s = "DA_STOPPED"

def isRunning (status : Option String) : Bool := statusIsIdle status = some false

def isIdle (status : Option String) : Bool := statusIsIdle status = some true

def isRemoteIdle (status : Option String) : Bool := statusIsIdle status ≠ some false

/-- A `GET /measurement`. -/
inductive Reply where
  | failed
  | invalid
  | ok (status : Option String)
  deriving DecidableEq, Repr

/-! ## The port's thread -/

inductive ADStatus where
  | idle
  | acquire
  | error
  | disconnected
  deriving DecidableEq, Repr

/-- The parameters that the phase is published in. -/
structure Published where
  acquire : Int
  status : ADStatus
  message : String
  deriving DecidableEq, Repr

inductive Channel where
  | prvImg
  | prvImg1
  | img
  | prvHst
  deriving DecidableEq, Repr

def Channel.resource : Channel → Resource
  | .prvImg => .previewWorker
  | .prvImg1 => .integratedPreviewWorker
  | .img => .imageWorker
  | .prvHst => .histogramWorker

def Channel.failure : Channel → String
  | .prvImg => "Preview stream did not become ready"
  | .prvImg1 => "Integrated preview stream did not become ready"
  | .img => "Image stream did not become ready"
  | .prvHst => "Histogram stream did not become ready"

/-- What became of a channel's worker. -/
inductive Readiness where
  | notStarted
  | notConnected
  | connected
  /-- Only the histogram's path is parsed. -/
  | invalidPath
  deriving DecidableEq, Repr

/-- A `GET /measurement/start`. -/
inductive StartReply where
  | ok
  | portConflict
  | failed
  deriving DecidableEq, Repr

inductive Origin where
  | client
  | rollback
  | monitor
  deriving DecidableEq, Repr

/-- A stop that owns the cleanup. -/
structure Cleanup where
  fault : Bool
  reason : String
  origin : Origin
  hadRemote : Bool
  deriving DecidableEq, Repr

inductive Actor where
  | free
  /-- `start_measurement`, from its first call to its last. -/
  | clearing
  | stoppingPrior
  | askingPrior
  | stoppingPriorAgain
  | freeingPorts
  | startingRemote
  | rotatingPorts
  | startingRemoteAgain
  | syncing
  | startingWorkers (left : List Channel)
  | sending
  | committing
  /-- `stop_acquisition`, behind the claim. -/
  | stoppingRemote (job : Cleanup)
  | draining (job : Cleanup)
  | joining (job : Cleanup) (stopSucceeded : Bool)
  | asking (job : Cleanup) (stopSucceeded : Bool)
  | finishing (job : Cleanup) (stopSucceeded remoteStopped : Bool)
  deriving DecidableEq, Repr

/-- Without a measurement there is nothing to ask Serval. -/
def Cleanup.first (job : Cleanup) : Actor := if job.hadRemote then .stoppingRemote job else .joining job true

/-- Where `acquisition_poll` is. -/
inductive Monitor where
  | waiting
  | settling
  | polling (first : Bool)
  | checking
  | sleeping
  /-- The port has not finished its stop yet. -/
  | posted (fault : Bool) (reason : String)
  deriving DecidableEq, Repr

structure Session where
  coordinator : Coordinator
  published : Published
  actor : Actor
  /-- The channels whose worker is on a run. -/
  workers : Finset Channel
  /-- Serval takes data. -/
  measuring : Bool
  /-- `AcquisitionStarted` commands on their way to the monitor. -/
  started : Nat
  woken : Bool
  monitor : Monitor
  /-- What the connection poll has read, on its way to the port. -/
  polled : Option (ADStatus × String)
  deriving DecidableEq

namespace Session

def init : Session where
  coordinator := .default
  published := ⟨0, .idle, ""⟩
  actor := .free
  workers := ∅
  measuring := false
  started := 0
  woken := false
  monitor := .waiting
  polled := none

def publishPhase (s : Session) (phase : Phase) (message : String) : Session :=
  let (acquire, status) : Int × ADStatus :=
    match phase with
    | .starting => (1, .acquire)
    | .running => (1, .acquire)
    | .stopping => (0, .acquire)
    | .fault => (0, .error)
    | .idle => (0, .idle)
  { s with published := ⟨acquire, status, if message = "" then s.published.message else message⟩ }

/-- The port is free again, and the monitor's call on it has returned. -/
def release (s : Session) (origin : Origin) : Session :=
  { s with actor := .free, monitor := if origin = .monitor then .waiting else s.monitor }

/-- `stop_acquisition` up to its first request. -/
def beginStopAcquisition (s : Session) (fault : Bool) (reason : String) (origin : Origin) : Session :=
  let (claim, coordinator) := s.coordinator.beginStop fault
  let s := { s with coordinator }
  if claim.owner then
    let s := s.publishPhase .stopping (if fault then "Rolling back acquisition..." else "Stopping acquisition...")
    let job : Cleanup := ⟨fault, reason, origin, claim.snapshot.has .remoteMeasurement⟩
    { s with actor := job.first }
  else
    match s.coordinator.phase with
    | .idle => (s.publishPhase .idle "Acquisition stopped").release origin
    | .fault => (if reason ≠ "" then s.publishPhase .fault reason else s).release origin
    | .starting => s.release origin
    | .running => s.release origin
    | .stopping => s.release origin

/-- A start that fails is stopped. -/
def rollback (s : Session) (message : String) : Session := s.beginStopAcquisition true message .rollback

def acquireStart (s : Session) : Session :=
  let (admitted, coordinator) := s.coordinator.beginStart
  if admitted then
    { { s with coordinator }.publishPhase .starting "Starting acquisition..." with actor := .clearing }
  else
    s.publishPhase s.coordinator.phase
      ("Acquisition start rejected while state is " ++ s.coordinator.phase.name)

def acquireStop (s : Session) : Session := s.beginStopAcquisition false "" .client

/-- A client's write of Acquire. -/
def writeAcquire (s : Session) (value : Int) : Session :=
  let active := s.coordinator.monitoring
  let needsStop := active || s.coordinator.resources ≠ ∅ || s.coordinator.phase = .stopping
  if value ≠ 0 ∧ !active then s.acquireStart
  else if value = 0 ∧ needsStop then s.acquireStop
  else s

/-- A write of the image mode or of an exposure. -/
def writeConfiguration (s : Session) : Session := if s.published.acquire ≠ 0 then s.acquireStop else s

/-! ### `start_measurement` -/

def mpx3TriggerMsg : String :=
  "MPX3: BothCounters requires non-Continuous TriggerMode (use AutoTrgSt_TmrSp=4)"

def clear (s : Session) (conflict : Bool) : Session :=
  let s := { s with workers := ∅ }
  if conflict then s.rollback mpx3TriggerMsg else { s with actor := .stoppingPrior }

/-- A stop request that the reply of does not matter. -/
def stopRequest (s : Session) (took : Bool) : Session := { s with measuring := s.measuring && !took }

def askedPrior (s : Session) (reply : Reply) : Session :=
  match reply with
  | .ok status => { s with actor := if isRunning status then .stoppingPriorAgain else .freeingPorts }
  | .failed => { s with actor := .freeingPorts }
  | .invalid => { s with actor := .freeingPorts }

def portsFreed (s : Session) (ok : Bool) : Session :=
  if !ok then s.rollback "Failed to reassign occupied preview TCP ports"
  else
    let (noted, coordinator) := s.coordinator.noteResource .remoteMeasurement
    let s := { s with coordinator }
    if !noted then s.rollback "Acquisition start was cancelled" else { s with actor := .startingRemote }

def startRequest (s : Session) (took : Bool) : Session := { s with measuring := s.measuring || took }

def conflictMsg : String := "Preview TCP port in use (Serval did not release a prior listener)"

/-- The reply to the first start, or to the second. -/
def startedRemote (s : Session) (again : Bool) (reply : StartReply) : Session :=
  match reply with
  | .ok => { s with actor := .syncing }
  | .portConflict => if again then s.rollback conflictMsg else { s with actor := .rotatingPorts }
  | .failed => s.rollback "Failed to start acquisition"

def portsRotated (s : Session) (ok : Bool) : Session :=
  if ok then { s with actor := .startingRemoteAgain } else s.rollback conflictMsg

def startedWorker (s : Session) (channel : Channel) (left : List Channel) (readiness : Readiness) : Session :=
  match readiness with
  | .invalidPath => s.rollback "Histogram TCP path is invalid"
  | .notStarted => s.rollback channel.failure
  | .notConnected =>
    let (_, coordinator) := s.coordinator.noteResource channel.resource
    { s with workers := insert channel s.workers, coordinator }.rollback channel.failure
  | .connected =>
    let (noted, coordinator) := s.coordinator.noteResource channel.resource
    let s := { s with workers := insert channel s.workers, coordinator }
    if noted then { s with actor := .startingWorkers left } else s.rollback channel.failure

def sent (s : Session) (ok : Bool) : Session :=
  if ok then { s with started := s.started + 1, actor := .committing }
  else s.rollback "Failed to create measurement monitor thread"

def commit (s : Session) : Session :=
  let (noted, coordinator) := s.coordinator.noteResource .monitorThread
  let (committed, coordinator) := if noted then coordinator.commitStart else (false, coordinator)
  let s := { s with coordinator }
  if committed then { s.publishPhase .running "Acquisition running" with actor := .free }
  else s.rollback "Acquisition start was cancelled before commit"

/-! ### `stop_acquisition` -/

def stoppedRemote (s : Session) (job : Cleanup) (ok : Bool) : Session :=
  { s with actor := if ok then .draining job else .joining job false }

def joined (s : Session) (job : Cleanup) (stopSucceeded : Bool) : Session :=
  { s with
    workers := ∅
    actor := if job.hadRemote then .asking job stopSucceeded else .finishing job stopSucceeded true }

def asked (s : Session) (job : Cleanup) (stopSucceeded : Bool) (reply : Reply) : Session :=
  match reply with
  | .ok status => { s with actor := .finishing job stopSucceeded (isRemoteIdle status) }
  | .failed => { s with actor := .finishing job stopSucceeded false }
  | .invalid => { s with actor := .finishing job stopSucceeded false }

def finish (s : Session) (job : Cleanup) (stopSucceeded remoteStopped : Bool) : Session :=
  let (phase, coordinator) := s.coordinator.finishStop remoteStopped job.fault
  let s := { s with coordinator }
  let s :=
    if phase = .fault then
      let message := if job.reason = "" then "Acquisition cleanup failed" else job.reason
      s.publishPhase .fault
        (if job.hadRemote && !remoteStopped
         then message ++ "; Serval measurement state not confirmed stopped" else message)
    else
      s.publishPhase .idle
        (if stopSucceeded then "Acquisition stopped" else "Acquisition stopped (remote state reconciled)")
  s.release job.origin

/-! ### The monitor and the connection poll -/

def pollReason (first : Bool) : Reply → String
  | .failed =>
    if first then "Measurement HTTP error; acquisition rolled back"
    else "Measurement poll HTTP error; acquisition rolled back"
  | .invalid =>
    if first then "Invalid measurement response; acquisition rolled back"
    else "Invalid measurement JSON; acquisition rolled back"
  | .ok _ => ""

def pollMeasurement (s : Session) (first : Bool) (reply : Reply) : Session :=
  match reply with
  | .ok status => { s with monitor := if isIdle status then .posted false "" else .checking }
  | .failed => { s with monitor := .posted true (pollReason first .failed) }
  | .invalid => { s with monitor := .posted true (pollReason first .invalid) }

def connectionStatus (s : Session) (servalOk detOk : Bool) : ADStatus × String :=
  match servalOk, detOk with
  | true, true =>
    (match s.coordinator.phase with
      | .starting => .acquire
      | .running => .acquire
      | .stopping => .acquire
      | .fault => .error
      | .idle => .idle,
      s.coordinator.snapshot.connectedStatusMessage)
  | false, false => (.disconnected, "SERVAL and detector disconnected")
  | false, true => (.disconnected, "SERVAL disconnected")
  | true, false => (.disconnected, "Detector disconnected")

end Session

/-! ## Interleavings -/

/-- `took`: the request reached Serval, whatever became of the reply. -/
inductive Event where
  | writeAcquire (value : Int)
  | writeConfiguration
  | monitorStop
  | cleared (conflict : Bool)
  | stopRequest (took : Bool)
  | askedPrior (reply : Reply)
  | portsFreed (ok : Bool)
  | started (took : Bool) (reply : StartReply)
  | portsRotated (ok : Bool)
  | synced (channels : List Channel)
  | worker (readiness : Readiness)
  | allReady
  | sent (ok : Bool)
  | commit
  | stopped (took ok : Bool)
  | drained
  | joined
  | asked (reply : Reply)
  | finish
  | forwarded
  | woke
  | settled (timedOut : Bool)
  | polled (reply : Reply)
  | checked
  | slept
  | statusRead (servalOk detOk : Bool)
  | statusWritten
  | measurementEnded
  | workerEnded (channel : Channel)
  deriving DecidableEq, Repr

/-- Serval says that it is idle, or says nothing, only when it takes no data. -/
def Reply.Honest (reply : Reply) (measuring : Bool) : Prop :=
  ∀ status, reply = .ok status → isRemoteIdle status = true → measuring = false

instance (reply : Reply) (measuring : Bool) : Decidable (reply.Honest measuring) :=
  match reply with
  | .ok status =>
    decidable_of_iff (isRemoteIdle status = true → measuring = false)
      ⟨fun h _ heq => Reply.ok.inj heq ▸ h, fun h => h status rfl⟩
  | .failed => isTrue nofun
  | .invalid => isTrue nofun

open Session in
inductive Step (s : Session) : Event → Session → Prop where
  | writeAcquire (value : Int) (hfree : s.actor = .free) : Step s (.writeAcquire value) (s.writeAcquire value)
  | writeConfiguration (hfree : s.actor = .free) : Step s .writeConfiguration s.writeConfiguration
  | monitorStop {fault : Bool} {reason : String} (hfree : s.actor = .free)
      (hposted : s.monitor = .posted fault reason) :
      Step s .monitorStop (s.beginStopAcquisition fault reason .monitor)
  | cleared (conflict : Bool) (hactor : s.actor = .clearing) : Step s (.cleared conflict) (s.clear conflict)
  | priorStopped (took : Bool) (hactor : s.actor = .stoppingPrior) :
      Step s (.stopRequest took) { s.stopRequest took with actor := .askingPrior }
  | askedPrior (reply : Reply) (hactor : s.actor = .askingPrior) :
      Step s (.askedPrior reply) (s.askedPrior reply)
  | priorStoppedAgain (took : Bool) (hactor : s.actor = .stoppingPriorAgain) :
      Step s (.stopRequest took) { s.stopRequest took with actor := .freeingPorts }
  | portsFreed (ok : Bool) (hactor : s.actor = .freeingPorts) : Step s (.portsFreed ok) (s.portsFreed ok)
  | started (took : Bool) (reply : StartReply) (hactor : s.actor = .startingRemote) :
      Step s (.started took reply) ((s.startRequest took).startedRemote false reply)
  | portsRotated (ok : Bool) (hactor : s.actor = .rotatingPorts) :
      Step s (.portsRotated ok) (s.portsRotated ok)
  | startedAgain (took : Bool) (reply : StartReply) (hactor : s.actor = .startingRemoteAgain) :
      Step s (.started took reply) ((s.startRequest took).startedRemote true reply)
  | synced (channels : List Channel) (hactor : s.actor = .syncing) :
      Step s (.synced channels) { s with actor := .startingWorkers channels }
  | worker {channel : Channel} {left : List Channel} (readiness : Readiness)
      (hactor : s.actor = .startingWorkers (channel :: left))
      (hparsed : readiness = .invalidPath → channel = .prvHst) :
      Step s (.worker readiness) (s.startedWorker channel left readiness)
  | allReady (hactor : s.actor = .startingWorkers []) : Step s .allReady { s with actor := .sending }
  | sent (ok : Bool) (hactor : s.actor = .sending) : Step s (.sent ok) (s.sent ok)
  | commit (hactor : s.actor = .committing) : Step s .commit s.commit
  | stopped {job : Cleanup} (took ok : Bool) (hactor : s.actor = .stoppingRemote job) :
      Step s (.stopped took ok) ((s.stopRequest took).stoppedRemote job ok)
  | drained {job : Cleanup} (hactor : s.actor = .draining job) :
      Step s .drained { s with actor := .joining job true }
  | joined {job : Cleanup} {stopSucceeded : Bool} (hactor : s.actor = .joining job stopSucceeded) :
      Step s .joined (s.joined job stopSucceeded)
  | asked {job : Cleanup} {stopSucceeded : Bool} (reply : Reply)
      (hactor : s.actor = .asking job stopSucceeded) (hhonest : reply.Honest s.measuring) :
      Step s (.asked reply) (s.asked job stopSucceeded reply)
  | finish {job : Cleanup} {stopSucceeded remoteStopped : Bool}
      (hactor : s.actor = .finishing job stopSucceeded remoteStopped) :
      Step s .finish (s.finish job stopSucceeded remoteStopped)
  -- the command, and the slot of the monitor's channel
  | forwarded {n : Nat} (hstarted : s.started = n + 1) :
      Step s .forwarded { s with started := n, woken := true }
  | woke (hmonitor : s.monitor = .waiting) (hwoken : s.woken = true) :
      Step s .woke { s with woken := false, monitor := .settling }
  | settled (hmonitor : s.monitor = .settling) (hphase : s.coordinator.phase ≠ .starting) :
      Step s (.settled false)
        { s with monitor := if s.coordinator.phase = .running then .polling true else .waiting }
  | gaveUp (hmonitor : s.monitor = .settling) : Step s (.settled true) { s with monitor := .waiting }
  | polled {first : Bool} (reply : Reply) (hmonitor : s.monitor = .polling first) :
      Step s (.polled reply) (s.pollMeasurement first reply)
  | checked (hmonitor : s.monitor = .checking) :
      Step s .checked { s with monitor := if s.coordinator.monitoring then .sleeping else .waiting }
  | slept (hmonitor : s.monitor = .sleeping) : Step s .slept { s with monitor := .polling false }
  | statusRead (servalOk detOk : Bool) (hpolled : s.polled = none) :
      Step s (.statusRead servalOk detOk) { s with polled := some (s.connectionStatus servalOk detOk) }
  | statusWritten {status : ADStatus} {message : String} (hfree : s.actor = .free)
      (hpolled : s.polled = some (status, message)) :
      Step s .statusWritten
        { s with published := { s.published with status, message }, polled := none }
  | measurementEnded : Step s .measurementEnded { s with measuring := false }
  | workerEnded (channel : Channel) : Step s (.workerEnded channel) { s with workers := s.workers.erase channel }

def AcquisitionSystem : System Session Event where
  init s := s = .init
  step := Step

end TimePix.Acquisition
