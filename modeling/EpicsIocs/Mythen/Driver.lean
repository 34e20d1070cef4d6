import Mathlib.Algebra.Ring.Int.Defs
import EpicsIocs.Lib.Steps

/-! # The Mythen port and its acquisition task

`driver.rs` and `detector.rs` on one side, `task.rs` on the other, over the atomics of
`DetState`, the channel of the start signals and the transport, whose mutex makes a command
and its reply one step.  The port takes one request at a time: a write of a client, or a
parameter that the task reads or sets, for which the task waits until no write is under way.

    write w        the port takes a write
    driver answer  the next operation of the write under way
    task answer    the next step of the task
    finish         the detector has its last frame

`answer` is what the detector replies, if the step asks it something.  Replies arrive whole,
so the detector stays connected. -/

namespace Mythen

/-! ## `protocol.rs` -/

def channelsPerModule : Nat := 1280
def intReplyLen : Nat := 4
def readModeRaw : Int := 0
def imageModeSingle : Int := 0
def correctedNbits : Int := 24
def maxTriggerTimeoutCount : Nat := 50

def nbitsOfBitDepth (index : Int) : Int :=
  match index with
  | 1 => 16
  | 2 => 8
  | 3 => 4
  | _ => 24

def channelsPerWord (nbits : Int) : Nat :=
  match nbits with
  | 16 => 2
  | 8 => 4
  | 4 => 8
  | _ => 1

def readoutLen (readMode : Int) (nmodules : Nat) (nbits : Int) : Nat :=
  let wordsPerModule :=
    if readMode = readModeRaw then channelsPerModule / channelsPerWord nbits else channelsPerModule
  intReplyLen * nmodules * wordsPerModule

structure StatusBits where
  running : Bool
  waitingForTrigger : Bool
  noData : Bool

def statusBits (aux : Int) : StatusBits where
  running := aux % 2 = 1
  waitingForTrigger := aux / 2 ^ 3 % 2 = 1
  noData := aux / 2 ^ 16 % 2 = 1

def isIdle (bits : StatusBits) : Bool := !bits.running && bits.noData

inductive ADStatus where
  | idle
  | acquire
  | readout
  | error
  deriving DecidableEq, Repr

def statusAfterWait (bits : StatusBits) (timedOut : Bool) : ADStatus :=
  if timedOut then .error else if !bits.noData then .readout else .acquire

/-- What `get_status` makes of an answer after so many polls spent waiting for a trigger; none if
it polls again. -/
def pollStatus (waited : Nat) (aux : Int) : Option ADStatus :=
  let bits := statusBits aux
  if waited = 0 ∧ isIdle bits = true then some .idle
  else if bits.waitingForTrigger = true ∧ waited < maxTriggerTimeoutCount then none
  else some (statusAfterWait bits (waited = maxTriggerTimeoutCount))

/-! ## Commands -/

/-- The commands but for `-get` and the readouts.  The numbers of `-kthresh`, `-energy` and `-tau`
are left out. -/
inductive Command where
  | start
  | stop
  | module (n : Nat)
  | settings (index : Int)
  | reset
  | flatFieldCorrection (value : Int)
  | rateCorrection (value : Int)
  | badChannelInterpolation (value : Int)
  | nbits (value : Int)
  | gates (value : Int)
  | gateEn (value : Int)
  | frames (value : Int)
  | trigEn (value : Int)
  | contTrigEn
  | time (hundredNs : Int)
  | delAfter (hundredNs : Int)
  | kthresh
  | energy
  | tau
  deriving DecidableEq, Repr

def Command.isSetting : Command → Bool
  | .start => false
  | .stop => false
  | _ => true

/-- An index outside the menu resets the module. -/
def settingsCommand (index : Int) : Command :=
  if 0 ≤ index ∧ index ≤ 3 then .settings index else .reset

def triggerCommand (mode : Int) : List Command :=
  match mode with
  | 0 => [.trigEn 0]
  | 1 => [.trigEn 1]
  | 2 => [.contTrigEn]
  | _ => []

/-- The detector: whether it acquires, and its bit depth. -/
structure Device where
  running : Bool
  nbits : Nat
  deriving DecidableEq, Repr

/-- A reset leaves the detector with some bit depth. -/
def Device.obey (dev : Device) (depth : Int) : Command → Device
  | .start => { dev with running := true }
  | .stop => { dev with running := false }
  | .nbits value => { dev with nbits := value.toNat }
  | .reset => { dev with nbits := depth.toNat }
  | _ => dev

def Command.changesDepth : Command → Bool
  | .nbits _ => true
  | .reset => true
  | _ => false

/-- The `-get` commands of `get_settings`. -/
inductive Query where
  | flatFieldCorrection
  | badChannelInterpolation
  | rateCorrection
  | nbits
  | time
  | frames
  | tau
  | kthresh
  | energy
  | delAfter
  | contTrig
  | trig
  deriving DecidableEq, Repr

/-- Whether a detector answers so. -/
def Query.answers (dev : Device) (answer : Int) : Query → Bool
  | .flatFieldCorrection => answer = 0 || answer = 1
  | .badChannelInterpolation => answer = 0 || answer = 1
  | .rateCorrection => answer = 0 || answer = 1
  | .nbits => answer = dev.nbits
  | _ => true

/-- Whether `get_settings` goes on behind the answer. -/
def Query.goesOn (answer : Int) : Query → Bool
  | .flatFieldCorrection => answer = 0 || answer = 1
  | .badChannelInterpolation => answer = 0 || answer = 1
  | .rateCorrection => answer = 0 || answer = 1
  | .frames => true
  | .tau => answer = -1 || 0 < answer
  | .contTrig => 0 ≤ answer && answer ≠ 1
  | _ => 0 ≤ answer

/-! ## The state they share -/

structure DetState where
  acquiring : Bool
  readMode : Int
  nbits : Int
  nmodules : Int
  frames : Int
  firmwareMajor : Nat
  deriving DecidableEq, Repr

namespace DetState

variable (det : DetState)

def nmodules? : Option Nat := if 0 < det.nmodules then some det.nmodules.toNat else none

def getSettings : List Query :=
  [.flatFieldCorrection, .badChannelInterpolation, .rateCorrection, .nbits, .time, .frames, .tau,
    .kthresh] ++ if 3 ≤ det.firmwareMajor then [.energy, .delAfter, .contTrig, .trig] else []

/-- What `get_settings` keeps of an answer. -/
def store (q : Query) (answer : Int) : DetState :=
  if q = .nbits ∧ 0 ≤ answer then { det with nbits := answer } else det

def forEachModule (c : Command) : List Command :=
  (List.range (det.nmodules?.getD 0)).flatMap fun m => [.module m, c]

end DetState

/-! ## Writes -/

/-- A write of `write_int32` or `write_float64`; of a float only what its command says. -/
inductive Write where
  | acquire (value : Int)
  | readMode (value : Int)
  | setting (value : Int)
  | useFlatField (value : Int)
  | useCountRate (value : Int)
  | useBadChanIntrpl (value : Int)
  | bitDepth (value : Int)
  | numGates (value : Int)
  | useGates (value : Int)
  | numFrames (value : Int)
  | trigger (value : Int)
  | reset
  | imageMode (value : Int)
  | acquireTime (hundredNs : Int)
  | delayTime (hundredNs : Int)
  | threshold
  | energy
  | tau (legal : Bool)
  | other
  deriving DecidableEq, Repr

/-- The parameters that the driver reads back. -/
structure Params where
  readMode : Int
  imageMode : Int
  deriving DecidableEq, Repr

def Params.set (params : Params) : Write → Params
  | .readMode value => { params with readMode := value }
  | .imageMode value => { params with imageMode := value }
  | _ => params

def setFrames (value imageMode : Int) : Command :=
  .frames (if imageMode = imageModeSingle then 1 else value)

/-- What a write sends. -/
def Write.commands (det : DetState) (params : Params) : Write → List Command
  | .acquire _ => []
  | .readMode _ => []
  | .setting value => det.forEachModule (settingsCommand value)
  | .useFlatField value => [.flatFieldCorrection value]
  | .useCountRate value => [.rateCorrection value]
  | .useBadChanIntrpl value => [.badChannelInterpolation value]
  | .bitDepth value => [.nbits (nbitsOfBitDepth value)]
  | .numGates value => [.gates value]
  | .useGates value => [.gateEn value]
  | .numFrames value => [setFrames value params.imageMode]
  | .trigger value => triggerCommand value
  | .reset => det.forEachModule .reset
  | .imageMode value => [setFrames det.frames value]
  | .acquireTime hundredNs => [.time hundredNs]
  | .delayTime hundredNs => [.delAfter hundredNs]
  | .threshold => det.forEachModule .kthresh
  | .energy => if det.firmwareMajor < 3 then [] else det.forEachModule .energy
  | .tau legal => if legal then [.tau] else []
  | .other => []

/-- The operations of a write, one step each. -/
inductive Op where
  | storeReadMode
  | storeAcquiring (value : Bool)
  | storeFrames (value : Int)
  | command (c : Command)
  | start
  | signal
  | status (waited : Nat)
  | refreshSettings
  | query (q : Query)
  deriving DecidableEq, Repr

def Write.isAcquire : Write → Bool
  | .acquire _ => true
  | _ => false

/-- `set_acquire`, or the commands of a setting and the settings read back. -/
def Write.ops (det : DetState) (params : Params) : Write → List Op
  | .acquire value =>
    .storeReadMode ::
      if value = 0 then [.storeAcquiring false, .command .stop, .status 0] else [.start]
  | .numFrames value =>
    [.command (setFrames value params.imageMode), .storeFrames value, .refreshSettings]
  | w => (w.commands det params).map .command ++ [.refreshSettings]

/-! ## The task -/

/-- What an acquisition keeps of the settings for its readouts. -/
structure Shot where
  nmodules : Nat
  expect : Nat
  decodeNbits : Int
  deriving DecidableEq, Repr

/-- Where the task is; `id` is the start whose signal it took. -/
inductive Task where
  | waiting
  | loadMode (id : Nat)
  | loadNbits (id : Nat) (readMode : Int)
  | loadModules (id : Nat) (readMode nbits : Int)
  | lenMode (id : Nat) (readMode nbits : Int) (nmodules : Nat)
  | lenNbits (id : Nat) (readMode nbits : Int) (nmodules : Nat) (lenMode : Int)
  | acquireTime (id : Nat) (shot : Shot)
  | poll (id : Nat) (shot : Shot) (first : Bool) (waited : Nat)
  | report (id : Nat) (shot : Shot) (first : Bool) (status : ADStatus)
  | head (id : Nat) (shot : Shot) (status : ADStatus)
  | send (id : Nat) (shot : Shot) (status : ADStatus) (raw : Bool)
  | reading (id : Nat) (shot : Shot) (status : ADStatus) (whole : Bool)
  | publish (id : Nat) (shot : Shot) (status : ADStatus)
  | check (id : Nat) (shot : Shot) (status : ADStatus)
  | clear (id : Nat) (status : ADStatus)
  | imageMode (id : Nat) (status : ADStatus) (cut : Bool)
  | abortStore (id : Nat) (cut : Bool)
  | abortSend (id : Nat) (cut : Bool)
  | refuse (id : Nat)
  | leaving (params : Nat)
  deriving DecidableEq, Repr

/-- It holds the transport. -/
def Task.isReading : Task → Bool
  | .reading .. => true
  | _ => false

/-! ## Runs -/

/-- Who clears `acquiring`. -/
inductive Clearer where
  | stop
  | loop (id : Nat)
  | refusal
  deriving DecidableEq, Repr

/-- What is told of a run: the readouts, the settings, and where `acquiring` goes from true to
false, each with what was in force. -/
inductive Event where
  | readout (raw : Bool) (expect : Nat) (det : DetState) (device : Device) (loop latest : Nat)
  | cleared (clearer : Clearer) (latest : Nat)
  | setting (c : Command) (device : Device)
  deriving DecidableEq, Repr

/-- `latest` counts the starts. -/
structure State where
  det : DetState
  params : Params
  device : Device
  ops : List Op
  queue : Option Nat
  task : Task
  latest : Nat
  log : List Event
  deriving DecidableEq, Repr

namespace State

variable (s : State)

/-- Stores to `acquiring`, telling when it is cleared. -/
def storeAcquiring (value : Bool) (clearer : Clearer) : State :=
  { s with
    det := { s.det with acquiring := value }
    log := if s.det.acquiring && !value then s.log ++ [.cleared clearer s.latest] else s.log }

/-- A command that the detector obeys. -/
def obey (c : Command) (depth : Int) : State :=
  { s with
    device := s.device.obey depth c
    latest := if c = .start then s.latest + 1 else s.latest
    log := if c.isSetting then s.log ++ [.setting c s.device] else s.log }

/-- A write is taken when none is under way.  A busy detector takes no settings. -/
def write (w : Write) : Option State :=
  if s.ops ≠ [] then none
  else if !w.isAcquire && s.det.acquiring then some s
  else some { s with params := s.params.set w, ops := w.ops s.det (s.params.set w) }

/-- The next operation of the write under way. -/
def driver (answer : Int) : Option State :=
  match s.ops with
  | [] => none
  | op :: ops =>
    let t := { s with ops }
    match op with
    | .storeReadMode => some { t with det := { t.det with readMode := t.params.readMode } }
    | .storeAcquiring value => some (t.storeAcquiring value .stop)
    | .storeFrames value => some { t with det := { t.det with frames := value } }
    | .command c => if t.task.isReading then none else some (t.obey c answer)
    | .start =>
      if t.det.acquiring then some t
      else some { t with ops := [.command .start, .storeAcquiring true, .signal] ++ ops }
    | .signal => some { t with queue := t.queue.or (some t.latest) }
    | .status waited =>
      if t.task.isReading || (statusBits answer).running != t.device.running then none
      else
        match pollStatus waited answer with
        | none => some { t with ops := .status (waited + 1) :: ops }
        | some _ => some t
    | .refreshSettings =>
      if t.det.acquiring then some t
      else some { t with ops := t.det.getSettings.map .query ++ ops }
    | .query q =>
      if t.task.isReading || !q.answers t.device answer then none
      else
        some { t with
          det := t.det.store q answer
          ops := if q.goesOn answer then ops else [] }

/-- A parameter request of the task, for which no write may be under way. -/
def await (next : Task) : Option State := if s.ops = [] then some { s with task := next } else none

/-- The next step of the task. -/
def taskStep (answer : Int) : Option State :=
  match s.task with
  | .waiting =>
    s.queue.map fun id => { s with queue := none, task := .loadMode id }
  | .loadMode id => some { s with task := .loadNbits id s.det.readMode }
  | .loadNbits id readMode => some { s with task := .loadModules id readMode s.det.nbits }
  | .loadModules id readMode nbits =>
    match s.det.nmodules? with
    | none => some { s with task := .refuse id }
    | some nmodules => some { s with task := .lenMode id readMode nbits nmodules }
  | .lenMode id readMode nbits nmodules =>
    some { s with task := .lenNbits id readMode nbits nmodules s.det.readMode }
  | .lenNbits id readMode nbits nmodules lenMode =>
    let expect := readoutLen lenMode nmodules s.det.nbits
    if expect = 0 then some { s with task := .refuse id }
    else
      let decodeNbits := if readMode = readModeRaw then nbits else correctedNbits
      some { s with task := .acquireTime id ⟨nmodules, expect, decodeNbits⟩ }
  | .acquireTime id shot => s.await (.poll id shot true 0)
  | .poll id shot first waited =>
    if (statusBits answer).running != s.device.running then none
    else
      match pollStatus waited answer with
      | none => some { s with task := .poll id shot first (waited + 1) }
      | some status => some { s with task := .report id shot first status }
  | .report id shot first status =>
    s.await (if first then .head id shot status else .check id shot status)
  | .head id shot status =>
    if status = .error then some { s with task := .clear id status }
    else some { s with task := .send id shot status (s.det.readMode = readModeRaw) }
  | .send id shot status raw =>
    let whole := readoutLen (if raw then readModeRaw else 1) shot.nmodules s.device.nbits
    some { s with
      task := .reading id shot status (shot.expect ≤ whole)
      log := s.log ++ [.readout raw shot.expect s.det s.device id s.latest] }
  | .reading id shot status whole =>
    if whole && decide (0 ≤ answer) then some { s with task := .publish id shot status }
    else some { s with task := .poll id shot false 0 }
  | .publish id shot status => s.await (.check id shot status)
  | .check id shot status =>
    if s.det.acquiring && (status = .acquire || status = .readout) then
      some { s with task := .head id shot status }
    else some { s with task := .clear id status }
  | .clear id status =>
    some { s.storeAcquiring false (.loop id) with task := .imageMode id status s.det.acquiring }
  | .imageMode id status cut =>
    s.await (if status = .error then .abortStore id cut else .leaving 2)
  | .abortStore id cut =>
    some { s.storeAcquiring false (.loop id) with task := .abortSend id cut }
  | .abortSend _ _ => some { s.obey .stop answer with task := .leaving 2 }
  | .refuse _ => some { s.storeAcquiring false .refusal with task := .leaving 2 }
  | .leaving params => s.await (if params ≤ 1 then .waiting else .leaving (params - 1))

end State

inductive Action where
  | write (w : Write)
  | driver (answer : Int)
  | task (answer : Int)
  | finish
  deriving DecidableEq, Repr

def step (s : State) : Action → Option State
  | .write w => s.write w
  | .driver answer => s.driver answer
  | .task answer => s.taskStep answer
  | .finish =>
    if s.device.running then some { s with device := { s.device with running := false } } else none

/-- After `init_params`: the settings are read, and nothing is under way. -/
structure Init (s : State) : Prop where
  acquiring : s.det.acquiring = false
  nbits : s.det.nbits = s.device.nbits
  running : s.device.running = false
  ops : s.ops = []
  queue : s.queue = none
  task : s.task = .waiting
  log : s.log = []

end Mythen
