import EpicsIocs.Lib.Ints
import EpicsIocs.Lib.Raster
import EpicsIocs.SpecsAnalyser.Codec

/-!
# The acquisition of the SPECS analyser

`run_acquisition` of `task.rs`, the writes of `ADAcquire` of `driver.rs` that interrupt it, and what
`wire.rs` and `codec.rs` read out of a reply for it.  A run is over what happens outside of the task: the
device's replies, and what clients write while the task lets go of the driver.  Arithmetic is that of `i32`;
the doubles are any type with an addition, of which nothing is assumed.
-/

namespace SpecsAnalyser

open Text Raster

/-! ## Replies -/

/-- What is used of `f64`. -/
structure Doubles (V : Type) where
  zero : V
  add : V → V → V
  /-- `str::parse::<f64>`. -/
  parse : List Char → Option V

/-- An `i32` that wraps. -/
def i32 (v : Int) : Int := v.bmod (2 ^ 32)

/-- The fields of a reply in their order; a later one replaces one of its name. -/
abbrev Data : Type := List Pair

namespace Data

def get (data : Data) (name : String) : Option (List Char) :=
  (data.reverse.find? fun pair => pair.1 = name.toList).map fun pair => pair.2

def contains (data : Data) (name : String) : Bool := (data.get name).isSome

def insert (data : Data) (name value : String) : Data := data ++ [(name.toList, value.toList)]

end Data

/-- A device that refuses a command says why; anything else is a failure of the link. -/
inductive Reply where
  | ok (data : Data)
  | device (info : ErrorInfo)
  | failed
  deriving DecidableEq, Repr

/-- `unwrap_or_default`. -/
def Reply.orDefault : Reply → Data
  | .ok data => data
  | .device _ => []
  | .failed => []

/-- `parse_integer_field`. -/
def parseIntegerField (raw : List Char) : Option Int := Ints.int32.parse (trim raw)

/-- The text between commas. -/
def splitCommas : List Char → List (List Char)
  | [] => [[]]
  | c :: cs =>
    match splitCommas cs with
    | [] => []
    | field :: fields => if c = ',' then [] :: field :: fields else (c :: field) :: fields

variable {V : Type}

/-- `parse_data_array`. -/
def parseDataArray (f : Doubles V) (data : List Char) : List V :=
  let cleaned := strip (fun c => c = '[' || c = ']') data
  if cleaned.isEmpty then []
  else (splitCommas cleaned).map fun tok => (f.parse (trim tok)).getD f.zero

/-- `read_acquisition_data`, with its errors as no values. -/
def readAcquisitionData (f : Doubles V) : Reply → List V
  | .ok data => parseDataArray f ((data.get "Data").getD [])
  | .device _ => []
  | .failed => []

/-! ## The task -/

def maxValues : Int := 1000000

inductive ADStatus where
  | idle
  | initializing
  | acquire
  | error
  | aborted
  | waiting
  deriving DecidableEq, Repr

inductive Command where
  | clearSpectrum
  | start (safeAfter : Bool)
  | getAcquisitionStatus
  | ordinateRange
  | getAcquisitionData (fromIndex toIndex : Int)
  | abort
  deriving DecidableEq, Repr

/-- What goes out with an array callback. -/
inductive Posted (V : Type) where
  | spectrum (values : List V)
  | image (values : List V)
  deriving DecidableEq, Repr

/-- What an acquisition takes over from the preamble and from the parameters. -/
structure Setup where
  iterations : Int
  nonEnergyChannels : Int
  energyChannels : Int
  safeState : Int
  deriving DecidableEq, Repr

namespace Setup

variable (c : Setup)

def nx : Nat := c.energyChannels.toNat

def ny : Nat := c.nonEnergyChannels.toNat

end Setup

/-- The locals of the task, the parameters it sets, and what it has sent and posted. -/
structure Task (V : Type) where
  image : List V
  spectrum : List V
  iteration : Int := 0
  currentDataPoint : Int := 0
  ok : Bool := true
  lastData : Data := []
  /-- The local copy of `ADAcquire`. -/
  acquire : Int := 1
  adAcquire : Int := 1
  status : ADStatus := .initializing
  message : String := "Executing pre-scan..."
  percentCompleteIteration : Int := 0
  currentSampleIteration : Int := 0
  percentComplete : Int := 0
  currentSample : Int := 0
  sent : List Command := []
  posted : List (Posted V) := []
  deriving DecidableEq, Repr

/-- What happens from one status request to the next. -/
structure Poll where
  /-- A client's write of `ADAcquire` while the task sleeps. -/
  asleep : Option Int := none
  status : Reply
  /-- The reply to a request for the points from one index to another. -/
  data : Int → Int → Reply
  /-- A client's write of `ADAcquire` while the callbacks are called. -/
  calling : Option Int := none

namespace Task

def send (s : Task V) (command : Command) : Task V := { s with sent := s.sent ++ [command] }

/-- `write_int32` of `ADAcquire`, without the events. -/
def writeAcquire (value : Int) (s : Task V) : Task V :=
  let s := { s with adAcquire := value }
  if value = 0 ∧ s.status ≠ .idle then { s with status := .aborted }.send .abort else s

def client (write : Option Int) (s : Task V) : Task V :=
  match write with
  | none => s
  | some value => s.writeAcquire value

def readAcquire (s : Task V) : Task V := { s with acquire := s.adAcquire }

/-- What every failure of a scan does to the parameters. -/
def stopWith (message : String) (s : Task V) : Task V :=
  { s with ok := false, adAcquire := 0, status := .error, message := message }

/-- The status request of a poll. -/
def readStatus (reply : Reply) (s : Task V) : Task V :=
  let s := s.send .getAcquisitionStatus
  match reply with
  | .ok data =>
    let data := if data.contains "Code" then data.insert "ControllerState" "error" else data
    { s with ok := true, lastData := data }
  | .device info =>
    let data := [("Code".toList, info.code), ("Message".toList, info.message),
      ("ControllerState".toList, "error".toList)]
    { s with ok := false, lastData := data }
  | .failed => { s with ok := false, lastData := [] }

def controllerState (s : Task V) : List Char := (s.lastData.get "ControllerState").getD []

def numDataPoints (s : Task V) : Int :=
  (parseIntegerField ((s.lastData.get "NumberOfAcquiredPoints").getD [])).getD 0

/-- The condition of the inner loop. -/
def shouldContinue (c : Setup) (s : Task V) : Bool :=
  s.acquire ≠ 0 && s.ok &&
    (s.controllerState ≠ "finished".toList || s.currentDataPoint < c.energyChannels) &&
    s.controllerState ≠ "aborted".toList && s.controllerState ≠ "error".toList

/-- The first points of an iteration are there. -/
def announce (s : Task V) : Task V :=
  if s.currentDataPoint = 0 then
    { s with status := .acquire, message := "Acquiring data..." }.send .ordinateRange
  else s

/-- Behind the last point to read: a request asks for `MAX_VALUES` values at most. -/
def readEndDataPoint (c : Setup) (numDataPoints : Int) (s : Task V) : Int :=
  if i32 (i32 (numDataPoints - s.currentDataPoint) * max c.nonEnergyChannels 1) > maxValues then
    i32 (s.currentDataPoint + maxValues.tdiv (max c.nonEnergyChannels 1))
  else numDataPoints

end Task

/-- What the loops over a reply change. -/
structure Sums (V : Type) where
  image : List V
  spectrum : List V
  index : Nat

/-- The value at `index` goes to a channel `x` of a row `y`. -/
def Sums.point (f : Doubles V) (c : Setup) (iteration : Int) (values : List V) (y x : Int)
    (s : Sums V) : Sums V :=
  let xu := x.toNat
  let yu := y.toNat
  match values[s.index]? with
  | none => { s with index := s.index + 1 }
  | some v =>
    if c.nx ≤ xu ∨ c.ny ≤ yu then { s with index := s.index + 1 }
    else
      { image :=
          if iteration = 0 then s.image.set (yu * c.nx + xu) v
          else s.image.modify (yu * c.nx + xu) fun a => f.add a v
        spectrum :=
          if xu < s.spectrum.length then s.spectrum.modify xu fun a => f.add a v else s.spectrum
        index := s.index + 1 }

def Sums.row (f : Doubles V) (c : Setup) (iteration : Int) (values : List V) (cols : List Int) (y : Int)
    (s : Sums V) : Sums V :=
  cols.foldl (fun s x => s.point f c iteration values y x) s

namespace Task

variable (f : Doubles V) (c : Setup)

/-- The loop over the rows, which a controller that goes on behind the scan's end breaks. -/
def store (numDataPoints : Int) (values : List V) (cols : List Int) :
    List Int → Sums V → Task V → Task V
  | [], sums, s => { s with image := sums.image, spectrum := sums.spectrum }
  | y :: ys, sums, s =>
    if numDataPoints > c.energyChannels then
      let s := { s with image := sums.image, spectrum := sums.spectrum }.send .abort
      s.stopWith "SPECS Controller Error(B), see log"
    else store numDataPoints values cols ys (sums.row f c s.iteration values cols y) s

/-- The arrays and the counters that a stored reply posts; none is the slice that panics. -/
def post (readEnd : Int) (s : Task V) : Option (Task V) :=
  let s := { s with currentDataPoint := readEnd }
  let spectrum :=
    if s.iteration = 0 then
      if readEnd.toNat ≤ s.spectrum.length then some (s.spectrum.take readEnd.toNat) else none
    else some s.spectrum
  spectrum.map fun spectrum =>
    let total := i32 (c.iterations * c.energyChannels)
    let sample := i32 (readEnd + i32 (s.iteration * c.energyChannels))
    { s with
      posted := s.posted ++ [.spectrum spectrum, .image s.image]
      percentCompleteIteration :=
        if c.energyChannels > 0 then (i32 (readEnd * 100)).tdiv c.energyChannels else 0
      percentComplete := if total > 0 then (i32 (sample * 100)).tdiv total else 0
      currentSampleIteration := readEnd
      currentSample := sample }

/-- There are points that have not been read. -/
def readPoints (p : Poll) (numDataPoints : Int) (s : Task V) : Option (Task V) :=
  let s := s.announce
  let readEnd := s.readEndDataPoint c numDataPoints
  let last := i32 (readEnd - 1)
  let s := s.send (.getAcquisitionData s.currentDataPoint last)
  let values := readAcquisitionData f (p.data s.currentDataPoint last)
  if i32 values.length < i32 (i32 (readEnd - s.currentDataPoint) * c.nonEnergyChannels) then
    some ((s.send .abort).stopWith "SPECS Receive Error, see log")
  else
    let s := s.store f c numDataPoints values (upTo s.currentDataPoint readEnd)
      (upTo 0 (max c.nonEnergyChannels 0)) ⟨s.image, s.spectrum, 0⟩
    (s.post c readEnd).map fun s => (s.client p.calling).readAcquire

/-- One round of the inner loop. -/
def poll (p : Poll) (s : Task V) : Option (Task V) :=
  let s := (s.client p.asleep).readStatus p.status
  if s.numDataPoints > s.currentDataPoint then s.readPoints f c p s.numDataPoints
  else some s.readAcquire

/-- The inner loop, up to its end or to the end of what has happened so far. -/
def innerLoop : List Poll → Task V → Option (Task V × Bool)
  | [], s => some (s, !s.shouldContinue c)
  | p :: polls, s =>
    if s.shouldContinue c then (s.poll f c p).bind (innerLoop polls) else some (s, true)

end Task

/-- What happens in an iteration. -/
structure Iteration where
  /-- The reply to the status request before the loop. -/
  first : Reply
  polls : List Poll

namespace Task

variable (f : Doubles V) (c : Setup)

def beginIteration (it : Iteration) (s : Task V) : Task V :=
  let s := (s.send .clearSpectrum).send (.start (c.safeState ≠ 0))
  { s.send .getAcquisitionStatus with currentDataPoint := 0, lastData := it.first.orDefault }

/-- What is behind the inner loop. -/
def endIteration (s : Task V) : Task V :=
  let s :=
    if s.lastData.get "ControllerState" = some "error".toList then
      match (s.lastData.get "Message").filter fun m => !m.isEmpty with
      | some m => s.stopWith (String.ofList m)
      | none => s.stopWith "SPECS Controller Error, see log"
    else s
  { s.readAcquire with iteration := i32 (s.iteration + 1) }

/-- The outer loop, up to its end or to the end of what has happened so far. -/
def outerLoop : List Iteration → Task V → Option (Task V × Bool)
  | [], s => some (s, !(s.iteration < c.iterations && s.acquire = 1))
  | it :: its, s =>
    if s.iteration < c.iterations && s.acquire = 1 then
      ((s.beginIteration c it).innerLoop f c it.polls).bind fun r =>
        if r.2 then outerLoop its r.1.endIteration else some (r.1, false)
    else some (s, true)

/-- The task where the loops begin, from a message and a status that the body overwrites. -/
def initial : Task V :=
  { image := List.replicate (c.nx * c.ny) f.zero
    spectrum := List.replicate c.nx f.zero }

end Task

/-- The frame counters and modes, read again behind the loops. -/
structure Counters where
  numImages : Int
  imageMode : Int
  arrayCallbacks : Int
  arrayCounter : Int
  numImagesCounter : Int
  deriving DecidableEq, Repr

structure Frame (V : Type) where
  uniqueId : Int
  data : List V
  deriving DecidableEq, Repr

/-- What is behind the loops, up to the wait for the next scan: the counters, the frame that goes out, and
the task. -/
def finish (allocated : Bool) (k : Counters) (s : Task V) : Counters × Option (Frame V) × Task V :=
  let k := { k with
    arrayCounter := i32 (k.arrayCounter + 1)
    numImagesCounter := i32 (k.numImagesCounter + 1) }
  let frame :=
    if k.arrayCallbacks ≠ 0 ∧ allocated then some ⟨k.arrayCounter, s.image⟩ else none
  let s :=
    if s.ok then
      (if k.imageMode = 0 ∨ (k.imageMode = 1 ∧ k.numImagesCounter ≥ k.numImages) then
        { s with adAcquire := 0 } else s).readAcquire
    else s
  (k, frame, s)

/-- `run_acquisition`, where its loops come to their end. -/
def runAcquisition (f : Doubles V) (c : Setup) (allocated : Bool) (k : Counters) (its : List Iteration) :
    Option (Counters × Option (Frame V) × Task V) :=
  match (Task.initial f c).outerLoop f c its with
  | some (s, true) => some (finish allocated k s)
  | _ => none

end SpecsAnalyser
