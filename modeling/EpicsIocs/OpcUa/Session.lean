import EpicsIocs.Lib.Steps
import EpicsIocs.OpcUa.Device
import Mathlib.Data.List.Range

/-! # The session worker and the records that use it

A record's request passes through the command channel into one of the worker's
priority queues and from there into a service call; a value it writes waits in its
leaf, marked dirty, until a Write of the item takes it.  The worker connects,
reads every item once, serves, and on the end of the connection clears its queues
and marks every item down.

A record's pass is several steps here, one for each lock it takes: it looks at its
leaf's state, stores its value, and sends its request, and the worker runs in
between.  Ghost fields number the connections (`losses`) and remember, for each
request and each outgoing value, on which connection the pass that made it began.
The leaves of an item are visited under the item's lock, each once, so that a
visit is one step. -/

namespace OpcUa

open Steps

variable {V : Type}

inductive Priority where
  | low
  | medium
  | high
  deriving DecidableEq, Repr

inductive Action where
  | read
  | write
  deriving DecidableEq, Repr

/-- A request for the item at an index; `since` is the connection its pass began on. -/
structure Request where
  action : Action
  handle : Nat
  since : Nat
  deriving DecidableEq, Repr

/-- A request in one of the worker's queues. -/
structure Queued where
  handle : Nat
  since : Nat
  deriving DecidableEq, Repr

/-- Where a record's pass is. -/
inductive Pass where
  | idle
  /-- It wants a value: the leaf's state is looked at next. -/
  | reading (since : Nat)
  /-- It sends its value, having seen a state that allows it. -/
  | sending (since : Nat)
  /-- It hands its request to the session next. -/
  | ordering (since : Nat) (action : Action)
  deriving DecidableEq, Repr

def Pass.since : Pass → Option Nat
  | .idle => none
  | .reading since => some since
  | .sending since => some since
  | .ordering since _ => some since

/-- What brought an item into a service call. -/
inductive Origin where
  | initial
  | request (since : Nat)
  deriving DecidableEq, Repr

/-- One item in a service call that was sent. -/
structure Sent (V : Type) where
  connection : Nat
  handle : Nat
  origin : Origin
  /-- `none` in a Read. -/
  body : Option V
  /-- When the outgoing values in it were produced. -/
  produced : List Nat
  deriving DecidableEq, Repr

/-- Nothing in it is older than the connection it was sent on. -/
def Sent.Fresh (sent : Sent V) : Prop :=
  (∀ since, sent.origin = .request since → since = sent.connection) ∧
    ∀ since ∈ sent.produced, since = sent.connection

/-- What the worker is doing, with the items it still has to visit. -/
inductive Worker (V : Type) where
  | down
  /-- Setting the items to `InitialRead`. -/
  | connecting (todo : List Nat)
  /-- The next Read carries `chunk`. -/
  | reading (initial : Bool) (chunk : List Queued) (rest : List (List Queued))
  /-- The answer of a Read is handed to its items. -/
  | delivering (initial : Bool) (chunk : List Queued) (rest : List (List Queued))
  /-- Setting the items to `Up` after the initial read. -/
  | settingUp (todo : List Nat)
  /-- Adding the monitored items. -/
  | monitoring
  | serving
  /-- The next Write carries `values` and what `chunk` still has to give. -/
  | writing (chunk : List Queued) (values : List (Sent V)) (rest : List (List Queued))
  /-- Marking the connection loss on the items. -/
  | losing (todo : List Nat)

structure Session (V : Type) where
  /-- At `Item::index`, which requests name them by. -/
  items : List (Item V)
  commands : List (Priority × Request) := []
  reads : Priority → List Queued := fun _ => []
  writes : Priority → List Queued := fun _ => []
  worker : Worker V := .down
  /-- The passes under way, by item and leaf. -/
  passes : List ((Nat × Nat) × Pass) := []
  /-- When the outgoing value of each leaf was produced. -/
  produced : Nat → Nat → Nat := fun _ _ => 0
  /-- How many connections were lost. -/
  losses : Nat := 0
  sent : List (Sent V) := []

/-- What the server answers an item of a Read. -/
inductive ReadAnswer (V : Type) where
  | data (value : V) (status : UInt32) (timestamp : Nat)
  | failure (now : Nat)

/-- What comes of a service call; an answer says of each item written whether its
status is good. -/
inductive Outcome where
  | answered (good : List Bool)
  | failed
  | connectionError
  deriving DecidableEq, Repr

inductive SessionAct (V : Type) where
  /-- The pass of the record of leaf `j` of item `i` comes to its deed. -/
  | deed (i j : Nat) (deed : Deed V)
  | checkRead (i j : Nat)
  /-- `none`: the value does not convert. -/
  | store (i j : Nat) (value : Option V)
  | request (i j : Nat)
  | connect
  /-- The worker's next step that nothing outside decides. -/
  | advance (limit : Nat)
  | callRead (outcome : Outcome) (now : Nat)
  | deliver (answer : ReadAnswer V)
  | recv
  | flush (writeLimit readLimit : Nat)
  | collect
  | callWrite (outcome : Outcome) (now : Nat)
  | monitorRefused (i : Nat) (now : Nat)
  | serve
  /-- The connection closes, or is told to. -/
  | disconnect
  | markItem (now : Nat)
  | marked
  /-- A dispatcher task takes a notification out of its channel. -/
  | dispatch (i : Nat) (value : V) (status : UInt32) (timestamp : Nat)

/-- Up to `limit` requests of the highest priority that has any. -/
def takeBatch (queues : Priority → List Queued) (limit : Nat) :
    Option (List Queued × (Priority → List Queued)) :=
  ([.high, .medium, .low].find? fun priority => !(queues priority).isEmpty).map fun priority =>
    ((queues priority).take (max limit 1),
      fun p => if p = priority then (queues p).drop (max limit 1) else queues p)

namespace Session

def modifyItem (s : Session V) (i : Nat) (f : Item V → Item V) : Session V :=
  { s with items := s.items.modify i f }

/-- The pass of the record of leaf `j` of item `i`. -/
def pass (s : Session V) (i j : Nat) : Pass :=
  ((s.passes.find? (·.1 = (i, j))).map (·.2)).getD .idle

def setPass (s : Session V) (i j : Nat) (pass : Pass) : Session V :=
  let others := s.passes.filter (·.1 ≠ (i, j))
  { s with passes := if pass = .idle then others else ((i, j), pass) :: others }

def leaf? (s : Session V) (i j : Nat) : Option (Leaf V) := do (← s.items[i]?).leaves[j]?

/-- Every item, in the order of the handles. -/
def handles (s : Session V) : List Nat := List.range s.items.length

/-- `batch` in pieces of at most `limit`, one service call each. -/
def chunks (limit : Nat) (batch : List Queued) : List (List Queued) :=
  let size := max limit 1
  (List.range ((batch.length + size - 1) / size)).map fun k => (batch.drop (k * size)).take size

def startRead (s : Session V) (initial : Bool) : List (List Queued) → Session V
  | [] => { s with worker := if initial then .settingUp s.handles else .serving }
  | chunk :: rest => { s with worker := .reading initial chunk rest }

def startWrite (s : Session V) : List (List Queued) → Session V
  | [] => { s with worker := .serving }
  | chunk :: rest => { s with worker := .writing chunk [] rest }

/-- `disconnect` up to the items: requests queued for a connection that no longer
exists would be answered against the next one, so they go. -/
def startLoss (s : Session V) : Session V :=
  { s with reads := fun _ => [], writes := fun _ => [], worker := .losing s.handles }

/-- The record's value goes to the server when the leaf's state allows it. -/
def deedStep (s : Session V) (i j : Nat) (leaf : Leaf V) : Deed V → Option (Session V)
  | .requestRead => some (s.setPass i j (.reading s.losses))
  -- The item record has seen its leaf up before it comes to this deed.
  | .requestWrite =>
    if leaf.state = .down then none else some (s.setPass i j (.ordering s.losses .write))
  | .send =>
    some (if leaf.state = .down ∨ leaf.state = .initialRead then s
      else s.setPass i j (.sending s.losses))
  | _ => some s

/-- A value is stored in its leaf, as old as the pass that made it. -/
def storeValue (s : Session V) (i j : Nat) (since : Nat) (value : V) : Session V :=
  { s.modifyItem i fun item =>
      { item with leaves := item.leaves.modify j fun leaf =>
          { leaf with outgoing := some value, dirty := true } } with
    produced := Function.update s.produced i (Function.update (s.produced i) j since) }

/-- Only a record with an item of its own requests the write. -/
def storeStep (s : Session V) (i j : Nat) (since : Nat) (leaf : Leaf V) :
    Option V → Session V
  | none => s.setPass i j .idle
  | some value => (s.storeValue i j since value).setPass i j
      (if leaf.link.linkedToItem then .ordering since .write else .idle)

/-- The Read for `chunk`. -/
def sentRead (s : Session V) (initial : Bool) (chunk : List Queued) : List (Sent V) :=
  (chunk.filter fun q => q.handle < s.items.length).map fun q =>
    { connection := s.losses, handle := q.handle,
      origin := if initial then .initial else .request q.since, body := none, produced := [] }

/-- One event for each item of a service call. -/
def eventAll (s : Session V) (now : Nat) (events : List (Nat × ProcessReason)) : Session V :=
  events.foldl (fun s e => s.modifyItem e.1 (Item.setIncomingEvent e.2 now)) s

/-- The leaves of an item whose values a Write of it takes. -/
def producedOn (s : Session V) (i : Nat) (item : Item V) : List Nat :=
  ((List.range item.leaves.length).filter fun j =>
    (item.leaves[j]?.map (·.dirty)).getD false).map (s.produced i)

def collectStep (s : Session V) (E : Elements V) (q : Queued) (chunk : List Queued)
    (values : List (Sent V)) (rest : List (List Queued)) : Session V :=
  match s.items[q.handle]? with
  | none => { s with worker := .writing chunk values rest }
  | some item =>
    match item.takeOutgoing E with
    | (none, item') =>
      { s.modifyItem q.handle (fun _ => item') with worker := .writing chunk values rest }
    | (some value, item') =>
      let sent := {
        connection := s.losses
        handle := q.handle
        origin := .request q.since
        body := some value
        produced := s.producedOn q.handle item }
      { s.modifyItem q.handle (fun _ => item') with
        worker := .writing chunk (values ++ [sent]) rest }

def callReadStep (s : Session V) (initial : Bool) (chunk : List Queued)
    (rest : List (List Queued)) (now : Nat) : Outcome → Session V :=
  let s' := { s with sent := s.sent ++ s.sentRead initial chunk }
  let failed := s'.eventAll now (chunk.map fun q => (q.handle, .readFailure))
  fun
  | .answered _ => { s' with worker := .delivering initial chunk rest }
  | .failed => failed.startRead initial rest
  -- The initial read's error is dropped, and the items go up.
  | .connectionError => if initial then failed.startRead initial [] else failed.startLoss

def callWriteStep (s : Session V) (values : List (Sent V)) (rest : List (List Queued))
    (now : Nat) (outcome : Outcome) : Session V :=
  let s' := { s with sent := s.sent ++ values }
  let failed := s'.eventAll now (values.map fun value => (value.handle, .writeFailure))
  match outcome with
  | .answered good =>
    (s'.eventAll now (values.zipIdx.map fun (value, k) =>
      (value.handle, if good[k]? = some true then .writeComplete else .writeFailure))).startWrite rest
  | .failed => failed.startWrite rest
  | .connectionError => failed.startLoss

def flushStep (s : Session V) (writeLimit readLimit : Nat) : Session V :=
  match takeBatch s.writes writeLimit with
  | some (batch, writes) => { s with writes }.startWrite (chunks writeLimit batch)
  | none =>
    match takeBatch s.reads readLimit with
    | some (batch, reads) => { s with reads }.startRead false (chunks readLimit batch)
    | none => s

def recvStep (s : Session V) : List (Priority × Request) → Option (Session V)
  | [] => none
  | (priority, request) :: commands =>
    let queued := { handle := request.handle, since := request.since }
    let push := fun (queues : Priority → List Queued) =>
      Function.update queues priority (queues priority ++ [queued])
    some (match request.action with
      | .read => { s with commands, reads := push s.reads }
      | .write => { s with commands, writes := push s.writes })

def deliverStep (s : Session V) (E : Elements V) (handle : Nat) : ReadAnswer V → Session V
  | .data value status timestamp =>
    s.modifyItem handle (Item.setIncomingData E value .readComplete status timestamp)
  | .failure now => s.modifyItem handle (Item.setIncomingEvent .readFailure now)

def advanceStep (s : Session V) (limit : Nat) : Option (Session V) :=
  match s.worker with
  | .connecting (h :: todo) =>
    some { s.modifyItem h (Item.setState .initialRead) with worker := .connecting todo }
  | .connecting [] =>
    some (s.startRead true (chunks limit (s.handles.map fun h => ⟨h, s.losses⟩)))
  -- No item of the chunk exists: no call.
  | .reading initial chunk rest =>
    if (s.sentRead initial chunk).isEmpty then some (s.startRead initial rest) else none
  | .delivering initial [] rest => some (s.startRead initial rest)
  | .settingUp (h :: todo) =>
    some { s.modifyItem h (Item.setState .up) with worker := .settingUp todo }
  | .settingUp [] => some { s with worker := .monitoring }
  -- Nothing to write: no call.
  | .writing [] [] rest => some (s.startWrite rest)
  | _ => none

def step (E : Elements V) (s : Session V) : SessionAct V → Option (Session V)
  | .deed i j deed => do
    let leaf ← s.leaf? i j
    if s.pass i j = .idle then s.deedStep i j leaf deed else none
  | .checkRead i j => do
    let leaf ← s.leaf? i j
    match s.pass i j with
    | .reading since =>
      some (s.setPass i j (if leaf.state = .down then .idle else .ordering since .read))
    | _ => none
  | .store i j value => do
    let leaf ← s.leaf? i j
    match s.pass i j with
    | .sending since => some (s.storeStep i j since leaf value)
    | _ => none
  | .request i j =>
    match s.pass i j with
    | .ordering since action =>
      let request := { action, handle := i, since }
      some (({ s with commands := s.commands ++ [(.low, request)] } : Session V).setPass i j .idle)
    | _ => none
  | .connect =>
    match s.worker with
    | .down => some { s with worker := .connecting s.handles }
    | _ => none
  | .advance limit => s.advanceStep limit
  | .callRead outcome now =>
    match s.worker with
    | .reading initial chunk rest =>
      if (s.sentRead initial chunk).isEmpty then none
      else some (s.callReadStep initial chunk rest now outcome)
    | _ => none
  | .deliver answer =>
    match s.worker with
    | .delivering initial (q :: chunk) rest =>
      some { s.deliverStep E q.handle answer with worker := .delivering initial chunk rest }
    | _ => none
  | .recv =>
    match s.worker with
    | .serving => s.recvStep s.commands
    | _ => none
  | .flush writeLimit readLimit =>
    match s.worker with
    | .serving => some (s.flushStep writeLimit readLimit)
    | _ => none
  | .collect =>
    match s.worker with
    | .writing (q :: chunk) values rest => some (s.collectStep E q chunk values rest)
    | _ => none
  | .callWrite outcome now =>
    match s.worker with
    | .writing [] (value :: values) rest => some (s.callWriteStep (value :: values) rest now outcome)
    | _ => none
  | .monitorRefused i now =>
    match s.worker with
    | .monitoring => some (s.modifyItem i (Item.setIncomingEvent .connectionLoss now))
    | _ => none
  | .serve =>
    match s.worker with
    | .monitoring => some { s with worker := .serving }
    | _ => none
  | .disconnect =>
    match s.worker with
    | .serving => some s.startLoss
    | _ => none
  | .markItem now =>
    match s.worker with
    | .losing (h :: todo) =>
      some { s.modifyItem h (Item.setIncomingEvent .connectionLoss now) with
        worker := .losing todo }
    | _ => none
  | .marked =>
    match s.worker with
    | .losing [] => some { s with worker := .down, losses := s.losses + 1 }
    | _ => none
  | .dispatch i value status timestamp =>
    some (s.modifyItem i (Item.setIncomingData E value .incomingData status timestamp))

/-- A session whose items are bound by records with these links, before it connects. -/
def start (links : List (List LinkInfo)) : Session V where
  items := links.map fun item => { leaves := item.map .new, lastValue := none }

end Session

def sessionSystem (E : Elements V) : System (Session V) (SessionAct V) :=
  System.ofFun (fun s => ∃ links, s = .start links) (Session.step E)

end OpcUa
