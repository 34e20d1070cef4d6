import EpicsIocs.MicroEpsilon.Packet

/-!
The reader thread: one step is a connect, or a pass of the read loop with the answer of its read.

* `pushes_average`: in any run the pushes average the samples taken, each once and in order.
-/

namespace MicroEpsilon

open Bytes

def readChunkBufLen : Nat := 200

/-- What a pass reads of the shared state, and whether records may be processed. -/
structure Settings where
  pvThrottle : Int
  numMeasChansAvail : Nat
  chanMeasRange : Fin 4 → Int
  interruptAccept : Bool

inductive OctetRead
  | ok (bytes : List UInt8)
  | timeout
  | failed
  deriving DecidableEq, Repr

def OctetRead.bytes : OctetRead → List UInt8
  | .ok bytes => bytes
  | .timeout => []
  | .failed => []

/-- What a pass is answered; `disconnects` is the answer to the Disconnect of a link that is down. -/
structure Answer where
  settings : Settings
  result : OctetRead
  disconnects : Bool

/-- `connect`: the loop asks for a connection.  `again`: it reads the next packet on the one it has.
`read`: one pass. -/
inductive Event
  | connect (ok : Bool)
  | again
  | read (answer : Answer)

variable {F : Type} [Reading F]

structure Reader (F : Type) where
  state : ReaderState F
  buf : List UInt8
  lastMeasValueCounter : Nat
  lastChanValues : Channels F
  portOpen : Bool
  /-- Inside the loop over one packet's reads. -/
  reading : Bool
  tread : Nat

namespace Reader

def new (pvThrottle : Int) : Reader F where
  state := .new pvThrottle
  buf := List.replicate readChunkBufLen 0
  lastMeasValueCounter := 0
  lastChanValues _ := Reading.zero
  portOpen := false
  reading := false
  tread := 0

/-- The head of the outer loop, behind the connect. -/
def begin (r : Reader F) : Reader F := if r.portOpen then { r with tread := 0, reading := true } else r

/-- The bytes of a read put behind those there are, and what they come to. -/
def receive (r : Reader F) (settings : Settings) (result : OctetRead) : Reader F × ReadOutcome :=
  match result with
  | .ok bytes =>
    let tread := r.tread + bytes.length
    let buf := r.buf.take r.tread ++ bytes ++ r.buf.drop tread
    let r := { r with buf := buf, tread := tread }
    if packetLen settings.numMeasChansAvail ≤ tread then
      let decoded : DecodedPacket F := decodePacket buf settings.chanMeasRange
      ({ r with
          reading := false
          lastMeasValueCounter := decoded.header.measValueCounter
          lastChanValues := decoded.chanValues },
        if preambleOk buf then .goodPacket else .badPreamble)
    else (r, .partialRead)
  | .timeout => (r, .timeout)
  | .failed => (r, .readError)

/-- One pass of the read loop. -/
def pass (r : Reader F) (answer : Answer) : Reader F × Option (PushUpdate F) :=
  let state := { r.state with pvThrottle := answer.settings.pvThrottle }
  let (r, outcome) := r.receive answer.settings answer.result
  let (state, push) := state.readPass outcome r.lastMeasValueCounter r.lastChanValues
    answer.settings.interruptAccept
  let r := { r with state := state }
  if !state.isCommunicating && answer.disconnects
  then ({ r with reading := false, portOpen := false }, push) else (r, push)

/-- A read returns no more than the buffer has room for. -/
def step (r : Reader F) : Event → Option (Reader F × Option (PushUpdate F))
  | .connect ok =>
    if r.reading || r.state.isCommunicating then none
    else some ({ r with portOpen := ok || r.portOpen }.begin, none)
  | .again => if r.reading || !r.state.isCommunicating then none else some (r.begin, none)
  | .read answer =>
    if r.reading && answer.result.bytes.length ≤ readChunkBufLen - r.tread then some (r.pass answer)
    else none

/-- The events in turn, with all that is pushed. -/
def run (r : Reader F) : List Event → Option (Reader F × List (PushUpdate F))
  | [] => some (r, [])
  | e :: es => do
    let (r, push) ← r.step e
    let (r, pushes) ← r.run es
    return (r, push.toList ++ pushes)

/-! ## Every sample once -/

/-- The sample that a pass takes: a good packet while records may be processed, and no repeat. -/
def sample (r : Reader F) : Event → Option (Channels F)
  | .read answer =>
    let (received, outcome) := r.receive answer.settings answer.result
    if r.state.Takes outcome received.lastMeasValueCounter answer.settings.interruptAccept
    then some received.lastChanValues else none
  | .connect _ => none
  | .again => none

def samples (r : Reader F) : List Event → List (Channels F)
  | [] => []
  | e :: es => (r.sample e).toList ++ ((r.step e).elim [] fun next => next.1.samples es)

omit [Reading F] in
theorem begin_state (r : Reader F) : r.begin.state = r.state := by
  unfold begin
  split <;> rfl

/-- The read of a pass, before the verdict. -/
def received (r : Reader F) (answer : Answer) : Reader F := (r.receive answer.settings answer.result).1

def outcome (r : Reader F) (answer : Answer) : ReadOutcome := (r.receive answer.settings answer.result).2

/-- The state behind a pass, and what it pushes. -/
def passed (r : Reader F) (answer : Answer) : ReaderState F × Option (PushUpdate F) :=
  { r.state with pvThrottle := answer.settings.pvThrottle }.readPass (r.outcome answer)
    (r.received answer).lastMeasValueCounter (r.received answer).lastChanValues
    answer.settings.interruptAccept

theorem pass_eq (r : Reader F) (answer : Answer) :
    r.pass answer =
      if !(r.passed answer).1.isCommunicating && answer.disconnects
      then ({ r.received answer with state := (r.passed answer).1, reading := false, portOpen := false },
        (r.passed answer).2)
      else ({ r.received answer with state := (r.passed answer).1 }, (r.passed answer).2) := rfl

/-- What a pass does to the state, whatever becomes of the port. -/
theorem pass_state (r : Reader F) (answer : Answer) :
    (r.pass answer).1.state = (r.passed answer).1 ∧ (r.pass answer).2 = (r.passed answer).2 := by
  rw [pass_eq]
  split <;> exact ⟨rfl, rfl⟩

/-- A step is a pass, or leaves the state alone. -/
theorem step_cases {r r' : Reader F} {e : Event} {push : Option (PushUpdate F)}
    (hstep : r.step e = some (r', push)) :
    (r.sample e = none ∧ push = none ∧ r'.state = r.state) ∨
    ∃ answer, e = .read answer ∧ r.pass answer = (r', push) := by
  cases e with
  | connect ok =>
    left
    simp only [step, Option.ite_none_left_eq_some, Option.some.injEq, Prod.mk.injEq] at hstep
    obtain ⟨-, rfl, rfl⟩ := hstep
    exact ⟨rfl, rfl, begin_state _⟩
  | again =>
    left
    simp only [step, Option.ite_none_left_eq_some, Option.some.injEq, Prod.mk.injEq] at hstep
    obtain ⟨-, rfl, rfl⟩ := hstep
    exact ⟨rfl, rfl, begin_state _⟩
  | read answer =>
    right
    simp only [step, Option.ite_none_right_eq_some, Option.some.injEq] at hstep
    exact ⟨answer, rfl, hstep.2⟩

theorem step_averages {r r' : Reader F} {e : Event} {push : Option (PushUpdate F)}
    {rest : List (Channels F)} (h : Pending 4 r.state rest) (hstep : r.step e = some (r', push)) :
    ∃ rest', Averages rest (r.sample e).toList push rest' ∧ Pending 4 r'.state rest' := by
  obtain ⟨hsample, rfl, hstate⟩ | ⟨answer, rfl, hpass⟩ := step_cases hstep
  · have hkeep : Averages rest [] (none : Option (PushUpdate F)) (rest ++ []) := .holds
    rw [List.append_nil] at hkeep
    rw [hsample, hstate]
    exact ⟨rest, hkeep, h⟩
  · have heq := pass_state r answer
    rw [hpass] at heq
    have hpending : Pending 4 { r.state with pvThrottle := answer.settings.pvThrottle } rest :=
      ⟨h.sum, h.count⟩
    obtain ⟨rest', haverages, hrest⟩ := ReaderState.readPass_averages hpending (r.outcome answer)
      (r.received answer).lastMeasValueCounter (r.received answer).lastChanValues
      answer.settings.interruptAccept
    have hsample : (r.sample (.read answer)).toList =
        if r.state.Takes (r.outcome answer) (r.received answer).lastMeasValueCounter
          answer.settings.interruptAccept
        then [(r.received answer).lastChanValues] else [] := by
      show (if r.state.Takes _ _ _ then some _ else none).toList = _
      rw [apply_ite Option.toList]
      rfl
    rw [hsample, show push = _ from heq.2, show r'.state = _ from heq.1]
    exact ⟨rest', haverages, hrest⟩

/-- A push, and the samples it averages. -/
def PushOf (push : PushUpdate F) (group : List (Channels F)) : Prop :=
  push.values = averageOf group ∧ (push.valid = true → group ≠ [])

/-- **The pushes average the samples taken, each once and in order**, through any failures and
reconnections. -/
theorem pushes_average {r r' : Reader F} {events : List Event} {pushes : List (PushUpdate F)}
    {rest : List (Channels F)} (h : Pending 4 r.state rest) (hrun : r.run events = some (r', pushes)) :
    ∃ (groups : List (List (Channels F))) (rest' : List (Channels F)),
      rest ++ r.samples events = groups.flatten ++ rest' ∧
      List.Forall₂ PushOf pushes groups ∧ Pending 4 r'.state rest' := by
  induction events generalizing r rest pushes with
  | nil =>
    cases hrun
    refine ⟨[], rest, ?_, .nil, h⟩
    rw [List.flatten_nil, List.nil_append]
    exact List.append_nil rest
  | cons e es ih =>
    unfold run at hrun
    obtain ⟨⟨r1, push⟩, hstep, hrun⟩ := Option.bind_eq_some_iff.1 hrun
    obtain ⟨⟨r2, more⟩, hmore, hrun⟩ := Option.bind_eq_some_iff.1 hrun
    cases hrun
    obtain ⟨rest1, haverages, hpending⟩ := step_averages h hstep
    obtain ⟨groups, rest', hgroups, hpushes, hend⟩ := ih hpending hmore
    have hsamples : r.samples (e :: es) = (r.sample e).toList ++ r1.samples es := by
      show _ ++ (r.step e).elim [] _ = _
      rw [hstep]
      rfl
    rw [hsamples, ← List.append_assoc]
    cases haverages with
    | holds => exact ⟨groups, rest', hgroups, hpushes, hend⟩
    | pushes hvalues hvalid =>
      refine ⟨(rest ++ (r.sample e).toList) :: groups, rest', ?_, .cons ⟨hvalues, ?_⟩ hpushes, hend⟩
      · rw [List.flatten_cons, List.append_assoc _ groups.flatten, ← hgroups, List.nil_append]
      · intro htrue hnil
        exact hvalid htrue (List.append_eq_nil_iff.1 hnil).2

end Reader

/-- A packet, two timeouts that take the link down, and a packet on the next connection. -/
theorem Reader.pushes_average_down :
    let rational : Reading Rat :=
      ⟨0, (· + ·), fun sum count => sum / count, fun raw range => raw * range / 16777215⟩
    let settings : Settings := ⟨2, 1, fun _ => 5, true⟩
    let packet : Event := .read ⟨settings, .ok (preamble ++ List.replicate 8 0 ++ [1] ++ List.replicate 23 9), true⟩
    let timeout : Event := .read ⟨settings, .timeout, true⟩
    let events : List Event := [.connect true, packet, .again, timeout, timeout, .connect true, packet]
    ∃ r pushes groups rest, (@Reader.new Rat rational 5).run events = some (r, pushes) ∧
      [] ++ (@Reader.new Rat rational 5).samples events = groups.flatten ++ rest ∧
      List.Forall₂ PushOf pushes groups ∧ Pending 4 r.state rest := by
  intro rational settings packet timeout events
  have hsome : ((@Reader.new Rat rational 5).run events).isSome = true := by decide +kernel
  obtain ⟨⟨r, pushes⟩, hrun⟩ := Option.isSome_iff_exists.1 hsome
  obtain ⟨groups, rest, hsamples, hpushes, hpending⟩ := Reader.pushes_average (.new 4 5) hrun
  exact ⟨r, pushes, groups, rest, hrun, hsamples, hpushes, hpending⟩

end MicroEpsilon
