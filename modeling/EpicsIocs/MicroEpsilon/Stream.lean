import EpicsIocs.MicroEpsilon.Reader

/-!
Packets that reach the reader in reads of their own, with at most one failure from one good packet to the
next.

* `stream_accounted`: the counters add up to the packets' numbers, and the pushes are the averages of the
  packets that are no repeats, in groups as large as the throttle in effect at the push before says.
-/

namespace MicroEpsilon

open Bytes

variable {F : Type} [Reading F]

/-! ## What is sent -/

def Answer.fails (a : Answer) : Bool :=
  match a.result with
  | .ok _ => false
  | .timeout => true
  | .failed => true

/-- A packet as the reads bring it: those before the one that completes it, and that one. -/
structure Block where
  before : List Answer
  settings : Settings
  last : List UInt8
  disconnects : Bool
  seq : Nat

namespace Block

variable (b : Block)

def bytes : List UInt8 := (b.before.flatMap fun a => a.result.bytes) ++ b.last

def answer : Answer := ⟨b.settings, .ok b.last, b.disconnects⟩

def events : List Event := b.before.map .read ++ [.read b.answer]

def failures : Nat := b.before.countP Answer.fails

/-- The preamble is right. -/
def good : Bool := preambleOk b.bytes

def values : Channels F := chanValue b.bytes b.settings.chanMeasRange

/-- A packet of `n` channels, numbered where it is good. -/
structure Fits (n : Nat) : Prop where
  length : b.bytes.length = packetLen n
  last_ne : b.last ≠ []
  channels : b.settings.numMeasChansAvail = n
  channels_before : ∀ a ∈ b.before, a.settings.numMeasChansAvail = n
  accepts : b.settings.interruptAccept = true
  throttle_gt : -2 ^ 31 < b.settings.pvThrottle
  throttle_lt : b.settings.pvThrottle < 2 ^ 31
  counter : b.good = true → wordAt b.bytes 28 4 = b.seq % 2 ^ 32

end Block

/-- From `bad` failures on, at most one from a good packet to the next. -/
def Steady : Nat → List Block → Prop
  | _, [] => True
  | bad, b :: bs =>
    bad + b.failures + (if b.good then 0 else 1) ≤ 1 ∧ Steady (if b.good then 0 else 1) bs

/-- The good packets' numbers never fall, and no gap is of more than 2^31. -/
def InOrder : Nat → List Block → Prop
  | _, [] => True
  | last, b :: bs =>
    if b.good then last ≤ b.seq ∧ b.seq ≤ last + 2 ^ 31 ∧ InOrder b.seq bs else InOrder last bs

/-- The good packets that do not repeat the one before. -/
def news : Nat → List Block → List Block
  | _, [] => []
  | last, b :: bs =>
    if b.good then (if b.seq = last then news last bs else b :: news b.seq bs) else news last bs

/-- How often a number is left out. -/
def gapCount : Nat → List Block → Nat
  | _, [] => 0
  | last, b :: bs =>
    if b.good then (if b.seq ≤ last + 1 then 0 else 1) + gapCount b.seq bs else gapCount last bs

def lastSeq : Nat → List Block → Nat
  | last, [] => last
  | last, b :: bs => if b.good then lastSeq b.seq bs else lastSeq last bs

/-- Groups of `size` and, after each, of as many as its last packet's throttle says; then fewer. -/
def Sized : Nat → List (List Block) → List Block → Prop
  | size, [], rest => rest.length < size
  | size, group :: groups, rest =>
    group.length = size ∧
      ∃ b, group.getLast? = some b ∧ Sized (groupSize b.settings.pvThrottle) groups rest

/-- All that the thread sees: connects that fail, one that works, and the packets. -/
def stream (failed : Nat) (first : Block) (rest : List Block) : List Event :=
  List.replicate failed (.connect false) ++ .connect true :: first.events ++
    rest.flatMap fun b => .again :: b.events

/-- The counters behind the packets `bs`, from those at the number `last`. -/
structure Counts (last : Nat) (bs : List Block) (s s' : LinkStats) : Prop where
  good : s'.goodCount = s.goodCount + bs.countP Block.good
  garbled : s'.badPreambleCount = s.badPreambleCount + bs.countP (fun b => !b.good)
  failures : s'.timeoutCount + s'.badReadCount =
    s.timeoutCount + s.badReadCount + (bs.map Block.failures).sum
  repeats : s'.duplicateCount + (news last bs).length = s.duplicateCount + bs.countP Block.good
  missed : s'.missedCount + (news last bs).length + last = s.missedCount + lastSeq last bs
  gaps : s'.outOfSequenceCount = s.outOfSequenceCount + gapCount last bs

/-! ## Reading one packet -/

/-- Nothing has changed but `fails` failures more. -/
structure Kept (s : ReaderState F) (fails : Nat) (t : ReaderState F) : Prop where
  initialized : t.measCountInitialized = s.measCountInitialized
  expected : t.expectedMeasValueCounter = s.expectedMeasValueCounter
  sum : t.dispSum = s.dispSum
  count : t.dispSumCount = s.dispSumCount
  counter : t.pvThrottleCounter = s.pvThrottleCounter
  stats : t.stats =
    { s.stats with timeoutCount := t.stats.timeoutCount, badReadCount := t.stats.badReadCount }
  failures : t.stats.timeoutCount + t.stats.badReadCount =
    s.stats.timeoutCount + s.stats.badReadCount + fails
  bad : t.badPacketCount = s.badPacketCount + fails
  up : s.isCommunicating = true → t.isCommunicating = true

namespace Kept

omit [Reading F] in
theorem refl (s : ReaderState F) : Kept s 0 s := ⟨rfl, rfl, rfl, rfl, rfl, rfl, rfl, rfl, id⟩

omit [Reading F] in
theorem trans {s t u : ReaderState F} {fails more : Nat} (h : Kept s fails t) (h' : Kept t more u) :
    Kept s (fails + more) u where
  initialized := h'.initialized.trans h.initialized
  expected := h'.expected.trans h.expected
  sum := h'.sum.trans h.sum
  count := h'.count.trans h.count
  counter := h'.counter.trans h.counter
  stats := by
    rw [h'.stats, h.stats]
  failures := by
    rw [h'.failures, h.failures, Nat.add_assoc]
  bad := by
    rw [h'.bad, h.bad, Nat.add_assoc]
  up := h'.up ∘ h.up

/-- A pass that completes no packet, on a link that stays up. -/
theorem readPass {s : ReaderState F} {outcome : ReadOutcome} {fails : Nat}
    (hout : outcome = .partialRead ∧ fails = 0 ∨ (outcome = .timeout ∨ outcome = .readError) ∧ fails = 1)
    (hbad : s.badPacketCount + fails ≤ 1)
    (hup : s.isCommunicating = true ∨ fails = 0 ∧ s.badPacketCount = 0) (counter : Nat) (v : Channels F)
    (gate : Bool) :
    ∃ t, s.readPass outcome counter v gate = (t, none) ∧ t.isCommunicating = true ∧ Kept s fails t := by
  obtain ⟨rfl, rfl⟩ | ⟨hfailed, rfl⟩ := hout
  · show ∃ t, s.verdict none counter v gate = (t, none) ∧ _
    by_cases hzero : s.badPacketCount = 0
    · rw [ReaderState.verdict_zero hzero]
      exact ⟨_, rfl, rfl, rfl, rfl, rfl, rfl, rfl, rfl, rfl, rfl, fun _ => rfl⟩
    · rw [ReaderState.verdict_one (by omega)]
      have hcomm : s.isCommunicating = true := hup.resolve_right fun hc => hzero hc.2
      exact ⟨s, rfl, hcomm, .refl s⟩
  · have hone : s.badPacketCount + 1 = 1 := by omega
    have hcomm : s.isCommunicating = true := hup.resolve_right fun hc => absurd hc.1 (by decide)
    obtain rfl | rfl := hfailed
    · refine ⟨_, ReaderState.verdict_one hone none counter v gate, hcomm, rfl, rfl, rfl, rfl, rfl, rfl, ?_, rfl, id⟩
      show s.stats.timeoutCount + 1 + s.stats.badReadCount = _
      omega
    · exact ⟨_, ReaderState.verdict_one hone none counter v gate, hcomm,
        rfl, rfl, rfl, rfl, rfl, rfl, rfl, rfl, id⟩

end Kept

/-- In the middle of a packet: what has come of it. -/
structure Partway (s : ReaderState F) (got : List UInt8) (fails : Nat) (r : Reader F) : Prop where
  reading : r.reading = true
  portOpen : r.portOpen = true
  tread : r.tread = got.length
  buf : r.buf.take got.length = got
  buf_length : r.buf.length = readChunkBufLen
  kept : Kept s fails r.state

namespace Reader

theorem packetLen_le {n : Nat} (hn : n ≤ 42) : packetLen n ≤ readChunkBufLen := by
  unfold packetLen headerLen readChunkBufLen
  omega

omit [Reading F] in
theorem begin_open {r : Reader F} (h : r.portOpen = true) : r.begin = { r with tread := 0, reading := true } := by
  unfold begin
  rw [if_pos h]

/-- The bytes written behind those there are. -/
theorem take_written {buf got more : List UInt8} (hgot : buf.take got.length = got)
    (hroom : got.length + more.length ≤ buf.length) :
    (buf.take got.length ++ more ++ buf.drop (got.length + more.length)).take (got ++ more).length =
        got ++ more ∧
      (buf.take got.length ++ more ++ buf.drop (got.length + more.length)).length = buf.length := by
  rw [hgot]
  refine ⟨List.take_left, ?_⟩
  rw [List.length_append, List.length_append, List.length_drop]
  omega

/-- A pass that the link is up behind. -/
theorem step_read {r : Reader F} {a : Answer} (hreading : r.reading = true)
    (hroom : a.result.bytes.length ≤ readChunkBufLen - r.tread)
    (hup : (r.passed a).1.isCommunicating = true) :
    r.step (.read a) = some ({ r.received a with state := (r.passed a).1 }, (r.passed a).2) := by
  show (if r.reading && decide _ then some (r.pass a) else none) = _
  rw [hreading, decide_eq_true hroom, pass_eq, hup]
  rfl

end Reader

open Reader

namespace Partway

/-- A read that leaves the packet incomplete. -/
theorem receive {s : ReaderState F} {got : List UInt8} {fails : Nat} {r : Reader F} {n : Nat}
    (h : Partway s got fails r) (hn : n ≤ 42) {a : Answer} (ha : a.settings.numMeasChansAvail = n)
    (hshort : (got ++ a.result.bytes).length < packetLen n) :
    (r.outcome a = .partialRead ∧ a.fails = false ∨
      (r.outcome a = .timeout ∨ r.outcome a = .readError) ∧ a.fails = true) ∧
    Partway s (got ++ a.result.bytes) fails (r.received a) := by
  have hlen := packetLen_le hn
  rw [List.length_append] at hshort
  obtain ⟨settings, result, disconnects⟩ := a
  cases result with
  | ok bytes =>
    have hincomplete : ¬ packetLen settings.numMeasChansAvail ≤ r.tread + bytes.length := by
      rw [ha, h.tread]
      exact Nat.not_le.2 hshort
    have hreceive : r.receive settings (.ok bytes) =
        ({ r with buf := r.buf.take r.tread ++ bytes ++ r.buf.drop (r.tread + bytes.length),
                  tread := r.tread + bytes.length }, .partialRead) := if_neg hincomplete
    have hroom : got.length + bytes.length ≤ r.buf.length := by
      rw [h.buf_length]
      exact hshort.le.trans hlen
    obtain ⟨htake, hlength⟩ := take_written h.buf hroom
    unfold Reader.outcome Reader.received
    dsimp only
    rw [hreceive]
    refine ⟨.inl ⟨rfl, rfl⟩, h.reading, h.portOpen, ?_, ?_, ?_, h.kept⟩
    · show r.tread + bytes.length = (got ++ bytes).length
      rw [h.tread, List.length_append]
    · dsimp only
      rw [h.tread]
      exact htake
    · dsimp only
      rw [h.tread]
      exact hlength.trans h.buf_length
  | timeout =>
    refine ⟨.inr ⟨.inl rfl, rfl⟩, ?_⟩
    show Partway s (got ++ []) fails r
    rw [List.append_nil]
    exact h
  | failed =>
    refine ⟨.inr ⟨.inr rfl, rfl⟩, ?_⟩
    show Partway s (got ++ []) fails r
    rw [List.append_nil]
    exact h

/-- A pass that leaves the packet incomplete. -/
theorem pass {s : ReaderState F} {got : List UInt8} {fails : Nat} {r : Reader F} {n : Nat}
    (h : Partway s got fails r) (hn : n ≤ 42) {a : Answer} (ha : a.settings.numMeasChansAvail = n)
    (hshort : (got ++ a.result.bytes).length < packetLen n)
    (hbad : s.badPacketCount + (fails + a.fails.toNat) ≤ 1)
    (hup : s.isCommunicating = true ∨ a.fails.toNat = 0 ∧ fails = 0 ∧ s.badPacketCount = 0) :
    ∃ r', r.step (.read a) = some (r', none) ∧
      Partway s (got ++ a.result.bytes) (fails + a.fails.toNat) r' := by
  have hlen := packetLen_le hn
  have hcount := h.kept.bad
  obtain ⟨hout, hpartway⟩ := h.receive hn ha hshort
  rw [List.length_append] at hshort
  have hroom : a.result.bytes.length ≤ readChunkBufLen - r.tread := by
    rw [h.tread]
    omega
  have hset : Kept r.state 0 { r.state with pvThrottle := a.settings.pvThrottle } :=
    ⟨rfl, rfl, rfl, rfl, rfl, rfl, rfl, rfl, id⟩
  have hout' : r.outcome a = .partialRead ∧ a.fails.toNat = 0 ∨
      (r.outcome a = .timeout ∨ r.outcome a = .readError) ∧ a.fails.toNat = 1 := by
    refine hout.imp (fun hc => ⟨hc.1, ?_⟩) fun hc => ⟨hc.1, ?_⟩
    · rw [hc.2]
      rfl
    · rw [hc.2]
      rfl
  have hup' : r.state.isCommunicating = true ∨ a.fails.toNat = 0 ∧ r.state.badPacketCount = 0 := by
    exact hup.imp h.kept.up fun hc => ⟨hc.1, by omega⟩
  obtain ⟨t, hpass, hcomm, hkept⟩ := Kept.readPass
    (s := { r.state with pvThrottle := a.settings.pvThrottle }) hout' (by
      show r.state.badPacketCount + _ ≤ 1
      omega) hup' (r.received a).lastMeasValueCounter (r.received a).lastChanValues
    a.settings.interruptAccept
  have hpassed : r.passed a = (t, none) := hpass
  have hkept' := h.kept.trans (hset.trans hkept)
  rw [Nat.zero_add] at hkept'
  refine ⟨{ r.received a with state := t }, ?_, hpartway.reading, hpartway.portOpen, hpartway.tread,
    hpartway.buf, hpartway.buf_length, hkept'⟩
  rw [step_read h.reading hroom (by rw [hpassed]; exact hcomm), hpassed]

/-- The reads before the last. -/
theorem run_before {s : ReaderState F} {got : List UInt8} {fails : Nat} {r : Reader F} {n : Nat}
    (h : Partway s got fails r) (hn : n ≤ 42) {answers : List Answer}
    (hchannels : ∀ a ∈ answers, a.settings.numMeasChansAvail = n)
    (hshort : (got ++ answers.flatMap fun a => a.result.bytes).length < packetLen n)
    (hbad : s.badPacketCount + (fails + answers.countP Answer.fails) ≤ 1)
    (hup : s.isCommunicating = true ∨
      answers.countP Answer.fails = 0 ∧ fails = 0 ∧ s.badPacketCount = 0) :
    ∃ r', r.run (answers.map .read) = some (r', []) ∧
      Partway s (got ++ answers.flatMap fun a => a.result.bytes) (fails + answers.countP Answer.fails) r' := by
  induction answers generalizing got fails r with
  | nil =>
    refine ⟨r, rfl, ?_⟩
    rw [List.flatMap_nil, List.append_nil]
    exact h
  | cons a answers ih =>
    have hcount : (a :: answers).countP Answer.fails = a.fails.toNat + answers.countP Answer.fails := by
      rw [List.countP_cons, Nat.add_comm]
      cases a.fails <;> rfl
    rw [List.flatMap_cons, ← List.append_assoc] at hshort ⊢
    rw [hcount] at hbad hup ⊢
    have hfirst : (got ++ a.result.bytes).length < packetLen n := by
      rw [List.length_append] at hshort
      omega
    obtain ⟨r1, hstep, hpartway⟩ := h.pass hn (hchannels a List.mem_cons_self) hfirst (by omega)
      (hup.imp_right fun hc => ⟨by omega, hc.2⟩)
    obtain ⟨r2, hrun, hrest⟩ := ih hpartway (fun b hb => hchannels b (List.mem_cons_of_mem a hb)) hshort
      (by omega) (hup.imp_right fun hc => ⟨by omega, by omega, hc.2.2⟩)
    refine ⟨r2, ?_, ?_⟩
    · show ((r.step (.read a)).bind fun p => (p.1.run (answers.map .read)).bind fun q =>
        some (q.1, p.2.toList ++ q.2)) = _
      rw [hstep, Option.bind_some, hrun]
      rfl
    · rwa [Nat.add_assoc] at hrest

/-- The read that completes the packet. -/
theorem complete {s : ReaderState F} {got : List UInt8} {fails : Nat} {r : Reader F} {n : Nat}
    (h : Partway s got fails r) (hn : n ≤ 42) {settings : Settings} {last : List UInt8} (disconnects : Bool)
    (hchannels : settings.numMeasChansAvail = n) (hlength : (got ++ last).length = packetLen n) :
    let a : Answer := ⟨settings, .ok last, disconnects⟩
    a.result.bytes.length ≤ readChunkBufLen - r.tread ∧
      r.outcome a = (if preambleOk (got ++ last) then .goodPacket else .badPreamble) ∧
      (r.received a).state = r.state ∧ (r.received a).reading = false ∧
      (r.received a).portOpen = true ∧ (r.received a).buf.length = readChunkBufLen ∧
      (r.received a).lastMeasValueCounter = wordAt (got ++ last) 28 4 ∧
      Agree n (r.received a).lastChanValues (chanValue (got ++ last) settings.chanMeasRange) := by
  intro a
  have hlen := packetLen_le hn
  have hge : 32 ≤ packetLen n := by
    unfold packetLen headerLen
    omega
  have hsum : got.length + last.length = packetLen n := by
    rw [← hlength, List.length_append]
  have hroom : got.length + last.length ≤ r.buf.length := by
    rw [h.buf_length, hsum]
    exact hlen
  have hcomplete : packetLen settings.numMeasChansAvail ≤ r.tread + last.length := by
    rw [hchannels, h.tread, hsum]
  obtain ⟨htake, hbuf⟩ := take_written h.buf hroom
  rw [← h.tread, hlength] at htake
  rw [← h.tread] at hbuf
  have hreceive : r.receive settings (.ok last) =
      ({ r with
          buf := r.buf.take r.tread ++ last ++ r.buf.drop (r.tread + last.length)
          tread := r.tread + last.length
          reading := false
          lastMeasValueCounter := wordAt (r.buf.take r.tread ++ last ++ r.buf.drop (r.tread + last.length)) 28 4
          lastChanValues := chanValue (r.buf.take r.tread ++ last ++ r.buf.drop (r.tread + last.length))
            settings.chanMeasRange },
        if preambleOk (r.buf.take r.tread ++ last ++ r.buf.drop (r.tread + last.length))
        then .goodPacket else .badPreamble) := if_pos hcomplete
  have hreceived : r.received a = (r.receive settings (.ok last)).1 := rfl
  have houtcome : r.outcome a = (r.receive settings (.ok last)).2 := rfl
  rw [hreceived, houtcome, hreceive, ← htake]
  refine ⟨?_, ?_, rfl, rfl, h.portOpen, hbuf.trans h.buf_length, ?_, ?_⟩
  · show last.length ≤ _
    rw [h.tread]
    omega
  · rw [preambleOk_take (by omega)]
  · rw [wordAt_take (by omega)]
  · intro ch hch
    rw [chanValue_take hch]

end Partway

/-! ## From packet to packet -/

/-- Between two packets: the number of the last good one, and what has been taken of a group. -/
structure Between (n size last bad : Nat) (rest : List Block) (r : Reader F) : Prop where
  reading : r.reading = false
  portOpen : r.portOpen = true
  buf_length : r.buf.length = readChunkBufLen
  up : r.state.isCommunicating = true
  bad : r.state.badPacketCount = bad
  initialized : r.state.measCountInitialized = true
  expected : r.state.expectedMeasValueCounter = (last + 1) % 2 ^ 32
  throttled : Throttled n size r.state (rest.map Block.values)

/-- A push, and the packets it averages. -/
def PushOfBlocks (n : Nat) (push : PushUpdate F) (group : List Block) : Prop :=
  push.valid = true ∧ Agree n push.values (averageOf (group.map Block.values))

/-- Behind the packet `b`, which is one more. -/
def Taken (n size : Nat) (rest : List Block) (b : Block) (pushes : List (PushUpdate F)) (r : Reader F) : Prop :=
  (rest.length + 1 < size ∧ pushes = [] ∧ Between n size b.seq 0 (rest ++ [b]) r) ∨
  (rest.length + 1 = size ∧ (∃ push, pushes = [push] ∧ PushOfBlocks n push (rest ++ [b])) ∧
    Between n (groupSize b.settings.pvThrottle) b.seq 0 [] r)

/-- How much the counters have grown. -/
structure Grown (s s' : LinkStats) (good garbled failures repeats missed gaps : Nat) : Prop where
  good : s'.goodCount = s.goodCount + good
  garbled : s'.badPreambleCount = s.badPreambleCount + garbled
  failures : s'.timeoutCount + s'.badReadCount = s.timeoutCount + s.badReadCount + failures
  repeats : s'.duplicateCount = s.duplicateCount + repeats
  missed : s'.missedCount = s.missedCount + missed
  gaps : s'.outOfSequenceCount = s.outOfSequenceCount + gaps

omit [Reading F] in
theorem Kept.grown {s t : ReaderState F} {fails : Nat} (h : Kept s fails t) :
    Grown s.stats t.stats 0 0 fails 0 0 0 := by
  have hstats := h.stats
  refine ⟨?_, ?_, h.failures, ?_, ?_, ?_⟩ <;> rw [hstats] <;> rfl

section
variable {s : ReaderState F} {r : Reader F} {n size : Nat} {b : Block} {rest : List Block}

theorem Reader.run_append (r : Reader F) (es fs : List Event) :
    r.run (es ++ fs) = (r.run es).bind fun p => (p.1.run fs).bind fun q => some (q.1, p.2 ++ q.2) := by
  induction es generalizing r with
  | nil =>
    show r.run fs = (r.run fs).bind fun q => some (q.1, [] ++ q.2)
    cases r.run fs <;> rfl
  | cons e es ih =>
    show ((r.step e).bind fun p => (p.1.run (es ++ fs)).bind fun q => some (q.1, p.2.toList ++ q.2)) =
      ((r.step e).bind fun p => (p.1.run es).bind fun q => some (q.1, p.2.toList ++ q.2)).bind _
    cases r.step e with
    | none => rfl
    | some p =>
      rw [Option.bind_some, Option.bind_some, ih]
      cases p.1.run es with
      | none => rfl
      | some q =>
        rw [Option.bind_some, Option.bind_some, Option.bind_some]
        cases q.1.run fs with
        | none => rfl
        | some q' =>
          rw [Option.bind_some, Option.bind_some, Option.bind_some, List.append_assoc]

/-- A packet's reads up to the one that completes it, and what that one does. -/
theorem Partway.run_events (h : Partway s [] 0 r) (hn : n ≤ 42) (hfits : b.Fits n)
    (hbad : s.badPacketCount + b.failures ≤ 1)
    (hup : s.isCommunicating = true ∨ b.failures = 0 ∧ s.badPacketCount = 0) :
    ∃ r1 : Reader F, Kept s b.failures r1.state ∧
      ((r1.passed b.answer).1.isCommunicating = true → r.run b.events =
        some ({ r1.received b.answer with state := (r1.passed b.answer).1 },
          (r1.passed b.answer).2.toList)) ∧
      r1.outcome b.answer = (if b.good then .goodPacket else .badPreamble) ∧
      (r1.received b.answer).reading = false ∧ (r1.received b.answer).portOpen = true ∧
      (r1.received b.answer).buf.length = readChunkBufLen ∧
      (r1.received b.answer).lastMeasValueCounter = wordAt b.bytes 28 4 ∧
      Agree n (r1.received b.answer).lastChanValues b.values := by
  have hshort : ([] ++ b.before.flatMap fun a : Answer => a.result.bytes).length < packetLen n := by
    have hlast := List.length_pos_iff.2 hfits.last_ne
    have hlength := hfits.length
    unfold Block.bytes at hlength
    rw [List.length_append] at hlength
    rw [List.nil_append]
    omega
  obtain ⟨r1, hrun, hpartway⟩ := h.run_before hn hfits.channels_before hshort
    (by rw [Nat.zero_add]; exact hbad) (hup.imp_right fun hc => ⟨hc.1, rfl, hc.2⟩)
  rw [List.nil_append, Nat.zero_add] at hpartway
  obtain ⟨hroom, hout, -, hreading, hopen, hbuf, hcounter, hvalues⟩ :=
    hpartway.complete hn b.disconnects hfits.channels hfits.length
  refine ⟨r1, hpartway.kept, fun hcomm => ?_, hout, hreading, hopen, hbuf, hcounter, hvalues⟩
  unfold Block.events
  rw [Reader.run_append, hrun, Option.bind_some]
  show ((r1.step _).bind fun p => (p.1.run []).bind fun q => some (q.1, p.2.toList ++ q.2)).bind _ = _
  rw [step_read (a := b.answer) hpartway.reading hroom hcomm]
  show some (_, [] ++ (_ ++ [])) = _
  rw [List.nil_append, List.append_nil]

omit [Reading F] in
/-- A packet that is the first, or so far ahead of the one expected on a link that is up. -/
theorem Kept.grown_new {t : ReaderState F} {fails counter ahead : Nat} (h : Kept s fails t)
    (pvThrottle : Int)
    (hnew : s.measCountInitialized = false ∧ ahead = 0 ∨
      s.measCountInitialized = true ∧ s.isCommunicating = true ∧
        counterDiff counter s.expectedMeasValueCounter = ahead) :
    Grown s.stats
      ({ { t with pvThrottle } with stats.goodCount := t.stats.goodCount + 1 }.counted counter).stats
      1 0 fails 0 ahead (if ahead = 0 then 0 else 1) := by
  have hgrown := h.grown
  let u : ReaderState F := { t with pvThrottle }
  obtain ⟨hinit, rfl⟩ | ⟨hinit, hcomm, hdiff⟩ := hnew
  · rw [ReaderState.counted_first (s := { u with stats.goodCount := u.stats.goodCount + 1 })
      (h.initialized.trans hinit)]
    exact ⟨congrArg (· + 1) hgrown.good, hgrown.garbled, hgrown.failures, hgrown.repeats, hgrown.missed,
      hgrown.gaps⟩
  · have hdiff' : counterDiff counter t.expectedMeasValueCounter = ahead := by
      rw [← hdiff, ← h.expected]
    rw [ReaderState.counted_next (s := { u with stats.goodCount := u.stats.goodCount + 1 })
      (h.initialized.trans hinit) (h.up hcomm) hdiff']
    exact ⟨congrArg (· + 1) hgrown.good, hgrown.garbled, hgrown.failures, hgrown.repeats,
      congrArg (· + ahead) hgrown.missed, congrArg (· + if ahead = 0 then 0 else 1) hgrown.gaps⟩

/-- A good packet that is one more. -/
theorem Partway.run_new (h : Partway s [] 0 r) (hn : n ≤ 42) (hfits : b.Fits n) (hgood : b.good = true)
    (hbad : s.badPacketCount + b.failures ≤ 1)
    (hup : s.isCommunicating = true ∨ b.failures = 0 ∧ s.badPacketCount = 0)
    (hthrottled : Throttled n size s (rest.map Block.values)) {ahead : Nat}
    (hnew : s.measCountInitialized = false ∧ ahead = 0 ∨
      s.measCountInitialized = true ∧ s.isCommunicating = true ∧
        counterDiff (b.seq % 2 ^ 32) s.expectedMeasValueCounter = ahead) :
    ∃ r' pushes, r.run b.events = some (r', pushes) ∧ Taken n size rest b pushes r' ∧
      Grown s.stats r'.state.stats 1 0 b.failures 0 ahead (if ahead = 0 then 0 else 1) := by
  obtain ⟨r1, hkept, hrun, hout, hreading, hopen, hbuf, hcounter, hvalues⟩ :=
    h.run_events hn hfits hbad hup
  rw [if_pos hgood] at hout
  rw [hfits.counter hgood] at hcounter
  let t : ReaderState F := { r1.state with pvThrottle := b.settings.pvThrottle }
  have hnot : ¬ t.Duplicate (b.seq % 2 ^ 32) := by
    rintro ⟨hinit, -, hdiff⟩
    have hinit' : s.measCountInitialized = true := hkept.initialized.symm.trans hinit
    have hdiff' : counterDiff (b.seq % 2 ^ 32) s.expectedMeasValueCounter = -1 := by
      rw [← hkept.expected]
      exact hdiff
    obtain ⟨hfalse, -⟩ | ⟨-, -, hahead⟩ := hnew
    · rw [hinit'] at hfalse
      cases hfalse
    · omega
  have ht : Throttled n size t (rest.map Block.values) :=
    hthrottled.congr hkept.sum hkept.count hkept.counter
  obtain ⟨t', push, hpass, hcomm, hzero, hinit, hexpected, hstats, hgroup⟩ :=
    ReaderState.readPass_good ht hvalues hnot hfits.throttle_gt hfits.throttle_lt
  have hpassed : r1.passed b.answer = (t', push) := by
    show t.readPass (r1.outcome b.answer) (r1.received b.answer).lastMeasValueCounter
      (r1.received b.answer).lastChanValues b.settings.interruptAccept = _
    rw [hout, hcounter, hfits.accepts]
    exact hpass
  rw [hpassed] at hrun
  have hgrown : Grown s.stats t'.stats 1 0 b.failures 0 ahead (if ahead = 0 then 0 else 1) := by
    rw [hstats]
    exact hkept.grown_new b.settings.pvThrottle hnew
  refine ⟨_, push.toList, hrun hcomm, ?_, hgrown⟩
  have hbetween {k : Nat} {rest' : List Block} (ht' : Throttled n k t' (rest'.map Block.values)) :
      Between n k b.seq 0 rest' { r1.received b.answer with state := t' } := by
    refine ⟨hreading, hopen, hbuf, hcomm, hzero, hinit, ?_, ht'⟩
    show t'.expectedMeasValueCounter = _
    rw [hexpected, Nat.mod_add_mod]
  rw [List.length_map] at hgroup
  have hconcat : rest.map Block.values ++ [b.values] = (rest ++ [b]).map (Block.values (F := F)) := by
    rw [List.map_append]
    rfl
  rw [hconcat] at hgroup
  obtain ⟨hshort, rfl, ht'⟩ | ⟨hlast, u, rfl, hvalid, huvalues, ht'⟩ := hgroup
  · exact .inl ⟨hshort, rfl, hbetween ht'⟩
  · exact .inr ⟨hlast, ⟨u, rfl, hvalid, huvalues⟩, hbetween ht'⟩

/-- A good packet that repeats the last. -/
theorem Partway.run_repeat (h : Partway s [] 0 r) (hn : n ≤ 42) (hfits : b.Fits n) (hgood : b.good = true)
    (hbad : s.badPacketCount + b.failures ≤ 1) (hup : s.isCommunicating = true)
    (hthrottled : Throttled n size s (rest.map Block.values)) (hinit : s.measCountInitialized = true)
    (hexpected : s.expectedMeasValueCounter = (b.seq + 1) % 2 ^ 32) :
    ∃ r', r.run b.events = some (r', []) ∧ Between n size b.seq 0 rest r' ∧
      Grown s.stats r'.state.stats 1 0 b.failures 1 0 0 := by
  obtain ⟨r1, hkept, hrun, hout, hreading, hopen, hbuf, hcounter, -⟩ :=
    h.run_events hn hfits hbad (.inl hup)
  rw [if_pos hgood] at hout
  rw [hfits.counter hgood] at hcounter
  let t : ReaderState F := { r1.state with pvThrottle := b.settings.pvThrottle }
  have hdiff : counterDiff (b.seq % 2 ^ 32) t.expectedMeasValueCounter = -1 := by
    show counterDiff (b.seq % 2 ^ 32) r1.state.expectedMeasValueCounter = -1
    rw [hkept.expected, hexpected, counterDiff_of_step le_rfl (by omega)]
    omega
  have hinit' : t.measCountInitialized = true := hkept.initialized.trans hinit
  have hpassed : r1.passed b.answer =
      ({ t with
          stats.goodCount := t.stats.goodCount + 1
          stats.duplicateCount := t.stats.duplicateCount + 1
          badPacketCount := 0
          isCommunicating := true
          readTimeoutSecs := 5 }, none) := by
    show t.readPass (r1.outcome b.answer) (r1.received b.answer).lastMeasValueCounter _ _ = _
    rw [hout, hcounter]
    exact ReaderState.readPass_duplicate ⟨hinit', hkept.up hup, hdiff⟩ _ _
  rw [hpassed] at hrun
  refine ⟨_, hrun rfl, ⟨hreading, hopen, hbuf, rfl, rfl, hinit', hkept.expected.trans hexpected,
    hthrottled.congr hkept.sum hkept.count hkept.counter⟩, ?_⟩
  have hgrown := hkept.grown
  exact ⟨congrArg (· + 1) hgrown.good, hgrown.garbled, hgrown.failures, congrArg (· + 1) hgrown.repeats,
    hgrown.missed, hgrown.gaps⟩

/-- A packet with a wrong preamble. -/
theorem Partway.run_garbled (h : Partway s [] 0 r) (hn : n ≤ 42) (hfits : b.Fits n) (hgood : b.good = false)
    (hbad : s.badPacketCount + b.failures + 1 ≤ 1) (hup : s.isCommunicating = true) {last : Nat}
    (hthrottled : Throttled n size s (rest.map Block.values)) (hinit : s.measCountInitialized = true)
    (hexpected : s.expectedMeasValueCounter = (last + 1) % 2 ^ 32) :
    ∃ r', r.run b.events = some (r', []) ∧ Between n size last 1 rest r' ∧
      Grown s.stats r'.state.stats 0 1 b.failures 0 0 0 := by
  obtain ⟨r1, hkept, hrun, hout, hreading, hopen, hbuf, -, -⟩ :=
    h.run_events hn hfits (by omega) (.inl hup)
  rw [if_neg (by rw [hgood]; decide)] at hout
  let t : ReaderState F := { r1.state with pvThrottle := b.settings.pvThrottle }
  have hone : t.badPacketCount + 1 = 1 := by
    show r1.state.badPacketCount + 1 = 1
    rw [hkept.bad]
    omega
  have hpassed : r1.passed b.answer =
      ({ t with
          stats.badPreambleCount := t.stats.badPreambleCount + 1
          badPacketCount := t.badPacketCount + 1 }, none) := by
    show t.readPass (r1.outcome b.answer) _ _ _ = _
    rw [hout]
    exact ReaderState.verdict_one hone none _ _ _
  rw [hpassed] at hrun
  refine ⟨_, hrun (hkept.up hup), ⟨hreading, hopen, hbuf, hkept.up hup, hone, hkept.initialized.trans hinit,
    hkept.expected.trans hexpected, hthrottled.congr hkept.sum hkept.count hkept.counter⟩, ?_⟩
  have hgrown := hkept.grown
  exact ⟨hgrown.good, congrArg (· + 1) hgrown.garbled, hgrown.failures, hgrown.repeats, hgrown.missed,
    hgrown.gaps⟩

theorem Between.partway {last bad : Nat} (h : Between n size last bad rest r) :
    Partway r.state [] 0 r.begin := by
  rw [Reader.begin_open h.portOpen]
  exact ⟨rfl, h.portOpen, rfl, rfl, h.buf_length, .refl r.state⟩

theorem Between.run_again {last bad : Nat} (h : Between n size last bad rest r) {es : List Event}
    {r' : Reader F} {pushes : List (PushUpdate F)} (hrun : r.begin.run es = some (r', pushes)) :
    r.run (.again :: es) = some (r', pushes) := by
  have hstep : r.step .again = some (r.begin, none) := by
    show (if r.reading || !r.state.isCommunicating then none else some (r.begin, none)) = _
    rw [h.reading, h.up]
    rfl
  show ((r.step .again).bind fun p => (p.1.run es).bind fun q => some (q.1, p.2.toList ++ q.2)) = _
  rw [hstep, Option.bind_some, hrun]
  rfl

/-- One packet of a steady stream: what it is counted as, and what becomes of the group. -/
theorem Between.block {last bad : Nat} (h : Between n size last bad rest r) (hn : n ≤ 42) (hfits : b.Fits n)
    (hbad : bad + b.failures + (if b.good then 0 else 1) ≤ 1)
    (horder : b.good = true → last ≤ b.seq ∧ b.seq ≤ last + 2 ^ 31) :
    ∃ r' pushes, r.run (.again :: b.events) = some (r', pushes) ∧
      ((b.good = false ∧ pushes = [] ∧ Between n size last 1 rest r' ∧
          Grown r.state.stats r'.state.stats 0 1 b.failures 0 0 0) ∨
        (b.good = true ∧ b.seq = last ∧ pushes = [] ∧ Between n size last 0 rest r' ∧
          Grown r.state.stats r'.state.stats 1 0 b.failures 1 0 0) ∨
        (b.good = true ∧ last < b.seq ∧ Taken n size rest b pushes r' ∧
          Grown r.state.stats r'.state.stats 1 0 b.failures 0 (b.seq - last - 1)
            (if b.seq ≤ last + 1 then 0 else 1))) := by
  have hpartway := h.partway
  have hcount := h.bad
  cases hgood : b.good with
  | false =>
    rw [hgood] at hbad
    obtain ⟨r', hrun, hbetween, hgrown⟩ := hpartway.run_garbled hn hfits hgood (by rw [hcount]; exact hbad) h.up
      h.throttled h.initialized h.expected
    exact ⟨r', [], h.run_again hrun, .inl ⟨rfl, rfl, hbetween, hgrown⟩⟩
  | true =>
    rw [hgood, if_pos rfl] at hbad
    obtain ⟨hle, hgap⟩ := horder hgood
    by_cases hrepeat : b.seq = last
    · obtain ⟨r', hrun, hbetween, hgrown⟩ := hpartway.run_repeat hn hfits hgood (by omega) h.up h.throttled
        h.initialized (by rw [hrepeat]; exact h.expected)
      rw [hrepeat] at hbetween
      exact ⟨r', [], h.run_again hrun, .inr (.inl ⟨rfl, hrepeat, rfl, hbetween, hgrown⟩)⟩
    · have hdiff : counterDiff (b.seq % 2 ^ 32) r.state.expectedMeasValueCounter = (b.seq - last - 1 : Nat) := by
        rw [h.expected, counterDiff_of_step hle hgap]
        omega
      obtain ⟨r', pushes, hrun, htaken, hgrown⟩ := hpartway.run_new hn hfits hgood (by omega) (.inl h.up)
        h.throttled (.inr ⟨h.initialized, h.up, hdiff⟩)
      have hiff : b.seq - last - 1 = 0 ↔ b.seq ≤ last + 1 := by omega
      rw [if_congr hiff rfl rfl] at hgrown
      exact ⟨r', pushes, h.run_again hrun, .inr (.inr ⟨rfl, by omega, htaken, hgrown⟩)⟩

omit [Reading F] in
theorem Grown.garbled_counts {s s1 s2 : LinkStats} {b : Block} {bs : List Block} {last : Nat}
    (h : Grown s s1 0 1 b.failures 0 0 0) (hgood : b.good = false) (hcounts : Counts last bs s1 s2) :
    Counts last (b :: bs) s s2 := by
  obtain ⟨h1, h2, h3, h4, h5, h6⟩ := h
  obtain ⟨c1, c2, c3, c4, c5, c6⟩ := hcounts
  constructor <;>
    simp only [news, lastSeq, gapCount, List.countP_cons, List.map_cons, List.sum_cons, hgood, Bool.not_false,
      Bool.false_eq_true, if_false, if_true] <;> omega

omit [Reading F] in
theorem Grown.repeat_counts {s s1 s2 : LinkStats} {b : Block} {bs : List Block}
    (h : Grown s s1 1 0 b.failures 1 0 0) (hgood : b.good = true) (hcounts : Counts b.seq bs s1 s2) :
    Counts b.seq (b :: bs) s s2 := by
  obtain ⟨h1, h2, h3, h4, h5, h6⟩ := h
  obtain ⟨c1, c2, c3, c4, c5, c6⟩ := hcounts
  have hle : b.seq ≤ b.seq + 1 := Nat.le_succ _
  constructor <;>
    simp only [news, lastSeq, gapCount, List.countP_cons, List.map_cons, List.sum_cons, hgood, Bool.not_true,
      Bool.false_eq_true, if_false, if_true, if_pos hle] <;> omega

omit [Reading F] in
theorem Grown.new_counts {s s1 s2 : LinkStats} {b : Block} {bs : List Block} {last : Nat}
    (h : Grown s s1 1 0 b.failures 0 (b.seq - last - 1) (if b.seq ≤ last + 1 then 0 else 1))
    (hgood : b.good = true) (hlt : last < b.seq) (hcounts : Counts b.seq bs s1 s2) :
    Counts last (b :: bs) s s2 := by
  obtain ⟨h1, h2, h3, h4, h5, h6⟩ := h
  obtain ⟨c1, c2, c3, c4, c5, c6⟩ := hcounts
  have hne : ¬ b.seq = last := by omega
  constructor <;>
    simp only [news, lastSeq, gapCount, List.countP_cons, List.map_cons, List.sum_cons, List.length_cons, hgood,
      Bool.not_true, Bool.false_eq_true, if_false, if_true, if_neg hne] <;> omega

theorem Reader.run_blocks {b : Block} {bs : List Block} {r1 r2 : Reader F} {ps qs : List (PushUpdate F)}
    (h : r.run (.again :: b.events) = some (r1, ps))
    (hrest : r1.run (bs.flatMap fun b => .again :: b.events) = some (r2, qs)) :
    r.run ((b :: bs).flatMap fun b => .again :: b.events) = some (r2, ps ++ qs) := by
  rw [List.flatMap_cons, Reader.run_append, h, Option.bind_some, hrest]
  rfl

/-- Any number of packets. -/
theorem Between.blocks {last bad : Nat} (h : Between n size last bad rest r) (hn : n ≤ 42) {bs : List Block}
    (hfits : ∀ b ∈ bs, b.Fits n) (hsteady : Steady bad bs) (horder : InOrder last bs) :
    ∃ r' pushes groups rest', r.run (bs.flatMap fun b => .again :: b.events) = some (r', pushes) ∧
      r'.state.isCommunicating = true ∧ Counts last bs r.state.stats r'.state.stats ∧
      rest ++ news last bs = groups.flatten ++ rest' ∧ Sized size groups rest' ∧
      List.Forall₂ (PushOfBlocks n) pushes groups := by
  induction bs generalizing r size last bad rest with
  | nil =>
    refine ⟨r, [], [], rest, rfl, h.up, ⟨rfl, rfl, rfl, rfl, rfl, rfl⟩, ?_, ?_, .nil⟩
    · exact List.append_nil rest
    · have hshort := h.throttled.short
      rwa [List.length_map] at hshort
  | cons b bs ih =>
    obtain ⟨hbad, hsteady⟩ := hsteady
    have hfits' : ∀ b' ∈ bs, b'.Fits n := fun b' hb' => hfits b' (List.mem_cons_of_mem b hb')
    have horder' : b.good = true → last ≤ b.seq ∧ b.seq ≤ last + 2 ^ 31 := fun hgood => by
      rw [InOrder, if_pos hgood] at horder
      exact ⟨horder.1, horder.2.1⟩
    obtain ⟨r1, ps, hrun, hcase⟩ := h.block hn (hfits b List.mem_cons_self) hbad horder'
    obtain ⟨hgood, rfl, hbetween, hgrown⟩ | ⟨hgood, rfl, rfl, hbetween, hgrown⟩ |
      ⟨hgood, hlt, htaken, hgrown⟩ := hcase
    · -- garbled: the link has one failure now
      have hnot : ¬ b.good = true := by rw [hgood]; decide
      rw [if_neg hnot] at hsteady
      rw [InOrder, if_neg hnot] at horder
      obtain ⟨r2, qs, groups, rest', hmore, hup, hcounts, hnews, hsized, hpushes⟩ :=
        ih hbetween hfits' hsteady horder
      refine ⟨r2, qs, groups, rest', Reader.run_blocks hrun hmore, hup, hgrown.garbled_counts hgood hcounts,
        ?_, hsized, hpushes⟩
      rw [news, if_neg hnot]
      exact hnews
    · rw [if_pos hgood] at hsteady
      rw [InOrder, if_pos hgood] at horder
      obtain ⟨r2, qs, groups, rest', hmore, hup, hcounts, hnews, hsized, hpushes⟩ :=
        ih hbetween hfits' hsteady horder.2.2
      refine ⟨r2, qs, groups, rest', Reader.run_blocks hrun hmore, hup, hgrown.repeat_counts hgood hcounts,
        ?_, hsized, hpushes⟩
      rw [news, if_pos hgood, if_pos rfl]
      exact hnews
    · rw [if_pos hgood] at hsteady
      rw [InOrder, if_pos hgood] at horder
      have hnew : news last (b :: bs) = b :: news b.seq bs := by
        rw [news, if_pos hgood, if_neg (by omega)]
      rw [hnew]
      obtain ⟨-, rfl, hbetween⟩ | ⟨hfull, ⟨push, rfl, hpush⟩, hbetween⟩ := htaken
      · obtain ⟨r2, qs, groups, rest', hmore, hup, hcounts, hnews, hsized, hpushes⟩ :=
          ih hbetween hfits' hsteady horder.2.2
        refine ⟨r2, qs, groups, rest', Reader.run_blocks hrun hmore, hup,
          hgrown.new_counts hgood hlt hcounts, ?_, hsized, hpushes⟩
        rw [← hnews, List.append_assoc, List.singleton_append]
      · obtain ⟨r2, qs, groups, rest', hmore, hup, hcounts, hnews, hsized, hpushes⟩ :=
          ih hbetween hfits' hsteady horder.2.2
        refine ⟨r2, push :: qs, (rest ++ [b]) :: groups, rest', Reader.run_blocks hrun hmore, hup,
          hgrown.new_counts hgood hlt hcounts, ?_, ⟨?_, b, List.getLast?_concat, hsized⟩,
          .cons hpush hpushes⟩
        · rw [List.flatten_cons, List.append_assoc (rest ++ [b]), ← hnews, List.nil_append, List.append_assoc,
            List.singleton_append]
        · rw [List.length_append, List.length_singleton]
          exact hfull

end

/-- The counters behind all the packets: every good one is a repeat or new, and from the first number to the
last each is new or missed. -/
structure Accounted (first : Block) (rest : List Block) (s : LinkStats) : Prop where
  good : s.goodCount = (first :: rest).countP Block.good
  garbled : s.badPreambleCount = (first :: rest).countP fun b => !b.good
  failures : s.timeoutCount + s.badReadCount = ((first :: rest).map Block.failures).sum
  repeats : s.duplicateCount + (first :: news first.seq rest).length = s.goodCount
  missed : s.missedCount + (first :: news first.seq rest).length + first.seq = lastSeq first.seq rest + 1
  gaps : s.outOfSequenceCount = gapCount first.seq rest

theorem run_connects (failed : Nat) (pvThrottle : Int) (es : List Event) :
    (Reader.new pvThrottle : Reader F).run (List.replicate failed (.connect false) ++ es) =
      (Reader.new pvThrottle).run es := by
  induction failed with
  | zero => rfl
  | succ failed ih =>
    rw [List.replicate_succ, List.cons_append]
    show ((Reader.new pvThrottle : Reader F).run _).bind (fun q => some (q.1, [] ++ q.2)) = _
    rw [ih]
    cases (Reader.new pvThrottle : Reader F).run es <;> rfl

/-- **A steady stream is accounted for**: the counters add up to the packets' numbers, and the pushes average
the packets that are no repeats, each once and in order, in groups of the sizes that the throttle says. -/
theorem stream_accounted {n : Nat} (hn : n ≤ 42) {first : Block} {rest : List Block} (failed : Nat)
    (pvThrottle : Int) (hfits : ∀ b ∈ first :: rest, b.Fits n) (hfirst : first.good = true)
    (hwhole : first.failures = 0) (hsteady : Steady 0 rest) (horder : InOrder first.seq rest) :
    ∃ r pushes groups pending,
      (Reader.new pvThrottle : Reader F).run (stream failed first rest) = some (r, pushes) ∧
      r.state.isCommunicating = true ∧ Accounted first rest r.state.stats ∧
      first :: news first.seq rest = groups.flatten ++ pending ∧ Sized 1 groups pending ∧
      List.Forall₂ (PushOfBlocks n) pushes groups := by
  let r0 : Reader F := { Reader.new pvThrottle with portOpen := true, reading := true }
  have hpartway : Partway (ReaderState.new pvThrottle : ReaderState F) [] 0 r0 :=
    ⟨rfl, rfl, rfl, rfl, List.length_replicate, .refl _⟩
  have hthrottled : Throttled n 1 (ReaderState.new pvThrottle : ReaderState F) ([].map Block.values) :=
    ⟨.new n pvThrottle, Nat.one_pos, rfl, show (-2 ^ 31 : Int) < 0 by decide, show (0 : Int) < 2 ^ 31 by decide⟩
  obtain ⟨r1, ps, hrun, htaken, hgrown⟩ := hpartway.run_new hn (hfits first List.mem_cons_self) hfirst
    (by rw [hwhole]; exact Nat.zero_le 1) (.inr ⟨hwhole, rfl⟩) hthrottled (.inl ⟨rfl, rfl⟩)
  obtain ⟨hshort, -, -⟩ | ⟨-, ⟨push, rfl, hpush⟩, hbetween⟩ := htaken
  · exact absurd hshort (by decide)
  · obtain ⟨r2, qs, groups, pending, hmore, hup, hcounts, hnews, hsized, hpushes⟩ :=
      hbetween.blocks hn (fun b hb => hfits b (List.mem_cons_of_mem first hb)) hsteady horder
    refine ⟨r2, push :: qs, [first] :: groups, pending, ?_, hup, ?_, ?_, ⟨rfl, first, rfl, hsized⟩,
      .cons hpush hpushes⟩
    · unfold stream
      rw [List.append_assoc, run_connects]
      show ((r0.run (first.events ++ _)).bind fun q => some (q.1, [] ++ q.2)) = _
      rw [Reader.run_append, hrun, Option.bind_some, hmore]
      rfl
    · obtain ⟨h1, h2, h3, h4, h5, h6⟩ := hgrown
      obtain ⟨c1, c2, c3, c4, c5, c6⟩ := hcounts
      rw [hwhole] at h3
      rw [if_pos rfl] at h6
      change _ = 0 + _ at h1 h2 h4 h5 h6
      change _ = 0 + 0 + _ at h3
      have hgoods : (first :: rest).countP Block.good = rest.countP Block.good + 1 := by
        rw [List.countP_cons, if_pos hfirst]
      have hgarbled : ((first :: rest).countP fun b => !b.good) = rest.countP fun b => !b.good := by
        rw [List.countP_cons, hfirst]
        rfl
      have hfailures : ((first :: rest).map Block.failures).sum = (rest.map Block.failures).sum := by
        rw [List.map_cons, List.sum_cons, hwhole, Nat.zero_add]
      refine ⟨by omega, by omega, by omega, ?_, ?_, by omega⟩
      · rw [List.length_cons]
        omega
      · rw [List.length_cons]
        omega
    · rw [List.flatten_cons, List.append_assoc, ← hnews]
      rfl

/-- A packet of one channel. -/
def onePacket (preamble : List UInt8) (counter : Nat) (raw : UInt8) : List UInt8 :=
  preamble ++ List.replicate 8 0 ++ leBytes 8 1 ++ List.replicate 8 0 ++ leBytes 4 counter ++ [raw, 0, 0, 0]

def oneChannel : Settings := ⟨2, 1, fun _ => 5, true⟩

/-- The counter wraps, a packet comes twice with a timeout in the middle of it, and one comes garbled. -/
theorem stream_accounted_wraps :
    let rational : Reading Rat :=
      ⟨0, (· + ·), fun sum count => sum / count, fun raw range => raw * range / 16777215⟩
    let whole (seq : Nat) (raw : UInt8) : Block := ⟨[], oneChannel, onePacket preamble seq raw, true, seq⟩
    let first : Block :=
      ⟨[⟨oneChannel, .ok ((onePacket preamble (2 ^ 32 - 1) 9).take 30), true⟩], oneChannel,
        (onePacket preamble (2 ^ 32 - 1) 9).drop 30, true, 2 ^ 32 - 1⟩
    let again : Block :=
      ⟨[⟨oneChannel, .ok ((onePacket preamble (2 ^ 32 - 1) 9).take 3), true⟩, ⟨oneChannel, .timeout, true⟩],
        oneChannel, (onePacket preamble (2 ^ 32 - 1) 9).drop 3, true, 2 ^ 32 - 1⟩
    let garbled : Block := ⟨[], oneChannel, onePacket [1, 2, 3, 4] 0 7, true, 0⟩
    ∃ r pushes groups pending,
      (@Reader.new Rat rational 5).run (stream 2 first [again, garbled, whole (2 ^ 32 + 1) 8]) =
        some (r, pushes) ∧
      r.state.isCommunicating = true ∧
      Accounted first [again, garbled, whole (2 ^ 32 + 1) 8] r.state.stats ∧
      first :: news first.seq [again, garbled, whole (2 ^ 32 + 1) 8] = groups.flatten ++ pending ∧
      Sized 1 groups pending ∧ List.Forall₂ (PushOfBlocks 1) pushes groups := by
  intro rational whole first again garbled
  have hfits : ∀ b ∈ [first, again, garbled, whole (2 ^ 32 + 1) 8], b.Fits 1 := by
    intro b hb
    simp only [List.mem_cons, List.not_mem_nil, or_false] at hb
    obtain rfl | rfl | rfl | rfl := hb <;>
      exact ⟨by decide, by decide, rfl, by decide, rfl, by decide, by decide, by decide⟩
  exact stream_accounted (by decide) 2 5 hfits (by decide) (by decide)
    ⟨by decide, by decide, by decide, trivial⟩ ⟨by decide, by decide, by decide, by decide, trivial⟩

end MicroEpsilon
