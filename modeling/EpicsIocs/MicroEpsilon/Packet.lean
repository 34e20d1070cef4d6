import EpicsIocs.Lib.Bytes
import Mathlib.Algebra.Order.Group.Int

/-!
Data packets of a capaNCDT 6200: the fields at fixed offsets, and the state that counts, averages and
throttles them.

* `valid_push`, `valid_hold`, `duplicate`, `invalid_push`: what `processDataPacket` does with a packet.
* `Pending`: the sums are those of the samples since the last push.
* `counterDiff_of_step`: how far a counter is from the one expected, where the packets are numbered.
-/

namespace MicroEpsilon

open Bytes

/-- The numbers the driver adds up (f64, the product of the scaling rounded to f32). -/
class Reading (F : Type) where
  zero : F
  add : F → F → F
  ratio : F → Nat → F
  scale : Nat → Int → F

/-! ## Packets -/

def headerLen : Nat := 32

def maxChannels : Nat := 4

def channelMasks : Vector Nat 4 := #v[1, 5, 21, 85]

def packetLen (numMeasChansAvail : Nat) : Nat := headerLen + numMeasChansAvail * 4

/-- The little-endian number in the `n` bytes at `i`. -/
def wordAt (buf : List UInt8) (i n : Nat) : Nat := leNat ((buf.drop i).take n)

/-- The bytes `SAEM`. -/
def preamble : List UInt8 := [83, 65, 69, 77]

def preambleOk (buf : List UInt8) : Bool := 4 ≤ buf.length && buf.take 4 == preamble

structure PacketHeader where
  preamble : Nat
  orderNumber : Nat
  serialNumber : Nat
  channelBitField : Nat
  status : Nat
  frameNumberM : Nat
  bytesPerFrame : Nat
  measValueCounter : Nat
  deriving DecidableEq, Repr

def parseHeader (buf : List UInt8) : PacketHeader where
  preamble := wordAt buf 0 4
  orderNumber := wordAt buf 4 4
  serialNumber := wordAt buf 8 4
  channelBitField := wordAt buf 12 8
  status := wordAt buf 20 4
  frameNumberM := wordAt buf 24 2
  bytesPerFrame := wordAt buf 26 2
  measValueCounter := wordAt buf 28 4

def channelAvailable (channelBitField : Nat) (channel : Fin 4) : Bool :=
  channelBitField &&& channelMasks[channel] != 0

def rawChannelMask (channel : Fin 4) : Nat := if channel.val = 0 then 0xFFFFFFFF else 0x00FFFFFF

def parseChannelRaw (buf : List UInt8) (channel : Fin 4) : Nat :=
  wordAt buf (headerLen + channel * 4) 4 &&& rawChannelMask channel

abbrev Channels (F : Type) := Fin 4 → F

variable {F : Type} [Reading F]

structure DecodedPacket (F : Type) where
  header : PacketHeader
  chanValues : Channels F

/-- The value of one channel, zero where the bit field leaves it out. -/
def chanValue (buf : List UInt8) (measRanges : Fin 4 → Int) (ch : Fin 4) : F :=
  if channelAvailable (parseHeader buf).channelBitField ch
  then Reading.scale (parseChannelRaw buf ch) (measRanges ch) else Reading.zero

def decodePacket (buf : List UInt8) (measRanges : Fin 4 → Int) : DecodedPacket F where
  header := parseHeader buf
  chanValues := chanValue buf measRanges

/-- A field inside the part that two buffers share. -/
theorem wordAt_take {buf : List UInt8} {m i n : Nat} (h : i + n ≤ m) :
    wordAt (buf.take m) i n = wordAt buf i n := by
  unfold wordAt
  rw [List.drop_take, List.take_take, Nat.min_eq_left (by omega)]

theorem preambleOk_take {buf : List UInt8} {m : Nat} (h : 4 ≤ m) :
    preambleOk (buf.take m) = preambleOk buf := by
  have hlength : (4 ≤ (buf.take m).length) ↔ 4 ≤ buf.length := by
    rw [List.length_take]
    omega
  unfold preambleOk
  rw [List.take_take, Nat.min_eq_left h, decide_eq_decide.2 hlength]

/-- A channel that the packet has room for. -/
theorem chanValue_take {buf : List UInt8} {n : Nat} {ch : Fin 4} (h : ch.val < n)
    (measRanges : Fin 4 → Int) :
    (chanValue (buf.take (packetLen n)) measRanges ch : F) = chanValue buf measRanges ch := by
  have hfield : wordAt (buf.take (packetLen n)) 12 8 = wordAt buf 12 8 := by
    apply wordAt_take
    unfold packetLen headerLen
    omega
  have hraw : parseChannelRaw (buf.take (packetLen n)) ch = parseChannelRaw buf ch := by
    unfold parseChannelRaw
    rw [wordAt_take]
    unfold packetLen headerLen
    omega
  unfold chanValue parseHeader
  dsimp only
  rw [hfield, hraw]

/-! ## The reader's state -/

structure LinkStats where
  goodCount : Nat := 0
  badPreambleCount : Nat := 0
  timeoutCount : Nat := 0
  badReadCount : Nat := 0
  outOfSequenceCount : Nat := 0
  duplicateCount : Nat := 0
  missedCount : Nat := 0
  deriving DecidableEq, Repr

structure ReaderState (F : Type) where
  badPacketCount : Nat
  isCommunicating : Bool
  readTimeoutSecs : Nat
  measCountInitialized : Bool
  expectedMeasValueCounter : Nat
  dispSum : Channels F
  dispSumCount : Nat
  pvThrottle : Int
  pvThrottleCounter : Int
  stats : LinkStats

def ReaderState.new (pvThrottle : Int) : ReaderState F where
  badPacketCount := 0
  isCommunicating := false
  readTimeoutSecs := 5
  measCountInitialized := false
  expectedMeasValueCounter := 0
  dispSum _ := Reading.zero
  dispSumCount := 0
  pvThrottle := pvThrottle
  pvThrottleCounter := 0
  stats := {}

inductive ReadOutcome
  | partialRead
  | goodPacket
  | badPreamble
  | timeout
  | readError
  deriving DecidableEq, Repr

structure PushUpdate (F : Type) where
  values : Channels F
  valid : Bool

/-- `wrapping_sub` of two u32, as an i32. -/
def counterDiff (counter expected : Nat) : Int := ((counter : Int) - expected).bmod (2 ^ 32)

/-- `-= 1` of an i32. -/
def decrement (counter : Int) : Int := (counter - 1).bmod (2 ^ 32)

namespace ReaderState

/-- The end of `process_data_packet`: what has been summed up is pushed. -/
def push (s : ReaderState F) (isValid : Bool) : ReaderState F × Option (PushUpdate F) :=
  let values : Channels F := fun ch => Reading.ratio (s.dispSum ch) s.dispSumCount
  ({ s with pvThrottleCounter := s.pvThrottle, dispSum := fun _ => Reading.zero, dispSumCount := 0 },
    some ⟨values, isValid⟩)

/-- The middle of it: a valid packet is added, and pushed when the counter has run out. -/
def average (s : ReaderState F) (chanValues : Channels F) (isValid : Bool) :
    ReaderState F × Option (PushUpdate F) :=
  if isValid then
    let s := { s with
      dispSum := fun ch => Reading.add (s.dispSum ch) (chanValues ch)
      dispSumCount := s.dispSumCount + 1
      pvThrottleCounter := decrement s.pvThrottleCounter }
    if 0 < s.pvThrottleCounter then (s, none) else s.push isValid
  else s.push isValid

/-- The first counter seen is the one expected. -/
def expect (s : ReaderState F) (measValueCounter : Nat) : ReaderState F :=
  if s.measCountInitialized then s
  else { s with expectedMeasValueCounter := measValueCounter, measCountInitialized := true }

def countGap (s : ReaderState F) (diff : Int) : ReaderState F :=
  if diff ≠ 0 ∧ s.isCommunicating then
    { s with
      stats.missedCount := s.stats.missedCount + diff.toNat
      stats.outOfSequenceCount := s.stats.outOfSequenceCount + 1 }
  else s

def processDataPacket (s : ReaderState F) (measValueCounter : Nat) (chanValues : Channels F)
    (isValid interruptAccept : Bool) : ReaderState F × Option (PushUpdate F) :=
  let s := s.expect measValueCounter
  let diff := counterDiff measValueCounter s.expectedMeasValueCounter
  if diff ≠ 0 ∧ s.isCommunicating ∧ diff = -1 then
    ({ s with stats.duplicateCount := s.stats.duplicateCount + 1 }, none)
  else
    let s := { s.countGap diff with expectedMeasValueCounter := (measValueCounter + 1) % 2 ^ 32 }
    if interruptAccept then s.average chanValues isValid else (s, none)

/-- What a pass counts before its verdict, and what a good packet pushes. -/
def count (s : ReaderState F) (outcome : ReadOutcome) (measValueCounter : Nat) (chanValues : Channels F)
    (interruptAccept : Bool) : ReaderState F × Option (PushUpdate F) :=
  match outcome with
  | .partialRead => (s, none)
  | .goodPacket =>
    let s := { s with stats.goodCount := s.stats.goodCount + 1 }
    let (s, push) := s.processDataPacket measValueCounter chanValues true interruptAccept
    ({ s with badPacketCount := 0 }, push)
  | .badPreamble =>
    ({ s with
      stats.badPreambleCount := s.stats.badPreambleCount + 1
      badPacketCount := s.badPacketCount + 1 }, none)
  | .timeout =>
    ({ s with
      stats.timeoutCount := s.stats.timeoutCount + 1
      badPacketCount := s.badPacketCount + 1
      readTimeoutSecs := 30 }, none)
  | .readError =>
    ({ s with
      stats.badReadCount := s.stats.badReadCount + 1
      badPacketCount := s.badPacketCount + 1 }, none)

/-- The verdict on the link, made on every pass. -/
def verdict (s : ReaderState F) (push : Option (PushUpdate F)) (measValueCounter : Nat)
    (chanValues : Channels F) (interruptAccept : Bool) : ReaderState F × Option (PushUpdate F) :=
  if s.badPacketCount = 0 then ({ s with isCommunicating := true, readTimeoutSecs := 5 }, push)
  else if 2 ≤ s.badPacketCount then
    { s with isCommunicating := false }.processDataPacket measValueCounter chanValues false interruptAccept
  else (s, push)

def readPass (s : ReaderState F) (outcome : ReadOutcome) (measValueCounter : Nat)
    (chanValues : Channels F) (interruptAccept : Bool) : ReaderState F × Option (PushUpdate F) :=
  let (s, push) := s.count outcome measValueCounter chanValues interruptAccept
  s.verdict push measValueCounter chanValues interruptAccept

end ReaderState

/-! ## Counters -/

theorem counterDiff_self (counter : Nat) : counterDiff counter counter = 0 := by
  unfold counterDiff
  rw [Int.sub_self]
  rfl

/-- Where the packets are numbered, the difference is that of the numbers. -/
theorem counterDiff_of_step {last next : Nat} (hle : last ≤ next) (hgap : next ≤ last + 2 ^ 31) :
    counterDiff (next % 2 ^ 32) ((last + 1) % 2 ^ 32) = (next : Int) - (last + 1) := by
  have hcast : ((next % 2 ^ 32 : Nat) : Int) - ((last + 1) % 2 ^ 32 : Nat) =
      (next : Int) % (2 ^ 32 : Nat) - ((last + 1 : Nat) : Int) % (2 ^ 32 : Nat) := rfl
  unfold counterDiff
  rw [hcast, show (2 : Nat) ^ 32 = 4294967296 from rfl, Int.emod_sub_bmod, Int.sub_emod_bmod]
  apply Int.bmod_eq_of_le
  · omega
  · omega

theorem decrement_eq {counter : Int} (hlo : -2 ^ 31 < counter) (hhi : counter ≤ 2 ^ 31) :
    decrement counter = counter - 1 := by
  unfold decrement
  apply Int.bmod_eq_of_le
  · omega
  · omega

/-! ## Samples -/

/-- The sum, sample after sample. -/
def sumOf (samples : List (Channels F)) : Channels F :=
  samples.foldl (fun sum sample ch => Reading.add (sum ch) (sample ch)) fun _ => Reading.zero

def averageOf (samples : List (Channels F)) : Channels F :=
  fun ch => Reading.ratio (sumOf samples ch) samples.length

theorem sumOf_concat (samples : List (Channels F)) (sample : Channels F) :
    sumOf (samples ++ [sample]) = fun ch => Reading.add (sumOf samples ch) (sample ch) := by
  unfold sumOf
  rw [List.foldl_append]
  rfl

/-- The values of the first `n` channels are the same. -/
def Agree (n : Nat) (v w : Channels F) : Prop := ∀ ch : Fin 4, ch.val < n → v ch = w ch

omit [Reading F] in
theorem Agree.rfl {n : Nat} {v : Channels F} : Agree n v v := fun _ _ => Eq.refl _

omit [Reading F] in
theorem Agree.eq {v w : Channels F} (h : Agree 4 v w) : v = w := funext fun ch => h ch ch.isLt

/-- What is summed up are the samples `rest`. -/
structure Pending (n : Nat) (s : ReaderState F) (rest : List (Channels F)) : Prop where
  sum : Agree n s.dispSum (sumOf rest)
  count : s.dispSumCount = rest.length

theorem Pending.new (n : Nat) (pvThrottle : Int) : Pending n (ReaderState.new pvThrottle : ReaderState F) [] :=
  ⟨.rfl, rfl⟩

/-- Of the samples `rest` and those `taken`, `push` is the average of all and nothing is left, or there is
no push and all are left; a valid push has a sample taken. -/
inductive Averages (rest taken : List (Channels F)) : Option (PushUpdate F) → List (Channels F) → Prop
  | holds : Averages rest taken none (rest ++ taken)
  | pushes {push : PushUpdate F} (hvalues : push.values = averageOf (rest ++ taken))
      (hvalid : push.valid = true → taken ≠ []) : Averages rest taken (some push) []

/-- How many samples the push after next averages. -/
def groupSize (pvThrottle : Int) : Nat := max 1 pvThrottle.toNat

/-- `rest` is what has been taken of a group of `size` samples. -/
structure Throttled (n size : Nat) (s : ReaderState F) (rest : List (Channels F)) : Prop where
  pending : Pending n s rest
  short : rest.length < size
  counter : max 1 s.pvThrottleCounter = (size : Int) - rest.length
  counter_gt : -2 ^ 31 < s.pvThrottleCounter
  counter_lt : s.pvThrottleCounter < 2 ^ 31

/-- Only the sums and the counter matter. -/
theorem Throttled.congr {n size : Nat} {s t : ReaderState F} {rest : List (Channels F)}
    (h : Throttled n size s rest) (hsum : t.dispSum = s.dispSum) (hcount : t.dispSumCount = s.dispSumCount)
    (hcounter : t.pvThrottleCounter = s.pvThrottleCounter) : Throttled n size t rest where
  pending := ⟨hsum ▸ h.pending.sum, hcount ▸ h.pending.count⟩
  short := h.short
  counter := hcounter ▸ h.counter
  counter_gt := hcounter ▸ h.counter_gt
  counter_lt := hcounter ▸ h.counter_lt

namespace ReaderState

/-- The counter repeats the one before, on a link that is up. -/
def Duplicate (s : ReaderState F) (measValueCounter : Nat) : Prop :=
  s.measCountInitialized = true ∧ s.isCommunicating = true ∧
    counterDiff measValueCounter s.expectedMeasValueCounter = -1

instance (s : ReaderState F) (measValueCounter : Nat) : Decidable (s.Duplicate measValueCounter) :=
  inferInstanceAs (Decidable (_ ∧ _ ∧ _))

variable {n : Nat} {s : ReaderState F} {rest : List (Channels F)} {v w : Channels F}

theorem pending_push (isValid : Bool) : Pending n (s.push isValid).1 [] := ⟨.rfl, rfl⟩

theorem push_values (h : Pending n s rest) (isValid : Bool) :
    ∃ push, (s.push isValid).2 = some push ∧ push.valid = isValid ∧ Agree n push.values (averageOf rest) := by
  refine ⟨_, rfl, rfl, fun ch hch => ?_⟩
  show Reading.ratio (s.dispSum ch) s.dispSumCount = Reading.ratio (sumOf rest ch) rest.length
  rw [h.sum ch hch, h.count]

/-- The state with a sample added. -/
def added (s : ReaderState F) (v : Channels F) : ReaderState F :=
  { s with
    dispSum := fun ch => Reading.add (s.dispSum ch) (v ch)
    dispSumCount := s.dispSumCount + 1
    pvThrottleCounter := decrement s.pvThrottleCounter }

theorem pending_added (h : Pending n s rest) (hv : Agree n v w) : Pending n (s.added v) (rest ++ [w]) := by
  refine ⟨fun ch hch => ?_, ?_⟩
  · show Reading.add (s.dispSum ch) (v ch) = _
    rw [sumOf_concat, h.sum ch hch, hv ch hch]
  · show s.dispSumCount + 1 = _
    rw [h.count, List.length_append, List.length_singleton]

theorem average_valid (s : ReaderState F) (v : Channels F) :
    s.average v true =
      if 0 < decrement s.pvThrottleCounter then (s.added v, none) else (s.added v).push true := rfl

/-- What is pushed is the average of the samples since the last push. -/
theorem average_averages (h : Pending 4 s rest) (v : Channels F) (isValid : Bool) :
    ∃ rest', Averages rest (if isValid then [v] else []) (s.average v isValid).2 rest' ∧
      Pending 4 (s.average v isValid).1 rest' := by
  cases isValid with
  | false =>
    obtain ⟨push, hpush, hvalid, hvalues⟩ := push_values h false
    refine ⟨[], ?_, pending_push false⟩
    show Averages rest [] (s.push false).2 []
    rw [hpush]
    refine .pushes ?_ fun htrue => ?_
    · rw [List.append_nil]
      exact hvalues.eq
    · rw [hvalid] at htrue
      cases htrue
  | true =>
    have hadded : Pending 4 (s.added v) (rest ++ [v]) := pending_added h .rfl
    rw [average_valid]
    by_cases hhold : 0 < decrement s.pvThrottleCounter
    · rw [if_pos hhold]
      exact ⟨rest ++ [v], .holds, hadded⟩
    · rw [if_neg hhold]
      obtain ⟨push, hpush, hvalid, hvalues⟩ := push_values hadded true
      refine ⟨[], ?_, pending_push true⟩
      rw [hpush]
      exact .pushes hvalues.eq fun _ => List.cons_ne_nil v []

/-- A valid packet is one more of its group, or the last one. -/
theorem average_throttled {size : Nat} (h : Throttled n size s rest) (hv : Agree n v w)
    (hlo : -2 ^ 31 < s.pvThrottle) (hhi : s.pvThrottle < 2 ^ 31) :
    (rest.length + 1 < size ∧ (s.average v true).2 = none ∧
      Throttled n size (s.average v true).1 (rest ++ [w])) ∨
    (rest.length + 1 = size ∧ ∃ push, (s.average v true).2 = some push ∧ push.valid = true ∧
      Agree n push.values (averageOf (rest ++ [w])) ∧
      Throttled n (groupSize s.pvThrottle) (s.average v true).1 []) := by
  have hadded := pending_added h.pending hv
  have hdecrement := decrement_eq h.counter_gt h.counter_lt.le
  have hcounter := h.counter
  have hgt := h.counter_gt
  have hlt := h.counter_lt
  have hlength : (rest ++ [w]).length = rest.length + 1 := by rw [List.length_append, List.length_singleton]
  rw [average_valid, hdecrement]
  by_cases hhold : 0 < s.pvThrottleCounter - 1
  · left
    rw [if_pos hhold]
    refine ⟨by omega, rfl, hadded, by omega, ?_, ?_, ?_⟩
    · show max 1 (decrement s.pvThrottleCounter) = _
      rw [hdecrement, hlength]
      omega
    · show -2 ^ 31 < decrement s.pvThrottleCounter
      rw [hdecrement]
      omega
    · show decrement s.pvThrottleCounter < 2 ^ 31
      rw [hdecrement]
      omega
  · right
    have hshort := h.short
    rw [if_neg hhold]
    obtain ⟨push, hpush, hvalid, hvalues⟩ := push_values hadded true
    refine ⟨by omega, push, hpush, hvalid, hvalues, pending_push true, ?_, ?_, hlo, hhi⟩
    · show 0 < groupSize s.pvThrottle
      unfold groupSize
      omega
    · show max 1 s.pvThrottle = ((groupSize s.pvThrottle : Nat) : Int) - (0 : Nat)
      unfold groupSize
      omega

/-! ## One packet, one pass -/

/-- Averaging leaves the link's counters alone. -/
theorem average_keeps (s : ReaderState F) (v : Channels F) (isValid : Bool) :
    (s.average v isValid).1.stats = s.stats ∧
      (s.average v isValid).1.measCountInitialized = s.measCountInitialized ∧
      (s.average v isValid).1.expectedMeasValueCounter = s.expectedMeasValueCounter := by
  cases isValid with
  | false => exact ⟨rfl, rfl, rfl⟩
  | true =>
    rw [average_valid]
    split <;> exact ⟨rfl, rfl, rfl⟩

omit [Reading F] in
theorem expect_eq (h : s.measCountInitialized = true) (counter : Nat) : s.expect counter = s := by
  unfold expect
  rw [if_pos h]

omit [Reading F] in
theorem not_duplicate_expect (h : s.measCountInitialized = false) (counter : Nat) :
    counterDiff counter (s.expect counter).expectedMeasValueCounter = 0 := by
  unfold expect
  rw [if_neg (by rw [h]; decide)]
  exact counterDiff_self counter

/-- Where the packet is taken for a repeat of the last. -/
theorem processDataPacket_duplicate {counter : Nat} (h : s.Duplicate counter) (isValid gate : Bool) :
    s.processDataPacket counter v isValid gate =
      ({ s with stats.duplicateCount := s.stats.duplicateCount + 1 }, none) := by
  obtain ⟨hinit, hup, hdiff⟩ := h
  have hcond : counterDiff counter s.expectedMeasValueCounter ≠ 0 ∧ s.isCommunicating = true ∧
      counterDiff counter s.expectedMeasValueCounter = -1 := ⟨by omega, hup, hdiff⟩
  unfold processDataPacket
  dsimp only
  rw [expect_eq hinit, if_pos hcond]

/-- The state that a packet is averaged in, when it is no repeat. -/
def counted (s : ReaderState F) (counter : Nat) : ReaderState F :=
  { (s.expect counter).countGap (counterDiff counter (s.expect counter).expectedMeasValueCounter) with
    expectedMeasValueCounter := (counter + 1) % 2 ^ 32 }

theorem processDataPacket_of_not_duplicate {counter : Nat} (h : ¬ s.Duplicate counter)
    (isValid gate : Bool) : s.processDataPacket counter v isValid gate =
      if gate then (s.counted counter).average v isValid else (s.counted counter, none) := by
  have hcond : ¬ (counterDiff counter (s.expect counter).expectedMeasValueCounter ≠ 0 ∧
      (s.expect counter).isCommunicating = true ∧
      counterDiff counter (s.expect counter).expectedMeasValueCounter = -1) := by
    rintro ⟨hne, hup, hdiff⟩
    cases hinit : s.measCountInitialized with
    | false => exact hne (not_duplicate_expect hinit counter)
    | true =>
      rw [expect_eq hinit] at hup hdiff
      exact h ⟨hinit, hup, hdiff⟩
  unfold processDataPacket
  dsimp only
  rw [if_neg hcond]
  rfl

omit [Reading F] in
/-- Counting leaves the sums and the throttle alone. -/
theorem counted_sums (s : ReaderState F) (counter : Nat) :
    (s.counted counter).dispSum = s.dispSum ∧ (s.counted counter).dispSumCount = s.dispSumCount ∧
      (s.counted counter).pvThrottleCounter = s.pvThrottleCounter ∧
      (s.counted counter).pvThrottle = s.pvThrottle := by
  have hgap (t : ReaderState F) (diff : Int) : (t.countGap diff).dispSum = t.dispSum ∧
      (t.countGap diff).dispSumCount = t.dispSumCount ∧
      (t.countGap diff).pvThrottleCounter = t.pvThrottleCounter ∧
      (t.countGap diff).pvThrottle = t.pvThrottle := by
    unfold countGap
    split <;> exact ⟨rfl, rfl, rfl, rfl⟩
  have hexpect : (s.expect counter).dispSum = s.dispSum ∧
      (s.expect counter).dispSumCount = s.dispSumCount ∧
      (s.expect counter).pvThrottleCounter = s.pvThrottleCounter ∧
      (s.expect counter).pvThrottle = s.pvThrottle := by
    unfold expect
    split <;> exact ⟨rfl, rfl, rfl, rfl⟩
  obtain ⟨h1, h2, h3, h4⟩ := hgap (s.expect counter)
    (counterDiff counter (s.expect counter).expectedMeasValueCounter)
  exact ⟨h1.trans hexpect.1, h2.trans hexpect.2.1, h3.trans hexpect.2.2.1, h4.trans hexpect.2.2.2⟩

omit [Reading F] in
theorem counted_initialized (s : ReaderState F) (counter : Nat) :
    (s.counted counter).measCountInitialized = true := by
  have hexpect : (s.expect counter).measCountInitialized = true := by
    unfold expect
    by_cases hinit : s.measCountInitialized = true
    · rw [if_pos hinit]
      exact hinit
    · rw [if_neg hinit]
  show (countGap _ _).measCountInitialized = true
  unfold countGap
  split <;> exact hexpect

omit [Reading F] in
/-- The first packet is in sequence. -/
theorem counted_first (h : s.measCountInitialized = false) (counter : Nat) :
    (s.counted counter).stats = s.stats := by
  show (countGap _ _).stats = _
  rw [not_duplicate_expect h counter]
  unfold countGap expect
  rw [if_neg fun hc => hc.1 rfl, if_neg (by rw [h]; decide)]

omit [Reading F] in
/-- A packet so far ahead of the one expected. -/
theorem counted_next (hinit : s.measCountInitialized = true) (hup : s.isCommunicating = true)
    {counter ahead : Nat} (hdiff : counterDiff counter s.expectedMeasValueCounter = ahead) :
    (s.counted counter).stats =
      { s.stats with
        missedCount := s.stats.missedCount + ahead
        outOfSequenceCount := s.stats.outOfSequenceCount + if ahead = 0 then 0 else 1 } := by
  show (countGap _ _).stats = _
  rw [expect_eq hinit, hdiff]
  unfold countGap
  by_cases hzero : ahead = 0
  · rw [hzero, if_neg fun hc => hc.1 rfl]
    rfl
  · rw [if_pos ⟨fun hc => hzero (Int.ofNat.inj hc), hup⟩, if_neg hzero]
    rfl

theorem pending_counted (h : Pending n s rest) (counter : Nat) : Pending n (s.counted counter) rest := by
  obtain ⟨hsum, hcount, -, -⟩ := counted_sums s counter
  refine ⟨?_, ?_⟩
  · rw [hsum]
    exact h.sum
  · rw [hcount]
    exact h.count

theorem processDataPacket_averages (h : Pending 4 s rest) (counter : Nat) (v : Channels F)
    (isValid gate : Bool) :
    ∃ rest', Averages rest (if isValid ∧ gate ∧ ¬ s.Duplicate counter then [v] else [])
      (s.processDataPacket counter v isValid gate).2 rest' ∧
      Pending 4 (s.processDataPacket counter v isValid gate).1 rest' := by
  have hkeep : Averages rest [] (none : Option (PushUpdate F)) rest := by
    have hholds : Averages rest [] (none : Option (PushUpdate F)) (rest ++ []) := .holds
    rwa [List.append_nil] at hholds
  by_cases hdup : s.Duplicate counter
  · rw [processDataPacket_duplicate hdup, if_neg fun hc => hc.2.2 hdup]
    exact ⟨rest, hkeep, h.sum, h.count⟩
  · rw [processDataPacket_of_not_duplicate hdup]
    have hcounted := pending_counted h counter
    cases gate with
    | false =>
      rw [if_neg fun hc => Bool.false_ne_true hc.2.1]
      exact ⟨rest, hkeep, hcounted⟩
    | true =>
      obtain ⟨rest', haverages, hpending⟩ := average_averages hcounted v isValid
      refine ⟨rest', ?_, hpending⟩
      have hiff : (isValid = true ∧ true = true ∧ ¬ s.Duplicate counter) ↔ isValid = true :=
        ⟨fun hc => hc.1, fun hc => ⟨hc, rfl, hdup⟩⟩
      rwa [if_congr hiff rfl rfl]

/-- The pass takes a sample. -/
def Takes (s : ReaderState F) (outcome : ReadOutcome) (counter : Nat) (gate : Bool) : Prop :=
  outcome = .goodPacket ∧ gate = true ∧ ¬ s.Duplicate counter

instance (s : ReaderState F) (outcome : ReadOutcome) (counter : Nat) (gate : Bool) :
    Decidable (s.Takes outcome counter gate) := inferInstanceAs (Decidable (_ ∧ _ ∧ _))

theorem verdict_zero (h : s.badPacketCount = 0) (push : Option (PushUpdate F)) (counter : Nat)
    (v : Channels F) (gate : Bool) :
    s.verdict push counter v gate = ({ s with isCommunicating := true, readTimeoutSecs := 5 }, push) :=
  if_pos h

theorem verdict_one (h : s.badPacketCount = 1) (push : Option (PushUpdate F)) (counter : Nat)
    (v : Channels F) (gate : Bool) : s.verdict push counter v gate = (s, push) := by
  unfold verdict
  rw [if_neg (by omega), if_neg (by omega)]

/-- A pass that reads no good packet takes no sample. -/
theorem verdict_averages (h : Pending 4 s rest) (counter : Nat) (v : Channels F) (gate : Bool) :
    ∃ rest', Averages rest [] (s.verdict none counter v gate).2 rest' ∧
      Pending 4 (s.verdict none counter v gate).1 rest' := by
  have hkeep : Averages rest [] (none : Option (PushUpdate F)) (rest ++ []) := .holds
  rw [List.append_nil] at hkeep
  unfold verdict
  by_cases hgood : s.badPacketCount = 0
  · rw [if_pos hgood]
    exact ⟨rest, hkeep, h.sum, h.count⟩
  · rw [if_neg hgood]
    by_cases hdown : 2 ≤ s.badPacketCount
    · rw [if_pos hdown]
      have hpending : Pending 4 { s with isCommunicating := false } rest := ⟨h.sum, h.count⟩
      obtain ⟨rest', haverages, hrest⟩ := processDataPacket_averages hpending counter v false gate
      rw [if_neg fun hc => Bool.false_ne_true hc.1] at haverages
      exact ⟨rest', haverages, hrest⟩
    · rw [if_neg hdown]
      exact ⟨rest, hkeep, h⟩

theorem readPass_averages (h : Pending 4 s rest) (outcome : ReadOutcome) (counter : Nat) (v : Channels F)
    (gate : Bool) :
    ∃ rest', Averages rest (if s.Takes outcome counter gate then [v] else [])
      (s.readPass outcome counter v gate).2 rest' ∧ Pending 4 (s.readPass outcome counter v gate).1 rest' := by
  have hfailed (hout : outcome ≠ .goodPacket) (ht : Pending 4 (s.count outcome counter v gate).1 rest)
      (hcount : (s.count outcome counter v gate).2 = none) :
      ∃ rest', Averages rest (if s.Takes outcome counter gate then [v] else [])
        (s.readPass outcome counter v gate).2 rest' ∧
        Pending 4 (s.readPass outcome counter v gate).1 rest' := by
    unfold readPass
    dsimp only
    rw [hcount, if_neg fun hc => hout hc.1]
    exact verdict_averages ht counter v gate
  cases outcome with
  | goodPacket =>
    have hpending : Pending 4 { s with stats.goodCount := s.stats.goodCount + 1 } rest := ⟨h.sum, h.count⟩
    obtain ⟨rest', haverages, hrest⟩ := processDataPacket_averages hpending counter v true gate
    refine ⟨rest', ?_, hrest.sum, hrest.count⟩
    have hiff : s.Takes .goodPacket counter gate ↔
        (true = true ∧ gate = true ∧
          ¬ { s with stats.goodCount := s.stats.goodCount + 1 }.Duplicate counter) :=
      ⟨fun hc => ⟨rfl, hc.2⟩, fun hc => ⟨rfl, hc.2⟩⟩
    rw [if_congr hiff rfl rfl]
    exact haverages
  | partialRead => exact hfailed (by decide) h rfl
  | badPreamble => exact hfailed (by decide) ⟨h.sum, h.count⟩ rfl
  | timeout => exact hfailed (by decide) ⟨h.sum, h.count⟩ rfl
  | readError => exact hfailed (by decide) ⟨h.sum, h.count⟩ rfl

/-- A good packet that is no repeat is counted, and is one more of its group or the last one. -/
theorem readPass_good {size counter : Nat} (h : Throttled n size s rest) (hv : Agree n v w)
    (hnew : ¬ s.Duplicate counter) (hlo : -2 ^ 31 < s.pvThrottle) (hhi : s.pvThrottle < 2 ^ 31) :
    ∃ t push, s.readPass .goodPacket counter v true = (t, push) ∧
      t.isCommunicating = true ∧ t.badPacketCount = 0 ∧ t.measCountInitialized = true ∧
      t.expectedMeasValueCounter = (counter + 1) % 2 ^ 32 ∧
      t.stats = ({ s with stats.goodCount := s.stats.goodCount + 1 }.counted counter).stats ∧
      ((rest.length + 1 < size ∧ push = none ∧ Throttled n size t (rest ++ [w])) ∨
       (rest.length + 1 = size ∧ ∃ u, push = some u ∧ u.valid = true ∧
          Agree n u.values (averageOf (rest ++ [w])) ∧ Throttled n (groupSize s.pvThrottle) t [])) := by
  have hprocess : { s with stats.goodCount := s.stats.goodCount + 1 }.processDataPacket counter v true true =
      ({ s with stats.goodCount := s.stats.goodCount + 1 }.counted counter).average v true := by
    rw [processDataPacket_of_not_duplicate (s := { s with stats.goodCount := s.stats.goodCount + 1 }) hnew]
    exact if_pos rfl
  have hpass : s.readPass .goodPacket counter v true =
      ({ (({ s with stats.goodCount := s.stats.goodCount + 1 }.counted counter).average v true).1 with
          badPacketCount := 0, isCommunicating := true, readTimeoutSecs := 5 },
        (({ s with stats.goodCount := s.stats.goodCount + 1 }.counted counter).average v true).2) := by
    rw [← hprocess]
    rfl
  obtain ⟨hstats, hinit, hexpected⟩ :=
    average_keeps ({ s with stats.goodCount := s.stats.goodCount + 1 }.counted counter) v true
  obtain ⟨hsum, hcount, hcounter, hthrottle⟩ :=
    counted_sums { s with stats.goodCount := s.stats.goodCount + 1 } counter
  have hcounted : Throttled n size ({ s with stats.goodCount := s.stats.goodCount + 1 }.counted counter) rest :=
    h.congr hsum hcount hcounter
  rw [hpass]
  refine ⟨_, _, rfl, rfl, rfl, hinit.trans (counted_initialized _ counter), hexpected, hstats, ?_⟩
  refine (average_throttled hcounted hv (hthrottle.symm ▸ hlo) (hthrottle.symm ▸ hhi)).imp ?_ ?_
  · rintro ⟨hshort, hpush, ht⟩
    exact ⟨hshort, hpush, ht.congr rfl rfl rfl⟩
  · rintro ⟨hlast, u, hpush, hvalid, hvalues, ht⟩
    rw [hthrottle] at ht
    exact ⟨hlast, u, hpush, hvalid, hvalues, ht.congr rfl rfl rfl⟩

/-- A repeat is only counted. -/
theorem readPass_duplicate {counter : Nat} (h : s.Duplicate counter) (v : Channels F) (gate : Bool) :
    s.readPass .goodPacket counter v gate =
      ({ s with
          stats.goodCount := s.stats.goodCount + 1
          stats.duplicateCount := s.stats.duplicateCount + 1
          badPacketCount := 0
          isCommunicating := true
          readTimeoutSecs := 5 }, none) := by
  have hprocess : { s with stats.goodCount := s.stats.goodCount + 1 }.processDataPacket counter v true gate = _ :=
    processDataPacket_duplicate (s := { s with stats.goodCount := s.stats.goodCount + 1 }) h true gate
  unfold readPass count
  dsimp only
  rw [hprocess]
  rfl

end ReaderState

end MicroEpsilon
