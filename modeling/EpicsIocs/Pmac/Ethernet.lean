import EpicsIocs.Lib.Bytes
import EpicsIocs.Lib.Steps

/-! # Replies over the ethernet framing

`PmacIpInterpose` of `ethernet.rs`: commands go out framed, and the reply and the answers to
READREADY share one stream, which TCP may cut and delay.

What the reads give until the terminator is the reply, with an ACK behind the CR of an error or
a control reply, and no byte is taken for one of the other kind (`reads_give_reply`), as long as
each probe goes out with nothing on its way and its answer arrives whole, and no read starts in
the middle of an error or a control reply. -/

namespace Pmac

open Bytes Steps

/-! ## The code -/

def ethernetDataSize : Nat := 1492
def inputSize : Nat := ethernetDataSize + 1
def headerLen : Nat := 8

def stx : UInt8 := 0x02
def ack : UInt8 := 0x06
def bell : UInt8 := 0x07
def cr : UInt8 := 0x0d
def lf : UInt8 := 0x0a

def ctrlCommands : List UInt8 := [0x02, 0x03, 0x06, 0x07, 0x0e, 0x12]

def vrUpload : UInt8 := 0xc0
def vrDownload : UInt8 := 0x40

def vrPmacGetresponse : UInt8 := 0xbf
def vrPmacReadready : UInt8 := 0xc2
def vrCtrlResponse : UInt8 := 0xc4
def vrPmacGetbuffer : UInt8 := 0xc5

/-- `wLength` alone is in network order. -/
def header (requestType request : UInt8) (wValue wIndex wLength : Nat) : List UInt8 :=
  [requestType, request] ++ leBytes 2 wValue ++ leBytes 2 wIndex ++ beBytes 2 wLength

def frameCommand (data : List UInt8) : List UInt8 :=
  let n := min data.length ethernetDataSize
  header vrDownload vrPmacGetresponse 0 0 n ++ data.take n

def frameCtrl (c : UInt8) : List UInt8 := header vrUpload vrCtrlResponse c.toNat 0 0

/-- What goes out for a write. -/
def frame (data : List UInt8) : List UInt8 :=
  match data with
  | [c] => if c ∈ ctrlCommands then frameCtrl c else frameCommand [c]
  | _ => frameCommand data

/-- What a byte on the stream is. -/
inductive Origin where
  | data
  | ready
  deriving DecidableEq, Repr

/-- The layer below, and the PMAC behind it: what the PMAC holds of the reply and what is on the
stream, how many bytes arrive in time for each read to come and what is answered to each probe.
`probes` counts the bytes on their way when a probe goes out, and the bytes of its answer that its
read gives; `asData` and `asReady` are the bytes taken for the one and for the other. -/
structure Wire where
  rest : List UInt8 := []
  stream : List (Origin × UInt8) := []
  arrivals : List Nat := []
  answers : List (UInt8 × UInt8) := []
  probes : List (Nat × Nat) := []
  asData : List Origin := []
  asReady : List Origin := []
  deriving DecidableEq, Repr

namespace Wire

/-- The PMAC gets a request. -/
def write (w : Wire) (packet : List UInt8) : Wire :=
  if packet[1]? = some vrPmacReadready then
    let answer := w.answers.headD (0, 0)
    { w with
      stream := w.stream ++ [(.ready, answer.1), (.ready, answer.2)], answers := w.answers.tail }
  else if packet[1]? = some vrPmacGetbuffer then
    { w with stream := w.stream ++ w.rest.map (Origin.data, ·), rest := [] }
  else w

/-- What has arrived, up to `n` bytes; no byte is a timeout. -/
def read (w : Wire) (n : Nat) : List (Origin × UInt8) × Wire :=
  (w.stream.take (min (w.arrivals.headD 0) n),
    { w with
      stream := w.stream.drop (min (w.arrivals.headD 0) n), arrivals := w.arrivals.tail })

end Wire

/-- Whether the PMAC says it has data waiting. -/
def readReady (w : Wire) : Bool × Wire :=
  let r := (w.write (header vrUpload vrPmacReadready 0 0 2)).read 2
  (decide (r.1.length = 2) && decide ((r.1.map Prod.snd).headD 0 ≠ 0),
    { r.2 with
      probes := w.probes ++ [(w.stream.length, r.1.length)]
      asReady := w.asReady ++ r.1.map Prod.fst })

def getBuffer (w : Wire) (maxchars : Nat) : Wire :=
  w.write (header vrUpload vrPmacGetbuffer 0 0 (min maxchars 65535))

def readData (w : Wire) (maxchars : Nat) : List UInt8 × Wire :=
  let r := w.read maxchars
  (r.1.map Prod.snd, { r.2 with asData := w.asData ++ r.1.map Prod.fst })

/-- The bytes read, none of them when the read timed out; `timed` is whether the caller has a
timeout. -/
def readResponse (timed : Bool) (w : Wire) (maxchars : Nat) : List UInt8 × Wire :=
  let maxchars := min maxchars inputSize
  if maxchars = 0 then ([], w)
  else
    let r := readData w maxchars
    if r.1 = [] ∧ timed then
      let ready := readReady r.2
      if ready.1 then readData (getBuffer ready.2 maxchars) maxchars else ([], ready.2)
    else r

/-- The empty buffer refilled. -/
def refill (timed initialRead : Bool) (w : Wire) (maxchars : Nat) : List UInt8 × Wire :=
  if initialRead then readResponse timed w maxchars
  else
    let ready := readReady w
    readResponse timed (if ready.1 then getBuffer ready.2 maxchars else ready.2) maxchars

/-- What a read gives: the bytes, the input buffer's bytes left, whether it timed out. -/
structure ReadResult where
  bytes : List UInt8
  inBuf : List UInt8
  timedOut : Bool
  wire : Wire
  deriving DecidableEq, Repr

def ReadResult.cons (c : UInt8) (r : ReadResult) : ReadResult := { r with bytes := c :: r.bytes }

/-- `room` is what the caller's buffer still takes; `belled` is whether this read has given a BELL
or a STX. -/
def readLoop (timed : Bool) : (room : Nat) → List UInt8 → (belled initialRead : Bool) → Wire →
    ReadResult
  | 0, inBuf, _, _, w => ⟨[], inBuf, false, w⟩
  | room + 1, inBuf, belled, initialRead, w =>
    let filled := if inBuf = [] then refill timed initialRead w (room + 1) else (inBuf, w)
    let initialRead := initialRead && decide (inBuf ≠ [])
    match filled.1 with
    | [] => ⟨[], [], true, filled.2⟩
    | c :: inBuf =>
      let belled := belled || decide (c = bell ∨ c = stx)
      if c = cr ∧ belled then
        -- Where there is no room for both, the ACK takes the place of the CR.
        ⟨if room = 0 then [ack] else [cr, ack], inBuf, false, filled.2⟩
      else if c = ack ∨ c = lf then ⟨[ack], inBuf, false, filled.2⟩
      else (readLoop timed room inBuf belled initialRead filled.2).cons c

def read (timed : Bool) (inBuf : List UInt8) (size : Nat) (w : Wire) : ReadResult :=
  readLoop timed size inBuf false true w

/-! ## Replies -/

/-- A BELL or a STX in front of a reply that a CR ends, or none where an ACK does. -/
structure Reply where
  mark : Option UInt8
  payload : List UInt8
  mark_eq : ∀ c ∈ mark, c = bell ∨ c = stx
  plain : ∀ c ∈ payload, c ≠ ack ∧ c ≠ lf ∧ c ≠ bell ∧ c ≠ stx
  no_cr : mark.isSome → cr ∉ payload

namespace Reply

/-- What the PMAC sends. -/
def bytes (r : Reply) : List UInt8 :=
  match r.mark with
  | some c => c :: r.payload ++ [cr]
  | none => r.payload ++ [ack]

/-- What the caller is to get. -/
def message (r : Reply) : List UInt8 :=
  match r.mark with
  | some _ => r.bytes ++ [ack]
  | none => r.bytes

/-- The ACK in the place of the CR. -/
def cut (r : Reply) : List UInt8 := r.bytes.dropLast ++ [ack]

end Reply

/-! ## Runs -/

/-- The layer with the wire below it, the last command's reply and what the reads since have
given, each with the size of its buffer. -/
structure Conn where
  inBuf : List UInt8 := []
  wire : Wire := {}
  reply : Option Reply := none
  reads : List (Nat × List UInt8) := []

namespace Conn

def delivered (s : Conn) : List UInt8 := s.reads.flatMap Prod.snd

/-- What is still to be delivered, wherever it is. -/
def left (s : Conn) : List UInt8 := s.inBuf ++ s.wire.stream.map Prod.snd ++ s.wire.rest

/-- The terminator has been delivered. -/
def Terminated (s : Conn) : Prop := s.delivered.getLast? = some ack

end Conn

/-- A command goes out and the PMAC sends as much of the reply as `sent`; or the caller reads. -/
inductive Event where
  | command (data : List UInt8) (reply : Reply) (sent : Nat)
  | read (timed : Bool) (size : Nat) (arrivals : List Nat) (answers : List (UInt8 × UInt8))

namespace Conn

def result (s : Conn) (timed : Bool) (size : Nat) (arrivals : List Nat)
    (answers : List (UInt8 × UInt8)) : ReadResult :=
  Pmac.read timed s.inBuf size { s.wire with arrivals, answers, probes := [] }

def after (s : Conn) : Event → Conn
  | .command data reply sent =>
    let wire := s.wire.write (frame data)
    { s with
      wire := { wire with
        stream := wire.stream ++ (reply.bytes.take sent).map (Origin.data, ·)
        rest := reply.bytes.drop sent }
      reply := some reply
      reads := [] }
  | .read timed size arrivals answers =>
    let r := s.result timed size arrivals answers
    { s with inBuf := r.inBuf, wire := r.wire, reads := s.reads ++ [(size, r.bytes)] }

end Conn

def conns : System Conn Event where
  init s := s = {}
  step s e t := t = s.after e

/-- The caller sends a command when it has the terminator of the one before.  Each probe of a read
goes out with nothing on its way and its answer arrives whole, and no read starts in the middle of
a reply that a CR ends. -/
def Undisturbed (s : Conn) : Event → Prop
  | .command _ _ _ => s.reply.isSome → s.Terminated
  | .read timed size arrivals answers =>
    (∀ p ∈ (s.result timed size arrivals answers).wire.probes, p = (0, 2)) ∧
      ∀ r ∈ s.reply, r.mark.isSome → s.delivered ≠ [] → s.Terminated

/-! ## The wire -/

/-- Of the reply only these bytes are left on the wire, and no byte was taken for another. -/
structure Wire.Carries (w : Wire) (left : List UInt8) : Prop where
  bytes : w.stream.map Prod.snd ++ w.rest = left
  data : ∀ x ∈ w.stream, x.1 = .data
  asData : ∀ o ∈ w.asData, o = .data
  asReady : ∀ o ∈ w.asReady, o = .ready

/-- Probes that went out with nothing on its way and were answered whole. -/
def Wire.Clean (w : Wire) : Prop := ∀ p ∈ w.probes, p = (0, 2)

theorem Wire.Clean.of_append {w w' : Wire} {more : List (Nat × Nat)} (h : w'.Clean)
    (heq : w'.probes = w.probes ++ more) : w.Clean :=
  fun p hp => h p (heq ▸ List.mem_append_left _ hp)

section
variable {w : Wire} {left : List UInt8}

theorem getBuffer_carries (h : w.Carries left) (maxchars : Nat) :
    (getBuffer w maxchars).Carries left := by
  have hwrite : getBuffer w maxchars =
      { w with stream := w.stream ++ w.rest.map (Origin.data, ·), rest := [] } := rfl
  rw [hwrite]
  refine ⟨?_, fun x hx => ?_, h.asData, h.asReady⟩
  · rw [← h.bytes]
    simp
  · obtain hx | hx := List.mem_append.1 hx
    · exact h.data x hx
    · obtain ⟨c, -, rfl⟩ := List.mem_map.1 hx
      rfl

@[simp] theorem probes_getBuffer (w : Wire) (maxchars : Nat) :
    (getBuffer w maxchars).probes = w.probes := rfl

@[simp] theorem probes_readData (w : Wire) (maxchars : Nat) :
    (readData w maxchars).2.probes = w.probes := rfl

/-- What is read off the wire is the front of what is left. -/
theorem readData_carries (h : w.Carries left) (maxchars : Nat) :
    ∃ left', left = (readData w maxchars).1 ++ left' ∧ (readData w maxchars).2.Carries left' := by
  refine ⟨(w.stream.drop (min (w.arrivals.headD 0) maxchars)).map Prod.snd ++ w.rest, ?_, rfl,
    fun x hx => h.data x (List.mem_of_mem_drop hx), fun o ho => ?_, h.asReady⟩
  · rw [← h.bytes, ← List.append_assoc]
    show _ = (w.stream.take _).map Prod.snd ++ (w.stream.drop _).map Prod.snd ++ w.rest
    rw [← List.map_append, List.take_append_drop]
  · obtain ho | ho := List.mem_append.1 ho
    · exact h.asData o ho
    · obtain ⟨x, hx, rfl⟩ := List.mem_map.1 ho
      exact h.data x (List.mem_of_mem_take hx)

theorem probes_readReady (w : Wire) :
    ∃ more, (readReady w).2.probes = w.probes ++ more := ⟨_, rfl⟩

/-- A probe with nothing on its way that is answered whole takes its answer. -/
theorem readReady_carries (h : w.Carries left) (hclean : (readReady w).2.Clean) :
    (readReady w).2.Carries left := by
  have hprobe := hclean _ (List.mem_append_right _ (List.mem_singleton.2 rfl))
  have hstream : w.stream = [] := List.length_eq_zero_iff.1 (Prod.mk.inj hprobe).1
  have harrived := (Prod.mk.inj hprobe).2
  have hlength : (List.take (min (w.arrivals.headD 0) 2)
      (w.stream ++ [(Origin.ready, (w.answers.headD (0, 0)).1),
        (Origin.ready, (w.answers.headD (0, 0)).2)])).length = 2 := harrived
  rw [hstream, List.nil_append, List.length_take] at hlength
  have hall : min (w.arrivals.headD 0) 2 = 2 := by
    have hle : min (min (w.arrivals.headD 0) 2) 2 = 2 := hlength
    omega
  have hafter : (readReady w).2 =
      { w with
        stream := []
        arrivals := w.arrivals.tail
        answers := w.answers.tail
        probes := (readReady w).2.probes
        asReady := w.asReady ++ [.ready, .ready] } := by
    unfold readReady Wire.read
    show Wire.mk _ (List.drop (min (w.arrivals.headD 0) 2) (w.stream ++ _)) _ _ _ _
      (w.asReady ++ (List.take (min (w.arrivals.headD 0) 2) (w.stream ++ _)).map Prod.fst) = _
    rw [hall, hstream]
    rfl
  rw [hafter]
  refine ⟨?_, fun x hx => (by cases hx), h.asData, fun o ho => ?_⟩
  · rw [← h.bytes, hstream]
  · obtain ho | ho := List.mem_append.1 ho
    · exact h.asReady o ho
    · simpa using ho

variable (timed : Bool)

theorem probes_readResponse (w : Wire) (maxchars : Nat) :
    ∃ more, (readResponse timed w maxchars).2.probes = w.probes ++ more := by
  unfold readResponse
  simp only
  split
  · exact ⟨[], (List.append_nil _).symm⟩
  · split
    · split
      · exact ⟨_, rfl⟩
      · exact ⟨_, rfl⟩
    · exact ⟨[], (List.append_nil _).symm⟩

theorem readResponse_carries (h : w.Carries left) (maxchars : Nat)
    (hclean : (readResponse timed w maxchars).2.Clean) :
    ∃ left', left = (readResponse timed w maxchars).1 ++ left' ∧
      (readResponse timed w maxchars).2.Carries left' := by
  unfold readResponse at hclean ⊢
  simp only at hclean ⊢
  by_cases hzero : min maxchars inputSize = 0
  · rw [if_pos hzero]
    exact ⟨left, rfl, h⟩
  · rw [if_neg hzero] at hclean ⊢
    obtain ⟨left', hleft, hdata⟩ := readData_carries h (min maxchars inputSize)
    by_cases hprobe : (readData w (min maxchars inputSize)).1 = [] ∧ timed
    · rw [if_pos hprobe] at hclean ⊢
      rw [hprobe.1, List.nil_append] at hleft
      subst hleft
      by_cases hready : (readReady (readData w (min maxchars inputSize)).2).1
      · rw [if_pos hready] at hclean ⊢
        exact readData_carries (getBuffer_carries (readReady_carries hdata hclean) _) _
      · rw [if_neg hready] at hclean ⊢
        exact ⟨left, rfl, readReady_carries hdata hclean⟩
    · rw [if_neg hprobe] at hclean ⊢
      exact ⟨left', hleft, hdata⟩

theorem probes_refill (initialRead : Bool) (w : Wire) (maxchars : Nat) :
    ∃ more, (refill timed initialRead w maxchars).2.probes = w.probes ++ more := by
  unfold refill
  split
  · exact probes_readResponse timed w maxchars
  · obtain ⟨asked, hasked⟩ := probes_readReady w
    obtain ⟨more, hmore⟩ := probes_readResponse timed
      (if (readReady w).1 then getBuffer (readReady w).2 maxchars else (readReady w).2) maxchars
    refine ⟨asked ++ more, ?_⟩
    show (readResponse timed _ maxchars).2.probes = _
    rw [hmore, ← List.append_assoc, ← hasked]
    congr 1
    split
    · rfl
    · rfl

/-- A refill gives the front of what is left. -/
theorem refill_carries (h : w.Carries left) (initialRead : Bool) (maxchars : Nat)
    (hclean : (refill timed initialRead w maxchars).2.Clean) :
    ∃ left', left = (refill timed initialRead w maxchars).1 ++ left' ∧
      (refill timed initialRead w maxchars).2.Carries left' := by
  unfold refill at hclean ⊢
  by_cases hinitial : initialRead = true
  · rw [if_pos hinitial] at hclean ⊢
    exact readResponse_carries timed h maxchars hclean
  · rw [if_neg hinitial] at hclean ⊢
    obtain ⟨more, hmore⟩ := probes_readResponse timed
      (if (readReady w).1 then getBuffer (readReady w).2 maxchars else (readReady w).2) maxchars
    have hasked : (readReady w).2.Clean := by
      have hbefore := Wire.Clean.of_append hclean hmore
      split at hbefore
      · exact hbefore
      · exact hbefore
    have hcarries := readReady_carries h hasked
    refine readResponse_carries timed ?_ maxchars hclean
    split
    · exact getBuffer_carries hcarries _
    · exact hcarries

end

/-! ## One read -/

namespace Reply

variable {r : Reply} {taken more : List UInt8} {c : UInt8}

/-- A byte of a reply that an ACK ends. -/
theorem byte_of_lines (hmark : r.mark = none) (h : taken ++ c :: more = r.bytes) :
    (c = ack ∧ more = []) ∨ (c ∈ r.payload ∧ more ≠ []) := by
  rw [bytes, hmark] at h
  obtain rfl | ⟨more, last, rfl⟩ := more.eq_nil_or_concat
  · obtain ⟨-, hc⟩ := List.append_inj' h rfl
    exact .inl ⟨(List.cons.inj hc).1, rfl⟩
  · refine .inr ⟨?_, by simp⟩
    rw [List.concat_eq_append, ← List.cons_append, ← List.append_assoc] at h
    obtain ⟨hpayload, -⟩ := List.append_inj' h rfl
    rw [← hpayload]
    simp

/-- A byte of a reply that a CR ends: the mark, the CR or one between them. -/
theorem byte_of_mark {m : UInt8} (hmark : r.mark = some m) (h : taken ++ c :: more = r.bytes) :
    (taken = [] ∧ c = m ∧ more ≠ []) ∨ (taken ≠ [] ∧ c = cr ∧ more = []) ∨
      (taken ≠ [] ∧ c ∈ r.payload ∧ more ≠ []) := by
  rw [bytes, hmark] at h
  cases taken with
  | nil =>
    obtain ⟨hc, hmore⟩ := List.cons.inj h
    refine .inl ⟨rfl, hc, ?_⟩
    rw [hmore]
    simp
  | cons first taken =>
    refine .inr ?_
    have h : taken ++ c :: more = r.payload ++ [cr] := (List.cons.inj h).2
    obtain rfl | ⟨more, last, rfl⟩ := more.eq_nil_or_concat
    · obtain ⟨-, hc⟩ := List.append_inj' h rfl
      exact .inl ⟨by simp, (List.cons.inj hc).1, rfl⟩
    · refine .inr ⟨by simp, ?_, by simp⟩
      rw [List.concat_eq_append, ← List.cons_append, ← List.append_assoc] at h
      obtain ⟨hpayload, -⟩ := List.append_inj' h rfl
      rw [← hpayload]
      simp

/-- What the loop does with a byte: the last one of the reply ends it and no other does. -/
theorem byte_cases {belled : Bool} (hbelled : belled = true ↔ r.mark.isSome ∧ taken ≠ [])
    (h : taken ++ c :: more = r.bytes) :
    ((belled || decide (c = bell ∨ c = stx)) = true ↔ r.mark.isSome = true) ∧
      ((c = cr ∧ r.mark.isSome ∧ more = []) ∨ (c = ack ∧ r.mark = none ∧ more = []) ∨
        (¬(c = cr ∧ r.mark.isSome) ∧ ¬(c = ack ∨ c = lf) ∧ more ≠ [])) := by
  cases hmark : r.mark with
  | none =>
    have hfalse : belled = false := by
      by_contra hne
      have hsome := (hbelled.1 (by simpa using hne)).1
      rw [hmark] at hsome
      cases hsome
    obtain ⟨rfl, hmore⟩ | ⟨hc, hmore⟩ := byte_of_lines hmark h
    · exact ⟨by simp [hfalse, ack, bell, stx], .inr (.inl ⟨rfl, rfl, hmore⟩)⟩
    · obtain ⟨hack, hlf, hbell, hstx⟩ := r.plain c hc
      exact ⟨by simp [hfalse, hbell, hstx], .inr (.inr ⟨by simp, by simp [hack, hlf], hmore⟩)⟩
  | some m =>
    have hm := r.mark_eq m hmark
    obtain ⟨htaken, rfl, hmore⟩ | ⟨htaken, rfl, hmore⟩ | ⟨htaken, hc, hmore⟩ :=
      byte_of_mark hmark h
    · refine ⟨by simp [hm], .inr (.inr ⟨fun hcr => ?_, fun hend => ?_, hmore⟩)⟩
      · obtain rfl | rfl := hm
        · exact absurd hcr.1 (by decide)
        · exact absurd hcr.1 (by decide)
      · obtain rfl | rfl := hm
        · exact absurd hend (by decide)
        · exact absurd hend (by decide)
    · have htrue : belled = true := hbelled.2 ⟨by simp [hmark], htaken⟩
      exact ⟨by simp [htrue], .inl ⟨rfl, rfl, hmore⟩⟩
    · have htrue : belled = true := hbelled.2 ⟨by simp [hmark], htaken⟩
      obtain ⟨hack, hlf, -, -⟩ := r.plain c hc
      refine ⟨by simp [htrue], .inr (.inr ⟨fun hcr => ?_, by simp [hack, hlf], hmore⟩)⟩
      exact r.no_cr (by simp [hmark]) (hcr.1 ▸ hc)

end Reply

section
variable {r : Reply} (timed : Bool)

theorem probes_filled (inBuf : List UInt8) (initialRead : Bool) (w : Wire) (maxchars : Nat) :
    ∃ more, (if inBuf = [] then refill timed initialRead w maxchars else (inBuf, w)).2.probes =
      w.probes ++ more := by
  split
  · exact probes_refill timed initialRead w maxchars
  · exact ⟨[], (List.append_nil _).symm⟩

theorem probes_readLoop (room : Nat) (inBuf : List UInt8) (belled initialRead : Bool) (w : Wire) :
    ∃ more, (readLoop timed room inBuf belled initialRead w).wire.probes = w.probes ++ more := by
  induction room generalizing inBuf belled initialRead w with
  | zero => exact ⟨[], (List.append_nil _).symm⟩
  | succ room ih =>
    obtain ⟨more, hmore⟩ := probes_filled timed inBuf initialRead w (room + 1)
    unfold readLoop
    simp only
    cases hfilled : (if inBuf = [] then refill timed initialRead w (room + 1) else (inBuf, w)).1 with
    | nil => exact ⟨more, hmore⟩
    | cons c tail =>
      simp only
      split
      · exact ⟨more, hmore⟩
      · split
        · exact ⟨more, hmore⟩
        · obtain ⟨later, hlater⟩ := ih tail (belled || decide (c = bell ∨ c = stx))
            (initialRead && decide (inBuf ≠ []))
            (if inBuf = [] then refill timed initialRead w (room + 1) else (inBuf, w)).2
          refine ⟨more ++ later, ?_⟩
          rw [← List.append_assoc, ← hmore]
          exact hlater

theorem filled_carries (inBuf : List UInt8) {left : List UInt8} {w : Wire} (h : w.Carries left)
    (initialRead : Bool) (maxchars : Nat)
    (hclean : (if inBuf = [] then refill timed initialRead w maxchars else (inBuf, w)).2.Clean) :
    ∃ left', inBuf ++ left =
        (if inBuf = [] then refill timed initialRead w maxchars else (inBuf, w)).1 ++ left' ∧
      (if inBuf = [] then refill timed initialRead w maxchars else (inBuf, w)).2.Carries left' := by
  by_cases hempty : inBuf = []
  · rw [if_pos hempty] at hclean ⊢
    rw [hempty]
    exact refill_carries timed h initialRead maxchars hclean
  · rw [if_neg hempty]
    exact ⟨left, rfl, h⟩

/-- A read in the middle of a reply gives the next bytes of it, or all and the terminator. -/
theorem readLoop_gives (room : Nat) {inBuf taken left : List UInt8} {belled initialRead : Bool}
    {w : Wire} (hreply : taken ++ (inBuf ++ left) = r.bytes) (hw : w.Carries left)
    (hbelled : belled = true ↔ r.mark.isSome ∧ taken ≠ []) (hmore : inBuf ++ left ≠ [])
    (hclean : (readLoop timed room inBuf belled initialRead w).wire.Clean) :
    (∃ left', (readLoop timed room inBuf belled initialRead w).wire.Carries left' ∧
        (readLoop timed room inBuf belled initialRead w).inBuf ++ left' ≠ [] ∧
        taken ++ (readLoop timed room inBuf belled initialRead w).bytes ++
          ((readLoop timed room inBuf belled initialRead w).inBuf ++ left') = r.bytes) ∨
      ((readLoop timed room inBuf belled initialRead w).wire.Carries [] ∧
        (readLoop timed room inBuf belled initialRead w).inBuf = [] ∧
        (taken ++ (readLoop timed room inBuf belled initialRead w).bytes = r.message ∨
          (readLoop timed room inBuf belled initialRead w).bytes.length = room ∧ r.mark.isSome ∧
            taken ++ (readLoop timed room inBuf belled initialRead w).bytes = r.cut)) := by
  induction room generalizing inBuf taken left belled initialRead w with
  | zero => exact .inl ⟨left, hw, hmore, by simpa [readLoop] using hreply⟩
  | succ room ih =>
    unfold readLoop at hclean ⊢
    simp only at hclean ⊢
    have hfilled := filled_carries timed inBuf hw initialRead (room + 1)
    generalize (if inBuf = [] then refill timed initialRead w (room + 1) else (inBuf, w)) = filled
      at hclean hfilled ⊢
    obtain ⟨bytes, wire⟩ := filled
    cases bytes with
    | nil =>
      obtain ⟨left', hleft, hcarries⟩ := hfilled hclean
      refine .inl ⟨left', hcarries, ?_, ?_⟩
      · rw [← hleft]
        exact hmore
      · rw [List.append_nil, ← hleft]
        exact hreply
    | cons c tail =>
      simp only at hclean hfilled ⊢
      have hclean' : wire.Clean := by
        split at hclean
        · exact hclean
        · split at hclean
          · exact hclean
          · obtain ⟨later, hlater⟩ := probes_readLoop timed room tail
              (belled || decide (c = bell ∨ c = stx)) (initialRead && decide (inBuf ≠ [])) wire
            exact hclean.of_append hlater
      obtain ⟨left', hleft, hcarries⟩ := hfilled hclean'
      rw [hleft] at hreply
      obtain ⟨hmark, hend⟩ := Reply.byte_cases hbelled hreply
      obtain ⟨hcr, hsome, hnil⟩ | ⟨hack, hnone, hnil⟩ | ⟨hncr, hnack, hne⟩ := hend
      · obtain ⟨rfl, rfl⟩ := List.append_eq_nil_iff.1 hnil
        rw [if_pos ⟨hcr, hmark.2 hsome⟩]
        refine .inr ⟨hcarries, rfl, ?_⟩
        subst hcr
        obtain ⟨m, hm⟩ := Option.isSome_iff_exists.1 hsome
        by_cases hroom : room = 0
        · refine .inr ⟨by simp [hroom], hsome, ?_⟩
          rw [if_pos hroom, Reply.cut, ← hreply]
          simp
        · refine .inl ?_
          rw [if_neg hroom, Reply.message, hm]
          simp [← hreply]
      · obtain ⟨rfl, rfl⟩ := List.append_eq_nil_iff.1 hnil
        subst hack
        rw [if_neg (fun h => absurd h.1 (by decide)), if_pos (.inl rfl)]
        refine .inr ⟨hcarries, rfl, .inl ?_⟩
        rw [Reply.message, hnone]
        exact hreply
      · rw [if_neg (fun h => hncr ⟨h.1, hmark.1 h.2⟩), if_neg hnack] at hclean ⊢
        have hnext : taken ++ [c] ++ (tail ++ left') = r.bytes := by
          rw [← hreply]
          simp
        have hbelled' : (belled || decide (c = bell ∨ c = stx)) = true ↔
            r.mark.isSome ∧ taken ++ [c] ≠ [] := by
          rw [hmark]
          simp
        obtain ⟨left'', hcarries', hne', hrest⟩ | ⟨hcarries', hempty, hdone⟩ :=
          ih hnext hcarries hbelled' hne hclean
        · refine .inl ⟨left'', hcarries', hne', ?_⟩
          rw [← hrest]
          simp [ReadResult.cons]
        · refine .inr ⟨hcarries', hempty, ?_⟩
          obtain hdone | ⟨hlength, hsome, hdone⟩ := hdone
          · refine .inl ?_
            rw [← hdone]
            simp [ReadResult.cons]
          · refine .inr ⟨congrArg Nat.succ hlength, hsome, ?_⟩
            rw [← hdone]
            simp [ReadResult.cons]

/-- Where nothing is left, a read gives nothing. -/
theorem readLoop_empty (room : Nat) {belled initialRead : Bool} {w : Wire} (hw : w.Carries [])
    (hclean : (readLoop timed room [] belled initialRead w).wire.Clean) :
    (readLoop timed room [] belled initialRead w).wire.Carries [] ∧
      (readLoop timed room [] belled initialRead w).inBuf = [] ∧
      (readLoop timed room [] belled initialRead w).bytes = [] := by
  cases room with
  | zero => exact ⟨hw, rfl, rfl⟩
  | succ room =>
    unfold readLoop at hclean ⊢
    simp only [if_pos] at hclean ⊢
    have hfilled := refill_carries timed hw initialRead (room + 1)
    generalize refill timed initialRead w (room + 1) = filled at hclean hfilled ⊢
    obtain ⟨bytes, wire⟩ := filled
    cases bytes with
    | nil =>
      obtain ⟨left', hleft, hcarries⟩ := hfilled hclean
      obtain rfl : left' = [] := hleft.symm
      exact ⟨hcarries, rfl, rfl⟩
    | cons c tail =>
      have hclean' : wire.Clean := by
        simp only at hclean
        split at hclean
        · exact hclean
        · split at hclean
          · exact hclean
          · obtain ⟨later, hlater⟩ := probes_readLoop timed room tail
              (belled || decide (c = bell ∨ c = stx)) (initialRead && decide (([] : List UInt8) ≠ []))
              wire
            exact hclean.of_append hlater
      obtain ⟨left', hleft, -⟩ := hfilled hclean'
      cases hleft

end

/-! ## The runs -/

namespace Reply

variable {r : Reply}

theorem bytes_ne_nil (r : Reply) : r.bytes ≠ [] := by
  unfold bytes
  split
  · simp
  · simp

/-- Before its end a reply has no ACK. -/
theorem no_ack {taken more : List UInt8} (h : taken ++ more = r.bytes) (hmore : more ≠ []) :
    taken.getLast? ≠ some ack := by
  intro hlast
  obtain ⟨front, rfl⟩ := List.getLast?_eq_some_iff.1 hlast
  rw [List.append_assoc, List.singleton_append] at h
  cases hmark : r.mark with
  | none =>
    obtain ⟨-, hnil⟩ | ⟨hmem, -⟩ := byte_of_lines hmark h
    · exact hmore hnil
    · exact (r.plain _ hmem).1 rfl
  | some m =>
    obtain ⟨-, hm, -⟩ | ⟨-, hcr, -⟩ | ⟨-, hmem, -⟩ := byte_of_mark hmark h
    · obtain h | h := r.mark_eq m hmark
      · rw [h] at hm
        exact absurd hm (by decide)
      · rw [h] at hm
        exact absurd hm (by decide)
    · exact absurd hcr (by decide)
    · exact (r.plain _ hmem).1 rfl

theorem message_last (r : Reply) : r.message.getLast? = some ack := by
  unfold message
  split
  · simp
  · rename_i hmark
    simp [bytes, hmark]

theorem cut_last (r : Reply) : r.cut.getLast? = some ack := by simp [cut]

theorem length_cut (r : Reply) : r.cut.length = r.bytes.length := by
  have hpos := List.length_pos_iff.2 r.bytes_ne_nil
  rw [cut, List.length_append, List.length_dropLast, List.length_singleton]
  omega

end Reply

theorem write_frame (w : Wire) (data : List UInt8) : w.write (frame data) = w := by
  have hrequest : (frame data)[1]? = some vrPmacGetresponse ∨
      (frame data)[1]? = some vrCtrlResponse := by
    unfold frame
    split
    · split
      · exact .inr rfl
      · exact .inl rfl
    · exact .inl rfl
  unfold Wire.write
  obtain h | h := hrequest
  · rw [h, if_neg (by decide), if_neg (by decide)]
  · rw [h, if_neg (by decide), if_neg (by decide)]

namespace Conn

/-- Nothing has been lost or added, before the terminator is delivered and after. -/
inductive Accounted (s : Conn) (left : List UInt8) : Prop where
  | idle : s.reply = none → s.inBuf ++ left = [] → Accounted s left
  | under {r : Reply} : s.reply = some r → s.inBuf ++ left ≠ [] →
      s.delivered ++ (s.inBuf ++ left) = r.bytes → Accounted s left
  | given {r : Reply} : s.reply = some r → s.inBuf ++ left = [] →
      (s.delivered = r.message ∨ r.mark.isSome ∧ s.delivered = r.cut ∧
        ∃ read ∈ s.reads, read.2.getLast? = some ack ∧ read.2.length = read.1) →
      Accounted s left

variable {s : Conn} {left : List UInt8}

theorem delivered_read (timed : Bool) (size : Nat) (arrivals : List Nat)
    (answers : List (UInt8 × UInt8)) :
    (s.after (.read timed size arrivals answers)).delivered =
      s.delivered ++ (s.result timed size arrivals answers).bytes := by
  simp [delivered, after]

theorem Accounted.command (h : s.Accounted left) (hw : s.wire.Carries left) {data : List UInt8}
    {reply : Reply} {sent : Nat} (hok : Undisturbed s (.command data reply sent)) :
    ∃ left', (s.after (.command data reply sent)).wire.Carries left' ∧
      (s.after (.command data reply sent)).Accounted left' := by
  have hnothing : s.inBuf ++ left = [] := by
    cases h with
    | idle _ hnil => exact hnil
    | @under r hreply hne hall =>
      exact absurd (hok (by rw [hreply]; rfl)) (Reply.no_ack hall hne)
    | given _ hnil _ => exact hnil
  obtain ⟨hbuf, rfl⟩ := List.append_eq_nil_iff.1 hnothing
  obtain ⟨hstream, hrest⟩ := List.append_eq_nil_iff.1 hw.bytes
  have hstream : s.wire.stream = [] := List.map_eq_nil_iff.1 hstream
  have hwire : (s.after (.command data reply sent)).wire =
      { s.wire with
        stream := (reply.bytes.take sent).map (Origin.data, ·), rest := reply.bytes.drop sent } := by
    unfold after
    simp only
    rw [write_frame, hstream, List.nil_append]
  rw [hwire]
  refine ⟨reply.bytes, ⟨?_, fun x hx => ?_, hw.asData, hw.asReady⟩, .under rfl ?_ ?_⟩
  · simp
  · obtain ⟨c, -, rfl⟩ := List.mem_map.1 hx
    rfl
  · show s.inBuf ++ reply.bytes ≠ []
    rw [hbuf]
    exact reply.bytes_ne_nil
  · show [] ++ (s.inBuf ++ reply.bytes) = reply.bytes
    rw [hbuf]
    rfl

/-- The ACK in the place of the CR is the read's own: before it something was left. -/
theorem last_of_cut {r : Reply} {taken bytes more : List UInt8} (hall : taken ++ more = r.bytes)
    (hne : more ≠ []) (hcut : taken ++ bytes = r.cut) : bytes.getLast? = some ack := by
  have hlast := r.cut_last
  rw [← hcut] at hlast
  by_cases hnil : bytes = []
  · have hlength := congrArg List.length hcut
    rw [hnil, List.append_nil, r.length_cut, ← hall, List.length_append] at hlength
    have hpos := List.length_pos_iff.2 hne
    omega
  · rwa [List.getLast?_append_of_ne_nil _ hnil] at hlast

/-- A read before the end of the reply. -/
theorem Accounted.read_under {r : Reply} (hreply : s.reply = some r)
    (hne : s.inBuf ++ left ≠ []) (hall : s.delivered ++ (s.inBuf ++ left) = r.bytes)
    (hw : s.wire.Carries left) {timed : Bool} {size : Nat} {arrivals : List Nat}
    {answers : List (UInt8 × UInt8)} (hok : Undisturbed s (.read timed size arrivals answers)) :
    ∃ left', (s.after (.read timed size arrivals answers)).wire.Carries left' ∧
      (s.after (.read timed size arrivals answers)).Accounted left' := by
  obtain ⟨hclean, hwhole⟩ := hok
  have hbelled : false = true ↔ r.mark.isSome ∧ s.delivered ≠ [] := by
    constructor
    · intro h
      cases h
    · rintro ⟨hmark, hstarted⟩
      exact absurd (hwhole r hreply hmark hstarted) (Reply.no_ack hall hne)
  obtain ⟨left', hcarries, hne', hrest⟩ | ⟨hcarries, hempty, hdone⟩ :=
    readLoop_gives timed size hall
      (w := { s.wire with arrivals, answers, probes := [] }) ⟨hw.bytes, hw.data, hw.asData, hw.asReady⟩
      hbelled hne hclean
  · refine ⟨left', hcarries, .under hreply hne' ?_⟩
    rw [delivered_read]
    exact hrest
  · refine ⟨[], hcarries, .given hreply ?_ ?_⟩
    · rw [List.append_nil]
      exact hempty
    · rw [delivered_read]
      obtain hdone | ⟨hlength, hmark, hdone⟩ := hdone
      · exact .inl hdone
      · refine .inr ⟨hmark, hdone, _, List.mem_append_right _ List.mem_cons_self, ?_, hlength⟩
        exact last_of_cut hall hne hdone

theorem Accounted.read (h : s.Accounted left) (hw : s.wire.Carries left) {timed : Bool}
    {size : Nat} {arrivals : List Nat} {answers : List (UInt8 × UInt8)}
    (hok : Undisturbed s (.read timed size arrivals answers)) :
    ∃ left', (s.after (.read timed size arrivals answers)).wire.Carries left' ∧
      (s.after (.read timed size arrivals answers)).Accounted left' := by
  have hempty : s.inBuf ++ left = [] →
      (s.after (.read timed size arrivals answers)).wire.Carries [] ∧
        (s.after (.read timed size arrivals answers)).inBuf = [] ∧
        (s.after (.read timed size arrivals answers)).delivered = s.delivered := by
    intro hnothing
    obtain ⟨hbuf, rfl⟩ := List.append_eq_nil_iff.1 hnothing
    have hclean := hok.1
    unfold result Pmac.read at hclean
    rw [hbuf] at hclean
    obtain ⟨hcarries, hinBuf, hbytes⟩ := readLoop_empty timed size
      (w := { s.wire with arrivals, answers, probes := [] })
      ⟨hw.bytes, hw.data, hw.asData, hw.asReady⟩ hclean
    have hresult : s.result timed size arrivals answers =
        readLoop timed size [] false true { s.wire with arrivals, answers, probes := [] } := by
      unfold result Pmac.read
      rw [hbuf]
    refine ⟨?_, ?_, ?_⟩
    · show (s.result timed size arrivals answers).wire.Carries []
      rw [hresult]
      exact hcarries
    · show (s.result timed size arrivals answers).inBuf = []
      rw [hresult]
      exact hinBuf
    · rw [delivered_read, hresult, hbytes, List.append_nil]
  cases h with
  | idle hreply hnothing =>
    obtain ⟨hcarries, hinBuf, -⟩ := hempty hnothing
    exact ⟨[], hcarries, .idle hreply (by rw [hinBuf]; rfl)⟩
  | under hreply hne hall => exact read_under hreply hne hall hw hok
  | given hreply hnothing hdone =>
    obtain ⟨hcarries, hinBuf, hsame⟩ := hempty hnothing
    refine ⟨[], hcarries, .given hreply (by rw [hinBuf]; rfl) ?_⟩
    rw [hsame]
    obtain hdone | ⟨hmark, hdone, read, hmem, hread⟩ := hdone
    · exact .inl hdone
    · exact .inr ⟨hmark, hdone, read, List.mem_append_left _ hmem, hread⟩

end Conn

theorem accounted_of_reachable {s : Conn} (h : (conns.restrict Undisturbed).Reachable s) :
    ∃ left, s.wire.Carries left ∧ s.Accounted left := by
  refine System.Reachable.invariant (P := fun s => ∃ left, s.wire.Carries left ∧ s.Accounted left)
    ?_ ?_ h
  · rintro s rfl
    exact ⟨[], ⟨rfl, fun x hx => (by cases hx), fun o ho => (by cases ho), fun o ho => (by cases ho)⟩,
      .idle rfl rfl⟩
  · rintro s e t ⟨left, hw, hs⟩ ⟨rfl, hok⟩
    cases e with
    | command data reply sent => exact hs.command hw hok
    | read timed size arrivals answers => exact hs.read hw hok

/-- In an undisturbed run no byte is taken for one of the other kind; the reads give the reply in
order, and with its terminator nothing of it is left. -/
theorem reads_give_reply {s : Conn} (h : (conns.restrict Undisturbed).Reachable s) :
    (∀ o ∈ s.wire.asData, o = .data) ∧ (∀ o ∈ s.wire.asReady, o = .ready) ∧
      ∀ r ∈ s.reply,
        (s.left ≠ [] ∧ ¬s.Terminated ∧ s.delivered ++ s.left = r.bytes) ∨
        (s.left = [] ∧ s.Terminated ∧
          (s.delivered = r.message ∨ r.mark.isSome ∧ s.delivered = r.cut ∧
            ∃ read ∈ s.reads, read.2.getLast? = some ack ∧ read.2.length = read.1)) := by
  obtain ⟨left, hw, hs⟩ := accounted_of_reachable h
  have hleft : s.left = s.inBuf ++ left := by
    rw [Conn.left, List.append_assoc, hw.bytes]
  refine ⟨hw.asData, hw.asReady, fun r hr => ?_⟩
  rw [hleft]
  cases hs with
  | idle hnone _ =>
    rw [hnone] at hr
    cases hr
  | under hreply hne hall =>
    cases hreply.symm.trans hr
    exact .inl ⟨hne, Reply.no_ack hall hne, hall⟩
  | given hreply hnil hdone =>
    cases hreply.symm.trans hr
    refine .inr ⟨hnil, ?_, hdone⟩
    unfold Conn.Terminated
    obtain hdone | ⟨-, hdone, -⟩ := hdone
    · rw [hdone]
      exact r.message_last
    · rw [hdone]
      exact r.cut_last

/-! ## Two replies -/

/-- BELL E R R CR. -/
def errorReply : Reply where
  mark := some bell
  payload := [0x45, 0x52, 0x52]
  mark_eq := by simp
  plain := by simp [ack, lf, bell, stx]
  no_cr := by decide

/-- 1 2 3 CR ACK. -/
def numberReply : Reply where
  mark := none
  payload := [0x31, 0x32, 0x33, 0x0d]
  mark_eq := by simp
  plain := by simp [ack, lf, bell, stx]
  no_cr := by decide

/-- The first two bytes, and then the rest of an error reply that the PMAC held back. -/
def errorRead : Conn :=
  (({} : Conn).after (.command [0x58] errorReply 2)).after (.read true 100 [9, 9, 9] [(1, 0)])

theorem errorRead_reachable : (conns.restrict Undisturbed).Reachable errorRead := by
  refine ⟨{}, [.command [0x58] errorReply 2, .read true 100 [9, 9, 9] [(1, 0)]], rfl, ?_⟩
  refine System.Run.cons ⟨rfl, fun hnone => by cases hnone⟩ (System.Run.single ⟨rfl, ?_, ?_⟩)
  · decide +kernel
  · exact fun r _ _ hstarted => absurd rfl hstarted

theorem reads_give_reply_error :
    errorRead.delivered = [bell, 0x45, 0x52, 0x52, cr, ack] ∧ errorRead.wire.asReady = [.ready, .ready] ∧
      ∀ o ∈ errorRead.wire.asReady, o = .ready :=
  ⟨by decide +kernel, by decide +kernel, (reads_give_reply errorRead_reachable).2.1⟩

/-- A reply of which the first byte arrives before the others. -/
def numberRead : Conn :=
  (({} : Conn).after (.command [0x58] numberReply 5)).after (.read true 100 [1, 9, 9] [(0, 0)])

/-- The next two bytes are taken for the answer to a probe and lost. -/
theorem cut_reply_loses_bytes :
    conns.Reachable numberRead ∧ numberRead.delivered = [0x31, cr, ack] ∧
      numberReply.message = [0x31, 0x32, 0x33, cr, ack] ∧
      numberRead.wire.asReady = [.data, .data] := by
  refine ⟨?_, by decide +kernel, by decide +kernel, by decide +kernel⟩
  exact ⟨{}, _, rfl, System.Run.cons rfl (System.Run.single rfl)⟩

end Pmac
