import EpicsIocs.Lib.Framing
import EpicsIocs.Lib.Machine

/-! # The frame buffer

A frame is a header line, the payload its header declares and a newline.
`FrameBuffer` as `stream.rs` has it, over any resolver of header lines; an error ends
the stream, so `next` and `append` return no buffer with it.

`At`: the buffer has read so much of the frames to come.  `next_complete` and
`next_partial` say what `next` does there. -/

namespace TimePix

open Framing Machine

/-! ## Model -/

inductive FrameError where
  | invalidHeader (message : String)
  | invalidTrailer
  | headerTooLarge
  | payloadTooLarge
  | bufferLimitExceeded
  deriving DecidableEq, Repr

inductive EndOfStream where
  | clean
  | truncatedHeader
  | truncatedPayload
  | truncatedTrailer
  deriving DecidableEq, Repr

/-- A header the resolver accepted and the payload it declared. -/
structure Resolved (T : Type) where
  headerBytes : Nat
  payloadBytes : Nat
  header : T

structure FrameBuffer (T : Type) where
  maxHeader : Nat
  maxPayload : Nat
  maxBuffered : Nat
  bytes : List UInt8
  current : Option (Resolved T)

def newline : UInt8 := 10
def carriageReturn : UInt8 := 13

/-- The line without a last `\r`. -/
def stripCr (line : List UInt8) : List UInt8 :=
  if line.getLast? = some carriageReturn then line.dropLast else line

/-- The payload size and the header of a line, or a message. -/
abbrev Resolver (T : Type) := List UInt8 → Except String (Nat × T)

namespace FrameBuffer

variable {T : Type}

def new (maxHeader maxPayload maxTrailing : Nat) : FrameBuffer T where
  maxHeader
  maxPayload
  maxBuffered := satAdd (satAdd (satAdd maxHeader maxPayload) maxTrailing) 2
  bytes := []
  current := none

def append (b : FrameBuffer T) (data : List UInt8) : Except FrameError (FrameBuffer T) :=
  if b.bytes.length > b.maxBuffered ∨ data.length > b.maxBuffered - b.bytes.length then
    .error .bufferLimitExceeded
  else .ok { b with bytes := b.bytes ++ data }

/-- The resolved header of the frame `next` is at, `none` before its newline is there. -/
def resolved (b : FrameBuffer T) (resolve : Resolver T) :
    Except FrameError (Option (Resolved T)) :=
  match b.current with
  | some current => .ok (some current)
  | none =>
    match b.bytes.findIdx? (· = newline) with
    | none => if b.bytes.length > b.maxHeader then .error .headerTooLarge else .ok none
    | some position =>
      if position > b.maxHeader then .error .headerTooLarge
      else
        match resolve (stripCr (b.bytes.take position)) with
        | .error message => .error (.invalidHeader message)
        | .ok (payloadBytes, header) =>
          if payloadBytes > b.maxPayload then .error .payloadTooLarge
          else .ok (some ⟨position + 1, payloadBytes, header⟩)

/-- The next frame's header and payload, `none` until it is complete. -/
def next (b : FrameBuffer T) (resolve : Resolver T) :
    Except FrameError (Option (T × List UInt8) × FrameBuffer T) :=
  match b.resolved resolve with
  | .error e => .error e
  | .ok none => .ok (none, b)
  | .ok (some current) =>
    let body := current.headerBytes + current.payloadBytes
    if b.bytes.length ≤ body then .ok (none, { b with current := some current })
    else if b.bytes[body]? ≠ some newline then .error .invalidTrailer
    else
      .ok (some (current.header, (b.bytes.take body).drop current.headerBytes),
        { b with bytes := b.bytes.drop (body + 1), current := none })

def endOfStream (b : FrameBuffer T) : EndOfStream :=
  if b.bytes = [] then .clean
  else
    match b.current with
    | none => .truncatedHeader
    | some c =>
      if b.bytes.length < c.headerBytes + c.payloadBytes then .truncatedPayload
      else .truncatedTrailer

end FrameBuffer

/-! ## Frames on the wire -/

/-- A frame as sent: its header line up to the newline, what a resolver makes of the
line, and the payload. -/
structure Block (T : Type) where
  line : List UInt8
  header : T
  payload : List UInt8

namespace Block

variable {T : Type}

def encode (f : Block T) : List UInt8 := f.line ++ newline :: (f.payload ++ [newline])

/-- The frame keeps the limits, and its header resolves to its payload. -/
structure Legal (maxHeader maxPayload : Nat) (resolve : Resolver T) (f : Block T) : Prop where
  no_newline : newline ∉ f.line
  line_le : f.line.length ≤ maxHeader
  resolves : resolve (stripCr f.line) = .ok (f.payload.length, f.header)
  payload_le : f.payload.length ≤ maxPayload

@[simp] theorem length_encode (f : Block T) :
    f.encode.length = f.line.length + f.payload.length + 2 := by
  simp [encode]
  omega

theorem encode_ne_nil (f : Block T) : f.encode ≠ [] := by simp [encode]

end Block

namespace FrameBuffer

variable {T : Type} {b : FrameBuffer T} {resolve : Resolver T} {f : Block T}
  {left rest : List (Block T)} {bytes : List UInt8}

def limits (b : FrameBuffer T) : Nat × Nat × Nat := (b.maxHeader, b.maxPayload, b.maxBuffered)

/-- The buffer holds `bytes`, the first of the stream of `left`, and may have resolved
the first header. -/
structure At (b : FrameBuffer T) (left : List (Block T)) (bytes : List UInt8) : Prop where
  bytes_eq : b.bytes = bytes
  current : b.current = none ∨ ∃ f rest, left = f :: rest ∧
    f.line.length < bytes.length ∧
    b.current = some ⟨f.line.length + 1, f.payload.length, f.header⟩

theorem At.append (h : b.At left bytes) {data : List UInt8}
    (hfit : bytes.length + data.length ≤ b.maxBuffered) :
    ∃ b', b.append data = .ok b' ∧ b'.At left (bytes ++ data) ∧ b'.limits = b.limits := by
  have hlimit : ¬ (b.bytes.length > b.maxBuffered ∨
      data.length > b.maxBuffered - b.bytes.length) := by
    rw [h.bytes_eq]
    omega
  refine ⟨{ b with bytes := b.bytes ++ data }, by rw [FrameBuffer.append, if_neg hlimit],
    ⟨by rw [h.bytes_eq], ?_⟩, rfl⟩
  obtain hnone | ⟨f, rest, hleft, hline, hsome⟩ := h.current
  · exact .inl hnone
  · refine .inr ⟨f, rest, hleft, ?_, hsome⟩
    rw [List.length_append]
    omega

/-- Where the newline of a header line is. -/
theorem findIdx?_line {line more : List UInt8} (h : newline ∉ line) :
    (line ++ newline :: more).findIdx? (· = newline) = some line.length := by
  have hline : line.findIdx? (· = newline) = none := by
    rw [List.findIdx?_eq_none_iff]
    intro x hx
    simpa using fun heq : x = newline => h (heq ▸ hx)
  rw [List.findIdx?_append, hline]
  simp [List.findIdx?_cons]

/-- Before the newline `next` waits, as long as the line keeps the limit. -/
theorem next_of_no_newline (hcurrent : b.current = none) (hline : newline ∉ b.bytes)
    (hlen : b.bytes.length ≤ b.maxHeader) : b.next resolve = .ok (none, b) := by
  have hfind : b.bytes.findIdx? (· = newline) = none := by
    rw [List.findIdx?_eq_none_iff]
    intro x hx
    simpa using fun heq : x = newline => hline (heq ▸ hx)
  have hlimit : ¬ b.bytes.length > b.maxHeader := Nat.not_lt.2 hlen
  simp only [next, FrameBuffer.resolved, hcurrent, hfind, hlimit, if_false]

/-- A longer line is refused. -/
theorem next_of_long_line {line more : List UInt8} (hcurrent : b.current = none)
    (hbytes : b.bytes = line ++ newline :: more) (hline : newline ∉ line)
    (hlen : b.maxHeader < line.length) : b.next resolve = .error .headerTooLarge := by
  have hlimit : line.length > b.maxHeader := hlen
  simp only [next, FrameBuffer.resolved, hcurrent, hbytes, findIdx?_line hline, hlimit, if_true]

/-- Once the header line is there it is resolved, now or before. -/
theorem At.resolved (h : b.At (f :: rest) (f.line ++ newline :: bytes))
    (hlegal : f.Legal b.maxHeader b.maxPayload resolve) :
    b.resolved resolve = .ok (some ⟨f.line.length + 1, f.payload.length, f.header⟩) := by
  obtain hnone | ⟨g, rest', hleft, -, hsome⟩ := h.current
  · have hline : ¬ f.line.length > b.maxHeader := Nat.not_lt.2 hlegal.line_le
    have hpayload : ¬ f.payload.length > b.maxPayload := Nat.not_lt.2 hlegal.payload_le
    simp only [FrameBuffer.resolved, hnone, h.bytes_eq, findIdx?_line hlegal.no_newline, hline,
      if_false, List.take_left, hlegal.resolves, hpayload]
  · cases hleft
    simp only [FrameBuffer.resolved, hsome]

/-- A complete frame comes out whole. -/
theorem At.next_complete (h : b.At (f :: rest) (f.encode ++ bytes)) (hlegal : f.Legal b.maxHeader b.maxPayload resolve) :
    ∃ b', b.next resolve = .ok (some (f.header, f.payload), b') ∧ b'.At rest bytes ∧
      b'.limits = b.limits := by
  have hbytes : b.bytes = f.line ++ newline :: (f.payload ++ newline :: bytes) := by
    rw [h.bytes_eq]
    simp [Block.encode]
  have hat : b.At (f :: rest) (f.line ++ newline :: (f.payload ++ newline :: bytes)) :=
    ⟨hbytes, hbytes ▸ h.bytes_eq ▸ h.current⟩
  have hres := hat.resolved hlegal
  have hlen : ¬ b.bytes.length ≤ f.line.length + 1 + f.payload.length := by
    rw [hbytes]
    simp only [List.length_append, List.length_cons]
    omega
  have hsplit : b.bytes = (f.line ++ newline :: f.payload) ++ newline :: bytes := by
    rw [hbytes]
    simp
  have hbody : f.line.length + 1 + f.payload.length = (f.line ++ newline :: f.payload).length := by
    simp only [List.length_append, List.length_cons]
    omega
  have htrailer : b.bytes[f.line.length + 1 + f.payload.length]? = some newline := by
    rw [hsplit, hbody, List.getElem?_append_right (Nat.le_refl _)]
    simp
  have hpayload : (b.bytes.take (f.line.length + 1 + f.payload.length)).drop
      (f.line.length + 1) = f.payload := by
    rw [hsplit, hbody, List.take_left]
    have hcons : f.line ++ newline :: f.payload = (f.line ++ [newline]) ++ f.payload := by simp
    rw [hcons, List.drop_left' (by simp)]
  have hrest : b.bytes.drop (f.line.length + 1 + f.payload.length + 1) = bytes := by
    have hcons : (f.line ++ newline :: f.payload) ++ newline :: bytes =
        (f.line ++ newline :: f.payload ++ [newline]) ++ bytes := by simp
    rw [hsplit, hbody, hcons, List.drop_left' (by simp; omega)]
  refine ⟨{ b with bytes := b.bytes.drop (f.line.length + 1 + f.payload.length + 1), current := none },
    ?_, ⟨hrest, .inl rfl⟩, rfl⟩
  simp only [next, hres, hlen, if_false, htrailer, ne_eq, not_true_eq_false, hpayload]

/-- Of a frame not yet complete nothing comes out, and no limit is reached. -/
theorem At.next_partial (h : b.At left bytes) (hpre : bytes <+: left.flatMap Block.encode)
    (hshort : ∀ f rest, left = f :: rest → bytes.length < f.encode.length)
    (hlegal : ∀ f ∈ left, f.Legal b.maxHeader b.maxPayload resolve) :
    ∃ b', b.next resolve = .ok (none, b') ∧ b'.At left bytes ∧ b'.limits = b.limits := by
  cases left with
  | nil =>
    have hnil : b.bytes = [] := h.bytes_eq.trans (List.prefix_nil.1 hpre)
    have hcurrent : b.current = none := by
      obtain hnone | ⟨f, rest, hleft, -⟩ := h.current
      · exact hnone
      · cases hleft
    refine ⟨b, ?_, h, rfl⟩
    simp [next, FrameBuffer.resolved, hcurrent, hnil]
  | cons f rest =>
    have hlegal := hlegal f List.mem_cons_self
    have hshort := hshort f rest rfl
    have hpre : bytes <+: f.encode :=
      List.prefix_of_prefix_length_le hpre (List.prefix_append _ _) (Nat.le_of_lt hshort)
    by_cases hline : bytes.length ≤ f.line.length
    · -- Within the header line: there is no newline to be found.
      have hpre : bytes <+: f.line :=
        List.prefix_of_prefix_length_le hpre (List.prefix_append _ _) hline
      have hcurrent : b.current = none := by
        obtain hnone | ⟨g, rest', hleft, hlt, -⟩ := h.current
        · exact hnone
        · cases hleft
          omega
      refine ⟨b, next_of_no_newline hcurrent ?_ ?_, h, rfl⟩
      · rw [h.bytes_eq]
        exact fun hmem => hlegal.no_newline (hpre.subset hmem)
      · rw [h.bytes_eq]
        exact Nat.le_trans hline hlegal.line_le
    · -- Behind it the header is resolved, and the payload or the trailer is missing.
      have hline := Nat.not_le.1 hline
      obtain ⟨more, hmore⟩ : f.line ++ [newline] <+: bytes := by
        refine List.prefix_of_prefix_length_le ?_ hpre ?_
        · exact ⟨f.payload ++ [newline], by simp [Block.encode]⟩
        · rw [List.length_append, List.length_singleton]
          exact hline
      have hbytes : f.line ++ newline :: more = bytes := by simpa using hmore
      have hat : b.At (f :: rest) (f.line ++ newline :: more) :=
        ⟨h.bytes_eq.trans hbytes.symm, hbytes ▸ h.current⟩
      have hres := hat.resolved hlegal
      have hlen : b.bytes.length ≤ f.line.length + 1 + f.payload.length := by
        rw [h.bytes_eq]
        rw [Block.length_encode] at hshort
        omega
      refine ⟨{ b with current := some ⟨f.line.length + 1, f.payload.length, f.header⟩ }, ?_,
        ⟨h.bytes_eq, .inr ⟨f, rest, rfl, hline, rfl⟩⟩, rfl⟩
      simp only [next, hres, hlen, if_true]

/-- At a frame's end, and nowhere else, the stream may end. -/
theorem At.endOfStream (h : b.At left bytes) : b.endOfStream = .clean ↔ bytes = [] := by
  unfold FrameBuffer.endOfStream
  rw [h.bytes_eq]
  by_cases hnil : bytes = []
  · simp [hnil]
  · rw [if_neg hnil]
    simp only [hnil, iff_false]
    cases b.current with
    | none => simp
    | some c =>
      dsimp only
      split <;> simp

end FrameBuffer

end TimePix
