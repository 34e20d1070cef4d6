import EpicsIocs.TimePix.Stream

/-! # The stream does not depend on its reads

A `SentFrame` is a well-formed frame as Serval writes it.  The limits on headers,
payloads and buffered bytes never end a stream of such frames, however it is read. -/

namespace TimePix

open Framing Machine

/-- A frame as sent: the header's text, whether a `\r` follows it, and the payload;
`pending` and `header` are what the text means. -/
structure SentFrame where
  text : List UInt8
  cr : Bool
  pending : Pending
  header : Json
  payload : List UInt8

namespace SentFrame

/-- The bytes in front of the header's newline. -/
def line (f : SentFrame) : List UInt8 := f.text ++ if f.cr then [carriageReturn] else []

def block (f : SentFrame) : Block Accepted := ⟨f.line, ⟨f.pending, f.header, true⟩, f.payload⟩

def encode (f : SentFrame) : List UInt8 := f.block.encode

/-- The frame with the big-endian values of its payload. -/
def frame (f : SentFrame) : DecodedFrame :=
  match f.pending with
  | .image width height format frameNumber timeAtFrame thresholdId integrationSize =>
    .image { width, height, format, frameNumber, timeAtFrame, thresholdId, integrationSize
             pixels := pixelValues format.bytes f.payload
             header := f.header }
  | .histogram _ binWidth binOffset frameNumber timeAtFrame =>
    .histogram { binWidth, binOffset, frameNumber, timeAtFrame
                 counts := pixelValues 4 f.payload }

/-- One line that starts with `{`, accepted for the payload that follows.  A last `\r`
is the optional one, not the text's. -/
structure WellFormed (fromSlice : List UInt8 → Option Json) (channel : Channel)
    (limits : ImageLimits) (f : SentFrame) : Prop where
  starts : f.text.head? = some openBrace
  no_newline : newline ∉ f.text
  last : f.text.getLast? ≠ some carriageReturn
  accepted : resolve fromSlice channel limits f.text =
    .ok (f.payload.length, ⟨f.pending, f.header, lineHasJson f.text⟩)

variable {fromSlice : List UInt8 → Option Json} {channel : Channel} {limits : ImageLimits}
  {f : SentFrame}

theorem encode_ne_nil (f : SentFrame) : f.encode ≠ [] := f.block.encode_ne_nil

theorem flatMap_encode (frames : List SentFrame) :
    frames.flatMap encode = (frames.map block).flatMap Block.encode := by
  rw [List.flatMap_map]
  rfl

theorem finish_eq_frame (f : SentFrame) : f.pending.finish f.payload f.header = f.frame := by
  unfold Pending.finish frame
  cases f.pending with
  | image => simp only [decodeBe_eq]
  | histogram =>
    simp only [decodeBe_eq]
    rfl

theorem stripCr_line (h : f.text.getLast? ≠ some carriageReturn) : stripCr f.line = f.text := by
  unfold line stripCr
  cases f.cr with
  | true => simp
  | false => simp [h]

theorem WellFormed.legal (h : f.WellFormed fromSlice channel limits)
    (hline : f.line.length ≤ maxBufferSize)
    (hlimits : limits.maxPayloadBytes ≤ supportedPixels * 4) :
    f.block.Legal maxBufferSize (FrameDecoder.maxPayload channel)
      (resolve fromSlice channel limits) where
  no_newline := by
    show newline ∉ f.line
    unfold line
    rw [List.mem_append, not_or]
    refine ⟨h.no_newline, ?_⟩
    cases f.cr <;> simp [newline, carriageReturn]
  line_le := hline
  resolves := by
    show resolve fromSlice channel limits (stripCr f.line) = _
    rw [stripCr_line h.last, h.accepted, lineHasJson_of_head h.starts]
    rfl
  payload_le := resolve_le hlimits h.accepted

end SentFrame

namespace FrameDecoder

variable {fromSlice : List UInt8 → Option Json} {channel : Channel}
  {left done frames : List SentFrame} {held tail bytes : List UInt8} {d : FrameDecoder}

/-- The decoder of `channel` has read `held` of the frames `left`. -/
structure Holds (channel : Channel) (left : List SentFrame) (held : List UInt8)
    (d : FrameDecoder) : Prop where
  channel_eq : d.channel = channel
  at_ : d.buffer.At (left.map SentFrame.block) held
  limits_eq : d.buffer.limits = (FrameDecoder.new channel).buffer.limits

theorem Holds.maxHeader (h : Holds channel left held d) : d.buffer.maxHeader = maxBufferSize :=
  congrArg Prod.fst h.limits_eq

theorem Holds.maxPayload (h : Holds channel left held d) :
    d.buffer.maxPayload = FrameDecoder.maxPayload channel :=
  congrArg (·.2.1) h.limits_eq

/-- Room for a header line, a payload, two newlines and one more read. -/
theorem Holds.maxBuffered (h : Holds channel left held d) :
    d.buffer.maxBuffered = maxBufferSize + FrameDecoder.maxPayload channel + maxBufferSize + 2 := by
  have heq : d.buffer.maxBuffered = _ := congrArg (·.2.2) h.limits_eq
  rw [heq]
  cases channel <;> decide

/-- What the reads need of the frames under `limits`. -/
def Fits (fromSlice : List UInt8 → Option Json) (channel : Channel) (limits : ImageLimits)
    (frames : List SentFrame) : Prop :=
  limits.maxPayloadBytes ≤ supportedPixels * 4 ∧
  ∀ f ∈ frames, f.WellFormed fromSlice channel limits ∧ f.line.length ≤ maxBufferSize

theorem Holds.nextFrame_complete {f : SentFrame} (h : Holds channel (f :: left) (f.encode ++ held) d)
    (hfits : Fits fromSlice channel d.limits (f :: left)) :
    ∃ d', d.nextFrame fromSlice = .ok (some f.frame, d') ∧ Holds channel left held d' := by
  obtain ⟨hwf, hline⟩ := hfits.2 f List.mem_cons_self
  have hlegal := hwf.legal hline hfits.1
  rw [← h.maxHeader, ← h.maxPayload, ← h.channel_eq] at hlegal
  obtain ⟨buffer, hnext, hat, hlimits⟩ := FrameBuffer.At.next_complete h.at_ hlegal
  refine ⟨{ d with buffer }, ?_, h.channel_eq, hat, hlimits.trans h.limits_eq⟩
  rw [nextFrame, nextLoop, hnext, ← f.finish_eq_frame]
  rfl

theorem Holds.nextFrame_partial (h : Holds channel left held d)
    (hpre : held <+: left.flatMap SentFrame.encode)
    (hshort : ∀ f rest, left = f :: rest → held.length < f.encode.length)
    (hfits : Fits fromSlice channel d.limits left) :
    ∃ d', d.nextFrame fromSlice = .ok (none, d') ∧ Holds channel left held d' := by
  have hlegal : ∀ f ∈ left.map SentFrame.block,
      f.Legal d.buffer.maxHeader d.buffer.maxPayload (resolve fromSlice d.channel d.limits) := by
    intro b hb
    obtain ⟨f, hf, rfl⟩ := List.mem_map.1 hb
    rw [h.maxHeader, h.maxPayload, h.channel_eq]
    exact (hfits.2 f hf).1.legal (hfits.2 f hf).2 hfits.1
  have hshort' : ∀ b rest, left.map SentFrame.block = b :: rest →
      held.length < b.encode.length := by
    intro b rest heq
    obtain ⟨f, rest', hleft, rfl, -⟩ := List.map_eq_cons_iff.1 heq
    exact hshort f rest' hleft
  obtain ⟨buffer, hnext, hat, hlimits⟩ := FrameBuffer.At.next_partial h.at_
    (SentFrame.flatMap_encode left ▸ hpre) hshort' hlegal
  refine ⟨{ d with buffer }, ?_, h.channel_eq, hat, hlimits.trans h.limits_eq⟩
  rw [nextFrame, nextLoop, hnext]

/-- Draining gives the complete frames and stops in front of the rest. -/
theorem Holds.drain {limits : ImageLimits} (hfits : Fits fromSlice channel limits (done ++ left))
    (hpre : tail <+: left.flatMap SentFrame.encode)
    (hshort : ∀ f rest, left = f :: rest → tail.length < f.encode.length) {fuel : Nat}
    (h : Holds channel (done ++ left) (done.flatMap SentFrame.encode ++ tail) d)
    (hfuel : done.length < fuel) :
    ∃ d', d.drain fromSlice limits fuel = .ok (done.map SentFrame.frame, d') ∧
      Holds channel left tail d' := by
  induction done generalizing d fuel with
  | nil =>
    obtain ⟨fuel, rfl⟩ := Nat.exists_eq_succ_of_ne_zero (Nat.ne_of_gt hfuel)
    have hset : Holds channel left tail (d.setImageLimits limits) :=
      ⟨h.channel_eq, h.at_, h.limits_eq⟩
    obtain ⟨d', hnext, hd'⟩ := hset.nextFrame_partial hpre hshort hfits
    refine ⟨d', ?_, hd'⟩
    rw [FrameDecoder.drain, hnext]
    rfl
  | cons f done ih =>
    obtain ⟨fuel, rfl⟩ := Nat.exists_eq_succ_of_ne_zero (Nat.ne_of_gt (Nat.zero_lt_of_lt hfuel))
    have hset : Holds channel (f :: (done ++ left))
        (f.encode ++ (done.flatMap SentFrame.encode ++ tail)) (d.setImageLimits limits) := by
      rw [← List.append_assoc, ← List.flatMap_cons]
      exact ⟨h.channel_eq, h.at_, h.limits_eq⟩
    obtain ⟨d', hnext, hd'⟩ := hset.nextFrame_complete hfits
    have hfits' : Fits fromSlice channel limits (done ++ left) :=
      ⟨hfits.1, fun g hg => hfits.2 g (List.mem_cons_of_mem _ hg)⟩
    obtain ⟨d'', hdrain, hd''⟩ := ih hfits' hd' (by simpa using hfuel)
    refine ⟨d'', ?_, hd''⟩
    rw [FrameDecoder.drain, hnext]
    simp only [hdrain, List.map_cons]

/-- Every frame has bytes, so a buffer has fewer frames than bytes. -/
theorem length_le_flatMap (frames : List SentFrame) :
    frames.length ≤ (frames.flatMap SentFrame.encode).length := by
  induction frames with
  | nil => simp
  | cons f frames ih =>
    have := List.length_pos_iff.2 f.encode_ne_nil
    rw [List.flatMap_cons, List.length_append, List.length_cons]
    omega

/-- What is held between reads leaves room for the next one. -/
theorem Holds.fits_read {limits : ImageLimits} (h : Holds channel left held d)
    (hcut : Cut SentFrame.encode left held [] left held)
    (hfits : Fits fromSlice channel limits left) (hread : bytes.length ≤ maxBufferSize) :
    held.length + bytes.length ≤ d.buffer.maxBuffered := by
  rw [h.maxBuffered]
  cases left with
  | nil =>
    have hnil : held = [] := List.prefix_nil.1 hcut.tail_prefix
    rw [hnil, List.length_nil]
    omega
  | cons f rest =>
    have hshort := hcut.tail_short f rest rfl
    obtain ⟨hwf, hline⟩ := hfits.2 f List.mem_cons_self
    have hlegal := hwf.legal hline hfits.1
    have hpayload := hlegal.payload_le
    rw [SentFrame.encode, Block.length_encode] at hshort
    have hlen := hlegal.line_le
    omega

/-- Between reads: the frames to come are some of `frames`, and the held bytes do not
reach the end of the first. -/
def Between (channel : Channel) (frames : List SentFrame) (d : FrameDecoder)
    (left : List SentFrame) (held : List UInt8) : Prop :=
  Holds channel left held d ∧ Cut SentFrame.encode left held [] left held ∧
    ∀ f ∈ left, f ∈ frames

/-- **One read** gives the frames it completes. -/
theorem Between.read {r : Read} {all : List SentFrame}
    (hlegal : r.bytes.length ≤ maxBufferSize ∧ Fits fromSlice channel r.limits all)
    (h : Between channel all d frames held)
    (hcut : Cut SentFrame.encode frames (held ++ r.bytes) done left tail) :
    ∃ out d', d.read fromSlice r = .ok (out, d') ∧ out = done.map SentFrame.frame ∧
      Between channel all d' left tail := by
  obtain ⟨hholds, hheld, hall⟩ := h
  have hfits : Fits fromSlice channel r.limits frames :=
    ⟨hlegal.2.1, fun f hf => hlegal.2.2 f (hall f hf)⟩
  obtain ⟨buffer, happend, hat, hlimits⟩ :=
    FrameBuffer.At.append hholds.at_ (hholds.fits_read hheld hfits hlegal.1)
  have hpushed : Holds channel (done ++ left) (done.flatMap SentFrame.encode ++ tail)
      { d with buffer } := by
    rw [← hcut.frames_eq, ← hcut.bytes_eq]
    exact ⟨hholds.channel_eq, hat, hlimits.trans hholds.limits_eq⟩
  have hfuel : done.length < buffer.bytes.length + 1 := by
    have := length_le_flatMap done
    rw [hat.bytes_eq, hcut.bytes_eq, List.length_append]
    omega
  obtain ⟨d', hdrain, hd'⟩ := Holds.drain (hcut.frames_eq ▸ hfits) hcut.tail_prefix
    hcut.tail_short hpushed hfuel
  refine ⟨_, d', ?_, rfl, hd', ⟨rfl, rfl, hcut.tail_prefix, hcut.tail_short⟩, ?_⟩
  · simp only [FrameDecoder.read, push, happend, hdrain]
  · exact fun f hf => hall f (hcut.frames_eq ▸ List.mem_append_right _ hf)

end FrameDecoder

/-- **The framing is chunk-invariant.**  However a stream of well-formed frames, whole or
broken off, is cut into reads, each read gives the frames it completes, with the values
of their payloads; and the stream is at a clean end exactly where a frame ends. -/
theorem stream_chunk_invariant (fromSlice : List UInt8 → Option Json) (channel : Channel)
    {frames : List SentFrame} {reads : List FrameDecoder.Read}
    (hreads : ∀ r ∈ reads, r.bytes.length ≤ maxBufferSize ∧
      ∃ x y n, r.limits = ImageLimits.detector x y n)
    (hframes : ∀ r ∈ reads, ∀ f ∈ frames,
      f.WellFormed fromSlice channel r.limits ∧ f.line.length ≤ maxBufferSize)
    (hstream : (reads.map (·.bytes)).flatten <+: frames.flatMap SentFrame.encode) :
    ∃ parts left tail d,
      Cuts SentFrame.encode frames [] (reads.map (·.bytes)) parts left tail ∧
      readAll (FrameDecoder.read fromSlice) (.new channel) reads =
        .ok (parts.map (·.map SentFrame.frame), d) ∧
      ((reads.map (·.bytes)).flatten = frames.flatMap SentFrame.encode →
        parts.flatten = frames) ∧
      (d.endOfStream = .clean ↔ ∃ done rest, frames = done ++ rest ∧
        (reads.map (·.bytes)).flatten = done.flatMap SentFrame.encode) := by
  have henc : ∀ f ∈ frames, f.encode ≠ [] := fun f _ => f.encode_ne_nil
  obtain ⟨parts, left, tail, hcuts⟩ := exists_cuts henc
    (show [] ++ (reads.map (·.bytes)).flatten <+: _ from hstream)
  have hstart : FrameDecoder.Between channel frames (.new channel) frames [] :=
    ⟨⟨rfl, ⟨rfl, .inl rfl⟩, rfl⟩, Cut.start henc, fun f hf => hf⟩
  have hlegal : ∀ r ∈ reads, r.bytes.length ≤ maxBufferSize ∧
      FrameDecoder.Fits fromSlice channel r.limits frames := by
    intro r hr
    obtain ⟨hlen, x, y, n, hlimits⟩ := hreads r hr
    exact ⟨hlen, hlimits ▸ detector_le x y n, fun f hf => hframes r hr f hf⟩
  obtain ⟨outs, d, hall, houts, hd⟩ := hcuts.readAll (H := FrameDecoder.Between channel frames)
    (O := fun done out => out = done.map SentFrame.frame)
    (L := fun (r : FrameDecoder.Read) => r.bytes.length ≤ maxBufferSize ∧
      FrameDecoder.Fits fromSlice channel r.limits frames)
    (fun _ _ _ _ _ _ _ hs hr hcut => FrameDecoder.Between.read hr hs hcut) hstart hlegal
  have houts : outs = parts.map (·.map SentFrame.frame) := eq_map_of_forall₂ houts
  have hcut : Cut SentFrame.encode frames (reads.map (·.bytes)).flatten parts.flatten left tail :=
    hcuts.cut (Cut.start henc)
  refine ⟨parts, left, tail, d, hcuts, houts ▸ hall, fun hwhole => ?_, ?_⟩
  · rw [hwhole] at hcut
    have hframes := hcut.frames_eq
    rw [hcut.of_all.1, List.append_nil] at hframes
    exact hframes.symm
  · rw [FrameDecoder.endOfStream, FrameBuffer.At.endOfStream hd.1.at_]
    exact hcut.tail_eq_nil_iff henc

/-! ## Examples -/

namespace FrameDecoder

variable {fromSlice : List UInt8 → Option Json} {d : FrameDecoder} {r : Read}
  {buffer buffer' : FrameBuffer Accepted}

theorem read_of_none (happend : d.buffer.append r.bytes = .ok buffer)
    (hnext : buffer.next (resolve fromSlice d.channel r.limits) = .ok (none, buffer')) :
    d.read fromSlice r = .ok ([], { d with buffer := buffer', limits := r.limits }) := by
  simp only [FrameDecoder.read, push, happend, FrameDecoder.drain, nextFrame, nextLoop,
    setImageLimits, hnext]

theorem read_of_error {e : FrameError} (happend : d.buffer.append r.bytes = .ok buffer)
    (hnext : buffer.next (resolve fromSlice d.channel r.limits) = .error e) :
    d.read fromSlice r = .error e := by
  simp only [FrameDecoder.read, push, happend, FrameDecoder.drain, nextFrame, nextLoop,
    setImageLimits, hnext]

end FrameDecoder

/-- `{"binSize":1}` -/
def binSizeOne : List UInt8 := [123, 34, 98, 105, 110, 83, 105, 122, 101, 34, 58, 49, 125]

def binSizeHeader : Json := .object [("binSize", .number (.posInt 1))]

/-- What the parser makes of the headers below. -/
def parseBinSize (text : List UInt8) : Option Json :=
  if (binSizeOne.take 12).isPrefixOf text then some binSizeHeader else none

/-- One bin; its payload is full of newlines. -/
def newlineFrame : SentFrame :=
  ⟨binSizeOne, true, .histogram 1 0 0 0 0, binSizeHeader, [10, 10, 10, 10]⟩

def newlineReads : List FrameDecoder.Read :=
  [⟨binSizeOne, .detector 0 0 0⟩, ⟨[13, 10, 10, 10], .detector 0 0 0⟩,
    ⟨[10, 10, 10], .detector 0 0 0⟩]

theorem stream_chunk_invariant_newlines :
    ∃ (parts : List (List SentFrame)) (d : FrameDecoder),
      readAll (FrameDecoder.read parseBinSize) (.new .histogram) newlineReads =
        .ok (parts.map (·.map SentFrame.frame), d) ∧
      parts.flatten = [newlineFrame] ∧ d.endOfStream = .clean := by
  have hwf : newlineFrame.WellFormed parseBinSize .histogram (.detector 0 0 0) :=
    ⟨rfl, by decide, by decide, rfl⟩
  have hreads : ∀ r ∈ newlineReads, r.bytes.length ≤ maxBufferSize ∧
      r.limits = .detector 0 0 0 := by
    decide
  obtain ⟨parts, left, tail, d, -, hall, hwhole, hclean⟩ :=
    stream_chunk_invariant parseBinSize .histogram
      (fun r hr => ⟨(hreads r hr).1, 0, 0, 0, (hreads r hr).2⟩)
      (show ∀ r ∈ newlineReads, ∀ f ∈ [newlineFrame], _ by
        intro r hr f hf
        rw [List.mem_singleton.1 hf, (hreads r hr).2]
        exact ⟨hwf, by decide⟩)
      ⟨[], rfl⟩
  exact ⟨parts, d, hall, hwhole rfl, hclean.2 ⟨[newlineFrame], [], rfl, rfl⟩⟩

/-- The header padded with blanks. -/
def paddedText (blanks : List UInt8) : List UInt8 := binSizeOne.take 12 ++ (blanks ++ [125])

def paddedFrame (blanks : List UInt8) : SentFrame :=
  ⟨paddedText blanks, true, .histogram 1 0 0 0 0, binSizeHeader, [0, 0, 0, 5]⟩

theorem length_paddedText {blanks : List UInt8} (h : blanks.length = 32755) :
    (paddedText blanks).length = maxBufferSize := by
  simp [paddedText, binSizeOne, h, maxBufferSize]

theorem newline_notMem_paddedText {blanks : List UInt8} (h : newline ∉ blanks) :
    newline ∉ paddedText blanks := by
  rw [paddedText, List.mem_append, List.mem_append, not_or, not_or]
  exact ⟨by decide, h, by decide⟩

theorem paddedFrame_wellFormed {blanks : List UInt8} (h : newline ∉ blanks) :
    (paddedFrame blanks).WellFormed parseBinSize .histogram (.detector 0 0 0) where
  starts := rfl
  no_newline := newline_notMem_paddedText h
  last := by simp [paddedFrame, paddedText, carriageReturn]
  accepted := rfl

/-- The `\r` counts as part of the header: behind a text of the full length it makes the
header too large. -/
theorem stream_ends_at_cr :
    ¬ ∀ (fromSlice : List UInt8 → Option Json) (channel : Channel) (frames : List SentFrame)
      (reads : List FrameDecoder.Read),
      (∀ r ∈ reads, r.bytes.length ≤ maxBufferSize ∧
        ∃ x y n, r.limits = ImageLimits.detector x y n) →
      (∀ r ∈ reads, ∀ f ∈ frames,
        f.WellFormed fromSlice channel r.limits ∧ f.text.length ≤ maxBufferSize) →
      (reads.map (·.bytes)).flatten <+: frames.flatMap SentFrame.encode →
      ∃ outs d, readAll (FrameDecoder.read fromSlice) (.new channel) reads = .ok (outs, d) := by
  intro hclaim
  obtain ⟨blanks, hblanks, hnone⟩ :
      ∃ blanks : List UInt8, blanks.length = 32755 ∧ newline ∉ blanks :=
    ⟨List.replicate 32755 32, List.length_replicate,
      fun h => absurd (List.eq_of_mem_replicate h) (by decide)⟩
  have hlength := length_paddedText hblanks
  have htext := newline_notMem_paddedText hnone
  let limits := ImageLimits.detector 0 0 0
  let trailing : List UInt8 := [13, 10, 0, 0, 0, 5, 10]
  have hreads : ∀ r ∈ [(⟨paddedText blanks, limits⟩ : FrameDecoder.Read), ⟨trailing, limits⟩],
      r.bytes.length ≤ maxBufferSize ∧ r.limits = limits := by
    intro r hr
    simp only [List.mem_cons, List.not_mem_nil, or_false] at hr
    obtain rfl | rfl := hr
    · exact ⟨Nat.le_of_eq hlength, rfl⟩
    · exact ⟨by decide, rfl⟩
  obtain ⟨outs, d, hall⟩ := hclaim parseBinSize .histogram [paddedFrame blanks]
    [⟨paddedText blanks, limits⟩, ⟨trailing, limits⟩]
    (fun r hr => ⟨(hreads r hr).1, 0, 0, 0, (hreads r hr).2⟩)
    (by
      intro r hr f hf
      rw [List.mem_singleton.1 hf, (hreads r hr).2]
      exact ⟨paddedFrame_wellFormed hnone, Nat.le_of_eq hlength⟩)
    ⟨[], by simp [SentFrame.encode, SentFrame.block, SentFrame.line, Block.encode, paddedFrame,
      trailing, carriageReturn, newline]⟩
  -- The first read is held back, the second brings the newline.
  let start : FrameBuffer Accepted := (FrameDecoder.new .histogram).buffer
  let held : FrameBuffer Accepted := { start with bytes := paddedText blanks }
  have hpushed : start.append (paddedText blanks) = .ok held := by
    have hroom : ¬ (start.bytes.length > start.maxBuffered ∨
        (paddedText blanks).length > start.maxBuffered - start.bytes.length) := by
      rw [hlength]
      decide
    rw [FrameBuffer.append, if_neg hroom]
    rfl
  have hfirst : (FrameDecoder.new .histogram).read parseBinSize ⟨paddedText blanks, limits⟩ =
      .ok ([], { FrameDecoder.new .histogram with buffer := held, limits }) :=
    FrameDecoder.read_of_none hpushed
      (FrameBuffer.next_of_no_newline rfl htext (Nat.le_of_eq hlength))
  have hpushed' : held.append trailing =
      .ok { start with bytes := paddedText blanks ++ trailing } := by
    have hroom : ¬ (held.bytes.length > held.maxBuffered ∨
        trailing.length > held.maxBuffered - held.bytes.length) := by
      show ¬ ((paddedText blanks).length > start.maxBuffered ∨
        trailing.length > start.maxBuffered - (paddedText blanks).length)
      rw [hlength]
      decide
    rw [FrameBuffer.append, if_neg hroom]
  have hline : newline ∉ paddedText blanks ++ [carriageReturn] := by
    rw [List.mem_append, not_or]
    exact ⟨htext, by decide⟩
  have hlong : start.maxHeader < (paddedText blanks ++ [carriageReturn]).length := by
    rw [List.length_append, hlength]
    decide
  have hbytes : paddedText blanks ++ trailing =
      (paddedText blanks ++ [carriageReturn]) ++ newline :: [0, 0, 0, 5, 10] := by
    simp [trailing, newline, carriageReturn]
  have hsecond : FrameDecoder.read parseBinSize
      { FrameDecoder.new .histogram with buffer := held, limits } ⟨trailing, limits⟩ =
      .error .headerTooLarge :=
    FrameDecoder.read_of_error hpushed' (FrameBuffer.next_of_long_line rfl hbytes hline hlong)
  simp only [readAll, hfirst, hsecond] at hall
  cases hall

end TimePix
