import EpicsIocs.Lib.Arrivals
import EpicsIocs.Lib.Framing
import EpicsIocs.Merlin.Protocol

/-! # Finding frames again

`read_frame` (`connection.rs`) on a stream with anything between its frames: it slides a window of
three bytes to the next magic and reads the frame behind it.

    of the calls on junk, frame, junk, frame, ... , however it is cut into reads and wherever reads
    time out in the junk, those that do not return a time-out return the bodies in order
                                                                            (frames_recovered) -/

namespace Merlin

open Arrivals Framing

/-! ## The code -/

inductive DetectorType where
  | merlin
  | merlinXbpm
  | uomXbpm
  | merlinQuad
  deriving DecidableEq, Repr

/-- Header of 256 bytes, 256 * 256 pixels of 32 bits, type and separators. -/
def mpxImgFrameLen24 : Nat := 256 + 65536 * 2 * 2 + 3 + 2
def maxBuffMerlinQuad : Nat := 2000000
def maxBuffUom : Nat := 5300000

def DetectorType.maxFrameBytes : DetectorType → Nat
  | merlin | merlinXbpm => mpxImgFrameLen24
  | merlinQuad => maxBuffMerlinQuad
  | uomXbpm => maxBuffUom

/-- The two connections of a driver. -/
inductive MpxConnection where
  | cmd
  | data (detType : DetectorType)
  deriving DecidableEq, Repr

def MpxConnection.maxFrame : MpxConnection → Nat
  | cmd => mpxMaxline
  | data detType => detType.maxFrameBytes

/-- The window slides by one byte until it is the magic.  A round that goes on takes a byte, so that
one more round than there are bytes is enough. -/
def slideWindow : Nat → List UInt8 → Reader UInt8 MpxError (List UInt8)
  | 0, _ => fun arrivals => (.waiting, arrivals)
  | n + 1, window =>
    if window = mpxHeader then fun arrivals => (.done window, arrivals)
    else (readExact ((window.drop 1).length + 1) (window.drop 1)).andThen (slideWindow n)

section Code

variable (atoi : List UInt8 → Int) (maxFrame : Nat)

def readBody (header : List UInt8) : Reader UInt8 MpxError (List UInt8) :=
  match parseFrameHeader atoi header maxFrame with
  | .error e => Reader.refuse e
  | .ok n => readExact n []

/-- `read_frame_into`. -/
def readFrameInto : Reader UInt8 MpxError (List UInt8) :=
  (readExact mpxHeader.length []).andThen fun window arrivals =>
    ((slideWindow ((tokens arrivals).length + 1) window).andThen fun window =>
      (readExact (window.length + (mpxFrameHeaderLen - mpxHeader.length)) window).andThen
        (readBody atoi maxFrame)) arrivals

/-- What so many calls return, as far as they return. -/
def dataLoop : Nat → List (Arrival UInt8) → List (Except (ReadError MpxError) (List UInt8))
  | 0, _ => []
  | n + 1, arrivals =>
    match readFrameInto atoi maxFrame arrivals with
    | (.done body, rest) => .ok body :: dataLoop n rest
    | (.failed e, rest) => .error e :: dataLoop n rest
    | (.waiting, _) => []

end Code

/-! ## Streams -/

def frameBytes (body : List UInt8) : List UInt8 := frameHeader body ++ body

/-- A frame and what comes in front of it, `none` where a read times out. -/
structure Segment where
  gap : List (Option UInt8)
  body : List UInt8
  deriving DecidableEq, Repr

namespace Segment

variable (s : Segment)

def junk : List UInt8 := s.gap.reduceOption

def tokens : List (Option UInt8) := s.gap ++ (frameBytes s.body).map some

/-- The frame fits, and its own magic is the first one. -/
structure Sent (maxFrame : Nat) : Prop where
  two_le : 2 ≤ s.body.length + 1
  le_max : s.body.length + 1 ≤ maxFrame
  first : ∀ front, front ++ mpxHeader <+: s.junk ++ frameBytes s.body →
    s.junk.length ≤ front.length

end Segment

/-! ## One call -/

/-- The digits and commas of a header. -/
def headerRest (body : List UInt8) : List UInt8 :=
  comma :: (decimal mpxMsgLenDigits (body.length + 1) ++ [comma])

theorem frameBytes_eq (body : List UInt8) :
    frameBytes body = mpxHeader ++ (headerRest body ++ body) := by
  rw [frameBytes, frameHeader, headerRest, List.append_assoc]

theorem length_frameBytes (body : List UInt8) : (frameBytes body).length = 15 + body.length := by
  rw [frameBytes, List.length_append, length_frameHeader]

/-- Of two prefixes of one length, what is behind them. -/
theorem prefix_split {α : Type} {a b x y : List α} (h : a ++ x <+: b ++ y)
    (hlen : a.length = b.length) : a = b ∧ x <+: y := by
  obtain ⟨more, hmore⟩ := h
  rw [List.append_assoc] at hmore
  obtain ⟨hab, hxy⟩ := List.append_inj hmore hlen
  exact ⟨hab, ⟨more, hxy⟩⟩

/-- The bytes of a piece of the stream that were read. -/
theorem read_piece {bytes piece : List UInt8} {rest behind : List (Option UInt8)}
    (h : bytes.map some ++ rest <+: piece.map some ++ behind) (hlen : bytes.length = piece.length) :
    bytes = piece ∧ rest <+: behind := by
  obtain ⟨heq, hrest⟩ := prefix_split h (by rw [List.length_map, List.length_map, hlen])
  exact ⟨(List.map_injective_iff.2 (Option.some_injective _)) heq, hrest⟩

section Call

variable {atoi : List UInt8 → Int} {maxFrame : Nat} {s : Segment} {behind : List (Option UInt8)}
  {arrivals : List (Arrival UInt8)}

/-- Short of the frame the window is not the magic. -/
theorem Segment.Sent.window_ne (hs : s.Sent maxFrame) {front window : List UInt8}
    {rest : List (Option UInt8)}
    (h : (front ++ window).map some ++ rest <+: s.gap ++ ((frameBytes s.body).map some ++ behind))
    (hwindow : window.length = 3) (hfront : front.length < s.gap.length) :
    window ≠ mpxHeader := by
  rintro rfl
  have hread := (List.prefix_append _ _).trans h
  have hjunk : front.length + 1 ≤ s.junk.length :=
    length_le_reduceOption hread (by rw [List.length_append]; omega) hfront
  obtain ⟨more, hmore⟩ := hread
  have hbytes := congrArg List.reduceOption hmore
  simp only [List.reduceOption_append, reduceOption_map_some] at hbytes
  have hprefix : front ++ mpxHeader <+: s.junk ++ frameBytes s.body := by
    have hall : s.junk ++ frameBytes s.body <+:
        s.junk ++ (frameBytes s.body ++ behind.reduceOption) := by
      rw [← List.append_assoc]
      exact List.prefix_append _ _
    refine List.prefix_of_prefix_length_le ⟨more.reduceOption, hbytes⟩ hall ?_
    · rw [List.length_append, List.length_append, length_frameBytes, hwindow]
      omega
  have hfirst := hs.first front hprefix
  omega

/-- The window slides to the frame's magic. -/
theorem slideWindow_reads (hs : s.Sent maxFrame) {n k : Nat} {front window : List UInt8}
    (hopen : Open arrivals) (hwindow : window.length = 3)
    (hk : front.length + k = s.gap.length) (hn : (Arrivals.tokens arrivals).length < n)
    (h : (front ++ window).map some ++ Arrivals.tokens arrivals <+:
      s.gap ++ ((frameBytes s.body).map some ++ behind)) :
    Reads k (fun _ => mpxHeader) (Arrivals.tokens arrivals) (slideWindow n window arrivals) := by
  induction k generalizing n front window arrivals with
  | zero =>
    obtain ⟨n, rfl⟩ := Nat.exists_eq_succ_of_ne_zero (Nat.ne_of_gt (Nat.zero_lt_of_lt hn))
    rw [List.map_append, List.append_assoc] at h
    obtain ⟨-, hrest⟩ := prefix_split h (by rw [List.length_map]; exact hk)
    rw [frameBytes_eq, List.map_append, List.append_assoc] at hrest
    obtain ⟨rfl, -⟩ := read_piece hrest hwindow
    rw [slideWindow, if_pos rfl]
    exact Reads.here hopen rfl
  | succ k ih =>
    obtain ⟨n, rfl⟩ := Nat.exists_eq_succ_of_ne_zero (Nat.ne_of_gt (Nat.zero_lt_of_lt hn))
    rw [slideWindow, if_neg (hs.window_ne h hwindow (by omega)), Nat.add_comm k]
    apply Reads.andThen (readExact_reads 1 (window.drop 1) hopen)
    intro bytes rest hbytes hrest htokens
    have hslid : ((front ++ window.take 1) ++ (window.drop 1 ++ bytes)).map some ++
        Arrivals.tokens rest = (front ++ window).map some ++ Arrivals.tokens arrivals := by
      have hwhole : window.take 1 ++ (window.drop 1 ++ bytes) = window ++ bytes := by
        rw [← List.append_assoc, List.take_append_drop]
      rw [htokens, List.append_assoc, hwhole, ← List.append_assoc, @List.map_append _ _ _ (front ++ window),
        List.append_assoc]
    refine @ih rest n (front ++ window.take 1) (window.drop 1 ++ bytes) hrest ?_ ?_ ?_ ?_
    · rw [List.length_append, List.length_drop]
      omega
    · rw [List.length_append, List.length_take]
      omega
    · rw [htokens, List.length_append, List.length_map] at hn
      omega
    · rw [hslid]
      exact h

theorem parseFrameHeader_sent (hatoi : ReadsLengths atoi) (hmax : maxFrame < 2 ^ 31)
    (hs : s.Sent maxFrame) :
    parseFrameHeader atoi (mpxHeader ++ headerRest s.body) maxFrame = .ok s.body.length := by
  have htwo := hs.two_le
  have hle := hs.le_max
  rw [show mpxHeader ++ headerRest s.body = frameHeader s.body from rfl,
    parseFrameHeader_frameHeader hatoi (by omega) (by omega), if_neg (by omega)]

/-- A call reads the gap and the frame, or not all of them. -/
theorem readFrameInto_reads (hatoi : ReadsLengths atoi) (hmax : maxFrame < 2 ^ 31)
    (hs : s.Sent maxFrame) (hopen : Open arrivals)
    (h : Arrivals.tokens arrivals <+: s.tokens ++ behind) :
    Reads s.tokens.length (fun _ => s.body) (Arrivals.tokens arrivals)
      (readFrameInto atoi maxFrame arrivals) := by
  have hlen : s.tokens.length = 3 + (s.gap.length + (12 + s.body.length)) := by
    rw [Segment.tokens, List.length_append, List.length_map, length_frameBytes]
    omega
  rw [Segment.tokens, List.append_assoc] at h
  rw [hlen]
  apply Reads.andThen (readExact_reads 3 [] hopen)
  intro window rest hwindow hrest htokens
  rw [htokens] at h
  -- the window is in front of the gap's end
  apply Reads.andThen (@slideWindow_reads _ _ _ _ hs _ _ [] _ hrest hwindow (Nat.zero_add _)
    (Nat.lt_succ_self _) h)
  intro slid rest' hslid hrest' htokens'
  have hread : Arrivals.tokens rest' <+: (headerRest s.body ++ s.body).map some ++ behind := by
    rw [htokens', ← List.append_assoc, ← List.map_append, frameBytes_eq,
      @List.map_append _ _ _ mpxHeader, List.append_assoc, ← List.append_assoc s.gap] at h
    refine (prefix_split h ?_).2
    rw [List.length_map, List.length_append, List.length_append, List.length_map, hwindow, hslid,
      Nat.add_comm]
    rfl
  apply Reads.andThen (readExact_reads 12 mpxHeader hrest')
  intro header rest'' hheader hrest'' htokens''
  rw [htokens'', List.map_append, List.append_assoc] at hread
  obtain ⟨rfl, hbody⟩ := read_piece hread hheader
  rw [readBody, parseFrameHeader_sent hatoi hmax hs]
  have hexact := @readExact_reads UInt8 MpxError s.body.length [] rest'' hrest''
  rw [List.length_nil, Nat.zero_add] at hexact
  refine hexact.congr fun body rest''' hlen htokens' => ?_
  rw [htokens'] at hbody
  exact (read_piece hbody hlen).1

end Call

/-! ## All calls -/

/-- What is returned but time-outs. -/
def answers (results : List (Except (ReadError MpxError) (List UInt8))) :
    List (Except (ReadError MpxError) (List UInt8)) :=
  results.filter fun r =>
    match r with
    | .error .timeout => false
    | _ => true

namespace Segment

variable {s : Segment} {maxFrame : Nat}

theorem tokens_ne_nil (s : Segment) : s.tokens ≠ [] := by
  intro hnil
  have hlen := congrArg List.length hnil
  rw [tokens, List.length_append, List.length_map, length_frameBytes, List.length_nil] at hlen
  omega

/-- What is left of a gap has no earlier magic. -/
theorem Sent.behind {bytes : List UInt8} {gap : List (Option UInt8)} (hs : s.Sent maxFrame)
    (hgap : s.gap = bytes.map some ++ none :: gap) : Sent { s with gap } maxFrame where
  two_le := hs.two_le
  le_max := hs.le_max
  first := by
    intro front hfront
    have hjunk : s.junk = bytes ++ gap.reduceOption := by
      rw [junk, hgap, List.reduceOption_append, reduceOption_map_some,
        List.reduceOption_cons_of_none]
    have hfirst := hs.first (bytes ++ front) (by
      rw [hjunk, List.append_assoc, List.append_assoc]
      exact (List.prefix_append_right_inj _).2 hfront)
    rw [hjunk, List.length_append, List.length_append] at hfirst
    exact Nat.le_of_add_le_add_left hfirst

end Segment

section Loop

variable {atoi : List UInt8 → Int} {maxFrame : Nat}

/-- The results of the calls are those of the frames that have arrived as a whole. -/
theorem dataLoop_answers (hatoi : ReadsLengths atoi) (hmax : maxFrame < 2 ^ 31) {n : Nat}
    {segs done left : List Segment} {tail : List (Option UInt8)}
    {arrivals : List (Arrival UInt8)} (hs : ∀ s ∈ segs, s.Sent maxFrame) (hopen : Open arrivals)
    (hcut : Cut Segment.tokens segs (tokens arrivals) done left tail)
    (hn : (tokens arrivals).length ≤ n) :
    answers (dataLoop atoi maxFrame n arrivals) = done.map fun s => .ok s.body := by
  induction n generalizing segs done left tail arrivals with
  | zero =>
    have hnil := List.eq_nil_of_length_eq_zero (Nat.le_zero.1 hn)
    rw [hcut.bytes_eq, List.append_eq_nil_iff] at hnil
    cases done with
    | nil => rfl
    | cons s done =>
      rw [List.flatMap_cons, List.append_eq_nil_iff] at hnil
      exact absurd hnil.1.1 s.tokens_ne_nil
  | succ n ih =>
    cases segs with
    | nil =>
      have hnil := List.prefix_nil.1 hcut.isPrefix
      obtain ⟨rfl, rfl⟩ := List.append_eq_nil_iff.1 hcut.frames_eq.symm
      have hread := @readExact_reads UInt8 MpxError 3 [] arrivals hopen
      rw [hnil] at hread
      have hwaits : readFrameInto atoi maxFrame arrivals = (.waiting, []) :=
        andThen_waiting (hread.of_nil (Nat.succ_pos 2))
      rw [dataLoop, hwaits]
      rfl
    | cons s segs =>
      obtain ⟨hsent, hothers⟩ := List.forall_mem_cons.1 hs
      have hprefix := hcut.isPrefix
      rw [List.flatMap_cons] at hprefix
      have hread := readFrameInto_reads hatoi hmax hsent hopen hprefix
      rw [dataLoop]
      generalize readFrameInto atoi maxFrame arrivals = r at hread ⊢
      cases hread with
      | @done bytes rest hbytes hrest htokens =>
        rw [htokens] at hprefix hcut hn
        obtain ⟨heq, -⟩ := prefix_split hprefix (by rw [List.length_map, hbytes])
        rw [heq] at hcut hn
        obtain ⟨done', rfl, hcut'⟩ := hcut.of_frame
        have hpos := List.length_pos_iff.2 s.tokens_ne_nil
        rw [List.length_append] at hn
        exact congrArg (Except.ok s.body :: ·) (ih hothers hrest hcut' (by omega))
      | @timeout bytes rest hbytes hrest htokens =>
        rw [htokens] at hprefix hcut hn
        rw [List.length_append, List.length_cons] at hn
        rw [Segment.tokens, List.length_append, List.length_map] at hbytes
        rw [Segment.tokens, List.append_assoc] at hprefix
        obtain ⟨gap, hgap, -⟩ := in_gap hprefix hbytes
        have hfront : s.tokens = (bytes.map some ++ [none]) ++ Segment.tokens { s with gap } := by
          rw [Segment.tokens, hgap]
          simp [Segment.tokens]
        rw [List.append_cons] at hcut
        have hsegs : ∀ s' ∈ { s with gap } :: segs, s'.Sent maxFrame :=
          List.forall_mem_cons.2 ⟨hsent.behind hgap, hothers⟩
        rcases hcut.of_front hfront with ⟨rfl, hcut'⟩ | ⟨done', rfl, hcut'⟩
        · exact ih hsegs hrest hcut' (by omega)
        · exact (ih hsegs hrest hcut' (by omega)).trans rfl
      | @waiting bytes hbytes htokens =>
        rw [hcut.of_short (by rw [htokens, List.length_map]; exact hbytes)]
        rfl

/-- **The calls that do not return a time-out return the bodies of the frames that have arrived, in
order, on either connection; and a message that is encoded is such a frame.** -/
theorem frames_recovered (hatoi : ReadsLengths atoi) (conn : MpxConnection) :
    (∀ (segs : List Segment) (arrivals : List (Arrival UInt8)) (n : Nat),
      (∀ s ∈ segs, s.Sent conn.maxFrame) → Open arrivals → (tokens arrivals).length ≤ n →
      (tokens arrivals = segs.flatMap Segment.tokens →
        answers (dataLoop atoi conn.maxFrame n arrivals) = segs.map fun s => .ok s.body) ∧
      (tokens arrivals <+: segs.flatMap Segment.tokens →
        ∃ done left tail, Cut Segment.tokens segs (tokens arrivals) done left tail ∧
          answers (dataLoop atoi conn.maxFrame n arrivals) = done.map fun s => .ok s.body)) ∧
    ∀ (kind : MpxKind) (name : List UInt8) (value : Option (List UInt8)) (msg : List UInt8),
      encode kind name value = .ok msg →
      parseFrameHeader atoi (msg.take mpxFrameHeaderLen) conn.maxFrame =
          .ok (msg.length - mpxFrameHeaderLen) ∧
        msg.drop mpxFrameHeaderLen =
          kind.text ++ comma :: name ++ (value.map fun v => comma :: v).getD [] := by
  have hmax : conn.maxFrame < 2 ^ 31 := by
    cases conn with
    | cmd => decide
    | data detType => cases detType <;> decide
  refine ⟨fun segs arrivals n hs hopen hn => ?_, fun kind name value msg hencode => ?_⟩
  · have hpart : tokens arrivals <+: segs.flatMap Segment.tokens →
        ∃ done left tail, Cut Segment.tokens segs (tokens arrivals) done left tail ∧
          answers (dataLoop atoi conn.maxFrame n arrivals) = done.map fun s => .ok s.body := by
      intro hprefix
      obtain ⟨done, left, tail, hcut⟩ :=
        exists_cut (fun s _ => s.tokens_ne_nil) hprefix
      exact ⟨done, left, tail, hcut, dataLoop_answers hatoi hmax hs hopen hcut hn⟩
    refine ⟨fun hall => ?_, hpart⟩
    obtain ⟨done, left, tail, hcut, hanswers⟩ := hpart (hall ▸ List.prefix_rfl)
    rw [hall] at hcut
    obtain ⟨rfl, rfl⟩ := hcut.of_all
    rw [hanswers, hcut.frames_eq, List.append_nil]
  · have hmin : 256 ≤ conn.maxFrame := by
      cases conn with
      | cmd => decide
      | data detType => cases detType <;> decide
    unfold encode at hencode
    dsimp only at hencode
    generalize hbody : kind.text ++ comma :: name ++ (value.map fun v => comma :: v).getD [] = body
      at hencode
    have hpos : 0 < body.length := by
      rw [← hbody]
      cases kind <;> exact Nat.succ_pos _
    by_cases hlong : (frameHeader body ++ body).length > mpxMaxline
    · rw [if_pos hlong] at hencode
      cases hencode
    · rw [if_neg hlong] at hencode
      obtain rfl := Except.ok.inj hencode
      have hlen : (frameHeader body ++ body).length = 15 + body.length := by
        rw [List.length_append, length_frameHeader]
      have hshort : 15 + body.length ≤ 256 := by
        rw [← hlen]
        exact Nat.not_lt.1 hlong
      have hheader : mpxFrameHeaderLen = (frameHeader body).length := rfl
      rw [hheader, List.take_left, List.drop_left, List.length_append, Nat.add_sub_cancel_left,
        parseFrameHeader_frameHeader hatoi (by omega) (by omega), if_neg (by omega)]
      exact ⟨rfl, rfl⟩

end Loop

/-! ## A stream -/

/-- `MMPX`, a time-out between the two, and a body that is the magic itself. -/
def doubled : Segment := ⟨[some 77, none], mpxHeader⟩

/-- It comes in two pieces, the second of which begins inside the magic. -/
def doubledArrivals : List (Arrival UInt8) :=
  [.chunk [77], .timeout, .chunk [77, 80], .chunk ((frameBytes mpxHeader).drop 2)]

theorem sent_doubled : doubled.Sent MpxConnection.cmd.maxFrame where
  two_le := by decide
  le_max := by decide
  first := by
    intro front hfront
    cases front with
    | nil =>
      obtain ⟨more, hmore⟩ := hfront
      cases hmore
    | cons b front => exact Nat.succ_le_succ (Nat.zero_le _)

/-- One call times out, and the next returns the body. -/
theorem doubled_recovered :
    answers (dataLoop digitsAtoi MpxConnection.cmd.maxFrame 22 doubledArrivals) =
      [.ok mpxHeader] :=
  ((frames_recovered digitsAtoi_readsLengths .cmd).1 [doubled] doubledArrivals 22
    (fun s hs => by rw [List.mem_singleton.1 hs]; exact sent_doubled)
    (by unfold Open; decide) (by decide)).1 (by decide)

end Merlin
