import Mathlib.Logic.Relation
import EpicsIocs.Merlin.Protocol

/-! # Commands and their replies

`MpxConnection` (`connection.rs`) writes a command and reads frames until one echoes its kind and
name.  Replies have no number, and nothing is flushed: a reply that comes after its transaction timed
out stays in the stream.  Of the requests that the server has received, `pending` are those with no
byte of the reply read yet.  Over every run of transactions and server actions,

    a transaction that returns decodes its own reply
      ↔ no pending request has its kind and name             (returned_own_iff)

as long as what is left of a frame that a timeout cut holds no magic. -/

namespace Merlin

/-! ## The code -/

/-- The bytes behind the first magic: the window slides over anything else. -/
def skipToMagic : List UInt8 → Option (List UInt8)
  | [] => none
  | b :: bs => if (b :: bs).take 3 = mpxHeader then some (bs.drop 2) else skipToMagic bs

/-- What reading a frame comes to, and the bytes behind it. -/
inductive FrameRead where
  | frame (body rest : List UInt8)
  | refused (e : MpxError) (rest : List UInt8)
  | starved
  deriving DecidableEq

section Code

variable (atoi : List UInt8 → Int) (maxFrame : Nat)

/-- `read_frame_into`, on the bytes that arrive before a read times out or the socket closes; they
are all used up where more are asked for. -/
def readFrame (available : List UInt8) : FrameRead :=
  match skipToMagic available with
  | none => .starved
  | some rest =>
    if rest.length < mpxFrameHeaderLen - 3 then .starved
    else
      match parseFrameHeader atoi (mpxHeader ++ rest.take (mpxFrameHeaderLen - 3)) maxFrame with
      | .error e => .refused e (rest.drop (mpxFrameHeaderLen - 3))
      | .ok n =>
        if (rest.drop (mpxFrameHeaderLen - 3)).length < n then .starved
        else .frame ((rest.drop (mpxFrameHeaderLen - 3)).take n)
          ((rest.drop (mpxFrameHeaderLen - 3)).drop n)

inductive ChannelError where
  | timeoutOrTransport
  | protocol (e : MpxError)
  deriving DecidableEq

/-- The body that the loop of `transact` breaks with, and the bytes behind it.  A frame takes fifteen
bytes at least. -/
def transactLoop (kind : MpxKind) (name : List UInt8) :
    Nat → List UInt8 → Except ChannelError (List UInt8) × List UInt8
  | 0, available => (.error .timeoutOrTransport, available)
  | n + 1, available =>
    match readFrame atoi maxFrame available with
    | .starved => (.error .timeoutOrTransport, [])
    | .refused e rest => (.error (.protocol e), rest)
    | .frame body rest =>
      if responseEchoes body kind name then (.ok body, rest) else transactLoop kind name n rest

/-- A call of `set`, `get` or `command`. -/
inductive Call where
  | set (name value : List UInt8)
  | get (name : List UInt8)
  | command (name : List UInt8)
  deriving DecidableEq

namespace Call

def kind : Call → MpxKind
  | set .. => .set
  | get _ => .get
  | command _ => .cmd

def name : Call → List UInt8
  | set name _ | get name | command name => name

def value : Call → Option (List UInt8)
  | set _ value => some value
  | get _ | command _ => none

/-- What the call makes of a body: the value, or an acknowledgement. -/
def decode (call : Call) (body : List UInt8) : Except MpxError (Option (List UInt8)) :=
  match call with
  | get _ => (decodeGet atoi body).map some
  | set .. | command _ => (decodeAck atoi body).map fun _ => none

end Call

/-- `transact`, where `available` arrives. -/
def transact (call : Call) (available : List UInt8) :
    Except ChannelError (List UInt8) × List UInt8 :=
  match encode call.kind call.name call.value with
  | .error e => (.error (.protocol e), available)
  | .ok _ => transactLoop atoi maxFrame call.kind call.name (available.length + 1) available

/-- The result of a call. -/
def Call.result (call : Call) (reply : Except ChannelError (List UInt8)) :
    Except ChannelError (Option (List UInt8)) :=
  match reply with
  | .error e => .error e
  | .ok body =>
    match call.decode atoi body with
    | .error e => .error (.protocol e)
    | .ok v => .ok v

end Code

/-! ## The channel -/

/-- A request that the server has received. -/
structure Request where
  id : Nat
  kind : MpxKind
  name : List UInt8
  deriving DecidableEq

/-- A frame that the server has sent, and the request that it answers. -/
structure Frame where
  body : List UInt8
  answers : Option Request
  deriving DecidableEq

def Frame.bytes (f : Frame) : List UInt8 := frameHeader f.body ++ f.body

def wire (frames : List Frame) : List UInt8 := frames.flatMap Frame.bytes

/-- The stream from the server, by frames: the rest of one that was begun, and whole ones; and the
requests that it has not answered. -/
structure Channel where
  tail : List UInt8
  frames : List Frame
  waiting : List Request
  count : Nat
  deriving DecidableEq

namespace Channel

def start : Channel := ⟨[], [], [], 0⟩

def unread (c : Channel) : List UInt8 := c.tail ++ wire c.frames

/-- The requests with no byte of the answer read yet. -/
def pending (c : Channel) : List Request := c.frames.filterMap Frame.answers ++ c.waiting

/-- The request of a call; its id is its number. -/
def own (c : Channel) (call : Call) : Request := ⟨c.count, call.kind, call.name⟩

/-- A call's command is written, where it can be encoded; `received` is whether it gets through. -/
def write (c : Channel) (call : Call) (received : Bool) : Channel :=
  match encode call.kind call.name call.value with
  | .error _ => c
  | .ok _ =>
    { c with
      waiting := if received then c.waiting ++ [c.own call] else c.waiting
      count := c.count + 1 }

end Channel

/-- `n` bytes are read. -/
def readBytes : Nat → List UInt8 → List Frame → List UInt8 × List Frame
  | n, tail, frames =>
    if n ≤ tail.length then (tail.drop n, frames)
    else
      match frames with
      | [] => ([], [])
      | f :: frames => readBytes (n - tail.length) f.bytes frames

def Channel.advance (c : Channel) (n : Nat) : Channel :=
  { c with tail := (readBytes n c.tail c.frames).1, frames := (readBytes n c.tail c.frames).2 }

/-! ## Frames in the stream -/

theorem three_le_of_magic {l : List UInt8} (h : l.take 3 = mpxHeader) : 3 ≤ l.length := by
  have hlen := congrArg List.length h
  rw [List.length_take, show mpxHeader.length = 3 from rfl] at hlen
  omega

theorem three_le_of_skip {available rest : List UInt8} (h : skipToMagic available = some rest) :
    3 ≤ available.length := by
  induction available with
  | nil => cases h
  | cons b bs ih =>
    rw [skipToMagic] at h
    by_cases hmagic : (b :: bs).take 3 = mpxHeader
    · exact three_le_of_magic hmagic
    · rw [if_neg hmagic] at h
      have := ih h
      rw [List.length_cons]
      omega

theorem skipToMagic_append {available rest : List UInt8} (x : List UInt8)
    (h : skipToMagic available = some rest) : skipToMagic (available ++ x) = some (rest ++ x) := by
  induction available with
  | nil => cases h
  | cons b bs ih =>
    have hlen := three_le_of_skip h
    have htake : (b :: (bs ++ x)).take 3 = (b :: bs).take 3 := by
      rw [← List.cons_append, List.take_append_of_le_length hlen]
    rw [List.length_cons] at hlen
    rw [skipToMagic] at h
    rw [List.cons_append, skipToMagic, htake]
    by_cases hmagic : (b :: bs).take 3 = mpxHeader
    · rw [if_pos hmagic] at h
      rw [if_pos hmagic, List.drop_append_of_le_length (by omega), Option.some.inj h]
    · rw [if_neg hmagic] at h
      rw [if_neg hmagic]
      exact ih h

/-- No magic lies across the end of a rest without one and the start of a frame. -/
theorem skipToMagic_tail {tail : List UInt8} (h : skipToMagic tail = none) (more : List UInt8) :
    skipToMagic (tail ++ (mpxHeader ++ more)) = some more := by
  induction tail with
  | nil => rfl
  | cons b bs ih =>
    rw [skipToMagic] at h
    by_cases hmagic : (b :: bs).take 3 = mpxHeader
    · rw [if_pos hmagic] at h
      cases h
    · rw [if_neg hmagic] at h
      have hnot : (b :: (bs ++ (mpxHeader ++ more))).take 3 ≠ mpxHeader := by
        match bs with
        | [] =>
          show [b, 77, 80] ≠ [77, 80, 88]
          simp
        | [a] =>
          show [b, a, 77] ≠ [77, 80, 88]
          simp
        | a :: a' :: _ => exact hmagic
      rw [List.cons_append, skipToMagic, if_neg hnot]
      exact ih h

section Reader

variable {atoi : List UInt8 → Int} {maxFrame : Nat} {names : List UInt8 → Prop}

theorem readFrame_append {available body rest : List UInt8} (x : List UInt8)
    (h : readFrame atoi maxFrame available = .frame body rest) :
    readFrame atoi maxFrame (available ++ x) = .frame body (rest ++ x) := by
  unfold readFrame at h ⊢
  cases hskip : skipToMagic available with
  | none =>
    rw [hskip] at h
    cases h
  | some behind =>
    rw [hskip] at h
    rw [skipToMagic_append x hskip]
    dsimp only at h ⊢
    by_cases hshort : behind.length < mpxFrameHeaderLen - 3
    · rw [if_pos hshort] at h
      cases h
    · rw [if_neg hshort] at h
      rw [if_neg (by rw [List.length_append]; omega),
        List.take_append_of_le_length (Nat.le_of_not_lt hshort),
        List.drop_append_of_le_length (Nat.le_of_not_lt hshort)]
      cases hheader : parseFrameHeader atoi
          (mpxHeader ++ behind.take (mpxFrameHeaderLen - 3)) maxFrame with
      | error e =>
        rw [hheader] at h
        cases h
      | ok n =>
        rw [hheader] at h
        dsimp only at h ⊢
        by_cases hfew : (behind.drop (mpxFrameHeaderLen - 3)).length < n
        · rw [if_pos hfew] at h
          cases h
        · rw [if_neg hfew] at h
          rw [if_neg (by rw [List.length_append]; omega),
            List.take_append_of_le_length (Nat.le_of_not_lt hfew),
            List.drop_append_of_le_length (Nat.le_of_not_lt hfew)]
          cases h
          rfl

/-- A frame of the server: it echoes the request that it answers, or no command of the driver. -/
structure Frame.Served (names : List UInt8 → Prop) (f : Frame) : Prop where
  nonempty : f.body.length ≠ 0
  short : f.body.length + 1 < 2 ^ 31
  echoes : ∀ r, f.answers = some r → responseEchoes f.body r.kind r.name = true
  stray : f.answers = none → ∀ kind name, names name → responseEchoes f.body kind name = false

/-- The next frame is read behind a rest without magic, or refused for its size. -/
theorem readFrame_served (hatoi : ReadsLengths atoi) {tail : List UInt8}
    (htail : skipToMagic tail = none) {f : Frame} (hf : f.Served names) (more : List UInt8) :
    readFrame atoi maxFrame (tail ++ (f.bytes ++ more)) =
      if f.body.length ≥ maxFrame then .refused (.badBodySize f.body.length) (f.body ++ more)
      else .frame f.body more := by
  have hshape : f.bytes ++ more = mpxHeader ++
      ((comma :: (decimal mpxMsgLenDigits (f.body.length + 1) ++ [comma])) ++ (f.body ++ more)) := by
    unfold Frame.bytes frameHeader
    simp only [List.append_assoc]
  have hheader : mpxHeader ++ (comma :: (decimal mpxMsgLenDigits (f.body.length + 1) ++ [comma])) =
      frameHeader f.body := rfl
  have hlen : (comma :: (decimal mpxMsgLenDigits (f.body.length + 1) ++ [comma])).length =
      mpxFrameHeaderLen - 3 := rfl
  unfold readFrame
  rw [hshape, skipToMagic_tail htail]
  dsimp only
  rw [if_neg (by rw [List.length_append, hlen]; omega), ← hlen, List.take_left' rfl,
    List.drop_left' rfl, hheader, parseFrameHeader_frameHeader hatoi hf.short hf.nonempty]
  by_cases hlong : f.body.length ≥ maxFrame
  · rw [if_pos hlong, if_pos hlong]
  · rw [if_neg hlong, if_neg hlong]
    dsimp only
    rw [if_neg (by rw [List.length_append]; omega), List.take_left' rfl, List.drop_left' rfl]

/-- What is read is the next frame. -/
theorem readFrame_next (hatoi : ReadsLengths atoi) {tail : List UInt8}
    (htail : skipToMagic tail = none) {frames : List Frame} (hserved : ∀ f ∈ frames, f.Served names)
    {available x body rest : List UInt8} (hsplit : available ++ x = tail ++ wire frames)
    (hread : readFrame atoi maxFrame available = .frame body rest) :
    ∃ f behind, frames = f :: behind ∧ body = f.body ∧ rest ++ x = wire behind := by
  have hall := readFrame_append x hread
  rw [hsplit] at hall
  cases frames with
  | nil =>
    rw [wire, List.flatMap_nil, List.append_nil, readFrame, htail] at hall
    cases hall
  | cons f behind =>
    rw [wire, List.flatMap_cons, readFrame_served hatoi htail (hserved f List.mem_cons_self)] at hall
    by_cases hlong : f.body.length ≥ maxFrame
    · rw [if_pos hlong] at hall
      cases hall
    · rw [if_neg hlong] at hall
      obtain ⟨hbody, hrest⟩ := FrameRead.frame.inj hall
      exact ⟨f, behind, rfl, hbody.symm, hrest.symm⟩

/-- What the loop ends with is the first frame that echoes. -/
theorem transactLoop_ok (hatoi : ReadsLengths atoi) {kind : MpxKind} {name : List UInt8} {n : Nat}
    {tail : List UInt8} (htail : skipToMagic tail = none) {frames : List Frame}
    (hserved : ∀ f ∈ frames, f.Served names) {available x body rest : List UInt8}
    (hsplit : available ++ x = tail ++ wire frames)
    (h : transactLoop atoi maxFrame kind name n available = (.ok body, rest)) :
    ∃ before f behind, frames = before ++ f :: behind ∧
      (∀ g ∈ before, responseEchoes g.body kind name = false) ∧
      responseEchoes f.body kind name = true ∧ f.body = body ∧ rest ++ x = wire behind := by
  induction n generalizing tail frames available with
  | zero => cases h
  | succ n ih =>
    rw [transactLoop] at h
    cases hread : readFrame atoi maxFrame available with
    | starved =>
      rw [hread] at h
      cases h
    | refused e rest' =>
      rw [hread] at h
      cases h
    | frame body' rest' =>
      rw [hread] at h
      dsimp only at h
      obtain ⟨f, behind, rfl, rfl, hrest⟩ := readFrame_next hatoi htail hserved hsplit hread
      by_cases hecho : responseEchoes f.body kind name = true
      · rw [if_pos hecho] at h
        obtain ⟨hbody, rfl⟩ := Prod.mk.inj h
        exact ⟨[], f, behind, rfl, fun g hg => absurd hg List.not_mem_nil, hecho,
          Except.ok.inj hbody, hrest⟩
      · rw [if_neg hecho] at h
        have hnil : skipToMagic ([] : List UInt8) = none := rfl
        obtain ⟨before, g, behind', rfl, hbefore, hg⟩ := ih hnil
          (fun g hg => hserved g (List.mem_cons_of_mem _ hg)) hrest h
        refine ⟨f :: before, g, behind', rfl, fun k hk => ?_, hg⟩
        rcases List.mem_cons.1 hk with rfl | hk
        · exact Bool.eq_false_iff.2 hecho
        · exact hbefore k hk

end Reader

theorem Frame.length_bytes (f : Frame) : f.bytes.length = 15 + f.body.length := by
  rw [bytes, List.length_append, length_frameHeader]

theorem readBytes_suffix (n : Nat) (tail : List UInt8) (frames : List Frame) :
    (readBytes n tail frames).2 <:+ frames := by
  induction frames generalizing n tail with
  | nil =>
    rw [readBytes]
    split <;> exact List.suffix_rfl
  | cons f frames ih =>
    rw [readBytes]
    split
    · exact List.suffix_rfl
    · exact (ih _ _).trans (List.suffix_cons f frames)

/-- Behind a frame the stream stands at the next one. -/
theorem readBytes_frame {n : Nat} {tail : List UInt8} {before behind : List Frame} {f : Frame}
    (hn : n = tail.length + (wire before).length + f.bytes.length) :
    readBytes n tail (before ++ f :: behind) = ([], behind) := by
  have hf := f.length_bytes
  induction before generalizing n tail with
  | nil =>
    have hwire : (wire []).length = 0 := rfl
    rw [List.nil_append, readBytes, if_neg (by omega), show n - tail.length = f.bytes.length by omega]
    cases behind with
    | nil => rw [readBytes, if_pos (Nat.le_refl _), List.drop_length]
    | cons g behind => rw [readBytes, if_pos (Nat.le_refl _), List.drop_length]
  | cons g before ih =>
    have hwire : (wire (g :: before)).length = g.bytes.length + (wire before).length := by
      rw [wire, List.flatMap_cons, List.length_append]
      rfl
    rw [List.cons_append, readBytes, if_neg (by omega)]
    exact ih (by omega)

/-! ## Runs -/

section Runs

variable (atoi : List UInt8 → Int) (maxFrame : Nat) (names : List UInt8 → Prop)

/-- The server answers the first request, or sends something else. -/
inductive Serve : Channel → Channel → Prop
  | answer {c : Channel} {r : Request} {waiting : List Request} {f : Frame} :
      c.waiting = r :: waiting → f.answers = some r → f.Served names →
      Serve c { c with frames := c.frames ++ [f], waiting }
  | unsolicited {c : Channel} {f : Frame} :
      f.answers = none → f.Served names → Serve c { c with frames := c.frames ++ [f] }

/-- A call with the channel before it, the channel with all that the server has sent by its end, and
how many bytes of that arrive in time. -/
structure Transaction where
  before : Channel
  call : Call
  received : Bool
  during : Channel
  delivered : Nat

namespace Transaction

variable (t : Transaction)

def available : List UInt8 := t.during.unread.take t.delivered

def reply : Except ChannelError (List UInt8) := (transact atoi maxFrame t.call t.available).1

def result : Except ChannelError (Option (List UInt8)) :=
  t.call.result atoi (t.reply atoi maxFrame)

def after : Channel :=
  t.during.advance (t.available.length - (transact atoi maxFrame t.call t.available).2.length)

/-- The body is that of the answer to the call's own request, and the stream stands behind it. -/
def ReadOwn (body : List UInt8) : Prop :=
  ∃ before f, t.during.frames = before ++ f :: (t.after atoi maxFrame).frames ∧
    (t.after atoi maxFrame).tail = [] ∧ f.body = body ∧
    f.answers = some (t.before.own t.call)

/-- No earlier request of the kind and name has its answer still to be read. -/
def NoneAlike : Prop :=
  ∀ r ∈ t.before.pending, ¬ (r.kind = t.call.kind ∧ r.name = t.call.name)

/-- A value, an acknowledgement or an error code of the device. -/
def Returned : Prop :=
  (∃ v, t.result atoi maxFrame = .ok v) ∨
    ∃ code, t.result atoi maxFrame = .error (.protocol (.device code))

/-- What is returned is decoded from the answer to the call's own request. -/
def Paired : Prop :=
  t.Returned atoi maxFrame → ∃ body, t.ReadOwn atoi maxFrame body ∧
    t.result atoi maxFrame = t.call.result atoi (.ok body)

end Transaction

/-- The calls of a run, and the channel that it ends in. -/
inductive Run : List Transaction → Channel → Prop
  | start : Run [] Channel.start
  | serve {ts : List Transaction} {c c' : Channel} : Run ts c → Serve names c c' → Run ts c'
  | call {ts : List Transaction} {t : Transaction} : Run ts t.before → names t.call.name →
      Relation.ReflTransGen (Serve names) (t.before.write t.call t.received) t.during →
      Run (ts ++ [t]) (t.after atoi maxFrame)

/-- Frames of the server, and numbered requests. -/
structure Channel.Sound (names : List UInt8 → Prop) (c : Channel) : Prop where
  served : ∀ f ∈ c.frames, f.Served names
  numbered : ∀ r ∈ c.pending, r.id < c.count

theorem sound_start : Channel.start.Sound names :=
  ⟨fun _ h => absurd h List.not_mem_nil, fun _ h => absurd h List.not_mem_nil⟩

variable {atoi maxFrame names}

/-- What the server does leaves the pending requests as they are. -/
theorem Serve.pending {c c' : Channel} (h : Serve names c c') :
    c'.pending = c.pending ∧ c'.tail = c.tail ∧ c'.count = c.count ∧
      (c.Sound names → c'.Sound names) := by
  have hpending : c'.pending = c.pending := by
    cases h with
    | answer hwaiting hanswers hserved =>
      unfold Channel.pending
      rw [List.filterMap_append, hwaiting, List.append_assoc]
      simp only [List.filterMap_cons, hanswers, List.filterMap_nil]
      rfl
    | unsolicited hanswers hserved =>
      unfold Channel.pending
      rw [List.filterMap_append]
      simp only [List.filterMap_cons, hanswers, List.filterMap_nil, List.append_nil]
  have hframe : ∀ {f : Frame}, f.Served names → c.Sound names →
      ∀ g ∈ c.frames ++ [f], g.Served names := by
    intro f hf hsound g hg
    rcases List.mem_append.1 hg with hg | hg
    · exact hsound.served g hg
    · rwa [List.mem_singleton.1 hg]
  cases h with
  | answer hwaiting hanswers hserved =>
    exact ⟨hpending, rfl, rfl, fun hsound =>
      ⟨hframe hserved hsound, by rw [hpending]; exact hsound.numbered⟩⟩
  | unsolicited hanswers hserved =>
    exact ⟨hpending, rfl, rfl, fun hsound =>
      ⟨hframe hserved hsound, by rw [hpending]; exact hsound.numbered⟩⟩

theorem serves_pending {c c' : Channel} (h : Relation.ReflTransGen (Serve names) c c') :
    c'.pending = c.pending ∧ c'.tail = c.tail ∧ (c.Sound names → c'.Sound names) := by
  induction h with
  | refl => exact ⟨rfl, rfl, id⟩
  | tail _ hstep ih =>
    obtain ⟨hpending, htail, -, hsound⟩ := hstep.pending
    exact ⟨hpending.trans ih.1, htail.trans ih.2.1, hsound ∘ ih.2.2⟩

theorem sound_write {c : Channel} (h : c.Sound names) (call : Call) (received : Bool) :
    (c.write call received).Sound names := by
  unfold Channel.write
  cases encode call.kind call.name call.value with
  | error e => exact h
  | ok msg =>
    refine ⟨h.served, fun r hr => ?_⟩
    unfold Channel.pending at hr
    rcases List.mem_append.1 hr with hr | hr
    · exact Nat.lt_succ_of_lt (h.numbered r (List.mem_append_left _ hr))
    · cases received with
      | false => exact Nat.lt_succ_of_lt (h.numbered r (List.mem_append_right _ hr))
      | true =>
        rcases List.mem_append.1 hr with hr | hr
        · exact Nat.lt_succ_of_lt (h.numbered r (List.mem_append_right _ hr))
        · rw [List.mem_singleton.1 hr]
          exact Nat.lt_succ_self _

theorem sound_advance {c : Channel} (h : c.Sound names) (n : Nat) : (c.advance n).Sound names := by
  have hsuffix := readBytes_suffix n c.tail c.frames
  refine ⟨fun f hf => h.served f (hsuffix.subset hf), fun r hr => h.numbered r ?_⟩
  rcases List.mem_append.1 hr with hr | hr
  · exact List.mem_append_left _ ((hsuffix.filterMap _).subset hr)
  · exact List.mem_append_right _ hr

/-- The channels of a run are sound, and each call is written to one. -/
theorem Run.sound {ts : List Transaction} {c : Channel} (h : Run atoi maxFrame names ts c) :
    c.Sound names ∧ ∀ t ∈ ts, t.before.Sound names ∧ names t.call.name ∧
      Relation.ReflTransGen (Serve names) (t.before.write t.call t.received) t.during := by
  induction h with
  | start => exact ⟨sound_start names, fun _ h => absurd h List.not_mem_nil⟩
  | serve _ hstep ih => exact ⟨hstep.pending.2.2.2 ih.1, ih.2⟩
  | @call ts t _ hname hserves ih =>
    have hduring := (serves_pending hserves).2.2 (sound_write ih.1 t.call t.received)
    refine ⟨sound_advance hduring _, fun u hu => ?_⟩
    rcases List.mem_append.1 hu with hu | hu
    · exact ih.2 u hu
    · rw [List.mem_singleton.1 hu]
      exact ⟨ih.1, hname, hserves⟩

/-! ## Whose reply is decoded -/

theorem parseFrameHeader_error {header : List UInt8} {e : MpxError}
    (h : parseFrameHeader atoi header maxFrame = .error e) :
    e = .badHeader ∨ ∃ n, e = .badBodySize n := by
  unfold parseFrameHeader at h
  dsimp only at h
  split at h
  · exact .inl (Except.error.inj h).symm
  · split at h
    · exact .inl (Except.error.inj h).symm
    · split at h
      · exact .inr ⟨_, (Except.error.inj h).symm⟩
      · cases h

theorem readFrame_refused {available rest : List UInt8} {e : MpxError}
    (h : readFrame atoi maxFrame available = .refused e rest) (code : Int) : e ≠ .device code := by
  unfold readFrame at h
  cases hskip : skipToMagic available with
  | none =>
    rw [hskip] at h
    cases h
  | some behind =>
    rw [hskip] at h
    dsimp only at h
    by_cases hshort : behind.length < mpxFrameHeaderLen - 3
    · rw [if_pos hshort] at h
      cases h
    · rw [if_neg hshort] at h
      cases hheader : parseFrameHeader atoi
          (mpxHeader ++ behind.take (mpxFrameHeaderLen - 3)) maxFrame with
      | error e' =>
        rw [hheader] at h
        obtain ⟨rfl, -⟩ := FrameRead.refused.inj h
        rcases parseFrameHeader_error hheader with rfl | ⟨n, rfl⟩
        · exact MpxError.noConfusion
        · exact MpxError.noConfusion
      | ok n =>
        rw [hheader] at h
        dsimp only at h
        split at h <;> cases h

theorem transactLoop_error {kind : MpxKind} {name : List UInt8} {n : Nat} {available : List UInt8}
    {e : MpxError}
    (h : (transactLoop atoi maxFrame kind name n available).1 = .error (.protocol e)) (code : Int) :
    e ≠ .device code := by
  induction n generalizing available with
  | zero => cases h
  | succ n ih =>
    rw [transactLoop] at h
    cases hread : readFrame atoi maxFrame available with
    | starved =>
      rw [hread] at h
      cases h
    | refused e' rest =>
      rw [hread] at h
      cases h
      exact readFrame_refused hread code
    | frame body rest =>
      rw [hread] at h
      dsimp only at h
      by_cases hecho : responseEchoes body kind name = true
      · rw [if_pos hecho] at h
        cases h
      · rw [if_neg hecho] at h
        exact ih h

namespace Transaction

variable {t : Transaction}

/-- What is returned comes from a body, also an error code of the device. -/
theorem Returned.reply (h : t.Returned atoi maxFrame) :
    ∃ body, t.reply atoi maxFrame = .ok body := by
  cases hreply : t.reply atoi maxFrame with
  | ok body => exact ⟨body, rfl⟩
  | error e =>
    exfalso
    have hresult : t.result atoi maxFrame = .error e := by
      rw [result, hreply]
      rfl
    rcases h with ⟨v, hv⟩ | ⟨code, hcode⟩
    · rw [hresult] at hv
      cases hv
    · rw [hresult] at hcode
      cases hcode
      unfold Transaction.reply transact at hreply
      cases hencode : encode t.call.kind t.call.name t.call.value with
      | error e =>
        rw [hencode] at hreply
        unfold encode at hencode
        dsimp only at hencode hreply
        cases hreply
        split at hencode <;> cases hencode
      | ok msg =>
        rw [hencode] at hreply
        exact transactLoop_error hreply code rfl

/-- The body is that of the first frame that echoes the call. -/
theorem reply_first (hatoi : ReadsLengths atoi) (hsound : t.during.Sound names)
    (htail : skipToMagic t.during.tail = none) {body : List UInt8}
    (h : t.reply atoi maxFrame = .ok body) :
    ∃ before f, t.during.frames = before ++ f :: (t.after atoi maxFrame).frames ∧
      (t.after atoi maxFrame).tail = [] ∧ f.body = body ∧
      (∀ g ∈ before, responseEchoes g.body t.call.kind t.call.name = false) ∧
      responseEchoes f.body t.call.kind t.call.name = true := by
  have hsplit : t.available ++ t.during.unread.drop t.delivered =
      t.during.tail ++ wire t.during.frames :=
    List.take_append_drop _ _
  unfold Transaction.reply transact at h
  cases hencode : encode t.call.kind t.call.name t.call.value with
  | error e =>
    rw [hencode] at h
    cases h
  | ok msg =>
    rw [hencode] at h
    dsimp only at h
    obtain ⟨rest, hloop⟩ : ∃ rest, transactLoop atoi maxFrame t.call.kind t.call.name
        (t.available.length + 1) t.available = (.ok body, rest) := ⟨_, Prod.ext h rfl⟩
    have hout : (transact atoi maxFrame t.call t.available).2 = rest := by
      unfold transact
      rw [hencode]
      exact congrArg Prod.snd hloop
    obtain ⟨before, f, behind, hframes, hbefore, hecho, hbody, hrest⟩ :=
      transactLoop_ok hatoi htail hsound.served hsplit hloop
    have hlen := congrArg List.length hsplit
    have hlen' := congrArg List.length hrest
    have hwire : (wire t.during.frames).length =
        (wire before).length + (f.bytes.length + (wire behind).length) := by
      rw [hframes, wire, List.flatMap_append, List.flatMap_cons, List.length_append,
        List.length_append]
      rfl
    rw [List.length_append, List.length_append] at hlen
    rw [List.length_append] at hlen'
    have hread : readBytes (t.available.length - (transact atoi maxFrame t.call t.available).2.length)
        t.during.tail t.during.frames = ([], behind) := by
      rw [hframes, hout]
      apply readBytes_frame
      omega
    have hafter : (t.after atoi maxFrame).frames = behind ∧ (t.after atoi maxFrame).tail = [] :=
      ⟨congrArg Prod.snd hread, congrArg Prod.fst hread⟩
    exact ⟨before, f, by rw [hafter.1, hframes], hafter.2, hbody, hbefore, hecho⟩

/-- The pending requests of a call's channel are the earlier ones and, once written, its own. -/
theorem pending_during
    (hserves : Relation.ReflTransGen (Serve names) (t.before.write t.call t.received) t.during)
    {msg : List UInt8} (hencode : encode t.call.kind t.call.name t.call.value = .ok msg) :
    t.during.pending = t.before.pending ++ (if t.received then [t.before.own t.call] else []) ∧
      t.during.tail = t.before.tail := by
  obtain ⟨hpending, htail, -⟩ := serves_pending hserves
  unfold Channel.write at hpending htail
  rw [hencode] at hpending htail
  refine ⟨hpending.trans ?_, htail⟩
  unfold Channel.pending
  cases t.received with
  | true => exact (List.append_assoc _ _ _).symm
  | false => exact (List.append_nil _).symm

end Transaction

theorem encode_of_reply {t : Transaction} {body : List UInt8}
    (h : t.reply atoi maxFrame = .ok body) :
    ∃ msg, encode t.call.kind t.call.name t.call.value = .ok msg := by
  unfold Transaction.reply transact at h
  cases hencode : encode t.call.kind t.call.name t.call.value with
  | error e =>
    rw [hencode] at h
    cases h
  | ok msg => exact ⟨msg, rfl⟩

/-- Of two splits of a list, one at its end, where the element is not before the end. -/
theorem front_eq_of_last {α : Type} {a b p : List α} {x : α} (h : a ++ x :: b = p ++ [x])
    (hx : x ∉ p) : a = p := by
  have hlen := congrArg List.length h
  simp only [List.length_append, List.length_cons, List.length_nil] at hlen
  by_cases hlt : a.length < p.length
  · exfalso
    have hget := congrArg (·[a.length]?) h
    simp only [List.getElem?_append_right (Nat.le_refl a.length), Nat.sub_self,
      List.getElem?_cons_zero, List.getElem?_append_left hlt] at hget
    exact hx (List.mem_of_getElem? hget.symm)
  · exact (List.append_inj h (by omega)).1

section Pairing

variable {ts : List Transaction} {c : Channel} {t : Transaction}

/-- **A call that reads a body reads its own exactly where no pending request is like it.** -/
theorem readOwn_iff (hatoi : ReadsLengths atoi) (hrun : Run atoi maxFrame names ts c)
    (ht : t ∈ ts) (htail : skipToMagic t.before.tail = none) {body : List UInt8}
    (h : t.reply atoi maxFrame = .ok body) : t.ReadOwn atoi maxFrame body ↔ t.NoneAlike := by
  obtain ⟨hbefore, hname, hserves⟩ := hrun.sound.2 t ht
  have hduring := (serves_pending hserves).2.2 (sound_write hbefore t.call t.received)
  obtain ⟨msg, hencode⟩ := encode_of_reply h
  obtain ⟨hpending, htail'⟩ := t.pending_during hserves hencode
  have hown : t.before.own t.call ∉ t.before.pending := fun hmem =>
    Nat.lt_irrefl _ (hbefore.numbered _ hmem)
  obtain ⟨front, f, hframes, hrest, hbody, hskipped, hecho⟩ :=
    t.reply_first hatoi hduring (htail'.symm ▸ htail) h
  have hf : f ∈ t.during.frames := by
    rw [hframes]
    exact List.mem_append_right _ List.mem_cons_self
  constructor
  · rintro ⟨front', f', hframes', -, -, hanswers⟩
    -- the frame that was read is the one of the own answer
    obtain ⟨rfl, hcons⟩ := List.append_inj' (hframes'.symm.trans hframes) (by simp)
    obtain rfl : f' = f := (List.cons.inj hcons).1
    have hsplit : front'.filterMap Frame.answers ++ t.before.own t.call ::
        ((t.after atoi maxFrame).frames.filterMap Frame.answers ++ t.during.waiting) =
          t.during.pending := by
      unfold Channel.pending
      rw [hframes, List.filterMap_append, List.append_assoc]
      simp only [List.filterMap_cons, hanswers, List.cons_append]
    rw [hpending] at hsplit
    cases hreceived : t.received with
    | false =>
      rw [hreceived, if_neg Bool.false_ne_true, List.append_nil] at hsplit
      exfalso
      apply hown
      rw [← hsplit]
      exact List.mem_append_right _ List.mem_cons_self
    | true =>
      rw [hreceived, if_pos rfl] at hsplit
      intro r hr halike
      rw [← front_eq_of_last hsplit hown] at hr
      obtain ⟨g, hg, hgr⟩ := List.mem_filterMap.1 hr
      have hgecho := (hduring.served g (hframes ▸ List.mem_append_left _ hg)).echoes r hgr
      rw [halike.1, halike.2, hskipped g hg] at hgecho
      cases hgecho
  · intro hnone
    refine ⟨front, f, hframes, hrest, hbody, ?_⟩
    cases hanswers : f.answers with
    | none =>
      have hstray := (hduring.served f hf).stray hanswers t.call.kind t.call.name hname
      rw [hecho] at hstray
      cases hstray
    | some r =>
      obtain ⟨hkind, hsame⟩ := echo_unique ((hduring.served f hf).echoes r hanswers) hecho
      have hmem : r ∈ t.during.pending :=
        List.mem_append_left _ (List.mem_filterMap.2 ⟨f, hf, hanswers⟩)
      rw [hpending] at hmem
      rcases List.mem_append.1 hmem with hold | hnew
      · exact absurd ⟨hkind, hsame⟩ (hnone r hold)
      · cases hreceived : t.received with
        | false =>
          rw [hreceived] at hnew
          cases hnew
        | true =>
          rw [hreceived] at hnew
          rw [List.mem_singleton.1 hnew]

/-- **In every run whose calls each find no pending request of their kind and name, and no magic in
what is left of a frame, each result is decoded from the answer to its own request**; and only
then. -/
theorem replies_paired (hatoi : ReadsLengths atoi) (hrun : Run atoi maxFrame names ts c) :
    ((∀ t ∈ ts, skipToMagic t.before.tail = none ∧ t.NoneAlike) →
      ∀ t ∈ ts, t.Paired atoi maxFrame) ∧
    ∀ t ∈ ts, skipToMagic t.before.tail = none → t.Returned atoi maxFrame →
      (t.Paired atoi maxFrame ↔ t.NoneAlike) := by
  have hpaired : ∀ t ∈ ts, skipToMagic t.before.tail = none → t.NoneAlike →
      t.Paired atoi maxFrame := by
    intro t ht htail hnone hreturned
    obtain ⟨body, hbody⟩ := hreturned.reply
    exact ⟨body, (readOwn_iff hatoi hrun ht htail hbody).2 hnone, by
      rw [Transaction.result, hbody]⟩
  refine ⟨fun hready t ht => hpaired t ht (hready t ht).1 (hready t ht).2,
    fun t ht htail hreturned => ⟨fun hown => ?_, hpaired t ht htail⟩⟩
  obtain ⟨body, hbody⟩ := hreturned.reply
  obtain ⟨body', ⟨front, f, hframes, hrest, hf, hanswers⟩, -⟩ := hown hreturned
  refine (readOwn_iff hatoi hrun ht htail hbody).1 ⟨front, f, hframes, hrest, ?_, hanswers⟩
  -- the frame in front of what is left is the one that was read
  obtain ⟨hsound, -, hserves⟩ := hrun.sound.2 t ht
  obtain ⟨msg, hencode⟩ := encode_of_reply hbody
  obtain ⟨front', f', hframes', -, hf', -⟩ := t.reply_first hatoi
    ((serves_pending hserves).2.2 (sound_write hsound t.call t.received))
    ((t.pending_during hserves hencode).2.symm ▸ htail) hbody
  obtain ⟨-, hcons⟩ := List.append_inj' (hframes.symm.trans hframes') (by simp)
  rw [(List.cons.inj hcons).1, hf']

end Pairing

end Runs

/-! ## A late reply -/

/-- `GET` of a variable `X`. -/
def getX : Call := .get [88]

/-- `GET,X,<digit>,0`, for request `id`. -/
def answerX (id : Nat) (digit : UInt8) : Frame :=
  ⟨[71, 69, 84, 44, 88, 44, digit, 44, 48], some ⟨id, .get, [88]⟩⟩

theorem served_answerX (id : Nat) {digit : UInt8} (h : digit = 49 ∨ digit = 50) :
    (answerX id digit).Served fun _ => True where
  nonempty := Nat.succ_ne_zero 8
  short := by
    show 9 + 1 < 2 ^ 31
    decide
  echoes := by
    rintro r hr
    obtain rfl := Option.some.inj hr
    rcases h with rfl | rfl
    · show responseEchoes [71, 69, 84, 44, 88, 44, 49, 44, 48] .get [88] = true
      decide +kernel
    · show responseEchoes [71, 69, 84, 44, 88, 44, 50, 44, 48] .get [88] = true
      decide +kernel
  stray := fun hnone => by cases hnone

/-- One call, answered at once. -/
def promptGet : Transaction where
  before := .start
  call := getX
  received := true
  during := ⟨[], [answerX 0 49], [], 1⟩
  delivered := 24

theorem run_promptGet : Run digitsAtoi mpxMaxline (fun _ => True) [promptGet]
    (promptGet.after digitsAtoi mpxMaxline) := by
  apply @Run.call _ _ _ [] promptGet Run.start trivial
  apply Relation.ReflTransGen.single
  exact @Serve.answer _ (Channel.start.write getX true) ⟨0, .get, [88]⟩ [] (answerX 0 49)
    (by decide +kernel) rfl (served_answerX 0 (.inl rfl))

/-- The prompt reply is the call's own. -/
theorem replies_paired_prompt : promptGet.Paired digitsAtoi mpxMaxline :=
  (replies_paired digitsAtoi_readsLengths run_promptGet).1
    (fun t ht => by
      rw [List.mem_singleton.1 ht]
      exact ⟨rfl, fun r hr => absurd hr List.not_mem_nil⟩)
    promptGet List.mem_cons_self

/-- The first of two calls: its reply does not come in time. -/
def lateGet : Transaction where
  before := .start
  call := getX
  received := true
  during := ⟨[], [], [⟨0, .get, [88]⟩], 1⟩
  delivered := 0

/-- The second one, which finds both replies. -/
def nextGet : Transaction where
  before := ⟨[], [], [⟨0, .get, [88]⟩], 1⟩
  call := getX
  received := true
  during := ⟨[], [answerX 0 49, answerX 1 50], [], 2⟩
  delivered := 48

/-- The server says 1, then 2; the second call returns the 1, which answers the first. -/
theorem late_reply_returned :
    (∃ c, Run digitsAtoi mpxMaxline (fun _ => True) [lateGet, nextGet] c) ∧
      nextGet.result digitsAtoi mpxMaxline = .ok (some [49]) ∧
      ¬ nextGet.Paired digitsAtoi mpxMaxline := by
  have hresult : nextGet.result digitsAtoi mpxMaxline = .ok (some [49]) := by decide +kernel
  refine ⟨⟨nextGet.after digitsAtoi mpxMaxline, ?_⟩, hresult, fun hpaired => ?_⟩
  · have hfirst : Run digitsAtoi mpxMaxline (fun _ => True) [lateGet]
        (lateGet.after digitsAtoi mpxMaxline) := by
      apply @Run.call _ _ _ [] lateGet Run.start trivial
      rw [show lateGet.before.write lateGet.call lateGet.received = lateGet.during by
        decide +kernel]
    rw [show lateGet.after digitsAtoi mpxMaxline = nextGet.before by decide +kernel] at hfirst
    apply @Run.call _ _ _ [lateGet] nextGet hfirst trivial
    have hwritten : nextGet.before.write nextGet.call nextGet.received =
        ⟨[], [], [⟨0, .get, [88]⟩, ⟨1, .get, [88]⟩], 2⟩ := by
      decide +kernel
    rw [hwritten]
    exact .tail (.single (.answer rfl rfl (served_answerX 0 (.inl rfl))))
      (.answer rfl rfl (served_answerX 1 (.inr rfl)))
  · obtain ⟨body, ⟨front, f, hframes, -, -, hanswers⟩, -⟩ := hpaired (.inl ⟨_, hresult⟩)
    have hbehind : (nextGet.after digitsAtoi mpxMaxline).frames = [answerX 1 50] := by
      decide +kernel
    rw [hbehind] at hframes
    obtain ⟨-, hcons⟩ := List.append_inj' (show [] ++ [answerX 0 49, answerX 1 50] = _ from hframes)
      rfl
    rw [← (List.cons.inj hcons).1] at hanswers
    cases hanswers

end Merlin
