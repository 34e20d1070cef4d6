import EpicsIocs.EtherIp.Cip

/-!
# The scan pass (`driver.rs`, `send_routed` of `connection.rs`)

A tag's data with its write handshake, what one scan pass does with it
(`takeRequest`, `applyResponse`, `releaseWrite`, `invalidateTag`), the packer
`buildMultiRequest` and the pass `processScanList`.

A tag is named by its index in the scan list.  The walk of the packer runs over
the tags from `start` on; it stops at the index the next walk resumes from.

    takeRequest limit {t with data := d} = takeRequest limit t, up to the data kept
      when (d, _) is what takeRequest limit t left            (requestOf_taken)
-/

namespace EtherIp

open Bytes

/-! ## Tags -/

/-- `encap::BUFFER_SIZE`. -/
def bufferSize : Nat := 580

/-- `encap::DEFAULT_BUFFER_LIMIT`. -/
def defaultBufferLimit : Nat := 480

/-- The mutable half of a tag, guarded by one lock. -/
structure TagData where
  buf : List UInt8 := []
  validDataSize : Nat := 0
  doWrite : Bool := false
  isWriting : Bool := false
  rRequest : Nat := 0
  rResponse : Nat := 0
  wRequest : Nat := 0
  wResponse : Nat := 0
deriving DecidableEq, Repr

namespace TagData

def hasValue (d : TagData) : Bool := d.validDataSize > 0

/-- The tag takes part in scans: the probe read gave it sizes. -/
def usable (d : TagData) : Bool := !(d.rRequest == 0 || d.wRequest == 0)

/-- The two write flags at once; the rest is unchanged. -/
def setFlags (d : TagData) (doWrite isWriting : Bool) : TagData :=
  { d with doWrite := doWrite, isWriting := isWriting }

/-- The scan thread's half of the write handshake. -/
def takeWrite (d : TagData) : TagData := if d.doWrite then d.setFlags false true else d

section setFlags

variable (d : TagData) (a b : Bool)

@[simp] theorem setFlags_buf : (d.setFlags a b).buf = d.buf := rfl
@[simp] theorem setFlags_validDataSize : (d.setFlags a b).validDataSize = d.validDataSize := rfl
@[simp] theorem setFlags_doWrite : (d.setFlags a b).doWrite = a := rfl
@[simp] theorem setFlags_isWriting : (d.setFlags a b).isWriting = b := rfl
@[simp] theorem setFlags_rRequest : (d.setFlags a b).rRequest = d.rRequest := rfl
@[simp] theorem setFlags_rResponse : (d.setFlags a b).rResponse = d.rResponse := rfl
@[simp] theorem setFlags_wRequest : (d.setFlags a b).wRequest = d.wRequest := rfl
@[simp] theorem setFlags_wResponse : (d.setFlags a b).wResponse = d.wResponse := rfl
@[simp] theorem setFlags_usable : (d.setFlags a b).usable = d.usable := rfl

theorem setFlags_self {d : TagData} {a b : Bool} (ha : d.doWrite = a) (hb : d.isWriting = b) :
    d.setFlags a b = d := by
  subst ha hb
  rfl

end setFlags

end TagData

structure TagInfo where
  tag : ParsedTag
  /-- How many elements to request; a request carries it as a `u16`. -/
  elements : Nat
  data : TagData := {}
deriving DecidableEq, Repr

/-- `complete_tag_infos` for one tag: the sizes learned from the probe read's
outcome (`none`: the tag cannot be read). -/
def completeTagInfo (t : TagInfo) (reply : Option (List UInt8)) : TagInfo :=
  match reply with
  | some data =>
    let rRequest := readDataSize t.tag
    let (wRequest, wResponse) :=
      if data.isEmpty then (0, 0) else (rRequest + data.length, 4)
    { t with data := { t.data with
      rRequest := rRequest, rResponse := 4 + data.length
      wRequest := wRequest, wResponse := wResponse } }
  | none =>
    { t with data := { t.data with rRequest := 0, rResponse := 0, wRequest := 0, wResponse := 0 } }

/-! ## One tag in a pass -/

/-- What the packer took from a tag: its request and the sizes it budgets with. -/
structure Taken where
  writing : Bool
  reqSize : Nat
  respSize : Nat
  request : List UInt8
deriving DecidableEq, Repr

/-- The write request for a buffer `[type][data]` of type `ty`. -/
def writeRequest (limit : Nat) (tag : ParsedTag) (elements : Nat) (ty : CipType)
    (buf : List UInt8) : List UInt8 :=
  let raw := buf.drop typecodeSize
  if ty = .struct then encodeWriteString tag elements raw limit
  else encodeWriteData tag ty elements raw

def readTaken (t : TagInfo) : Taken where
  writing := false
  reqSize := t.data.rRequest
  respSize := t.data.rResponse
  request := encodeReadData t.tag (t.elements % 2 ^ 16)

def writeTaken (limit : Nat) (t : TagInfo) (ty : CipType) : Taken where
  writing := true
  reqSize := t.data.wRequest
  respSize := t.data.wResponse
  request := writeRequest limit t.tag (t.elements % 2 ^ 16) ty t.data.buf

/-- The body of the packer's walk under the tag's lock; `none` skips the tag. -/
def takeRequest (limit : Nat) (t : TagInfo) : Option (TagData × Taken) :=
  if t.data.usable then
    let d := t.data.takeWrite
    if d.isWriting then
      match typecode d.buf with
      | some ty => some (d, writeTaken limit t ty)
      -- no value staged: fall back to a read
      | none => some ({ d with isWriting := false }, readTaken t)
    else some (d, readTaken t)
  else none

/-- Take one sub-reply. -/
def applyResponse (writing : Bool) (sub : List UInt8) (d : TagData) : TagData :=
  if writing then
    let d := { d with isWriting := false }
    if checkWriteDataResponse sub then d else { d with validDataSize := 0 }
  else
    match checkReadDataResponse sub sub.length with
    | some data =>
      if data.isEmpty then { d with validDataSize := 0 }
      -- a write was staged while this read was in flight: its data stays
      else if d.doWrite then d
      else if data.length < bufferSize then { d with buf := data, validDataSize := data.length }
      else { d with validDataSize := 0 }
    | none => { d with validDataSize := 0 }

/-- `release_writes` for one item. -/
def releaseWrite (writing : Bool) (d : TagData) : TagData :=
  if writing then { d with isWriting := false } else d

/-- `invalidate_tags` for one tag. -/
def invalidateTag (d : TagData) : TagData :=
  { d with isWriting := false, doWrite := false, validDataSize := 0 }

/-- What a sub-reply leaves as it is: the sizes and a staged write, and the buffer
behind a write. -/
structure Replied (writing : Bool) (d d' : TagData) : Prop where
  usable : d'.usable = d.usable
  doWrite : d'.doWrite = d.doWrite
  isWriting : d'.isWriting = if writing then false else d.isWriting
  buf : writing ∨ d.doWrite → d'.buf = d.buf

theorem applyResponse_spec (writing : Bool) (sub : List UInt8) (d : TagData) :
    Replied writing d (applyResponse writing sub d) := by
  unfold applyResponse
  cases writing with
  | true =>
    simp only [if_true]
    split <;> exact ⟨rfl, rfl, rfl, fun _ => rfl⟩
  | false =>
    simp only [Bool.false_eq_true, if_false]
    split
    · split
      · exact ⟨rfl, rfl, rfl, fun _ => rfl⟩
      · split
        · exact ⟨rfl, rfl, rfl, fun _ => rfl⟩
        · rename_i hdo
          split
          · exact ⟨rfl, rfl, rfl, fun h => absurd h (by simpa using hdo)⟩
          · exact ⟨rfl, rfl, rfl, fun _ => rfl⟩
    · exact ⟨rfl, rfl, rfl, fun _ => rfl⟩

/-! ## The packer -/

structure Item where
  /-- Index of the tag in the scan list. -/
  info : Nat
  writing : Bool
  request : List UInt8
  responseSize : Nat
deriving DecidableEq, Repr

/-- `count` sub-requests of these sizes in all would pass the buffer limit. -/
def overLimit (limit count requestsSize responsesSize : Nat) : Bool :=
  multiRequestSize count requestsSize > limit || multiResponseSize count responsesSize > limit

/-- What the packer leaves: the tags, the items and the index to resume from. -/
structure Packed where
  tags : List TagInfo
  items : List Item
  next : Nat
deriving Repr

/-- The walk over the tags from index `at_` on. -/
def buildLoop (limit : Nat) : List TagInfo → Nat → List Item → Nat → Nat → Packed
  | [], at_, items, _, _ => ⟨[], items, at_⟩
  | t :: rest, at_, items, requestsSize, responsesSize =>
    match takeRequest limit t with
    | none =>
      let r := buildLoop limit rest (at_ + 1) items requestsSize responsesSize
      { r with tags := t :: r.tags }
    | some (d, b) =>
      let tryReq := requestsSize + b.reqSize
      let tryResp := responsesSize + b.respSize
      if overLimit limit (items.length + 1) tryReq tryResp then
        -- a tag that fits no request gives the write handshake back
        let d := if items.isEmpty then releaseWrite b.writing d else d
        ⟨{ t with data := d } :: rest, items, at_⟩
      else
        let r := buildLoop limit rest (at_ + 1)
          (items ++ [⟨at_, b.writing, b.request, b.respSize⟩]) tryReq tryResp
        { r with tags := { t with data := d } :: r.tags }

def buildMultiRequest (limit : Nat) (tags : List TagInfo) (start : Nat) : Packed :=
  let r := buildLoop limit (tags.drop start) start [] 0 0
  { r with tags := tags.take start ++ r.tags }

/-! ## Sending -/

/-- The errors of a transfer; what they carry is only printed. -/
inductive EipError
  | tooLarge (size limit : Nat)
  | send
  | transactionMismatch
  | malformed
  | encapStatus
  | other
deriving DecidableEq, Repr

/-- `Connection::send_routed`; `sendRr` is the exchange with the PLC. -/
def sendRouted (limit : Nat) (slot : UInt8) (sendRr : List UInt8 → Except EipError (List UInt8))
    (message : List UInt8) : Except EipError (List UInt8) :=
  let size := unconnectedSendSize message.length
  if size > limit then .error (.tooLarge size limit)
  else sendRr (encodeUnconnectedSend message slot)

/-! ## The pass -/

/-- The tags, and what the pass did so far: the tags of each MultiRequest sent,
the tags whose reply was applied and the tags whose listeners were notified. -/
structure Pass where
  tags : List TagInfo
  sent : List (List Nat) := []
  applied : List Nat := []
  notified : List Nat := []

def modifyData (f : TagData → TagData) (t : TagInfo) : TagInfo := { t with data := f t.data }

def releaseWrites (items : List Item) (tags : List TagInfo) : List TagInfo :=
  items.foldl (fun ts item => ts.modify item.info (modifyData (releaseWrite item.writing))) tags

/-- The loop over the items of one batch; false when a sub-reply is missing. -/
def applyLoop (response : List UInt8) : List Item → Nat → Pass → Bool × Pass
  | [], _, p => (true, p)
  | item :: items, i, p =>
    match getMultiRequestResponse response response.length i with
    | none => (false, p)
    | some sub => applyLoop response items (i + 1) { p with
        tags := p.tags.modify item.info (modifyData (applyResponse item.writing sub))
        applied := p.applied ++ [item.info]
        notified := p.notified ++ [item.info] }

/-- The loop of `process_scan_list`; `sendRr n` is the exchange of the `n`-th
batch.  `none` only when the fuel runs out. -/
def scanLoop (limit : Nat) (slot : UInt8)
    (sendRr : Nat → List UInt8 → Except EipError (List UInt8)) :
    (fuel start : Nat) → Pass → Option (Bool × Pass)
  | fuel, start, p =>
    if start < p.tags.length then
      match fuel with
      | 0 => none
      | fuel + 1 =>
        let r := buildMultiRequest limit p.tags start
        if r.items.isEmpty then some (true, { p with tags := r.tags })
        else
          let p := { p with tags := r.tags, sent := p.sent ++ [r.items.map Item.info] }
          let fail (p : Pass) := some (false, { p with tags := releaseWrites r.items p.tags })
          match sendRouted limit slot (sendRr p.sent.length)
              (encodeMultiRequest (r.items.map Item.request)) with
          -- the kinds differ in what they print
          | .error _ => fail p
          | .ok response =>
            if checkMultiRequestResponse response then
              match applyLoop response r.items 0 p with
              | (true, p) => scanLoop limit slot sendRr fuel r.next p
              | (false, p) => fail p
            else fail p
    else some (true, p)

/-- `process_scan_list`: every batch but the last moves the walk on. -/
def processScanList (limit : Nat) (slot : UInt8)
    (sendRr : Nat → List UInt8 → Except EipError (List UInt8)) (tags : List TagInfo) :
    Option (Bool × Pass) :=
  scanLoop limit slot sendRr tags.length 0 { tags := tags }

/-! ## Lemmas: one tag -/

/-- The request the packer would take from the tag. -/
def requestOf (limit : Nat) (t : TagInfo) : Option Taken := (takeRequest limit t).map (·.2)

section takeRequest

variable {limit : Nat} {t : TagInfo}

theorem takeRequest_unusable (hu : t.data.usable = false) : takeRequest limit t = none := by
  simp [takeRequest, hu]

theorem takeRequest_read (hu : t.data.usable) (hd : t.data.doWrite = false)
    (hw : t.data.isWriting = false) :
    takeRequest limit t = some (t.data.setFlags false false, readTaken t) := by
  simp [takeRequest, TagData.takeWrite, TagData.setFlags_self, hu, hd, hw]

theorem takeWrite_of_write {d : TagData} (hw : d.doWrite ∨ d.isWriting) :
    d.takeWrite = d.setFlags false true := by
  unfold TagData.takeWrite
  split
  · rfl
  · rename_i hd
    simp only [Bool.not_eq_true] at hd
    rw [TagData.setFlags_self hd (by simpa [hd] using hw)]

theorem takeRequest_write {ty : CipType} (hu : t.data.usable)
    (hw : t.data.doWrite ∨ t.data.isWriting) (hty : typecode t.data.buf = some ty) :
    takeRequest limit t = some (t.data.setFlags false true, writeTaken limit t ty) := by
  simp [takeRequest, takeWrite_of_write hw, hu, hty]

theorem takeRequest_fallback (hu : t.data.usable)
    (hw : t.data.doWrite ∨ t.data.isWriting) (hty : typecode t.data.buf = none) :
    takeRequest limit t = some (t.data.setFlags false false, readTaken t) := by
  simp only [takeRequest, takeWrite_of_write hw, hu, if_true, TagData.setFlags_isWriting,
    TagData.setFlags_buf, hty]
  rfl

/-- **What the packer takes.**  Nothing from an unusable tag, the write of a tag
that has one staged or in flight, and a read otherwise. -/
theorem takeRequest_cases (limit : Nat) (t : TagInfo) :
    (t.data.usable = false ∧ takeRequest limit t = none) ∨
    (t.data.usable ∧ (t.data.doWrite ∨ t.data.isWriting → typecode t.data.buf = none) ∧
      takeRequest limit t = some (t.data.setFlags false false, readTaken t)) ∨
    (∃ ty, t.data.usable ∧ (t.data.doWrite ∨ t.data.isWriting) ∧ typecode t.data.buf = some ty ∧
      takeRequest limit t = some (t.data.setFlags false true, writeTaken limit t ty)) := by
  by_cases hu : t.data.usable
  · by_cases hw : t.data.doWrite ∨ t.data.isWriting
    · cases hty : typecode t.data.buf with
      | some ty => exact Or.inr (Or.inr ⟨ty, hu, hw, rfl, takeRequest_write hu hw hty⟩)
      | none => exact Or.inr (Or.inl ⟨hu, fun _ => rfl, takeRequest_fallback hu hw hty⟩)
    · exact Or.inr (Or.inl ⟨hu, fun h => absurd h hw,
        takeRequest_read hu (by simp_all) (by simp_all)⟩)
  · have hu' : t.data.usable = false := by simpa using hu
    exact Or.inl ⟨hu', takeRequest_unusable hu'⟩

theorem requestOf_isSome (limit : Nat) (t : TagInfo) :
    (requestOf limit t).isSome = t.data.usable := by
  unfold requestOf
  rw [Option.isSome_map]
  rcases takeRequest_cases limit t with ⟨hu, h⟩ | ⟨hu, -, h⟩ | ⟨ty, hu, -, -, h⟩ <;>
    simp [h, hu]

/-- A request that is taken and not sent is taken again, the same. -/
theorem requestOf_taken {d : TagData} {b : Taken} (h : takeRequest limit t = some (d, b)) :
    requestOf limit { t with data := d } = some b := by
  unfold requestOf
  rcases takeRequest_cases limit t with ⟨hu, h'⟩ | ⟨hu, -, h'⟩ | ⟨ty, hu, -, hty, h'⟩
  all_goals rw [h'] at h; cases h
  · have hr : takeRequest limit { t with data := t.data.setFlags false false } = _ :=
      takeRequest_read hu rfl rfl
    rw [hr]
    rfl
  · have hw : takeRequest limit { t with data := t.data.setFlags false true } = _ :=
      takeRequest_write hu (Or.inr rfl) hty
    rw [hw]
    rfl

end takeRequest

end EtherIp
