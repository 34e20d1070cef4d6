import EpicsIocs.EtherIp.Driver
import EpicsIocs.Lib.Steps

/-!
# The write handshake between records and the scan thread

Records stage writes in a tag's buffer (`stage_write` of `device.rs`) while the
scan thread connects, packs, sends and applies.  A step is what one side does
under one tag's data lock, so every interleaving of the two is a run.

A tag carries three ghosts beside its data: the buffer it last staged, the last
write request encoded from it, and what happened to it since.

    unsent → ¬ dropped → doWrite ∧ the buffer is the staged one        (staged_kept)
    between passes, once a pass over the tag's list has begun since the last
      staging: no write flag is set, and the last write request carries the
      staged buffer unless a disconnect dropped it                     (staged_sent)

The first holds in every run, the second in runs without a tag that alone
exceeds the buffer limit.
-/

namespace EtherIp

open Bytes Steps

/-! ## Records -/

/-- What a record stages: how its value compares with the tag's (`none`: the
tag cannot be read as the record's type), and the buffer with its value. -/
structure Staging where
  element : Nat
  same : List UInt8 → Option Bool
  put : List UInt8 → Option (List UInt8)
  same_typecode : ∀ buf, (same buf).isSome → (typecode buf).isSome
  put_typecode : ∀ buf buf', put buf = some buf' → typecode buf' = typecode buf

/-- `EtherIpDevice::stage_write`: the tag's data with the write flagged. -/
def stageWrite (w : Staging) (t : TagInfo) : Option TagData :=
  if !t.data.hasValue || t.elements ≤ w.element then none
  else
    match w.same t.data.buf with
    | some false => (w.put t.data.buf).map fun buf => { t.data with buf := buf, doWrite := true }
    | _ => none

/-- `elem_off`. -/
def elemOff (t : CipType) (element : Nat) : Nat := typecodeSize + element * t.size

def getLint (raw : List UInt8) (element : Nat) : Option Nat :=
  match typecode raw with
  | some .lint => rdNat? raw (elemOff .lint element) 8
  | some .ulint => rdNat? raw (elemOff .ulint element) 8
  | _ => none

def putLint (raw : List UInt8) (element value : Nat) : Option (List UInt8) :=
  match typecode raw with
  | some .lint => overwrite? raw (elemOff .lint element) (leBytes 8 value)
  | some .ulint => overwrite? raw (elemOff .ulint element) (leBytes 8 value)
  | _ => none

/-- Only the data behind the type code is overwritten. -/
theorem typecode_overwrite? {raw src buf : List UInt8} {i : Nat} (hi : typecodeSize ≤ i)
    (h : overwrite? raw i src = some buf) : typecode buf = typecode raw := by
  have hlen := length_of_overwrite? h
  have htake : buf.take 2 = raw.take 2 := take_of_overwrite? h hi
  unfold typecode rdNat? slice?
  simp only [hlen, List.drop_zero, htake]

/-- An `int64out` record: `get_lint`, then `put_lint`. -/
def Staging.lint (element value : Nat) : Staging where
  element := element
  same buf := (getLint buf element).map (· == value)
  put buf := putLint buf element value
  same_typecode buf h := by
    unfold getLint at h
    cases hty : typecode buf with
    | none => simp [hty] at h
    | some ty => rfl
  put_typecode buf buf' h := by
    unfold putLint at h
    split at h
    · exact typecode_overwrite? (Nat.le_add_right _ _) h
    · exact typecode_overwrite? (Nat.le_add_right _ _) h
    · cases h

/-! ## Tags and the scan thread -/

/-- A tag, and what became of its staged writes. -/
structure TagState where
  info : TagInfo
  /-- The buffer after the last staging. -/
  staged : Option (List UInt8) := none
  /-- The last write request encoded. -/
  wrote : Option (List UInt8) := none
  /-- Staged, and no write request encoded since. -/
  unsent : Bool := false
  /-- Invalidated by a disconnect since the last staging. -/
  dropped : Bool := false
  /-- Staged since a pass over the tag's list last began. -/
  awaiting : Bool := false

namespace TagState

def stage (w : Staging) (t : TagState) : TagState :=
  match stageWrite w t.info with
  | some d => { t with
      info := { t.info with data := d }
      staged := some d.buf, unsent := true, dropped := false, awaiting := true }
  | none => t

def take (limit : Nat) (t : TagState) : TagState :=
  match takeRequest limit t.info with
  | some (d, b) => { t with
      info := { t.info with data := d }
      wrote := if b.writing then some b.request else t.wrote
      unsent := if b.writing then false else t.unsent }
  | none => t

def mapData (f : TagData → TagData) (t : TagState) : TagState :=
  { t with info := { t.info with data := f t.info.data } }

def invalidate (t : TagState) : TagState := { t.mapData invalidateTag with dropped := true }

def probe (reply : Option (List UInt8)) (t : TagState) : TagState :=
  { t with info := completeTagInfo t.info reply }

end TagState

/-- Where the scan thread is. -/
inductive Pc
  | offline
  /-- `complete_tag_infos`: the tags still to probe, tried and answered so far. -/
  | connecting (todo : List Nat) (tried answered : Nat)
  | idle
  /-- `build_multi_request`, with the rest of the list. -/
  | building (items : List Item) (requestsSize responsesSize : Nat) (todo : List Nat)
  | givingBack (i : Nat)
  | sending (items : List Item) (todo : List Nat)
  | applying (items : List Item) (k : Nat) (response : List UInt8) (todo : List Nat)
  | releasing (items : List Item)
  | disconnecting (todo : List Nat)

structure Scan where
  tags : List TagState := []
  pc : Pc := .offline

inductive Act
  | addTag (tag : ParsedTag) (elements : Nat)
  | grow (i elements : Nat)
  | stage (i : Nat) (w : Staging)
  | connect
  | probe (reply : Option (List UInt8))
  | connected
  | startPass (list : List Nat)
  | take
  | tooLarge
  | giveBack
  | packed
  | reply (out : Except EipError (List UInt8))
  | apply
  | applied
  | release
  | restart
  | invalidate

namespace Scan

def update (s : Scan) (i : Nat) (f : TagState → TagState) (pc : Pc) : Scan :=
  ⟨s.tags.modify i f, pc⟩

/-- The tags of every list. -/
def allTags (s : Scan) : List Nat := List.range s.tags.length

/-- One turn of the packer's loop that does not end the pass. -/
def takeStep (limit : Nat) (s : Scan) : Option Scan :=
  match s.pc with
  | .building items requestsSize responsesSize (i :: todo) =>
    match s.tags[i]? with
    | none => none
    | some t =>
      match takeRequest limit t.info with
      | none => some { s with pc := .building items requestsSize responsesSize todo }
      | some (_, b) =>
        let tryReq := requestsSize + b.reqSize
        let tryResp := responsesSize + b.respSize
        if overLimit limit (items.length + 1) tryReq tryResp then
          if items.isEmpty then none
          else some (s.update i (TagState.take limit) (.sending items (i :: todo)))
        else some (s.update i (TagState.take limit)
          (.building (items ++ [⟨i, b.writing, b.request, b.respSize⟩]) tryReq tryResp todo))
  | _ => none

/-- The turn that ends the pass: the first tag of a batch fits no batch. -/
def tooLargeStep (limit : Nat) (s : Scan) : Option Scan :=
  match s.pc with
  | .building [] requestsSize responsesSize (i :: _) =>
    match s.tags[i]? with
    | none => none
    | some t =>
      match takeRequest limit t.info with
      | none => none
      | some (_, b) =>
        if overLimit limit 1 (requestsSize + b.reqSize) (responsesSize + b.respSize) then
          some (s.update i (TagState.take limit) (if b.writing then .givingBack i else .idle))
        else none
  | _ => none

/-- The exchange of a batch. -/
def replyStep (limit : Nat) (slot : UInt8) (s : Scan) (out : Except EipError (List UInt8)) :
    Option Scan :=
  match s.pc with
  | .sending items todo =>
    match sendRouted limit slot (fun _ => out) (encodeMultiRequest (items.map Item.request)) with
    | .error _ => some { s with pc := .releasing items }
    | .ok response =>
      if checkMultiRequestResponse response then
        some { s with pc := .applying items 0 response todo }
      else some { s with pc := .releasing items }
  | _ => none

def applyStep (s : Scan) : Option Scan :=
  match s.pc with
  | .applying items k response todo =>
    match items[k]? with
    | none => none
    | some item =>
      match getMultiRequestResponse response response.length k with
      | none => some { s with pc := .releasing items }
      | some sub => some (s.update item.info
          (TagState.mapData (applyResponse item.writing sub)) (.applying items (k + 1) response todo))
  | _ => none

def releaseStep (s : Scan) : Option Scan :=
  match s.pc with
  | .releasing [] => some { s with pc := .disconnecting s.allTags }
  | .releasing (item :: items) => some (s.update item.info
      (TagState.mapData (releaseWrite item.writing)) (.releasing items))
  | _ => none

def invalidateStep (s : Scan) : Option Scan :=
  match s.pc with
  | .disconnecting [] => some { s with pc := .offline }
  | .disconnecting (i :: todo) => some (s.update i TagState.invalidate (.disconnecting todo))
  | _ => none

/-- What record threads, the scan thread and the operator do; `none` where the
scan thread is elsewhere. -/
def step (limit : Nat) (slot : UInt8) (s : Scan) : Act → Option Scan
  | .addTag tag elements => some { s with tags := s.tags ++ [{ info := ⟨tag, elements, {}⟩ }] }
  | .grow i elements => some (s.update i
      (fun t => { t with info := { t.info with elements := max t.info.elements elements } }) s.pc)
  | .stage i w => some (s.update i (TagState.stage w) s.pc)
  | .connect =>
    match s.pc with
    | .offline => some { s with pc := .connecting s.allTags 0 0 }
    | _ => none
  | .probe reply =>
    match s.pc with
    | .connecting (i :: todo) tried answered => some (s.update i (TagState.probe reply)
        (.connecting todo (tried + 1) (if reply.isSome then answered + 1 else answered)))
    | _ => none
  | .connected =>
    match s.pc with
    | .connecting [] tried answered =>
      some { s with pc := if answered > 0 || tried == 0 then .idle else .disconnecting s.allTags }
    | _ => none
  | .startPass list =>
    match s.pc with
    | .idle =>
      -- a scan list holds tags of the PLC, each once
      if list.Nodup ∧ ∀ i ∈ list, i < s.tags.length then
        some ⟨s.tags.mapIdx fun i t => { t with awaiting := t.awaiting && i ∉ list },
          .building [] 0 0 list⟩
      else none
    | _ => none
  | .take => s.takeStep limit
  | .tooLarge => s.tooLargeStep limit
  | .giveBack =>
    match s.pc with
    | .givingBack i => some (s.update i (TagState.mapData (releaseWrite true)) .idle)
    | _ => none
  | .packed =>
    match s.pc with
    | .building items _ _ [] =>
      some { s with pc := if items.isEmpty then .idle else .sending items [] }
    | _ => none
  | .reply out => s.replyStep limit slot out
  | .apply => s.applyStep
  | .applied =>
    match s.pc with
    | .applying items k _ todo =>
      if items[k]? = none then
        some { s with pc := if todo.isEmpty then .idle else .building [] 0 0 todo }
      else none
    | _ => none
  | .release => s.releaseStep
  | .restart =>
    match s.pc with
    | .idle => some { s with pc := .disconnecting s.allTags }
    | _ => none
  | .invalidate => s.invalidateStep

end Scan

/-- The scan thread of one PLC with its records. -/
def scanSystem (limit : Nat) (slot : UInt8) : System Scan Act :=
  System.ofFun (· = {}) (Scan.step limit slot)

/-! ## One tag -/

/-- `request` writes the buffer `buf` to the tag. -/
def Carries (limit : Nat) (tag : ParsedTag) (buf request : List UInt8) : Prop :=
  ∃ ty elements, typecode buf = some ty ∧ request = writeRequest limit tag elements ty buf

namespace TagState

/-- What holds of a tag wherever the scan thread is. -/
structure Ok (limit : Nat) (t : TagState) : Prop where
  value : t.info.data.hasValue → t.info.data.usable
  flagged : t.info.data.doWrite ∨ t.info.data.isWriting →
    t.info.data.usable ∧ (typecode t.info.data.buf).isSome ∧ t.staged = some t.info.data.buf
  unsent : t.unsent → t.dropped = false → t.info.data.doWrite
  carried : ∀ buf, t.staged = some buf → t.info.data.doWrite = false → t.dropped = false →
    ∃ request, t.wrote = some request ∧ Carries limit t.info.tag buf request

/-- No value and no write flag. -/
structure Clean (t : TagState) : Prop where
  noValue : t.info.data.hasValue = false
  doWrite : t.info.data.doWrite = false
  isWriting : t.info.data.isWriting = false

section

variable {limit : Nat} {t : TagState}

theorem stageWrite_eq_some {w : Staging} {t : TagInfo} {d : TagData} (h : stageWrite w t = some d) :
    t.data.hasValue ∧ ∃ buf, typecode buf = typecode t.data.buf ∧ (typecode buf).isSome ∧
      d = { t.data with buf := buf, doWrite := true } := by
  unfold stageWrite at h
  split at h
  · cases h
  · rename_i hguard
    split at h
    · rename_i hsame
      obtain ⟨buf, hput, rfl⟩ := Option.map_eq_some_iff.1 h
      have hty := w.put_typecode _ _ hput
      refine ⟨by simp_all, buf, hty, ?_, rfl⟩
      rw [hty]
      exact w.same_typecode _ (by rw [hsame]; rfl)
    · cases h

theorem stage_of_clean {w : Staging} (h : t.Clean) : t.stage w = t := by
  unfold stage stageWrite
  simp [h.noValue]

theorem Ok.stage (h : t.Ok limit) (w : Staging) : (t.stage w).Ok limit := by
  unfold TagState.stage
  split
  · rename_i d hd
    obtain ⟨hvalue, buf, -, hsome, rfl⟩ := stageWrite_eq_some hd
    refine ⟨fun _ => h.value hvalue, fun _ => ⟨h.value hvalue, hsome, rfl⟩, fun _ _ => rfl, ?_⟩
    intro _ _ hno
    cases hno
  · exact h

/-- What a taken tag becomes: untouched by a read, and by a write the one whose
last request carries the staged buffer. -/
theorem Ok.take_cases (h : t.Ok limit) {d : TagData} {b : Taken}
    (ht : takeRequest limit t.info = some (d, b)) :
    (b.writing = false ∧ t.info.data.doWrite = false ∧ t.info.data.isWriting = false ∧
      t.take limit = t) ∨
    (b.writing = true ∧ t.info.data.usable ∧ t.staged = some t.info.data.buf ∧
      (typecode t.info.data.buf).isSome ∧ Carries limit t.info.tag t.info.data.buf b.request ∧
      t.take limit = { t with
        info := { t.info with data := t.info.data.setFlags false true }
        wrote := some b.request, unsent := false }) := by
  rcases takeRequest_cases limit t.info with ⟨-, h'⟩ | ⟨hu, hno, h'⟩ | ⟨ty, hu, hw, hty, h'⟩
  · rw [h'] at ht
    cases ht
  · have hflags : ¬ (t.info.data.doWrite ∨ t.info.data.isWriting) := by
      intro hw
      have := (h.flagged hw).2.1
      rw [hno hw] at this
      cases this
    simp only [not_or, Bool.not_eq_true] at hflags
    rw [h'] at ht
    cases ht
    refine Or.inl ⟨rfl, hflags.1, hflags.2, ?_⟩
    unfold TagState.take
    rw [h', TagData.setFlags_self hflags.1 hflags.2]
    rfl
  · rw [h'] at ht
    cases ht
    refine Or.inr ⟨rfl, hu, (h.flagged hw).2.2, (h.flagged hw).2.1, ⟨ty, _, hty, rfl⟩, ?_⟩
    unfold TagState.take
    rw [h']
    rfl

theorem takeRequest_usable {t : TagInfo} {d : TagData} {b : Taken}
    (ht : takeRequest limit t = some (d, b)) : t.data.usable := by
  rw [← requestOf_isSome limit]
  simp [requestOf, ht]

theorem Ok.take_usable (h : t.Ok limit) :
    (t.take limit).info.data.usable = t.info.data.usable := by
  cases ht : takeRequest limit t.info with
  | none => rw [TagState.take, ht]
  | some db =>
    rcases h.take_cases ht with ⟨-, -, -, heq⟩ | ⟨-, -, -, -, -, heq⟩
    · rw [heq]
    · rw [heq]
      rfl

theorem Ok.take (h : t.Ok limit) : (t.take limit).Ok limit := by
  cases ht : takeRequest limit t.info with
  | none =>
    unfold TagState.take
    rw [ht]
    exact h
  | some db =>
    rcases h.take_cases ht with ⟨-, -, -, heq⟩ | ⟨-, hu, hstaged, hty, hcarries, heq⟩
    · rw [heq]
      exact h
    · rw [heq]
      refine ⟨fun _ => hu, fun _ => ⟨hu, hty, hstaged⟩, fun hun => (by cases hun), ?_⟩
      intro buf hbuf _ _
      rw [show t.staged = some buf from hbuf] at hstaged
      cases hstaged
      exact ⟨_, rfl, hcarries⟩

/-- A change of the data that keeps what is usable and clears no staged write. -/
theorem Ok.mapData (h : t.Ok limit) {f : TagData → TagData}
    (husable : (f t.info.data).usable = t.info.data.usable)
    (hvalue : (f t.info.data).hasValue → t.info.data.usable)
    (hdo : (f t.info.data).doWrite = t.info.data.doWrite)
    (hwriting : (f t.info.data).isWriting → t.info.data.isWriting)
    (hbuf : (f t.info.data).doWrite ∨ (f t.info.data).isWriting →
      (f t.info.data).buf = t.info.data.buf) : (t.mapData f).Ok limit := by
  refine ⟨fun hv => ?_, fun hw => ?_, fun hun hd => ?_, fun buf hst hdw hd => ?_⟩
  · exact husable.trans (hvalue hv)
  · have hw' : t.info.data.doWrite ∨ t.info.data.isWriting := by
      rcases hw with hw | hw
      · exact Or.inl (hdo.symm.trans hw)
      · exact Or.inr (hwriting hw)
    obtain ⟨h1, h2, h3⟩ := h.flagged hw'
    have hb := hbuf hw
    exact ⟨husable.trans h1, by show (typecode (f t.info.data).buf).isSome; rw [hb]; exact h2,
      by show t.staged = some (f t.info.data).buf; rw [hb]; exact h3⟩
  · exact hdo.trans (h.unsent hun hd)
  · exact h.carried buf hst (hdo.symm.trans hdw) hd

theorem Ok.release (h : t.Ok limit) (writing : Bool) :
    (t.mapData (releaseWrite writing)).Ok limit := by
  have hcases : releaseWrite writing t.info.data = t.info.data ∨
      releaseWrite writing t.info.data = { t.info.data with isWriting := false } := by
    unfold releaseWrite
    split
    · exact Or.inr rfl
    · exact Or.inl rfl
  apply h.mapData <;> rcases hcases with hr | hr <;> rw [hr] <;>
    first
    | rfl
    | exact h.value
    | exact fun hw => hw
    | exact fun _ => rfl
    | exact fun hw => by cases hw

/-- A read reply does not reach a tag whose write is staged or in flight. -/
theorem Ok.apply (h : t.Ok limit) {writing : Bool} (sub : List UInt8)
    (husable : t.info.data.usable) (hreading : writing = false → t.info.data.isWriting = false) :
    (t.mapData (applyResponse writing sub)).Ok limit := by
  obtain ⟨h1, h2, h3, h4⟩ := applyResponse_spec writing sub t.info.data
  refine h.mapData h1 (fun _ => husable) h2 (fun hw => ?_) (fun hw => h4 ?_)
  · rw [h3] at hw
    split at hw
    · cases hw
    · exact hw
  · rw [h2, h3] at hw
    cases writing with
    | true => exact Or.inl rfl
    | false => simpa [hreading rfl] using hw

theorem Clean.ok (h : t.Clean) (hcarried : t.unsent → t.dropped = false → False)
    (hc : ∀ buf, t.staged = some buf → t.info.data.doWrite = false → t.dropped = false →
      ∃ request, t.wrote = some request ∧ Carries limit t.info.tag buf request) : t.Ok limit := by
  refine ⟨fun hv => ?_, fun hw => ?_, fun hun hd => (hcarried hun hd).elim, hc⟩
  · rw [h.noValue] at hv
    cases hv
  · rw [h.doWrite, h.isWriting] at hw
    simp at hw

theorem clean_new (tag : ParsedTag) (elements : Nat) :
    ({ info := ⟨tag, elements, {}⟩ } : TagState).Clean := ⟨rfl, rfl, rfl⟩

theorem ok_new (limit : Nat) (tag : ParsedTag) (elements : Nat) :
    ({ info := ⟨tag, elements, {}⟩ } : TagState).Ok limit :=
  (clean_new tag elements).ok nofun nofun

theorem clean_invalidate (t : TagState) : t.invalidate.Clean := ⟨rfl, rfl, rfl⟩

theorem ok_invalidate (limit : Nat) (t : TagState) : t.invalidate.Ok limit :=
  (clean_invalidate t).ok (fun _ hd => by cases hd) (fun _ _ _ hd => by cases hd)

theorem Ok.probe (h : t.Ok limit) (hc : t.Clean) (reply : Option (List UInt8)) :
    (t.probe reply).Ok limit ∧ (t.probe reply).Clean := by
  have hclean : (t.probe reply).Clean := by
    unfold TagState.probe completeTagInfo
    cases reply <;> exact ⟨hc.noValue, hc.doWrite, hc.isWriting⟩
  refine ⟨hclean.ok (fun hun hd => ?_) (fun buf hst _ hd => ?_), hclean⟩
  · have := h.unsent hun hd
    rw [hc.doWrite] at this
    cases this
  · obtain ⟨request, hw, hcarries⟩ := h.carried buf hst hc.doWrite hd
    refine ⟨request, hw, ?_⟩
    unfold TagState.probe completeTagInfo
    cases reply <;> exact hcarries

end

end TagState

/-! ## The scan thread -/

namespace Pc

/-- The items of the batch being packed, sent or applied. -/
def items : Pc → List Item
  | building items _ _ _ => items
  | sending items _ => items
  | applying items k _ _ => items.drop k
  | _ => []

/-- The tags the pass still has to take. -/
def todo : Pc → List Nat
  | building _ _ _ todo => todo
  | sending _ todo => todo
  | applying _ _ _ todo => todo
  | givingBack i => [i]
  | _ => []

/-- The tags a pass has in its hands. -/
def held (pc : Pc) : List Nat := pc.items.map Item.info ++ pc.todo

/-- They are among the first `n`, each once. -/
structure Wf (n : Nat) (pc : Pc) : Prop where
  nodup : pc.held.Nodup
  bound : ∀ i ∈ pc.held, i < n

theorem Wf.of_sublist {n : Nat} {pc pc' : Pc} (h : pc.Wf n) (hsub : pc'.held.Sublist pc.held) :
    pc'.Wf n :=
  ⟨h.nodup.sublist hsub, fun i hi => h.bound i (hsub.subset hi)⟩

/-- On the way from a failed transfer or a restart to the next connection. -/
def failing : Pc → Prop
  | releasing _ => True
  | disconnecting _ => True
  | _ => False

/-- The tag has been invalidated since the last connection. -/
def invalidated (i : Nat) : Pc → Prop
  | offline => True
  | connecting _ _ _ => True
  | disconnecting todo => i ∉ todo
  | _ => False

end Pc

/-- What holds of tag `i` where the scan thread is at `pc`. -/
structure TagState.At (limit : Nat) (pc : Pc) (i : Nat) (t : TagState) : Prop where
  ok : t.Ok limit
  clean : pc.invalidated i → t.Clean
  usable : ∀ item ∈ pc.items, item.info = i → t.info.data.usable
  reading : ∀ item ∈ pc.items, item.info = i → item.writing = false →
    t.info.data.isWriting = false
  writing : t.info.data.isWriting → pc.failing ∨
    (∃ item ∈ pc.items, item.writing ∧ item.info = i) ∨ pc.todo.head? = some i

/-- The invariant of every run. -/
structure Scan.Inv (limit : Nat) (s : Scan) : Prop where
  wf : s.pc.Wf s.tags.length
  tags : ∀ (i : Nat) (t : TagState), s.tags[i]? = some t → t.At limit s.pc i

/-- `At` under another `pc` that knows no more of the tag. -/
theorem TagState.At.weaken {limit i : Nat} {pc pc' : Pc} {t : TagState} (h : t.At limit pc i)
    (hinv : pc'.invalidated i → pc.invalidated i)
    (hitems : ∀ item ∈ pc'.items, item.info = i → item ∈ pc.items)
    (hwriting : t.info.data.isWriting → pc.failing ∨
        (∃ item ∈ pc.items, item.writing ∧ item.info = i) ∨ pc.todo.head? = some i →
      pc'.failing ∨ (∃ item ∈ pc'.items, item.writing ∧ item.info = i) ∨
        pc'.todo.head? = some i) : t.At limit pc' i :=
  ⟨h.ok, fun hi => h.clean (hinv hi), fun item hm hi => h.usable item (hitems item hm hi) hi,
    fun item hm hi => h.reading item (hitems item hm hi) hi, fun hw => hwriting hw (h.writing hw)⟩

/-- `At` where no batch is under way. -/
theorem TagState.At.of_noItems {limit i : Nat} {pc : Pc} {t : TagState} (hitems : pc.items = [])
    (hok : t.Ok limit) (hclean : pc.invalidated i → t.Clean)
    (hwriting : t.info.data.isWriting → pc.failing ∨ pc.todo.head? = some i) :
    t.At limit pc i := by
  refine ⟨hok, hclean, ?_, ?_, fun hw => (hwriting hw).imp_right Or.inr⟩ <;>
  · intro item hm
    rw [hitems] at hm
    cases hm

theorem Scan.Inv.update {limit i : Nat} {s : Scan} {f : TagState → TagState} {pc : Pc}
    (h : s.Inv limit) (hwf : pc.held.Sublist s.pc.held)
    (hself : ∀ t : TagState, s.tags[i]? = some t → t.At limit s.pc i → (f t).At limit pc i)
    (hother : ∀ (j : Nat) (t : TagState), j ≠ i → s.tags[j]? = some t → t.At limit s.pc j → t.At limit pc j) :
    (s.update i f pc).Inv limit := by
  refine ⟨?_, fun j t' ht' => ?_⟩
  · simp only [Scan.update, List.length_modify]
    exact h.wf.of_sublist hwf
  simp only [Scan.update, List.getElem?_modify] at ht'
  obtain ⟨t, ht, rfl⟩ := Option.map_eq_some_iff.1 ht'
  show TagState.At limit pc j (if i = j then f t else t)
  by_cases hij : i = j
  · subst hij
    rw [if_pos rfl]
    exact hself t ht (h.tags i t ht)
  · rw [if_neg hij]
    exact hother j t (Ne.symm hij) ht (h.tags j t ht)

/-- Only the scan thread moves. -/
theorem Scan.Inv.move {limit : Nat} {s : Scan} {pc : Pc} (h : s.Inv limit)
    (hwf : pc.held.Sublist s.pc.held)
    (htags : ∀ (i : Nat) (t : TagState), s.tags[i]? = some t → t.At limit s.pc i → t.At limit pc i) :
    Scan.Inv limit { s with pc := pc } :=
  ⟨h.wf.of_sublist hwf, fun i t ht => htags i t ht (h.tags i t ht)⟩

theorem nodup_head_not_mem {items : List Item} {i : Nat} {todo : List Nat}
    (h : (items.map Item.info ++ i :: todo).Nodup) : ∀ item ∈ items, item.info ≠ i := by
  intro item hitem heq
  rw [List.nodup_append] at h
  exact h.2.2 _ (List.mem_map_of_mem hitem) _ List.mem_cons_self heq

namespace Scan

variable {limit : Nat} {slot : UInt8} {s s' : Scan}

theorem takeStep_inv (h : s.Inv limit) (hs : s.takeStep limit = some s') : s'.Inv limit := by
  obtain ⟨tags, pc⟩ := s
  unfold takeStep at hs
  split at hs
  · rename_i items reqs resps i todo hpc
    simp only at hpc hs
    subst hpc
    have hnot := nodup_head_not_mem h.wf.nodup
    split at hs
    · cases hs
    · rename_i t ht
      have hat := h.tags i t ht
      split at hs
      · rename_i hnone
        cases hs
        refine h.move ((List.Sublist.refl _).append (List.sublist_cons_self i todo))
          fun j u hu hj => hj.weaken id (fun _ hm _ => hm) ?_
        -- an unusable tag has no write to lose
        rintro hw (hf | hitem | hhead)
        · exact Or.inl hf
        · exact Or.inr (Or.inl hitem)
        · simp only [Pc.todo, List.head?_cons, Option.some.injEq] at hhead
          subst hhead
          rw [ht] at hu
          cases hu
          have husable := (hj.ok.flagged (Or.inr hw)).1
          rw [← requestOf_isSome limit, requestOf, hnone] at husable
          cases husable
      · rename_i d b htake
        split at hs
        · split at hs
          · cases hs
          · cases hs
            refine h.update (List.Sublist.refl _) (fun u hu hj => ?_) (fun j u hji hu hj => ?_)
            · exact ⟨hj.ok.take, fun hf => hf.elim, fun item hm hi => absurd hi (hnot item hm),
                fun item hm hi => absurd hi (hnot item hm), fun _ => Or.inr (Or.inr rfl)⟩
            · exact hj.weaken id (fun _ hm _ => hm) (fun _ hw => hw)
        · cases hs
          refine h.update ?_ (fun u hu hj => ?_) (fun j u hji hu hj => ?_)
          · simp [Pc.held, Pc.items, Pc.todo]
          · rw [ht] at hu
            cases hu
            refine ⟨hj.ok.take, fun hf => hf.elim, fun _ _ _ => ?_, fun item hm hi hr => ?_,
              fun hw => ?_⟩
            · rw [hj.ok.take_usable]
              exact TagState.takeRequest_usable htake
            · rcases List.mem_append.1 hm with hm | hm
              · exact absurd hi (hnot item hm)
              · simp only [List.mem_singleton] at hm
                subst hm
                rcases hj.ok.take_cases htake with ⟨-, -, hw, heq⟩ | ⟨hb, -⟩
                · rw [heq]
                  exact hw
                · rw [show b.writing = false from hr] at hb
                  cases hb
            · refine Or.inr (Or.inl ⟨⟨i, b.writing, b.request, b.respSize⟩, ?_, ?_, rfl⟩)
              · simp [Pc.items]
              · rcases hj.ok.take_cases htake with ⟨-, -, hw', heq⟩ | ⟨hb, -⟩
                · rw [heq, hw'] at hw
                  cases hw
                · exact hb
          · refine hj.weaken id (fun item hm hi => ?_) (fun _ hw => ?_)
            · rcases List.mem_append.1 hm with hm | hm
              · exact hm
              · simp only [List.mem_singleton] at hm
                subst hm
                exact absurd hi.symm hji
            · rcases hw with hf | ⟨item, hm, hi⟩ | hhead
              · exact Or.inl hf
              · exact Or.inr (Or.inl ⟨item, List.mem_append_left _ hm, hi⟩)
              · simp only [Pc.todo, List.head?_cons, Option.some.injEq] at hhead
                exact absurd hhead.symm hji
  · cases hs

/-- Between passes, or where the last write flag is just being cleared. -/
theorem at_idle {t : TagState} (hok : t.Ok limit) (hw : t.info.data.isWriting = false) (i : Nat) :
    t.At limit .idle i := by
  refine .of_noItems rfl hok (fun h => h.elim) fun h => ?_
  rw [hw] at h
  cases h

theorem tooLargeStep_inv (h : s.Inv limit) (hs : s.tooLargeStep limit = some s') :
    s'.Inv limit := by
  obtain ⟨tags, pc⟩ := s
  unfold tooLargeStep at hs
  split at hs
  · rename_i reqs resps i todo hpc
    simp only at hpc hs
    subst hpc
    -- no item is in flight: a write flag can only be the first tag's
    have hother : ∀ (j : Nat) (u : TagState), j ≠ i → u.At limit (.building [] reqs resps (i :: todo)) j →
        u.info.data.isWriting = false := by
      intro j u hji hu
      by_contra hw
      rcases hu.writing (by simpa using hw) with hf | ⟨item, hm, -⟩ | hhead
      · exact hf
      · cases hm
      · simp only [Pc.todo, List.head?_cons, Option.some.injEq] at hhead
        exact hji hhead.symm
    split at hs
    · cases hs
    · rename_i t ht
      split at hs
      · cases hs
      · rename_i d b htake
        split at hs
        · cases hs
          cases hb : b.writing with
          | true =>
            refine h.update (List.singleton_sublist.2 List.mem_cons_self) (fun u hu hj => ?_)
              (fun j u hji hu hj => ?_)
            · exact .of_noItems rfl hj.ok.take (fun hf => hf.elim) fun _ => Or.inr rfl
            · refine .of_noItems rfl hj.ok (fun hf => hf.elim) fun hw => ?_
              rw [hother j u hji hj] at hw
              cases hw
          | false =>
            refine h.update (List.nil_sublist _) (fun u hu hj => ?_) (fun j u hji hu hj => ?_)
            · rw [ht] at hu
              cases hu
              refine at_idle hj.ok.take ?_ i
              rcases hj.ok.take_cases htake with ⟨-, -, hw, heq⟩ | ⟨hb', -⟩
              · rw [heq]
                exact hw
              · rw [hb] at hb'
                cases hb'
            · exact at_idle hj.ok (hother j u hji hj) j
        · cases hs
  · cases hs

theorem replyStep_inv {out : Except EipError (List UInt8)} (h : s.Inv limit)
    (hs : s.replyStep limit slot out = some s') : s'.Inv limit := by
  obtain ⟨tags, pc⟩ := s
  unfold replyStep at hs
  split at hs
  · rename_i items todo hpc
    simp only at hpc hs
    subst hpc
    have hfail : Scan.Inv limit ⟨tags, .releasing items⟩ :=
      h.move (List.nil_sublist _) fun i t _ ht =>
        ht.weaken id (fun _ hm => by cases hm) fun _ _ => Or.inl trivial
    split at hs
    · cases hs
      exact hfail
    · split at hs
      · cases hs
        exact h.move (List.Sublist.refl _) fun i t _ ht =>
          ht.weaken id (fun _ hm _ => hm) fun _ hw => hw
      · cases hs
        exact hfail
  · cases hs

theorem applyStep_inv (h : s.Inv limit) (hs : s.applyStep = some s') : s'.Inv limit := by
  obtain ⟨tags, pc⟩ := s
  unfold applyStep at hs
  split at hs
  · rename_i items k response todo hpc
    simp only at hpc hs
    subst hpc
    split at hs
    · cases hs
    · rename_i item hitem
      have hdrop : items.drop k = item :: items.drop (k + 1) := by
        obtain ⟨hk, hk'⟩ := List.getElem?_eq_some_iff.1 hitem
        rw [← hk', List.drop_eq_getElem_cons hk]
      have hmem : item ∈ items.drop k := hdrop ▸ List.mem_cons_self
      have htail : ∀ x ∈ items.drop (k + 1), x ∈ items.drop k := fun x hx =>
        hdrop ▸ List.mem_cons_of_mem _ hx
      split at hs
      · cases hs
        exact h.move (List.nil_sublist _) fun i t _ ht =>
          ht.weaken id (fun _ hm => by cases hm) fun _ _ => Or.inl trivial
      · rename_i sub _
        cases hs
        have hsub : (items.drop (k + 1)).Sublist (items.drop k) :=
          hdrop ▸ List.sublist_cons_self _ _
        refine h.update ((hsub.map _).append (List.Sublist.refl _)) (fun t ht hat => ?_) (fun j t hji ht hat => ?_)
        · have hreading : item.writing = false → t.info.data.isWriting = false :=
            hat.reading item hmem rfl
          have hspec := applyResponse_spec item.writing sub t.info.data
          have hclear : (applyResponse item.writing sub t.info.data).isWriting = false := by
            rw [hspec.isWriting]
            split
            · rfl
            · rename_i hw
              exact hreading (by simpa using hw)
          refine ⟨hat.ok.apply sub (hat.usable item hmem rfl) hreading, fun hf => hf.elim,
            fun _ _ _ => hspec.usable.trans (hat.usable item hmem rfl), fun _ _ _ _ => hclear,
            fun hw => ?_⟩
          rw [show (TagState.mapData _ t).info.data.isWriting = false from hclear] at hw
          cases hw
        · refine hat.weaken id (fun x hx _ => htail x hx) (fun _ hw => ?_)
          rcases hw with hf | ⟨x, hx, hxw, hxi⟩ | hhead
          · exact Or.inl hf
          · rw [show Pc.items _ = items.drop k from rfl, hdrop] at hx
            rcases List.mem_cons.1 hx with rfl | hx
            · exact absurd hxi.symm hji
            · exact Or.inr (Or.inl ⟨x, hx, hxw, hxi⟩)
          · exact Or.inr (Or.inr hhead)
  · cases hs

/-- Every tag of the PLC is still to invalidate. -/
theorem Inv.disconnecting {pc : Pc} (h : Scan.Inv limit ⟨s.tags, pc⟩) :
    Scan.Inv limit ⟨s.tags, .disconnecting s.allTags⟩ := by
  refine h.move (List.nil_sublist _) fun i t ht hat => hat.weaken (fun hi => ?_) (fun _ hm => by cases hm)
    fun _ _ => Or.inl trivial
  refine absurd (List.mem_range.2 ?_) hi
  exact (List.getElem?_eq_some_iff.1 ht).1

theorem releaseStep_inv (h : s.Inv limit) (hs : s.releaseStep = some s') : s'.Inv limit := by
  unfold releaseStep at hs
  split at hs
  · cases hs
    exact Inv.disconnecting (s := s) h
  · rename_i item items hpc
    cases hs
    refine h.update (List.nil_sublist _) (fun t ht hat => ?_) (fun j t hji ht hat => ?_)
    · exact .of_noItems rfl (hat.ok.release item.writing) (fun hf => hf.elim) fun _ => Or.inl trivial
    · exact hat.weaken (fun hf => hf.elim) (fun _ hm => by cases hm) fun _ _ => Or.inl trivial
  · cases hs

theorem invalidateStep_inv (h : s.Inv limit) (hs : s.invalidateStep = some s') : s'.Inv limit := by
  obtain ⟨tags, pc⟩ := s
  unfold invalidateStep at hs
  split at hs
  · rename_i hpc
    simp only at hpc hs
    subst hpc
    cases hs
    refine h.move (List.nil_sublist _) fun i t ht hat => hat.weaken (fun _ => by simp [Pc.invalidated])
      (fun _ hm => by cases hm) fun hw _ => ?_
    rw [(hat.clean (by simp [Pc.invalidated])).isWriting] at hw
    cases hw
  · rename_i i todo hpc
    simp only at hpc hs
    subst hpc
    cases hs
    refine h.update (List.nil_sublist _) (fun t ht hat => ?_) (fun j t hji ht hat => ?_)
    · exact .of_noItems rfl (TagState.ok_invalidate limit t)
        (fun _ => TagState.clean_invalidate t) fun _ => Or.inl trivial
    · refine hat.weaken (fun hj => ?_) (fun _ hm => by cases hm) fun _ _ => Or.inl trivial
      simp only [Pc.invalidated, List.mem_cons, not_or] at hj ⊢
      exact ⟨hji, hj⟩
  · cases hs

/-- A step of another thread on one tag. -/
theorem Inv.other {i : Nat} {f : TagState → TagState} (h : s.Inv limit)
    (hf : ∀ t : TagState, t.At limit s.pc i → (f t).At limit s.pc i) :
    (s.update i f s.pc).Inv limit :=
  h.update (List.Sublist.refl _) (fun t _ hat => hf t hat) fun _ _ _ _ hat => hat

theorem at_stage {pc : Pc} {i : Nat} {t : TagState} (h : t.At limit pc i) (w : Staging) :
    (t.stage w).At limit pc i := by
  have hkeep : (t.stage w).info.data.isWriting = t.info.data.isWriting ∧
      (t.stage w).info.data.usable = t.info.data.usable := by
    unfold TagState.stage
    split
    · rename_i d hd
      obtain ⟨-, buf, -, -, rfl⟩ := TagState.stageWrite_eq_some hd
      exact ⟨rfl, rfl⟩
    · exact ⟨rfl, rfl⟩
  refine ⟨h.ok.stage w, fun hi => ?_, fun item hm hi => hkeep.2.trans (h.usable item hm hi),
    fun item hm hi hr => hkeep.1.trans (h.reading item hm hi hr), fun hw => h.writing ?_⟩
  · rw [TagState.stage_of_clean (h.clean hi)]
    exact h.clean hi
  · rwa [← hkeep.1]

theorem probe_inv {reply : Option (List UInt8)} (h : s.Inv limit)
    (hs : s.step limit slot (.probe reply) = some s') : s'.Inv limit := by
  obtain ⟨tags, pc⟩ := s
  simp only [step] at hs
  split at hs
  · cases hs
    refine h.update (List.nil_sublist _) (fun t _ hat => ?_) (fun j t _ _ hat => ?_)
    · obtain ⟨hok, hclean⟩ := hat.ok.probe (hat.clean trivial) reply
      refine .of_noItems rfl hok (fun _ => hclean) fun hw => ?_
      rw [hclean.isWriting] at hw
      cases hw
    · exact hat.weaken (fun _ => trivial) (fun _ hm => by cases hm) fun _ hw => hw
  · cases hs

theorem connected_inv (h : s.Inv limit) (hs : s.step limit slot .connected = some s') :
    s'.Inv limit := by
  obtain ⟨tags, pc⟩ := s
  simp only [step] at hs
  split at hs
  · cases hs
    split
    · exact h.move (List.nil_sublist _) fun i t _ hat => at_idle hat.ok (hat.clean trivial).isWriting i
    · exact Inv.disconnecting (s := ⟨tags, .idle⟩) h
  · cases hs

theorem startPass_inv {list : List Nat} (h : s.Inv limit)
    (hs : s.step limit slot (.startPass list) = some s') : s'.Inv limit := by
  obtain ⟨tags, pc⟩ := s
  simp only [step] at hs
  split at hs
  · split at hs
    · rename_i hlist
      cases hs
      refine ⟨⟨hlist.1, by simpa [Pc.held, Pc.items, Pc.todo] using hlist.2⟩, fun i t' ht' => ?_⟩
      rw [List.getElem?_mapIdx] at ht'
      obtain ⟨t, ht, rfl⟩ := Option.map_eq_some_iff.1 ht'
      have hat := h.tags i t ht
      refine .of_noItems rfl ⟨hat.ok.value, hat.ok.flagged, hat.ok.unsent, hat.ok.carried⟩
        (fun hf => hf.elim) fun hw => ?_
      rcases hat.writing hw with hf | ⟨item, hm, -⟩ | hhead
      · exact hf.elim
      · cases hm
      · cases hhead
    · cases hs
  · cases hs

theorem giveBack_inv (h : s.Inv limit) (hs : s.step limit slot .giveBack = some s') :
    s'.Inv limit := by
  obtain ⟨tags, pc⟩ := s
  simp only [step] at hs
  split at hs
  · rename_i i
    cases hs
    refine h.update (List.nil_sublist _) (fun t _ hat => ?_) (fun j t hji _ hat => ?_)
    · exact at_idle (hat.ok.release true) rfl i
    · refine at_idle hat.ok ?_ j
      by_contra hw
      rcases hat.writing (by simpa using hw) with hf | ⟨item, hm, -⟩ | hhead
      · exact hf
      · cases hm
      · simp only [Pc.todo, List.head?_cons, Option.some.injEq] at hhead
        exact hji hhead.symm
  · cases hs

theorem packed_inv (h : s.Inv limit) (hs : s.step limit slot .packed = some s') :
    s'.Inv limit := by
  obtain ⟨tags, pc⟩ := s
  simp only [step] at hs
  split at hs
  · rename_i items reqs resps
    cases hs
    split
    · rename_i hempty
      rw [List.isEmpty_iff] at hempty
      subst hempty
      exact h.move (List.nil_sublist _) fun i t _ hat => hat.weaken id (fun _ hm => by cases hm)
        fun _ hw => hw
    · exact h.move (List.Sublist.refl _) fun i t _ hat =>
        hat.weaken id (fun _ hm _ => hm) fun _ hw => hw
  · cases hs

theorem applied_inv (h : s.Inv limit) (hs : s.step limit slot .applied = some s') :
    s'.Inv limit := by
  obtain ⟨tags, pc⟩ := s
  simp only [step] at hs
  split at hs
  · rename_i items k response todo
    split at hs
    · rename_i hk
      cases hs
      have hdrop : items.drop k = [] := List.drop_eq_nil_of_le (List.getElem?_eq_none_iff.1 hk)
      have hwriting : ∀ (i : Nat) (t : TagState), t.At limit (.applying items k response todo) i →
          t.info.data.isWriting → todo.head? = some i := by
        intro i t hat hw
        rcases hat.writing hw with hf | ⟨item, hm, -⟩ | hhead
        · exact hf.elim
        · rw [show Pc.items _ = items.drop k from rfl, hdrop] at hm
          cases hm
        · exact hhead
      split
      · rename_i hempty
        rw [List.isEmpty_iff] at hempty
        subst hempty
        refine h.move (List.nil_sublist _) fun i t _ hat => .of_noItems rfl hat.ok (fun hf => hf.elim)
          fun hw => ?_
        cases hwriting i t hat hw
      · exact h.move (List.sublist_append_right _ _) fun i t _ hat => .of_noItems rfl hat.ok (fun hf => hf.elim)
          fun hw => Or.inr (hwriting i t hat hw)
    · cases hs
  · cases hs

theorem step_inv {a : Act} (h : s.Inv limit) (hs : s.step limit slot a = some s') :
    s'.Inv limit := by
  cases a with
  | addTag tag elements =>
    cases hs
    refine ⟨⟨h.wf.nodup, fun i hi => ?_⟩, fun i t ht => ?_⟩
    · have := h.wf.bound i hi
      simp only [List.length_append, List.length_singleton]
      omega
    · rw [List.getElem?_append] at ht
      split at ht
      · exact h.tags i t ht
      · rename_i hi
        rw [List.getElem?_singleton] at ht
        split at ht
        · cases ht
          -- a batch under way holds no tag that is only now added
          have hnew : ∀ item ∈ s.pc.items, item.info ≠ i := fun item hm heq =>
            hi (heq ▸ h.wf.bound item.info (List.mem_append_left _ (List.mem_map_of_mem hm)))
          exact ⟨TagState.ok_new limit tag elements, fun _ => TagState.clean_new tag elements,
            fun item hm heq => absurd heq (hnew item hm), fun _ _ _ _ => rfl, nofun⟩
        · cases ht
  | grow i elements =>
    cases hs
    exact Inv.other h fun t hat => ⟨⟨hat.ok.value, hat.ok.flagged, hat.ok.unsent, hat.ok.carried⟩,
      fun hi => ⟨(hat.clean hi).noValue, (hat.clean hi).doWrite, (hat.clean hi).isWriting⟩,
      hat.usable, hat.reading, hat.writing⟩
  | stage i w =>
    cases hs
    exact Inv.other h fun t hat => at_stage hat w
  | connect =>
    obtain ⟨tags, pc⟩ := s
    simp only [step] at hs
    split at hs
    · cases hs
      exact h.move (List.nil_sublist _) fun i t _ hat => hat.weaken (fun _ => trivial)
        (fun _ hm => by cases hm) fun _ hw => hw
    · cases hs
  | probe reply => exact probe_inv h hs
  | connected => exact connected_inv h hs
  | startPass list => exact startPass_inv h hs
  | take => exact takeStep_inv h hs
  | tooLarge => exact tooLargeStep_inv h hs
  | giveBack => exact giveBack_inv h hs
  | packed => exact packed_inv h hs
  | reply out => exact replyStep_inv h hs
  | apply => exact applyStep_inv h hs
  | applied => exact applied_inv h hs
  | release => exact releaseStep_inv h hs
  | restart =>
    simp only [step] at hs
    split at hs
    · cases hs
      exact Inv.disconnecting (s := s) h
    · cases hs
  | invalidate => exact invalidateStep_inv h hs

/-! ## Passes that leave no tag out -/

/-- A flagged write of tag `i` is still ahead in the pass over its list. -/
def DueAt (pc : Pc) (i : Nat) (t : TagState) : Prop :=
  t.awaiting = false → t.info.data.doWrite → pc.failing ∨ i ∈ pc.todo

/-- The invariant of runs in which no tag is too large. -/
structure Due (s : Scan) : Prop where
  noGiveBack : ∀ i, s.pc ≠ .givingBack i
  tags : ∀ (i : Nat) (t : TagState), s.tags[i]? = some t → DueAt s.pc i t

theorem Due.update {i : Nat} {f : TagState → TagState} {pc : Pc} (h : s.Due)
    (hno : ∀ i, pc ≠ .givingBack i)
    (hself : ∀ t : TagState, s.tags[i]? = some t → DueAt s.pc i t → DueAt pc i (f t))
    (hother : ∀ (j : Nat) (t : TagState), j ≠ i → s.tags[j]? = some t → DueAt s.pc j t →
      DueAt pc j t) : (s.update i f pc).Due := by
  refine ⟨hno, fun j t' ht' => ?_⟩
  simp only [Scan.update, List.getElem?_modify] at ht'
  obtain ⟨t, ht, rfl⟩ := Option.map_eq_some_iff.1 ht'
  show DueAt pc j (if i = j then f t else t)
  by_cases hij : i = j
  · subst hij
    rw [if_pos rfl]
    exact hself t ht (h.tags i t ht)
  · rw [if_neg hij]
    exact hother j t (Ne.symm hij) ht (h.tags j t ht)

theorem Due.move {pc : Pc} (h : s.Due) (hno : ∀ i, pc ≠ .givingBack i)
    (htags : ∀ (i : Nat) (t : TagState), s.tags[i]? = some t → DueAt s.pc i t → DueAt pc i t) :
    Due { s with pc := pc } :=
  ⟨hno, fun i t ht => htags i t ht (h.tags i t ht)⟩

theorem dueAt_of_clean {pc : Pc} {i : Nat} {t : TagState} (h : t.Clean) : DueAt pc i t := by
  intro _ hw
  rw [h.doWrite] at hw
  cases hw

theorem takeStep_due (hinv : s.Inv limit) (h : s.Due) (hs : s.takeStep limit = some s') :
    s'.Due := by
  obtain ⟨tags, pc⟩ := s
  unfold takeStep at hs
  split at hs
  · rename_i items reqs resps i todo hpc
    simp only at hpc hs
    subst hpc
    split at hs
    · cases hs
    · rename_i t ht
      split at hs
      · rename_i hnone
        cases hs
        refine h.move nofun fun j u hu hdue haw hw => ?_
        refine (hdue haw hw).imp_right fun hj => ?_
        rcases List.mem_cons.1 hj with rfl | hj
        · rw [ht] at hu
          cases hu
          have husable := ((hinv.tags j t ht).ok.flagged (Or.inl hw)).1
          rw [← requestOf_isSome limit, requestOf, hnone] at husable
          cases husable
        · exact hj
      · rename_i d b htake
        -- the flag of a taken tag is down
        have hself : ∀ u : TagState, tags[i]? = some u → ∀ pc' : Pc, DueAt pc' i (u.take limit) := by
          intro u hu pc' _ hw
          rw [ht] at hu
          cases hu
          rcases (hinv.tags i t ht).ok.take_cases htake with ⟨-, hd, -, heq⟩ | ⟨-, -, -, -, -, heq⟩
          · rw [heq, hd] at hw
            cases hw
          · rw [heq] at hw
            cases hw
        split at hs
        · split at hs
          · cases hs
          · cases hs
            exact h.update nofun (fun u hu _ => hself u hu _) fun j u _ _ hdue => hdue
        · cases hs
          refine h.update nofun (fun u hu _ => hself u hu _) fun j u hji _ hdue haw hw => ?_
          refine (hdue haw hw).imp_right fun hj => ?_
          rcases List.mem_cons.1 hj with heq | hj
          · exact absurd heq hji
          · exact hj
  · cases hs

theorem startPass_due {list : List Nat} (h : s.Due)
    (hs : s.step limit slot (.startPass list) = some s') : s'.Due := by
  obtain ⟨tags, pc⟩ := s
  simp only [step] at hs
  split at hs
  · split at hs
    · cases hs
      refine ⟨nofun, fun i t' ht' haw hw => Or.inr ?_⟩
      rw [List.getElem?_mapIdx] at ht'
      obtain ⟨t, ht, rfl⟩ := Option.map_eq_some_iff.1 ht'
      simp only [Bool.and_eq_false_iff, decide_eq_false_iff_not, not_not] at haw
      rcases haw with haw | hmem
      · rcases h.tags i t ht haw hw with hf | hi
        · exact hf.elim
        · cases hi
      · exact hmem
    · cases hs
  · cases hs

theorem applyStep_due (h : s.Due) (hs : s.applyStep = some s') : s'.Due := by
  obtain ⟨tags, pc⟩ := s
  unfold applyStep at hs
  split at hs
  · rename_i items k response todo hpc
    simp only at hpc hs
    subst hpc
    split at hs
    · cases hs
    · split at hs
      · cases hs
        exact h.move nofun fun i t _ _ _ _ => Or.inl trivial
      · rename_i item _ _ sub _
        cases hs
        refine h.update nofun (fun t _ hdue haw hw => hdue haw ?_) fun j t _ _ hdue => hdue
        rwa [← (applyResponse_spec item.writing sub t.info.data).doWrite]
  · cases hs

theorem step_due {a : Act} (hinv : s.Inv limit) (h : s.Due) (ha : a ≠ .tooLarge)
    (hs : s.step limit slot a = some s') : s'.Due := by
  cases a with
  | addTag tag elements =>
    cases hs
    refine ⟨h.noGiveBack, fun i t ht => ?_⟩
    rw [List.getElem?_append] at ht
    split at ht
    · exact h.tags i t ht
    · rw [List.getElem?_singleton] at ht
      split at ht
      · cases ht
        exact dueAt_of_clean (TagState.clean_new tag elements)
      · cases ht
  | grow i elements =>
    cases hs
    exact h.update h.noGiveBack (fun t _ hdue => hdue) fun j t _ _ hdue => hdue
  | stage i w =>
    cases hs
    refine h.update h.noGiveBack (fun t _ hdue => ?_) fun j t _ _ hdue => hdue
    unfold TagState.stage
    split
    · intro haw
      cases haw
    · exact hdue
  | connect =>
    obtain ⟨tags, pc⟩ := s
    simp only [step] at hs
    split at hs
    · cases hs
      exact h.move nofun fun i t ht _ => dueAt_of_clean ((hinv.tags i t ht).clean trivial)
    · cases hs
  | probe reply =>
    obtain ⟨tags, pc⟩ := s
    simp only [step] at hs
    split at hs
    · cases hs
      refine h.update nofun (fun t ht _ => ?_) fun j t _ ht _ => ?_
      · have hat := hinv.tags _ t ht
        exact dueAt_of_clean (hat.ok.probe (hat.clean trivial) reply).2
      · exact dueAt_of_clean ((hinv.tags j t ht).clean trivial)
    · cases hs
  | connected =>
    obtain ⟨tags, pc⟩ := s
    simp only [step] at hs
    split at hs
    · cases hs
      refine h.move (fun i => by split <;> exact nofun) fun i t ht _ => ?_
      exact dueAt_of_clean ((hinv.tags i t ht).clean trivial)
    · cases hs
  | startPass list => exact startPass_due h hs
  | take => exact takeStep_due hinv h hs
  | tooLarge => exact absurd rfl ha
  | giveBack =>
    obtain ⟨tags, pc⟩ := s
    simp only [step] at hs
    split at hs
    · rename_i i
      exact absurd rfl (h.noGiveBack i)
    · cases hs
  | packed =>
    obtain ⟨tags, pc⟩ := s
    simp only [step] at hs
    split at hs
    · cases hs
      refine h.move (fun i => by split <;> exact nofun) fun i t _ hdue haw hw => ?_
      rcases hdue haw hw with hf | hi
      · exact hf.elim
      · cases hi
    · cases hs
  | reply out =>
    obtain ⟨tags, pc⟩ := s
    simp only [step, replyStep] at hs
    split at hs
    · rename_i items todo
      have hfail : Due ⟨tags, .releasing items⟩ := h.move nofun fun i t _ _ _ _ => Or.inl trivial
      split at hs
      · cases hs
        exact hfail
      · split at hs
        · cases hs
          exact h.move nofun fun i t _ hdue => hdue
        · cases hs
          exact hfail
    · cases hs
  | apply => exact applyStep_due h hs
  | applied =>
    obtain ⟨tags, pc⟩ := s
    simp only [step] at hs
    split at hs
    · split at hs
      · cases hs
        split
        · rename_i hempty
          rw [List.isEmpty_iff] at hempty
          subst hempty
          exact h.move nofun fun i t _ hdue => hdue
        · exact h.move nofun fun i t _ hdue => hdue
      · cases hs
    · cases hs
  | release =>
    obtain ⟨tags, pc⟩ := s
    simp only [step, releaseStep] at hs
    split at hs
    · cases hs
      exact h.move nofun fun i t _ _ _ _ => Or.inl trivial
    · cases hs
      exact h.update nofun (fun t _ _ _ _ => Or.inl trivial) fun j t _ _ _ _ _ => Or.inl trivial
    · cases hs
  | restart =>
    simp only [step] at hs
    split at hs
    · cases hs
      exact h.move nofun fun i t _ _ _ _ => Or.inl trivial
    · cases hs
  | invalidate =>
    obtain ⟨tags, pc⟩ := s
    simp only [step, invalidateStep] at hs
    split at hs
    · cases hs
      refine h.move nofun fun i t ht _ => dueAt_of_clean ((hinv.tags i t ht).clean ?_)
      simp [Pc.invalidated]
    · cases hs
      exact h.update nofun (fun t _ _ _ _ => Or.inl trivial) fun j t _ _ _ _ _ => Or.inl trivial
    · cases hs

end Scan

/-! ## Top theorems -/

theorem Scan.inv_init (limit : Nat) : Scan.Inv limit {} :=
  ⟨⟨List.nodup_nil, fun _ hi => nomatch hi⟩, fun _ _ ht => nomatch ht⟩

theorem inv_of_reachable {limit : Nat} {slot : UInt8} {s : Scan}
    (h : (scanSystem limit slot).Reachable s) : s.Inv limit := by
  refine h.invariant ?_ ?_
  · rintro s rfl
    exact Scan.inv_init limit
  · intro s a s' hinv hs
    exact Scan.step_inv hinv (show s.step limit slot a = some s' from hs)

theorem due_of_reachable {limit : Nat} {slot : UInt8} {s : Scan}
    (h : ((scanSystem limit slot).restrict fun _ a => a ≠ .tooLarge).Reachable s) : s.Due := by
  refine h.invariant_of (Q := fun s => s.Inv limit) ?_ ?_ ?_
  · intro s hs
    exact inv_of_reachable hs.of_restrict
  · rintro s rfl
    exact ⟨nofun, fun _ _ ht => nomatch ht⟩
  · intro s a s' hinv hdue hs
    exact Scan.step_due hinv hdue hs.2 (show s.step limit slot a = some s' from hs.1)

/-- **The write handshake.**  Until a write request carrying it is encoded, the
buffer holds what was last staged, flagged for writing, unless a disconnect
dropped it.  Between passes a tag whose list was begun since has no write flag
set, and its last write request carries what was last staged. -/
theorem write_handshake (limit : Nat) (slot : UInt8) :
    (∀ s, (scanSystem limit slot).Reachable s →
      ∀ (i : Nat) (t : TagState), s.tags[i]? = some t → t.unsent → t.dropped = false →
        t.info.data.doWrite ∧ t.staged = some t.info.data.buf) ∧
    (∀ s, ((scanSystem limit slot).restrict fun _ a => a ≠ .tooLarge).Reachable s →
      s.pc = .idle → ∀ (i : Nat) (t : TagState), s.tags[i]? = some t → t.awaiting = false →
        t.info.data.doWrite = false ∧ t.info.data.isWriting = false ∧
        ∀ buf, t.staged = some buf → t.dropped = false →
          ∃ request, t.wrote = some request ∧ Carries limit t.info.tag buf request) := by
  constructor
  · intro s hs i t ht hun hd
    have hok := ((inv_of_reachable hs).tags i t ht).ok
    have hw := hok.unsent hun hd
    exact ⟨hw, (hok.flagged (Or.inl hw)).2.2⟩
  · intro s hs hidle i t ht haw
    have hat := (inv_of_reachable hs.of_restrict).tags i t ht
    have hdo : t.info.data.doWrite = false := by
      by_contra hw
      have := (due_of_reachable hs).tags i t ht haw (by simpa using hw)
      rw [hidle] at this
      rcases this with hf | hi
      · exact hf
      · cases hi
    refine ⟨hdo, ?_, fun buf hst hd => hat.ok.carried buf hst hdo hd⟩
    by_contra hw
    have := hat.writing (by simpa using hw)
    rw [hidle] at this
    rcases this with hf | ⟨item, hm, -⟩ | hhead
    · exact hf
    · cases hm
    · cases hhead

/-! ## A staged write dropped by a restart -/

/-- A LINT tag's buffer. -/
def lintBuf (value : UInt8) : List UInt8 := [0xC5, 0, value, 0, 0, 0, 0, 0, 0, 0]

/-- A pass over the one tag up to its reply, which reads 1. -/
def lintPass : List Act :=
  [.startPass [0], .take, .packed,
    .reply (.ok ([0x8A, 0, 0, 0, 1, 0, 4, 0] ++ [0xCC, 0, 0, 0] ++ lintBuf 1))]

def lintConnect : List Act := [.connect, .probe (some (lintBuf 1)), .connected]

/-- The record stages 5; the operator restarts the driver before the next pass. -/
def restartRun : List Act :=
  [.addTag ⟨[.name [84]]⟩ 1] ++ lintConnect ++ lintPass ++ [.apply, .applied] ++
    [.stage 0 (Staging.lint 0 5), .restart, .invalidate, .invalidate] ++ lintConnect ++ lintPass

/-- The staged value is replaced by the read reply, and no write request was
encoded. -/
theorem staged_write_overwritten :
    ∃ s s', (scanSystem defaultBufferLimit 0).Reachable s ∧
      s.step defaultBufferLimit 0 .apply = some s' ∧
      ∃ t t', s.tags[0]? = some t ∧ s'.tags[0]? = some t' ∧ t.unsent ∧
        t.staged = some t.info.data.buf ∧ t'.info.data.buf ≠ t.info.data.buf := by
  have hrun : ((restartRun.foldlM (Scan.step defaultBufferLimit 0) {}).bind fun s =>
      (s.step defaultBufferLimit 0 .apply).bind fun s' =>
        s.tags[0]?.bind fun t => s'.tags[0]?.map fun t' =>
          (t.unsent, t.staged, t.info.data.buf, t'.info.data.buf)) =
      some (true, some (lintBuf 5), lintBuf 5, lintBuf 1) := by decide +kernel
  obtain ⟨s, hs, hrun⟩ := Option.bind_eq_some_iff.1 hrun
  obtain ⟨s', hs', hrun⟩ := Option.bind_eq_some_iff.1 hrun
  obtain ⟨t, ht, hrun⟩ := Option.bind_eq_some_iff.1 hrun
  obtain ⟨t', ht', hview⟩ := Option.map_eq_some_iff.1 hrun
  simp only [Prod.mk.injEq] at hview
  obtain ⟨h1, h2, h3, h4⟩ := hview
  refine ⟨s, s', System.reachable_ofFun rfl hs, hs', t, t', ht, ht', h1, by rw [h2, h3], ?_⟩
  rw [h3, h4]
  decide

end EtherIp
