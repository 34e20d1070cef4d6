import EpicsIocs.TwinCat.SumUp

/-! # The driver state the threads share

The parameters, the notification map, the sum-up groups and the AMS ports, each
behind a lock of its own.  A function here is one critical section of the driver,
so that an operation is a sequence of them with PLC round trips in between. -/

namespace TwinCat

/-- Where a parameter's data comes from. -/
inductive DataSource where
  | plc
  | amsState
  deriving DecidableEq, Repr

inductive PlcAddress where
  | symbolic (name : String)
  | absolute (indexGroup indexOffset : UInt32)
  | amsPortState
  deriving DecidableEq, Repr

/-- What the driver reads of a parsed `drvInfo`. -/
structure DrvInfo where
  address : PlcAddress
  hasInput : Bool
  amsPort : Nat
  dataSource : DataSource
  /-- `POLL_RATE=` given: read in the sum-up bulk read. -/
  isBulkRead : Bool
  deriving DecidableEq, Repr

/-- Where one parameter's samples come from. -/
inductive Feed where
  | none
  | notification
  | bulk (group slot : Nat)
  deriving DecidableEq, Repr

/-- One asyn parameter: a PLC variable, as far as its resolution goes. -/
structure ParamState where
  info : DrvInfo
  plcSize : UInt32
  handle : Option UInt32
  notification : Option UInt32
  feed : Feed
  /-- The PLC info must be read again: at creation and after every reconnect. -/
  refreshNeeded : Bool
  deriving DecidableEq, Repr

def adsigrpSymValbyhnd : UInt32 := 0xF005
def adsigrpMemoryByte : UInt32 := 0x4020

/-- Sub-requests of one sum-up read, the two timestamp entries included. -/
def bulkGroupMax : Nat := 500

/-- A variable bigger than this is subscribed even when it asked for the bulk read. -/
def bulkMaxVariableBytes : UInt32 := 1048576

/-- The absolute address a read or write of this parameter goes to. -/
def ParamState.wireAddress (p : ParamState) : Option (UInt32 × UInt32) :=
  match p.info.address with
  | .absolute indexGroup indexOffset => some (indexGroup, indexOffset)
  | .symbolic _ => p.handle.map fun h => (adsigrpSymValbyhnd, h)
  | .amsPortState => none

def ParamState.symbolName (p : ParamState) : Option String :=
  match p.info.address with
  | .symbolic name => some name
  | _ => none

/-- A symbol is read and written through its handle. -/
theorem ParamState.handle_isSome (p : ParamState) {name : String} (hname : p.symbolName = some name)
    (haddress : p.wireAddress.isSome) : p.handle.isSome := by
  unfold symbolName at hname
  unfold wireAddress at haddress
  split at hname
  next hsymbolic =>
    rw [hsymbolic] at haddress
    exact Option.isSome_map.symm.trans haddress
  next => cases hname

/-- One sum-up read; slots 0 and 1 are always the PLC clock. -/
structure BulkGroup where
  amsPort : Nat
  entries : List SumEntry
  reasons : List (Option Nat)
  /-- The parameter whose address each entry is: what the poller reads for it. -/
  owners : List (Option Nat)
  deriving DecidableEq, Repr

def BulkGroup.append (g : BulkGroup) (reason : Nat) (entry : SumEntry) : BulkGroup :=
  { g with
    entries := g.entries ++ [entry]
    reasons := g.reasons ++ [some reason]
    owners := g.owners ++ [some reason] }

/-- The handle behind a slot changes on reconnect, the slot does not. -/
def BulkGroup.setEntry (g : BulkGroup) (slot : Nat) (reason : Nat) (entry : SumEntry) : BulkGroup :=
  { g with
    entries := g.entries.set slot entry
    owners := g.owners.set slot (some reason) }

/-- One AMS port on the PLC, and what we last knew about it. -/
structure AmsPortState where
  amsPort : Nat
  connected : Bool
  tsHandles : Option (UInt32 × UInt32)
  refreshNeeded : Bool
  symbolsNotify : Option UInt32
  deriving DecidableEq, Repr

/-- Driver state the actor thread and the background threads share. -/
structure AdsShared where
  /-- The connection, by its number; `none` while disconnected. -/
  client : Option Nat
  /-- By reason; reason 0 is the ASCII command channel. -/
  params : List (Option ParamState)
  /-- Notification handle and reason. -/
  notifications : List (UInt32 × Nat)
  bulk : List BulkGroup
  ports : List AmsPortState
  deriving DecidableEq, Repr

namespace AdsShared

def new : AdsShared where
  client := none
  params := [none]
  notifications := []
  bulk := []
  ports := []

/-- The parameter a reason names. -/
def param? (s : AdsShared) (reason : Nat) : Option ParamState := s.params[reason]?.join

def modifyParam (s : AdsShared) (reason : Nat) (f : ParamState → ParamState) : AdsShared :=
  { s with params := s.params.modify reason (Option.map f) }

/-! ## Binding -/

/-- Register an AMS port the first time a `drvInfo` names it. -/
def ensureAmsPort (s : AdsShared) (amsPort : Nat) : AdsShared :=
  if s.ports.any (·.amsPort = amsPort) then s
  else { s with ports := s.ports ++ [{
    amsPort, connected := false, tsHandles := none,
    refreshNeeded := s.client.isNone, symbolsNotify := none }] }

/-- The parameter a bind creates. -/
def boundParam (info : DrvInfo) (plcSize : UInt32) : ParamState where
  info
  plcSize
  handle := none
  notification := none
  feed := .none
  refreshNeeded := info.dataSource = .plc

/-- `drv_user_create` up to the resolution of the new parameter. -/
def createParam (s : AdsShared) (info : DrvInfo) (plcSize : UInt32) : AdsShared :=
  let s := s.ensureAmsPort info.amsPort
  { s with params := s.params ++ [some (boundParam info plcSize)] }

/-! ## Resolution -/

/-- The old handle is given back before a new one is asked for. -/
def takeHandle (s : AdsShared) (reason : Nat) : AdsShared :=
  s.modifyParam reason fun p => { p with handle := none }

def storeResolved (s : AdsShared) (reason : Nat) (handle : Option UInt32) (plcSize : UInt32) :
    AdsShared :=
  s.modifyParam reason fun p => { p with handle, plcSize }

/-- `remove_notification` under the parameters' lock; `none` when there is nothing
to remove. -/
def takeNotification (s : AdsShared) (reason : Nat) : Option (UInt32 × AdsShared) := do
  let handle ← (← s.param? reason).notification
  return (handle, s.modifyParam reason fun p => { p with notification := none, feed := .none })

def removeNotification (s : AdsShared) (handle : UInt32) : AdsShared :=
  { s with notifications := s.notifications.filter (·.1 ≠ handle) }

/-- A map insert replaces what the handle named. -/
def insertNotification (s : AdsShared) (handle : UInt32) (reason : Nat) : AdsShared :=
  { s with notifications := (handle, reason) :: (s.removeNotification handle).notifications }

def storeNotification (s : AdsShared) (reason : Nat) (handle : UInt32) : AdsShared :=
  s.modifyParam reason fun p => { p with notification := some handle, feed := .notification }

def clearRefresh (s : AdsShared) (reason : Nat) : AdsShared :=
  s.modifyParam reason fun p => { p with refreshNeeded := false }

/-! ## The sum-up groups -/

/-- What `add_to_bulk` reads of the parameter: its entry, and the slot it has. -/
def bulkEntry (p : ParamState) : Option (SumEntry × Option (Nat × Nat)) := do
  let (indexGroup, indexOffset) ← p.wireAddress
  return ({ indexGroup, indexOffset, size := p.plcSize },
    match p.feed with
    | .bulk group slot => some (group, slot)
    | _ => none)

/-- The two slots every sum-up group starts with; a PLC without the clock symbols
gets harmless ones. -/
def timestampEntries (handles : Option (UInt32 × UInt32)) : List SumEntry :=
  match handles with
  | some (hi, lo) => [⟨adsigrpSymValbyhnd, hi, 4⟩, ⟨adsigrpSymValbyhnd, lo, 4⟩]
  | none => [⟨adsigrpMemoryByte, 0, 4⟩, ⟨adsigrpMemoryByte, 0, 4⟩]

/-- A group on the port with room for one more, or a new one. -/
def openGroup (s : AdsShared) (amsPort : Nat) (tsHandles : Option (UInt32 × UInt32)) :
    Nat × AdsShared :=
  match s.bulk.findIdx? fun g => g.amsPort = amsPort ∧ g.entries.length < bulkGroupMax with
  | some gi => (gi, s)
  | none => (s.bulk.length, { s with
      bulk := s.bulk ++ [{
        amsPort
        entries := timestampEntries tsHandles
        reasons := [none, none]
        owners := [none, none] }]
      ports := s.ports.map fun p => if p.amsPort = amsPort then { p with tsHandles } else p })

/-- `add_to_bulk` under the groups' lock; `none` is an index out of range, which
panics.  The slot is that of a new entry. -/
def placeInBulk (s : AdsShared) (reason amsPort : Nat) (entry : SumEntry)
    (existing : Option (Nat × Nat)) (tsHandles : Option (UInt32 × UInt32)) :
    Option (Option (Nat × Nat) × AdsShared) :=
  match existing with
  | some (gi, si) => do
    let g ← s.bulk[gi]?
    let _ ← g.entries[si]?
    return (none, { s with bulk := s.bulk.set gi (g.setEntry si reason entry) })
  | none =>
    let (gi, s) := s.openGroup amsPort tsHandles
    let si := (s.bulk[gi]?.map (·.entries.length)).getD 0
    some (some (gi, si),
      { s with bulk := s.bulk.modify gi fun g => g.append reason entry })

def storeSlot (s : AdsShared) (reason : Nat) (slot : Option (Nat × Nat)) : AdsShared :=
  match slot with
  | none => s
  | some (gi, si) => s.modifyParam reason fun p => { p with feed := .bulk gi si }

/-! ## Invalidation -/

def invalidates (amsPort : Nat) (p : ParamState) : Bool :=
  p.info.amsPort = amsPort ∧ p.info.dataSource = .plc

/-- Mark every PLC parameter of one AMS port for refresh. -/
def invalidateAmsPort (s : AdsShared) (amsPort : Nat) : AdsShared :=
  { s with params := s.params.map <| Option.map fun p =>
      if invalidates amsPort p then { p with refreshNeeded := true } else p }

/-- The parameters `invalidate_ams_port` hits. -/
def invalidated (s : AdsShared) (amsPort : Nat) : List Nat :=
  (List.range s.params.length).filter fun reason => (s.param? reason).any (invalidates amsPort)

/-- Handles and subscriptions that died with the port. -/
def forgetHandles (s : AdsShared) (reasons : List Nat) : AdsShared :=
  { s with params := s.params.mapIdx fun reason slot =>
      if reason ∈ reasons then slot.map fun p => { p with handle := none, notification := none }
      else slot }

def forgetNotifications (s : AdsShared) (reasons : List Nat) : AdsShared :=
  { s with notifications := s.notifications.filter (·.2 ∉ reasons) }

/-- The port is flagged for refresh. -/
def flagPort (s : AdsShared) (amsPort : Nat) : AdsShared :=
  { s with ports := s.ports.map fun p =>
      if p.amsPort = amsPort then { p with refreshNeeded := true, symbolsNotify := none } else p }

/-- One AMS port went away. -/
def dropAmsPort (s : AdsShared) (amsPort : Nat) : AdsShared :=
  let reasons := s.invalidated amsPort
  (((s.invalidateAmsPort amsPort).forgetHandles reasons).forgetNotifications reasons).flagPort
    amsPort

def resetPorts (s : AdsShared) : AdsShared :=
  { s with ports := s.ports.map fun p => { p with connected := false, tsHandles := none } }

/-- Drop the connection and everything that fed off it. -/
def disconnect (s : AdsShared) : AdsShared :=
  if s.client.isNone then s
  else
    let s := { s with client := none, notifications := [], bulk := [] }
    ((s.ports.map (·.amsPort)).foldl dropAmsPort s).resetPorts

/-! ## Lemmas -/

@[simp] theorem timestampEntries_length (handles : Option (UInt32 × UInt32)) :
    (timestampEntries handles).length = 2 := by
  cases handles <;> rfl

@[simp] theorem param?_modifyParam (s : AdsShared) (reason k : Nat) (f : ParamState → ParamState) :
    (s.modifyParam reason f).param? k =
      if k = reason then (s.param? k).map f else s.param? k := by
  unfold param? modifyParam
  rw [List.getElem?_modify]
  by_cases h : reason = k
  · subst h
    cases s.params[reason]? <;> simp
  · rw [if_neg (fun hk => h hk.symm)]
    cases s.params[k]? <;> simp [h]

theorem param?_createParam (s : AdsShared) (info : DrvInfo) (plcSize : UInt32) (k : Nat) :
    (s.createParam info plcSize).param? k =
      if k = s.params.length then some (boundParam info plcSize) else s.param? k := by
  have hparams : (s.ensureAmsPort info.amsPort).params = s.params := by
    unfold ensureAmsPort
    split <;> rfl
  unfold param? createParam
  simp only [hparams]
  rcases Nat.lt_trichotomy k s.params.length with h | h | h
  · rw [if_neg (by omega), List.getElem?_append_left h]
  · rw [if_pos h, h, List.getElem?_concat_length]
    rfl
  · rw [if_neg (by omega), List.getElem?_eq_none (by simp; omega), List.getElem?_eq_none (by omega)]

theorem param?_invalidateAmsPort (s : AdsShared) (amsPort k : Nat) :
    (s.invalidateAmsPort amsPort).param? k = (s.param? k).map fun p =>
      if invalidates amsPort p then { p with refreshNeeded := true } else p := by
  unfold param? invalidateAmsPort
  rw [List.getElem?_map]
  rcases s.params[k]? with _ | (_ | p) <;> rfl

theorem param?_forgetHandles (s : AdsShared) (reasons : List Nat) (k : Nat) :
    (s.forgetHandles reasons).param? k =
      if k ∈ reasons then (s.param? k).map fun p => { p with handle := none, notification := none }
      else s.param? k := by
  unfold param? forgetHandles
  rw [List.getElem?_mapIdx]
  rcases s.params[k]? with _ | (_ | p) <;> by_cases h : k ∈ reasons <;> simp [h]

theorem invalidates_port {amsPort : Nat} {p : ParamState} (h : invalidates amsPort p = true) :
    p.info.amsPort = amsPort := by
  simp only [invalidates, decide_eq_true_eq] at h
  exact h.1

theorem mem_invalidated {s : AdsShared} {amsPort k : Nat} :
    k ∈ s.invalidated amsPort ↔ ∃ p, s.param? k = some p ∧ invalidates amsPort p = true := by
  unfold invalidated
  rw [List.mem_filter, List.mem_range, Option.any_eq_true]
  constructor
  · rintro ⟨-, p, hp, hi⟩
    exact ⟨p, hp, hi⟩
  · rintro ⟨p, hp, hi⟩
    refine ⟨?_, p, hp, hi⟩
    by_contra hlen
    rw [param?, List.getElem?_eq_none (by omega)] at hp
    cases hp

/-! ## The notification map -/

/-- The parameter a notification handle names. -/
def lookup (s : AdsShared) (handle : UInt32) : Option Nat := s.notifications.lookup handle

theorem lookup_filter_some {l : List (UInt32 × Nat)} {keep : UInt32 × Nat → Bool} {handle : UInt32}
    {reason : Nat} (h : l.lookup handle = some reason) (hkeep : keep (handle, reason) = true) :
    (l.filter keep).lookup handle = some reason := by
  induction l with
  | nil => cases h
  | cons x l ih =>
    obtain ⟨k, r⟩ := x
    rw [List.lookup_cons] at h
    split at h
    next heq =>
      cases h
      obtain rfl := eq_of_beq heq
      rw [List.filter_cons_of_pos hkeep, List.lookup_cons, heq]
    next hne =>
      rw [List.filter_cons]
      split
      · rw [List.lookup_cons, hne]
        exact ih h
      · exact ih h

theorem lookup_filter_none {l : List (UInt32 × Nat)} (keep : UInt32 × Nat → Bool) {handle : UInt32}
    (h : l.lookup handle = none) : (l.filter keep).lookup handle = none := by
  rw [List.lookup_eq_none_iff] at h ⊢
  exact fun x hx => h x (List.mem_of_mem_filter hx)

theorem lookup_removeNotification (s : AdsShared) {handle other : UInt32} (hne : other ≠ handle) :
    (s.removeNotification handle).lookup other = s.lookup other := by
  unfold lookup removeNotification
  cases h : s.notifications.lookup other with
  | none => exact lookup_filter_none _ h
  | some reason => exact lookup_filter_some h (by simpa using hne)

theorem lookup_insertNotification (s : AdsShared) (handle other : UInt32) (reason : Nat) :
    (s.insertNotification handle reason).lookup other =
      if other = handle then some reason else s.lookup other := by
  unfold lookup insertNotification
  rw [List.lookup_cons]
  by_cases h : other = handle
  · simp [h]
  · rw [if_neg h, beq_false_of_ne h]
    exact s.lookup_removeNotification h

theorem lookup_forgetNotifications {s : AdsShared} {reasons : List Nat} {handle : UInt32}
    {reason : Nat} (h : s.lookup handle = some reason) (hreason : reason ∉ reasons) :
    (s.forgetNotifications reasons).lookup handle = some reason :=
  lookup_filter_some h (by simpa using hreason)

/-! ## Frames -/

/-- A parameter that has a slot is fed from it. -/
theorem bulkEntry_slot {p : ParamState} {entry : SumEntry} {group slot : Nat}
    (h : bulkEntry p = some (entry, some (group, slot))) : p.feed = .bulk group slot := by
  obtain ⟨address, -, heq⟩ := Option.bind_eq_some_iff.1 h
  simp only [Option.pure_def, Option.some.injEq, Prod.mk.injEq] at heq
  obtain ⟨-, hfeed⟩ := heq
  split at hfeed
  next gi si hf =>
    cases hfeed
    exact hf
  next => cases hfeed

/-- A bind registers the parameter's port, and leaves the client and the notifications. -/
theorem createParam_frame (s : AdsShared) (info : DrvInfo) (plcSize : UInt32) :
    (s.createParam info plcSize).client = s.client ∧
      (s.createParam info plcSize).notifications = s.notifications ∧
        info.amsPort ∈ (s.createParam info plcSize).ports.map (·.amsPort) ∧
          s.ports.map (·.amsPort) ⊆ (s.createParam info plcSize).ports.map (·.amsPort) := by
  unfold createParam ensureAmsPort
  split
  next hknown =>
    obtain ⟨p, hp, hport⟩ := List.any_eq_true.1 hknown
    exact ⟨rfl, rfl, List.mem_map.2 ⟨p, hp, of_decide_eq_true hport⟩, fun _ h => h⟩
  next =>
    refine ⟨rfl, rfl, by simp, fun k hk => ?_⟩
    rw [List.map_append]
    exact List.mem_append_left _ hk

/-- A section of the groups leaves the parameters, the notifications and the client. -/
theorem placeInBulk_frame {s s' : AdsShared} {reason amsPort : Nat} {entry : SumEntry}
    {existing slot : Option (Nat × Nat)} {tsHandles : Option (UInt32 × UInt32)}
    (h : s.placeInBulk reason amsPort entry existing tsHandles = some (slot, s')) :
    s'.params = s.params ∧ s'.notifications = s.notifications ∧ s'.client = s.client ∧
      s'.ports.map (·.amsPort) = s.ports.map (·.amsPort) ∧ (slot = none → existing.isSome) := by
  cases existing with
  | some place =>
    obtain ⟨g, -, h⟩ := Option.bind_eq_some_iff.1 h
    obtain ⟨e, -, h⟩ := Option.bind_eq_some_iff.1 h
    cases h
    exact ⟨rfl, rfl, rfl, rfl, fun _ => rfl⟩
  | none =>
    have hopen : (s.openGroup amsPort tsHandles).2.params = s.params ∧
        (s.openGroup amsPort tsHandles).2.notifications = s.notifications ∧
          (s.openGroup amsPort tsHandles).2.client = s.client ∧
            (s.openGroup amsPort tsHandles).2.ports.map (·.amsPort) =
              s.ports.map (·.amsPort) := by
      unfold openGroup
      split
      · exact ⟨rfl, rfl, rfl, rfl⟩
      · refine ⟨rfl, rfl, rfl, ?_⟩
        rw [List.map_map]
        refine List.map_congr_left fun p _ => ?_
        dsimp only [Function.comp_apply]
        split <;> rfl
    cases h
    exact ⟨hopen.1, hopen.2.1, hopen.2.2.1, hopen.2.2.2, nofun⟩

end AdsShared

end TwinCat
