import EpicsIocs.Lib.Steps
import EpicsIocs.TwinCat.Shared

/-! # The slots of the sum-up groups

A bulk-fed parameter names its slot and the groups name the parameter back
(`AdsShared.SlotOf`).  The two tables are behind different locks, and
`disconnect` clears one of them only: a bulk-fed parameter then names a slot that
does not exist, its next refresh indexes out of range (`disconnect_strands_slot`),
and once other groups are there it takes another parameter's.  Runs in which no
parameter is bulk-fed when a connection is dropped keep the tables together, and
only those (`bulk_slots`).

The operations are whole here: one runs to its end before the next begins. -/

namespace TwinCat

open Steps

/-- What the PLC answers during one `refresh_param`. -/
structure PlcAnswers where
  symbolSize : Option UInt32
  handle : Option UInt32
  tsHandles : Option (UInt32 × UInt32)
  notification : Option UInt32
  /-- One of the two reads of the first sample succeeds. -/
  sample : Bool
  deriving DecidableEq, Repr

inductive RefreshEnd where
  | done
  | failed
  | panicked
  deriving DecidableEq, Repr

namespace AdsShared

/-- The handle and the size of the variable: from the PLC for a symbol, from the
link otherwise. -/
def resolve (s : AdsShared) (reason : Nat) (p : ParamState) (plc : PlcAnswers) :
    AdsShared × Option (Option UInt32 × UInt32) :=
  match p.symbolName, plc.symbolSize with
  | none, _ => (s, some (none, p.plcSize))
  | some _, none => (s, none)
  | some _, some size =>
    (s.takeHandle reason, plc.handle.map fun handle => (some handle, size))

def addToBulk (s : AdsShared) (reason : Nat) (tsHandles : Option (UInt32 × UInt32)) :
    AdsShared × RefreshEnd :=
  match s.param? reason with
  | none => (s, .failed)
  | some p =>
    match bulkEntry p with
    | none => (s, .failed)
    | some (entry, existing) =>
      match s.placeInBulk reason p.info.amsPort entry existing tsHandles with
      | none => (s, .panicked)
      | some (slot, s) => (s.storeSlot reason slot, .done)

/-- `remove_notification`. -/
def unsubscribe (s : AdsShared) (reason : Nat) : AdsShared :=
  match s.takeNotification reason with
  | none => s
  | some (handle, s) => s.removeNotification handle

/-- `add_notification`. -/
def subscribe (s : AdsShared) (reason : Nat) (answer : Option UInt32) : AdsShared × RefreshEnd :=
  match s.param? reason >>= ParamState.wireAddress, answer with
  | some _, some handle =>
    ((s.insertNotification handle reason).storeNotification reason handle, .done)
  | _, _ => (s, .failed)

/-- A notification, unless the record asked for the bulk read and the variable is
small enough to share a sum-up response. -/
def feedParam (s : AdsShared) (reason : Nat) (info : DrvInfo) (size : UInt32) (feed : Feed)
    (plc : PlcAnswers) : AdsShared × RefreshEnd :=
  if info.isBulkRead = true ∧ size ≤ bulkMaxVariableBytes then s.addToBulk reason plc.tsHandles
  else (if feed = .notification then s.unsubscribe reason else s).subscribe reason plc.notification

/-- Read the PLC's own view of one variable, feed it, and take a first sample. -/
def refreshParam (s : AdsShared) (reason : Nat) (plc : PlcAnswers) : AdsShared × RefreshEnd :=
  match s.client, s.param? reason with
  | some _, some p =>
    match s.resolve reason p plc with
    | (s, none) => (s, .failed)
    | (s, some (handle, size)) =>
      let s := s.storeResolved reason handle size
      if p.info.hasInput then
        match s.feedParam reason p.info size p.feed plc with
        | (s, .done) => if plc.sample then (s.clearRefresh reason, .done) else (s, .failed)
        | stopped => stopped
      else (s.clearRefresh reason, .done)
  | _, _ => (s, .failed)

/-- One pass of the sum-up reads: the reason a sample is published for, and the
parameter whose variable was read. -/
def bulkCycle (s : AdsShared) : List (Nat × Option Nat) :=
  s.bulk.flatMap fun g =>
    if g.entries.length ≤ 2 then []
    else ((g.reasons.zip g.owners).drop 2).filterMap fun (reason, owner) =>
      reason.map fun reason => (reason, owner)

/-- The slot is there, on the parameter's AMS port, past the clock, and its own. -/
def SlotOf (s : AdsShared) (reason : Nat) (p : ParamState) (group slot : Nat) : Prop :=
  ∃ g, s.bulk[group]? = some g ∧ slot < g.entries.length ∧ g.amsPort = p.info.amsPort ∧
    g.reasons[slot]? = some (some reason) ∧ 2 ≤ slot

/-- Every bulk-fed parameter has its slot, no two share one, and the poller
publishes each variable for its own parameter. -/
structure BulkOk (s : AdsShared) : Prop where
  slots : ∀ reason p group slot, s.param? reason = some p → p.feed = .bulk group slot →
    s.SlotOf reason p group slot
  unshared : ∀ reason p reason' p' group slot, s.param? reason = some p →
    s.param? reason' = some p' → p.feed = .bulk group slot → p'.feed = .bulk group slot →
    reason = reason'
  published : ∀ x ∈ s.bulkCycle, x.2 = some x.1

end AdsShared

/-- The lists of a group go together, and its reasons name what its entries read. -/
structure BulkGroup.WF (g : BulkGroup) : Prop where
  reasons : g.reasons.length = g.entries.length
  owners : g.owners.length = g.entries.length
  clock : 2 ≤ g.entries.length
  size : g.entries.length ≤ bulkGroupMax
  own : ∀ (slot reason : Nat), g.reasons[slot]? = some (some reason) →
    2 ≤ slot ∧ g.owners[slot]? = some (some reason)

/-- The driver, and whether one of its threads has panicked. -/
structure BulkRun where
  shared : AdsShared
  panicked : Bool
  deriving DecidableEq, Repr

inductive BulkAct where
  /-- `plc` is `none` when the link is down. -/
  | bind (info : DrvInfo) (plcSize : UInt32) (plc : Option PlcAnswers)
  | refresh (reason : Nat) (plc : PlcAnswers)
  | dropAmsPort (amsPort : Nat)
  | symbolsChanged (amsPort : Nat)
  | disconnect
  | connect (connection : Nat)
  | bulkCycle

namespace BulkRun

def start : BulkRun where
  shared := .new
  panicked := false

def refresh (s : BulkRun) (reason : Nat) (plc : PlcAnswers) : BulkRun :=
  let (shared, ending) := s.shared.refreshParam reason plc
  { shared, panicked := s.panicked || ending = .panicked }

def step (s : BulkRun) : BulkAct → Option BulkRun
  | .bind info plcSize plc =>
    let bound := { s with shared := s.shared.createParam info plcSize }
    some (match plc with
      | some plc => bound.refresh s.shared.params.length plc
      | none => bound)
  | .refresh reason plc => some (s.refresh reason plc)
  | .dropAmsPort amsPort => some { s with shared := s.shared.dropAmsPort amsPort }
  | .symbolsChanged amsPort => some { s with shared := s.shared.invalidateAmsPort amsPort }
  | .disconnect => some { s with shared := s.shared.disconnect }
  | .connect connection =>
    if s.shared.client = none then
      some { s with shared := { s.shared with client := some connection } }
    else none
  -- The poller publishes samples and leaves the tables alone.
  | .bulkCycle => some s

/-- What the slots are for: the tables agree, and no index was out of range. -/
def Ok (s : BulkRun) : Prop := s.shared.BulkOk ∧ s.panicked = false

/-- No parameter is bulk-fed when a connection is dropped. -/
def DropsUnfed (s : BulkRun) : BulkAct → Prop
  | .disconnect => s.shared.client = none ∨
      ∀ reason p, s.shared.param? reason = some p → ∀ group slot, p.feed ≠ .bulk group slot
  | _ => True

end BulkRun

def bulkSystem : System BulkRun BulkAct := System.ofFun (· = .start) BulkRun.step

/-! ## Groups -/

namespace BulkGroup.WF

variable {g : BulkGroup}

theorem setEntry (h : g.WF) {slot reason : Nat} (hslot : g.reasons[slot]? = some (some reason))
    (entry : SumEntry) : (g.setEntry slot reason entry).WF where
  reasons := by simpa [BulkGroup.setEntry] using h.reasons
  owners := by simpa [BulkGroup.setEntry] using h.owners
  clock := by simpa [BulkGroup.setEntry] using h.clock
  size := by simpa [BulkGroup.setEntry] using h.size
  own := by
    intro k r hk
    obtain ⟨hclock, howner⟩ := h.own k r hk
    refine ⟨hclock, ?_⟩
    by_cases hsk : slot = k
    · subst hsk
      have hr : reason = r := Option.some.inj (Option.some.inj (hslot.symm.trans hk))
      obtain ⟨hlt, -⟩ := List.getElem?_eq_some_iff.1 howner
      rw [BulkGroup.setEntry, List.getElem?_set_self hlt, hr]
    · rw [BulkGroup.setEntry, List.getElem?_set_ne hsk]
      exact howner

theorem append (h : g.WF) (hroom : g.entries.length < bulkGroupMax) (reason : Nat)
    (entry : SumEntry) : (g.append reason entry).WF where
  reasons := by simp [BulkGroup.append, h.reasons]
  owners := by simp [BulkGroup.append, h.owners]
  clock := by
    have := h.clock
    simp only [BulkGroup.append, List.length_append]
    omega
  size := by
    simp only [BulkGroup.append, List.length_append, List.length_singleton]
    omega
  own := by
    intro k r hk
    have hlen := h.reasons
    have hown := h.owners
    have hclock := h.clock
    simp only [BulkGroup.append, List.getElem?_append] at hk ⊢
    by_cases hlt : k < g.reasons.length
    · rw [if_pos hlt] at hk
      rw [if_pos (by omega)]
      exact h.own k r hk
    · rw [if_neg hlt] at hk
      rw [if_neg (by omega), show k - g.owners.length = k - g.reasons.length by omega]
      exact ⟨by omega, hk⟩

theorem new (amsPort : Nat) (tsHandles : Option (UInt32 × UInt32)) :
    ({ amsPort, entries := AdsShared.timestampEntries tsHandles, reasons := [none, none],
       owners := [none, none] } : BulkGroup).WF where
  reasons := by simp
  owners := by simp
  clock := by simp
  size := by simp [bulkGroupMax]
  own := by
    intro slot reason h
    match slot, h with
    | 0, h => cases h
    | 1, h => cases h
    | slot + 2, h => cases h

end BulkGroup.WF

namespace AdsShared

/-- The invariant behind `BulkOk`. -/
structure BulkInv (s : AdsShared) : Prop where
  slots : ∀ reason p group slot, s.param? reason = some p → p.feed = .bulk group slot →
    s.SlotOf reason p group slot
  groups : ∀ g ∈ s.bulk, g.WF

theorem BulkInv.ok {s : AdsShared} (h : s.BulkInv) : s.BulkOk where
  slots := h.slots
  unshared := by
    intro reason p reason' p' group slot hp hp' hf hf'
    obtain ⟨g, hg, -, -, hr, -⟩ := h.slots reason p group slot hp hf
    obtain ⟨g', hg', -, -, hr', -⟩ := h.slots reason' p' group slot hp' hf'
    rw [hg] at hg'
    cases hg'
    rw [hr] at hr'
    exact Option.some.inj (Option.some.inj hr')
  published := by
    rintro ⟨reason, owner⟩ hx
    obtain ⟨g, hg, hx⟩ := List.mem_flatMap.1 hx
    split at hx
    · cases hx
    · obtain ⟨⟨slotReason, slotOwner⟩, hmem, hsome⟩ := List.mem_filterMap.1 hx
      obtain ⟨k, hk⟩ := List.mem_iff_getElem?.1 (List.mem_of_mem_drop hmem)
      obtain ⟨hreason, howner⟩ := List.getElem?_zip_eq_some.1 hk
      cases slotReason with
      | none => cases hsome
      | some r =>
        cases hsome
        rw [((h.groups g hg).own k reason hreason).2] at howner
        exact (Option.some.inj howner).symm

theorem new_bulkInv : new.BulkInv where
  slots := by
    intro reason p group slot hp
    match reason, hp with
    | 0, hp => cases hp
    | reason + 1, hp => cases hp
  groups := fun _ hg => nomatch hg

variable {s s' : AdsShared}

/-- The groups are the same, and no parameter is newly bulk-fed. -/
theorem BulkInv.keep (h : s.BulkInv) (hbulk : s'.bulk = s.bulk)
    (hparams : ∀ reason p' group slot, s'.param? reason = some p' → p'.feed = .bulk group slot →
      ∃ p, s.param? reason = some p ∧ p.info = p'.info ∧ p.feed = p'.feed) : s'.BulkInv where
  slots := by
    intro reason p' group slot hp' hfeed
    obtain ⟨p, hp, hinfo, hpfeed⟩ := hparams reason p' group slot hp' hfeed
    obtain ⟨g, hg, hlt, hport, hr, hclock⟩ := h.slots reason p group slot hp (hpfeed.trans hfeed)
    exact ⟨g, by rw [hbulk]; exact hg, hlt, hport.trans (congrArg DrvInfo.amsPort hinfo), hr, hclock⟩
  groups := by
    rw [hbulk]
    exact h.groups

theorem BulkInv.modifyParam (h : s.BulkInv) (reason : Nat) {f : ParamState → ParamState}
    (hinfo : ∀ p, (f p).info = p.info)
    (hfeed : ∀ p group slot, (f p).feed = .bulk group slot → (f p).feed = p.feed) :
    (s.modifyParam reason f).BulkInv := by
  refine h.keep rfl fun k p' group slot hp' hbulk => ?_
  rw [param?_modifyParam] at hp'
  split at hp'
  · obtain ⟨p, hp, rfl⟩ := Option.map_eq_some_iff.1 hp'
    exact ⟨p, hp, (hinfo p).symm, (hfeed p group slot hbulk).symm⟩
  · exact ⟨p', hp', rfl, rfl⟩

theorem BulkInv.invalidateAmsPort (h : s.BulkInv) (amsPort : Nat) :
    (s.invalidateAmsPort amsPort).BulkInv := by
  refine h.keep rfl fun k p' group slot hp' _ => ?_
  rw [param?_invalidateAmsPort] at hp'
  obtain ⟨p, hp, rfl⟩ := Option.map_eq_some_iff.1 hp'
  refine ⟨p, hp, ?_⟩
  split <;> exact ⟨rfl, rfl⟩

theorem BulkInv.forgetHandles (h : s.BulkInv) (reasons : List Nat) :
    (s.forgetHandles reasons).BulkInv := by
  refine h.keep rfl fun k p' group slot hp' _ => ?_
  rw [param?_forgetHandles] at hp'
  split at hp'
  · obtain ⟨p, hp, rfl⟩ := Option.map_eq_some_iff.1 hp'
    exact ⟨p, hp, rfl, rfl⟩
  · exact ⟨p', hp', rfl, rfl⟩

theorem BulkInv.dropAmsPort (h : s.BulkInv) (amsPort : Nat) : (s.dropAmsPort amsPort).BulkInv :=
  ((h.invalidateAmsPort amsPort).forgetHandles _).keep rfl
    fun _ p' _ _ hp' _ => ⟨p', hp', rfl, rfl⟩

theorem BulkInv.dropAmsPorts (h : s.BulkInv) (amsPorts : List Nat) :
    (amsPorts.foldl AdsShared.dropAmsPort s).BulkInv := by
  induction amsPorts generalizing s with
  | nil => exact h
  | cons amsPort amsPorts ih => exact ih (h.dropAmsPort amsPort)

theorem BulkInv.createParam (h : s.BulkInv) (info : DrvInfo) (plcSize : UInt32) :
    (s.createParam info plcSize).BulkInv := by
  have hbulk : (s.createParam info plcSize).bulk = s.bulk := by
    unfold AdsShared.createParam ensureAmsPort
    dsimp only
    split <;> rfl
  refine h.keep hbulk fun k p' group slot hp' hfeed => ?_
  rw [param?_createParam] at hp'
  split at hp'
  · cases hp'
    cases hfeed
  · exact ⟨p', hp', rfl, rfl⟩

theorem BulkInv.resolve (h : s.BulkInv) (reason : Nat) (p : ParamState) (plc : PlcAnswers) :
    (s.resolve reason p plc).1.BulkInv := by
  unfold AdsShared.resolve
  split
  · exact h
  · exact h
  · exact h.modifyParam reason (fun _ => rfl) (fun _ _ _ _ => rfl)

/-! ## Slots -/

/-- What stays of a slot when groups are added and grow. -/
theorem SlotOf.mono {reason group slot : Nat} {p : ParamState} (h : s.SlotOf reason p group slot)
    (hgroups : ∀ (gi : Nat) (g : BulkGroup), s.bulk[gi]? = some g → ∃ g' : BulkGroup,
      s'.bulk[gi]? = some g' ∧
      g'.amsPort = g.amsPort ∧ g.entries.length ≤ g'.entries.length ∧
        ∀ (k : Nat) r, g.reasons[k]? = some r → g'.reasons[k]? = some r) :
    s'.SlotOf reason p group slot := by
  obtain ⟨g, hg, hlt, hport, hr, hclock⟩ := h
  obtain ⟨g', hg', hport', hlen, hreasons⟩ := hgroups group g hg
  exact ⟨g', hg', by omega, hport'.trans hport, hreasons slot _ hr, hclock⟩

/-- An open group has room, and the groups that were there are still there. -/
theorem BulkInv.openGroup (h : s.BulkInv) (amsPort : Nat) (tsHandles : Option (UInt32 × UInt32)) :
    (s.openGroup amsPort tsHandles).2.BulkInv ∧
      (∀ k, (s.openGroup amsPort tsHandles).2.param? k = s.param? k) ∧
      ∃ g, (s.openGroup amsPort tsHandles).2.bulk[(s.openGroup amsPort tsHandles).1]? = some g ∧
        g.amsPort = amsPort ∧ g.entries.length < bulkGroupMax := by
  unfold AdsShared.openGroup
  split
  next gi hfind =>
    obtain ⟨hlt, hg, -⟩ := List.findIdx?_eq_some_iff_getElem.1 hfind
    rw [decide_eq_true_eq] at hg
    exact ⟨h, fun _ => rfl, s.bulk[gi], List.getElem?_eq_getElem hlt, hg.1, hg.2⟩
  next =>
    refine ⟨⟨fun reason p group slot hp hfeed => ?_, fun g hg => ?_⟩, fun _ => rfl, _,
      List.getElem?_concat_length, rfl, ?_⟩
    · refine (h.slots reason p group slot hp hfeed).mono fun gi g hg => ⟨g, ?_, rfl, Nat.le_refl _,
        fun _ _ hr => hr⟩
      rw [List.getElem?_append_left (List.getElem?_eq_some_iff.1 hg).1]
      exact hg
    · obtain hg | hg := List.mem_append.1 hg
      · exact h.groups g hg
      · rw [List.mem_singleton.1 hg]
        exact BulkGroup.WF.new amsPort tsHandles
    · simp [bulkGroupMax]

/-- Changing one group keeps every slot when it grows. -/
theorem BulkInv.setGroup (h : s.BulkInv) {gi : Nat} {g g' : BulkGroup} (hg : s.bulk[gi]? = some g)
    (hwf : g'.WF) (hport : g'.amsPort = g.amsPort) (hlen : g.entries.length ≤ g'.entries.length)
    (hreasons : ∀ (k : Nat) r, g.reasons[k]? = some r → g'.reasons[k]? = some r) :
    ({ s with bulk := s.bulk.set gi g' } : AdsShared).BulkInv where
  slots := by
    intro reason p group slot hp hfeed
    refine (h.slots reason p group slot hp hfeed).mono fun k g0 hg0 => ?_
    by_cases hk : gi = k
    · subst hk
      rw [hg] at hg0
      cases hg0
      exact ⟨g', List.getElem?_set_self (List.getElem?_eq_some_iff.1 hg).1, hport, hlen, hreasons⟩
    · refine ⟨g0, ?_, rfl, Nat.le_refl _, fun _ _ hr => hr⟩
      rw [← hg0]
      exact List.getElem?_set_ne hk
  groups := by
    intro g0 hg0
    obtain hg0 | rfl := List.mem_or_eq_of_mem_set hg0
    · exact h.groups g0 hg0
    · exact hwf

/-- A parameter with a slot keeps it; one without gets the end of an open group. -/
theorem BulkInv.addToBulk (h : s.BulkInv) (reason : Nat) (tsHandles : Option (UInt32 × UInt32)) :
    (s.addToBulk reason tsHandles).1.BulkInv ∧ (s.addToBulk reason tsHandles).2 ≠ .panicked := by
  unfold AdsShared.addToBulk
  split
  · exact ⟨h, nofun⟩
  next p hp =>
    split
    · exact ⟨h, nofun⟩
    next entry existing hentry =>
      cases existing with
      | some at' =>
        obtain ⟨gi, si⟩ := at'
        obtain ⟨g, hg, hlt, -, hreason, -⟩ := h.slots reason p gi si hp (bulkEntry_slot hentry)
        have hplace : s.placeInBulk reason p.info.amsPort entry (some (gi, si)) tsHandles =
            some (none, { s with bulk := s.bulk.set gi (g.setEntry si reason entry) }) := by
          simp [placeInBulk, hg, List.getElem?_eq_getElem hlt]
        rw [hplace]
        refine ⟨h.setGroup hg ((h.groups g (List.mem_of_getElem? hg)).setEntry hreason entry) rfl ?_
          fun _ _ hr => hr, nofun⟩
        simp [BulkGroup.setEntry]
      | none =>
        obtain ⟨hopen, hparams, g, hg, hport, hroom⟩ := h.openGroup p.info.amsPort tsHandles
        have hplace : s.placeInBulk reason p.info.amsPort entry none tsHandles =
            some (some ((s.openGroup p.info.amsPort tsHandles).1, g.entries.length),
              { (s.openGroup p.info.amsPort tsHandles).2 with
                bulk := (s.openGroup p.info.amsPort tsHandles).2.bulk.set
                  (s.openGroup p.info.amsPort tsHandles).1 (g.append reason entry) }) := by
          simp only [placeInBulk, hg, Option.map_some, Option.getD_some]
          rw [List.modify_eq_set_getElem?]
          simp [hg]
        rw [hplace]
        generalize (s.openGroup p.info.amsPort tsHandles).1 = gi at *
        generalize (s.openGroup p.info.amsPort tsHandles).2 = s1 at *
        have hwf := hopen.groups g (List.mem_of_getElem? hg)
        have happend := hopen.setGroup hg (hwf.append hroom reason entry) rfl
          (by simp [BulkGroup.append]) fun k r hr => by
            rw [BulkGroup.append, List.getElem?_append_left (List.getElem?_eq_some_iff.1 hr).1]
            exact hr
        refine ⟨⟨fun k p' group slot hp' hfeed => ?_, happend.groups⟩, nofun⟩
        simp only [storeSlot, param?_modifyParam] at hp'
        split at hp'
        next hk =>
          obtain ⟨p0, hp0, rfl⟩ := Option.map_eq_some_iff.1 hp'
          cases hfeed
          subst hk
          have hp0 : p0 = p := Option.some.inj (hp0.symm.trans ((hparams k).trans hp))
          refine ⟨g.append k entry, List.getElem?_set_self (List.getElem?_eq_some_iff.1 hg).1, ?_, ?_,
            ?_, hwf.clock⟩
          · simp [BulkGroup.append]
          · rw [hp0]
            exact hport
          · rw [← hwf.reasons]
            exact List.getElem?_concat_length
        next => exact happend.slots k p' group slot hp' hfeed

theorem BulkInv.unsubscribe (h : s.BulkInv) (reason : Nat) : (s.unsubscribe reason).BulkInv := by
  unfold AdsShared.unsubscribe
  split
  · exact h
  next handle s1 htake =>
    obtain ⟨p, -, htake⟩ := Option.bind_eq_some_iff.1 htake
    obtain ⟨n, -, htake⟩ := Option.bind_eq_some_iff.1 htake
    cases htake
    have htaken := h.modifyParam reason
      (f := fun p => { p with notification := none, feed := .none })
      (fun _ => rfl) (fun _ _ _ hfeed => nomatch hfeed)
    exact htaken.keep rfl fun _ p' _ _ hp' _ => ⟨p', hp', rfl, rfl⟩

theorem BulkInv.subscribe (h : s.BulkInv) (reason : Nat) (answer : Option UInt32) :
    (s.subscribe reason answer).1.BulkInv ∧ (s.subscribe reason answer).2 ≠ .panicked := by
  unfold AdsShared.subscribe
  split
  next handle _ =>
    have hinsert : (s.insertNotification handle reason).BulkInv :=
      h.keep rfl fun _ p' _ _ hp' _ => ⟨p', hp', rfl, rfl⟩
    exact ⟨hinsert.modifyParam reason (fun _ => rfl) (fun _ _ _ hfeed => by cases hfeed), nofun⟩
  · exact ⟨h, nofun⟩

theorem BulkInv.feedParam (h : s.BulkInv) (reason : Nat) (info : DrvInfo) (size : UInt32)
    (feed : Feed) (plc : PlcAnswers) : (s.feedParam reason info size feed plc).1.BulkInv ∧
      (s.feedParam reason info size feed plc).2 ≠ .panicked := by
  unfold AdsShared.feedParam
  split
  · exact h.addToBulk reason plc.tsHandles
  · split
    · exact (h.unsubscribe reason).subscribe reason plc.notification
    · exact h.subscribe reason plc.notification

theorem BulkInv.clearRefresh (h : s.BulkInv) (reason : Nat) : (s.clearRefresh reason).BulkInv :=
  h.modifyParam reason (fun _ => rfl) (fun _ _ _ _ => rfl)

theorem BulkInv.refreshParam (h : s.BulkInv) (reason : Nat) (plc : PlcAnswers) :
    (s.refreshParam reason plc).1.BulkInv ∧ (s.refreshParam reason plc).2 ≠ .panicked := by
  unfold AdsShared.refreshParam
  split
  next p _ _ =>
    have hresolve := h.resolve reason p plc
    split
    next s1 heq =>
      rw [heq] at hresolve
      exact ⟨hresolve, nofun⟩
    next s1 handle size heq =>
      rw [heq] at hresolve
      have hstore : (s1.storeResolved reason handle size).BulkInv :=
        hresolve.modifyParam reason (fun _ => rfl) (fun _ _ _ _ => rfl)
      dsimp only
      split
      · have hfeed := hstore.feedParam reason p.info size p.feed plc
        split
        next s2 heq2 =>
          rw [heq2] at hfeed
          split
          · exact ⟨hfeed.1.clearRefresh reason, nofun⟩
          · exact ⟨hfeed.1, nofun⟩
        next => exact hfeed
      · exact ⟨hstore.clearRefresh reason, nofun⟩
  · exact ⟨h, nofun⟩

/-- A disconnect with no bulk-fed parameter leaves nothing that names a slot. -/
theorem BulkInv.disconnect (h : s.BulkInv) (hunfed : s.client = none ∨
    ∀ reason p, s.param? reason = some p → ∀ group slot, p.feed ≠ .bulk group slot) :
    s.disconnect.BulkInv := by
  unfold AdsShared.disconnect
  split
  · exact h
  next hclient =>
    have hunfed := hunfed.resolve_left fun hnone => hclient (by rw [hnone]; rfl)
    have hclear : ({ s with client := none, notifications := [], bulk := [] } : AdsShared).BulkInv :=
      ⟨fun reason p group slot hp hfeed => absurd hfeed (hunfed reason p hp group slot),
        fun _ hg => nomatch hg⟩
    exact (hclear.dropAmsPorts _).keep rfl fun _ p' _ _ hp' _ => ⟨p', hp', rfl, rfl⟩

theorem dropAmsPorts_bulk (s : AdsShared) (amsPorts : List Nat) :
    (amsPorts.foldl AdsShared.dropAmsPort s).bulk = s.bulk := by
  induction amsPorts generalizing s with
  | nil => rfl
  | cons amsPort amsPorts ih => exact ih _

/-- Dropping a port leaves every feed. -/
theorem dropAmsPort_feed (s : AdsShared) (amsPort reason : Nat) :
    ((s.dropAmsPort amsPort).param? reason).map (·.feed) = (s.param? reason).map (·.feed) := by
  have hdrop : (s.dropAmsPort amsPort).param? reason =
      ((s.invalidateAmsPort amsPort).forgetHandles (s.invalidated amsPort)).param? reason := rfl
  rw [hdrop, param?_forgetHandles, param?_invalidateAmsPort]
  cases s.param? reason with
  | none => split <;> rfl
  | some p => split <;> (simp only [Option.map_some]; split <;> rfl)

theorem dropAmsPorts_feed (s : AdsShared) (amsPorts : List Nat) (reason : Nat) :
    ((amsPorts.foldl AdsShared.dropAmsPort s).param? reason).map (·.feed) =
      (s.param? reason).map (·.feed) := by
  induction amsPorts generalizing s with
  | nil => rfl
  | cons amsPort amsPorts ih => exact (ih _).trans (dropAmsPort_feed s amsPort reason)

/-- A dropped connection leaves no group, and a bulk-fed parameter its feed. -/
theorem disconnect_strands {reason group slot : Nat} {p : ParamState} (hclient : s.client ≠ none)
    (hp : s.param? reason = some p) (hfeed : p.feed = .bulk group slot) :
    ¬s.disconnect.BulkOk := by
  intro hok
  have hnone : ¬s.client.isNone = true := fun h => hclient (Option.isNone_iff_eq_none.1 h)
  have hbulk : s.disconnect.bulk = [] := by
    unfold AdsShared.disconnect
    rw [if_neg hnone]
    exact dropAmsPorts_bulk _ _
  have hkept : (s.disconnect.param? reason).map (·.feed) = some (.bulk group slot) := by
    unfold AdsShared.disconnect
    rw [if_neg hnone]
    refine (dropAmsPorts_feed _ _ reason).trans ?_
    rw [← hfeed]
    exact congrArg (Option.map (·.feed)) hp
  obtain ⟨p', hp', hfeed'⟩ := Option.map_eq_some_iff.1 hkept
  obtain ⟨g, hg, -⟩ := hok.slots reason p' group slot hp' hfeed'
  rw [hbulk] at hg
  cases hg

end AdsShared

/-! ## Runs -/

namespace BulkRun

/-- The invariant of a run. -/
def Inv (s : BulkRun) : Prop := s.shared.BulkInv ∧ s.panicked = false

theorem Inv.refresh {s : BulkRun} (h : s.Inv) (reason : Nat) (plc : PlcAnswers) :
    (s.refresh reason plc).Inv := by
  obtain ⟨hinv, hending⟩ := h.1.refreshParam reason plc
  exact ⟨hinv, by simp [BulkRun.refresh, h.2, hending]⟩

theorem step_inv {s s' : BulkRun} {a : BulkAct} (h : s.Inv) (hs : s.step a = some s')
    (hunfed : s.DropsUnfed a) : s'.Inv := by
  cases a with
  | bind info plcSize plc =>
    cases hs
    have hbound : ({ s with shared := s.shared.createParam info plcSize } : BulkRun).Inv :=
      ⟨h.1.createParam info plcSize, h.2⟩
    cases plc with
    | none => exact hbound
    | some plc => exact hbound.refresh _ plc
  | refresh reason plc => cases hs; exact h.refresh reason plc
  | dropAmsPort amsPort => cases hs; exact ⟨h.1.dropAmsPort amsPort, h.2⟩
  | symbolsChanged amsPort => cases hs; exact ⟨h.1.invalidateAmsPort amsPort, h.2⟩
  | disconnect => cases hs; exact ⟨h.1.disconnect hunfed, h.2⟩
  | connect connection =>
    obtain ⟨-, heq⟩ := Option.ite_none_right_eq_some.1 hs
    cases heq
    exact ⟨h.1.keep rfl fun _ p' _ _ hp' _ => ⟨p', hp', rfl, rfl⟩, h.2⟩
  | bulkCycle => cases hs; exact h

/-- A step that does not drop the connection under a bulk-fed parameter is the only
kind that keeps the tables together. -/
theorem step_ok_iff {s s' : BulkRun} {a : BulkAct} (h : s.Inv) (hs : s.step a = some s') :
    s'.Ok ↔ s.DropsUnfed a := by
  constructor
  · intro hok
    cases a with
    | disconnect =>
      cases hs
      by_contra hfed
      simp only [DropsUnfed, not_or, not_forall, not_not] at hfed
      obtain ⟨hclient, reason, p, hp, group, slot, hfeed⟩ := hfed
      exact AdsShared.disconnect_strands hclient hp hfeed hok.1
    | _ => trivial
  · intro hunfed
    have h' := step_inv h hs hunfed
    exact ⟨h'.1.ok, h'.2⟩

end BulkRun

/-- **Slots.**  In a run that drops no connection while a parameter is bulk-fed,
every bulk-fed parameter has its own slot in every state, no index is out of range,
and the poller publishes each variable for its own parameter; and a step keeps this
exactly when it does not drop the connection under a bulk-fed parameter. -/
theorem bulk_slots :
    ∀ s, (bulkSystem.restrict BulkRun.DropsUnfed).Reachable s →
      s.Ok ∧ ∀ a s', s.step a = some s' → (s'.Ok ↔ s.DropsUnfed a) := by
  intro s hs
  have hinv : s.Inv := by
    refine hs.invariant ?_ ?_
    · rintro s rfl
      exact ⟨AdsShared.new_bulkInv, rfl⟩
    · rintro s a t hs ⟨hstep, hunfed⟩
      exact BulkRun.step_inv hs hstep hunfed
  exact ⟨⟨hinv.1.ok, hinv.2⟩, fun a s' hstep => BulkRun.step_ok_iff hinv hstep⟩

/-- An input of the bulk read, at an absolute address. -/
def polledInput : DrvInfo where
  address := .absolute 0x4020 0
  hasInput := true
  amsPort := 851
  dataSource := .plc
  isBulkRead := true

def answers : PlcAnswers where
  symbolSize := none
  handle := none
  tsHandles := none
  notification := none
  sample := true

/-- Bound while connected, enrolled, and refreshed after its port was dropped. -/
theorem bulk_slots_portDropped :
    ∃ s : BulkRun, (s.shared.param? 1).map (·.feed) = some (.bulk 0 2) ∧ s.Ok := by
  let as : List BulkAct := [.connect 0, .bind polledInput 4 (some answers), .dropAmsPort 851,
    .refresh 1 answers]
  have hrun : (as.foldlM BulkRun.step .start).map (fun s => (s.shared.param? 1).map (·.feed)) =
      some (some (.bulk 0 2)) := by decide +kernel
  have hunfed : ∀ a ∈ as, ∀ s : BulkRun, s.DropsUnfed a := by simp [as, BulkRun.DropsUnfed]
  obtain ⟨s, hs, hfeed⟩ := Option.map_eq_some_iff.1 hrun
  have hstart : (bulkSystem.restrict BulkRun.DropsUnfed).Reachable .start :=
    System.Reachable.init rfl
  exact ⟨s, hfeed, (bulk_slots s (hstart.run ((System.run_ofFun hs).restrict hunfed))).1⟩

/-- The parameter is refreshed after a reconnect: its slot does not exist. -/
theorem disconnect_strands_slot :
    ∃ s, bulkSystem.Reachable s ∧ s.panicked = true := by
  have hrun : ([.connect 0, .bind polledInput 4 (some answers), .disconnect, .connect 1,
      .refresh 1 answers].foldlM BulkRun.step .start).map BulkRun.panicked = some true := by
    decide +kernel
  obtain ⟨s, hs, hpanicked⟩ := Option.map_eq_some_iff.1 hrun
  exact ⟨s, System.reachable_ofFun rfl hs, hpanicked⟩

end TwinCat
