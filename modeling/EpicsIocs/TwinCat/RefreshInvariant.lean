import EpicsIocs.TwinCat.Refresh

/-! # The invariant of the refreshes

The invariant has a part for each state of the link: with no client every
parameter has been wiped or the `disconnect` under way will wipe it; with a client
every handle is that connection's.  A refresh that holds a client works alone on a
parameter that waits for it, so that each of its sections changes nothing of the
others (`Driver.Frame`) and keeps the invariant (`Driver.Inv.advance`). -/

namespace TwinCat

namespace Driver

/-! ## Invariant -/

/-- Nothing of an old connection is left. -/
structure Clean (p : ParamState) : Prop where
  handle : p.handle = none
  notification : p.notification = none
  refreshNeeded : p.refreshNeeded = true

/-- The `disconnect` under way has still to wipe the parameter. -/
def Pending (s : Driver) (reason : Nat) (p : ParamState) : Prop :=
  match s.supervisor with
  | .clearNotifications | .clearBulk | .listPorts => True
  | .dropping amsPort stage (some rest) => p.info.amsPort ∈ rest ∨
      match stage with
      | .invalidate => p.info.amsPort = amsPort
      | .handles reasons => reason ∈ reasons
      | _ => False
  | _ => False

/-- A symbol has its handle. -/
def Resolved (p : ParamState) : Prop := p.symbolName.isSome → p.handle.isSome

/-- All that a parameter needs is there. -/
structure Ready (p : ParamState) : Prop where
  resolved : Resolved p
  fed : p.info.hasInput = true → p.feed ≠ .none
  notification : p.feed = .notification → p.notification.isSome

/-- What a parameter holds is of the current connection `c`. -/
structure Current (s : Driver) (c reason : Nat) (p : ParamState) : Prop where
  handle : p.handle.isSome → s.handleOn reason = c
  notification : ∀ h, p.notification = some h →
    s.shared.lookup h = some reason ∧ s.notificationOn reason = c
  ready : p.refreshNeeded = false → Ready p

/-- The supervisor is in a `disconnect`. -/
def Disconnecting : Supervisor → Prop
  | .clearNotifications | .clearBulk | .listPorts | .resetPorts => True
  | .dropping _ _ rest => rest.isSome
  | .idle => False

/-- What holds of its parameter where a refresh is. -/
def PcOk (s : Driver) (reason : Nat) (p : ParamState) : RefreshPc → Prop
  | .store _ handle _ => p.symbolName.isSome → handle.isSome
  | .bulkEntry _ | .removeTake _ | .addClient _ => Resolved p ∧ p.info.hasInput = true
  | .bulkPlace _ _ _ existing => (Resolved p ∧ p.info.hasInput = true) ∧
      (existing.isSome → p.feed ≠ .none ∧ p.feed ≠ .notification)
  | .bulkStore _ slot => (Resolved p ∧ p.info.hasInput = true) ∧
      (slot = none → p.feed ≠ .none ∧ p.feed ≠ .notification)
  | .removeMap _ h => (Resolved p ∧ p.info.hasInput = true) ∧ p.notification = none ∧
      s.shared.lookup h = some reason
  | .addFields c c' | .addRequest c c' => (Resolved p ∧ p.info.hasInput = true) ∧ c' = c
  | .addMap c c' h => ((Resolved p ∧ p.info.hasInput = true) ∧ c' = c) ∧ s.shared.lookup h = none
  | .addStore c c' h =>
    ((Resolved p ∧ p.info.hasInput = true) ∧ c' = c) ∧ s.shared.lookup h = some reason
  | .sample _ | .sampleRead _ | .clear _ => Ready p
  | _ => True

/-- A refresh that holds a client works on a parameter that waits for it, on the
current connection, and not on a port that is being dropped. -/
structure Working (s : Driver) (reason : Nat) (p : ParamState) (pc : RefreshPc) (c : Nat) :
    Prop where
  connected : s.shared.client = some c
  refreshNeeded : p.refreshNeeded = true
  port : ¬s.DropsPort p.info.amsPort
  pcOk : s.PcOk reason p pc

/-- The parameter of a refresh exists; one that holds a client works on it. -/
def ThreadOk (s : Driver) (t : RefreshThread) : Prop :=
  ∃ p, s.shared.param? t.reason = some p ∧ p.info.dataSource = .plc ∧
    ∀ c, t.pc.client = some c → s.Working t.reason p t.pc c

/-- What the sections of `drop_ams_port` have done to the parameters they hit. -/
def Dropped (s : Driver) : Prop :=
  match s.supervisor with
  | .dropping amsPort (.handles reasons) _ => ∀ reason ∈ reasons, ∃ p,
      s.shared.param? reason = some p ∧ AdsShared.invalidates amsPort p = true ∧
        p.refreshNeeded = true
  | .dropping amsPort (.notifications reasons) _ => ∀ reason ∈ reasons, ∃ p,
      s.shared.param? reason = some p ∧ AdsShared.invalidates amsPort p = true ∧ Clean p
  | _ => True

structure Inv (s : Driver) : Prop where
  ports : ∀ reason p, s.shared.param? reason = some p →
    p.info.amsPort ∈ s.shared.ports.map (·.amsPort)
  input : ∀ reason p, s.shared.param? reason = some p → p.feed ≠ .none → p.info.hasInput = true
  down : s.shared.client = none → ∀ reason p, s.shared.param? reason = some p →
    p.info.dataSource = .plc → Clean p ∨ s.Pending reason p
  up : ∀ c, s.shared.client = some c → ∀ reason p, s.shared.param? reason = some p →
    p.info.dataSource = .plc → s.Current c reason p
  disconnecting : Disconnecting s.supervisor → s.shared.client = none
  dropped : s.Dropped
  threads : ∀ t ∈ s.threads, s.ThreadOk t
  alone : ∀ (i j : Nat) t t', s.threads[i]? = some t → s.threads[j]? = some t' →
    t.pc.client.isSome → t'.pc.client.isSome → t.reason = t'.reason → i = j
  issued : ∀ (i j : Nat) t t' c c' d d' h, s.threads[i]? = some t → s.threads[j]? = some t' →
    t.pc = .addMap c c' h → t'.pc = .addMap d d' h → i = j
  writers : ∀ w ∈ s.writers, ∀ c, w.issuedOn = some c →
    s.shared.client = some c ∨ s.shared.client = none
  writes : ∀ w ∈ s.writes, ∀ c, w.issuedOn = some c → c = w.sentOn

/-! ## Frames -/

/-- What a section of a refresh of `reason` leaves of all the others. -/
structure Frame (s s' : Driver) (reason : Nat) (pc : RefreshPc) : Prop where
  client : s'.shared.client = s.shared.client
  ports : s'.shared.ports.map (·.amsPort) = s.shared.ports.map (·.amsPort)
  params : ∀ k, k ≠ reason → s'.shared.param? k = s.shared.param? k
  lookup : ∀ h k, k ≠ reason → s.shared.lookup h = some k → s'.shared.lookup h = some k
  unused : ∀ h, (∀ c c', pc ≠ .addMap c c' h) → s.shared.lookup h = none →
    s'.shared.lookup h = none
  handleOn : ∀ k, k ≠ reason → s'.handleOn k = s.handleOn k
  notificationOn : ∀ k, k ≠ reason → s'.notificationOn k = s.notificationOn k
  supervisor : s'.supervisor = s.supervisor
  threads : s'.threads = s.threads
  writers : s'.writers = s.writers
  writes : s'.writes = s.writes

theorem Frame.refl (s : Driver) (reason : Nat) (pc : RefreshPc) : Frame s s reason pc :=
  ⟨rfl, rfl, fun _ _ => rfl, fun _ _ _ h => h, fun _ _ h => h, fun _ _ => rfl, fun _ _ => rfl, rfl,
    rfl, rfl, rfl⟩

variable {s s' : Driver}

/-- Sections that change one parameter's fields. -/
theorem Frame.modifyParam (s : Driver) (reason : Nat) (f : ParamState → ParamState)
    (pc : RefreshPc) : Frame s (s.setShared (s.shared.modifyParam reason f)) reason pc where
  client := rfl
  ports := rfl
  params := fun k hk => by
    rw [setShared, AdsShared.param?_modifyParam, if_neg hk]
  lookup := fun _ _ _ h => h
  unused := fun _ _ h => h
  handleOn := fun _ _ => rfl
  notificationOn := fun _ _ => rfl
  supervisor := rfl
  threads := rfl
  writers := rfl
  writes := rfl

/-- Another refresh that holds a client has another parameter, and keeps what holds
of it. -/
theorem Frame.pcOk {reason k : Nat} {pc pc' : RefreshPc} {p : ParamState}
    (hf : Frame s s' reason pc) (hk : k ≠ reason)
    (hissued : ∀ c c' h, pc' = .addMap c c' h → ∀ d d', pc ≠ .addMap d d' h)
    (h : s.PcOk k p pc') : s'.PcOk k p pc' := by
  cases pc' with
  | removeMap c handle => exact ⟨h.1, h.2.1, hf.lookup handle k hk h.2.2⟩
  | addStore c c' handle => exact ⟨h.1, hf.lookup handle k hk h.2⟩
  | addMap c c' handle =>
    exact ⟨h.1, hf.unused handle (hissued c c' handle rfl) h.2⟩
  | _ => exact h

theorem Frame.current {reason k c : Nat} {pc : RefreshPc} {p : ParamState}
    (hf : Frame s s' reason pc) (hk : k ≠ reason) (h : s.Current c k p) : s'.Current c k p where
  handle := fun hh => (hf.handleOn k hk).trans (h.handle hh)
  notification := fun n hn =>
    ⟨hf.lookup n k hk (h.notification n hn).1,
      (hf.notificationOn k hk).trans (h.notification n hn).2⟩
  ready := h.ready

/-! ## What a step leaves -/

theorem Current.congr {c reason : Nat} {p : ParamState} (h : s.Current c reason p)
    (hhandleOn : s'.handleOn = s.handleOn) (hnotificationOn : s'.notificationOn = s.notificationOn)
    (hlookup : ∀ n, p.notification = some n → s.shared.lookup n = some reason →
      s'.shared.lookup n = some reason) : s'.Current c reason p where
  handle := fun hh => by
    rw [hhandleOn]
    exact h.handle hh
  notification := fun n hn => by
    rw [hnotificationOn]
    exact ⟨hlookup n hn (h.notification n hn).1, (h.notification n hn).2⟩
  ready := h.ready

theorem pcOk_congr {reason : Nat} {p : ParamState} {pc : RefreshPc} (h : s.PcOk reason p pc)
    (hsome : ∀ n, s.shared.lookup n = some reason → s'.shared.lookup n = some reason)
    (hnone : ∀ n, s.shared.lookup n = none → s'.shared.lookup n = none) : s'.PcOk reason p pc := by
  cases pc with
  | removeMap c handle => exact ⟨h.1, h.2.1, hsome handle h.2.2⟩
  | addStore c c' handle => exact ⟨h.1, hsome handle h.2⟩
  | addMap c c' handle => exact ⟨h.1, hnone handle h.2⟩
  | _ => exact h

theorem Working.congr {c reason : Nat} {p : ParamState} {pc : RefreshPc}
    (h : s.Working reason p pc c) (hclient : s'.shared.client = s.shared.client)
    (hport : s'.DropsPort p.info.amsPort → s.DropsPort p.info.amsPort)
    (hsome : ∀ n, s.shared.lookup n = some reason → s'.shared.lookup n = some reason)
    (hnone : ∀ n, s.shared.lookup n = none → s'.shared.lookup n = none) :
    s'.Working reason p pc c :=
  ⟨hclient.trans h.connected, h.refreshNeeded, fun hdrops => h.port (hport hdrops),
    pcOk_congr h.pcOk hsome hnone⟩

/-- The parameter stays, and where it is worked on it stays as it must be. -/
theorem ThreadOk.congr {t : RefreshThread} (h : s.ThreadOk t)
    (hparam : ∀ p, s.shared.param? t.reason = some p → p.info.dataSource = .plc → ∃ p',
      s'.shared.param? t.reason = some p' ∧ p'.info = p.info ∧
        ∀ c, t.pc.client = some c → s.Working t.reason p t.pc c → s'.Working t.reason p' t.pc c) :
    s'.ThreadOk t := by
  obtain ⟨p, hp, hplc, hworking⟩ := h
  obtain ⟨p', hp', hinfo, hkept⟩ := hparam p hp hplc
  exact ⟨p', hp', by rw [hinfo]; exact hplc, fun c hc => hkept c hc (hworking c hc)⟩

/-- A step that leaves the shared state and the supervisor leaves the refreshes. -/
theorem ThreadOk.same {t : RefreshThread} (h : s.ThreadOk t) (hshared : s'.shared = s.shared)
    (hsupervisor : s'.supervisor = s.supervisor) : s'.ThreadOk t := by
  refine h.congr fun p hp _ => ⟨p, by rw [hshared]; exact hp, rfl, fun c _ hw => hw.congr ?_ ?_ ?_ ?_⟩
  · rw [hshared]
  · rintro ⟨stage, rest, hsup⟩
    exact ⟨stage, rest, hsupervisor.symm.trans hsup⟩
  · rw [hshared]
    exact fun _ hn => hn
  · rw [hshared]
    exact fun _ hn => hn

/-- With no client no parameter is worked on. -/
theorem ThreadOk.whileDown {t : RefreshThread} (h : s.ThreadOk t) (hclient : s.shared.client = none)
    (hparam : s'.shared.param? t.reason = s.shared.param? t.reason) : s'.ThreadOk t :=
  h.congr fun p hp _ => ⟨p, hparam.trans hp, rfl, fun c _ hw => by
    have hconnected := hw.connected
    rw [hclient] at hconnected
    cases hconnected⟩

/-! ## One thread moves -/

theorem getElem?_set_cases {α : Type} {l : List α} {i j : Nat} {a b : α}
    (h : (l.set i a)[j]? = some b) : j = i ∧ b = a ∨ j ≠ i ∧ l[j]? = some b := by
  rw [List.getElem?_set] at h
  split at h
  next hij =>
    split at h
    · exact .inl ⟨hij.symm, (Option.some.inj h).symm⟩
    · cases h
  next hij => exact .inr ⟨Ne.symm hij, h⟩

/-- Only the parameters of a port that is being dropped matter to `Dropped`. -/
theorem Dropped.frame (h : s.Dropped) (hsupervisor : s'.supervisor = s.supervisor)
    (hparams : ∀ k p, s.shared.param? k = some p → s.DropsPort p.info.amsPort →
      s'.shared.param? k = some p) : s'.Dropped := by
  have hport : ∀ {amsPort : Nat} {stage : DropStage} {rest : Option (List Nat)} {p : ParamState},
      s.supervisor = .dropping amsPort stage rest → AdsShared.invalidates amsPort p = true →
        s.DropsPort p.info.amsPort := by
    intro amsPort stage rest p hsup hi
    exact ⟨stage, rest, by rw [hsup, AdsShared.invalidates_port hi]⟩
  unfold Dropped at h ⊢
  rw [hsupervisor]
  split
  next amsPort reasons rest hsup =>
    rw [hsup] at h
    intro reason hreason
    obtain ⟨p, hp, hi, hn⟩ := h reason hreason
    exact ⟨p, hparams reason p hp (hport hsup hi), hi, hn⟩
  next amsPort reasons rest hsup =>
    rw [hsup] at h
    intro reason hreason
    obtain ⟨p, hp, hi, hn⟩ := h reason hreason
    exact ⟨p, hparams reason p hp (hport hsup hi), hi, hn⟩
  next => trivial

/-- A refresh that holds a client takes its next section. -/
theorem Inv.move {r : Driver} (h : s.Inv) {i c : Nat} {t : RefreshThread} {p q : ParamState}
    {pc' : RefreshPc} (ht : s.threads[i]? = some t) (hp : s.shared.param? t.reason = some p)
    (hc : t.pc.client = some c) (hf : Frame s r t.reason t.pc)
    (hq : r.shared.param? t.reason = some q) (hinfo : q.info = p.info)
    (hinput : q.feed ≠ .none → q.info.hasInput = true) (hcurrent : r.Current c t.reason q)
    (hpc : pc'.client = none ∨
      pc'.client = some c ∧ q.refreshNeeded = true ∧ r.PcOk t.reason q pc')
    (hissued : ∀ d d' n, pc' = .addMap d d' n → ∀ t' ∈ s.threads, ∀ e e', t'.pc ≠ .addMap e e' n) :
    ({ r with threads := r.threads.set i { t with pc := pc' } } : Driver).Inv := by
  obtain ⟨p0, hp0, hplc, hworking⟩ := h.threads t (List.mem_of_getElem? ht)
  obtain rfl : p0 = p := Option.some.inj (hp0.symm.trans hp)
  have hwork := hworking c hc
  have hclient : r.shared.client = some c := hf.client.trans hwork.connected
  have hparam : ∀ k q', r.shared.param? k = some q' → k = t.reason ∧ q' = q ∨
      k ≠ t.reason ∧ s.shared.param? k = some q' := by
    intro k q' hq'
    by_cases hk : k = t.reason
    · subst hk
      exact .inl ⟨rfl, Option.some.inj (hq'.symm.trans hq)⟩
    · exact .inr ⟨hk, (hf.params k hk).symm.trans hq'⟩
  have hthread : ∀ (j : Nat) t', (r.threads.set i { t with pc := pc' })[j]? = some t' →
      j = i ∧ t' = { t with pc := pc' } ∨ j ≠ i ∧ s.threads[j]? = some t' := by
    intro j t' hj
    rw [hf.threads] at hj
    exact getElem?_set_cases hj
  have hheld : pc'.client.isSome → t.pc.client.isSome := fun _ => by rw [hc]; rfl
  refine ⟨?_, ?_, ?_, ?_, ?_, ?_, ?_, ?_, ?_, ?_, ?_⟩
  · intro k q' hq'
    dsimp only
    rw [hf.ports]
    obtain ⟨rfl, rfl⟩ | ⟨-, hold⟩ := hparam k q' hq'
    · rw [hinfo]
      exact h.ports _ _ hp
    · exact h.ports k q' hold
  · intro k q' hq'
    obtain ⟨rfl, rfl⟩ | ⟨-, hold⟩ := hparam k q' hq'
    · exact hinput
    · exact h.input k q' hold
  · intro hnone
    rw [hclient] at hnone
    cases hnone
  · intro c' hc' k q' hq' hsource
    obtain rfl : c = c' := Option.some.inj (hclient.symm.trans hc')
    obtain ⟨rfl, rfl⟩ | ⟨hk, hold⟩ := hparam k q' hq'
    · exact hcurrent.congr rfl rfl fun _ _ hn => hn
    · exact (hf.current hk (h.up c hwork.connected k q' hold hsource)).congr rfl rfl
        fun _ _ hn => hn
  · intro hdisc
    dsimp only at hdisc ⊢
    rw [hf.supervisor] at hdisc
    exact hf.client.trans (h.disconnecting hdisc)
  · refine h.dropped.frame hf.supervisor fun k q' hq' hdrops => ?_
    have hk : k ≠ t.reason := by
      rintro rfl
      obtain rfl : q' = p0 := Option.some.inj (hq'.symm.trans hp)
      exact hwork.port hdrops
    exact (hf.params k hk).trans hq'
  · intro t' ht'
    obtain ⟨j, hj⟩ := List.mem_iff_getElem?.1 ht'
    obtain ⟨rfl, rfl⟩ | ⟨hji, hold⟩ := hthread j t' hj
    · refine ⟨q, hq, by rw [hinfo]; exact hplc, fun c' hc' => ?_⟩
      obtain hended | ⟨hsome, hneeded, hok⟩ := hpc
      · rw [hended] at hc'
        cases hc'
      · obtain rfl : c = c' := Option.some.inj (hsome.symm.trans hc')
        refine ⟨hclient, hneeded, ?_, pcOk_congr hok (fun _ hn => hn) fun _ hn => hn⟩
        rintro ⟨stage, rest, hsup⟩
        rw [hinfo] at hsup
        exact hwork.port ⟨stage, rest, hf.supervisor.symm.trans hsup⟩
    · obtain ⟨q', hq', hplc', hworking'⟩ := h.threads t' (List.mem_of_getElem? hold)
      by_cases hr : t'.reason = t.reason
      · refine ⟨q, by rw [hr]; exact hq, by rw [hinfo]; exact hplc, fun c' hc' => ?_⟩
        exact absurd (h.alone j i t' t hold ht (by rw [hc']; rfl) (by rw [hc]; rfl) hr) hji
      · refine ⟨q', (hf.params _ hr).trans hq', hplc', fun c' hc' => ?_⟩
        have hw := hworking' c' hc'
        refine ⟨hf.client.trans hw.connected, hw.refreshNeeded, ?_,
          pcOk_congr (hf.pcOk hr (fun d d' n hd e e' he => ?_) hw.pcOk) (fun _ hn => hn)
            fun _ hn => hn⟩
        · rintro ⟨stage, rest, hsup⟩
          exact hw.port ⟨stage, rest, hf.supervisor.symm.trans hsup⟩
        · exact hji (h.issued j i t' t d d' e e' n hold ht hd he)
  · intro j k t1 t2 h1 h2 hc1 hc2 hr
    obtain ⟨hj, rfl⟩ | ⟨-, h1'⟩ := hthread j t1 h1 <;>
      obtain ⟨hk, rfl⟩ | ⟨-, h2'⟩ := hthread k t2 h2
    · exact hj.trans hk.symm
    · exact hj.trans (h.alone i k t t2 ht h2' (hheld hc1) hc2 hr)
    · exact (h.alone j i t1 t h1' ht hc1 (hheld hc2) hr).trans hk.symm
    · exact h.alone j k t1 t2 h1' h2' hc1 hc2 hr
  · intro j k t1 t2 d d' e e' n h1 h2 hd he
    obtain ⟨hj, rfl⟩ | ⟨-, h1'⟩ := hthread j t1 h1 <;>
      obtain ⟨hk, rfl⟩ | ⟨-, h2'⟩ := hthread k t2 h2
    · exact hj.trans hk.symm
    · exact absurd he (hissued d d' n hd t2 (List.mem_of_getElem? h2') e e')
    · exact absurd hd (hissued e e' n he t1 (List.mem_of_getElem? h1') d d')
    · exact h.issued j k t1 t2 d d' e e' n h1' h2' hd he
  · intro w hw c' hc'
    dsimp only at hw ⊢
    rw [hf.writers] at hw
    rw [hf.client]
    exact h.writers w hw c' hc'
  · intro w hw
    dsimp only at hw
    rw [hf.writes] at hw
    exact h.writes w hw

/-- What holds of the parameter of a refresh that is at `pc` and holds a client. -/
theorem Inv.working (h : s.Inv) {i c : Nat} {t : RefreshThread} {pc : RefreshPc}
    (ht : s.threads[i]? = some t) (hpc : t.pc = pc) (hclient : pc.client = some c) :
    t.pc.client = some c ∧ ∃ p, s.shared.param? t.reason = some p ∧
      s.Working t.reason p pc c ∧ s.Current c t.reason p := by
  subst hpc
  obtain ⟨p, hp, hplc, hworking⟩ := h.threads t (List.mem_of_getElem? ht)
  have hwork := hworking c hclient
  exact ⟨hclient, p, hp, hwork, h.up c hwork.connected t.reason p hp hplc⟩

/-- A section that changes nothing. -/
theorem Inv.moveOnly (h : s.Inv) {i c : Nat} {t : RefreshThread} {p : ParamState}
    {pc' : RefreshPc} (ht : s.threads[i]? = some t) (hp : s.shared.param? t.reason = some p)
    (hc : t.pc.client = some c) (hpc : pc'.client = none ∨ pc'.client = some c ∧ s.PcOk t.reason p pc')
    (hissued : ∀ d d' n, pc' = .addMap d d' n → ∀ t' ∈ s.threads, ∀ e e', t'.pc ≠ .addMap e e' n) :
    ({ s with threads := s.threads.set i { t with pc := pc' } } : Driver).Inv := by
  obtain ⟨-, q, hq, hwork, hcurrent⟩ := h.working ht rfl hc
  obtain rfl : q = p := Option.some.inj (hq.symm.trans hp)
  exact h.move ht hp hc (.refl s _ _) hp rfl (h.input _ _ hp) hcurrent
    (hpc.imp_right fun hok => ⟨hok.1, hwork.refreshNeeded, hok.2⟩) hissued

/-- A section that changes fields of the parameter, and neither its description nor
that it waits for the refresh. -/
theorem Inv.moveParam (h : s.Inv) {i c : Nat} {t : RefreshThread} {p : ParamState}
    {pc' : RefreshPc} {f : ParamState → ParamState} (ht : s.threads[i]? = some t)
    (hp : s.shared.param? t.reason = some p) (hc : t.pc.client = some c)
    (hinfo : (f p).info = p.info) (hinput : (f p).feed ≠ .none → p.info.hasInput = true)
    (hcurrent : s.Current c t.reason (f p))
    (hpc : pc'.client = none ∨ pc'.client = some c ∧ (f p).refreshNeeded = true ∧
      (s.setShared (s.shared.modifyParam t.reason f)).PcOk t.reason (f p) pc')
    (hissued : ∀ d d' n, pc' ≠ .addMap d d' n) :
    ({ s.setShared (s.shared.modifyParam t.reason f) with
        threads := s.threads.set i { t with pc := pc' } } : Driver).Inv := by
  refine h.move (r := s.setShared (s.shared.modifyParam t.reason f)) (q := f p) ht hp hc
    (.modifyParam s _ f _) ?_ hinfo ?_ ?_ hpc fun d d' n heq => absurd heq (hissued d d' n)
  · rw [setShared, AdsShared.param?_modifyParam, if_pos rfl, hp]
    rfl
  · rw [hinfo]
    exact hinput
  · exact ⟨hcurrent.handle, hcurrent.notification, hcurrent.ready⟩

/-! ## The sections of a refresh -/

/-- A parameter that waits for its refresh need not be ready. -/
theorem Current.waiting {c reason : Nat} {p : ParamState} (hneeded : p.refreshNeeded = true)
    (hhandle : p.handle.isSome → s.handleOn reason = c)
    (hnotification : ∀ h, p.notification = some h →
      s.shared.lookup h = some reason ∧ s.notificationOn reason = c) : s.Current c reason p :=
  ⟨hhandle, hnotification, fun hready => by rw [hneeded] at hready; cases hready⟩

theorem Clean.current {c reason : Nat} {p : ParamState} (h : Clean p) : s.Current c reason p := by
  refine .waiting h.refreshNeeded (fun hsome => ?_) fun n hn => ?_
  · rw [h.handle] at hsome
    cases hsome
  · rw [h.notification] at hn
    cases hn

section Sections

variable {i c : Nat} {t : RefreshThread}

theorem Inv.takeHandle (h : s.Inv) {size : UInt32} (ht : s.threads[i]? = some t)
    (hpc : t.pc = .takeHandle c size) :
    ({ s.setShared (s.shared.takeHandle t.reason) with
        threads := s.threads.set i { t with pc := .getHandle c size } } : Driver).Inv := by
  obtain ⟨hc, p, hp, hwork, hcurrent⟩ := h.working ht hpc rfl
  have hneeded := hwork.refreshNeeded
  exact h.moveParam ht hp hc rfl (h.input _ p hp) (.waiting hneeded nofun hcurrent.notification)
    (.inr ⟨rfl, hneeded, trivial⟩) nofun

/-- Where a refresh goes once the handle is stored. -/
theorem pcOk_feedPc {reason : Nat} {p : ParamState} {size : UInt32} (hresolved : Resolved p)
    (hinput : p.feed ≠ .none → p.info.hasInput = true) : s.PcOk reason p (feedPc p c size) := by
  unfold feedPc
  split
  next hno =>
    have hfeed : p.feed = .none := by
      by_contra hne
      rw [hinput hne] at hno
      cases hno
    refine ⟨hresolved, ?_, ?_⟩
    · intro hyes
      rw [hyes] at hno
      cases hno
    · intro hn
      rw [hfeed] at hn
      cases hn
  next hno =>
    have hyes : p.info.hasInput = true := by simpa using hno
    split
    · exact ⟨hresolved, hyes⟩
    · split <;> exact ⟨hresolved, hyes⟩

theorem feedPc_client (p : ParamState) (c : Nat) (size : UInt32) :
    (feedPc p c size).client = some c := by
  unfold feedPc
  split
  · rfl
  · split
    · rfl
    · split <;> rfl

theorem Inv.store (h : s.Inv) {handle : Option UInt32} {size : UInt32} {p : ParamState}
    (ht : s.threads[i]? = some t) (hpc : t.pc = .store c handle size)
    (hp : s.shared.param? t.reason = some p) :
    ({ s with
        shared := s.shared.storeResolved t.reason handle size
        handleOn := Function.update s.handleOn t.reason c
        threads := s.threads.set i { t with pc := feedPc p c size } } : Driver).Inv := by
  obtain ⟨hc, q, hq, hwork, hcurrent⟩ := h.working ht hpc rfl
  obtain rfl : q = p := Option.some.inj (hq.symm.trans hp)
  have hok := hwork.pcOk
  let p' : ParamState := { q with handle, plcSize := size }
  let s' : Driver := { s with
    shared := s.shared.storeResolved t.reason handle size
    handleOn := Function.update s.handleOn t.reason c }
  have hf : Frame s s' t.reason t.pc := {
    Frame.modifyParam s t.reason (fun p => { p with handle, plcSize := size }) t.pc with
    handleOn := fun k hk => Function.update_of_ne hk _ _ }
  refine h.move (r := s') (q := p') ht hp hc hf ?_ rfl (h.input _ q hp) ?_ (.inr ⟨?_, ?_, ?_⟩) ?_
  · change (s.shared.modifyParam t.reason _).param? t.reason = _
    rw [AdsShared.param?_modifyParam, if_pos rfl, hp]
    rfl
  · exact .waiting hwork.refreshNeeded (fun _ => Function.update_self t.reason c s.handleOn)
      hcurrent.notification
  · exact feedPc_client q c size
  · exact hwork.refreshNeeded
  · exact pcOk_feedPc (p := p') hok (h.input _ q hp)
  · intro d d' n heq
    unfold feedPc at heq
    split at heq
    · cases heq
    · split at heq
      · cases heq
      · split at heq <;> cases heq

theorem Inv.bulkPlace (h : s.Inv) {amsPort : Nat} {entry : SumEntry}
    {existing slot : Option (Nat × Nat)} {tsHandles : Option (UInt32 × UInt32)} {shared : AdsShared}
    (ht : s.threads[i]? = some t) (hpc : t.pc = .bulkPlace c amsPort entry existing)
    (hplace : s.shared.placeInBulk t.reason amsPort entry existing tsHandles =
      some (slot, shared)) :
    ({ s.setShared shared with
        threads := s.threads.set i { t with pc := .bulkStore c slot } } : Driver).Inv := by
  obtain ⟨hc, p, hp, hwork, hcurrent⟩ := h.working ht hpc rfl
  obtain ⟨hparams, hnotifications, hclient, hports, hnone⟩ := AdsShared.placeInBulk_frame hplace
  have hparam : ∀ k, shared.param? k = s.shared.param? k := fun k => by
    unfold AdsShared.param?
    rw [hparams]
  have hlookup : ∀ n, shared.lookup n = s.shared.lookup n := fun n => by
    unfold AdsShared.lookup
    rw [hnotifications]
  have hf : Frame s (s.setShared shared) t.reason t.pc := {
    Frame.refl s t.reason t.pc with
    client := hclient
    ports := hports
    params := fun k _ => hparam k
    lookup := fun n _ _ hn => (hlookup n).trans hn
    unused := fun n _ hn => (hlookup n).trans hn }
  have hok := hwork.pcOk
  refine h.move (r := s.setShared shared) ht hp hc hf ((hparam _).trans hp) rfl (h.input _ p hp)
    (.waiting hwork.refreshNeeded hcurrent.handle fun n hn => ?_)
    (.inr ⟨rfl, hwork.refreshNeeded, hok.1, fun hslot => hok.2 (hnone hslot)⟩) nofun
  exact ⟨(hlookup n).trans (hcurrent.notification n hn).1, (hcurrent.notification n hn).2⟩

theorem Inv.bulkStore (h : s.Inv) {slot : Option (Nat × Nat)} (ht : s.threads[i]? = some t)
    (hpc : t.pc = .bulkStore c slot) :
    ({ s.setShared (s.shared.storeSlot t.reason slot) with
        threads := s.threads.set i { t with pc := .sample c } } : Driver).Inv := by
  obtain ⟨hc, p, hp, hwork, hcurrent⟩ := h.working ht hpc rfl
  have hok := hwork.pcOk
  cases slot with
  | none =>
    obtain ⟨hfed, hnotified⟩ := hok.2 rfl
    exact h.moveOnly ht hp hc
      (.inr ⟨rfl, hok.1.1, fun _ => hfed, fun hfeed => absurd hfeed hnotified⟩) nofun
  | some place =>
    exact h.moveParam ht hp hc rfl (fun _ => hok.1.2)
      (.waiting hwork.refreshNeeded hcurrent.handle hcurrent.notification)
      (.inr ⟨rfl, hwork.refreshNeeded, hok.1.1, nofun, nofun⟩) nofun

theorem Inv.removeTake (h : s.Inv) {handle : UInt32} {shared : AdsShared}
    (ht : s.threads[i]? = some t) (hpc : t.pc = .removeTake c)
    (htake : s.shared.takeNotification t.reason = some (handle, shared)) :
    ({ s.setShared shared with
        threads := s.threads.set i { t with pc := .removeMap c handle } } : Driver).Inv := by
  obtain ⟨hc, p, hp, hwork, hcurrent⟩ := h.working ht hpc rfl
  have hok := hwork.pcOk
  obtain ⟨q, hq, htake⟩ := Option.bind_eq_some_iff.1 htake
  obtain rfl : q = p := Option.some.inj (hq.symm.trans hp)
  obtain ⟨n, hn, htake⟩ := Option.bind_eq_some_iff.1 htake
  cases htake
  exact h.moveParam ht hp hc rfl (fun hne => absurd rfl hne)
    (.waiting hwork.refreshNeeded hcurrent.handle nofun)
    (.inr ⟨rfl, hwork.refreshNeeded, hok, rfl, (hcurrent.notification handle hn).1⟩) nofun

theorem Inv.removeMap (h : s.Inv) {handle : UInt32} (ht : s.threads[i]? = some t)
    (hpc : t.pc = .removeMap c handle) :
    ({ s.setShared (s.shared.removeNotification handle) with
        threads := s.threads.set i { t with pc := .addClient c } } : Driver).Inv := by
  obtain ⟨hc, p, hp, hwork, hcurrent⟩ := h.working ht hpc rfl
  have hok := hwork.pcOk
  obtain ⟨hok, hgone, hlookup⟩ := hok
  have hf : Frame s (s.setShared (s.shared.removeNotification handle)) t.reason t.pc := {
    Frame.refl s t.reason t.pc with
    lookup := fun n k hk hn => by
      refine (s.shared.lookup_removeNotification fun hne => ?_).trans hn
      subst hne
      exact hk (Option.some.inj (hn.symm.trans hlookup))
    unused := fun _ _ hn => AdsShared.lookup_filter_none _ hn }
  refine h.move (q := p) ht hp hc hf hp rfl (h.input _ p hp)
    (.waiting hwork.refreshNeeded hcurrent.handle fun n hn => ?_)
    (.inr ⟨rfl, hwork.refreshNeeded, hok⟩) nofun
  rw [hgone] at hn
  cases hn

theorem Inv.addMap (h : s.Inv) {c' : Nat} {handle : UInt32} (ht : s.threads[i]? = some t)
    (hpc : t.pc = .addMap c c' handle) :
    ({ s.setShared (s.shared.insertNotification handle t.reason) with
        threads := s.threads.set i { t with pc := .addStore c c' handle } } : Driver).Inv := by
  obtain ⟨hc, p, hp, hwork, hcurrent⟩ := h.working ht hpc rfl
  have hok := hwork.pcOk
  have hother : ∀ n, n ≠ handle →
      (s.shared.insertNotification handle t.reason).lookup n = s.shared.lookup n := fun n hn =>
    (s.shared.lookup_insertNotification handle n t.reason).trans (if_neg hn)
  -- The handle is new, so what is registered stays so.
  have hkept : ∀ n k, s.shared.lookup n = some k →
      (s.shared.insertNotification handle t.reason).lookup n = some k := by
    intro n k hn
    refine (hother n fun hne => ?_).trans hn
    subst hne
    rw [hok.2] at hn
    cases hn
  have hf : Frame s (s.setShared (s.shared.insertNotification handle t.reason)) t.reason t.pc := {
    Frame.refl s t.reason t.pc with
    lookup := fun n k _ hn => hkept n k hn
    unused := fun n hne hn =>
      (hother n fun heq => hne c c' (by rw [hpc, heq])).trans hn }
  refine h.move (q := p) ht hp hc hf hp rfl (h.input _ p hp)
    (.waiting hwork.refreshNeeded hcurrent.handle fun n hn => ?_)
    (.inr ⟨rfl, hwork.refreshNeeded, hok.1, ?_⟩) nofun
  · exact ⟨hkept n _ (hcurrent.notification n hn).1, (hcurrent.notification n hn).2⟩
  · exact (s.shared.lookup_insertNotification handle handle t.reason).trans (if_pos rfl)

theorem Inv.addStore (h : s.Inv) {c' : Nat} {handle : UInt32} (ht : s.threads[i]? = some t)
    (hpc : t.pc = .addStore c c' handle) :
    ({ s with
        shared := s.shared.storeNotification t.reason handle
        notificationOn := Function.update s.notificationOn t.reason c'
        threads := s.threads.set i { t with pc := .sample c } } : Driver).Inv := by
  obtain ⟨hc, p, hp, hwork, hcurrent⟩ := h.working ht hpc rfl
  have hok := hwork.pcOk
  obtain ⟨⟨⟨hresolved, hyes⟩, rfl⟩, hlookup⟩ := hok
  let p' : ParamState := { p with notification := some handle, feed := .notification }
  let s' : Driver := { s with
    shared := s.shared.storeNotification t.reason handle
    notificationOn := Function.update s.notificationOn t.reason c' }
  have hf : Frame s s' t.reason t.pc := {
    Frame.modifyParam s t.reason
      (fun p => { p with notification := some handle, feed := .notification }) t.pc with
    notificationOn := fun k hk => Function.update_of_ne hk _ _ }
  refine h.move (r := s') (q := p') ht hp hc hf ?_ rfl (fun _ => hyes)
    (.waiting hwork.refreshNeeded hcurrent.handle fun n hn => ?_)
    (.inr ⟨rfl, hwork.refreshNeeded, hresolved, nofun, fun _ => rfl⟩) nofun
  · change (s.shared.modifyParam t.reason _).param? t.reason = _
    rw [AdsShared.param?_modifyParam, if_pos rfl, hp]
    rfl
  · cases hn
    exact ⟨hlookup, Function.update_self t.reason c' s.notificationOn⟩

theorem Inv.clear (h : s.Inv) (ht : s.threads[i]? = some t) (hpc : t.pc = .clear c) :
    ({ s.setShared (s.shared.clearRefresh t.reason) with
        threads := s.threads.set i { t with pc := .ended } } : Driver).Inv := by
  obtain ⟨hc, p, hp, hwork, hcurrent⟩ := h.working ht hpc rfl
  have hok := hwork.pcOk
  exact h.moveParam ht hp hc rfl (h.input _ p hp)
    ⟨hcurrent.handle, hcurrent.notification, fun _ => ⟨hok.resolved, hok.fed, hok.notification⟩⟩
    (.inl rfl) nofun

theorem issuable_iff {handle : UInt32} :
    s.issuable handle = true ↔ s.shared.lookup handle = none ∧
      ∀ t ∈ s.threads, ∀ d d', t.pc ≠ .addMap d d' handle := by
  unfold issuable
  rw [Bool.and_eq_true, Option.isNone_iff_eq_none, List.all_eq_true]
  refine and_congr_right fun _ => forall₂_congr fun t _ => ?_
  cases t.pc <;> simp

/-- **One section.**  A refresh that holds a client keeps the invariant. -/
theorem Inv.advance (h : s.Inv) {reply : PlcReply} {pc' : RefreshPc}
    (ht : s.threads[i]? = some t) (hc : t.pc.client = some c)
    (hs : s.advance t.reason reply t.pc = some (s', pc')) :
    ({ s' with threads := s'.threads.set i { t with pc := pc' } } : Driver).Inv := by
  obtain ⟨-, p, hp, hwork, hcurrent⟩ := h.working ht rfl hc
  have hend : ({ s with threads := s.threads.set i { t with pc := .ended } } : Driver).Inv :=
    h.moveOnly ht hp hc (.inl rfl) nofun
  have hok := hwork.pcOk
  cases hpc : t.pc with
  | start => rw [hpc] at hc; cases hc
  | ended => rw [hpc] at hc; cases hc
  | fields c =>
    rw [hpc] at hs
    simp only [Driver.advance, hp] at hs
    cases hs
    refine h.moveOnly ht hp (by rw [hpc]; rfl) (.inr ?_) fun d d' n heq => ?_
    · cases hsym : p.symbolName with
      | none => exact ⟨rfl, fun hsome => by rw [hsym] at hsome; cases hsome⟩
      | some name => exact ⟨rfl, trivial⟩
    · split at heq <;> cases heq
  | symbolInfo c =>
    rw [hpc] at hs
    cases reply with
    | symbol size =>
      cases hs
      exact h.moveOnly ht hp (by rw [hpc]; rfl) (.inr ⟨rfl, trivial⟩) nofun
    | _ => cases hs; exact hend
  | takeHandle c size =>
    rw [hpc] at hs
    cases hs
    exact h.takeHandle ht hpc
  | getHandle c size =>
    rw [hpc] at hs
    cases reply with
    | handle handle =>
      cases hs
      exact h.moveOnly ht hp (by rw [hpc]; rfl) (.inr ⟨rfl, fun _ => rfl⟩) nofun
    | _ => cases hs; exact hend
  | store c handle size =>
    rw [hpc] at hs
    simp only [Driver.advance, hp] at hs
    cases hs
    exact h.store ht hpc hp
  | bulkEntry c =>
    rw [hpc] at hs hok
    simp only [Driver.advance, hp] at hs
    cases hentry : AdsShared.bulkEntry p with
    | none =>
      rw [hentry] at hs
      cases hs
      exact hend
    | some found =>
      obtain ⟨entry, existing⟩ := found
      rw [hentry] at hs
      cases hs
      refine h.moveOnly ht hp (by rw [hpc]; rfl) (.inr ⟨rfl, hok, fun hsome => ?_⟩) nofun
      obtain ⟨⟨group, slot⟩, rfl⟩ := Option.isSome_iff_exists.1 hsome
      rw [AdsShared.bulkEntry_slot hentry]
      exact ⟨nofun, nofun⟩
  | bulkPlace c amsPort entry existing =>
    rw [hpc] at hs
    simp only [Driver.advance] at hs
    split at hs
    next slot shared hplace =>
      cases hs
      exact h.bulkPlace ht hpc hplace
    next =>
      cases hs
      exact hend
  | bulkStore c slot =>
    rw [hpc] at hs
    cases hs
    exact h.bulkStore ht hpc
  | removeTake c =>
    rw [hpc] at hs hok
    simp only [Driver.advance] at hs
    split at hs
    next handle shared htake =>
      cases hs
      exact h.removeTake ht hpc htake
    next =>
      cases hs
      exact h.moveOnly ht hp (by rw [hpc]; rfl) (.inr ⟨rfl, hok⟩) nofun
  | removeMap c handle =>
    rw [hpc] at hs
    cases hs
    exact h.removeMap ht hpc
  | addClient d =>
    rw [hpc] at hs hok hc
    obtain rfl : d = c := Option.some.inj hc
    simp only [Driver.advance, hwork.connected] at hs
    cases hs
    exact h.moveOnly ht hp (by rw [hpc]; rfl) (.inr ⟨rfl, hok, rfl⟩) nofun
  | addFields c c' =>
    rw [hpc] at hs hok
    simp only [Driver.advance] at hs
    split at hs
    · cases hs
      exact h.moveOnly ht hp (by rw [hpc]; rfl) (.inr ⟨rfl, hok⟩) nofun
    · cases hs
      exact hend
  | addRequest c c' =>
    rw [hpc] at hs hok
    cases reply with
    | handle handle =>
      obtain ⟨hissuable, heq⟩ := Option.ite_none_right_eq_some.1 hs
      cases heq
      obtain ⟨hunused, hothers⟩ := issuable_iff.1 hissuable
      refine h.moveOnly ht hp (by rw [hpc]; rfl) (.inr ⟨rfl, hok, hunused⟩)
        fun d d' n heq t' ht' e e' => ?_
      cases heq
      exact hothers t' ht' e e'
    | _ => cases hs; exact hend
  | addMap c c' handle =>
    rw [hpc] at hs
    cases hs
    exact h.addMap ht hpc
  | addStore c c' handle =>
    rw [hpc] at hs
    cases hs
    exact h.addStore ht hpc
  | sample c =>
    rw [hpc] at hs hok
    simp only [Driver.advance] at hs
    split at hs
    · cases hs
      exact h.moveOnly ht hp (by rw [hpc]; rfl) (.inr ⟨rfl, hok⟩) nofun
    · cases hs
      exact hend
  | sampleRead c =>
    rw [hpc] at hs hok
    cases reply with
    | done =>
      cases hs
      exact h.moveOnly ht hp (by rw [hpc]; rfl) (.inr ⟨rfl, hok⟩) nofun
    | _ => cases hs; exact hend
  | clear c =>
    rw [hpc] at hs
    cases hs
    exact h.clear ht hpc

end Sections

end Driver

end TwinCat
