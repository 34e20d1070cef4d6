import EpicsIocs.TwinCat.RefreshInvariant

/-! # Handles and the connections that issued them

A refresh ends by declaring its parameter resolved, and nothing it checks then
says that the connection is still the one its handles came from.  When a
disconnect falls inside it the parameter keeps a dead handle and is never
refreshed again (`stale_handle_stays`).  When refreshes, writes and the supervisor
keep apart (`Driver.Apart`), what a resolved parameter holds was obtained on the
current connection, and no write goes to a handle of another (`handle_freshness`). -/

namespace TwinCat

open Steps

namespace Driver

variable {s s' : Driver}

/-! ## The other steps -/

theorem Inv.setThreads (h : s.Inv) {threads : List RefreshThread}
    (hthreads : ∀ t ∈ threads, s.ThreadOk t)
    (halone : ∀ (i j : Nat) t t', threads[i]? = some t → threads[j]? = some t' →
      t.pc.client.isSome → t'.pc.client.isSome → t.reason = t'.reason → i = j)
    (hissued : ∀ (i j : Nat) t t' c c' d d' n, threads[i]? = some t → threads[j]? = some t' →
      t.pc = .addMap c c' n → t'.pc = .addMap d d' n → i = j) :
    ({ s with threads } : Driver).Inv := {
  h with
  up := fun c hc k p hp hplc => (h.up c hc k p hp hplc).congr rfl rfl fun _ _ hn => hn
  threads := fun t ht => (hthreads t ht).same rfl rfl
  alone := halone
  issued := hissued }

/-- A refresh begins: it takes the client, or there is none. -/
theorem Inv.begin (h : s.Inv) {i : Nat} {t : RefreshThread} {pc' : RefreshPc}
    (ht : s.threads[i]? = some t)
    (hpc : pc' = .ended ∨ ∃ c, pc' = .fields c ∧ s.shared.client = some c ∧
      (∀ p, s.shared.param? t.reason = some p →
        p.refreshNeeded = true ∧ ¬s.DropsPort p.info.amsPort) ∧
      ∀ t' ∈ s.threads, t'.pc.client.isSome → t'.reason ≠ t.reason) :
    ({ s with threads := s.threads.set i { t with pc := pc' } } : Driver).Inv := by
  have hother : pc'.client.isSome → ∀ (j : Nat) t', s.threads[j]? = some t' →
      t'.pc.client.isSome → t'.reason ≠ t.reason := by
    intro hsome j t' hj
    obtain rfl | ⟨c, -, -, -, halone⟩ := hpc
    · cases hsome
    · exact halone t' (List.mem_of_getElem? hj)
  have hnew : ∀ d d' n, pc' ≠ .addMap d d' n := by
    intro d d' n heq
    obtain rfl | ⟨c, rfl, -⟩ := hpc <;> cases heq
  refine h.setThreads (fun t' ht' => ?_) ?_ ?_
  · obtain ⟨j, hj⟩ := List.mem_iff_getElem?.1 ht'
    obtain ⟨-, rfl⟩ | ⟨-, hold⟩ := getElem?_set_cases hj
    · obtain ⟨p, hp, hplc, -⟩ := h.threads t (List.mem_of_getElem? ht)
      refine ⟨p, hp, hplc, fun c hc => ?_⟩
      obtain rfl | ⟨c', rfl, hclient, hneeded, -⟩ := hpc
      · cases hc
      · cases hc
        exact ⟨hclient, (hneeded p hp).1, (hneeded p hp).2, trivial⟩
    · exact h.threads t' (List.mem_of_getElem? hold)
  · intro j k t1 t2 h1 h2 hc1 hc2 hr
    obtain ⟨hj, rfl⟩ | ⟨-, h1'⟩ := getElem?_set_cases h1 <;>
      obtain ⟨hk, rfl⟩ | ⟨-, h2'⟩ := getElem?_set_cases h2
    · exact hj.trans hk.symm
    · exact absurd hr.symm (hother hc1 k t2 h2' hc2)
    · exact absurd hr (hother hc2 j t1 h1' hc1)
    · exact h.alone j k t1 t2 h1' h2' hc1 hc2 hr
  · intro j k t1 t2 d d' e e' n h1 h2 hd he
    obtain ⟨-, rfl⟩ | ⟨-, h1'⟩ := getElem?_set_cases h1
    · exact absurd hd (hnew d d' n)
    · obtain ⟨-, rfl⟩ | ⟨-, h2'⟩ := getElem?_set_cases h2
      · exact absurd he (hnew e e' n)
      · exact h.issued j k t1 t2 d d' e e' n h1' h2' hd he

/-- A new refresh holds no client. -/
theorem Inv.beginRefresh (h : s.Inv) {reason : Nat} {p : ParamState}
    (hp : s.shared.param? reason = some p) (hplc : p.info.dataSource = .plc) :
    ({ s with threads := s.threads ++ [⟨reason, .start⟩] } : Driver).Inv := by
  have hthread : ∀ (j : Nat) t', (s.threads ++ [⟨reason, .start⟩])[j]? = some t' →
      t' = ⟨reason, .start⟩ ∨ s.threads[j]? = some t' := by
    intro j t' hj
    rw [List.getElem?_append] at hj
    split at hj
    next => exact .inr hj
    next =>
      have hmem := List.mem_of_getElem? hj
      exact .inl (List.mem_singleton.1 hmem)
  refine h.setThreads (fun t ht => ?_) ?_ ?_
  · obtain hold | hnew := List.mem_append.1 ht
    · exact h.threads t hold
    · obtain rfl := List.mem_singleton.1 hnew
      exact ⟨p, hp, hplc, nofun⟩
  · intro i j t t' hi hj hc hc' hr
    obtain rfl | hi := hthread i t hi
    · cases hc
    · obtain rfl | hj := hthread j t' hj
      · cases hc'
      · exact h.alone i j t t' hi hj hc hc' hr
  · intro i j t t' c c' d d' n hi hj hd hd'
    obtain rfl | hi := hthread i t hi
    · cases hd
    · obtain rfl | hj := hthread j t' hj
      · cases hd'
      · exact h.issued i j t t' c c' d d' n hi hj hd hd'

theorem boundParam_clean {info : DrvInfo} {plcSize : UInt32} (hplc : info.dataSource = .plc) :
    Clean (AdsShared.boundParam info plcSize) :=
  ⟨rfl, rfl, decide_eq_true hplc⟩

theorem Inv.bind (h : s.Inv) (info : DrvInfo) (plcSize : UInt32) :
    (s.setShared (s.shared.createParam info plcSize)).Inv := by
  obtain ⟨hclient, hnotifications, hport, hports⟩ := s.shared.createParam_frame info plcSize
  have hlookup : ∀ n, (s.shared.createParam info plcSize).lookup n = s.shared.lookup n := by
    intro n
    unfold AdsShared.lookup
    rw [hnotifications]
  have hparam : ∀ k p, (s.shared.createParam info plcSize).param? k = some p →
      p = AdsShared.boundParam info plcSize ∨ s.shared.param? k = some p := by
    intro k p hp
    rw [AdsShared.param?_createParam] at hp
    split at hp
    · exact .inl (Option.some.inj hp).symm
    · exact .inr hp
  have hkept : ∀ k p, s.shared.param? k = some p →
      (s.shared.createParam info plcSize).param? k = some p := by
    intro k p hp
    rw [AdsShared.param?_createParam, if_neg ?_, hp]
    rintro rfl
    rw [AdsShared.param?, List.getElem?_eq_none (Nat.le_refl _)] at hp
    cases hp
  exact {
    h with
    ports := fun k p hp => by
      obtain rfl | hp := hparam k p hp
      · exact hport
      · exact hports (h.ports k p hp)
    input := fun k p hp hfeed => by
      obtain rfl | hp := hparam k p hp
      · exact absurd rfl hfeed
      · exact h.input k p hp hfeed
    down := fun hnone k p hp hplc => by
      obtain rfl | hp := hparam k p hp
      · exact .inl (boundParam_clean hplc)
      · exact h.down (hclient.symm.trans hnone) k p hp hplc
    up := fun c hc k p hp hplc => by
      obtain rfl | hp := hparam k p hp
      · exact (boundParam_clean hplc).current
      · exact (h.up c (hclient.symm.trans hc) k p hp hplc).congr rfl rfl
          fun n _ hn => (hlookup n).trans hn
    disconnecting := fun hd => hclient.trans (h.disconnecting hd)
    dropped := h.dropped.frame rfl fun k p hp _ => hkept k p hp
    threads := fun t ht => (h.threads t ht).congr fun p hp _ =>
      ⟨p, hkept _ p hp, rfl, fun c _ hw => hw.congr hclient (fun hd => hd)
        (fun n hn => (hlookup n).trans hn) fun n hn => (hlookup n).trans hn⟩
    writers := fun w hw c hc => by
      dsimp only [setShared]
      rw [hclient]
      exact h.writers w hw c hc }

/-- A write reads the address of a handle the connection issued. -/
theorem Inv.readAddress (h : s.Inv) {reason : Nat} {p : ParamState}
    (hp : s.shared.param? reason = some p) (hplc : p.info.dataSource = .plc)
    (haddress : p.wireAddress.isSome) :
    ({ s with writers := s.writers ++ [⟨s.issuedOn reason p⟩] } : Driver).Inv := {
  h with
  up := fun c hc k q hq hsource => (h.up c hc k q hq hsource).congr rfl rfl fun _ _ hn => hn
  threads := fun t ht => (h.threads t ht).same rfl rfl
  writers := fun w hw c hc => by
    obtain hold | hnew := List.mem_append.1 hw
    · exact h.writers w hold c hc
    · obtain rfl := List.mem_singleton.1 hnew
      obtain ⟨name, hname, rfl⟩ := Option.map_eq_some_iff.1 hc
      cases hclient : s.shared.client with
      | none => exact .inr rfl
      | some c' =>
        rw [(h.up c' hclient reason p hp hplc).handle (p.handle_isSome hname haddress)]
        exact .inl rfl }

/-- A write goes out on the connection its handle is of, or not at all. -/
theorem Inv.write (h : s.Inv) {i : Nat} {w : Writer} {writes : List SentWrite}
    (hw : s.writers[i]? = some w)
    (hwrites : writes = s.writes ∨
      ∃ c, s.shared.client = some c ∧ writes = s.writes ++ [⟨w.issuedOn, c⟩]) :
    ({ s with writers := s.writers.eraseIdx i, writes } : Driver).Inv := {
  h with
  up := fun c hc k p hp hplc => (h.up c hc k p hp hplc).congr rfl rfl fun _ _ hn => hn
  threads := fun t ht => (h.threads t ht).same rfl rfl
  writers := fun w' hw' => h.writers w' (List.mem_of_mem_eraseIdx hw')
  writes := fun sent hsent c hc => by
    obtain rfl | ⟨c', hclient, rfl⟩ := hwrites
    · exact h.writes sent hsent c hc
    · obtain hold | hnew := List.mem_append.1 hsent
      · exact h.writes sent hold c hc
      · obtain rfl := List.mem_singleton.1 hnew
        obtain hsome | hnone := h.writers w (List.mem_of_getElem? hw) c hc
        · exact Option.some.inj (hsome.symm.trans hclient)
        · rw [hnone] at hclient
          cases hclient }

/-- A connection comes: nothing of an old one is left. -/
theorem Inv.connect (h : s.Inv) (hidle : s.supervisor = .idle) (hnone : s.shared.client = none)
    (hwriters : s.writers = []) (connections : Nat) :
    ({ s with
        shared := { s.shared with client := some s.connections }
        connections } : Driver).Inv := {
  h with
  down := nofun
  up := fun c hc k p hp hplc => by
    obtain hclean | hpending := h.down hnone k p hp hplc
    · exact hclean.current
    · unfold Pending at hpending
      rw [hidle] at hpending
      cases hpending
  disconnecting := fun hd => by
    dsimp only at hd
    rw [hidle] at hd
    cases hd
  threads := fun t ht => (h.threads t ht).whileDown hnone rfl
  writers := fun w hw => by
    dsimp only at hw
    rw [hwriters] at hw
    cases hw }

/-- The client is taken, and every parameter is to be wiped. -/
theorem Inv.disconnect (h : s.Inv) (hapart : ∀ t ∈ s.threads, t.pc.client = none) :
    ({ s with
        shared := { s.shared with client := none }
        supervisor := .clearNotifications } : Driver).Inv := {
  h with
  down := fun _ _ _ _ _ => .inr trivial
  up := nofun
  disconnecting := fun _ => rfl
  dropped := trivial
  threads := fun t ht => (h.threads t ht).congr fun p hp _ =>
    ⟨p, hp, rfl, fun c hc _ => by
      rw [hapart t ht] at hc
      cases hc⟩
  writers := fun _ _ _ _ => .inr rfl }

/-! ## The supervisor's sections -/

/-- Only the supervisor moves: to where it has as much to wipe, and drops no port
under a refresh.  The ports may change their flags. -/
theorem Inv.setSupervisor (h : s.Inv) {ports : List AmsPortState} {supervisor : Supervisor}
    (hports : ports.map (·.amsPort) = s.shared.ports.map (·.amsPort))
    (hdown : ∀ k p, s.shared.param? k = some p → s.Pending k p →
      ({ s with supervisor } : Driver).Pending k p)
    (hdisconnecting : Disconnecting supervisor → s.shared.client = none)
    (hdropped : ∀ amsPort reasons rest, supervisor ≠ .dropping amsPort (.handles reasons) rest ∧
      supervisor ≠ .dropping amsPort (.notifications reasons) rest)
    (hport : ∀ amsPort c, s.shared.client = some c → s.RefreshesPort amsPort →
      ({ s with supervisor } : Driver).DropsPort amsPort → s.DropsPort amsPort) :
    ({ s with shared := { s.shared with ports }, supervisor } : Driver).Inv := {
  h with
  ports := fun k p hp => by
    dsimp only
    rw [hports]
    exact h.ports k p hp
  down := fun hc k p hp hplc => (h.down hc k p hp hplc).imp_right (hdown k p hp)
  up := fun c hc k p hp hplc => (h.up c hc k p hp hplc).congr rfl rfl fun _ _ hn => hn
  disconnecting := hdisconnecting
  dropped := by
    unfold Dropped
    split
    next amsPort reasons rest heq => exact absurd heq (hdropped amsPort reasons rest).1
    next amsPort reasons rest heq => exact absurd heq (hdropped amsPort reasons rest).2
    next => trivial
  threads := fun t ht => (h.threads t ht).congr fun p hp _ =>
    ⟨p, hp, rfl, fun c hc hw => hw.congr rfl
      (hport p.info.amsPort c hw.connected ⟨t, ht, by rw [hc]; rfl, p, hp, rfl⟩)
      (fun _ hn => hn) fun _ hn => hn⟩ }

theorem Inv.dropAmsPort (h : s.Inv) {amsPort : Nat} (hidle : s.supervisor = .idle)
    (hapart : ¬s.RefreshesPort amsPort) :
    ({ s with supervisor := .dropping amsPort .invalidate none } : Driver).Inv := by
  refine h.setSupervisor rfl (fun k p _ hpending => ?_) nofun (fun _ _ _ => ⟨nofun, nofun⟩) ?_
  · unfold Pending at hpending
    rw [hidle] at hpending
    cases hpending
  · rintro port c - hrefreshes ⟨stage, rest, heq⟩
    cases heq
    exact absurd hrefreshes hapart

/-- Parameters are marked for refresh. -/
theorem Inv.invalidate (h : s.Inv) (amsPort : Nat) {supervisor : Supervisor}
    (hdown : ∀ k p, s.shared.param? k = some p → p.info.dataSource = .plc → s.Pending k p →
      ({ s with shared := s.shared.invalidateAmsPort amsPort, supervisor } : Driver).Pending k p)
    (hdisconnecting : Disconnecting supervisor → s.shared.client = none)
    (hdropped : ({ s with
      shared := s.shared.invalidateAmsPort amsPort, supervisor } : Driver).Dropped)
    (hport : ∀ port, ({ s with
      shared := s.shared.invalidateAmsPort amsPort, supervisor } : Driver).DropsPort port →
        s.DropsPort port) :
    ({ s with shared := s.shared.invalidateAmsPort amsPort, supervisor } : Driver).Inv := by
  have hkept : ∀ k p, s.shared.param? k = some p → ∃ p',
      (s.shared.invalidateAmsPort amsPort).param? k = some p' ∧
        (p' = p ∨ p' = { p with refreshNeeded := true }) := by
    intro k p hp
    rw [AdsShared.param?_invalidateAmsPort, hp]
    refine ⟨_, rfl, ?_⟩
    dsimp only
    split
    · exact .inr rfl
    · exact .inl rfl
  have hparam : ∀ k p', (s.shared.invalidateAmsPort amsPort).param? k = some p' → ∃ p,
      s.shared.param? k = some p ∧ (p' = p ∨ p' = { p with refreshNeeded := true }) := by
    intro k p' hp'
    cases hp : s.shared.param? k with
    | none =>
      rw [AdsShared.param?_invalidateAmsPort, hp] at hp'
      cases hp'
    | some p =>
      obtain ⟨q, hq, hor⟩ := hkept k p hp
      obtain rfl : q = p' := Option.some.inj (hq.symm.trans hp')
      exact ⟨p, rfl, hor⟩
  exact {
    h with
    ports := fun k p' hp' => by
      obtain ⟨p, hp, rfl | rfl⟩ := hparam k p' hp'
      · exact h.ports k p' hp
      · exact h.ports k p hp
    input := fun k p' hp' => by
      obtain ⟨p, hp, rfl | rfl⟩ := hparam k p' hp'
      · exact h.input k p' hp
      · exact h.input k p hp
    down := fun hc k p' hp' hplc => by
      obtain ⟨p, hp, rfl | rfl⟩ := hparam k p' hp'
      · exact (h.down hc k p' hp hplc).imp_right (hdown k p' hp hplc)
      · refine (h.down hc k p hp hplc).imp (fun hclean => ?_) (hdown k p hp hplc)
        exact ⟨hclean.handle, hclean.notification, rfl⟩
    up := fun c hc k p' hp' hplc => by
      obtain ⟨p, hp, rfl | rfl⟩ := hparam k p' hp'
      · exact (h.up c hc k p' hp hplc).congr rfl rfl fun _ _ hn => hn
      · exact .waiting rfl (h.up c hc k p hp hplc).handle (h.up c hc k p hp hplc).notification
    disconnecting := hdisconnecting
    dropped := hdropped
    threads := fun t ht => (h.threads t ht).congr fun p hp _ => by
      obtain ⟨p', hp', hor⟩ := hkept _ p hp
      refine ⟨p', hp', ?_, fun c hc hw => ?_⟩
      · obtain rfl | rfl := hor <;> rfl
      -- Where a refresh works its parameter waits already.
      · have hsame : p' = p := by
          obtain rfl | rfl := hor
          · rfl
          · rw [← hw.refreshNeeded]
        rw [hsame]
        exact hw.congr rfl (hport p.info.amsPort) (fun _ hn => hn) fun _ hn => hn }

/-- The invalidated parameters lose their handles; none is being refreshed. -/
theorem Inv.forgetHandles (h : s.Inv) {amsPort : Nat} {reasons : List Nat}
    {rest : Option (List Nat)} (hsup : s.supervisor = .dropping amsPort (.handles reasons) rest) :
    ({ s with
        shared := s.shared.forgetHandles reasons
        supervisor := .dropping amsPort (.notifications reasons) rest } : Driver).Inv := by
  have hdropped := h.dropped
  simp only [Dropped, hsup] at hdropped
  have hkept : ∀ k p, s.shared.param? k = some p → ∃ p',
      (s.shared.forgetHandles reasons).param? k = some p' ∧
        (k ∉ reasons ∧ p' = p ∨
          k ∈ reasons ∧ Clean p' ∧ p'.info = p.info ∧ p'.feed = p.feed) := by
    intro k p hp
    rw [AdsShared.param?_forgetHandles]
    by_cases hk : k ∈ reasons
    · obtain ⟨q, hq, -, hneeded⟩ := hdropped k hk
      obtain rfl : q = p := Option.some.inj (hq.symm.trans hp)
      rw [if_pos hk, hp]
      exact ⟨_, rfl, .inr ⟨hk, ⟨rfl, rfl, hneeded⟩, rfl, rfl⟩⟩
    · rw [if_neg hk]
      exact ⟨p, hp, .inl ⟨hk, rfl⟩⟩
  have hparam : ∀ k p', (s.shared.forgetHandles reasons).param? k = some p' → ∃ p,
      s.shared.param? k = some p ∧ (k ∉ reasons ∧ p' = p ∨
        k ∈ reasons ∧ Clean p' ∧ p'.info = p.info ∧ p'.feed = p.feed) := by
    intro k p' hp'
    cases hp : s.shared.param? k with
    | none =>
      rw [AdsShared.param?_forgetHandles, hp] at hp'
      split at hp' <;> cases hp'
    | some p =>
      obtain ⟨q, hq, hor⟩ := hkept k p hp
      obtain rfl : q = p' := Option.some.inj (hq.symm.trans hp')
      exact ⟨p, rfl, hor⟩
  exact {
    h with
    ports := fun k p' hp' => by
      obtain ⟨p, hp, ⟨-, rfl⟩ | ⟨-, -, hinfo, -⟩⟩ := hparam k p' hp'
      · exact h.ports k p' hp
      · rw [hinfo]
        exact h.ports k p hp
    input := fun k p' hp' => by
      obtain ⟨p, hp, ⟨-, rfl⟩ | ⟨-, -, hinfo, hfeed⟩⟩ := hparam k p' hp'
      · exact h.input k p' hp
      · rw [hinfo, hfeed]
        exact h.input k p hp
    down := fun hc k p' hp' hplc => by
      obtain ⟨p, hp, ⟨hk, rfl⟩ | ⟨-, hclean, -, -⟩⟩ := hparam k p' hp'
      · refine (h.down hc k p' hp hplc).imp_right fun hpending => ?_
        unfold Pending at hpending
        rw [hsup] at hpending
        cases rest with
        | none => cases hpending
        | some rest => exact hpending.imp_right fun hmem => hk hmem
      · exact .inl hclean
    up := fun c hc k p' hp' hplc => by
      obtain ⟨p, hp, ⟨-, rfl⟩ | ⟨-, hclean, -, -⟩⟩ := hparam k p' hp'
      · exact (h.up c hc k p' hp hplc).congr rfl rfl fun _ _ hn => hn
      · exact hclean.current
    disconnecting := fun hd => h.disconnecting (by rw [hsup]; exact hd)
    dropped := fun k hk => by
      obtain ⟨p, hp, hi, -⟩ := hdropped k hk
      obtain ⟨p', hp', ⟨hk', -⟩ | ⟨-, hclean, hinfo, -⟩⟩ := hkept k p hp
      · exact absurd hk hk'
      · refine ⟨p', hp', ?_, hclean⟩
        unfold AdsShared.invalidates at hi ⊢
        rw [hinfo]
        exact hi
    threads := fun t ht => (h.threads t ht).congr fun p hp _ => by
      obtain ⟨p', hp', hor⟩ := hkept _ p hp
      refine ⟨p', hp', ?_, fun c _ hw => ?_⟩
      · obtain ⟨-, rfl⟩ | ⟨-, -, hinfo, -⟩ := hor
        · rfl
        · exact hinfo
      · have hk : t.reason ∉ reasons := fun hk => by
          obtain ⟨q, hq, hi, -⟩ := hdropped _ hk
          obtain rfl : q = p := Option.some.inj (hq.symm.trans hp)
          exact hw.port ⟨.handles reasons, rest, by rw [hsup, AdsShared.invalidates_port hi]⟩
        obtain ⟨-, rfl⟩ | ⟨hk', -⟩ := hor
        · refine hw.congr rfl ?_ (fun _ hn => hn) fun _ hn => hn
          rintro ⟨stage, rest', heq⟩
          cases heq
          exact ⟨.handles reasons, rest, hsup⟩
        · exact absurd hk' hk }

/-- Their notifications are forgotten: no parameter has one of these, and none is
being refreshed. -/
theorem Inv.forgetNotifications (h : s.Inv) {amsPort : Nat} {reasons : List Nat}
    {rest : Option (List Nat)}
    (hsup : s.supervisor = .dropping amsPort (.notifications reasons) rest) :
    ({ s with
        shared := s.shared.forgetNotifications reasons
        supervisor := .dropping amsPort .flag rest } : Driver).Inv := by
  have hdropped := h.dropped
  simp only [Dropped, hsup] at hdropped
  exact {
    h with
    down := fun hc k p hp hplc => by
      refine (h.down hc k p hp hplc).imp_right fun hpending => ?_
      unfold Pending at hpending
      rw [hsup] at hpending
      cases rest with
      | none => cases hpending
      | some rest => exact hpending
    up := fun c hc k p hp hplc => (h.up c hc k p hp hplc).congr rfl rfl fun n hn hlookup => by
      refine AdsShared.lookup_forgetNotifications hlookup fun hk => ?_
      obtain ⟨q, hq, -, hclean⟩ := hdropped k hk
      obtain rfl : q = p := Option.some.inj (hq.symm.trans hp)
      rw [hclean.notification] at hn
      cases hn
    disconnecting := fun hd => h.disconnecting (by rw [hsup]; exact hd)
    dropped := trivial
    threads := fun t ht => (h.threads t ht).congr fun p hp _ => by
      refine ⟨p, hp, rfl, fun c _ hw => hw.congr rfl ?_ (fun n hn => ?_) fun n hn => ?_⟩
      · rintro ⟨stage, rest', heq⟩
        cases heq
        exact ⟨.notifications reasons, rest, hsup⟩
      · refine AdsShared.lookup_forgetNotifications hn fun hk => ?_
        obtain ⟨q, hq, hi, -⟩ := hdropped _ hk
        obtain rfl : q = p := Option.some.inj (hq.symm.trans hp)
        exact hw.port ⟨.notifications reasons, rest, by rw [hsup, AdsShared.invalidates_port hi]⟩
      · exact AdsShared.lookup_filter_none _ hn }

/-- The first sections of a `disconnect`: no parameter is touched, all are to be wiped. -/
theorem Inv.clearTables (h : s.Inv) {notifications : List (UInt32 × Nat)} {bulk : List BulkGroup}
    {supervisor : Supervisor} (hclient : s.shared.client = none)
    (hsup : supervisor = .clearBulk ∨ supervisor = .listPorts) :
    ({ s with shared := { s.shared with notifications, bulk }, supervisor } : Driver).Inv := {
  h with
  down := fun _ k p _ _ => .inr (by obtain rfl | rfl := hsup <;> trivial)
  up := fun c hc => by
    rw [show s.shared.client = some c from hc] at hclient
    cases hclient
  disconnecting := fun _ => hclient
  dropped := by obtain rfl | rfl := hsup <;> trivial
  threads := fun t ht => (h.threads t ht).whileDown hclient rfl }

theorem dropNext_ne (rest : Option (List Nat)) (amsPort : Nat) (reasons : List Nat)
    (rest' : Option (List Nat)) : dropNext rest ≠ .dropping amsPort (.handles reasons) rest' ∧
      dropNext rest ≠ .dropping amsPort (.notifications reasons) rest' := by
  obtain _ | (_ | ⟨port, rest⟩) := rest <;> exact ⟨nofun, nofun⟩

theorem disconnecting_dropNext {rest : Option (List Nat)} (h : Disconnecting (dropNext rest)) :
    rest.isSome := by
  cases rest with
  | none => cases h
  | some rest => rfl

/-- A parameter on a port of the list will be wiped. -/
theorem pending_dropNext {reason : Nat} {p : ParamState} {rest : List Nat}
    (h : p.info.amsPort ∈ rest) :
    ({ s with supervisor := dropNext (some rest) } : Driver).Pending reason p := by
  cases rest with
  | nil => cases h
  | cons port rest => exact (List.mem_cons.1 h).symm

/-- The next port, while no connection is up. -/
theorem Inv.dropNext (h : s.Inv) {ports : List AmsPortState} {rest : Option (List Nat)}
    (hports : ports.map (·.amsPort) = s.shared.ports.map (·.amsPort))
    (hrest : rest.isSome → s.shared.client = none)
    (hdown : ∀ k p, s.shared.param? k = some p → s.Pending k p →
      ∃ l, rest = some l ∧ p.info.amsPort ∈ l) :
    ({ s with shared := { s.shared with ports }, supervisor := Driver.dropNext rest } : Driver).Inv := by
  refine h.setSupervisor hports (fun k p hp hpending => ?_)
    (fun hd => hrest (disconnecting_dropNext hd)) (dropNext_ne rest) ?_
  · obtain ⟨l, rfl, hmem⟩ := hdown k p hp hpending
    exact pending_dropNext hmem
  · rintro amsPort c hclient - ⟨stage, rest', hsup⟩
    cases rest with
    | none => cases hsup
    | some l =>
      rw [hrest rfl] at hclient
      cases hclient

theorem Inv.supervise (h : s.Inv) (hs : s.supervise = some s') : s'.Inv := by
  cases hsup : s.supervisor with
  | idle => rw [Driver.supervise, hsup] at hs; cases hs
  | clearNotifications =>
    rw [Driver.supervise, hsup] at hs
    cases hs
    exact h.clearTables (h.disconnecting (by rw [hsup]; trivial)) (.inl rfl)
  | clearBulk =>
    rw [Driver.supervise, hsup] at hs
    cases hs
    exact h.clearTables (h.disconnecting (by rw [hsup]; trivial)) (.inr rfl)
  | listPorts =>
    rw [Driver.supervise, hsup] at hs
    cases hs
    exact h.dropNext rfl (fun _ => h.disconnecting (by rw [hsup]; trivial))
      fun k p hp _ => ⟨_, rfl, h.ports k p hp⟩
  | resetPorts =>
    rw [Driver.supervise, hsup] at hs
    cases hs
    refine h.setSupervisor ?_ (fun k p _ hpending => ?_) nofun (fun _ _ _ => ⟨nofun, nofun⟩) ?_
    · rw [List.map_map]
      rfl
    · unfold Pending at hpending
      rw [hsup] at hpending
      cases hpending
    · rintro amsPort c - - ⟨stage, rest, heq⟩
      cases heq
  | dropping amsPort stage rest =>
    have hclient : rest.isSome → s.shared.client = none := fun hrest =>
      h.disconnecting (by rw [hsup]; exact hrest)
    rw [Driver.supervise, hsup] at hs
    cases stage with
    | invalidate =>
      cases hs
      refine h.invalidate amsPort (fun k p hp hplc hpending => ?_) hclient (fun k hk => ?_) ?_
      · unfold Pending at hpending
        rw [hsup] at hpending
        cases rest with
        | none => cases hpending
        | some rest =>
          refine hpending.imp_right fun hport => ?_
          exact AdsShared.mem_invalidated.2 ⟨p, hp, decide_eq_true ⟨hport, hplc⟩⟩
      · obtain ⟨p, hp, hi⟩ := AdsShared.mem_invalidated.1 hk
        refine ⟨{ p with refreshNeeded := true }, ?_, hi, rfl⟩
        rw [AdsShared.param?_invalidateAmsPort, hp, Option.map_some, if_pos hi]
      · rintro port ⟨stage, rest', heq⟩
        cases heq
        exact ⟨.invalidate, rest, hsup⟩
    | handles reasons =>
      cases hs
      exact h.forgetHandles hsup
    | notifications reasons =>
      cases hs
      exact h.forgetNotifications hsup
    | flag =>
      cases hs
      refine h.dropNext ?_ hclient fun k p _ hpending => ?_
      · rw [List.map_map]
        refine List.map_congr_left fun port _ => ?_
        dsimp only [Function.comp_apply]
        split <;> rfl
      · unfold Pending at hpending
        rw [hsup] at hpending
        cases rest with
        | none => cases hpending
        | some rest =>
          obtain hmem | hfalse := hpending
          · exact ⟨rest, rfl, hmem⟩
          · cases hfalse

/-! ## Runs -/

/-- **Step lemma.** -/
theorem step_inv {a : DriverAct} (h : s.Inv) (hs : s.step a = some s') (hapart : s.Apart a) :
    s'.Inv := by
  cases a with
  | bind info plcSize =>
    cases hs
    exact h.bind info plcSize
  | beginRefresh reason =>
    simp only [step] at hs
    split at hs
    next p hp =>
      obtain ⟨⟨hplc, -⟩, heq⟩ := Option.ite_none_right_eq_some.1 hs
      cases heq
      exact h.beginRefresh hp hplc
    next => cases hs
  | refresh thread reply =>
    obtain ⟨t, ht, hs⟩ := Option.bind_eq_some_iff.1 hs
    obtain ⟨⟨r, pc'⟩, hadvance, hs⟩ := Option.bind_eq_some_iff.1 hs
    cases hs
    cases hc : t.pc.client with
    | some c => exact h.advance ht hc hadvance
    | none =>
      obtain ⟨reason, pc⟩ := t
      cases pc with
      | ended => cases hadvance
      | start =>
        simp only [Driver.advance] at hadvance
        cases hclient : s.shared.client with
        | none =>
          rw [hclient] at hadvance
          cases hadvance
          exact h.begin ht (.inl rfl)
        | some c =>
          rw [hclient] at hadvance
          cases hadvance
          have hguard := hapart _ ht rfl (by rw [hclient]; rfl)
          obtain ⟨p, hp, -⟩ := h.threads _ (List.mem_of_getElem? ht)
          refine h.begin ht (.inr ⟨c, rfl, hclient, fun q hq => ?_, (hguard p hp).2.2⟩)
          exact ⟨(hguard q hq).1, (hguard q hq).2.1⟩
      | _ => cases hc
  | readAddress reason =>
    simp only [step] at hs
    split at hs
    next p hp =>
      obtain ⟨⟨hplc, haddress⟩, heq⟩ := Option.ite_none_right_eq_some.1 hs
      cases heq
      exact h.readAddress hp hplc haddress
    next => cases hs
  | write i =>
    obtain ⟨w, hw, hs⟩ := Option.bind_eq_some_iff.1 hs
    cases hs
    split
    next c hclient => exact h.write hw (.inr ⟨c, hclient, rfl⟩)
    next => exact h.write hw (.inl rfl)
  | connect =>
    obtain ⟨⟨hidle, hnone⟩, heq⟩ := Option.ite_none_right_eq_some.1 hs
    cases heq
    exact h.connect hidle hnone hapart _
  | disconnect =>
    obtain ⟨-, heq⟩ := Option.ite_none_right_eq_some.1 hs
    cases heq
    exact h.disconnect hapart
  | dropAmsPort amsPort =>
    obtain ⟨hidle, heq⟩ := Option.ite_none_right_eq_some.1 hs
    cases heq
    exact h.dropAmsPort hidle hapart
  | symbolsChanged amsPort =>
    obtain ⟨hidle, heq⟩ := Option.ite_none_right_eq_some.1 hs
    cases heq
    refine h.invalidate amsPort (fun k p _ _ hpending => hpending) h.disconnecting ?_ fun _ hd => hd
    unfold Dropped
    rw [hidle]
    trivial
  | supervise => exact h.supervise hs

theorem start_inv : start.Inv := by
  have hparam : ∀ k, start.shared.param? k = none := by
    intro k
    obtain _ | _ | k := k <;> rfl
  have hnone : ∀ {P : Prop} k p, start.shared.param? k = some p → P := by
    intro P k p hp
    rw [hparam k] at hp
    cases hp
  have hthread : ∀ (i : Nat) t, start.threads[i]? ≠ some t := by
    intro i t hi
    cases List.mem_of_getElem? hi
  exact {
    ports := fun k p hp => hnone k p hp
    input := fun k p hp => hnone k p hp
    down := fun _ k p hp => hnone k p hp
    up := nofun
    disconnecting := nofun
    dropped := trivial
    threads := nofun
    alone := fun i _ t _ hi => absurd hi (hthread i t)
    issued := fun i _ t _ _ _ _ _ _ hi => absurd hi (hthread i t)
    writers := nofun
    writes := nofun }

/-- When nothing is under way, what the invariant says of resolved parameters is
freshness. -/
theorem Inv.fresh (h : s.Inv) (hquiescent : s.Quiescent) : s.Fresh := by
  intro reason p hp hplc hresolved
  cases hclient : s.shared.client with
  | none =>
    obtain hclean | hpending := h.down hclient reason p hp hplc
    · rw [hclean.refreshNeeded] at hresolved
      cases hresolved
    · unfold Pending at hpending
      rw [hquiescent.1] at hpending
      cases hpending
  | some c =>
    have hcurrent := h.up c hclient reason p hp hplc
    have hready := hcurrent.ready hresolved
    refine ⟨c, hclient, fun hsymbol => ?_, hready.fed, fun hfeed => ?_⟩
    · exact ⟨hready.resolved hsymbol, hcurrent.handle (hready.resolved hsymbol)⟩
    · obtain ⟨n, hn⟩ := Option.isSome_iff_exists.1 (hready.notification hfeed)
      exact ⟨n, hn, (hcurrent.notification n hn).1, (hcurrent.notification n hn).2⟩

end Driver

/-- **Freshness.**  In a run in which refreshes, writes and the supervisor keep apart,
whenever nothing is under way every parameter that needs no refresh holds handles of
the current connection, and no write has gone to a handle of another. -/
theorem handle_freshness :
    ∀ s, (driverSystem.restrict Driver.Apart).Reachable s →
      (s.Quiescent → s.Fresh) ∧ ∀ w ∈ s.writes, ∀ c, w.issuedOn = some c → c = w.sentOn := by
  intro s hs
  have hinv : s.Inv := by
    refine hs.invariant ?_ ?_
    · rintro s rfl
      exact Driver.start_inv
    · rintro s a t hs ⟨hstep, hapart⟩
      exact Driver.step_inv hs hstep hapart
  exact ⟨hinv.fresh, hinv.writes⟩

/-- An output, at a symbol. -/
def symbolOutput : DrvInfo where
  address := .symbolic "MAIN.setpoint"
  hasInput := false
  amsPort := 851
  dataSource := .plc
  isBulkRead := false

/-- A refresh of the output, up to the handle the PLC gives. -/
def refreshToHandle (thread : Nat) (handle : UInt32) : List DriverAct :=
  [.beginRefresh 1, .refresh thread .done, .refresh thread .done, .refresh thread (.symbol 4),
    .refresh thread .done, .refresh thread (.handle handle)]

/-- The handle is stored, and the parameter declared resolved. -/
def finishRefresh (thread : Nat) : List DriverAct :=
  [.refresh thread .done, .refresh thread .done]

/-- A whole `disconnect`, of a driver with one port. -/
def wholeDisconnect : List DriverAct := .disconnect :: List.replicate 8 .supervise

/-- What is left when a run of one parameter ends. -/
structure Outcome where
  quiescent : Bool
  client : Option Nat
  param : Option ParamState
  handleOn : Nat
  writes : List SentWrite
  deriving DecidableEq

def Driver.outcome (s : Driver) : Outcome where
  quiescent := decide (s.supervisor = .idle) && s.threads.all (fun t => decide (t.pc = .ended)) &&
    s.writers.isEmpty
  client := s.shared.client
  param := s.shared.param? 1
  handleOn := s.handleOn 1
  writes := s.writes

theorem Driver.quiescent_of_outcome {s : Driver} (h : s.outcome.quiescent = true) :
    s.Quiescent := by
  simpa [outcome, Quiescent, and_assoc] using h

def resolvedOutput (handle : UInt32) : ParamState where
  info := symbolOutput
  plcSize := 4
  handle := some handle
  notification := none
  feed := .none
  refreshNeeded := false

/-- A write before and one after a reconnect, each to a handle of its connection. -/
theorem handle_freshness_reconnect :
    ∃ s : Driver, s.writes = [⟨some 0, 0⟩, ⟨some 1, 1⟩] ∧ s.Fresh ∧
      ∀ w ∈ s.writes, ∀ c, w.issuedOn = some c → c = w.sentOn := by
  let as : List DriverAct := [.connect, .bind symbolOutput 0] ++ refreshToHandle 0 7 ++
    finishRefresh 0 ++ [.readAddress 1, .write 0] ++ wholeDisconnect ++ [.connect] ++
    refreshToHandle 1 9 ++ finishRefresh 1 ++ [.readAddress 1, .write 0]
  have hrun : (as.foldlM (System.guarded Driver.Apart Driver.step) .start).map Driver.outcome =
      some ⟨true, some 1, some (resolvedOutput 9), 1, [⟨some 0, 0⟩, ⟨some 1, 1⟩]⟩ := by
    decide +kernel
  obtain ⟨s, hs, houtcome⟩ := Option.map_eq_some_iff.1 hrun
  have hfresh := handle_freshness s (System.reachable_guarded rfl hs)
  have hquiescent : s.Quiescent := Driver.quiescent_of_outcome (by rw [houtcome])
  exact ⟨s, congrArg Outcome.writes houtcome, hfresh.1 hquiescent, hfresh.2⟩

/-- The connection drops while a refresh waits to store its handle. -/
theorem stale_handle_stays :
    ∃ s, driverSystem.Reachable s ∧ s.Quiescent ∧ ¬s.Fresh ∧
      ∃ w ∈ s.writes, w.issuedOn = some 0 ∧ w.sentOn = 1 := by
  let as : List DriverAct := [.connect, .bind symbolOutput 0] ++ refreshToHandle 0 7 ++
    wholeDisconnect ++ finishRefresh 0 ++ [.connect, .readAddress 1, .write 0]
  have hrun : (as.foldlM Driver.step .start).map Driver.outcome =
      some ⟨true, some 1, some (resolvedOutput 7), 0, [⟨some 0, 1⟩]⟩ := by decide +kernel
  obtain ⟨s, hs, houtcome⟩ := Option.map_eq_some_iff.1 hrun
  have hquiescent : s.Quiescent := Driver.quiescent_of_outcome (by rw [houtcome])
  have hclient : s.shared.client = some 1 := congrArg Outcome.client houtcome
  have hparam : s.shared.param? 1 = some (resolvedOutput 7) := congrArg Outcome.param houtcome
  have hissued : s.handleOn 1 = 0 := congrArg Outcome.handleOn houtcome
  have hwrites : s.writes = [⟨some 0, 1⟩] := congrArg Outcome.writes houtcome
  refine ⟨s, System.reachable_ofFun rfl hs, hquiescent, fun hfresh => ?_, ⟨some 0, 1⟩, ?_, rfl, rfl⟩
  -- The parameter is resolved, with the handle of connection 0, on connection 1.
  · obtain ⟨c, hparamFresh⟩ := hfresh 1 _ hparam rfl rfl
    have hc : s.handleOn 1 = c := (hparamFresh.handle rfl).2
    have hconnected := hparamFresh.connected
    rw [hclient, ← hc, hissued] at hconnected
    cases hconnected
  · rw [hwrites]
    exact List.mem_singleton_self _

end TwinCat
