import EpicsIocs.OpcUa.Session

/-! # What outlives a connection

`mark_connection_loss` clears the worker's queues; the command channel, the dirty
leaves and a record in the middle of its pass keep what they hold.  So a request
made on one connection can be answered against the next
(`stale_write_is_sent`), and none is when all three are empty each time a loss has
been marked (`no_stale_request`).

The invariant is `Session.Fresh`: everything on its way to the server was produced
on the current connection. -/

namespace OpcUa

open Steps

variable {V : Type}

/-- Every request in the lists was made on connection `n`. -/
def FreshChunks (n : Nat) (chunks : List (List Queued)) : Prop :=
  ∀ chunk ∈ chunks, ∀ q ∈ chunk, q.since = n

def Worker.Fresh (n : Nat) : Worker V → Prop
  | .reading _ chunk rest => FreshChunks n (chunk :: rest)
  | .delivering _ _ rest => FreshChunks n rest
  | .writing chunk values rest =>
    FreshChunks n (chunk :: rest) ∧ ∀ value ∈ values, value.connection = n ∧ value.Fresh
  | _ => True

structure Session.Fresh (s : Session V) : Prop where
  commands : ∀ c ∈ s.commands, c.2.since = s.losses
  reads : ∀ p, ∀ q ∈ s.reads p, q.since = s.losses
  writes : ∀ p, ∀ q ∈ s.writes p, q.since = s.losses
  worker : s.worker.Fresh s.losses
  losing : ∀ todo, s.worker = .losing todo → ∀ p, s.reads p = [] ∧ s.writes p = []
  passes : ∀ p ∈ s.passes, ∀ since, p.2.since = some since → since = s.losses
  leaves : ∀ i item, s.items[i]? = some item → ∀ j leaf, item.leaves[j]? = some leaf →
    leaf.dirty = true → s.produced i j = s.losses
  sent : ∀ x ∈ s.sent, x.Fresh

/-- `f` makes no leaf dirty. -/
def Item.KeepsClean (f : Item V → Item V) : Prop :=
  ∀ (item : Item V) (j : Nat) (leaf' : Leaf V), (f item).leaves[j]? = some leaf' → leaf'.dirty = true →
    ∃ leaf : Leaf V, item.leaves[j]? = some leaf ∧ leaf.dirty = true

/-! ## Lemmas -/

namespace Item

theorem keepsClean_map {f : Item V → Item V} {g : Leaf V → Leaf V}
    (hf : ∀ item, (f item).leaves = item.leaves.map g)
    (hg : ∀ leaf, (g leaf).dirty = true → leaf.dirty = true) : KeepsClean f := by
  intro item j leaf' hleaf hdirty
  rw [hf, List.getElem?_map] at hleaf
  obtain ⟨leaf, hj, rfl⟩ := Option.map_eq_some_iff.1 hleaf
  exact ⟨leaf, hj, hg leaf hdirty⟩

theorem setState_keepsClean (state : ConnectionStatus) :
    KeepsClean (setState state : Item V → Item V) :=
  keepsClean_map (fun _ => rfl) fun _ h => h

theorem setIncomingEvent_keepsClean (reason : ProcessReason) (now : Nat) :
    KeepsClean (setIncomingEvent reason now : Item V → Item V) :=
  keepsClean_map (fun _ => rfl) fun leaf h => by
    rwa [Leaf.setIncomingEvent_dirty] at h

theorem setIncomingData_keepsClean (E : Elements V) (value : V) (reason : ProcessReason)
    (status : UInt32) (timestamp : Nat) :
    KeepsClean (setIncomingData E value reason status timestamp) :=
  keepsClean_map (fun _ => rfl) fun leaf h => by
    rwa [Leaf.setIncomingData_dirty] at h

theorem takeOutgoing_keepsClean (E : Elements V) (item : Item V) :
    KeepsClean fun _ => (item.takeOutgoing E).2 := by
  intro _ j leaf' hleaf hdirty
  simp only [takeOutgoing, List.getElem?_map] at hleaf
  obtain ⟨leaf, -, rfl⟩ := Option.map_eq_some_iff.1 hleaf
  rw [Leaf.takeOutgoing_dirty] at hdirty
  cases hdirty

end Item

theorem takeBatch_mem {queues queues' : Priority → List Queued} {limit : Nat}
    {batch : List Queued} (h : takeBatch queues limit = some (batch, queues')) :
    (∀ q ∈ batch, ∃ p, q ∈ queues p) ∧ ∀ p, ∀ q ∈ queues' p, q ∈ queues p := by
  obtain ⟨priority, -, heq⟩ := Option.map_eq_some_iff.1 h
  cases heq
  refine ⟨fun q hq => ⟨priority, List.mem_of_mem_take hq⟩, fun p q hq => ?_⟩
  dsimp only at hq
  split at hq
  · exact List.mem_of_mem_drop hq
  · exact hq

namespace Session

theorem mem_chunks {limit : Nat} {batch chunk : List Queued} (h : chunk ∈ chunks limit batch)
    {q : Queued} (hq : q ∈ chunk) : q ∈ batch := by
  obtain ⟨k, -, rfl⟩ := List.mem_map.1 h
  exact List.mem_of_mem_drop (List.mem_of_mem_take hq)

theorem freshChunks_chunks {n limit : Nat} {batch : List Queued}
    (h : ∀ q ∈ batch, q.since = n) : FreshChunks n (chunks limit batch) :=
  fun _ hchunk q hq => h q (mem_chunks hchunk hq)

@[simp] theorem eventAll_losses (s : Session V) (now : Nat)
    (events : List (Nat × ProcessReason)) : (s.eventAll now events).losses = s.losses := by
  induction events generalizing s with
  | nil => rfl
  | cons e events ih => exact ih _

namespace Fresh

variable {s : Session V}

theorem modifyItem (h : s.Fresh) {f : Item V → Item V} (hf : Item.KeepsClean f) (i : Nat) :
    (s.modifyItem i f).Fresh where
  commands := h.commands
  reads := h.reads
  writes := h.writes
  worker := h.worker
  losing := h.losing
  passes := h.passes
  sent := h.sent
  leaves := by
    intro k item' hitem j leaf' hleaf hdirty
    rw [Session.modifyItem, List.getElem?_modify] at hitem
    obtain ⟨item, hk, hfi⟩ := Option.map_eq_some_iff.1 hitem
    by_cases hki : i = k
    · rw [if_pos hki] at hfi
      rw [← hfi] at hleaf
      obtain ⟨leaf, hj, hd⟩ := hf item j leaf' hleaf hdirty
      exact h.leaves k item hk j leaf hj hd
    · rw [if_neg hki] at hfi
      cases hfi
      exact h.leaves k _ hk j leaf' hleaf hdirty

theorem setPass (h : s.Fresh) {p : Pass} (hp : ∀ since, p.since = some since → since = s.losses)
    (i j : Nat) : (s.setPass i j p).Fresh where
  commands := h.commands
  reads := h.reads
  writes := h.writes
  worker := h.worker
  losing := h.losing
  leaves := h.leaves
  sent := h.sent
  passes := by
    intro q hq since hsince
    have hothers : ∀ q ∈ s.passes.filter (·.1 ≠ (i, j)), q.2.since = some since →
        since = s.losses := fun q hq => h.passes q (List.mem_of_mem_filter hq) since
    simp only [Session.setPass] at hq
    split at hq
    · exact hothers q hq hsince
    · obtain rfl | hq := List.mem_cons.1 hq
      · exact hp since hsince
      · exact hothers q hq hsince

/-- A pass is as old as the connection. -/
theorem pass (h : s.Fresh) {i j since : Nat} (hsince : (s.pass i j).since = some since) :
    since = s.losses := by
  unfold Session.pass at hsince
  cases hfind : s.passes.find? (·.1 = (i, j)) with
  | none =>
    rw [hfind] at hsince
    cases hsince
  | some q =>
    rw [hfind] at hsince
    exact h.passes q (List.mem_of_find?_eq_some hfind) since hsince

theorem idle (h : s.Fresh) (i j : Nat) : (s.setPass i j .idle).Fresh :=
  h.setPass (fun _ hp => by cases hp) i j

theorem setWorker (h : s.Fresh) {w : Worker V} (hw : w.Fresh s.losses)
    (hlosing : ∀ todo, w ≠ .losing todo) : ({ s with worker := w } : Session V).Fresh where
  commands := h.commands
  reads := h.reads
  writes := h.writes
  worker := hw
  losing := fun todo heq => absurd heq (hlosing todo)
  passes := h.passes
  leaves := h.leaves
  sent := h.sent

theorem startRead (h : s.Fresh) (initial : Bool) {batch : List (List Queued)}
    (hb : FreshChunks s.losses batch) : (s.startRead initial batch).Fresh := by
  cases batch with
  | nil => cases initial <;> exact h.setWorker trivial (fun _ heq => nomatch heq)
  | cons chunk rest => exact h.setWorker hb (fun _ heq => nomatch heq)

theorem startWrite (h : s.Fresh) {batch : List (List Queued)}
    (hb : FreshChunks s.losses batch) : (s.startWrite batch).Fresh := by
  cases batch with
  | nil => exact h.setWorker trivial (fun _ heq => nomatch heq)
  | cons chunk rest =>
    exact h.setWorker ⟨hb, fun _ hv => nomatch hv⟩ (fun _ heq => nomatch heq)

theorem startLoss (h : s.Fresh) : s.startLoss.Fresh where
  commands := h.commands
  reads := fun _ _ hq => nomatch hq
  writes := fun _ _ hq => nomatch hq
  worker := trivial
  losing := fun _ _ _ => ⟨rfl, rfl⟩
  passes := h.passes
  leaves := h.leaves
  sent := h.sent

theorem eventAll (h : s.Fresh) (now : Nat) (events : List (Nat × ProcessReason)) :
    (s.eventAll now events).Fresh := by
  induction events generalizing s with
  | nil => exact h
  | cons e events ih =>
    exact ih (h.modifyItem (Item.setIncomingEvent_keepsClean e.2 now) e.1)

theorem appendSent (h : s.Fresh) {xs : List (Sent V)} (hx : ∀ x ∈ xs, x.Fresh) :
    ({ s with sent := s.sent ++ xs } : Session V).Fresh where
  commands := h.commands
  reads := h.reads
  writes := h.writes
  worker := h.worker
  losing := h.losing
  passes := h.passes
  leaves := h.leaves
  sent := fun x hmem => (List.mem_append.1 hmem).elim (h.sent x) (hx x)

/-! ## Records -/

theorem deedStep (h : s.Fresh) {s' : Session V} {i j : Nat} {leaf : Leaf V} {deed : Deed V}
    (hs : s.deedStep i j leaf deed = some s') : s'.Fresh := by
  have hnow : ∀ p : Pass, p.since = some s.losses → (s.setPass i j p).Fresh :=
    fun p hp => h.setPass (fun since heq => Option.some.inj (heq.symm.trans hp)) i j
  cases deed with
  | requestRead => cases hs; exact hnow _ rfl
  | requestWrite =>
    obtain ⟨-, heq⟩ := Option.ite_none_left_eq_some.1 hs
    cases heq
    exact hnow _ rfl
  | send =>
    cases hs
    split
    · exact h
    · exact hnow _ rfl
  | nothing => cases hs; exact h
  | alarm stat => cases hs; exact h
  | takeValue update => cases hs; exact h

/-- A stored value is as old as the pass that stores it. -/
theorem storeValue (h : s.Fresh) {since : Nat} (hsince : since = s.losses) (i j : Nat) (value : V) :
    (s.storeValue i j since value).Fresh where
  commands := h.commands
  reads := h.reads
  writes := h.writes
  worker := h.worker
  losing := h.losing
  passes := h.passes
  sent := h.sent
  leaves := by
    intro k item' hitem l leaf' hleaf hdirty
    by_cases hij : k = i ∧ l = j
    · obtain ⟨rfl, rfl⟩ := hij
      simp only [Session.storeValue, Function.update_self]
      exact hsince
    · have hold : (s.storeValue i j since value).produced k l = s.produced k l := by
        simp only [Session.storeValue, Function.update_apply]
        split
        next hk =>
          subst hk
          exact Function.update_of_ne (fun hl => hij ⟨rfl, hl⟩) _ _
        next => rfl
      rw [hold]
      simp only [Session.storeValue, Session.modifyItem, List.getElem?_modify] at hitem
      obtain ⟨item, hk, hfi⟩ := Option.map_eq_some_iff.1 hitem
      refine h.leaves k item hk l leaf' ?_ hdirty
      split at hfi
      next hik =>
        subst hfi
        have hjl : j ≠ l := fun hl => hij ⟨hik.symm, hl.symm⟩
        simpa [List.getElem?_modify, hjl] using hleaf
      next => cases hfi; exact hleaf

theorem storeStep (h : s.Fresh) {since : Nat} (hsince : since = s.losses) (i j : Nat)
    (leaf : Leaf V) (value : Option V) : (s.storeStep i j since leaf value).Fresh := by
  cases value with
  | none => exact h.idle i j
  | some value =>
    refine (h.storeValue hsince i j value).setPass (fun n hn => ?_) i j
    split at hn
    · cases hn
      exact hsince
    · cases hn

theorem command (h : s.Fresh) (priority : Priority) (request : Request)
    (hrequest : request.since = s.losses) :
    ({ s with commands := s.commands ++ [(priority, request)] } : Session V).Fresh where
  commands := by
    intro c hc
    obtain hc | hc := List.mem_append.1 hc
    · exact h.commands c hc
    · rw [List.mem_singleton.1 hc]
      exact hrequest
  reads := h.reads
  writes := h.writes
  worker := h.worker
  losing := h.losing
  passes := h.passes
  leaves := h.leaves
  sent := h.sent

/-! ## The worker -/

theorem recvStep (h : s.Fresh) {s' : Session V} (hserving : s.worker = .serving)
    (hs : s.recvStep s.commands = some s') : s'.Fresh := by
  cases hc : s.commands with
  | nil =>
    rw [hc] at hs
    cases hs
  | cons c commands =>
    obtain ⟨priority, request⟩ := c
    rw [hc] at hs
    have hcommands : ∀ c ∈ commands, c.2.since = s.losses :=
      fun c hmem => h.commands c (hc ▸ List.mem_cons_of_mem _ hmem)
    have hrequest : request.since = s.losses :=
      h.commands (priority, request) (hc ▸ List.mem_cons_self)
    have hpush : ∀ queues : Priority → List Queued, (∀ p, ∀ q ∈ queues p, q.since = s.losses) →
        ∀ p, ∀ q ∈ Function.update queues priority
          (queues priority ++ [⟨request.handle, request.since⟩]) p, q.since = s.losses := by
      intro queues hq p q hmem
      rw [Function.update_apply] at hmem
      split at hmem
      · obtain hmem | hmem := List.mem_append.1 hmem
        · exact hq _ q hmem
        · rw [List.mem_singleton.1 hmem]
          exact hrequest
      · exact hq p q hmem
    have hlosing : ∀ todo, s.worker ≠ .losing todo := by
      intro todo heq
      rw [hserving] at heq
      cases heq
    cases haction : request.action with
    | read =>
      simp only [Session.recvStep, haction, Option.some.injEq] at hs
      subst hs
      exact ⟨hcommands, hpush _ h.reads, h.writes, h.worker, fun todo heq => absurd heq (hlosing todo),
        h.passes, h.leaves, h.sent⟩
    | write =>
      simp only [Session.recvStep, haction, Option.some.injEq] at hs
      subst hs
      exact ⟨hcommands, h.reads, hpush _ h.writes, h.worker, fun todo heq => absurd heq (hlosing todo),
        h.passes, h.leaves, h.sent⟩

theorem flushStep (h : s.Fresh) (hserving : s.worker = .serving) (writeLimit readLimit : Nat) :
    (s.flushStep writeLimit readLimit).Fresh := by
  have hlosing : ∀ todo, s.worker ≠ .losing todo := by
    intro todo heq
    rw [hserving] at heq
    cases heq
  unfold Session.flushStep
  split
  next batch writes hbatch =>
    obtain ⟨hmem, hrest⟩ := takeBatch_mem hbatch
    refine startWrite (s := { s with writes }) ⟨h.commands, h.reads,
      fun p q hq => h.writes p q (hrest p q hq), h.worker,
      fun todo heq => absurd heq (hlosing todo), h.passes, h.leaves, h.sent⟩ ?_
    refine freshChunks_chunks fun q hq => ?_
    obtain ⟨p, hp⟩ := hmem q hq
    exact h.writes p q hp
  next =>
    split
    next batch reads hbatch =>
      obtain ⟨hmem, hrest⟩ := takeBatch_mem hbatch
      refine startRead (s := { s with reads }) ⟨h.commands,
        fun p q hq => h.reads p q (hrest p q hq), h.writes, h.worker,
        fun todo heq => absurd heq (hlosing todo), h.passes, h.leaves, h.sent⟩ false ?_
      refine freshChunks_chunks fun q hq => ?_
      obtain ⟨p, hp⟩ := hmem q hq
      exact h.reads p q hp
    next => exact h

theorem deliverStep (h : s.Fresh) (E : Elements V) (handle : Nat) (answer : ReadAnswer V) :
    (s.deliverStep E handle answer).Fresh := by
  cases answer with
  | data value status timestamp =>
    exact h.modifyItem (Item.setIncomingData_keepsClean E value _ status timestamp) handle
  | failure now => exact h.modifyItem (Item.setIncomingEvent_keepsClean _ now) handle

/-- The Read of a fresh chunk is fresh. -/
theorem sentRead {chunk : List Queued} (hchunk : ∀ q ∈ chunk, q.since = s.losses)
    (initial : Bool) : ∀ x ∈ s.sentRead initial chunk, x.Fresh := by
  intro x hx
  obtain ⟨q, hq, rfl⟩ := List.mem_map.1 hx
  refine ⟨fun since horigin => ?_, fun since hmem => nomatch hmem⟩
  cases initial with
  | true => cases horigin
  | false =>
    cases horigin
    exact hchunk q (List.mem_of_mem_filter hq)

theorem callReadStep (h : s.Fresh) {initial : Bool} {chunk : List Queued}
    {rest : List (List Queued)} (hfresh : FreshChunks s.losses (chunk :: rest)) (now : Nat)
    (outcome : Outcome) : (s.callReadStep initial chunk rest now outcome).Fresh := by
  have hchunk := hfresh chunk List.mem_cons_self
  have hrest : FreshChunks s.losses rest := fun c hc => hfresh c (List.mem_cons_of_mem _ hc)
  have hsent := h.appendSent (sentRead hchunk initial)
  have hfailed := hsent.eventAll now (chunk.map fun q => (q.handle, ProcessReason.readFailure))
  cases outcome with
  | answered good => exact hsent.setWorker hrest (fun _ heq => nomatch heq)
  | failed => exact hfailed.startRead initial (by rwa [eventAll_losses])
  | connectionError =>
    cases initial with
    | true => exact hfailed.startRead true (show FreshChunks _ [] from fun _ hc => nomatch hc)
    | false => exact hfailed.startLoss

theorem callWriteStep (h : s.Fresh) {values : List (Sent V)} {rest : List (List Queued)}
    (hvalues : ∀ value ∈ values, value.Fresh) (hrest : FreshChunks s.losses rest) (now : Nat)
    (outcome : Outcome) : (s.callWriteStep values rest now outcome).Fresh := by
  have hevents := (h.appendSent hvalues).eventAll now
  cases outcome with
  | answered good => exact (hevents _).startWrite (by rwa [eventAll_losses])
  | failed => exact (hevents _).startWrite (by rwa [eventAll_losses])
  | connectionError => exact (hevents _).startLoss

/-- What a Write takes out of its item's leaves was produced on this connection. -/
theorem producedOn (h : s.Fresh) {i : Nat} {item : Item V} (hitem : s.items[i]? = some item) :
    ∀ since ∈ s.producedOn i item, since = s.losses := by
  intro since hsince
  obtain ⟨j, hj, rfl⟩ := List.mem_map.1 hsince
  have hdirty := (List.mem_filter.1 hj).2
  cases hleaf : item.leaves[j]? with
  | none => simp [hleaf] at hdirty
  | some leaf => exact h.leaves i item hitem j leaf hleaf (by simpa [hleaf] using hdirty)

theorem collectStep (h : s.Fresh) (E : Elements V) {q : Queued} {chunk : List Queued}
    {values : List (Sent V)} {rest : List (List Queued)}
    (hfresh : FreshChunks s.losses ((q :: chunk) :: rest))
    (hvalues : ∀ value ∈ values, value.connection = s.losses ∧ value.Fresh) :
    (s.collectStep E q chunk values rest).Fresh := by
  have hq : q.since = s.losses := hfresh _ List.mem_cons_self q List.mem_cons_self
  have hchunks : FreshChunks s.losses (chunk :: rest) := by
    intro c hc
    obtain rfl | hc := List.mem_cons.1 hc
    · exact fun x hx => hfresh _ List.mem_cons_self x (List.mem_cons_of_mem _ hx)
    · exact hfresh c (List.mem_cons_of_mem _ hc)
  unfold Session.collectStep
  split
  next => exact h.setWorker ⟨hchunks, hvalues⟩ (fun _ heq => nomatch heq)
  next item hitem =>
    have htake := h.modifyItem (Item.takeOutgoing_keepsClean E item) q.handle
    split
    next item' heq =>
      rw [heq] at htake
      exact htake.setWorker ⟨hchunks, hvalues⟩ (fun _ heq => nomatch heq)
    next value item' heq =>
      rw [heq] at htake
      refine htake.setWorker ⟨hchunks, fun x hx => ?_⟩ (fun _ heq => nomatch heq)
      obtain hx | hx := List.mem_append.1 hx
      · exact hvalues x hx
      · rw [List.mem_singleton.1 hx]
        refine ⟨rfl, fun since horigin => ?_, h.producedOn hitem⟩
        cases horigin
        exact hq

theorem advanceStep (h : s.Fresh) {s' : Session V} {limit : Nat}
    (hs : s.advanceStep limit = some s') : s'.Fresh := by
  have hworker := h.worker
  unfold Session.advanceStep at hs
  split at hs
  next i todo _ =>
    cases hs
    exact (h.modifyItem (Item.setState_keepsClean _) i).setWorker trivial (fun _ heq => nomatch heq)
  next =>
    cases hs
    refine h.startRead true (freshChunks_chunks fun q hq => ?_)
    obtain ⟨i, -, rfl⟩ := List.mem_map.1 hq
    rfl
  next initial chunk rest hreading =>
    rw [hreading] at hworker
    obtain ⟨-, heq⟩ := Option.ite_none_right_eq_some.1 hs
    cases heq
    exact h.startRead initial fun c hc => hworker c (List.mem_cons_of_mem _ hc)
  next initial rest hdelivering =>
    rw [hdelivering] at hworker
    cases hs
    exact h.startRead initial hworker
  next i todo _ =>
    cases hs
    exact (h.modifyItem (Item.setState_keepsClean _) i).setWorker trivial (fun _ heq => nomatch heq)
  next => cases hs; exact h.setWorker trivial (fun _ heq => nomatch heq)
  next rest hwriting =>
    rw [hwriting] at hworker
    cases hs
    exact h.startWrite fun c hc => hworker.1 c (List.mem_cons_of_mem _ hc)
  next => cases hs

theorem start (links : List (List LinkInfo)) : (Session.start links : Session V).Fresh where
  commands := fun _ hc => nomatch hc
  reads := fun _ _ hq => nomatch hq
  writes := fun _ _ hq => nomatch hq
  worker := trivial
  losing := fun _ heq => nomatch heq
  passes := fun _ hp => nomatch hp
  sent := fun _ hx => nomatch hx
  leaves := by
    intro i item hitem j leaf hleaf hdirty
    rw [Session.start, List.getElem?_map] at hitem
    obtain ⟨itemLinks, -, rfl⟩ := Option.map_eq_some_iff.1 hitem
    rw [List.getElem?_map] at hleaf
    obtain ⟨link, -, rfl⟩ := Option.map_eq_some_iff.1 hleaf
    cases hdirty

/-- Nothing is on its way when a loss has been marked: the next connection starts
fresh. -/
theorem marked (h : s.Fresh) (hlosing : s.worker = .losing []) (hcommands : s.commands = [])
    (hclean : ∀ item ∈ s.items, item.hasDirtyLeaf = false) (hpasses : s.passes = []) :
    ({ s with worker := .down, losses := s.losses + 1 } : Session V).Fresh where
  commands := by
    intro c hc
    rw [hcommands] at hc
    cases hc
  reads := by
    intro p q hq
    rw [(h.losing [] hlosing p).1] at hq
    cases hq
  writes := by
    intro p q hq
    rw [(h.losing [] hlosing p).2] at hq
    cases hq
  worker := trivial
  losing := fun _ heq => nomatch heq
  passes := by
    intro p hp
    rw [hpasses] at hp
    cases hp
  leaves := by
    intro i item hitem j leaf hleaf hdirty
    have hall := hclean item (List.mem_of_getElem? hitem)
    rw [Item.hasDirtyLeaf, List.any_eq_false] at hall
    exact absurd hdirty (hall leaf (List.mem_of_getElem? hleaf))
  sent := h.sent

end Fresh

/-- When the marking of a loss is done, the command channel is empty, no leaf holds
an unsent value, and no record is in the middle of a pass that sends one. -/
def LossIsClean (s : Session V) : SessionAct V → Prop
  | .marked =>
    s.commands = [] ∧ (∀ item ∈ s.items, item.hasDirtyLeaf = false) ∧ s.passes = []
  | _ => True

theorem step_fresh (E : Elements V) {s s' : Session V} {a : SessionAct V} (h : s.Fresh)
    (hs : s.step E a = some s') (hclean : s.LossIsClean a) : s'.Fresh := by
  have hworker := h.worker
  cases a with
  | deed i j deed =>
    obtain ⟨leaf, -, hs⟩ := Option.bind_eq_some_iff.1 hs
    exact h.deedStep (Option.ite_none_right_eq_some.1 hs).2
  | checkRead i j =>
    obtain ⟨leaf, -, hs⟩ := Option.bind_eq_some_iff.1 hs
    split at hs
    next since hpass =>
      cases hs
      refine h.setPass (fun n hn => ?_) i j
      split at hn
      · cases hn
      · cases hn
        exact h.pass (i := i) (j := j) (by rw [hpass]; rfl)
    next => cases hs
  | store i j value =>
    obtain ⟨leaf, -, hs⟩ := Option.bind_eq_some_iff.1 hs
    split at hs
    next since hpass =>
      cases hs
      exact h.storeStep (h.pass (i := i) (j := j) (by rw [hpass]; rfl)) i j leaf value
    next => cases hs
  | request i j =>
    simp only [step] at hs
    split at hs
    next since action hpass =>
      cases hs
      have hsince := h.pass (i := i) (j := j) (by rw [hpass]; rfl)
      exact (h.command .low { action, handle := i, since } hsince).idle i j
    next => cases hs
  | connect =>
    simp only [step] at hs
    split at hs
    · cases hs
      exact h.setWorker trivial (fun _ heq => nomatch heq)
    · cases hs
  | advance limit => exact h.advanceStep hs
  | callRead outcome now =>
    simp only [step] at hs
    split at hs
    next initial chunk rest hreading =>
      rw [hreading] at hworker
      split at hs
      · cases hs
      · cases hs
        exact h.callReadStep hworker now outcome
    next => cases hs
  | deliver answer =>
    simp only [step] at hs
    split at hs
    next initial q chunk rest hdelivering =>
      rw [hdelivering] at hworker
      cases hs
      have hdeliver := h.deliverStep E q.handle answer
      cases answer <;> exact hdeliver.setWorker hworker (fun _ heq => nomatch heq)
    next => cases hs
  | recv =>
    simp only [step] at hs
    split at hs
    next hserving => exact h.recvStep hserving hs
    next => cases hs
  | flush writeLimit readLimit =>
    simp only [step] at hs
    split at hs
    next hserving =>
      cases hs
      exact h.flushStep hserving writeLimit readLimit
    next => cases hs
  | collect =>
    simp only [step] at hs
    split at hs
    next q chunk values rest hwriting =>
      rw [hwriting] at hworker
      cases hs
      exact h.collectStep E hworker.1 hworker.2
    next => cases hs
  | callWrite outcome now =>
    simp only [step] at hs
    split at hs
    next value values rest hwriting =>
      rw [hwriting] at hworker
      cases hs
      exact h.callWriteStep (fun x hx => (hworker.2 x hx).2)
        (fun c hc => hworker.1 c (List.mem_cons_of_mem _ hc)) now outcome
    next => cases hs
  | monitorRefused i now =>
    simp only [step] at hs
    split at hs
    · cases hs
      exact h.modifyItem (Item.setIncomingEvent_keepsClean _ now) i
    · cases hs
  | serve =>
    simp only [step] at hs
    split at hs
    · cases hs
      exact h.setWorker trivial (fun _ heq => nomatch heq)
    · cases hs
  | disconnect =>
    simp only [step] at hs
    split at hs
    · cases hs
      exact h.startLoss
    · cases hs
  | markItem now =>
    simp only [step] at hs
    split at hs
    next i todo hlosing =>
      cases hs
      have hmark := h.modifyItem (Item.setIncomingEvent_keepsClean .connectionLoss now) i
      exact ⟨hmark.commands, hmark.reads, hmark.writes, trivial, fun _ _ => h.losing _ hlosing,
        hmark.passes, hmark.leaves, hmark.sent⟩
    next => cases hs
  | marked =>
    simp only [step] at hs
    split at hs
    next hlosing =>
      cases hs
      exact h.marked hlosing hclean.1 hclean.2.1 hclean.2.2
    next => cases hs
  | dispatch i value status timestamp =>
    cases hs
    exact h.modifyItem (Item.setIncomingData_keepsClean E value _ status timestamp) i

end Session

/-! ## Requests and connections -/

/-- **No stale request.**  In a run in which every loss is marked clean, every item of
every service call was requested, and every value in it produced, on the
connection it was sent on. -/
theorem no_stale_request (E : Elements V) :
    ∀ s, ((sessionSystem E).restrict Session.LossIsClean).Reachable s → ∀ x ∈ s.sent, x.Fresh := by
  intro s hs
  have hfresh : s.Fresh := by
    refine hs.invariant ?_ ?_
    · rintro s ⟨links, rfl⟩
      exact Session.Fresh.start links
    · rintro s a t hs ⟨hstep, hclean⟩
      exact Session.step_fresh E hs hstep hclean
  exact hfresh.sent

/-- Values with no structure. -/
def scalars : Elements Nat where
  empty := 0
  elementOf := fun value path => if path = [] then some value else none
  withElement := fun _ _ _ => none

/-- One item with one output record on it. -/
def oneOutput : List (List LinkInfo) := [[⟨3, true, true, .read, []⟩]]

/-- A connect, its initial read and no monitored item. -/
def connectAndServe : List (SessionAct Nat) :=
  [.connect, .advance 1, .advance 1, .callRead (.answered [true]) 0, .deliver (.data 1 0 0),
    .advance 1, .advance 1, .advance 1, .serve]

/-- The record writes `value`. -/
def recordWrites (value : Nat) : List (SessionAct Nat) :=
  [.deed 0 0 .send, .store 0 0 (some value), .request 0 0]

def workerWrites : List (SessionAct Nat) :=
  [.recv, .flush 1 1, .collect, .callWrite (.answered [true]) 0]

def connectionLost : List (SessionAct Nat) := [.disconnect, .markItem 0, .marked]

/-- The connection closes while a write is in the command channel: the next one
writes it. -/
theorem stale_write_is_sent :
    ∃ s, (sessionSystem scalars).Reachable s ∧
      ∃ x ∈ s.sent, x = ⟨1, 0, .request 0, some 7, [0]⟩ ∧ ¬x.Fresh := by
  have hrun : ((connectAndServe ++ recordWrites 7 ++ connectionLost ++ connectAndServe ++
      workerWrites).foldlM (Session.step scalars) (.start oneOutput)).map Session.sent =
        some [⟨0, 0, .initial, none, []⟩, ⟨1, 0, .initial, none, []⟩,
          ⟨1, 0, .request 0, some 7, [0]⟩] := by decide +kernel
  obtain ⟨s, hs, hsent⟩ := Option.map_eq_some_iff.1 hrun
  refine ⟨s, System.reachable_ofFun ⟨_, rfl⟩ hs, _, ?_, rfl, fun hfresh => ?_⟩
  · rw [hsent]
    simp
  · exact absurd (hfresh.1 0 rfl) (by decide)

/-- A write that was answered before the connection closed, and one on the next. -/
theorem no_stale_request_twoConnections :
    ∃ s : Session Nat, s.sent.map (fun x => (x.connection, x.origin, x.body)) =
        [(0, .initial, none), (0, .request 0, some 7), (1, .initial, none),
          (1, .request 1, some 8)] ∧
      ∀ x ∈ s.sent, x.Fresh := by
  let before := connectAndServe ++ recordWrites 7 ++ workerWrites ++ [.disconnect, .markItem 0]
  let after := connectAndServe ++ recordWrites 8 ++ workerWrites
  have hrun : ((before.foldlM (Session.step scalars) (.start oneOutput)).bind fun s =>
      (s.step scalars .marked).bind fun s' =>
        (after.foldlM (Session.step scalars) s').map fun t =>
          ((s.commands.isEmpty, s.items.any Item.hasDirtyLeaf, s.passes.isEmpty),
            t.sent.map fun x => (x.connection, x.origin, x.body))) =
      some ((true, false, true), [(0, .initial, none), (0, .request 0, some 7),
        (1, .initial, none), (1, .request 1, some 8)]) := by decide +kernel
  have hbefore : ∀ a ∈ before, ∀ s, Session.LossIsClean s a := by
    simp [before, connectAndServe, recordWrites, workerWrites, Session.LossIsClean]
  have hafter : ∀ a ∈ after, ∀ s, Session.LossIsClean s a := by
    simp [after, connectAndServe, recordWrites, workerWrites, Session.LossIsClean]
  obtain ⟨s, hs, hrun⟩ := Option.bind_eq_some_iff.1 hrun
  obtain ⟨s', hs', hrun⟩ := Option.bind_eq_some_iff.1 hrun
  obtain ⟨t, ht, hview⟩ := Option.map_eq_some_iff.1 hrun
  simp only [Prod.mk.injEq, List.isEmpty_iff, List.any_eq_false, Bool.not_eq_true] at hview
  obtain ⟨⟨hcommands, hdirty, hpasses⟩, hsent⟩ := hview
  have hstart : ((sessionSystem scalars).restrict Session.LossIsClean).Reachable
      (.start oneOutput) := System.Reachable.init ⟨oneOutput, rfl⟩
  have hmarked : ((sessionSystem scalars).restrict Session.LossIsClean).step s .marked s' :=
    ⟨hs', hcommands, hdirty, hpasses⟩
  have hlost := (hstart.run ((System.run_ofFun hs).restrict hbefore)).step hmarked
  exact ⟨t, hsent, no_stale_request scalars t (hlost.run ((System.run_ofFun ht).restrict hafter))⟩

end OpcUa
