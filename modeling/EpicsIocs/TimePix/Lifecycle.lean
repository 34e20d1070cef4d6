import EpicsIocs.TimePix.Acquisition

/-! # What holds across every interleaving of an acquisition

* `reachable_consistent`: Serval takes data only while its measurement is held; a port at rest is idle with
  nothing held and no worker on a run, running with the measurement and the monitor held, or faulted with at
  most the measurement held; Acquire is published as the phase says; and no start is ever cancelled.
* `running_watched`: a running acquisition has a monitor, or one on its way.
* `recovers`: from wherever it is, a port whose requests are answered runs again after Acquire=0, Acquire=1. -/

namespace TimePix.Acquisition

open Steps

/-! ## Consistency -/

/-- The port is in no call. -/
def Session.Rest (s : Session) : Prop :=
  match s.coordinator.phase with
  | .idle => s.coordinator.resources = ∅ ∧ s.workers = ∅
  | .running => Coordinator.required ⊆ s.coordinator.resources
  | .fault => s.coordinator.resources ⊆ {.remoteMeasurement} ∧ s.workers = ∅
  | .starting => False
  | .stopping => False

/-- In a start, behind the note of the measurement. -/
def Session.Held (s : Session) : Prop :=
  s.coordinator.phase = .starting ∧ .remoteMeasurement ∈ s.coordinator.resources

/-- In the cleanup `job`. -/
def Session.Cleaning (s : Session) (job : Cleanup) : Prop :=
  s.coordinator.phase = .stopping ∧ (job.hadRemote = true ↔ .remoteMeasurement ∈ s.coordinator.resources)

def Actor.Consistent (s : Session) : Actor → Prop
  | .free => s.Rest
  | .clearing => s.coordinator.phase = .starting
  | .stoppingPrior => s.coordinator.phase = .starting
  | .askingPrior => s.coordinator.phase = .starting
  | .stoppingPriorAgain => s.coordinator.phase = .starting
  | .freeingPorts => s.coordinator.phase = .starting
  | .startingRemote => s.Held
  | .rotatingPorts => s.Held
  | .startingRemoteAgain => s.Held
  | .syncing => s.Held
  | .startingWorkers _ => s.Held
  | .sending => s.Held
  | .committing => s.Held
  | .stoppingRemote job => s.Cleaning job
  | .draining job => s.Cleaning job
  | .joining job _ => s.Cleaning job
  | .asking job _ => s.Cleaning job ∧ s.workers = ∅
  | .finishing job _ remoteStopped =>
    s.Cleaning job ∧ s.workers = ∅ ∧ (remoteStopped = true → s.measuring = false)

theorem Cleanup.first_consistent {s : Session} {job : Cleanup} (h : s.Cleaning job) :
    job.first.Consistent s := by
  unfold first
  split
  · exact h
  · exact h

structure Session.Consistent (s : Session) : Prop where
  measuring : s.measuring = true → .remoteMeasurement ∈ s.coordinator.resources
  acquire : s.published.acquire = if s.coordinator.monitoring then 1 else 0
  actor : s.actor.Consistent s

namespace Coordinator

variable {s : Coordinator}

theorem noteResource_starting (h : s.phase = .starting) (resource : Resource) :
    s.noteResource resource = (true, { s with resources := insert resource s.resources }) := by
  unfold noteResource
  rw [if_neg (not_not_intro h)]

theorem commitStart_starting (h : s.phase = .starting) (hrequired : required ⊆ s.resources) :
    s.commitStart = (true, { s with phase := .running }) := by
  unfold commitStart
  rw [if_neg]
  rintro (hc | hc)
  · exact hc h
  · exact hc hrequired

/-- A stop with something to clean up owns the cleanup. -/
theorem beginStop_owner (hstopping : s.phase ≠ .stopping) (hheld : ¬ (s.settled ∧ s.resources = ∅))
    (fault : Bool) :
    (s.beginStop fault).1.owner = true ∧ (s.beginStop fault).1.snapshot = ⟨.stopping, s.resources⟩ ∧
      (s.beginStop fault).2.phase = .stopping ∧ (s.beginStop fault).2.resources = s.resources := by
  have hcond : ¬ ({ s with faultPending := s.faultPending || fault }.settled &&
      decide (s.resources = ∅)) = true := by
    rw [Bool.and_eq_true, decide_eq_true_iff]
    exact hheld
  unfold beginStop
  dsimp only
  rw [if_neg hstopping, if_neg hcond]
  exact ⟨rfl, rfl, rfl, rfl⟩

/-- A stop with nothing to clean up settles where it is, or in a fault. -/
theorem beginStop_idle (hsettled : s.settled = true) (hempty : s.resources = ∅) (fault : Bool) :
    (s.beginStop fault).1.owner = false ∧ (s.beginStop fault).2.resources = ∅ ∧
      ((s.beginStop fault).2.phase = s.phase ∨ (s.beginStop fault).2.phase = .fault) := by
  have hstopping : s.phase ≠ .stopping := by
    intro h
    unfold settled at hsettled
    rw [h] at hsettled
    cases hsettled
  have hcond : ({ s with faultPending := s.faultPending || fault }.settled &&
      decide (s.resources = ∅)) = true := by
    rw [Bool.and_eq_true, decide_eq_true_iff]
    exact ⟨hsettled, hempty⟩
  unfold beginStop
  dsimp only
  rw [if_neg hstopping, if_pos hcond]
  refine ⟨rfl, ?_, ?_⟩
  · split <;> exact hempty
  · split
    · exact .inr rfl
    · exact .inl rfl

end Coordinator

namespace Session

variable {s : Session}

@[simp] theorem release_coordinator (origin : Origin) : (s.release origin).coordinator = s.coordinator := rfl

@[simp] theorem publishPhase_coordinator (phase : Phase) (message : String) :
    (s.publishPhase phase message).coordinator = s.coordinator := by
  cases phase <;> rfl

@[simp] theorem publishPhase_measuring (phase : Phase) (message : String) :
    (s.publishPhase phase message).measuring = s.measuring := by
  cases phase <;> rfl

@[simp] theorem publishPhase_workers (phase : Phase) (message : String) :
    (s.publishPhase phase message).workers = s.workers := by
  cases phase <;> rfl

@[simp] theorem publishPhase_actor (phase : Phase) (message : String) :
    (s.publishPhase phase message).actor = s.actor := by
  cases phase <;> rfl

@[simp] theorem publishPhase_acquire (phase : Phase) (message : String) :
    (s.publishPhase phase message).published.acquire = if phase = .starting ∨ phase = .running then 1 else 0 := by
  cases phase <;> rfl

/-- A session whose port has come to rest. -/
theorem consistent_release (hmeasuring : s.measuring = true → .remoteMeasurement ∈ s.coordinator.resources)
    (hacquire : s.published.acquire = if s.coordinator.monitoring then 1 else 0) (hrest : s.Rest)
    (origin : Origin) : (s.release origin).Consistent :=
  ⟨hmeasuring, hacquire, hrest⟩

theorem settled_iff (c : Coordinator) : c.settled = true ↔ c.phase = .idle ∨ c.phase = .fault := by
  unfold Coordinator.settled
  rw [Bool.or_eq_true, decide_eq_true_iff, decide_eq_true_iff]

/-- At rest with nothing held, no worker is on a run. -/
theorem Rest.workers (h : s.Rest) (hsettled : s.coordinator.settled = true) : s.workers = ∅ := by
  unfold Rest at h
  obtain hidle | hfault := (settled_iff _).1 hsettled
  · rw [hidle] at h
    exact h.2
  · rw [hfault] at h
    exact h.2

/-- A stop that owns no cleanup publishes the phase it settles in. -/
theorem stop_settled {fault : Bool} {reason : String} {origin : Origin}
    (howner : (s.coordinator.beginStop fault).1.owner = false)
    (hsettles : (s.coordinator.beginStop fault).2.phase = .idle ∨
      (s.coordinator.beginStop fault).2.phase = .fault) (hacquire : s.published.acquire = 0) :
    ((s.beginStopAcquisition fault reason origin).coordinator = (s.coordinator.beginStop fault).2 ∧
      (s.beginStopAcquisition fault reason origin).workers = s.workers ∧
      (s.beginStopAcquisition fault reason origin).measuring = s.measuring ∧
      (s.beginStopAcquisition fault reason origin).actor = .free) ∧
      (s.beginStopAcquisition fault reason origin).published.acquire = 0 := by
  unfold beginStopAcquisition
  dsimp only
  rw [if_neg (by rw [howner]; decide)]
  obtain hidle | hfault := hsettles
  · rw [hidle]
    exact ⟨⟨rfl, rfl, rfl, rfl⟩, rfl⟩
  · rw [hfault]
    by_cases hreason : reason = ""
    · dsimp only
      rw [if_neg (not_not_intro hreason)]
      exact ⟨⟨rfl, rfl, rfl, rfl⟩, hacquire⟩
    · dsimp only
      rw [if_pos hreason]
      exact ⟨⟨rfl, rfl, rfl, rfl⟩, rfl⟩

/-- What a stop begins: the cleanup of what is held, or nothing. -/
theorem stop_cases (hacquire : s.published.acquire = if s.coordinator.monitoring then 1 else 0)
    (hphase : s.coordinator.phase = .starting ∨ s.Rest) {fault : Bool} {reason : String} {origin : Origin}
    {t : Session} (ht : s.beginStopAcquisition fault reason origin = t) :
    t.published.acquire = 0 ∧ t.coordinator.resources = s.coordinator.resources ∧ t.workers = s.workers ∧
      t.measuring = s.measuring ∧
      ((t.coordinator.phase = .stopping ∧ ∃ job : Cleanup, t.actor = job.first ∧
          (job.hadRemote = true ↔ .remoteMeasurement ∈ s.coordinator.resources)) ∨
        ((t.coordinator.phase = .idle ∨ t.coordinator.phase = .fault) ∧ t.actor = .free ∧
          s.coordinator.resources = ∅ ∧ s.workers = ∅)) := by
  have hnot : s.coordinator.phase ≠ .stopping := by
    intro h
    obtain hstarting | hrest := hphase
    · rw [h] at hstarting
      cases hstarting
    · unfold Rest at hrest
      rw [h] at hrest
      exact hrest
  by_cases hheld : s.coordinator.settled ∧ s.coordinator.resources = ∅
  · obtain ⟨howner, hempty, hsettles⟩ := Coordinator.beginStop_idle hheld.1 hheld.2 fault
    have hsettled := (settled_iff _).1 hheld.1
    have hrest : s.Rest := hphase.resolve_left fun hstarting => by
      rw [hstarting] at hsettled
      obtain hidle | hfault := hsettled
      · cases hidle
      · cases hfault
    have hacquire' : s.published.acquire = 0 := by
      rw [hacquire, if_neg]
      unfold Coordinator.monitoring
      obtain hidle | hfault := hsettled
      · rw [hidle]
        decide
      · rw [hfault]
        decide
    have hsettles' : (s.coordinator.beginStop fault).2.phase = .idle ∨
        (s.coordinator.beginStop fault).2.phase = .fault := by
      obtain hsame | hfault := hsettles
      · rw [hsame]
        exact hsettled
      · exact .inr hfault
    have hresources : (s.coordinator.beginStop fault).2.resources = s.coordinator.resources :=
      hempty.trans hheld.2.symm
    obtain ⟨⟨hcoordinator, hworkers, hmeasuring, hactor⟩, hpublished⟩ :=
      @stop_settled s fault reason origin howner hsettles' hacquire'
    rw [ht] at hcoordinator hworkers hmeasuring hactor hpublished
    rw [hcoordinator]
    exact ⟨hpublished, hresources, hworkers, hmeasuring,
      .inr ⟨hsettles', hactor, hheld.2, hrest.workers hheld.1⟩⟩
  · obtain ⟨howner, hsnapshot, hstopping, hresources⟩ := Coordinator.beginStop_owner hnot hheld fault
    have hhad : Snapshot.has ⟨.stopping, s.coordinator.resources⟩ .remoteMeasurement = true ↔
        .remoteMeasurement ∈ s.coordinator.resources := decide_eq_true_iff
    unfold beginStopAcquisition at ht
    dsimp only at ht
    rw [if_pos howner, hsnapshot] at ht
    subst ht
    exact ⟨rfl, hresources, rfl, rfl, .inl ⟨hstopping, _, rfl, hhad⟩⟩

/-- Wherever it is called, a stop leaves a consistent session. -/
theorem consistent_stop (hmeasuring : s.measuring = true → .remoteMeasurement ∈ s.coordinator.resources)
    (hacquire : s.published.acquire = if s.coordinator.monitoring then 1 else 0)
    (hphase : s.coordinator.phase = .starting ∨ s.Rest) (fault : Bool) (reason : String) (origin : Origin) :
    (s.beginStopAcquisition fault reason origin).Consistent := by
  obtain ⟨hpublished, hresources, hworkers, hm, hcases⟩ :=
    stop_cases hacquire hphase (Eq.refl (s.beginStopAcquisition fault reason origin))
  refine ⟨fun h => hresources ▸ hmeasuring (hm ▸ h), ?_, ?_⟩
  · rw [hpublished, Coordinator.monitoring]
    obtain ⟨hstopping, -⟩ | ⟨hidle | hfault, -⟩ := hcases
    · rw [hstopping]
      rfl
    · rw [hidle]
      rfl
    · rw [hfault]
      rfl
  · obtain ⟨hstopping, job, hactor, hhad⟩ | ⟨hsettled, hactor, hempty, hidle⟩ := hcases
    · rw [hactor]
      exact Cleanup.first_consistent ⟨hstopping, hresources ▸ hhad⟩
    · rw [hactor]
      show Rest _
      unfold Rest
      rw [hresources, hworkers, hempty, hidle]
      obtain hphase' | hphase' := hsettled
      · rw [hphase']
        exact ⟨rfl, rfl⟩
      · rw [hphase']
        exact ⟨Finset.empty_subset _, rfl⟩

/-- A failed start is rolled back to a consistent session. -/
theorem consistent_rollback (hmeasuring : s.measuring = true → .remoteMeasurement ∈ s.coordinator.resources)
    (hacquire : s.published.acquire = if s.coordinator.monitoring then 1 else 0)
    (hphase : s.coordinator.phase = .starting) (message : String) : (s.rollback message).Consistent :=
  consistent_stop hmeasuring hacquire (.inl hphase) true message .rollback

theorem Rest.congr {t : Session} (h : s.Rest) (hcoordinator : t.coordinator = s.coordinator)
    (hempty : s.workers = ∅ → t.workers = ∅) : t.Rest := by
  unfold Rest at h ⊢
  rw [hcoordinator]
  cases hphase : s.coordinator.phase with
  | idle =>
    rw [hphase] at h
    exact ⟨h.1, hempty h.2⟩
  | running =>
    rw [hphase] at h
    exact h
  | fault =>
    rw [hphase] at h
    exact ⟨h.1, hempty h.2⟩
  | starting =>
    rw [hphase] at h
    exact h
  | stopping =>
    rw [hphase] at h
    exact h

namespace Consistent

/-- Only these fields matter. -/
theorem congr {t : Session} (h : s.Consistent) (hcoordinator : t.coordinator = s.coordinator)
    (hacquire : t.published.acquire = s.published.acquire) (hactor : t.actor = s.actor)
    (hworkers : t.workers ⊆ s.workers) (hmeasuring : t.measuring = true → s.measuring = true) :
    t.Consistent where
  measuring ht := hcoordinator ▸ h.measuring (hmeasuring ht)
  acquire := by
    rw [hacquire, hcoordinator]
    exact h.acquire
  actor := by
    have hempty (hs : s.workers = ∅) : t.workers = ∅ := Finset.subset_empty.1 (hs ▸ hworkers)
    have hh := h.actor
    rw [hactor]
    cases hcase : s.actor with
    | free =>
      rw [hcase] at hh
      exact Rest.congr hh hcoordinator hempty
    | asking job stopSucceeded =>
      rw [hcase] at hh
      obtain ⟨hcleaning, hworkers⟩ := hh
      unfold Cleaning at hcleaning
      refine ⟨?_, hempty hworkers⟩
      unfold Cleaning
      rw [hcoordinator]
      exact hcleaning
    | finishing job stopSucceeded remoteStopped =>
      rw [hcase] at hh
      obtain ⟨hcleaning, hworkers, hstopped⟩ := hh
      unfold Cleaning at hcleaning
      refine ⟨?_, hempty hworkers, fun hremote => ?_⟩
      · unfold Cleaning
        rw [hcoordinator]
        exact hcleaning
      · have hfalse := hstopped hremote
        cases hm : t.measuring with
        | false => rfl
        | true =>
          rw [hmeasuring hm] at hfalse
          cases hfalse
    | clearing | stoppingPrior | askingPrior | stoppingPriorAgain | freeingPorts | startingRemote
    | rotatingPorts | startingRemoteAgain | syncing | startingWorkers | sending | committing
    | stoppingRemote | draining | joining =>
      rw [hcase] at hh
      simp only [Actor.Consistent, Held, Cleaning] at hh ⊢
      rw [hcoordinator]
      exact hh

/-- To publish the phase as it is changes nothing. -/
theorem publishPhase_self (h : s.Consistent) (message : String) :
    (s.publishPhase s.coordinator.phase message).Consistent := by
  refine h.congr (publishPhase_coordinator _ _) ?_ (publishPhase_actor _ _) ?_ ?_
  · rw [publishPhase_acquire, h.acquire]
    unfold Coordinator.monitoring
    simp only [Bool.or_eq_true, decide_eq_true_eq]
  · rw [publishPhase_workers]
  · rw [publishPhase_measuring]
    exact id

theorem rest (h : s.Consistent) (hfree : s.actor = .free) : s.Rest := by
  have hactor := h.actor
  rwa [hfree] at hactor

theorem acquireStart (h : s.Consistent) : s.acquireStart.Consistent := by
  unfold Session.acquireStart
  by_cases hrefused : !s.coordinator.settled || decide (s.coordinator.resources ≠ ∅)
  · have hbegin : s.coordinator.beginStart = (false, s.coordinator) := if_pos hrefused
    rw [hbegin]
    exact h.publishPhase_self _
  · have hbegin : s.coordinator.beginStart =
        (true, { s.coordinator with phase := .starting, faultPending := false }) := if_neg hrefused
    rw [hbegin]
    exact ⟨h.measuring, rfl, rfl⟩

theorem writeAcquire (h : s.Consistent) (hfree : s.actor = .free) (value : Int) :
    (s.writeAcquire value).Consistent := by
  unfold Session.writeAcquire
  dsimp only
  split
  · exact h.acquireStart
  · split
    · exact consistent_stop h.measuring h.acquire (.inr (h.rest hfree)) false "" .client
    · exact h

theorem writeConfiguration (h : s.Consistent) (hfree : s.actor = .free) :
    s.writeConfiguration.Consistent := by
  unfold Session.writeConfiguration
  split
  · exact consistent_stop h.measuring h.acquire (.inr (h.rest hfree)) false "" .client
  · exact h

/-! ### The start -/

theorem clear (h : s.Consistent) (hphase : s.coordinator.phase = .starting) (conflict : Bool) :
    (s.clear conflict).Consistent := by
  unfold Session.clear
  dsimp only
  split
  · exact consistent_rollback (s := { s with workers := ∅ }) h.measuring h.acquire hphase _
  · exact ⟨h.measuring, h.acquire, hphase⟩

/-- A session that is in the start at `actor`, where Serval may have stopped. -/
theorem start_at (h : s.Consistent) (actor : Actor)
    (hactor : ∀ t : Session, t.coordinator = s.coordinator → actor.Consistent t) (took : Bool) :
    { s.stopRequest took with actor := actor }.Consistent := by
  refine ⟨fun hm => h.measuring ?_, h.acquire, hactor _ rfl⟩
  have hand : (s.measuring && !took) = true := hm
  exact (Bool.and_eq_true_iff.1 hand).1

theorem askedPrior (h : s.Consistent) (hphase : s.coordinator.phase = .starting) (reply : Reply) :
    (s.askedPrior reply).Consistent := by
  cases reply with
  | ok status =>
    unfold Session.askedPrior
    dsimp only
    split
    · exact ⟨h.measuring, h.acquire, hphase⟩
    · exact ⟨h.measuring, h.acquire, hphase⟩
  | failed => exact ⟨h.measuring, h.acquire, hphase⟩
  | invalid => exact ⟨h.measuring, h.acquire, hphase⟩

/-- A resource more in a start. -/
theorem noted (h : s.Consistent) (resource : Resource) :
    s.measuring = true → .remoteMeasurement ∈ insert resource s.coordinator.resources :=
  fun hm => Finset.mem_insert_of_mem (h.measuring hm)

theorem portsFreed (h : s.Consistent) (hphase : s.coordinator.phase = .starting) (ok : Bool) :
    (s.portsFreed ok).Consistent := by
  unfold Session.portsFreed
  cases ok with
  | false => exact consistent_rollback h.measuring h.acquire hphase _
  | true =>
    rw [Coordinator.noteResource_starting hphase]
    exact ⟨h.noted .remoteMeasurement, h.acquire, hphase, Finset.mem_insert_self _ _⟩

theorem startedRemote (h : s.Consistent) (hheld : s.Held) (took again : Bool) (reply : StartReply) :
    ((s.startRequest took).startedRemote again reply).Consistent := by
  have hmeasuring : (s.startRequest took).measuring = true → .remoteMeasurement ∈ s.coordinator.resources :=
    fun _ => hheld.2
  cases reply with
  | ok => exact ⟨hmeasuring, h.acquire, hheld⟩
  | portConflict =>
    cases again with
    | true => exact consistent_rollback hmeasuring h.acquire hheld.1 _
    | false => exact ⟨hmeasuring, h.acquire, hheld⟩
  | failed => exact consistent_rollback hmeasuring h.acquire hheld.1 _

theorem portsRotated (h : s.Consistent) (hheld : s.Held) (ok : Bool) : (s.portsRotated ok).Consistent := by
  cases ok with
  | true => exact ⟨h.measuring, h.acquire, hheld⟩
  | false => exact consistent_rollback h.measuring h.acquire hheld.1 _

theorem startedWorker (h : s.Consistent) (hheld : s.Held) (channel : Channel) (left : List Channel)
    (readiness : Readiness) : (s.startedWorker channel left readiness).Consistent := by
  have hnote := Coordinator.noteResource_starting hheld.1 channel.resource
  cases readiness with
  | invalidPath => exact consistent_rollback h.measuring h.acquire hheld.1 _
  | notStarted => exact consistent_rollback h.measuring h.acquire hheld.1 _
  | notConnected =>
    unfold Session.startedWorker
    dsimp only
    rw [hnote]
    refine consistent_rollback ?_ ?_ ?_ _
    · exact h.noted channel.resource
    · exact h.acquire
    · exact hheld.1
  | connected =>
    unfold Session.startedWorker
    dsimp only
    rw [hnote]
    exact ⟨h.noted channel.resource, h.acquire, hheld.1, Finset.mem_insert_of_mem hheld.2⟩

theorem sent (h : s.Consistent) (hheld : s.Held) (ok : Bool) : (s.sent ok).Consistent := by
  cases ok with
  | true => exact ⟨h.measuring, h.acquire, hheld⟩
  | false => exact consistent_rollback h.measuring h.acquire hheld.1 _

theorem commit_eq (hheld : s.Held) :
    s.commit = { s with
      coordinator := { s.coordinator with
        phase := .running
        resources := insert .monitorThread s.coordinator.resources }
      published := ⟨1, .acquire, "Acquisition running"⟩
      actor := .free } := by
  have hrequired : Coordinator.required ⊆ insert Resource.monitorThread s.coordinator.resources := by
    unfold Coordinator.required
    intro r hr
    obtain rfl | hr := Finset.mem_insert.1 hr
    · exact Finset.mem_insert_of_mem hheld.2
    · rw [Finset.mem_singleton.1 hr]
      exact Finset.mem_insert_self _ _
  unfold Session.commit
  rw [Coordinator.noteResource_starting hheld.1]
  dsimp only
  rw [if_pos rfl, Coordinator.commitStart_starting
    (s := { s.coordinator with resources := insert Resource.monitorThread s.coordinator.resources }) hheld.1
    hrequired]
  rfl

theorem commit (h : s.Consistent) (hheld : s.Held) : s.commit.Consistent := by
  rw [commit_eq hheld]
  refine ⟨h.noted .monitorThread, rfl, ?_⟩
  show Coordinator.required ⊆ insert Resource.monitorThread s.coordinator.resources
  intro r hr
  obtain rfl | hr := Finset.mem_insert.1 hr
  · exact Finset.mem_insert_of_mem hheld.2
  · rw [Finset.mem_singleton.1 hr]
    exact Finset.mem_insert_self _ _

/-! ### The stop -/

theorem stoppedRemote (h : s.Consistent) {job : Cleanup} (hcleaning : s.Cleaning job) (took ok : Bool) :
    ((s.stopRequest took).stoppedRemote job ok).Consistent := by
  refine ⟨fun hm => h.measuring ?_, h.acquire, ?_⟩
  · have hand : (s.measuring && !took) = true := hm
    exact (Bool.and_eq_true_iff.1 hand).1
  · cases ok with
    | true => exact hcleaning
    | false => exact hcleaning

theorem joined (h : s.Consistent) {job : Cleanup} (hcleaning : s.Cleaning job) (stopSucceeded : Bool) :
    (s.joined job stopSucceeded).Consistent := by
  refine ⟨h.measuring, h.acquire, ?_⟩
  unfold Session.joined
  dsimp only
  cases hremote : job.hadRemote with
  | true => exact ⟨hcleaning, rfl⟩
  | false =>
    refine ⟨hcleaning, rfl, fun _ => ?_⟩
    show s.measuring = false
    by_contra hm
    have hhad := hcleaning.2.2 (h.measuring (Bool.eq_true_of_not_eq_false hm))
    rw [hremote] at hhad
    cases hhad

theorem asked (h : s.Consistent) {job : Cleanup} (hcleaning : s.Cleaning job) (hworkers : s.workers = ∅)
    (stopSucceeded : Bool) {reply : Reply} (hhonest : reply.Honest s.measuring) :
    (s.asked job stopSucceeded reply).Consistent := by
  cases reply with
  | ok status => exact ⟨h.measuring, h.acquire, hcleaning, hworkers, hhonest status rfl⟩
  | failed => exact ⟨h.measuring, h.acquire, hcleaning, hworkers, nofun⟩
  | invalid => exact ⟨h.measuring, h.acquire, hcleaning, hworkers, nofun⟩

/-- What is left of the resources, and whether the phase is a fault. -/
theorem finishStop_cases (c : Coordinator) (remoteStopped fault : Bool) :
    (c.finishStop remoteStopped fault).2.phase = (c.finishStop remoteStopped fault).1 ∧
      (c.finishStop remoteStopped fault).2.resources ⊆ {.remoteMeasurement} ∧
      (remoteStopped = false → .remoteMeasurement ∈ c.resources →
        .remoteMeasurement ∈ (c.finishStop remoteStopped fault).2.resources) ∧
      ((c.finishStop remoteStopped fault).1 = .fault ∨
        (c.finishStop remoteStopped fault).1 = .idle ∧ (c.finishStop remoteStopped fault).2.resources = ∅) := by
  unfold Coordinator.finishStop
  dsimp only
  refine ⟨rfl, ?_, ?_, ?_⟩
  · split
    · exact Finset.empty_subset _
    · exact Finset.inter_subset_right
  · intro hremote hmem
    rw [if_neg (by rw [hremote]; decide)]
    exact Finset.mem_inter.2 ⟨hmem, Finset.mem_singleton_self _⟩
  · by_cases hfault : (fault || c.faultPending ||
        decide ((if remoteStopped then ∅ else c.resources ∩ {Resource.remoteMeasurement}) ≠ ∅)) = true
    · exact .inl (if_pos hfault)
    · refine .inr ⟨if_neg hfault, ?_⟩
      rw [Bool.or_eq_true, decide_eq_true_iff, not_or, not_not] at hfault
      exact hfault.2

theorem finish (h : s.Consistent) {job : Cleanup} {remoteStopped : Bool} (hworkers : s.workers = ∅)
    (hstopped : remoteStopped = true → s.measuring = false) (stopSucceeded : Bool) :
    (s.finish job stopSucceeded remoteStopped).Consistent := by
  obtain ⟨hphase, hsubset, hkeeps, hcases⟩ := finishStop_cases s.coordinator remoteStopped job.fault
  have hmeasuring : s.measuring = true →
      .remoteMeasurement ∈ (s.coordinator.finishStop remoteStopped job.fault).2.resources := fun hm => by
    cases hremote : remoteStopped with
    | false => exact hremote ▸ hkeeps hremote (h.measuring hm)
    | true =>
      rw [hstopped hremote] at hm
      cases hm
  unfold Session.finish
  dsimp only
  obtain hfault | ⟨hidle, hempty⟩ := hcases
  · rw [if_pos hfault]
    refine consistent_release hmeasuring ?_ ?_ job.origin
    · rw [publishPhase_acquire, publishPhase_coordinator, Coordinator.monitoring, hphase, hfault]
      rfl
    · unfold Rest
      rw [publishPhase_coordinator, publishPhase_workers, hphase, hfault]
      exact ⟨hsubset, hworkers⟩
  · rw [if_neg (by rw [hidle]; decide)]
    refine consistent_release ?_ ?_ ?_ job.origin
    · rw [publishPhase_measuring, publishPhase_coordinator]
      exact hmeasuring
    · rw [publishPhase_acquire, publishPhase_coordinator, Coordinator.monitoring, hphase, hidle]
      rfl
    · unfold Rest
      rw [publishPhase_coordinator, publishPhase_workers, hphase, hidle]
      exact ⟨hempty, hworkers⟩

/-- Every step keeps a session consistent. -/
theorem step {t : Session} {e : Event} (h : s.Consistent) (hstep : Step s e t) : t.Consistent := by
  have hactor := h.actor
  cases hstep with
  | writeAcquire value hfree => exact h.writeAcquire hfree value
  | writeConfiguration hfree => exact h.writeConfiguration hfree
  | monitorStop hfree hposted => exact consistent_stop h.measuring h.acquire (.inr (h.rest hfree)) _ _ .monitor
  | cleared conflict hat =>
    rw [hat] at hactor
    exact h.clear hactor conflict
  | priorStopped took hat =>
    rw [hat] at hactor
    exact h.start_at .askingPrior (fun t ht => (congrArg Coordinator.phase ht).trans hactor) took
  | askedPrior reply hat =>
    rw [hat] at hactor
    exact h.askedPrior hactor reply
  | priorStoppedAgain took hat =>
    rw [hat] at hactor
    exact h.start_at .freeingPorts (fun t ht => (congrArg Coordinator.phase ht).trans hactor) took
  | portsFreed ok hat =>
    rw [hat] at hactor
    exact h.portsFreed hactor ok
  | started took reply hat =>
    rw [hat] at hactor
    exact h.startedRemote hactor took false reply
  | portsRotated ok hat =>
    rw [hat] at hactor
    exact h.portsRotated hactor ok
  | startedAgain took reply hat =>
    rw [hat] at hactor
    exact h.startedRemote hactor took true reply
  | synced channels hat =>
    rw [hat] at hactor
    exact ⟨h.measuring, h.acquire, hactor⟩
  | worker readiness hat hparsed =>
    rw [hat] at hactor
    exact h.startedWorker hactor _ _ readiness
  | allReady hat =>
    rw [hat] at hactor
    exact ⟨h.measuring, h.acquire, hactor⟩
  | sent ok hat =>
    rw [hat] at hactor
    exact h.sent hactor ok
  | commit hat =>
    rw [hat] at hactor
    exact h.commit hactor
  | stopped took ok hat =>
    rw [hat] at hactor
    exact h.stoppedRemote hactor took ok
  | drained hat =>
    rw [hat] at hactor
    exact ⟨h.measuring, h.acquire, hactor⟩
  | joined hat =>
    rw [hat] at hactor
    exact h.joined hactor _
  | asked reply hat hhonest =>
    rw [hat] at hactor
    exact h.asked hactor.1 hactor.2 _ hhonest
  | finish hat =>
    rw [hat] at hactor
    exact h.finish hactor.2.1 hactor.2.2 _
  | forwarded hstarted => exact h.congr rfl rfl rfl subset_rfl id
  | woke hmonitor hwoken => exact h.congr rfl rfl rfl subset_rfl id
  | settled hmonitor hphase => exact h.congr rfl rfl rfl subset_rfl id
  | gaveUp hmonitor => exact h.congr rfl rfl rfl subset_rfl id
  | polled reply hmonitor => cases reply <;> exact h.congr rfl rfl rfl subset_rfl id
  | checked hmonitor => exact h.congr rfl rfl rfl subset_rfl id
  | slept hmonitor => exact h.congr rfl rfl rfl subset_rfl id
  | statusRead servalOk detOk hpolled => exact h.congr rfl rfl rfl subset_rfl id
  | statusWritten hfree hpolled => exact h.congr rfl rfl rfl subset_rfl id
  | measurementEnded => exact h.congr rfl rfl rfl subset_rfl nofun
  | workerEnded channel => exact h.congr rfl rfl rfl (Finset.erase_subset _ _) id

theorem init : Session.init.Consistent := ⟨nofun, rfl, rfl, rfl⟩

/-- No call of the start that the coordinator could refuse is refused. -/
theorem not_cancelled (h : s.Consistent) :
    (s.actor = .freeingPorts → (s.coordinator.noteResource .remoteMeasurement).1 = true) ∧
      (∀ channel left, s.actor = .startingWorkers (channel :: left) →
        (s.coordinator.noteResource channel.resource).1 = true) ∧
      (s.actor = .committing → s.commit.coordinator.phase = .running) := by
  have hactor := h.actor
  refine ⟨fun hat => ?_, fun channel left hat => ?_, fun hat => ?_⟩
  · rw [hat] at hactor
    rw [Coordinator.noteResource_starting hactor]
  · rw [hat] at hactor
    rw [Coordinator.noteResource_starting hactor.1]
  · rw [hat] at hactor
    rw [commit_eq hactor]

end Consistent

end Session

/-- **Consistency**: in every reachable state Serval takes data only while its measurement is held, Acquire
is published as the phase says, a port in no call is at rest, and no start is cancelled. -/
theorem reachable_consistent {s : Session} (h : AcquisitionSystem.Reachable s) :
    (s.measuring = true → .remoteMeasurement ∈ s.coordinator.resources) ∧
      (s.published.acquire = if s.coordinator.phase = .starting ∨ s.coordinator.phase = .running then 1 else 0) ∧
      (s.actor = .free → s.Rest) ∧
      (s.actor = .freeingPorts → (s.coordinator.noteResource .remoteMeasurement).1 = true) ∧
      (∀ channel left, s.actor = .startingWorkers (channel :: left) →
        (s.coordinator.noteResource channel.resource).1 = true) ∧
      (s.actor = .committing → s.commit.coordinator.phase = .running) := by
  have hconsistent : s.Consistent :=
    h.invariant (fun t ht => (show t = .init from ht) ▸ .init) fun t e t' ht hstep => ht.step hstep
  refine ⟨hconsistent.measuring, ?_, hconsistent.rest, hconsistent.not_cancelled⟩
  rw [hconsistent.acquire]
  unfold Coordinator.monitoring
  simp only [Bool.or_eq_true, decide_eq_true_eq]

/-- Serval has the start request, but the replies to it and to the stop are lost. -/
theorem reachable_consistent_lost : ∃ s, AcquisitionSystem.Reachable s ∧ s.coordinator.phase = .fault ∧
    s.measuring = true ∧ .remoteMeasurement ∈ s.coordinator.resources ∧ s.published.acquire = 0 ∧ s.Rest := by
  let job : Cleanup := ⟨true, "Failed to start acquisition", .rollback, true⟩
  have h0 : AcquisitionSystem.Reachable .init := .init rfl
  have h1 := h0.step (.writeAcquire 1 rfl)
  have h2 := h1.step (.cleared false (by decide))
  have h3 := h2.step (.priorStopped true (by decide))
  have h4 := h3.step (.askedPrior .failed (by decide))
  have h5 := h4.step (.portsFreed true (by decide))
  have h6 := h5.step (.started true .failed (by decide))
  have h7 := h6.step (@Step.stopped _ job false false (by decide))
  have h8 := h7.step (@Step.joined _ job false (by decide))
  have h9 := h8.step (@Step.asked _ job false .failed (by decide) (by decide))
  have h10 := h9.step (@Step.finish _ job false false (by decide))
  obtain ⟨hmeasuring, hacquire, hrest, -⟩ := reachable_consistent h10
  exact ⟨_, h10, by decide, by decide, hmeasuring (by decide), hacquire.trans (by decide), hrest (by decide)⟩

/-! ## Every running acquisition is watched -/

/-- The monitor is at work, or will be woken. -/
def Session.Watched (s : Session) : Prop := 0 < s.started ∨ s.woken = true ∨ s.monitor ≠ .waiting

/-- The monitor does not give up on a start that is over, nor in the moment between its wake-up and the
commit. -/
def Prompt (s : Session) (e : Event) : Prop :=
  e = .settled true → s.coordinator.phase ≠ .running ∧ s.actor ≠ .committing

/-- Nothing runs, or is about to, without a monitor. -/
def Session.Guarded (s : Session) : Prop :=
  s.coordinator.phase = .running ∨ s.actor = .committing → s.Watched

namespace Session

variable {s : Session}

theorem guarded_of_starting (hphase : s.coordinator.phase = .starting) (hactor : s.actor ≠ .committing) :
    s.Guarded := by
  rintro (hrunning | hcommitting)
  · rw [hphase] at hrunning
    cases hrunning
  · exact absurd hcommitting hactor

/-- A stop leaves nothing running. -/
theorem guarded_stop (hacquire : s.published.acquire = if s.coordinator.monitoring then 1 else 0)
    (hphase : s.coordinator.phase = .starting ∨ s.Rest) (fault : Bool) (reason : String) (origin : Origin) :
    (s.beginStopAcquisition fault reason origin).Guarded := by
  obtain ⟨-, -, -, -, hcases⟩ :=
    stop_cases hacquire hphase (Eq.refl (s.beginStopAcquisition fault reason origin))
  rintro (hrunning | hcommitting)
  · obtain ⟨hstopping, -⟩ | ⟨hidle | hfault, -⟩ := hcases
    · rw [hstopping] at hrunning
      cases hrunning
    · rw [hidle] at hrunning
      cases hrunning
    · rw [hfault] at hrunning
      cases hrunning
  · obtain ⟨-, job, hactor, -⟩ | ⟨-, hactor, -⟩ := hcases
    · rw [hactor] at hcommitting
      unfold Cleanup.first at hcommitting
      split at hcommitting <;> cases hcommitting
    · rw [hactor] at hcommitting
      cases hcommitting

theorem guarded_rollback (hacquire : s.published.acquire = if s.coordinator.monitoring then 1 else 0)
    (hphase : s.coordinator.phase = .starting) (message : String) : (s.rollback message).Guarded :=
  guarded_stop hacquire (.inl hphase) true message .rollback

theorem finish_coordinator (job : Cleanup) (stopSucceeded remoteStopped : Bool) :
    (s.finish job stopSucceeded remoteStopped).coordinator =
      (s.coordinator.finishStop remoteStopped job.fault).2 := by
  unfold finish
  dsimp only
  split
  · rw [release_coordinator, publishPhase_coordinator]
  · rw [release_coordinator, publishPhase_coordinator]

/-- Nothing is running in a stop, nor behind it. -/
theorem guarded_of_stopping (hphase : s.coordinator.phase ≠ .running) (hactor : s.actor ≠ .committing) :
    s.Guarded := by
  rintro (hrunning | hcommitting)
  · exact absurd hrunning hphase
  · exact absurd hcommitting hactor

namespace Guarded

/-- Only these fields matter. -/
theorem congr {t : Session} (h : s.Guarded) (hcoordinator : t.coordinator = s.coordinator)
    (hactor : t.actor = s.actor) (hwatched : s.Watched → t.Watched) : t.Guarded := by
  intro ht
  rw [hcoordinator, hactor] at ht
  exact hwatched (h ht)

theorem acquireStart (h : s.Guarded) : s.acquireStart.Guarded := by
  unfold Session.acquireStart
  by_cases hrefused : !s.coordinator.settled || decide (s.coordinator.resources ≠ ∅)
  · have hbegin : s.coordinator.beginStart = (false, s.coordinator) := if_pos hrefused
    rw [hbegin]
    exact h.congr (publishPhase_coordinator _ _) (publishPhase_actor _ _) id
  · have hbegin : s.coordinator.beginStart =
        (true, { s.coordinator with phase := .starting, faultPending := false }) := if_neg hrefused
    rw [hbegin]
    exact guarded_of_starting rfl nofun

theorem writeAcquire (h : s.Guarded) (hc : s.Consistent) (hfree : s.actor = .free) (value : Int) :
    (s.writeAcquire value).Guarded := by
  unfold Session.writeAcquire
  dsimp only
  split
  · exact h.acquireStart
  · split
    · exact guarded_stop hc.acquire (.inr (hc.rest hfree)) false "" .client
    · exact h

theorem startedRemote (hc : s.Consistent) (hheld : s.Held) (took again : Bool) (reply : StartReply) :
    ((s.startRequest took).startedRemote again reply).Guarded := by
  cases reply with
  | ok => exact guarded_of_starting hheld.1 nofun
  | portConflict =>
    cases again with
    | true => exact guarded_rollback (s := s.startRequest took) hc.acquire hheld.1 _
    | false => exact guarded_of_starting hheld.1 nofun
  | failed => exact guarded_rollback (s := s.startRequest took) hc.acquire hheld.1 _

theorem startedWorker (hc : s.Consistent) (hheld : s.Held) (channel : Channel) (left : List Channel)
    (readiness : Readiness) : (s.startedWorker channel left readiness).Guarded := by
  have hnote := Coordinator.noteResource_starting hheld.1 channel.resource
  cases readiness with
  | invalidPath => exact guarded_rollback hc.acquire hheld.1 _
  | notStarted => exact guarded_rollback hc.acquire hheld.1 _
  | notConnected =>
    unfold Session.startedWorker
    dsimp only
    rw [hnote]
    refine guarded_rollback ?_ ?_ _
    · exact hc.acquire
    · exact hheld.1
  | connected =>
    unfold Session.startedWorker
    dsimp only
    rw [hnote]
    exact guarded_of_starting hheld.1 nofun

theorem step {t : Session} {e : Event} (h : s.Guarded) (hc : s.Consistent) (hstep : Step s e t)
    (hprompt : Prompt s e) : t.Guarded := by
  have hactor := hc.actor
  cases hstep with
  | writeAcquire value hfree => exact h.writeAcquire hc hfree value
  | writeConfiguration hfree =>
    unfold Session.writeConfiguration
    split
    · exact guarded_stop hc.acquire (.inr (hc.rest hfree)) false "" .client
    · exact h
  | monitorStop hfree hposted => exact guarded_stop hc.acquire (.inr (hc.rest hfree)) _ _ .monitor
  | cleared conflict hat =>
    rw [hat] at hactor
    unfold Session.clear
    dsimp only
    split
    · exact guarded_rollback (s := { s with workers := ∅ }) hc.acquire hactor _
    · exact guarded_of_starting hactor nofun
  | priorStopped took hat =>
    rw [hat] at hactor
    exact guarded_of_starting hactor nofun
  | askedPrior reply hat =>
    rw [hat] at hactor
    refine guarded_of_starting ?_ ?_
    · cases reply <;> exact hactor
    · cases reply with
      | ok status =>
        show (if isRunning status then Actor.stoppingPriorAgain else .freeingPorts) ≠ _
        split <;> nofun
      | failed => nofun
      | invalid => nofun
  | priorStoppedAgain took hat =>
    rw [hat] at hactor
    exact guarded_of_starting hactor nofun
  | portsFreed ok hat =>
    rw [hat] at hactor
    cases ok with
    | false => exact guarded_rollback hc.acquire hactor _
    | true =>
      unfold Session.portsFreed
      rw [Coordinator.noteResource_starting hactor]
      exact guarded_of_starting hactor nofun
  | started took reply hat =>
    rw [hat] at hactor
    exact startedRemote hc hactor took false reply
  | portsRotated ok hat =>
    rw [hat] at hactor
    cases ok with
    | true => exact guarded_of_starting hactor.1 nofun
    | false => exact guarded_rollback hc.acquire hactor.1 _
  | startedAgain took reply hat =>
    rw [hat] at hactor
    exact startedRemote hc hactor took true reply
  | synced channels hat =>
    rw [hat] at hactor
    exact guarded_of_starting hactor.1 nofun
  | worker readiness hat hparsed =>
    rw [hat] at hactor
    exact startedWorker hc hactor _ _ readiness
  | allReady hat =>
    rw [hat] at hactor
    exact guarded_of_starting hactor.1 nofun
  | sent ok hat =>
    rw [hat] at hactor
    cases ok with
    | true => exact fun _ => .inl (Nat.succ_pos _)
    | false => exact guarded_rollback hc.acquire hactor.1 _
  | commit hat =>
    -- the command sent before is still on its way, or has woken the monitor
    have hwatched := h (.inr hat)
    rw [hat] at hactor
    rw [Consistent.commit_eq hactor]
    exact fun _ => hwatched
  | stopped took ok hat =>
    rw [hat] at hactor
    refine guarded_of_stopping ?_ ?_
    · show s.coordinator.phase ≠ _
      rw [hactor.1]
      nofun
    · cases ok <;> nofun
  | drained hat =>
    rw [hat] at hactor
    refine guarded_of_stopping ?_ nofun
    show s.coordinator.phase ≠ _
    rw [hactor.1]
    nofun
  | joined hat =>
    rw [hat] at hactor
    refine guarded_of_stopping ?_ ?_
    · show s.coordinator.phase ≠ _
      rw [hactor.1]
      nofun
    · unfold Session.joined
      dsimp only
      split <;> nofun
  | asked reply hat hhonest =>
    rw [hat] at hactor
    refine guarded_of_stopping ?_ ?_
    · have hphase := hactor.1.1
      cases reply <;> (show s.coordinator.phase ≠ _; rw [hphase]; nofun)
    · cases reply <;> nofun
  | @finish job stopSucceeded remoteStopped hat =>
    obtain ⟨hphase, -, -, hcases⟩ := Consistent.finishStop_cases s.coordinator remoteStopped job.fault
    refine guarded_of_stopping ?_ nofun
    rw [finish_coordinator, hphase]
    obtain hfault | ⟨hidle, -⟩ := hcases
    · rw [hfault]
      nofun
    · rw [hidle]
      nofun
  | forwarded hstarted => exact h.congr rfl rfl fun _ => .inr (.inl rfl)
  | woke hmonitor hwoken => exact h.congr rfl rfl fun _ => .inr (.inr nofun)
  | settled hmonitor hphase =>
    rintro (hrunning | hcommitting)
    · have hrunning : s.coordinator.phase = .running := hrunning
      refine .inr (.inr ?_)
      show (if s.coordinator.phase = .running then Monitor.polling true else .waiting) ≠ _
      rw [if_pos hrunning]
      nofun
    · rw [show s.actor = .committing from hcommitting] at hactor
      exact absurd hactor.1 hphase
  | gaveUp hmonitor =>
    obtain ⟨hrunning, hcommitting⟩ := hprompt rfl
    exact guarded_of_stopping hrunning hcommitting
  | polled reply hmonitor =>
    cases reply with
    | ok status =>
      refine h.congr rfl rfl fun _ => .inr (.inr ?_)
      show (if isIdle status then Monitor.posted false "" else .checking) ≠ _
      split <;> nofun
    | failed => exact h.congr rfl rfl fun _ => .inr (.inr nofun)
    | invalid => exact h.congr rfl rfl fun _ => .inr (.inr nofun)
  | checked hmonitor =>
    rintro (hrunning | hcommitting)
    · have hmonitoring : s.coordinator.monitoring = true := by
        unfold Coordinator.monitoring
        rw [show s.coordinator.phase = .running from hrunning]
        rfl
      refine .inr (.inr ?_)
      show (if s.coordinator.monitoring then Monitor.sleeping else .waiting) ≠ _
      rw [if_pos hmonitoring]
      nofun
    · rw [show s.actor = .committing from hcommitting] at hactor
      have hmonitoring : s.coordinator.monitoring = true := by
        unfold Coordinator.monitoring
        rw [hactor.1]
        rfl
      refine .inr (.inr ?_)
      show (if s.coordinator.monitoring then Monitor.sleeping else .waiting) ≠ _
      rw [if_pos hmonitoring]
      nofun
  | slept hmonitor => exact h.congr rfl rfl fun _ => .inr (.inr nofun)
  | statusRead servalOk detOk hpolled => exact h.congr rfl rfl id
  | statusWritten hfree hpolled => exact h.congr rfl rfl id
  | measurementEnded => exact h.congr rfl rfl id
  | workerEnded channel => exact h.congr rfl rfl id

end Guarded

end Session

/-- **A running acquisition is watched**: its monitor is at work or will be woken, as long as no wake-up is
given up between the command and the commit. -/
theorem running_watched {s : Session} (h : (AcquisitionSystem.restrict Prompt).Reachable s)
    (hrunning : s.coordinator.phase = .running) : s.Watched := by
  have key : s.Consistent ∧ s.Guarded := by
    refine h.invariant (P := fun t => t.Consistent ∧ t.Guarded) ?_ ?_
    · rintro t rfl
      exact ⟨.init, Session.guarded_of_stopping nofun nofun⟩
    · rintro t e t' ⟨hc, hg⟩ ⟨hstep, hprompt⟩
      exact ⟨hc.step hstep, hg.step hc hstep hprompt⟩
  exact key.2 (.inl hrunning)

/-- A start with no stream, up to the commit. -/
theorem running_watched_start : ∃ s, (AcquisitionSystem.restrict Prompt).Reachable s ∧
    s.coordinator.phase = .running ∧ s.Watched := by
  let S := AcquisitionSystem.restrict Prompt
  have h0 : S.Reachable .init := .init rfl
  have h1 := h0.step ⟨.writeAcquire 1 rfl, nofun⟩
  have h2 := h1.step ⟨.cleared false (by decide), nofun⟩
  have h3 := h2.step ⟨.priorStopped true (by decide), nofun⟩
  have h4 := h3.step ⟨.askedPrior .failed (by decide), nofun⟩
  have h5 := h4.step ⟨.portsFreed true (by decide), nofun⟩
  have h6 := h5.step ⟨.started true .ok (by decide), nofun⟩
  have h7 := h6.step ⟨.synced [] (by decide), nofun⟩
  have h8 := h7.step ⟨.allReady (by decide), nofun⟩
  have h9 := h8.step ⟨.sent true (by decide), nofun⟩
  have h10 := h9.step ⟨.commit (by decide), nofun⟩
  exact ⟨_, h10, by decide, running_watched h10 (by decide)⟩

/-! ## The way back to a running acquisition -/

/-- The steps of the port and of a client, where Serval and the streams of `channels` answer. -/
def Event.Answered (channels : List Channel) : Event → Prop
  | .writeAcquire _ => True
  | .cleared conflict => conflict = false
  | .stopRequest took => took = true
  | .askedPrior reply => reply = .ok (some "DA_IDLE")
  | .portsFreed ok => ok = true
  | .started took reply => took = true ∧ reply = .ok
  | .synced chosen => chosen = channels
  | .worker readiness => readiness = .connected
  | .allReady => True
  | .sent ok => ok = true
  | .commit => True
  | .stopped took ok => took = true ∧ ok = true
  | .drained => True
  | .joined => True
  | .asked reply => reply = .ok (some "DA_IDLE")
  | .finish => True
  | _ => False

def Event.isWrite : Event → Bool
  | .writeAcquire _ => true
  | _ => false

/-- `events` lead from `s` to `t`, all answered, with these writes of a client. -/
def Answers (channels : List Channel) (writes : List Event) (s t : Session) : Prop :=
  ∃ events, AcquisitionSystem.Run s events t ∧ (∀ e ∈ events, e.Answered channels) ∧
    events.filter Event.isWrite = writes

namespace Answers

variable {channels : List Channel} {s t u : Session}

theorem refl (channels : List Channel) (s : Session) : Answers channels [] s s :=
  ⟨[], .nil s, nofun, rfl⟩

theorem trans {writes more : List Event} (h : Answers channels writes s t)
    (h' : Answers channels more t u) : Answers channels (writes ++ more) s u := by
  obtain ⟨es, hrun, hanswered, hwrites⟩ := h
  obtain ⟨fs, hrun', hanswered', hwrites'⟩ := h'
  refine ⟨es ++ fs, hrun.trans hrun', fun e he => ?_, ?_⟩
  · obtain he | he := List.mem_append.1 he
    · exact hanswered e he
    · exact hanswered' e he
  · rw [List.filter_append, hwrites, hwrites']

theorem write {value : Int} (hstep : Step s (.writeAcquire value) t) :
    Answers channels [.writeAcquire value] s t := by
  refine ⟨[.writeAcquire value], .single hstep, fun e he => ?_, rfl⟩
  obtain rfl := List.mem_singleton.1 he
  exact True.intro

/-- One step of the port, and the rest. -/
theorem cons {e : Event} (hstep : Step s e t) (hanswered : e.Answered channels)
    (hwrite : e.isWrite = false) {writes : List Event} (h : Answers channels writes t u) :
    Answers channels writes s u := by
  obtain ⟨es, hrun, hes, hwrites⟩ := h
  refine ⟨e :: es, .cons hstep hrun, fun e' he' => ?_, ?_⟩
  · obtain rfl | he' := List.mem_cons.1 he'
    · exact hanswered
    · exact hes e' he'
  · rw [List.filter_cons_of_neg (by rw [hwrite]; decide), hwrites]

end Answers

namespace Session

variable {s : Session}

/-- Every channel's stream connects. -/
theorem answers_workers (channels left : List Channel) (hactor : s.actor = .startingWorkers left)
    (hheld : s.Held) :
    ∃ t, Answers channels [] s t ∧ t.actor = .startingWorkers [] ∧ t.Held ∧ t.measuring = s.measuring := by
  induction left generalizing s with
  | nil => exact ⟨s, .refl channels s, hactor, hheld, rfl⟩
  | cons channel left ih =>
    have hnote := Coordinator.noteResource_starting hheld.1 channel.resource
    have hworker : s.startedWorker channel left .connected =
        { s with
          coordinator := { s.coordinator with resources := insert channel.resource s.coordinator.resources }
          workers := insert channel s.workers
          actor := .startingWorkers left } := by
      unfold startedWorker
      dsimp only
      rw [hnote]
      rfl
    have hstep : Step s (.worker .connected) (s.startedWorker channel left .connected) :=
      .worker .connected hactor nofun
    rw [hworker] at hstep
    obtain ⟨t, hanswers, hend, hheld', hmeasuring⟩ :=
      ih (s := { s with
        coordinator := { s.coordinator with resources := insert channel.resource s.coordinator.resources }
        workers := insert channel s.workers
        actor := .startingWorkers left }) rfl ⟨hheld.1, Finset.mem_insert_of_mem hheld.2⟩
    exact ⟨t, .cons hstep rfl rfl hanswers, hend, hheld', hmeasuring⟩

/-- With nothing held, a write of 1 begins a start. -/
theorem writeAcquire_one (hsettled : s.coordinator.settled = true) (hempty : s.coordinator.resources = ∅) :
    s.writeAcquire 1 = { s with
      coordinator := { s.coordinator with phase := .starting, faultPending := false }
      published := ⟨1, .acquire, "Starting acquisition..."⟩
      actor := .clearing } := by
  have hactive : s.coordinator.monitoring = false := by
    unfold Coordinator.monitoring
    obtain hidle | hfault := (settled_iff _).1 hsettled
    · rw [hidle]
      rfl
    · rw [hfault]
      rfl
  have hadmitted : ¬ (!s.coordinator.settled || decide (s.coordinator.resources ≠ ∅)) = true := by
    rw [hsettled, hempty]
    decide
  have hbegin : s.coordinator.beginStart =
      (true, { s.coordinator with phase := .starting, faultPending := false }) := if_neg hadmitted
  unfold writeAcquire
  dsimp only
  rw [hactive, if_pos (by decide)]
  unfold acquireStart
  rw [hbegin]
  rfl

/-- With nothing held, a write of 1 starts. -/
theorem answers_start (channels : List Channel) (hfree : s.actor = .free)
    (hsettled : s.coordinator.settled = true) (hempty : s.coordinator.resources = ∅) :
    ∃ t, Answers channels [.writeAcquire 1] s t ∧ t.actor = .free ∧ t.coordinator.phase = .running ∧
      t.published.acquire = 1 ∧ t.measuring = true := by
  have hwrite := Step.writeAcquire 1 hfree
  rw [writeAcquire_one hsettled hempty] at hwrite
  let s1 : Session := { s with
    coordinator := ⟨.starting, s.coordinator.resources, false⟩
    published := ⟨1, .acquire, "Starting acquisition..."⟩
    workers := ∅
    measuring := s.measuring && !true
    actor := .freeingPorts }
  let s2 : Session := { s1 with
    coordinator := ⟨.starting, insert .remoteMeasurement s.coordinator.resources, false⟩
    measuring := s1.measuring || true
    actor := .startingWorkers channels }
  obtain ⟨t, hworkers, hready, hheld, hmeasuring⟩ :=
    answers_workers (s := s2) channels channels rfl ⟨rfl, Finset.mem_insert_self _ _⟩
  let t1 : Session := { t with started := t.started + 1, actor := .committing }
  have hcommit : Step t1 .commit t1.commit := .commit rfl
  let t2 : Session := { t1 with
    coordinator := { t1.coordinator with
      phase := .running
      resources := insert .monitorThread t1.coordinator.resources }
    published := ⟨1, .acquire, "Acquisition running"⟩
    actor := .free }
  rw [Consistent.commit_eq (s := t1) hheld] at hcommit
  refine ⟨t2, (Answers.write hwrite).trans ?_, rfl, rfl, rfl, hmeasuring.trans (Bool.or_true _)⟩
  have hclear : Answers channels [] { s1 with
      workers := s.workers, measuring := s.measuring, actor := .clearing } s1 := by
    refine .cons (.cleared false rfl) rfl rfl ?_
    refine .cons (.priorStopped true rfl) rfl rfl ?_
    exact .cons (.askedPrior (.ok (some "DA_IDLE")) rfl) rfl rfl (.refl channels _)
  have hremote : Answers channels [] s1 s2 := by
    refine .cons (.portsFreed true rfl) rfl rfl ?_
    refine .cons (.started true .ok rfl) ⟨rfl, rfl⟩ rfl ?_
    refine .cons (.synced channels rfl) rfl rfl ?_
    exact .refl channels _
  have hsend : Answers channels [] t t2 := by
    refine .cons (.allReady hready) trivial rfl ?_
    refine .cons (.sent true rfl) rfl rfl ?_
    exact .cons hcommit trivial rfl (.refl channels _)
  exact hclear.trans (hremote.trans (hworkers.trans hsend))

/-- The last step of a stop that Serval has confirmed. -/
theorem answers_finish (channels : List Channel) {job : Cleanup} {stopSucceeded : Bool}
    (hactor : s.actor = .finishing job stopSucceeded true) :
    ∃ t, Answers channels [] s t ∧ t.actor = .free ∧ t.coordinator.settled = true ∧
      t.coordinator.resources = ∅ := by
  obtain ⟨hphase, -, -, hcases⟩ := Consistent.finishStop_cases s.coordinator true job.fault
  refine ⟨s.finish job stopSucceeded true, .cons (.finish hactor) trivial rfl (.refl channels _), rfl, ?_, ?_⟩
  · rw [finish_coordinator, settled_iff, hphase]
    obtain hfault | ⟨hidle, -⟩ := hcases
    · exact .inr hfault
    · exact .inl hidle
  · rw [finish_coordinator]
    unfold Coordinator.finishStop
    dsimp only
    rw [if_pos rfl]

/-- A cleanup to its end. -/
theorem answers_cleanup (channels : List Channel) {job : Cleanup} (hactor : s.actor = job.first) :
    ∃ t, Answers channels [] s t ∧ t.actor = .free ∧ t.coordinator.settled = true ∧
      t.coordinator.resources = ∅ := by
  cases hremote : job.hadRemote with
  | true =>
    have hfirst : s.actor = .stoppingRemote job := hactor.trans (if_pos hremote)
    let s1 : Session := { s with
      workers := ∅
      measuring := s.measuring && !true
      actor := .asking job true }
    have hhonest : Reply.Honest (.ok (some "DA_IDLE")) s1.measuring := fun _ _ _ => Bool.and_false _
    have hjoined : ({ s with measuring := s.measuring && !true, actor := .joining job true } : Session).joined
        job true = s1 := by
      unfold joined
      rw [if_pos hremote]
    obtain ⟨t, hanswers, hend⟩ := answers_finish channels
      (s := { s1 with actor := .finishing job true true }) rfl
    refine ⟨t, ?_, hend⟩
    refine .cons (.stopped true true hfirst) ⟨rfl, rfl⟩ rfl ?_
    refine .cons (.drained rfl) trivial rfl ?_
    refine .cons (.joined rfl) trivial rfl ?_
    show Answers channels [] (({ s with measuring := s.measuring && !true, actor := .joining job true } :
      Session).joined job true) t
    rw [hjoined]
    exact .cons (.asked (.ok (some "DA_IDLE")) rfl hhonest) rfl rfl hanswers
  | false =>
    have hfirst : s.actor = .joining job true := hactor.trans (if_neg (by rw [hremote]; decide))
    have hjoined : s.joined job true = { s with workers := ∅, actor := .finishing job true true } := by
      unfold joined
      rw [if_neg (by rw [hremote]; decide)]
    obtain ⟨t, hanswers, hend⟩ := answers_finish channels
      (s := { s with workers := ∅, actor := .finishing job true true }) rfl
    refine ⟨t, .cons (.joined hfirst) trivial rfl ?_, hend⟩
    rw [hjoined]
    exact hanswers

/-- A write of 0 lets go of everything. -/
theorem answers_stop (channels : List Channel) (hc : s.Consistent) (hfree : s.actor = .free) :
    ∃ t, Answers channels [.writeAcquire 0] s t ∧ t.actor = .free ∧ t.coordinator.settled = true ∧
      t.coordinator.resources = ∅ := by
  have hwrite := Step.writeAcquire 0 hfree
  have hrest := hc.rest hfree
  unfold writeAcquire at hwrite
  dsimp only at hwrite
  rw [if_neg fun h => h.1 rfl] at hwrite
  split at hwrite
  · obtain ⟨-, hresources, -, -, hcases⟩ := stop_cases hc.acquire (.inr hrest)
      (Eq.refl (s.beginStopAcquisition false "" .client))
    obtain ⟨-, job, hactor, -⟩ | ⟨hsettled, hactor, hempty, -⟩ := hcases
    · obtain ⟨t, hanswers, hend⟩ := answers_cleanup channels hactor
      exact ⟨t, (Answers.write hwrite).trans hanswers, hend⟩
    · exact ⟨_, Answers.write hwrite, hactor, (settled_iff _).2 hsettled, hresources.trans hempty⟩
  · rename_i hidle
    have hneeds : (s.coordinator.monitoring || decide (s.coordinator.resources ≠ ∅) ||
        decide (s.coordinator.phase = .stopping)) = false := Bool.eq_false_of_not_eq_true fun h => hidle ⟨rfl, h⟩
    rw [Bool.or_eq_false_iff, Bool.or_eq_false_iff, decide_eq_false_iff_not, not_not] at hneeds
    obtain ⟨⟨hmonitoring, hempty⟩, -⟩ := hneeds
    refine ⟨s, Answers.write hwrite, hfree, (settled_iff _).2 ?_, hempty⟩
    unfold Rest at hrest
    unfold Coordinator.monitoring at hmonitoring
    cases hphase : s.coordinator.phase with
    | idle => exact .inl rfl
    | fault => exact .inr rfl
    | running =>
      rw [hphase] at hmonitoring
      cases hmonitoring
    | starting =>
      rw [hphase] at hrest
      exact hrest.elim
    | stopping =>
      rw [hphase] at hrest
      exact hrest.elim

end Session

/-- **No dead end**: from wherever it is, a port whose requests are answered runs again after a write of 0
and a write of 1. -/
theorem recovers {s : Session} (h : AcquisitionSystem.Reachable s) (hfree : s.actor = .free)
    (channels : List Channel) :
    ∃ t, Answers channels [.writeAcquire 0, .writeAcquire 1] s t ∧ t.actor = .free ∧
      t.coordinator.phase = .running ∧ t.published.acquire = 1 ∧ t.measuring = true := by
  have hconsistent : s.Consistent :=
    h.invariant (fun t ht => (show t = .init from ht) ▸ .init) fun t e t' ht hstep => ht.step hstep
  obtain ⟨t, hstop, hfree', hsettled, hempty⟩ := Session.answers_stop channels hconsistent hfree
  obtain ⟨u, hstart, hend⟩ := Session.answers_start channels hfree' hsettled hempty
  exact ⟨u, hstop.trans hstart, hend⟩

/-- Out of the fault that a start with a trigger conflict ends in. -/
theorem recovers_fault : ∃ s t, AcquisitionSystem.Reachable s ∧ s.coordinator.phase = .fault ∧
    Answers [.prvImg, .prvHst] [.writeAcquire 0, .writeAcquire 1] s t ∧ t.actor = .free ∧
      t.coordinator.phase = .running ∧ t.published.acquire = 1 ∧ t.measuring = true := by
  let job : Cleanup := ⟨true, Session.mpx3TriggerMsg, .rollback, false⟩
  have h0 : AcquisitionSystem.Reachable .init := .init rfl
  have h1 := h0.step (.writeAcquire 1 rfl)
  have h2 := h1.step (.cleared true (by decide))
  have h3 := h2.step (@Step.joined _ job true (by decide))
  have h4 := h3.step (@Step.finish _ job true true (by decide))
  obtain ⟨t, ht⟩ := recovers h4 (by decide) [.prvImg, .prvHst]
  exact ⟨_, t, h4, by decide, ht⟩

end TimePix.Acquisition
