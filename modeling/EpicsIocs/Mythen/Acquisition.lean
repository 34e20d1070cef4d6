import EpicsIocs.Mythen.Driver

/-! # An acquisition and its own settings

The task serves a start until it has cleared `acquiring`, or sent its own `-stop`.  While it does
it may send another readout (`live`), with the length that it computed at the start.

    Clean run   →   every readout, setting and clearing of `acquiring` is of its own acquisition
                                                                      (acquisitions_apart)

`Clean` asks that a start finds the task done with the one before, and that a setting changes
neither read mode nor bit depth under a live task.  The code asks for neither: it tests
`acquiring` only, which a stop clears at once. -/

namespace Mythen

open Steps

/-! ## What a run should tell -/

/-- A readout is what the read mode and the bit depth in force ask for and of the latest start;
`acquiring` is cleared by a stop or by the loop of the latest start; a setting reaches a detector
that does not run. -/
def Event.Own : Event → Prop
  | .readout raw expect det device loop latest =>
    raw = decide (det.readMode = readModeRaw) ∧
      (∃ nmodules, det.nmodules? = some nmodules ∧
        expect = readoutLen det.readMode nmodules device.nbits) ∧
      loop = latest
  | .cleared .stop _ => True
  | .cleared (.loop id) latest => id = latest
  | .cleared .refusal _ => False
  | .setting _ device => device.running = false

/-! ## Where the task is -/

/-- The readout length is what is in force. -/
def Shot.Fits (det : DetState) (shot : Shot) : Prop :=
  det.nmodules? = some shot.nmodules ∧
    shot.expect = readoutLen det.readMode shot.nmodules det.nbits

namespace Task

/-- The start that it serves. -/
def serving : Task → Option Nat
  | .waiting => none
  | .loadMode id => some id
  | .loadNbits id _ => some id
  | .loadModules id _ _ => some id
  | .lenMode id _ _ _ => some id
  | .lenNbits id _ _ _ _ => some id
  | .acquireTime id _ => some id
  | .poll id _ _ _ => some id
  | .report id _ _ _ => some id
  | .head id _ _ => some id
  | .send id _ _ _ => some id
  | .reading id _ _ _ => some id
  | .publish id _ _ => some id
  | .check id _ _ => some id
  | .clear id _ => some id
  | .imageMode id status _ => if status = .error then some id else none
  | .abortStore id _ => some id
  | .abortSend id _ => some id
  | .refuse id => some id
  | .leaving _ => none

/-- It will send a readout before it tests `acquiring`. -/
def early : Task → Bool
  | .loadMode _ => true
  | .loadNbits _ _ => true
  | .loadModules _ _ _ => true
  | .lenMode _ _ _ _ => true
  | .lenNbits _ _ _ _ _ => true
  | .acquireTime _ _ => true
  | .poll _ _ first _ => first
  | .report _ _ first _ => first
  | .head _ _ _ => true
  | .send _ _ _ _ => true
  | _ => false

/-- It will test `acquiring` before it sends a readout. -/
def late : Task → Bool
  | .poll _ _ first _ => !first
  | .report _ _ first _ => !first
  | .reading _ _ _ _ => true
  | .publish _ _ _ => true
  | .check _ _ _ => true
  | _ => false

/-- Of an acquisition that ends with an error, it has cleared `acquiring` and not sent `-stop`. -/
def cutting : Task → Bool
  | .imageMode _ status cut => status = .error && cut
  | .abortStore _ cut => cut
  | .abortSend _ cut => cut
  | _ => false

def refused : Task → Bool
  | .refuse _ => true
  | _ => false

/-- The status that its loop goes by. -/
def status : Task → Option ADStatus
  | .report _ _ _ status => some status
  | .head _ _ status => some status
  | .send _ _ status _ => some status
  | .reading _ _ status _ => some status
  | .publish _ _ status => some status
  | .check _ _ status => some status
  | .clear _ status => some status
  | _ => none

/-- Why it leaves its loop, and that it has cleared `acquiring`. -/
def Leaves (det : DetState) : Task → Prop
  | .clear _ status => status = .error ∨ status = .idle ∨ det.acquiring = false
  | .imageMode _ status _ => status = .error → det.acquiring = false
  | .abortStore _ _ => det.acquiring = false
  | .abortSend _ _ => det.acquiring = false
  | _ => True

/-- What it computed is what is in force. -/
def Matches (det : DetState) : Task → Prop
  | .loadNbits _ readMode => readMode = det.readMode
  | .loadModules _ readMode nbits => readMode = det.readMode ∧ nbits = det.nbits
  | .lenMode _ _ _ nmodules => det.nmodules? = some nmodules
  | .lenNbits _ _ _ nmodules mode => det.nmodules? = some nmodules ∧ mode = det.readMode
  | .acquireTime _ shot => shot.Fits det
  | .poll _ shot _ _ => shot.Fits det
  | .report _ shot _ _ => shot.Fits det
  | .head _ shot _ => shot.Fits det
  | .send _ shot _ raw => shot.Fits det ∧ raw = decide (det.readMode = readModeRaw)
  | .reading _ shot _ _ => shot.Fits det
  | .publish _ shot _ => shot.Fits det
  | .check _ shot _ => shot.Fits det
  | _ => True

theorem serving_of_early {t : Task} (h : t.early = true) : t.serving ≠ none := by
  cases t <;> first | exact Option.some_ne_none _ | exact absurd h Bool.false_ne_true

theorem serving_of_late {t : Task} (h : t.late = true) : t.serving ≠ none := by
  cases t <;> first | exact Option.some_ne_none _ | exact absurd h Bool.false_ne_true

theorem serving_of_cutting {t : Task} (h : t.cutting = true) : t.serving ≠ none := by
  cases t with
  | imageMode id status cut =>
    obtain ⟨hstatus, -⟩ := Bool.and_eq_true_iff.1 h
    rw [serving, if_pos (of_decide_eq_true hstatus)]
    exact Option.some_ne_none _
  | _ => first | exact Option.some_ne_none _ | exact absurd h Bool.false_ne_true

theorem serving_of_status {t : Task} (h : t.status ≠ none) : t.serving ≠ none := by
  cases t <;> first | exact Option.some_ne_none _ | exact absurd rfl h

theorem matches_of_idle {t : Task} (det : DetState) (h : t.serving = none) : t.Matches det := by
  cases t <;> first | exact trivial | exact absurd h (Option.some_ne_none _)

/-- It is the read mode, the bit depth and the module count that it must match. -/
theorem Matches.congr {t : Task} {det det' : DetState} (h : t.Matches det)
    (hmode : det'.readMode = det.readMode) (hnbits : det'.nbits = det.nbits)
    (hmodules : det'.nmodules = det.nmodules) : t.Matches det' := by
  have hfits : ∀ shot : Shot, shot.Fits det → shot.Fits det' := by
    intro shot hshot
    unfold Shot.Fits DetState.nmodules? at *
    rw [hmode, hnbits, hmodules]
    exact hshot
  have hknown : det'.nmodules? = det.nmodules? := by
    unfold DetState.nmodules?
    rw [hmodules]
  cases t <;> simp only [Matches, hmode, hnbits, hknown] at h ⊢ <;>
    first
      | exact h
      | exact hfits _ h
      | exact ⟨hfits _ h.1, h.2⟩

end Task

/-- The task may send another readout for the starts so far. -/
def State.live (s : State) : Bool :=
  s.queue.isSome || s.task.early || (s.task.late && s.det.acquiring)

/-- Read mode or bit depth may become others. -/
def Write.changesReadout : Write → Bool
  | .readMode _ => true
  | .bitDepth _ => true
  | .reset => true
  | .setting value => settingsCommand value = .reset
  | _ => false

/-- A start that is accepted finds the task done with the one before, and the modules known; a
setting that is taken does not come between the task's clearing of `acquiring` and its `-stop`, and
leaves read mode and bit depth alone while the task is live. -/
def Clean (s : State) : Action → Bool
  | .write w =>
    w.isAcquire || s.det.acquiring || (!s.task.cutting && !(w.changesReadout && s.live))
  | .driver _ =>
    s.ops.head? != some .start || s.det.acquiring ||
      (s.queue.isNone && s.task.serving.isNone && s.det.nmodules?.isSome)
  | _ => true

/-! ## What holds between steps -/

/-- An operation of a setting. -/
def Op.isSetting : Op → Bool
  | .storeFrames _ => true
  | .command c => c.isSetting
  | .refreshSettings => true
  | .query _ => true
  | _ => false

def Op.changesDepth : Op → Bool
  | .command c => c.changesDepth
  | _ => false

/-- Every answer a detector gives to it goes on. -/
def Query.isPlain : Query → Bool
  | .flatFieldCorrection => true
  | .badChannelInterpolation => true
  | .rateCorrection => true
  | _ => false

/-- The operations read the bit depth back. -/
def readsDepth : List Op → Bool
  | [] => false
  | .refreshSettings :: _ => true
  | .query q :: ops => q = .nbits || q.isPlain && readsDepth ops
  | .storeFrames _ :: ops => readsDepth ops
  | .command _ :: ops => readsDepth ops
  | _ => false

/-- Operations of a setting, which read the bit depth back where they change it. -/
def Settles : List Op → Prop
  | [] => True
  | op :: ops => op.isSetting = true ∧ (op.changesDepth = true → readsDepth ops = true) ∧ Settles ops

/-- The task is done with every start, and what it will compute is in force. -/
structure Fresh (s : State) : Prop where
  queue : s.queue = none
  serving : s.task.serving = none
  mode : s.params.readMode = s.det.readMode
  nbits : s.det.nbits = s.device.nbits
  known : s.det.nmodules?.isSome = true

/-- What holds with these operations ahead. -/
inductive Port (s : State) : List Op → Prop
  | idle : Port s []
  | stopMode : Port s [.storeReadMode, .storeAcquiring false, .command .stop, .status 0]
  | stopFlag : Port s [.storeAcquiring false, .command .stop, .status 0]
  | stopSend : s.det.acquiring = false → Port s [.command .stop, .status 0]
  | stopStatus (waited : Nat) : Port s [.status waited]
  | startMode : Port s [.storeReadMode, .start]
  | startTest : s.params.readMode = s.det.readMode → Port s [.start]
  | startSend : Fresh s → s.det.acquiring = false → s.device.running = false →
      Port s [.command .start, .storeAcquiring true, .signal]
  | startFlag : Fresh s → Port s [.storeAcquiring true, .signal]
  | startSignal : Fresh s → Port s [.signal]
  | setting {ops : List Op} : Settles ops → s.det.acquiring = false → s.device.running = false →
      (s.live = true → ∀ op ∈ ops, op.changesDepth = false) → Port s ops

structure Inv (s : State) : Prop where
  queued : ∀ id, s.queue = some id → id = s.latest ∧ s.task.serving = none
  serving : ∀ id, s.task.serving = some id → id = s.latest
  served : s.task.refused = false
  known : s.live = true → s.det.nmodules?.isSome = true
  mode : s.live = true → s.params.readMode = s.det.readMode
  fits : s.live = true → s.task.Matches s.det
  depth : s.det.nbits = s.device.nbits ∨ s.live = false ∧ readsDepth s.ops = true
  ended : s.task.status = some .idle → s.device.running = false
  leaves : s.task.Leaves s.det
  running : s.device.running = true → s.det.acquiring = true ∨
    s.ops = [.storeAcquiring true, .signal] ∨ s.ops = [.command .stop, .status 0] ∨
      s.task.cutting = true
  port : Port s s.ops
  log : ∀ e ∈ s.log, e.Own

/-- Unless the port is starting or stopping it, the detector runs for an acquisition or for a task
on its way to stop it. -/
theorem Inv.held {s : State} (h : Inv s) (hstart : s.ops ≠ [.storeAcquiring true, .signal])
    (hstop : s.ops ≠ [.command .stop, .status 0]) (hrun : s.device.running = true) :
    s.det.acquiring = true ∨ s.task.cutting = true := by
  rcases h.running hrun with hacquiring | hform | hform | hcut
  · exact .inl hacquiring
  · exact absurd hform hstart
  · exact absurd hform hstop
  · exact .inr hcut

theorem live_of_idle {s : State} (hqueue : s.queue = none) (hserving : s.task.serving = none) :
    s.live = false := by
  have hearly : s.task.early = false :=
    Bool.eq_false_iff.2 fun h => Task.serving_of_early h hserving
  have hlate : s.task.late = false := Bool.eq_false_iff.2 fun h => Task.serving_of_late h hserving
  rw [State.live, hqueue, hearly, hlate]
  rfl

/-! ## Steps beside the port -/

/-- What a step of the task or of the detector leaves as it is, or as quiet as it was. -/
structure Quieter (s s' : State) : Prop where
  params : s'.params = s.params
  readMode : s'.det.readMode = s.det.readMode
  nbits : s'.det.nbits = s.det.nbits
  nmodules : s'.det.nmodules = s.det.nmodules
  depth : s'.device.nbits = s.device.nbits
  acquiring : s.det.acquiring = false → s'.det.acquiring = false
  running : s.device.running = false → s'.device.running = false
  idle : s.queue = none → s.task.serving = none → s'.queue = none ∧ s'.task.serving = none
  live : s'.live = true → s.live = true

theorem nmodules?_congr {det det' : DetState} (h : det'.nmodules = det.nmodules) :
    det'.nmodules? = det.nmodules? := by
  unfold DetState.nmodules?
  rw [h]

theorem Fresh.quieter {s s' : State} (h : Fresh s) (q : Quieter s s') : Fresh s' where
  queue := (q.idle h.queue h.serving).1
  serving := (q.idle h.queue h.serving).2
  mode := by rw [q.params, q.readMode, h.mode]
  nbits := by rw [q.nbits, q.depth, h.nbits]
  known := by rw [nmodules?_congr q.nmodules, h.known]

theorem Port.quieter {s s' : State} {ops : List Op} (h : Port s ops) (q : Quieter s s') :
    Port s' ops := by
  cases h with
  | idle => exact .idle
  | stopMode => exact .stopMode
  | stopFlag => exact .stopFlag
  | stopSend hacquiring => exact .stopSend (q.acquiring hacquiring)
  | stopStatus waited => exact .stopStatus waited
  | startMode => exact .startMode
  | startTest hmode => exact .startTest (by rw [q.params, q.readMode, hmode])
  | startSend hfresh hacquiring hrunning =>
    exact .startSend (hfresh.quieter q) (q.acquiring hacquiring) (q.running hrunning)
  | startFlag hfresh => exact .startFlag (hfresh.quieter q)
  | startSignal hfresh => exact .startSignal (hfresh.quieter q)
  | setting hsettles hacquiring hrunning hlive =>
    exact .setting hsettles (q.acquiring hacquiring) (q.running hrunning)
      fun h => hlive (q.live h)

/-- A step beside the port keeps what it leaves to the task. -/
theorem Inv.quieter {s s' : State} (h : Inv s) (q : Quieter s s') (hops : s'.ops = s.ops)
    (hqueued : ∀ id, s'.queue = some id → id = s'.latest ∧ s'.task.serving = none)
    (hserving : ∀ id, s'.task.serving = some id → id = s'.latest)
    (hserved : s'.task.refused = false) (hfits : s'.live = true → s'.task.Matches s'.det)
    (hended : s'.task.status = some .idle → s'.device.running = false)
    (hleaves : s'.task.Leaves s'.det)
    (hrunning : s'.device.running = true → s.device.running = true)
    (hcut : s'.device.running = true → s.det.acquiring = true ∨ s.task.cutting = true →
      s'.det.acquiring = true ∨ s'.task.cutting = true)
    (hlog : ∀ e ∈ s'.log, e.Own) : Inv s' where
  queued := hqueued
  serving := hserving
  served := hserved
  known hlive := by rw [nmodules?_congr q.nmodules, h.known (q.live hlive)]
  mode hlive := by rw [q.params, q.readMode, h.mode (q.live hlive)]
  fits := hfits
  depth := by
    obtain hequal | ⟨hquiet, hreads⟩ := h.depth
    · exact .inl (by rw [q.nbits, q.depth, hequal])
    · refine .inr ⟨?_, by rw [hops, hreads]⟩
      refine Bool.eq_false_iff.2 fun hlive => ?_
      rw [q.live hlive] at hquiet
      exact Bool.noConfusion hquiet
  ended := hended
  leaves := hleaves
  running hrun := by
    rw [hops]
    obtain hacquiring | hstart | hstop | hcutting := h.running (hrunning hrun)
    · exact (hcut hrun (.inl hacquiring)).imp id fun h => .inr (.inr h)
    · exact .inr (.inl hstart)
    · exact .inr (.inr (.inl hstop))
    · exact (hcut hrun (.inr hcutting)).imp id fun h => .inr (.inr h)
  port := by
    rw [hops]
    exact h.port.quieter q
  log := hlog

/-- The task goes on, serving what it served. -/
theorem Inv.move {s : State} (h : Inv s) {t : Task} {log : List Event}
    (hserving : t.serving = none ∨ t.serving = s.task.serving) (hserved : t.refused = false)
    (hlive : t.early = true ∨ t.late = true ∧ s.det.acquiring = true → s.live = true)
    (hfits : s.live = true → t.Matches s.det)
    (hended : t.status = some .idle → s.device.running = false)
    (hleaves : t.Leaves s.det)
    (hcut : s.task.cutting = true → t.cutting = true)
    (hlog : ∀ e ∈ log, e.Own) : Inv { s with task := t, log := log } := by
  have hlive' : ({ s with task := t, log := log } : State).live = true → s.live = true := by
    intro hl
    rw [State.live, Bool.or_eq_true, Bool.or_eq_true, Bool.and_eq_true] at hl
    obtain (hqueue | hearly) | hlate := hl
    · rw [State.live]
      show (s.queue.isSome || s.task.early || _) = true
      rw [show s.queue.isSome = true from hqueue]
      rfl
    · exact hlive (.inl hearly)
    · exact hlive (.inr hlate)
  have hnone : s.task.serving = none → t.serving = none := by
    intro hidle
    obtain hs | hs := hserving
    · exact hs
    · rw [hs, hidle]
  refine h.quieter ⟨rfl, rfl, rfl, rfl, rfl, id, id, fun hq hs => ⟨hq, hnone hs⟩, hlive'⟩ rfl ?_ ?_
    hserved (fun hl => hfits (hlive' hl)) hended hleaves id (fun _ h => h.imp id hcut) hlog
  · intro id hid
    obtain ⟨hlatest, hidle⟩ := h.queued id hid
    exact ⟨hlatest, hnone hidle⟩
  · intro id hid
    obtain hs | hs := hserving
    · rw [show ({ s with task := t, log := log } : State).task.serving = t.serving from rfl, hs] at hid
      cases hid
    · exact h.serving id (hs ▸ hid)

/-! ## The task -/

theorem live_of_early {s : State} (h : s.task.early = true) : s.live = true := by
  rw [State.live, h, Bool.or_true, Bool.true_or]

theorem live_of_late {s : State} (h : s.task.late = true) (hacquiring : s.det.acquiring = true) :
    s.live = true := by
  rw [State.live, h, hacquiring, Bool.and_true, Bool.or_true]

theorem await_eq_some {s s' : State} {next : Task} (h : s.await next = some s') :
    s' = { s with task := next } := by
  obtain ⟨-, heq⟩ := Option.ite_none_right_eq_some.1 h
  exact (Option.some.inj heq).symm

theorem readoutLen_pos {readMode nbits : Int} {nmodules : Nat} (h : 0 < nmodules) :
    readoutLen readMode nmodules nbits ≠ 0 := by
  have hwords : ∀ n, channelsPerWord nbits = n → 0 < channelsPerModule / n := by
    intro n hn
    unfold channelsPerWord at hn
    split at hn <;> subst hn <;> decide
  unfold readoutLen
  dsimp only
  split
  · have hpos := hwords _ rfl
    have hlen := Nat.mul_pos (Nat.mul_pos (by decide : 0 < intReplyLen) h) hpos
    omega
  · have hlen := Nat.mul_pos (Nat.mul_pos (by decide : 0 < intReplyLen) h)
      (by decide : 0 < channelsPerModule)
    omega

theorem pos_of_nmodules? {det : DetState} {nmodules : Nat} (h : det.nmodules? = some nmodules) :
    0 < nmodules := by
  obtain ⟨hpos, heq⟩ := Option.ite_none_right_eq_some.1 h
  have hcount := Option.some.inj heq
  omega

theorem Inv.receive {s : State} (h : Inv s) {n : Nat} (hqueue : s.queue = some n) :
    Inv { s with queue := none, task := .loadMode n } := by
  obtain ⟨hlatest, hidle⟩ := h.queued n hqueue
  have hlive : s.live = true := by
    rw [State.live, hqueue]
    rfl
  refine h.quieter ⟨rfl, rfl, rfl, rfl, rfl, id, id, ?_, fun _ => hlive⟩ rfl ?_ ?_ rfl
    (fun _ => trivial) (fun hstatus => absurd hstatus.symm (Option.some_ne_none _)) trivial id ?_
    h.log
  · intro hnone
    rw [hqueue] at hnone
    cases hnone
  · intro i hi
    cases hi
  · intro i hi
    obtain rfl := Option.some.inj hi
    exact hlatest
  · intro hrun hheld
    exact .inl (hheld.resolve_right fun hcut => Task.serving_of_cutting hcut hidle)

/-- While the task serves a start none is queued. -/
theorem Inv.queue_none {s : State} (h : Inv s) {n : Nat} (hserving : s.task.serving = some n) :
    s.queue = none := by
  cases hqueue : s.queue with
  | none => rfl
  | some i =>
    obtain ⟨-, hidle⟩ := h.queued i hqueue
    rw [hserving] at hidle
    cases hidle

/-- A store to `acquiring` logs at most that it is cleared. -/
theorem own_of_storeAcquiring {s : State} (h : ∀ e ∈ s.log, e.Own) (value : Bool)
    {clearer : Clearer} (hown : value = false → (Event.cleared clearer s.latest).Own) :
    ∀ e ∈ (s.storeAcquiring value clearer).log, e.Own := by
  intro e he
  rw [State.storeAcquiring] at he
  dsimp only at he
  split at he
  next hclears =>
    rcases List.mem_append.1 he with he | he
    · exact h e he
    · rw [List.mem_singleton.1 he]
      apply hown
      rw [Bool.and_eq_true, Bool.not_eq_true'] at hclears
      exact hclears.2
  next => exact h e he

/-- The loop, or the task on its way out, clears `acquiring`. -/
theorem Inv.letGo {s : State} (h : Inv s) {n : Nat} (hserving : s.task.serving = some n) {t : Task}
    (htask : t.serving = none ∨ t.serving = s.task.serving) (hserved : t.refused = false)
    (hearly : t.early = false) (hlate : t.late = false) (hfits : t.Matches s.det)
    (hstatus : t.status = none) (hleaves : t.Leaves { s.det with acquiring := false })
    (hcut : s.device.running = true → s.det.acquiring = true ∨ s.task.cutting = true →
      t.cutting = true) :
    Inv { s.storeAcquiring false (.loop n) with task := t } := by
  have hlatest := h.serving n hserving
  have hqueue := h.queue_none hserving
  have hquiet : ({ s.storeAcquiring false (.loop n) with task := t } : State).live = false := by
    show (s.queue.isSome || t.early || (t.late && false)) = false
    rw [hqueue, hearly, hlate]
    rfl
  refine h.quieter ⟨rfl, rfl, rfl, rfl, rfl, fun _ => rfl, id, ?_, ?_⟩ rfl ?_ ?_ hserved
    (fun _ => hfits.congr rfl rfl rfl) ?_ hleaves id ?_
    (own_of_storeAcquiring h.log false fun _ => hlatest)
  · intro _ hidle
    rw [hserving] at hidle
    cases hidle
  · intro hlive
    rw [hquiet] at hlive
    cases hlive
  · intro i hi
    rw [show (State.storeAcquiring s false (.loop n)).queue = s.queue from rfl, hqueue] at hi
    cases hi
  · intro i hi
    obtain hs | hs := htask
    · rw [hs] at hi
      cases hi
    · exact h.serving i (hs ▸ hi)
  · intro hidle
    rw [hstatus] at hidle
    cases hidle
  · intro hrun hheld
    exact .inr (hcut hrun hheld)

/-- The task's own `-stop`. -/
theorem Inv.abortSend {s : State} (h : Inv s) {answer : Int} {n : Nat}
    (hserving : s.task.serving = some n) :
    Inv { s.obey .stop answer with task := .leaving 2 } := by
  have hqueue := h.queue_none hserving
  have hquiet : ({ s.obey .stop answer with task := .leaving 2 } : State).live = false := by
    show (s.queue.isSome || false || (false && _)) = false
    rw [hqueue]
    rfl
  refine h.quieter ⟨rfl, rfl, rfl, rfl, rfl, id, fun _ => rfl, ?_, ?_⟩ rfl ?_ ?_ rfl
    (fun _ => trivial) (fun _ => rfl) trivial ?_ ?_ h.log
  · intro _ hidle
    rw [hserving] at hidle
    cases hidle
  · intro hlive
    rw [hquiet] at hlive
    cases hlive
  · intro i hi
    rw [show (State.obey s .stop answer).queue = s.queue from rfl, hqueue] at hi
    cases hi
  · intro i hi
    cases hi
  · intro hrun
    cases hrun
  · intro hrun
    cases hrun

theorem no_status {t : Task} {det : Prop} (h : t.status = none) : t.status = some .idle → det := by
  intro hidle
  rw [h] at hidle
  cases hidle

/-- A step of the loop to another place of it. -/
theorem Inv.goOn {s : State} (h : Inv s) {n : Nat} (hs : s.task.serving = some n) {t : Task}
    {log : List Event} (ht : t.serving = some n) (hserved : t.refused = false)
    (hlive : t.early = true ∨ t.late = true ∧ s.det.acquiring = true → s.live = true)
    (hfits : s.live = true → t.Matches s.det)
    (hended : t.status = some .idle → s.device.running = false)
    (hleaves : t.Leaves s.det)
    (hcut : s.task.cutting = false) (hlog : ∀ e ∈ log, e.Own) :
    Inv { s with task := t, log := log } :=
  h.move (.inr (ht.trans hs.symm)) hserved hlive hfits hended hleaves
    (fun hc => absurd (hcut.symm.trans hc) Bool.false_ne_true) hlog

/-- What an answer to the status tells of an idle detector. -/
theorem pollStatus_idle {waited : Nat} {answer : Int}
    (h : pollStatus waited answer = some .idle) : (statusBits answer).running = false := by
  unfold pollStatus at h
  dsimp only at h
  split at h
  · rename_i hidle
    have hbits := hidle.2
    unfold isIdle at hbits
    rw [Bool.and_eq_true, Bool.not_eq_true'] at hbits
    exact hbits.1
  · split at h
    · cases h
    · unfold statusAfterWait at h
      split at h
      · cases h
      · split at h <;> cases h

theorem Inv.task {s s' : State} {answer : Int} (h : Inv s) (hstep : s.taskStep answer = some s') :
    Inv s' := by
  have hfits := h.fits
  have hended := h.ended
  cases ht : s.task with
  | waiting =>
    rw [State.taskStep, ht] at hstep
    obtain ⟨n, hqueue, rfl⟩ := Option.map_eq_some_iff.1 hstep
    exact h.receive hqueue
  | loadMode n =>
    rw [State.taskStep, ht] at hstep
    obtain rfl := Option.some.inj hstep
    exact h.goOn (by rw [ht]; rfl) rfl rfl (fun _ => live_of_early (by rw [ht]; rfl))
      (fun _ => rfl) (no_status rfl) trivial (by rw [ht]; rfl) h.log
  | loadNbits n readMode =>
    rw [State.taskStep, ht] at hstep
    obtain rfl := Option.some.inj hstep
    rw [ht] at hfits
    exact h.goOn (by rw [ht]; rfl) rfl rfl (fun _ => live_of_early (by rw [ht]; rfl))
      (fun hl => ⟨hfits hl, rfl⟩) (no_status rfl) trivial
      (by rw [ht]; rfl) h.log
  | loadModules n readMode nbits =>
    have hlive : s.live = true := live_of_early (by rw [ht]; rfl)
    obtain ⟨nmodules, hknown⟩ := Option.isSome_iff_exists.1 (h.known hlive)
    rw [State.taskStep, ht] at hstep
    dsimp only at hstep
    rw [hknown] at hstep
    obtain rfl := Option.some.inj hstep
    exact h.goOn (by rw [ht]; rfl) rfl rfl (fun _ => hlive)
      (fun _ => hknown) (no_status rfl) trivial (by rw [ht]; rfl) h.log
  | lenMode n readMode nbits nmodules =>
    rw [State.taskStep, ht] at hstep
    obtain rfl := Option.some.inj hstep
    rw [ht] at hfits
    exact h.goOn (by rw [ht]; rfl) rfl rfl (fun _ => live_of_early (by rw [ht]; rfl))
      (fun hl => ⟨hfits hl, rfl⟩) (no_status rfl) trivial
      (by rw [ht]; rfl) h.log
  | lenNbits n readMode nbits nmodules mode =>
    have hlive : s.live = true := live_of_early (by rw [ht]; rfl)
    rw [ht] at hfits
    obtain ⟨hknown, hmode⟩ := hfits hlive
    rw [State.taskStep, ht] at hstep
    dsimp only at hstep
    rw [if_neg (readoutLen_pos (pos_of_nmodules? hknown))] at hstep
    obtain rfl := Option.some.inj hstep
    exact h.goOn (by rw [ht]; rfl) rfl rfl (fun _ => hlive)
      (fun _ => ⟨hknown, by rw [hmode]⟩) (no_status rfl) trivial
      (by rw [ht]; rfl) h.log
  | acquireTime n shot =>
    rw [State.taskStep, ht] at hstep
    obtain rfl := await_eq_some hstep
    rw [ht] at hfits
    exact h.goOn (by rw [ht]; rfl) rfl rfl (fun _ => live_of_early (by rw [ht]; rfl))
      (fun hl => hfits hl) (no_status rfl) trivial
      (by rw [ht]; rfl) h.log
  | poll n shot first waited =>
    have hlive : first = true ∨ (!first) = true ∧ s.det.acquiring = true → s.live = true := by
      rintro (hfirst | ⟨hlate, hacquiring⟩)
      · exact live_of_early (by rw [ht]; exact hfirst)
      · exact live_of_late (by rw [ht]; exact hlate) hacquiring
    rw [ht] at hfits
    rw [State.taskStep, ht] at hstep
    dsimp only at hstep
    split at hstep
    · cases hstep
    · rename_i hanswer
      have hrunning : (statusBits answer).running = s.device.running := by
        rw [bne_iff_ne, not_not] at hanswer
        exact hanswer
      cases hpoll : pollStatus waited answer with
      | none =>
        rw [hpoll] at hstep
        obtain rfl := Option.some.inj hstep
        exact h.goOn (by rw [ht]; rfl) rfl rfl hlive (fun hl => hfits hl) (no_status rfl)
          trivial (by rw [ht]; rfl) h.log
      | some status =>
        rw [hpoll] at hstep
        obtain rfl := Option.some.inj hstep
        refine h.goOn (by rw [ht]; rfl) rfl rfl hlive (fun hl => hfits hl) ?_
          trivial (by rw [ht]; rfl) h.log
        intro hidle
        obtain rfl := Option.some.inj hidle
        rw [← hrunning]
        exact pollStatus_idle hpoll
  | report n shot first status =>
    rw [State.taskStep, ht] at hstep
    obtain rfl := await_eq_some hstep
    rw [ht] at hfits hended
    cases first with
    | true =>
      exact h.goOn (by rw [ht]; rfl) rfl rfl (fun _ => live_of_early (by rw [ht]; rfl))
        (fun hl => hfits hl) hended trivial (by rw [ht]; rfl) h.log
    | false =>
      refine h.goOn (by rw [ht]; rfl) rfl rfl ?_ (fun hl => hfits hl) hended
        trivial (by rw [ht]; rfl) h.log
      rintro (hearly | ⟨-, hacquiring⟩)
      · cases hearly
      · exact live_of_late (by rw [ht]; rfl) hacquiring
  | head n shot status =>
    rw [ht] at hfits hended
    rw [State.taskStep, ht] at hstep
    dsimp only at hstep
    by_cases herror : status = .error
    · rw [if_pos herror] at hstep
      obtain rfl := Option.some.inj hstep
      refine h.goOn (by rw [ht]; rfl) rfl rfl ?_ (fun _ => trivial) hended ?_ (by rw [ht]; rfl) h.log
      · rintro (hearly | ⟨hlate, -⟩)
        · cases hearly
        · cases hlate
      · exact .inl herror
    · rw [if_neg herror] at hstep
      obtain rfl := Option.some.inj hstep
      exact h.goOn (by rw [ht]; rfl) rfl rfl (fun _ => live_of_early (by rw [ht]; rfl))
        (fun hl => ⟨hfits hl, rfl⟩) hended trivial
        (by rw [ht]; rfl) h.log
  | send n shot status raw =>
    have hlive : s.live = true := live_of_early (by rw [ht]; rfl)
    rw [ht] at hfits hended
    obtain ⟨⟨hknown, hexpect⟩, hraw⟩ := hfits hlive
    have hdepth : s.det.nbits = s.device.nbits := by
      refine h.depth.resolve_right fun hquiet => ?_
      rw [hlive] at hquiet
      cases hquiet.1
    have hlatest : n = s.latest := h.serving n (by rw [ht]; rfl)
    rw [State.taskStep, ht] at hstep
    obtain rfl := Option.some.inj hstep
    refine h.goOn (by rw [ht]; rfl) rfl rfl (fun _ => hlive) (fun _ => ⟨hknown, hexpect⟩) hended
      trivial (by rw [ht]; rfl) ?_
    intro e he
    obtain he | he := List.mem_append.1 he
    · exact h.log e he
    · obtain rfl := List.mem_singleton.1 he
      exact ⟨hraw, ⟨shot.nmodules, hknown, by rw [hexpect, hdepth]⟩, hlatest⟩
  | reading n shot status whole =>
    have hlive : s.det.acquiring = true → s.live = true := live_of_late (by rw [ht]; rfl)
    rw [ht] at hfits hended
    rw [State.taskStep, ht] at hstep
    dsimp only at hstep
    split at hstep
    · obtain rfl := Option.some.inj hstep
      refine h.goOn (by rw [ht]; rfl) rfl rfl ?_ (fun hl => hfits hl) hended
        trivial (by rw [ht]; rfl) h.log
      rintro (hearly | ⟨-, hacquiring⟩)
      · cases hearly
      · exact hlive hacquiring
    · obtain rfl := Option.some.inj hstep
      refine h.goOn (by rw [ht]; rfl) rfl rfl ?_ (fun hl => hfits hl) (no_status rfl)
        trivial (by rw [ht]; rfl) h.log
      rintro (hearly | ⟨-, hacquiring⟩)
      · cases hearly
      · exact hlive hacquiring
  | publish n shot status =>
    rw [State.taskStep, ht] at hstep
    obtain rfl := await_eq_some hstep
    rw [ht] at hfits hended
    refine h.goOn (by rw [ht]; rfl) rfl rfl ?_ (fun hl => hfits hl) hended
      trivial (by rw [ht]; rfl) h.log
    rintro (hearly | ⟨-, hacquiring⟩)
    · cases hearly
    · exact live_of_late (by rw [ht]; rfl) hacquiring
  | check n shot status =>
    rw [ht] at hfits hended
    rw [State.taskStep, ht] at hstep
    dsimp only at hstep
    by_cases hon : (s.det.acquiring && (status = .acquire || status = .readout)) = true
    · rw [if_pos hon] at hstep
      obtain rfl := Option.some.inj hstep
      have hacquiring := (Bool.and_eq_true_iff.1 hon).1
      exact h.goOn (by rw [ht]; rfl) rfl rfl
        (fun _ => live_of_late (by rw [ht]; rfl) hacquiring) (fun hl => hfits hl) hended
        trivial (by rw [ht]; rfl) h.log
    · rw [if_neg hon] at hstep
      obtain rfl := Option.some.inj hstep
      refine h.goOn (by rw [ht]; rfl) rfl rfl ?_ (fun _ => trivial) hended ?_ (by rw [ht]; rfl) h.log
      · rintro (hearly | ⟨hlate, -⟩)
        · cases hearly
        · cases hlate
      · cases hacquiring : s.det.acquiring with
        | false => exact .inr (.inr hacquiring)
        | true =>
          rw [hacquiring] at hon
          cases status with
          | idle => exact .inr (.inl rfl)
          | error => exact .inl rfl
          | acquire => exact absurd rfl hon
          | readout => exact absurd rfl hon
  | clear n status =>
    have hleaves := h.leaves
    rw [ht] at hended hleaves
    rw [State.taskStep, ht] at hstep
    obtain rfl := Option.some.inj hstep
    have hserving : s.task.serving = some n := by rw [ht]; rfl
    refine h.letGo hserving ?_ rfl rfl rfl trivial rfl (fun _ => rfl) ?_
    · by_cases herror : status = .error
      · exact .inr (by rw [ht, herror]; rfl)
      · exact .inl (if_neg herror)
    · intro hrun hheld
      have hacquiring : s.det.acquiring = true := by
        refine hheld.resolve_right fun hcut => ?_
        rw [ht] at hcut
        cases hcut
      obtain rfl | rfl | hoff := hleaves
      · show (decide (ADStatus.error = ADStatus.error) && s.det.acquiring) = true
        rw [hacquiring]
        rfl
      · rw [hended rfl] at hrun
        cases hrun
      · rw [hacquiring] at hoff
        cases hoff
  | imageMode n status cut =>
    rw [State.taskStep, ht] at hstep
    obtain rfl := await_eq_some hstep
    by_cases herror : status = .error
    · have hleaves := h.leaves
      rw [ht] at hleaves
      rw [if_pos herror]
      refine h.move (.inr (by rw [ht, herror]; rfl)) rfl ?_ (fun _ => trivial) (no_status rfl)
        (hleaves herror) ?_ h.log
      · rintro (hearly | ⟨hlate, -⟩)
        · cases hearly
        · cases hlate
      · intro hcut
        rw [ht] at hcut
        exact (Bool.and_eq_true_iff.1 hcut).2
    · rw [if_neg herror]
      refine h.move (.inl rfl) rfl ?_ (fun _ => trivial) (no_status rfl)
        trivial ?_ h.log
      · rintro (hearly | ⟨hlate, -⟩)
        · cases hearly
        · cases hlate
      · intro hcut
        rw [ht] at hcut
        exact absurd (of_decide_eq_true (Bool.and_eq_true_iff.1 hcut).1) herror
  | abortStore n cut =>
    rw [State.taskStep, ht] at hstep
    obtain rfl := Option.some.inj hstep
    have hserving : s.task.serving = some n := by rw [ht]; rfl
    have hleaves := h.leaves
    rw [ht] at hleaves
    have hoff : s.det.acquiring = false := hleaves
    refine h.letGo hserving (.inr (by rw [ht]; rfl)) rfl rfl rfl trivial rfl rfl ?_
    rintro hrun (hacquiring | hcut)
    · rw [hacquiring] at hoff
      cases hoff
    · rw [ht] at hcut
      exact hcut
  | abortSend n cut =>
    rw [State.taskStep, ht] at hstep
    obtain rfl := Option.some.inj hstep
    exact h.abortSend (by rw [ht]; rfl)
  | refuse n =>
    have hserved := h.served
    rw [ht] at hserved
    cases hserved
  | leaving params =>
    rw [State.taskStep, ht] at hstep
    obtain rfl := await_eq_some hstep
    have hidle : s.task.cutting = true → False := by
      intro hcut
      rw [ht] at hcut
      cases hcut
    split
    · refine h.move (.inl rfl) rfl ?_ (fun _ => trivial) (no_status rfl) trivial
        (fun hcut => (hidle hcut).elim) h.log
      rintro (hearly | ⟨hlate, -⟩)
      · cases hearly
      · cases hlate
    · refine h.move (.inl rfl) rfl ?_ (fun _ => trivial) (no_status rfl) trivial
        (fun hcut => (hidle hcut).elim) h.log
      rintro (hearly | ⟨hlate, -⟩)
      · cases hearly
      · cases hlate

/-! ## The port -/

theorem Task.Leaves.mono {t : Task} {det det' : DetState} (h : t.Leaves det)
    (hacquiring : det.acquiring = false → det'.acquiring = false) : t.Leaves det' := by
  cases t with
  | clear n status => exact h.imp id fun h => h.imp id hacquiring
  | imageMode n status cut => exact fun herror => hacquiring (h herror)
  | abortStore n cut => exact hacquiring h
  | abortSend n cut => exact hacquiring h
  | _ => exact trivial

theorem Task.leaves_of_idle {t : Task} (det : DetState) (h : t.serving = none) : t.Leaves det := by
  cases t with
  | imageMode id status cut =>
    intro herror
    rw [serving, if_pos herror] at h
    cases h
  | clear id status => exact absurd h (Option.some_ne_none _)
  | abortStore id cut => exact absurd h (Option.some_ne_none _)
  | abortSend id cut => exact absurd h (Option.some_ne_none _)
  | _ => exact trivial

theorem Task.refused_of_idle {t : Task} (h : t.serving = none) : t.refused = false := by
  cases t with
  | refuse id => exact absurd h (Option.some_ne_none _)
  | _ => rfl

/-- A step of the port under a task that goes on as it was. -/
theorem Inv.portStep {s s' : State} (h : Inv s) (hqueue : s'.queue = s.queue)
    (htask : s'.task = s.task) (hlatest : s'.latest = s.latest)
    (hmodules : s'.det.nmodules = s.det.nmodules)
    (hacquiring : s'.det.acquiring = true → s.det.acquiring = true)
    (hrun : s'.device.running = true → s.device.running = true)
    (hmode : s.live = true → s'.params.readMode = s'.det.readMode ∧
      s'.det.readMode = s.det.readMode ∧ s'.det.nbits = s.det.nbits)
    (hdepth : s'.det.nbits = s'.device.nbits ∨ s.live = false ∧ readsDepth s'.ops = true)
    (hrunning : s'.device.running = true → s'.det.acquiring = true ∨
      s'.ops = [.storeAcquiring true, .signal] ∨ s'.ops = [.command .stop, .status 0] ∨
        s'.task.cutting = true)
    (hport : Port s' s'.ops) (hlog : ∀ e ∈ s'.log, e.Own) : Inv s' := by
  have hlive : s'.live = true → s.live = true := by
    intro hl
    rw [State.live, hqueue, htask, Bool.or_eq_true, Bool.and_eq_true] at hl
    rw [State.live, Bool.or_eq_true, Bool.and_eq_true]
    exact hl.imp id fun h => ⟨h.1, hacquiring h.2⟩
  have hoff : s.det.acquiring = false → s'.det.acquiring = false := fun hs =>
    Bool.eq_false_iff.2 fun hs' => Bool.eq_false_iff.1 hs (hacquiring hs')
  refine ⟨?_, ?_, ?_, ?_, ?_, ?_, ?_, ?_, ?_, hrunning, hport, hlog⟩
  · rw [hqueue, hlatest, htask]
    exact h.queued
  · rw [hlatest, htask]
    exact h.serving
  · rw [htask]
    exact h.served
  · intro hl
    rw [nmodules?_congr hmodules, h.known (hlive hl)]
  · exact fun hl => (hmode (hlive hl)).1
  · intro hl
    obtain ⟨-, hmode, hnbits⟩ := hmode (hlive hl)
    rw [htask]
    exact (h.fits (hlive hl)).congr hmode hnbits hmodules
  · refine hdepth.imp id fun hd => ⟨?_, hd.2⟩
    refine Bool.eq_false_iff.2 fun hl => ?_
    rw [hlive hl] at hd
    cases hd.1
  · intro hidle
    rw [htask] at hidle
    refine Bool.eq_false_iff.2 fun hr => ?_
    have hstopped := h.ended hidle
    rw [hrun hr] at hstopped
    cases hstopped
  · rw [htask]
    exact h.leaves.mono hoff

/-- A state in which the task is done with every start. -/
theorem Inv.of_idle {s : State} (hidle : s.task.serving = none)
    (hqueued : ∀ id, s.queue = some id → id = s.latest) (hknown : s.det.nmodules?.isSome = true)
    (hmode : s.params.readMode = s.det.readMode) (hnbits : s.det.nbits = s.device.nbits)
    (hrunning : s.device.running = true → s.det.acquiring = true ∨
      s.ops = [.storeAcquiring true, .signal] ∨ s.ops = [.command .stop, .status 0] ∨
        s.task.cutting = true)
    (hport : Port s s.ops) (hlog : ∀ e ∈ s.log, e.Own) : Inv s where
  queued id hid := ⟨hqueued id hid, hidle⟩
  serving id hid := by
    rw [hidle] at hid
    cases hid
  served := Task.refused_of_idle hidle
  known _ := hknown
  mode _ := hmode
  fits _ := Task.matches_of_idle _ hidle
  depth := .inl hnbits
  ended hstatus := by
    refine absurd hidle (Task.serving_of_status ?_)
    rw [hstatus]
    exact Option.some_ne_none _
  leaves := Task.leaves_of_idle _ hidle
  running := hrunning
  port := hport
  log := hlog

theorem Inv.nbits_eq {s : State} (h : Inv s) (hreads : readsDepth s.ops = false) :
    s.det.nbits = s.device.nbits := by
  refine h.depth.resolve_right fun hd => ?_
  rw [hreads] at hd
  cases hd.2

/-- A store of the read mode; a live task has it in force already. -/
theorem Inv.storeReadMode {s : State} (h : Inv s) {ops : List Op}
    (hops : s.ops = .storeReadMode :: ops)
    (hport : Port { s with ops, det := { s.det with readMode := s.params.readMode } } ops) :
    Inv { s with ops, det := { s.det with readMode := s.params.readMode } } := by
  have hnbits := h.nbits_eq (by rw [hops]; rfl)
  refine h.portStep rfl rfl rfl rfl id id (fun hl => ⟨rfl, h.mode hl, rfl⟩) (.inl hnbits) ?_
    hport h.log
  intro hrun
  have hstart : s.ops ≠ [.storeAcquiring true, .signal] := by
    intro hform
    rw [hops] at hform
    cases hform
  have hstop : s.ops ≠ [.command .stop, .status 0] := by
    intro hform
    rw [hops] at hform
    cases hform
  exact (h.held hstart hstop hrun).imp id fun hcut => .inr (.inr hcut)

theorem Settles.readsDepth_append {cs : List Command} (ops : List Op)
    (hreads : readsDepth ops = true) : readsDepth (cs.map .command ++ ops) = true := by
  induction cs with
  | nil => exact hreads
  | cons c cs ih => exact ih

theorem Settles.commands {cs : List Command} (hcs : ∀ c ∈ cs, c.isSetting = true) {ops : List Op}
    (hreads : readsDepth ops = true) (hops : Settles ops) : Settles (cs.map .command ++ ops) := by
  induction cs with
  | nil => exact hops
  | cons c cs ih =>
    exact ⟨hcs c List.mem_cons_self, fun _ => Settles.readsDepth_append ops hreads,
      ih fun c hc => hcs c (List.mem_cons_of_mem _ hc)⟩

theorem Settles.queries {qs : List Query} {ops : List Op} (hops : Settles ops) :
    Settles (qs.map .query ++ ops) := by
  induction qs with
  | nil => exact hops
  | cons q qs ih => exact ⟨rfl, fun h => absurd h Bool.false_ne_true, ih⟩

theorem Device.obey_of_setting {dev : Device} {depth : Int} {c : Command}
    (hsetting : c.isSetting = true) : (dev.obey depth c).running = dev.running := by
  cases c <;> first | rfl | exact absurd hsetting Bool.false_ne_true

theorem Device.obey_of_keeps {dev : Device} {depth : Int} {c : Command}
    (hkeeps : c.changesDepth = false) : (dev.obey depth c).nbits = dev.nbits := by
  cases c <;> first | rfl | exact absurd hkeeps.symm Bool.false_ne_true

theorem readsDepth_getSettings (det : DetState) (ops : List Op) :
    readsDepth (det.getSettings.map .query ++ ops) = true := rfl

section
variable {s : State} {ops : List Op}

/-- A setting is sent to a detector that does not run. -/
theorem Inv.settingCommand (h : Inv s) {c : Command} {answer : Int}
    (hops : s.ops = .command c :: ops) (hsettles : Settles (.command c :: ops))
    (hacquiring : s.det.acquiring = false) (hrunning : s.device.running = false)
    (hlive : s.live = true → ∀ op ∈ Op.command c :: ops, op.changesDepth = false) :
    Inv (({ s with ops := ops } : State).obey c answer) := by
  obtain ⟨hsetting, hreads, hrest⟩ := hsettles
  have hsetting : c.isSetting = true := hsetting
  have hstart : c ≠ .start := by
    rintro rfl
    cases hsetting
  have hstill : (s.device.obey answer c).running = false := by
    rw [Device.obey_of_setting hsetting, hrunning]
  refine h.portStep rfl rfl ?_ rfl id ?_ (fun hl => ⟨h.mode hl, rfl, rfl⟩) ?_ ?_ ?_ ?_
  · show (if c = .start then s.latest + 1 else s.latest) = s.latest
    rw [if_neg hstart]
  · intro hrun
    rw [show (State.obey { s with ops := ops } c answer).device = s.device.obey answer c from rfl,
      hstill] at hrun
    cases hrun
  · cases hchanges : c.changesDepth with
    | true =>
      refine .inr ⟨Bool.eq_false_iff.2 fun hl => ?_, hreads hchanges⟩
      have hkeeps : c.changesDepth = false := hlive hl _ List.mem_cons_self
      rw [hchanges] at hkeeps
      cases hkeeps
    | false =>
      have hdepth := h.depth
      rw [hops] at hdepth
      refine hdepth.imp (fun hd => ?_) id
      show s.det.nbits = ((s.device.obey answer c).nbits : Int)
      rw [Device.obey_of_keeps hchanges, hd]
  · intro hrun
    rw [show (State.obey { s with ops := ops } c answer).device = s.device.obey answer c from rfl,
      hstill] at hrun
    cases hrun
  · exact .setting hrest hacquiring hstill fun hl op hop => hlive hl op (List.mem_cons_of_mem _ hop)
  · intro e he
    change e ∈ (if c.isSetting then s.log ++ [Event.setting c s.device] else s.log) at he
    rw [if_pos hsetting] at he
    obtain he | he := List.mem_append.1 he
    · exact h.log e he
    · obtain rfl := List.mem_singleton.1 he
      exact hrunning

/-- The settings are read back, and the bit depth becomes the detector's. -/
theorem Inv.settingQuery (h : Inv s) {q : Query} {answer : Int} (hops : s.ops = .query q :: ops)
    (hsettles : Settles (.query q :: ops)) (hacquiring : s.det.acquiring = false)
    (hrunning : s.device.running = false)
    (hlive : s.live = true → ∀ op ∈ Op.query q :: ops, op.changesDepth = false)
    (hanswers : q.answers s.device answer = true) :
    Inv { s with
      det := s.det.store q answer, ops := if q.goesOn answer then ops else [] } := by
  obtain ⟨-, -, hrest⟩ := hsettles
  have hdepth := h.depth
  rw [hops] at hdepth
  have hstill : s.device.running = true → ∀ {p : Prop}, p := by
    intro hrun
    rw [hrunning] at hrun
    cases hrun
  have hport : ∀ det : DetState, det.acquiring = s.det.acquiring →
      Port { s with det := det, ops := if q.goesOn answer then ops else [] }
        (if q.goesOn answer then ops else []) := by
    intro det hdet
    split
    · refine .setting hrest (hdet.trans hacquiring) hrunning fun hl op hop => ?_
      refine hlive ?_ op (List.mem_cons_of_mem _ hop)
      rw [State.live] at hl ⊢
      rw [← hdet]
      exact hl
    · exact .idle
  by_cases hq : q = .nbits
  · subst hq
    have heq : answer = s.device.nbits := of_decide_eq_true hanswers
    have hstore : s.det.store .nbits answer = { s.det with nbits := answer } :=
      if_pos ⟨rfl, by omega⟩
    have hsame : s.live = true → answer = s.det.nbits := by
      intro hl
      rw [heq]
      refine (hdepth.resolve_right fun hd => ?_).symm
      rw [hl] at hd
      cases hd.1
    rw [hstore]
    exact h.portStep rfl rfl rfl rfl id id (fun hl => ⟨h.mode hl, rfl, hsame hl⟩) (.inl heq)
      (fun hrun => hstill hrun) (hport _ rfl) h.log
  · have hstore : s.det.store q answer = s.det := if_neg fun hand => hq hand.1
    rw [hstore]
    refine h.portStep rfl rfl rfl rfl id id (fun hl => ⟨h.mode hl, rfl, rfl⟩) ?_
      (fun hrun => hstill hrun) (hport _ rfl) h.log
    refine hdepth.imp id fun hd => ⟨hd.1, ?_⟩
    have hreads : (decide (q = .nbits) || q.isPlain && readsDepth ops) = true := hd.2
    rw [decide_eq_false hq, Bool.false_or, Bool.and_eq_true] at hreads
    have hgoes : q.goesOn answer = true := by
      cases q <;> first | exact hanswers | exact absurd hreads.1 Bool.false_ne_true
    show readsDepth (if q.goesOn answer = true then ops else []) = true
    rw [if_pos hgoes]
    exact hreads.2

/-- An operation that only goes on to others. -/
theorem Inv.onTo (h : Inv s) (hreads : readsDepth s.ops = false)
    (hstart : s.ops ≠ [.storeAcquiring true, .signal]) (hstop : s.ops ≠ [.command .stop, .status 0])
    (hport : Port { s with ops := ops } ops) : Inv { s with ops := ops } := by
  refine h.portStep rfl rfl rfl rfl id id (fun hl => ⟨h.mode hl, rfl, rfl⟩)
    (.inl (h.nbits_eq hreads)) ?_ hport h.log
  intro hrun
  exact (h.held hstart hstop hrun).imp id fun hcut => .inr (.inr hcut)

/-- A stop clears `acquiring`. -/
theorem Inv.stopFlag (h : Inv s)
    (hops : s.ops = [.storeAcquiring false, .command .stop, .status 0]) :
    Inv (({ s with ops := [.command .stop, .status 0] } : State).storeAcquiring false .stop) := by
  have hnbits := h.nbits_eq (by rw [hops]; rfl)
  refine h.portStep rfl rfl rfl rfl ?_ id (fun hl => ⟨h.mode hl, rfl, rfl⟩) (.inl hnbits) ?_
    (.stopSend rfl) (own_of_storeAcquiring h.log false fun _ => trivial)
  · intro hon
    cases hon
  · intro _
    exact .inr (.inr (.inl rfl))

theorem Inv.stopSend (h : Inv s) {answer : Int} (hops : s.ops = [.command .stop, .status 0]) :
    Inv (({ s with ops := [.status 0] } : State).obey .stop answer) := by
  have hnbits := h.nbits_eq (by rw [hops]; rfl)
  refine h.portStep rfl rfl rfl rfl id ?_ (fun hl => ⟨h.mode hl, rfl, rfl⟩) (.inl hnbits) ?_
    (.stopStatus 0) h.log
  · intro hrun
    cases hrun
  · intro hrun
    cases hrun

/-- A start that is accepted finds a detector that does not run. -/
theorem Inv.startTest (h : Inv s) (hops : s.ops = [.start])
    (hmode : s.params.readMode = s.det.readMode) (hacquiring : s.det.acquiring = false)
    (hqueue : s.queue = none) (hserving : s.task.serving = none)
    (hknown : s.det.nmodules?.isSome = true) :
    Inv { s with ops := [.command .start, .storeAcquiring true, .signal] } := by
  have hrunning : s.device.running = false := by
    refine Bool.eq_false_iff.2 fun hrun => ?_
    rcases h.held (by rw [hops]; decide) (by rw [hops]; decide) hrun with hon | hcut
    · rw [hacquiring] at hon
      cases hon
    · exact Task.serving_of_cutting hcut hserving
  have hnbits := h.nbits_eq (by rw [hops]; rfl)
  apply h.onTo (by rw [hops]; rfl) (by rw [hops]; decide) (by rw [hops]; decide)
  exact .startSend ⟨hqueue, hserving, hmode, hnbits, hknown⟩ hacquiring hrunning

theorem Inv.startSend (h : Inv s) {answer : Int} (hfresh : Fresh s) :
    Inv (({ s with ops := [.storeAcquiring true, .signal] } : State).obey .start answer) := by
  refine Inv.of_idle hfresh.serving ?_ hfresh.known hfresh.mode hfresh.nbits ?_ ?_ h.log
  · intro id hid
    rw [show (State.obey { s with ops := _ } .start answer).queue = s.queue from rfl,
      hfresh.queue] at hid
    cases hid
  · intro _
    exact .inr (.inl rfl)
  · exact .startFlag ⟨hfresh.queue, hfresh.serving, hfresh.mode, hfresh.nbits, hfresh.known⟩

theorem Inv.startFlag (h : Inv s) (hfresh : Fresh s) :
    Inv (({ s with ops := [.signal] } : State).storeAcquiring true .stop) := by
  refine Inv.of_idle hfresh.serving ?_ hfresh.known hfresh.mode hfresh.nbits ?_ ?_ ?_
  · intro id hid
    rw [show (State.storeAcquiring { s with ops := _ } true .stop).queue = s.queue from rfl,
      hfresh.queue] at hid
    cases hid
  · intro _
    exact .inl rfl
  · exact .startSignal ⟨hfresh.queue, hfresh.serving, hfresh.mode, hfresh.nbits, hfresh.known⟩
  · exact own_of_storeAcquiring (s := { s with ops := [.signal] }) h.log true fun hclear =>
      absurd hclear Bool.noConfusion

theorem Inv.startSignal (h : Inv s) (hops : s.ops = [.signal]) (hfresh : Fresh s) :
    Inv { s with ops := [], queue := s.queue.or (some s.latest) } := by
  rw [hfresh.queue]
  refine Inv.of_idle hfresh.serving ?_ hfresh.known hfresh.mode hfresh.nbits ?_ .idle h.log
  · intro id hid
    exact (Option.some.inj hid).symm
  · intro hrun
    have hheld := h.held (by rw [hops]; decide) (by rw [hops]; decide) hrun
    exact hheld.imp id fun hcut => .inr (.inr hcut)

/-- The settings' own steps. -/
theorem Inv.setting {s' : State} (h : Inv s) {op : Op} {answer : Int} (hops : s.ops = op :: ops)
    (hsettles : Settles (op :: ops)) (hacquiring : s.det.acquiring = false)
    (hrunning : s.device.running = false)
    (hlive : s.live = true → ∀ o ∈ op :: ops, o.changesDepth = false)
    (hstep : s.driver answer = some s') : Inv s' := by
  have hstill : ∀ {p : Prop}, s.device.running = true → p := by
    intro p hrun
    rw [hrunning] at hrun
    cases hrun
  have hdepth := h.depth
  rw [State.driver, hops] at hstep
  rw [hops] at hdepth
  cases op with
  | storeFrames value =>
    obtain rfl := Option.some.inj hstep
    refine h.portStep rfl rfl rfl rfl id id (fun hl => ⟨h.mode hl, rfl, rfl⟩) hdepth
      (fun hrun => hstill hrun) ?_ h.log
    exact .setting hsettles.2.2 hacquiring hrunning fun hl o ho =>
      hlive hl o (List.mem_cons_of_mem _ ho)
  | command c =>
    obtain ⟨-, hsend⟩ := Option.ite_none_left_eq_some.1 hstep
    obtain rfl := Option.some.inj hsend
    exact h.settingCommand hops hsettles hacquiring hrunning hlive
  | refreshSettings =>
    have hread : (if s.det.acquiring = true then some { s with ops := ops }
        else some { s with ops := s.det.getSettings.map .query ++ ops }) = some s' := hstep
    rw [hacquiring, if_neg Bool.false_ne_true] at hread
    obtain rfl := Option.some.inj hread
    refine h.portStep rfl rfl rfl rfl id id (fun hl => ⟨h.mode hl, rfl, rfl⟩) ?_
      (fun hrun => hstill hrun) ?_ h.log
    · exact hdepth.imp id fun hd => ⟨hd.1, readsDepth_getSettings _ _⟩
    · refine .setting (Settles.queries hsettles.2.2) hacquiring hrunning ?_
      intro hl o ho
      rcases List.mem_append.1 ho with ho | ho
      · obtain ⟨q, -, rfl⟩ := List.mem_map.1 ho
        rfl
      · exact hlive hl o (List.mem_cons_of_mem _ ho)
  | query q =>
    obtain ⟨hasked, hread⟩ := Option.ite_none_left_eq_some.1 hstep
    obtain rfl := Option.some.inj hread
    have hanswers : q.answers s.device answer = true := by
      rw [Bool.or_eq_true, not_or, Bool.not_eq_true', Bool.not_eq_false] at hasked
      exact hasked.2
    exact h.settingQuery hops hsettles hacquiring hrunning hlive hanswers
  | storeReadMode => exact absurd hsettles.1 Bool.false_ne_true
  | storeAcquiring value => exact absurd hsettles.1 Bool.false_ne_true
  | start => exact absurd hsettles.1 Bool.false_ne_true
  | signal => exact absurd hsettles.1 Bool.false_ne_true
  | status waited => exact absurd hsettles.1 Bool.false_ne_true

end

theorem clean_start {s : State} {answer : Int} (h : Clean s (.driver answer) = true)
    (hops : s.ops = [.start]) (hacquiring : s.det.acquiring = false) :
    s.queue = none ∧ s.task.serving = none ∧ s.det.nmodules?.isSome = true := by
  rw [Clean, hops, hacquiring] at h
  have hdone : (s.queue.isNone && s.task.serving.isNone && s.det.nmodules?.isSome) = true := h
  rw [Bool.and_eq_true, Bool.and_eq_true, Option.isNone_iff_eq_none, Option.isNone_iff_eq_none]
    at hdone
  exact ⟨hdone.1.1, hdone.1.2, hdone.2⟩

theorem Inv.driver {s s' : State} {answer : Int} (h : Inv s)
    (hclean : Clean s (.driver answer) = true) (hstep : s.driver answer = some s') : Inv s' := by
  have hport := h.port
  generalize hops : s.ops = ops at hport
  cases hport with
  | idle =>
    rw [State.driver, hops] at hstep
    cases hstep
  | stopMode =>
    rw [State.driver, hops] at hstep
    obtain rfl := Option.some.inj hstep
    exact h.storeReadMode hops .stopFlag
  | stopFlag =>
    rw [State.driver, hops] at hstep
    obtain rfl := Option.some.inj hstep
    exact h.stopFlag hops
  | stopSend _ =>
    rw [State.driver, hops] at hstep
    obtain ⟨-, hsend⟩ := Option.ite_none_left_eq_some.1 hstep
    obtain rfl := Option.some.inj hsend
    exact h.stopSend hops
  | stopStatus waited =>
    have hreads : readsDepth s.ops = false := by rw [hops]; rfl
    have hstart : s.ops ≠ [.storeAcquiring true, .signal] := by rw [hops]; simp
    have hstop : s.ops ≠ [.command .stop, .status 0] := by rw [hops]; simp
    rw [State.driver, hops] at hstep
    obtain ⟨-, hpoll⟩ := Option.ite_none_left_eq_some.1 hstep
    split at hpoll
    · obtain rfl := Option.some.inj hpoll
      exact h.onTo hreads hstart hstop (.stopStatus _)
    · obtain rfl := Option.some.inj hpoll
      exact h.onTo hreads hstart hstop .idle
  | startMode =>
    rw [State.driver, hops] at hstep
    obtain rfl := Option.some.inj hstep
    exact h.storeReadMode hops (.startTest rfl)
  | startTest hmode =>
    rw [State.driver, hops] at hstep
    have htest : (if s.det.acquiring = true then some { s with ops := [] }
        else some { s with ops := [.command .start, .storeAcquiring true, .signal] }) = some s' :=
      hstep
    by_cases hacquiring : s.det.acquiring = true
    · rw [if_pos hacquiring] at htest
      obtain rfl := Option.some.inj htest
      exact h.onTo (by rw [hops]; rfl) (by rw [hops]; decide) (by rw [hops]; decide) .idle
    · rw [if_neg hacquiring] at htest
      obtain rfl := Option.some.inj htest
      have hoff := Bool.eq_false_iff.2 hacquiring
      obtain ⟨hqueue, hserving, hknown⟩ := clean_start hclean hops hoff
      exact h.startTest hops hmode hoff hqueue hserving hknown
  | startSend hfresh _ _ =>
    rw [State.driver, hops] at hstep
    obtain ⟨-, hsend⟩ := Option.ite_none_left_eq_some.1 hstep
    obtain rfl := Option.some.inj hsend
    exact h.startSend hfresh
  | startFlag hfresh =>
    rw [State.driver, hops] at hstep
    obtain rfl := Option.some.inj hstep
    exact h.startFlag hfresh
  | startSignal hfresh =>
    rw [State.driver, hops] at hstep
    obtain rfl := Option.some.inj hstep
    exact h.startSignal hops hfresh
  | setting hsettles hacquiring hrunning hlive =>
    cases ops with
    | nil =>
      rw [State.driver, hops] at hstep
      cases hstep
    | cons op rest => exact h.setting hops hsettles hacquiring hrunning hlive hstep

/-! ## Writes -/

theorem forEachModule_mem {det : DetState} {c c' : Command} (h : c' ∈ det.forEachModule c) :
    c' = c ∨ ∃ m, c' = .module m := by
  obtain ⟨m, -, hmem⟩ := List.mem_flatMap.1 h
  rcases List.mem_pair.1 hmem with rfl | rfl
  · exact .inr ⟨m, rfl⟩
  · exact .inl rfl

theorem settingsCommand_isSetting (index : Int) : (settingsCommand index).isSetting = true := by
  unfold settingsCommand
  split <;> rfl

theorem settingsCommand_changesDepth {index : Int} (h : settingsCommand index ≠ .reset) :
    (settingsCommand index).changesDepth = false := by
  unfold settingsCommand at *
  split at h
  · rename_i hmenu
    rw [if_pos hmenu]
    rfl
  · exact absurd rfl h

section
variable {det : DetState} {params : Params} {w : Write}

/-- Every command of a write is one of settings, and changes the bit depth only where the write
may. -/
theorem Write.commands_isSetting {c : Command} (hc : c ∈ w.commands det params) :
    c.isSetting = true ∧ (w.changesReadout = false → c.changesDepth = false) := by
  have hmodules : ∀ d : Command, c ∈ det.forEachModule d → d.isSetting = true →
      c.isSetting = true ∧ (d.changesDepth = false → c.changesDepth = false) := by
    intro d hmem hd
    rcases forEachModule_mem hmem with rfl | ⟨m, rfl⟩
    · exact ⟨hd, id⟩
    · exact ⟨rfl, fun _ => rfl⟩
  have hone : ∀ d : Command, c ∈ [d] → d.isSetting = true → d.changesDepth = false →
      c.isSetting = true ∧ (w.changesReadout = false → c.changesDepth = false) := by
    intro d hmem hd hkeeps
    obtain rfl := List.mem_singleton.1 hmem
    exact ⟨hd, fun _ => hkeeps⟩
  cases w with
  | acquire value => cases hc
  | readMode value => cases hc
  | setting value =>
    obtain ⟨hsetting, hkeeps⟩ := hmodules _ hc (settingsCommand_isSetting value)
    refine ⟨hsetting, fun hquiet => hkeeps ?_⟩
    exact settingsCommand_changesDepth (of_decide_eq_false hquiet)
  | useFlatField value => exact hone _ hc rfl rfl
  | useCountRate value => exact hone _ hc rfl rfl
  | useBadChanIntrpl value => exact hone _ hc rfl rfl
  | bitDepth value =>
    obtain rfl := List.mem_singleton.1 hc
    exact ⟨rfl, fun hquiet => absurd hquiet.symm Bool.false_ne_true⟩
  | numGates value => exact hone _ hc rfl rfl
  | useGates value => exact hone _ hc rfl rfl
  | numFrames value => exact hone _ hc rfl rfl
  | trigger value =>
    have hc : c ∈ triggerCommand value := hc
    unfold triggerCommand at hc
    split at hc
    · exact hone _ hc rfl rfl
    · exact hone _ hc rfl rfl
    · exact hone _ hc rfl rfl
    · cases hc
  | reset =>
    obtain ⟨hsetting, -⟩ := hmodules _ hc rfl
    exact ⟨hsetting, fun hquiet => absurd hquiet.symm Bool.false_ne_true⟩
  | imageMode value => exact hone _ hc rfl rfl
  | acquireTime hundredNs => exact hone _ hc rfl rfl
  | delayTime hundredNs => exact hone _ hc rfl rfl
  | threshold => exact (hmodules _ hc rfl).imp id fun hkeeps _ => hkeeps rfl
  | energy =>
    have hc : c ∈ if det.firmwareMajor < 3 then [] else det.forEachModule .energy := hc
    split at hc
    · cases hc
    · exact (hmodules _ hc rfl).imp id fun hkeeps _ => hkeeps rfl
  | tau legal =>
    have hc : c ∈ if legal then [Command.tau] else [] := hc
    split at hc
    · exact hone _ hc rfl rfl
    · cases hc
  | other => cases hc

theorem Write.ops_of_setting (hsetting : w.isAcquire = false) :
    ∃ ops, w.ops det params = (w.commands det params).map .command ++ ops ∧
      (ops = [.refreshSettings] ∨ ∃ value, ops = [.storeFrames value, .refreshSettings]) := by
  cases w with
  | acquire value => cases hsetting
  | numFrames value => exact ⟨_, rfl, .inr ⟨value, rfl⟩⟩
  | _ => exact ⟨_, rfl, .inl rfl⟩

theorem Write.settles (hsetting : w.isAcquire = false) : Settles (w.ops det params) := by
  obtain ⟨ops, hops, hrest⟩ := @Write.ops_of_setting det params w hsetting
  have hcommands : ∀ c ∈ w.commands det params, c.isSetting = true :=
    fun c hc => (Write.commands_isSetting hc).1
  rw [hops]
  rcases hrest with rfl | ⟨value, rfl⟩
  · exact Settles.commands hcommands rfl ⟨rfl, fun h => absurd h Bool.false_ne_true, trivial⟩
  · refine Settles.commands hcommands rfl ⟨rfl, fun h => absurd h Bool.false_ne_true, rfl, ?_⟩
    exact ⟨fun h => absurd h Bool.false_ne_true, trivial⟩

theorem Write.ops_keep (hsetting : w.isAcquire = false) (hkeeps : w.changesReadout = false) :
    ∀ op ∈ w.ops det params, op.changesDepth = false := by
  obtain ⟨ops, hops, hrest⟩ := @Write.ops_of_setting det params w hsetting
  rw [hops]
  intro op hop
  rcases List.mem_append.1 hop with hop | hop
  · obtain ⟨c, hc, rfl⟩ := List.mem_map.1 hop
    exact (Write.commands_isSetting hc).2 hkeeps
  · rcases hrest with rfl | ⟨value, rfl⟩
    · obtain rfl := List.mem_singleton.1 hop
      rfl
    · rcases List.mem_pair.1 hop with rfl | rfl <;> rfl

end

theorem Params.set_readMode {params : Params} {w : Write} (hkeeps : w.changesReadout = false) :
    (params.set w).readMode = params.readMode := by
  cases w <;> first | rfl | exact absurd hkeeps.symm Bool.false_ne_true

theorem Inv.write {s s' : State} {w : Write} (h : Inv s) (hclean : Clean s (.write w) = true)
    (hstep : s.write w = some s') : Inv s' := by
  obtain ⟨hidle, hwrite⟩ := Option.ite_none_left_eq_some.1 hstep
  have hops : s.ops = [] := not_not.1 hidle
  have hnbits := h.nbits_eq (by rw [hops]; rfl)
  have hheld := h.held (by rw [hops]; decide) (by rw [hops]; decide)
  have hport : ∀ value t, Port t ((Write.acquire value).ops s.det (s.params.set (.acquire value))) := by
    intro value t
    unfold Write.ops
    dsimp only
    split
    · exact .stopMode
    · exact .startMode
  by_cases hbusy : (!w.isAcquire && s.det.acquiring) = true
  · rw [if_pos hbusy] at hwrite
    obtain rfl := Option.some.inj hwrite
    exact h
  rw [if_neg hbusy] at hwrite
  obtain rfl := Option.some.inj hwrite
  cases hacquire : w.isAcquire with
  | true =>
    cases w with
    | acquire value =>
      refine h.portStep rfl rfl rfl rfl id id (fun hl => ⟨h.mode hl, rfl, rfl⟩) (.inl hnbits)
        (fun hrun => (hheld hrun).imp id fun hcut => .inr (.inr hcut)) (hport value _) h.log
    | _ => exact absurd hacquire Bool.false_ne_true
  | false =>
    rw [hacquire, Bool.not_false, Bool.true_and, Bool.not_eq_true] at hbusy
    rw [Clean, hacquire, hbusy, Bool.false_or, Bool.false_or, Bool.and_eq_true,
      Bool.not_eq_true'] at hclean
    obtain ⟨hcut, hquiet⟩ := hclean
    have hkeeps : s.live = true → w.changesReadout = false := by
      intro hl
      rw [hl, Bool.and_true, Bool.not_eq_true'] at hquiet
      exact hquiet
    have hrunning : s.device.running = false := by
      refine Bool.eq_false_iff.2 fun hrun => ?_
      rcases hheld hrun with hon | hon
      · rw [hbusy] at hon
        cases hon
      · rw [hcut] at hon
        cases hon
    refine h.portStep rfl rfl rfl rfl id id ?_ (.inl hnbits) ?_ ?_ h.log
    · intro hl
      refine ⟨?_, rfl, rfl⟩
      rw [Params.set_readMode (hkeeps hl)]
      exact h.mode hl
    · intro hrun
      rw [hrunning] at hrun
      cases hrun
    · exact .setting (Write.settles hacquire) hbusy hrunning
        fun hl => Write.ops_keep hacquire (hkeeps hl)

/-! ## Runs -/

theorem Inv.finish {s : State} (h : Inv s) :
    Inv { s with device := { s.device with running := false } } := by
  refine h.quieter ⟨rfl, rfl, rfl, rfl, rfl, id, fun _ => rfl, fun hq hs => ⟨hq, hs⟩, id⟩ rfl
    h.queued h.serving h.served h.fits (fun _ => rfl) h.leaves ?_ ?_ h.log
  · intro hrun
    cases hrun
  · intro hrun
    cases hrun

theorem Inv.init {s : State} (h : Init s) : Inv s := by
  have hserving : s.task.serving = none := by
    rw [h.task]
    rfl
  have hquiet := live_of_idle h.queue hserving
  have hlive : ∀ {p : Prop}, s.live = true → p := by
    intro p hl
    rw [hquiet] at hl
    cases hl
  refine ⟨?_, ?_, Task.refused_of_idle hserving, hlive, hlive, hlive, .inl h.nbits, fun _ => h.running,
    Task.leaves_of_idle _ hserving, ?_, ?_, ?_⟩
  · intro id hid
    rw [h.queue] at hid
    cases hid
  · intro id hid
    rw [hserving] at hid
    cases hid
  · intro hrun
    rw [h.running] at hrun
    cases hrun
  · rw [h.ops]
    exact .idle
  · rw [h.log]
    intro e he
    cases he

theorem Inv.step {s s' : State} {a : Action} (h : Inv s) (hclean : Clean s a = true)
    (hstep : Mythen.step s a = some s') : Inv s' := by
  cases a with
  | write w => exact h.write hclean hstep
  | driver answer => exact h.driver hclean hstep
  | task answer => exact h.task hstep
  | finish =>
    obtain ⟨-, hfinish⟩ := Option.ite_none_right_eq_some.1 hstep
    obtain rfl := Option.some.inj hfinish
    exact h.finish

/-- Where every start finds the task done with the one before, and no setting changes what a live
task goes by, an acquisition runs with its own settings and ends by its own stop or end. -/
theorem acquisitions_apart {s : State}
    (h : ((System.ofFun Init step).restrict fun s a => Clean s a = true).Reachable s) :
    ∀ e ∈ s.log, e.Own := by
  have hinv : Inv s := by
    refine System.Reachable.invariant ?_ ?_ h
    · intro t hinit
      exact Inv.init hinit
    · rintro t a t' ht ⟨hstep, hclean⟩
      exact ht.step hclean hstep
  exact hinv.log

/-- One module at 24 bits, read out raw. -/
def atRest : State where
  det := ⟨false, readModeRaw, 24, 1, 1, 2⟩
  params := ⟨readModeRaw, imageModeSingle⟩
  device := ⟨false, 24⟩
  ops := []
  queue := none
  task := .waiting
  latest := 0
  log := []

theorem atRest_init : Init atRest := ⟨rfl, rfl, rfl, rfl, rfl, rfl, rfl⟩

def startActions : List Action := .write (.acquire 1) :: List.replicate 5 (.driver 0)

/-- The task takes the signal up and sends its first readout. -/
def readActions : List Action :=
  List.replicate 7 (.task 0) ++ .task 1 :: List.replicate 3 (.task 0)

def to8BitActions : List Action :=
  .write (.bitDepth 2) :: [0, 0, 0, 0, 0, 8, 0, 0, 1, 0].map .driver

/-- An acquisition at 24 bits runs to its end, then one at 8 bits starts. -/
def apartActions : List Action :=
  startActions ++ readActions ++
    [.task (-1), .finish, .task 65536, .task 0, .task 0, .task 0, .task 0, .task 0, .task 0] ++
    to8BitActions ++ startActions ++ readActions

theorem acquisitions_apart_8bit :
    ∃ s, ((System.ofFun Init step).restrict fun s a => Clean s a = true).Reachable s ∧
      s.log = [.readout true 5120 ⟨true, 0, 24, 1, 1, 2⟩ ⟨true, 24⟩ 1 1, .cleared (.loop 1) 1,
        .setting (.nbits 8) ⟨false, 24⟩, .readout true 1280 ⟨true, 0, 8, 1, 1, 2⟩ ⟨true, 8⟩ 2 2] ∧
      ∀ e ∈ s.log, e.Own := by
  have hrun : (apartActions.foldlM
      (System.guarded (fun s a => Clean s a = true) step) atRest).map State.log =
      some [.readout true 5120 ⟨true, 0, 24, 1, 1, 2⟩ ⟨true, 24⟩ 1 1, .cleared (.loop 1) 1,
        .setting (.nbits 8) ⟨false, 24⟩, .readout true 1280 ⟨true, 0, 8, 1, 1, 2⟩ ⟨true, 8⟩ 2 2] := by
    decide +kernel
  obtain ⟨s, hs, hlog⟩ := Option.map_eq_some_iff.1 hrun
  have hreach := System.reachable_guarded atRest_init hs
  exact ⟨s, hreach, hlog, acquisitions_apart hreach⟩

/-- A stop, another bit depth and a start while the first readout is under way; then a stop and a
start between the task's last look at `acquiring` and its clearing of it. -/
def mixedActions : List Action :=
  startActions ++ readActions ++
    [.write (.acquire 0), .driver 0, .driver 0, .task 0, .driver 0, .driver 65536] ++
    to8BitActions ++ startActions ++
    [.task 0, .task 0, .task 0, .task 0, .task 0, .task 1, .task 0] ++
    [.write (.acquire 0), .driver 0, .driver 0, .driver 0, .driver 65536, .task 0] ++
    startActions ++ [.task 0, .write (.numGates 1), .driver 0]

/-- The loop of the first start goes on under the second: it asks a detector at 8 bits for 5120
bytes, which sends 1280.  Then it ends the third, and a setting reaches the running detector. -/
theorem loop_outlives_stop :
    ∃ s, (System.ofFun Init step).Reachable s ∧
      .readout true 5120 ⟨true, 0, 8, 1, 1, 2⟩ ⟨true, 8⟩ 1 2 ∈ s.log ∧
      readoutLen readModeRaw 1 8 = 1280 ∧
      .cleared (.loop 1) 3 ∈ s.log ∧
      .setting (.gates 1) ⟨true, 8⟩ ∈ s.log ∧
      ¬ ∀ e ∈ s.log, e.Own := by
  have hrun : (mixedActions.foldlM step atRest).map State.log =
      some [.readout true 5120 ⟨true, 0, 24, 1, 1, 2⟩ ⟨true, 24⟩ 1 1, .cleared .stop 1,
        .setting (.nbits 8) ⟨false, 24⟩, .readout true 5120 ⟨true, 0, 8, 1, 1, 2⟩ ⟨true, 8⟩ 1 2,
        .cleared .stop 2, .cleared (.loop 1) 3, .setting (.gates 1) ⟨true, 8⟩] := by
    decide +kernel
  obtain ⟨s, hs, hlog⟩ := Option.map_eq_some_iff.1 hrun
  refine ⟨s, System.reachable_ofFun atRest_init hs, ?_, rfl, ?_, ?_, ?_⟩
  · rw [hlog]
    decide
  · rw [hlog]
    decide
  · rw [hlog]
    decide
  · intro hown
    have hcleared : Event.Own (.cleared (.loop 1) 3) := by
      apply hown
      rw [hlog]
      decide
    exact absurd hcleared (by show ¬ 1 = 3; decide)

end Mythen
