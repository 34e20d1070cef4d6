import EpicsIocs.Lib.Steps

/-! # The acquisition handshake of the TetrAMM

`set_acquire` of the port actor and the read thread (`tetramm.rs`): two flags and a start event that
is remembered until a wait takes it, set from both sides without a lock.

`stopped_is_parked`: behind `set_acquire(0)` the read thread stands before its start event and takes
no bytes, and no call waits for a flag that the read thread will not change, as long as no start
goes ahead while the thread is still active from the one before.  After a start that failed it may
be, and the event is left over (`leftover_start_restarts`, `leftover_start_hangs`). -/

namespace QuadEm

open Steps

/-! ## The code -/

/-- Where the read thread is: at its test of `acquiring`, before it clears `reading_active`, in the
wait, before it sets either flag, and in a read of the meter. -/
inductive ReadThread where
  | test
  | clearing
  | waiting
  | starting
  | activating
  | reading
  deriving DecidableEq, Repr

/-- What a call of the actor does next: `set_acquire(0)` up to `stopReply`, `set_acquire(1)` from
`starting` on, and the commands of a change of parameters with acquisition paused. -/
inductive Frame where
  | stopping
  | stopWaiting
  | stopReply
  | starting
  | writing
  | signalling (failed : Bool)
  | startWaiting (failed : Bool)
  | failing
  | paused (restart : Bool)
  deriving DecidableEq, Repr

/-- `frames` are the actor's calls, the innermost first.  `stopped` is from the return of a
`set_acquire(0)` to the next `set_acquire(1)`; `stolen` tells of a read in it. -/
structure Handshake where
  acquiring : Bool := false
  readingActive : Bool := false
  acquireStart : Bool := false
  reader : ReadThread := .test
  frames : List Frame := []
  stopped : Bool := false
  stolen : Bool := false
  deriving DecidableEq, Repr

inductive Request where
  | start
  | stop
  | change
  deriving DecidableEq, Repr

/-- `eos` is whether the input EOS is accepted, `ok` also whether a write succeeds. -/
inductive HandshakeEvent where
  | request (r : Request) (eos : Bool)
  | actor (ok : Bool)
  | reader
  deriving DecidableEq, Repr

namespace Handshake

/-- A round of `read_thread`, one access of a flag at a time. -/
def readThread (s : Handshake) : Handshake :=
  match s.reader with
  | .test => { s with reader := if s.acquiring then .reading else .clearing }
  | .clearing => { s with readingActive := false, reader := .waiting }
  | .waiting =>
    if s.acquireStart then { s with acquireStart := false, reader := .starting } else s
  | .starting => { s with acquiring := true, reader := .activating }
  | .activating => { s with readingActive := true, reader := .reading }
  | .reading => { s with stolen := s.stolen || s.stopped, reader := .test }

/-- `set_acquire(0)` is called; `rest` is what calls it. -/
def callStop (s : Handshake) (eos : Bool) (rest : List Frame) : Handshake :=
  if eos then { s with frames := .stopping :: rest }
  else { s with frames := rest, stopped := true }

/-- `set_acquire(1)` is called. -/
def callStart (s : Handshake) (eos : Bool) (rest : List Frame) : Handshake :=
  { s with
    frames := if s.acquiring then rest else if eos then .starting :: rest else rest
    stopped := false }

/-- `with_acquire_paused` is called with what `acquiring` is. -/
def callPaused (s : Handshake) (eos : Bool) (rest : List Frame) : Handshake :=
  if s.acquiring then s.callStop eos (.paused true :: rest)
  else { s with frames := .paused false :: rest }

def request (s : Handshake) (eos : Bool) : Request → Handshake
  | .start => s.callStart eos []
  | .stop => s.callStop eos []
  | .change => s.callPaused eos []

/-- The actor goes on in the innermost call. -/
def actor (s : Handshake) (ok : Bool) : Handshake :=
  match s.frames with
  | [] => s
  | .stopping :: rest => { s with acquiring := false, frames := .stopWaiting :: rest }
  | .stopWaiting :: rest => if s.readingActive then s else { s with frames := .stopReply :: rest }
  | .stopReply :: rest => { s with frames := rest, stopped := true }
  | .starting :: rest => s.callPaused ok (.writing :: rest)
  | .writing :: rest => { s with frames := .signalling (!ok) :: rest }
  | .signalling failed :: rest =>
    { s with acquireStart := true, frames := .startWaiting failed :: rest }
  | .startWaiting failed :: rest =>
    if s.readingActive then { s with frames := if failed then .failing :: rest else rest } else s
  | .failing :: rest => { s with acquiring := false, frames := rest }
  | .paused restart :: rest =>
    if restart then s.callStart ok rest else { s with frames := rest }

def step (s : Handshake) : HandshakeEvent → Option Handshake
  | .request r eos => if s.frames = [] then some (s.request eos r) else none
  | .actor ok => some (s.actor ok)
  | .reader => some s.readThread

def system : System Handshake HandshakeEvent := .ofFun (· = {}) step

/-- The input EOS is accepted where acquisition is to stop, and a start that goes ahead finds the
read thread not active. -/
def Clean (s : Handshake) : HandshakeEvent → Prop
  | .request .start eos => s.acquiring = false ∧ eos = true → s.readingActive = false
  | .request .stop eos => s.acquiring = true ∨ s.readingActive = true → eos = true
  | .request .change eos => s.acquiring = true → eos = true
  | _ => True

instance (s : Handshake) : (e : HandshakeEvent) → Decidable (s.Clean e)
  | .request .start _ => inferInstanceAs (Decidable (_ → _))
  | .request .stop _ => inferInstanceAs (Decidable (_ → _))
  | .request .change _ => inferInstanceAs (Decidable (_ → _))
  | .actor _ => isTrue trivial
  | .reader => isTrue trivial

/-! ## Where the read thread stands -/

end Handshake

/-- What the flags and the read thread are together. -/
inductive Standing where
  | parked
  | running
  | winding
  | waking
  deriving DecidableEq, Repr

/-- On the way to the wait, or in it. -/
def ReadThread.Outside (r : ReadThread) : Prop := r = .test ∨ r = .clearing ∨ r = .waiting

namespace Handshake

def In (s : Handshake) : Standing → Prop
  | .parked => s.acquiring = false ∧ s.readingActive = false ∧ s.acquireStart = false ∧
      s.reader.Outside
  | .running => s.acquiring = true ∧ s.readingActive = true ∧ s.acquireStart = false ∧
      (s.reader = .test ∨ s.reader = .reading)
  | .winding => s.acquiring = false ∧ s.readingActive = true ∧ s.acquireStart = false ∧
      (s.reader = .test ∨ s.reader = .clearing ∨ s.reader = .reading)
  | .waking => s.readingActive = false ∧
      (s.acquiring = false ∧ s.acquireStart = true ∧ s.reader.Outside ∨
        s.acquiring = false ∧ s.acquireStart = false ∧ s.reader = .starting ∨
        s.acquiring = true ∧ s.acquireStart = false ∧ s.reader = .activating)

/-- Where the read thread may stand in the actor's calls. -/
def Allowed : List Frame → Standing → Prop
  | [], m => m ≠ .waking
  | .stopping :: rest, m => (rest = [] ∨ rest = [.paused true]) ∧ m ≠ .waking
  | .stopWaiting :: rest, m => (rest = [] ∨ rest = [.paused true]) ∧ (m = .parked ∨ m = .winding)
  | .stopReply :: rest, m => (rest = [] ∨ rest = [.paused true]) ∧ m = .parked
  | .paused true :: rest, m => rest = [] ∧ m = .parked
  | .paused false :: rest, m => rest = [] ∧ (m = .parked ∨ m = .winding) ∨
      rest = [.writing] ∧ m = .parked
  | .starting :: rest, m => rest = [] ∧ m = .parked
  | .writing :: rest, m => rest = [] ∧ m = .parked
  | .signalling _ :: rest, m => rest = [] ∧ m = .parked
  | .startWaiting _ :: rest, m => rest = [] ∧ (m = .waking ∨ m = .running)
  | .failing :: rest, m => rest = [] ∧ m = .running

/-- In `set_acquire(1)`. -/
def Starting : List Frame → Prop
  | .starting :: _ => True
  | .paused false :: rest => rest ≠ []
  | .writing :: _ => True
  | .signalling _ :: _ => True
  | .startWaiting _ :: _ => True
  | .failing :: _ => True
  | _ => False

structure Inv (s : Handshake) : Prop where
  standing : ∃ m, Allowed s.frames m ∧ s.In m
  started : Starting s.frames → s.stopped = false
  parked : s.stopped = true → s.In .parked
  stolen : s.stolen = false

variable {s t : Handshake}

theorem inv_init : Inv {} where
  standing := ⟨.parked, (fun h => by cases h), rfl, rfl, rfl, .inl rfl⟩
  started h := by cases h
  parked h := by cases h
  stolen := rfl

/-- What the read thread's steps lead to. -/
def Next : Standing → Standing → Prop
  | .parked, m => m = .parked
  | .running, m => m = .running
  | .winding, m => m = .winding ∨ m = .parked
  | .waking, m => m = .waking ∨ m = .running

theorem In.readThread {m : Standing} (h : s.In m) : ∃ m', Next m m' ∧ s.readThread.In m' := by
  obtain ⟨acquiring, readingActive, acquireStart, reader, frames, stopped, stolen⟩ := s
  cases m with
  | parked =>
    obtain ⟨rfl, rfl, rfl, rfl | rfl | rfl⟩ := h
    all_goals exact ⟨.parked, rfl, rfl, rfl, rfl, by simp [Handshake.readThread, ReadThread.Outside]⟩
  | running =>
    obtain ⟨rfl, rfl, rfl, rfl | rfl⟩ := h
    · exact ⟨.running, rfl, rfl, rfl, rfl, .inr rfl⟩
    · exact ⟨.running, rfl, rfl, rfl, rfl, .inl rfl⟩
  | winding =>
    obtain ⟨rfl, rfl, rfl, rfl | rfl | rfl⟩ := h
    · exact ⟨.winding, .inl rfl, rfl, rfl, rfl, .inr (.inl rfl)⟩
    · exact ⟨.parked, .inr rfl, rfl, rfl, rfl, .inr (.inr rfl)⟩
    · exact ⟨.winding, .inl rfl, rfl, rfl, rfl, .inl rfl⟩
  | waking =>
    obtain ⟨rfl, ⟨rfl, rfl, rfl | rfl | rfl⟩ | ⟨rfl, rfl, rfl⟩ | ⟨rfl, rfl, rfl⟩⟩ := h
    · exact ⟨.waking, .inl rfl, rfl, .inl ⟨rfl, rfl, .inr (.inl rfl)⟩⟩
    · exact ⟨.waking, .inl rfl, rfl, .inl ⟨rfl, rfl, .inr (.inr rfl)⟩⟩
    · exact ⟨.waking, .inl rfl, rfl, .inr (.inl ⟨rfl, rfl, rfl⟩)⟩
    · exact ⟨.waking, .inl rfl, rfl, .inr (.inr ⟨rfl, rfl, rfl⟩)⟩
    · exact ⟨.running, .inr rfl, rfl, rfl, rfl, .inr rfl⟩

/-- Where the read thread may stand, it may go on to. -/
theorem Allowed.next {fs : List Frame} {m m' : Standing} (h : Allowed fs m) (hn : Next m m') :
    Allowed fs m' := by
  cases m with
  | parked => obtain rfl := hn; exact h
  | running => obtain rfl := hn; exact h
  | winding =>
    rcases hn with rfl | rfl
    · exact h
    · unfold Allowed at *
      split at h <;> simp_all
  | waking =>
    rcases hn with rfl | rfl
    · exact h
    · unfold Allowed at *
      split at h <;> simp_all

/-! ## The steps -/

theorem In.stop {m : Standing} (h : s.In m) (hm : m ≠ .waking) :
    ∃ m', (m' = .parked ∨ m' = .winding) ∧ In { s with acquiring := false } m' := by
  cases m with
  | parked => exact ⟨.parked, .inl rfl, rfl, h.2⟩
  | running =>
    obtain ⟨-, hactive, hstart, hr⟩ := h
    exact ⟨.winding, .inr rfl, rfl, hactive, hstart, hr.imp id .inr⟩
  | winding => exact ⟨.winding, .inr rfl, rfl, h.2⟩
  | waking => exact absurd rfl hm

theorem In.parked_of_inactive {m : Standing} (h : s.In m) (hm : m = .parked ∨ m = .winding)
    (ha : s.readingActive = false) : s.In .parked := by
  rcases hm with rfl | rfl
  · exact h
  · rw [h.2.1] at ha
    contradiction

theorem In.running_of_active {m : Standing} (h : s.In m) (hm : m = .waking ∨ m = .running)
    (ha : s.readingActive = true) : s.In .running := by
  rcases hm with rfl | rfl
  · rw [h.1] at ha
    contradiction
  · exact h

/-- A start that finds the read thread not active finds it parked, or goes no further. -/
theorem In.parked_of_start {m : Standing} (h : s.In m) (hm : m ≠ .waking)
    (hac : s.acquiring = false) (hra : s.readingActive = false) : s.In .parked := by
  cases m with
  | parked => exact h
  | running => rw [h.1] at hac; contradiction
  | winding => rw [h.2.1] at hra; contradiction
  | waking => exact absurd rfl hm

@[simp] theorem readThread_frames (s : Handshake) : s.readThread.frames = s.frames := by
  unfold readThread
  split <;> (try split) <;> rfl

@[simp] theorem readThread_stopped (s : Handshake) : s.readThread.stopped = s.stopped := by
  unfold readThread
  split <;> (try split) <;> rfl

theorem inv_readThread (h : Inv s) : Inv s.readThread := by
  obtain ⟨m, hallowed, hin⟩ := h.standing
  obtain ⟨m', hnext, hin'⟩ := hin.readThread
  refine ⟨⟨m', ?_, hin'⟩, ?_, fun hs => ?_, ?_⟩
  · rw [readThread_frames]
    exact hallowed.next hnext
  · rw [readThread_frames, readThread_stopped]
    exact h.started
  · rw [readThread_stopped] at hs
    obtain ⟨m', rfl, hin'⟩ := (h.parked hs).readThread
    exact hin'
  · unfold readThread
    split
    case h_6 hreader =>
      -- a read in `stopped` would be of a parked thread
      have hns : s.stopped = false := by
        by_contra hs
        obtain ⟨-, -, -, hr⟩ := h.parked (by simpa using hs)
        rw [hreader] at hr
        simp [ReadThread.Outside] at hr
      simp [h.stolen, hns]
    all_goals first | exact h.stolen | (split <;> exact h.stolen)

/-- Nothing but the calls changes. -/
theorem Inv.frames (h : Inv s) {fs : List Frame} {m : Standing} (hin : s.In m)
    (hal : Allowed fs m) (hst : Starting fs → s.stopped = false) : Inv { s with frames := fs } :=
  ⟨⟨m, hal, hin⟩, hst, h.parked, h.stolen⟩

/-- A call of `set_acquire(0)` returns. -/
theorem Inv.ofStopped (h : Inv s) {fs : List Frame} (hin : s.In .parked)
    (hal : Allowed fs .parked) (hst : ¬ Starting fs) :
    Inv { s with frames := fs, stopped := true } :=
  ⟨⟨.parked, hal, hin⟩, fun hs => absurd hs hst, fun _ => hin, h.stolen⟩

/-- `set_acquire(1)` is called. -/
theorem Inv.ofStart (h : Inv s) {fs : List Frame} {m : Standing} (hin : s.In m)
    (hal : Allowed fs m) : Inv { s with frames := fs, stopped := false } :=
  ⟨⟨m, hal, hin⟩, fun _ => rfl, (fun hs => by cases hs), h.stolen⟩

theorem inv_callStop (h : Inv s) {m : Standing} (hin : s.In m) (hm : m ≠ .waking)
    {rest : List Frame} (hrest : rest = [] ∨ rest = [.paused true]) : Inv (s.callStop true rest) := by
  unfold callStop
  rw [if_pos rfl]
  exact h.frames hin ⟨hrest, hm⟩ (fun hs => hs.elim)

theorem inv_callStart (h : Inv s) {m : Standing} (hin : s.In m) (hm : m ≠ .waking) {eos : Bool}
    (hclean : s.acquiring = false ∧ eos = true → s.readingActive = false) :
    Inv (s.callStart eos []) := by
  unfold callStart
  by_cases hac : s.acquiring = true
  · rw [if_pos hac]
    exact h.ofStart hin hm
  · rw [if_neg hac]
    cases eos with
    | false => exact h.ofStart hin hm
    | true =>
      have hac : s.acquiring = false := by simpa using hac
      exact h.ofStart (hin.parked_of_start hm hac (hclean ⟨hac, rfl⟩)) ⟨rfl, rfl⟩

theorem inv_request (h : Inv s) (hf : s.frames = []) {r : Request} {eos : Bool}
    (hclean : s.Clean (.request r eos)) : Inv (s.request eos r) := by
  obtain ⟨m, hm, hin⟩ := h.standing
  rw [hf] at hm
  cases r with
  | start => exact inv_callStart h hin hm hclean
  | stop =>
    cases eos with
    | true => exact inv_callStop h hin hm (.inl rfl)
    | false =>
      -- refused, and so only where there is nothing to stop
      have hidle : ¬ (s.acquiring = true ∨ s.readingActive = true) := fun ha => by
        have := hclean ha
        contradiction
      simp only [not_or, Bool.not_eq_true] at hidle
      exact h.ofStopped (hin.parked_of_start hm hidle.1 hidle.2) (fun h => by cases h) (fun h => h)
  | change =>
    show Inv (s.callPaused eos [])
    unfold callPaused
    by_cases hac : s.acquiring = true
    · rw [if_pos hac]
      obtain rfl : eos = true := hclean hac
      exact inv_callStop h hin hm (.inr rfl)
    · rw [if_neg hac]
      refine h.frames hin (.inl ⟨rfl, ?_⟩) (fun hs => absurd rfl hs)
      -- not acquiring, so not running either
      cases m with
      | parked => exact .inl rfl
      | running => exact absurd hin.1 hac
      | winding => exact .inr rfl
      | waking => exact absurd rfl hm

theorem inv_actor (h : Inv s) (ok : Bool) : Inv (s.actor ok) := by
  obtain ⟨m, hm, hin⟩ := h.standing
  unfold actor
  split <;> rename_i hf <;> rw [hf] at hm
  case h_1 => exact h
  case h_2 =>
    obtain ⟨hrest, hm⟩ := hm
    obtain ⟨m', hm', hin'⟩ := hin.stop hm
    have hpark : s.stopped = true → In { s with acquiring := false } .parked :=
      fun hs => ⟨rfl, (h.parked hs).2⟩
    exact ⟨⟨m', ⟨hrest, hm'⟩, hin'⟩, fun hs => hs.elim, hpark, h.stolen⟩
  case h_3 =>
    split
    · exact h
    · rename_i ha
      have hpark := hin.parked_of_inactive hm.2 (by simpa using ha)
      exact h.frames hpark ⟨hm.1, rfl⟩ (fun hs => hs.elim)
  case h_4 =>
    obtain ⟨hrest, rfl⟩ := hm
    rcases hrest with rfl | rfl
    · exact h.ofStopped hin (fun h => by cases h) (fun h => h)
    · exact h.ofStopped hin ⟨rfl, rfl⟩ (fun h => h)
  case h_5 =>
    obtain ⟨rfl, rfl⟩ := hm
    unfold callPaused
    rw [if_neg (by rw [hin.1]; decide)]
    refine h.frames hin (.inr ⟨rfl, rfl⟩) (fun _ => h.started ?_)
    rw [hf]
    trivial
  case h_6 =>
    obtain ⟨rfl, rfl⟩ := hm
    exact h.frames hin ⟨rfl, rfl⟩ (fun _ => h.started (by rw [hf]; trivial))
  case h_7 =>
    obtain ⟨rfl, rfl⟩ := hm
    have hns : s.stopped = false := h.started (by rw [hf]; trivial)
    have hwake : In { s with acquireStart := true } .waking :=
      ⟨hin.2.1, .inl ⟨hin.1, rfl, hin.2.2.2⟩⟩
    refine ⟨⟨.waking, ⟨rfl, .inl rfl⟩, hwake⟩, fun _ => hns, fun hs => ?_, h.stolen⟩
    rw [show s.stopped = true from hs] at hns
    contradiction
  case h_8 failed rest =>
    have hns : s.stopped = false := h.started (by rw [hf]; trivial)
    obtain ⟨rfl, hm⟩ := hm
    split
    · rename_i ha
      have hrun := hin.running_of_active hm ha
      cases failed with
      | true => exact h.frames hrun ⟨rfl, rfl⟩ (fun _ => hns)
      | false => exact h.frames hrun (fun h => by cases h) (fun hs => hs.elim)
    · exact h
  case h_9 =>
    obtain ⟨rfl, rfl⟩ := hm
    have hns : s.stopped = false := h.started (by rw [hf]; trivial)
    have hwind : In { s with acquiring := false } .winding :=
      ⟨rfl, hin.2.1, hin.2.2.1, hin.2.2.2.imp id .inr⟩
    refine ⟨⟨.winding, (fun h => by cases h), hwind⟩, fun hs => hs.elim, fun hs => ?_, h.stolen⟩
    rw [show s.stopped = true from hs] at hns
    contradiction
  case h_10 restart rest =>
    cases restart with
    | true =>
      obtain ⟨rfl, rfl⟩ := hm
      exact inv_callStart h hin (by decide) (fun _ => hin.2.1)
    | false =>
      rcases hm with ⟨rfl, hm⟩ | ⟨rfl, rfl⟩
      · refine h.frames hin (fun hw => ?_) (fun hs => hs.elim)
        rcases hm with rfl | rfl <;> cases hw
      · exact h.frames hin ⟨rfl, rfl⟩ (fun _ => h.started (by rw [hf]; simp [Starting]))

theorem inv_of_run (h : (system.restrict Clean).Reachable s) : Inv s := by
  refine h.invariant (fun s hs => ?_) ?_
  · obtain rfl : s = {} := hs
    exact inv_init
  rintro s e t hinv ⟨hstep, hclean⟩
  replace hstep : step s e = some t := hstep
  cases e with
  | request r eos =>
    obtain ⟨hf, ht⟩ := Option.ite_none_right_eq_some.1 hstep
    cases ht
    exact inv_request hinv hf hclean
  | actor ok =>
    cases hstep
    exact inv_actor hinv ok
  | reader =>
    cases hstep
    exact inv_readThread hinv

/-! ## No wait is for ever -/

/-- `n` steps of the read thread alone. -/
def readThreads : Nat → Handshake → Handshake
  | 0, s => s
  | n + 1, s => readThreads n s.readThread

theorem In.winds_down (h : s.In .winding) : (readThreads 3 s).readingActive = false := by
  obtain ⟨acquiring, readingActive, acquireStart, reader, frames, stopped, stolen⟩ := s
  obtain ⟨rfl, rfl, rfl, rfl | rfl | rfl⟩ := h <;> rfl

theorem In.wakes_up (h : s.In .waking) : (readThreads 5 s).readingActive = true := by
  obtain ⟨acquiring, readingActive, acquireStart, reader, frames, stopped, stolen⟩ := s
  obtain ⟨rfl, ⟨rfl, rfl, rfl | rfl | rfl⟩ | ⟨rfl, rfl, rfl⟩ | ⟨rfl, rfl, rfl⟩⟩ := h <;> rfl

/-- The read thread stays parked, and stays running. -/
theorem In.readThreads {m : Standing} (h : s.In m) (hm : m = .parked ∨ m = .running) (n : Nat) :
    (readThreads n s).In m := by
  induction n generalizing s with
  | zero => exact h
  | succ n ih =>
    obtain ⟨m', hnext, hin⟩ := h.readThread
    apply ih
    rcases hm with rfl | rfl
    · rwa [show m' = .parked from hnext] at hin
    · rwa [show m' = .running from hnext] at hin

theorem In.reaches_wait (h : s.In .parked) : (Handshake.readThreads 2 s).reader = .waiting := by
  obtain ⟨acquiring, readingActive, acquireStart, reader, frames, stopped, stolen⟩ := s
  obtain ⟨rfl, rfl, rfl, rfl | rfl | rfl⟩ := h <;> rfl

/-- **A stopped meter is left alone.**  Behind `set_acquire(0)` both flags are down, no start is
left over and the read thread stands before its wait or in it, so none of its reads took a reply;
and the flag that `set_acquire` waits for changes with the next steps of the read thread. -/
theorem stopped_is_parked (h : (system.restrict Clean).Reachable s) :
    s.stolen = false ∧
      (s.stopped = true → s.acquiring = false ∧ s.readingActive = false ∧
        s.acquireStart = false ∧ s.reader.Outside ∧ (readThreads 2 s).reader = .waiting) ∧
      (∀ rest, s.frames = .stopWaiting :: rest → (readThreads 3 s).readingActive = false) ∧
      ∀ failed rest, s.frames = .startWaiting failed :: rest →
        (readThreads 5 s).readingActive = true := by
  have hinv := inv_of_run h
  obtain ⟨m, hm, hin⟩ := hinv.standing
  refine ⟨hinv.stolen, fun hs => ?_, fun rest hf => ?_, fun failed rest hf => ?_⟩
  · have hpark := hinv.parked hs
    obtain ⟨hac, hra, hst, hr⟩ := hpark
    exact ⟨hac, hra, hst, hr, In.reaches_wait ⟨hac, hra, hst, hr⟩⟩
  · rw [hf] at hm
    rcases hm.2 with rfl | rfl
    · exact (hin.readThreads (.inl rfl) 3).2.1
    · exact hin.winds_down
  · rw [hf] at hm
    rcases hm.2 with rfl | rfl
    · exact hin.wakes_up
    · exact (hin.readThreads (.inr rfl) 5).2.1

/-- A start, two reads and a stop. -/
def startStop : List HandshakeEvent :=
  .request .start true :: List.replicate 5 (.actor true) ++ List.replicate 8 .reader ++
    [.actor true, .request .stop true, .actor true] ++ List.replicate 3 .reader ++
    List.replicate 2 (.actor true)

theorem stopped_is_parked_startStop :
    ∃ s, (system.restrict Clean).Reachable s ∧ s.stopped = true ∧ s.stolen = false := by
  have hrun : startStop.foldlM (System.guarded Clean step) {} =
      some { reader := .waiting, stopped := true } := by decide
  have hreach : (system.restrict Clean).Reachable _ := System.reachable_guarded rfl hrun
  exact ⟨_, hreach, rfl, (stopped_is_parked hreach).1⟩

/-! ## A start left over -/

/-- A start whose write fails, up to its return: the read thread is in its first read. -/
def failedStart : List HandshakeEvent :=
  .request .start true :: List.replicate 2 (.actor true) ++ [.actor false, .actor true] ++
    List.replicate 5 .reader ++ List.replicate 2 (.actor true)

/-- The next start, and a stop up to its wait: the event is signalled, and the flag left from the
start before ends the wait for it. -/
def startOver : List HandshakeEvent :=
  .request .start true :: List.replicate 5 (.actor true) ++ [.request .stop true, .actor true]

/-- The stop returns between the read thread's clearing of its flag and its wait. -/
def stopReturns : List HandshakeEvent :=
  List.replicate 3 .reader ++ List.replicate 2 (.actor true) ++ List.replicate 4 .reader

/-- The read thread finds the event of the second start behind the stop, and reads. -/
theorem leftover_start_restarts :
    ∃ s, system.Reachable s ∧ s.stopped = true ∧ s.acquiring = true ∧ s.readingActive = true ∧
      s.stolen = true := by
  have hrun : (failedStart ++ startOver ++ stopReturns).foldlM step {} =
      some { acquiring := true, readingActive := true, stopped := true, stolen := true } := by decide
  exact ⟨_, System.reachable_ofFun rfl hrun, rfl, rfl, rfl, rfl⟩

/-- The read thread finds it before the stop has seen the flag down: the stop waits for ever. -/
theorem leftover_start_hangs :
    ∃ s, system.Reachable s ∧ s.frames = [.stopWaiting] ∧
      ∀ as t, system.Run s as t → t.frames = [.stopWaiting] ∧ t.readingActive = true := by
  have hrun : (failedStart ++ startOver ++ List.replicate 6 HandshakeEvent.reader).foldlM step {} =
      some { acquiring := true, readingActive := true, reader := .reading,
             frames := [.stopWaiting] } := by decide
  refine ⟨_, System.reachable_ofFun rfl hrun, rfl, fun as t hrun => ?_⟩
  have hkeep : t.frames = [.stopWaiting] ∧ t.In .running := by
    refine hrun.keeps (P := fun s => s.frames = [.stopWaiting] ∧ s.In .running) ?_
      ⟨rfl, rfl, rfl, rfl, .inr rfl⟩
    rintro s e t ⟨hf, hin⟩ hstep
    replace hstep : step s e = some t := hstep
    cases e with
    | request r eos => simp [step, hf] at hstep
    | actor ok =>
      cases hstep
      rw [show s.actor ok = s by simp [actor, hf, hin.2.1]]
      exact ⟨hf, hin⟩
    | reader =>
      cases hstep
      obtain ⟨m', rfl, hin'⟩ := hin.readThread
      exact ⟨by rw [readThread_frames, hf], hin'⟩
  exact ⟨hkeep.1, hkeep.2.2.1⟩

end Handshake

end QuadEm
