import EpicsIocs.Lib.Steps

/-! # The stream worker's runs

`Inner` is what the mutex of a `WorkerState` guards and each call under it is one
function.  `WorkerSystem` lets one worker and any number of controlling threads
call in any order; a call's event carries what it was given and what it returned.
`wait_for_start` is two events, the call and the return, as the worker sleeps
between them.

The clones of connected sockets are numbered as they are stored, and `clones` says
what became of each. -/

namespace TimePix

open Steps

/-! ## Model -/

inductive Phase where
  | stopped
  | running
  | connected
  deriving DecidableEq, Repr

/-- A `Generation` is the value of this `generation` when its run started. -/
structure Inner where
  phase : Phase
  generation : Nat
  /-- The clone a stop shuts down. -/
  socket : Option Nat
  serving : Bool
  deriving DecidableEq, Repr

namespace Inner

def default : Inner where
  phase := .stopped
  generation := 0
  socket := none
  serving := false

def start (s : Inner) : Bool × Inner :=
  if s.phase ≠ .stopped then (false, s)
  else (true, { s with phase := .running, generation := s.generation + 1 })

def requestStop (s : Inner) : Inner := { s with phase := .stopped, socket := none }

/-- What `wait_for_start` does before it sleeps. -/
def park (s : Inner) : Inner := { s with serving := false }

/-- `wait_for_start` sleeps on. -/
def waits (s : Inner) (served : Option Nat) : Bool :=
  s.phase = .stopped || s.generation = served.getD 0

def fail (s : Inner) (g : Nat) : Inner :=
  if s.generation = g then { s with phase := .stopped, socket := none } else s

def markConnected (s : Inner) (g : Nat) (socket : Option Nat) : Bool × Inner :=
  if s.generation ≠ g ∨ s.phase ≠ .running then (false, s)
  else (true, { s with phase := .connected, socket })

def markDisconnected (s : Inner) (g : Nat) : Inner :=
  let s := if s.generation = g ∧ s.phase = .connected then { s with phase := .running } else s
  if s.generation = g then { s with socket := none } else s

def parked (s : Inner) : Bool := !s.serving

end Inner

/-- What became of a clone. -/
inductive Fate where
  | stored
  | shutDown
  | dropped
  deriving DecidableEq, Repr

structure Clone where
  owner : Nat
  fate : Fate
  deriving DecidableEq, Repr

structure Worker where
  inner : Inner
  /-- What the worker's last `wait_for_start` returned. -/
  served : Option Nat
  /-- The worker is inside `wait_for_start`. -/
  waiting : Bool
  clones : List Clone
  deriving DecidableEq, Repr

/-- The calls on a `WorkerState`.  A `Generation` can be copied, so `g` is any. -/
inductive Event where
  | start (ok : Bool)
  | requestStop
  | waitForStart
  | returned (g : Nat)
  | markConnected (g : Nat) (cloned ok : Bool)
  | markDisconnected (g : Nat)
  | fail (g : Nat)
  deriving DecidableEq, Repr

namespace Worker

def init : Worker where
  inner := .default
  served := none
  waiting := false
  clones := []

/-- The fate of the stored clone, if there is one. -/
def closeSocket (s : Worker) (fate : Fate) : List Clone :=
  match s.inner.socket with
  | none => s.clones
  | some i => s.clones.modify i fun c => { c with fate }

/-- `mark_connected` with the outcome of `try_clone`; the clone of a refused call
is never made. -/
def markConnected (s : Worker) (g : Nat) (cloned : Bool) : Bool × Worker :=
  let clones := s.closeSocket .dropped
  let (ok, inner) := s.inner.markConnected g (if cloned then some clones.length else none)
  if ok then (true, { s with inner, clones := if cloned then clones ++ [⟨g, .stored⟩] else clones })
  else (false, s)

def step (s : Worker) : Event → Option Worker
  | .start ok =>
    let (done, inner) := s.inner.start
    if done = ok then some { s with inner } else none
  | .requestStop =>
    some { s with inner := s.inner.requestStop, clones := s.closeSocket .shutDown }
  | .waitForStart =>
    if s.waiting = false then some { s with inner := s.inner.park, waiting := true } else none
  | .returned g =>
    if s.waiting = true ∧ s.inner.waits s.served = false ∧ g = s.inner.generation then
      some { s with inner := { s.inner with serving := true }, served := some g, waiting := false }
    else none
  | .markConnected g cloned ok =>
    let (done, s') := s.markConnected g cloned
    if done = ok then some s' else none
  | .markDisconnected g =>
    some { s with
      inner := s.inner.markDisconnected g
      clones := if s.inner.generation = g then s.closeSocket .dropped else s.clones }
  | .fail g =>
    some { s with
      inner := s.inner.fail g
      clones := if s.inner.generation = g then s.closeSocket .dropped else s.clones }

end Worker

def workerSystem : System Worker Event := System.ofFun (· = .init) Worker.step

/-- What `wait_for_start` returned, of a return. -/
def Event.returned? : Event → Option Nat
  | .returned g => some g
  | _ => none

/-- In `as` the run `g` was started and neither stopped nor failed since. -/
def Open (as : List Event) (g : Nat) : Prop :=
  ∃ before after, as = before ++ .start true :: after ∧ before.count (.start true) + 1 = g ∧
    .requestStop ∉ after ∧ .fail g ∉ after

/-! ## What each call can do -/

namespace Worker

variable {s s' : Worker} {g : Nat}

theorem step_start {ok : Bool} (h : s.step (.start ok) = some s') :
    (ok = true ∧ s.inner.phase = .stopped ∧
      s' = { s with inner := { s.inner with phase := .running, generation := s.inner.generation + 1 } }) ∨
    (ok = false ∧ s.inner.phase ≠ .stopped ∧ s' = s) := by
  simp only [step, Inner.start] at h
  by_cases hphase : s.inner.phase = .stopped
  · simp only [hphase, ne_eq, not_true_eq_false, if_false, Option.ite_none_right_eq_some] at h
    obtain ⟨rfl, heq⟩ := h
    cases heq
    exact .inl ⟨rfl, hphase, rfl⟩
  · simp only [hphase, ne_eq, not_false_eq_true, if_true, Option.ite_none_right_eq_some] at h
    obtain ⟨rfl, heq⟩ := h
    cases heq
    exact .inr ⟨rfl, hphase, rfl⟩

theorem step_returned (h : s.step (.returned g) = some s') :
    s.waiting = true ∧ s.inner.phase ≠ .stopped ∧ s.inner.generation ≠ s.served.getD 0 ∧
      g = s.inner.generation ∧
      s' = { s with inner := { s.inner with serving := true }, served := some g, waiting := false } := by
  obtain ⟨⟨hwaiting, hwaits, hg⟩, heq⟩ := Option.ite_none_right_eq_some.1 h
  cases heq
  simp only [Inner.waits, Bool.or_eq_false_iff, decide_eq_false_iff_not] at hwaits
  exact ⟨hwaiting, hwaits.1, hwaits.2, hg, rfl⟩

theorem step_markConnected {cloned ok : Bool} (h : s.step (.markConnected g cloned ok) = some s') :
    (ok = true ∧ s.inner.generation = g ∧ s.inner.phase = .running ∧
      s' = { s with
        inner := { s.inner with
          phase := .connected
          socket := if cloned then some (s.closeSocket .dropped).length else none }
        clones := if cloned then s.closeSocket .dropped ++ [⟨g, .stored⟩]
          else s.closeSocket .dropped }) ∨
    (ok = false ∧ s' = s) := by
  simp only [step, markConnected, Inner.markConnected] at h
  by_cases hrun : s.inner.generation ≠ g ∨ s.inner.phase ≠ .running
  · simp only [hrun, if_true, Bool.false_eq_true, if_false, Option.ite_none_right_eq_some] at h
    obtain ⟨rfl, heq⟩ := h
    cases heq
    exact .inr ⟨rfl, rfl⟩
  · simp only [hrun, if_true, if_false, Option.ite_none_right_eq_some] at h
    obtain ⟨rfl, heq⟩ := h
    cases heq
    simp only [not_or, not_not] at hrun
    exact .inl ⟨rfl, hrun.1, hrun.2, rfl⟩

theorem step_fail (h : s.step (.fail g) = some s') :
    (s.inner.generation = g ∧
      s' = { s with
        inner := { s.inner with phase := .stopped, socket := none }
        clones := s.closeSocket .dropped }) ∨
    (s.inner.generation ≠ g ∧ s' = s) := by
  simp only [step, Inner.fail, Option.some.injEq] at h
  by_cases hg : s.inner.generation = g
  · exact .inl ⟨hg, by simpa [hg] using h.symm⟩
  · exact .inr ⟨hg, by simpa [hg] using h.symm⟩

theorem step_markDisconnected (h : s.step (.markDisconnected g) = some s') :
    (s.inner.generation = g ∧
      s' = { s with
        inner := { s.inner with
          phase := if s.inner.phase = .connected then .running else s.inner.phase
          socket := none }
        clones := s.closeSocket .dropped }) ∨
    (s.inner.generation ≠ g ∧ s' = s) := by
  simp only [step, Inner.markDisconnected, Option.some.injEq] at h
  by_cases hg : s.inner.generation = g
  · refine .inl ⟨hg, ?_⟩
    by_cases hphase : s.inner.phase = .connected
    · simpa [hg, hphase] using h.symm
    · simpa [hg, hphase] using h.symm
  · exact .inr ⟨hg, by simpa [hg] using h.symm⟩

end Worker

/-! ## The calls made so far -/

theorem open_snoc {as : List Event} {a : Event} {g : Nat} :
    Open (as ++ [a]) g ↔
      (a = .start true ∧ as.count (.start true) + 1 = g) ∨
      (Open as g ∧ a ≠ .requestStop ∧ a ≠ .fail g) := by
  constructor
  · rintro ⟨before, after, heq, hg, hstop, hfail⟩
    obtain rfl | ⟨after', b, rfl⟩ := List.eq_nil_or_concat after
    · obtain ⟨rfl, ha⟩ := List.append_inj' heq rfl
      cases ha
      exact .inl ⟨rfl, hg⟩
    · rw [List.concat_eq_append, ← List.cons_append, ← List.append_assoc] at heq
      obtain ⟨rfl, ha⟩ := List.append_inj' heq rfl
      cases ha
      simp only [List.concat_eq_append, List.mem_append, List.mem_singleton, not_or] at hstop hfail
      exact .inr ⟨⟨before, after', rfl, hg, hstop.1, hfail.1⟩, Ne.symm hstop.2, Ne.symm hfail.2⟩
  · rintro (⟨rfl, hg⟩ | ⟨⟨before, after, rfl, hg, hstop, hfail⟩, hne, hne'⟩)
    · exact ⟨as, [], rfl, hg, by simp, by simp⟩
    · refine ⟨before, after ++ [a], by simp, hg, ?_, ?_⟩
      · simpa using ⟨hstop, Ne.symm hne⟩
      · simpa using ⟨hfail, Ne.symm hne'⟩

/-- The current run is the last one started, and it is open exactly while the
phase is not stopped. -/
structure Current (as : List Event) (s : Worker) : Prop where
  generation : s.inner.generation = as.count (.start true)
  openRun : ∀ g, Open as g ↔ s.inner.phase ≠ .stopped ∧ g = s.inner.generation

namespace Current

variable {as : List Event} {s s' : Worker} {a : Event}

/-- A call that neither starts nor ends a run. -/
theorem keep (h : Current as s) (hstart : a ≠ .start true) (hstop : a ≠ .requestStop)
    (hfail : a ≠ .fail s.inner.generation) (hgen : s'.inner.generation = s.inner.generation)
    (hphase : s'.inner.phase = .stopped ↔ s.inner.phase = .stopped) : Current (as ++ [a]) s' where
  generation := by
    rw [hgen, h.generation, List.count_append, List.count_singleton]
    simp [hstart]
  openRun := by
    intro g
    rw [open_snoc, h.openRun, hgen, ne_eq s'.inner.phase, hphase]
    constructor
    · rintro (⟨ha, -⟩ | ⟨hopen, -, -⟩)
      · exact absurd ha hstart
      · exact hopen
    · rintro ⟨hopen, rfl⟩
      exact .inr ⟨⟨hopen, rfl⟩, hstop, hfail⟩

/-- A call that ends the run. -/
theorem stop (h : Current as s) (ha : a = .requestStop ∨ a = .fail s.inner.generation)
    (hgen : s'.inner.generation = s.inner.generation) (hphase : s'.inner.phase = .stopped) :
    Current (as ++ [a]) s' where
  generation := by
    rw [hgen, h.generation, List.count_append, List.count_singleton]
    obtain rfl | rfl := ha <;> simp
  openRun := by
    intro g
    rw [open_snoc, h.openRun]
    constructor
    · rintro (⟨rfl, -⟩ | ⟨⟨-, rfl⟩, hstop, hfail⟩)
      · obtain ha | ha := ha <;> cases ha
      · exact absurd ha (by simp [hstop, hfail])
    · rintro ⟨hopen, -⟩
      exact absurd hphase hopen

theorem step (h : Current as s) (ha : s.step a = some s') : Current (as ++ [a]) s' := by
  cases a with
  | start ok =>
    obtain ⟨rfl, hphase, rfl⟩ | ⟨rfl, -, rfl⟩ := Worker.step_start ha
    · refine ⟨by simp [h.generation], fun g => ?_⟩
      rw [open_snoc, h.openRun, ← h.generation]
      constructor
      · rintro (⟨-, rfl⟩ | ⟨⟨hopen, -⟩, -⟩)
        · exact ⟨by simp, rfl⟩
        · exact absurd hphase hopen
      · rintro ⟨-, rfl⟩
        exact .inl ⟨rfl, rfl⟩
    · exact h.keep (by simp) (by simp) (by simp) rfl Iff.rfl
  | requestStop =>
    cases ha
    exact h.stop (.inl rfl) rfl rfl
  | waitForStart =>
    obtain ⟨-, heq⟩ := Option.ite_none_right_eq_some.1 ha
    cases heq
    exact h.keep (by simp) (by simp) (by simp) rfl Iff.rfl
  | returned g =>
    obtain ⟨-, -, -, -, rfl⟩ := Worker.step_returned ha
    exact h.keep (by simp) (by simp) (by simp) rfl Iff.rfl
  | markConnected g cloned ok =>
    obtain ⟨-, -, hphase, rfl⟩ | ⟨-, rfl⟩ := Worker.step_markConnected ha
    · exact h.keep (by simp) (by simp) (by simp) rfl (by simp [hphase])
    · exact h.keep (by simp) (by simp) (by simp) rfl Iff.rfl
  | markDisconnected g =>
    obtain ⟨-, rfl⟩ | ⟨-, rfl⟩ := Worker.step_markDisconnected ha
    · refine h.keep (by simp) (by simp) (by simp) rfl ?_
      by_cases hphase : s.inner.phase = .connected
      · simp [hphase]
      · simp [hphase]
    · exact h.keep (by simp) (by simp) (by simp) rfl Iff.rfl
  | fail g =>
    obtain ⟨rfl, rfl⟩ | ⟨hg, rfl⟩ := Worker.step_fail ha
    · exact h.stop (.inr rfl) rfl rfl
    · exact h.keep (by simp) (by simp) (by simpa using Ne.symm hg) rfl Iff.rfl

end Current

/-- The runs `wait_for_start` returned are in the order of the starts. -/
structure Returned (as : List Event) (s : Worker) : Prop where
  served_le : ∀ g, s.served = some g → g ≤ s.inner.generation
  le_served : ∀ g ∈ as.filterMap Event.returned?, g ≤ s.served.getD 0
  increasing : (as.filterMap Event.returned?).Pairwise (· < ·)

namespace Returned

variable {as : List Event} {s s' : Worker} {a : Event}

theorem keep (h : Returned as s) (ha : a.returned? = none) (hserved : s'.served = s.served)
    (hgen : s.inner.generation ≤ s'.inner.generation) : Returned (as ++ [a]) s' where
  served_le := by
    intro g hg
    have := h.served_le g (hserved ▸ hg)
    omega
  le_served := by
    rw [hserved]
    simpa [List.filterMap_append, ha] using h.le_served
  increasing := by simpa [List.filterMap_append, ha] using h.increasing

theorem step (h : Returned as s) (ha : s.step a = some s') : Returned (as ++ [a]) s' := by
  cases a with
  | start ok =>
    obtain ⟨-, -, rfl⟩ | ⟨-, -, rfl⟩ := Worker.step_start ha
    · exact h.keep rfl rfl (Nat.le_succ _)
    · exact h.keep rfl rfl (Nat.le_refl _)
  | requestStop =>
    cases ha
    exact h.keep rfl rfl (Nat.le_refl _)
  | waitForStart =>
    obtain ⟨-, heq⟩ := Option.ite_none_right_eq_some.1 ha
    cases heq
    exact h.keep rfl rfl (Nat.le_refl _)
  | returned g =>
    obtain ⟨-, -, hnew, rfl, rfl⟩ := Worker.step_returned ha
    have hserved : s.served.getD 0 ≤ s.inner.generation := by
      cases hs : s.served with
      | none => exact Nat.zero_le _
      | some g => exact h.served_le g hs
    have hlt : ∀ g ∈ as.filterMap Event.returned?, g < s.inner.generation := by
      intro g hg
      have := h.le_served g hg
      omega
    refine ⟨fun g hg => by cases hg; exact Nat.le_refl _, ?_, ?_⟩
    · intro g hg
      simp only [List.filterMap_append, List.mem_append] at hg
      show g ≤ s.inner.generation
      obtain hg | hg := hg
      · exact Nat.le_of_lt (hlt g hg)
      · simp [Event.returned?] at hg
        omega
    · simp only [List.filterMap_append, List.pairwise_append]
      refine ⟨h.increasing, by simp [Event.returned?], fun g hg g' hg' => ?_⟩
      simp [Event.returned?] at hg'
      rw [hg']
      exact hlt g hg
  | markConnected g cloned ok =>
    obtain ⟨-, -, -, rfl⟩ | ⟨-, rfl⟩ := Worker.step_markConnected ha
    · exact h.keep rfl rfl (Nat.le_refl _)
    · exact h.keep rfl rfl (Nat.le_refl _)
  | markDisconnected g =>
    obtain ⟨-, rfl⟩ | ⟨-, rfl⟩ := Worker.step_markDisconnected ha
    · exact h.keep rfl rfl (Nat.le_refl _)
    · exact h.keep rfl rfl (Nat.le_refl _)
  | fail g =>
    obtain ⟨-, rfl⟩ | ⟨-, rfl⟩ := Worker.step_fail ha
    · exact h.keep rfl rfl (Nat.le_refl _)
    · exact h.keep rfl rfl (Nat.le_refl _)

end Returned

/-! ## Sockets -/

/-- The stored clone belongs to the current run, which is connected, and no other
clone is still open. -/
structure Sockets (s : Worker) : Prop where
  owned : ∀ i, s.inner.socket = some i →
    s.inner.phase = .connected ∧ s.clones[i]? = some ⟨s.inner.generation, .stored⟩
  stored : ∀ i c, s.clones[i]? = some c → c.fate = .stored → s.inner.socket = some i

namespace Sockets

variable {s s' : Worker} {a : Event}

/-- Closing the stored clone leaves none open. -/
theorem closeSocket (h : Sockets s) (fate : Fate) (hfate : fate ≠ .stored) {i : Nat} {c : Clone}
    (hc : (s.closeSocket fate)[i]? = some c) : c.fate ≠ .stored := by
  intro hstored
  unfold Worker.closeSocket at hc
  cases hsocket : s.inner.socket with
  | none =>
    rw [hsocket] at hc
    have := h.stored i c hc hstored
    rw [hsocket] at this
    cases this
  | some j =>
    simp only [hsocket, List.getElem?_modify] at hc
    obtain ⟨c', hc', rfl⟩ := Option.map_eq_some_iff.1 hc
    by_cases hij : j = i
    · simp only [hij, if_true] at hstored
      exact hfate hstored
    · simp only [hij, if_false] at hstored
      have := h.stored i c' hc' hstored
      rw [hsocket] at this
      cases this
      exact hij rfl

theorem closed (h : Sockets s) (fate : Fate) (hfate : fate ≠ .stored)
    (hsocket : s'.inner.socket = none) (hclones : s'.clones = s.closeSocket fate) : Sockets s' where
  owned := by
    intro i hi
    rw [hsocket] at hi
    cases hi
  stored := by
    intro i c hc hstored
    rw [hclones] at hc
    exact absurd hstored (h.closeSocket fate hfate hc)

theorem step (h : Sockets s) (ha : s.step a = some s') : Sockets s' := by
  cases a with
  | start ok =>
    obtain ⟨-, hphase, rfl⟩ | ⟨-, -, rfl⟩ := Worker.step_start ha
    · refine ⟨fun i hi => ?_, h.stored⟩
      have := (h.owned i hi).1
      rw [hphase] at this
      cases this
    · exact h
  | requestStop =>
    cases ha
    exact h.closed .shutDown (by decide) rfl rfl
  | waitForStart =>
    obtain ⟨-, heq⟩ := Option.ite_none_right_eq_some.1 ha
    cases heq
    exact ⟨h.owned, h.stored⟩
  | returned g =>
    obtain ⟨-, -, -, -, rfl⟩ := Worker.step_returned ha
    exact ⟨h.owned, h.stored⟩
  | markConnected g cloned ok =>
    obtain ⟨-, hg, -, rfl⟩ | ⟨-, rfl⟩ := Worker.step_markConnected ha
    · have hclosed := fun i c => h.closeSocket .dropped (by decide) (i := i) (c := c)
      cases cloned with
      | false => exact h.closed .dropped (by decide) rfl rfl
      | true =>
        refine ⟨fun i hi => ?_, fun i c hc hstored => ?_⟩
        · cases hi
          exact ⟨rfl, by simp [hg]⟩
        · obtain hi | hi := Nat.lt_or_ge i (s.closeSocket .dropped).length
          · simp only [if_true, List.getElem?_append_left hi] at hc
            exact absurd hstored (hclosed i c hc)
          · simp only [if_true, List.getElem?_append_right hi] at hc
            obtain ⟨hlt, -⟩ := List.getElem?_eq_some_iff.1 hc
            simp only [List.length_singleton] at hlt
            show some _ = some i
            congr 1
            omega
    · exact h
  | markDisconnected g =>
    obtain ⟨-, rfl⟩ | ⟨-, rfl⟩ := Worker.step_markDisconnected ha
    · exact h.closed .dropped (by decide) rfl rfl
    · exact h
  | fail g =>
    obtain ⟨-, rfl⟩ | ⟨-, rfl⟩ := Worker.step_fail ha
    · exact h.closed .dropped (by decide) rfl rfl
    · exact h

end Sockets

/-! ## Serving -/

/-- Only the worker's own next `wait_for_start` ends its serving. -/
theorem Worker.step_serving {s s' : Worker} {a : Event} (h : s.step a = some s')
    (ha : a ≠ .waitForStart) (hs : s.inner.serving = true) : s'.inner.serving = true := by
  cases a with
  | start ok => obtain ⟨-, -, rfl⟩ | ⟨-, -, rfl⟩ := step_start h <;> exact hs
  | requestStop =>
    cases h
    exact hs
  | waitForStart => exact absurd rfl ha
  | returned g =>
    obtain ⟨-, -, -, -, rfl⟩ := step_returned h
    rfl
  | markConnected g cloned ok => obtain ⟨-, -, -, rfl⟩ | ⟨-, rfl⟩ := step_markConnected h <;> exact hs
  | markDisconnected g => obtain ⟨-, rfl⟩ | ⟨-, rfl⟩ := step_markDisconnected h <;> exact hs
  | fail g => obtain ⟨-, rfl⟩ | ⟨-, rfl⟩ := step_fail h <;> exact hs

theorem Worker.run_serving {s s' : Worker} {as : List Event} (h : workerSystem.Run s as s')
    (hs : s.inner.serving = true) : .waitForStart ∉ as → s'.inner.serving = true := by
  refine h.history (P := fun as t => .waitForStart ∉ as → t.inner.serving = true) (fun _ => hs) ?_
  intro as t a t' ih hstep ha
  simp only [List.mem_append, List.mem_singleton, not_or] at ha
  exact step_serving hstep (Ne.symm ha.2) (ih ha.1)

/-! ## Every run -/

theorem run_current {as : List Event} {s : Worker} (h : workerSystem.Run .init as s) :
    Current as s := by
  refine h.history ⟨rfl, fun g => ⟨?_, fun h => absurd rfl h.1⟩⟩ fun _ _ _ _ hs ha => hs.step ha
  rintro ⟨before, after, heq, -⟩
  simp at heq

theorem run_returned {as : List Event} {s : Worker} (h : workerSystem.Run .init as s) :
    Returned as s := by
  refine h.history ⟨fun g hg => ?_, by simp, by simp⟩ fun _ _ _ _ hs ha => hs.step ha
  cases hg

theorem run_sockets {as : List Event} {s : Worker} (h : workerSystem.Run .init as s) :
    Sockets s := by
  refine h.keeps (fun _ _ _ hs hstep => hs.step hstep) ⟨fun i hi => ?_, fun i c hc => ?_⟩
  · cases hi
  · simp [Worker.init] at hc

/-- **Runs are isolated.**  In every run of the system: a start succeeds only when no
earlier run is open; `wait_for_start` returns open runs, each later than the last;
a clone not shut down or dropped is the stored one, and its run is open; the worker
is not parked between a return of `wait_for_start` and its next call; and a call
that carries an old `Generation` changes neither the phase nor the socket. -/
theorem runs_isolated {as : List Event} {s : Worker} (hrun : workerSystem.Run .init as s) :
    (∀ before between after, as = before ++ .start true :: between ++ .start true :: after →
      .requestStop ∈ between ∨ .fail (before.count (.start true) + 1) ∈ between) ∧
    (as.filterMap Event.returned?).Pairwise (· < ·) ∧
    (∀ before g after, as = before ++ .returned g :: after → Open before g) ∧
    (∀ i c, s.clones[i]? = some c → c.fate = .stored →
      s.inner.socket = some i ∧ c.owner = s.inner.generation ∧ Open as c.owner) ∧
    (∀ before g after, as = before ++ .returned g :: after → .waitForStart ∉ after →
      s.inner.parked = false) ∧
    (∀ g s', g ≠ s.inner.generation →
      (∀ cloned ok, s.step (.markConnected g cloned ok) = some s' → ok = false ∧ s' = s) ∧
      (s.step (.markDisconnected g) = some s' → s' = s) ∧
      (s.step (.fail g) = some s' → s' = s)) := by
  refine ⟨?_, (run_returned hrun).increasing, ?_, ?_, ?_, ?_⟩
  · rintro before between after rfl
    obtain ⟨r, hr, hrest⟩ := hrun.of_append
    obtain ⟨r', hstart, -⟩ := hrest.of_cons
    by_contra hnone
    rw [not_or] at hnone
    have hopen : Open (before ++ .start true :: between) _ :=
      ⟨before, between, rfl, rfl, hnone.1, hnone.2⟩
    obtain ⟨-, hphase, -⟩ | ⟨hok, -⟩ := Worker.step_start hstart
    · exact ((run_current hr).openRun _).1 hopen |>.1 hphase
    · cases hok
  · rintro before g after rfl
    obtain ⟨r, hr, hrest⟩ := hrun.of_append
    obtain ⟨r', hreturned, -⟩ := hrest.of_cons
    obtain ⟨-, hphase, -, hg, -⟩ := Worker.step_returned hreturned
    exact ((run_current hr).openRun g).2 ⟨hphase, hg⟩
  · intro i c hc hstored
    have hsocket := (run_sockets hrun).stored i c hc hstored
    obtain ⟨hphase, hi⟩ := (run_sockets hrun).owned i hsocket
    rw [hc] at hi
    cases hi
    exact ⟨hsocket, rfl, ((run_current hrun).openRun _).2 ⟨by simp [hphase], rfl⟩⟩
  · rintro before g after rfl hnone
    obtain ⟨r, -, hrest⟩ := hrun.of_append
    obtain ⟨r', hreturned, hafter⟩ := hrest.of_cons
    obtain ⟨-, -, -, -, rfl⟩ := Worker.step_returned hreturned
    simp [Inner.parked, Worker.run_serving hafter rfl hnone]
  · intro g s' hg
    refine ⟨fun cloned ok h => ?_, fun h => ?_, fun h => ?_⟩
    · obtain ⟨-, hgen, -⟩ | ⟨hok, rfl⟩ := Worker.step_markConnected h
      · exact absurd hgen.symm hg
      · exact ⟨hok, rfl⟩
    · obtain ⟨hgen, -⟩ | ⟨-, rfl⟩ := Worker.step_markDisconnected h
      · exact absurd hgen.symm hg
      · rfl
    · obtain ⟨hgen, -⟩ | ⟨-, rfl⟩ := Worker.step_fail h
      · exact absurd hgen.symm hg
      · rfl

/-- The first run's clone is shut down by the stop; its late calls find the second run. -/
def lateCalls : List Event :=
  [.start true, .start false, .waitForStart, .returned 1, .markConnected 1 true true, .requestStop,
    .start true, .markConnected 1 true false, .waitForStart, .returned 2,
    .markConnected 2 true true, .fail 1, .markDisconnected 1]

theorem runs_isolated_lateCalls :
    ∃ s : Worker, s.inner.phase = .connected ∧ s.clones = [⟨1, .shutDown⟩, ⟨2, .stored⟩] ∧
      (lateCalls.filterMap Event.returned?).Pairwise (· < ·) ∧ s.inner.socket = some 1 ∧
      Open lateCalls 2 := by
  have hrun : lateCalls.foldlM Worker.step .init =
      some ⟨⟨.connected, 2, some 1, true⟩, some 2, false, [⟨1, .shutDown⟩, ⟨2, .stored⟩]⟩ := by
    decide +kernel
  obtain ⟨-, hreturned, -, hclone, -⟩ := runs_isolated (System.run_ofFun hrun)
  obtain ⟨hsocket, -, hopen⟩ := hclone 1 ⟨2, .stored⟩ rfl rfl
  exact ⟨_, rfl, rfl, hreturned, hsocket, hopen⟩

end TimePix
