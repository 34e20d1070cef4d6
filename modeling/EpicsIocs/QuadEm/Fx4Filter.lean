import EpicsIocs.QuadEm.Fx4

/-! # The trigger filter of the FX4

Which samples the filter lets through (`Fx4Cache.apply`), said of the events before each: with an
external trigger the first `numAverage` samples after the last active gate event, with an external
gate or bulb the samples whose last gate event is not the inactive level (`admits`).

`Tracks.events`: from any history of events on, a walk over more events lets through what is
admitted.  `passed_sorted`: over events in the order of time this is a filter on the samples. -/

namespace QuadEm

variable {F : Type}

/-! ## What is let through -/

def i32Max : Nat := 2 ^ 31 - 1

theorem wrapI32_of_le {n : Nat} (h : n ≤ i32Max) : wrapI32 n = n := by
  unfold wrapI32 i32Max at *
  exact Int.bmod_eq_of_le (by omega) (by omega)

namespace EventKind

def level? : EventKind F → Option GateLevel
  | gate high => some (.ofBool high)
  | adc _ => none

def values? : EventKind F → Option (Chan → F)
  | gate _ => none
  | adc values => some values

/-- A gate event at the level that arms the trigger. -/
def isActive (cfg : TriggerConfig) (kind : EventKind F) : Bool :=
  kind.level? = some (activeLevel cfg.polarity)

end EventKind

def Fx4Action.values? : Fx4Action F → Option (Chan → F)
  | .sample values => some values
  | .bulbTrigger => none

/-- The level of the last gate event. -/
def lastLevel (before : List (EventKind F)) : GateLevel :=
  (before.filterMap EventKind.level?).getLast?.getD .unknown

/-- The samples behind the last active gate event. -/
def sinceActive (cfg : TriggerConfig) (before : List (EventKind F)) : Nat :=
  ((before.reverse.takeWhile fun kind => !kind.isActive cfg).filterMap EventKind.values?).length

/-- A sample is let through behind these events: with an external trigger when it is among the
first `numAverage` after the last active gate event, with a gate when the last gate event before it
is not the inactive level. -/
def admits (cfg : TriggerConfig) (before : List (EventKind F)) : Bool :=
  match cfg.mode with
  | .freeRun => true
  | .software => true
  | .extTrigger => before.any (·.isActive cfg) && decide (sinceActive cfg before + 1 ≤ cfg.numAverage)
  | .extBulb => lastLevel before ≠ inactiveLevel cfg.polarity
  | .extGate => lastLevel before ≠ inactiveLevel cfg.polarity

/-- The samples of `kinds` that are let through, `before` them the events so far. -/
def passed (cfg : TriggerConfig) (before : List (EventKind F)) :
    List (EventKind F) → List (Chan → F)
  | [] => []
  | .gate high :: kinds => passed cfg (before ++ [.gate high]) kinds
  | .adc values :: kinds =>
    (if admits cfg before then [values] else []) ++ passed cfg (before ++ [.adc values]) kinds

theorem lastLevel_concat (before : List (EventKind F)) (kind : EventKind F) :
    lastLevel (before ++ [kind]) = kind.level?.getD (lastLevel before) := by
  cases kind <;> simp [lastLevel, EventKind.level?]

theorem sinceActive_concat (cfg : TriggerConfig) (before : List (EventKind F))
    (kind : EventKind F) : sinceActive cfg (before ++ [kind]) =
      if kind.isActive cfg then 0
      else sinceActive cfg before + kind.values?.toList.length := by
  unfold sinceActive
  rw [List.reverse_concat, List.takeWhile_cons]
  cases hactive : kind.isActive cfg with
  | true => rfl
  | false => cases kind <;> simp [List.filterMap_cons, EventKind.values?]

theorem sinceActive_le (cfg : TriggerConfig) (before : List (EventKind F)) :
    sinceActive cfg before ≤ (before.filterMap EventKind.values?).length := by
  unfold sinceActive
  have hsub := (List.takeWhile_sublist (l := before.reverse)
    fun kind => !kind.isActive cfg).filterMap EventKind.values?
  have hle := hsub.length_le
  rwa [List.filterMap_reverse, List.length_reverse] at hle

theorem passed_append (cfg : TriggerConfig) (before xs ys : List (EventKind F)) :
    passed cfg before (xs ++ ys) = passed cfg before xs ++ passed cfg (before ++ xs) ys := by
  induction xs generalizing before with
  | nil => simp [passed]
  | cons kind xs ih => cases kind <;> simp [passed, ih]

namespace Fx4Cache

/-- The trigger's state after the events `before`. -/
structure Tracks (cfg : TriggerConfig) (cache : Fx4Cache F) (before : List (EventKind F)) :
    Prop where
  level : cache.gateLevel = lastLevel before
  armed : cfg.mode = .extTrigger → (cache.triggerActive = true ↔
    before.any (·.isActive cfg) = true ∧
      (sinceActive cfg before = 0 ∨ sinceActive cfg before ≤ cfg.numAverage))
  count : cfg.mode = .extTrigger → cache.triggerActive = true →
    cache.numTriggerValues = sinceActive cfg before

variable {cfg : TriggerConfig} {cache : Fx4Cache F} {before : List (EventKind F)}

/-- A step of the filter: it touches the trigger's state only, and lets `values` through. -/
def Filters (cfg : TriggerConfig) (cache : Fx4Cache F) (before kinds : List (EventKind F))
    (step : Fx4Cache F × List (Fx4Action F) → Fx4Cache F × List (Fx4Action F)) : Prop :=
  ∀ actions, ∃ gateLevel triggerActive numTriggerValues new,
    step (cache, actions) =
        ({ cache with gateLevel, triggerActive, numTriggerValues }, actions ++ new) ∧
      ({ cache with gateLevel, triggerActive, numTriggerValues } : Fx4Cache F).Tracks cfg
        (before ++ kinds) ∧ new.filterMap Fx4Action.values? = passed cfg before kinds

theorem passGate_spec (s : Fx4Cache F × List (Fx4Action F)) (values : Chan → F) :
    passGate cfg s values = (s.1, s.2 ++
      if (cfg.mode = .extGate ∨ cfg.mode = .extBulb) ∧ s.1.gateLevel = inactiveLevel cfg.polarity
        then [] else [.sample values]) := by
  unfold passGate
  split
  · rw [List.append_nil]
  · rfl

theorem Tracks.passive (h : cache.Tracks cfg before) {high : Bool}
    (hpassive : ¬(cfg.mode = .extTrigger ∧ GateLevel.ofBool high = activeLevel cfg.polarity)) :
    ({ cache with gateLevel := .ofBool high } : Fx4Cache F).Tracks cfg
      (before ++ [.gate high]) where
  level := by
    rw [lastLevel_concat]
    rfl
  armed := by
    intro hmode
    have hne : (EventKind.gate (F := F) high).isActive cfg = false := by
      simpa [EventKind.isActive, EventKind.level?, hmode] using hpassive
    rw [List.any_append, sinceActive_concat, hne]
    simpa [EventKind.values?, hne] using h.armed hmode
  count := by
    intro hmode hactive
    have hne : (EventKind.gate (F := F) high).isActive cfg = false := by
      simpa [EventKind.isActive, EventKind.level?, hmode] using hpassive
    rw [sinceActive_concat, hne]
    simpa [EventKind.values?] using h.count hmode hactive

theorem Tracks.gate (h : cache.Tracks cfg before) (high : Bool) :
    Filters cfg cache before [.gate high] fun s => applyGate cfg s (.ofBool high) := by
  intro actions
  by_cases htrigger : cfg.mode = .extTrigger ∧ GateLevel.ofBool high = activeLevel cfg.polarity
  · have hactive : (EventKind.gate (F := F) high).isActive cfg = true := by
      simp [EventKind.isActive, EventKind.level?, htrigger.2]
    refine ⟨.ofBool high, true, 0, [], ?_, ⟨?_, fun _ => ?_, fun _ _ => ?_⟩, rfl⟩
    · simp [applyGate, htrigger]
    · rw [lastLevel_concat]
      rfl
    · rw [List.any_append, sinceActive_concat, if_pos hactive]
      simp [hactive]
    · rw [sinceActive_concat, if_pos hactive]
      rfl
  · have hpassive := h.passive htrigger
    by_cases hbulb : cfg.mode = .extBulb ∧ GateLevel.ofBool high = inactiveLevel cfg.polarity
    · refine ⟨.ofBool high, cache.triggerActive, cache.numTriggerValues, [.bulbTrigger], ?_,
        hpassive, rfl⟩
      simp only [applyGate]
      rw [if_neg htrigger, if_pos hbulb]
    · refine ⟨.ofBool high, cache.triggerActive, cache.numTriggerValues, [], ?_, hpassive, rfl⟩
      simp only [applyGate]
      rw [if_neg htrigger, if_neg hbulb, List.append_nil]

/-- With an external trigger a sample is counted while the trigger is armed. -/
theorem Tracks.triggered (h : cache.Tracks cfg before) (hmode : cfg.mode = .extTrigger)
    (values : Chan → F)
    (hcount : cfg.numAverage < i32Max ∨ sinceActive cfg before + 1 ≤ i32Max) :
    Filters cfg cache before [.adc values] fun s => applyAdc cfg s values := by
  intro actions
  have harmed := h.armed hmode
  have hadmits : admits cfg before = (before.any (·.isActive cfg) &&
      decide (sinceActive cfg before + 1 ≤ cfg.numAverage)) := by
    simp [admits, hmode]
  have hlevel : cache.gateLevel = lastLevel (before ++ [.adc values]) := by
    rw [lastLevel_concat]
    exact h.level
  have hpassive : (EventKind.adc values).isActive cfg = false := by
    simp [EventKind.isActive, EventKind.level?]
  have hany : (before ++ [EventKind.adc values]).any (·.isActive cfg) =
      before.any (·.isActive cfg) := by
    simp [hpassive]
  have hsince : sinceActive cfg (before ++ [.adc values]) = sinceActive cfg before + 1 := by
    simp [sinceActive_concat, hpassive, EventKind.values?]
  cases hactive : cache.triggerActive with
  | false =>
    have hoff : ¬(before.any (·.isActive cfg) = true ∧
        (sinceActive cfg before = 0 ∨ sinceActive cfg before ≤ cfg.numAverage)) := by
      rw [← harmed, hactive]
      decide
    refine ⟨cache.gateLevel, cache.triggerActive, cache.numTriggerValues, [], ?_,
      ⟨hlevel, fun _ => ?_, fun _ htrue => ?_⟩, ?_⟩
    · simp only [applyAdc]
      rw [if_pos hmode, if_neg (by rw [hactive]; decide), List.append_nil]
    · rw [hany, hsince, hactive]
      refine iff_of_false Bool.false_ne_true fun hon => hoff ⟨hon.1, ?_⟩
      omega
    · rw [hactive] at htrue
      cases htrue
    · rw [passed, passed, hadmits, List.append_nil, if_neg]
      · rfl
      · rw [Bool.and_eq_true, decide_eq_true_eq]
        exact fun hon => hoff ⟨hon.1, by omega⟩
  | true =>
    obtain ⟨hon, hfits⟩ := harmed.1 hactive
    have hnum := h.count hmode hactive
    have hwrap : wrapI32 (cache.numTriggerValues + 1) = (sinceActive cfg before + 1 : Nat) := by
      have hle : sinceActive cfg before + 1 ≤ i32Max := by
        unfold i32Max at *
        omega
      rw [hnum]
      exact_mod_cast wrapI32_of_le hle
    by_cases hover : cfg.numAverage < (sinceActive cfg before + 1 : Nat)
    · refine ⟨cache.gateLevel, false, (sinceActive cfg before + 1 : Nat), [], ?_,
        ⟨hlevel, fun _ => ?_, fun _ htrue => ?_⟩, ?_⟩
      · simp only [applyAdc]
        rw [if_pos hmode, if_pos hactive, hwrap, if_pos hover, List.append_nil]
      · rw [hany, hsince]
        refine iff_of_false Bool.false_ne_true fun hon => ?_
        omega
      · cases htrue
      · rw [passed, passed, hadmits, List.append_nil, if_neg]
        · rfl
        · rw [Bool.and_eq_true, decide_eq_true_eq]
          omega
    · refine ⟨cache.gateLevel, cache.triggerActive, (sinceActive cfg before + 1 : Nat),
        [.sample values], ?_, ⟨hlevel, fun _ => ?_, fun _ _ => ?_⟩, ?_⟩
      · simp only [applyAdc]
        rw [if_pos hmode, if_pos hactive, hwrap, if_neg hover, passGate_spec, if_neg]
        simp [hmode]
      · rw [hany, hsince, hactive]
        exact iff_of_true rfl ⟨hon, Or.inr (by omega)⟩
      · rw [hsince]
      · rw [passed, passed, hadmits, List.append_nil, if_pos]
        · rfl
        · rw [Bool.and_eq_true, decide_eq_true_eq]
          exact ⟨hon, by omega⟩

theorem Tracks.gated (h : cache.Tracks cfg before) (hmode : cfg.mode ≠ .extTrigger)
    (values : Chan → F) :
    Filters cfg cache before [.adc values] fun s => applyAdc cfg s values := by
  intro actions
  have hlevel : cache.gateLevel = lastLevel (before ++ [.adc values]) := by
    rw [lastLevel_concat]
    exact h.level
  refine ⟨cache.gateLevel, cache.triggerActive, cache.numTriggerValues,
    if (cfg.mode = .extGate ∨ cfg.mode = .extBulb) ∧ cache.gateLevel = inactiveLevel cfg.polarity
      then [] else [.sample values], ?_,
    ⟨hlevel, fun hm => absurd hm hmode, fun hm => absurd hm hmode⟩, ?_⟩
  · simp only [applyAdc]
    rw [if_neg hmode, passGate_spec]
  · rw [passed, passed, List.append_nil, h.level]
    unfold admits
    cases hm : cfg.mode with
    | extTrigger => exact absurd hm hmode
    | freeRun => simp [Fx4Action.values?]
    | software => simp [Fx4Action.values?]
    | extBulb => by_cases hl : lastLevel before = inactiveLevel cfg.polarity <;>
        simp [hl, Fx4Action.values?]
    | extGate => by_cases hl : lastLevel before = inactiveLevel cfg.polarity <;>
        simp [hl, Fx4Action.values?]

end Fx4Cache

def TimedEvent.whole? (event : TimedEvent F) : Option (Whole F) :=
  event.kind.values?.map fun values => ⟨event.time, values⟩

/-- The modes whose samples are filtered. -/
def QeTriggerMode.external : QeTriggerMode → Bool
  | .freeRun => false
  | .software => false
  | .extTrigger => true
  | .extBulb => true
  | .extGate => true

theorem passed_unfiltered {cfg : TriggerConfig} (hmode : cfg.mode.external = false)
    (before kinds : List (EventKind F)) :
    passed cfg before kinds = kinds.filterMap EventKind.values? := by
  have hadmits : ∀ before : List (EventKind F), admits cfg before = true := by
    intro before
    unfold admits
    cases hm : cfg.mode with
    | freeRun => rfl
    | software => rfl
    | extTrigger => rw [hm] at hmode; cases hmode
    | extBulb => rw [hm] at hmode; cases hmode
    | extGate => rw [hm] at hmode; cases hmode
  induction kinds generalizing before with
  | nil => rfl
  | cons kind kinds ih =>
    cases kind with
    | gate high => exact ih _
    | adc values =>
      rw [passed, if_pos (hadmits before), ih]
      rfl

/-- In the order of time, a sample is let through by the events older than it. -/
theorem passed_sorted (cfg : TriggerConfig) (done events : List (TimedEvent F))
    (hsorted : (done ++ events).Pairwise fun a b => a.time < b.time) :
    passed cfg (done.map (·.kind)) (events.map (·.kind)) =
      ((events.filterMap TimedEvent.whole?).filter fun whole =>
        admits cfg (((done ++ events).filter (·.time < whole.time)).map (·.kind))).map
          (·.values) := by
  induction events generalizing done with
  | nil => rfl
  | cons event events ih =>
    have hbefore : (done ++ event :: events).filter (·.time < event.time) = done := by
      obtain ⟨-, hevents, hdone⟩ := List.pairwise_append.1 hsorted
      obtain ⟨hlater, -⟩ := List.pairwise_cons.1 hevents
      rw [List.filter_append, List.filter_eq_self.2, List.filter_eq_nil_iff.2, List.append_nil]
      · intro e he
        obtain rfl | he := List.mem_cons.1 he
        · simp
        · have := hlater e he
          simp only [decide_eq_true_eq]
          omega
      · intro e he
        have := hdone e he event List.mem_cons_self
        simpa using this
    have hassoc : done ++ event :: events = (done ++ [event]) ++ events := by simp
    have hrest := ih (done ++ [event]) (hassoc ▸ hsorted)
    rw [← hassoc, List.map_append, List.map_singleton] at hrest
    obtain ⟨time, kind⟩ := event
    cases kind with
    | gate high => exact hrest
    | adc values =>
      have hwhole : (⟨time, .adc values⟩ : TimedEvent F).whole? = some ⟨time, values⟩ := rfl
      rw [List.map_cons, passed, hrest, List.filterMap_cons_some hwhole, List.filter_cons]
      dsimp only at hbefore ⊢
      rw [hbefore]
      split <;> rfl

namespace Fx4Cache

variable {cfg : TriggerConfig} {cache : Fx4Cache F} {before : List (EventKind F)}

theorem Tracks.event (h : cache.Tracks cfg before) (event : TimedEvent F)
    (hcount : cfg.mode = .extTrigger → cfg.numAverage < i32Max ∨
      ((before ++ [event.kind]).filterMap EventKind.values?).length ≤ i32Max) :
    Filters cfg cache before [event.kind] fun s => applyEvent cfg s event := by
  obtain ⟨time, kind⟩ := event
  cases kind with
  | gate high => exact h.gate high
  | adc values =>
    by_cases hmode : cfg.mode = .extTrigger
    · refine h.triggered hmode values ((hcount hmode).imp_right fun hle => ?_)
      have hsince := sinceActive_le cfg before
      rw [List.filterMap_append, List.length_append] at hle
      exact (Nat.add_le_add_right hsince 1).trans hle
    · exact h.gated hmode values

/-- **The filter.**  Whatever came before, it lets through the samples of the events that are
admitted behind the events before them. -/
theorem Tracks.events (h : cache.Tracks cfg before) (events : List (TimedEvent F))
    (hcount : cfg.mode = .extTrigger → cfg.numAverage < i32Max ∨
      ((before ++ events.map (·.kind)).filterMap EventKind.values?).length ≤ i32Max) :
    Filters cfg cache before (events.map (·.kind)) fun s => events.foldl (applyEvent cfg) s := by
  induction events generalizing cache before with
  | nil =>
    intro actions
    refine ⟨cache.gateLevel, cache.triggerActive, cache.numTriggerValues, [], ?_, ?_, rfl⟩
    · rw [List.append_nil]
      rfl
    · rw [List.map_nil, List.append_nil]
      exact h
  | cons event events ih =>
    intro actions
    have hassoc : before ++ (event :: events).map (·.kind) =
        (before ++ [event.kind]) ++ events.map (·.kind) := by simp
    rw [hassoc] at hcount ⊢
    obtain ⟨level, active, count, new, hstep, htracks, hnew⟩ := h.event event
      (fun hmode => (hcount hmode).imp_right fun hle => by
        rw [List.filterMap_append, List.length_append] at hle
        omega) actions
    obtain ⟨level', active', count', new', hsteps, htracks', hnew'⟩ := ih htracks hcount
      (actions ++ new)
    refine ⟨level', active', count', new ++ new', ?_, htracks', ?_⟩
    · dsimp only at hstep hsteps ⊢
      rw [List.foldl_cons, hstep, hsteps, List.append_assoc]
    · rw [List.filterMap_append, hnew, hnew', ← passed_append]
      rfl

end Fx4Cache

end QuadEm
