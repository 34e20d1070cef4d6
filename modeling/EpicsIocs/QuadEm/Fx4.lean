import EpicsIocs.Lib.Keyed
import EpicsIocs.Lib.Steps
import Mathlib.Data.List.FinRange
import Mathlib.Data.String.Basic

/-! # The sample cache of the FX4

The FX4 answers with lists of `[value, timestamp]` pairs, one list for each of its four channels
and one for its gate.  `Fx4Cache.ingest` caches the samples of the channels, merges them by their
place in the caches into whole samples, sorts these among the gate events of the message, and runs
the result through the trigger filter (`fx4_proto.rs`).

* `scan_spec`: what a message puts into the caches, and its gate events.
* `mergeAdc_first`, `mergeAdc_synchronized`: the samples at the front of all four caches become
  whole ones; `mergeAdc_clear`: before the first merge, caches of different lengths are cleared.

A timestamp is a number of nanoseconds and their differences are exact.  The lines that `ingest`
traces are left out. -/

namespace QuadEm

/-! ## Messages -/

/-- A JSON value; a number as what it reads as an `i64`, if it is one, and as an `f64`. -/
inductive Json (F : Type) where
  | null
  | bool (value : Bool)
  | number (i64 : Option Int) (f64 : F)
  | string (value : String)
  | array (items : List (Json F))
  | object (members : List (String × Json F))

namespace Json

variable {F : Type}

def asBool : Json F → Option Bool
  | .bool value => some value
  | _ => none

def asI64 : Json F → Option Int
  | .number i64 _ => i64
  | _ => none

def asF64 : Json F → Option F
  | .number _ f64 => some f64
  | _ => none

def asArray : Json F → Option (List (Json F))
  | .array items => some items
  | _ => none

def asObject : Json F → Option (List (String × Json F))
  | .object members => some members
  | _ => none

end Json

abbrev fx4NumChans : Nat := 4

abbrev Chan := Fin fx4NumChans

def adcPath : Chan → String
  | 0 => "/fx4/adc/channel_1/value"
  | 1 => "/fx4/adc/channel_2/value"
  | 2 => "/fx4/adc/channel_3/value"
  | 3 => "/fx4/adc/channel_4/value"

def gatePath : String := "/fx4/gpio_0/22/readback/value"

/-- What a path's values are. -/
inductive Source where
  | gate
  | adc (chan : Chan)
  deriving DecidableEq, Repr

def sourceOf (path : String) : Option Source :=
  if path = gatePath then some .gate
  else ((List.finRange fx4NumChans).find? fun chan => adcPath chan = path).map .adc

/-! ## Events -/

inductive GateLevel where
  | low
  | high
  | unknown
  deriving DecidableEq, Repr

inductive QeTriggerMode where
  | freeRun
  | software
  | extTrigger
  | extBulb
  | extGate
  deriving DecidableEq, Repr

inductive QeTriggerPolarity where
  | positive
  | negative
  deriving DecidableEq, Repr

/-- `numAverage` is how many samples one external trigger admits. -/
structure TriggerConfig where
  mode : QeTriggerMode
  polarity : QeTriggerPolarity
  numAverage : Int
  deriving DecidableEq, Repr

/-- The gate level that opens the gate, or arms the trigger. -/
def activeLevel : QeTriggerPolarity → GateLevel
  | .positive => .high
  | .negative => .low

/-- The gate level that closes the gate, or fires the bulb's callback. -/
def inactiveLevel : QeTriggerPolarity → GateLevel
  | .positive => .low
  | .negative => .high

def GateLevel.ofBool (high : Bool) : GateLevel := if high then .high else .low

inductive Fx4Action (F : Type) where
  | sample (values : Chan → F)
  | bulbTrigger

structure AdcSample (F : Type) where
  val : F
  time : Int
  deriving DecidableEq, Repr

inductive EventKind (F : Type) where
  | gate (level : Bool)
  | adc (values : Chan → F)

structure TimedEvent (F : Type) where
  time : Int
  kind : EventKind F

variable {F : Type}

/-! ## The cache -/

structure Fx4Cache (F : Type) where
  adc : Chan → List (AdcSample F)
  /-- The first timestamp seen, or zero; every other is taken from it. -/
  startTime : Int
  gateLevel : GateLevel
  synchronized : Bool
  timestampMismatch : Bool
  triggerActive : Bool
  numTriggerValues : Int

def wrapI32 (n : Int) : Int := n.bmod (2 ^ 32)

namespace Fx4Cache

/-- What starts an acquisition. -/
def reset (_cache : Fx4Cache F) : Fx4Cache F where
  adc := fun _ => []
  startTime := 0
  gateLevel := .unknown
  synchronized := false
  timestampMismatch := false
  triggerActive := false
  numTriggerValues := 0

/-- One `[value, timestamp]` pair; others are passed over. -/
def scanValue (source : Source) (s : Fx4Cache F × List (TimedEvent F)) (v : Json F) :
    Fx4Cache F × List (TimedEvent F) :=
  match v.asArray with
  | some (first :: second :: _) =>
    match second.asI64 with
    | none => s
    | some time =>
      let cache := if s.1.startTime = 0 then { s.1 with startTime := time } else s.1
      let timestamp := time - cache.startTime
      match source with
      | .gate =>
        match first.asBool with
        | none => (cache, s.2)
        | some level => (cache, s.2 ++ [⟨timestamp, .gate level⟩])
      | .adc chan =>
        match first.asF64 with
        | none => (cache, s.2)
        | some val =>
          ({ cache with
              adc := Function.update cache.adc chan (cache.adc chan ++ [⟨val, timestamp⟩]) }, s.2)
  | _ => s

def scanMember (s : Fx4Cache F × List (TimedEvent F)) (member : String × Json F) :
    Fx4Cache F × List (TimedEvent F) :=
  match sourceOf member.1, member.2.asArray with
  | some source, some list => list.foldl (scanValue source) s
  | _, _ => s

/-- The paths are walked in the order of their names. -/
def scan (cache : Fx4Cache F) (members : List (String × Json F)) :
    Fx4Cache F × List (TimedEvent F) :=
  (Keyed.sort Prod.fst members).foldl scanMember (cache, [])

def sizes (cache : Fx4Cache F) : List Nat :=
  (List.finRange fx4NumChans).map fun chan => (cache.adc chan).length

def minSize (cache : Fx4Cache F) : Nat := cache.sizes.min?.getD 0

def maxSize (cache : Fx4Cache F) : Nat := cache.sizes.max?.getD 0

/-- The oldest sample of each channel. -/
def front (adc : Chan → List (AdcSample F)) : Option (Chan → AdcSample F) :=
  if h : ∀ chan, adc chan ≠ [] then some fun chan => (adc chan).head (h chan) else none

/-- Merges `n` samples off the front of the four caches, at channel one's timestamps. -/
def mergeLoop : Nat → Fx4Cache F × List (TimedEvent F) → Fx4Cache F × List (TimedEvent F)
  | 0, s => s
  | n + 1, (cache, events) =>
    match front cache.adc with
    -- The caches hold as many samples as the loop has turns.
    | none => (cache, events)
    | some samples =>
      mergeLoop n
        ({ cache with
            adc := fun chan => (cache.adc chan).tail
            timestampMismatch := decide (∃ chan, (samples chan).time ≠ (samples 0).time) },
          events ++ [⟨(samples 0).time, .adc fun chan => (samples chan).val⟩])

def mergeAdc (cache : Fx4Cache F) (events : List (TimedEvent F)) :
    Fx4Cache F × List (TimedEvent F) :=
  if (cache.adc 0).isEmpty then (cache, events)
  else if cache.minSize ≠ cache.maxSize then
    if cache.synchronized then mergeLoop cache.minSize (cache, events)
    else ({ cache with adc := fun _ => [] }, events)
  else mergeLoop cache.minSize ({ cache with synchronized := true }, events)

def applyGate (cfg : TriggerConfig) (s : Fx4Cache F × List (Fx4Action F)) (level : GateLevel) :
    Fx4Cache F × List (Fx4Action F) :=
  let cache := { s.1 with gateLevel := level }
  if cfg.mode = .extTrigger ∧ level = activeLevel cfg.polarity then
    ({ cache with triggerActive := true, numTriggerValues := 0 }, s.2)
  else if cfg.mode = .extBulb ∧ level = inactiveLevel cfg.polarity then
    (cache, s.2 ++ [.bulbTrigger])
  else (cache, s.2)

/-- The sample passes the gate of the modes that have one. -/
def passGate (cfg : TriggerConfig) (s : Fx4Cache F × List (Fx4Action F)) (values : Chan → F) :
    Fx4Cache F × List (Fx4Action F) :=
  if (cfg.mode = .extGate ∨ cfg.mode = .extBulb) ∧ s.1.gateLevel = inactiveLevel cfg.polarity then s
  else (s.1, s.2 ++ [.sample values])

def applyAdc (cfg : TriggerConfig) (s : Fx4Cache F × List (Fx4Action F)) (values : Chan → F) :
    Fx4Cache F × List (Fx4Action F) :=
  if cfg.mode = .extTrigger then
    if s.1.triggerActive then
      let numTriggerValues := wrapI32 (s.1.numTriggerValues + 1)
      let cache := { s.1 with numTriggerValues }
      if cfg.numAverage < numTriggerValues then ({ cache with triggerActive := false }, s.2)
      else passGate cfg (cache, s.2) values
    else s
  else passGate cfg s values

def applyEvent (cfg : TriggerConfig) (s : Fx4Cache F × List (Fx4Action F)) (event : TimedEvent F) :
    Fx4Cache F × List (Fx4Action F) :=
  match event.kind with
  | .gate high => applyGate cfg s (.ofBool high)
  | .adc values => applyAdc cfg s values

/-- The walk over the sorted events: gate events move the trigger's state, samples survive it or
are dropped. -/
def apply (cache : Fx4Cache F) (events : List (TimedEvent F)) (cfg : TriggerConfig) :
    Fx4Cache F × List (Fx4Action F) :=
  events.foldl (applyEvent cfg) (cache, [])

/-- An `update` message: the cache behind it, and what the driver must do. -/
def ingest (cache : Fx4Cache F) (data : Json F) (cfg : TriggerConfig) :
    Fx4Cache F × List (Fx4Action F) :=
  match data.asObject with
  | none => (cache, [])
  | some members =>
    let (cache, events) := cache.scan members
    let (cache, events) := cache.mergeAdc events
    cache.apply (Keyed.sort TimedEvent.time events) cfg

end Fx4Cache

/-! ## Lemmas: the walk over the paths -/

def pathOf : Source → String
  | .gate => gatePath
  | .adc chan => adcPath chan

/-- The sources in the order of their paths. -/
def sources : List Source := (List.finRange fx4NumChans).map .adc ++ [.gate]

theorem mem_sources (source : Source) : source ∈ sources := by
  cases source with
  | gate => simp [sources]
  | adc chan => simp [sources]

theorem sources_sorted : sources.Pairwise fun a b => pathOf a < pathOf b := by decide +kernel

theorem sourceOf_pathOf (source : Source) : sourceOf (pathOf source) = some source := by
  have hall : ∀ source ∈ sources, sourceOf (pathOf source) = some source := by decide +kernel
  exact hall source (mem_sources source)

theorem sourceOf_eq_some {path : String} {source : Source} (h : sourceOf path = some source) :
    path = pathOf source := by
  unfold sourceOf at h
  split at h
  next hgate =>
    cases h
    exact hgate
  next =>
    obtain ⟨chan, hfind, rfl⟩ := Option.map_eq_some_iff.1 h
    have hpath := List.find?_some hfind
    exact (of_decide_eq_true hpath).symm

/-- The members of an object are lists of values: `items` of each path it has. -/
def Lists (members : List (String × Json F)) (items : Source → List (Json F)) : Prop :=
  (members.map (·.1)).Nodup ∧ ∀ source,
    (pathOf source, .array (items source)) ∈ members ∨
      (pathOf source ∉ members.map (·.1) ∧ items source = [])

/-- A member whose path is one of ours. -/
def entryOf (member : String × Json F) : Option (Source × List (Json F)) := do
  let source ← sourceOf member.1
  let list ← member.2.asArray
  some (source, list)

theorem entryOf_eq_some {member : String × Json F} {source : Source} {list : List (Json F)} :
    entryOf member = some (source, list) ↔ member = (pathOf source, .array list) := by
  constructor
  · intro h
    obtain ⟨path, value⟩ := member
    obtain ⟨source', hsource, h⟩ := Option.bind_eq_some_iff.1 h
    obtain ⟨list', hlist, h⟩ := Option.bind_eq_some_iff.1 h
    cases h
    dsimp only at hsource hlist
    rw [sourceOf_eq_some hsource]
    cases value <;> cases hlist
    rfl
  · rintro rfl
    simp [entryOf, sourceOf_pathOf, Json.asArray]

/-- Sorted by path, the entries are those of the sources that are there, in their order. -/
theorem entries_sorted {members : List (String × Json F)} {items : Source → List (Json F)}
    (h : Lists members items) :
    (Keyed.sort Prod.fst members).filterMap entryOf =
      (sources.filter fun source => pathOf source ∈ members.map (·.1)).map fun source =>
        (source, items source) := by
  obtain ⟨hnodup, hitems⟩ := h
  refine Keyed.ext (fun entry => pathOf entry.1) ?_ ?_ ?_
  · -- In the sort the keys are the members' paths, which differ.
    refine (Keyed.sort_strict (List.pairwise_map.1 hnodup)).filterMap _ ?_
    rintro a b hab ⟨source, list⟩ ha ⟨source', list'⟩ hb
    rw [entryOf_eq_some.1 ha, entryOf_eq_some.1 hb] at hab
    exact hab
  · exact List.pairwise_map.2 (sources_sorted.filter _)
  · rintro ⟨source, list⟩
    simp only [List.mem_filterMap, Keyed.mem_sort, List.mem_map, List.mem_filter, mem_sources,
      true_and, decide_eq_true_eq, Prod.mk.injEq]
    constructor
    · rintro ⟨member, hmem, hentry⟩
      rw [entryOf_eq_some.1 hentry] at hmem
      refine ⟨source, ⟨_, hmem, rfl⟩, rfl, ?_⟩
      obtain hlist | ⟨habsent, -⟩ := hitems source
      · have hsame := List.inj_on_of_nodup_map hnodup hlist hmem rfl
        cases hsame
        rfl
      · exact absurd (List.mem_map.2 ⟨_, hmem, rfl⟩) habsent
    · rintro ⟨found, hpath, rfl, rfl⟩
      obtain hlist | ⟨habsent, -⟩ := hitems found
      · exact ⟨_, hlist, entryOf_eq_some.2 rfl⟩
      · exact absurd (List.mem_map.2 hpath) habsent

namespace Fx4Cache

/-- The scan takes the sources in their order, whatever order the message has them in. -/
theorem scan_eq (cache : Fx4Cache F) {members : List (String × Json F)}
    {items : Source → List (Json F)} (h : Lists members items) :
    cache.scan members =
      sources.foldl (fun s source => (items source).foldl (scanValue source) s) (cache, []) := by
  have hentry : scan cache members = ((Keyed.sort Prod.fst members).filterMap entryOf).foldl
      (fun s entry => entry.2.foldl (scanValue entry.1) s) (cache, []) := by
    rw [List.foldl_filterMap]
    refine List.foldl_ext _ _ _ fun s member _ => ?_
    unfold scanMember entryOf
    cases sourceOf member.1 <;> cases member.2.asArray <;> rfl
  rw [hentry, entries_sorted h, List.foldl_map, List.foldl_filter]
  refine List.foldl_ext _ _ _ fun s source _ => ?_
  split
  · rfl
  next habsent =>
    obtain hlist | ⟨-, hnil⟩ := h.2 source
    · exact absurd (decide_eq_true (List.mem_map.2 ⟨_, hlist, rfl⟩)) habsent
    · rw [hnil]
      rfl

end Fx4Cache

/-! ## Lemmas: what a message puts into the caches -/

/-- The sample with its time taken from `start`. -/
def AdcSample.since (start : Int) (sample : AdcSample F) : AdcSample F :=
  { sample with time := sample.time - start }

structure GateEvent where
  time : Int
  level : Bool
  deriving DecidableEq, Repr

def GateEvent.since (F : Type) (start : Int) (gate : GateEvent) : TimedEvent F :=
  ⟨gate.time - start, .gate gate.level⟩

/-- The value is the pair of the sample. -/
def IsSample (sample : AdcSample F) (v : Json F) : Prop :=
  ∃ i64 f64 rest, v = .array (.number i64 sample.val :: .number (some sample.time) f64 :: rest)

/-- The value is the pair of the gate event. -/
def IsGate (gate : GateEvent) (v : Json F) : Prop :=
  ∃ f64 rest, v = .array (.bool gate.level :: .number (some gate.time) f64 :: rest)

/-- The message is an object with a list for each path that has events, in order. -/
def Carries (data : Json F) (samples : Chan → List (AdcSample F)) (gates : List GateEvent) : Prop :=
  ∃ members items, data = .object members ∧ Lists members items ∧
    (∀ chan, List.Forall₂ IsSample (samples chan) (items (.adc chan))) ∧
      List.Forall₂ IsGate gates (items .gate)

namespace Fx4Cache

/-- The caches hold the samples `held`, their times taken from the first one seen. -/
structure Holds (cache : Fx4Cache F) (held : Chan → List (AdcSample F)) : Prop where
  adc : ∀ chan, cache.adc chan = (held chan).map (AdcSample.since cache.startTime)
  started : ∀ chan, held chan ≠ [] → cache.startTime ≠ 0

variable {cache : Fx4Cache F} {held : Chan → List (AdcSample F)}

/-- While no time was seen nothing is held. -/
theorem Holds.nil_of_zero (h : cache.Holds held) (hzero : cache.startTime = 0) (chan : Chan) :
    held chan = [] := by
  by_contra hne
  exact h.started chan hne hzero

theorem holds_scanValue (h : cache.Holds held) {sample : AdcSample F} (hpos : 0 < sample.time)
    {v : Json F} (hv : IsSample sample v) (chan : Chan) (events : List (TimedEvent F)) :
    ∃ adc startTime,
      scanValue (.adc chan) (cache, events) v = ({ cache with adc, startTime }, events) ∧
        ({ cache with adc, startTime } : Fx4Cache F).Holds
          (Function.update held chan (held chan ++ [sample])) := by
  obtain ⟨i64, f64, rest, rfl⟩ := hv
  by_cases hzero : cache.startTime = 0
  · refine ⟨Function.update cache.adc chan (cache.adc chan ++ [sample.since sample.time]),
      sample.time, ?_, ?_, ?_⟩
    · simp [scanValue, Json.asArray, Json.asI64, Json.asF64, hzero, AdcSample.since]
    · intro other
      have hnil := h.nil_of_zero hzero
      simp only [Function.update_apply, h.adc, hnil]
      split <;> rfl
    · intro _ _
      dsimp only
      omega
  · refine ⟨Function.update cache.adc chan (cache.adc chan ++ [sample.since cache.startTime]),
      cache.startTime, ?_, ?_, ?_⟩
    · simp [scanValue, Json.asArray, Json.asI64, Json.asF64, hzero, AdcSample.since]
    · intro other
      simp only [Function.update_apply]
      split
      · rw [h.adc, List.map_append, List.map_singleton]
      · exact h.adc other
    · exact fun _ _ => hzero

theorem holds_scanList {samples : List (AdcSample F)} {items : List (Json F)}
    (hitems : List.Forall₂ IsSample samples items) (hpos : ∀ sample ∈ samples, 0 < sample.time)
    (chan : Chan) (events : List (TimedEvent F)) {cache : Fx4Cache F}
    {held : Chan → List (AdcSample F)} (h : cache.Holds held) :
    ∃ adc startTime,
      items.foldl (scanValue (.adc chan)) (cache, events) = ({ cache with adc, startTime }, events) ∧
        ({ cache with adc, startTime } : Fx4Cache F).Holds
          (Function.update held chan (held chan ++ samples)) := by
  induction hitems generalizing cache held with
  | nil =>
    refine ⟨cache.adc, cache.startTime, rfl, ?_⟩
    rw [List.append_nil, Function.update_eq_self]
    exact h
  | @cons sample v samples items hv _ ih =>
    obtain ⟨hfirst, hrest⟩ := List.forall_mem_cons.1 hpos
    obtain ⟨adc, startTime, hscan, hholds⟩ := holds_scanValue h hfirst hv chan events
    obtain ⟨adc', startTime', hscan', hholds'⟩ := ih hrest hholds
    refine ⟨adc', startTime', ?_, ?_⟩
    · rw [List.foldl_cons, hscan, hscan']
    · rw [Function.update_idem, Function.update_self, List.append_assoc] at hholds'
      exact hholds'

/-- The channels take their samples one after the other. -/
theorem holds_scanChannels {samples : Chan → List (AdcSample F)} {items : Source → List (Json F)}
    (hitems : ∀ chan, List.Forall₂ IsSample (samples chan) (items (.adc chan)))
    (hpos : ∀ chan, ∀ sample ∈ samples chan, 0 < sample.time) (events : List (TimedEvent F))
    {chans : List Chan} (hnodup : chans.Nodup) {cache : Fx4Cache F}
    {held : Chan → List (AdcSample F)} (h : cache.Holds held) :
    ∃ adc startTime,
      (chans.map Source.adc).foldl (fun s source => (items source).foldl (scanValue source) s)
          (cache, events) = ({ cache with adc, startTime }, events) ∧
        ({ cache with adc, startTime } : Fx4Cache F).Holds
          fun chan => if chan ∈ chans then held chan ++ samples chan else held chan := by
  induction chans generalizing cache held with
  | nil => exact ⟨cache.adc, cache.startTime, rfl, by simpa using h⟩
  | cons chan chans ih =>
    obtain ⟨habsent, hnodup⟩ := List.nodup_cons.1 hnodup
    obtain ⟨adc, startTime, hscan, hholds⟩ :=
      holds_scanList (hitems chan) (hpos chan) chan events h
    obtain ⟨adc', startTime', hscan', hholds'⟩ := ih hnodup hholds
    refine ⟨adc', startTime', ?_, ?_⟩
    · rw [List.map_cons, List.foldl_cons, hscan, hscan']
    · convert hholds' using 2 with other
      simp only [List.mem_cons, Function.update_apply]
      by_cases hother : other = chan
      · subst hother
        simp [habsent]
      · simp [hother]

/-- Gate events keep their order, also before the first time is seen. -/
theorem scan_gates {gates : List GateEvent} {items : List (Json F)}
    (hitems : List.Forall₂ IsGate gates items) (hsorted : gates.Pairwise fun a b => a.time < b.time)
    (cache : Fx4Cache F) (events : List (TimedEvent F)) :
    ∃ startTime found,
      items.foldl (scanValue .gate) (cache, events) =
          ({ cache with startTime }, events ++ found) ∧
        found.map (·.kind) = gates.map (fun gate => EventKind.gate gate.level) ∧
        (found.Pairwise fun a b => a.time ≤ b.time) ∧
        (cache.startTime = 0 → ∀ e ∈ found, 0 ≤ e.time) ∧
        (cache.startTime ≠ 0 → startTime = cache.startTime ∧
          found = gates.map (GateEvent.since F cache.startTime)) := by
  induction hitems generalizing cache events with
  | nil => exact ⟨cache.startTime, [], by simp, rfl, List.Pairwise.nil, by simp, by simp⟩
  | @cons gate v gates items hv _ ih =>
    obtain ⟨hfirst, hsorted⟩ := List.pairwise_cons.1 hsorted
    obtain ⟨f64, rest, rfl⟩ := hv
    by_cases hzero : cache.startTime = 0
    · -- The first time seen is this one, unless it is zero.
      obtain ⟨startTime, found, hscan, hkinds, hle, hpos, hfound⟩ :=
        ih hsorted { cache with startTime := gate.time } (events ++ [⟨0, .gate gate.level⟩])
      have hrest : ∀ e ∈ found, 0 ≤ e.time := by
        by_cases hgate : gate.time = 0
        · exact hpos hgate
        · rw [(hfound hgate).2]
          intro e he
          obtain ⟨other, hother, rfl⟩ := List.mem_map.1 he
          have hlt := hfirst other hother
          simp only [GateEvent.since]
          omega
      refine ⟨startTime, ⟨0, .gate gate.level⟩ :: found, ?_, ?_, ?_, fun _ => ?_, fun h => ?_⟩
      · simpa [scanValue, Json.asArray, Json.asI64, Json.asBool, hzero] using hscan
      · simp [hkinds]
      · exact List.pairwise_cons.2 ⟨hrest, hle⟩
      · exact List.forall_mem_cons.2 ⟨le_rfl, hrest⟩
      · exact absurd hzero h
    · obtain ⟨startTime, found, hscan, hkinds, hle, -, hfound⟩ :=
        ih hsorted cache (events ++ [gate.since F cache.startTime])
      obtain ⟨hstart, hgates⟩ := hfound hzero
      refine ⟨startTime, gate.since F cache.startTime :: found, ?_, ?_, ?_, ?_, fun _ => ⟨hstart, ?_⟩⟩
      · simpa [scanValue, Json.asArray, Json.asI64, Json.asBool, hzero, GateEvent.since] using hscan
      · simp [hkinds, GateEvent.since]
      · refine List.pairwise_cons.2 ⟨fun e he => ?_, hle⟩
        rw [hgates] at he
        obtain ⟨other, hother, rfl⟩ := List.mem_map.1 he
        have hlt := hfirst other hother
        simp only [GateEvent.since]
        omega
      · exact fun h => absurd h hzero
      · rw [hgates, List.map_cons]

/-- **The scan.**  The caches take the samples of the message, and its gate events keep their
order; once a sample is held their times are taken from the same start. -/
theorem scan_spec (h : cache.Holds held) {members : List (String × Json F)}
    {samples : Chan → List (AdcSample F)} {gates : List GateEvent}
    (hcarries : Carries (.object members) samples gates)
    (hpos : ∀ chan, ∀ sample ∈ samples chan, 0 < sample.time)
    (hsorted : gates.Pairwise fun a b => a.time < b.time) :
    ∃ adc startTime found,
      cache.scan members = ({ cache with adc, startTime }, found) ∧
        ({ cache with adc, startTime } : Fx4Cache F).Holds (fun chan => held chan ++ samples chan) ∧
        found.map (·.kind) = gates.map (fun gate => EventKind.gate gate.level) ∧
        (found.Pairwise fun a b => a.time ≤ b.time) ∧
        ((∃ chan, held chan ++ samples chan ≠ []) →
          found = gates.map (GateEvent.since F startTime)) := by
  obtain ⟨members, items, heq, hlists, hsamples, hgates⟩ := hcarries
  cases heq
  obtain ⟨adc, startTime, hscan, hholds⟩ :=
    holds_scanChannels hsamples hpos [] (List.nodup_finRange fx4NumChans) h
  simp only [List.mem_finRange, if_true] at hholds
  obtain ⟨startTime', found, hscan', hkinds, hle, -, hfound⟩ :=
    scan_gates hgates hsorted { cache with adc, startTime } []
  refine ⟨adc, startTime', found, ?_, ?_, hkinds, hle, ?_⟩
  · rw [scan_eq cache hlists, sources, List.foldl_append, hscan, List.foldl_cons, List.foldl_nil,
      hscan', List.nil_append]
  · by_cases hzero : startTime = 0
    · -- No channel has a sample, so that the start that the gate events set is the first.
      have hnil := hholds.nil_of_zero hzero
      refine ⟨fun chan => ?_, fun chan hne => absurd (hnil chan) hne⟩
      have hadc := hholds.adc chan
      rw [hnil chan] at hadc ⊢
      exact hadc
    · obtain ⟨rfl, -⟩ := hfound hzero
      exact hholds
  · rintro ⟨chan, hne⟩
    obtain ⟨rfl, hgates⟩ := hfound (hholds.started chan hne)
    exact hgates

end Fx4Cache

/-! ## Lemmas: the merge -/

/-- The least over the four channels. -/
def least (f : Chan → Nat) : Nat := ((List.finRange fx4NumChans).map f).min?.getD 0

theorem least_spec (f : Chan → Nat) : (∃ chan, f chan = least f) ∧ ∀ chan, least f ≤ f chan := by
  have hne : (List.finRange fx4NumChans).map f ≠ [] := by simp [List.finRange_succ]
  obtain ⟨n, hn⟩ := Option.isSome_iff_exists.1 (List.isSome_min?_of_ne_nil hne)
  obtain ⟨hmem, hle⟩ := List.min?_eq_some_iff.1 hn
  obtain ⟨chan, -, hchan⟩ := List.mem_map.1 hmem
  have hleast : least f = n := by rw [least, hn, Option.getD_some]
  rw [hleast]
  exact ⟨⟨chan, hchan⟩, fun chan => hle _ (List.mem_map.2 ⟨chan, List.mem_finRange chan, rfl⟩)⟩

theorem least_le (f : Chan → Nat) (chan : Chan) : least f ≤ f chan := (least_spec f).2 chan

theorem least_const {f : Chan → Nat} {n : Nat} (h : ∀ chan, f chan = n) : least f = n := by
  obtain ⟨chan, hchan⟩ := (least_spec f).1
  rw [← hchan, h chan]

/-- A sample of all four channels. -/
structure Whole (F : Type) where
  time : Int
  values : Chan → F

def Whole.sample (chan : Chan) (whole : Whole F) : AdcSample F := ⟨whole.values chan, whole.time⟩

def Whole.since (start : Int) (whole : Whole F) : TimedEvent F :=
  ⟨whole.time - start, .adc whole.values⟩

namespace Fx4Cache

theorem minSize_eq_maxSize {cache : Fx4Cache F} :
    cache.minSize = cache.maxSize ↔
      ∀ i j, (cache.adc i).length = (cache.adc j).length := by
  have hne : cache.sizes ≠ [] := by simp [sizes, List.finRange_succ]
  obtain ⟨m, hm⟩ := Option.isSome_iff_exists.1 (List.isSome_min?_of_ne_nil hne)
  obtain ⟨n, hn⟩ := Option.isSome_iff_exists.1 (List.isSome_max?_of_ne_nil hne)
  obtain ⟨hmmem, hmle⟩ := List.min?_eq_some_iff.1 hm
  obtain ⟨hnmem, hnle⟩ := List.max?_eq_some_iff.1 hn
  have hsize : ∀ chan, (cache.adc chan).length ∈ cache.sizes :=
    fun chan => List.mem_map.2 ⟨chan, List.mem_finRange chan, rfl⟩
  rw [minSize, maxSize, hm, hn, Option.getD_some, Option.getD_some]
  constructor
  · intro heq i j
    have := hmle _ (hsize i)
    have := hnle _ (hsize i)
    have := hmle _ (hsize j)
    have := hnle _ (hsize j)
    omega
  · intro hall
    obtain ⟨i, -, rfl⟩ := List.mem_map.1 hmmem
    obtain ⟨j, -, rfl⟩ := List.mem_map.1 hnmem
    exact hall i j

variable {cache : Fx4Cache F}

theorem front_of_cons {adc : Chan → List (AdcSample F)} (tail : Chan → List (AdcSample F))
    {first : Chan → AdcSample F} (h : ∀ chan, adc chan = first chan :: tail chan) : front adc = some first := by
  have hne : ∀ chan, adc chan ≠ [] := by
    intro chan
    rw [h]
    exact List.cons_ne_nil _ _
  unfold front
  rw [dif_pos hne]
  congr 1
  funext chan
  simp only [h, List.head_cons]

/-- Channels that hold the same samples are merged into them. -/
theorem mergeLoop_spec {wholes : List (Whole F)} {rest : Chan → List (AdcSample F)}
    (h : ∀ chan, cache.adc chan =
      (wholes.map (Whole.sample chan) ++ rest chan).map (AdcSample.since cache.startTime))
    (hmismatch : cache.timestampMismatch = false) (events : List (TimedEvent F)) :
    mergeLoop wholes.length (cache, events) =
      ({ cache with adc := fun chan => (rest chan).map (AdcSample.since cache.startTime) },
        events ++ wholes.map (Whole.since cache.startTime)) := by
  induction wholes generalizing cache events with
  | nil =>
    have hadc : cache.adc = fun chan => (rest chan).map (AdcSample.since cache.startTime) :=
      funext h
    rw [List.length_nil, mergeLoop, List.map_nil, List.append_nil, ← hadc]
  | cons whole wholes ih =>
    have hfront := front_of_cons (fun chan =>
      (wholes.map (Whole.sample chan) ++ rest chan).map (AdcSample.since cache.startTime)) h
    rw [List.length_cons, mergeLoop, hfront]
    dsimp only
    rw [ih]
    · simp [Whole.sample, Whole.since, AdcSample.since, hmismatch]
    · intro chan
      dsimp only
      rw [h chan]
      rfl
    · simp [Whole.sample, AdcSample.since]

theorem mergeAdc_of_empty (h : cache.adc 0 = []) (events : List (TimedEvent F)) :
    cache.mergeAdc events = (cache, events) := by
  unfold mergeAdc
  rw [h]
  rfl

theorem isEmpty_eq_false {list : List (AdcSample F)} (h : list ≠ []) : ¬list.isEmpty = true := by
  rwa [List.isEmpty_iff]

/-- Before the first merge, caches of different lengths are cleared. -/
theorem mergeAdc_clear (h : cache.adc 0 ≠ []) (hsync : cache.synchronized = false)
    (hne : ¬∀ i j, (cache.adc i).length = (cache.adc j).length) (events : List (TimedEvent F)) :
    cache.mergeAdc events = ({ cache with adc := fun _ => [] }, events) := by
  unfold mergeAdc
  rw [if_neg (isEmpty_eq_false h), if_pos fun heq => hne (minSize_eq_maxSize.1 heq),
    if_neg (by rw [hsync]; decide)]

/-- The first merge takes all there is. -/
theorem mergeAdc_first {wholes : List (Whole F)} (hne : wholes ≠ [])
    (h : cache.Holds fun chan => wholes.map (Whole.sample chan))
    (hmismatch : cache.timestampMismatch = false) (events : List (TimedEvent F)) :
    cache.mergeAdc events = ({ cache with adc := fun _ => [], synchronized := true },
      events ++ wholes.map (Whole.since cache.startTime)) := by
  have hlength : ∀ chan, (cache.adc chan).length = wholes.length := by
    intro chan
    rw [h.adc, List.length_map, List.length_map]
  have hcons : cache.adc 0 ≠ [] := by
    rw [← List.length_pos_iff, hlength]
    exact List.length_pos_iff.2 hne
  have hmin : cache.minSize = wholes.length := least_const hlength
  unfold mergeAdc
  rw [if_neg (isEmpty_eq_false hcons),
    if_neg (not_not.2 (minSize_eq_maxSize.2 fun i j => (hlength i).trans (hlength j).symm)), hmin]
  have hmerging : ({ cache with synchronized := true } : Fx4Cache F).Holds fun chan =>
      wholes.map (Whole.sample chan) ++ [] := by
    simp only [List.append_nil]
    exact ⟨h.adc, h.started⟩
  exact mergeLoop_spec hmerging.adc hmismatch events

/-- Later ones take what all four channels have. -/
theorem mergeAdc_synchronized {wholes : List (Whole F)} {rest : Chan → List (AdcSample F)}
    (hsync : cache.synchronized = true)
    (h : cache.Holds fun chan => wholes.map (Whole.sample chan) ++ rest chan)
    (hrest : ∃ chan, rest chan = []) (hmismatch : cache.timestampMismatch = false)
    (events : List (TimedEvent F)) :
    cache.mergeAdc events =
      ({ cache with adc := fun chan => (rest chan).map (AdcSample.since cache.startTime) },
        events ++ wholes.map (Whole.since cache.startTime)) := by
  have hlength : ∀ chan, (cache.adc chan).length = wholes.length + (rest chan).length := by
    intro chan
    simp [h.adc]
  have hmin : cache.minSize = wholes.length := by
    obtain ⟨⟨least, hleast⟩, hle⟩ := least_spec fun chan => (cache.adc chan).length
    obtain ⟨chan, hchan⟩ := hrest
    have hchan : (cache.adc chan).length = wholes.length := by
      rw [hlength, hchan, List.length_nil, Nat.add_zero]
    have hmin : cache.minSize ≤ (cache.adc chan).length := hle chan
    have hget : (cache.adc least).length = cache.minSize := hleast
    have := hlength least
    omega
  have hmerge := mergeLoop_spec h.adc hmismatch events
  by_cases hempty : cache.adc 0 = []
  · -- Channel one has none, so that none is whole.
    have hnil : wholes.length + (rest 0).length = 0 := by
      rw [← hlength, hempty, List.length_nil]
    have hwholes : wholes = [] := List.length_eq_zero_iff.1 (by omega)
    subst hwholes
    rw [mergeAdc_of_empty hempty, ← hmerge]
    rfl
  · have hsame : ({ cache with synchronized := true } : Fx4Cache F) = cache := by
      rw [← hsync]
    unfold mergeAdc
    rw [if_neg (isEmpty_eq_false hempty), if_pos hsync, hsame, hmin, hmerge, ite_self]

end Fx4Cache

end QuadEm
