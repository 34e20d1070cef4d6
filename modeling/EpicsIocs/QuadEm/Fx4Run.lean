import EpicsIocs.QuadEm.Fx4Filter

/-! # Runs of the FX4

A run of the meter is its samples and gate events in the order of time.  It is delivered in
messages: each takes the run on to a later cut, except that it may leave some channels behind the
foremost by samples that a later message brings.

`fx4_samples`: the samples published are the whole ones, none left out behind the first one and
each filtered by the gate events before it, as long as the channels are level when the caches are
first equally long and, where an external signal filters the samples, none is cleared and no gate
event comes ahead of an older sample that is not whole.  Else the channels stay a sample apart, or
a sample meets a gate that has moved on (`skew_and_early_gate`). -/

namespace QuadEm

open Steps

variable {F : Type}

/-! ## The meter and its messages -/

def TimedEvent.gate? (event : TimedEvent F) : Option GateEvent :=
  match event.kind with
  | .gate level => some ⟨event.time, level⟩
  | .adc _ => none

def wholes (events : List (TimedEvent F)) : List (Whole F) := events.filterMap TimedEvent.whole?

def gates (events : List (TimedEvent F)) : List GateEvent := events.filterMap TimedEvent.gate?

/-- What the meter measures: whole samples and gate events, no two at the same time. -/
structure MeterRun (F : Type) where
  events : List (TimedEvent F)
  sorted : events.Pairwise fun a b => a.time < b.time
  positive : ∀ whole ∈ wholes events, 0 < whole.time

def MeterRun.samples (run : MeterRun F) : List (Whole F) := wholes run.events

/-- The cache with what was delivered: the events up to `cut`, but of each channel `taken` samples
only. -/
structure Delivery (F : Type) where
  cache : Fx4Cache F
  cut : Nat := 0
  taken : Chan → Nat := fun _ => 0
  actions : List (Fx4Action F) := []

/-- A message that takes the delivery on to `cut` and `taken`. -/
structure Update (F : Type) where
  data : Json F
  cut : Nat
  taken : Chan → Nat

/-- Nothing is delivered twice or left out, and only channels behind the foremost are late. -/
structure Delivers (run : MeterRun F) (s : Delivery F) (m : Update F) : Prop where
  cut_le : s.cut ≤ m.cut
  taken_le : ∀ chan, s.taken chan ≤ m.taken chan
  behind : ∀ chan, m.taken chan ≤ (wholes (run.events.take m.cut)).length
  foremost : ∃ chan, m.taken chan = (wholes (run.events.take m.cut)).length
  carries : Carries m.data
    (fun chan => ((run.samples.take (m.taken chan)).drop (s.taken chan)).map (Whole.sample chan))
    (gates ((run.events.take m.cut).drop s.cut))

def fx4System (run : MeterRun F) (cfg : TriggerConfig) : System (Delivery F) (Update F) where
  init s := ∃ cache : Fx4Cache F, s = { cache := cache.reset }
  step s m t := Delivers run s m ∧ t = {
    cache := (s.cache.ingest m.data cfg).1
    cut := m.cut
    taken := m.taken
    actions := s.actions ++ (s.cache.ingest m.data cfg).2 }

/-- The samples a cache has once the message is scanned. -/
def Delivery.size (s : Delivery F) (m : Update F) (chan : Chan) : Nat :=
  (s.cache.adc chan).length + (m.taken chan - s.taken chan)

/-- What keeps the channels and the gate together. -/
structure InOrder (run : MeterRun F) (cfg : TriggerConfig) (s : Delivery F) (m : Update F) :
    Prop where
  /-- When the caches are first equally long, the channels are level. -/
  level : s.cache.synchronized = false → 0 < s.size m 0 → (∀ i j, s.size m i = s.size m j) →
    ∀ i j, m.taken i = m.taken j
  /-- No samples are cleared. -/
  kept : cfg.mode.external = true → s.cache.synchronized = false → 0 < s.size m 0 →
    ∀ i j, s.size m i = s.size m j
  /-- No gate event comes ahead of an older sample that is not whole. -/
  gates : cfg.mode.external = true → ∀ gate ∈ gates ((run.events.take m.cut).drop s.cut),
    ∀ whole ∈ run.samples.drop (least m.taken), gate.time < whole.time
  /-- The counter of an external trigger does not overflow. -/
  counted : cfg.mode = .extTrigger → cfg.numAverage < i32Max ∨ least m.taken ≤ i32Max

/-- A sample of the run is let through by the events older than it. -/
def admitted (run : MeterRun F) (cfg : TriggerConfig) (whole : Whole F) : Bool :=
  admits cfg ((run.events.filter (·.time < whole.time)).map (·.kind))

/-- The samples published are whole samples of the run: without a filter all from some one on, with
one exactly those that are admitted. -/
def Published (run : MeterRun F) (cfg : TriggerConfig) (s : Delivery F) : Prop :=
  let whole := run.samples.take (least s.taken)
  if cfg.mode.external = true then
    s.actions.filterMap Fx4Action.values? = (whole.filter (admitted run cfg)).map (·.values)
  else ∃ k, s.actions.filterMap Fx4Action.values? = (whole.drop k).map (·.values)

/-! ## Lemmas -/

def Whole.event (whole : Whole F) : TimedEvent F := ⟨whole.time, .adc whole.values⟩

def GateEvent.event (F : Type) (gate : GateEvent) : TimedEvent F := ⟨gate.time, .gate gate.level⟩

theorem whole?_eq_some {event : TimedEvent F} {whole : Whole F} :
    event.whole? = some whole ↔ event = whole.event := by
  obtain ⟨time, kind⟩ := event
  obtain ⟨time', values⟩ := whole
  cases kind <;> simp [TimedEvent.whole?, EventKind.values?, Whole.event]

theorem gate?_eq_some {event : TimedEvent F} {gate : GateEvent} :
    event.gate? = some gate ↔ event = gate.event F := by
  obtain ⟨time, kind⟩ := event
  obtain ⟨time', level⟩ := gate
  cases kind <;> simp [TimedEvent.gate?, GateEvent.event]

theorem mem_wholes {events : List (TimedEvent F)} {whole : Whole F} :
    whole ∈ wholes events ↔ whole.event ∈ events := by
  simp [wholes, whole?_eq_some]

theorem mem_gates {events : List (TimedEvent F)} {gate : GateEvent} :
    gate ∈ gates events ↔ gate.event F ∈ events := by
  simp [gates, gate?_eq_some]

theorem wholes_append (xs ys : List (TimedEvent F)) : wholes (xs ++ ys) = wholes xs ++ wholes ys :=
  List.filterMap_append

theorem wholes_events (ws : List (Whole F)) : wholes (ws.map Whole.event) = ws := by
  induction ws with
  | nil => rfl
  | cons w ws ih =>
    rw [List.map_cons, wholes, List.filterMap_cons_some (whole?_eq_some.2 rfl)]
    exact congrArg (w :: ·) ih

theorem wholes_gates (gs : List GateEvent) : wholes (gs.map (GateEvent.event F)) = [] := by
  induction gs with
  | nil => rfl
  | cons g gs ih => exact ih

theorem sorted_wholes {events : List (TimedEvent F)}
    (h : events.Pairwise fun a b => a.time < b.time) :
    (wholes events).Pairwise fun a b => a.time < b.time := by
  refine h.filterMap _ fun a b hab w hw v hv => ?_
  rw [whole?_eq_some.1 hw, whole?_eq_some.1 hv] at hab
  exact hab

theorem sorted_gates {events : List (TimedEvent F)}
    (h : events.Pairwise fun a b => a.time < b.time) :
    (gates events).Pairwise fun a b => a.time < b.time := by
  refine h.filterMap _ fun a b hab g hg g' hg' => ?_
  rw [gate?_eq_some.1 hg, gate?_eq_some.1 hg'] at hab
  exact hab

/-- The samples up to a cut are the first ones. -/
theorem wholes_take (events : List (TimedEvent F)) (n : Nat) :
    wholes (events.take n) = (wholes events).take (wholes (events.take n)).length :=
  List.prefix_iff_eq_take.1 ((List.take_prefix n events).filterMap _)

theorem length_wholes_take_le (events : List (TimedEvent F)) (n : Nat) :
    (wholes (events.take n)).length ≤ (wholes events).length :=
  ((List.take_prefix n events).filterMap _).length_le

theorem take_drop_append {α : Type} (l : List α) {a b c : Nat} (hab : a ≤ b) (hbc : b ≤ c) :
    (l.take b).drop a ++ (l.take c).drop b = (l.take c).drop a := by
  have hdrop : l.drop b = (l.drop a).drop (b - a) := by
    rw [List.drop_drop]
    congr 1
    omega
  rw [List.drop_take, List.drop_take, List.drop_take, hdrop, ← List.take_add]
  congr 1
  omega

/-! ## One message in the order of time -/

/-- The gate events and whole samples of one message, in the order of time. -/
def segment (gs : List GateEvent) (ws : List (Whole F)) : List (TimedEvent F) :=
  Keyed.sort TimedEvent.time (gs.map (GateEvent.event F) ++ ws.map Whole.event)

theorem mem_segment {gs : List GateEvent} {ws : List (Whole F)} {e : TimedEvent F} :
    e ∈ segment gs ws ↔ (∃ g ∈ gs, e = g.event F) ∨ ∃ w ∈ ws, e = w.event := by
  simp [segment, eq_comm]

theorem wholes_segment {gs : List GateEvent} {ws : List (Whole F)}
    (hws : ws.Pairwise fun a b => a.time < b.time) : wholes (segment gs ws) = ws := by
  have hsub : (ws.map Whole.event).Sublist (segment gs ws) := by
    refine Keyed.sublist_sort (List.pairwise_map.2 (hws.imp le_of_lt)) ?_
    exact List.sublist_append_right _ _
  have hperm : (wholes (segment gs ws)).Perm ws := by
    have hsort := (Keyed.sort_perm TimedEvent.time
      (gs.map (GateEvent.event F) ++ ws.map Whole.event)).filterMap TimedEvent.whole?
    have hall : wholes (gs.map (GateEvent.event F) ++ ws.map Whole.event) = ws := by
      rw [wholes_append, wholes_gates, wholes_events, List.nil_append]
    exact hsort.trans (.of_eq hall)
  have hwholes : ws.Sublist (wholes (segment gs ws)) := by
    have h := hsub.filterMap TimedEvent.whole?
    rwa [show (ws.map Whole.event).filterMap TimedEvent.whole? = ws from wholes_events ws] at h
  exact (hwholes.eq_of_length hperm.length_eq.symm).symm

/-- What `ingest` walks over is the message in the order of time. -/
theorem kinds_sorted {found : List (TimedEvent F)} {gs : List GateEvent} {ws : List (Whole F)}
    {start : Int} (hgs : gs.Pairwise fun a b => a.time < b.time)
    (hkinds : found.map (·.kind) = gs.map fun gate => EventKind.gate gate.level)
    (hle : found.Pairwise fun a b => a.time ≤ b.time)
    (hfound : ws ≠ [] → found = gs.map (GateEvent.since F start)) :
    (Keyed.sort TimedEvent.time (found ++ ws.map (Whole.since start))).map (·.kind) =
      (segment gs ws).map (·.kind) := by
  by_cases hws : ws = []
  · -- The gate events alone are in order.
    subst hws
    have hevents : (gs.map (GateEvent.event F)).Pairwise fun a b => a.time ≤ b.time :=
      List.pairwise_map.2 (hgs.imp le_of_lt)
    simp only [segment, List.map_nil, List.append_nil]
    rw [Keyed.sort_of_sorted hle, Keyed.sort_of_sorted hevents, hkinds, List.map_map]
    rfl
  · let shift : TimedEvent F → TimedEvent F := fun e => ⟨e.time - start, e.kind⟩
    have hshift : found ++ ws.map (Whole.since start) =
        (gs.map (GateEvent.event F) ++ ws.map Whole.event).map shift := by
      rw [hfound hws, List.map_append, List.map_map, List.map_map]
      rfl
    rw [hshift, ← Keyed.map_sort fun a _ b _ => ?_, List.map_map]
    · rfl
    · simp only [shift]
      omega

/-! ## The invariant -/

/-- The caches hold the samples of each channel from `base` on.  Once they are merged this is from
the first sample that is not whole; before, channel one has none. -/
structure Aligned (run : MeterRun F) (cfg : TriggerConfig) (cache : Fx4Cache F)
    (taken base : Chan → Nat) : Prop where
  holds : cache.Holds fun chan =>
    ((run.samples.take (taken chan)).drop (base chan)).map (Whole.sample chan)
  base_le : ∀ chan, base chan ≤ taken chan
  whole : cache.synchronized = true → ∀ chan, base chan = least taken
  waiting : cache.synchronized = false → base 0 = taken 0
  kept : cfg.mode.external = true → cache.synchronized = false → ∀ chan, base chan = 0
  mismatch : cache.timestampMismatch = false

/-- What merging a message comes to: `ws` are the samples that it makes whole. -/
structure Merged (run : MeterRun F) (cfg : TriggerConfig) (s : Delivery F) (m : Update F)
    (cache : Fx4Cache F) (ws : List (Whole F)) : Prop where
  aligned : ∃ base, Aligned run cfg cache m.taken base
  later : s.cache.synchronized = true →
    cache.synchronized = true ∧ ws = (run.samples.take (least m.taken)).drop (least s.taken)
  first : s.cache.synchronized = false → cache.synchronized = true →
    ∃ k ≤ least m.taken, ws = (run.samples.take (least m.taken)).drop k ∧
      (cfg.mode.external = true → k = 0)
  waiting : cache.synchronized = false →
    ws = [] ∧ (cfg.mode.external = true → least m.taken = 0)

theorem least_mono {f g : Chan → Nat} (h : ∀ chan, f chan ≤ g chan) : least f ≤ least g := by
  obtain ⟨chan, hchan⟩ := (least_spec g).1
  exact (least_le f chan).trans ((h chan).trans_eq hchan)

theorem length_taken {l : List (Whole F)} {t b : Nat} (ht : t ≤ l.length) (chan : Chan)
    (start : Int) : ((((l.take t).drop b).map (Whole.sample chan)).map
      (AdcSample.since start)).length = t - b := by
  simp only [List.length_map, List.length_drop, List.length_take]
  omega

theorem drop_take_self {α : Type} (l : List α) (n : Nat) : (l.take n).drop n = [] :=
  List.drop_eq_nil_of_le (by rw [List.length_take]; omega)

namespace Aligned

variable {run : MeterRun F} {cfg : TriggerConfig} {cache : Fx4Cache F} {taken base : Chan → Nat}

/-- The caches that are left when all whole samples are merged. -/
theorem merged (cache : Fx4Cache F) {adc : Chan → List (AdcSample F)}
    (hadc : ∀ chan, adc chan = (((run.samples.take (taken chan)).drop (least taken)).map
      (Whole.sample chan)).map (AdcSample.since cache.startTime))
    (hstart : ∀ chan, (run.samples.take (taken chan)).drop (least taken) ≠ [] →
      cache.startTime ≠ 0) (hmismatch : cache.timestampMismatch = false)
    (hsync : cache.synchronized = true) :
    Aligned run cfg { cache with adc } taken fun _ => least taken where
  holds := ⟨hadc, fun chan hne => hstart chan fun hnil => hne (by rw [hnil]; rfl)⟩
  base_le := least_le taken
  whole := fun _ _ => rfl
  waiting := fun h => by
    rw [hsync] at h
    cases h
  kept := fun _ h => by
    rw [hsync] at h
    cases h
  mismatch := hmismatch

end Aligned

section Merge

variable {run : MeterRun F} {cfg : TriggerConfig} {s : Delivery F} {m : Update F}
  {base : Chan → Nat}

/-- A cache that is synchronized merges what all channels have. -/
theorem merge_later (scanned : Fx4Cache F) (h : Aligned run cfg s.cache s.taken base)
    (htaken : ∀ chan, s.taken chan ≤ m.taken chan)
    (hholds : scanned.Holds fun chan =>
      ((run.samples.take (m.taken chan)).drop (base chan)).map (Whole.sample chan))
    (hsync : s.cache.synchronized = true) (hsame : scanned.synchronized = true)
    (hmismatch : scanned.timestampMismatch = false) :
    ∃ adc ws, (∀ events, scanned.mergeAdc events =
        ({ scanned with adc }, events ++ ws.map (Whole.since scanned.startTime))) ∧
      Merged run cfg s m { scanned with adc } ws := by
  have hbase := h.whole hsync
  have hmono := least_mono htaken
  let ws := (run.samples.take (least m.taken)).drop (least s.taken)
  let rest : Chan → List (AdcSample F) := fun chan =>
    ((run.samples.take (m.taken chan)).drop (least m.taken)).map (Whole.sample chan)
  have hsplit : ∀ chan, ((run.samples.take (m.taken chan)).drop (base chan)).map
      (Whole.sample chan) = ws.map (Whole.sample chan) ++ rest chan := by
    intro chan
    rw [hbase, ← take_drop_append run.samples hmono (least_le m.taken chan), List.map_append]
  have hnone : ∃ chan, rest chan = [] := by
    obtain ⟨chan, hchan⟩ := (least_spec m.taken).1
    refine ⟨chan, ?_⟩
    simp only [rest]
    rw [hchan, drop_take_self, List.map_nil]
  have hheld : scanned.Holds fun chan => ws.map (Whole.sample chan) ++ rest chan := by
    have heq := funext hsplit
    rwa [heq] at hholds
  refine ⟨_, ws, Fx4Cache.mergeAdc_synchronized hsame hheld hnone hmismatch, ?_⟩
  refine ⟨⟨_, Aligned.merged scanned (fun chan => rfl) (fun chan hne => ?_) hmismatch hsame⟩,
    fun _ => ⟨hsame, rfl⟩, fun hoff => ?_, fun hoff => ?_⟩
  · refine hheld.started chan fun hnil => hne ?_
    exact List.map_eq_nil_iff.1 (List.append_eq_nil_iff.1 hnil).2
  · rw [hsync] at hoff
    cases hoff
  · rw [hsame] at hoff
    cases hoff

/-- Before that a message is the first whose caches are equally long, or none of its samples is
merged. -/
theorem merge_first (scanned : Fx4Cache F) (h : Aligned run cfg s.cache s.taken base) (ho : InOrder run cfg s m)
    (htaken : ∀ chan, s.taken chan ≤ m.taken chan)
    (hlength : ∀ chan, m.taken chan ≤ run.samples.length)
    (hholds : scanned.Holds fun chan =>
      ((run.samples.take (m.taken chan)).drop (base chan)).map (Whole.sample chan))
    (hsync : s.cache.synchronized = false) (hsame : scanned.synchronized = false)
    (hmismatch : scanned.timestampMismatch = false) :
    ∃ adc synchronized ws, (∀ events, scanned.mergeAdc events =
        ({ scanned with adc, synchronized }, events ++ ws.map (Whole.since scanned.startTime))) ∧
      Merged run cfg s m { scanned with adc, synchronized } ws := by
  have hadc : ∀ chan, (scanned.adc chan).length = m.taken chan - base chan := by
    intro chan
    rw [hholds.adc, length_taken (hlength chan)]
  have hsize : ∀ chan, s.size m chan = (scanned.adc chan).length := by
    intro chan
    have hbase := h.base_le chan
    have hold : (s.cache.adc chan).length = s.taken chan - base chan := by
      rw [h.holds.adc, length_taken ((htaken chan).trans (hlength chan))]
    have := htaken chan
    rw [Delivery.size, hadc, hold]
    omega
  have hbase : ∀ chan, base chan ≤ m.taken chan := fun chan => (h.base_le chan).trans (htaken chan)
  by_cases hempty : scanned.adc 0 = []
  · -- Channel one has none: all wait.
    have hnone : base 0 = m.taken 0 := by
      have hlen := hadc 0
      rw [hempty, List.length_nil] at hlen
      have := hbase 0
      omega
    refine ⟨scanned.adc, scanned.synchronized, [], fun events => ?_, ⟨base, ?_⟩, fun hon => ?_,
      fun _ hon => ?_, fun _ => ⟨rfl, fun hext => ?_⟩⟩
    · rw [Fx4Cache.mergeAdc_of_empty hempty, List.map_nil, List.append_nil]
    · exact ⟨hholds, hbase, fun hon => absurd (hsame.symm.trans hon) Bool.false_ne_true,
        fun _ => hnone, fun hext _ => h.kept hext hsync, hmismatch⟩
    · exact absurd (hsync.symm.trans hon) Bool.false_ne_true
    · exact absurd (hsame.symm.trans hon) Bool.false_ne_true
    · have hzero := h.kept hext hsync 0
      have := least_le m.taken 0
      omega
  · have hpos : 0 < s.size m 0 := by
      rw [hsize]
      exact List.length_pos_iff.2 hempty
    by_cases heq : ∀ i j, (scanned.adc i).length = (scanned.adc j).length
    · -- Equally long for the first time, the channels are level.
      have hlevel := ho.level hsync hpos fun i j => by rw [hsize, hsize, heq i j]
      have hleast : ∀ chan, m.taken chan = least m.taken := by
        intro chan
        obtain ⟨other, hother⟩ := (least_spec m.taken).1
        rw [← hother]
        exact hlevel chan other
      have hsame_base : ∀ chan, base chan = base 0 := by
        intro chan
        have hlen := heq chan 0
        have hchan := hleast chan
        have hzero := hleast 0
        have := hbase chan
        have := hbase 0
        rw [hadc, hadc] at hlen
        omega
      let ws := (run.samples.take (least m.taken)).drop (base 0)
      have hheld : scanned.Holds fun chan => ws.map (Whole.sample chan) := by
        have hfun : (fun chan => ((run.samples.take (m.taken chan)).drop (base chan)).map
            (Whole.sample chan)) = fun chan => ws.map (Whole.sample chan) := by
          funext chan
          rw [hleast, hsame_base]
        rwa [hfun] at hholds
      have hws : ws ≠ [] := by
        intro hnil
        refine hempty ?_
        rw [hheld.adc 0, hnil]
        rfl
      refine ⟨fun _ => [], true, ws, Fx4Cache.mergeAdc_first hws hheld hmismatch,
        ⟨fun _ => least m.taken, ?_⟩, fun hon => ?_, fun _ _ => ⟨base 0, ?_, rfl, fun hext => h.kept hext hsync 0⟩,
        fun hoff => by cases hoff⟩
      · refine Aligned.merged { scanned with synchronized := true } (fun chan => ?_)
          (fun chan hne => ?_) hmismatch rfl
        · rw [hleast, drop_take_self]
          rfl
        · rw [hleast, drop_take_self] at hne
          exact absurd rfl hne
      · exact absurd (hsync.symm.trans hon) Bool.false_ne_true
      · rw [← hleast 0]
        exact hbase 0
    · -- They are cleared.
      have hcleared : ∀ hext : cfg.mode.external = true, False := by
        intro hext
        exact heq fun i j => by rw [← hsize, ← hsize, ho.kept hext hsync hpos i j]
      refine ⟨fun _ => [], scanned.synchronized, [], fun events => ?_, ⟨m.taken, ?_⟩,
        fun hon => ?_, fun _ hon => ?_, fun _ => ⟨rfl, fun hext => (hcleared hext).elim⟩⟩
      · rw [Fx4Cache.mergeAdc_clear hempty hsame heq, List.map_nil, List.append_nil]
      · refine ⟨⟨fun chan => ?_, fun chan hne => ?_⟩, fun _ => le_rfl,
          fun hon => absurd (hsame.symm.trans hon) Bool.false_ne_true, fun _ => rfl,
          fun hext => (hcleared hext).elim, hmismatch⟩
        · rw [drop_take_self]
          rfl
        · rw [drop_take_self] at hne
          exact absurd rfl hne
      · exact absurd (hsync.symm.trans hon) Bool.false_ne_true
      · exact absurd (hsame.symm.trans hon) Bool.false_ne_true

end Merge

/-- `done` are the events the filter has seen, in the order it saw them.  With a filter this is
the order of time, and no gate event is ahead of a sample that is not whole. -/
structure Delivery.Inv (run : MeterRun F) (cfg : TriggerConfig) (s : Delivery F)
    (done : List (TimedEvent F)) : Prop where
  taken_le : ∀ chan, s.taken chan ≤ (wholes (run.events.take s.cut)).length
  aligned : ∃ base, Aligned run cfg s.cache s.taken base
  tracks : s.cache.Tracks cfg (done.map (·.kind))
  passed : s.actions.filterMap Fx4Action.values? = passed cfg [] (done.map (·.kind))
  samples : ∃ k ≤ least s.taken, wholes done = (run.samples.take (least s.taken)).drop k ∧
    (cfg.mode.external = true → k = 0)
  fresh : s.cache.synchronized = false → wholes done = []
  sorted : cfg.mode.external = true → done.Pairwise fun a b => a.time < b.time
  members : cfg.mode.external = true → ∀ e, e ∈ done ↔
    (∃ gate ∈ gates (run.events.take s.cut), e = gate.event F) ∨
      ∃ whole ∈ run.samples.take (least s.taken), e = whole.event
  gates : cfg.mode.external = true → ∀ gate ∈ gates (run.events.take s.cut),
    ∀ whole ∈ run.samples.drop (least s.taken), gate.time < whole.time

section Step

variable {run : MeterRun F} {cfg : TriggerConfig} {s : Delivery F} {m : Update F}
  {done : List (TimedEvent F)}

theorem values_kinds (events : List (TimedEvent F)) :
    (events.map (·.kind)).filterMap EventKind.values? = (wholes events).map (·.values) := by
  rw [List.filterMap_map, wholes, List.map_filterMap]
  refine List.filterMap_congr fun e _ => ?_
  rw [Function.comp_apply, TimedEvent.whole?, Option.map_map]
  cases e.kind.values? <;> rfl

/-- The samples of the run are in the order of time. -/
theorem MeterRun.samples_sorted (run : MeterRun F) :
    run.samples.Pairwise fun a b => a.time < b.time := sorted_wholes run.sorted

/-- No two events are at the same time. -/
theorem MeterRun.eq_of_time (run : MeterRun F) {e e' : TimedEvent F} (he : e ∈ run.events)
    (he' : e' ∈ run.events) (htime : e.time = e'.time) : e = e' := by
  have hne := run.sorted.imp fun hab => ne_of_lt hab
  exact List.inj_on_of_nodup_map (List.pairwise_map.2 hne) he he' htime

theorem mem_take_iff {α : Type} {l : List α} {a b : Nat} (hab : a ≤ b) {x : α} :
    x ∈ l.take b ↔ x ∈ l.take a ∨ x ∈ (l.take b).drop a := by
  have hsplit := take_drop_append l (Nat.zero_le a) hab
  rw [List.drop_zero, List.drop_zero] at hsplit
  rw [← List.mem_append, hsplit]

/-- An older event stands before. -/
theorem mem_take_of_lt {α : Type} (key : α → Int) {l : List α}
    (h : l.Pairwise fun a b => key a < key b) {n : Nat} {x y : α} (hx : x ∈ l)
    (hy : y ∈ l.take n) (hxy : key x < key y) : x ∈ l.take n := by
  rw [← List.take_append_drop n l] at hx h
  obtain hx | hx := List.mem_append.1 hx
  · exact hx
  · have hyx := (List.pairwise_append.1 h).2.2 y hy x hx
    omega

/-- The gate events of a message are those from the last cut on. -/
theorem mem_gates_cut (h : s.cut ≤ m.cut) {gate : GateEvent} :
    gate ∈ gates (run.events.take m.cut) ↔ gate ∈ gates (run.events.take s.cut) ∨
      gate ∈ gates ((run.events.take m.cut).drop s.cut) := by
  have hsplit : run.events.take m.cut =
      run.events.take s.cut ++ (run.events.take m.cut).drop s.cut := by
    conv => lhs; rw [← List.take_append_drop s.cut (run.events.take m.cut), List.take_take,
      Nat.min_eq_left h]
  rw [mem_gates, mem_gates, mem_gates, ← List.mem_append, ← hsplit]

namespace Delivery.Inv

theorem length_le (hd : Delivers run s m) (chan : Chan) : m.taken chan ≤ run.samples.length :=
  (hd.behind chan).trans (length_wholes_take_le run.events m.cut)

/-- A message with a filter makes whole all that is left to. -/
theorem merged_all (h : s.Inv run cfg done) (hext : cfg.mode.external = true) {cache : Fx4Cache F}
    {ws : List (Whole F)} (hmerged : Merged run cfg s m cache ws) :
    ws = (run.samples.take (least m.taken)).drop (least s.taken) := by
  cases hsync : s.cache.synchronized with
  | true => exact (hmerged.later hsync).2
  | false =>
    obtain ⟨base, hbase⟩ := h.aligned
    have hzero : least s.taken = 0 := by
      have := hbase.waiting hsync
      have := hbase.kept hext hsync 0
      have := least_le s.taken 0
      omega
    rw [hzero]
    cases hnew : cache.synchronized with
    | true =>
      obtain ⟨k, -, hws, hk⟩ := hmerged.first hsync hnew
      rw [hws, hk hext]
    | false =>
      obtain ⟨hnil, hnone⟩ := hmerged.waiting hnew
      rw [hnil, hnone hext]
      rfl

/-- The samples the filter has seen, one message on. -/
theorem samples_step (h : s.Inv run cfg done) (htaken : ∀ chan, s.taken chan ≤ m.taken chan)
    {cache : Fx4Cache F} {ws : List (Whole F)} (hmerged : Merged run cfg s m cache ws) :
    ∃ k ≤ least m.taken, wholes done ++ ws = (run.samples.take (least m.taken)).drop k ∧
      (cfg.mode.external = true → k = 0) := by
  have hmono := least_mono htaken
  cases hsync : s.cache.synchronized with
  | true =>
    obtain ⟨k, hk, hdone, hzero⟩ := h.samples
    refine ⟨k, hk.trans hmono, ?_, hzero⟩
    rw [hdone, (hmerged.later hsync).2, take_drop_append run.samples hk hmono]
  | false =>
    rw [h.fresh hsync, List.nil_append]
    cases hnew : cache.synchronized with
    | true => exact hmerged.first hsync hnew
    | false =>
      obtain ⟨hnil, hnone⟩ := hmerged.waiting hnew
      refine ⟨least m.taken, le_rfl, ?_, hnone⟩
      rw [hnil, drop_take_self]

theorem gates_step (h : s.Inv run cfg done) (hd : Delivers run s m) (ho : InOrder run cfg s m)
    (hext : cfg.mode.external = true) : ∀ gate ∈ QuadEm.gates (run.events.take m.cut),
      ∀ whole ∈ run.samples.drop (least m.taken), gate.time < whole.time := by
  intro gate hgate whole hwhole
  obtain hold | hnew := (mem_gates_cut hd.cut_le).1 hgate
  · refine h.gates hext gate hold whole ?_
    obtain ⟨n, hn⟩ := Nat.exists_eq_add_of_le (least_mono hd.taken_le)
    rw [hn, ← List.drop_drop] at hwhole
    exact List.mem_of_mem_drop hwhole
  · exact ho.gates hext gate hnew whole hwhole

/-- The gate events and samples of a part of the run differ in their times. -/
theorem segment_sorted {events : List (TimedEvent F)} {ws : List (Whole F)}
    (hevents : events.Sublist run.events) (hws : ws.Sublist run.samples) :
    (segment (QuadEm.gates events) ws).Pairwise fun a b => a.time < b.time := by
  have hgates := sorted_gates (run.sorted.sublist hevents)
  have hwholes := run.samples_sorted.sublist hws
  refine Keyed.sort_strict (List.pairwise_append.2 ⟨List.pairwise_map.2 (hgates.imp ne_of_lt),
    List.pairwise_map.2 (hwholes.imp ne_of_lt), ?_⟩)
  intro e he e' he' heq
  obtain ⟨gate, hgate, rfl⟩ := List.mem_map.1 he
  obtain ⟨whole, hwhole, rfl⟩ := List.mem_map.1 he'
  have hsame := run.eq_of_time (hevents.subset (mem_gates.1 hgate))
    (mem_wholes.1 (hws.subset hwhole)) heq
  have hkind := congrArg TimedEvent.kind hsame
  cases hkind

/-- A whole sample stands before the cut. -/
theorem mem_cut (h : s.Inv run cfg done) {whole : Whole F}
    (hwhole : whole ∈ run.samples.take (least s.taken)) : whole.event ∈ run.events.take s.cut := by
  have hle : least s.taken ≤ (wholes (run.events.take s.cut)).length :=
    (least_le s.taken 0).trans (h.taken_le 0)
  refine mem_wholes.1 ?_
  rw [wholes_take]
  exact List.take_subset_take_left _ hle hwhole

/-- What a message brings is newer than all that the filter has seen. -/
theorem done_lt (h : s.Inv run cfg done) (hext : cfg.mode.external = true)
    {e e' : TimedEvent F} (he : e ∈ done)
    (he' : e' ∈ segment (QuadEm.gates ((run.events.take m.cut).drop s.cut))
      ((run.samples.take (least m.taken)).drop (least s.taken))) : e.time < e'.time := by
  have hcut : ∀ x ∈ run.events.take s.cut, ∀ y ∈ (run.events.take m.cut).drop s.cut,
      x.time < y.time := by
    intro x hx y hy
    have hsorted := run.sorted
    rw [← List.take_append_drop s.cut run.events] at hsorted
    refine (List.pairwise_append.1 hsorted).2.2 x hx y ?_
    exact ((List.take_sublist m.cut run.events).drop s.cut).subset hy
  obtain ⟨gate, hgate, rfl⟩ | ⟨whole, hwhole, rfl⟩ := (h.members hext e).1 he
  · obtain ⟨gate', hgate', rfl⟩ | ⟨whole', hwhole', rfl⟩ := mem_segment.1 he'
    · exact hcut _ (mem_gates.1 hgate) _ (mem_gates.1 hgate')
    · refine h.gates hext gate hgate whole' ?_
      exact ((List.take_sublist _ run.samples).drop _).subset hwhole'
  · obtain ⟨gate', hgate', rfl⟩ | ⟨whole', hwhole', rfl⟩ := mem_segment.1 he'
    · exact hcut _ (h.mem_cut hwhole) _ (mem_gates.1 hgate')
    · have hsorted := run.samples_sorted
      rw [← List.take_append_drop (least s.taken) run.samples] at hsorted
      refine (List.pairwise_append.1 hsorted).2.2 whole hwhole whole' ?_
      exact ((List.take_sublist _ run.samples).drop _).subset hwhole'

/-- The caches scan the message and merge it. -/
theorem scan_merge (h : s.Inv run cfg done) (hd : Delivers run s m) (ho : InOrder run cfg s m) :
    ∃ members scanned found adc synchronized ws, m.data = .object members ∧
      s.cache.scan members = (scanned, found) ∧
      scanned.mergeAdc found = ({ scanned with adc, synchronized },
        found ++ ws.map (Whole.since scanned.startTime)) ∧
      Merged run cfg s m { scanned with adc, synchronized } ws ∧
      (∀ before, s.cache.Tracks cfg before → scanned.Tracks cfg before) ∧
      (Keyed.sort TimedEvent.time (found ++ ws.map (Whole.since scanned.startTime))).map (·.kind) =
        (segment (QuadEm.gates ((run.events.take m.cut).drop s.cut)) ws).map (·.kind) := by
  obtain ⟨base, hbase⟩ := h.aligned
  obtain ⟨members, items, hdata, -⟩ := hd.carries
  have hgates : (QuadEm.gates ((run.events.take m.cut).drop s.cut)).Pairwise
      fun a b => a.time < b.time :=
    sorted_gates (run.sorted.sublist (((List.drop_sublist _ _).trans (List.take_sublist _ _))))
  obtain ⟨adc₁, startTime, found, hscan, hholds, hkinds, hle, hfound⟩ :=
    Fx4Cache.scan_spec hbase.holds (hdata ▸ hd.carries) (by
      intro chan sample hsample
      obtain ⟨whole, hwhole, rfl⟩ := List.mem_map.1 hsample
      exact run.positive whole (List.mem_of_mem_take (List.mem_of_mem_drop hwhole))) hgates
  have hheld : (fun chan => ((run.samples.take (s.taken chan)).drop (base chan)).map
        (Whole.sample chan) ++
      ((run.samples.take (m.taken chan)).drop (s.taken chan)).map (Whole.sample chan)) =
      fun chan => ((run.samples.take (m.taken chan)).drop (base chan)).map (Whole.sample chan) := by
    funext chan
    rw [← List.map_append, take_drop_append run.samples (hbase.base_le chan) (hd.taken_le chan)]
  rw [hheld] at hholds
  let scanned : Fx4Cache F := { s.cache with adc := adc₁, startTime }
  have hmerge : ∃ adc synchronized ws, (∀ events, scanned.mergeAdc events =
        ({ scanned with adc, synchronized }, events ++ ws.map (Whole.since scanned.startTime))) ∧
      Merged run cfg s m { scanned with adc, synchronized } ws := by
    cases hsync : s.cache.synchronized with
    | true =>
      obtain ⟨adc, ws, hmerge, hmerged⟩ := merge_later scanned hbase hd.taken_le hholds
        hsync hsync hbase.mismatch
      exact ⟨adc, s.cache.synchronized, ws, hmerge, hmerged⟩
    | false =>
      exact merge_first scanned hbase ho hd.taken_le (length_le hd) hholds hsync hsync
        hbase.mismatch
  obtain ⟨adc, synchronized, ws, hmerge, hmerged⟩ := hmerge
  refine ⟨members, scanned, found, adc, synchronized, ws, hdata, hscan, hmerge found, hmerged,
    fun _ htracks => ⟨htracks.level, htracks.armed, htracks.count⟩,
    kinds_sorted hgates hkinds hle fun hws => hfound ?_⟩
  -- Empty caches make nothing whole.
  by_contra hnone
  push Not at hnone
  have hempty : scanned.adc 0 = [] := by
    rw [hholds.adc 0, ← congrFun hheld 0, hnone 0]
    rfl
  have hsame := congrArg Prod.snd
    ((Fx4Cache.mergeAdc_of_empty hempty found).symm.trans (hmerge found))
  exact hws (List.map_eq_nil_iff.1 (List.self_eq_append_right.1 hsame))

/-- **One message.** -/
theorem deliver (h : s.Inv run cfg done) (hd : Delivers run s m) (ho : InOrder run cfg s m) :
    ∃ done, Delivery.Inv run cfg {
      cache := (s.cache.ingest m.data cfg).1
      cut := m.cut
      taken := m.taken
      actions := s.actions ++ (s.cache.ingest m.data cfg).2 } done := by
  obtain ⟨members, scanned, found, adc, synchronized, ws, hdata, hscan, hmerge, hmerged, htracks,
    hkinds⟩ := h.scan_merge hd ho
  let new := segment (QuadEm.gates ((run.events.take m.cut).drop s.cut)) ws
  let merged : Fx4Cache F := { scanned with adc, synchronized }
  obtain ⟨k, hk, hsamples, hzero⟩ := h.samples_step hd.taken_le hmerged
  have hws : ws.Pairwise fun a b => a.time < b.time := by
    have hsub : ws.Sublist (wholes done ++ ws) := List.sublist_append_right _ _
    rw [hsamples] at hsub
    exact run.samples_sorted.sublist
      (hsub.trans ((List.drop_sublist _ _).trans (List.take_sublist _ _)))
  have hnew : wholes (done ++ new) = (run.samples.take (least m.taken)).drop k := by
    rw [wholes_append, wholes_segment hws, hsamples]
  have hmergedTracks : merged.Tracks cfg (done.map (·.kind)) := by
    have hscanned := htracks _ h.tracks
    exact ⟨hscanned.level, hscanned.armed, hscanned.count⟩
  have hkindsNew : done.map (·.kind) ++ (Keyed.sort TimedEvent.time
      (found ++ ws.map (Whole.since scanned.startTime))).map (·.kind) =
        (done ++ new).map (·.kind) := by
    rw [hkinds, List.map_append]
  obtain ⟨gateLevel, triggerActive, numTriggerValues, actions, hfilter, hafter, hactions⟩ :=
    hmergedTracks.events (Keyed.sort TimedEvent.time
      (found ++ ws.map (Whole.since scanned.startTime))) (by
        intro hmode
        refine (ho.counted hmode).imp_right fun hle => ?_
        rw [hkindsNew, values_kinds, hnew, List.length_map, List.length_drop, List.length_take]
        omega) []
  have hingest : s.cache.ingest m.data cfg =
      ({ merged with gateLevel, triggerActive, numTriggerValues }, actions) := by
    simp only [Fx4Cache.ingest, hdata, Json.asObject]
    rw [hscan]
    dsimp only
    rw [hmerge]
    exact hfilter
  rw [hingest]
  obtain ⟨base, hbase⟩ := hmerged.aligned
  refine ⟨done ++ new, {
    taken_le := hd.behind
    aligned := ⟨base, ⟨hbase.holds.adc, hbase.holds.started⟩, hbase.base_le, hbase.whole,
      hbase.waiting, hbase.kept, hbase.mismatch⟩
    tracks := hkindsNew ▸ hafter
    passed := ?_
    samples := ⟨k, hk, hnew, hzero⟩
    fresh := fun hoff => ?_
    sorted := fun hext => ?_
    members := fun hext e => ?_
    gates := fun hext => h.gates_step hd ho hext }⟩
  · have happend := passed_append cfg [] (done.map (·.kind)) ((Keyed.sort TimedEvent.time
      (found ++ ws.map (Whole.since scanned.startTime))).map (·.kind))
    rw [List.nil_append] at happend
    rw [List.filterMap_append, h.passed, hactions, ← happend, hkindsNew]
  · -- Nothing was merged before, and nothing is now.
    rw [wholes_append, wholes_segment hws, (hmerged.waiting hoff).1, List.append_nil]
    cases hsync : s.cache.synchronized with
    | true => exact absurd ((hmerged.later hsync).1.symm.trans hoff) (by decide)
    | false => exact h.fresh hsync
  · have hall := h.merged_all hext hmerged
    refine List.pairwise_append.2 ⟨h.sorted hext, ?_, fun e he e' he' => ?_⟩
    · refine segment_sorted ((List.drop_sublist _ _).trans (List.take_sublist _ _)) ?_
      rw [hall]
      exact (List.drop_sublist _ _).trans (List.take_sublist _ _)
    · refine h.done_lt (m := m) hext he ?_
      rw [← hall]
      exact he'
  · rw [List.mem_append, h.members hext, mem_segment, h.merged_all hext hmerged]
    simp only [mem_gates_cut hd.cut_le, mem_take_iff (least_mono hd.taken_le), or_and_right,
      exists_or]
    exact or_or_or_comm

theorem start (run : MeterRun F) (cfg : TriggerConfig) (cache : Fx4Cache F) :
    Delivery.Inv run cfg { cache := cache.reset } [] where
  taken_le := fun _ => Nat.zero_le _
  aligned := by
    refine ⟨fun _ => 0, ⟨fun _ => rfl, fun _ hne => absurd rfl hne⟩, fun _ => le_rfl,
      fun hon => ?_, fun _ => rfl, fun _ _ _ => rfl, rfl⟩
    cases hon
  tracks := ⟨rfl, fun _ => by simp [Fx4Cache.reset], fun _ hon => by cases hon⟩
  passed := rfl
  samples := ⟨0, Nat.zero_le _, by rw [least_const fun _ => rfl]; rfl, fun _ => rfl⟩
  fresh := fun _ => rfl
  sorted := fun _ => List.Pairwise.nil
  members := by
    intro _ e
    have hleast : least (fun _ : Chan => 0) = 0 := least_const fun _ => rfl
    simp [QuadEm.gates, hleast]
  gates := by
    intro _ gate hgate
    simp [QuadEm.gates] at hgate

/-- The filter has seen all that is older than a whole sample. -/
theorem older (h : s.Inv run cfg done) (hext : cfg.mode.external = true) {whole : Whole F}
    (hwhole : whole ∈ run.samples.take (least s.taken)) :
    done.filter (·.time < whole.time) = run.events.filter (·.time < whole.time) := by
  refine Keyed.ext TimedEvent.time ((h.sorted hext).filter _) (run.sorted.filter _) fun e => ?_
  rw [List.mem_filter, List.mem_filter, h.members hext e]
  refine and_congr_left fun hlt => ?_
  rw [decide_eq_true_eq] at hlt
  constructor
  · rintro (⟨gate, hgate, rfl⟩ | ⟨other, hother, rfl⟩)
    · exact List.mem_of_mem_take (mem_gates.1 hgate)
    · exact mem_wholes.1 (List.mem_of_mem_take hother)
  · intro he
    cases hw : e.whole? with
    | some other =>
      obtain rfl := whole?_eq_some.1 hw
      exact Or.inr ⟨other, mem_take_of_lt Whole.time run.samples_sorted
        (mem_wholes.2 he) hwhole hlt, rfl⟩
    | none =>
      obtain ⟨time, kind⟩ := e
      cases kind with
      | adc values => cases hw
      | gate level =>
        refine Or.inl ⟨⟨time, level⟩, mem_gates.2 ?_, rfl⟩
        exact mem_take_of_lt TimedEvent.time run.sorted he (h.mem_cut hwhole) hlt

/-- What has been published so far. -/
theorem published (h : s.Inv run cfg done) : Published run cfg s := by
  obtain ⟨k, -, hdone, hzero⟩ := h.samples
  unfold Published
  dsimp only
  split
  next hext =>
    rw [hzero hext, List.drop_zero] at hdone
    have hpassed := passed_sorted cfg [] done (h.sorted hext)
    rw [List.map_nil, List.nil_append] at hpassed
    rw [h.passed, hpassed, ← hdone]
    refine congrArg (List.map _) (List.filter_congr fun whole hwhole => ?_)
    have hwhole : whole ∈ wholes done := hwhole
    rw [hdone] at hwhole
    rw [admitted, h.older hext hwhole]
  next hext =>
    refine ⟨k, ?_⟩
    rw [h.passed, passed_unfiltered (by simpa using hext), values_kinds, hdone]

end Delivery.Inv

end Step

/-! ## What is published -/

/-- **Merge and filter.**  However the run is cut into messages, as long as each keeps the channels
and the gate together, the samples published are the whole ones: without a filter all behind the
first, with one those that the gate events before them admit. -/
theorem fx4_samples (run : MeterRun F) (cfg : TriggerConfig) :
    ∀ s, ((fx4System run cfg).restrict (InOrder run cfg)).Reachable s → Published run cfg s := by
  intro s hs
  have hinv : ∃ done, Delivery.Inv run cfg s done := by
    refine hs.invariant (P := fun s => ∃ done, Delivery.Inv run cfg s done) ?_ ?_
    · rintro s ⟨cache, rfl⟩
      exact ⟨[], Delivery.Inv.start run cfg cache⟩
    · rintro s m t ⟨done, h⟩ ⟨⟨hd, rfl⟩, ho⟩
      exact h.deliver hd ho
  obtain ⟨done, h⟩ := hinv
  exact h.published

/-- An update of the samples and gate events, as the meter writes it; `f64` is how a timestamp reads
as one. -/
def updateOf (f64 : Int → F) (samples : Chan → List (AdcSample F)) (gates : List GateEvent) :
    Json F :=
  .object (sources.map fun source => (pathOf source, .array (match source with
    | .gate => gates.map fun gate =>
      .array [.bool gate.level, .number (some gate.time) (f64 gate.time)]
    | .adc chan => (samples chan).map fun sample =>
      .array [.number none sample.val, .number (some sample.time) (f64 sample.time)])))

theorem carries_updateOf (f64 : Int → F) (samples : Chan → List (AdcSample F))
    (gates : List GateEvent) : Carries (updateOf f64 samples gates) samples gates := by
  refine ⟨_, _, rfl, ⟨?_, fun source => Or.inl (List.mem_map.2 ⟨source, mem_sources source, rfl⟩)⟩,
    fun chan => ?_, ?_⟩
  · rw [List.map_map]
    exact List.pairwise_map.2 (sources_sorted.imp ne_of_lt)
  · refine List.forall₂_map_right_iff.2 (List.forall₂_same.2 fun sample _ => ?_)
    exact ⟨none, f64 sample.time, [], rfl⟩
  · refine List.forall₂_map_right_iff.2 (List.forall₂_same.2 fun gate _ => ?_)
    exact ⟨f64 gate.time, [], rfl⟩

/-- The message that takes the delivery on to `cut` and `taken`. -/
def MeterRun.update (run : MeterRun F) (f64 : Int → F) (s : Delivery F) (cut : Nat)
    (taken : Chan → Nat) : Update F where
  data := updateOf f64
    (fun chan => ((run.samples.take (taken chan)).drop (s.taken chan)).map (Whole.sample chan))
    (gates ((run.events.take cut).drop s.cut))
  cut := cut
  taken := taken

def MeterRun.deliver (run : MeterRun F) (cfg : TriggerConfig) (f64 : Int → F) (s : Delivery F)
    (cut : Nat) (taken : Chan → Nat) : Delivery F :=
  let done := s.cache.ingest (run.update f64 s cut taken).data cfg
  { cache := done.1, cut, taken, actions := s.actions ++ done.2 }

/-- The next message of a delivery, without what it carries. -/
structure MeterRun.Goes (run : MeterRun F) (s : Delivery F) (cut : Nat) (taken : Chan → Nat) :
    Prop where
  cut_le : s.cut ≤ cut
  taken_le : ∀ chan, s.taken chan ≤ taken chan
  behind : ∀ chan, taken chan ≤ (wholes (run.events.take cut)).length
  foremost : ∃ chan, taken chan = (wholes (run.events.take cut)).length

theorem MeterRun.Goes.step {run : MeterRun F} {s : Delivery F} {cut : Nat} {taken : Chan → Nat}
    (h : run.Goes s cut taken) (cfg : TriggerConfig) (f64 : Int → F) :
    (fx4System run cfg).step s (run.update f64 s cut taken) (run.deliver cfg f64 s cut taken) :=
  ⟨⟨h.cut_le, h.taken_le, h.behind, h.foremost, carries_updateOf _ _ _⟩, rfl⟩

/-- A sample whose channels read ten times its time, and the channel. -/
def sampleAt (time : Nat) : TimedEvent Nat := ⟨time, .adc fun chan => 10 * time + chan⟩

def gateAt (time : Nat) (level : Bool) : TimedEvent Nat := ⟨time, .gate level⟩

/-- Two samples. -/
def twoSamples : MeterRun Nat where
  events := [sampleAt 1, sampleAt 2]
  sorted := by simp [sampleAt]
  positive := by decide

/-- Two samples before the gate closes. -/
def gateCloses : MeterRun Nat where
  events := [sampleAt 1, sampleAt 2, gateAt 3 false]
  sorted := by simp [sampleAt, gateAt]
  positive := by decide

/-- Two samples after a trigger. -/
def gateOpens : MeterRun Nat where
  events := [sampleAt 1, gateAt 2 true, sampleAt 3, sampleAt 4]
  sorted := by simp [sampleAt, gateAt]
  positive := by decide

def Delivery.values (s : Delivery Nat) : List (List Nat) :=
  (s.actions.filterMap Fx4Action.values?).map List.ofFn

/-- The first `n` samples of channels one to three, and `k` of channel four. -/
def behindBy (n k : Nat) : Chan → Nat := fun chan => if chan.val = 3 then k else n

def started : Delivery Nat :=
  { cache := Fx4Cache.reset ⟨fun _ => [], 0, .unknown, false, false, false, 0⟩ }

def freeRun : TriggerConfig := ⟨.freeRun, .positive, 1⟩

def extGate : TriggerConfig := ⟨.extGate, .positive, 1⟩

def extTrigger : TriggerConfig := ⟨.extTrigger, .positive, 1⟩

theorem started_reachable (run : MeterRun Nat) (cfg : TriggerConfig) :
    (fx4System run cfg).Reachable started := System.Reachable.init ⟨_, rfl⟩

/-- The first message leaves channel four a sample behind, and so does the next. -/
def skewed₁ : Delivery Nat := twoSamples.deliver freeRun Int.toNat started 1 (behindBy 1 0)

def skewed₂ : Delivery Nat := twoSamples.deliver freeRun Int.toNat skewed₁ 2 (behindBy 2 1)

/-- The gate closes in a message whose last sample is not whole. -/
def closed₁ : Delivery Nat := gateCloses.deliver extGate Int.toNat started 1 (behindBy 1 1)

def closed₂ : Delivery Nat := gateCloses.deliver extGate Int.toNat closed₁ 3 (behindBy 2 1)

def closed₃ : Delivery Nat := gateCloses.deliver extGate Int.toNat closed₂ 3 (behindBy 2 2)

/-- Before the caches are first merged a late channel is cleared with the others: channel four
stays a sample behind, and its values are published with the others' next ones.  And a sample that
is whole a message late, and older than the gate's closing, is dropped by the closed gate. -/
theorem skew_and_early_gate :
    ((fx4System twoSamples freeRun).Reachable skewed₂ ∧ skewed₂.values = [[20, 21, 22, 13]] ∧
        ¬Published twoSamples freeRun skewed₂) ∧
      (fx4System gateCloses extGate).Reachable closed₃ ∧ closed₃.values = [[10, 11, 12, 13]] ∧
        ¬Published gateCloses extGate closed₃ := by
  have hskewed : skewed₂.values = [[20, 21, 22, 13]] := by decide +kernel
  have hclosed : closed₃.values = [[10, 11, 12, 13]] := by decide +kernel
  have skew₁ : twoSamples.Goes started 1 (behindBy 1 0) := by constructor <;> decide +kernel
  have skew₂ : twoSamples.Goes skewed₁ 2 (behindBy 2 1) := by constructor <;> decide +kernel
  have close₁ : gateCloses.Goes started 1 (behindBy 1 1) := by constructor <;> decide +kernel
  have close₂ : gateCloses.Goes closed₁ 3 (behindBy 2 1) := by constructor <;> decide +kernel
  have close₃ : gateCloses.Goes closed₂ 3 (behindBy 2 2) := by constructor <;> decide +kernel
  refine ⟨⟨?_, hskewed, ?_⟩, ?_, hclosed, ?_⟩
  · exact ((started_reachable _ _).step (skew₁.step freeRun Int.toNat)).step
      (skew₂.step freeRun Int.toNat)
  · rintro ⟨k, hk⟩
    have hvalues := congrArg (List.map List.ofFn) hk
    have hwhole : least skewed₂.taken = 1 := by decide +kernel
    rw [hwhole] at hvalues
    have hlist := hskewed.symm.trans hvalues
    cases k with
    | zero => exact absurd hlist (by decide +kernel)
    | succ k =>
      have hlength := congrArg List.length hlist
      simp only [List.length_map, List.length_drop, List.length_take, List.length_singleton]
        at hlength
      omega
  · exact (((started_reachable _ _).step (close₁.step extGate Int.toNat)).step
      (close₂.step extGate Int.toNat)).step (close₃.step extGate Int.toNat)
  · intro hpublished
    have hvalues := congrArg (List.map List.ofFn) hpublished
    exact absurd (hclosed.symm.trans hvalues) (by decide +kernel)

/-- A sample behind a trigger that is whole a message late, and one more. -/
theorem fx4_samples_oneTrigger :
    ∃ s, s.values = [[30, 31, 32, 33]] ∧ Published gateOpens extTrigger s := by
  let s₁ := gateOpens.deliver extTrigger Int.toNat started 2 (behindBy 1 1)
  let s₂ := gateOpens.deliver extTrigger Int.toNat s₁ 4 (behindBy 3 2)
  let s₃ := gateOpens.deliver extTrigger Int.toNat s₂ 4 (behindBy 3 3)
  have go₁ : gateOpens.Goes started 2 (behindBy 1 1) := by constructor <;> decide +kernel
  have go₂ : gateOpens.Goes s₁ 4 (behindBy 3 2) := by constructor <;> decide +kernel
  have go₃ : gateOpens.Goes s₂ 4 (behindBy 3 3) := by constructor <;> decide +kernel
  have order₁ : InOrder gateOpens extTrigger started
      (gateOpens.update Int.toNat started 2 (behindBy 1 1)) := by constructor <;> decide +kernel
  have order₂ : InOrder gateOpens extTrigger s₁
      (gateOpens.update Int.toNat s₁ 4 (behindBy 3 2)) := by constructor <;> decide +kernel
  have order₃ : InOrder gateOpens extTrigger s₂
      (gateOpens.update Int.toNat s₂ 4 (behindBy 3 3)) := by constructor <;> decide +kernel
  have hstart : ((fx4System gateOpens extTrigger).restrict (InOrder gateOpens extTrigger)).Reachable
      started := System.Reachable.init ⟨_, rfl⟩
  have hreach := ((hstart.step ⟨go₁.step extTrigger Int.toNat, order₁⟩).step
    ⟨go₂.step extTrigger Int.toNat, order₂⟩).step ⟨go₃.step extTrigger Int.toNat, order₃⟩
  exact ⟨s₃, by decide +kernel, fx4_samples gateOpens extTrigger s₃ hreach⟩

end QuadEm
