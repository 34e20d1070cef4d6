import EpicsIocs.SpecsAnalyser.Scan

/-!
# Runs of an acquisition

A device that `Serves` a scan reports no point behind the scan's end and answers a request with the
values asked for, or with too few.  Whatever clients write, however the points are reported and
wherever the run has come to, the image and the spectrum are the sums over the channels read so far; as
long as nothing has failed, each of these has been asked for once (`acquisition_summed`).  Where the
loops end with no failure and nobody stopped them, that is the whole scan (`acquisition_whole`).
-/

namespace SpecsAnalyser

open Accumulate Raster

variable {V : Type} (f : Doubles V) (c : Setup) (scan : Nat → Nat → Nat → V)

/-! ## What the device does -/

/-- What a status reply reports. -/
def Reply.points : Reply → Int
  | .ok data => (parseIntegerField ((data.get "NumberOfAcquiredPoints").getD [])).getD 0
  | .device _ => 0
  | .failed => 0

structure Serves (k : Nat) (p : Poll) : Prop where
  points_le : p.status.points ≤ c.energyChannels
  data : ∀ lo hi : Nat, lo < hi → hi ≤ c.nx →
    readAcquisitionData f (p.data lo ((hi : Int) - 1)) = block c scan k lo hi ∨
      (readAcquisitionData f (p.data lo ((hi : Int) - 1))).length < (hi - lo) * c.ny

def Reply.NotAborted : Reply → Prop
  | .ok data => data.get "ControllerState" ≠ some "aborted".toList
  | .device _ => True
  | .failed => True

instance (reply : Reply) : Decidable reply.NotAborted :=
  match reply with
  | .ok data => inferInstanceAs (Decidable (data.get "ControllerState" ≠ some "aborted".toList))
  | .device _ => inferInstanceAs (Decidable True)
  | .failed => inferInstanceAs (Decidable True)

/-- Nobody stops the iteration. -/
structure Undisturbed (it : Iteration) : Prop where
  first : it.first.NotAborted
  asleep : ∀ p ∈ it.polls, p.asleep = none
  calling : ∀ p ∈ it.polls, p.calling = none
  status : ∀ p ∈ it.polls, p.status.NotAborted

/-- The sizes of a scan fit the counters. -/
structure Setup.Sized : Prop where
  iterations_lt : c.iterations < 2 ^ 31
  rows_nonneg : 0 ≤ c.nonEnergyChannels
  energy_lt : c.energyChannels < 2 ^ 31
  values_lt : c.energyChannels * c.nonEnergyChannels < 2 ^ 31

theorem i32_eq {v : Int} (hlo : -2 ^ 31 ≤ v) (hhi : v < 2 ^ 31) : i32 v = v := by
  unfold i32
  apply Int.bmod_eq_of_le
  · omega
  · omega

theorem Data.get_insert (data : Data) (key value name : String) :
    (data.insert key value).get name = if key = name then some value.toList else data.get name := by
  unfold Data.get Data.insert
  rw [List.reverse_append, List.reverse_singleton, List.singleton_append, List.find?_cons]
  by_cases h : key = name
  · rw [if_pos h, decide_eq_true (by rw [h])]
    rfl
  · rw [if_neg h, decide_eq_false fun heq => h (String.toList_inj.1 heq)]

/-! ## What is asked for -/

/-- The points that a command asks for. -/
def Command.points : Command → List Int
  | .getAcquisitionData fromIndex toIndex => upTo fromIndex (toIndex + 1)
  | .clearSpectrum | .start _ | .getAcquisitionStatus | .ordinateRange | .abort => []

def asked (sent : List Command) : List Int := sent.flatMap Command.points

/-- No request of the list is for more values than allowed. -/
def Small (sent : List Command) : Prop :=
  ∀ command ∈ sent, command.points.length * max c.ny 1 ≤ maxValues.toNat

section
variable {f c scan}

theorem asked_append (sent more : List Command) : asked (sent ++ more) = asked sent ++ asked more := by
  unfold asked
  exact List.flatMap_append

theorem Small.append {sent : List Command} {command : Command} (h : Small c sent)
    (hc : command.points.length * max c.ny 1 ≤ maxValues.toNat) : Small c (sent ++ [command]) := by
  intro d hd
  obtain hd | hd := List.mem_append.1 hd
  · exact h d hd
  · rw [List.mem_singleton.1 hd]
    exact hc

theorem upTo_append {lo mid hi : Int} (h : lo ≤ mid) (h' : mid ≤ hi) :
    upTo lo mid ++ upTo mid hi = upTo lo hi := by
  have hsize : (hi - lo).toNat = (mid - lo).toNat + (hi - mid).toNat := by omega
  unfold upTo
  rw [hsize, List.range_add, List.map_append, List.map_map]
  congr 1
  apply List.map_congr_left
  intro n hn
  show mid + (n : Int) = lo + ((mid - lo).toNat + n : Nat)
  omega

end

namespace Task

/-! ## What the steps leave alone -/

/-- The sums, the place in the scan and what has been asked for are the same. -/
structure Keeps (s s' : Task V) : Prop where
  image : s'.image = s.image
  spectrum : s'.spectrum = s.spectrum
  iteration : s'.iteration = s.iteration
  currentDataPoint : s'.currentDataPoint = s.currentDataPoint
  asked : SpecsAnalyser.asked s'.sent = SpecsAnalyser.asked s.sent
  small : Small c s.sent → Small c s'.sent

section
variable {f c scan} {s t u : Task V}

theorem Keeps.refl : Keeps c s s := ⟨rfl, rfl, rfl, rfl, rfl, id⟩

theorem Keeps.trans (h : Keeps c s t) (h' : Keeps c t u) : Keeps c s u where
  image := h'.image.trans h.image
  spectrum := h'.spectrum.trans h.spectrum
  iteration := h'.iteration.trans h.iteration
  currentDataPoint := h'.currentDataPoint.trans h.currentDataPoint
  asked := h'.asked.trans h.asked
  small := h'.small ∘ h.small

theorem keeps_send (command : Command) (h : command.points = []) : Keeps c s (s.send command) := by
  refine ⟨rfl, rfl, rfl, rfl, ?_, fun hs => hs.append ?_⟩
  · show SpecsAnalyser.asked (s.sent ++ [command]) = _
    rw [asked_append]
    show _ ++ (command.points ++ []) = _
    rw [h, List.append_nil, List.append_nil]
  · rw [h, List.length_nil, Nat.zero_mul]
    exact Nat.zero_le _

theorem keeps_writeAcquire (value : Int) : Keeps c s (s.writeAcquire value) := by
  have hset : Keeps c s { s with adAcquire := value } := ⟨rfl, rfl, rfl, rfl, rfl, id⟩
  unfold writeAcquire
  dsimp only
  split
  · have hstatus : Keeps c { s with adAcquire := value } { s with adAcquire := value, status := .aborted } :=
      ⟨rfl, rfl, rfl, rfl, rfl, id⟩
    exact (hset.trans hstatus).trans (keeps_send _ rfl)
  · exact hset

theorem keeps_client (write : Option Int) : Keeps c s (s.client write) := by
  cases write with
  | none => exact .refl
  | some value => exact keeps_writeAcquire value

theorem keeps_readAcquire : Keeps c s s.readAcquire := ⟨rfl, rfl, rfl, rfl, rfl, id⟩

theorem keeps_readStatus (reply : Reply) : Keeps c s (s.readStatus reply) := by
  refine (keeps_send .getAcquisitionStatus rfl).trans ?_
  cases reply with
  | ok data => exact ⟨rfl, rfl, rfl, rfl, rfl, id⟩
  | device info => exact ⟨rfl, rfl, rfl, rfl, rfl, id⟩
  | failed => exact ⟨rfl, rfl, rfl, rfl, rfl, id⟩

theorem keeps_announce : Keeps c s s.announce := by
  unfold announce
  split
  · have hset : Keeps c s { s with status := .acquire, message := "Acquiring data..." } :=
      ⟨rfl, rfl, rfl, rfl, rfl, id⟩
    exact hset.trans (keeps_send _ rfl)
  · exact .refl

@[simp] theorem readStatus_acquire (reply : Reply) : (s.readStatus reply).acquire = s.acquire := by
  cases reply <;> rfl

@[simp] theorem readStatus_adAcquire (reply : Reply) : (s.readStatus reply).adAcquire = s.adAcquire := by
  cases reply <;> rfl

@[simp] theorem announce_ok : s.announce.ok = s.ok := by
  unfold announce
  split <;> rfl

@[simp] theorem announce_acquire : s.announce.acquire = s.acquire := by
  unfold announce
  split <;> rfl

@[simp] theorem announce_adAcquire : s.announce.adAcquire = s.adAcquire := by
  unfold announce
  split <;> rfl

theorem numDataPoints_of_get {field : Option (List Char)}
    (h : s.lastData.get "NumberOfAcquiredPoints" = field) :
    s.numDataPoints = (parseIntegerField (field.getD [])).getD 0 := by
  rw [numDataPoints, h]

/-- A reply's points are read off the fields that the task keeps of it. -/
theorem numDataPoints_readStatus (reply : Reply) : (s.readStatus reply).numDataPoints = reply.points := by
  have hname : "ControllerState" ≠ "NumberOfAcquiredPoints" := by decide
  cases reply with
  | ok data =>
    have hget : Data.get (if data.contains "Code" then data.insert "ControllerState" "error" else data)
        "NumberOfAcquiredPoints" = data.get "NumberOfAcquiredPoints" := by
      split
      · rw [Data.get_insert, if_neg hname]
      · rfl
    exact numDataPoints_of_get hget
  | device info => rfl
  | failed => rfl

theorem controllerState_readStatus {reply : Reply} (h : reply.NotAborted) :
    (s.readStatus reply).lastData.get "ControllerState" ≠ some "aborted".toList := by
  have herror : "error".toList ≠ "aborted".toList := by decide +kernel
  cases reply with
  | ok data =>
    have hget : Data.get (if data.contains "Code" then data.insert "ControllerState" "error" else data)
        "ControllerState" ≠ some "aborted".toList := by
      split
      · rw [Data.get_insert, if_pos rfl]
        exact fun heq => herror (Option.some.inj heq)
      · exact h
    exact hget
  | device info => exact fun heq => herror (Option.some.inj heq)
  | failed => exact nofun

end

/-! ## The inner loop -/

/-- Nobody has stopped the task. -/
def Acquiring (s : Task V) : Prop := s.acquire = 1 ∧ s.adAcquire = 1

/-- What holds wherever a run has come to; `done` says how many channels of each iteration have been read.  `Q` is
that nobody stops the run. -/
structure Reads (Q : Prop) (done : List Nat) (s : Task V) : Prop where
  summed : Summed f c scan done s.image s.spectrum
  asked_eq : s.ok = true → SpecsAnalyser.asked s.sent = done.flatMap fun (n : Nat) => upTo 0 n
  small : Small c s.sent
  acquiring : Q → s.ok = true → s.Acquiring

/-- In an iteration behind those of `past`. -/
structure Inside (Q : Prop) (past : List Nat) (n : Nat) (s : Task V) : Prop where
  reads : Reads f c scan Q (past ++ [n]) s
  iteration_eq : s.iteration = past.length
  current_eq : s.currentDataPoint = n
  le : n ≤ c.nx
  aborted : Q → s.lastData.get "ControllerState" ≠ some "aborted".toList
  whole : Q → s.ok = true → ∀ m ∈ past, m = c.nx

section
variable {f c scan} {Q : Prop} {past : List Nat} {n : Nat} {p : Poll} {s s' : Task V}

theorem Reads.keeps {done : List Nat} (h : Reads f c scan Q done s) (hk : Keeps c s s')
    (hok : s'.ok = true → s.ok = true) (hacq : Q → s'.ok = true → s'.Acquiring) :
    Reads f c scan Q done s' where
  summed := by
    rw [hk.image, hk.spectrum]
    exact h.summed
  asked_eq hs := hk.asked.trans (h.asked_eq (hok hs))
  small := hk.small h.small
  acquiring := hacq

theorem shouldContinue_iff : s.shouldContinue c = true ↔
    s.acquire ≠ 0 ∧ s.ok = true ∧
      (s.controllerState ≠ "finished".toList ∨ s.currentDataPoint < c.energyChannels) ∧
      s.controllerState ≠ "aborted".toList ∧ s.controllerState ≠ "error".toList := by
  unfold shouldContinue
  simp only [Bool.and_eq_true, Bool.or_eq_true, decide_eq_true_eq, and_assoc]

/-- Where the next request ends. -/
theorem readEndDataPoint_spec (hc : c.Sized) {num : Int} (hn : s.currentDataPoint = n)
    (hlt : (n : Int) < num) (hle : num ≤ c.energyChannels) :
    ∃ hi : Nat, s.readEndDataPoint c num = hi ∧ n ≤ hi ∧ hi ≤ c.nx ∧
      (hi - n) * max c.ny 1 ≤ maxValues.toNat := by
  have hrows := hc.rows_nonneg
  have henergy := hc.energy_lt
  have hny : ((max c.ny 1 : Nat) : Int) = max c.nonEnergyChannels 1 := by
    unfold Setup.ny
    omega
  have hpos : 0 < max c.nonEnergyChannels 1 := by omega
  have hprod : (num - n) * max c.nonEnergyChannels 1 < 2 ^ 31 := by
    have hwide : (num - n) * max c.nonEnergyChannels 1 ≤
        c.energyChannels * max c.nonEnergyChannels 1 :=
      Int.mul_le_mul_of_nonneg_right (by omega) (by omega)
    by_cases h : 1 ≤ c.nonEnergyChannels
    · rw [max_eq_left h] at hwide ⊢
      have hvalues := hc.values_lt
      omega
    · rw [max_eq_right (by omega)] at hwide ⊢
      omega
  have hnonneg : 0 ≤ (num - n) * max c.nonEnergyChannels 1 := Int.mul_nonneg (by omega) (by omega)
  unfold readEndDataPoint
  rw [hn, i32_eq (v := num - n) (by omega) (by omega), i32_eq (by omega) hprod]
  by_cases hmax : (num - n) * max c.nonEnergyChannels 1 > maxValues
  · rw [if_pos hmax]
    have hquot : maxValues.tdiv (max c.nonEnergyChannels 1) * max c.nonEnergyChannels 1 ≤ maxValues :=
      Int.tdiv_mul_le _ (by omega)
    have hquot0 : 0 ≤ maxValues.tdiv (max c.nonEnergyChannels 1) :=
      Int.tdiv_nonneg (by decide) (by omega)
    have hless : maxValues.tdiv (max c.nonEnergyChannels 1) < num - n := by
      by_contra hge
      have := Int.mul_le_mul_of_nonneg_right (Int.not_lt.1 hge) (Int.le_of_lt hpos)
      omega
    generalize maxValues.tdiv (max c.nonEnergyChannels 1) = q at hquot hquot0 hless ⊢
    rw [i32_eq (by omega) (by omega)]
    refine ⟨n + q.toNat, by omega, by omega, ?_, ?_⟩
    · unfold Setup.nx
      omega
    · rw [Nat.add_sub_cancel_left]
      have hcast : ((q.toNat * max c.ny 1 : Nat) : Int) ≤ maxValues := by
        rw [Nat.cast_mul, hny, Int.toNat_of_nonneg hquot0]
        exact hquot
      omega
  · rw [if_neg hmax]
    refine ⟨num.toNat, by omega, by omega, ?_, ?_⟩
    · unfold Setup.nx
      omega
    · have hcast : (((num.toNat - n) * max c.ny 1 : Nat) : Int) ≤ maxValues := by
        rw [Nat.cast_mul, hny, Nat.cast_sub (by omega), Int.toNat_of_nonneg (by omega)]
        omega
      omega

/-- The loop over the rows where the controller has not gone too far. -/
theorem store_eq {num : Int} (hle : num ≤ c.energyChannels) (values : List V) (cols rows : List Int)
    (sums : Sums V) :
    s.store f c num values cols rows sums =
      { s with
        image := (rows.foldl (fun sums y => sums.row f c s.iteration values cols y) sums).image
        spectrum := (rows.foldl (fun sums y => sums.row f c s.iteration values cols y) sums).spectrum } := by
  induction rows generalizing sums with
  | nil => rfl
  | cons y rows ih =>
    rw [store, if_neg (by omega), ih]
    rfl

/-- A reply with the values asked for. -/
theorem summed_store {num : Int} {values : List V} {hi : Nat}
    (h : Summed f c scan (past ++ [n]) s.image s.spectrum) (hiter : s.iteration = past.length)
    (hcurrent : s.currentDataPoint = n) (hnum : num ≤ c.energyChannels) (hlo : n ≤ hi) (hhi : hi ≤ c.nx)
    (hv : ∀ y < c.ny, ∀ j < hi - n, values[y * (hi - n) + j]? = some (scan past.length (n + j) y)) :
    Summed f c scan (past ++ [hi])
      (s.store f c num values (upTo s.currentDataPoint hi) (upTo 0 (max c.nonEnergyChannels 0))
        ⟨s.image, s.spectrum, 0⟩).image
      (s.store f c num values (upTo s.currentDataPoint hi) (upTo 0 (max c.nonEnergyChannels 0))
        ⟨s.image, s.spectrum, 0⟩).spectrum := by
  have hcols : upTo s.currentDataPoint hi = (List.range (hi - n)).map fun (j : Nat) => (n : Int) + j := by
    unfold upTo
    rw [hcurrent, show ((hi : Int) - n).toNat = hi - n by omega]
  have hrows : upTo 0 (max c.nonEnergyChannels 0) =
      (List.range c.ny).map fun (y : Nat) => (0 : Int) + y := by
    unfold upTo Setup.ny
    rw [show (max c.nonEnergyChannels 0 - 0).toNat = c.nonEnergyChannels.toNat by omega]
  rw [store_eq hnum, hcols, hrows, hiter, Sums.rows_eq (by omega) (Nat.le_refl _) h.length_spectrum hv]
  exact h.stored hlo hhi

/-- The part of the spectrum that is posted is there. -/
theorem post_spec (hi : Nat) (h : hi ≤ s.spectrum.length) :
    ∃ s', s.post c hi = some s' ∧ Keeps c { s with currentDataPoint := (hi : Int) } s' ∧ s'.ok = s.ok ∧
      s'.acquire = s.acquire ∧ s'.adAcquire = s.adAcquire ∧ s'.lastData = s.lastData := by
  unfold post
  dsimp only
  by_cases h0 : s.iteration = 0
  · rw [if_pos h0, Int.toNat_natCast, if_pos h]
    exact ⟨_, rfl, ⟨rfl, rfl, rfl, rfl, rfl, id⟩, rfl, rfl, rfl, rfl⟩
  · rw [if_neg h0]
    exact ⟨_, rfl, ⟨rfl, rfl, rfl, rfl, rfl, id⟩, rfl, rfl, rfl, rfl⟩

theorem Inside.keeps (h : Inside f c scan Q past n s) (hk : Keeps c s s')
    (hok : s'.ok = true → s.ok = true) (hacq : Q → s'.ok = true → s'.Acquiring)
    (hlast : Q → s'.lastData.get "ControllerState" ≠ some "aborted".toList) :
    Inside f c scan Q past n s' where
  reads := h.reads.keeps hk hok hacq
  iteration_eq := hk.iteration.trans h.iteration_eq
  current_eq := hk.currentDataPoint.trans h.current_eq
  le := h.le
  aborted := hlast
  whole hQ hs := h.whole hQ (hok hs)

/-- A failure on the way leaves the sums as they are. -/
theorem Inside.failed (h : Inside f c scan Q past n s) (himage : s'.image = s.image)
    (hspectrum : s'.spectrum = s.spectrum) (hiter : s'.iteration = s.iteration)
    (hcurrent : s'.currentDataPoint = s.currentDataPoint) (hlast : s'.lastData = s.lastData)
    (hsmall : Small c s'.sent) (hok : s'.ok = false) : Inside f c scan Q past n s' := by
  have hbad : s'.ok ≠ true := by
    rw [hok]
    exact Bool.false_ne_true
  refine ⟨⟨?_, fun hs => absurd hs hbad, hsmall, fun _ hs => absurd hs hbad⟩, hiter.trans h.iteration_eq,
    hcurrent.trans h.current_eq, h.le, fun hQ => ?_, fun _ hs => absurd hs hbad⟩
  · rw [himage, hspectrum]
    exact h.reads.summed
  · rw [hlast]
    exact h.aborted hQ

theorem Inside.readAcquire (h : Inside f c scan Q past n s) :
    Inside f c scan Q past n s.readAcquire := by
  refine h.keeps keeps_readAcquire id (fun hQ hok => ?_) h.aborted
  obtain ⟨-, had⟩ := h.reads.acquiring hQ hok
  exact ⟨had, had⟩

theorem Inside.announce (h : Inside f c scan Q past n s) : Inside f c scan Q past n s.announce := by
  have hlast : s.announce.lastData = s.lastData := by
    unfold Task.announce
    split <;> rfl
  refine h.keeps keeps_announce (fun hok => announce_ok.symm.trans hok) (fun hQ hok => ?_) fun hQ => ?_
  · rw [announce_ok] at hok
    obtain ⟨hacq, had⟩ := h.reads.acquiring hQ hok
    exact ⟨announce_acquire.trans hacq, announce_adAcquire.trans had⟩
  · rw [hlast]
    exact h.aborted hQ

@[simp] theorem client_ok (write : Option Int) : (s.client write).ok = s.ok := by
  cases write with
  | none => rfl
  | some value =>
    unfold client writeAcquire
    dsimp only
    split <;> rfl

@[simp] theorem client_lastData (write : Option Int) : (s.client write).lastData = s.lastData := by
  cases write with
  | none => rfl
  | some value =>
    unfold client writeAcquire
    dsimp only
    split <;> rfl

theorem Inside.client (h : Inside f c scan Q past n s) {write : Option Int} (hwrite : Q → write = none) :
    Inside f c scan Q past n (s.client write) := by
  refine h.keeps (keeps_client write) (fun hok => ?_) (fun hQ hok => ?_) fun hQ => ?_
  · rwa [client_ok] at hok
  · rw [client_ok] at hok
    rw [hwrite hQ]
    exact h.reads.acquiring hQ hok
  · rw [client_lastData]
    exact h.aborted hQ

/-- The values of a request are counted without overflow. -/
theorem wanted_eq (hc : c.Sized) {hi : Nat} (hlo : n ≤ hi) (hhi : hi ≤ c.nx) :
    i32 (i32 ((hi : Int) - n) * c.nonEnergyChannels) = ((hi - n) * c.ny : Nat) ∧
      (((hi - n) * c.ny : Nat) : Int) < 2 ^ 31 := by
  have hrows : (c.ny : Int) = c.nonEnergyChannels := Int.toNat_of_nonneg hc.rows_nonneg
  have henergy := hc.energy_lt
  have hvalues : (((hi - n) * c.ny : Nat) : Int) < 2 ^ 31 := by
    have hwide : (hi - n) * c.ny ≤ c.nx * c.ny := Nat.mul_le_mul_right _ (by omega)
    by_cases hnx : (c.nx : Int) = c.energyChannels
    · have hall : ((c.nx * c.ny : Nat) : Int) = c.energyChannels * c.nonEnergyChannels := by
        rw [Nat.cast_mul, hnx, hrows]
      have := hc.values_lt
      omega
    · have hnone : c.nx = 0 := by
        unfold Setup.nx at hnx ⊢
        omega
      rw [hnone, Nat.zero_mul] at hwide
      omega
  have hnx : (c.nx : Int) ≤ 2 ^ 31 := by
    unfold Setup.nx
    omega
  refine ⟨?_, hvalues⟩
  have hprod : ((hi : Int) - n) * c.nonEnergyChannels = ((hi - n) * c.ny : Nat) := by
    rw [Nat.cast_mul, Nat.cast_sub hlo, hrows]
  have hless : (hi : Int) - n < 2 ^ 31 := by
    unfold Setup.nx at hhi
    omega
  rw [i32_eq (v := (hi : Int) - n) (by omega) hless, hprod, i32_eq (by omega) hvalues]

/-- A reply that is long enough holds the channels of the points it was asked for. -/
theorem served_values {k hi : Nat} (h : Serves f c scan k p) (hhi : hi ≤ c.nx)
    (hlong : ¬(readAcquisitionData f (p.data n ((hi : Int) - 1))).length < (hi - n) * c.ny) :
    ∀ y < c.ny, ∀ j < hi - n,
      (readAcquisitionData f (p.data n ((hi : Int) - 1)))[y * (hi - n) + j]? =
        some (scan k (n + j) y) := by
  intro y hy j hj
  obtain hblock | hfew := h.data n hi (by omega) hhi
  · rw [hblock]
    exact getElem?_block hy hj
  · exact absurd hfew hlong

/-- A request for the points from the current one on continues what has been asked. -/
theorem asked_next {sent : List Command} {command : Command} {hi : Nat}
    (hasked : asked sent = (past ++ [n]).flatMap fun (m : Nat) => upTo 0 m)
    (hpoints : command.points = upTo n hi) (hle : n ≤ hi) :
    asked (sent ++ [command]) = (past ++ [hi]).flatMap fun (m : Nat) => upTo 0 m := by
  rw [asked_append, hasked, List.flatMap_append, List.flatMap_append, List.append_assoc]
  show _ ++ (([n].flatMap fun (m : Nat) => upTo 0 m) ++ (command.points ++ [])) = _
  rw [hpoints, List.append_nil, List.flatMap_singleton, List.flatMap_singleton,
    upTo_append (by omega) (by omega)]

/-- The request for the points that are new, and what becomes of the reply. -/
theorem Inside.readPoints (hc : c.Sized) (h : Inside f c scan Q past n s) {num : Int}
    (hserves : Serves f c scan past.length p) (hcalling : Q → p.calling = none) (hnum : (n : Int) < num)
    (hle : num ≤ c.energyChannels) :
    ∃ s' m, s.readPoints f c p num = some s' ∧ Inside f c scan Q past m s' := by
  have h2 := h.announce
  unfold Task.readPoints
  dsimp only
  generalize s.announce = t at h2 ⊢
  obtain ⟨hi, hend, hlo, hhi, hmax⟩ := readEndDataPoint_spec hc h2.current_eq hnum hle
  obtain ⟨hwant, hvalues⟩ := wanted_eq hc hlo hhi
  have hlast : i32 ((hi : Int) - 1) = hi - 1 := by
    have henergy := hc.energy_lt
    unfold Setup.nx at hhi
    exact i32_eq (by omega) (by omega)
  let command : Command := .getAcquisitionData n ((hi : Int) - 1)
  have hpoints : command.points = upTo n hi := by
    show upTo n ((hi : Int) - 1 + 1) = _
    rw [Int.sub_add_cancel]
  have hsmall : Small c (t.send command).sent := by
    refine h2.reads.small.append ?_
    rw [hpoints, upTo, List.length_map, List.length_range]
    rwa [show ((hi : Int) - n).toNat = hi - n by omega]
  have hcurrent : (t.send command).currentDataPoint = n := h2.current_eq
  rw [hend, hlast, h2.current_eq, hcurrent, hwant]
  generalize hreply : readAcquisitionData f (p.data n ((hi : Int) - 1)) = values
  by_cases hshort : i32 values.length < ((hi - n) * c.ny : Nat)
  · rw [if_pos hshort]
    exact ⟨_, n, rfl, h2.failed rfl rfl rfl rfl rfl
      ((keeps_send .abort rfl).small hsmall) rfl⟩
  · rw [if_neg hshort]
    have hlong : ¬values.length < (hi - n) * c.ny := by
      intro hfew
      rw [i32_eq (by omega) (by omega)] at hshort
      omega
    rw [← hreply] at hlong
    have hv := served_values hserves hhi hlong
    rw [hreply] at hv
    have hsum := summed_store (s := t.send command) h2.reads.summed h2.iteration_eq hcurrent
      hle hlo hhi hv
    rw [hcurrent, store_eq hle] at hsum
    rw [store_eq hle]
    obtain ⟨s', hpost, hkeeps, hok, hacq, had, hdata⟩ := post_spec (c := c) hi
      (hhi.trans (Nat.le_of_eq hsum.length_spectrum.symm))
    refine ⟨(s'.client p.calling).readAcquire, hi, by rw [hpost]; rfl,
      (Inside.client ?_ hcalling).readAcquire⟩
    refine ⟨⟨?_, fun hs => ?_, hkeeps.small hsmall, fun hQ hs => ?_⟩, ?_, ?_, hhi, fun hQ => ?_,
      fun hQ hs => ?_⟩
    · rw [hkeeps.image, hkeeps.spectrum]
      exact hsum
    · rw [hok] at hs
      rw [hkeeps.asked]
      exact asked_next (h2.reads.asked_eq hs) hpoints (by omega)
    · rw [hok] at hs
      obtain ⟨hacq', had'⟩ := h2.reads.acquiring hQ hs
      exact ⟨hacq.trans hacq', had.trans had'⟩
    · exact hkeeps.iteration.trans h2.iteration_eq
    · exact hkeeps.currentDataPoint
    · rw [hdata]
      exact h2.aborted hQ
    · rw [hok] at hs
      exact h2.whole hQ hs

/-- One round of the inner loop. -/
theorem Inside.poll (hc : c.Sized) (h : Inside f c scan Q past n s) (hserves : Serves f c scan past.length p)
    (hok : s.ok = true) (hasleep : Q → p.asleep = none) (hcalling : Q → p.calling = none)
    (hstatus : Q → p.status.NotAborted) :
    ∃ s' m, s.poll f c p = some s' ∧ Inside f c scan Q past m s' := by
  have h1 : Inside f c scan Q past n ((s.client p.asleep).readStatus p.status) := by
    refine (h.client hasleep).keeps (keeps_readStatus p.status) (fun _ => ?_) (fun hQ _ => ?_)
      fun hQ => controllerState_readStatus (hstatus hQ)
    · rwa [client_ok]
    · obtain ⟨hacq, had⟩ := (h.client hasleep).reads.acquiring hQ (by rwa [client_ok])
      exact ⟨(readStatus_acquire _).trans hacq, (readStatus_adAcquire _).trans had⟩
  have hpoints := numDataPoints_readStatus (s := s.client p.asleep) p.status
  unfold Task.poll
  dsimp only
  rw [hpoints, h1.current_eq]
  by_cases hmore : p.status.points > (n : Int)
  · rw [if_pos hmore]
    exact h1.readPoints hc hserves hcalling hmore hserves.points_le
  · rw [if_neg hmore]
    exact ⟨_, n, rfl, h1.readAcquire⟩

/-- The inner loop goes through, and where it ends by itself it has read all channels unless something was
wrong or somebody stopped it. -/
theorem Inside.innerLoop (hc : c.Sized) {polls : List Poll} (h : Inside f c scan Q past n s)
    (hserves : ∀ p ∈ polls, Serves f c scan past.length p) (hasleep : Q → ∀ p ∈ polls, p.asleep = none)
    (hcalling : Q → ∀ p ∈ polls, p.calling = none) (hstatus : Q → ∀ p ∈ polls, p.status.NotAborted) :
    ∃ s' ended m, s.innerLoop f c polls = some (s', ended) ∧ Inside f c scan Q past m s' ∧
      (ended = true → s'.shouldContinue c = false) := by
  induction polls generalizing s n with
  | nil => exact ⟨s, _, n, rfl, h, fun hended => by simpa using hended⟩
  | cons p polls ih =>
    unfold Task.innerLoop
    by_cases hgo : s.shouldContinue c = true
    · rw [if_pos hgo]
      have hok : s.ok = true := (shouldContinue_iff.1 hgo).2.1
      obtain ⟨s', m, hpoll, h'⟩ := h.poll hc (hserves p List.mem_cons_self) hok
        (fun hQ => hasleep hQ p List.mem_cons_self) (fun hQ => hcalling hQ p List.mem_cons_self)
        fun hQ => hstatus hQ p List.mem_cons_self
      rw [hpoll]
      exact ih h' (fun q hq => hserves q (List.mem_cons_of_mem _ hq))
        (fun hQ q hq => hasleep hQ q (List.mem_cons_of_mem _ hq))
        (fun hQ q hq => hcalling hQ q (List.mem_cons_of_mem _ hq))
        fun hQ q hq => hstatus hQ q (List.mem_cons_of_mem _ hq)
    · rw [if_neg hgo]
      exact ⟨s, true, n, rfl, h, fun _ => by simpa using hgo⟩

/-! ## The outer loop -/

theorem endIteration_ok (h : s.endIteration.ok = true) :
    s.ok = true ∧ s.lastData.get "ControllerState" ≠ some "error".toList := by
  unfold endIteration at h
  dsimp only at h
  by_cases herror : s.lastData.get "ControllerState" = some "error".toList
  · rw [if_pos herror] at h
    split at h <;> exact nomatch h
  · rw [if_neg herror] at h
    exact ⟨h, herror⟩

/-- What is behind the inner loop leaves the sums alone. -/
theorem keeps_endIteration :
    Keeps c { s with iteration := i32 (s.iteration + 1) } s.endIteration := by
  unfold endIteration
  dsimp only
  split
  · split
    · exact ⟨rfl, rfl, rfl, rfl, rfl, id⟩
    · exact ⟨rfl, rfl, rfl, rfl, rfl, id⟩
  · exact ⟨rfl, rfl, rfl, rfl, rfl, id⟩

theorem endIteration_acquiring (hok : s.endIteration.ok = true) (h : s.Acquiring) :
    s.endIteration.Acquiring := by
  obtain ⟨-, herror⟩ := endIteration_ok hok
  unfold endIteration
  dsimp only
  rw [if_neg herror]
  exact ⟨h.2, h.2⟩

/-- The inner loop ends with the whole iteration, if nothing was wrong. -/
theorem whole_of_end (hstop : s.shouldContinue c = false) (hok : s.ok = true) (hacq : s.acquire = 1)
    (haborted : s.lastData.get "ControllerState" ≠ some "aborted".toList)
    (herror : s.lastData.get "ControllerState" ≠ some "error".toList) :
    c.energyChannels ≤ s.currentDataPoint := by
  have hstate : ∀ text : String, text.toList ≠ [] → s.lastData.get "ControllerState" ≠ some text.toList →
      s.controllerState ≠ text.toList := by
    intro text hne hget
    unfold controllerState
    cases h : s.lastData.get "ControllerState" with
    | none => exact fun heq => hne heq.symm
    | some state =>
      rw [h] at hget
      exact fun heq => hget (congrArg some heq)
  have haborted := hstate "aborted" (by decide +kernel) haborted
  have herror := hstate "error" (by decide +kernel) herror
  by_contra hless
  have hgo : s.shouldContinue c = true := by
    rw [shouldContinue_iff]
    exact ⟨by omega, hok, .inr (Int.not_le.1 hless), haborted, herror⟩
  rw [hgo] at hstop
  exact nomatch hstop

variable (f c scan) in
/-- Between two iterations. -/
structure Between (Q : Prop) (done : List Nat) (s : Task V) : Prop where
  reads : Reads f c scan Q done s
  iteration_eq : s.iteration = done.length
  le : ∀ n ∈ done, n ≤ c.nx
  count : done.length ≤ c.iterations.toNat
  whole : Q → s.ok = true → ∀ n ∈ done, n = c.nx

theorem Between.begin (it : Iteration) (h : Between f c scan Q past s) (hfirst : Q → it.first.NotAborted) :
    Inside f c scan Q past 0 (s.beginIteration c it) := by
  let t : Task V := { s with currentDataPoint := 0, lastData := it.first.orDefault }
  have hkeeps : Keeps c t (s.beginIteration c it) :=
    ((keeps_send .clearSpectrum rfl).trans
      (keeps_send (.start (c.safeState ≠ 0)) rfl)).trans
      (keeps_send .getAcquisitionStatus rfl)
  have hfirst : Q → it.first.orDefault.get "ControllerState" ≠ some "aborted".toList := by
    intro hQ
    have hstate := hfirst hQ
    cases hf : it.first with
    | ok data =>
      rw [hf] at hstate
      exact hstate
    | device info => exact nofun
    | failed => exact nofun
  have hinside : Inside f c scan Q past 0 t := by
    refine ⟨⟨h.reads.summed.begin, fun hok => ?_, h.reads.small, h.reads.acquiring⟩, h.iteration_eq, rfl,
      Nat.zero_le _, hfirst, h.whole⟩
    rw [List.flatMap_append, List.flatMap_singleton]
    show SpecsAnalyser.asked s.sent = _ ++ []
    rw [h.reads.asked_eq hok, List.append_nil]
  exact hinside.keeps hkeeps id h.reads.acquiring hfirst

theorem Inside.done (hc : c.Sized) (h : Inside f c scan Q past n s) (hstop : s.shouldContinue c = false)
    (hle : ∀ m ∈ past, m ≤ c.nx) (hcount : past.length < c.iterations.toNat) :
    Between f c scan Q (past ++ [n]) s.endIteration := by
  have hkeeps := keeps_endIteration (c := c) (s := s)
  have hiter := hc.iterations_lt
  refine ⟨⟨?_, fun hok => ?_, hkeeps.small h.reads.small, fun hQ hok => ?_⟩, ?_, fun m hm => ?_, ?_,
    fun hQ hok m hm => ?_⟩
  · rw [hkeeps.image, hkeeps.spectrum]
    exact h.reads.summed
  · rw [hkeeps.asked]
    exact h.reads.asked_eq (endIteration_ok hok).1
  · exact endIteration_acquiring hok (h.reads.acquiring hQ (endIteration_ok hok).1)
  · rw [hkeeps.iteration, List.length_append, List.length_singleton]
    show i32 (s.iteration + 1) = _
    rw [h.iteration_eq, i32_eq (by omega) (by omega)]
    rfl
  · obtain hm | hm := List.mem_append.1 hm
    · exact hle m hm
    · rw [List.mem_singleton.1 hm]
      exact h.le
  · rw [List.length_append, List.length_singleton]
    omega
  · obtain ⟨hsok, herror⟩ := endIteration_ok hok
    obtain hm | hm := List.mem_append.1 hm
    · exact h.whole hQ hsok m hm
    · have hfull := whole_of_end hstop hsok (h.reads.acquiring hQ hsok).1 (h.aborted hQ) herror
      have hn := h.le
      rw [h.current_eq] at hfull
      rw [List.mem_singleton.1 hm]
      unfold Setup.nx at hn ⊢
      omega

/-- The outer loop goes through; where it ends by itself, every iteration has been made or somebody stopped
it. -/
theorem Between.outerLoop (hc : c.Sized) {its : List Iteration} (h : Between f c scan Q past s)
    (hserves : ∀ i it, its[i]? = some it → ∀ p ∈ it.polls, Serves f c scan (past.length + i) p)
    (hquiet : Q → ∀ it ∈ its, Undisturbed it) :
    ∃ s' ended done, s.outerLoop f c its = some (s', ended) ∧ Reads f c scan Q done s' ∧
      (∀ n ∈ done, n ≤ c.nx) ∧ done.length ≤ c.iterations.toNat ∧
      (ended = true → Between f c scan Q done s' ∧ ¬(s'.iteration < c.iterations ∧ s'.acquire = 1)) := by
  induction its generalizing s past with
  | nil =>
    refine ⟨s, _, past, rfl, h.reads, h.le, h.count, fun hended => ⟨h, fun hgo => ?_⟩⟩
    simp [hgo.1, hgo.2] at hended
  | cons it its ih =>
    unfold Task.outerLoop
    by_cases hgo : s.iteration < c.iterations ∧ s.acquire = 1
    · rw [if_pos (by simpa using hgo)]
      have hcount : past.length < c.iterations.toNat := by
        have hiter := h.iteration_eq
        omega
      have hbegin := h.begin it fun hQ => (hquiet hQ it List.mem_cons_self).first
      obtain ⟨s', ended, n, hinner, hinside, hstop⟩ := hbegin.innerLoop hc (hserves 0 it rfl)
        (fun hQ => (hquiet hQ it List.mem_cons_self).asleep)
        (fun hQ => (hquiet hQ it List.mem_cons_self).calling)
        fun hQ => (hquiet hQ it List.mem_cons_self).status
      rw [hinner]
      cases ended with
      | false =>
        refine ⟨s', false, past ++ [n], rfl, hinside.reads, fun m hm => ?_, ?_, nofun⟩
        · obtain hm | hm := List.mem_append.1 hm
          · exact h.le m hm
          · rw [List.mem_singleton.1 hm]
            exact hinside.le
        · rw [List.length_append, List.length_singleton]
          omega
      | true =>
        refine ih (hinside.done hc (hstop rfl) h.le hcount) (fun i it' hi p hp => ?_)
          fun hQ it' hit => hquiet hQ it' (List.mem_cons_of_mem _ hit)
        have hp := hserves (i + 1) it' hi p hp
        rwa [List.length_append, List.length_singleton, Nat.add_assoc, Nat.add_comm 1 i]
    · rw [if_neg (by simpa using hgo)]
      exact ⟨s, true, past, rfl, h.reads, h.le, h.count, fun _ => ⟨h, hgo⟩⟩

theorem Between.initial : Between f c scan Q [] (initial f c) where
  reads := ⟨.initial, fun _ => rfl, fun _ h => absurd h List.not_mem_nil, fun _ _ => ⟨rfl, rfl⟩⟩
  iteration_eq := rfl
  le _ h := absurd h List.not_mem_nil
  count := Nat.zero_le _
  whole _ _ _ h := absurd h List.not_mem_nil

end

end Task

variable {f c scan}

/-- **At any time.**  Wherever a run has come to, the image and the spectrum are the sums over the channels that
each iteration has read; no request is for more values than allowed; and while nothing has failed, the points asked
for are those of each iteration from the first on, each once. -/
theorem acquisition_summed (hc : c.Sized) (its : List Iteration)
    (hserves : ∀ i it, its[i]? = some it → ∀ p ∈ it.polls, Serves f c scan i p) :
    ∃ s ended done, (Task.initial f c).outerLoop f c its = some (s, ended) ∧
      Summed f c scan done s.image s.spectrum ∧ (∀ n ∈ done, n ≤ c.nx) ∧
      done.length ≤ c.iterations.toNat ∧ Small c s.sent ∧
      (s.ok = true → asked s.sent = done.flatMap fun (n : Nat) => upTo 0 n) := by
  have hstart : ∀ i it, its[i]? = some it → ∀ p ∈ it.polls,
      Serves f c scan (([] : List Nat).length + i) p := by
    intro i it hi p hp
    rw [List.length_nil, Nat.zero_add]
    exact hserves i it hi p hp
  obtain ⟨s, ended, done, hrun, hreads, hle, hcount, -⟩ :=
    Task.Between.initial.outerLoop (Q := False) hc hstart nofun
  exact ⟨s, ended, done, hrun, hreads.summed, hle, hcount, hreads.small, hreads.asked_eq⟩

/-- A device whose two channels hold 6 and 7 in every iteration. -/
def sixSeven (fromIndex toIndex : Int) : Reply :=
  .ok [("Data".toList, if fromIndex = 1 then ['7'] else if toIndex = 0 then ['6'] else ['6', ',', '7'])]

theorem serves_sixSeven {iterations k : Nat} {status : Reply} (h : status.points ≤ 2) :
    Serves ⟨0, (· + ·), Ints.int64.parse⟩ ⟨iterations, 1, 2, 1⟩ (fun _ x _ => (6 : Int) + x) k
      ⟨none, status, sixSeven, none⟩ := by
  refine ⟨h, fun lo hi hlt hle => .inl ?_⟩
  have hcases : (lo = 0 ∧ hi = 1) ∨ (lo = 0 ∧ hi = 2) ∨ (lo = 1 ∧ hi = 2) := by
    have : hi ≤ 2 := hle
    omega
  obtain ⟨rfl, rfl⟩ | ⟨rfl, rfl⟩ | ⟨rfl, rfl⟩ := hcases
  · exact (by decide +kernel : readAcquisitionData ⟨0, (· + ·), Ints.int64.parse⟩ (sixSeven 0 0) = [(6 : Int)])
  · exact (by decide +kernel : readAcquisitionData ⟨0, (· + ·), Ints.int64.parse⟩ (sixSeven 0 1) = [(6 : Int), 7])
  · exact (by decide +kernel : readAcquisitionData ⟨0, (· + ·), Ints.int64.parse⟩ (sixSeven 1 1) = [(7 : Int)])

/-- One iteration, of which one channel is reported so far. -/
theorem acquisition_summed_two :
    ∃ s ended done, (Task.initial ⟨(0 : Int), (· + ·), Ints.int64.parse⟩ ⟨(1 : Nat), 1, 2, 1⟩).outerLoop
        ⟨0, (· + ·), Ints.int64.parse⟩ ⟨(1 : Nat), 1, 2, 1⟩
        [⟨.ok [], [⟨none, .ok [("NumberOfAcquiredPoints".toList, ['1'])], sixSeven, none⟩]⟩] =
          some (s, ended) ∧
      Summed ⟨0, (· + ·), Ints.int64.parse⟩ ⟨(1 : Nat), 1, 2, 1⟩ (fun _ x _ => 6 + x) done s.image
        s.spectrum ∧
      (∀ n ∈ done, n ≤ 2) ∧ done.length ≤ 1 ∧ Small ⟨(1 : Nat), 1, 2, 1⟩ s.sent ∧
      (s.ok = true → asked s.sent = done.flatMap fun (n : Nat) => upTo 0 n) := by
  refine acquisition_summed ⟨by decide, by decide, by decide, by decide⟩ _ fun i it hi p hp => ?_
  cases i with
  | zero =>
    cases Option.some.inj hi
    rw [List.mem_singleton.1 hp]
    exact serves_sixSeven (by decide +kernel)
  | succ i => exact nomatch hi

theorem finish_image (allocated : Bool) (k : Counters) (s : Task V) :
    (finish allocated k s).2.2.image = s.image ∧ (finish allocated k s).2.2.spectrum = s.spectrum ∧
      (finish allocated k s).2.2.ok = s.ok ∧ (finish allocated k s).2.2.sent = s.sent := by
  unfold finish
  dsimp only
  split
  · split
    · exact ⟨rfl, rfl, rfl, rfl⟩
    · exact ⟨rfl, rfl, rfl, rfl⟩
  · exact ⟨rfl, rfl, rfl, rfl⟩

/-- All iterations have read a channel. -/
theorem readings_replicate {n m x : Nat} (hx : x < n) :
    readings (List.replicate m n) x = List.range m := by
  unfold readings
  rw [List.length_replicate, List.filter_eq_self]
  intro k hk
  rw [List.getD_eq_getElem _ _ (by simpa using hk), List.getElem_replicate]
  exact decide_eq_true hx

/-- **A whole scan.**  Where nobody stops the run and it ends with no failure, every point of every iteration has been
asked for once, in order, and the frame that goes out is the sum over all iterations, whenever the points were
reported. -/
theorem acquisition_whole (hc : c.Sized) (its : List Iteration)
    (hserves : ∀ i it, its[i]? = some it → ∀ p ∈ it.polls, Serves f c scan i p)
    (hquiet : ∀ it ∈ its, Undisturbed it) (allocated : Bool) (k k' : Counters) (frame : Option (Frame V))
    (s : Task V) (hrun : runAcquisition f c allocated k its = some (k', frame, s)) (hok : s.ok = true) :
    asked s.sent = (List.replicate c.iterations.toNat (upTo 0 c.nx)).flatten ∧
      (∀ x < c.nx, ∀ y < c.ny, s.image[y * c.nx + x]? =
        some ((List.range c.iterations.toNat).foldl (fun a k => pixelUpdate f scan k x y a) f.zero)) ∧
      (∀ x < c.nx, s.spectrum[x]? =
        some ((List.range c.iterations.toNat).foldl (fun a k => channelUpdate f c scan k x a) f.zero)) ∧
      (k.arrayCallbacks ≠ 0 → allocated = true →
        frame = some ⟨i32 (k.arrayCounter + 1), s.image⟩) := by
  have hstart : ∀ i it, its[i]? = some it → ∀ p ∈ it.polls,
      Serves f c scan (([] : List Nat).length + i) p := by
    intro i it hi p hp
    rw [List.length_nil, Nat.zero_add]
    exact hserves i it hi p hp
  obtain ⟨t, ended, done, hloop, hreads, -, -, hend⟩ :=
    Task.Between.initial.outerLoop (Q := True) hc hstart fun _ => hquiet
  unfold runAcquisition at hrun
  rw [hloop] at hrun
  cases ended with
  | false => exact nomatch hrun
  | true =>
    have hfinish : finish allocated k t = (k', frame, s) := Option.some.inj hrun
    obtain ⟨himage, hspectrum, hsame, hsent⟩ := finish_image allocated k t
    have hframe : k.arrayCallbacks ≠ 0 → allocated = true →
        (finish allocated k t).2.1 = some ⟨i32 (k.arrayCounter + 1), t.image⟩ := fun h h' =>
      if_pos ⟨h, h'⟩
    rw [hfinish] at himage hspectrum hsame hsent hframe
    dsimp only at himage hspectrum hsame hsent hframe
    have htok : t.ok = true := hsame ▸ hok
    obtain ⟨hbetween, hover⟩ := hend rfl
    have hdone : done = List.replicate c.iterations.toNat c.nx := by
      refine List.eq_replicate_iff.2 ⟨?_, hbetween.whole trivial htok⟩
      have hacq := (hreads.acquiring trivial htok).1
      have hiter := hbetween.iteration_eq
      have hcount := hbetween.count
      by_contra hne
      exact hover ⟨by omega, hacq⟩
    subst hdone
    refine ⟨?_, fun x hx y hy => ?_, fun x hx => ?_, fun h h' => ?_⟩
    · rw [hsent, hreads.asked_eq htok, List.flatMap_def, List.map_replicate]
    · rw [himage, hreads.summed.pixel_eq x hx y hy, pixel, readings_replicate hx]
    · rw [hspectrum, hreads.summed.channel_eq x hx, channel, readings_replicate hx]
    · rw [hframe h h', himage]

/-- Two iterations, of which the first reports its channels one by one. -/
theorem acquisition_whole_two : ∃ k' frame, ∃ s : Task Int,
    runAcquisition ⟨0, (· + ·), Ints.int64.parse⟩ ⟨(2 : Nat), 1, 2, 1⟩ true ⟨1, 0, 1, 4, 0⟩
      [⟨.ok [], [⟨none, .ok [("NumberOfAcquiredPoints".toList, ['1'])], sixSeven, none⟩,
        ⟨none, .ok [("NumberOfAcquiredPoints".toList, ['2']),
          ("ControllerState".toList, "finished".toList)], sixSeven, none⟩]⟩,
      ⟨.ok [], [⟨none, .ok [("NumberOfAcquiredPoints".toList, ['2']),
        ("ControllerState".toList, "finished".toList)], sixSeven, none⟩]⟩] = some (k', frame, s) ∧
      asked s.sent = [0, 1, 0, 1] ∧ s.image[1]? = some 14 ∧ frame = some ⟨5, s.image⟩ := by
  have hmap : (runAcquisition ⟨0, (· + ·), Ints.int64.parse⟩ ⟨(2 : Nat), 1, 2, 1⟩ true ⟨1, 0, 1, 4, 0⟩
      [⟨.ok [], [⟨none, .ok [("NumberOfAcquiredPoints".toList, ['1'])], sixSeven, none⟩,
        ⟨none, .ok [("NumberOfAcquiredPoints".toList, ['2']),
          ("ControllerState".toList, "finished".toList)], sixSeven, none⟩]⟩,
      ⟨.ok [], [⟨none, .ok [("NumberOfAcquiredPoints".toList, ['2']),
        ("ControllerState".toList, "finished".toList)], sixSeven, none⟩]⟩]).map
          (fun r => (r.2.2.ok : Bool)) = some true := by
    decide +kernel
  obtain ⟨⟨k', frame, s⟩, hrun, hok⟩ := Option.map_eq_some_iff.1 hmap
  refine ⟨k', frame, s, hrun, ?_⟩
  let scan : Nat → Nat → Nat → Int := fun _ x _ => 6 + x
  have hwhole := acquisition_whole ⟨by decide, by decide, by decide, by decide⟩ _
    (fun i it hi p hp => (?_ : Serves _ _ scan i p)) ?_ true ⟨1, 0, 1, 4, 0⟩ _ _ _ hrun hok
  · obtain ⟨hasked, himage, -, hframe⟩ := hwhole
    exact ⟨hasked, himage 1 (by decide) 0 (by decide), hframe (by decide) rfl⟩
  · obtain ⟨hin, rfl⟩ := List.getElem?_eq_some_iff.1 hi
    have hcases : i = 0 ∨ i = 1 := by
      have : i < 2 := hin
      omega
    obtain rfl | rfl := hcases
    · obtain rfl | hp := List.mem_cons.1 hp
      · exact serves_sixSeven (by decide +kernel)
      · rw [List.mem_singleton.1 hp]
        exact serves_sixSeven (by decide +kernel)
    · rw [List.mem_singleton.1 hp]
      exact serves_sixSeven (by decide +kernel)
  · intro it hit
    obtain rfl | hit := List.mem_cons.1 hit
    · exact ⟨by decide +kernel, by decide +kernel, by decide +kernel, by decide +kernel⟩
    · rw [List.mem_singleton.1 hit]
      exact ⟨by decide +kernel, by decide +kernel, by decide +kernel, by decide +kernel⟩

end SpecsAnalyser
