import EpicsIocs.Lib.Faults
import EpicsIocs.Newport.Rpc
import Mathlib.Data.List.Forall2
import Mathlib.Data.List.OfFn

/-! # Reading gathered samples back

`read_gathering` and `readback_profile` (`xps/profile_move.rs`) over `parse_gathering_buffer`
(`xps/gathering.rs`): the samples of a run are fetched in ranges, each as large as the controller
answers it, halved as long as it does not.  A sample is a line, with a set point and a position for
each axis.

    it ends; the ranges follow on one another; sample k is line k      (readGathering_fetches)

The numbers of the lines are of any type with a subtraction. -/

namespace Newport

open Faults Text

/-! ## The code -/

/-- By axis, and then by sample. -/
structure GatheringReadback (F : Type) where
  actuals : List (List F)
  followingErrors : List (List F)
  deriving DecidableEq, Repr

namespace GatheringReadback

variable {F : Type}

def new (numAxes : Nat) : GatheringReadback F :=
  ⟨List.replicate numAxes [], List.replicate numAxes []⟩

def numSamples (readback : GatheringReadback F) : Nat :=
  (readback.actuals.head?.map List.length).getD 0

/-- A sample, by its axes' set points and positions, is stored. -/
def push [Sub F] (readback : GatheringReadback F) (sample : List (F × F)) : GatheringReadback F where
  actuals := readback.actuals.mapIdx fun axis l => l ++ (sample[axis]?.map Prod.snd).toList
  followingErrors := readback.followingErrors.mapIdx fun axis l =>
    l ++ (sample[axis]?.map fun (setpoint, actual) => actual - setpoint).toList

end GatheringReadback

/-- A line without the carriage return of its end. -/
def withoutCr (line : List Char) : List Char :=
  if line.getLast? = some '\r' then line.dropLast else line

/-- `lines`: what is behind the last line feed is a line if there is anything. -/
def textLines (text : List Char) : List (List Char) :=
  let pieces := text.splitOn '\n'
  pieces.dropLast.map withoutCr ++ (pieces.getLast?.toList.filter fun piece => !piece.isEmpty)

section Parse

variable {F : Type} (parse : List Char → Option F)

/-- The numbers between semicolons, where there is anything. -/
def lineFields (line : List Char) : List (Option F) :=
  ((line.splitOn ';').filter fun field => !(trim field).isEmpty).map fun field => parse (trim field)

/-- A set point and a position for each axis, or how many of the two there are for the first axis
that lacks one. -/
def readSample : Nat → List (Option F) → Except Nat (List (F × F))
  | 0, _ => .ok []
  | n + 1, fields =>
    let setpoint := fields.head?.join
    let actual := setpoint.bind fun _ => (fields.drop 1).head?.join
    match setpoint, actual with
    | some setpoint, some actual => (readSample n (fields.drop 2)).map ((setpoint, actual) :: ·)
    | setpoint, _ => .error (if setpoint.isSome then 1 else 0)

variable [Sub F] (numAxes : Nat)

/-- The lines of a buffer, one after the other. -/
def parseLines : List (List Char) → Nat → GatheringReadback F →
    Except String Nat × GatheringReadback F
  | [], linesRead, readback => (.ok linesRead, readback)
  | line :: lines, linesRead, readback =>
    let line := line.rdropWhile (· = '\r')
    if line = [] then parseLines lines linesRead readback
    else
      match readSample numAxes (lineFields parse line) with
      | .error nitems =>
        (.error s!"Error reading Gathering.dat file, nitems={nitems}, should be 2", readback)
      | .ok sample => parseLines lines (linesRead + 1) (readback.push sample)

def parseGatheringBuffer (buffer : List Char) (readback : GatheringReadback F) :
    Except String Nat × GatheringReadback F :=
  parseLines parse numAxes (textLines buffer) 0 readback

end Parse

/-- A `GatheringDataMultipleLinesGet` and what comes of it. -/
structure Request where
  index : Int
  lines : Int
  answer : Except XpsError (List Char)

structure ReadbackDone (F : Type) where
  ok : Bool
  status : Int
  message : String
  samples : GatheringReadback F
  deriving DecidableEq, Repr

/-- The inner loop's variables, and the requests so far. -/
structure Fetch where
  status : Int
  numInBuffer : Int
  buffer : List Char
  log : List Request

section Read

variable (c : CNumbers)

def gatheringCurrentNumberGet (reads : List Read) : Except XpsError (Int × Int) :=
  (callOk c reads).map fun r => (r.int c 1, r.int c 2)

def gatheringDataMultipleLinesGet (reads : List Read) : Except XpsError (List Char) :=
  (callOk c reads).map fun r => r.string 1

variable (answers : Nat → List Read)

/-- The inner loop: the range is halved as long as the request fails. -/
def fetch (numRead : Int) : Nat → Fetch → Option Fetch
  | 0, _ => none
  | n + 1, f =>
    if f.status ≠ 0 ∧ 0 < f.numInBuffer then
      let answer := gatheringDataMultipleLinesGet c (answers f.log.length)
      let log := f.log ++ [⟨numRead, f.numInBuffer, answer⟩]
      match answer with
      | .ok read => fetch numRead n { f with status := 0, buffer := read, log }
      | .error e =>
        let numInBuffer := if e.code ≠ 0 then f.numInBuffer.tdiv 2 else f.numInBuffer
        fetch numRead n { f with status := e.code, numInBuffer, log }
    else some f

variable {F : Type} (parse : List Char → Option F) [Sub F] (numAxes : Nat)

/-- The outer loop. -/
def readLoop (currentSamples : Int) : Nat → Int → ReadbackDone F → List Request →
    Option (ReadbackDone F × List Request)
  | 0, _, _, _ => none
  | n + 1, numRead, done, log =>
    if numRead < currentSamples then
      let numInBuffer := currentSamples - numRead
      match fetch c answers numRead (numInBuffer.toNat + 2) ⟨-1, numInBuffer, [], log⟩ with
      | none => none
      | some f =>
        let done := { done with status := f.status }
        if f.numInBuffer = 0 then
          some ({ done with
            ok := false
            message := "Error reading gathering data, numInBuffer = 0" }, f.log)
        else
          match parseGatheringBuffer parse numAxes f.buffer done.samples with
          | (.ok lines, samples) =>
            if asI32 lines = f.numInBuffer then
              readLoop currentSamples n (numRead + f.numInBuffer) { done with samples } f.log
            else
              some ({ done with
                ok := false
                message := "Error reading Gathering.dat file, nitems=-1, should be 2"
                samples }, f.log)
          | (.error message, samples) =>
            some ({ done with ok := false, message, samples }, f.log)
    else some (done, log)

/-- `read_gathering`; `number` are the reads of `GatheringCurrentNumberGet`, and `answers` those of
the requests for lines, in order. -/
def readGathering (number : List Read) (numPulses : Int) (maxPoints : Nat) :
    Option (ReadbackDone F × List Request) :=
  match gatheringCurrentNumberGet c number with
  | .error e =>
    -- the code of an error is not 0 (`code_ne_zero`)
    some (⟨false, e.code, s!"Error calling GatherCurrentNumberGet, status={e.code}",
      .new numAxes⟩, [])
  | .ok (currentSamples, _) =>
    let done : ReadbackDone F :=
      if currentSamples < numPulses then
        ⟨false, 0, s!"Error, numPulses={numPulses}, currentSamples={currentSamples}", .new numAxes⟩
      else ⟨true, 0, "", .new numAxes⟩
    let currentSamples := min currentSamples (asI32 maxPoints)
    readLoop c answers parse numAxes currentSamples (currentSamples.toNat + 1) 0 done []

end Read

/-- The lists of an axis of the profile. -/
structure AxisReadbacks (F : Type) where
  readbacks : List F
  followingErrors : List F
  deriving DecidableEq, Repr

/-- Both are made for as many points. -/
def AxisReadbacks.Sized {F : Type} (axis : AxisReadbacks F) : Prop :=
  axis.followingErrors.length = axis.readbacks.length

section Copy

variable {F : Type}

/-- `dst[..k].copy_from_slice(&src[..k])`. -/
def copyFront (dst src : List F) (k : Nat) : Outcome Empty (List F) :=
  (slice dst 0 k).bind fun front =>
    (slice src 0 k).bind fun s => (copyFromSlice front s).map (· ++ dst.drop k)

def copyAxis (samples : GatheringReadback F) (j : Nat) (axis : AxisReadbacks F) :
    Outcome Empty (AxisReadbacks F) :=
  let k := min samples.numSamples axis.readbacks.length
  (item samples.actuals j).bind fun actuals =>
    (copyFront axis.readbacks actuals k).bind fun readbacks =>
      (item samples.followingErrors j).bind fun errors =>
        (copyFront axis.followingErrors errors k).map fun followingErrors =>
          { readbacks, followingErrors }

/-- A round of the loop of `readback_profile`, for a registered axis and its place. -/
def copyRound (samples : GatheringReadback F) (axes : List (AxisReadbacks F)) (p : Nat × Nat) :
    Outcome Empty (List (AxisReadbacks F)) :=
  match axes[p.1]? with
  | none => .ok axes
  | some axis => (copyAxis samples p.2 axis).map (axes.set p.1 ·)

def copyAxes (samples : GatheringReadback F) (registered : List Nat)
    (axes : List (AxisReadbacks F)) : Outcome Empty (List (AxisReadbacks F)) :=
  registered.zipIdx.foldlM (copyRound samples) axes

end Copy

/-! ## Lines and samples -/

section Samples

variable {F : Type} {parse : List Char → Option F} {n : Nat}

/-- The lines that hold anything. -/
def solidLines (lines : List (List Char)) : List (List Char) :=
  (lines.map fun line => line.rdropWhile (· = '\r')).filter (· ≠ [])

def sampleLines (text : List Char) : List (List Char) := solidLines (textLines text)

/-- The set point and the position of each axis, as the line has them. -/
def IsSample (parse : List Char → Option F) (line : List Char) (sample : Fin n → F × F) : Prop :=
  ∀ axis : Fin n,
    (lineFields parse line)[2 * axis.val]? = some (some (sample axis).1) ∧
      (lineFields parse line)[2 * axis.val + 1]? = some (some (sample axis).2)

/-- These samples, stored. -/
def GatheringReadback.ofSamples [Sub F] (samples : List (Fin n → F × F)) : GatheringReadback F where
  actuals := List.ofFn fun axis => samples.map fun s => (s axis).2
  followingErrors := List.ofFn fun axis => samples.map fun s => (s axis).2 - (s axis).1

theorem readSample_ok {fields : List (Option F)} {sample : List (F × F)}
    (h : readSample n fields = .ok sample) :
    ∃ s : Fin n → F × F, sample = List.ofFn s ∧
      ∀ axis : Fin n, fields[2 * axis.val]? = some (some (s axis).1) ∧
        fields[2 * axis.val + 1]? = some (some (s axis).2) := by
  induction n generalizing fields sample with
  | zero =>
    cases h
    exact ⟨Fin.elim0, rfl, fun axis => axis.elim0⟩
  | succ n ih =>
    rw [readSample] at h
    match fields with
    | [] => cases h
    | none :: fields => cases h
    | [some setpoint] => cases h
    | some setpoint :: none :: fields => cases h
    | some setpoint :: some actual :: fields =>
      cases hrest : readSample n fields with
      | error nitems =>
        have hbad : (readSample n fields).map ((setpoint, actual) :: ·) = .ok sample := h
        rw [hrest] at hbad
        cases hbad
      | ok rest =>
        have hok : (readSample n fields).map ((setpoint, actual) :: ·) = .ok sample := h
        rw [hrest] at hok
        obtain rfl := Except.ok.inj hok
        obtain ⟨s, rfl, hs⟩ := ih hrest
        refine ⟨Fin.cons (setpoint, actual) s, ?_, fun axis => ?_⟩
        · rw [List.ofFn_succ, Fin.cons_zero]
          simp only [Fin.cons_succ]
        · refine Fin.cases ⟨rfl, rfl⟩ (fun axis => ?_) axis
          exact hs axis

namespace GatheringReadback

variable [Sub F]

theorem new_eq : (new n : GatheringReadback F) = ofSamples (n := n) [] := by
  rw [new, ofSamples]
  simp only [List.map_nil, List.ofFn_const]

theorem push_ofSamples (samples : List (Fin n → F × F)) (s : Fin n → F × F) :
    (ofSamples samples).push (List.ofFn s) = ofSamples (samples ++ [s]) := by
  unfold push ofSamples
  congr 1
  · apply List.ext_getElem
    · simp
    · intro axis h h'
      simp at h
      simp [h]
  · apply List.ext_getElem
    · simp
    · intro axis h h'
      simp at h
      simp [h]

end GatheringReadback

open GatheringReadback

/-- The lines up to the first that is no sample are stored; of a buffer without one, all. -/
theorem parseLines_spec [Sub F] (lines : List (List Char)) (linesRead : Nat)
    (samples : List (Fin n → F × F)) :
    ∃ new : List (Fin n → F × F),
      (parseLines parse n lines linesRead (ofSamples samples)).2 = ofSamples (samples ++ new) ∧
      List.Forall₂ (IsSample parse) ((solidLines lines).take new.length) new ∧
      ∀ m, (parseLines parse n lines linesRead (ofSamples samples)).1 = .ok m →
        m = linesRead + new.length ∧ new.length = (solidLines lines).length := by
  induction lines generalizing linesRead samples with
  | nil =>
    refine ⟨[], by rw [List.append_nil]; rfl, .nil, fun m hm => ?_⟩
    obtain rfl := Except.ok.inj hm
    exact ⟨rfl, rfl⟩
  | cons line lines ih =>
    by_cases hblank : line.rdropWhile (· = '\r') = []
    · have hsolid : solidLines (line :: lines) = solidLines lines := by
        rw [solidLines, List.map_cons, List.filter_cons_of_neg (by simp [hblank])]
        rfl
      rw [parseLines, if_pos hblank, hsolid]
      exact ih linesRead samples
    · have hsolid : solidLines (line :: lines) =
          line.rdropWhile (· = '\r') :: solidLines lines := by
        rw [solidLines, List.map_cons, List.filter_cons_of_pos (by simp [hblank])]
        rfl
      rw [parseLines, if_neg hblank, hsolid]
      cases hread : readSample n (lineFields parse (line.rdropWhile (· = '\r'))) with
      | error nitems =>
        refine ⟨[], by rw [List.append_nil], .nil, fun m hm => ?_⟩
        cases hm
      | ok sample =>
        obtain ⟨s, rfl, hs⟩ := readSample_ok hread
        obtain ⟨new, hstored, hnew, hcount⟩ := ih (linesRead + 1) (samples ++ [s])
        dsimp only
        rw [push_ofSamples]
        refine ⟨s :: new, ?_, .cons hs hnew, fun m hm => ?_⟩
        · rw [hstored, List.append_assoc, List.singleton_append]
        · obtain ⟨hm, hlen⟩ := hcount m hm
          rw [List.length_cons, List.length_cons]
          omega

theorem asI32_of_lt {k : Nat} (h : k < 2 ^ 31) : asI32 k = k :=
  Int.bmod_eq_of_le (by omega) (by omega)

theorem length_splitOn_le (sep : Char) (text : List Char) :
    (text.splitOn sep).length ≤ text.length + 1 := by
  induction text with
  | nil => rw [List.splitOn_nil]; rfl
  | cons c text ih =>
    rw [List.splitOn_cons_eq_if_modifyHead, List.length_cons]
    by_cases hsep : (c == sep) = true
    · rw [if_pos hsep, List.length_cons]
      omega
    · rw [if_neg hsep, List.length_modifyHead]
      omega

/-- A reply has no more lines than a cast to `i32` keeps. -/
theorem length_sampleLines_le (text : List Char) : (sampleLines text).length ≤ text.length + 2 := by
  have hpieces := length_splitOn_le '\n' text
  have hfilter : (sampleLines text).length ≤ (textLines text).length := by
    rw [sampleLines, solidLines]
    exact (List.length_filter_le _ _).trans (Nat.le_of_eq (List.length_map _))
  have hlast : ((text.splitOn '\n').getLast?.toList.filter fun piece => !piece.isEmpty).length ≤ 1 := by
    refine (List.length_filter_le _ _).trans ?_
    cases (text.splitOn '\n').getLast? <;> simp
  have hlines : (textLines text).length ≤ text.length + 2 := by
    rw [textLines, List.length_append, List.length_map, List.length_dropLast]
    omega
  omega

end Samples

/-! ## Requests -/

theorem length_of_mem_splitOn {sep : Char} {text piece : List Char}
    (h : piece ∈ text.splitOn sep) : piece.length ≤ text.length := by
  induction text generalizing piece with
  | nil =>
    rw [List.splitOn_nil] at h
    rw [List.mem_singleton.1 h]
  | cons c text ih =>
    obtain ⟨first, pieces, hpieces⟩ := List.exists_cons_of_ne_nil (List.splitOn_ne_nil sep text)
    rw [hpieces] at ih
    rw [List.splitOn_cons_eq_if_modifyHead, hpieces] at h
    rw [List.length_cons]
    by_cases hsep : (c == sep) = true
    · rw [if_pos hsep] at h
      rcases List.mem_cons.1 h with rfl | h
      · exact Nat.zero_le _
      · exact (ih h).trans (Nat.le_succ _)
    · rw [if_neg hsep, List.modifyHead_cons] at h
      rcases List.mem_cons.1 h with rfl | h
      · exact Nat.succ_le_succ (ih List.mem_cons_self)
      · exact (ih (List.mem_cons_of_mem _ h)).trans (Nat.le_succ _)

theorem XpsReply.length_string_le (r : XpsReply) (k : Nat) : (r.string k).length ≤ maxReply := by
  unfold XpsReply.string XpsReply.field
  cases hfield : (r.text.splitOn ',')[k]? with
  | none => exact Nat.zero_le _
  | some piece => exact (length_of_mem_splitOn (List.mem_of_getElem? hfield)).trans r.bounded

section Requests

variable {c : CNumbers} {reads : List Read}

/-- An answer that is no error is a text of at most 64 KiB, -/
theorem length_of_linesGet {text : List Char}
    (h : gatheringDataMultipleLinesGet c reads = .ok text) : text.length ≤ maxReply := by
  unfold gatheringDataMultipleLinesGet at h
  cases hcall : callOk c reads with
  | error e =>
    rw [hcall] at h
    cases h
  | ok r =>
    rw [hcall] at h
    obtain rfl := Except.ok.inj h
    exact r.length_string_le 1

/-- and an error has another code than success. -/
theorem code_of_linesGet {e : XpsError} (h : gatheringDataMultipleLinesGet c reads = .error e) :
    e.code ≠ 0 := by
  unfold gatheringDataMultipleLinesGet at h
  cases hcall : callOk c reads with
  | error e' =>
    rw [hcall] at h
    obtain rfl := Except.error.inj h
    exact code_ne_zero hcall
  | ok r =>
    rw [hcall] at h
    cases h

/-- Requests one behind the other, from line 0 up to a line: one that fails is made again, and one
that is answered is followed by one for the lines behind. -/
inductive Consecutive : List Request → Int → Prop
  | nil : Consecutive [] 0
  | failed {log : List Request} {stop lines : Int} {e : XpsError} :
      Consecutive log stop → 0 < lines → Consecutive (log ++ [⟨stop, lines, .error e⟩]) stop
  | answered {log : List Request} {stop lines : Int} {text : List Char} :
      Consecutive log stop → 0 < lines →
      Consecutive (log ++ [⟨stop, lines, .ok text⟩]) (stop + lines)

def Request.fetched (r : Request) : List (List Char) :=
  match r.answer with
  | .ok text => sampleLines text
  | .error _ => []

/-- The lines of all the answers. -/
def fetched (log : List Request) : List (List Char) := log.flatMap Request.fetched

theorem fetched_failed (log : List Request) (index lines : Int) (e : XpsError) :
    fetched (log ++ [⟨index, lines, .error e⟩]) = fetched log := by
  rw [fetched, List.flatMap_append]
  exact List.append_nil _

theorem fetched_answered (log : List Request) (index lines : Int) (text : List Char) :
    fetched (log ++ [⟨index, lines, .ok text⟩]) = fetched log ++ sampleLines text := by
  rw [fetched, List.flatMap_append]
  exact congrArg (fetched log ++ ·) (List.append_nil _)

/-- What the inner loop ends with: an answer, or nothing more to ask for. -/
theorem fetch_spec {answers : Nat → List Read} {numRead : Int} {n : Nat} {f : Fetch}
    (hstatus : f.status ≠ 0) (hlines : 0 ≤ f.numInBuffer) (hn : f.numInBuffer.toNat + 2 ≤ n)
    (hlog : Consecutive f.log numRead) :
    ∃ f', fetch c answers numRead n f = some f' ∧
      ((f'.numInBuffer = 0 ∧ Consecutive f'.log numRead ∧ fetched f'.log = fetched f.log) ∨
        (0 < f'.numInBuffer ∧ f'.numInBuffer ≤ f.numInBuffer ∧ f'.buffer.length ≤ maxReply ∧
          Consecutive f'.log (numRead + f'.numInBuffer) ∧
          fetched f'.log = fetched f.log ++ sampleLines f'.buffer)) := by
  induction n generalizing f with
  | zero => omega
  | succ n ih =>
    by_cases hmore : 0 < f.numInBuffer
    · rw [fetch, if_pos ⟨hstatus, hmore⟩]
      cases hanswer : gatheringDataMultipleLinesGet c (answers f.log.length) with
      | ok read =>
        refine ⟨⟨0, f.numInBuffer, read, f.log ++ [⟨numRead, f.numInBuffer, .ok read⟩]⟩, ?_,
          .inr ⟨hmore, Int.le_refl _, length_of_linesGet hanswer, hlog.answered hmore,
            fetched_answered _ _ _ _⟩⟩
        obtain ⟨n, rfl⟩ : ∃ m, n = m + 1 := ⟨n - 1, by omega⟩
        exact if_neg fun h => h.1 rfl
      | error e =>
        have hcode := code_of_linesGet hanswer
        have hhalf : f.numInBuffer.tdiv 2 = f.numInBuffer / 2 :=
          Int.tdiv_eq_ediv_of_nonneg hlines
        dsimp only
        rw [if_pos hcode, hhalf]
        obtain ⟨f', hfetch, hend⟩ := @ih
          ⟨e.code, f.numInBuffer / 2, f.buffer, f.log ++ [⟨numRead, f.numInBuffer, .error e⟩]⟩
          hcode (by dsimp only; omega) (by dsimp only; omega) (hlog.failed hmore)
        rw [fetched_failed] at hend
        refine ⟨f', hfetch, hend.imp_right ?_⟩
        rintro ⟨hpos, hle, hrest⟩
        exact ⟨hpos, hle.trans (by dsimp only; omega), hrest⟩
    · rw [fetch, if_neg fun h => hmore h.2]
      exact ⟨f, rfl, .inl ⟨by omega, hlog, rfl⟩⟩

end Requests

/-! ## Runs -/

section Runs

variable {F : Type} {parse : List Char → Option F} {n : Nat}

/-- Up to a line, every line was asked for once and is stored. -/
structure Stored (parse : List Char → Option F) (log : List Request)
    (samples : List (Fin n → F × F)) (numRead : Int) : Prop where
  consecutive : Consecutive log numRead
  length_eq : (samples.length : Int) = numRead
  stored : List.Forall₂ (IsSample parse) (fetched log) samples

/-- What is stored are the first lines of the answers. -/
structure Partly (parse : List Char → Option F) (log : List Request)
    (samples : List (Fin n → F × F)) : Prop where
  consecutive : ∃ stop, Consecutive log stop
  stored : List.Forall₂ (IsSample parse) ((fetched log).take samples.length) samples

variable {log : List Request} {samples : List (Fin n → F × F)} {numRead : Int}

theorem Stored.partly (h : Stored parse log samples numRead) : Partly parse log samples where
  consecutive := ⟨numRead, h.consecutive⟩
  stored := by
    rw [List.take_of_length_le (Nat.le_of_eq h.stored.length_eq)]
    exact h.stored

/-- The samples of an answer come behind those of the answers before. -/
theorem Stored.forall₂_append (h : Stored parse log samples numRead) {lines : List (List Char)}
    {new : List (Fin n → F × F)}
    (hnew : List.Forall₂ (IsSample parse) (lines.take new.length) new) :
    List.Forall₂ (IsSample parse) ((fetched log ++ lines).take (samples ++ new).length)
      (samples ++ new) := by
  have hlen := h.stored.length_eq
  rw [List.length_append, ← hlen, List.take_length_add_append]
  exact List.rel_append h.stored hnew

open GatheringReadback

/-- The outer loop ends, and goes on to the last sample unless it fails. -/
theorem readLoop_spec [Sub F] {c : CNumbers} {answers : Nat → List Read} {currentSamples : Int} {k : Nat} {done : ReadbackDone F}
    (hstored : Stored parse log samples numRead) (hdone : done.samples = ofSamples samples)
    (hbound : numRead ≤ max currentSamples 0) (hpos : 0 ≤ numRead)
    (hk : (currentSamples - numRead).toNat + 1 ≤ k) :
    ∃ (done' : ReadbackDone F) (log' : List Request) (samples' : List (Fin n → F × F)),
      readLoop c answers parse n currentSamples k numRead done log = some (done', log') ∧
      done'.samples = ofSamples samples' ∧ Partly parse log' samples' ∧
      (done'.ok = true → done.ok = true ∧ Stored parse log' samples' (max currentSamples 0)) := by
  induction k generalizing log samples numRead done with
  | zero => omega
  | succ k ih =>
    rw [readLoop]
    by_cases hmore : numRead < currentSamples
    · rw [if_pos hmore]
      obtain ⟨f, hfetch, hend⟩ := @fetch_spec c answers numRead
        ((currentSamples - numRead).toNat + 2) ⟨-1, currentSamples - numRead, [], log⟩
        (by dsimp only; omega) (by dsimp only; omega) (Nat.le_refl _) hstored.consecutive
      dsimp only at hfetch hend ⊢
      rw [hfetch]
      dsimp only
      rcases hend with ⟨hzero, hlog, hsame⟩ | ⟨hnum, hle, hshort, hlog, hfetched⟩
      · rw [if_pos hzero]
        refine ⟨_, _, samples, rfl, hdone, ⟨⟨numRead, hlog⟩, ?_⟩, nofun⟩
        rw [hsame]
        exact hstored.partly.stored
      · rw [if_neg (by omega), parseGatheringBuffer, hdone]
        obtain ⟨new, hparsed, hnew, hall⟩ := @parseLines_spec F parse n _ (textLines f.buffer) 0 samples
        have hsamples := hstored.forall₂_append hnew
        rw [show solidLines (textLines f.buffer) = sampleLines f.buffer from rfl, ← hfetched]
          at hsamples
        generalize parseLines parse n (textLines f.buffer) 0 (ofSamples samples) = r at hparsed hall ⊢
        obtain ⟨result, readback⟩ := r
        dsimp only at hparsed hall
        subst hparsed
        cases result with
        | error message => exact ⟨_, _, samples ++ new, rfl, rfl, ⟨⟨_, hlog⟩, hsamples⟩, nofun⟩
        | ok lines =>
          dsimp only
          by_cases hcount : asI32 lines = f.numInBuffer
          · rw [if_pos hcount]
            obtain ⟨hlines, hwhole⟩ := hall lines rfl
            have hfew := length_sampleLines_le f.buffer
            have hsmall : maxReply = 65536 := rfl
            rw [show solidLines (textLines f.buffer) = sampleLines f.buffer from rfl] at hwhole
            rw [asI32_of_lt (by omega)] at hcount
            have hnext : Stored parse f.log (samples ++ new) (numRead + f.numInBuffer) := by
              refine ⟨hlog, ?_, ?_⟩
              · have hlen := hstored.length_eq
                rw [List.length_append]
                omega
              · have hread := hstored.stored.length_eq
                rwa [List.take_of_length_le] at hsamples
                rw [hfetched, List.length_append, List.length_append]
                omega
            obtain ⟨done', log', samples', hrun, hrest, hpartly, hok⟩ :=
              @ih f.log (samples ++ new) (numRead + f.numInBuffer)
                { done with status := f.status, samples := ofSamples (samples ++ new) } hnext rfl
                (by omega) (by omega) (by omega)
            exact ⟨done', log', samples', hrun, hrest, hpartly, hok⟩
          · rw [if_neg hcount]
            exact ⟨_, _, samples ++ new, rfl, rfl, ⟨⟨_, hlog⟩, hsamples⟩, nofun⟩
    · rw [if_neg hmore]
      have hlast : numRead = max currentSamples 0 := by omega
      exact ⟨done, log, samples, rfl, hdone, hstored.partly, fun hok => ⟨hok, hlast ▸ hstored⟩⟩

/-- The controller answers with lines of its gathering buffer. -/
def ReadsFrom (gathering : List (List Char)) (log : List Request) : Prop :=
  ∀ r ∈ log, ∀ text, r.answer = .ok text →
    sampleLines text = (gathering.drop r.index.toNat).take r.lines.toNat

theorem fetched_eq_take {gathering : List (List Char)} {stop : Int} (h : Consecutive log stop)
    (hreads : ReadsFrom gathering log) : 0 ≤ stop ∧ fetched log = gathering.take stop.toNat := by
  induction h with
  | nil => exact ⟨Int.le_refl 0, rfl⟩
  | failed hlog hlines ih =>
    rw [fetched_failed]
    exact ih fun r hr => hreads r (List.mem_append_left _ hr)
  | @answered log stop lines text hlog hlines ih =>
    obtain ⟨hstop, heq⟩ := ih fun r hr => hreads r (List.mem_append_left _ hr)
    have hlast := hreads ⟨stop, lines, .ok text⟩
      (List.mem_append_right _ (List.mem_singleton_self _)) text rfl
    have hnext : (stop + lines).toNat = stop.toNat + lines.toNat := by omega
    refine ⟨by omega, ?_⟩
    rw [fetched_answered, heq, hlast, hnext, List.take_add]

/-- What is stored are the gathering buffer's first lines. -/
theorem Partly.getElem (h : Partly parse log samples) {gathering : List (List Char)}
    (hreads : ReadsFrom gathering log) {k : Nat} (hk : k < samples.length) :
    ∃ line, gathering[k]? = some line ∧ IsSample parse line samples[k] := by
  obtain ⟨stop, hstop⟩ := h.consecutive
  obtain ⟨-, heq⟩ := fetched_eq_take hstop hreads
  have hlen := h.stored.length_eq
  have hk' : k < ((fetched log).take samples.length).length := by omega
  have hprefix : (fetched log).take samples.length <+: gathering :=
    (List.take_prefix _ _).trans (heq ▸ List.take_prefix _ _)
  obtain ⟨more, hmore⟩ := hprefix
  refine ⟨((fetched log).take samples.length)[k], ?_, h.stored.get hk' hk⟩
  rw [← hmore, List.getElem?_append_left hk', List.getElem?_eq_getElem hk']

end Runs

/-! ## The profile's lists -/

section Copies

variable {F : Type}

theorem copyFront_ok {dst src : List F} {k : Nat} (hdst : k ≤ dst.length) (hsrc : k ≤ src.length) :
    copyFront dst src k = .ok (src.take k ++ dst.drop k) := by
  have hlen : (dst.take k).length = (src.take k).length := by
    rw [List.length_take, List.length_take]
    omega
  rw [copyFront, slice_of_le (Nat.zero_le k) hdst, ok_bind, slice_of_le (Nat.zero_le k) hsrc, ok_bind,
    List.drop_zero, List.drop_zero, Nat.sub_zero, copyFromSlice_of_eq hlen]
  rfl

variable [Sub F] {n : Nat} {samples : List (Fin n → F × F)}

open GatheringReadback

theorem numSamples_ofSamples (hn : 0 < n) : (ofSamples samples).numSamples = samples.length := by
  obtain ⟨m, rfl⟩ := Nat.exists_eq_succ_of_ne_zero (Nat.ne_of_gt hn)
  rw [numSamples, ofSamples, List.ofFn_succ, List.head?_cons, Option.map_some, Option.getD_some,
    List.length_map]

/-- Every list holds as many samples. -/
theorem length_ofSamples {l : List F}
    (h : l ∈ (ofSamples samples).actuals ++ (ofSamples samples).followingErrors) :
    l.length = samples.length := by
  rcases List.mem_append.1 h with h | h
  · obtain ⟨axis, rfl⟩ := List.mem_ofFn.1 h
    exact List.length_map _
  · obtain ⟨axis, rfl⟩ := List.mem_ofFn.1 h
    exact List.length_map _

/-- An axis of the profile takes the samples that it has room for. -/
theorem copyAxis_ok {axis : AxisReadbacks F} {j : Nat} (hj : j < n) (hsized : axis.Sized) :
    ∃ axis', copyAxis (ofSamples samples) j axis = .ok axis' ∧ axis'.Sized := by
  have hnum := @numSamples_ofSamples F _ n samples (Nat.zero_lt_of_lt hj)
  have hactuals : (ofSamples samples).actuals[j]? = some (samples.map fun s => (s ⟨j, hj⟩).2) := by
    rw [ofSamples, List.getElem?_ofFn, dif_pos hj]
  have herrors : (ofSamples samples).followingErrors[j]? =
      some (samples.map fun s => (s ⟨j, hj⟩).2 - (s ⟨j, hj⟩).1) := by
    rw [ofSamples, List.getElem?_ofFn, dif_pos hj]
  unfold AxisReadbacks.Sized at hsized
  unfold copyAxis
  dsimp only
  rw [hnum, item_of_some hactuals, ok_bind,
    copyFront_ok (Nat.min_le_right _ _) (by rw [List.length_map]; exact Nat.min_le_left _ _), ok_bind,
    item_of_some herrors, ok_bind,
    copyFront_ok (by rw [hsized]; exact Nat.min_le_right _ _)
      (by rw [List.length_map]; exact Nat.min_le_left _ _)]
  refine ⟨_, rfl, ?_⟩
  simp only [AxisReadbacks.Sized, List.length_append, List.length_take, List.length_drop,
    List.length_map, hsized]

theorem copyRound_ok {axes : List (AxisReadbacks F)} {p : Nat × Nat} (hp : p.2 < n)
    (hsized : ∀ axis ∈ axes, axis.Sized) :
    ∃ axes', copyRound (ofSamples samples) axes p = .ok axes' ∧ ∀ axis ∈ axes', axis.Sized := by
  unfold copyRound
  cases haxis : axes[p.1]? with
  | none => exact ⟨axes, rfl, hsized⟩
  | some axis =>
    obtain ⟨axis', hcopy, hsized'⟩ := @copyAxis_ok F _ n samples axis p.2 hp
      (hsized axis (List.mem_of_getElem? haxis))
    refine ⟨axes.set p.1 axis', by dsimp only; rw [hcopy]; rfl, fun other hother => ?_⟩
    rcases List.mem_or_eq_of_mem_set hother with hother | rfl
    · exact hsized other hother
    · exact hsized'

/-- No list is indexed behind its end. -/
theorem copyAxes_ok {registered : List Nat} {axes : List (AxisReadbacks F)}
    (hregistered : registered.length ≤ n) (hsized : ∀ axis ∈ axes, axis.Sized) :
    ∃ axes', copyAxes (ofSamples samples) registered axes = .ok axes' := by
  have hindex : ∀ p ∈ registered.zipIdx, p.2 < n := by
    rintro ⟨axisNo, j⟩ hp
    have hj := List.snd_lt_of_mem_zipIdx hp
    exact Nat.lt_of_lt_of_le hj (by omega)
  unfold copyAxes
  generalize registered.zipIdx = numbered at hindex
  induction numbered generalizing axes with
  | nil => exact ⟨axes, rfl⟩
  | cons p numbered ih =>
    obtain ⟨hp, hrest⟩ := List.forall_mem_cons.1 hindex
    obtain ⟨axes', hround, hsized'⟩ := @copyRound_ok F _ n samples axes p hp hsized
    rw [List.foldlM_cons, hround]
    exact ih hsized' hrest

end Copies

/-- **The readback ends; it asks for one range behind the other, and stores the lines in order, each
for all axes or for none; where it succeeds these are all up to the smaller of the number of samples
and the number of points.** -/
theorem readGathering_fetches {F : Type} [Sub F] (c : CNumbers) (parse : List Char → Option F)
    {numAxes : Nat} (haxes : 0 < numAxes) (number : List Read) (answers : Nat → List Read)
    (numPulses : Int) {maxPoints : Nat} (hpoints : maxPoints < 2 ^ 31) :
    ∃ (done : ReadbackDone F) (log : List Request) (samples : List (Fin numAxes → F × F)),
      readGathering c answers parse numAxes number numPulses maxPoints = some (done, log) ∧
      done.samples = .ofSamples samples ∧
      (∀ l ∈ done.samples.actuals ++ done.samples.followingErrors,
        l.length = done.samples.numSamples) ∧
      (∃ stop, Consecutive log stop) ∧
      (∀ gathering, ReadsFrom gathering log → ∀ k (hk : k < samples.length),
        ∃ line, gathering[k]? = some line ∧ IsSample parse line samples[k]) ∧
      (done.ok = true → ∃ currentSamples maxSamples,
        gatheringCurrentNumberGet c number = .ok (currentSamples, maxSamples) ∧
          numPulses ≤ currentSamples ∧
          done.samples.numSamples = (min currentSamples maxPoints).toNat ∧
          Consecutive log done.samples.numSamples) ∧
      ∀ (registered : List Nat) (axes : List (AxisReadbacks F)), registered.length = numAxes →
        (∀ axis ∈ axes, axis.Sized) →
        ∃ axes', copyAxes done.samples registered axes = .ok axes' := by
  obtain ⟨done, log, samples, hrun, hsamples, hpartly, hok⟩ :
      ∃ (done : ReadbackDone F) (log : List Request) (samples : List (Fin numAxes → F × F)),
        readGathering c answers parse numAxes number numPulses maxPoints = some (done, log) ∧
        done.samples = .ofSamples samples ∧ Partly parse log samples ∧
        (done.ok = true → ∃ currentSamples maxSamples,
          gatheringCurrentNumberGet c number = .ok (currentSamples, maxSamples) ∧
            numPulses ≤ currentSamples ∧
            Stored parse log samples (max (min currentSamples maxPoints) 0)) := by
    have hstart : Stored parse [] ([] : List (Fin numAxes → F × F)) 0 := ⟨.nil, rfl, .nil⟩
    unfold readGathering
    cases hnumber : gatheringCurrentNumberGet c number with
    | error e => exact ⟨_, [], [], rfl, GatheringReadback.new_eq, hstart.partly, nofun⟩
    | ok current =>
      obtain ⟨currentSamples, maxSamples⟩ := current
      dsimp only
      rw [asI32_of_lt hpoints]
      generalize hfirst : (if currentSamples < numPulses then _ else _ : ReadbackDone F) = first
      have hempty : first.samples = .ofSamples ([] : List (Fin numAxes → F × F)) := by
        rw [← hfirst, ← GatheringReadback.new_eq]
        by_cases hfew : currentSamples < numPulses
        · rw [if_pos hfew]
        · rw [if_neg hfew]
      obtain ⟨done, log, samples, hrun, hsamples, hpartly, hok⟩ :=
        @readLoop_spec F parse numAxes [] [] 0 _ c answers (min currentSamples maxPoints)
          ((min currentSamples maxPoints).toNat + 1) first hstart hempty (by omega)
          (Int.le_refl 0) (by omega)
      refine ⟨done, log, samples, hrun, hsamples, hpartly, fun hdone => ?_⟩
      obtain ⟨hfirstok, hstored⟩ := hok hdone
      refine ⟨currentSamples, maxSamples, rfl, ?_, hstored⟩
      by_contra hfew
      rw [← hfirst, if_pos (by omega)] at hfirstok
      cases hfirstok
  have hnum : done.samples.numSamples = samples.length := by
    rw [hsamples]
    exact numSamples_ofSamples haxes
  refine ⟨done, log, samples, hrun, hsamples, fun l hl => ?_, hpartly.consecutive,
    fun gathering hreads k hk => hpartly.getElem hreads hk, fun hdone => ?_,
    fun registered axes hregistered hsized => ?_⟩
  · rw [hnum]
    exact length_ofSamples (hsamples ▸ hl)
  · obtain ⟨currentSamples, maxSamples, hnumber, hpulses, hstored⟩ := hok hdone
    have hlen := hstored.length_eq
    refine ⟨currentSamples, maxSamples, hnumber, hpulses, by omega, ?_⟩
    rw [hnum, hlen]
    exact hstored.consecutive
  · rw [hsamples]
    exact copyAxes_ok (Nat.le_of_eq hregistered) hsized

/-! ## A run -/

/-- `0,2,9,EndOfAPI`. -/
def twoSamples : List Read :=
  [⟨['0', ',', '2', ',', '9', ',', 'E', 'n', 'd', 'O', 'f', 'A', 'P', 'I'], true, by decide⟩]

/-- A call that fails, and then a line at a time. -/
def lineByLine : Nat → List Read
  | 0 => []
  | 1 => [⟨['0', ',', '1', ';', '3', '\n'], true, by decide⟩, ⟨xpsTerminator, true, by decide⟩]
  | _ => [⟨['0', ',', '5', ';', '4'], false, by decide⟩]

theorem readGathering_lineByLine :
    ∃ done log, readGathering digitNumbers lineByLine parseDigits 1 twoSamples 2 100 =
      some (done, log) ∧ ∃ stop, Consecutive log stop := by
  obtain ⟨done, log, samples, hrun, -, -, hlog, -⟩ :=
    readGathering_fetches digitNumbers parseDigits Nat.one_pos twoSamples lineByLine 2
      (show 100 < 2 ^ 31 by decide)
  exact ⟨done, log, hrun, hlog⟩

end Newport
