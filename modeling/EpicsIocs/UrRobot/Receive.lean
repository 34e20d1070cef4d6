import EpicsIocs.Lib.Framing
import EpicsIocs.UrRobot.Rtde

/-! # Receiving robot states

`receiveData` appends a read to the buffer, takes every whole package off its front and
decodes the data packages (`session.rs`); the newest state is its answer.

Against a controller that sends well-formed packages, cut into reads anywhere:

    readAll receiveData s reads = .ok (parts.map (latest names), { s with buffer := tail })

where `parts` are the packages each read completes and `tail` the bytes over
(`receive_cut_invariant`). -/

namespace UrRobot

open Bytes Framing

/-! ## The session -/

inductive UrError where
  | notConnected (what : String)
  | io (text : String)
  | peerClosed
  | protocol (text : String)
  | decode (e : DecodeError)
  deriving DecidableEq, Repr

/-- What a read of the socket gives. -/
inductive Incoming where
  | data (chunk : List UInt8)
  | timedOut
  | failed (text : String)
  deriving DecidableEq, Repr

structure Session where
  connected : Bool
  recipe : OutputRecipe
  buffer : List UInt8
  deriving DecidableEq, Repr

namespace Session

/-- The loop of `receive_data`: whole packages off the front of the buffer.  A package has
three bytes or more, so `fuel` above the length of the buffer is never used up. -/
def receiveLoop : Nat → Session → Option Sample → Except UrError (Option Sample × Session)
  | 0, s, latest => .ok (latest, s)
  | fuel + 1, s, latest =>
    match Header.decode s.buffer with
    | none =>
      if headerSize ≤ s.buffer.length then .error (.protocol "malformed RTDE package length")
      else .ok (latest, s)
    | some header =>
      if s.buffer.length < header.size then .ok (latest, s)
      else
        let body := (s.buffer.take header.size).drop headerSize
        let s := { s with buffer := s.buffer.drop header.size }
        if header.cmd = dataPackage then
          match s.recipe.decode body with
          | .error e => .error (.decode e)
          | .ok state => receiveLoop fuel s (some state)
        else receiveLoop fuel s latest

/-- The thread that reads ends at the first error, so an error carries no session. -/
def receiveData (s : Session) (r : Incoming) : Except UrError (Option Sample × Session) :=
  if s.connected then
    match r with
    | .data [] => .error .peerClosed
    | .data chunk =>
      receiveLoop ((s.buffer ++ chunk).length + 1) { s with buffer := s.buffer ++ chunk } none
    | .timedOut => .ok (none, s)
    | .failed text => .error (.io ("RTDE read: " ++ text))
  else .error (.notConnected "RTDE")

end Session

/-! ## What the controller sends -/

/-- A data package for the recipe, or a package of another command. -/
inductive Package where
  | data (id : UInt8) (values : List Value)
  | other (command : UInt8) (payload : List UInt8)
  deriving DecidableEq, Repr

namespace Package

def command : Package → UInt8
  | data _ _ => dataPackage
  | other command _ => command

def payload : Package → List UInt8
  | data id values => id :: values.flatMap Value.encode
  | other _ payload => payload

def encode (p : Package) : List UInt8 := encodeFrame p.command p.payload

/-- The size fits its two bytes, and the values are those of the recipe. -/
def WellFormed (names : List String) (p : Package) : Prop :=
  headerSize + p.payload.length ≤ 65535 ∧
    match p with
    | data _ values => OutputRecipe.Values names values
    | other command _ => command ≠ dataPackage

/-- The state in a data package. -/
def sample (names : List String) : Package → Option Sample
  | data _ values => some (Sample.of (names.zip values))
  | other _ _ => none

end Package

/-- The states sent, in order. -/
def samples (names : List String) (packages : List Package) : List Sample :=
  packages.filterMap (Package.sample names)

/-- The state of the last data package. -/
def latest (names : List String) (packages : List Package) : Option Sample :=
  (samples names packages).getLast?

def Incoming.bytes : Incoming → List UInt8
  | .data chunk => chunk
  | _ => []

/-- Some bytes, or nothing within the timeout. -/
def Incoming.Delivers : Incoming → Prop
  | .data chunk => chunk ≠ []
  | .timedOut => True
  | .failed _ => False

/-! ## Headers -/

theorem Header.decode_append {b : List UInt8} (hb : headerSize ≤ b.length) (rest : List UInt8) :
    Header.decode (b ++ rest) = Header.decode b := by
  match b, hb with
  | _ :: _ :: _ :: _, _ => rfl

theorem Header.decode_short {b : List UInt8} (hb : b.length < headerSize) :
    Header.decode b = none := by
  match b, hb with
  | [], _ => rfl
  | [_], _ => rfl
  | [_, _], _ => rfl

theorem length_encodeFrame (command : UInt8) (payload : List UInt8) :
    (encodeFrame command payload).length = headerSize + payload.length := by
  rw [encodeFrame, List.length_append, length_beBytes, List.length_cons, headerSize]
  omega

theorem Header.decode_encodeFrame {command : UInt8} {payload : List UInt8}
    (h : headerSize + payload.length ≤ 65535) (rest : List UInt8) :
    Header.decode (encodeFrame command payload ++ rest) =
      some ⟨headerSize + payload.length, command⟩ := by
  obtain ⟨a, b, hsize⟩ := List.length_eq_two.1 (length_beBytes 2 (headerSize + payload.length))
  have hval : a.toNat * 256 + b.toNat = headerSize + payload.length := by
    have hbe := beNat_beBytes_of_lt (k := 2) (n := headerSize + payload.length) (by omega)
    rw [hsize] at hbe
    simpa [beNat] using hbe
  have hheader : ¬ headerSize + payload.length < headerSize :=
    Nat.not_lt.2 (Nat.le_add_right _ _)
  rw [encodeFrame, hsize]
  show (if a.toNat * 256 + b.toNat < headerSize then none
    else some (⟨a.toNat * 256 + b.toNat, command⟩ : Header)) = _
  rw [hval, if_neg hheader]

/-! ## One read -/

theorem Package.encode_ne_nil (p : Package) : p.encode ≠ [] := by
  have hlen := length_encodeFrame p.command p.payload
  intro hnil
  rw [encode] at hnil
  rw [hnil, List.length_nil, headerSize] at hlen
  omega

theorem samples_cons (names : List String) (p : Package) (packages : List Package) :
    samples names (p :: packages) = (p.sample names).toList ++ samples names packages := by
  cases hp : p.sample names <;> simp [samples, hp]

namespace Session

variable {names : List String} {packages done left : List Package} {tail : List UInt8}

/-- Too few bytes for the next package stay where they are. -/
theorem receiveLoop_tail {s : Session} {fuel : Nat} (hfuel : 0 < fuel)
    (hwf : ∀ p ∈ left, p.WellFormed names) (htail : s.buffer <+: left.flatMap Package.encode)
    (hshort : ∀ p rest, left = p :: rest → s.buffer.length < p.encode.length)
    (last : Option Sample) : receiveLoop fuel s last = .ok (last, s) := by
  obtain ⟨fuel, rfl⟩ := Nat.exists_eq_succ_of_ne_zero (Nat.ne_of_gt hfuel)
  by_cases hheader : s.buffer.length < headerSize
  · rw [receiveLoop, Header.decode_short hheader]
    exact if_neg (Nat.not_le.2 hheader)
  · obtain ⟨more, hmore⟩ := htail
    cases left with
    | nil =>
      rw [List.flatMap_nil, List.append_eq_nil_iff] at hmore
      rw [hmore.1] at hheader
      exact absurd (by decide) hheader
    | cons p rest =>
      have hlt := hshort p rest rfl
      rw [Package.encode, length_encodeFrame] at hlt
      have hdecode : Header.decode s.buffer = some ⟨headerSize + p.payload.length, p.command⟩ := by
        rw [← Header.decode_append (Nat.not_lt.1 hheader) more, hmore, List.flatMap_cons,
          Package.encode, Header.decode_encodeFrame (hwf p List.mem_cons_self).1]
      rw [receiveLoop, hdecode]
      exact if_pos hlt

/-- A whole package at the front is taken off; a data package's state is the newest. -/
theorem receiveLoop_package {s : Session} {p : Package} {rest : List UInt8} {fuel : Nat}
    (hrecipe : s.recipe = .new names) (hwf : p.WellFormed names)
    (hbuffer : s.buffer = p.encode ++ rest) (last : Option Sample) :
    receiveLoop (fuel + 1) s last =
      receiveLoop fuel { s with buffer := rest } ((p.sample names).or last) := by
  have hdecode : Header.decode s.buffer = some ⟨headerSize + p.payload.length, p.command⟩ := by
    rw [hbuffer, Package.encode, Header.decode_encodeFrame hwf.1]
  have hlen : p.encode.length = headerSize + p.payload.length := length_encodeFrame _ _
  have hwhole : ¬ s.buffer.length < headerSize + p.payload.length := by
    rw [hbuffer, List.length_append, hlen]
    omega
  have htake : (s.buffer.take (headerSize + p.payload.length)).drop headerSize = p.payload := by
    rw [hbuffer, ← hlen, List.take_left, Package.encode, encodeFrame]
    have hheader : (beBytes 2 (headerSize + p.payload.length) ++ [p.command]).length =
        headerSize := by
      simp [headerSize]
    rw [← List.singleton_append, ← List.append_assoc]
    exact List.drop_left' hheader
  have hdrop : s.buffer.drop (headerSize + p.payload.length) = rest := by
    rw [hbuffer, ← hlen, List.drop_left]
  simp only [receiveLoop, hdecode, if_neg hwhole, htake, hdrop]
  cases p with
  | other command payload => exact if_neg hwf.2
  | data id values =>
    have hstate : s.recipe.decode (id :: values.flatMap Value.encode) =
        .ok (Sample.of (names.zip values)) := by
      rw [hrecipe]
      exact OutputRecipe.decode_encode hwf.2 id
    simp only [Package.command, Package.payload, hstate, if_true]
    rfl

/-- The loop takes the complete packages and leaves the tail. -/
theorem receiveLoop_packages {s : Session} {fuel : Nat} (hfuel : done.length < fuel)
    (hrecipe : s.recipe = .new names) (hwf : ∀ p ∈ done ++ left, p.WellFormed names)
    (hbuffer : s.buffer = done.flatMap Package.encode ++ tail)
    (htail : tail <+: left.flatMap Package.encode)
    (hshort : ∀ p rest, left = p :: rest → tail.length < p.encode.length)
    (last : Option Sample) :
    receiveLoop fuel s last =
      .ok ((latest names done).or last, { s with buffer := tail }) := by
  induction done generalizing s fuel last with
  | nil =>
    rw [List.flatMap_nil, List.nil_append] at hbuffer
    subst hbuffer
    exact receiveLoop_tail (by omega) hwf htail hshort last
  | cons p done ih =>
    obtain ⟨fuel, rfl⟩ := Nat.exists_eq_succ_of_ne_zero (n := fuel) (by omega)
    have hp : p.WellFormed names := hwf p (by simp)
    have hrest : ∀ q ∈ done ++ left, q.WellFormed names :=
      fun q hq => hwf q (List.mem_cons_of_mem _ hq)
    rw [List.flatMap_cons, List.append_assoc] at hbuffer
    have hlast : (latest names (p :: done)).or last =
        (latest names done).or ((p.sample names).or last) := by
      rw [latest, latest, samples_cons, List.getLast?_append]
      cases (samples names done).getLast? <;> cases p.sample names <;> rfl
    rw [Nat.succ_eq_add_one, receiveLoop_package hrecipe hp hbuffer, hlast]
    have hlen : done.length < fuel := by simpa using hfuel
    exact ih (s := { s with buffer := done.flatMap Package.encode ++ tail }) hlen hrecipe hrest rfl _

/-- `s` holds `tail` and `left` is still to come. -/
structure Holds (names : List String) (s : Session) (left : List Package) (tail : List UInt8) :
    Prop where
  session : s = ⟨true, .new names, tail⟩
  wellFormed : ∀ p ∈ left, p.WellFormed names
  cut : Cut Package.encode left tail [] left tail

theorem receiveData_data {s : Session} {chunk : List UInt8} (hs : s.connected = true)
    (hchunk : chunk ≠ []) :
    s.receiveData (.data chunk) =
      receiveLoop ((s.buffer ++ chunk).length + 1) { s with buffer := s.buffer ++ chunk } none := by
  cases chunk with
  | nil => exact absurd rfl hchunk
  | cons b chunk => simp only [receiveData, hs, if_true]

theorem length_le_flatMap_encode (packages : List Package) :
    packages.length ≤ (packages.flatMap Package.encode).length := by
  induction packages with
  | nil => exact Nat.le_refl 0
  | cons p packages ih =>
    have hp := List.length_pos_iff.2 p.encode_ne_nil
    rw [List.flatMap_cons, List.length_append, List.length_cons]
    omega

/-- **One read.**  It answers with the state of the last data package it completes. -/
theorem receiveData_cut {s : Session} {r : Incoming} {held : List UInt8}
    (h : s.Holds names packages held) (hr : r.Delivers)
    (hcut : Cut Package.encode packages (held ++ r.bytes) done left tail) :
    s.receiveData r = .ok (latest names done, ⟨true, .new names, tail⟩) := by
  obtain ⟨rfl, hwf, hheld⟩ := h
  cases r with
  | failed text => exact hr.elim
  | timedOut =>
    -- Nothing new: the cut is the one already made.
    have hsame : Cut Package.encode packages held done left tail := by
      simpa [Incoming.bytes] using hcut
    obtain ⟨rfl, rfl, rfl⟩ := hheld.unique hsame
    rfl
  | data chunk =>
    have hbytes : held ++ chunk = done.flatMap Package.encode ++ tail := hcut.bytes_eq
    have hfuel : done.length < (held ++ chunk).length + 1 := by
      have hdone := length_le_flatMap_encode done
      rw [hbytes, List.length_append]
      omega
    have hloop := receiveLoop_packages (s := ⟨true, .new names, held ++ chunk⟩) hfuel rfl
      (hcut.frames_eq ▸ hwf) hbytes hcut.tail_prefix hcut.tail_short none
    rw [Option.or_none] at hloop
    rw [receiveData_data rfl hr]
    exact hloop

theorem Holds.of_cut (hwf : ∀ p ∈ packages, p.WellFormed names) {bytes : List UInt8}
    (hcut : Cut Package.encode packages bytes done left tail) :
    Holds names ⟨true, .new names, tail⟩ left tail where
  session := rfl
  wellFormed p hp := hwf p (hcut.frames_eq ▸ List.mem_append_right _ hp)
  cut := ⟨rfl, rfl, hcut.tail_prefix, hcut.tail_short⟩

end Session

/-! ## All reads -/

/-- The states the reads publish are among those sent and end with the last complete one. -/
theorem published_sublist (names : List String) (parts : List (List Package)) :
    (parts.filterMap (latest names)).Sublist (samples names parts.flatten) ∧
      (parts.filterMap (latest names)).getLast? = latest names parts.flatten := by
  induction parts with
  | nil => exact ⟨List.Sublist.refl _, rfl⟩
  | cons part parts ih =>
    have hsplit : samples names (part :: parts).flatten =
        samples names part ++ samples names parts.flatten := by
      rw [List.flatten_cons, samples, List.filterMap_append]
      rfl
    have hcons : (part :: parts).filterMap (latest names) =
        (latest names part).toList ++ parts.filterMap (latest names) := by
      cases hlast : latest names part <;> simp [hlast]
    constructor
    · rw [hsplit, hcons]
      refine List.Sublist.append ?_ ih.1
      rw [latest]
      cases hlast : (samples names part).getLast? with
      | none => exact List.nil_sublist _
      | some sample => exact List.singleton_sublist.2 (List.mem_of_getLast? hlast)
    · rw [latest, hsplit, hcons, List.getLast?_append, List.getLast?_append, ih.2]
      cases hlast : latest names part <;> rw [latest] at hlast <;> simp [latest, hlast]

/-- **Reading a stream.**  However the packages are cut into reads, each read answers with
the state of the last data package it completes and the buffer is the incomplete tail; the
states published are among those sent and end with the last complete one.  A data package
decodes to the map with the last value of each name, and anything shorter to an error. -/
theorem receive_cut_invariant (names : List String) (packages : List Package)
    (hwf : ∀ p ∈ packages, p.WellFormed names) (reads : List Incoming)
    (hreads : ∀ r ∈ reads, r.Delivers)
    (hbytes : reads.flatMap Incoming.bytes <+: packages.flatMap Package.encode) :
    (∃ parts left tail,
      Cuts Package.encode packages [] (reads.map Incoming.bytes) parts left tail ∧
        Cut Package.encode packages (reads.flatMap Incoming.bytes) parts.flatten left tail ∧
        readAll Session.receiveData ⟨true, .new names, []⟩ reads =
          .ok (parts.map (latest names), ⟨true, .new names, tail⟩) ∧
        (parts.filterMap (latest names)).Sublist (samples names packages) ∧
        (parts.filterMap (latest names)).getLast? = latest names parts.flatten) ∧
      (∀ id values, OutputRecipe.Values names values → ∃ sample,
        (OutputRecipe.new names).decode (id :: values.flatMap Value.encode) = .ok sample ∧
        (∀ name, sample name = (names.zip values).reverse.lookup name) ∧
        (names.Nodup → ∀ name value, sample name = some value ↔ (name, value) ∈ names.zip values)) ∧
      ∀ payload : List UInt8, payload.length < 1 + (OutputRecipe.new names).encodedLen →
        ∃ e, (OutputRecipe.new names).decode payload = .error e := by
  have henc : ∀ p ∈ packages, Package.encode p ≠ [] := fun p _ => p.encode_ne_nil
  have hflat : reads.flatMap Incoming.bytes = (reads.map Incoming.bytes).flatten :=
    List.flatMap_def
  refine ⟨?_, fun id values hvalues => ?_, fun payload hshort => ?_⟩
  · have hread : [] ++ (reads.map Incoming.bytes).flatten <+: packages.flatMap Package.encode := by
      rw [List.nil_append, ← hflat]
      exact hbytes
    obtain ⟨parts, left, tail, hcuts⟩ := exists_cuts henc hread
    have hcut := hcuts.cut (Cut.start henc)
    have hone : ∀ (s : Session) (r : Incoming) (frames : List Package) (held : List UInt8)
        (done left : List Package) (tail : List UInt8),
        s.Holds names frames held → r.Delivers →
        Cut Package.encode frames (held ++ r.bytes) done left tail →
        ∃ out s', s.receiveData r = .ok (out, s') ∧ out = latest names done ∧
          s'.Holds names left tail :=
      fun s r frames held done left tail hs hr hcut =>
        ⟨_, _, Session.receiveData_cut hs hr hcut, rfl, Session.Holds.of_cut hs.wellFormed hcut⟩
    obtain ⟨outs, s, hall, houts, hs⟩ :=
      Cuts.readAll hone hcuts (Session.Holds.of_cut hwf (Cut.start henc)) hreads
    obtain ⟨hsub, hend⟩ := published_sublist names parts
    rw [hs.session, eq_map_of_forall₂ houts] at hall
    refine ⟨parts, left, tail, hcuts, by simpa [hflat] using hcut, hall, hsub.trans ?_, hend⟩
    rw [hcut.frames_eq, samples, samples, List.filterMap_append]
    exact List.sublist_append_left _ _
  · refine ⟨_, OutputRecipe.decode_encode hvalues id, Sample.of_apply _, fun hnodup name value => ?_⟩
    refine Sample.of_eq_some_iff ?_
    rwa [List.map_fst_zip (Nat.le_of_eq hvalues.length_eq)]
  · exact OutputRecipe.decode_short (OutputRecipe.length_new names) hshort

def robotModes : List Package :=
  [.data 1 [.int32 7], .other 77 [0, 85, 3], .data 1 [.int32 5]]

/-- The first read ends in the first package, the second in the last. -/
def robotModeReads : List Incoming :=
  [.data [0, 8, 85, 1, 0], .timedOut, .data [0, 0, 7, 0, 6, 77, 0, 85, 3, 0, 8], .data [85, 1, 0],
    .data [0, 0, 5]]

theorem receive_cut_invariant_robotModes :
    ∃ parts : List (List Package),
      readAll Session.receiveData ⟨true, .new ["robot_mode"], []⟩ robotModeReads =
        .ok (parts.map (latest ["robot_mode"]), ⟨true, .new ["robot_mode"], []⟩) ∧
      (parts.filterMap (latest ["robot_mode"])).getLast? =
        some (Sample.of [("robot_mode", .int32 5)]) ∧
      ∃ sample, (OutputRecipe.new ["robot_mode"]).decode [1, 0, 0, 0, 5] = .ok sample := by
  have hmode : ∀ v, OutputRecipe.Values ["robot_mode"] [.int32 v] := fun v =>
    List.Forall₂.cons ⟨.int32, by decide, trivial⟩ List.Forall₂.nil
  have hwf : ∀ p ∈ robotModes, p.WellFormed ["robot_mode"] := by
    intro p hp
    simp only [robotModes, List.mem_cons, List.not_mem_nil, or_false] at hp
    obtain rfl | rfl | rfl := hp
    · exact ⟨by decide, hmode 7⟩
    · exact ⟨by decide, by decide⟩
    · exact ⟨by decide, hmode 5⟩
  have hreads : ∀ r ∈ robotModeReads, r.Delivers := by
    intro r hr
    simp only [robotModeReads, List.mem_cons, List.not_mem_nil, or_false] at hr
    obtain rfl | rfl | rfl | rfl | rfl := hr <;> simp [Incoming.Delivers]
  have hbytes : robotModeReads.flatMap Incoming.bytes = robotModes.flatMap Package.encode := by
    decide
  obtain ⟨⟨parts, left, tail, -, hcut, hall, -, hend⟩, hdecode, -⟩ :=
    receive_cut_invariant ["robot_mode"] robotModes hwf robotModeReads hreads
      ⟨[], by rw [hbytes, List.append_nil]⟩
  rw [hbytes] at hcut
  obtain ⟨rfl, rfl⟩ := hcut.of_all
  refine ⟨parts, hall, ?_, ?_⟩
  · rw [hend, show parts.flatten = robotModes by simpa using hcut.frames_eq.symm]
    rfl
  · obtain ⟨sample, hsample, -⟩ := hdecode 1 _ (hmode 5)
    exact ⟨sample, hsample⟩

/-- A variable that is registered twice keeps only its second value. -/
theorem decode_duplicate_variable :
    ¬ ∀ (names : List String) (id : UInt8) (values : List Value),
      OutputRecipe.Values names values → ∃ sample,
        (OutputRecipe.new names).decode (id :: values.flatMap Value.encode) = .ok sample ∧
        ∀ name value, (name, value) ∈ names.zip values → sample name = some value := by
  intro hclaim
  have hvalues : OutputRecipe.Values ["payload", "payload"] [.double 1, .double 2] :=
    List.Forall₂.cons ⟨.double, by decide, trivial⟩
      (List.Forall₂.cons ⟨.double, by decide, trivial⟩ List.Forall₂.nil)
  obtain ⟨sample, hsample, hvalue⟩ := hclaim _ 1 _ hvalues
  rw [OutputRecipe.decode_encode hvalues, Except.ok.injEq] at hsample
  have hfirst : sample "payload" = some (.double 1) := hvalue _ _ (by decide)
  rw [← hsample, Sample.of_apply] at hfirst
  exact absurd hfirst (by decide)

end UrRobot
