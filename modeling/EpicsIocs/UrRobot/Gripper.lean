import EpicsIocs.Lib.Ints
import EpicsIocs.Lib.Replies
import EpicsIocs.Lib.Steps
import EpicsIocs.Lib.Text
import EpicsIocs.UrRobot.Receive

/-! # Requests to the gripper

`transact`, `get_var` and `set_vars` of `gripper.rs` on one socket, and a gripper that answers every
request with one line, in order, but when it likes.  Replies carry no identity; a call takes the
first line there is.

A call whose read fails leaves its reply to a later call: each call takes the reply to the request
that many before its own as calls of the connection have failed to read (`reply_pairing`). -/

namespace UrRobot.Gripper

open Ints Replies Steps Text

/-! ## The replies -/

/-- Texts of the standard library that get into messages: `{:?}` of a text, and the error of
`String::from_utf8`. -/
structure Std where
  debug : String → String
  utf8Error : List UInt8 → String

inductive Request where
  | getVar (var : String)
  | setVars (vars : List (String × Int))
  deriving DecidableEq, Repr

def Request.text : Request → String
  | getVar var => s!"GET {var}\n"
  | setVars vars =>
    "SET" ++ String.join (vars.map fun v => " " ++ v.1 ++ " " ++ String.ofList (decimal v.2)) ++ "\n"

/-- What a call returns. -/
inductive Value where
  | int (v : Int)
  | ack
  deriving DecidableEq, Repr

section
variable (std : Std)

/-- `get_var` from its reply on. -/
def parseVar (var : String) (reply : String) : Except UrError Value :=
  match splitWhitespace reply.toList with
  | [] => .error (.protocol "gripper sent an empty response")
  | first :: fields =>
    let name := String.ofList first
    if name ≠ var then .error (.protocol s!"gripper answered '{name}' to a GET of '{var}'")
    else
      match fields with
      | [] =>
        let quoted := std.debug reply
        .error (.protocol s!"gripper sent no value for '{var}': {quoted}")
      | field :: _ =>
        if field.head? = some '?' then
          .error (.protocol "reading gripper values is not possible in the current device state")
        else
          match int32.parse field with
          | some v => .ok (.int v)
          | none =>
            let quoted := std.debug (String.ofList field)
            .error (.protocol s!"gripper sent a non-integer '{var}' value: {quoted}")

/-- `set_vars` from its reply on. -/
def parseAck (request : Request) (reply : String) : Except UrError Value :=
  if trim reply.toList = "ack".toList then .ok .ack
  else
    let sent := String.ofList (trim request.text.toList)
    let quoted := std.debug reply
    .error (.protocol s!"gripper did not ack '{sent}': {quoted}")

/-- A call from the line on that `transact` has taken. -/
def finish (request : Request) (line : List UInt8) : Except UrError Value :=
  match String.fromUTF8? ⟨line.toArray⟩ with
  | none =>
    let reason := std.utf8Error line
    .error (.protocol s!"gripper sent non-UTF-8: {reason}")
  | some reply =>
    match request with
    | .getVar var => parseVar std var reply
    | .setVars _ => parseAck std request reply

end

/-! ## The connection -/

def newline : UInt8 := 10

/-- A call in its read loop. -/
structure Call where
  request : Request
  /-- Of its request, counted over all connections. -/
  number : Nat
  /-- The calls of the connection that had failed to read when it sent the request. -/
  failedBefore : Nat
  deriving DecidableEq, Repr

structure Returned where
  call : Call
  /-- The request whose reply it took. -/
  answeredBy : Option Nat
  result : Except UrError Value

/-- Client, network and gripper. -/
structure State where
  connected : Bool
  recv : List (Octet UInt8)
  /-- Written by the gripper and not yet read, on the way or in the kernel. -/
  flight : List (Octet UInt8)
  /-- The requests that the gripper has still to answer. -/
  queue : List Nat
  waiting : Option Call
  /-- How many requests have been sent. -/
  sent : Nat
  /-- The calls of the connection that have failed to read. -/
  failed : Nat
  log : List Returned

inductive Act where
  | connect
  | disconnect
  /-- A call that sends its request. -/
  | call (request : Request)
  /-- A call that cannot: there is no connection, or the write fails. -/
  | refused (request : Request)
  /-- The call's `read` returns so many bytes. -/
  | read (n : Nat)
  /-- The call's `read` fails, as it does when the time is up, or returns no byte. -/
  | readFails (error : Option String)
  /-- The call takes a line. -/
  | take
  /-- The gripper answers the oldest request. -/
  | answer (text : List UInt8)
  deriving DecidableEq, Repr

def State.start : State where
  connected := false
  recv := []
  flight := []
  queue := []
  waiting := none
  sent := 0
  failed := 0
  log := []

namespace State

/-- `connect` and `disconnect` clear `recv`; what was under way on the old socket is lost. -/
def reset (s : State) (connected : Bool) : State :=
  { s with connected, recv := [], flight := [], queue := [], failed := 0 }

/-- Calls are made one at a time; a call looks for a line in `recv` before it reads. -/
def step (std : Std) (s : State) : Act → Option State
  | .connect => if s.waiting.isNone then some (s.reset true) else none
  | .disconnect => if s.waiting.isNone then some (s.reset false) else none
  | .call request =>
    if s.waiting.isNone && s.connected then
      some { s with
        waiting := some ⟨request, s.sent, s.failed⟩, queue := s.queue ++ [s.sent], sent := s.sent + 1 }
    else none
  | .refused _ => if s.waiting.isNone then some s else none
  | .read n =>
    if s.waiting.isSome && (takeLine (· == newline) s.recv).isNone && 0 < n && n ≤ 1024 &&
        n ≤ s.flight.length then
      some { s with recv := s.recv ++ s.flight.take n, flight := s.flight.drop n }
    else none
  | .readFails error =>
    match s.waiting, takeLine (· == newline) s.recv with
    | some call, none =>
      let text :=
        match error with
        | some e => s!"gripper read: {e}"
        | none => "gripper connection closed by peer"
      some { s with waiting := none, failed := s.failed + 1,
                    log := s.log ++ [⟨call, none, .error (.io text)⟩] }
    | _, _ => none
  | .take =>
    match s.waiting, takeLine (· == newline) s.recv with
    | some call, some (line, rest) =>
      let result := finish std call.request (line.dropLast.map Octet.value)
      some { s with waiting := none, recv := rest,
                    log := s.log ++ [⟨call, line.getLast?.map Octet.request, result⟩] }
    | _, _ => none
  | .answer text =>
    match s.queue with
    | [] => none
    | n :: queue =>
      if newline ∈ text then none
      else some { s with queue, flight := s.flight ++ (text.map (⟨·, n⟩) ++ [⟨newline, n⟩]) }

end State

def gripperSystem (std : Std) : System State Act :=
  System.ofFun (fun s => s = .start) (State.step std)

/-! ## Replies owed -/

/-- The call took the reply to the request `failedBefore` before its own; without a reply it is an
error. -/
structure Returned.Shifted (r : Returned) : Prop where
  number : ∀ m, r.answeredBy = some m → m + r.call.failedBefore = r.call.number
  unanswered : r.answeredBy = none → ∃ e, r.result = .error e

namespace State

/-- How many replies of the connection have not been taken. -/
def owed (s : State) : Nat := s.failed + if s.waiting.isSome then 1 else 0

/-- What is in `recv` and on the way are the replies to the oldest requests that are owed one, and
the gripper has still to answer the others. -/
structure Sound (s : State) : Prop where
  stream : ∃ ns, Holds (· == newline) ns (s.recv ++ s.flight) ∧
    ns ++ s.queue = List.range' (s.sent - s.owed) s.owed
  owed_le : s.owed ≤ s.sent
  waiting : ∀ call, s.waiting = some call → call.number + 1 = s.sent ∧ call.failedBefore = s.failed
  log : ∀ r ∈ s.log, r.Shifted

theorem Sound.start : State.start.Sound where
  stream := ⟨[], .nil, rfl⟩
  owed_le := Nat.le_refl 0
  waiting := fun call h => by cases h
  log := fun r h => absurd h List.not_mem_nil

variable {s s' : State} {std : Std}

/-- A new connection owes nothing. -/
theorem Sound.reset (h : s.Sound) (hidle : s.waiting.isNone = true) (connected : Bool) :
    (s.reset connected).Sound := by
  have hnone : s.waiting = none := Option.isNone_iff_eq_none.1 hidle
  have howed : (s.reset connected).owed = 0 := by
    simp [owed, State.reset, hnone]
  refine ⟨⟨[], .nil, ?_⟩, ?_, ?_, h.log⟩
  · rw [howed]
    rfl
  · rw [howed]
    exact Nat.zero_le _
  · intro call hcall
    rw [State.reset, hnone] at hcall
    cases hcall

theorem Sound.log_snoc (h : s.Sound) {r : Returned} (hr : r.Shifted) :
    ∀ r' ∈ s.log ++ [r], r'.Shifted := by
  intro r' hr'
  rcases List.mem_append.1 hr' with hr' | hr'
  · exact h.log r' hr'
  · rwa [List.mem_singleton.1 hr']

theorem Sound.step (h : s.Sound) {a : Act} (hstep : State.step std s a = some s') : s'.Sound := by
  obtain ⟨ns, hholds, hnumbers⟩ := h.stream
  have hle := h.owed_le
  cases a with
  | connect =>
    obtain ⟨hidle, heq⟩ := Option.ite_none_right_eq_some.1 hstep
    cases heq
    exact h.reset hidle true
  | disconnect =>
    obtain ⟨hidle, heq⟩ := Option.ite_none_right_eq_some.1 hstep
    cases heq
    exact h.reset hidle false
  | call request =>
    obtain ⟨hidle, heq⟩ := Option.ite_none_right_eq_some.1 hstep
    cases heq
    rw [Bool.and_eq_true, Option.isNone_iff_eq_none] at hidle
    have howed : s.owed = s.failed := by simp [owed, hidle.1]
    rw [howed] at hle hnumbers
    refine ⟨⟨ns, hholds, ?_⟩, ?_, ?_, h.log⟩
    · show ns ++ (s.queue ++ [s.sent]) = List.range' (s.sent + 1 - (s.failed + 1)) (s.failed + 1)
      rw [← List.append_assoc, hnumbers, List.range'_concat, Nat.one_mul]
      congr 2
      · omega
      · omega
    · exact Nat.succ_le_succ hle
    · intro call hcall
      cases hcall
      exact ⟨rfl, rfl⟩
  | refused request =>
    obtain ⟨-, heq⟩ := Option.ite_none_right_eq_some.1 hstep
    cases heq
    exact h
  | read n =>
    obtain ⟨-, heq⟩ := Option.ite_none_right_eq_some.1 hstep
    cases heq
    refine ⟨⟨ns, ?_, hnumbers⟩, hle, h.waiting, h.log⟩
    rwa [List.append_assoc, List.take_append_drop]
  | readFails error =>
    simp only [State.step] at hstep
    split at hstep
    · next call hcall htake =>
      cases hstep
      have howed : s.owed = s.failed + 1 := by simp [owed, hcall]
      rw [howed] at hle hnumbers
      refine ⟨⟨ns, hholds, hnumbers⟩, hle, ?_, ?_⟩
      · intro call h
        cases h
      · refine h.log_snoc ⟨?_, ?_⟩
        · intro m hm
          cases hm
        · intro _
          exact ⟨_, rfl⟩
    · cases hstep
  | take =>
    simp only [State.step] at hstep
    split at hstep
    · next call line rest hcall htake =>
      cases hstep
      obtain ⟨hnumber, hbefore⟩ := h.waiting call hcall
      have howed : s.owed = s.failed + 1 := by simp [owed, hcall]
      rw [howed] at hle hnumbers
      obtain ⟨n, ns', rfl, hreply, hrest⟩ := hholds.takeLine htake
      -- The reply taken is the oldest one owed.
      rw [List.range'_succ, List.cons_append] at hnumbers
      obtain ⟨rfl, hothers⟩ := List.cons.inj hnumbers
      refine ⟨⟨ns', hrest, ?_⟩, ?_, ?_, ?_⟩
      · show ns' ++ s.queue = List.range' (s.sent - s.failed) s.failed
        rw [hothers]
        congr 1
        omega
      · exact (Nat.le_succ _).trans hle
      · intro call h
        cases h
      · refine h.log_snoc ⟨?_, ?_⟩
        · intro m hm
          obtain rfl := Option.some.inj (hreply.request_eq.symm.trans hm)
          show s.sent - (s.failed + 1) + call.failedBefore = call.number
          omega
        · intro hm
          exact absurd (hreply.request_eq.symm.trans hm) (by simp)
    · cases hstep
  | answer text =>
    simp only [State.step] at hstep
    split at hstep
    · cases hstep
    · next n queue hqueue =>
      obtain ⟨htext, heq⟩ := Option.ite_none_left_eq_some.1 hstep
      cases heq
      have hclean : ∀ c ∈ text, (c == newline) = false := by
        intro c hc
        rw [beq_eq_false_iff_ne]
        rintro rfl
        exact htext hc
      refine ⟨⟨ns ++ [n], ?_, ?_⟩, hle, h.waiting, h.log⟩
      · rw [← List.append_assoc]
        exact hholds.snoc (.intro text newline hclean (beq_self_eq_true _))
      · rw [hqueue] at hnumbers
        rw [List.append_assoc]
        exact hnumbers

theorem sound (h : (gripperSystem std).Reachable s) : s.Sound := by
  refine h.invariant ?_ fun s a s' hs hstep => hs.step hstep
  rintro s rfl
  exact .start

end State

/-! ## Pairing -/

/-- In every run, a call that returns Ok took the reply to a request of its connection, the one as
many before its own as calls had failed to read: its own exactly if none had. -/
theorem reply_pairing (std : Std) {s : State} (h : (gripperSystem std).Reachable s) :
    ∀ r ∈ s.log, ∀ v, r.result = .ok v →
      ∃ m, r.answeredBy = some m ∧ m + r.call.failedBefore = r.call.number ∧
        (m = r.call.number ↔ r.call.failedBefore = 0) := by
  intro r hr v hv
  have hshifted := (State.sound h).log r hr
  cases hanswer : r.answeredBy with
  | none =>
    obtain ⟨e, he⟩ := hshifted.unanswered hanswer
    rw [hv] at he
    cases he
  | some m =>
    have hnumber := hshifted.number m hanswer
    refine ⟨m, rfl, hnumber, ?_⟩
    omega

/-- What is seen of a call: its number, the request whose reply it took, and its value. -/
def Returned.seen (r : Returned) : Nat × Option Nat × Option Value :=
  (r.call.number, r.answeredBy, r.result.toOption)

def plain : Std := ⟨id, fun _ => ""⟩

/-- A run that ends with these calls returned. -/
def Reaches (acts : List Act) (calls : List (Nat × Option Nat × Option Value)) : Prop :=
  ∃ s, (gripperSystem plain).Reachable s ∧ acts.foldlM (State.step plain) .start = some s ∧
    s.log.map Returned.seen = calls

theorem reaches {acts : List Act} {calls : List (Nat × Option Nat × Option Value)}
    (h : (acts.foldlM (State.step plain) .start).map (fun s => s.log.map Returned.seen) =
      some calls) : Reaches acts calls := by
  obtain ⟨s, hs, hlog⟩ := Option.map_eq_some_iff.1 h
  exact ⟨s, System.reachable_ofFun rfl hs, hs, hlog⟩

/-- `ack` in two parts. -/
theorem reply_pairing_split :
    ∃ s, (gripperSystem plain).Reachable s ∧ s.log.map Returned.seen = [(0, some 0, some .ack)] ∧
      ∀ r ∈ s.log, ∀ v, r.result = .ok v → ∃ m, r.answeredBy = some m ∧
        m + r.call.failedBefore = r.call.number ∧
        (m = r.call.number ↔ r.call.failedBefore = 0) := by
  obtain ⟨s, hs, -, hlog⟩ : Reaches [.connect, .call (.setVars [("ACT", 1)]),
      .answer [97, 99, 107], .read 2, .read 2, .take] [(0, some 0, some .ack)] :=
    reaches (by decide +kernel)
  exact ⟨s, hs, hlog, reply_pairing plain hs⟩

/-- The read of a call times out; the next one takes its late reply, an `ack` or the old value. -/
theorem late_reply_taken :
    Reaches [.connect, .call (.setVars [("ACT", 0)]), .readFails (some "timed out"),
      .call (.setVars [("ACT", 1)]), .answer [97, 99, 107], .read 4, .take]
      [(0, none, none), (1, some 0, some .ack)] ∧
    Reaches [.connect, .call (.getVar "POS"), .readFails (some "timed out"),
      .answer [80, 79, 83, 32, 51], .call (.getVar "POS"), .read 6, .take]
      [(0, none, none), (1, some 0, some (.int 3))] :=
  ⟨reaches (by decide +kernel), reaches (by decide +kernel)⟩

end UrRobot.Gripper
