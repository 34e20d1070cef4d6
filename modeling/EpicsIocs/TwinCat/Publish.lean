import EpicsIocs.Lib.Steps
import EpicsIocs.Lib.Bytes
import Mathlib.Data.List.Basic

/-! # Which sample a parameter ends with

The reader thread takes the PLC's messages in order.  It publishes a notification
itself; a response it hands to the thread that waits for it, which publishes it
later, as the first sample of a refresh or as the value of its own write.  Nothing
orders the two: the reader can publish a newer sample before the thread publishes
its older one, which then stays (`older_sample_stays`).  When no thread publishes
a response after a later message of the same parameter was published, the last
message wins (`last_value_wins`).

`log` is a ghost: the messages of the parameters in the order of the stream. -/

namespace TwinCat

open Steps

/-- The bytes of a sample, as the PLC sends them. -/
abbrev Sample := List UInt8

/-- What a thread publishes when its request is answered. -/
inductive Request where
  | read
  | write (bytes : Sample)
  deriving DecidableEq, Repr

/-- The bytes published for a request the PLC answered with `sample`. -/
def Request.sample (request : Request) (sample : Sample) : Sample :=
  match request with
  | .read => sample
  | .write bytes => bytes

inductive RequestState where
  | waiting
  /-- The response at `position` has been handed over. -/
  | answered (position : Nat) (sample : Sample)
  | ended
  deriving DecidableEq, Repr

/-- One read of `refresh_param` or one `write_scalar`. -/
structure Caller where
  reason : Nat
  request : Request
  state : RequestState
  deriving DecidableEq, Repr

/-- One message of the stream, as far as samples go. -/
inductive Message where
  | notification (handle : UInt32) (sample : Sample)
  /-- `none` is an error. -/
  | response (caller : Nat) (sample : Option Sample)
  deriving DecidableEq, Repr

inductive Stage where
  | received
  | published
  /-- Its caller had given up. -/
  | discarded
  deriving DecidableEq, Repr

/-- A message of a parameter, with the value it decodes to. -/
structure Logged (V : Type) where
  reason : Nat
  /-- The request a response answers; `none` for a notification. -/
  caller : Option Nat
  value : Option V
  stage : Stage
  deriving DecidableEq, Repr

structure Publisher (V : Type) where
  /-- The cached value of each parameter. -/
  value : Nat → Option V
  notifications : List (UInt32 × Nat)
  callers : List Caller
  /-- The notification the reader is about to publish. -/
  reader : Option (Nat × Nat × Sample)
  log : List (Logged V)

inductive PublishAct where
  | subscribe (handle : UInt32) (reason : Nat)
  | unsubscribe (handle : UInt32)
  | call (reason : Nat) (request : Request)
  | receive (message : Message)
  | publishNotification
  | publishReply (caller : Nat)
  | timeout (caller : Nat)
  deriving DecidableEq, Repr

namespace Publisher

variable {V : Type}

def start : Publisher V where
  value := fun _ => none
  notifications := []
  callers := []
  reader := none
  log := []

def setCaller (s : Publisher V) (caller : Nat) (state : RequestState) : Publisher V :=
  { s with callers := s.callers.modify caller fun c => { c with state } }

/-- The message at `position` has come to `stage`. -/
def mark (s : Publisher V) (position : Nat) (stage : Stage) : Publisher V :=
  { s with log := s.log.modify position fun e => { e with stage } }

/-- Decode a sample and cache it; one that does not decode leaves the value. -/
def publish (decode : Nat → Sample → Option V) (s : Publisher V) (reason : Nat)
    (sample : Sample) : Publisher V :=
  match decode reason sample with
  | some v => { s with value := fun r => if r = reason then some v else s.value r }
  | none => s

def receiveStep (decode : Nat → Sample → Option V) (s : Publisher V) :
    Message → Publisher V
  | .notification handle sample =>
    match s.notifications.lookup handle with
    | none => s
    | some reason =>
      { s with
        reader := some (s.log.length, reason, sample)
        log := s.log ++ [⟨reason, none, decode reason sample, .received⟩] }
  | .response caller answer =>
    match s.callers[caller]?, answer with
    | some ⟨reason, request, .waiting⟩, some sample =>
      { s.setCaller caller (.answered s.log.length (request.sample sample)) with
        log := s.log ++ [⟨reason, some caller, decode reason (request.sample sample), .received⟩] }
    | some ⟨_, _, .waiting⟩, none => s.setCaller caller .ended
    -- A late response to a request that was given up.
    | _, _ => s

def step (decode : Nat → Sample → Option V) (s : Publisher V) : PublishAct → Option (Publisher V)
  | .subscribe handle reason =>
    some { s with notifications :=
      (handle, reason) :: s.notifications.filter (·.1 ≠ handle) }
  | .unsubscribe handle =>
    some { s with notifications := s.notifications.filter (·.1 ≠ handle) }
  | .call reason request => some { s with callers := s.callers ++ [⟨reason, request, .waiting⟩] }
  -- The reader takes the next message once it is done with the last.
  | .receive message => if s.reader = none then some (s.receiveStep decode message) else none
  | .publishNotification =>
    match s.reader with
    | some (position, reason, sample) =>
      some { (s.publish decode reason sample).mark position .published with reader := none }
    | none => none
  | .publishReply caller =>
    match s.callers[caller]? with
    | some ⟨reason, _, .answered position sample⟩ =>
      some (((s.publish decode reason sample).mark position .published).setCaller caller .ended)
    | _ => none
  | .timeout caller =>
    match s.callers[caller]? with
    | some ⟨_, _, .waiting⟩ => some (s.setCaller caller .ended)
    | some ⟨_, _, .answered position _⟩ =>
      some ((s.mark position .discarded).setCaller caller .ended)
    | _ => none

/-- The value of a message of the parameter whose stage is one of these. -/
def valueOf (stages : Stage → Bool) (reason : Nat) (e : Logged V) : Option V :=
  if e.reason = reason ∧ stages e.stage then e.value else none

/-- The last value in the stream's order among the messages at these stages. -/
def lastValue (stages : Stage → Bool) (reason : Nat) (log : List (Logged V)) : Option V :=
  (log.filterMap (valueOf stages reason)).getLast?

/-- The value of the parameter's last message, given-up requests apart. -/
def lastMessage (s : Publisher V) (reason : Nat) : Option V :=
  lastValue (· ≠ .discarded) reason s.log

/-- Every message received has been published or given up. -/
def Processed (s : Publisher V) : Prop := ∀ e ∈ s.log, e.stage ≠ .received

/-- A reply is published before any later message of its parameter. -/
def RepliesInOrder (s : Publisher V) : PublishAct → Prop
  | .publishReply caller => ∀ (c : Caller) position sample, s.callers[caller]? = some c →
      c.state = .answered position sample → ∀ (later : Nat) (e : Logged V), position < later →
        s.log[later]? = some e → e.reason = c.reason → e.stage ≠ .published
  | _ => True

structure Inv (decode : Nat → Sample → Option V) (s : Publisher V) : Prop where
  value : ∀ reason, s.value reason = lastValue (· = .published) reason s.log
  reader : ∀ position reason sample, s.reader = some (position, reason, sample) →
    s.log.length = position + 1 ∧
      s.log[position]? = some ⟨reason, none, decode reason sample, .received⟩
  callers : ∀ caller (c : Caller) position sample, s.callers[caller]? = some c →
    c.state = .answered position sample →
      s.log[position]? = some ⟨c.reason, some caller, decode c.reason sample, .received⟩

/-! ## The last value -/

theorem lastValue_append (stages : Stage → Bool) (reason : Nat) (xs ys : List (Logged V)) :
    lastValue stages reason (xs ++ ys) =
      (lastValue stages reason ys).or (lastValue stages reason xs) := by
  rw [lastValue, List.filterMap_append, List.getLast?_append]
  rfl

theorem lastValue_singleton (stages : Stage → Bool) (reason : Nat) (e : Logged V) :
    lastValue stages reason [e] = valueOf stages reason e := by
  unfold lastValue
  rw [List.filterMap_cons]
  cases valueOf stages reason e <;> rfl

/-- Messages at none of the stages have no last value. -/
theorem lastValue_none {stages : Stage → Bool} {reason : Nat} {log : List (Logged V)}
    (h : ∀ e ∈ log, e.reason = reason → stages e.stage = false) :
    lastValue stages reason log = none := by
  rw [lastValue, List.getLast?_eq_none_iff, List.filterMap_eq_nil_iff]
  intro e he
  rw [valueOf, if_neg]
  rintro ⟨hreason, hstage⟩
  rw [h e he hreason] at hstage
  cases hstage

theorem lastValue_congr {stages stages' : Stage → Bool} {reason : Nat} {log : List (Logged V)}
    (h : ∀ e ∈ log, stages e.stage = stages' e.stage) :
    lastValue stages reason log = lastValue stages' reason log := by
  unfold lastValue
  congr 1
  refine List.filterMap_congr fun e he => ?_
  rw [valueOf, valueOf, h e he]

theorem lastValue_middle (stages : Stage → Bool) (reason : Nat) (xs ys : List (Logged V))
    (e : Logged V) : lastValue stages reason (xs ++ e :: ys) =
      (lastValue stages reason ys).or
        ((valueOf stages reason e).or (lastValue stages reason xs)) := by
  rw [show e :: ys = [e] ++ ys from rfl, lastValue_append, lastValue_append, lastValue_singleton,
    Option.or_assoc]

/-- A message of the log, with what is before and behind it. -/
theorem split_at {log : List (Logged V)} {position : Nat} {e : Logged V}
    (he : log[position]? = some e) : ∃ xs ys, log = xs ++ e :: ys ∧ xs.length = position ∧
      ∀ stage, log.modify position (fun e => { e with stage }) = xs ++ { e with stage } :: ys := by
  obtain ⟨hlt, rfl⟩ := List.getElem?_eq_some_iff.1 he
  refine ⟨log.take position, log.drop (position + 1), ?_, ?_, fun stage => ?_⟩
  · rw [List.getElem_cons_drop, List.take_append_drop]
  · rw [List.length_take]
    omega
  · exact List.modify_eq_take_cons_drop hlt

/-- A message that is published becomes the last of its parameter when none behind
it was published. -/
theorem lastValue_publish {log : List (Logged V)} {position : Nat} {e : Logged V}
    (he : log[position]? = some e) (hstage : e.stage = .received)
    (hlast : ∀ (later : Nat) (e' : Logged V), position < later → log[later]? = some e' →
      e'.reason = e.reason → e'.stage ≠ .published) (reason : Nat) :
    lastValue (· = .published) reason (log.modify position fun e => { e with stage := .published }) =
      if reason = e.reason then e.value.or (lastValue (· = .published) reason log)
      else lastValue (· = .published) reason log := by
  obtain ⟨xs, ys, hlog, hlen, hmodify⟩ := split_at he
  rw [hmodify, lastValue_middle, hlog, lastValue_middle]
  by_cases hreason : reason = e.reason
  · subst hreason
    have hbehind : lastValue (· = .published) e.reason ys = none := by
      refine lastValue_none fun e' he' hr => decide_eq_false ?_
      obtain ⟨k, hk⟩ := List.mem_iff_getElem?.1 he'
      refine hlast (position + 1 + k) e' (by omega) ?_ hr
      rw [hlog, List.getElem?_append_right (by omega),
        show position + 1 + k - xs.length = k + 1 by omega, List.getElem?_cons_succ]
      exact hk
    simp [hbehind, valueOf, hstage]
  · simp [valueOf, hreason, Ne.symm hreason]

/-- A message that is given up was not published. -/
theorem lastValue_discard {log : List (Logged V)} {position : Nat} {e : Logged V}
    (he : log[position]? = some e) (hstage : e.stage = .received) (reason : Nat) :
    lastValue (· = .published) reason (log.modify position fun e => { e with stage := .discarded }) =
      lastValue (· = .published) reason log := by
  obtain ⟨xs, ys, hlog, -, hmodify⟩ := split_at he
  rw [hmodify, lastValue_middle, hlog, lastValue_middle]
  simp [valueOf, hstage]

/-- A message just received is not published. -/
theorem lastValue_receive (log : List (Logged V)) (e : Logged V) (hstage : e.stage = .received)
    (reason : Nat) : lastValue (· = .published) reason (log ++ [e]) =
      lastValue (· = .published) reason log := by
  rw [lastValue_append, lastValue_singleton]
  simp [valueOf, hstage]

theorem publish_value (decode : Nat → Sample → Option V) (s : Publisher V) (reason : Nat)
    (sample : Sample) (r : Nat) : (s.publish decode reason sample).value r =
      if r = reason then (decode reason sample).or (s.value r) else s.value r := by
  unfold publish
  cases decode reason sample with
  | none => simp
  | some v => by_cases hr : r = reason <;> simp [hr]

@[simp] theorem publish_log (decode : Nat → Sample → Option V) (s : Publisher V) (reason : Nat)
    (sample : Sample) : (s.publish decode reason sample).log = s.log := by
  unfold publish
  cases decode reason sample <;> rfl

@[simp] theorem publish_callers (decode : Nat → Sample → Option V) (s : Publisher V) (reason : Nat)
    (sample : Sample) : (s.publish decode reason sample).callers = s.callers := by
  unfold publish
  cases decode reason sample <;> rfl

@[simp] theorem publish_reader (decode : Nat → Sample → Option V) (s : Publisher V) (reason : Nat)
    (sample : Sample) : (s.publish decode reason sample).reader = s.reader := by
  unfold publish
  cases decode reason sample <;> rfl

/-! ## Steps -/

variable {decode : Nat → Sample → Option V} {s : Publisher V}

theorem start_inv : (start : Publisher V).Inv decode where
  value := fun _ => rfl
  reader := nofun
  callers := nofun

/-- A caller that changes its state without an answer takes no message. -/
theorem getElem?_setCaller {caller k : Nat} {state : RequestState} {c : Caller}
    (h : (s.setCaller caller state).callers[k]? = some c) :
    k = caller ∧ c.state = state ∨ k ≠ caller ∧ s.callers[k]? = some c := by
  simp only [setCaller, List.getElem?_modify] at h
  obtain ⟨c0, hc0, heq⟩ := Option.map_eq_some_iff.1 h
  by_cases hk : caller = k
  · rw [if_pos hk] at heq
    exact .inl ⟨hk.symm, by rw [← heq]⟩
  · rw [if_neg hk] at heq
    cases heq
    exact .inr ⟨Ne.symm hk, hc0⟩

theorem Inv.setEnded (h : s.Inv decode) (caller : Nat) : (s.setCaller caller .ended).Inv decode where
  value := h.value
  reader := h.reader
  callers := by
    intro k c position sample hc hstate
    obtain ⟨-, hended⟩ | ⟨-, hold⟩ := getElem?_setCaller hc
    · rw [hended] at hstate
      cases hstate
    · exact h.callers k c position sample hold hstate

/-- Marking one message leaves another's entry. -/
theorem getElem?_mark {position k : Nat} (stage : Stage) {e e' : Logged V}
    (he : s.log[position]? = some e) (he' : s.log[k]? = some e') (hne : e'.caller ≠ e.caller) :
    (s.mark position stage).log[k]? = some e' := by
  have hk : position ≠ k := by
    rintro rfl
    rw [he] at he'
    cases he'
    exact hne rfl
  simp [mark, hk, he']

theorem Inv.receive (h : s.Inv decode) (hreader : s.reader = none) (message : Message) :
    (s.receiveStep decode message).Inv decode := by
  have happend : ∀ (e : Logged V) (k : Nat) (e' : Logged V), s.log[k]? = some e' →
      (s.log ++ [e])[k]? = some e' := fun e k e' he' => by
    rw [List.getElem?_append_left (List.getElem?_eq_some_iff.1 he').1]
    exact he'
  have hnoReader : ∀ p, s.reader ≠ some p := by
    intro p hp
    rw [hreader] at hp
    cases hp
  unfold receiveStep
  split
  next handle sample =>
    split
    · exact h
    next reason _ =>
      refine ⟨fun r => (h.value r).trans (lastValue_receive _ _ rfl r).symm, ?_, ?_⟩
      · rintro position r sample' ⟨⟩
        exact ⟨List.length_append, List.getElem?_concat_length⟩
      · exact fun k c position sample' hc hstate =>
          happend _ _ _ (h.callers k c position sample' hc hstate)
  next caller answer =>
    split
    next reason request sample hcaller =>
      refine ⟨fun r => (h.value r).trans (lastValue_receive _ _ rfl r).symm,
        fun position r sample' hr => absurd hr (hnoReader _), ?_⟩
      intro k c position sample' hc hstate
      simp only [setCaller, List.getElem?_modify] at hc
      obtain ⟨c0, hc0, heq⟩ := Option.map_eq_some_iff.1 hc
      by_cases hk : caller = k
      · subst hk
        rw [hcaller] at hc0
        cases hc0
        rw [if_pos rfl] at heq
        subst heq
        cases hstate
        exact List.getElem?_concat_length
      · rw [if_neg hk] at heq
        cases heq
        exact happend _ _ _ (h.callers k _ position sample' hc0 hstate)
    next => exact h.setEnded caller
    next => exact h

theorem Inv.publishNotification (h : s.Inv decode) {position reason : Nat} {sample : Sample}
    (hreader : s.reader = some (position, reason, sample)) :
    ({ (s.publish decode reason sample).mark position .published with reader := none } :
      Publisher V).Inv decode := by
  obtain ⟨hlen, hentry⟩ := h.reader position reason sample hreader
  refine ⟨fun r => ?_, nofun, fun k c p sample' hc hstate => ?_⟩
  · -- The reader is at the end of the log: nothing behind it is published.
    have hlast : ∀ (later : Nat) (e' : Logged V), position < later → s.log[later]? = some e' →
        e'.reason = reason → e'.stage ≠ .published := fun later e' hlt he' => by
      have := (List.getElem?_eq_some_iff.1 he').1
      omega
    have hpublish := lastValue_publish hentry rfl hlast r
    simp only [mark, publish_value, publish_log] at hpublish ⊢
    rw [hpublish, h.value r]
  · simp only [mark, publish_callers] at hc
    have hold := h.callers k c p sample' hc hstate
    simpa [mark] using getElem?_mark .published hentry hold (by simp)

/-- The message of an answered caller comes to its end. -/
theorem Inv.endReply (h : s.Inv decode) {caller : Nat} {c : Caller} {position : Nat}
    {sample : Sample} (hc : s.callers[caller]? = some c) (hstate : c.state = .answered position sample)
    {s' : Publisher V} {stage : Stage} (hlog : s'.log = s.log) (hcallers : s'.callers = s.callers)
    (hreader : s'.reader = s.reader)
    (hvalue : ∀ r, s'.value r = lastValue (· = .published) r
      (s.log.modify position fun e => { e with stage })) :
    ((s'.mark position stage).setCaller caller .ended).Inv decode := by
  have hentry := h.callers caller c position sample hc hstate
  refine ⟨fun r => ?_, fun p reason' sample' hr => ?_, fun k c' p sample' hc' hstate' => ?_⟩
  · simp only [setCaller, mark, hlog]
    exact hvalue r
  · obtain ⟨hlen, hold⟩ := h.reader p reason' sample' (hreader.symm.trans hr)
    refine ⟨by simpa [setCaller, mark, hlog] using hlen, ?_⟩
    simpa [setCaller, mark, hlog] using getElem?_mark stage hentry hold (by simp)
  · obtain ⟨-, hended⟩ | ⟨hne, hold⟩ := getElem?_setCaller hc'
    · rw [hended] at hstate'
      cases hstate'
    · have hold := h.callers k c' p sample' (by simpa [mark, hcallers] using hold) hstate'
      simpa [setCaller, mark, hlog] using
        getElem?_mark stage hentry hold (by simpa using hne)

theorem step_inv {s' : Publisher V} {a : PublishAct} (h : s.Inv decode)
    (hs : s.step decode a = some s') (horder : s.RepliesInOrder a) : s'.Inv decode := by
  cases a with
  | subscribe handle reason => cases hs; exact ⟨h.value, h.reader, h.callers⟩
  | unsubscribe handle => cases hs; exact ⟨h.value, h.reader, h.callers⟩
  | call reason request =>
    cases hs
    refine ⟨h.value, h.reader, fun k c position sample hc hstate => ?_⟩
    rw [List.getElem?_append] at hc
    split at hc
    · exact h.callers k c position sample hc hstate
    · rw [List.getElem?_singleton] at hc
      split at hc
      · cases hc
        cases hstate
      · cases hc
  | receive message =>
    obtain ⟨hreader, heq⟩ := Option.ite_none_right_eq_some.1 hs
    cases heq
    exact h.receive hreader message
  | publishNotification =>
    simp only [step] at hs
    split at hs
    next position reason sample hreader =>
      cases hs
      exact h.publishNotification hreader
    next => cases hs
  | publishReply caller =>
    simp only [step] at hs
    split at hs
    next reason request position sample hc =>
      cases hs
      have hentry := h.callers caller _ position sample hc rfl
      refine h.endReply hc rfl (publish_log ..) (publish_callers ..) (publish_reader ..) fun r => ?_
      rw [lastValue_publish hentry rfl (horder _ position sample hc rfl), publish_value, h.value r]
    next => cases hs
  | timeout caller =>
    simp only [step] at hs
    split at hs
    next => cases hs; exact h.setEnded caller
    next reason request position sample hc =>
      cases hs
      have hentry := h.callers caller _ position sample hc rfl
      exact h.endReply hc rfl rfl rfl rfl fun r =>
        (h.value r).trans (lastValue_discard hentry rfl r).symm
    next => cases hs

/-- Once everything is processed, the last published message is the last. -/
theorem Inv.processed (h : s.Inv decode) (hp : s.Processed) (reason : Nat) :
    s.value reason = s.lastMessage reason := by
  rw [h.value reason]
  refine lastValue_congr fun e he => ?_
  have := hp e he
  cases hstage : e.stage <;> simp_all

end Publisher

/-! ## Runs -/

def publishSystem {V : Type} (decode : Nat → Sample → Option V) :
    System (Publisher V) PublishAct :=
  System.ofFun (· = .start) (Publisher.step decode)

/-- **Last value wins.**  In a run that publishes each reply before any later message
of its parameter, the cached value of every parameter is that of its last message in
the stream's order, once all messages received are processed. -/
theorem last_value_wins {V : Type} (decode : Nat → Sample → Option V) :
    ∀ s, ((publishSystem decode).restrict Publisher.RepliesInOrder).Reachable s → s.Processed →
      ∀ reason, s.value reason = s.lastMessage reason := by
  intro s hs hprocessed reason
  have hinv : s.Inv decode := by
    refine hs.invariant ?_ ?_
    · rintro s rfl
      exact Publisher.start_inv
    · rintro s a t hs ⟨hstep, horder⟩
      exact Publisher.step_inv hs hstep horder
  exact hinv.processed hprocessed reason

/-- A byte, as a number. -/
def decodeByte (_ : Nat) (sample : Sample) : Option Nat := sample.head?.map (·.toNat)

/-- A subscribed parameter is read, and the PLC pushes a change behind the response. -/
def readThenPush : List PublishAct :=
  [.subscribe 5 1, .call 1 .read, .receive (.response 0 (some [1])),
    .receive (.notification 5 [2])]

/-- The reader publishes the change before the thread publishes what it read. -/
theorem older_sample_stays :
    ∃ s, (publishSystem decodeByte).Reachable s ∧ s.Processed ∧ s.value 1 = some 1 ∧
      s.lastMessage 1 = some 2 := by
  let as : List PublishAct := readThenPush ++ [.publishNotification, .publishReply 0]
  have hrun : (as.foldlM (Publisher.step decodeByte) .start).map (fun s =>
        (s.log.all fun e => decide (e.stage ≠ .received), s.value 1, s.lastMessage 1)) =
      some (true, some 1, some 2) := by decide +kernel
  obtain ⟨s, hs, hview⟩ := Option.map_eq_some_iff.1 hrun
  simp only [Prod.mk.injEq, List.all_eq_true, decide_eq_true_eq] at hview
  exact ⟨s, System.reachable_ofFun rfl hs, hview.1, hview.2.1, hview.2.2⟩

/-- The thread publishes what it read first. -/
theorem last_value_wins_inOrder :
    ∃ s : Publisher Nat, s.value 1 = some 2 ∧ s.value 1 = s.lastMessage 1 := by
  have hrun : (((readThenPush.foldlM (Publisher.step decodeByte) .start).bind fun s =>
      (s.step decodeByte (.publishReply 0)).bind fun t =>
        (t.step decodeByte .publishNotification).map fun u =>
          ((s.callers, s.log.map (·.stage)), u.log.all fun e => decide (e.stage ≠ .received),
            u.value 1))) =
      some (([⟨1, .read, .answered 0 [1]⟩], [.received, .received]), true, some 2) := by
    decide +kernel
  obtain ⟨s, hs, hrun⟩ := Option.bind_eq_some_iff.1 hrun
  obtain ⟨t, ht, hrun⟩ := Option.bind_eq_some_iff.1 hrun
  obtain ⟨u, hu, hview⟩ := Option.map_eq_some_iff.1 hrun
  simp only [Prod.mk.injEq, List.all_eq_true, decide_eq_true_eq] at hview
  obtain ⟨⟨-, hstages⟩, hprocessed, hvalue⟩ := hview
  have hguard : ∀ a ∈ readThenPush, ∀ s : Publisher Nat, s.RepliesInOrder a := by
    simp [readThenPush, Publisher.RepliesInOrder]
  have horder : s.RepliesInOrder (.publishReply 0) := by
    intro c position sample _ _ later e _ he _ hpublished
    have hmem := List.mem_map_of_mem (f := Logged.stage) (List.mem_of_getElem? he)
    rw [hstages, hpublished] at hmem
    simp at hmem
  have hstart : ((publishSystem decodeByte).restrict Publisher.RepliesInOrder).Reachable .start :=
    System.Reachable.init rfl
  have hreply : ((publishSystem decodeByte).restrict Publisher.RepliesInOrder).step s
      (.publishReply 0) t := ⟨ht, horder⟩
  have hpush : ((publishSystem decodeByte).restrict Publisher.RepliesInOrder).step t
      .publishNotification u := ⟨hu, trivial⟩
  have hreach := ((hstart.run ((System.run_ofFun hs).restrict hguard)).step hreply).step hpush
  exact ⟨u, hvalue, last_value_wins decodeByte u hreach hprocessed 1⟩

end TwinCat
