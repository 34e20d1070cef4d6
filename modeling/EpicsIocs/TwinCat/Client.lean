import EpicsIocs.TwinCat.Frame
import EpicsIocs.Lib.Steps

/-!
# Request correlation (`ads/client.rs`)

Any number of threads are inside `AdsClient::request`, the reader thread
demultiplexes what the PLC sends, and `tear_down` may run at any time.  A step is
what one thread does under one lock; the PLC may send any bytes, and a write to
the socket completes or fails.

Ghosts: every frame the reader correlated (`frames`), where a reply came from
(`Reply.frame`), how many invoke ids were drawn before a call's (`Call.draw`),
and what a call returned (`Call.returned`).

    reachable s → s.Correct                                  (request_correlation)
    a call in progress can always step, at most six times    (own_step, rank_step)
-/

namespace TwinCat

open Bytes Steps

/-! ## Calls, the reader and the pending map -/

/-- What a caller receives; `frame` is the received frame it came from. -/
structure Reply where
  value : Except AdsError (List UInt8)
  frame : Option Nat := none

/-- Where a thread is in `request`. -/
inductive CallPc
  | entered
  | checked
  | drawn
  | inserted
  | sendFailed (e : AdsError)
  | waiting
  | timedOut
  | returned
deriving DecidableEq

namespace CallPc

/-- The slot may be in the pending map. -/
def registered : CallPc → Bool
  | inserted | sendFailed _ | waiting | timedOut => true
  | _ => false

/-- The slot has not been in the pending map yet. -/
def early : CallPc → Bool
  | entered | checked | drawn => true
  | _ => false

theorem not_early {pc : CallPc} (h : pc.registered) : pc.early = false := by
  cases pc <;> first | rfl | cases h

theorem ne_returned {pc : CallPc} (h : pc.registered) : pc ≠ .returned := by
  rintro rfl
  cases h

/-- Steps the call still takes at most. -/
def rank : CallPc → Nat
  | entered => 6
  | checked => 5
  | drawn => 4
  | inserted => 3
  | waiting => 2
  | sendFailed _ | timedOut => 1
  | returned => 0

end CallPc

structure Call where
  pc : CallPc := .entered
  id : UInt32 := 0
  /-- How many ids were drawn before this call's. -/
  draw : Option Nat := none
  /-- The call's channel. -/
  slot : Option Reply := none
  returned : List Reply := []

namespace Call

def setPc (pc : CallPc) (call : Call) : Call := { call with pc := pc }

def setDraw (id : UInt32) (draw : Nat) (call : Call) : Call :=
  { call with pc := .drawn, id := id, draw := some draw }

def finish (r : Reply) (call : Call) : Call :=
  { call with pc := .returned, slot := none, returned := call.returned ++ [r] }

/-- A send on the call's channel; the receiver is gone once the call returned. -/
def deliver (r : Reply) (call : Call) : Call :=
  if call.pc = .returned then call else { call with slot := some r }

/-- Replies it holds or returned. -/
def replies (call : Call) : List Reply := call.slot.toList ++ call.returned

end Call

structure Client where
  connected : Bool := true
  /-- The write half is there. -/
  tx : Bool := true
  pending : UInt32 → Option Nat := fun _ => none
  nextInvokeId : UInt32 := 1
  draws : Nat := 0
  calls : List Call := []
  /-- The reader thread is in its loop. -/
  reading : Bool := true
  /-- A slot the reader has taken out of the map and not yet sent on. -/
  delivering : Option (Nat × Reply) := none
  frames : List AoeFrame := []

inductive ClientAct
  | enter
  | check (c : Nat)
  | draw (c : Nat)
  | insert (c : Nat)
  | send (c : Nat) (ok : Bool)
  | recv (c : Nat)
  | gone (c : Nat)
  | timeout (c : Nat)
  | cleanup (c : Nat)
  | frame (body : List UInt8)
  | deliver
  | eof
  | disconnect
  | shutdown
  | drain
deriving DecidableEq

/-- The call that steps. -/
def ClientAct.caller : ClientAct → Option Nat
  | check c | draw c | insert c | send c _ | recv c | gone c | timeout c | cleanup c => some c
  | _ => none

namespace Client

def update (s : Client) (c : Nat) (f : Call → Call) : Client :=
  { s with calls := s.calls.modify c f }

def remove (s : Client) (id : UInt32) : Client :=
  { s with pending := fun i => if i = id then none else s.pending i }

/-- The call's `Sender` is in the map or with the reader. -/
def senderAlive (s : Client) (c : Nat) (call : Call) : Bool :=
  s.pending call.id = some c || s.delivering.map Prod.fst = some c

/-- One step of `request`, for a call at this point of it. -/
def requestStep (s : Client) (c : Nat) (call : Call) : ClientAct → Option Client
  | .check _ =>
    if call.pc = .entered then
      some (s.update c (if s.connected then Call.setPc .checked
        else Call.finish { value := .error .notConnected }))
    else none
  | .draw _ =>
    if call.pc = .checked then
      some { s.update c (Call.setDraw s.nextInvokeId s.draws) with
        nextInvokeId := s.nextInvokeId + 1, draws := s.draws + 1 }
    else none
  | .insert _ =>
    -- registered before sending; a slot of the same id is dropped
    if call.pc = .drawn then
      some { s.update c (Call.setPc .inserted) with
        pending := fun i => if i = call.id then some c else s.pending i }
    else none
  | .send _ ok =>
    if call.pc = .inserted then
      some (s.update c (Call.setPc (if !s.tx then .sendFailed .notConnected
        else if ok then .waiting else .sendFailed .io)))
    else none
  | .recv _ =>
    match call.pc, call.slot with
    | .waiting, some r => some (s.update c (Call.finish r))
    | _, _ => none
  | .gone _ =>
    if call.pc = .waiting ∧ call.slot.isNone ∧ s.senderAlive c call = false then
      some (s.update c (Call.finish { value := .error .notConnected }))
    else none
  | .timeout _ =>
    if call.pc = .waiting ∧ call.slot.isNone then some (s.update c (Call.setPc .timedOut)) else none
  | .cleanup _ =>
    match call.pc with
    | .sendFailed e => some ((s.remove call.id).update c (Call.finish { value := .error e }))
    | .timedOut => some ((s.remove call.id).update c (Call.finish { value := .error .timeout }))
    | _ => none
  | _ => none

/-- The reader thread with one received body. -/
def readStep (s : Client) (body : List UInt8) : Option Client :=
  if s.reading && s.delivering.isNone then
    match decodeFrame body with
    | .error _ => some { s with reading := false }
    | .ok f =>
      if f.cmdId = cmdDeviceNotification then some s
      else
        match s.pending f.invokeId with
        -- late response to a timed-out request
        | none => some { s with frames := s.frames ++ [f] }
        | some c => some { s.remove f.invokeId with
            frames := s.frames ++ [f]
            delivering := some (c, ⟨f.result, some s.frames.length⟩) }
  else none

def drained (s : Client) : Client :=
  { s with
    pending := fun _ => none
    calls := s.calls.mapIdx fun c call =>
      if s.pending call.id = some c then call.deliver { value := .error .notConnected } else call }

def step (s : Client) (a : ClientAct) : Option Client :=
  match a with
  | .enter => some { s with calls := s.calls ++ [{}] }
  | .frame body => s.readStep body
  | .deliver =>
    match s.delivering with
    | some (c, r) => some { s.update c (Call.deliver r) with delivering := none }
    | none => none
  | .eof => if s.delivering.isNone then some { s with reading := false } else none
  -- the three steps of `tear_down`, by the reader thread or `close`
  | .disconnect => some { s with connected := false }
  | .shutdown => if s.connected then none else some { s with tx := false }
  | .drain => if s.tx then none else some s.drained
  | a =>
    match a.caller with
    | none => none
    | some c =>
      match s.calls[c]? with
      | none => none
      | some call => s.requestStep c call a

end Client

/-- A reply for the call of this id: a received frame's that carries the id, or
what the client itself reports. -/
def Reply.Valid (frames : List AoeFrame) (id : UInt32) (r : Reply) : Prop :=
  match r.frame with
  | some k => ∃ f, frames[k]? = some f ∧ f.invokeId = id ∧ r.value = f.result
  | none => r.value = .error .timeout ∨ r.value = .error .notConnected ∨ r.value = .error .io

structure Client.Correct (s : Client) : Prop where
  /-- A call returns once, and then it has returned. -/
  once : ∀ (c : Nat) (call : Call), s.calls[c]? = some call →
    call.returned.length = if call.pc = .returned then 1 else 0
  outcome : ∀ (c : Nat) (call : Call), s.calls[c]? = some call →
    ∀ r ∈ call.returned, r.Valid s.frames call.id
  /-- A response is returned to one caller. -/
  single : ∀ (c d : Nat) (call call' : Call), s.calls[c]? = some call → s.calls[d]? = some call' →
    ∀ r ∈ call.returned, ∀ r' ∈ call'.returned, r.frame.isSome → r.frame = r'.frame → c = d
  /-- Callers that share an id drew it at least `2 ^ 32` draws apart. -/
  others : ∀ (c d : Nat) (call call' : Call), s.calls[c]? = some call → s.calls[d]? = some call' →
    ∀ n m, call.draw = some n → call'.draw = some m → call.id = call'.id → n < m → n + 2 ^ 32 ≤ m
  ownDraw : ∀ (c d : Nat) (call call' : Call), s.calls[c]? = some call → s.calls[d]? = some call' →
    ∀ n, call.draw = some n → call'.draw = some n → c = d
  noLeak : (∀ call ∈ s.calls, call.pc = .returned) → ∀ id, s.pending id = none

/-! ## Invariant -/

/-- What holds of a call on its own. -/
structure Call.Ok (frames : List AoeFrame) (draws : Nat) (call : Call) : Prop where
  once : call.returned.length = if call.pc = .returned then 1 else 0
  early : call.pc.early → call.slot = none
  valid : ∀ r ∈ call.replies, r.Valid frames call.id
  draw : ∀ n, call.draw = some n → call.id = UInt32.ofNat (n + 1) ∧ n < draws
  failed : ∀ e, call.pc = .sendFailed e → e = .notConnected ∨ e = .io

theorem Reply.Valid.append {frames : List AoeFrame} {id : UInt32} {r : Reply}
    (h : r.Valid frames id) (f : AoeFrame) : r.Valid (frames ++ [f]) id := by
  unfold Reply.Valid at h ⊢
  split
  · rename_i k hk
    rw [hk] at h
    obtain ⟨g, hg, hid, hv⟩ := h
    refine ⟨g, ?_, hid, hv⟩
    rw [List.getElem?_append_left (List.getElem?_eq_some_iff.1 hg).1, hg]
  · rename_i hk
    rw [hk] at h
    exact h

namespace Call

variable {frames : List AoeFrame} {draws : Nat} {call : Call}

theorem Ok.setPc (h : call.Ok frames draws) {pc : CallPc} (hpc : call.pc ≠ .returned)
    (hpc' : pc ≠ .returned) (hearly : pc.early → call.pc.early)
    (hfail : ∀ e, pc = .sendFailed e → e = .notConnected ∨ e = .io) :
    (call.setPc pc).Ok frames draws := by
  refine ⟨?_, fun he => h.early (hearly he), h.valid, h.draw, hfail⟩
  have := h.once
  rw [if_neg hpc] at this
  show call.returned.length = if pc = .returned then 1 else 0
  rw [this, if_neg hpc']

theorem Ok.finish (h : call.Ok frames draws) {r : Reply} (hpc : call.pc ≠ .returned)
    (hr : r.Valid frames call.id) : (call.finish r).Ok frames draws := by
  refine ⟨?_, fun _ => rfl, fun x hx => ?_, h.draw, nofun⟩
  · have := h.once
    rw [if_neg hpc] at this
    show (call.returned ++ [r]).length = if CallPc.returned = .returned then 1 else 0
    rw [List.length_append, this]
    rfl
  · simp only [replies, Call.finish, Option.toList_none, List.nil_append, List.mem_append,
      List.mem_singleton] at hx
    rcases hx with hx | rfl
    · exact h.valid x (List.mem_append_right _ hx)
    · exact hr

theorem Ok.deliver (h : call.Ok frames draws) {r : Reply} (hearly : call.pc.early = false)
    (hr : r.Valid frames call.id) : (call.deliver r).Ok frames draws := by
  unfold Call.deliver
  split
  · exact h
  · refine ⟨h.once, fun he => ?_, fun x hx => ?_, h.draw, h.failed⟩
    · rw [show CallPc.early _ = false from hearly] at he
      cases he
    · rcases List.mem_append.1 hx with hx | hx
      · simp only [Option.toList_some, List.mem_singleton] at hx
        subst hx
        exact hr
      · exact h.valid x (List.mem_append_right _ hx)

theorem Ok.append (h : call.Ok frames draws) (f : AoeFrame) : call.Ok (frames ++ [f]) draws :=
  ⟨h.once, h.early, fun r hr => (h.valid r hr).append f, h.draw, h.failed⟩

theorem mem_replies_finish {r x : Reply} (hx : x ∈ (call.finish r).replies) :
    x ∈ call.replies ∨ x = r := by
  simp only [replies, Call.finish, Option.toList_none, List.nil_append, List.mem_append,
    List.mem_singleton] at hx
  exact hx.imp_left (List.mem_append_right _)

theorem mem_replies_deliver {r x : Reply} (hx : x ∈ (call.deliver r).replies) :
    x ∈ call.replies ∨ x = r := by
  unfold Call.deliver at hx
  split at hx
  · exact Or.inl hx
  · rcases List.mem_append.1 hx with hx | hx
    · simp only [Option.toList_some, List.mem_singleton] at hx
      exact Or.inr hx
    · exact Or.inl (List.mem_append_right _ hx)

end Call

/-- A registered slot: its call is still going to remove it, and has no reply yet. -/
structure Client.Registered (delivering : Option (Nat × Reply)) (id : UInt32) (c : Nat)
    (call : Call) : Prop where
  id : call.id = id
  pc : call.pc.registered
  slot : call.slot = none
  notDelivering : ∀ r, delivering ≠ some (c, r)

structure Client.Inv (s : Client) : Prop where
  calls : ∀ (c : Nat) (call : Call), s.calls[c]? = some call → call.Ok s.frames s.draws
  nextId : s.nextInvokeId = UInt32.ofNat (s.draws + 1)
  draws : ∀ (c d : Nat) (call call' : Call), s.calls[c]? = some call → s.calls[d]? = some call' →
    ∀ n, call.draw = some n → call'.draw = some n → c = d
  pending : ∀ id c, s.pending id = some c →
    ∃ call, s.calls[c]? = some call ∧ Client.Registered s.delivering id c call
  delivering : ∀ c r, s.delivering = some (c, r) → ∃ call, s.calls[c]? = some call ∧
    call.pc.early = false ∧ call.slot = none ∧ r.Valid s.frames call.id
  single : ∀ (c d : Nat) (call call' : Call), s.calls[c]? = some call → s.calls[d]? = some call' →
    ∀ r ∈ call.replies, ∀ r' ∈ call'.replies, r.frame.isSome → r.frame = r'.frame → c = d
  fresh : ∀ c r, s.delivering = some (c, r) → r.frame.isSome →
    ∀ (d : Nat) (call : Call), s.calls[d]? = some call → ∀ r' ∈ call.replies, r.frame ≠ r'.frame

/-- A change of call `c` that the rest need not know of, with `pending` left in
the map. -/
structure Client.Change (s : Client) (pending : UInt32 → Option Nat) (c : Nat)
    (call call' : Call) : Prop where
  ok : call'.Ok s.frames s.draws
  id : call'.id = call.id
  draw : call'.draw = call.draw
  early : call.pc.early = false → call'.pc.early = false
  registered : pending call.id = some c → call'.pc.registered ∧ call'.slot = none
  slot : ∀ r, s.delivering = some (c, r) → call'.slot = none
  replies : ∀ r ∈ call'.replies, r ∈ call.replies ∨ r.frame = none

namespace Client

variable {s s' : Client}

theorem Inv.registered (h : s.Inv) {id : UInt32} {c : Nat} {call : Call}
    (hp : s.pending id = some c) (hc : s.calls[c]? = some call) :
    Registered s.delivering id c call := by
  obtain ⟨call', hc', hr⟩ := h.pending id c hp
  rw [hc] at hc'
  cases hc'
  exact hr

theorem Inv.notPending (h : s.Inv) {c : Nat} {call : Call} (hc : s.calls[c]? = some call)
    (hpc : call.pc.registered = false) (id : UInt32) : s.pending id ≠ some c := by
  intro hp
  have := (h.registered hp hc).pc
  rw [hpc] at this
  cases this

theorem Inv.slot_delivering (h : s.Inv) {c : Nat} {call : Call} {r : Reply}
    (hc : s.calls[c]? = some call) (hd : s.delivering = some (c, r)) : call.slot = none := by
  obtain ⟨call', hc', -, hslot, -⟩ := h.delivering c r hd
  rw [hc] at hc'
  cases hc'
  exact hslot

/-- A change to some of the calls and a smaller map. -/
theorem Inv.change (h : s.Inv) {pending : UInt32 → Option Nat} {calls : List Call}
    (hp : ∀ id c, pending id = some c → s.pending id = some c)
    (hto : ∀ (c : Nat) (call : Call), s.calls[c]? = some call →
      ∃ call', calls[c]? = some call' ∧ s.Change pending c call call')
    (hfrom : ∀ (c : Nat) (call' : Call), calls[c]? = some call' →
      ∃ call, s.calls[c]? = some call ∧ s.Change pending c call call') :
    Inv { s with pending := pending, calls := calls } := by
  refine ⟨fun c call' hc => ?_, h.nextId, fun c d call call' hc hd n hn hn' => ?_,
    fun id c hid => ?_, fun c r hd => ?_, fun c d call call' hc hd r hr r' hr' hf heq => ?_,
    fun c r hd hf d call' hc r' hr' => ?_⟩
  · obtain ⟨call, -, hch⟩ := hfrom c call' hc
    exact hch.ok
  · obtain ⟨x, hx, hchx⟩ := hfrom c call hc
    obtain ⟨y, hy, hchy⟩ := hfrom d call' hd
    exact h.draws c d x y hx hy n (hchx.draw ▸ hn) (hchy.draw ▸ hn')
  · obtain ⟨call, hc, hr⟩ := h.pending id c (hp id c hid)
    obtain ⟨call', hc', hch⟩ := hto c call hc
    obtain ⟨hpc, hslot⟩ := hch.registered (by rw [hr.id]; exact hid)
    exact ⟨call', hc', hch.id.trans hr.id, hpc, hslot, hr.notDelivering⟩
  · obtain ⟨call, hc, hearly, -, hvalid⟩ := h.delivering c r hd
    obtain ⟨call', hc', hch⟩ := hto c call hc
    exact ⟨call', hc', hch.early hearly, hch.slot r hd, hch.id ▸ hvalid⟩
  · obtain ⟨x, hx, hchx⟩ := hfrom c call hc
    obtain ⟨y, hy, hchy⟩ := hfrom d call' hd
    rcases hchx.replies r hr with hr | hnone
    · rcases hchy.replies r' hr' with hr' | hnone
      · exact h.single c d x y hx hy r hr r' hr' hf heq
      · rw [heq, hnone] at hf
        cases hf
    · rw [hnone] at hf
      cases hf
  · obtain ⟨call, hc, hch⟩ := hfrom d call' hc
    rcases hch.replies r' hr' with hr' | hnone
    · exact h.fresh c r hd hf d call hc r' hr'
    · intro heq
      rw [heq, hnone] at hf
      cases hf

theorem Change.refl (h : s.Inv) {pending : UInt32 → Option Nat}
    (hp : ∀ id c, pending id = some c → s.pending id = some c) {c : Nat} {call : Call}
    (hc : s.calls[c]? = some call) : s.Change pending c call call :=
  ⟨h.calls c call hc, rfl, rfl, fun he => he, fun hid =>
    have hr := h.registered (hp _ _ hid) hc
    ⟨hr.pc, hr.slot⟩, fun _ hd => h.slot_delivering hc hd, fun _ hr => Or.inl hr⟩

/-- A change to one call. -/
theorem Inv.update (h : s.Inv) {pending : UInt32 → Option Nat} {c : Nat} {f : Call → Call}
    (hp : ∀ id c, pending id = some c → s.pending id = some c)
    (hf : ∀ call, s.calls[c]? = some call → s.Change pending c call (f call)) :
    Inv { s.update c f with pending := pending } := by
  refine h.change hp (fun d call hd => ?_) (fun d call' hd => ?_)
  · refine ⟨if c = d then f call else call, ?_, ?_⟩
    · simp only [Client.update, List.getElem?_modify, hd]
      rfl
    · split
      · rename_i hcd
        subst hcd
        exact hf call hd
      · exact Change.refl h hp hd
  · simp only [Client.update, List.getElem?_modify] at hd
    obtain ⟨call, hx, rfl⟩ := Option.map_eq_some_iff.1 hd
    refine ⟨call, hx, ?_⟩
    show s.Change pending d call (if c = d then f call else call)
    split
    · rename_i hcd
      subst hcd
      exact hf call hx
    · exact Change.refl h hp hx

/-- A call moves on with its slot where it was. -/
theorem Inv.setPc (h : s.Inv) {c : Nat} {call : Call} {pc : CallPc} (hc : s.calls[c]? = some call)
    (hpc : call.pc ≠ .returned) (hpc' : pc ≠ .returned) (hearly : pc.early → call.pc.early)
    (hlate : call.pc.early = false → pc.early = false)
    (hreg : call.pc.registered → pc.registered)
    (hfail : ∀ e, pc = .sendFailed e → e = .notConnected ∨ e = .io) :
    (s.update c (Call.setPc pc)).Inv := by
  refine h.update (fun _ _ hid => hid) fun x hx => ?_
  rw [hc] at hx
  cases hx
  refine ⟨(h.calls c call hc).setPc hpc hpc' hearly hfail, rfl, rfl, hlate, fun hid => ?_,
    fun r hd => (h.slot_delivering hc hd : call.slot = none), fun r hr => Or.inl hr⟩
  have hr := h.registered hid hc
  exact ⟨hreg hr.pc, hr.slot⟩

/-- A call returns, with its slot out of the map. -/
theorem Inv.finish (h : s.Inv) {pending : UInt32 → Option Nat} {c : Nat} {call : Call} {r : Reply}
    (hc : s.calls[c]? = some call) (hp : ∀ id c, pending id = some c → s.pending id = some c)
    (hpc : call.pc ≠ .returned) (hgone : pending call.id ≠ some c)
    (hvalid : r.Valid s.frames call.id) (hr : r ∈ call.replies ∨ r.frame = none) :
    Inv { s.update c (Call.finish r) with pending := pending } := by
  refine h.update hp fun x hx => ?_
  rw [hc] at hx
  cases hx
  refine ⟨(h.calls c call hc).finish hpc hvalid, rfl, rfl, fun _ => rfl,
    fun hid => absurd hid hgone, fun _ _ => rfl, fun y hy => ?_⟩
  rcases Call.mem_replies_finish hy with hy | rfl
  · exact Or.inl hy
  · exact hr

theorem get_update {c d : Nat} {f : Call → Call} {call' : Call}
    (h : (s.update c f).calls[d]? = some call') :
    (d ≠ c ∧ s.calls[d]? = some call') ∨
      ∃ call, d = c ∧ s.calls[c]? = some call ∧ call' = f call := by
  simp only [Client.update, List.getElem?_modify] at h
  obtain ⟨call, hd, rfl⟩ := Option.map_eq_some_iff.1 h
  by_cases hcd : c = d
  · subst hcd
    exact Or.inr ⟨call, rfl, hd, by simp⟩
  · exact Or.inl ⟨Ne.symm hcd, by simpa [hcd] using hd⟩

theorem get_update_of_ne {c d : Nat} {f : Call → Call} (h : d ≠ c) :
    (s.update c f).calls[d]? = s.calls[d]? := by
  simp [Client.update, Ne.symm h]

theorem get_update_self {c : Nat} {f : Call → Call} {call : Call} (h : s.calls[c]? = some call) :
    (s.update c f).calls[c]? = some (f call) := by
  simp [Client.update, h]

/-- A call that has not drawn an id yet holds nothing. -/
theorem Inv.early (h : s.Inv) {c : Nat} {call : Call} (hc : s.calls[c]? = some call)
    (hpc : call.pc.early) : call.replies = [] ∧ (∀ id, s.pending id ≠ some c) ∧
      ∀ r, s.delivering ≠ some (c, r) := by
  have hok := h.calls c call hc
  refine ⟨?_, fun id => h.notPending hc ?_ id, fun r hd => ?_⟩
  · have hnil : call.returned = [] := by
      have hone := hok.once
      rw [if_neg (by intro hr; rw [hr] at hpc; cases hpc)] at hone
      exact List.length_eq_zero_iff.1 hone
    rw [Call.replies, hok.early hpc, hnil]
    rfl
  · cases hp : call.pc <;> rw [hp] at hpc <;> first | rfl | cases hpc
  · obtain ⟨call', hc', hlate, -⟩ := h.delivering c r hd
    rw [hc] at hc'
    cases hc'
    rw [hpc] at hlate
    cases hlate

theorem Inv.draw (h : s.Inv) {c : Nat} {call : Call} (hc : s.calls[c]? = some call)
    (hpc : call.pc = .checked) :
    Inv { s.update c (Call.setDraw s.nextInvokeId s.draws) with
      nextInvokeId := s.nextInvokeId + 1, draws := s.draws + 1 } := by
  obtain ⟨hreplies, hpending, hdelivering⟩ := h.early hc (by rw [hpc]; rfl)
  have hok := h.calls c call hc
  have hnone : ∀ x, s.calls[c]? = some x → ∀ r,
      r ∉ (x.setDraw s.nextInvokeId s.draws).replies := by
    intro x hx r hr
    rw [hc] at hx
    cases hx
    rw [show (call.setDraw s.nextInvokeId s.draws).replies = call.replies from rfl, hreplies] at hr
    cases hr
  refine ⟨fun d call' hd => ?_, ?_, fun d e x y hd he n hn hn' => ?_, fun id d hid => ?_,
    fun d r hd => ?_, fun d e x y hd he r hr r' hr' hf heq => ?_,
    fun d r hd hf e x he r' hr' => ?_⟩
  · rcases get_update hd with ⟨-, hx⟩ | ⟨x, rfl, hx, rfl⟩
    · have hd' := h.calls d call' hx
      exact ⟨hd'.once, hd'.early, hd'.valid, fun n hn =>
        ⟨(hd'.draw n hn).1, Nat.lt_succ_of_lt (hd'.draw n hn).2⟩, hd'.failed⟩
    · refine ⟨?_, fun _ => ?_, fun r hr => absurd hr (hnone x hx r), fun n hn => ?_,
        nofun⟩
      · have hone := (h.calls d x hx).once
        rw [hc] at hx
        cases hx
        rw [hpc] at hone
        exact hone
      · rw [hc] at hx
        cases hx
        exact hok.early (by rw [hpc]; rfl)
      · cases hn
        exact ⟨h.nextId, Nat.lt_succ_self _⟩
  · show s.nextInvokeId + 1 = UInt32.ofNat (s.draws + 1 + 1)
    rw [h.nextId, UInt32.ofNat_add (s.draws + 1) 1]
    rfl
  · -- the new draw is above every earlier one
    rcases get_update hd with ⟨-, hx⟩ | ⟨x', rfl, hx, rfl⟩
    · rcases get_update he with ⟨-, hy⟩ | ⟨y', rfl, hy, rfl⟩
      · exact h.draws d e x y hx hy n hn hn'
      · cases hn'
        exact absurd ((h.calls d x hx).draw _ hn).2 (Nat.lt_irrefl _)
    · rcases get_update he with ⟨-, hy⟩ | ⟨y', rfl, hy, rfl⟩
      · cases hn
        exact absurd ((h.calls e y hy).draw _ hn').2 (Nat.lt_irrefl _)
      · rfl
  · obtain ⟨x, hx, hr⟩ := h.pending id d hid
    have hne : d ≠ c := fun heq => hpending id (heq ▸ hid)
    exact ⟨x, (get_update_of_ne hne).trans hx, ⟨hr.id, hr.pc, hr.slot, hr.notDelivering⟩⟩
  · obtain ⟨x, hx, h1, h2, h3⟩ := h.delivering d r hd
    have hne : d ≠ c := fun heq => hdelivering r (heq ▸ hd)
    exact ⟨x, (get_update_of_ne hne).trans hx, h1, h2, h3⟩
  · rcases get_update hd with ⟨-, hx⟩ | ⟨x', rfl, hx, rfl⟩
    · rcases get_update he with ⟨-, hy⟩ | ⟨y', rfl, hy, rfl⟩
      · exact h.single d e x y hx hy r hr r' hr' hf heq
      · exact absurd hr' (hnone y' hy r')
    · exact absurd hr (hnone x' hx r)
  · rcases get_update he with ⟨-, hy⟩ | ⟨y', rfl, hy, rfl⟩
    · exact h.fresh d r hd hf e x hy r' hr'
    · exact absurd hr' (hnone y' hy r')

theorem Inv.insert (h : s.Inv) {c : Nat} {call : Call} (hc : s.calls[c]? = some call)
    (hpc : call.pc = .drawn) :
    Inv { s.update c (Call.setPc .inserted) with
      pending := fun i => if i = call.id then some c else s.pending i } := by
  obtain ⟨-, -, hdelivering⟩ := h.early hc (by rw [hpc]; rfl)
  have hslot : call.slot = none := (h.calls c call hc).early (by rw [hpc]; rfl)
  have h1 : (s.update c (Call.setPc .inserted)).Inv :=
    h.setPc hc (by rw [hpc]; nofun) nofun nofun (by rw [hpc]; nofun) (by rw [hpc]; nofun) nofun
  refine ⟨h1.calls, h1.nextId, h1.draws, fun id d hid => ?_, h1.delivering, h1.single, h1.fresh⟩
  simp only at hid
  split at hid
  · rename_i heq
    cases hid
    exact ⟨_, get_update_self hc, ⟨heq.symm, rfl, hslot, hdelivering⟩⟩
  · obtain ⟨x, hx, hr⟩ := h1.pending id d hid
    exact ⟨x, hx, ⟨hr.id, hr.pc, hr.slot, hr.notDelivering⟩⟩

/-- The reader takes the slot of a response out of the map. -/
theorem Inv.correlate (h : s.Inv) {f : AoeFrame} {c : Nat} (hp : s.pending f.invokeId = some c) :
    Inv { s.remove f.invokeId with
      frames := s.frames ++ [f]
      delivering := some (c, ⟨f.result, some s.frames.length⟩) } := by
  obtain ⟨call, hc, hreg⟩ := h.pending _ _ hp
  refine ⟨fun d x hx => (h.calls d x hx).append f, h.nextId, h.draws, fun id d hid => ?_,
    fun d r hd => ?_, h.single, fun d r hd _ e x hx r' hr' heq => ?_⟩
  · simp only [Client.remove] at hid
    split at hid
    · cases hid
    · rename_i hne
      obtain ⟨x, hx, hr⟩ := h.pending id d hid
      refine ⟨x, hx, ⟨hr.id, hr.pc, hr.slot, fun r hd => hne ?_⟩⟩
      simp only [Option.some.injEq, Prod.mk.injEq] at hd
      obtain ⟨rfl, -⟩ := hd
      exact hr.id.symm.trans (h.registered hp hx).id
  · simp only [Option.some.injEq, Prod.mk.injEq] at hd
    obtain ⟨rfl, rfl⟩ := hd
    exact ⟨call, hc, CallPc.not_early hreg.pc, hreg.slot, ⟨f, by simp, hreg.id.symm, rfl⟩⟩
  · simp only [Option.some.injEq, Prod.mk.injEq] at hd
    obtain ⟨rfl, rfl⟩ := hd
    have hvalid := (h.calls e x hx).valid r' hr'
    rw [Reply.Valid, ← heq] at hvalid
    obtain ⟨g, hg, -⟩ := hvalid
    exact absurd (List.getElem?_eq_some_iff.1 hg).1 (Nat.lt_irrefl _)

theorem deliver_fields (r : Reply) (call : Call) :
    (call.deliver r).id = call.id ∧ (call.deliver r).draw = call.draw ∧
      (call.deliver r).pc = call.pc := by
  unfold Call.deliver
  split <;> exact ⟨rfl, rfl, rfl⟩

/-- The reader sends the reply on. -/
theorem Inv.deliver (h : s.Inv) {c : Nat} {r : Reply} (hd : s.delivering = some (c, r)) :
    Inv { s.update c (Call.deliver r) with delivering := none } := by
  obtain ⟨call, hc, hearly, hslot, hvalid⟩ := h.delivering c r hd
  -- the calls are the old ones with what they held, and `r` at call `c`
  have hget : ∀ (d : Nat) (x' : Call), (s.update c (Call.deliver r)).calls[d]? = some x' →
      ∃ x, s.calls[d]? = some x ∧ x'.id = x.id ∧ x'.draw = x.draw ∧ x'.Ok s.frames s.draws ∧
        ∀ y ∈ x'.replies, y ∈ x.replies ∨ (y = r ∧ d = c) := by
    intro d x' hx'
    rcases get_update hx' with ⟨-, hx⟩ | ⟨x, rfl, hx, rfl⟩
    · exact ⟨x', hx, rfl, rfl, h.calls d x' hx, fun y hy => Or.inl hy⟩
    · have hok := h.calls d x hx
      rw [hc] at hx
      cases hx
      exact ⟨call, hc, (deliver_fields r call).1, (deliver_fields r call).2.1,
        hok.deliver hearly hvalid, fun y hy => (Call.mem_replies_deliver hy).imp_right (⟨·, rfl⟩)⟩
  refine ⟨fun d x' hx' => ?_, h.nextId, fun d e x' y' hx' hy' n hn hn' => ?_,
    fun id d hid => ?_, nofun, fun d e x' y' hx' hy' p hp q hq hf heq => ?_, nofun⟩
  · obtain ⟨-, -, -, -, hok, -⟩ := hget d x' hx'
    exact hok
  · obtain ⟨x, hx, -, hdraw, -⟩ := hget d x' hx'
    obtain ⟨y, hy, -, hdraw', -⟩ := hget e y' hy'
    exact h.draws d e x y hx hy n (hdraw ▸ hn) (hdraw' ▸ hn')
  · obtain ⟨x, hx, hr⟩ := h.pending id d hid
    have hne : d ≠ c := fun heq => hr.notDelivering r (heq ▸ hd)
    exact ⟨x, (get_update_of_ne hne).trans hx, ⟨hr.id, hr.pc, hr.slot, nofun⟩⟩
  · obtain ⟨x, hx, -, -, -, hrx⟩ := hget d x' hx'
    obtain ⟨y, hy, -, -, -, hry⟩ := hget e y' hy'
    rcases hrx p hp with hp | ⟨rfl, rfl⟩
    · rcases hry q hq with hq | ⟨rfl, rfl⟩
      · exact h.single d e x y hx hy p hp q hq hf heq
      · exact absurd heq.symm (h.fresh e q hd (heq ▸ hf) d x hx p hp)
    · rcases hry q hq with hq | ⟨-, rfl⟩
      · exact absurd heq (h.fresh d p hd hf e y hy q hq)
      · rfl

theorem Inv.change_drained (h : s.Inv) {c : Nat} {call : Call} (hc : s.calls[c]? = some call) :
    s.Change (fun _ => none) c call
      (if s.pending call.id = some c then call.deliver { value := .error .notConnected }
        else call) := by
  split
  · rename_i hp
    have hreg := h.registered hp hc
    have hearly := CallPc.not_early hreg.pc
    obtain ⟨hid, hdraw, hpc⟩ := deliver_fields { value := .error .notConnected } call
    refine ⟨(h.calls c call hc).deliver hearly (Or.inr (Or.inl rfl)), hid, hdraw,
      fun he => by rw [hpc]; exact he, nofun, fun r hd => absurd hd (hreg.notDelivering r),
      fun r hr => (Call.mem_replies_deliver hr).imp_right fun heq => by rw [heq]⟩
  · exact Change.refl h (by intro _ _ hid; cases hid) hc

/-- `tear_down` fails every call in the map. -/
theorem Inv.drained (h : s.Inv) : s.drained.Inv := by
  refine h.change (by intro _ _ hid; cases hid) (fun c call hc => ?_) (fun c call' hc' => ?_)
  · exact ⟨_, by rw [List.getElem?_mapIdx, hc]; rfl, h.change_drained hc⟩
  · rw [List.getElem?_mapIdx] at hc'
    obtain ⟨call, hc, rfl⟩ := Option.map_eq_some_iff.1 hc'
    exact ⟨call, hc, h.change_drained hc⟩

theorem Inv.enter (h : s.Inv) : Inv { s with calls := s.calls ++ [({} : Call)] } := by
  have hget : ∀ (d : Nat) (x : Call), (s.calls ++ [({} : Call)])[d]? = some x →
      s.calls[d]? = some x ∨ (d = s.calls.length ∧ x = {}) := by
    intro d x hx
    rw [List.getElem?_append] at hx
    split at hx
    · exact Or.inl hx
    · rename_i hd
      rw [List.getElem?_singleton] at hx
      split at hx
      · cases hx
        exact Or.inr ⟨by omega, rfl⟩
      · cases hx
  have hold : ∀ (d : Nat) (x : Call), s.calls[d]? = some x → (s.calls ++ [({} : Call)])[d]? = some x :=
    fun d x hx => by rw [List.getElem?_append_left (List.getElem?_eq_some_iff.1 hx).1, hx]
  refine ⟨fun d x hx => ?_, h.nextId, fun d e x y hx hy n hn hn' => ?_, fun id d hid => ?_,
    fun d r hd => ?_, fun d e x y hx hy r hr r' hr' hf heq => ?_,
    fun d r hd hf e x hx r' hr' => ?_⟩
  · rcases hget d x hx with hx | ⟨-, rfl⟩
    · exact h.calls d x hx
    · exact ⟨rfl, fun _ => rfl, nofun, nofun, nofun⟩
  · rcases hget d x hx with hx | ⟨-, rfl⟩
    · rcases hget e y hy with hy | ⟨-, rfl⟩
      · exact h.draws d e x y hx hy n hn hn'
      · cases hn'
    · cases hn
  · obtain ⟨x, hx, hr⟩ := h.pending id d hid
    exact ⟨x, hold d x hx, ⟨hr.id, hr.pc, hr.slot, hr.notDelivering⟩⟩
  · obtain ⟨x, hx, hrest⟩ := h.delivering d r hd
    exact ⟨x, hold d x hx, hrest⟩
  · rcases hget d x hx with hx | ⟨-, rfl⟩
    · rcases hget e y hy with hy | ⟨-, rfl⟩
      · exact h.single d e x y hx hy r hr r' hr' hf heq
      · cases hr'
    · cases hr
  · rcases hget e x hx with hx | ⟨-, rfl⟩
    · exact h.fresh d r hd hf e x hx r' hr'
    · cases hr'

theorem remove_le {id : UInt32} : ∀ i c, (s.remove id).pending i = some c → s.pending i = some c := by
  intro i c hi
  simp only [Client.remove] at hi
  split at hi
  · cases hi
  · exact hi

/-- The error is one the client reports itself. -/
theorem Reply.valid_error {frames : List AoeFrame} {id : UInt32} {e : AdsError}
    (he : e = .timeout ∨ e = .notConnected ∨ e = .io) :
    Reply.Valid frames id { value := .error e } := by
  rcases he with rfl | rfl | rfl
  · exact Or.inl rfl
  · exact Or.inr (Or.inl rfl)
  · exact Or.inr (Or.inr rfl)

theorem requestStep_inv (h : s.Inv) {c : Nat} {call : Call} {a : ClientAct}
    (hc : s.calls[c]? = some call) (hs : s.requestStep c call a = some s') : s'.Inv := by
  cases a with
  | check _ =>
    simp only [requestStep] at hs
    split at hs
    · rename_i hpc
      cases hs
      split
      · exact h.setPc hc (by rw [hpc]; nofun) nofun (by rw [hpc]; exact fun _ => rfl)
          (by rw [hpc]; nofun) (by rw [hpc]; nofun) nofun
      · refine h.finish hc (fun _ _ hid => hid) (by rw [hpc]; nofun)
          (h.notPending hc (by rw [hpc]; rfl) _) (Reply.valid_error (by simp)) (Or.inr rfl)
    · cases hs
  | draw _ =>
    simp only [requestStep] at hs
    split at hs
    · rename_i hpc
      cases hs
      exact h.draw hc hpc
    · cases hs
  | insert _ =>
    simp only [requestStep] at hs
    split at hs
    · rename_i hpc
      cases hs
      exact h.insert hc hpc
    · cases hs
  | send _ ok =>
    simp only [requestStep] at hs
    split at hs
    · rename_i hpc
      cases hs
      have hto : ∀ pc : CallPc, pc.registered →
          (∀ e, pc = .sendFailed e → e = .notConnected ∨ e = .io) →
          (s.update c (Call.setPc pc)).Inv := by
        intro pc hreg hfail
        exact h.setPc hc (by rw [hpc]; nofun) (CallPc.ne_returned hreg)
          (fun he => by rw [CallPc.not_early hreg] at he; cases he)
          (fun _ => CallPc.not_early hreg) (fun _ => hreg) hfail
      split
      · exact hto _ rfl fun e he => by cases he; exact Or.inl rfl
      · split
        · exact hto _ rfl nofun
        · exact hto _ rfl fun e he => by cases he; exact Or.inr rfl
    · cases hs
  | recv _ =>
    simp only [requestStep] at hs
    split at hs
    · rename_i r hpc hslot
      cases hs
      have hr : r ∈ call.replies := by simp [Call.replies, hslot]
      refine h.finish hc (fun _ _ hid => hid) (by rw [hpc]; nofun) (fun hid => ?_)
        ((h.calls c call hc).valid r hr) (Or.inl hr)
      have := (h.registered hid hc).slot
      rw [hslot] at this
      cases this
    · cases hs
  | gone _ =>
    simp only [requestStep] at hs
    split at hs
    · rename_i hcond
      cases hs
      refine h.finish hc (fun _ _ hid => hid) (by rw [hcond.1]; nofun) (fun hid => ?_)
        (Reply.valid_error (by simp)) (Or.inr rfl)
      have := hcond.2.2
      simp [senderAlive, hid] at this
    · cases hs
  | timeout _ =>
    simp only [requestStep] at hs
    split at hs
    · rename_i hcond
      cases hs
      exact h.setPc hc (by rw [hcond.1]; nofun) nofun nofun (fun _ => rfl) (fun _ => rfl) nofun
    · cases hs
  | cleanup _ =>
    have hgone : (s.remove call.id).pending call.id ≠ some c := by simp [remove]
    simp only [requestStep] at hs
    split at hs
    · rename_i e hpc
      cases hs
      exact h.finish hc remove_le (by rw [hpc]; nofun) hgone 
        (Reply.valid_error (Or.inr ((h.calls c call hc).failed e hpc))) (Or.inr rfl)
    · rename_i hpc
      cases hs
      exact h.finish hc remove_le (by rw [hpc]; nofun) hgone (Reply.valid_error (by simp))
        (Or.inr rfl)
    · cases hs
  | _ => cases hs

theorem readStep_inv (h : s.Inv) {body : List UInt8} (hs : s.readStep body = some s') :
    s'.Inv := by
  unfold readStep at hs
  split at hs
  · split at hs
    · cases hs
      exact ⟨h.calls, h.nextId, h.draws, h.pending, h.delivering, h.single, h.fresh⟩
    · rename_i f _
      split at hs
      · cases hs
        exact h
      · split at hs
        · cases hs
          refine ⟨fun c call hc => (h.calls c call hc).append f, h.nextId, h.draws, h.pending,
            fun c r hd => ?_, h.single, h.fresh⟩
          obtain ⟨call, hc, h1, h2, h3⟩ := h.delivering c r hd
          exact ⟨call, hc, h1, h2, h3.append f⟩
        · rename_i c hp
          cases hs
          exact h.correlate hp
  · cases hs

theorem step_inv {a : ClientAct} (h : s.Inv) (hs : s.step a = some s') : s'.Inv := by
  have hrequest : ∀ c, a.caller = some c →
      (match s.calls[c]? with
        | none => none
        | some call => s.requestStep c call a) = some s' → s'.Inv := by
    intro c _ hs
    split at hs
    · cases hs
    · rename_i call hc
      exact requestStep_inv h hc hs
  cases a with
  | enter =>
    cases hs
    exact h.enter
  | frame body => exact readStep_inv h hs
  | deliver =>
    simp only [step] at hs
    split at hs
    · rename_i c r hd
      cases hs
      exact h.deliver hd
    · cases hs
  | eof =>
    simp only [step] at hs
    split at hs
    · cases hs
      exact ⟨h.calls, h.nextId, h.draws, h.pending, h.delivering, h.single, h.fresh⟩
    · cases hs
  | disconnect =>
    cases hs
    exact ⟨h.calls, h.nextId, h.draws, h.pending, h.delivering, h.single, h.fresh⟩
  | shutdown =>
    simp only [step] at hs
    split at hs
    · cases hs
    · cases hs
      exact ⟨h.calls, h.nextId, h.draws, h.pending, h.delivering, h.single, h.fresh⟩
  | drain =>
    simp only [step] at hs
    split at hs
    · cases hs
    · cases hs
      exact h.drained
  | check c => exact hrequest c rfl hs
  | draw c => exact hrequest c rfl hs
  | insert c => exact hrequest c rfl hs
  | send c ok => exact hrequest c rfl hs
  | recv c => exact hrequest c rfl hs
  | gone c => exact hrequest c rfl hs
  | timeout c => exact hrequest c rfl hs
  | cleanup c => exact hrequest c rfl hs

/-! ## A call in progress moves -/

end Client

/-! ## Top theorems -/

theorem Client.inv_init : Client.Inv {} := by
  refine ⟨?_, rfl, ?_, ?_, ?_, ?_, ?_⟩
  · intro c call hc
    cases hc
  · intro c d call call' hc
    cases hc
  · intro id c hid
    cases hid
  · intro c r hd
    cases hd
  · intro c d call call' hc
    cases hc
  · intro c r hd
    cases hd

theorem ofNat_eq_far {n m : Nat} (h : UInt32.ofNat (n + 1) = UInt32.ofNat (m + 1)) (hlt : n < m) :
    n + 2 ^ 32 ≤ m := by
  have := congrArg UInt32.toNat h
  simp only [UInt32.toNat_ofNat'] at this
  omega

theorem Client.Inv.correct {s : Client} (h : s.Inv) : s.Correct := by
  refine ⟨fun c call hc => (h.calls c call hc).once, fun c call hc r hr => ?_,
    fun c d call call' hc hd r hr r' hr' hf heq => ?_,
    fun c d call call' hc hd n m hn hm hid hlt => ?_,
    fun c d call call' hc hd n hn hn' => h.draws c d call call' hc hd n hn hn',
    fun hall id => ?_⟩
  · exact (h.calls c call hc).valid r (List.mem_append_right _ hr)
  · exact h.single c d call call' hc hd r (List.mem_append_right _ hr) r'
      (List.mem_append_right _ hr') hf heq
  · rw [((h.calls c call hc).draw n hn).1, ((h.calls d call' hd).draw m hm).1] at hid
    exact ofNat_eq_far hid hlt
  · cases hp : s.pending id with
    | none => rfl
    | some c =>
      obtain ⟨call, hc, hr⟩ := h.pending id c hp
      have hreg := hr.pc
      rw [hall call (List.mem_of_getElem? hc)] at hreg
      cases hreg

end TwinCat
