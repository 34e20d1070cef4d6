import EpicsIocs.OpcUa.ConnectionLoss
import Mathlib.Algebra.Ring.Nat

/-! # The batches of a flush

The limits of the server and of the session bound the nodes of one service call; an item is
two nodes in a Read and one in a Write.  A flush takes a batch from the highest priority
that has any, writes before reads, and sends it in chunks (`session.rs`).  Here every service
call succeeds, however many results it has.

    each call keeps its limit, and each handle is taken up once, in its order   (requests_batched)

A Read carries an item at least, so two nodes also where the limit is one. -/

namespace OpcUa

open Steps

variable {V : Type}

/-! ## The limits -/

def noOfPropertiesRead : Nat := 2

def usizeMax : Nat := 2 ^ 64 - 1

/-- The smaller of the two limits, or whichever is set. -/
def nodeLimit (serverLimit sessionLimit : Nat) : Nat :=
  match serverLimit, sessionLimit with
  | 0, 0 => 0
  | s, 0 => s
  | 0, s => s
  | a, b => min a b

def batchSize (serverLimit sessionLimit : Nat) : Nat :=
  match nodeLimit serverLimit sessionLimit with
  | 0 => usizeMax
  | max => max

/-- What the server states and what the session is configured with. -/
structure NodeLimits where
  maxNodesPerRead : Nat
  maxNodesPerWrite : Nat
  readNodesMax : Nat
  writeNodesMax : Nat
  deriving DecidableEq, Repr

namespace NodeLimits

variable (limits : NodeLimits)

/-- No limit is 0. -/
def read : Nat := nodeLimit limits.maxNodesPerRead limits.readNodesMax

def write : Nat := nodeLimit limits.maxNodesPerWrite limits.writeNodesMax

def readBatchSize : Nat := batchSize limits.maxNodesPerRead limits.readNodesMax

def writeBatchSize : Nat := batchSize limits.maxNodesPerWrite limits.writeNodesMax

/-- How many items one Read may carry. -/
def readLimit : Nat := max (limits.readBatchSize / noOfPropertiesRead) 1

def writeLimit : Nat := max limits.writeBatchSize 1

end NodeLimits

/-! ## Flushes -/

inductive Attribute where
  | dataType
  | value
  deriving DecidableEq, Repr

/-- A chunk that was taken up: a Read with its nodes, or a Write with what each item had to write,
which are the nodes of the call.  Without nodes there is no call. -/
inductive Round (V : Type) where
  | read (priority : Priority) (handles : List Nat) (nodes : List (Nat × Attribute))
  | write (priority : Priority) (outgoing : List (Nat × Option V))
  deriving DecidableEq, Repr

/-- The worker's queues and what has come of them.  `readsRequested` and `writesRequested` are all
that was ever queued. -/
structure Batching (V : Type) where
  items : List (Item V)
  reads : Priority → List Queued
  writes : Priority → List Queued
  readsRequested : Priority → List Nat
  writesRequested : Priority → List Nat
  rounds : List (Round V)
  /-- The results and failures that were handed to items. -/
  delivered : List (Priority × Nat)

def deliverRead (E : Elements V) (answer : ReadAnswer V) (item : Item V) : Item V :=
  match answer with
  | .data value status timestamp => item.setIncomingData E value .readComplete status timestamp
  | .failure now => item.setIncomingEvent .readFailure now

namespace Batching

/-- Result `2 * i` is the data type of item `i`, the next one its value. -/
def deliverStep (E : Elements V) (results : List (ReadAnswer V)) (now : Nat) (priority : Priority)
    (s : Batching V) (q : Queued × Nat) : Batching V :=
  if q.1.handle < s.items.length then
    let answer := match results[q.2 * 2]?, results[q.2 * 2 + 1]? with
      | some _, some value => value
      | _, _ => .failure now
    { s with
      items := s.items.modify q.1.handle (deliverRead E answer)
      delivered := s.delivered ++ [(priority, q.1.handle)] }
  else s

def readNodes (s : Batching V) (chunk : List Queued) : List (Nat × Attribute) :=
  chunk.flatMap fun q =>
    if q.handle < s.items.length then [(q.handle, .dataType), (q.handle, .value)] else []

def readChunk (E : Elements V) (results : List (ReadAnswer V)) (now : Nat) (priority : Priority)
    (s : Batching V) (chunk : List Queued) : Batching V :=
  let nodes := s.readNodes chunk
  if nodes.isEmpty then s
  else
    chunk.zipIdx.foldl (deliverStep E results now priority)
      { s with rounds := s.rounds ++ [.read priority (chunk.map (·.handle)) nodes] }

/-- What an item has to write is taken from it. -/
def collect (E : Elements V) (acc : List (Item V) × List (Nat × Option V)) (q : Queued) :
    List (Item V) × List (Nat × Option V) :=
  match acc.1[q.handle]? with
  | none => acc
  | some item =>
    let (outgoing, item) := item.takeOutgoing E
    (acc.1.set q.handle item, acc.2 ++ [(q.handle, outgoing)])

/-- `good` says of each node written whether its status is. -/
def writeChunk (E : Elements V) (good : List Bool) (now : Nat) (priority : Priority)
    (s : Batching V) (chunk : List Queued) : Batching V :=
  let (items, outgoing) := chunk.foldl (collect E) (s.items, [])
  let written := outgoing.filter (·.2.isSome)
  let items := written.zipIdx.foldl (fun items (w, i) =>
    let reason : ProcessReason := if good[i]? = some true then .writeComplete else .writeFailure
    items.modify w.1 (Item.setIncomingEvent reason now)) items
  { s with items, rounds := s.rounds ++ [.write priority outgoing] }

/-- The priority that goes first. -/
def top (queues : Priority → List Queued) : Priority :=
  ([.high, .medium, .low].find? fun priority => !(queues priority).isEmpty).getD .low

/-- The results of each chunk in turn. -/
def flush (E : Elements V) (limits : NodeLimits) (results : Nat → List (ReadAnswer V))
    (good : Nat → List Bool) (now : Nat) (s : Batching V) : Batching V :=
  match takeBatch s.writes limits.writeLimit with
  | some (batch, writes) =>
    (Session.chunks limits.writeLimit batch).zipIdx.foldl
      (fun t (chunk, k) => writeChunk E (good k) now (top s.writes) t chunk) { s with writes }
  | none =>
    match takeBatch s.reads limits.readLimit with
    | some (batch, reads) =>
      (Session.chunks limits.readLimit batch).zipIdx.foldl
        (fun t (chunk, k) => readChunk E (results k) now (top s.reads) t chunk) { s with reads }
    | none => s

end Batching

inductive BatchAct (V : Type) where
  | request (priority : Priority) (request : Request)
  /-- An item changes under the records and the server. -/
  | touch (handle : Nat) (item : Item V)
  | flush (results : Nat → List (ReadAnswer V)) (good : Nat → List Bool) (now : Nat)

/-- A request names an item. -/
def Batching.step (E : Elements V) (limits : NodeLimits) (s : Batching V) :
    BatchAct V → Option (Batching V)
  | .request priority request =>
    if request.handle < s.items.length then
      let queued : Queued := ⟨request.handle, request.since⟩
      some (match request.action with
        | .read =>
          { s with
            reads := Function.update s.reads priority (s.reads priority ++ [queued])
            readsRequested := Function.update s.readsRequested priority
              (s.readsRequested priority ++ [request.handle]) }
        | .write =>
          { s with
            writes := Function.update s.writes priority (s.writes priority ++ [queued])
            writesRequested := Function.update s.writesRequested priority
              (s.writesRequested priority ++ [request.handle]) })
    else none
  | .touch handle item => some { s with items := s.items.set handle item }
  | .flush results good now => some (s.flush E limits results good now)

/-- Any content of the queues, for items there are. -/
structure Batching.Init (s : Batching V) : Prop where
  reads : ∀ p, ∀ q ∈ s.reads p, q.handle < s.items.length
  writes : ∀ p, ∀ q ∈ s.writes p, q.handle < s.items.length
  readsRequested : ∀ p, s.readsRequested p = (s.reads p).map (·.handle)
  writesRequested : ∀ p, s.writesRequested p = (s.writes p).map (·.handle)
  rounds : s.rounds = []
  delivered : s.delivered = []

namespace Round

/-- The handles a Read of priority `p` carries. -/
def readHandles (p : Priority) : Round V → List Nat
  | .read priority handles _ => if p = priority then handles else []
  | .write _ _ => []

def writeHandles (p : Priority) : Round V → List Nat
  | .read _ _ _ => []
  | .write priority outgoing => if p = priority then outgoing.map (·.1) else []

/-- A Read is two nodes for each handle, a Write one for each that has something to write, and
the nodes of a call keep its limit.  One item exceeds a limit of one node by itself. -/
def Within (limits : NodeLimits) : Round V → Prop
  | .read _ handles nodes =>
    nodes = handles.flatMap (fun h => [(h, .dataType), (h, .value)]) ∧ nodes ≠ [] ∧
      (limits.read = 0 ∨ limits.read = 1 ∨ nodes.length ≤ limits.read)
  | .write _ outgoing => limits.write = 0 ∨ (outgoing.filter (·.2.isSome)).length ≤ limits.write

end Round

namespace Batching

/-- What Reads of priority `p` have carried. -/
def carriedReads (s : Batching V) (p : Priority) : List Nat := s.rounds.flatMap (·.readHandles p)

def carriedWrites (s : Batching V) (p : Priority) : List Nat := s.rounds.flatMap (·.writeHandles p)

def deliveredTo (s : Batching V) (p : Priority) : List Nat :=
  (s.delivered.filter (·.1 = p)).map (·.2)

def queued (queues : Priority → List Queued) : Nat :=
  (queues .high).length + (queues .medium).length + (queues .low).length

/-- How many handles are queued. -/
def pending (s : Batching V) : Nat := queued s.reads + queued s.writes

end Batching

/-! ## Limits and chunks -/

namespace NodeLimits

variable (limits : NodeLimits)

theorem readBatchSize_of_ne {limits : NodeLimits} (h : limits.read ≠ 0) :
    limits.readBatchSize = limits.read := by
  unfold readBatchSize batchSize
  show (match limits.read with | 0 => usizeMax | max => max) = limits.read
  split
  next heq => exact absurd heq h
  next => rfl

theorem writeBatchSize_of_ne {limits : NodeLimits} (h : limits.write ≠ 0) :
    limits.writeBatchSize = limits.write := by
  unfold writeBatchSize batchSize
  show (match limits.write with | 0 => usizeMax | max => max) = limits.write
  split
  next heq => exact absurd heq h
  next => rfl

/-- Half the limit, rounded down, is within it, and is not clamped from two nodes on. -/
theorem two_mul_readLimit_le :
    limits.read = 0 ∨ limits.read = 1 ∨ 2 * limits.readLimit ≤ limits.read := by
  by_cases h : limits.read = 0
  · exact Or.inl h
  · have hsize := readBatchSize_of_ne h
    rw [readLimit, noOfPropertiesRead, hsize]
    omega

theorem writeLimit_le : limits.write = 0 ∨ limits.writeLimit ≤ limits.write := by
  by_cases h : limits.write = 0
  · exact Or.inl h
  · have hsize := writeBatchSize_of_ne h
    rw [writeLimit, hsize]
    omega

end NodeLimits

namespace Session

theorem flatten_chunks (limit : Nat) (batch : List Queued) :
    (chunks limit batch).flatten = batch := by
  have hsize : 0 < max limit 1 := by omega
  have hblocks : ∀ m, ((List.range m).map fun k =>
      (batch.drop (k * max limit 1)).take (max limit 1)).flatten = batch.take (m * max limit 1) := by
    intro m
    induction m with
    | zero => simp
    | succ m ih =>
      rw [List.range_succ, List.map_append, List.flatten_append, ih, Nat.succ_mul, List.take_add]
      simp
  have hdiv := Nat.div_add_mod (batch.length + max limit 1 - 1) (max limit 1)
  have hmod := Nat.mod_lt (batch.length + max limit 1 - 1) hsize
  show ((List.range ((batch.length + max limit 1 - 1) / max limit 1)).map fun k =>
    (batch.drop (k * max limit 1)).take (max limit 1)).flatten = batch
  rw [hblocks, List.take_of_length_le]
  rw [Nat.mul_comm] at hdiv
  omega

theorem handles_chunks (limit : Nat) (batch : List Queued) :
    (chunks limit batch).flatMap (fun chunk => chunk.map (·.handle)) = batch.map (·.handle) := by
  rw [List.flatMap_def, ← List.map_flatten, flatten_chunks]

theorem length_of_mem_chunks {limit : Nat} {batch chunk : List Queued}
    (h : chunk ∈ chunks limit batch) : chunk.length ≤ max limit 1 := by
  obtain ⟨k, -, rfl⟩ := List.mem_map.1 h
  exact List.length_take_le _ _

end Session

/-! ## What a flush takes up -/

namespace Batching

variable {E : Elements V} {limits : NodeLimits}

/-- `t` is `s` after calls that carried `reads` and `writes` of priority `p`, and nothing else. -/
structure Taken (limits : NodeLimits) (p : Priority) (reads writes : List Nat)
    (s t : Batching V) : Prop where
  length : t.items.length = s.items.length
  queuedReads : t.reads = s.reads
  queuedWrites : t.writes = s.writes
  readsRequested : t.readsRequested = s.readsRequested
  writesRequested : t.writesRequested = s.writesRequested
  carriedReads : ∀ q, t.carriedReads q = s.carriedReads q ++ if q = p then reads else []
  carriedWrites : ∀ q, t.carriedWrites q = s.carriedWrites q ++ if q = p then writes else []
  delivered : ∀ q, t.deliveredTo q = s.deliveredTo q ++ if q = p then reads else []
  within : (∀ r ∈ s.rounds, r.Within limits) → ∀ r ∈ t.rounds, r.Within limits

theorem Taken.refl (p : Priority) (s : Batching V) : Taken limits p [] [] s s where
  length := rfl
  queuedReads := rfl
  queuedWrites := rfl
  readsRequested := rfl
  writesRequested := rfl
  carriedReads q := by rw [ite_self, List.append_nil]
  carriedWrites q := by rw [ite_self, List.append_nil]
  delivered q := by rw [ite_self, List.append_nil]
  within h := h

theorem Taken.trans {p : Priority} {rs rs' ws ws' : List Nat} {s t u : Batching V}
    (h : Taken limits p rs ws s t) (h' : Taken limits p rs' ws' t u) :
    Taken limits p (rs ++ rs') (ws ++ ws') s u where
  length := h'.length.trans h.length
  queuedReads := h'.queuedReads.trans h.queuedReads
  queuedWrites := h'.queuedWrites.trans h.queuedWrites
  readsRequested := h'.readsRequested.trans h.readsRequested
  writesRequested := h'.writesRequested.trans h.writesRequested
  carriedReads q := by
    rw [h'.carriedReads, h.carriedReads, List.append_assoc]
    split <;> rfl
  carriedWrites q := by
    rw [h'.carriedWrites, h.carriedWrites, List.append_assoc]
    split <;> rfl
  delivered q := by
    rw [h'.delivered, h.delivered, List.append_assoc]
    split <;> rfl
  within hs := h'.within (h.within hs)

/-- Chunk after chunk: `rs` and `ws` say what one carries. -/
theorem Taken.chunks {p : Priority} {f : Batching V → List Queued × Nat → Batching V}
    {rs ws : List Queued → List Nat} {n : Nat} {cs : List (List Queued)}
    (hf : ∀ t chunk k, chunk ∈ cs → t.items.length = n →
      Taken limits p (rs chunk) (ws chunk) t (f t (chunk, k)))
    {s : Batching V} (hs : s.items.length = n) (k : Nat) :
    Taken limits p (cs.flatMap rs) (cs.flatMap ws) s ((cs.zipIdx k).foldl f s) := by
  induction cs generalizing s k with
  | nil => exact .refl p s
  | cons chunk cs ih =>
    rw [List.zipIdx_cons, List.foldl_cons, List.flatMap_cons, List.flatMap_cons]
    have hfirst := hf s chunk k List.mem_cons_self hs
    refine hfirst.trans (ih (fun t c k hc ht => ?_) (hfirst.length.trans hs) (k + 1))
    exact hf t c k (List.mem_cons_of_mem _ hc) ht

/-! ## Reads -/

theorem readNodes_eq {s : Batching V} {chunk : List Queued}
    (h : ∀ q ∈ chunk, q.handle < s.items.length) :
    s.readNodes chunk =
      (chunk.map (·.handle)).flatMap fun handle => [(handle, .dataType), (handle, .value)] := by
  rw [List.flatMap_map, readNodes]
  refine List.flatMap_congr fun q hq => ?_
  rw [if_pos (h q hq)]

theorem length_pairs (handles : List Nat) :
    (handles.flatMap fun handle => [(handle, Attribute.dataType), (handle, .value)]).length =
      2 * handles.length := by
  induction handles with
  | nil => rfl
  | cons handle handles ih =>
    rw [List.flatMap_cons, List.length_append, ih]
    show 2 + 2 * handles.length = 2 * (handles.length + 1)
    omega

/-- The results of a Read go to its handles, one each. -/
theorem deliverSteps {results : List (ReadAnswer V)} {now : Nat} {p : Priority}
    {chunk : List Queued} {s : Batching V} (h : ∀ q ∈ chunk, q.handle < s.items.length) (k : Nat) :
    ∃ items, (chunk.zipIdx k).foldl (deliverStep E results now p) s =
        { s with items, delivered := s.delivered ++ chunk.map fun q => (p, q.handle) } ∧
      items.length = s.items.length := by
  induction chunk generalizing s k with
  | nil => exact ⟨s.items, by simp, rfl⟩
  | cons q chunk ih =>
    rw [List.zipIdx_cons, List.foldl_cons]
    have hq := h q List.mem_cons_self
    obtain ⟨items, hstep, hlen⟩ : ∃ items, deliverStep E results now p s (q, k) =
        { s with items, delivered := s.delivered ++ [(p, q.handle)] } ∧
          items.length = s.items.length := by
      rw [deliverStep, if_pos hq]
      exact ⟨_, rfl, List.length_modify _ _ _⟩
    rw [hstep]
    obtain ⟨items', heq, hlen'⟩ := @ih { s with
        items := items
        delivered := s.delivered ++ [(p, q.handle)] }
      (fun q' hq' => by
        show q'.handle < items.length
        rw [hlen]
        exact h q' (List.mem_cons_of_mem _ hq')) (k + 1)
    refine ⟨items', ?_, hlen'.trans hlen⟩
    rw [heq, List.map_cons, ← List.append_cons]

/-- A Read carries its chunk. -/
theorem readChunk_taken {results : List (ReadAnswer V)} {now : Nat} {p : Priority}
    {chunk : List Queued} {s : Batching V} (h : ∀ q ∈ chunk, q.handle < s.items.length)
    (hsize : chunk.length ≤ limits.readLimit) :
    Taken limits p (chunk.map (·.handle)) [] s (readChunk E results now p s chunk) := by
  have hnodes := readNodes_eq h
  by_cases hempty : chunk = []
  · subst hempty
    exact .refl p s
  · have hne : s.readNodes chunk ≠ [] := by
      intro hnil
      have hlen := length_pairs (chunk.map (·.handle))
      rw [← hnodes, hnil, List.length_map, List.length_nil] at hlen
      have := List.length_pos_iff.2 hempty
      omega
    obtain ⟨items, hfold, hlen⟩ := @deliverSteps V E results now p chunk
      { s with rounds := s.rounds ++ [.read p (chunk.map (·.handle)) (s.readNodes chunk)] } h 0
    have hstep : readChunk E results now p s chunk = _ :=
      (if_neg (fun hnil => hne (List.isEmpty_iff.1 hnil))).trans hfold
    rw [hstep]
    refine ⟨hlen, rfl, rfl, rfl, rfl, fun q => ?_, fun q => ?_, fun q => ?_, fun hs r hr => ?_⟩
    · show (s.rounds ++ [_]).flatMap _ = _
      rw [List.flatMap_append, List.flatMap_singleton]
      rfl
    · show (s.rounds ++ [_]).flatMap _ = _
      rw [List.flatMap_append, List.flatMap_singleton, ite_self]
      rfl
    · show ((s.delivered ++ _).filter _).map _ = _
      rw [List.filter_append, List.map_append, List.filter_map, List.map_map]
      by_cases hq : q = p
      · subst hq
        simp [deliveredTo, Function.comp_def]
      · have hpq : p ≠ q := fun heq => hq heq.symm
        simp [deliveredTo, Function.comp_def, hq, hpq]
    · rcases List.mem_append.1 hr with hr | hr
      · exact hs r hr
      · rw [List.mem_singleton.1 hr]
        refine ⟨hnodes, hne, ?_⟩
        rw [hnodes, length_pairs, List.length_map]
        have hlimit := limits.two_mul_readLimit_le
        omega

/-! ## Writes -/

/-- Each item of the chunk gives what it has to write, if anything. -/
theorem collects {chunk : List Queued} {acc : List (Item V) × List (Nat × Option V)}
    (h : ∀ q ∈ chunk, q.handle < acc.1.length) :
    (chunk.foldl (collect E) acc).1.length = acc.1.length ∧
      (chunk.foldl (collect E) acc).2.map (·.1) = acc.2.map (·.1) ++ chunk.map (·.handle) := by
  induction chunk generalizing acc with
  | nil => simp
  | cons q chunk ih =>
    have hq := h q List.mem_cons_self
    obtain ⟨outgoing, item, hstep⟩ : ∃ outgoing item, collect E acc q =
        (acc.1.set q.handle item, acc.2 ++ [(q.handle, outgoing)]) := by
      rw [collect, List.getElem?_eq_getElem hq]
      exact ⟨_, _, rfl⟩
    have hlen : (collect E acc q).1.length = acc.1.length := by
      rw [hstep]
      exact List.length_set
    rw [List.foldl_cons]
    obtain ⟨h1, h2⟩ := @ih (collect E acc q)
      (fun q' hq' => by
        rw [hlen]
        exact h q' (List.mem_cons_of_mem _ hq'))
    refine ⟨h1.trans hlen, ?_⟩
    rw [h2, hstep, List.map_append, List.map_cons, List.append_assoc]
    rfl

theorem length_events {good : List Bool} {now : Nat} (written : List ((Nat × Option V) × Nat))
    (items : List (Item V)) :
    (written.foldl (fun items (w, i) =>
      let reason : ProcessReason := if good[i]? = some true then .writeComplete else .writeFailure
      items.modify w.1 (Item.setIncomingEvent reason now)) items).length = items.length := by
  induction written generalizing items with
  | nil => rfl
  | cons w written ih =>
    rw [List.foldl_cons, ih]
    exact List.length_modify _ _ _

/-- A Write takes its chunk up, with a node for each item that has something to write. -/
theorem writeChunk_taken {good : List Bool} {now : Nat} {p : Priority} {chunk : List Queued}
    {s : Batching V} (h : ∀ q ∈ chunk, q.handle < s.items.length)
    (hsize : chunk.length ≤ limits.writeLimit) :
    Taken limits p [] (chunk.map (·.handle)) s (writeChunk E good now p s chunk) := by
  obtain ⟨hlen, hhandles⟩ := @collects V E chunk (s.items, []) h
  have hcount := congrArg List.length hhandles
  rw [List.length_map, List.map_nil, List.nil_append, List.length_map] at hcount
  refine ⟨?_, rfl, rfl, rfl, rfl, fun q => ?_, fun q => ?_, fun q => ?_, fun hs r hr => ?_⟩
  · exact (length_events _ _).trans hlen
  · show (s.rounds ++ [_]).flatMap _ = _
    rw [List.flatMap_append, List.flatMap_singleton, ite_self]
    rfl
  · show (s.rounds ++ [_]).flatMap _ = _
    rw [List.flatMap_append, List.flatMap_singleton]
    show s.carriedWrites q ++ (if q = p then (chunk.foldl (collect E) (s.items, [])).2.map (·.1)
      else []) = _
    rw [hhandles]
    rfl
  · rw [ite_self, List.append_nil]
    rfl
  · rcases List.mem_append.1 hr with hr | hr
    · exact hs r hr
    · rw [List.mem_singleton.1 hr]
      show limits.write = 0 ∨ ((chunk.foldl (collect E) (s.items, [])).2.filter _).length ≤ _
      have hfilter := List.length_filter_le (fun w : Nat × Option V => w.2.isSome)
        (chunk.foldl (collect E) (s.items, [])).2
      have hlimit := limits.writeLimit_le
      omega

/-! ## Flushes, and runs of them -/

theorem takeBatch_some {queues queues' : Priority → List Queued} {limit : Nat} {batch : List Queued}
    (h : takeBatch queues limit = some (batch, queues')) :
    batch ≠ [] ∧
      ∀ p, queues p = (if p = top queues then batch else []) ++ queues' p := by
  obtain ⟨priority, hfind, heq⟩ := Option.map_eq_some_iff.1 h
  have htop : top queues = priority := by rw [top, hfind, Option.getD_some]
  have hne := List.find?_some hfind
  rw [Bool.not_eq_true', List.isEmpty_eq_false_iff] at hne
  cases heq
  constructor
  · intro hnil
    rcases List.take_eq_nil_iff.1 hnil with hzero | hnil
    · omega
    · exact hne hnil
  · intro p
    rw [htop]
    by_cases hp : p = priority
    · subst hp
      dsimp only
      rw [if_pos rfl, if_pos rfl, List.take_append_drop]
    · dsimp only
      rw [if_neg hp, if_neg hp, List.nil_append]

theorem takeBatch_none {queues : Priority → List Queued} {limit : Nat}
    (h : takeBatch queues limit = none) : queued queues = 0 := by
  have hfind := List.find?_eq_none.1 (Option.map_eq_none_iff.1 h)
  have hempty : ∀ p, p ∈ [Priority.high, .medium, .low] → (queues p).length = 0 := by
    intro p hp
    have hp := hfind p hp
    rw [Bool.not_eq_true', List.isEmpty_eq_false_iff, not_not] at hp
    rw [hp, List.length_nil]
  rw [queued, hempty .high (by decide), hempty .medium (by decide), hempty .low (by decide)]

theorem queued_of_takeBatch {queues queues' : Priority → List Queued} {limit : Nat}
    {batch : List Queued} (h : takeBatch queues limit = some (batch, queues')) :
    queued queues' < queued queues := by
  obtain ⟨hne, hqueues⟩ := takeBatch_some h
  have hpos := List.length_pos_iff.2 hne
  have hlen := fun p => congrArg List.length (hqueues p)
  simp only [List.length_append] at hlen
  have hhigh := hlen .high
  have hmedium := hlen .medium
  have hlow := hlen .low
  unfold queued
  cases htop : top queues <;>
    simp only [htop, if_true, reduceCtorEq, if_false, List.length_nil] at hhigh hmedium hlow <;>
    omega

/-- Every handle that was ever queued is carried already or queued still, in its order. -/
structure Inv (limits : NodeLimits) (s : Batching V) : Prop where
  validReads : ∀ p, ∀ q ∈ s.reads p, q.handle < s.items.length
  validWrites : ∀ p, ∀ q ∈ s.writes p, q.handle < s.items.length
  reads : ∀ p, s.carriedReads p ++ (s.reads p).map (·.handle) = s.readsRequested p
  writes : ∀ p, s.carriedWrites p ++ (s.writes p).map (·.handle) = s.writesRequested p
  delivered : ∀ p, s.deliveredTo p = s.carriedReads p
  within : ∀ r ∈ s.rounds, r.Within limits

theorem Inv.init {s : Batching V} (h : Init s) : Inv limits s where
  validReads := h.reads
  validWrites := h.writes
  reads p := by
    rw [carriedReads, h.rounds, h.readsRequested]
    rfl
  writes p := by
    rw [carriedWrites, h.rounds, h.writesRequested]
    rfl
  delivered p := by
    rw [deliveredTo, carriedReads, h.delivered, h.rounds]
    rfl
  within r hr := by
    rw [h.rounds] at hr
    exact absurd hr List.not_mem_nil

/-- A flush takes a batch of Writes up, or of Reads, or there is nothing to do. -/
theorem flush_cases {results : Nat → List (ReadAnswer V)} {good : Nat → List Bool} {now : Nat}
    {s : Batching V} (h : Inv limits s) :
    (∃ batch writes, takeBatch s.writes limits.writeLimit = some (batch, writes) ∧
      Taken limits (top s.writes) [] (batch.map (·.handle)) { s with writes }
        (s.flush E limits results good now)) ∨
    (∃ batch reads, takeBatch s.writes limits.writeLimit = none ∧
      takeBatch s.reads limits.readLimit = some (batch, reads) ∧
      Taken limits (top s.reads) (batch.map (·.handle)) [] { s with reads }
        (s.flush E limits results good now)) ∨
    (s.pending = 0 ∧ s.flush E limits results good now = s) := by
  unfold flush
  split
  next batch writes htake =>
    refine Or.inl ⟨batch, writes, htake, ?_⟩
    have hvalid : ∀ q ∈ batch, q.handle < s.items.length := by
      intro q hq
      obtain ⟨p, hp⟩ := (takeBatch_mem htake).1 q hq
      exact h.validWrites p q hp
    have hchunks := @Taken.chunks V limits (top s.writes)
      (fun t c => writeChunk E (good c.2) now (top s.writes) t c.1)
      (fun _ => []) (fun chunk => chunk.map (·.handle)) s.items.length
      (Session.chunks limits.writeLimit batch)
      (fun t chunk k hc ht => writeChunk_taken
        (fun q hq => by
          rw [ht]
          exact hvalid q (Session.mem_chunks hc hq))
        ((Session.length_of_mem_chunks hc).trans (by unfold NodeLimits.writeLimit; omega)))
      { s with writes } rfl 0
    rw [Session.handles_chunks, List.flatMap_eq_nil_iff.2 fun _ _ => rfl]
      at hchunks
    exact hchunks
  next hnone =>
    split
    next batch reads htake =>
      refine Or.inr (Or.inl ⟨batch, reads, hnone, htake, ?_⟩)
      have hvalid : ∀ q ∈ batch, q.handle < s.items.length := by
        intro q hq
        obtain ⟨p, hp⟩ := (takeBatch_mem htake).1 q hq
        exact h.validReads p q hp
      have hchunks := @Taken.chunks V limits (top s.reads)
        (fun t c => readChunk E (results c.2) now (top s.reads) t c.1)
        (fun chunk => chunk.map (·.handle)) (fun _ => []) s.items.length
        (Session.chunks limits.readLimit batch)
        (fun t chunk k hc ht => readChunk_taken
          (fun q hq => by
            rw [ht]
            exact hvalid q (Session.mem_chunks hc hq))
          ((Session.length_of_mem_chunks hc).trans (by unfold NodeLimits.readLimit; omega)))
        { s with reads } rfl 0
      rw [Session.handles_chunks, List.flatMap_eq_nil_iff.2 fun _ _ => rfl]
        at hchunks
      exact hchunks
    next hnone' =>
      refine Or.inr (Or.inr ⟨?_, rfl⟩)
      rw [pending, takeBatch_none hnone, takeBatch_none hnone']

/-- A batch of Writes goes from its queue into calls. -/
theorem Inv.takeWrites {s t : Batching V} {batch : List Queued} {writes : Priority → List Queued}
    (h : Inv limits s) (htake : takeBatch s.writes limits.writeLimit = some (batch, writes))
    (ht : Taken limits (top s.writes) [] (batch.map (·.handle)) { s with writes } t) :
    Inv limits t where
  validReads p q hq := by
    rw [ht.queuedReads] at hq
    rw [ht.length]
    exact h.validReads p q hq
  validWrites p q hq := by
    rw [ht.queuedWrites] at hq
    rw [ht.length]
    exact h.validWrites p q ((takeBatch_mem htake).2 p q hq)
  reads p := by
    rw [ht.carriedReads, ht.queuedReads, ht.readsRequested, ite_self, List.append_nil]
    exact h.reads p
  writes p := by
    rw [ht.carriedWrites, ht.queuedWrites, ht.writesRequested, List.append_assoc]
    show s.carriedWrites p ++ _ = s.writesRequested p
    rw [← h.writes p, (takeBatch_some htake).2 p, List.map_append]
    split <;> rfl
  delivered p := by
    rw [ht.delivered, ht.carriedReads]
    exact congrArg (· ++ _) (h.delivered p)
  within := ht.within h.within

/-- A batch of Reads goes from its queue into calls. -/
theorem Inv.takeReads {s t : Batching V} {batch : List Queued} {reads : Priority → List Queued}
    (h : Inv limits s) (htake : takeBatch s.reads limits.readLimit = some (batch, reads))
    (ht : Taken limits (top s.reads) (batch.map (·.handle)) [] { s with reads } t) :
    Inv limits t where
  validReads p q hq := by
    rw [ht.queuedReads] at hq
    rw [ht.length]
    exact h.validReads p q ((takeBatch_mem htake).2 p q hq)
  validWrites p q hq := by
    rw [ht.queuedWrites] at hq
    rw [ht.length]
    exact h.validWrites p q hq
  reads p := by
    rw [ht.carriedReads, ht.queuedReads, ht.readsRequested, List.append_assoc]
    show s.carriedReads p ++ _ = s.readsRequested p
    rw [← h.reads p, (takeBatch_some htake).2 p, List.map_append]
    split <;> rfl
  writes p := by
    rw [ht.carriedWrites, ht.queuedWrites, ht.writesRequested, ite_self, List.append_nil]
    exact h.writes p
  delivered p := by
    rw [ht.delivered, ht.carriedReads]
    exact congrArg (· ++ _) (h.delivered p)
  within := ht.within h.within

/-- A flush loses nothing, and takes something up as long as there is anything. -/
theorem Inv.flush {results : Nat → List (ReadAnswer V)} {good : Nat → List Bool} {now : Nat}
    {s : Batching V} (h : Inv limits s) :
    Inv limits (s.flush E limits results good now) ∧
      (s.flush E limits results good now).readsRequested = s.readsRequested ∧
      (s.flush E limits results good now).writesRequested = s.writesRequested ∧
      ((s.flush E limits results good now).pending < s.pending ∨
        (s.flush E limits results good now).pending = 0) := by
  rcases @flush_cases V E limits results good now s h with
    ⟨batch, writes, htake, ht⟩ | ⟨batch, reads, -, htake, ht⟩ | ⟨hzero, heq⟩
  · refine ⟨h.takeWrites htake ht, ht.readsRequested, ht.writesRequested, Or.inl ?_⟩
    rw [pending, pending, ht.queuedReads, ht.queuedWrites]
    exact Nat.add_lt_add_left (queued_of_takeBatch htake) _
  · refine ⟨h.takeReads htake ht, ht.readsRequested, ht.writesRequested, Or.inl ?_⟩
    rw [pending, pending, ht.queuedReads, ht.queuedWrites]
    exact Nat.add_lt_add_right (queued_of_takeBatch htake) _
  · rw [heq]
    exact ⟨h, rfl, rfl, Or.inr hzero⟩

theorem Inv.step {s t : Batching V} {a : BatchAct V} (h : Inv limits s)
    (hstep : Batching.step E limits s a = some t) : Inv limits t := by
  cases a with
  | request priority request =>
    obtain ⟨hvalid, heq⟩ := Option.ite_none_right_eq_some.1 hstep
    cases heq
    have hmem : ∀ (queues : Priority → List Queued),
        (∀ p, ∀ q ∈ queues p, q.handle < s.items.length) → ∀ p,
          ∀ q ∈ Function.update queues priority
              (queues priority ++ [⟨request.handle, request.since⟩]) p,
            q.handle < s.items.length := by
      intro queues hqueues p q hq
      by_cases hp : p = priority
      · subst hp
        rw [Function.update_self] at hq
        rcases List.mem_append.1 hq with hq | hq
        · exact hqueues p q hq
        · rw [List.mem_singleton.1 hq]
          exact hvalid
      · rw [Function.update_of_ne hp] at hq
        exact hqueues p q hq
    have happend : ∀ (queues : Priority → List Queued) (requested : Priority → List Nat)
        (carried : Priority → List Nat),
        (∀ p, carried p ++ (queues p).map (·.handle) = requested p) → ∀ p, carried p ++
          (Function.update queues priority
            (queues priority ++ [⟨request.handle, request.since⟩]) p).map (·.handle) =
          Function.update requested priority (requested priority ++ [request.handle]) p := by
      intro queues requested carried hcarried p
      by_cases hp : p = priority
      · subst hp
        rw [Function.update_self, Function.update_self, List.map_append, ← List.append_assoc,
          hcarried p]
        rfl
      · rw [Function.update_of_ne hp, Function.update_of_ne hp]
        exact hcarried p
    cases request.action with
    | read =>
      exact ⟨hmem _ h.validReads, h.validWrites, happend _ _ _ h.reads, h.writes, h.delivered,
        h.within⟩
    | write =>
      exact ⟨h.validReads, hmem _ h.validWrites, h.reads, happend _ _ _ h.writes, h.delivered,
        h.within⟩
  | touch handle item =>
    cases hstep
    have hlen : (s.items.set handle item).length = s.items.length := List.length_set
    refine ⟨fun p q hq => ?_, fun p q hq => ?_, h.reads, h.writes, h.delivered, h.within⟩
    · show q.handle < (s.items.set handle item).length
      rw [hlen]
      exact h.validReads p q hq
    · show q.handle < (s.items.set handle item).length
      rw [hlen]
      exact h.validWrites p q hq
  | flush results good now =>
    cases hstep
    exact h.flush.1

/-- What the calls of one flush answer. -/
structure Answers (V : Type) where
  results : Nat → List (ReadAnswer V)
  good : Nat → List Bool
  now : Nat

def flushAll (E : Elements V) (limits : NodeLimits) (flushes : List (Answers V)) (s : Batching V) :
    Batching V :=
  flushes.foldl (fun s f => s.flush E limits f.results f.good f.now) s

theorem Inv.flushAll {flushes : List (Answers V)} {s : Batching V} (h : Inv limits s)
    (hlen : s.pending ≤ flushes.length) :
    Inv limits (s.flushAll E limits flushes) ∧
      (s.flushAll E limits flushes).readsRequested = s.readsRequested ∧
      (s.flushAll E limits flushes).writesRequested = s.writesRequested ∧
      (s.flushAll E limits flushes).pending = 0 := by
  induction flushes generalizing s with
  | nil => exact ⟨h, rfl, rfl, Nat.le_zero.1 hlen⟩
  | cons f flushes ih =>
    obtain ⟨hinv, hreads, hwrites, hless⟩ := @Inv.flush V E limits f.results f.good f.now s h
    have hrest : (s.flush E limits f.results f.good f.now).pending ≤ flushes.length := by
      rw [List.length_cons] at hlen
      omega
    obtain ⟨hinv', hreads', hwrites', hzero⟩ := ih hinv hrest
    exact ⟨hinv', hreads'.trans hreads, hwrites'.trans hwrites, hzero⟩

theorem nil_of_queued {queues : Priority → List Queued} (h : queued queues = 0) (p : Priority) :
    queues p = [] := by
  unfold queued at h
  apply List.eq_nil_of_length_eq_zero
  cases p <;> omega

/-- Nothing queued: everything was carried. -/
theorem Inv.drained {s : Batching V} (h : Inv limits s) (hzero : s.pending = 0) (p : Priority) :
    s.carriedReads p = s.readsRequested p ∧ s.carriedWrites p = s.writesRequested p ∧
      s.deliveredTo p = s.readsRequested p := by
  obtain ⟨hr, hw⟩ := Nat.add_eq_zero_iff.1 hzero
  have hreads := h.reads p
  have hwrites := h.writes p
  rw [nil_of_queued hr, List.map_nil, List.append_nil] at hreads
  rw [nil_of_queued hw, List.map_nil, List.append_nil] at hwrites
  exact ⟨hreads, hwrites, (h.delivered p).trans hreads⟩

/-- The queues of the worker under requests, changes of the items and flushes. -/
def system (E : Elements V) (limits : NodeLimits) : System (Batching V) (BatchAct V) :=
  .ofFun Init (Batching.step E limits)

/-- **Batching.**  Each call keeps its limit; what was carried and what is queued are what was
requested, in its order, and each Read that was carried had one result or failure delivered;
enough flushes carry everything. -/
theorem requests_batched {s : Batching V} (h : (system E limits).Reachable s) :
    (∀ r ∈ s.rounds, r.Within limits) ∧
      (∀ p, s.carriedReads p ++ (s.reads p).map (·.handle) = s.readsRequested p ∧
        s.carriedWrites p ++ (s.writes p).map (·.handle) = s.writesRequested p ∧
        s.deliveredTo p = s.carriedReads p) ∧
      ∀ flushes : List (Answers V), s.pending ≤ flushes.length →
        ∀ p, (s.flushAll E limits flushes).carriedReads p = s.readsRequested p ∧
          (s.flushAll E limits flushes).carriedWrites p = s.writesRequested p ∧
          (s.flushAll E limits flushes).deliveredTo p = s.readsRequested p := by
  have hinv : Inv limits s :=
    System.Reachable.invariant (P := Inv limits) (fun _ hs => Inv.init hs)
      (fun _ _ _ hi ha => hi.step ha) h
  refine ⟨hinv.within, fun p => ⟨hinv.reads p, hinv.writes p, hinv.delivered p⟩, ?_⟩
  intro flushes hlen p
  obtain ⟨hend, hreads, hwrites, hzero⟩ := @Inv.flushAll V E limits flushes s hinv hlen
  rw [← hreads, ← hwrites]
  exact hend.drained hzero p

/-! ## Calls that differ -/

def oneNode : NodeLimits := ⟨1, 1, 0, 0⟩

/-- One item whose record has a value to write, with two Writes of it and a Read. -/
def writtenTwice : Batching Nat where
  items := [⟨[{ Leaf.new ⟨3, true, true, .read, []⟩ with outgoing := some 7, dirty := true }], none⟩]
  reads p := if p = .low then [⟨0, 0⟩] else []
  writes p := if p = .high then [⟨0, 0⟩, ⟨0, 0⟩] else []
  readsRequested p := if p = .low then [0] else []
  writesRequested p := if p = .high then [0, 0] else []
  rounds := []
  delivered := []

theorem writtenTwice_init : writtenTwice.Init where
  reads p q hq := by
    cases p <;> simp_all [writtenTwice]
  writes p q hq := by
    cases p <;> simp_all [writtenTwice]
  readsRequested p := by cases p <;> rfl
  writesRequested p := by cases p <;> rfl
  rounds := rfl
  delivered := rfl

/-- The second Write of an item finds nothing left to write and is no call, and a Read of one item
is two nodes where one is the limit. -/
theorem write_left_out :
    ∃ s, (system scalars oneNode).Reachable s ∧ s.pending = 0 ∧
      s.rounds = [.write .high [(0, some 7)], .write .high [(0, none)],
        .read .low [0] [(0, .dataType), (0, .value)]] ∧ oneNode.read = 1 := by
  let flush : BatchAct Nat := .flush (fun _ => []) (fun _ => [true]) 0
  have hrun : ([flush, flush, flush].foldlM (Batching.step scalars oneNode) writtenTwice).map
      (fun s => (s.pending, s.rounds)) =
        some (0, [.write .high [(0, some 7)], .write .high [(0, none)],
          .read .low [0] [(0, .dataType), (0, .value)]]) := by decide +kernel
  obtain ⟨s, hs, hview⟩ := Option.map_eq_some_iff.1 hrun
  obtain ⟨hpending, hrounds⟩ := Prod.mk.inj hview
  exact ⟨s, System.reachable_ofFun writtenTwice_init hs, hpending, hrounds, by decide⟩

/-- Three flushes without a result carry them. -/
theorem requests_batched_writtenTwice :
    (writtenTwice.flushAll scalars oneNode
      (List.replicate 3 ⟨fun _ => [], fun _ => [], 0⟩)).carriedReads .low =
        writtenTwice.readsRequested .low := by
  have hbatched := requests_batched (System.Reachable.init
    (show (system scalars oneNode).init writtenTwice from writtenTwice_init))
  exact (hbatched.2.2 (List.replicate 3 ⟨fun _ => [], fun _ => [], 0⟩) (by decide) .low).1

end Batching

end OpcUa
