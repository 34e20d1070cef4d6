import EpicsIocs.Lib.Steps
import EpicsIocs.OpcUa.Assembly
import Mathlib.Logic.Function.Basic

/-! # Writes of elements

A Write of an item is the last incoming value with the elements of the dirty leaves replaced
(`take_outgoing`).  What the node holds after it has

    at a leaf's path what the Write took from the leaf, else what the incoming value has   (element_writes)

so that a Write made before an incoming value shows the one before it sets the elements of that
one back (`write_reverts`). -/

namespace OpcUa

open Steps

variable {S : Type}

/-! ## One item and its node -/

/-- A Write: what it sends, and which value of the node it is made from; what it took from each
leaf, what of this went in, and what each leaf had written last. -/
structure Sending (S : Type) where
  value : Variant S
  base : Option Nat
  taken : Nat → Option (Variant S)
  carried : Nat → Option (Variant S)
  wrote : Nat → Option (Variant S)

structure ElementNode (S : Type) where
  item : Item (Variant S)
  /-- What the node held: a value to begin with, and one for each Write. -/
  held : List (Variant S)
  /-- Which of these the last incoming value is. -/
  seen : Option Nat
  /-- The Write without an answer. -/
  sending : Option (Sending S)
  writes : List (Sending S)
  /-- What each leaf wrote last. -/
  wrote : Nat → Option (Variant S)

inductive NodeAct (S : Type) where
  /-- A record writes its element, which is no structure. -/
  | store (leaf : Nat) (value : Variant S)
  /-- A record takes an update. -/
  | pass (leaf : Nat)
  | take
  /-- The server answers Good. -/
  | answer (now : Nat)
  | incoming (place : Nat) (reason : ProcessReason) (status : UInt32) (timestamp : Nat)

namespace ElementNode

section
variable (tree : DataTypeTree S) (s : ElementNode S)

/-- All Writes so far. -/
def all : List (Sending S) := s.writes ++ s.sending.toList

def storeValue (j : Nat) (value : Variant S) : ElementNode S :=
  { s with
    item := { s.item with
      leaves := s.item.leaves.modify j fun leaf => { leaf with outgoing := some value, dirty := true } }
    wrote := Function.update s.wrote j (some value) }

def takeStep : ElementNode S :=
  match s.item.takeOutgoing (elements tree) with
  | (none, item) => { s with item }
  | (some value, item) =>
    { s with
      item
      sending := some
        { value
          base := s.seen
          taken := fun j => (s.item.leaves[j]?).bind fun leaf => leaf.takeOutgoing.1
          carried := fun j =>
            (carriedFrom tree s.item.lastValue none s.item.leaves).getD j none
          wrote := s.wrote } }

def step : NodeAct S → Option (ElementNode S)
  | .store j value =>
    (s.item.leaves[j]?).bind fun leaf =>
      if leaf.link.elementPath = [] ∨ (asStructure value).isSome then none
      else some (s.storeValue j value)
  | .pass j =>
    some { s with
      item := { s.item with leaves := s.item.leaves.modify j fun leaf => leaf.pop.2 } }
  | .take => if s.sending.isSome then none else some (s.takeStep tree)
  | .answer now =>
    s.sending.map fun t =>
      { s with
        item := s.item.setIncomingEvent .writeComplete now
        held := s.held ++ [t.value]
        sending := none
        writes := s.writes ++ [t] }
  | .incoming place reason status timestamp =>
    -- The values do not come in another order than the node held them.
    if place < s.seen.getD 0 then none
    else (s.held[place]?).map fun value =>
      { s with
        item := s.item.setIncomingData (elements tree) value reason status timestamp
        seen := some place }

/-- The session has just connected: nothing came in yet, and no leaf has anything to write. -/
structure Init : Prop where
  names : ∀ leaf ∈ s.item.leaves, "" ∉ leaf.link.elementPath
  held : ∃ value, s.held = [value] ∧ Known tree value ∧
    (elementPaths (s.item.leaves.map (·.link))).Pairwise (Apart value)
  clean : ∀ leaf ∈ s.item.leaves, leaf.outgoing = none ∧ leaf.dirty = false
  lastValue : s.item.lastValue = none
  seen : s.seen = none
  sending : s.sending = none
  writes : s.writes = []

end

def system (tree : DataTypeTree S) : System (ElementNode S) (NodeAct S) :=
  System.ofFun (Init tree) (step tree)

end ElementNode

/-! ## What a Write reads of a leaf -/

/-- All that a Write reads of a leaf. -/
def Leaf.written {V : Type} (leaf : Leaf V) : LinkInfo × Option V × Bool :=
  (leaf.link, leaf.outgoing, leaf.dirty)

section
variable {V : Type}

theorem Leaf.written_push (leaf : Leaf V) (update : Update V) :
    (leaf.push update).written = leaf.written := by
  rw [push_eq]
  rfl

theorem Leaf.written_pop (leaf : Leaf V) : leaf.pop.2.written = leaf.written := by
  unfold pop
  split
  · rfl
  · dsimp only
    split <;> rfl

theorem Leaf.written_setIncomingEvent (reason : ProcessReason) (now : Nat) (leaf : Leaf V) :
    (leaf.setIncomingEvent reason now).written = leaf.written := by
  unfold setIncomingEvent
  rw [written_push]
  split <;> rfl

theorem Leaf.written_setIncomingData (E : Elements V) (data : V) (reason : ProcessReason)
    (status : UInt32) (timestamp : Nat) (leaf : Leaf V) :
    (leaf.setIncomingData E data reason status timestamp).written = leaf.written := by
  unfold setIncomingData
  dsimp only
  split
  · rfl
  · rw [written_push]
    rfl
  · split <;> exact written_push _ _

theorem Leaf.taken_of_clean {leaf : Leaf V} (h : leaf.dirty = false) :
    leaf.takeOutgoing.1 = none := by
  rw [takeOutgoing, h]
  rfl

end

namespace ElementNode

variable {tree : DataTypeTree S} {links : List LinkInfo}

/-- What the leaf has to write is what it wrote last; otherwise the last Write took it. -/
structure LeafOk (tree : DataTypeTree S) (wrote : Nat → Option (Variant S))
    (latest : Option (Sending S)) (j : Nat) (leaf : Leaf (Variant S)) : Prop where
  node : leaf.link.elementPath = [] → leaf.dirty = false
  known : ∀ v, leaf.outgoing = some v → Known tree v
  dirty : leaf.dirty = true → leaf.outgoing = wrote j ∧ (wrote j).isSome
  clean : leaf.dirty = false → ∀ t, latest = some t → wrote j = t.wrote j

structure LeavesOk (tree : DataTypeTree S) (links : List LinkInfo)
    (wrote : Nat → Option (Variant S)) (latest : Option (Sending S))
    (leaves : List (Leaf (Variant S))) : Prop where
  links : leaves.map (·.link) = links
  leaf : ∀ j leaf, leaves[j]? = some leaf → LeafOk tree wrote latest j leaf

/-- A Write was made from a value that the node held, and has the elements that went in. -/
structure SendingOk (tree : DataTypeTree S) (links : List LinkInfo) (held : List (Variant S))
    (w : Nat) (t : Sending S) : Prop where
  known : Known tree t.value
  apart : (elementPaths links).Pairwise (Apart t.value)
  base : ∀ k, t.base = some k → k ≤ w
  element : ∀ j link, links[j]? = some link → link.elementPath ≠ [] →
    elementOf t.value link.elementPath =
      (t.carried j).or (elementOf ((t.base.bind (held[·]?)).getD .empty) link.elementPath)
  carried : ∀ j v, t.carried j = some v → t.taken j = some v ∧ t.wrote j = some v

structure Inv (tree : DataTypeTree S) (links : List LinkInfo) (s : ElementNode S) : Prop where
  names : ∀ link ∈ links, "" ∉ link.elementPath
  leaves : LeavesOk tree links s.wrote s.all.getLast? s.item.leaves
  held : ∀ v ∈ s.held, Known tree v ∧ (elementPaths links).Pairwise (Apart v)
  nested : (elementPaths links).Pairwise (Apart (.empty : Variant S))
  count : s.held.length = s.writes.length + 1
  last : s.item.lastValue = s.seen.bind (s.held[·]?)
  seen : ∀ k, s.seen = some k → k < s.held.length
  sent : ∀ w t, s.all[w]? = some t → SendingOk tree links s.held w t
  chain : ∀ w t t', s.all[w]? = some t → s.all[w + 1]? = some t' → ∀ j < links.length,
    t'.taken j = none → t'.wrote j = t.wrote j
  placed : ∀ w t, s.writes[w]? = some t → s.held[w + 1]? = some t.value

theorem LeafOk.congr {wrote : Nat → Option (Variant S)} {latest : Option (Sending S)} {j : Nat}
    {leaf leaf' : Leaf (Variant S)} (h : LeafOk tree wrote latest j leaf)
    (heq : leaf'.written = leaf.written) : LeafOk tree wrote latest j leaf' := by
  obtain ⟨hlink, hrest⟩ := Prod.mk.inj heq
  obtain ⟨houtgoing, hdirty⟩ := Prod.mk.inj hrest
  constructor
  · rw [hlink, hdirty]
    exact h.node
  · rw [houtgoing]
    exact h.known
  · rw [houtgoing, hdirty]
    exact h.dirty
  · rw [hdirty]
    exact h.clean

/-- Leaves of which a Write reads the same. -/
theorem LeavesOk.congr {wrote : Nat → Option (Variant S)} {latest : Option (Sending S)}
    {leaves leaves' : List (Leaf (Variant S))} (h : LeavesOk tree links wrote latest leaves)
    (heq : leaves'.map Leaf.written = leaves.map Leaf.written) :
    LeavesOk tree links wrote latest leaves' where
  links := by
    have hlinks := congrArg (List.map Prod.fst) heq
    rw [List.map_map, List.map_map] at hlinks
    exact hlinks.trans h.links
  leaf j leaf' hleaf' := by
    have hj : (leaves.map Leaf.written)[j]? = some leaf'.written := by
      rw [← heq, List.getElem?_map, hleaf']
      rfl
    rw [List.getElem?_map] at hj
    obtain ⟨leaf, hleaf, hwritten⟩ := Option.map_eq_some_iff.1 hj
    exact (h.leaf j leaf hleaf).congr hwritten.symm

theorem map_modify_written {leaves : List (Leaf (Variant S))} {f : Leaf (Variant S) → Leaf (Variant S)}
    (hf : ∀ leaf, (f leaf).written = leaf.written) (j : Nat) :
    (leaves.modify j f).map Leaf.written = leaves.map Leaf.written := by
  apply List.ext_getElem?
  intro i
  rw [List.getElem?_map, List.getElem?_map, List.getElem?_modify]
  cases leaves[i]? with
  | none => rfl
  | some leaf =>
    show some (if j = i then f leaf else leaf).written = some leaf.written
    split
    · rw [hf]
    · rfl

theorem map_map_written {leaves : List (Leaf (Variant S))} {f : Leaf (Variant S) → Leaf (Variant S)}
    (hf : ∀ leaf, (f leaf).written = leaf.written) :
    (leaves.map f).map Leaf.written = leaves.map Leaf.written := by
  rw [List.map_map]
  exact List.map_congr_left fun leaf _ => hf leaf

/-- The node holds one value more. -/
theorem SendingOk.append {held : List (Variant S)} {w : Nat} {t : Sending S}
    (h : SendingOk tree links held w t) (hw : w < held.length) (v : Variant S) :
    SendingOk tree links (held ++ [v]) w t where
  known := h.known
  apart := h.apart
  base := h.base
  carried := h.carried
  element j link hlink hpath := by
    rw [h.element j link hlink hpath]
    cases hbase : t.base with
    | none => rfl
    | some k =>
      have hk := h.base k hbase
      rw [Option.bind_some, Option.bind_some, List.getElem?_append_left (by omega)]

variable {s : ElementNode S}

theorem Inv.init (h : Init tree s) : Inv tree (s.item.leaves.map (·.link)) s := by
  obtain ⟨value, hheld, hknown, hapart⟩ := h.held
  have hall : s.all = [] := by
    rw [all, h.writes, h.sending]
    rfl
  constructor
  · intro link hlink
    obtain ⟨leaf, hleaf, rfl⟩ := List.mem_map.1 hlink
    exact h.names leaf hleaf
  · refine ⟨rfl, fun j leaf hleaf => ?_⟩
    obtain ⟨houtgoing, hclean⟩ := h.clean leaf (List.mem_of_getElem? hleaf)
    constructor
    · exact fun _ => hclean
    · intro v hv
      rw [houtgoing] at hv
      cases hv
    · intro hdirty
      rw [hclean] at hdirty
      cases hdirty
    · intro _ t ht
      rw [hall] at ht
      cases ht
  · intro v hv
    rw [hheld] at hv
    rw [List.mem_singleton.1 hv]
    exact ⟨hknown, hapart⟩
  · exact hapart.imp Apart.empty
  · rw [hheld, h.writes]
    rfl
  · rw [h.lastValue, h.seen]
    rfl
  · intro k hk
    rw [h.seen] at hk
    cases hk
  · intro w t ht
    rw [hall] at ht
    cases ht
  · intro w t t' ht
    rw [hall] at ht
    cases ht
  · intro w t ht
    rw [h.writes] at ht
    cases ht

theorem known_of_record {value : Variant S} (h : ¬(asStructure value).isSome = true) :
    Known tree value := by
  cases value with
  | empty => exact .empty
  | other x => exact .other x
  | extensionObject s => exact absurd rfl h

/-- A record writes. -/
theorem Inv.storeValue (h : Inv tree links s) {j : Nat} {leaf : Leaf (Variant S)}
    {value : Variant S} (hleaf : s.item.leaves[j]? = some leaf)
    (hpath : leaf.link.elementPath ≠ []) (hvalue : Known tree value) :
    Inv tree links (s.storeValue j value) where
  names := h.names
  held := h.held
  nested := h.nested
  count := h.count
  last := h.last
  seen := h.seen
  sent := h.sent
  chain := h.chain
  placed := h.placed
  leaves := by
    constructor
    · rw [← h.leaves.links]
      apply List.ext_getElem?
      intro i
      rw [List.getElem?_map, List.getElem?_map]
      show Option.map _ (s.item.leaves.modify j _)[i]? = _
      rw [List.getElem?_modify]
      cases s.item.leaves[i]? with
      | none => rfl
      | some other =>
        show some (Leaf.link (if j = i then _ else _)) = some other.link
        split <;> rfl
    · intro i other hother
      have hother : (s.item.leaves.modify j _)[i]? = some other := hother
      rw [List.getElem?_modify] at hother
      obtain ⟨old, hold, heq⟩ := Option.map_eq_some_iff.1 hother
      by_cases hi : j = i
      · subst hi
        rw [if_pos rfl] at heq
        obtain rfl : leaf = old := Option.some.inj (hleaf.symm.trans hold)
        subst heq
        have hwrote : (s.storeValue j value).wrote j = some value := Function.update_self ..
        constructor
        · exact fun hnode => absurd hnode hpath
        · intro v hv
          cases hv
          exact hvalue
        · intro _
          rw [hwrote]
          exact ⟨rfl, rfl⟩
        · intro hclean
          cases hclean
      · rw [if_neg hi] at heq
        subst heq
        have hsame : (s.storeValue j value).wrote i = s.wrote i :=
          Function.update_of_ne (Ne.symm hi) ..
        have hok := h.leaves.leaf i old hold
        constructor
        · exact hok.node
        · exact hok.known
        · rw [hsame]
          exact hok.dirty
        · rw [hsame]
          exact hok.clean

/-- A step in which the item's leaves keep what a Write reads of them. -/
theorem Inv.setItem (h : Inv tree links s) {item : Item (Variant S)}
    (hleaves : item.leaves.map Leaf.written = s.item.leaves.map Leaf.written) {seen : Option Nat}
    (hlast : item.lastValue = seen.bind (s.held[·]?))
    (hseen : ∀ k, seen = some k → k < s.held.length) :
    Inv tree links { s with item, seen } where
  names := h.names
  leaves := h.leaves.congr hleaves
  held := h.held
  nested := h.nested
  count := h.count
  last := hlast
  seen := hseen
  sent := h.sent
  chain := h.chain
  placed := h.placed

theorem Inv.answered (h : Inv tree links s) {t : Sending S} (hsending : s.sending = some t)
    (now : Nat) :
    Inv tree links { s with
      item := s.item.setIncomingEvent .writeComplete now
      held := s.held ++ [t.value]
      sending := none
      writes := s.writes ++ [t] } := by
  have hall : s.all = s.writes ++ [t] := by
    rw [all, hsending]
    rfl
  have hall' : (s.writes ++ [t]) ++ (none : Option (Sending S)).toList = s.all := by
    rw [hall]
    exact List.append_nil _
  have ht : s.all[s.writes.length]? = some t := by
    rw [hall, List.getElem?_concat_length]
  have hok := h.sent _ _ ht
  have hcount := h.count
  constructor
  · exact h.names
  · show LeavesOk tree links s.wrote ((s.writes ++ [t]) ++ _).getLast? _
    rw [hall']
    exact h.leaves.congr (map_map_written (Leaf.written_setIncomingEvent _ _))
  · intro v hv
    rcases List.mem_append.1 hv with hv | hv
    · exact h.held v hv
    · rw [List.mem_singleton.1 hv]
      exact ⟨hok.known, hok.apart⟩
  · exact h.nested
  · rw [List.length_append, List.length_append, hcount]
    rfl
  · show s.item.lastValue = s.seen.bind ((s.held ++ [t.value])[·]?)
    rw [h.last]
    cases hseen : s.seen with
    | none => rfl
    | some k =>
      rw [Option.bind_some, Option.bind_some, List.getElem?_append_left (h.seen k hseen)]
  · intro k hk
    rw [List.length_append]
    exact Nat.lt_add_right _ (h.seen k hk)
  · intro w t' ht'
    have ht' : ((s.writes ++ [t]) ++ (none : Option (Sending S)).toList)[w]? = some t' := ht'
    rw [hall'] at ht'
    apply (h.sent w t' ht').append
    have hw := (List.getElem?_eq_some_iff.1 ht').1
    rw [hall, List.length_append, List.length_singleton] at hw
    omega
  · intro w t1 t2 h1 h2
    have h1 : ((s.writes ++ [t]) ++ (none : Option (Sending S)).toList)[w]? = some t1 := h1
    have h2 : ((s.writes ++ [t]) ++ (none : Option (Sending S)).toList)[w + 1]? = some t2 := h2
    rw [hall'] at h1 h2
    exact h.chain w t1 t2 h1 h2
  · intro w t' ht'
    have ht' : (s.writes ++ [t])[w]? = some t' := ht'
    show (s.held ++ [t.value])[w + 1]? = some t'.value
    by_cases hw : w < s.writes.length
    · rw [List.getElem?_append_left hw] at ht'
      rw [List.getElem?_append_left (by omega)]
      exact h.placed w t' ht'
    · have hlt := (List.getElem?_eq_some_iff.1 ht').1
      rw [List.length_append, List.length_singleton] at hlt
      obtain rfl : w = s.writes.length := by omega
      rw [List.getElem?_concat_length] at ht'
      rw [← hcount, List.getElem?_concat_length, Option.some.inj ht']

/-! ## Taking -/

theorem taken_eq_some {V : Type} {leaf : Leaf V} {v : V} (h : leaf.takeOutgoing.1 = some v) :
    leaf.dirty = true ∧ leaf.outgoing = some v := by
  rw [Leaf.takeOutgoing] at h
  split at h
  next hdirty => exact ⟨hdirty, h⟩
  next => cases h

theorem takeOutgoing_outgoing {V : Type} {leaf : Leaf V} {v : V}
    (h : leaf.takeOutgoing.2.outgoing = some v) : leaf.outgoing = some v := by
  rw [Leaf.takeOutgoing] at h
  split at h
  · cases h
  · exact h

theorem takeOutgoing_link {V : Type} (leaf : Leaf V) : leaf.takeOutgoing.2.link = leaf.link := by
  rw [Leaf.takeOutgoing]
  split <;> rfl

theorem takeOutgoing_fst (item : Item (Variant S)) :
    (item.takeOutgoing (elements tree)).1 =
      item.leaves.foldl (assembleStep tree item.lastValue) none := by
  rw [Item.takeOutgoing]
  dsimp only
  congr 1
  funext result leaf
  rw [assembleStep]
  cases leaf.takeOutgoing.1 with
  | none => rfl
  | some value => rfl

theorem foldl_assemble_some {lastValue : Option (Variant S)} {leaves : List (Leaf (Variant S))}
    {value : Variant S} :
    ∃ value', leaves.foldl (assembleStep tree lastValue) (some value) = some value' := by
  induction leaves generalizing value with
  | nil => exact ⟨value, rfl⟩
  | cons leaf leaves ih =>
    rw [List.foldl_cons, assembleStep]
    split
    · exact ih
    · exact ih

/-- A Write without a value took nothing. -/
theorem taken_of_foldl {lastValue : Option (Variant S)} {leaves : List (Leaf (Variant S))}
    (h : leaves.foldl (assembleStep tree lastValue) none = none) :
    ∀ leaf ∈ leaves, leaf.takeOutgoing.1 = none := by
  induction leaves with
  | nil => exact fun _ hleaf => absurd hleaf List.not_mem_nil
  | cons leaf leaves ih =>
    rw [List.foldl_cons] at h
    cases htaken : leaf.takeOutgoing.1 with
    | none =>
      rw [assembleStep, htaken] at h
      intro other hother
      rcases List.mem_cons.1 hother with rfl | hother
      · exact htaken
      · exact ih h other hother
    | some v =>
      rw [assembleStep, htaken] at h
      obtain ⟨value', hvalue⟩ := @foldl_assemble_some S tree lastValue leaves
        (Item.assemble (elements tree) lastValue none leaf.link v)
      rw [hvalue] at h
      cases h

theorem carried_taken {lastValue result : Option (Variant S)} {leaves : List (Leaf (Variant S))}
    {j : Nat} {v : Variant S} (h : (carriedFrom tree lastValue result leaves).getD j none = some v) :
    ∃ leaf, leaves[j]? = some leaf ∧ leaf.takeOutgoing.1 = some v := by
  induction leaves generalizing result j with
  | nil => cases h
  | cons leaf leaves ih =>
    cases j with
    | zero => exact ⟨leaf, rfl, (Option.filter_eq_some_iff.1 h).1⟩
    | succ j => exact ih h

/-- What a Write is made from. -/
theorem Inv.base (h : Inv tree links s) : Known tree (s.item.lastValue.getD .empty) ∧
    (elementPaths links).Pairwise (Apart (s.item.lastValue.getD .empty)) := by
  rw [h.last]
  cases hseen : s.seen with
  | none => exact ⟨.empty, h.nested⟩
  | some k =>
    obtain ⟨v, hv⟩ : ∃ v, s.held[k]? = some v := ⟨_, List.getElem?_eq_getElem (h.seen k hseen)⟩
    rw [Option.bind_some, hv]
    exact h.held v (List.mem_of_getElem? hv)

theorem Inv.assembled (h : Inv tree links s) {value : Variant S}
    (hvalue : s.item.leaves.foldl (assembleStep tree s.item.lastValue) none = some value) :
    Patched tree (elementPaths links) (s.item.lastValue.getD .empty) value ∧
      ∀ (j : Nat) (leaf : Leaf (Variant S)), s.item.leaves[j]? = some leaf →
        leaf.link.elementPath ≠ [] → elementOf value leaf.link.elementPath =
          ((carriedFrom tree s.item.lastValue none s.item.leaves).getD j none).or
            (elementOf (s.item.lastValue.getD .empty) leaf.link.elementPath) := by
  obtain ⟨hknown, hapart⟩ := h.base
  have hlink : ∀ leaf ∈ s.item.leaves, leaf.link ∈ links := fun leaf hleaf => by
    rw [← h.leaves.links]
    exact List.mem_map.2 ⟨leaf, hleaf, rfl⟩
  have hok : ∀ leaf ∈ s.item.leaves, ∃ j, LeafOk tree s.wrote s.all.getLast? j leaf := by
    intro leaf hleaf
    obtain ⟨j, hj⟩ := List.mem_iff_getElem?.1 hleaf
    exact ⟨j, h.leaves.leaf j leaf hj⟩
  have hpatched := @assemble_patched S tree s.item.lastValue none s.item.leaves hknown
    (fun leaf hleaf => h.names _ (hlink leaf hleaf))
    (fun leaf hleaf hpath => by
      obtain ⟨j, hj⟩ := hok leaf hleaf
      exact Leaf.taken_of_clean (hj.node hpath))
    (fun leaf hleaf => by
      obtain ⟨j, hj⟩ := hok leaf hleaf
      exact hj.known)
    (by rw [h.leaves.links]; exact hapart)
  rw [hvalue, h.leaves.links] at hpatched
  exact hpatched

/-- A leaf that is taken from. -/
theorem LeafOk.taken {wrote : Nat → Option (Variant S)} {latest : Option (Sending S)} {j : Nat}
    {leaf : Leaf (Variant S)} (h : LeafOk tree wrote latest j leaf) {t : Sending S}
    (ht : t.wrote = wrote) : LeafOk tree wrote (some t) j leaf.takeOutgoing.2 where
  node _ := Leaf.takeOutgoing_dirty leaf
  known v hv := h.known v (takeOutgoing_outgoing hv)
  dirty hdirty := by
    rw [Leaf.takeOutgoing_dirty] at hdirty
    cases hdirty
  clean _ t' ht' := by
    cases ht'
    rw [ht]

/-- What is taken is what the leaf wrote last. -/
theorem LeafOk.wrote {wrote : Nat → Option (Variant S)} {latest : Option (Sending S)} {j : Nat}
    {leaf : Leaf (Variant S)} (h : LeafOk tree wrote latest j leaf) {v : Variant S}
    (hv : leaf.takeOutgoing.1 = some v) : wrote j = some v := by
  obtain ⟨hdirty, houtgoing⟩ := taken_eq_some hv
  rw [← (h.dirty hdirty).1, houtgoing]

theorem LeafOk.clean_of_taken {wrote : Nat → Option (Variant S)} {latest : Option (Sending S)}
    {j : Nat} {leaf : Leaf (Variant S)} (h : LeafOk tree wrote latest j leaf)
    (hnone : leaf.takeOutgoing.1 = none) : leaf.dirty = false := by
  refine Bool.eq_false_iff.2 fun hdirty => ?_
  obtain ⟨houtgoing, hsome⟩ := h.dirty hdirty
  rw [Leaf.takeOutgoing, if_pos hdirty] at hnone
  have hnone : leaf.outgoing = none := hnone
  rw [← houtgoing, hnone] at hsome
  cases hsome

/-- A Write is made. -/
theorem Inv.sending (h : Inv tree links s) (hidle : s.sending = none) {value : Variant S}
    (hvalue : s.item.leaves.foldl (assembleStep tree s.item.lastValue) none = some value)
    {t : Sending S} (ht : t = { value, base := s.seen, wrote := s.wrote
                                taken := fun j => (s.item.leaves[j]?).bind (·.takeOutgoing.1)
                                carried := fun j => (carriedFrom tree s.item.lastValue none
                                  s.item.leaves).getD j none }) :
    Inv tree links { s with
      item := (s.item.takeOutgoing (elements tree)).2
      sending := some t } := by
  have hall : s.all = s.writes := by
    rw [all, hidle]
    exact List.append_nil _
  obtain ⟨hpatched, helements⟩ := h.assembled hvalue
  have hlength : links.length = s.item.leaves.length := by
    rw [← h.leaves.links, List.length_map]
  have hleaf : ∀ (j : Nat) link, links[j]? = some link →
      ∃ leaf : Leaf (Variant S), s.item.leaves[j]? = some leaf ∧ leaf.link = link := by
    intro j link hlink
    rw [← h.leaves.links, List.getElem?_map] at hlink
    exact Option.map_eq_some_iff.1 hlink
  have hnew : SendingOk tree links s.held s.writes.length t := by
    subst ht
    refine ⟨hpatched.known, hpatched.apart h.base.2, fun k hk => ?_, fun j link hlink hpath => ?_,
      fun j v hv => ?_⟩
    · have hlt := h.seen k hk
      have hcount := h.count
      omega
    · obtain ⟨leaf, hj, rfl⟩ := hleaf j link hlink
      rw [← h.last]
      exact helements j leaf hj hpath
    · obtain ⟨leaf, hj, htaken⟩ := carried_taken hv
      refine ⟨?_, (h.leaves.leaf j leaf hj).wrote htaken⟩
      show (s.item.leaves[j]?).bind _ = some v
      rw [hj]
      exact htaken
  constructor
  · exact h.names
  · constructor
    · rw [← h.leaves.links]
      show (s.item.leaves.map fun leaf => leaf.takeOutgoing.2).map _ = _
      rw [List.map_map]
      exact List.map_congr_left fun leaf _ => takeOutgoing_link leaf
    · intro j leaf' hleaf'
      have hleaf' : (s.item.leaves.map fun leaf => leaf.takeOutgoing.2)[j]? = some leaf' := hleaf'
      rw [List.getElem?_map] at hleaf'
      obtain ⟨leaf, hj, rfl⟩ := Option.map_eq_some_iff.1 hleaf'
      show LeafOk tree s.wrote ((s.writes ++ [t]).getLast?) j _
      rw [List.getLast?_concat]
      exact (h.leaves.leaf j leaf hj).taken (by rw [ht])
  · exact h.held
  · exact h.nested
  · exact h.count
  · exact h.last
  · exact h.seen
  · intro w t' ht'
    have ht' : (s.writes ++ [t])[w]? = some t' := ht'
    by_cases hw : w < s.writes.length
    · rw [List.getElem?_append_left hw] at ht'
      exact h.sent w t' (by rw [hall]; exact ht')
    · have hlt := (List.getElem?_eq_some_iff.1 ht').1
      rw [List.length_append, List.length_singleton] at hlt
      obtain rfl : w = s.writes.length := by omega
      rw [List.getElem?_concat_length] at ht'
      rw [← Option.some.inj ht']
      exact hnew
  · intro w t1 t2 hw1 hw2 j hj hnone
    have h1 : (s.writes ++ [t])[w]? = some t1 := hw1
    have h2 : (s.writes ++ [t])[w + 1]? = some t2 := hw2
    have hlt := (List.getElem?_eq_some_iff.1 h2).1
    rw [List.length_append, List.length_singleton] at hlt
    rw [List.getElem?_append_left (by omega)] at h1
    by_cases hw : w + 1 < s.writes.length
    · rw [List.getElem?_append_left hw] at h2
      rw [← hall] at h1 h2
      exact h.chain w t1 t2 h1 h2 j hj hnone
    · obtain hw : w + 1 = s.writes.length := by omega
      rw [hw, List.getElem?_concat_length] at h2
      obtain rfl := Option.some.inj h2
      subst ht
      have hlast : s.all.getLast? = some t1 := by
        rw [hall, List.getLast?_eq_getElem?, ← hw]
        exact h1
      obtain ⟨leaf, hget⟩ : ∃ leaf, s.item.leaves[j]? = some leaf :=
        ⟨_, List.getElem?_eq_getElem (hlength ▸ hj)⟩
      have hok := h.leaves.leaf j leaf hget
      have hnone : (s.item.leaves[j]?).bind (·.takeOutgoing.1) = none := hnone
      rw [hget] at hnone
      exact hok.clean (hok.clean_of_taken hnone) t1 hlast
  · exact h.placed

/-- A step keeps the invariant. -/
theorem Inv.step {s' : ElementNode S} {a : NodeAct S} (h : Inv tree links s)
    (hstep : ElementNode.step tree s a = some s') : Inv tree links s' := by
  cases a with
  | store j value =>
    obtain ⟨leaf, hleaf, hstep⟩ := Option.bind_eq_some_iff.1 hstep
    obtain ⟨hallowed, heq⟩ := Option.ite_none_left_eq_some.1 hstep
    rw [not_or] at hallowed
    rw [← Option.some.inj heq]
    exact h.storeValue hleaf hallowed.1 (known_of_record hallowed.2)
  | pass j =>
    rw [← Option.some.inj hstep]
    exact h.setItem (map_modify_written Leaf.written_pop j) h.last h.seen
  | take =>
    obtain ⟨hidle, heq⟩ := Option.ite_none_left_eq_some.1 hstep
    have hnone : s.sending = none := by
      rw [← Option.not_isSome_iff_eq_none]
      exact hidle
    rw [← Option.some.inj heq, takeStep]
    have htake : s.item.takeOutgoing (elements tree) =
        (s.item.leaves.foldl (assembleStep tree s.item.lastValue) none,
          (s.item.takeOutgoing (elements tree)).2) := Prod.ext (takeOutgoing_fst s.item) rfl
    cases hfold : s.item.leaves.foldl (assembleStep tree s.item.lastValue) none with
    | none =>
      rw [htake, hfold]
      refine h.setItem ?_ h.last h.seen
      show (s.item.leaves.map fun leaf => leaf.takeOutgoing.2).map _ = _
      rw [List.map_map]
      apply List.map_congr_left
      intro leaf hleaf
      obtain ⟨j, hj⟩ := List.mem_iff_getElem?.1 hleaf
      have hclean := (h.leaves.leaf j leaf hj).clean_of_taken (taken_of_foldl hfold leaf hleaf)
      show leaf.takeOutgoing.2.written = leaf.written
      rw [Leaf.takeOutgoing, hclean]
      rfl
    | some value =>
      rw [htake, hfold]
      exact h.sending hnone hfold rfl
  | answer now =>
    obtain ⟨t, ht, heq⟩ := Option.map_eq_some_iff.1 hstep
    rw [← heq]
    exact h.answered ht now
  | incoming place reason status timestamp =>
    obtain ⟨-, hstep⟩ := Option.ite_none_left_eq_some.1 hstep
    obtain ⟨value, hvalue, heq⟩ := Option.map_eq_some_iff.1 hstep
    rw [← heq]
    refine h.setItem (map_map_written (Leaf.written_setIncomingData _ _ _ _ _)) hvalue.symm ?_
    intro k hk
    cases hk
    exact (List.getElem?_eq_some_iff.1 hvalue).1

theorem inv_reachable (h : (system tree).Reachable s) :
    Inv tree (s.item.leaves.map (·.link)) s := by
  refine System.Reachable.invariant (P := fun s => Inv tree (s.item.leaves.map (·.link)) s)
    (fun _ hs => Inv.init hs) (fun s a s' hs ha => ?_) h
  have hs' := Inv.step hs ha
  rw [hs'.leaves.links]
  exact hs'

/-! ## What the node holds -/

theorem all_of_writes {w : Nat} {t : Sending S} (h : s.writes[w]? = some t) :
    s.all[w]? = some t := by
  rw [all, List.getElem?_append_left (List.getElem?_eq_some_iff.1 h).1]
  exact h

/-- A leaf that nothing is taken from has written nothing. -/
theorem Inv.wrote_eq (h : Inv tree links s) {j w0 n : Nat} (hj : j < links.length)
    {t0 t : Sending S} (h0 : s.writes[w0]? = some t0) (ht : s.writes[w0 + n]? = some t)
    (hnone : ∀ i < n, ∀ t', s.writes[w0 + i + 1]? = some t' → t'.taken j = none) :
    t.wrote j = t0.wrote j := by
  induction n generalizing t with
  | zero =>
    rw [Nat.add_zero, h0] at ht
    rw [Option.some.inj ht]
  | succ n ih =>
    have hlt := (List.getElem?_eq_some_iff.1 ht).1
    obtain ⟨t', ht'⟩ : ∃ t', s.writes[w0 + n]? = some t' :=
      ⟨_, List.getElem?_eq_getElem (by omega)⟩
    rw [h.chain (w0 + n) t' t (all_of_writes ht') (all_of_writes ht) j hj
      (hnone n (Nat.lt_succ_self n) t ht)]
    exact ih ht' fun i hi => hnone i (by omega)

/-- An element stays where each Write is made from a value that shows it. -/
theorem Inv.element_kept (h : Inv tree links s) {j w0 : Nat} {link : LinkInfo}
    (hlink : links[j]? = some link) (hpath : link.elementPath ≠ []) {t0 : Sending S}
    {v : Variant S} (h0 : s.writes[w0]? = some t0) (hv : t0.carried j = some v) {w : Nat}
    {t : Sending S} (hw : w0 ≤ w) (ht : s.writes[w]? = some t)
    (hbetween : ∀ w', w0 < w' → w' ≤ w → ∀ t', s.writes[w']? = some t' →
      t'.taken j = none ∧ ∃ k, t'.base = some k ∧ w0 < k) :
    elementOf t.value link.elementPath = some v := by
  induction w using Nat.strong_induction_on generalizing t with
  | _ w ih =>
    have hok := h.sent w t (all_of_writes ht)
    rw [hok.element j link hlink hpath]
    rcases Nat.eq_or_lt_of_le hw with rfl | hlt
    · rw [h0] at ht
      rw [← Option.some.inj ht, hv]
      rfl
    · obtain ⟨htaken, k, hk, hlt'⟩ := hbetween w hlt (Nat.le_refl w) t ht
      have hcarried : t.carried j = none := by
        cases hc : t.carried j with
        | none => rfl
        | some x =>
          rw [(hok.carried j x hc).1] at htaken
          cases htaken
      have hle := hok.base k hk
      have hlength := (List.getElem?_eq_some_iff.1 ht).1
      obtain ⟨t', ht'⟩ : ∃ t', s.writes[k - 1]? = some t' :=
        ⟨_, List.getElem?_eq_getElem (by omega)⟩
      have hheld := h.placed (k - 1) t' ht'
      rw [Nat.sub_add_cancel (by omega)] at hheld
      rw [hcarried, hk, Option.bind_some, hheld]
      apply ih (k - 1) (by omega) (by omega) ht'
      exact fun w' h1 h2 => hbetween w' h1 (by omega)

/-- **Writes of elements.**  After a Write the node has at a leaf's path what the Write took from
the leaf and could put in, else what the last incoming value has.  So what the leaf wrote last is
there if each Write since the one that took it was made from a value that shows that one. -/
theorem element_writes {s : ElementNode S} (h : (system tree).Reachable s) {w : Nat}
    {t : Sending S} (ht : s.writes[w]? = some t) {j : Nat} {leaf : Leaf (Variant S)}
    (hleaf : s.item.leaves[j]? = some leaf) (hpath : leaf.link.elementPath ≠ []) :
    s.held[w + 1]? = some t.value ∧
      elementOf t.value leaf.link.elementPath =
        (t.carried j).or
          (elementOf ((t.base.bind (s.held[·]?)).getD .empty) leaf.link.elementPath) ∧
      ∀ w0 t0, w0 ≤ w → s.writes[w0]? = some t0 → (t0.carried j).isSome →
        (∀ w', w0 < w' → w' ≤ w → ∀ t', s.writes[w']? = some t' →
          t'.taken j = none ∧ ∃ k, t'.base = some k ∧ w0 < k) →
        (t.wrote j).isSome ∧ elementOf t.value leaf.link.elementPath = t.wrote j := by
  have hinv := inv_reachable h
  have hlink : (s.item.leaves.map (·.link))[j]? = some leaf.link := by
    rw [List.getElem?_map, hleaf]
    rfl
  refine ⟨hinv.placed w t ht, (hinv.sent w t (all_of_writes ht)).element j _ hlink hpath, ?_⟩
  intro w0 t0 hw h0 hcarried hbetween
  obtain ⟨v, hv⟩ := Option.isSome_iff_exists.1 hcarried
  have hwrote : t.wrote j = some v := by
    obtain ⟨n, rfl⟩ := Nat.exists_eq_add_of_le hw
    have hsame := hinv.wrote_eq (List.getElem?_eq_some_iff.1 hlink).1 h0 ht fun i hi t' ht' =>
      (hbetween (w0 + i + 1) (by omega) (by omega) t' ht').1
    rw [hsame]
    exact ((hinv.sent w0 t0 (all_of_writes h0)).carried j v hv).2
  rw [hwrote]
  exact ⟨rfl, hinv.element_kept hlink hpath h0 hv hw ht hbetween⟩

/-! ## Two elements of a tank -/

/-- The level and the unit, each with a record. -/
def twoLeaves : ElementNode Nat where
  item := ⟨[.new ⟨3, true, false, .read, ["level"]⟩, .new ⟨3, true, false, .read, ["unit"]⟩], none⟩
  held := [tank]
  seen := none
  sending := none
  writes := []
  wrote _ := none

theorem twoLeaves_init : Init tankTree twoLeaves where
  names := by decide
  held := by
    refine ⟨tank, rfl, ?_, ?_⟩
    · refine .object (fun typeDef h => (Option.some.inj h).symm) fun v hv => ?_
      rcases List.mem_cons.1 hv with rfl | hv
      · exact .other 3
      · rw [List.mem_singleton.1 hv]
        exact .other 1
    · have hunion : ¬IsUnion tank := fun h => absurd (isUnion_iff.1 h) (by decide)
      have hpart : ∀ {p q : List String}, p.head? ≠ q.head? → ¬PartAtUnion tank p q := by
        intro p q hne hpart
        cases hpart with
        | here hkind _ => exact hunion hkind
        | inside _ _ => exact hne rfl
      show List.Pairwise _ [["level"], ["unit"]]
      rw [List.pairwise_cons]
      refine ⟨fun q hq => ?_, List.pairwise_singleton _ _⟩
      rw [List.mem_singleton.1 hq]
      exact ⟨by decide, by decide, hpart (by decide)⟩
  clean := by decide
  lastValue := rfl
  seen := rfl
  sending := rfl
  writes := rfl

/-- The level is written, then the unit. -/
def twoWrites : List (NodeAct Nat) :=
  [.incoming 0 .readComplete 0 0, .store 0 (.other 5), .take, .answer 1, .store 1 (.other 2), .take,
    .answer 2]

/-- The Write of the unit sets the level back. -/
theorem write_reverts :
    ∃ s, (system tankTree).Reachable s ∧ ∃ t, s.writes[1]? = some t ∧ t.wrote 0 = some (.other 5) ∧
      elementOf t.value ["level"] = some (.other 3) ∧
        elementOf t.value ["unit"] = some (.other 2) := by
  obtain ⟨s, hs⟩ : ∃ s, twoWrites.foldlM (ElementNode.step tankTree) twoLeaves = some s := ⟨_, rfl⟩
  refine ⟨s, System.reachable_ofFun twoLeaves_init hs, ?_⟩
  cases hs
  exact ⟨_, rfl, rfl, rfl, rfl⟩

/-- With the value of the first Write come in before the second. -/
theorem element_writes_twoWrites :
    ∃ s, (system tankTree).Reachable s ∧ ∃ t, s.writes[1]? = some t ∧ t.wrote 0 = some (.other 5) ∧
      elementOf t.value ["level"] = t.wrote 0 := by
  obtain ⟨s, hs⟩ : ∃ s, [NodeAct.incoming 0 .readComplete 0 0, .store 0 (.other 5), .take, .answer 1,
      .incoming 1 .incomingData 0 2, .store 1 (.other 2), .take, .answer 3].foldlM
        (ElementNode.step tankTree) twoLeaves = some s := ⟨_, rfl⟩
  have hreach : (system tankTree).Reachable s := System.reachable_ofFun twoLeaves_init hs
  cases hs
  refine ⟨_, hreach, _, rfl, rfl, ?_⟩
  have hwrites := element_writes hreach (w := 1) rfl (j := 0) rfl (by decide)
  refine (hwrites.2.2 0 _ (by decide) rfl rfl ?_).2
  intro w' h1 h2 t' ht'
  obtain rfl : w' = 1 := by omega
  cases ht'
  exact ⟨rfl, 1, rfl, by decide⟩

end ElementNode

end OpcUa
