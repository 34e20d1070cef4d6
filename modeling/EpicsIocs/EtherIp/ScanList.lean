import EpicsIocs.EtherIp.MultiRequest
import Mathlib.Data.List.Nodup

/-!
# One pass over a scan list

A pass sends the batches a repeated packing makes of the usable tags' requests.
It returns true when every exchange succeeded and every sub-request was
answered; then it has sent, applied and notified, in list order, the usable tags
before the first one whose own request fits no batch, and none after it.

    processScanList … = some (true, out) →
      out.sent.flatten = out.applied = out.notified
        = the requests before the first that fits no batch   (processScanList_spec)
    … → (every tag that fits alone is scanned once
          ↔ none of them follows one that is too large)      (scan_complete_iff)
-/

namespace EtherIp

open Packing

/-! ## The tags a pass should reach -/

/-- Usable, and its own request and reply fit a MultiRequest of one item. -/
def FitsAlone (limit : Nat) (t : TagInfo) : Prop :=
  ∃ b, requestOf limit t = some b ∧
    multiRequestSize 1 b.reqSize ≤ limit ∧ multiResponseSize 1 b.respSize ≤ limit

/-- Usable, and its own request or reply fits no MultiRequest. -/
def TooLarge (limit : Nat) (t : TagInfo) : Prop :=
  ∃ b, requestOf limit t = some b ∧
    ¬ (multiRequestSize 1 b.reqSize ≤ limit ∧ multiResponseSize 1 b.respSize ≤ limit)

/-- Every tag that fits alone is in one MultiRequest, in list order, and has its
response applied and its listeners notified once. -/
structure Complete (limit : Nat) (tags : List TagInfo) (out : Pass) : Prop where
  order : out.sent.flatten.Pairwise (· < ·)
  once : ∀ i t, tags[i]? = some t → FitsAlone limit t →
    out.sent.flatten.count i = 1 ∧ out.applied.count i = 1 ∧ out.notified.count i = 1

/-! ## Requests and indices -/

theorem mem_requestsFrom {limit : Nat} {ts : List TagInfo} {s i : Nat} {b : Taken} :
    (i, b) ∈ requestsFrom limit ts s ↔
      ∃ k t, i = s + k ∧ ts[k]? = some t ∧ requestOf limit t = some b := by
  induction ts generalizing s with
  | nil => simp [requestsFrom]
  | cons t ts ih =>
    have hcons : (∃ k u, i = s + k ∧ (t :: ts)[k]? = some u ∧ requestOf limit u = some b) ↔
        (i = s ∧ requestOf limit t = some b) ∨
          ∃ k u, i = s + 1 + k ∧ ts[k]? = some u ∧ requestOf limit u = some b := by
      constructor
      · rintro ⟨k, u, hi, hk, hu⟩
        cases k with
        | zero =>
          simp only [List.getElem?_cons_zero, Option.some.injEq] at hk
          subst hk
          exact Or.inl ⟨hi, hu⟩
        | succ k => exact Or.inr ⟨k, u, by omega, by simpa using hk, hu⟩
      · rintro (⟨hi, hu⟩ | ⟨k, u, hi, hk, hu⟩)
        · exact ⟨0, t, hi, rfl, hu⟩
        · exact ⟨k + 1, u, by omega, by simpa using hk, hu⟩
    rw [hcons, ← ih]
    cases hr : requestOf limit t with
    | none => simp [requestsFrom_cons_none hr]
    | some b' =>
      rw [requestsFrom_cons_some hr, List.mem_cons, Prod.mk.injEq, Option.some.injEq,
        eq_comm (a := b)]

theorem requestsFrom_pairwise (limit : Nat) (ts : List TagInfo) (s : Nat) :
    (requestsFrom limit ts s).Pairwise (fun a b => a.1 < b.1) := by
  induction ts generalizing s with
  | nil => exact List.Pairwise.nil
  | cons t ts ih =>
    cases hr : requestOf limit t with
    | none =>
      rw [requestsFrom_cons_none hr]
      exact ih (s + 1)
    | some b =>
      rw [requestsFrom_cons_some hr]
      refine List.Pairwise.cons ?_ (ih (s + 1))
      rintro ⟨i, b⟩ hb
      obtain ⟨k, u, hi, -, -⟩ := mem_requestsFrom.1 hb
      simp only
      omega

/-- In a list in order, what comes before the first element that fails `p`. -/
theorem mem_takeWhile_iff {α : Type} {p : α → Bool} {f : α → Nat} {l : List α}
    (hl : l.Pairwise (fun a b => f a < f b)) {a : α} :
    a ∈ l.takeWhile p ↔ a ∈ l ∧ ∀ x ∈ l, f x ≤ f a → p x := by
  induction l with
  | nil => simp
  | cons x l ih =>
    rw [List.pairwise_cons] at hl
    by_cases hx : p x
    · rw [List.takeWhile_cons_of_pos hx, List.mem_cons, ih hl.2]
      constructor
      · rintro (rfl | ⟨ha, hp⟩)
        · refine ⟨List.mem_cons_self, fun y hy hle => ?_⟩
          rcases List.mem_cons.1 hy with rfl | hy
          · exact hx
          · have := hl.1 y hy
            omega
        · refine ⟨List.mem_cons_of_mem _ ha, fun y hy hle => ?_⟩
          rcases List.mem_cons.1 hy with rfl | hy
          · exact hx
          · exact hp y hy hle
      · rintro ⟨ha, hp⟩
        rcases List.mem_cons.1 ha with rfl | ha
        · exact Or.inl rfl
        · exact Or.inr ⟨ha, fun y hy => hp y (List.mem_cons_of_mem _ hy)⟩
    · rw [List.takeWhile_cons_of_neg hx]
      simp only [List.not_mem_nil, false_iff, not_and]
      intro ha hp
      refine hx (hp x List.mem_cons_self ?_)
      rcases List.mem_cons.1 ha with rfl | ha
      · exact Nat.le_refl _
      · exact Nat.le_of_lt (hl.1 a ha)

/-! ## The pass is the batches -/

theorem drop_modify {α : Type} {l : List α} {i n : Nat} {f : α → α} (h : i < n) :
    (l.modify i f).drop n = l.drop n := by
  apply List.ext_getElem?
  intro j
  rw [List.getElem?_drop, List.getElem?_drop, List.getElem?_modify]
  simp [show i ≠ n + j by omega]

/-- What the loop over the items of a batch does to a pass. -/
structure Applied (items : List Item) (p : Pass) (ok : Bool) (p' : Pass) : Prop where
  sent : p'.sent = p.sent
  length : p'.tags.length = p.tags.length
  drop : ∀ n, (∀ item ∈ items, item.info < n) → p'.tags.drop n = p.tags.drop n
  applied : ok → p'.applied = p.applied ++ items.map Item.info
  notified : ok → p'.notified = p.notified ++ items.map Item.info

theorem applyLoop_spec (response : List UInt8) (items : List Item) (i : Nat) (p : Pass) :
    Applied items p (applyLoop response items i p).1 (applyLoop response items i p).2 := by
  induction items generalizing i p with
  | nil => exact ⟨rfl, rfl, fun _ _ => rfl, fun _ => by simp [applyLoop], fun _ => by simp [applyLoop]⟩
  | cons item items ih =>
    unfold applyLoop
    split
    · exact ⟨rfl, rfl, fun _ _ => rfl, by simp, by simp⟩
    · rename_i sub _
      obtain ⟨h1, h2, h3, h4, h5⟩ := ih (i + 1) { p with
        tags := p.tags.modify item.info (modifyData (applyResponse item.writing sub))
        applied := p.applied ++ [item.info]
        notified := p.notified ++ [item.info] }
      refine ⟨h1, by simpa using h2, fun n hn => ?_, fun h => ?_, fun h => ?_⟩
      · rw [h3 n (fun x hx => hn x (List.mem_cons_of_mem _ hx))]
        exact drop_modify (hn item List.mem_cons_self)
      · simpa using h4 h
      · simpa using h5 h

/-- What a successful pass from `p` on reached: the batches of the requests `bs`. -/
structure Reached (limit : Nat) (bs : List (Nat × Taken)) (p p' : Pass) : Prop where
  sent : ∃ bss, (multiBudget limit).Batches bs bss ∧ p'.sent = p.sent ++ bss.map (·.map Prod.fst)
  applied : p'.applied = p.applied ++ (bs.takeWhile (fun b => (multiBudget limit).fits [b])).map Prod.fst
  notified : p'.notified = p.notified ++ (bs.takeWhile (fun b => (multiBudget limit).fits [b])).map Prod.fst

/-- A non-empty batch from `start`, against the packing `q` of the requests from there. -/
structure BatchSpec (limit : Nat) (tags : List TagInfo) (start : Nat)
    (q : List (Nat × Taken) × List (Nat × Taken)) (r : Packed) : Prop where
  length : r.tags.length = tags.length
  lt_next : start < r.next
  left : requestsFrom limit (r.tags.drop r.next) r.next = q.2
  before : ∀ item ∈ r.items, item.info < r.next

theorem buildMultiRequest_spec (limit : Nat) (tags : List TagInfo) (start : Nat)
    (hstart : start < tags.length)
    (hne : ((multiBudget limit).pack [] (requestsFrom limit (tags.drop start) start)).1 ≠ []) :
    BatchSpec limit tags start
      ((multiBudget limit).pack [] (requestsFrom limit (tags.drop start) start))
      (buildMultiRequest limit tags start) := by
  obtain ⟨hitems, hlen, hle, hnext, hleft, hbefore⟩ :=
    buildLoop_spec limit (tags.drop start) start []
  have htake : (tags.take start).length = start := by
    rw [List.length_take, Nat.min_eq_left (Nat.le_of_lt hstart)]
  refine ⟨?_, ?_, ?_, ?_⟩
  · simp only [buildMultiRequest, List.length_append, htake]
    rw [List.length_drop] at hlen
    exact (congrArg (start + ·) hlen).trans (Nat.add_sub_of_le (Nat.le_of_lt hstart))
  · obtain ⟨e, he⟩ := List.exists_mem_of_ne_nil _ hne
    rcases hbefore e he with h | h
    · cases h
    · exact Nat.lt_of_le_of_lt h.1 h.2
  · rw [← hleft hne]
    unfold buildMultiRequest
    congr 1
    rw [List.drop_append, htake, List.drop_eq_nil_of_le (by rw [htake]; exact hle)]
    rfl
  · intro item hitem
    rw [show (buildMultiRequest limit tags start).items = _ from hitems] at hitem
    obtain ⟨e, he, rfl⟩ := List.mem_map.1 hitem
    rcases hbefore e he with h | h
    · cases h
    · exact h.2

theorem Reached.nothing {limit : Nat} {bs : List (Nat × Taken)} {p p' : Pass}
    (hnil : ((multiBudget limit).pack [] bs).1 = []) (hs : p'.sent = p.sent)
    (ha : p'.applied = p.applied) (hn : p'.notified = p.notified) : Reached limit bs p p' := by
  have htake := (Budget.pack_nil_iff _).1 hnil
  refine ⟨⟨[], Budget.Batches.stop hnil, ?_⟩, ?_, ?_⟩
  · rw [hs, List.map_nil, List.append_nil]
  · rw [ha, htake, List.map_nil, List.append_nil]
  · rw [hn, htake, List.map_nil, List.append_nil]

/-- One batch, and what the rest of the pass reaches. -/
theorem Reached.batch {limit : Nat} {bs : List (Nat × Taken)} {p p1 p' : Pass}
    (hne : ((multiBudget limit).pack [] bs).1 ≠ [])
    (hs : p1.sent = p.sent ++ [((multiBudget limit).pack [] bs).1.map Prod.fst])
    (ha : p1.applied = p.applied ++ ((multiBudget limit).pack [] bs).1.map Prod.fst)
    (hn : p1.notified = p.notified ++ ((multiBudget limit).pack [] bs).1.map Prod.fst)
    (h : Reached limit ((multiBudget limit).pack [] bs).2 p1 p') : Reached limit bs p p' := by
  obtain ⟨⟨bss, hbss, hsent⟩, happlied, hnotified⟩ := h
  have hall := Budget.Batches.batch hne hbss
  have htake := hall.flatten
  rw [List.flatten_cons, hbss.flatten] at htake
  refine ⟨⟨_, hall, ?_⟩, ?_, ?_⟩
  · rw [hsent, hs, List.map_cons, List.append_assoc, List.singleton_append]
  · rw [happlied, ha, List.append_assoc, ← List.map_append, htake]
  · rw [hnotified, hn, List.append_assoc, ← List.map_append, htake]

/-- **A pass always ends, and a successful one has reached the batches.** -/
theorem scanLoop_spec (limit : Nat) (slot : UInt8)
    (sendRr : Nat → List UInt8 → Except EipError (List UInt8)) (fuel start : Nat) (p : Pass)
    (hfuel : p.tags.length - start ≤ fuel) :
    ∃ ok p', scanLoop limit slot sendRr fuel start p = some (ok, p') ∧
      (ok = true → Reached limit (requestsFrom limit (p.tags.drop start) start) p p') := by
  induction fuel generalizing start p with
  | zero =>
    have hend : ¬ start < p.tags.length := by omega
    refine ⟨true, p, by simp [scanLoop, hend], fun _ => Reached.nothing ?_ rfl rfl rfl⟩
    rw [List.drop_eq_nil_of_le (by omega)]
    rfl
  | succ fuel ih =>
    unfold scanLoop
    by_cases hstart : start < p.tags.length
    · rw [if_pos hstart]
      have hitems := buildMultiRequest_items limit p.tags start
      by_cases hnil : ((multiBudget limit).pack [] (requestsFrom limit (p.tags.drop start) start)).1 = []
      · rw [hnil] at hitems
        exact ⟨true, { p with tags := (buildMultiRequest limit p.tags start).tags },
          by simp [hitems], fun _ => Reached.nothing hnil rfl rfl rfl⟩
      · have hspec := buildMultiRequest_spec limit p.tags start hstart hnil
        have hne : (buildMultiRequest limit p.tags start).items.isEmpty = false := by
          rw [hitems]
          simpa using hnil
        have hinfo : (buildMultiRequest limit p.tags start).items.map Item.info =
            ((multiBudget limit).pack [] (requestsFrom limit (p.tags.drop start) start)).1.map
              Prod.fst := by
          rw [hitems, List.map_map]
          rfl
        simp only [hne, Bool.false_eq_true, if_false]
        split
        · exact ⟨false, _, rfl, by simp⟩
        · split
          · rename_i response _ _
            have happly := applyLoop_spec response (buildMultiRequest limit p.tags start).items 0
              { p with
                tags := (buildMultiRequest limit p.tags start).tags
                sent := p.sent ++ [(buildMultiRequest limit p.tags start).items.map Item.info] }
            split
            · rename_i p1 heq
              rw [heq] at happly
              obtain ⟨h1, h2, h3, h4, h5⟩ := happly
              obtain ⟨ok, p', hrun, hreached⟩ :=
                ih (buildMultiRequest limit p.tags start).next p1 (by
                  have hlen := hspec.length
                  have hlt := hspec.lt_next
                  simp only at h2
                  omega)
              rw [show p1.tags.drop _ = _ from h3 _ hspec.before, hspec.left] at hreached
              exact ⟨ok, p', hrun, fun hok => Reached.batch hnil (by rw [← hinfo]; exact h1)
                (by rw [← hinfo]; exact h4 rfl) (by rw [← hinfo]; exact h5 rfl) (hreached hok)⟩
            · exact ⟨false, _, rfl, by simp⟩
          · exact ⟨false, _, rfl, by simp⟩
    · rw [if_neg hstart]
      refine ⟨true, p, rfl, fun _ => Reached.nothing ?_ rfl rfl rfl⟩
      rw [List.drop_eq_nil_of_le (by omega)]
      rfl

/-! ## Top theorems -/

theorem processScanList_spec (limit : Nat) (slot : UInt8)
    (sendRr : Nat → List UInt8 → Except EipError (List UInt8)) (tags : List TagInfo) :
    ∃ ok out, processScanList limit slot sendRr tags = some (ok, out) ∧
      (ok = true → Reached limit (requestsFrom limit tags 0) { tags := tags } out) :=
  scanLoop_spec limit slot sendRr tags.length 0 { tags := tags } (Nat.le_refl _)

theorem fits_singleton {limit i : Nat} {b : Taken} :
    (multiBudget limit).fits [(i, b)] = true ↔
      multiRequestSize 1 b.reqSize ≤ limit ∧ multiResponseSize 1 b.respSize ≤ limit := by
  simp [multiBudget, overLimit, requestsSize, responsesSize]

/-- The tags a successful pass scans: those before the first that is too large. -/
theorem mem_scanned {limit : Nat} {tags : List TagInfo} {j : Nat} {u : TagInfo}
    (hu : tags[j]? = some u) :
    j ∈ ((requestsFrom limit tags 0).takeWhile
        (fun b => (multiBudget limit).fits [b])).map Prod.fst ↔
      u.data.usable ∧ ∀ i t, i ≤ j → tags[i]? = some t → ¬ TooLarge limit t := by
  rw [List.mem_map]
  constructor
  · rintro ⟨⟨j, b⟩, hmem, rfl⟩
    rw [mem_takeWhile_iff (requestsFrom_pairwise limit tags 0)] at hmem
    obtain ⟨hb, hall⟩ := hmem
    obtain ⟨k, u', hk, hu', hreq⟩ := mem_requestsFrom.1 hb
    simp only [Nat.zero_add] at hk
    subst hk
    rw [hu] at hu'
    cases hu'
    refine ⟨by rw [← requestOf_isSome limit, hreq]; rfl, ?_⟩
    rintro i t hi ht ⟨b', hb', hlarge⟩
    have hmem' : (i, b') ∈ requestsFrom limit tags 0 :=
      mem_requestsFrom.2 ⟨i, t, (Nat.zero_add i).symm, ht, hb'⟩
    exact hlarge (fits_singleton.1 (hall _ hmem' hi))
  · rintro ⟨husable, hall⟩
    rw [← requestOf_isSome limit, Option.isSome_iff_exists] at husable
    obtain ⟨b, hb⟩ := husable
    refine ⟨(j, b), ?_, rfl⟩
    rw [mem_takeWhile_iff (requestsFrom_pairwise limit tags 0)]
    refine ⟨mem_requestsFrom.2 ⟨j, u, (Nat.zero_add j).symm, hu, hb⟩, ?_⟩
    rintro ⟨i, b'⟩ hb' hi
    obtain ⟨k, t, hk, ht, hreq⟩ := mem_requestsFrom.1 hb'
    simp only [Nat.zero_add] at hk
    subst hk
    rw [fits_singleton]
    by_contra hlarge
    exact hall i t hi ht ⟨b', hreq, hlarge⟩

/-- **Scan completeness.**  A successful pass scans every tag that fits alone
exactly once, in list order, iff none of them follows a tag that is too large. -/
theorem scan_complete_iff (limit : Nat) (slot : UInt8)
    (sendRr : Nat → List UInt8 → Except EipError (List UInt8)) (tags : List TagInfo) :
    ∃ ok out, processScanList limit slot sendRr tags = some (ok, out) ∧
      (ok = true → (Complete limit tags out ↔
        ∀ (i j : Nat) (t u : TagInfo), i < j → tags[i]? = some t → tags[j]? = some u →
          TooLarge limit t → ¬ FitsAlone limit u)) := by
  obtain ⟨ok, out, hrun, hreached⟩ := processScanList_spec limit slot sendRr tags
  refine ⟨ok, out, hrun, fun hok => ?_⟩
  obtain ⟨⟨bss, hbss, hsent⟩, happlied, hnotified⟩ := hreached hok
  have hflat : out.sent.flatten = ((requestsFrom limit tags 0).takeWhile
      (fun b => (multiBudget limit).fits [b])).map Prod.fst := by
    rw [hsent, List.nil_append, ← List.map_flatten, hbss.flatten]
  rw [List.nil_append, ← hflat] at happlied hnotified
  have horder : out.sent.flatten.Pairwise (· < ·) := by
    rw [hflat, List.pairwise_map]
    exact (requestsFrom_pairwise limit tags 0).sublist (List.takeWhile_sublist _)
  have hnodup : out.sent.flatten.Nodup := horder.imp (fun h => Nat.ne_of_lt h)
  constructor
  · rintro ⟨-, honce⟩ i j t u hij ht hu hlarge hfits
    have hcount := (honce j u hu hfits).1
    have hmem : j ∈ out.sent.flatten := List.count_pos_iff.1 (by omega)
    rw [hflat, mem_scanned hu] at hmem
    exact hmem.2 i t (Nat.le_of_lt hij) ht hlarge
  · intro hcond
    refine ⟨horder, fun j u hu hfits => ?_⟩
    have hmem : j ∈ out.sent.flatten := by
      rw [hflat, mem_scanned hu]
      obtain ⟨b, hb, hsize⟩ := hfits
      refine ⟨by rw [← requestOf_isSome limit, hb]; rfl, ?_⟩
      rintro i t hi ht hlarge
      rcases Nat.lt_or_eq_of_le hi with hlt | rfl
      · exact hcond i j t u hlt ht hu hlarge ⟨b, hb, hsize⟩
      · rw [hu] at ht
        cases ht
        obtain ⟨b', hb', hno⟩ := hlarge
        rw [hb] at hb'
        cases hb'
        exact hno hsize
    have hcount := List.count_eq_one_of_mem hnodup hmem
    rw [happlied, hnotified]
    exact ⟨hcount, hcount, hcount⟩

/-- An LREAL array whose reply fits no MultiRequest, and a DINT after it, as probed. -/
def starvedTags : List TagInfo :=
  [completeTagInfo { tag := ⟨[.name [97, 114, 114]]⟩, elements := 60 }
    (some ([0xCB, 0x00] ++ List.replicate 480 0)),
   completeTagInfo { tag := ⟨[.name [84]]⟩, elements := 1 } (some [0xC4, 0x00, 1, 0, 0, 0])]

/-- The pass returns true and the DINT was never sent. -/
theorem scan_starved :
    ∃ out, processScanList defaultBufferLimit 0 (fun _ _ => .error .other) starvedTags =
        some (true, out) ∧ ¬ Complete defaultBufferLimit starvedTags out := by
  have hrun : (processScanList defaultBufferLimit 0 (fun _ _ => .error .other) starvedTags).map
      (fun r => (r.1, r.2.sent)) = some (true, []) := by decide +kernel
  obtain ⟨⟨ok, out⟩, hout, hsent⟩ := Option.map_eq_some_iff.1 hrun
  simp only [Prod.mk.injEq] at hsent
  obtain ⟨rfl, hsent⟩ := hsent
  refine ⟨out, hout, fun h => ?_⟩
  have hfits : FitsAlone defaultBufferLimit starvedTags[1] := ⟨_, rfl, by decide, by decide⟩
  have := (h.once 1 _ rfl hfits).1
  rw [hsent] at this
  cases this

end EtherIp
