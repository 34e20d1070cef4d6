import EpicsIocs.TwinCat.Frame

/-!
# Sum-up read (`ads/sumup.rs`)

One READ_WRITE fetches many variables.  The response is a status word for each
entry and then a data area in which a failed entry either leaves a hole of its
size (`DataLayout.fixed`) or takes no bytes (`DataLayout.compacted`);
`decodeResponse` tells the two apart by the length of the data area.

A `SumRow` is an entry with the status and the bytes the PLC has for it, and
`encodeResponse layout rows` is the response that carries them:

    decodeResponse (encodeResponse layout rows) (entries rows)
      = ok (rows.map SumRow.result, _)                        (decodeResponse_encodeResponse)
    decodeResponse resp entries = ok _ → the data area has one of the two lengths
                                                              (decodeResponse_ok_length)
-/

namespace TwinCat

open Bytes

/-! ## The decoder -/

/-- `RESULT_LEN`: bytes of status in front of the data area, per entry. -/
def resultLen : Nat := 4

/-- One sub-request. -/
structure SumEntry where
  indexGroup : UInt32
  indexOffset : UInt32
  size : UInt32
deriving DecidableEq, Repr

/-- A sum-up READ_WRITE request. -/
structure SumUpRequest where
  indexGroup : UInt32
  indexOffset : UInt32
  readLength : UInt32
  payload : List UInt8

/-- Response length if every sub-request occupies its requested bytes. -/
def fixedLen (entries : List SumEntry) : Nat :=
  entries.length * resultLen + (entries.map (·.size.toNat)).sum

/-- The request for `entries`: the triples, with the count in `indexOffset`. -/
def buildRequest (entries : List SumEntry) : SumUpRequest where
  indexGroup := 0xF080
  indexOffset := UInt32.ofNat entries.length
  readLength := UInt32.ofNat (fixedLen entries)
  payload := entries.flatMap fun e =>
    leBytes 4 e.indexGroup.toNat ++ leBytes 4 e.indexOffset.toNat ++ leBytes 4 e.size.toNat

inductive DataLayout
  | fixed
  | compacted
deriving DecidableEq, Repr

/-- The bytes of one sub-request, or the ADS error the PLC reported for it. -/
abbrev SumResult := Except AdsError (List UInt8)

/-- The status words at the head of the response. -/
def readStatus : (cnt : Nat) → List UInt8 → Except AdsError (List UInt32)
  | 0, _ => .ok []
  | cnt + 1, buf => do
    let (s, rest) ← readerU32 buf
    let ss ← readStatus cnt rest
    return s :: ss

/-- The loop that cuts the data area, at `pos`. -/
def cutData (layout : DataLayout) (data : List UInt8) :
    List (SumEntry × UInt32) → Nat → Except AdsError (List SumResult)
  | [], _ => .ok []
  | (e, s) :: rest, pos =>
    if s ≠ 0 then do
      -- the hole is only there under the fixed layout
      let out ← cutData layout data rest
        (if layout = .fixed then pos + e.size.toNat else pos)
      return .error (.ads s) :: out
    else
      let stop := pos + e.size.toNat
      if stop > data.length then .error (.shortRead stop data.length)
      else do
        let out ← cutData layout data rest stop
        return .ok ((data.take stop).drop pos) :: out

/-- Data bytes the compacted layout predicts. -/
def compactLen (pairs : List (SumEntry × UInt32)) : Nat :=
  ((pairs.filter (·.2 == 0)).map (·.1.size.toNat)).sum

/-- Split a sum-up response into one result per sub-request. -/
def decodeResponse (resp : List UInt8) (entries : List SumEntry) :
    Except AdsError (List SumResult × DataLayout) := do
  let cnt := entries.length
  let status ← readStatus cnt resp
  let data := resp.drop (cnt * resultLen)
  let fixedData := fixedLen entries - cnt * resultLen
  let compactData := compactLen (entries.zip status)
  let layout ← if data.length = fixedData then .ok DataLayout.fixed
    else if data.length = compactData then .ok DataLayout.compacted
    else .error (.shortRead fixedData data.length)
  let out ← cutData layout data (entries.zip status) 0
  return (out, layout)

/-! ## The response a PLC sends -/

/-- An entry, its status word, and the bytes of its size: its value, or what
stands in the hole when the status is not 0. -/
structure SumRow where
  entry : SumEntry
  status : UInt32
  value : List UInt8
  length_value : value.length = entry.size.toNat

namespace SumRow

/-- What the decoder has to return for the row. -/
def result (r : SumRow) : SumResult := if r.status ≠ 0 then .error (.ads r.status) else .ok r.value

/-- The row's bytes in the data area. -/
def bytes (layout : DataLayout) (r : SumRow) : List UInt8 :=
  if r.status = 0 ∨ layout = .fixed then r.value else []

end SumRow

/-- The data area. -/
def dataArea (layout : DataLayout) (rows : List SumRow) : List UInt8 :=
  rows.flatMap (SumRow.bytes layout)

/-- The whole response. -/
def encodeResponse (layout : DataLayout) (rows : List SumRow) : List UInt8 :=
  rows.flatMap (fun r => leBytes 4 r.status.toNat) ++ dataArea layout rows

/-! ## Lemmas -/

theorem readerU32_leBytes (s : UInt32) (rest : List UInt8) :
    readerU32 (leBytes 4 s.toNat ++ rest) = .ok (s, rest) := by
  have hlen : (leBytes 4 s.toNat).length = 4 := length_leBytes _ _
  have hval : leNat (leBytes 4 s.toNat) = s.toNat := leNat_leBytes_of_lt s.toNat_lt
  unfold readerU32
  rw [if_neg (by rw [List.length_append, hlen]; omega), List.take_left' hlen,
    List.drop_left' hlen, hval, UInt32.ofNat_toNat]

/-- The status words come back, whatever follows them. -/
theorem readStatus_words (rows : List SumRow) (rest : List UInt8) :
    readStatus rows.length (rows.flatMap (fun r => leBytes 4 r.status.toNat) ++ rest) =
      .ok (rows.map SumRow.status) := by
  induction rows with
  | nil => rfl
  | cons r rows ih =>
    simp only [List.length_cons, List.flatMap_cons, List.append_assoc, readStatus,
      readerU32_leBytes, List.map_cons]
    show (do let ss ← readStatus rows.length _; pure (r.status :: ss)) = _
    rw [ih]
    rfl

theorem length_readStatus {cnt : Nat} {buf : List UInt8} {ss : List UInt32}
    (h : readStatus cnt buf = .ok ss) : ss.length = cnt ∧ 4 * cnt ≤ buf.length := by
  induction cnt generalizing buf ss with
  | zero => cases h; simp
  | succ cnt ih =>
    unfold readStatus readerU32 at h
    by_cases hb : buf.length < 4
    · rw [if_pos hb] at h
      cases h
    · rw [if_neg hb] at h
      cases hr : readStatus cnt (buf.drop 4) with
      | error e => simp [hr, bind, Except.bind] at h
      | ok ss' =>
        simp only [hr, bind, Except.bind, pure, Except.pure, Except.ok.injEq] at h
        obtain ⟨h1, h2⟩ := ih hr
        rw [List.length_drop] at h2
        subst h
        exact ⟨by simp [h1], by omega⟩

theorem zip_rows (rows : List SumRow) :
    (rows.map SumRow.entry).zip (rows.map SumRow.status) =
      rows.map fun r => (r.entry, r.status) := by
  rw [List.zip_map']

theorem length_dataArea_fixed (rows : List SumRow) :
    (dataArea .fixed rows).length = ((rows.map SumRow.entry).map (·.size.toNat)).sum := by
  unfold dataArea
  rw [List.length_flatMap, List.map_map]
  congr 1
  apply List.map_congr_left
  intro r _
  simp [SumRow.bytes, r.length_value]

theorem length_dataArea_compacted (rows : List SumRow) :
    (dataArea .compacted rows).length =
      compactLen (rows.map fun r => (r.entry, r.status)) := by
  induction rows with
  | nil => rfl
  | cons r rows ih =>
    have hc : (dataArea .compacted (r :: rows)).length =
        (r.bytes .compacted).length + (dataArea .compacted rows).length := by
      simp [dataArea]
    rw [hc, ih]
    by_cases hs : r.status = 0
    · simp [compactLen, SumRow.bytes, hs, r.length_value]
    · simp [compactLen, SumRow.bytes, hs]

theorem SumRow.length_bytes_le (r : SumRow) :
    (r.bytes .compacted).length ≤ (r.bytes .fixed).length := by
  unfold SumRow.bytes
  split <;> simp

theorem length_dataArea_le (rows : List SumRow) :
    (dataArea .compacted rows).length ≤ (dataArea .fixed rows).length := by
  induction rows with
  | nil => rfl
  | cons r rows ih =>
    have hr := r.length_bytes_le
    have hcons : ∀ l, dataArea l (r :: rows) = r.bytes l ++ dataArea l rows := fun _ => rfl
    rw [hcons, hcons, List.length_append, List.length_append]
    omega

/-- Where the two predictions coincide every failed entry is empty, so the two
data areas are the same bytes. -/
theorem dataArea_eq_of_length (rows : List SumRow)
    (h : (dataArea .compacted rows).length = (dataArea .fixed rows).length) :
    dataArea .compacted rows = dataArea .fixed rows := by
  induction rows with
  | nil => rfl
  | cons r rows ih =>
    have hle := length_dataArea_le rows
    have hcons : ∀ l, dataArea l (r :: rows) = r.bytes l ++ dataArea l rows := fun _ => rfl
    simp only [hcons, List.length_append] at h ⊢
    by_cases hs : r.status = 0
    · have hb : r.bytes .compacted = r.bytes .fixed := by simp [SumRow.bytes, hs]
      rw [hb] at h ⊢
      rw [ih (by omega)]
    · have hc : r.bytes .compacted = [] := by simp [SumRow.bytes, hs]
      have hf : r.bytes .fixed = [] := by
        rw [hc] at h
        simp only [List.length_nil, Nat.zero_add] at h
        exact List.length_eq_zero_iff.1 (by omega)
      rw [hc, hf] at h ⊢
      rw [ih (by simpa using h)]

/-- The cut, from the end of any prefix `pre` already passed. -/
theorem cutData_dataArea (layout : DataLayout) (rows : List SumRow) (pre : List UInt8) :
    cutData layout (pre ++ dataArea layout rows) (rows.map fun r => (r.entry, r.status))
      pre.length = .ok (rows.map SumRow.result) := by
  induction rows generalizing pre with
  | nil => rfl
  | cons r rows ih =>
    have hdata : pre ++ dataArea layout (r :: rows) =
        (pre ++ r.bytes layout) ++ dataArea layout rows := by
      simp [dataArea]
    have key := ih (pre ++ r.bytes layout)
    rw [hdata]
    simp only [List.map_cons, cutData]
    by_cases hs : r.status = 0
    · have hb : r.bytes layout = r.value := by simp [SumRow.bytes, hs]
      have hpos : (pre ++ r.bytes layout).length = pre.length + r.entry.size.toNat := by
        rw [List.length_append, hb, r.length_value]
      rw [hpos] at key
      have hcut : (((pre ++ r.bytes layout) ++ dataArea layout rows).take
          (pre.length + r.entry.size.toNat)).drop pre.length = r.value := by
        rw [← hpos, List.take_left' rfl, List.drop_left' rfl, hb]
      rw [if_neg (by simp [hs]), if_neg (by simp only [List.length_append, hb, r.length_value]; omega),
        key, hcut]
      simp [SumRow.result, hs, bind, Except.bind, pure, Except.pure]
    · have hpos : (if layout = .fixed then pre.length + r.entry.size.toNat else pre.length) =
          (pre ++ r.bytes layout).length := by
        cases layout <;> simp [SumRow.bytes, hs, r.length_value]
      rw [if_pos hs, hpos, key]
      simp [SumRow.result, hs, bind, Except.bind, pure, Except.pure]

theorem fixedLen_sub (entries : List SumEntry) :
    fixedLen entries - entries.length * resultLen = (entries.map (·.size.toNat)).sum := by
  unfold fixedLen
  omega

/-- The response fits the length the request asks for, whatever the layout. -/
theorem length_encodeResponse_le (layout : DataLayout) (rows : List SumRow)
    (h : fixedLen (rows.map SumRow.entry) < 2 ^ 32) :
    (encodeResponse layout rows).length ≤
      (buildRequest (rows.map SumRow.entry)).readLength.toNat := by
  have hread : (buildRequest (rows.map SumRow.entry)).readLength.toNat =
      fixedLen (rows.map SumRow.entry) := Nat.mod_eq_of_lt h
  have hstatus : (rows.flatMap fun r => leBytes 4 r.status.toNat).length =
      rows.length * resultLen := by
    rw [List.length_flatMap]
    simp [resultLen]
  have hdata : (dataArea layout rows).length ≤ ((rows.map SumRow.entry).map (·.size.toNat)).sum := by
    rw [← length_dataArea_fixed]
    cases layout with
    | fixed => exact Nat.le_refl _
    | compacted => exact length_dataArea_le rows
  rw [hread, encodeResponse, List.length_append, hstatus, fixedLen, List.length_map]
  omega

/-! ## Top theorems -/

theorem decodeResponse_encodeResponse (layout : DataLayout) (rows : List SumRow) :
    ∃ used, decodeResponse (encodeResponse layout rows) (rows.map SumRow.entry) =
      .ok (rows.map SumRow.result, used) := by
  have hdrop : (encodeResponse layout rows).drop ((rows.map SumRow.entry).length * resultLen) =
      dataArea layout rows := by
    unfold encodeResponse
    apply List.drop_left'
    rw [List.length_flatMap, List.length_map]
    simp [resultLen]
  have hstatus : readStatus (rows.map SumRow.entry).length (encodeResponse layout rows) =
      .ok (rows.map SumRow.status) := by
    rw [List.length_map]
    exact readStatus_words rows _
  unfold decodeResponse
  simp only [hstatus, hdrop, zip_rows, fixedLen_sub, ← length_dataArea_fixed,
    ← length_dataArea_compacted, bind, Except.bind, pure, Except.pure]
  cases layout with
  | fixed =>
    refine ⟨.fixed, ?_⟩
    have hcut := cutData_dataArea .fixed rows []
    simp only [List.nil_append, List.length_nil] at hcut
    rw [if_pos rfl]
    simp only [hcut]
  | compacted =>
    by_cases hlen : (dataArea .compacted rows).length = (dataArea .fixed rows).length
    · refine ⟨.fixed, ?_⟩
      have hcut := cutData_dataArea .fixed rows []
      simp only [List.nil_append, List.length_nil] at hcut
      rw [if_pos hlen, dataArea_eq_of_length rows hlen]
      simp only [hcut]
    · refine ⟨.compacted, ?_⟩
      have hcut := cutData_dataArea .compacted rows []
      simp only [List.nil_append, List.length_nil] at hcut
      rw [if_neg hlen, if_pos rfl]
      simp only [hcut]

/-- What is accepted has one of the two lengths, by its own status words. -/
theorem decodeResponse_ok_length {resp : List UInt8} {entries : List SumEntry}
    {r : List SumResult × DataLayout} (h : decodeResponse resp entries = .ok r) :
    ∃ status, readStatus entries.length resp = .ok status ∧
      ((resp.drop (entries.length * resultLen)).length = (entries.map (·.size.toNat)).sum ∨
        (resp.drop (entries.length * resultLen)).length = compactLen (entries.zip status)) := by
  unfold decodeResponse at h
  cases hs : readStatus entries.length resp with
  | error e => simp [hs, bind, Except.bind] at h
  | ok status =>
    refine ⟨status, rfl, ?_⟩
    simp only [hs, fixedLen_sub, bind, Except.bind] at h
    by_cases hf : (resp.drop (entries.length * resultLen)).length =
        (entries.map (·.size.toNat)).sum
    · exact Or.inl hf
    · rw [if_neg hf] at h
      by_cases hc : (resp.drop (entries.length * resultLen)).length =
          compactLen (entries.zip status)
      · exact Or.inr hc
      · rw [if_neg hc] at h
        cases h

/-- **Sum-up decoding.**  Under either layout each entry gets its own bytes or
its own error, and a data area of any other length is refused as a whole. -/
theorem sumUp_decoding :
    (∀ (layout : DataLayout) (rows : List SumRow), ∃ used,
      decodeResponse (encodeResponse layout rows) (rows.map SumRow.entry) =
        .ok (rows.map SumRow.result, used)) ∧
    (∀ (resp : List UInt8) (entries : List SumEntry) (status : List UInt32),
      readStatus entries.length resp = .ok status →
      (resp.drop (entries.length * resultLen)).length ≠ (entries.map (·.size.toNat)).sum →
      (resp.drop (entries.length * resultLen)).length ≠ compactLen (entries.zip status) →
      ∃ e, decodeResponse resp entries = .error e) ∧
    (∀ (resp : List UInt8) (entries : List SumEntry), resp.length < entries.length * resultLen →
      ∃ e, decodeResponse resp entries = .error e) := by
  refine ⟨decodeResponse_encodeResponse, ?_, ?_⟩
  · intro resp entries status hs hf hc
    cases hd : decodeResponse resp entries with
    | error e => exact ⟨e, rfl⟩
    | ok r =>
      obtain ⟨status', hs', hlen⟩ := decodeResponse_ok_length hd
      rw [hs] at hs'
      cases hs'
      rcases hlen with hlen | hlen
      · exact absurd hlen hf
      · exact absurd hlen hc
  · intro resp entries hshort
    cases hd : decodeResponse resp entries with
    | error e => exact ⟨e, rfl⟩
    | ok r =>
      obtain ⟨status, hs, -⟩ := decodeResponse_ok_length hd
      have := (length_readStatus hs).2
      unfold resultLen at hshort
      omega

/-- A response of one status word and two data bytes, for a one-byte variable. -/
theorem sumUp_decoding_refuses :
    ∃ e, decodeResponse [0, 0, 0, 0, 7, 8] [⟨0xF005, 1, 1⟩] = .error e :=
  sumUp_decoding.2.1 _ _ [0] (by rfl) (by decide) (by decide)

end TwinCat
