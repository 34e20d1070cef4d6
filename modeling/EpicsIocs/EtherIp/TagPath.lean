import EpicsIocs.EtherIp.Cip

/-! # Tag paths read back

`ParsedTag::parse` (`cip.rs`) splits a tag string into names and indices, and `encode_path` lays
them out as symbol and element segments behind one byte that counts the words.  `readPath` is what
a PLC does with the segments.

    PathOk tag ↔ Fits tag        (path_reads_back)

where `Fits` bounds each name by 255 bytes and the segments by 510 in all.  A tag string as long as
`maxTagLength`, which nothing checks, fits (`fits_of_length`). -/

namespace EtherIp

open Bytes

/-! ## Parsing -/

/-- Longest tag string that is accepted, by its comment. -/
def maxTagLength : Nat := 100

def isDelimiter (c : UInt8) : Bool := c == 0x2E || c == 0x5B

namespace ParsedTag

/-- The names and indices from here on; `atol` is the C library's, and each round takes a byte at
least, so the length of the string is fuel enough. -/
def parseLoop (atol : List UInt8 → Int64) : Nat → List UInt8 → Option (List TagElement)
  | 0, _ => some []
  | fuel + 1, b =>
    let name := b.takeWhile (!isDelimiter ·)
    if name = [] then some []
    else
      match b.dropWhile (!isDelimiter ·) with
      | [] => some [.name name]
      | c :: rest =>
        if c = 0x2E then (parseLoop atol fuel rest).map (.name name :: ·)
        else
          match rest.dropWhile (· != 0x5D) with
          | [] => none
          | _ :: rest' =>
            let idx := (atol (rest.takeWhile (· != 0x5D))).toUInt64.toNat
            -- the '.' in "xxxx[3].subelement"
            let rest' := if rest'.head? = some 0x2E then rest'.tail else rest'
            (parseLoop atol fuel rest').map fun es => .name name :: .index idx :: es

/-- `name.name[element].name` as path elements. -/
def parse (atol : List UInt8 → Int64) (tag : List UInt8) : Option ParsedTag :=
  match parseLoop atol tag.length tag with
  | some (e :: es) => some ⟨e :: es⟩
  | _ => none

end ParsedTag

/-! ## Reading segments -/

/-- One segment and what follows it. -/
def readSegment : List UInt8 → Option (TagElement × List UInt8)
  | 0x91 :: n :: rest =>
    if n.toNat + n.toNat % 2 ≤ rest.length then
      some (.name (rest.take n.toNat), rest.drop (n.toNat + n.toNat % 2))
    else none
  | 0x28 :: i :: rest => some (.index i.toNat, rest)
  | 0x29 :: _ :: a :: b :: rest => some (.index (leNat [a, b]), rest)
  | 0x2A :: _ :: a :: b :: c :: d :: rest => some (.index (leNat [a, b, c, d]), rest)
  | _ => none

/-- The segments of a path, at most as many as the first argument says. -/
def readPath : Nat → List UInt8 → Option (List TagElement)
  | _, [] => some []
  | 0, _ :: _ => none
  | fuel + 1, c :: rest =>
    (readSegment (c :: rest)).bind fun seg => (readPath fuel seg.2).map (seg.1 :: ·)

/-- The path of a request, by the word count behind its service code. -/
def requestPath (request : List UInt8) : List UInt8 :=
  (request.drop 2).take (2 * (request.getD 1 0).toNat)

namespace TagElement

/-- What a segment can say of an element: an index modulo 2^32. -/
def wire : TagElement → TagElement
  | .name n => .name n
  | .index i => .index (i % 2 ^ 32)

/-- The length byte of the segment counts the name. -/
def NameFits : TagElement → Prop
  | .name n => n.length ≤ 255
  | .index _ => True

/-- The bytes of a name's segment behind its two first. -/
def nameTail (n : List UInt8) : List UInt8 := n ++ (if n.length % 2 ≠ 0 then [0] else [])

theorem length_nameTail (n : List UInt8) : (nameTail n).length = n.length + n.length % 2 := by
  unfold nameTail
  split
  · simp
    omega
  · simp
    omega

theorem readSegment_name (k : UInt8) (rest : List UInt8) :
    readSegment (0x91 :: k :: rest) =
      if k.toNat + k.toNat % 2 ≤ rest.length then
        some (.name (rest.take k.toNat), rest.drop (k.toNat + k.toNat % 2))
      else none := rfl

theorem readSegment_encode {e : TagElement} (h : e.NameFits) (rest : List UInt8) :
    readSegment (e.encode ++ rest) = some (e.wire, rest) := by
  cases e with
  | name n =>
    have hk : (UInt8.ofNat n.length).toNat = n.length := by
      have : n.length ≤ 255 := h
      simp
      omega
    have hle : n.length + n.length % 2 ≤ (nameTail n ++ rest).length := by
      rw [List.length_append, length_nameTail]
      omega
    have hencode : (TagElement.name n).encode ++ rest =
        0x91 :: UInt8.ofNat n.length :: (nameTail n ++ rest) := by
      simp [encode, nameTail]
    rw [hencode, readSegment_name, hk, if_pos hle, ← length_nameTail, List.drop_left]
    have htake : (nameTail n ++ rest).take n.length = n := by
      unfold nameTail
      rw [List.append_assoc, List.take_left]
    rw [htake]
    rfl
  | index i =>
    have hread : ∀ k, k ≤ 4 → leNat (leBytes k i) = i % 256 ^ k := fun k _ => leNat_leBytes k i
    simp only [encode]
    split
    · have hi : (UInt8.ofNat i).toNat = i % 2 ^ 32 := by
        have : i ≤ 255 := by assumption
        simp
        omega
      show some (TagElement.index (UInt8.ofNat i).toNat, rest) = _
      rw [hi]
      rfl
    · split
      · show some (TagElement.index (leNat (leBytes 2 i)), rest) = _
        rw [hread 2 (by decide), show i % 256 ^ 2 = i % 2 ^ 32 by omega]
        rfl
      · show some (TagElement.index (leNat (leBytes 4 i)), rest) = _
        rw [hread 4 (by decide)]
        rfl

/-- The length byte of a longer name counts less of it. -/
theorem readSegment_long {n : List UInt8} (h : 255 < n.length) (rest : List UInt8) :
    ∀ seg, readSegment ((TagElement.name n).encode ++ rest) = some seg → seg.1 ≠ .name n := by
  intro seg hseg
  have hk : (UInt8.ofNat n.length).toNat < 256 := UInt8.toNat_lt _
  have hencode : (TagElement.name n).encode ++ rest =
      0x91 :: UInt8.ofNat n.length :: (nameTail n ++ rest) := by
    simp [encode, nameTail]
  rw [hencode, readSegment_name] at hseg
  obtain ⟨-, hseg⟩ := Option.ite_none_right_eq_some.1 hseg
  obtain rfl := Option.some.inj hseg
  intro heq
  have hlen := congrArg List.length (TagElement.name.inj heq)
  rw [List.length_take] at hlen
  omega

end TagElement

open TagElement

theorem length_le_flatMap_encode (es : List TagElement) :
    es.length ≤ (es.flatMap TagElement.encode).length := by
  induction es with
  | nil => exact Nat.le_refl _
  | cons e es ih =>
    have hpos : 1 ≤ e.encode.length := by
      rw [TagElement.length_encode]
      cases e with
      | name n => simp only [TagElement.bytes]; omega
      | index i => simp only [TagElement.bytes]; split <;> [decide; split <;> decide]
    rw [List.flatMap_cons, List.length_append, List.length_cons]
    omega

theorem readPath_cons (fuel : Nat) {b : List UInt8} (hb : b ≠ []) :
    readPath (fuel + 1) b =
      (readSegment b).bind fun seg => (readPath fuel seg.2).map (seg.1 :: ·) := by
  cases b with
  | nil => exact absurd rfl hb
  | cons c rest => rfl

theorem encode_ne_nil (e : TagElement) (rest : List UInt8) : e.encode ++ rest ≠ [] := by
  cases e with
  | name n => simp [encode]
  | index i =>
    simp only [encode]
    split <;> [simp; split <;> simp]

theorem readPath_encode {es : List TagElement} (h : ∀ e ∈ es, e.NameFits) {fuel : Nat}
    (hfuel : es.length ≤ fuel) : readPath fuel (es.flatMap encode) = some (es.map wire) := by
  induction es generalizing fuel with
  | nil =>
    cases fuel <;> rfl
  | cons e es ih =>
    cases fuel with
    | zero => simp at hfuel
    | succ fuel =>
      rw [List.flatMap_cons, readPath_cons fuel (encode_ne_nil e _),
        readSegment_encode (h e List.mem_cons_self)]
      show (readPath fuel (es.flatMap encode)).map _ = _
      rw [ih (fun e' he => h e' (List.mem_cons_of_mem _ he)) (Nat.le_of_succ_le_succ hfuel)]
      rfl

theorem nameFits_of_readPath {es : List TagElement} {fuel : Nat}
    (h : readPath fuel (es.flatMap encode) = some (es.map wire)) : ∀ e ∈ es, e.NameFits := by
  induction es generalizing fuel with
  | nil => simp
  | cons e es ih =>
    cases fuel with
    | zero =>
      rw [List.flatMap_cons] at h
      cases hb : e.encode ++ es.flatMap encode with
      | nil => exact absurd hb (encode_ne_nil e _)
      | cons c rest =>
        rw [hb] at h
        cases h
    | succ fuel =>
      rw [List.flatMap_cons, readPath_cons fuel (encode_ne_nil e _)] at h
      obtain ⟨seg, hseg, hrest⟩ := Option.bind_eq_some_iff.1 h
      obtain ⟨more, hmore, hcons⟩ := Option.map_eq_some_iff.1 hrest
      obtain ⟨hhead, rfl⟩ := List.cons.inj hcons
      have hfits : e.NameFits := by
        cases e with
        | index i => trivial
        | name n =>
          by_contra hlong
          exact readSegment_long (Nat.lt_of_not_le hlong) _ seg hseg hhead
      intro e' he'
      rcases List.mem_cons.1 he' with rfl | he'
      · exact hfits
      · rw [readSegment_encode hfits] at hseg
        obtain rfl := Option.some.inj hseg
        exact ih hmore e' he'

/-! ## The path of a request -/

/-- The path as emitted: its length, the byte that counts its words in front of it, and what is read
from it. -/
structure PathOk (tag : ParsedTag) : Prop where
  length : tag.encodePath.length = 2 * tag.pathWords
  counted : tag.pathWords ≤ 255
  reading : ∀ elements, requestPath (encodeReadData tag elements) = tag.encodePath
  writing : ∀ ty elements raw, requestPath (encodeWriteData tag ty elements raw) = tag.encodePath
  writingString : ∀ elements raw limit,
    requestPath (encodeWriteString tag elements raw limit) = tag.encodePath
  reads : readPath tag.encodePath.length tag.encodePath = some (tag.elements.map wire)

/-- No name longer than its length byte counts, and no more segments than the word count does. -/
def Fits (tag : ParsedTag) : Prop :=
  (∀ e ∈ tag.elements, e.NameFits) ∧ (tag.elements.map TagElement.bytes).sum ≤ 510

theorem sum_bytes (tag : ParsedTag) :
    (tag.elements.map TagElement.bytes).sum = 2 * tag.pathWords := by
  have hlen : tag.encodePath.length = (tag.elements.map TagElement.bytes).sum := by
    simp [ParsedTag.encodePath, List.length_flatMap]
  rw [← hlen, tag.length_encodePath]

theorem requestPath_of_counted {tag : ParsedTag} (h : tag.pathWords ≤ 255) (service : UInt8)
    (rest : List UInt8) :
    requestPath ([service, UInt8.ofNat tag.pathWords] ++ tag.encodePath ++ rest) =
      tag.encodePath := by
  have hk : (UInt8.ofNat tag.pathWords).toNat = tag.pathWords := by
    simp
    omega
  show ((tag.encodePath ++ rest).take (2 * (UInt8.ofNat tag.pathWords).toNat)) = _
  rw [hk, ← tag.length_encodePath, List.take_left]

theorem pathOk_iff (tag : ParsedTag) : PathOk tag ↔ Fits tag := by
  constructor
  · intro h
    refine ⟨nameFits_of_readPath h.reads, ?_⟩
    rw [sum_bytes]
    have := h.counted
    omega
  · rintro ⟨hnames, hsum⟩
    rw [sum_bytes] at hsum
    have hcounted : tag.pathWords ≤ 255 := by omega
    refine ⟨tag.length_encodePath, hcounted, fun elements => ?_, fun ty elements raw => ?_,
      fun elements raw limit => ?_, readPath_encode hnames (length_le_flatMap_encode _)⟩
    · exact requestPath_of_counted hcounted 0x4C _
    · unfold encodeWriteData
      simp only [List.append_assoc]
      rw [← List.append_assoc [0x4D, _]]
      exact requestPath_of_counted hcounted 0x4D _
    · unfold encodeWriteString
      simp only [List.append_assoc]
      rw [← List.append_assoc [0x4D, _]]
      exact requestPath_of_counted hcounted 0x4D _

/-! ## Short tags -/

theorem bytes_name_le {n : List UInt8} (h : n ≠ []) : (TagElement.name n).bytes ≤ 4 * n.length := by
  have hpos := List.length_pos_iff.2 h
  simp only [TagElement.bytes]
  omega

theorem bytes_index_le (i : Nat) : (TagElement.index i).bytes ≤ 6 := by
  simp only [TagElement.bytes]
  split <;> [omega; split <;> omega]

/-- A name of at most `k` bytes. -/
def NameLe (k : Nat) : TagElement → Prop
  | .name n => n.length ≤ k
  | .index _ => True

theorem NameLe.mono {k l : Nat} {e : TagElement} (h : NameLe k e) (hkl : k ≤ l) : NameLe l e := by
  cases e with
  | name n => exact Nat.le_trans h hkl
  | index i => trivial

/-- Each byte of a tag string makes at most four of the path. -/
theorem parseLoop_le {atol : List UInt8 → Int64} {fuel : Nat} {b : List UInt8}
    {es : List TagElement} (h : ParsedTag.parseLoop atol fuel b = some es) :
    (es.map TagElement.bytes).sum ≤ 4 * b.length ∧ ∀ e ∈ es, NameLe b.length e := by
  induction fuel generalizing b es with
  | zero =>
    cases h
    simp
  | succ fuel ih =>
    have hsplit : (b.takeWhile (!isDelimiter ·)).length + (b.dropWhile (!isDelimiter ·)).length =
        b.length := by
      rw [← List.length_append, List.takeWhile_append_dropWhile]
    rw [ParsedTag.parseLoop] at h
    by_cases hname : b.takeWhile (!isDelimiter ·) = []
    · rw [if_pos hname] at h
      cases h
      simp
    · rw [if_neg hname] at h
      have hbytes := bytes_name_le hname
      have hle : NameLe b.length (.name (b.takeWhile (!isDelimiter ·))) := by
        show (b.takeWhile (!isDelimiter ·)).length ≤ b.length
        omega
      cases hafter : b.dropWhile (!isDelimiter ·) with
      | nil =>
        rw [hafter] at h
        cases h
        simp only [List.map_cons, List.map_nil, List.sum_cons, List.sum_nil, List.mem_singleton,
          forall_eq]
        exact ⟨by omega, hle⟩
      | cons c rest =>
        rw [hafter] at h hsplit
        rw [List.length_cons] at hsplit
        dsimp only at h
        by_cases hdot : c = 0x2E
        · rw [if_pos hdot] at h
          obtain ⟨es', hes, rfl⟩ := Option.map_eq_some_iff.1 h
          obtain ⟨hsum, hnames⟩ := ih hes
          rw [List.map_cons, List.sum_cons]
          refine ⟨by omega, fun e he => ?_⟩
          rcases List.mem_cons.1 he with rfl | he
          · exact hle
          · exact (hnames e he).mono (by omega)
        · rw [if_neg hdot] at h
          have hclose : (rest.dropWhile (· != 0x5D)).length ≤ rest.length :=
            (List.dropWhile_suffix _).length_le
          cases hrest : rest.dropWhile (· != 0x5D) with
          | nil =>
            rw [hrest] at h
            cases h
          | cons d rest' =>
            rw [hrest] at h hclose
            rw [List.length_cons] at hclose
            dsimp only at h
            obtain ⟨es', hes, rfl⟩ := Option.map_eq_some_iff.1 h
            have hskip : (if rest'.head? = some 0x2E then rest'.tail else rest').length ≤
                rest'.length := by
              split
              · simp
              · exact Nat.le_refl _
            obtain ⟨hsum, hnames⟩ := ih hes
            have hindex := bytes_index_le
              (atol (rest.takeWhile (· != 0x5D))).toUInt64.toNat
            rw [List.map_cons, List.sum_cons, List.map_cons, List.sum_cons]
            -- the two brackets pay for the index
            refine ⟨by omega, fun e he => ?_⟩
            rcases List.mem_cons.1 he with rfl | he
            · exact hle
            · rcases List.mem_cons.1 he with rfl | he
              · trivial
              · exact (hnames e he).mono (by omega)

theorem fits_of_length {atol : List UInt8 → Int64} {text : List UInt8} {tag : ParsedTag}
    (h : ParsedTag.parse atol text = some tag) (hlen : text.length ≤ 127) : Fits tag := by
  unfold ParsedTag.parse at h
  split at h
  case h_2 => cases h
  case h_1 e es hes =>
    cases h
    obtain ⟨hsum, hnames⟩ := parseLoop_le hes
    refine ⟨fun e he => ?_, ?_⟩
    · have hle := hnames e he
      cases e with
      | index i => trivial
      | name n =>
        have hle : n.length ≤ text.length := hle
        show n.length ≤ 255
        omega
    · show ((_ :: _).map TagElement.bytes).sum ≤ 510
      omega

/-- **A path is read back exactly where it fits its length bytes**, as the path of every tag string
does that is accepted by the comment on `maxTagLength`. -/
theorem path_reads_back (atol : List UInt8 → Int64) (text : List UInt8) (tag : ParsedTag)
    (h : ParsedTag.parse atol text = some tag) :
    (PathOk tag ↔ Fits tag) ∧ (text.length ≤ maxTagLength → Fits tag) :=
  ⟨pathOk_iff tag, fun hlen => fits_of_length h (Nat.le_trans hlen (by decide))⟩

/-- The value of decimal digits, for what follows. -/
def atolDigits (b : List UInt8) : Int64 :=
  Int64.ofInt (b.foldl (fun n c => n * 10 + (c.toNat - 0x30 : Int)) 0)

/-- `arr[2].sub[300]`. -/
def arrSub : List UInt8 :=
  [0x61, 0x72, 0x72, 0x5B, 0x32, 0x5D, 0x2E, 0x73, 0x75, 0x62, 0x5B, 0x33, 0x30, 0x30, 0x5D]

theorem path_reads_back_arrSub :
    PathOk ⟨[.name [0x61, 0x72, 0x72], .index 2, .name [0x73, 0x75, 0x62], .index 300]⟩ := by
  have hparse : ParsedTag.parse atolDigits arrSub =
      some ⟨[.name [0x61, 0x72, 0x72], .index 2, .name [0x73, 0x75, 0x62], .index 300]⟩ := by decide
  have h := path_reads_back atolDigits arrSub _ hparse
  exact h.1.2 (h.2 (by decide))

/-- A name of 256 letters: its length byte is 0. -/
theorem long_name_lost :
    ParsedTag.parse atolDigits (List.replicate 256 0x41) =
        some ⟨[.name (List.replicate 256 0x41)]⟩ ∧
      ¬ PathOk ⟨[.name (List.replicate 256 0x41)]⟩ := by
  refine ⟨by decide +kernel, fun h => ?_⟩
  have hlong := ((pathOk_iff _).1 h).1 (.name (List.replicate 256 0x41)) List.mem_cons_self
  have hlong : (List.replicate 256 (0x41 : UInt8)).length ≤ 255 := hlong
  rw [List.length_replicate] at hlong
  omega

end EtherIp
