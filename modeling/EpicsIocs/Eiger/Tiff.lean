import EpicsIocs.Eiger.Frame
import EpicsIocs.Lib.Decimal
import Mathlib.Data.List.Induction
import Mathlib.Tactic.SplitIfs

/-! # Monitor images

`decode` of `tiff.rs`: the header, the directory it points to and the five tags that count, each
number of the file an offset or a factor of its own making.  Sums and products are those of the
machine and an index out of range is a panic; `checks` says whether the build checks for overflow.

`Directory buf ifd entries` are the entries of a file as they stand in it.

    decode checks buf = .ok image → image.strip is its size in bytes from `StripOffsets` on
    TiffFile buf width height dataType strip →
      decode checks buf = .ok ⟨(width, height), dataType, strip⟩               (decode_monitor)
-/

namespace Eiger.Tiff

open Bytes Faults Fallible Machine

/-! ## Reading -/

/-- `buf.get(start..stop)`. -/
def getRange (buf : List UInt8) (start stop : Nat) : Option (List UInt8) :=
  if start ≤ stop ∧ stop ≤ buf.length then some ((buf.drop start).take (stop - start)) else none

section
variable (checks : Bool) (buf : List UInt8)

/-- The little-endian number of `n` bytes at `pos`. -/
def uintAt (n pos : Nat) : Outcome String Nat :=
  (add checks pos n).bind fun stop =>
    (get (getRange buf pos stop) s!"truncated at byte {pos}").bind fun b =>
      (touch b.length (List.range n)).map fun _ => leNat (b.take n)

def u16At (pos : Nat) : Outcome String Nat := uintAt checks buf 2 pos

def u32At (pos : Nat) : Outcome String Nat := uintAt checks buf 4 pos

end

/-! ## Decoding -/

def tiffMagicLe : Nat := 0x002A4949

def tagImageWidth : Nat := 256
def tagImageLength : Nat := 257
def tagBitsPerSample : Nat := 258
def tagStripOffsets : Nat := 273
def tagStripByteCounts : Nat := 279

/-- The values of the tags, 0 where there is none. -/
structure Tags where
  width : Nat := 0
  height : Nat := 0
  depth : Nat := 0
  dataLen : Nat := 0
  stripOffset : Nat := 0
  deriving DecidableEq, Repr

/-- One entry, by its tag and value. -/
def Tags.set (t : Tags) (id value : Nat) : Tags :=
  if id = tagImageWidth then { t with width := value }
  else if id = tagImageLength then { t with height := value }
  else if id = tagBitsPerSample then { t with depth := value }
  else if id = tagStripOffsets then { t with stripOffset := value }
  else if id = tagStripByteCounts then { t with dataLen := value }
  else t

structure Image where
  dims : Nat × Nat
  dataType : DataType
  strip : List UInt8
  deriving DecidableEq, Repr

section
variable (checks : Bool) (buf : List UInt8)

/-- The `k` entries from number `i` on. -/
def readTags (ifd : Nat) : (k i : Nat) → Tags → Outcome String Tags
  | 0, _, t => .ok t
  | k + 1, i, t =>
    (add checks ifd 2).bind fun first =>
      (mul checks i 12).bind fun skip =>
        (add checks first skip).bind fun entry =>
          (u16At checks buf entry).bind fun id =>
            (add checks entry 8).bind fun pos =>
              (u32At checks buf pos).bind fun value => readTags ifd k (i + 1) (t.set id value)

def dataTypeOfDepth (depth : Nat) : Outcome String DataType :=
  if depth = 8 then .ok .uint8
  else if depth = 16 then .ok .uint16
  else if depth = 32 then .ok .uint32
  else fail s!"unexpected bit depth={depth}"

/-- The image of tags that are there. -/
def imageOf (t : Tags) : Outcome String Image :=
  (dataTypeOfDepth t.depth).bind fun dataType =>
    (get ((checkedMul t.width t.height).bind fun n => checkedMul n dataType.elementSize)
      "image dimensions overflow").bind fun expected =>
      if t.dataLen ≠ expected then
        fail s!"StripByteCounts is {t.dataLen} bytes but {t.width}x{t.height}x{t.depth}b needs {expected}"
      else
        (add checks t.stripOffset t.dataLen).bind fun stop =>
          (get (getRange buf t.stripOffset stop) "pixel data out of range").map fun strip =>
            ⟨(t.width, t.height), dataType, strip⟩

def decode : Outcome String Image :=
  (u32At checks buf 0).bind fun magic =>
    if magic ≠ tiffMagicLe then fail "wrong tiff header"
    else
      (u32At checks buf 4).bind fun ifd =>
        (u16At checks buf ifd).bind fun numEntries =>
          (readTags checks buf ifd numEntries 0 {}).bind fun t =>
            if t.width = 0 ∨ t.height = 0 ∨ t.depth = 0 ∨ t.dataLen = 0 then fail "missing tags"
            else if t.stripOffset = 0 then fail "missing StripOffsets tag"
            else imageOf checks buf t

end

/-! ## A file -/

/-- Tag and value of an entry. -/
abbrev Entry : Type := Nat × Nat

/-- Entry `i` of the directory at `ifd`. -/
def entryAt (buf : List UInt8) (ifd i : Nat) : Option Entry :=
  (rdNat? buf (ifd + 2 + i * 12) 2).bind fun id =>
    (rdNat? buf (ifd + 2 + i * 12 + 8) 4).map fun value => (id, value)

/-- The header points to the directory, and these are its entries. -/
structure Directory (buf : List UInt8) (ifd : Nat) (entries : List Entry) : Prop where
  magic_at : rdNat? buf 0 4 = some tiffMagicLe
  ifd_at : rdNat? buf 4 4 = some ifd
  count_at : rdNat? buf ifd 2 = some entries.length
  entry_at : ∀ (i : Nat) (h : i < entries.length), entryAt buf ifd i = some entries[i]

/-- The value a tag has in the end. -/
def lastValue (tag : Nat) (entries : List Entry) : Option Nat :=
  ((entries.filter fun e => e.1 = tag).getLast?).map Prod.snd

/-- A tag is among the entries, with one value. -/
def Holds (entries : List Entry) (tag value : Nat) : Prop :=
  (tag, value) ∈ entries ∧ ∀ other, (tag, other) ∈ entries → other = value

/-- A file that holds an image: its directory somewhere, with the five tags among any others, and
its strip behind the start of the header, where `StripOffsets` says. -/
structure TiffFile (buf : List UInt8) (width height : Nat) (dataType : DataType)
    (strip : List UInt8) : Prop where
  length_lt : buf.length < 2 ^ 32
  width_pos : 0 < width
  height_pos : 0 < height
  type_mem : dataType = .uint8 ∨ dataType = .uint16 ∨ dataType = .uint32
  length_strip : strip.length = width * height * dataType.elementSize
  directory : ∃ ifd entries offset, Directory buf ifd entries ∧
    Holds entries tagImageWidth width ∧ Holds entries tagImageLength height ∧
    Holds entries tagBitsPerSample (8 * dataType.elementSize) ∧
    Holds entries tagStripByteCounts strip.length ∧
    Holds entries tagStripOffsets offset ∧ 0 < offset ∧
    slice? buf offset strip.length = some strip

/-! ## What is read -/

theorem rdNat?_lt {b : List UInt8} {i n v : Nat} (h : rdNat? b i n = some v) :
    i + n ≤ b.length ∧ v < 256 ^ n := by
  unfold rdNat? slice? at h
  split at h
  · next hle =>
    obtain rfl := Option.some.inj h
    have hlt := leNat_lt ((b.drop i).take n)
    rw [List.length_take, List.length_drop, Nat.min_eq_left (by omega)] at hlt
    exact ⟨hle, hlt⟩
  · cases h

theorem getRange_eq (buf : List UInt8) (start n : Nat) :
    getRange buf start (start + n) = slice? buf start n := by
  rw [getRange, slice?, Nat.add_sub_cancel_left]
  simp

section
variable {checks : Bool} {buf : List UInt8}

/-- Where the place does not overflow, a number is read or the file is too short. -/
theorem uintAt_eq {n pos : Nat} (h : pos + n ≤ u64Max) :
    uintAt checks buf n pos = get (rdNat? buf pos n) s!"truncated at byte {pos}" := by
  rw [uintAt, add_of_le h]
  show (get (getRange buf pos (pos + n)) _).bind _ = _
  rw [getRange_eq, rdNat?, get_map]
  cases hslice : slice? buf pos n with
  | none => rfl
  | some b =>
    have hlen := Decimal.length_of_slice? hslice
    show (touch b.length (List.range n)).map _ = _
    rw [touch_of_lt fun i hi => by rw [hlen]; exact List.mem_range.1 hi]
    show Except.ok (leNat (b.take n)) = Except.ok (leNat b)
    rw [List.take_of_length_le (Nat.le_of_eq hlen)]

theorem entry_le {ifd i : Nat} (hifd : ifd < 2 ^ 32) (hi : i < 2 ^ 16) :
    ifd + 2 + i * 12 + 8 + 4 ≤ u64Max := by
  unfold u64Max
  omega

/-- One turn of the loop reads an entry of the directory. -/
theorem readTags_succ {ifd i : Nat} (k : Nat) (t : Tags) (hifd : ifd < 2 ^ 32) (hi : i < 2 ^ 16) :
    readTags checks buf ifd (k + 1) i t =
      (get (rdNat? buf (ifd + 2 + i * 12) 2) s!"truncated at byte {ifd + 2 + i * 12}").bind
        fun id =>
          (get (rdNat? buf (ifd + 2 + i * 12 + 8) 4)
            s!"truncated at byte {ifd + 2 + i * 12 + 8}").bind
            fun value => readTags checks buf ifd k (i + 1) (t.set id value) := by
  have hle := entry_le hifd hi
  rw [readTags, add_of_le (by omega), ok_bind, mul_of_le (by omega), ok_bind,
    add_of_le (by omega), ok_bind, u16At, uintAt_eq (by omega)]
  congr 1
  funext id
  rw [add_of_le (by omega), ok_bind, u32At, uintAt_eq hle]

/-- The values after these entries. -/
def setAll (entries : List Entry) (t : Tags) : Tags :=
  entries.foldl (fun t e => t.set e.1 e.2) t

/-- The loop never panics; what it read are the entries. -/
theorem readTags_safe {ifd : Nat} (hifd : ifd < 2 ^ 32) (k i : Nat) (t : Tags)
    (hki : i + k < 2 ^ 16) :
    Safe (fun t' => ∃ entries : List Entry, entries.length = k ∧
      (∀ (j : Nat) (h : j < entries.length), entryAt buf ifd (i + j) = some entries[j]) ∧
      t' = setAll entries t) (readTags checks buf ifd k i t) := by
  induction k generalizing i t with
  | zero => exact .ok ⟨[], rfl, fun _ h => absurd h (Nat.not_lt_zero _), rfl⟩
  | succ k ih =>
    rw [readTags_succ k t hifd (by omega)]
    refine Safe.bind (Safe.get fun id hid => hid) fun id hid => ?_
    refine Safe.bind (Safe.get fun value hvalue => hvalue) fun value hvalue => ?_
    refine (ih (i + 1) (t.set id value) (by omega)).imp ?_
    rintro t' ⟨entries, hlen, hentries, rfl⟩
    refine ⟨(id, value) :: entries, by rw [List.length_cons, hlen], ?_, rfl⟩
    intro j hj
    cases j with
    | zero =>
      rw [Nat.add_zero, entryAt, hid, Option.bind_some, hvalue]
      rfl
    | succ j =>
      have h := hentries j (by simpa using hj)
      rwa [Nat.add_assoc, Nat.add_comm 1 j] at h

/-- Entries that are there are read. -/
theorem readTags_of_entries {ifd : Nat} (hifd : ifd < 2 ^ 32) (entries : List Entry) (i : Nat)
    (t : Tags) (hi : i + entries.length < 2 ^ 16)
    (h : ∀ (j : Nat) (hj : j < entries.length), entryAt buf ifd (i + j) = some entries[j]) :
    readTags checks buf ifd entries.length i t = .ok (setAll entries t) := by
  induction entries generalizing i t with
  | nil => rfl
  | cons e entries ih =>
    rw [List.length_cons] at hi
    have hfirst := h 0 (Nat.zero_lt_succ _)
    rw [Nat.add_zero] at hfirst
    obtain ⟨id, hid, he⟩ := Option.bind_eq_some_iff.1 hfirst
    obtain ⟨value, hvalue, he⟩ := Option.map_eq_some_iff.1 he
    obtain rfl : (id, value) = e := he
    rw [List.length_cons, readTags_succ _ t hifd (by omega), hid, get_some, ok_bind, hvalue,
      get_some, ok_bind]
    refine ih (i + 1) (t.set id value) (by omega) fun j hj => ?_
    have hnext := h (j + 1) (Nat.succ_lt_succ hj)
    have hindex : i + (j + 1) = i + 1 + j := by omega
    rwa [hindex] at hnext

end

/-! ## The tags in the end -/

/-- A value of the tags and the tag that sets it. -/
structure Field where
  tag : Nat
  value : Tags → Nat
  value_set : ∀ (t : Tags) (id v : Nat), value (t.set id v) = if id = tag then v else value t

section
variable (t : Tags) (id v : Nat)

theorem width_set : (t.set id v).width = if id = tagImageWidth then v else t.width := by
  unfold Tags.set
  repeat' split
  all_goals rfl

theorem height_set : (t.set id v).height = if id = tagImageLength then v else t.height := by
  unfold Tags.set
  repeat' split
  all_goals first | rfl | (subst id; contradiction)

theorem depth_set : (t.set id v).depth = if id = tagBitsPerSample then v else t.depth := by
  unfold Tags.set
  repeat' split
  all_goals first | rfl | (subst id; contradiction)

theorem dataLen_set : (t.set id v).dataLen = if id = tagStripByteCounts then v else t.dataLen := by
  unfold Tags.set
  repeat' split
  all_goals first | rfl | (subst id; contradiction)

theorem stripOffset_set : (t.set id v).stripOffset = if id = tagStripOffsets then v else t.stripOffset := by
  unfold Tags.set
  repeat' split
  all_goals first | rfl | (subst id; contradiction)

end

def widthField : Field := ⟨tagImageWidth, Tags.width, width_set⟩
def heightField : Field := ⟨tagImageLength, Tags.height, height_set⟩
def depthField : Field := ⟨tagBitsPerSample, Tags.depth, depth_set⟩
def dataLenField : Field := ⟨tagStripByteCounts, Tags.dataLen, dataLen_set⟩
def stripOffsetField : Field := ⟨tagStripOffsets, Tags.stripOffset, stripOffset_set⟩

theorem lastValue_concat (tag : Nat) (entries : List Entry) (e : Entry) :
    lastValue tag (entries ++ [e]) = if e.1 = tag then some e.2 else lastValue tag entries := by
  rw [lastValue, List.filter_append]
  by_cases h : e.1 = tag
  · rw [List.filter_cons_of_pos (by simpa using h), List.filter_nil, List.getLast?_concat,
      if_pos h]
    rfl
  · rw [List.filter_cons_of_neg (by simpa using h), List.filter_nil, List.append_nil, if_neg h]
    rfl

/-- A field ends with the last value of its tag. -/
theorem Field.value_setAll (f : Field) (entries : List Entry) (t : Tags) :
    f.value (setAll entries t) = (lastValue f.tag entries).getD (f.value t) := by
  induction entries using List.reverseRecOn with
  | nil => rfl
  | append_singleton entries e ih =>
    rw [setAll, List.foldl_append, List.foldl_cons, List.foldl_nil, f.value_set, lastValue_concat]
    split
    · rfl
    · exact ih

theorem of_lastValue {tag v : Nat} {entries : List Entry} (h : lastValue tag entries = some v) :
    (tag, v) ∈ entries := by
  obtain ⟨e, hlast, rfl⟩ := Option.map_eq_some_iff.1 h
  obtain ⟨hmem, htag⟩ := List.mem_filter.1 (List.mem_of_getLast? hlast)
  obtain rfl : e.1 = tag := of_decide_eq_true htag
  exact hmem

/-- A tag with one value ends with it. -/
theorem lastValue_of_holds {tag v : Nat} {entries : List Entry} (h : Holds entries tag v) :
    lastValue tag entries = some v := by
  cases hlast : lastValue tag entries with
  | some other => rw [h.2 other (of_lastValue hlast)]
  | none =>
    rw [lastValue, Option.map_eq_none_iff, List.getLast?_eq_none_iff] at hlast
    have hmem : (tag, v) ∈ entries.filter fun e => e.1 = tag :=
      List.mem_filter.2 ⟨h.1, decide_eq_true rfl⟩
    rw [hlast] at hmem
    exact absurd hmem List.not_mem_nil

/-- A field that is not 0 in the end has its value from an entry. -/
theorem Field.of_ne_zero {f : Field} {entries : List Entry} (hzero : f.value {} = 0)
    (h : f.value (setAll entries {}) ≠ 0) :
    lastValue f.tag entries = some (f.value (setAll entries {})) := by
  rw [f.value_setAll, hzero] at h ⊢
  cases hlast : lastValue f.tag entries with
  | some v => rfl
  | none =>
    rw [hlast] at h
    exact absurd rfl h

theorem Directory.value_lt {buf : List UInt8} {ifd tag v : Nat} {entries : List Entry}
    (h : ∀ (i : Nat) (hi : i < entries.length), entryAt buf ifd i = some entries[i])
    (hv : lastValue tag entries = some v) : v < 2 ^ 32 := by
  obtain ⟨i, hi, he⟩ := List.getElem_of_mem (of_lastValue hv)
  obtain ⟨id, -, hentry⟩ := Option.bind_eq_some_iff.1 (h i hi)
  obtain ⟨value, hvalue, hentry⟩ := Option.map_eq_some_iff.1 hentry
  rw [he] at hentry
  obtain rfl : value = v := congrArg Prod.snd hentry
  exact (rdNat?_lt hvalue).2

/-! ## Decoding is safe -/

section
variable {checks : Bool} {buf : List UInt8}

theorem dataTypeOfDepth_safe (depth : Nat) :
    Safe (fun dataType : DataType => dataType.elementSize * 8 = depth) (dataTypeOfDepth depth) := by
  unfold dataTypeOfDepth
  split_ifs with h8 h16 h32
  · exact .ok h8.symm
  · exact .ok h16.symm
  · exact .ok h32.symm
  · exact .fail

/-- The strip of an image is as long as its dimensions say, and where its offset says. -/
def StripOf (buf : List UInt8) (t : Tags) (image : Image) : Prop :=
  image.dims = (t.width, t.height) ∧ image.dataType.elementSize * 8 = t.depth ∧
    slice? buf t.stripOffset (t.width * t.height * image.dataType.elementSize) = some image.strip

theorem imageOf_safe {t : Tags} (hoffset : t.stripOffset < 2 ^ 32) (hlen : t.dataLen < 2 ^ 32) :
    Safe (StripOf buf t) (imageOf checks buf t) := by
  refine Safe.bind (dataTypeOfDepth_safe t.depth) fun dataType htype => ?_
  refine Safe.bind (Safe.get fun expected h => h) fun expected hexpected => ?_
  split
  · exact .fail
  next hsize =>
  obtain ⟨n, hn, hmul⟩ := Option.bind_eq_some_iff.1 hexpected
  obtain ⟨-, rfl⟩ := checkedMul_eq_some.1 hn
  obtain ⟨-, rfl⟩ := checkedMul_eq_some.1 hmul
  have hle : t.stripOffset + t.dataLen ≤ u64Max := by
    unfold u64Max
    omega
  rw [add_of_le hle, ok_bind, getRange_eq, not_not.1 hsize]
  exact Safe.map (Safe.get fun strip h => h) fun strip hstrip => ⟨rfl, htype, hstrip⟩

/-- Decoding never leaves the buffer nor overflows, and an image is what the directory says. -/
theorem decode_safe (checks : Bool) (buf : List UInt8) :
    Safe (fun image => ∃ ifd entries t, Directory buf ifd entries ∧ t = setAll entries {} ∧
      t.stripOffset ≠ 0 ∧ StripOf buf t image) (decode checks buf) := by
  rw [decode, u32At, uintAt_eq (by decide)]
  refine Safe.bind (Safe.get fun magic h => h) fun magic hmagic => ?_
  split
  · exact .fail
  next heq =>
  rw [u32At, uintAt_eq (by decide)]
  refine Safe.bind (Safe.get fun ifd h => h) fun ifd hifd => ?_
  have hifdlt : ifd < 2 ^ 32 := (rdNat?_lt hifd).2
  rw [u16At, uintAt_eq (by unfold u64Max; omega)]
  refine Safe.bind (Safe.get fun n h => h) fun n hn => ?_
  have hnlt : n < 2 ^ 16 := (rdNat?_lt hn).2
  refine Safe.bind (readTags_safe hifdlt n 0 {} (by omega)) fun t ht => ?_
  obtain ⟨entries, rfl, hentries, rfl⟩ := ht
  split
  · exact .fail
  next hthere =>
  split
  · exact .fail
  next hoffset =>
  have hentries' : ∀ (i : Nat) (hi : i < entries.length), entryAt buf ifd i = some entries[i] := by
    intro i hi
    have h := hentries i hi
    rwa [Nat.zero_add] at h
  have hstrip := Directory.value_lt hentries' (stripOffsetField.of_ne_zero rfl hoffset)
  have hlen := Directory.value_lt hentries' (dataLenField.of_ne_zero rfl fun h => hthere (by
    exact .inr (.inr (.inr h))))
  refine (imageOf_safe hstrip hlen).imp fun image himage => ?_
  exact ⟨ifd, entries, _, ⟨not_not.1 heq ▸ hmagic, hifd, hn, hentries'⟩, rfl, hoffset, himage⟩

/-! ## A file is decoded -/

theorem Field.value_of_holds {f : Field} {entries : List Entry} {v : Nat}
    (h : Holds entries f.tag v) : f.value (setAll entries {}) = v := by
  rw [f.value_setAll, lastValue_of_holds h, Option.getD_some]

theorem dataTypeOfDepth_eq {dataType : DataType}
    (h : dataType = .uint8 ∨ dataType = .uint16 ∨ dataType = .uint32) :
    dataTypeOfDepth (8 * dataType.elementSize) = .ok dataType ∧ 0 < dataType.elementSize := by
  rcases h with rfl | rfl | rfl <;> exact ⟨rfl, by decide⟩

variable {width height : Nat} {dataType : DataType} {strip : List UInt8}

theorem imageOf_eq {t : Tags} (hfile : TiffFile buf width height dataType strip)
    (hwidth : t.width = width) (hheight : t.height = height)
    (hdepth : t.depth = 8 * dataType.elementSize) (hlen : t.dataLen = strip.length)
    (hstrip : slice? buf t.stripOffset strip.length = some strip) :
    imageOf checks buf t = .ok ⟨(width, height), dataType, strip⟩ := by
  obtain ⟨htype, hpos⟩ := dataTypeOfDepth_eq hfile.type_mem
  have hinside : t.stripOffset + strip.length ≤ buf.length := by
    unfold slice? at hstrip
    split at hstrip
    · assumption
    · cases hstrip
  have hbuf := hfile.length_lt
  have hsize := hfile.length_strip
  have hmul : width * height * dataType.elementSize ≤ u64Max := by
    unfold u64Max
    omega
  have harea : width * height ≤ u64Max := (Nat.le_mul_of_pos_right _ hpos).trans hmul
  have hexpected : ((checkedMul width height).bind fun n => checkedMul n dataType.elementSize) =
      some strip.length := by
    rw [checkedMul_eq_some.2 ⟨harea, rfl⟩, Option.bind_some, hsize,
      checkedMul_eq_some.2 ⟨hmul, rfl⟩]
  rw [imageOf, hdepth, htype, ok_bind, hwidth, hheight, hexpected, get_some, ok_bind, hlen,
    if_neg (fun h => h rfl), add_of_le (by unfold u64Max; omega), ok_bind, getRange_eq, hstrip]
  rfl

/-- A file is decoded as the image it holds. -/
theorem decode_file (hfile : TiffFile buf width height dataType strip) :
    decode checks buf = .ok ⟨(width, height), dataType, strip⟩ := by
  obtain ⟨ifd, entries, offset, hdir, hwidth, hheight, hdepth, hlen, hoffset, hpos, hstrip⟩ :=
    hfile.directory
  have hw : (setAll entries {}).width = width := widthField.value_of_holds hwidth
  have hh : (setAll entries {}).height = height := heightField.value_of_holds hheight
  have hd : (setAll entries {}).depth = 8 * dataType.elementSize := depthField.value_of_holds hdepth
  have hl : (setAll entries {}).dataLen = strip.length := dataLenField.value_of_holds hlen
  have ho : (setAll entries {}).stripOffset = offset := stripOffsetField.value_of_holds hoffset
  have hifd : ifd < 2 ^ 32 := (rdNat?_lt hdir.ifd_at).2
  have hcount : entries.length < 2 ^ 16 := (rdNat?_lt hdir.count_at).2
  have htags : readTags checks buf ifd entries.length 0 {} = .ok (setAll entries {}) :=
    readTags_of_entries hifd entries 0 {} (by omega) (by simpa using hdir.entry_at)
  have himage : imageOf checks buf (setAll entries {}) =
      .ok ⟨(width, height), dataType, strip⟩ :=
    imageOf_eq hfile hw hh hd hl (ho ▸ hstrip)
  obtain ⟨-, hsize⟩ := dataTypeOfDepth_eq hfile.type_mem
  have hstrippos : 0 < strip.length := by
    rw [hfile.length_strip]
    exact Nat.mul_pos (Nat.mul_pos hfile.width_pos hfile.height_pos) hsize
  have hthere : ¬((setAll entries {}).width = 0 ∨ (setAll entries {}).height = 0 ∨
      (setAll entries {}).depth = 0 ∨ (setAll entries {}).dataLen = 0) := by
    have := hfile.width_pos
    have := hfile.height_pos
    omega
  have hplaced : ¬(setAll entries {}).stripOffset = 0 := by omega
  rw [decode, u32At, uintAt_eq (by decide), hdir.magic_at, get_some, ok_bind,
    if_neg (fun h => h rfl), u32At, uintAt_eq (by decide), hdir.ifd_at, get_some, ok_bind, u16At,
    uintAt_eq (by unfold u64Max; omega), hdir.count_at, get_some, ok_bind, htags, ok_bind,
    if_neg hthere, if_neg hplaced, himage]

end

/-- Decoding a buffer never reads outside it, an image's strip is that many bytes of the buffer from
the `StripOffsets` value on, and every file is decoded as the image it holds. -/
theorem decode_monitor (checks : Bool) (buf : List UInt8) :
    (decode checks buf ≠ panics ∧ ∀ image, decode checks buf = .ok image →
      ∃ ifd entries offset, Directory buf ifd entries ∧
        lastValue tagStripOffsets entries = some offset ∧
        slice? buf offset image.strip.length = some image.strip ∧
        image.strip.length = image.dims.1 * image.dims.2 * image.dataType.elementSize) ∧
    ∀ width height dataType strip, TiffFile buf width height dataType strip →
      decode checks buf = .ok ⟨(width, height), dataType, strip⟩ := by
  obtain ⟨hpanic, hvalue⟩ := decode_safe checks buf
  refine ⟨⟨hpanic, fun image himage => ?_⟩, fun width height dataType strip => decode_file⟩
  obtain ⟨ifd, entries, t, hdir, rfl, hoffset, hdims, -, hstrip⟩ := hvalue image himage
  have hlen : image.strip.length = image.dims.1 * image.dims.2 * image.dataType.elementSize := by
    rw [hdims]
    exact Decimal.length_of_slice? hstrip
  refine ⟨ifd, entries, _, hdir, stripOffsetField.of_ne_zero rfl hoffset, ?_, hlen⟩
  rwa [hlen, hdims]

/-- Two pixels in front of their directory, which lists the tags last to first. -/
def twoPixels : List UInt8 :=
  leBytes 4 tiffMagicLe ++ leBytes 4 10 ++ [7, 9] ++ leBytes 2 5 ++
    [(tagStripByteCounts, 2), (tagStripOffsets, 8), (tagBitsPerSample, 8), (tagImageLength, 1),
      (tagImageWidth, 2)].flatMap fun e =>
        leBytes 2 e.1 ++ leBytes 2 3 ++ leBytes 4 1 ++ leBytes 4 e.2

theorem decode_monitor_twoPixels :
    decode true twoPixels = .ok ⟨(2, 1), .uint8, [7, 9]⟩ ∧
    ∃ offset, slice? twoPixels offset 2 = some [7, 9] := by
  have hdir : Directory twoPixels 10 [(tagStripByteCounts, 2), (tagStripOffsets, 8),
      (tagBitsPerSample, 8), (tagImageLength, 1), (tagImageWidth, 2)] :=
    ⟨by decide +kernel, by decide +kernel, by decide +kernel, by decide +kernel⟩
  have hfile : TiffFile twoPixels 2 1 .uint8 [7, 9] := by
    refine ⟨by decide +kernel, by decide, by decide, .inl rfl, rfl, 10, _, 8, hdir, ?_⟩
    simp [Holds, tagStripByteCounts, tagStripOffsets, tagBitsPerSample, tagImageLength,
      tagImageWidth, DataType.elementSize]
    decide +kernel
  obtain ⟨⟨-, hstrip⟩, hdecode⟩ := decode_monitor true twoPixels
  have himage := hdecode 2 1 .uint8 [7, 9] hfile
  obtain ⟨-, -, offset, -, -, hslice, -⟩ := hstrip _ himage
  exact ⟨himage, offset, hslice⟩

end Eiger.Tiff
