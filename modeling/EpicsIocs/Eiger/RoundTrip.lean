import EpicsIocs.Eiger.Stream2

/-! # What is encoded is read

An encoding of a message is a map of fields in any order: its type first, then what the
detector says and what it may add.  Every width of a number, every cutting of a text, tags
in front of the values, a map with or without its length in front: each encoding is read
as the message it is of (`parse_encoding`).

    Encoding kind fields buf  →  (parseMsg buf).map (Msg.contents buf) = .ok (contents kind fields)
-/

namespace Eiger

open Cbor Fallible Ieee Machine Reader

/-! ## Messages and their encodings -/

section
variable {α β : Type}

/-- One behind the other. -/
inductive Each (E : α → List UInt8 → Prop) : List α → List UInt8 → Prop
  | nil : Each E [] []
  | cons {a : α} {as : List α} {bytes rest : List UInt8} : E a bytes → Each E as rest →
      Each E (a :: as) (bytes ++ rest)

/-- So many, with their number in front. -/
inductive Counted (major : Nat) (E : α → List UInt8 → Prop) : List α → List UInt8 → Prop
  | mk {l : List α} {head body : List UInt8} : Head major l.length head → Each E l body →
      Counted major E l (head ++ body)

/-- The entries of a map, with their number in front or a break behind. -/
inductive MapOf (E : α → List UInt8 → Prop) : List α → List UInt8 → Prop
  | counted {l : List α} {bytes : List UInt8} : Counted majorMap E l bytes → MapOf E l bytes
  | untilBreak {l : List α} {body : List UInt8} : Each E l body →
      MapOf E l (initial majorMap 31 :: (body ++ [breakByte]))

inductive Then (E : α → List UInt8 → Prop) (F : β → List UInt8 → Prop) :
    α × β → List UInt8 → Prop
  | mk {a : α} {b : β} {x y : List UInt8} : E a x → F b y → Then E F (a, b) (x ++ y)

/-- A key, tags and a value. -/
inductive Entry (keepTag : List UInt8 → Bool) (E : List UInt8 → α → List UInt8 → Prop) :
    List UInt8 × α → List UInt8 → Prop
  | mk {key k t v : List UInt8} {value : α} : key.length < maxKeyLen → Str majorText key k →
      Tags t → (keepTag key = true → t = []) → E key value v →
      Entry keepTag E (key, value) (k ++ (t ++ v))

end

/-- A channel of an image, with what is at its byte range. -/
structure Channel where
  name : String
  dim : Nat × Nat
  tag : Nat
  compression : Option Compression
  payload : List UInt8
  deriving DecidableEq, Repr

/-- The pixels as they are, or compressed; the compressed ones begin with their size. -/
inductive Packed : Option Compression → List UInt8 → List UInt8 → Prop
  | plain {payload bytes : List UInt8} : Blob payload bytes → Packed none payload bytes
  | compressed {c : Compression} {payload tag head algorithm elemSize blob : List UInt8} :
      Head majorTag dectrisCompressionTag tag → Head majorArray 3 head →
      c.algorithm = "bslz4" ∨ c.algorithm = "lz4" → Text c.algorithm algorithm →
      Uint c.elemSize elemSize → Blob payload blob → 12 ≤ payload.length →
      c.origSize = Bytes.beNat (payload.take 8) →
      Packed (some c) payload (tag ++ (head ++ (algorithm ++ (elemSize ++ blob))))

/-- The bytes of an element of a typed array. -/
inductive ElemSize (tag : Nat) : Nat → Prop
  | mk : 64 ≤ tag → tag ≤ 87 → ElemSize tag (2 ^ (tag / 16 % 2 + tag % 4))

/-- The size of the array before compression. -/
def unpackedSize (compression : Option Compression) (payload : List UInt8) : Nat :=
  match compression with
  | none => payload.length
  | some c => c.origSize

/-- A typed array of `n` elements. -/
inductive Typed (tag n : Nat) (compression : Option Compression) (payload : List UInt8) :
    List UInt8 → Prop
  | mk {elemSize : Nat} {head packed : List UInt8} : ElemSize tag elemSize →
      unpackedSize compression payload = n * elemSize → Head majorTag tag head →
      Packed compression payload packed → Typed tag n compression payload (head ++ packed)

inductive ChannelEntry (c : Channel) : List UInt8 → Prop
  | mk {name tag head dim array : List UInt8} : Text c.name name →
      Head majorTag multiDimensionalArrayRowMajor tag → Head majorArray 2 head → Pair c.dim dim →
      Typed c.tag (c.dim.1 * c.dim.2) c.compression c.payload array →
      ChannelEntry c (name ++ (tag ++ (head ++ (dim ++ array))))

/-- What is behind the keys of an axis. -/
inductive AxisValue (key : List UInt8) : Unit → List UInt8 → Prop
  | known {x : Number} {bytes : List UInt8} : key ∈ axisKeys → Double x bytes →
      AxisValue key () bytes
  | unknown {bytes : List UInt8} : key ∉ axisKeys → Item bytes → AxisValue key () bytes

def Axis (bytes : List UInt8) : Prop := ∃ l, MapOf (Entry noTag AxisValue) l bytes

inductive GoniometerValue (key : List UInt8) : Unit → List UInt8 → Prop
  | known {bytes : List UInt8} : key ∈ goniometerKeys → Axis bytes → GoniometerValue key () bytes
  | unknown {bytes : List UInt8} : key ∉ goniometerKeys → Item bytes →
      GoniometerValue key () bytes

def Goniometer (bytes : List UInt8) : Prop := ∃ l, MapOf (Entry noTag GoniometerValue) l bytes

inductive Value where
  | uint (n : Nat)
  | text (s : String)
  | double (x : Number)
  | bool (v : Bool)
  | pair (v : Nat × Nat)
  | texts (l : List String)
  | doubles (l : List Number)
  | energies (l : List (String × Number))
  | channels (l : List Channel)
  | typedArray
  | goniometer
  | item

inductive Encodes : Value → List UInt8 → Prop
  | uint {n : Nat} {bytes : List UInt8} : Uint n bytes → Encodes (.uint n) bytes
  | text {s : String} {bytes : List UInt8} : Text s bytes → Encodes (.text s) bytes
  | double {x : Number} {bytes : List UInt8} : Double x bytes → Encodes (.double x) bytes
  | bool {v : Bool} {bytes : List UInt8} : Boolean v bytes → Encodes (.bool v) bytes
  | pair {v : Nat × Nat} {bytes : List UInt8} : Pair v bytes → Encodes (.pair v) bytes
  | texts {l : List String} {bytes : List UInt8} : Counted majorArray Text l bytes →
      Encodes (.texts l) bytes
  | doubles {l : List Number} {bytes : List UInt8} : Counted majorArray Double l bytes →
      Encodes (.doubles l) bytes
  | energies {l : List (String × Number)} {bytes : List UInt8} :
      Counted majorMap (Then Text Double) l bytes → Encodes (.energies l) bytes
  | channels {l : List Channel} {bytes : List UInt8} : Counted majorMap ChannelEntry l bytes →
      Encodes (.channels l) bytes
  | typedArray {tag n : Nat} {compression : Option Compression} {payload bytes : List UInt8} :
      Typed tag n compression payload bytes → Encodes .typedArray bytes
  | goniometer {bytes : List UInt8} : Goniometer bytes → Encodes .goniometer bytes
  | item {bytes : List UInt8} : Item bytes → Encodes .item bytes

abbrev Field : Type := List UInt8 × Value

/-- The values that are well typed behind a key of a start message. -/
inductive StartAdmits : Option StartKind → Value → Prop
  | uint (n : Nat) : StartAdmits (some .uint) (.uint n)
  | text (s : String) : StartAdmits (some .text) (.text s)
  | double (x : Number) : StartAdmits (some .double) (.double x)
  | bool (v : Bool) : StartAdmits (some .bool) (.bool v)
  | channels (l : List String) : StartAdmits (some .channels) (.texts l)
  | lookupTable : StartAdmits (some .lookupTable) .typedArray
  | translation (x y z : Number) : StartAdmits (some .translation) (.doubles [x, y, z])
  | arrays (l : List Channel) : StartAdmits (some .arrays) (.channels l)
  | goniometer : StartAdmits (some .goniometer) .goniometer
  | thresholdEnergy (l : List (String × Number)) :
      StartAdmits (some .thresholdEnergy) (.energies l)
  | userData : StartAdmits (some .userData) .item
  | unknown : StartAdmits none .item

inductive ImageAdmits : Option ImageKind → Value → Prop
  | uint (n : Nat) : ImageAdmits (some .uint) (.uint n)
  | text (s : String) : ImageAdmits (some .text) (.text s)
  | time (v : Nat × Nat) : ImageAdmits (some .time) (.pair v)
  | seriesDate (s : String) : ImageAdmits (some .seriesDate) (.text s)
  | startTime (v : Nat × Nat) : ImageAdmits (some .startTime) (.pair v)
  | userData : ImageAdmits (some .userData) .item
  | data (l : List Channel) : ImageAdmits (some .data) (.channels l)
  | unknown : ImageAdmits none .item

inductive EndAdmits : Option EndKind → Value → Prop
  | uint (n : Nat) : EndAdmits (some .uint) (.uint n)
  | text (s : String) : EndAdmits (some .text) (.text s)
  | unknown : EndAdmits none .item

inductive MsgType where
  | start
  | image
  | «end»
  deriving DecidableEq, Repr

namespace MsgType

def name : MsgType → String
  | start => "start"
  | image => "image"
  | «end» => "end"

def Admits (kind : MsgType) (key : List UInt8) (value : Value) : Prop :=
  match kind with
  | start => StartAdmits (startKind key) value
  | image => ImageAdmits (imageKind key) value
  | «end» => EndAdmits (endKind key) value

def keepTag (kind : MsgType) (key : List UInt8) : Bool := kind = start ∧ key = lookupTableKey

/-- The first entry. -/
inductive Entry (kind : MsgType) : List UInt8 → Prop
  | mk {key tags name : List UInt8} : Text "type" key → Tags tags → Text kind.name name →
      Entry kind (key ++ (tags ++ name))

/-- What is behind a key is well typed. -/
def Field (kind : MsgType) : Field → List UInt8 → Prop :=
  Eiger.Entry kind.keepTag fun key value bytes => kind.Admits key value ∧ Encodes value bytes

end MsgType

/-- The encodings of a message. -/
inductive Encoding (kind : MsgType) (fields : List Field) : List UInt8 → Prop
  | counted {head first body : List UInt8} : Head majorMap (fields.length + 1) head →
      kind.Entry first → Each kind.Field fields body →
      Encoding kind fields (magic ++ (head ++ (first ++ body)))
  | untilBreak {first body : List UInt8} : kind.Entry first → Each kind.Field fields body →
      Encoding kind fields (magic ++ (initial majorMap 31 :: (first ++ (body ++ [breakByte]))))

/-! ## Contents -/

structure ImageContents where
  seriesDate : Option String := none
  startTime : Nat × Nat := (0, 0)
  data : List Channel := []
  deriving DecidableEq, Repr

/-- What a message says, the payloads of its channels in place of their byte ranges. -/
inductive Contents where
  | start (thresholdEnergy : List (String × Number))
  | image (contents : ImageContents)
  | «end»
  deriving DecidableEq, Repr

def ImageData.contents (buf : List UInt8) (d : ImageData) : Channel :=
  ⟨d.channel, d.data.dim, d.data.tag, d.data.compression, d.data.bytes.of buf⟩

def ImageMsg.contents (buf : List UInt8) (m : ImageMsg) : ImageContents :=
  ⟨m.seriesDate, m.startTime, m.data.map (ImageData.contents buf)⟩

def Msg.contents (buf : List UInt8) : Msg → Contents
  | .start m => .start m.thresholdEnergy
  | .image m => .image (m.contents buf)
  | .end => .end

def addStart (energies : List (String × Number)) (field : Field) : List (String × Number) :=
  match startKind field.1, field.2 with
  | some .thresholdEnergy, .energies l => energies ++ l
  | _, _ => energies

def addImage (m : ImageContents) (field : Field) : ImageContents :=
  match imageKind field.1, field.2 with
  | some .seriesDate, .text s => { m with seriesDate := some s }
  | some .startTime, .pair v => { m with startTime := v }
  | some .data, .channels l => { m with data := m.data ++ l }
  | _, _ => m

/-- What the fields say. -/
def contents (kind : MsgType) (fields : List Field) : Contents :=
  match kind with
  | .start => .start (fields.foldl addStart [])
  | .image => .image (fields.foldl addImage {})
  | .end => .end

/-! ## Values are read -/

variable {buf : List UInt8}

section
variable {α β γ δ : Type} {E : α → List UInt8 → Prop}

/-- `op` reads what `E` encodes, seen as `view`. -/
def Reads (op : Reader buf → PResult (β × Reader buf)) (view : β → α)
    (E : α → List UInt8 → Prop) : Prop :=
  ∀ {a : α} {bytes : List UInt8} {pos : Nat}, E a bytes → At buf pos bytes →
    ∃ b, op ⟨pos⟩ = .ok (b, ⟨pos + bytes.length⟩) ∧ view b = a

theorem Each.le_length {n : Nat} {l : List α} {bytes : List UInt8} (h : Each E l bytes)
    (hE : ∀ a bytes, E a bytes → n ≤ bytes.length) : l.length * n ≤ bytes.length := by
  induction h with
  | nil => rw [List.length_nil, Nat.zero_mul, List.length_nil]
  | cons ha _ ih =>
    have hn := hE _ _ ha
    rw [List.length_cons, Nat.add_mul, Nat.one_mul, List.length_append]
    omega

theorem Reads.times {op : Reader buf → PResult (β × Reader buf)} {view : β → α}
    (hop : Reads op view E) {l : List α} {bytes : List UInt8} {pos : Nat} (hl : Each E l bytes)
    (h : At buf pos bytes) :
    ∃ bs, Eiger.times op l.length ⟨pos⟩ = .ok (bs, ⟨pos + bytes.length⟩) ∧ bs.map view = l := by
  induction hl generalizing pos with
  | nil => exact ⟨[], rfl, rfl⟩
  | cons ha _ ih =>
    obtain ⟨b, hb, rfl⟩ := hop ha h.left
    obtain ⟨bs, hbs, rfl⟩ := ih h.right
    refine ⟨b :: bs, ?_, rfl⟩
    rw [List.length_cons, Eiger.times, hb]
    simp only [Except.bind, hbs, Except.map, List.length_append, Nat.add_assoc]

theorem Reads.array {op : Reader buf → PResult (β × Reader buf)} {view : β → α}
    (hop : Reads op view E) :
    Reads (fun r : Reader buf => (r.enterCounted majorArray).bind fun (n, r) =>
      Eiger.times op n r) (List.map view) (Counted majorArray E) := by
  intro l bytes pos hl h
  cases hl with
  | mk hhead hbody =>
    obtain ⟨bs, hbs, hview⟩ := hop.times hbody h.right
    refine ⟨bs, ?_, hview⟩
    simp only [enterCounted_array hhead h.left, Except.bind, hbs, List.length_append,
      Nat.add_assoc]

theorem Reads.map (hbuf : buf.length ≤ u64Max) {op : Reader buf → PResult (β × Reader buf)}
    {view : β → α} (hop : Reads op view E) (hE : ∀ a bytes, E a bytes → 2 ≤ bytes.length) :
    Reads (fun r : Reader buf => (r.enterCounted majorMap).bind fun (n, r) =>
      Eiger.times op n r) (List.map view) (Counted majorMap E) := by
  intro l bytes pos hl h
  cases hl with
  | mk hhead hbody =>
    obtain ⟨bs, hbs, hview⟩ := hop.times hbody h.right
    refine ⟨bs, ?_, hview⟩
    have hle := hbody.le_length hE
    have hfits := h.right.fits
    simp only [enterCounted_map hhead (by omega) h.left, Except.bind, hbs, List.length_append,
      Nat.add_assoc]

end

theorem reads_text : @Reads buf _ _ Reader.text id Text :=
  fun hs h => ⟨_, text_at hs h, rfl⟩

theorem reads_double : @Reads buf _ _ Reader.double id Double :=
  fun hx h => ⟨_, double_at hx h, rfl⟩

theorem Text.opens {s : String} {bytes : List UInt8} (h : Text s bytes) : Opens bytes :=
  Str.opens h (by decide)

theorem energy_length (e : String × Number) (bytes : List UInt8)
    (h : Then Text Double e bytes) : 2 ≤ bytes.length := by
  cases h with
  | mk hs hx =>
    have hpos := (Text.opens hs).length_pos
    have hpos' := hx.opens.length_pos
    rw [List.length_append]
    omega

theorem reads_energy : @Reads buf _ _ energy id (Then Text Double) := by
  intro e bytes pos he h
  cases he with
  | mk hs hx =>
    refine ⟨_, ?_, rfl⟩
    rw [energy, text_at hs h.left]
    simp only [Except.bind, double_at hx h.right, Except.map, List.length_append, Nat.add_assoc]

theorem typedArrayElemSize_of {tag elemSize : Nat} (h : ElemSize tag elemSize) :
    typedArrayElemSize tag = .ok elemSize := by
  cases h with
  | mk hlow hhigh =>
    have hshift : (tag >>> 4) &&& 1 = tag / 16 % 2 := by
      rw [Nat.shiftRight_eq_div_pow, Nat.and_one_is_mod]
    have hlow' : tag &&& 3 = tag % 4 := Nat.and_two_pow_sub_one_eq_mod tag 2
    simp only [typedArrayElemSize, if_pos (And.intro hlow hhigh), hshift, hlow', Nat.one_shiftLeft]

theorem bytesOf_at {c : Option Compression} {payload bytes : List UInt8} {pos : Nat}
    (hpacked : Packed c payload bytes) (h : At buf pos bytes) :
    ∃ range, bytesOf (⟨pos⟩ : Reader buf) = .ok ((c, range), ⟨pos + bytes.length⟩) ∧
      range.of buf = payload ∧ range.len = payload.length := by
  cases hpacked with
  | plain hblob =>
    obtain ⟨range, hrange, hof⟩ := byteRange_at hblob h
    refine ⟨range, ?_, hof⟩
    cases hblob with
    | mk hhead =>
      rw [bytesOf, major_head hhead (by decide) h.left]
      simp only [Except.bind]
      rw [if_neg (by decide), hrange]
      rfl
  | @compressed c payload tag head algorithm elemSize blob htag hhead halgorithm htext hsize hblob
      hlen horig =>
    obtain ⟨range, hrange, hof, hrangeLen⟩ := byteRange_at hblob h.right.right.right.right
    refine ⟨range, ?_, hof, hrangeLen⟩
    have horig' : Bytes.beNat ((buf.drop range.start).take 8) = c.origSize := by
      rw [horig, ← hof, Range.of, List.take_take, hrangeLen, Nat.min_eq_left (by omega)]
    rw [bytesOf, major_head htag (by decide) h.left, tag_at htag h.left, dectrisCompression,
      tag_at htag h.left]
    simp only [Except.bind, if_true, ne_eq, not_true, if_false,
      enterCounted_array hhead h.right.left, text_at htext h.right.right.left,
      uint64_at hsize h.right.right.right.left, hrange, if_pos halgorithm, hrangeLen,
      if_neg (Nat.not_lt.2 hlen), horig', Except.map]
    simp only [List.length_append, Nat.add_assoc]

theorem typedArray_at {tag n : Nat} {c : Option Compression} {payload bytes : List UInt8}
    {pos : Nat} (htyped : Typed tag n c payload bytes) (h : At buf pos bytes) :
    ∃ range, typedArray (⟨pos⟩ : Reader buf) =
        .ok (⟨tag, c, range, n⟩, ⟨pos + bytes.length⟩) ∧ range.of buf = payload := by
  cases htyped with
  | @mk elemSize head packed helem hsize hhead hpacked =>
    obtain ⟨range, hrange, hof, hlen⟩ := bytesOf_at hpacked h.right
    have hbytes : pixelBytes c range = n * elemSize := by
      rw [← hsize]
      cases c with
      | none => exact hlen
      | some c => rfl
    have hpos : 0 < elemSize := by
      cases helem
      exact Nat.two_pow_pos _
    refine ⟨range, ?_, hof⟩
    rw [typedArray, tag_at hhead h.left]
    simp only [Except.bind, hrange, typedArrayElemSize_of helem, hbytes, Nat.mul_mod_left,
      Nat.mul_div_cancel n hpos, ne_eq, not_true, if_false, List.length_append, Nat.add_assoc]

theorem unpackedSize_lt (hbuf : buf.length ≤ u64Max) {c : Option Compression}
    {payload bytes : List UInt8} {pos : Nat} (hpacked : Packed c payload bytes)
    (h : At buf pos bytes) : unpackedSize c payload < 2 ^ 64 := by
  cases hpacked with
  | plain hblob =>
    cases hblob with
    | mk hhead =>
      have hfits := h.fits
      rw [List.length_append] at hfits
      show payload.length < 2 ^ 64
      have hmax : u64Max < 2 ^ 64 := by decide
      omega
  | @compressed c payload tag head algorithm elemSize blob _ _ _ _ _ _ hlen horig =>
    have hlt := Bytes.beNat_lt (payload.take 8)
    rw [List.length_take, Nat.min_eq_left (by omega)] at hlt
    show c.origSize < 2 ^ 64
    omega

theorem multidimArray_at (hbuf : buf.length ≤ u64Max) {c : Channel}
    {tag head dim array : List UInt8} {pos : Nat}
    (htag : Head majorTag multiDimensionalArrayRowMajor tag) (hhead : Head majorArray 2 head)
    (hdim : Pair c.dim dim)
    (harray : Typed c.tag (c.dim.1 * c.dim.2) c.compression c.payload array)
    (h : At buf pos (tag ++ (head ++ (dim ++ array)))) :
    ∃ range, multidimArray (⟨pos⟩ : Reader buf) = .ok (⟨c.dim, c.tag, range, c.compression⟩,
        ⟨pos + (tag ++ (head ++ (dim ++ array))).length⟩) ∧ range.of buf = c.payload := by
  obtain ⟨range, hrange, hof⟩ := typedArray_at harray h.right.right.right
  have hproduct : wrappingMul c.dim.1 c.dim.2 = c.dim.1 * c.dim.2 := by
    have harray_at := h.right.right.right
    cases harray with
    | @mk elemSize _ _ helem hsize _ hpacked =>
      have hlt := unpackedSize_lt hbuf hpacked harray_at.right
      have hpos : 0 < elemSize := by
        cases helem
        exact Nat.two_pow_pos _
      have hle := Nat.le_mul_of_pos_right (c.dim.1 * c.dim.2) hpos
      exact Nat.mod_eq_of_lt (by omega)
  refine ⟨range, ?_, hof⟩
  rw [multidimArray, tag_at htag h.left]
  simp only [Except.bind, ne_eq, not_true, if_false, enterCounted_array hhead h.right.left,
    array2Uint64_at hdim h.right.right.left, hrange, hproduct]
  simp only [List.length_append, Nat.add_assoc]

theorem reads_channelArray (hbuf : buf.length ≤ u64Max) :
    @Reads buf _ _ channelArray (ImageData.contents buf) ChannelEntry := by
  intro c bytes pos hc h
  cases hc with
  | mk hname htag hhead hdim harray =>
    obtain ⟨range, hrange, hof⟩ := multidimArray_at hbuf htag hhead hdim harray h.right
    refine ⟨⟨c.name, ⟨c.dim, c.tag, range, c.compression⟩⟩, ?_, ?_⟩
    · rw [channelArray, text_at hname h.left]
      simp only [Except.bind, hrange, Except.map]
      simp only [List.length_append, Nat.add_assoc]
    · rw [ImageData.contents, hof]

theorem channelEntry_length (c : Channel) (bytes : List UInt8) (h : ChannelEntry c bytes) :
    2 ≤ bytes.length := by
  cases h with
  | mk hname htag =>
    have hpos := (Text.opens hname).length_pos
    have hpos' := htag.length_pos
    simp only [List.length_append]
    omega

/-! ## Maps are read -/

section
variable {M N V : Type}

/-- What is done with a value: it is read, or skipped with the tags that are its own. -/
inductive Handled (f : FieldReader M buf) (keepTag : List UInt8 → Bool) (view : M → N) (n : N)
    (key : List UInt8) (m : M) (pos : Nat) (v : List UInt8) : Prop
  | taken (m' : M) : view m' = n → Opens v → (keepTag key = false → Untagged v) →
      fieldValue f key m ⟨pos⟩ = .ok (m', ⟨pos + v.length⟩) → Handled f keepTag view n key m pos v
  | skipped (m' : M) : view m' = n → keepTag key = false → Item v →
      (∀ r : Reader buf, fieldValue f key m r = r.skip.map fun r => (m', r)) →
      Handled f keepTag view n key m pos v

variable {f : FieldReader M buf} {keepTag : List UInt8 → Bool} {view : M → N} {n : N}
  {key : List UInt8} {m : M} {pos : Nat}

/-- Behind the key and the tags a value begins, with which the entry ends. -/
theorem Handled.value_at (hbuf : buf.length ≤ u64Max) {t v : List UInt8} (ht : Tags t)
    (hkeep : keepTag key = true → t = [])
    (hv : Handled f keepTag view n key m (pos + t.length) v) (h : At buf pos (t ++ v)) :
    ∃ (m' : M) (p : Nat) (core : List UInt8),
      (if keepTag key then .ok ⟨pos⟩ else skipTags (⟨pos⟩ : Reader buf)) = Except.ok ⟨p⟩ ∧
      Opens core ∧ At buf p core ∧ view m' = n ∧
      fieldValue f key m ⟨p⟩ = .ok (m', ⟨pos + (t ++ v).length⟩) := by
  cases hv with
  | @taken m' hview hopens huntagged hvalue =>
    refine ⟨m', pos + t.length, v, ?_, hopens, h.right, hview, ?_⟩
    · by_cases hkeepKey : keepTag key = true
      · rw [if_pos hkeepKey, hkeep hkeepKey]
        rfl
      · obtain ⟨b, rest, rfl, hb⟩ := huntagged (Bool.eq_false_iff.2 hkeepKey)
        rw [if_neg hkeepKey, skipTags_at ht h hb]
    · rw [hvalue, List.length_append, Nat.add_assoc]
  | @skipped m' hview hkeepKey hitem hvalue =>
    obtain ⟨tags, core, rfl, htags, hcore, b, rest, hcoreEq, hb⟩ := hitem.split
    rw [← List.append_assoc] at h
    have hskip := skipTags_at (ht.append htags) (hcoreEq ▸ h) hb
    have hcoreSkip := skip_at hbuf hcore h.right
    refine ⟨m', pos + (t ++ tags).length, core, ?_, hcore.opens, h.right, hview, ?_⟩
    · rw [if_neg (Bool.eq_false_iff.1 hkeepKey), hskip]
    · rw [hvalue, hcoreSkip]
      simp only [Except.map, List.length_append, Nat.add_assoc]

theorem keyOrEmpty_some (key : List UInt8) (len : Len) : keyOrEmpty (some key) len = (key, len) := by
  cases len <;> rfl

theorem msgField_at (hbuf : buf.length ≤ u64Max) {k t v tail : List UInt8} {j : Nat}
    {len : Len} (hleft : Left (j + 1) tail len) (hk : Str majorText key k)
    (hlen : key.length < maxKeyLen) (ht : Tags t) (hkeep : keepTag key = true → t = [])
    (hv : Handled f keepTag view n key m (pos + k.length + t.length) v)
    (h : At buf pos (k ++ (t ++ v))) :
    ∃ m' len', msgField keepTag f len m ⟨pos⟩ =
        .ok ((m', len'), ⟨pos + (k ++ (t ++ v)).length⟩) ∧ Left j tail len' ∧ view m' = n := by
  obtain ⟨m', p, core, hskip, hopens, hcore, hview, hvalue⟩ := hv.value_at hbuf ht hkeep h.right
  obtain ⟨len', hmore, hleft'⟩ := more_left hleft hopens hcore
  refine ⟨m', len', ?_, hleft', hview⟩
  simp only [msgField, key_at hk hlen h.left, Except.bind, keyOrEmpty_some]
  rw [hskip]
  simp only [hmore, not_true, if_false, hvalue, Except.map, List.length_append, Nat.add_assoc]

theorem Entry.length {E : List UInt8 → V → List UInt8 → Prop}
    (hE : ∀ key value bytes, E key value bytes → 0 < bytes.length)
    (entry : List UInt8 × V) (bytes : List UInt8) (h : Entry keepTag E entry bytes) :
    2 ≤ bytes.length := by
  cases h with
  | mk _ hk _ _ hv =>
    have hpos := (hk.opens (by decide)).length_pos
    have hpos' := hE _ _ _ hv
    simp only [List.length_append]
    omega

/-- The whole loop: entry by entry, each adds what it says. -/
theorem msgFields_at (hbuf : buf.length ≤ u64Max) {E : List UInt8 → V → List UInt8 → Prop}
    (add : N → List UInt8 × V → N)
    (hE : ∀ key value v m pos, E key value v → At buf pos v →
      Handled f keepTag view (add (view m) (key, value)) key m pos v)
    {l : List (List UInt8 × V)} {body tail : List UInt8} {len : Len} {fuel : Nat}
    (hl : Each (Entry keepTag E) l body) (hleft : Left (l.length * 2) tail len)
    (hfuel : l.length < fuel) (h : At buf pos (body ++ tail)) :
    ∃ m', msgFields keepTag f fuel len m ⟨pos⟩ = .ok (m', ⟨pos + (body ++ tail).length⟩) ∧
      view m' = l.foldl add (view m) := by
  obtain ⟨fuel, rfl⟩ : ∃ k, fuel = k + 1 := ⟨fuel - 1, by omega⟩
  induction hl generalizing pos fuel len m with
  | nil =>
    obtain ⟨len', hmore⟩ := more_end hleft h
    refine ⟨m, ?_, rfl⟩
    rw [msgFields, hmore]
    rfl
  | @cons entry l bytes body hentry _ ih =>
    cases hentry with
    | @mk key k t v value hlen hk ht hkeep hv =>
      rw [List.append_assoc] at h
      rw [List.length_cons] at hfuel
      rw [List.length_cons, Nat.add_mul] at hleft
      have hhandled := hE key value v m _ hv h.left.right.right
      obtain ⟨len1, hmore, hleft1⟩ := more_left hleft (hk.opens (by decide)) h.left.left
      obtain ⟨m2, len2, hround, hleft2, hview2⟩ :=
        msgField_at hbuf hleft1 hk hlen ht hkeep hhandled h.left
      obtain ⟨fuel, rfl⟩ : ∃ k, fuel = k + 1 := ⟨fuel - 1, by omega⟩
      obtain ⟨m', hrest, hview⟩ := ih hleft2 h.right fuel (by omega) (m := m2)
      refine ⟨m', ?_, ?_⟩
      · rw [msgFields, hmore]
        simp only [Except.bind, not_true, if_false, hround, hrest]
        simp only [List.length_append, Nat.add_assoc]
      · rw [hview, hview2, List.foldl_cons]

theorem fields_at (hbuf : buf.length ≤ u64Max) {E : List UInt8 → V → List UInt8 → Prop}
    (add : N → List UInt8 × V → N)
    (hE : ∀ key value v m pos, E key value v → At buf pos v →
      Handled f keepTag view (add (view m) (key, value)) key m pos v)
    (hlength : ∀ key value bytes, E key value bytes → 0 < bytes.length)
    {l : List (List UInt8 × V)} {bytes : List UInt8} (hl : MapOf (Entry keepTag E) l bytes)
    (h : At buf pos bytes) :
    ∃ m', fields keepTag f m ⟨pos⟩ = .ok (m', ⟨pos + bytes.length⟩) ∧
      view m' = l.foldl add (view m) := by
  cases hl with
  | counted hcounted =>
    cases hcounted with
    | @mk head body hhead hbody =>
      have hle := hbody.le_length (Entry.length hlength)
      have hpos := hhead.length_pos
      have hfits := h.right.fits
      have hend : At buf (pos + head.length) (body ++ []) := by
        rw [List.append_nil]
        exact h.right
      obtain ⟨m', hloop, hview⟩ := msgFields_at (m := m) hbuf add hE hbody .definite
        (by omega : l.length < buf.length) hend
      refine ⟨m', ?_, hview⟩
      rw [fields, enter_at hhead (by decide) h.left, items_map (by omega)]
      simp only [Except.map, Except.bind, hloop, List.append_nil, List.length_append,
        Nat.add_assoc]
  | untilBreak hbody =>
    have hle := hbody.le_length (Entry.length hlength)
    have hfits := h.tail.fits
    rw [List.length_append] at hfits
    obtain ⟨m', hloop, hview⟩ := msgFields_at (m := m) hbuf add hE hbody .indefinite
      (by omega : l.length < buf.length) h.tail
    refine ⟨m', ?_, hview⟩
    rw [fields, enter_indefinite (by decide) (by decide) h]
    simp only [Except.bind, hloop, List.length_cons, Nat.add_assoc, Nat.add_comm 1]

/-- A value that is read and leaves the message as it is. -/
theorem Handled.of_ignored {α : Type} {a : α} {v : List UInt8}
    {op : Reader buf → PResult (α × Reader buf)} (hview : view m = n)
    (hf : ∀ r, f key m r = ignored m (op r)) (hopens : Opens v)
    (huntagged : keepTag key = false → Untagged v) (hop : op ⟨pos⟩ = .ok (a, ⟨pos + v.length⟩)) :
    Handled f keepTag view n key m pos v := by
  refine .taken m hview hopens huntagged ?_
  rw [fieldValue, hf, hop]
  rfl

/-- A value behind a key that is not known. -/
theorem Handled.of_unknown {v : List UInt8} (hview : view m = n)
    (hf : ∀ r, f key m r = .ok (false, m, r)) (hkeep : keepTag key = false) (hitem : Item v) :
    Handled f keepTag view n key m pos v := by
  refine .skipped m hview hkeep hitem fun r => ?_
  rw [fieldValue, hf]
  rfl

end

/-! ## The goniometer -/

theorem MapOf.opens {α : Type} {E : α → List UInt8 → Prop} {l : List α} {bytes : List UInt8}
    (h : MapOf E l bytes) : Opens bytes ∧ Untagged bytes := by
  cases h with
  | counted hcounted =>
    cases hcounted with
    | mk hhead _ =>
      exact ⟨(hhead.opens (by decide)).append _,
        (hhead.untagged (by decide) (by decide)).append _⟩
  | untilBreak _ =>
    exact ⟨⟨_, _, rfl, by decide⟩, Untagged.initial (by decide) (by decide) (by decide) _⟩

theorem axisValue_handled {key v : List UInt8} {value : Unit} {m : Unit} {pos : Nat}
    (hv : AxisValue key value v) (h : At buf pos v) :
    Handled (axisField : FieldReader Unit buf) noTag id () key m pos v := by
  cases hv with
  | known hkey hx =>
    exact .of_ignored rfl (fun r => if_pos hkey) hx.opens (fun _ => hx.untagged) (double_at hx h)
  | unknown hkey hitem => exact .of_unknown rfl (fun r => if_neg hkey) rfl hitem

theorem axisValue_length (key : List UInt8) (value : Unit) (bytes : List UInt8)
    (h : AxisValue key value bytes) : 0 < bytes.length := by
  cases h with
  | known _ hx => exact hx.opens.length_pos
  | unknown _ hitem => exact hitem.opens.length_pos

theorem goniometerAxis_at (hbuf : buf.length ≤ u64Max) {bytes : List UInt8} {pos : Nat}
    (haxis : Axis bytes) (h : At buf pos bytes) :
    goniometerAxis (⟨pos⟩ : Reader buf) = .ok ((), ⟨pos + bytes.length⟩) := by
  obtain ⟨l, hl⟩ := haxis
  obtain ⟨m', hfields, -⟩ := fields_at (m := ()) hbuf (fun _ _ => ())
    (fun key value v m pos hv h => axisValue_handled hv h) axisValue_length hl h
  exact hfields

theorem goniometerValue_handled (hbuf : buf.length ≤ u64Max) {key v : List UInt8} {value : Unit}
    {m : Unit} {pos : Nat} (hv : GoniometerValue key value v) (h : At buf pos v) :
    Handled (goniometerField : FieldReader Unit buf) noTag id () key m pos v := by
  cases hv with
  | known hkey haxis =>
    obtain ⟨hopens, huntagged⟩ := haxis.choose_spec.opens
    exact .of_ignored rfl (fun r => if_pos hkey) hopens (fun _ => huntagged)
      (goniometerAxis_at hbuf haxis h)
  | unknown hkey hitem => exact .of_unknown rfl (fun r => if_neg hkey) rfl hitem

theorem goniometerValue_length (key : List UInt8) (value : Unit) (bytes : List UInt8)
    (h : GoniometerValue key value bytes) : 0 < bytes.length := by
  cases h with
  | known _ haxis => exact haxis.choose_spec.opens.1.length_pos
  | unknown _ hitem => exact hitem.opens.length_pos

theorem goniometer_at (hbuf : buf.length ≤ u64Max) {bytes : List UInt8} {pos : Nat}
    (hgoniometer : Goniometer bytes) (h : At buf pos bytes) :
    fields noTag goniometerField () (⟨pos⟩ : Reader buf) = .ok ((), ⟨pos + bytes.length⟩) := by
  obtain ⟨l, hl⟩ := hgoniometer
  obtain ⟨m', hfields, -⟩ := fields_at (m := ()) hbuf (fun _ _ => ())
    (fun key value v m pos hv h => goniometerValue_handled hbuf hv h) goniometerValue_length hl h
  exact hfields

/-! ## Messages -/

theorem Typed.opens {tag n : Nat} {c : Option Compression} {payload bytes : List UInt8}
    (h : Typed tag n c payload bytes) : Opens bytes := by
  cases h with
  | mk _ _ hhead _ => exact (hhead.opens (by decide)).append _

theorem Counted.opens {α : Type} {major : Nat} {E : α → List UInt8 → Prop} {l : List α}
    {bytes : List UInt8} (h : Counted major E l bytes) (hm : major < 6) :
    Opens bytes ∧ Untagged bytes := by
  have hne : major ≠ majorTag := Nat.ne_of_lt hm
  cases h with
  | mk hhead _ =>
    exact ⟨(hhead.opens (by omega)).append _, (hhead.untagged (by omega) hne).append _⟩

theorem Encodes.opens {value : Value} {bytes : List UInt8} (h : Encodes value bytes) :
    Opens bytes := by
  cases h with
  | uint hn => exact Head.opens hn (by decide)
  | text hs => exact Text.opens hs
  | double hx => exact hx.opens
  | bool hv =>
    cases hv with
    | no => exact ⟨_, _, rfl, by decide⟩
    | yes => exact ⟨_, _, rfl, by decide⟩
  | pair hv =>
    cases hv with
    | mk hhead _ _ => exact (hhead.opens (by decide)).append _
  | texts hl => exact (hl.opens (by decide)).1
  | doubles hl => exact (hl.opens (by decide)).1
  | energies hl => exact (hl.opens (by decide)).1
  | channels hl => exact (hl.opens (by decide)).1
  | typedArray ha => exact ha.opens
  | goniometer hg => exact hg.choose_spec.opens.1
  | item hitem => exact hitem.opens

/-- Only a typed array begins with a tag of its own, and what may be anything. -/
theorem Encodes.untagged {value : Value} {bytes : List UInt8} (h : Encodes value bytes)
    (harray : value ≠ .typedArray) (hitem : value ≠ .item) : Untagged bytes := by
  cases h with
  | uint hn => exact Head.untagged hn (by decide) (by decide)
  | text hs => exact Str.untagged hs (by decide)
  | double hx => exact hx.untagged
  | bool hv =>
    cases hv with
    | no => exact ⟨_, _, rfl, by decide⟩
    | yes => exact ⟨_, _, rfl, by decide⟩
  | pair hv =>
    cases hv with
    | mk hhead _ _ => exact (hhead.untagged (by decide) (by decide)).append _
  | texts hl => exact (hl.opens (by decide)).2
  | doubles hl => exact (hl.opens (by decide)).2
  | energies hl => exact (hl.opens (by decide)).2
  | channels hl => exact (hl.opens (by decide)).2
  | typedArray => exact absurd rfl harray
  | goniometer hg => exact hg.choose_spec.opens.2
  | item => exact absurd rfl hitem

theorem startKind_lookupTable {key : List UInt8} :
    startKind key = some .lookupTable ↔ key = lookupTableKey := by
  have hskip : ∀ {c : Prop} [Decidable c] {kind : StartKind} {x : Option StartKind},
      (if c then some kind else x) = some .lookupTable → kind ≠ .lookupTable →
      x = some .lookupTable := by
    intro c _ kind x h hne
    by_cases hc : c
    · rw [if_pos hc] at h
      exact absurd (Option.some.inj h) hne
    · rwa [if_neg hc] at h
  constructor
  · intro h
    by_contra hne
    unfold startKind at h
    iterate 5 replace h := hskip h nofun
    rw [if_neg hne] at h
    iterate 5 replace h := hskip h nofun
    cases h
  · rintro rfl
    decide +kernel

theorem start_keepTag (key : List UInt8) :
    MsgType.start.keepTag key = decide (startKind key = some .lookupTable) := by
  have hiff : (MsgType.start = .start ∧ key = lookupTableKey) ↔
      startKind key = some .lookupTable := by
    rw [startKind_lookupTable]
    simp
  exact decide_eq_decide.2 hiff

/-- A known key takes its value, and the message does not change. -/
theorem Handled.of_known {M N α : Type} {f : FieldReader M buf} {keepTag : List UInt8 → Bool}
    {view : M → N} {n : N} {key v : List UInt8} {m : M} {pos : Nat} {value : Value}
    {op : Reader buf → PResult (α × Reader buf)} (henc : Encodes value v) (hview : view m = n)
    (hf : ∀ r, f key m r = ignored m (op r)) (hop : ∃ a, op ⟨pos⟩ = .ok (a, ⟨pos + v.length⟩))
    (harray : value ≠ .typedArray) (hitem : value ≠ .item) :
    Handled f keepTag view n key m pos v := by
  obtain ⟨a, ha⟩ := hop
  exact .of_ignored hview hf henc.opens (fun _ => henc.untagged harray hitem) ha

theorem translation_at {x y z : Number} {bytes : List UInt8} {pos : Nat}
    (hl : Counted majorArray Double [x, y, z] bytes) (h : At buf pos bytes) :
    translation (⟨pos⟩ : Reader buf) = .ok ([x, y, z], ⟨pos + bytes.length⟩) := by
  obtain ⟨l, hread, hview⟩ := reads_double.array hl h
  rw [List.map_id] at hview
  subst hview
  cases hl with
  | mk hhead _ =>
    have hcount : enterCounted (⟨pos⟩ : Reader buf) majorArray = .ok (3, _) :=
      enterCounted_array hhead h.left
    simp only [hcount, Except.bind] at hread
    simp only [translation, hcount, Except.bind, ne_eq, not_true, if_false, hread]

theorem startField_handled (hbuf : buf.length ≤ u64Max) {key v : List UInt8} {value : Value}
    {m : StartMsg} {pos : Nat} (hadmits : MsgType.start.Admits key value) (henc : Encodes value v)
    (h : At buf pos v) :
    Handled (startField : FieldReader StartMsg buf) MsgType.start.keepTag StartMsg.thresholdEnergy
      (addStart m.thresholdEnergy (key, value)) key m pos v := by
  have hkeep : ∀ kind, startKind key = kind → kind ≠ some .lookupTable →
      MsgType.start.keepTag key = false := by
    intro kind hkind hne
    rw [start_keepTag, hkind]
    exact decide_eq_false hne
  change StartAdmits (startKind key) value at hadmits
  generalize hkind : startKind key = kind at hadmits
  cases hadmits with
  | uint n =>
    cases henc with
    | uint hn =>
      exact .of_known (.uint hn) (by simp only [addStart, hkind])
        (fun r => by simp only [startField, hkind]) ⟨n, uint64_at hn h⟩ nofun nofun
  | text s =>
    cases henc with
    | text hs =>
      exact .of_known (.text hs) (by simp only [addStart, hkind])
        (fun r => by simp only [startField, hkind]) ⟨s, text_at hs h⟩ nofun nofun
  | double x =>
    cases henc with
    | double hx =>
      exact .of_known (.double hx) (by simp only [addStart, hkind])
        (fun r => by simp only [startField, hkind]) ⟨x, double_at hx h⟩ nofun nofun
  | bool b =>
    cases henc with
    | bool hb =>
      exact .of_known (.bool hb) (by simp only [addStart, hkind])
        (fun r => by simp only [startField, hkind]) ⟨b, bool_at hb h⟩ nofun nofun
  | channels l =>
    cases henc with
    | texts hl =>
      obtain ⟨l', hread, -⟩ := reads_text.array hl h
      exact .of_known (.texts hl) (by simp only [addStart, hkind])
        (fun r => by simp only [startField, hkind]; rfl) ⟨l', hread⟩ nofun nofun
  | lookupTable =>
    cases henc with
    | typedArray ha =>
      obtain ⟨range, hread, -⟩ := typedArray_at ha h
      refine .of_ignored (by simp only [addStart, hkind])
        (fun r => by simp only [startField, hkind]) ha.opens (fun hkept => ?_) hread
      rw [start_keepTag, hkind] at hkept
      exact absurd hkept (by decide)
  | translation x y z =>
    cases henc with
    | doubles hl =>
      exact .of_known (.doubles hl) (by simp only [addStart, hkind])
        (fun r => by simp only [startField, hkind]) ⟨_, translation_at hl h⟩ nofun nofun
  | arrays l =>
    cases henc with
    | channels hl =>
      obtain ⟨l', hread, -⟩ := Reads.map hbuf (reads_channelArray hbuf) channelEntry_length hl h
      exact .of_known (.channels hl) (by simp only [addStart, hkind])
        (fun r => by simp only [startField, hkind]; rfl) ⟨l', hread⟩ nofun nofun
  | goniometer =>
    cases henc with
    | goniometer hg =>
      exact .of_known (.goniometer hg) (by simp only [addStart, hkind])
        (fun r => by simp only [startField, hkind]) ⟨_, goniometer_at hbuf hg h⟩ nofun nofun
  | thresholdEnergy l =>
    cases henc with
    | energies hl =>
      obtain ⟨l', hread, hview⟩ := reads_energy.map hbuf energy_length hl h
      rw [List.map_id] at hview
      subst hview
      have henergies : thresholdEnergies (⟨pos⟩ : Reader buf) = .ok (l', ⟨pos + v.length⟩) := hread
      have hvalue : Encodes (.energies l') v := .energies hl
      refine .taken { m with thresholdEnergy := m.thresholdEnergy ++ l' }
        (by simp only [addStart, hkind]) hvalue.opens (fun _ => hvalue.untagged nofun nofun) ?_
      simp only [fieldValue, startField, hkind, henergies, Except.map, Except.bind, if_true]
  | userData =>
    cases henc with
    | item hitem =>
      refine .skipped m (by simp only [addStart, hkind]) (hkeep _ hkind nofun) hitem
        fun r => ?_
      simp only [fieldValue, startField, hkind]
      cases r.skip <;> rfl
  | unknown =>
    cases henc with
    | item hitem =>
      exact .of_unknown (by simp only [addStart, hkind])
        (fun r => by simp only [startField, hkind]) (hkeep _ hkind nofun) hitem

theorem imageField_handled (hbuf : buf.length ≤ u64Max) {key v : List UInt8} {value : Value}
    {m : ImageMsg} {pos : Nat} (hadmits : MsgType.image.Admits key value) (henc : Encodes value v)
    (h : At buf pos v) :
    Handled (imageField : FieldReader ImageMsg buf) MsgType.image.keepTag (ImageMsg.contents buf)
      (addImage (m.contents buf) (key, value)) key m pos v := by
  have hkeep : MsgType.image.keepTag key = false := rfl
  change ImageAdmits (imageKind key) value at hadmits
  generalize hkind : imageKind key = kind at hadmits
  cases hadmits with
  | uint n =>
    cases henc with
    | uint hn =>
      exact .of_known (.uint hn) (by simp only [addImage, hkind])
        (fun r => by simp only [imageField, hkind]) ⟨n, uint64_at hn h⟩ nofun nofun
  | text s =>
    cases henc with
    | text hs =>
      exact .of_known (.text hs) (by simp only [addImage, hkind])
        (fun r => by simp only [imageField, hkind]) ⟨s, text_at hs h⟩ nofun nofun
  | time t =>
    cases henc with
    | pair ht =>
      exact .of_known (.pair ht) (by simp only [addImage, hkind])
        (fun r => by simp only [imageField, hkind]) ⟨t, array2Uint64_at ht h⟩ nofun nofun
  | seriesDate s =>
    cases henc with
    | text hs =>
      have hvalue : Encodes (.text s) v := .text hs
      refine .taken { m with seriesDate := some s }
        (by simp only [addImage, hkind]; rfl) hvalue.opens
        (fun _ => hvalue.untagged nofun nofun) ?_
      simp only [fieldValue, imageField, hkind, text_at hs h, Except.map, Except.bind, if_true]
  | startTime t =>
    cases henc with
    | pair ht =>
      have hvalue : Encodes (.pair t) v := .pair ht
      refine .taken { m with startTime := t }
        (by simp only [addImage, hkind]; rfl) hvalue.opens
        (fun _ => hvalue.untagged nofun nofun) ?_
      simp only [fieldValue, imageField, hkind, array2Uint64_at ht h, Except.map, Except.bind,
        if_true]
  | userData =>
    cases henc with
    | item hitem =>
      refine .skipped m (by simp only [addImage, hkind]) hkeep hitem fun r => ?_
      simp only [fieldValue, imageField, hkind]
      cases r.skip <;> rfl
  | data l =>
    cases henc with
    | channels hl =>
      obtain ⟨l', hread, hview⟩ := Reads.map hbuf (reads_channelArray hbuf) channelEntry_length hl h
      subst hview
      have hdata : channelArrays (⟨pos⟩ : Reader buf) = .ok (l', ⟨pos + v.length⟩) := hread
      have hvalue : Encodes (.channels (l'.map (ImageData.contents buf))) v := .channels hl
      refine .taken { m with data := m.data ++ l' }
        (by simp only [addImage, hkind, ImageMsg.contents, List.map_append]) hvalue.opens
        (fun _ => hvalue.untagged nofun nofun) ?_
      simp only [fieldValue, imageField, hkind, hdata, Except.map, Except.bind, if_true]
  | unknown =>
    cases henc with
    | item hitem =>
      exact .of_unknown (by simp only [addImage, hkind])
        (fun r => by simp only [imageField, hkind]) hkeep hitem

theorem endField_handled {key v : List UInt8} {value : Value} {m : Unit} {pos : Nat}
    (hadmits : MsgType.end.Admits key value) (henc : Encodes value v) (h : At buf pos v) :
    Handled (endField : FieldReader Unit buf) MsgType.end.keepTag id () key m pos v := by
  change EndAdmits (endKind key) value at hadmits
  generalize hkind : endKind key = kind at hadmits
  cases hadmits with
  | uint n =>
    cases henc with
    | uint hn =>
      exact .of_known (.uint hn) rfl (fun r => by simp only [endField, hkind])
        ⟨n, uint64_at hn h⟩ nofun nofun
  | text s =>
    cases henc with
    | text hs =>
      exact .of_known (.text hs) rfl (fun r => by simp only [endField, hkind])
        ⟨s, text_at hs h⟩ nofun nofun
  | unknown =>
    cases henc with
    | item hitem =>
      exact .of_unknown rfl (fun r => by simp only [endField, hkind]) rfl hitem

theorem MsgType.field_length {kind : MsgType} (field : Eiger.Field) (bytes : List UInt8)
    (h : kind.Field field bytes) : 2 ≤ bytes.length :=
  Entry.length (fun _ _ _ hv => hv.2.opens.length_pos) field bytes h

/-- The entries behind the type are read as what they say. -/
theorem msgBody_at (hbuf : buf.length ≤ u64Max) {kind : MsgType} {l : List Field}
    {body tail : List UInt8} {len : Len} {pos : Nat} (hl : Each kind.Field l body)
    (hleft : Left (l.length * 2) tail len) (hpos : 0 < pos) (h : At buf pos (body ++ tail)) :
    ∃ msg, msgBody (utf8 kind.name) len (⟨pos⟩ : Reader buf) = .ok msg ∧
      msg.contents buf = contents kind l := by
  have hle := hl.le_length kind.field_length
  have hfits := h.left.fits
  have hfuel : l.length < buf.length := by omega
  cases kind with
  | start =>
    obtain ⟨m, hloop, hview⟩ := msgFields_at (m := {}) hbuf addStart
      (fun key value v m pos hv h => startField_handled hbuf hv.1 hv.2 h) hl hleft hfuel h
    have hkeep : MsgType.start.keepTag = fun key => decide (key = lookupTableKey) := by
      funext key
      simp [MsgType.keepTag]
    rw [hkeep] at hloop
    refine ⟨.start m, ?_, congrArg Contents.start hview⟩
    rw [msgBody, if_pos (by decide), startMsg, hloop]
    rfl
  | image =>
    obtain ⟨m, hloop, hview⟩ := msgFields_at (m := {}) hbuf addImage
      (fun key value v m pos hv h => imageField_handled hbuf hv.1 hv.2 h) hl hleft hfuel h
    refine ⟨.image m, ?_, congrArg Contents.image hview⟩
    rw [msgBody, if_neg (by decide), if_pos (by decide), imageMsg]
    exact congrArg (Except.map _) hloop
  | «end» =>
    obtain ⟨m, hloop, -⟩ := msgFields_at (m := ()) hbuf (fun _ _ => ())
      (fun key value v m pos hv h => endField_handled hv.1 hv.2 h) hl hleft hfuel h
    refine ⟨.end, ?_, rfl⟩
    rw [msgBody, if_neg (by decide), if_neg (by decide), if_pos (by decide), endMsg]
    exact congrArg (Except.map _) hloop

theorem MsgType.name_length (kind : MsgType) : (utf8 kind.name).length < maxKeyLen := by
  cases kind <;> decide

/-- The type entry, and what is behind it. -/
theorem parseMsg_entry {kind : MsgType} {first rest tail : List UInt8} {len : Len} {pos n : Nat}
    (hfirst : kind.Entry first) (hleft : Left (n + 2) tail len)
    (hmagic : magic <+: buf)
    (henter : enter (⟨magic.length⟩ : Reader buf) majorMap = .ok (len, ⟨pos⟩))
    (h : At buf pos (first ++ rest)) :
    ∃ len', Left n tail len' ∧
      parseMsg buf = msgBody (utf8 kind.name) len' (⟨pos + first.length⟩ : Reader buf) := by
  cases hfirst with
  | @mk key tags name hkey htags hname =>
    have hfirst := h.left
    have hkeyOpens := Text.opens hkey
    have hnameOpens := Text.opens hname
    obtain ⟨len1, hmore, hleft1⟩ := more_left hleft hkeyOpens hfirst.left
    obtain ⟨len2, hmore2, hleft2⟩ := more_left hleft1 hnameOpens hfirst.right.right
    obtain ⟨b, name', rfl, hb⟩ := Str.untagged hname (by decide)
    refine ⟨len2, hleft2, ?_⟩
    rw [parseMsg, if_neg (not_not.2 hmagic), henter]
    simp only [Except.bind, hmore, not_true, if_false, key_at hkey (by decide) hfirst.left, ne_eq,
      skipTags_at htags hfirst.right hb, hmore2, key_at hname kind.name_length hfirst.right.right,
      Option.getD_some]
    simp only [List.length_append, Nat.add_assoc]

/-- An encoded message is read as what it says; what is behind it does not matter. -/
theorem parseMsg_at (hbuf : buf.length ≤ u64Max) {kind : MsgType} {l : List Field}
    {bytes : List UInt8} (hencoding : Encoding kind l bytes) (h : At buf 0 bytes) :
    ∃ msg, parseMsg buf = .ok msg ∧ msg.contents buf = contents kind l := by
  cases hencoding with
  | @counted head first body hhead hfirst hbody =>
    rw [← List.append_nil body] at h
    have hmagic : magic <+: buf := h.left.ahead
    have hle := hbody.le_length kind.field_length
    have hpos := hhead.length_pos
    have hfits := h.right.right.fits
    have henter := enter_at hhead (by decide) h.right.left
    simp only [List.length_append, List.append_nil] at hfits
    have hfirstPos : 2 ≤ first.length := by
      cases hfirst with
      | mk hkey _ hname =>
        have hkeyPos := (Text.opens hkey).length_pos
        have hnamePos := (Text.opens hname).length_pos
        simp only [List.length_append]
        omega
    rw [items_map (by omega)] at henter
    have hcount : Left (l.length * 2 + 2) [] (.definite ((l.length + 1) * 2)) := by
      rw [Nat.succ_mul]
      exact .definite
    obtain ⟨len, hleft, hparse⟩ := parseMsg_entry hfirst hcount hmagic henter h.right.right
    rw [hparse]
    exact msgBody_at hbuf hbody hleft (by omega) h.right.right.right
  | @untilBreak first body hfirst hbody =>
    have hmagic : magic <+: buf := h.left.ahead
    have henter := enter_indefinite (by decide) (by decide) h.right
    obtain ⟨len, hleft, hparse⟩ := parseMsg_entry (n := l.length * 2) hfirst .indefinite
      hmagic henter h.right.tail
    rw [hparse]
    exact msgBody_at hbuf hbody hleft (by omega) h.right.tail.right

/-! ## Byte ranges -/

def Range.Inside (range : Range) (buf : List UInt8) : Prop :=
  range.start ≤ range.stop ∧ range.stop ≤ buf.length

theorem byteRange_inside {r r' : Reader buf} {range : Range} (h : r.byteRange = .ok (range, r')) :
    range.Inside buf := by
  obtain ⟨m, -, h⟩ := of_bind h
  obtain ⟨-, h⟩ := of_guard h
  obtain ⟨⟨⟨_, len⟩, r⟩, -, h⟩ := of_bind h
  cases len with
  | indefinite => cases h
  | definite n =>
    obtain ⟨⟨bytes, next⟩, htake, h⟩ := of_map h
    cases h
    obtain ⟨hfits, rfl⟩ := Reader.take_fits htake
    exact ⟨Nat.le_add_right _ _, hfits⟩

theorem dectrisCompression_inside {r r' : Reader buf} {c : Compression} {range : Range}
    (h : dectrisCompression r = .ok ((c, range), r')) : range.Inside buf := by
  obtain ⟨⟨tag, r⟩, -, h⟩ := of_bind h
  obtain ⟨-, h⟩ := of_guard h
  obtain ⟨⟨n, r⟩, -, h⟩ := of_bind h
  obtain ⟨-, h⟩ := of_guard h
  obtain ⟨⟨algorithm, r⟩, -, h⟩ := of_bind h
  obtain ⟨⟨elemSize, r⟩, -, h⟩ := of_bind h
  obtain ⟨⟨bytes, r⟩, hbytes, h⟩ := of_bind h
  dsimp only at h
  split_ifs at h
  cases h
  exact byteRange_inside hbytes

theorem bytesOf_inside {r r' : Reader buf} {c : Option Compression} {range : Range}
    (h : bytesOf r = .ok ((c, range), r')) : range.Inside buf := by
  obtain ⟨m, -, h⟩ := of_bind h
  by_cases hm : m = majorTag
  · rw [if_pos hm] at h
    obtain ⟨⟨tag, _⟩, -, h⟩ := of_bind h
    obtain ⟨-, h⟩ := of_guard h
    obtain ⟨⟨⟨c, bytes⟩, r⟩, hbytes, h⟩ := of_map h
    cases h
    exact dectrisCompression_inside hbytes
  · rw [if_neg hm] at h
    obtain ⟨⟨bytes, r⟩, hbytes, h⟩ := of_map h
    cases h
    exact byteRange_inside hbytes

theorem typedArray_inside {r r' : Reader buf} {a : TypedArray} (h : typedArray r = .ok (a, r')) :
    a.bytes.Inside buf := by
  obtain ⟨⟨tag, r⟩, -, h⟩ := of_bind h
  obtain ⟨⟨⟨c, bytes⟩, r⟩, hbytes, h⟩ := of_bind h
  obtain ⟨elemSize, -, h⟩ := of_bind h
  obtain ⟨-, h⟩ := of_guard h
  cases h
  exact bytesOf_inside hbytes

theorem multidimArray_inside {r r' : Reader buf} {a : MultidimArray}
    (h : multidimArray r = .ok (a, r')) : a.bytes.Inside buf := by
  obtain ⟨⟨tag, r⟩, -, h⟩ := of_bind h
  obtain ⟨-, h⟩ := of_guard h
  obtain ⟨⟨n, r⟩, -, h⟩ := of_bind h
  obtain ⟨-, h⟩ := of_guard h
  obtain ⟨⟨dim, r⟩, -, h⟩ := of_bind h
  obtain ⟨⟨array, r⟩, harray, h⟩ := of_bind h
  obtain ⟨-, h⟩ := of_guard h
  cases h
  exact typedArray_inside harray

theorem channelArray_inside {r r' : Reader buf} {d : ImageData} (h : channelArray r = .ok (d, r')) :
    d.data.bytes.Inside buf := by
  obtain ⟨⟨channel, r⟩, -, h⟩ := of_bind h
  obtain ⟨⟨data, r⟩, hdata, h⟩ := of_map h
  cases h
  exact multidimArray_inside hdata

/-- What holds of every value that is read holds of all that are read. -/
theorem times_forall {α : Type} {op : Reader buf → PResult (α × Reader buf)} {P : α → Prop}
    (hop : ∀ r a r', op r = .ok (a, r') → P a) {n : Nat} {r r' : Reader buf} {l : List α}
    (h : times op n r = .ok (l, r')) : ∀ a ∈ l, P a := by
  induction n generalizing r l with
  | zero =>
    cases h
    exact fun a ha => nomatch ha
  | succ n ih =>
    obtain ⟨⟨a, r⟩, ha, h⟩ := of_bind h
    obtain ⟨⟨l', r⟩, hl, h⟩ := of_map h
    cases h
    exact List.forall_mem_cons.2 ⟨hop _ _ _ ha, ih hl⟩

/-- What the values keep, the loop keeps. -/
theorem msgFields_invariant {M : Type} {f : FieldReader M buf} {keepTag : List UInt8 → Bool}
    {P : M → Prop}
    (hf : ∀ key m r taken m' r', f key m r = .ok (taken, m', r') → P m → P m') {fuel : Nat}
    {len : Len} {m m' : M} {r r' : Reader buf}
    (h : msgFields keepTag f fuel len m r = .ok (m', r')) (hm : P m) : P m' := by
  induction fuel generalizing len m r with
  | zero => cases h
  | succ fuel ih =>
    rw [msgFields] at h
    obtain ⟨⟨⟨again, len⟩, r⟩, -, h⟩ := of_bind h
    cases again with
    | false =>
      cases h
      exact hm
    | true =>
      obtain ⟨⟨⟨m1, len⟩, r⟩, hround, h⟩ := of_bind h
      refine ih h ?_
      obtain ⟨⟨key, r⟩, -, hround⟩ := of_bind hround
      obtain ⟨r, -, hround⟩ := of_bind hround
      obtain ⟨⟨⟨again, len⟩, r⟩, -, hround⟩ := of_bind hround
      obtain ⟨-, hround⟩ := of_guard hround
      obtain ⟨⟨m1, r⟩, hvalue, hround⟩ := of_map hround
      cases hround
      obtain ⟨⟨taken, m2, r2⟩, hfield, hvalue⟩ := of_bind hvalue
      have hm2 := hf _ _ _ _ _ _ hfield hm
      cases taken with
      | true =>
        cases hvalue
        exact hm2
      | false =>
        obtain ⟨_, -, hvalue⟩ := of_map hvalue
        cases hvalue
        exact hm2

theorem ignored_eq_ok {α M : Type} {m m' : M} {value : PResult (α × Reader buf)} {taken : Bool}
    {r : Reader buf} (h : ignored m value = .ok (taken, m', r)) : m' = m := by
  obtain ⟨⟨a, _⟩, -, h⟩ := of_map h
  cases h
  rfl

/-- The byte ranges of an image lie inside the message. -/
def ImageMsg.Inside (buf : List UInt8) (m : ImageMsg) : Prop :=
  ∀ d ∈ m.data, d.data.bytes.Inside buf

theorem imageField_forall {P : ImageData → Prop}
    (hchannel : ∀ (r : Reader buf) d r', channelArray r = .ok (d, r') → P d) {key : List UInt8}
    {m m' : ImageMsg} {r r' : Reader buf} {taken : Bool}
    (h : imageField key m r = .ok (taken, m', r')) (hm : ∀ d ∈ m.data, P d) :
    ∀ d ∈ m'.data, P d := by
  unfold imageField at h
  cases hkind : imageKind key with
  | none =>
    rw [hkind] at h
    cases h
    exact hm
  | some kind =>
    rw [hkind] at h
    cases kind with
    | uint => rwa [ignored_eq_ok h]
    | text => rwa [ignored_eq_ok h]
    | time => rwa [ignored_eq_ok h]
    | seriesDate =>
      obtain ⟨⟨date, _⟩, -, h⟩ := of_map h
      cases h
      exact hm
    | startTime =>
      obtain ⟨⟨time, _⟩, -, h⟩ := of_map h
      cases h
      exact hm
    | userData =>
      obtain ⟨_, -, h⟩ := of_map h
      cases h
      exact hm
    | data =>
      obtain ⟨⟨data, _⟩, hdata, h⟩ := of_map h
      cases h
      obtain ⟨⟨n, _⟩, -, hdata⟩ := of_bind hdata
      have hall := times_forall hchannel hdata
      intro d hd
      rcases List.mem_append.1 hd with hd | hd
      · exact hm d hd
      · exact hall d hd

/-- What holds of every channel that is read holds of all channels of an image. -/
theorem parseMsg_forall {P : ImageData → Prop}
    (hchannel : ∀ (r : Reader buf) d r', channelArray r = .ok (d, r') → P d) {m : ImageMsg}
    (h : parseMsg buf = .ok (.image m)) : ∀ d ∈ m.data, P d := by
  unfold parseMsg at h
  obtain ⟨-, h⟩ := of_guard h
  obtain ⟨⟨top, r⟩, -, h⟩ := of_bind h
  obtain ⟨⟨⟨again, top⟩, r⟩, -, h⟩ := of_bind h
  obtain ⟨-, h⟩ := of_guard h
  obtain ⟨⟨key, r⟩, -, h⟩ := of_bind h
  obtain ⟨-, h⟩ := of_guard h
  obtain ⟨r, -, h⟩ := of_bind h
  obtain ⟨⟨⟨again, top⟩, r⟩, -, h⟩ := of_bind h
  obtain ⟨-, h⟩ := of_guard h
  obtain ⟨⟨kind, r⟩, -, h⟩ := of_bind h
  dsimp only at h
  unfold msgBody at h
  split_ifs at h with hstart himage hend
  · obtain ⟨⟨_, _⟩, -, h⟩ := of_map h
    cases h
  · obtain ⟨⟨m', _⟩, hloop, h⟩ := of_map h
    cases h
    exact msgFields_invariant (fun _ _ _ _ _ _ => imageField_forall hchannel) hloop
      (fun d hd => nomatch hd)
  · obtain ⟨_, -, h⟩ := of_map h
    cases h

theorem parseMsg_inside {m : ImageMsg} (h : parseMsg buf = .ok (.image m)) : m.Inside buf :=
  parseMsg_forall (fun _ _ _ => channelArray_inside) h

/-- **Every encoding of a message is read as that message, and no byte range of an
accepted message leaves it.** -/
theorem parse_encoding :
    (∀ (kind : MsgType) (l : List Field) (buf : List UInt8), buf.length ≤ u64Max →
      Encoding kind l buf →
      (parseMsg buf).map (Msg.contents buf) = .ok (contents kind l)) ∧
    ∀ (buf : List UInt8) (m : ImageMsg), parseMsg buf = .ok (.image m) →
      ∀ d ∈ m.data, d.data.bytes.Inside buf := by
  refine ⟨fun kind l buf hbuf hencoding => ?_, fun buf m h => parseMsg_inside h⟩
  obtain ⟨msg, hparse, hcontents⟩ := parseMsg_at hbuf hencoding
    ⟨Nat.zero_le _, List.prefix_refl buf⟩
  rw [hparse, ← hcontents]
  rfl

def shortText (s : String) : List UInt8 := initial majorText (utf8 s).length :: utf8 s

theorem Text.short {s : String} (h : (utf8 s).length < 24) : Text s (shortText s) :=
  have hhead : Head majorText (utf8 s).length [initial majorText (utf8 s).length] :=
    .mk (.direct h)
  Str.definite hhead

/-- Two rows of two pixels. -/
def fourPixels : Channel := ⟨"threshold_1", (2, 2), 64, none, [1, 2, 3, 4]⟩

def fourPixelsBytes : List UInt8 :=
  shortText "threshold_1" ++ ([0xd8, 40] ++ ([0x82] ++ (([0x82] ++ ([2] ++ [2])) ++
    ([0xd8, 64] ++ ([0x44] ++ [1, 2, 3, 4])))))

theorem fourPixels_entry : ChannelEntry fourPixels fourPixelsBytes :=
  .mk (.short (by decide)) (.mk (.wide 0 (by decide) (by decide))) (.mk (.direct (by decide)))
    (.mk (.mk (.direct (by decide))) (.mk (.direct (by decide))) (.mk (.direct (by decide))))
    (.mk (.mk (by decide) (by decide)) rfl (.mk (.wide 0 (by decide) (by decide)))
      (.plain (.mk (.mk (.direct (by decide))))))

/-- A text in two chunks. -/
def dateBytes : List UInt8 :=
  0x7f :: (([0x62] ++ (utf8 "20" ++ ([0x62] ++ (utf8 "26" ++ [])))) ++ [breakByte])

theorem dateBytes_text : Text "2026" dateBytes := by
  show Str majorText (utf8 "20" ++ (utf8 "26" ++ [])) dateBytes
  exact .chunked (.cons (.mk (.direct (by decide))) (.cons (.mk (.direct (by decide))) .nil))

/-- A date behind a tag, a channel, and an entry that is not known. -/
def fourPixelsFields : List Field :=
  [(utf8 "series_date", .text "2026"), (utf8 "data", .channels [fourPixels]), (utf8 "x", .item)]

def fourPixelsMsg : List UInt8 :=
  magic ++ (initial majorMap 31 :: ((shortText "type" ++ ([] ++ shortText "image")) ++
    (((shortText "series_date" ++ (([0xc0] ++ []) ++ dateBytes)) ++
      ((shortText "data" ++ ([] ++ ([0xa1] ++ (fourPixelsBytes ++ [])))) ++
      ((shortText "x" ++ ([] ++ [0xf6])) ++ []))) ++ [breakByte])))

theorem fourPixelsMsg_encoding : Encoding .image fourPixelsFields fourPixelsMsg :=
  .untilBreak (.mk (.short (by decide)) .nil (.short (by decide)))
    (.cons (.mk (by decide) (Text.short (by decide))
        (.cons (.mk (.direct (by decide : 0 < 24))) .nil) nofun
        ⟨.seriesDate _, .text dateBytes_text⟩)
      (.cons (.mk (by decide) (Text.short (by decide)) .nil nofun
          ⟨.data _, .channels (.mk (.mk (.direct (by decide))) (.cons fourPixels_entry .nil))⟩)
        (.cons (.mk (by decide) (Text.short (by decide)) .nil nofun
          ⟨.unknown, .item (.simple (.mk (.direct (by decide : 22 < 24))))⟩) .nil)))

/-- Its channel is read with its pixels inside the message. -/
theorem parse_encoding_fourPixels :
    (parseMsg fourPixelsMsg).map (Msg.contents fourPixelsMsg) =
      .ok (.image ⟨some "2026", (0, 0), [fourPixels]⟩) ∧
    ∀ m, parseMsg fourPixelsMsg = .ok (.image m) → ∀ d ∈ m.data,
      d.data.bytes.Inside fourPixelsMsg :=
  ⟨parse_encoding.1 .image fourPixelsFields fourPixelsMsg (by decide) fourPixelsMsg_encoding,
    fun m h => parse_encoding.2 fourPixelsMsg m h⟩

end Eiger
