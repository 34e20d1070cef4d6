import EpicsIocs.Lib.Cbor
import EpicsIocs.Lib.Fallible
import EpicsIocs.Lib.Ieee
import EpicsIocs.Lib.Machine

/-! # The CBOR cursor

`Reader` as `stream2.rs` has it: an offset into a message.  The loops have fuel; every round
takes a byte, so that the length of the message is enough (`skipItem_fuel`, `chunks_fuel`).

    At buf pos bytes  →  Reads op pos bytes v

says that `op`, its cursor on an encoding, gives back the content and stops behind it. -/

namespace Eiger

open Cbor Fallible Ieee Machine

/-! ## The code -/

inductive ParseError where
  | outOfMemory
  | signature
  | decode
  | parse
  | notImplemented
  deriving DecidableEq, Repr

abbrev PResult (α : Type) : Type := Except ParseError α

/-- A cursor over one message. -/
structure Reader (buf : List UInt8) where
  pos : Nat
  deriving DecidableEq, Repr

/-- Where a container's items end: after so many, or at a break byte. -/
inductive Len where
  | definite (n : Nat)
  | indefinite
  deriving DecidableEq, Repr

def maxKeyLen : Nat := 64

/-- A range of offsets into the message. -/
structure Range where
  start : Nat
  stop : Nat
  deriving DecidableEq, Repr

def Range.len (r : Range) : Nat := r.stop - r.start

/-- The bytes of the message in the range. -/
def Range.of (r : Range) (buf : List UInt8) : List UInt8 := (buf.drop r.start).take r.len

/-- IEEE half to single, on the bits; no shift here moves a bit out of 32. -/
def halfToFloat (h : Nat) : Nat :=
  let sign := (h >>> 15) <<< 31
  let exp := (h >>> 10) &&& 0x1f
  let mant := h &&& 0x3ff
  if exp = 0 ∧ mant = 0 then sign
  else if exp = 0 then
    -- Subnormal: normalise.
    let shift := 31 - mant.log2 - 21
    sign ||| (113 - shift) <<< 23 ||| ((mant <<< shift) &&& 0x3ff) <<< 13
  else if exp = 0x1f then sign ||| 0x7f800000 ||| mant <<< 13
  else sign ||| (exp + 112) <<< 23 ||| mant <<< 13

/-- The bytes of a string. -/
def utf8 (s : String) : List UInt8 := s.toByteArray.data.toList

def isCont (b : UInt8) : Bool := 0x80 ≤ b ∧ b ≤ 0xbf

/-- Whether `b` can be the second byte of the character that `a` begins. -/
def isSecond (a b : UInt8) : Bool :=
  (0xc2 ≤ a ∧ a ≤ 0xdf ∧ isCont b) ∨ (a = 0xe0 ∧ 0xa0 ≤ b ∧ b ≤ 0xbf) ∨
  (0xe1 ≤ a ∧ a ≤ 0xec ∧ isCont b) ∨ (a = 0xed ∧ 0x80 ≤ b ∧ b ≤ 0x9f) ∨
  (0xee ≤ a ∧ a ≤ 0xef ∧ isCont b) ∨ (a = 0xf0 ∧ 0x90 ≤ b ∧ b ≤ 0xbf) ∨
  (0xf1 ≤ a ∧ a ≤ 0xf3 ∧ isCont b) ∨ (a = 0xf4 ∧ 0x80 ≤ b ∧ b ≤ 0x8f)

def replacement : Char := Char.ofNat 0xfffd

/-- The characters, with one replacement for each longest part of one that breaks off. -/
def lossyChars : List UInt8 → List Char
  | [] => []
  | a :: t =>
    if a < 0x80 then Char.ofNat a.toNat :: lossyChars t
    else
      match t with
      | [] => [replacement]
      | b :: u =>
        if ¬isSecond a b then replacement :: lossyChars (b :: u)
        else if a < 0xe0 then
          Char.ofNat ((a.toNat - 0xc0) * 64 + (b.toNat - 0x80)) :: lossyChars u
        else
          match u with
          | [] => [replacement]
          | c :: v =>
            if ¬isCont c then replacement :: lossyChars (c :: v)
            else if a < 0xf0 then
              Char.ofNat (((a.toNat - 0xe0) * 64 + (b.toNat - 0x80)) * 64 + (c.toNat - 0x80)) ::
                lossyChars v
            else
              match v with
              | [] => [replacement]
              | d :: w =>
                if ¬isCont d then replacement :: lossyChars (d :: w)
                else
                  Char.ofNat ((((a.toNat - 0xf0) * 64 + (b.toNat - 0x80)) * 64 +
                    (c.toNat - 0x80)) * 64 + (d.toNat - 0x80)) :: lossyChars w

/-- `String::from_utf8_lossy`. -/
def fromUtf8Lossy (bytes : List UInt8) : String :=
  match String.fromUTF8? ⟨bytes.toArray⟩ with
  | some s => s
  | none => String.ofList (lossyChars bytes)

namespace Reader

variable {buf : List UInt8}

def advance (r : Reader buf) (n : Nat) : Reader buf := ⟨r.pos + n⟩

def peek (r : Reader buf) : PResult UInt8 := okOr buf[r.pos]? .decode

def major (r : Reader buf) : PResult Nat := r.peek.map Cbor.major

def take (r : Reader buf) (n : Nat) : PResult (List UInt8 × Reader buf) :=
  if r.pos + n ≤ buf.length then .ok ((buf.drop r.pos).take n, r.advance n) else .error .decode

/-- An item's initial byte and argument. -/
def head (r : Reader buf) : PResult ((Nat × Len) × Reader buf) :=
  r.peek.bind fun b =>
    let r := r.advance 1
    let major := Cbor.major b
    let info := Cbor.info b
    if info ≤ 23 then .ok ((major, .definite info), r)
    else if info ≤ 27 then
      (r.take (2 ^ (info - 24))).map fun (arg, r) => ((major, .definite (Bytes.beNat arg)), r)
    else if info = 31 ∧ majorBytes ≤ major ∧ major ≤ majorMap then .ok ((major, .indefinite), r)
    else .error .decode

def definite (r : Reader buf) : PResult ((Nat × Nat) × Reader buf) :=
  r.head.bind fun ((major, len), r) =>
    match len with
    | .definite n => .ok ((major, n), r)
    | .indefinite => .error .decode

/-- Whether a container still has items; the break of an indefinite one is consumed. -/
def more (r : Reader buf) (remaining : Len) : PResult ((Bool × Len) × Reader buf) :=
  match remaining with
  | .definite 0 => .ok ((false, .definite 0), r)
  | .definite (n + 1) => .ok ((true, .definite n), r)
  | .indefinite =>
    r.peek.bind fun b =>
      if b = breakByte then .ok ((false, .indefinite), r.advance 1)
      else .ok ((true, .indefinite), r)

/-- The number of items of a map or array. -/
def items (major : Nat) (len : Len) : PResult Len :=
  match len with
  | .definite n =>
    if major = majorMap then (okOr (checkedMul n 2) .decode).map .definite else .ok (.definite n)
  | .indefinite => .ok .indefinite

/-- Enter a map or array of the given major type. -/
def enter (r : Reader buf) (major : Nat) : PResult (Len × Reader buf) :=
  r.major.bind fun m =>
    if m ≠ major then .error .parse
    else r.head.bind fun ((_, len), r) => (items major len).map fun len => (len, r)

/-- Enter a container whose length is needed up front.  No caller goes on after an error,
so that the cursor it leaves does not matter. -/
def enterCounted (r : Reader buf) (major : Nat) : PResult (Nat × Reader buf) :=
  (r.enter major).bind fun (len, r) =>
    match len with
    | .definite n => .ok (if major = majorMap then n / 2 else n, r)
    | .indefinite => .error .parse

/-- The chunks of a string, up to the break. -/
def chunks (major : Nat) : Nat → Reader buf → PResult (List UInt8 × Reader buf)
  | 0, _ => .error .decode
  | fuel + 1, r =>
    r.peek.bind fun b =>
      if b = breakByte then .ok ([], r.advance 1)
      else
        r.definite.bind fun ((m, n), r) =>
          if m ≠ major then .error .decode
          else (r.take n).bind fun (chunk, r) =>
            (chunks major fuel r).map fun (rest, r) => (chunk ++ rest, r)

/-- The bytes of a definite or chunked string. -/
def string (r : Reader buf) (major : Nat) : PResult (List UInt8 × Reader buf) :=
  r.head.bind fun ((_, len), r) =>
    match len with
    | .definite n => r.take n
    | .indefinite => chunks major buf.length r

mutual

/-- Skip one whole item, tags included. -/
def skipItem : Nat → Reader buf → PResult (Reader buf)
  | 0, _ => .error .decode
  | fuel + 1, r =>
    r.head.bind fun ((major, len), r) =>
      if major = majorBytes ∨ major = majorText then
        match len with
        | .definite n => (r.take n).map (·.2)
        | .indefinite => (chunks major buf.length r).map (·.2)
      else if major = majorArray ∨ major = majorMap then
        (items major len).bind fun len => skipItems fuel len r
      else if major = majorTag then skipItem fuel r
      else .ok r

/-- Skip what is left of a container. -/
def skipItems : Nat → Len → Reader buf → PResult (Reader buf)
  | 0, _, _ => .error .decode
  | fuel + 1, len, r =>
    (r.more len).bind fun ((again, len), r) =>
      if again then (skipItem fuel r).bind fun r => skipItems fuel len r else .ok r

end

def skip (r : Reader buf) : PResult (Reader buf) := skipItem (2 * buf.length) r

def skipTagsLoop : Nat → Reader buf → PResult (Reader buf)
  | 0, _ => .error .decode
  | fuel + 1, r =>
    r.major.bind fun m =>
      if m = majorTag then r.head.bind fun (_, r) => skipTagsLoop fuel r else .ok r

def skipTags (r : Reader buf) : PResult (Reader buf) := skipTagsLoop buf.length r

/-- `none` is a key that is too long; the cursor stays on it. -/
def key (r : Reader buf) : PResult (Option (List UInt8) × Reader buf) :=
  r.major.bind fun m =>
    if m ≠ majorText then .error .parse
    else (r.string majorText).map fun (key, next) =>
      if maxKeyLen ≤ key.length then (none, r) else (some key, next)

/-- Exactly one tag. -/
def tag (r : Reader buf) : PResult (Nat × Reader buf) :=
  r.major.bind fun m =>
    if m ≠ majorTag then .error .parse else r.definite.map fun ((_, n), r) => (n, r)

def bool (r : Reader buf) : PResult (Bool × Reader buf) :=
  r.peek.bind fun b =>
    if b = 0xf4 then .ok (false, r.advance 1)
    else if b = 0xf5 then .ok (true, r.advance 1)
    else .error .parse

/-- A float is the number it stands for, which is the same in 32 and 64 bits. -/
def double (r : Reader buf) : PResult (Number × Reader buf) :=
  r.peek.bind fun b =>
    let r := r.advance 1
    if b = 0xf9 then
      (r.take 2).map fun (s, r) => (single.value (halfToFloat (Bytes.beNat s)), r)
    else if b = 0xfa then (r.take 4).map fun (s, r) => (single.value (Bytes.beNat s), r)
    else if b = 0xfb then (r.take 8).map fun (s, r) => (Ieee.double.value (Bytes.beNat s), r)
    else .error .parse

def uint64 (r : Reader buf) : PResult (Nat × Reader buf) :=
  r.major.bind fun m =>
    if m ≠ majorUint then .error .parse else r.definite.map fun ((_, n), r) => (n, r)

def text (r : Reader buf) : PResult (String × Reader buf) :=
  r.major.bind fun m =>
    if m ≠ majorText then .error .parse
    else (r.string majorText).map fun (bytes, r) => (fromUtf8Lossy bytes, r)

/-- A definite byte string, as a range of offsets. -/
def byteRange (r : Reader buf) : PResult (Range × Reader buf) :=
  r.major.bind fun m =>
    if m ≠ majorBytes then .error .parse
    else r.head.bind fun ((_, len), r) =>
      match len with
      | .definite n => (r.take n).map fun (_, next) => (⟨r.pos, next.pos⟩, next)
      | .indefinite => .error .parse

def array2Uint64 (r : Reader buf) : PResult ((Nat × Nat) × Reader buf) :=
  (r.enterCounted majorArray).bind fun (n, r) =>
    if n ≠ 2 then .error .parse
    else r.uint64.bind fun (a, r) => r.uint64.map fun (b, r) => ((a, b), r)

end Reader

/-! ## Half precision -/

/-- A leading bit at `k ≤ 9` is moved up to bit 10. -/
theorem normalise {mant : Nat} (hpos : mant ≠ 0) (hlt : mant < 1024) :
    1024 ≤ mant <<< (31 - mant.log2 - 21) ∧ mant <<< (31 - mant.log2 - 21) < 2048 := by
  have hlog : mant.log2 < 10 := (Nat.log2_lt hpos).2 hlt
  have hshift : 31 - mant.log2 - 21 = 10 - mant.log2 := by omega
  obtain ⟨k, hk⟩ : ∃ k, mant.log2 + k = 10 := ⟨10 - mant.log2, by omega⟩
  have hk' : 10 - mant.log2 = k := by omega
  have hlow : 2 ^ mant.log2 ≤ mant := Nat.log2_self_le hpos
  have hhigh : mant < 2 ^ (mant.log2 + 1) := Nat.lt_log2_self
  rw [hshift, hk', Nat.shiftLeft_eq]
  constructor
  · calc 1024 = 2 ^ mant.log2 * 2 ^ k := by rw [← Nat.pow_add, hk]
      _ ≤ mant * 2 ^ k := Nat.mul_le_mul_right _ hlow
  · calc mant * 2 ^ k < 2 ^ (mant.log2 + 1) * 2 ^ k :=
        Nat.mul_lt_mul_of_pos_right hhigh (Nat.two_pow_pos _)
      _ = 2048 := by rw [← Nat.pow_add, Nat.add_right_comm, hk]

/-- The single is the same number. -/
theorem value_halfToFloat {h : Nat} (hh : h < 2 ^ 16) :
    single.value (halfToFloat h) = half.value h := by
  have hbits : h < 2 ^ half.fractionBits * (2 ^ half.exponentBits * 2) := hh
  have hfraction : single.fractionBits = half.fractionBits + 13 := rfl
  have hleast : half.least = 13 + 112 + single.least := by decide
  obtain ⟨negative, exp, mant, rfl, hexp, hmant⟩ := Format.exists_pack hbits
  have hexp' : exp < 32 := hexp
  have hmant' : mant < 1024 := hmant
  have hsign := negative.toNat_le
  have hpack : half.pack negative exp mant = 1024 * (32 * negative.toNat + exp) + mant := rfl
  have hs : half.pack negative exp mant >>> 15 = negative.toNat := by
    rw [Nat.shiftRight_eq_div_pow, hpack]
    omega
  have he : (half.pack negative exp mant >>> 10) &&& 0x1f = exp := by
    rw [Nat.shiftRight_eq_div_pow, hpack, show (0x1f : Nat) = 2 ^ 5 - 1 from rfl,
      Nat.and_two_pow_sub_one_eq_mod]
    omega
  have hm : half.pack negative exp mant &&& 0x3ff = mant := by
    rw [hpack, show (0x3ff : Nat) = 2 ^ 10 - 1 from rfl, Nat.and_two_pow_sub_one_eq_mod]
    omega
  have hpacked : ∀ e m : Nat, e < 256 → m < 1024 →
      single.value (negative.toNat <<< 31 ||| e <<< 23 ||| m <<< 13) =
        single.number negative e (m * 2 ^ 13) := by
    intro e m he hm
    have hm' : m * 2 ^ 13 < 2 ^ single.fractionBits := by
      show m * 2 ^ 13 < 2 ^ 23
      omega
    rw [Nat.shiftLeft_eq m, ← Format.value_pack he hm', Format.pack_eq_or he hm']
    rfl
  rw [Format.value_pack hexp hmant, halfToFloat, hs, he, hm]
  by_cases hzero : exp = 0
  · subst hzero
    by_cases hmzero : mant = 0
    · subst hmzero
      have hbits := hpacked 0 0 (by decide) (by decide)
      rw [Nat.zero_shiftLeft, Nat.zero_shiftLeft, Nat.or_zero, Nat.or_zero] at hbits
      rw [if_pos ⟨rfl, rfl⟩, hbits, Nat.zero_mul, Format.number_zero (by decide),
        Format.number_zero (by decide)]
    · obtain ⟨hlow, hhigh⟩ := normalise hmzero hmant'
      have hlow10 : (mant <<< (31 - mant.log2 - 21)) &&& 0x3ff =
          mant * 2 ^ (31 - mant.log2 - 21) - 1024 := by
        rw [show (0x3ff : Nat) = 2 ^ 10 - 1 from rfl, Nat.and_two_pow_sub_one_eq_mod,
          ← Nat.shiftLeft_eq]
        omega
      rw [Nat.shiftLeft_eq] at hlow hhigh
      rw [if_neg (fun h => hmzero h.2), if_pos rfl]
      simp only [hlow10]
      rw [hpacked _ _ (by omega) (by omega)]
      have hfits : 112 + 1 - (31 - mant.log2 - 21) < 255 := by omega
      exact Format.number_subnormal hfraction hleast (by omega) (by decide) hfits hlow
  · rw [if_neg (fun h => hzero h.1), if_neg hzero]
    by_cases hmax : exp = 31
    · subst hmax
      have hbits := hpacked 255 mant (by decide) hmant'
      rw [if_pos rfl]
      refine hbits.trans ?_
      by_cases hmzero : mant = 0
      · subst hmzero
        rfl
      · simp [Format.number, single, half, hmzero]
    · rw [if_neg hmax, hpacked _ _ (by omega) hmant']
      have hlt : exp < 31 := by omega
      have hfits : exp + 112 < 255 := by omega
      exact Format.number_normal hfraction hleast (by omega) hlt hfits

/-! ## Bytes ahead -/

/-- These bytes are in the message at the offset. -/
structure At (buf : List UInt8) (pos : Nat) (bytes : List UInt8) : Prop where
  inside : pos ≤ buf.length
  ahead : bytes <+: buf.drop pos

section
variable {buf : List UInt8} {pos : Nat} {a b bytes : List UInt8}

theorem At.fits (h : At buf pos bytes) : pos + bytes.length ≤ buf.length := by
  have hle := List.IsPrefix.length_le h.ahead
  have hinside := h.inside
  rw [List.length_drop] at hle
  omega

theorem At.left (h : At buf pos (a ++ b)) : At buf pos a :=
  ⟨h.inside, (List.prefix_append a b).trans h.ahead⟩

theorem At.right (h : At buf pos (a ++ b)) : At buf (pos + a.length) b := by
  obtain ⟨rest, hrest⟩ := h.ahead
  refine ⟨h.left.fits, rest, ?_⟩
  rw [← List.drop_drop, ← hrest, List.append_assoc, List.drop_left]

theorem At.tail {x : UInt8} (h : At buf pos (x :: bytes)) : At buf (pos + 1) bytes :=
  At.right (a := [x]) h

theorem At.take_eq (h : At buf pos bytes) : (buf.drop pos).take bytes.length = bytes :=
  (List.prefix_iff_eq_take.1 h.ahead).symm

end

/-! ## Reading an encoding -/

namespace Reader

section
variable {buf : List UInt8} {pos : Nat} {b : UInt8} {bytes rest : List UInt8}

theorem peek_at (h : At buf pos (b :: rest)) : peek (⟨pos⟩ : Reader buf) = .ok b := by
  obtain ⟨after, hafter⟩ := h.ahead
  have hget : buf[pos]? = some b := by
    rw [← List.head?_drop, ← hafter]
    rfl
  simp only [peek, hget, okOr]

theorem major_at (h : At buf pos (b :: rest)) :
    major (⟨pos⟩ : Reader buf) = .ok (Cbor.major b) := by
  rw [major, peek_at h]
  rfl

/-- Bytes that are taken were there, and are behind. -/
theorem take_fits {r r' : Reader buf} {n : Nat} {bytes : List UInt8}
    (h : r.take n = .ok (bytes, r')) : r.pos + n ≤ buf.length ∧ r' = r.advance n := by
  unfold take at h
  split at h
  next hle =>
    cases h
    exact ⟨hle, rfl⟩
  next => cases h

theorem take_at (h : At buf pos bytes) :
    take (⟨pos⟩ : Reader buf) bytes.length = .ok (bytes, ⟨pos + bytes.length⟩) := by
  rw [take, if_pos h.fits, h.take_eq]
  rfl

variable {m n : Nat} {head content : List UInt8}

theorem head_at (hhead : Head m n bytes) (hm : m < 8) (h : At buf pos bytes) :
    Reader.head (⟨pos⟩ : Reader buf) = .ok ((m, .definite n), ⟨pos + bytes.length⟩) := by
  cases hhead with
  | mk harg =>
    rename_i info arg
    have hlt := harg.info_lt
    have hmajor := major_initial hm (by omega : info < 32)
    have hinfo := info_initial hm (by omega : info < 32)
    simp only [Reader.head, peek_at h, Except.bind, hmajor, hinfo]
    cases harg with
    | direct hn =>
      rw [if_pos (by omega)]
      rfl
    | wide k hk hn =>
      have htake := take_at h.tail
      rw [Bytes.length_beBytes] at htake
      rw [if_neg (by omega), if_pos (by omega), Nat.add_sub_cancel_left]
      simp only [advance, htake, Except.map, Bytes.beNat_beBytes_of_lt hn, List.length_cons,
        Bytes.length_beBytes]
      rw [Nat.add_assoc, Nat.add_comm 1]

theorem definite_at (hhead : Head m n bytes) (hm : m < 8) (h : At buf pos bytes) :
    definite (⟨pos⟩ : Reader buf) = .ok ((m, n), ⟨pos + bytes.length⟩) := by
  simp only [definite, head_at hhead hm h, Except.bind]

theorem head_indefinite (hm : majorBytes ≤ m) (hm' : m ≤ majorMap)
    (h : At buf pos (initial m 31 :: rest)) :
    Reader.head (⟨pos⟩ : Reader buf) = .ok ((m, .indefinite), ⟨pos + 1⟩) := by
  have hlt : m < 8 := Nat.lt_of_le_of_lt hm' (by decide)
  have hmajor := major_initial hlt (by decide : 31 < 32)
  have hinfo := info_initial hlt (by decide : 31 < 32)
  simp only [Reader.head, peek_at h, Except.bind, hmajor, hinfo]
  rw [if_neg (by decide), if_neg (by decide), if_pos ⟨trivial, hm, hm'⟩]
  rfl

theorem major_head (hhead : Head m n bytes) (hm : m < 8) (h : At buf pos bytes) :
    major (⟨pos⟩ : Reader buf) = .ok m := by
  cases hhead with
  | mk harg =>
    rw [major_at h, major_initial hm (by have := harg.info_lt; omega)]

/-- What is left of a container is so many items, and the break behind them if it has no
length in front. -/
inductive Left (n : Nat) : List UInt8 → Len → Prop
  | definite : Left n [] (.definite n)
  | indefinite : Left n [breakByte] .indefinite

theorem more_left {tail : List UInt8} {len : Len} (hleft : Left (n + 1) tail len)
    (hopens : Opens bytes) (h : At buf pos bytes) :
    ∃ len', more (⟨pos⟩ : Reader buf) len = .ok ((true, len'), ⟨pos⟩) ∧ Left n tail len' := by
  cases hleft with
  | definite => exact ⟨.definite n, rfl, .definite⟩
  | indefinite =>
    obtain ⟨b, rest, rfl, hb⟩ := hopens
    refine ⟨.indefinite, ?_, .indefinite⟩
    simp only [more, peek_at h, Except.bind, if_neg hb]

theorem more_end {tail : List UInt8} {len : Len} (hleft : Left 0 tail len)
    (h : At buf pos tail) :
    ∃ len', more (⟨pos⟩ : Reader buf) len = .ok ((false, len'), ⟨pos + tail.length⟩) := by
  cases hleft with
  | definite => exact ⟨.definite 0, rfl⟩
  | indefinite =>
    refine ⟨.indefinite, ?_⟩
    simp only [more, peek_at h, Except.bind, if_true]
    rfl

theorem chunks_at (hchunks : Chunks m content bytes) (hm : m < 7) {fuel : Nat}
    (hfuel : bytes.length < fuel) (h : At buf pos (bytes ++ [breakByte])) :
    chunks m fuel (⟨pos⟩ : Reader buf) = .ok (content, ⟨pos + bytes.length + 1⟩) := by
  induction hchunks generalizing pos fuel with
  | nil =>
    obtain ⟨fuel, rfl⟩ : ∃ k, fuel = k + 1 := ⟨fuel - 1, by omega⟩
    simp only [chunks, peek_at h, Except.bind, if_true]
    rfl
  | @cons chunk content head bytes hhead _ ih =>
    obtain ⟨fuel, rfl⟩ : ∃ k, fuel = k + 1 := ⟨fuel - 1, by omega⟩
    have hpos := hhead.length_pos
    rw [List.append_assoc, List.append_assoc] at h
    obtain ⟨b, t, hopen, hb⟩ := (hhead.opens (by omega)).append (chunk ++ (bytes ++ [breakByte]))
    have hpeek := peek_at (hopen ▸ h)
    have hrest := ih (by simp at hfuel; omega : bytes.length < fuel) h.right.right
    simp only [chunks, hpeek, Except.bind, if_neg hb, definite_at hhead (by omega) h.left,
      take_at h.right.left, hrest, Except.map, ne_eq, not_true, if_false]
    simp only [List.length_append, Nat.add_assoc]

theorem string_at (hstr : Str m content bytes) (hm : m = majorBytes ∨ m = majorText)
    (h : At buf pos bytes) :
    string (⟨pos⟩ : Reader buf) m = .ok (content, ⟨pos + bytes.length⟩) := by
  have hlt : m < 7 := by rcases hm with rfl | rfl <;> decide
  cases hstr with
  | definite hhead =>
    simp only [string, head_at hhead (by omega) h.left, Except.bind, take_at h.right,
      List.length_append, Nat.add_assoc]
  | @chunked bytes hchunks =>
    have hfits := h.tail.fits
    have hrange : majorBytes ≤ m ∧ m ≤ majorMap := by rcases hm with rfl | rfl <;> decide
    rw [List.length_append, List.length_singleton] at hfits
    simp only [string, head_indefinite hrange.1 hrange.2 h, Except.bind,
      chunks_at hchunks hlt (by omega : bytes.length < buf.length) h.tail]
    simp only [List.length_cons, List.length_append, List.length_nil, Nat.add_assoc,
      Nat.add_comm 1]

theorem items_of_ne (hm : m ≠ majorMap) (len : Len) : items m len = .ok len := by
  cases len with
  | definite n => rw [items, if_neg hm]
  | indefinite => rfl

theorem items_map (h : n * 2 ≤ u64Max) : items majorMap (.definite n) = .ok (.definite (n * 2)) := by
  rw [items, if_pos rfl, checkedMul, if_pos h]
  rfl

/-- Enough fuel to skip items is twice their length. -/
structure Skips (buf : List UInt8) (fuel : Nat) : Prop where
  item : ∀ pos bytes, Item bytes → 2 * bytes.length ≤ fuel → At buf pos bytes →
    skipItem fuel (⟨pos⟩ : Reader buf) = .ok ⟨pos + bytes.length⟩
  items : ∀ pos n bytes tail len, Items n bytes → Left n tail len → 2 * bytes.length < fuel →
    At buf pos (bytes ++ tail) →
    skipItems fuel len (⟨pos⟩ : Reader buf) = .ok ⟨pos + (bytes ++ tail).length⟩

theorem skipItem_container {r r' : Reader buf} {len : Len} {fuel : Nat}
    (hm : m = majorArray ∨ m = majorMap) (hhead : r.head = .ok ((m, len), r')) :
    skipItem (fuel + 1) r = (items m len).bind fun len => skipItems fuel len r' := by
  have hstring : ¬(m = majorBytes ∨ m = majorText) := by rcases hm with rfl | rfl <;> decide
  rw [skipItem, hhead]
  simp only [Except.bind, if_neg hstring, if_pos hm]

theorem skipItem_at (hbuf : buf.length ≤ u64Max) {fuel : Nat} (ih : Skips buf fuel)
    (hitem : Item bytes) (hfuel : 2 * bytes.length ≤ fuel + 1) (h : At buf pos bytes) :
    skipItem (fuel + 1) (⟨pos⟩ : Reader buf) = .ok ⟨pos + bytes.length⟩ := by
  have hfits := h.fits
  cases hitem with
  | integer hm hhead =>
    rcases hm with rfl | rfl
    · rw [skipItem, head_at hhead (by decide) h]
      rfl
    · rw [skipItem, head_at hhead (by decide) h]
      rfl
  | @string m content bytes hm hstr =>
    cases hstr with
    | definite hhead =>
      rw [skipItem, head_at hhead (by rcases hm with rfl | rfl <;> decide) h.left]
      simp only [Except.bind, if_pos hm, take_at h.right, Except.map, List.length_append,
        Nat.add_assoc]
    | @chunked bytes hchunks =>
      have hrange : majorBytes ≤ m ∧ m ≤ majorMap := by rcases hm with rfl | rfl <;> decide
      have hlen : bytes.length < buf.length := by
        simp only [List.length_cons, List.length_append] at hfits
        omega
      rw [skipItem, head_indefinite hrange.1 hrange.2 h]
      simp only [Except.bind, if_pos hm, Except.map,
        chunks_at hchunks (by rcases hm with rfl | rfl <;> decide) hlen h.tail]
      simp only [List.length_cons, List.length_append, List.length_nil, Nat.add_assoc,
        Nat.add_comm 1]
  | @array n head body hhead hitems =>
    have hpos := hhead.length_pos
    rw [List.length_append] at hfuel
    rw [skipItem_container (.inl rfl) (head_at hhead (by decide) h.left),
      items_of_ne (by decide)]
    have hskip := ih.items _ _ _ _ _ hitems .definite (by omega) (by simpa using h.right)
    simp only [Except.bind, hskip, List.append_nil, List.length_append, Nat.add_assoc]
  | @arrayUntilBreak n body hitems =>
    simp only [List.length_cons, List.length_append] at hfuel
    rw [skipItem_container (.inl rfl) (head_indefinite (by decide) (by decide) h)]
    simp only [Reader.items, Except.bind,
      ih.items _ _ _ _ _ hitems .indefinite (by omega) h.tail]
    rw [List.length_cons, Nat.add_assoc, Nat.add_comm 1]
  | @map n head body hhead hitems =>
    have hpos := hhead.length_pos
    have hcount := hitems.le_length
    rw [List.length_append] at hfuel hfits
    rw [skipItem_container (.inr rfl) (head_at hhead (by decide) h.left),
      items_map (by omega)]
    have hskip := ih.items _ _ _ _ _ hitems .definite (by omega) (by simpa using h.right)
    simp only [Except.bind, hskip, List.append_nil, List.length_append, Nat.add_assoc]
  | @mapUntilBreak n body hitems =>
    simp only [List.length_cons, List.length_append] at hfuel
    rw [skipItem_container (.inr rfl) (head_indefinite (by decide) (by decide) h)]
    simp only [Reader.items, Except.bind,
      ih.items _ _ _ _ _ hitems .indefinite (by omega) h.tail]
    rw [List.length_cons, Nat.add_assoc, Nat.add_comm 1]
  | @tag n head body hhead hitem =>
    have hpos := hhead.length_pos
    rw [List.length_append] at hfuel
    rw [skipItem, head_at hhead (by decide) h.left]
    simp only [Except.bind]
    rw [if_neg (by decide), if_neg (by decide), if_pos trivial,
      ih.item _ _ hitem (by omega) h.right, List.length_append, Nat.add_assoc]
  | simple hhead =>
    rw [skipItem, head_at hhead (by decide) h]
    rfl

theorem skipItems_at {fuel : Nat} (ih : Skips buf fuel) {tail : List UInt8} {len : Len}
    (hitems : Items n bytes) (hleft : Left n tail len) (hfuel : 2 * bytes.length < fuel + 1)
    (h : At buf pos (bytes ++ tail)) :
    skipItems (fuel + 1) len (⟨pos⟩ : Reader buf) = .ok ⟨pos + (bytes ++ tail).length⟩ := by
  cases hitems with
  | nil =>
    obtain ⟨len', hmore⟩ := more_end hleft h
    rw [skipItems, hmore]
    rfl
  | cons hitem hitems =>
    have hpos := hitem.opens.length_pos
    rw [List.append_assoc] at h
    rw [List.length_append] at hfuel
    obtain ⟨len', hmore, hleft'⟩ := more_left hleft hitem.opens h.left
    rw [skipItems, hmore]
    simp only [Except.bind, if_true, ih.item _ _ hitem (by omega) h.left,
      ih.items _ _ _ _ _ hitems hleft' (by omega) h.right, List.length_append, Nat.add_assoc]

/-- By induction on the fuel: an item in a container has at most its length less one. -/
theorem skips (hbuf : buf.length ≤ u64Max) (fuel : Nat) : Skips buf fuel := by
  induction fuel with
  | zero =>
    constructor
    · intro pos bytes hitem hfuel
      have hpos := hitem.opens.length_pos
      omega
    · intro pos n bytes tail len _ _ hfuel
      omega
  | succ fuel ih =>
    constructor
    · intro pos bytes hitem hfuel h
      exact skipItem_at hbuf ih hitem hfuel h
    · intro pos n bytes tail len hitems hleft hfuel h
      exact skipItems_at ih hitems hleft hfuel h

theorem skip_at (hbuf : buf.length ≤ u64Max) (hitem : Item bytes) (h : At buf pos bytes) :
    skip (⟨pos⟩ : Reader buf) = .ok ⟨pos + bytes.length⟩ := by
  have hfits := h.fits
  exact (skips hbuf _).item _ _ hitem (by omega) h

theorem skipTagsLoop_at (htags : Tags bytes) {fuel : Nat} (hfuel : bytes.length < fuel)
    (h : At buf pos (bytes ++ b :: rest)) (hb : Cbor.major b ≠ majorTag) :
    skipTagsLoop fuel (⟨pos⟩ : Reader buf) = .ok ⟨pos + bytes.length⟩ := by
  induction htags generalizing pos fuel with
  | nil =>
    obtain ⟨fuel, rfl⟩ : ∃ k, fuel = k + 1 := ⟨fuel - 1, by omega⟩
    rw [skipTagsLoop, major_at h]
    simp only [Except.bind, if_neg hb]
    rfl
  | @cons n head tags hhead _ ih =>
    obtain ⟨fuel, rfl⟩ : ∃ k, fuel = k + 1 := ⟨fuel - 1, by omega⟩
    have hpos := hhead.length_pos
    rw [List.append_assoc] at h
    rw [List.length_append] at hfuel
    have hrest := ih (by omega : tags.length < fuel) h.right
    rw [skipTagsLoop, major_head hhead (by decide) h.left, head_at hhead (by decide) h.left]
    simp only [Except.bind, if_true, hrest, List.length_append, Nat.add_assoc]

theorem skipTags_at (htags : Tags bytes) (h : At buf pos (bytes ++ b :: rest))
    (hb : Cbor.major b ≠ majorTag) :
    skipTags (⟨pos⟩ : Reader buf) = .ok ⟨pos + bytes.length⟩ := by
  have hfits := h.fits
  rw [List.length_append, List.length_cons] at hfits
  exact skipTagsLoop_at htags (by omega) h hb

end

end Reader

/-! ## Typed values -/

/-- A float in one of the three widths. -/
inductive Double : Number → List UInt8 → Prop
  | half {bits : Nat} : bits < 2 ^ 16 →
      Double (Ieee.half.value bits) (0xf9 :: Bytes.beBytes 2 bits)
  | single {bits : Nat} : bits < 2 ^ 32 →
      Double (Ieee.single.value bits) (0xfa :: Bytes.beBytes 4 bits)
  | double {bits : Nat} : bits < 2 ^ 64 →
      Double (Ieee.double.value bits) (0xfb :: Bytes.beBytes 8 bits)

inductive Boolean : Bool → List UInt8 → Prop
  | no : Boolean false [0xf4]
  | yes : Boolean true [0xf5]

def Uint (n : Nat) (bytes : List UInt8) : Prop := Head majorUint n bytes

/-- A text, in one piece or in chunks. -/
def Text (s : String) (bytes : List UInt8) : Prop := Str majorText (utf8 s) bytes

/-- A byte string in one piece. -/
inductive Blob : List UInt8 → List UInt8 → Prop
  | mk {content head : List UInt8} : Head majorBytes content.length head →
      Blob content (head ++ content)

inductive Pair : Nat × Nat → List UInt8 → Prop
  | mk {a b : Nat} {head x y : List UInt8} : Head majorArray 2 head → Uint a x → Uint b y →
      Pair (a, b) (head ++ (x ++ y))

theorem Double.opens {x : Number} {bytes : List UInt8} (h : Double x bytes) : Opens bytes := by
  cases h with
  | half _ => exact ⟨_, _, rfl, by decide⟩
  | single _ => exact ⟨_, _, rfl, by decide⟩
  | double _ => exact ⟨_, _, rfl, by decide⟩

theorem Double.untagged {x : Number} {bytes : List UInt8} (h : Double x bytes) :
    Untagged bytes := by
  cases h with
  | half _ => exact ⟨_, _, rfl, by decide⟩
  | single _ => exact ⟨_, _, rfl, by decide⟩
  | double _ => exact ⟨_, _, rfl, by decide⟩

theorem fromUtf8Lossy_utf8 (s : String) : fromUtf8Lossy (utf8 s) = s := by
  have hvalid : (⟨(utf8 s).toArray⟩ : ByteArray) = s.toByteArray := by
    rw [utf8, Array.toArray_toList]
  rw [fromUtf8Lossy, hvalid, String.fromUTF8?, dif_pos s.isValidUTF8]
  rfl

namespace Reader

section
variable {buf : List UInt8} {pos m n : Nat} {bytes rest : List UInt8}

theorem enter_at (hhead : Head m n bytes) (hm : m < 8) (h : At buf pos bytes) :
    enter (⟨pos⟩ : Reader buf) m =
      (items m (.definite n)).map fun len => (len, ⟨pos + bytes.length⟩) := by
  rw [enter, major_head hhead hm h, head_at hhead hm h]
  simp only [Except.bind, ne_eq, not_true, if_false]

theorem enter_indefinite (hm : majorBytes ≤ m) (hm' : m ≤ majorMap)
    (h : At buf pos (initial m 31 :: rest)) :
    enter (⟨pos⟩ : Reader buf) m = .ok (.indefinite, ⟨pos + 1⟩) := by
  have hlt : m < 8 := Nat.lt_of_le_of_lt hm' (by decide)
  rw [enter, major_at h, major_initial hlt (by decide), head_indefinite hm hm' h]
  simp only [Except.bind, ne_eq, not_true, if_false, items, Except.map]

theorem enterCounted_array (hhead : Head majorArray n bytes) (h : At buf pos bytes) :
    enterCounted (⟨pos⟩ : Reader buf) majorArray = .ok (n, ⟨pos + bytes.length⟩) := by
  rw [enterCounted, enter_at hhead (by decide) h, items_of_ne (by decide)]
  simp only [Except.map, Except.bind]
  rw [if_neg (by decide)]

theorem enterCounted_map (hhead : Head majorMap n bytes) (hn : n * 2 ≤ u64Max)
    (h : At buf pos bytes) :
    enterCounted (⟨pos⟩ : Reader buf) majorMap = .ok (n, ⟨pos + bytes.length⟩) := by
  rw [enterCounted, enter_at hhead (by decide) h, items_map hn]
  simp only [Except.map, Except.bind, if_true, Nat.mul_div_cancel _ (by decide : 0 < 2)]

theorem tag_at (hhead : Head majorTag n bytes) (h : At buf pos bytes) :
    tag (⟨pos⟩ : Reader buf) = .ok (n, ⟨pos + bytes.length⟩) := by
  rw [tag, major_head hhead (by decide) h,
    definite_at hhead (by decide) h]
  simp only [Except.bind, Except.map, ne_eq, not_true, if_false]

theorem uint64_at (hn : Uint n bytes) (h : At buf pos bytes) :
    uint64 (⟨pos⟩ : Reader buf) = .ok (n, ⟨pos + bytes.length⟩) := by
  rw [uint64, major_head hn (by decide) h,
    definite_at hn (by decide) h]
  simp only [Except.bind, Except.map, ne_eq, not_true, if_false]

theorem bool_at {v : Bool} (hv : Boolean v bytes) (h : At buf pos bytes) :
    bool (⟨pos⟩ : Reader buf) = .ok (v, ⟨pos + bytes.length⟩) := by
  cases hv with
  | no =>
    rw [bool, peek_at h]
    rfl
  | yes =>
    rw [bool, peek_at h]
    rfl

theorem double_at {x : Number} (hx : Double x bytes) (h : At buf pos bytes) :
    double (⟨pos⟩ : Reader buf) = .ok (x, ⟨pos + bytes.length⟩) := by
  cases hx with
  | half hbits =>
    have htake := take_at h.tail
    rw [Bytes.length_beBytes] at htake
    rw [double, peek_at h]
    simp only [Except.bind, advance, htake, Except.map, if_true,
      Bytes.beNat_beBytes_of_lt (k := 2) hbits, value_halfToFloat hbits]
    rfl
  | single hbits =>
    have htake := take_at h.tail
    rw [Bytes.length_beBytes] at htake
    rw [double, peek_at h]
    simp only [Except.bind, advance]
    rw [if_neg (by decide), if_pos trivial, htake]
    simp only [Except.map, Bytes.beNat_beBytes_of_lt (k := 4) hbits]
    rfl
  | double hbits =>
    have htake := take_at h.tail
    rw [Bytes.length_beBytes] at htake
    rw [double, peek_at h]
    simp only [Except.bind, advance]
    rw [if_neg (by decide), if_neg (by decide), if_pos trivial, htake]
    simp only [Except.map, Bytes.beNat_beBytes_of_lt (k := 8) hbits]
    rfl

theorem major_str {content : List UInt8} (hstr : Str m content bytes) (hm : m < 8)
    (h : At buf pos bytes) : major (⟨pos⟩ : Reader buf) = .ok m := by
  cases hstr with
  | definite hhead => exact major_head hhead hm h.left
  | chunked _ => rw [major_at h, major_initial hm (by decide)]

theorem text_at {s : String} (hs : Text s bytes) (h : At buf pos bytes) :
    text (⟨pos⟩ : Reader buf) = .ok (s, ⟨pos + bytes.length⟩) := by
  rw [text, major_str hs (by decide) h, string_at hs (.inr rfl) h]
  simp only [Except.bind, Except.map, ne_eq, not_true, if_false, fromUtf8Lossy_utf8]

theorem key_at {content : List UInt8} (hkey : Str majorText content bytes)
    (hlen : content.length < maxKeyLen) (h : At buf pos bytes) :
    key (⟨pos⟩ : Reader buf) = .ok (some content, ⟨pos + bytes.length⟩) := by
  rw [key, major_str hkey (by decide) h, string_at hkey (.inr rfl) h]
  simp only [Except.bind, Except.map, ne_eq, not_true, if_false, if_neg (Nat.not_le.2 hlen)]

theorem byteRange_at {content : List UInt8} (hblob : Blob content bytes) (h : At buf pos bytes) :
    ∃ range, byteRange (⟨pos⟩ : Reader buf) = .ok (range, ⟨pos + bytes.length⟩) ∧
      range.of buf = content ∧ range.len = content.length := by
  cases hblob with
  | @mk head hhead =>
    have hlen : (⟨pos + head.length, pos + head.length + content.length⟩ : Range).len =
        content.length := Nat.add_sub_cancel_left _ _
    refine ⟨⟨pos + head.length, pos + head.length + content.length⟩, ?_, ?_, hlen⟩
    · rw [byteRange, major_head hhead (by decide) h.left, head_at hhead (by decide) h.left]
      simp only [Except.bind, ne_eq, not_true, if_false, take_at h.right, Except.map,
        List.length_append, Nat.add_assoc]
    · rw [Range.of, hlen]
      exact h.right.take_eq

theorem array2Uint64_at {v : Nat × Nat} (hv : Pair v bytes) (h : At buf pos bytes) :
    array2Uint64 (⟨pos⟩ : Reader buf) = .ok (v, ⟨pos + bytes.length⟩) := by
  cases hv with
  | mk hhead ha hb =>
    rw [array2Uint64, enterCounted_array hhead h.left]
    simp only [Except.bind, ne_eq, not_true, if_false, uint64_at ha h.right.left,
      uint64_at hb h.right.right, Except.map]
    simp only [List.length_append, Nat.add_assoc]

end

end Reader

end Eiger
