import EpicsIocs.Lib.Base64
import EpicsIocs.Lib.Faults
import EpicsIocs.TimePix.Stream

/-! # The pixel configuration of a chip

`decode_base64_strict` and `parse_pixel_config_response` of `mask.rs`: a reply of the server whose
body is a JSON string in strict base64, white space dropped, padding only in the last group and with
its unused bits zero.

    decodeBase64Strict t = some b ↔ b ≠ [] ∧ (strBytes t).filter (!cIsspace ·) = encode b
                                                                     (decodeBase64Strict_iff) -/

namespace TimePix

open Base64 Machine

/-- `None` is the `Ok` arm of C `ADTimePix3ServalPixelConfig::ResponseError`. -/
inductive PixelConfigError where
  | httpFailure
  | emptyBody
  | malformedJson
  | invalidRoot
  | invalidBase64
  | lengthMismatch
  deriving DecidableEq, Repr

def PixelConfigError.message : PixelConfigError → String
  | httpFailure => "HTTP request failed"
  | emptyBody => "Empty response body"
  | malformedJson => "Malformed JSON response"
  | invalidRoot => "JSON response is not a string"
  | invalidBase64 => "Invalid base64 payload"
  | lengthMismatch => "Decoded PixelConfig length mismatch"

/-! ## Decoding -/

/-- `u8::is_ascii_whitespace`. -/
def isAsciiWhitespace (c : UInt8) : Bool := c == 9 || c == 10 || c == 12 || c == 13 || c == 32

/-- C `isspace` in the C locale. -/
def cIsspace (c : UInt8) : Bool := isAsciiWhitespace c || c == 0x0b

/-- `value` of `decode_base64_strict`. -/
def base64Value (c : UInt8) : Option UInt8 :=
  if 65 ≤ c ∧ c ≤ 90 then some (c - 65)
  else if 97 ≤ c ∧ c ≤ 122 then some (c - 97 + 26)
  else if 48 ≤ c ∧ c ≤ 57 then some (c - 48 + 52)
  else if c = 43 then some 62
  else if c = 47 then some 63
  else none

/-- Four characters. -/
abbrev Group : Type := UInt8 × UInt8 × UInt8 × UInt8

/-- `as_chunks::<4>().0`. -/
def asChunks : List UInt8 → List Group
  | a :: b :: c :: d :: rest => (a, b, c, d) :: asChunks rest
  | _ => []

/-- What the loop pushes for a group. -/
def decodeGroup (last : Bool) : Group → Option (List UInt8)
  | (g0, g1, g2, g3) => do
    let a ← base64Value g0
    let b ← base64Value g1
    if g2 = 61 then
      if !last || g3 != 61 || b &&& 0x0f != 0 then none
      else some [(a <<< 2) ||| (b >>> 4)]
    else
      let c ← base64Value g2
      if g3 = 61 then
        if !last || c &&& 0x03 != 0 then none
        else some [(a <<< 2) ||| (b >>> 4), (b <<< 4) ||| (c >>> 2)]
      else
        let d ← base64Value g3
        some [(a <<< 2) ||| (b >>> 4), (b <<< 4) ||| (c >>> 2), (c <<< 6) ||| d]

/-- The loop over the groups from the `n`-th on. -/
def decodeGroups (groups : Nat) : Nat → List Group → List UInt8 → Option (List UInt8)
  | _, [], decoded => some decoded
  | n, group :: rest, decoded =>
    (decodeGroup (n + 1 == groups) group).bind fun bytes =>
      decodeGroups groups (n + 1) rest (decoded ++ bytes)

/-- `str::bytes`. -/
def strBytes (s : String) : List UInt8 := s.toUTF8.data.toList

def decodeBase64Strict (encoded : String) : Option (List UInt8) :=
  let compact := (strBytes encoded).filter fun c => !cIsspace c
  if compact.isEmpty || compact.length % 4 != 0 then none
  else decodeGroups (compact.length / 4) 0 (asChunks compact) []

/-! ## The reply -/

section
variable (fromSlice : List UInt8 → Option Json)

/-- `usize::div_ceil`. -/
def divCeil (a b : Nat) : Nat := if a % b > 0 then a / b + 1 else a / b

def parsePixelConfigResponse (code : Int) (body : List UInt8) (expected : Nat) :
    Except PixelConfigError (List UInt8) :=
  if code ≠ 200 then .error .httpFailure
  else if body.isEmpty then .error .emptyBody
  else
    match parseJson fromSlice body with
    | none => .error .malformedJson
    | some (.string encoded) =>
      if expected = 0 ∨ expected > u64Max - 2 then .error .lengthMismatch
      else
        let characters := (strBytes encoded).countP fun c => !cIsspace c
        if checkedMul (divCeil expected 3) 4 ≠ some characters then .error .lengthMismatch
        else
          match decodeBase64Strict encoded with
          | none => .error .invalidBase64
          | some decoded =>
            if decoded.length ≠ expected then .error .lengthMismatch else .ok decoded
    | some _ => .error .invalidRoot

end

/-! ## The characters -/

theorem base64Value_all : ∀ n < 256,
    (base64Value (UInt8.ofNat n)).all
      (fun v => v.toNat < 64 && digit v.toNat == UInt8.ofNat n) = true := by
  decide +kernel

theorem base64Value_digit : ∀ v < 64, base64Value (digit v) = some (UInt8.ofNat v) := by
  decide +kernel

theorem base64Value_eq_some {c v : UInt8} :
    base64Value c = some v ↔ v.toNat < 64 ∧ c = digit v.toNat := by
  constructor
  · intro h
    have hall := base64Value_all c.toNat c.toNat_lt
    rw [UInt8.ofNat_toNat, h, Option.all_some, Bool.and_eq_true, decide_eq_true_eq,
      beq_iff_eq] at hall
    exact ⟨hall.1, hall.2.symm⟩
  · rintro ⟨hv, rfl⟩
    rw [base64Value_digit _ hv, UInt8.ofNat_toNat]

/-- The white space of the C locale. -/
theorem cIsspace_iff {c : UInt8} : cIsspace c = true ↔ (9 ≤ c.toNat ∧ c.toNat ≤ 13) ∨ c = 32 := by
  have hall : ∀ n < 256, (cIsspace (UInt8.ofNat n) = true ↔
      (9 ≤ n ∧ n ≤ 13) ∨ UInt8.ofNat n = 32) := by
    decide +kernel
  have h := hall c.toNat c.toNat_lt
  rwa [UInt8.ofNat_toNat] at h

theorem cIsspace_encode {b : List UInt8} {c : UInt8} (h : c ∈ encode b) : cIsspace c = false := by
  have hdigit : ∀ v < 64, cIsspace (digit v) = false := by decide +kernel
  rcases mem_encode h with rfl | ⟨v, hv, rfl⟩
  · rfl
  · exact hdigit v hv

/-! ## The bits of a byte -/

/-- The upper bits shifted out, lower bits put in. -/
theorem toNat_shl_or (x y : UInt8) {k : Nat} (hk : k < 8) (hy : y.toNat < 2 ^ k) :
    ((x <<< UInt8.ofNat k) ||| y).toNat = x.toNat % 2 ^ (8 - k) * 2 ^ k + y.toNat := by
  have hshift : (x <<< UInt8.ofNat k).toNat = x.toNat % 2 ^ (8 - k) * 2 ^ k := by
    rw [UInt8.toNat_shiftLeft, UInt8.toNat_ofNat', Nat.shiftLeft_eq,
      Nat.mod_eq_of_lt (by omega : k < 2 ^ 8), Nat.mod_eq_of_lt hk, ← Nat.mul_mod_mul_right,
      ← Nat.pow_add, Nat.sub_add_cancel (by omega)]
  rw [UInt8.toNat_or, hshift, ← Nat.shiftLeft_eq, Nat.shiftLeft_add_eq_or_of_lt hy]

section
variable {a b c d : UInt8}

theorem toNat_first (ha : a.toNat < 64) (hb : b.toNat < 64) :
    ((a <<< 2) ||| (b >>> 4)).toNat = a.toNat * 4 + b.toNat / 16 := by
  have hlow : (b >>> 4).toNat = b.toNat / 16 := by
    rw [UInt8.toNat_shiftRight]
    exact Nat.shiftRight_eq_div_pow _ 4
  have hsum := toNat_shl_or a (b >>> 4) (by decide : 2 < 8) (by rw [hlow]; omega)
  rw [hlow] at hsum
  exact hsum.trans (by omega)

theorem toNat_second (hc : c.toNat < 64) :
    ((b <<< 4) ||| (c >>> 2)).toNat = b.toNat % 16 * 16 + c.toNat / 4 := by
  have hlow : (c >>> 2).toNat = c.toNat / 4 := by
    rw [UInt8.toNat_shiftRight]
    exact Nat.shiftRight_eq_div_pow _ 2
  have hsum := toNat_shl_or b (c >>> 2) (by decide : 4 < 8) (by rw [hlow]; omega)
  rw [hlow] at hsum
  exact hsum

theorem toNat_third (hd : d.toNat < 64) :
    ((c <<< 6) ||| d).toNat = c.toNat % 4 * 64 + d.toNat :=
  toNat_shl_or c d (by decide : 6 < 8) hd

theorem and_eq_zero_iff (x : UInt8) {k : Nat} (hk : k < 8) :
    x &&& UInt8.ofNat (2 ^ k - 1) = 0 ↔ x.toNat % 2 ^ k = 0 := by
  have hpow : 2 ^ k < 2 ^ 8 := Nat.pow_lt_pow_right (by decide) hk
  rw [← UInt8.toNat_inj, UInt8.toNat_and, UInt8.toNat_ofNat', Nat.mod_eq_of_lt (by omega),
    Nat.and_two_pow_sub_one_eq_mod]
  rfl

end

/-! ## Group by group -/

def Group.toList : Group → List UInt8
  | (g0, g1, g2, g3) => [g0, g1, g2, g3]

theorem decodeGroup_sound {last : Bool} {g : Group} {bytes : List UInt8}
    (h : decodeGroup last g = some bytes) :
    encode bytes = g.toList ∧ (last = true ∨ bytes.length = 3) := by
  obtain ⟨g0, g1, g2, g3⟩ := g
  simp only [decodeGroup, Option.bind_eq_bind, Option.bind_eq_some_iff] at h
  obtain ⟨a, hvalueA, b, hvalueB, h⟩ := h
  obtain ⟨ha, rfl⟩ := base64Value_eq_some.1 hvalueA
  obtain ⟨hb, rfl⟩ := base64Value_eq_some.1 hvalueB
  have hfirst := toNat_first ha hb
  split at h
  · next hpad =>
    split at h
    · cases h
    · next hbits =>
      simp only [Bool.or_eq_true, not_or, Bool.not_eq_true', bne_iff_ne, ne_eq, not_not] at hbits
      obtain ⟨⟨hlast, rfl⟩, hzero⟩ := hbits
      obtain rfl := Option.some.inj h
      have hzero := (and_eq_zero_iff b (by decide : 4 < 8)).1 hzero
      rw [hpad]
      exact ⟨encode_one hb hzero hfirst, .inl (by simpa using hlast)⟩
  · simp only [Option.bind_eq_some_iff] at h
    obtain ⟨c, hvalueC, h⟩ := h
    obtain ⟨hc, rfl⟩ := base64Value_eq_some.1 hvalueC
    have hsecond := @toNat_second b c hc
    split at h
    · next hpad =>
      split at h
      · cases h
      · next hbits =>
        simp only [Bool.or_eq_true, not_or, Bool.not_eq_true', bne_iff_ne, ne_eq,
          not_not] at hbits
        obtain ⟨hlast, hzero⟩ := hbits
        obtain rfl := Option.some.inj h
        have hzero := (and_eq_zero_iff c (by decide : 2 < 8)).1 hzero
        rw [hpad]
        exact ⟨encode_two hb hc hzero hfirst hsecond, .inl (by simpa using hlast)⟩
    · simp only [Option.bind_eq_some_iff] at h
      obtain ⟨d, hvalueD, h⟩ := h
      obtain ⟨hd, rfl⟩ := base64Value_eq_some.1 hvalueD
      obtain rfl := Option.some.inj h
      exact ⟨encode_three hb hc hd hfirst hsecond (toNat_third hd), .inr rfl⟩

theorem toNat_value {v : Nat} (hv : v < 64) : (UInt8.ofNat v).toNat = v := by
  rw [UInt8.toNat_ofNat']
  omega

section
variable {a b c d : Nat} {x : UInt8}

theorem first_eq (ha : a < 64) (hb : b < 64) (hx : x.toNat = a * 4 + b / 16) :
    (UInt8.ofNat a <<< 2) ||| (UInt8.ofNat b >>> 4) = x := by
  rw [← UInt8.toNat_inj, toNat_first (by rwa [toNat_value ha]) (by rwa [toNat_value hb]),
    toNat_value ha, toNat_value hb, hx]

theorem second_eq (hb : b < 64) (hc : c < 64) (hx : x.toNat = b % 16 * 16 + c / 4) :
    (UInt8.ofNat b <<< 4) ||| (UInt8.ofNat c >>> 2) = x := by
  rw [← UInt8.toNat_inj, toNat_second (by rwa [toNat_value hc]), toNat_value hb, toNat_value hc,
    hx]

theorem third_eq (hc : c < 64) (hd : d < 64) (hx : x.toNat = c % 4 * 64 + d) :
    (UInt8.ofNat c <<< 6) ||| UInt8.ofNat d = x := by
  rw [← UInt8.toNat_inj, toNat_third (by rwa [toNat_value hd]), toNat_value hc, toNat_value hd, hx]

end

theorem decodeGroup_complete {last : Bool} {g : Group} {bytes : List UInt8}
    (h : encode bytes = g.toList) (hlast : last = true ∨ bytes.length = 3) :
    decodeGroup last g = some bytes := by
  obtain ⟨g0, g1, g2, g3⟩ := g
  match bytes with
  | [] => cases h
  | [x] =>
    have hx := x.toNat_lt
    have hlast : last = true := hlast.resolve_right (by simp)
    obtain ⟨rfl, rfl, rfl, rfl⟩ : _ ∧ _ ∧ _ ∧ _ := by simpa [encode, Group.toList] using h
    have ha : x.toNat / 4 < 64 := by omega
    have hb : x.toNat % 4 * 16 < 64 := by omega
    have hzero : UInt8.ofNat (x.toNat % 4 * 16) &&& 0x0f = 0 :=
      (and_eq_zero_iff _ (by decide : 4 < 8)).2 (by rw [toNat_value hb]; omega)
    have hfirst := @first_eq _ _ x ha hb (by omega)
    simp only [decodeGroup, base64Value_digit _ ha, base64Value_digit _ hb, Option.bind_eq_bind,
      Option.bind_some, hlast, hzero, hfirst]
    rfl
  | [x, y] =>
    have hx := x.toNat_lt
    have hy := y.toNat_lt
    have hlast : last = true := hlast.resolve_right (by simp)
    obtain ⟨rfl, rfl, rfl, rfl⟩ : _ ∧ _ ∧ _ ∧ _ := by simpa [encode, Group.toList] using h
    have ha : x.toNat / 4 < 64 := by omega
    have hb : x.toNat % 4 * 16 + y.toNat / 16 < 64 := by omega
    have hc : y.toNat % 16 * 4 < 64 := by omega
    have hzero : UInt8.ofNat (y.toNat % 16 * 4) &&& 0x03 = 0 :=
      (and_eq_zero_iff _ (by decide : 2 < 8)).2 (by rw [toNat_value hc]; omega)
    have hfirst := @first_eq _ _ x ha hb (by omega)
    have hsecond := @second_eq _ _ y hb hc (by omega)
    have hpad : digit (y.toNat % 16 * 4) ≠ 61 := digit_ne_pad hc
    simp only [decodeGroup, base64Value_digit _ ha, base64Value_digit _ hb,
      base64Value_digit _ hc, Option.bind_eq_bind, Option.bind_some, if_neg hpad, hlast, hzero,
      hfirst, hsecond]
    rfl
  | [x, y, z] =>
    have hx := x.toNat_lt
    have hy := y.toNat_lt
    have hz := z.toNat_lt
    obtain ⟨rfl, rfl, rfl, rfl⟩ : _ ∧ _ ∧ _ ∧ _ := by simpa [encode, Group.toList] using h
    have ha : x.toNat / 4 < 64 := by omega
    have hb : x.toNat % 4 * 16 + y.toNat / 16 < 64 := by omega
    have hc : y.toNat % 16 * 4 + z.toNat / 64 < 64 := by omega
    have hd : z.toNat % 64 < 64 := by omega
    have hfirst := @first_eq _ _ x ha hb (by omega)
    have hsecond := @second_eq _ _ y hb hc (by omega)
    have hthird := @third_eq _ _ z hc hd (by omega)
    have hpad : digit (y.toNat % 16 * 4 + z.toNat / 64) ≠ 61 := digit_ne_pad hc
    have hpad' : digit (z.toNat % 64) ≠ 61 := digit_ne_pad hd
    simp only [decodeGroup, base64Value_digit _ ha, base64Value_digit _ hb,
      base64Value_digit _ hc, base64Value_digit _ hd, Option.bind_eq_bind, Option.bind_some,
      if_neg hpad, if_neg hpad', hfirst, hsecond, hthird]
  | x :: y :: z :: w :: rest =>
    have hlen : (encode (x :: y :: z :: w :: rest)).length = 4 := congrArg List.length h
    rw [length_encode] at hlen
    simp only [List.length_cons] at hlen
    omega

/-! ## The whole text -/

theorem asChunks_flatten (text : List UInt8) (h : text.length % 4 = 0) :
    (asChunks text).flatMap Group.toList = text ∧ (asChunks text).length = text.length / 4 := by
  induction text using asChunks.induct with
  | case1 a b c d rest ih =>
    simp only [List.length_cons] at h
    obtain ⟨hflat, hlen⟩ := ih (by omega)
    refine ⟨?_, ?_⟩
    · rw [asChunks, List.flatMap_cons, hflat]
      rfl
    · simp only [asChunks, List.length_cons, hlen]
      omega
  | case2 text hshort =>
    match text with
    | [] => exact ⟨rfl, rfl⟩
    | [_] => exact absurd h (by simp)
    | [_, _] => exact absurd h (by simp)
    | [_, _, _] => exact absurd h (by simp)
    | a :: b :: c :: d :: rest => exact absurd rfl (hshort a b c d rest)

/-- From the `n`-th group on, the loop adds the bytes whose base64 the groups are. -/
theorem decodeGroups_iff (groups : Nat) (gs : List Group) (n : Nat) (hn : n + gs.length = groups)
    (decoded out : List UInt8) :
    decodeGroups groups n gs decoded = some out ↔
      ∃ b, out = decoded ++ b ∧ encode b = gs.flatMap Group.toList := by
  induction gs generalizing n decoded with
  | nil =>
    rw [decodeGroups, Option.some.injEq, List.flatMap_nil]
    constructor
    · rintro rfl
      exact ⟨[], (List.append_nil _).symm, rfl⟩
    · rintro ⟨b, rfl, hb⟩
      rw [encode_eq_nil.1 hb, List.append_nil]
  | cons g gs ih =>
    rw [List.length_cons] at hn
    have hlast : (n + 1 == groups) = true ↔ gs.flatMap Group.toList = [] := by
      rw [beq_iff_eq]
      cases gs with
      | nil => simp at hn ⊢; omega
      | cons g' gs =>
        rw [List.length_cons] at hn
        simp [Group.toList]
        omega
    rw [decodeGroups, Option.bind_eq_some_iff, List.flatMap_cons]
    constructor
    · rintro ⟨bytes, hbytes, hrest⟩
      obtain ⟨henc, hfull⟩ := decodeGroup_sound hbytes
      obtain ⟨b, rfl, hb⟩ := (ih (n + 1) (by omega) _).1 hrest
      refine ⟨bytes ++ b, List.append_assoc .., (encode_eq_group rfl).2 ?_⟩
      exact ⟨bytes, b, rfl, henc, hb, hfull.imp_left hlast.1⟩
    · rintro ⟨b, rfl, hb⟩
      obtain ⟨bytes, rest, rfl, henc, hrest, hfull⟩ := (encode_eq_group rfl).1 hb
      refine ⟨bytes, decodeGroup_complete henc (hfull.imp_left hlast.2), ?_⟩
      exact (ih (n + 1) (by omega) _).2 ⟨rest, (List.append_assoc ..).symm, hrest⟩

theorem decodeBase64Strict_iff {t : String} {b : List UInt8} :
    decodeBase64Strict t = some b ↔
      b ≠ [] ∧ (strBytes t).filter (fun c => !cIsspace c) = encode b := by
  unfold decodeBase64Strict
  generalize (strBytes t).filter (fun c => !cIsspace c) = compact
  dsimp only
  split
  · next hrefused =>
    constructor
    · intro h
      cases h
    · rintro ⟨hne, rfl⟩
      rw [Bool.or_eq_true, List.isEmpty_iff, encode_eq_nil, bne_iff_ne, length_encode] at hrefused
      exact absurd hrefused (not_or.2 ⟨hne, not_not.2 (by omega)⟩)
  · next hpassed =>
    simp only [Bool.or_eq_true, List.isEmpty_iff, bne_iff_ne, not_or, not_not] at hpassed
    obtain ⟨hne, hmod⟩ := hpassed
    obtain ⟨hflat, hlen⟩ := asChunks_flatten compact hmod
    rw [decodeGroups_iff _ _ 0 (by omega), hflat]
    constructor
    · rintro ⟨b, rfl, hb⟩
      exact ⟨fun hnil => hne (by rw [← hb, show b = [] from hnil]; rfl), hb.symm⟩
    · rintro ⟨-, hb⟩
      exact ⟨b, rfl, hb.symm⟩

/-! ## The reply -/

section
variable {fromSlice : List UInt8 → Option Json} {body b : List UInt8} {t : String} {n : Nat}

theorem divCeil_three (n : Nat) : divCeil n 3 = (n + 2) / 3 := by
  unfold divCeil
  split <;> omega

/-- The characters counted beforehand are those of any text that decodes to `n` bytes. -/
theorem characters_of_decode (hdecode : decodeBase64Strict t = some b) :
    (strBytes t).countP (fun c => !cIsspace c) = (b.length + 2) / 3 * 4 := by
  rw [List.countP_eq_length_filter, (decodeBase64Strict_iff.1 hdecode).2, length_encode]

theorem parsePixelConfigResponse_ok (hempty : fromSlice [] = none)
    (hlen : (strBytes t).length ≤ Faults.isizeMax)
    (hparse : parseJson fromSlice body = some (.string t)) :
    parsePixelConfigResponse fromSlice 200 body n = .ok b ↔
      decodeBase64Strict t = some b ∧ b.length = n ∧ 0 < n := by
  have hbody : body.isEmpty = false := by
    cases body with
    | nil =>
      have hnone : parseJson fromSlice [] = none := hempty
      rw [hnone] at hparse
      cases hparse
    | cons c body => rfl
  unfold parsePixelConfigResponse
  rw [if_neg (by decide), hbody, if_neg Bool.false_ne_true, hparse]
  dsimp only
  constructor
  · intro h
    split at h
    · cases h
    · next hrange =>
      split at h
      · cases h
      · cases hdecode : decodeBase64Strict t with
        | none =>
          rw [hdecode] at h
          cases h
        | some decoded =>
          rw [hdecode] at h
          dsimp only at h
          split at h
          · cases h
          · next hlength =>
            obtain rfl := Except.ok.inj h
            exact ⟨rfl, by omega, by omega⟩
  · rintro ⟨hdecode, rfl, hpos⟩
    have hcharacters := characters_of_decode hdecode
    have hcount := List.countP_le_length (p := fun c => !cIsspace c) (l := strBytes t)
    have hfits : (b.length + 2) / 3 * 4 ≤ 9223372036854775807 :=
      hcharacters.symm.trans_le (hcount.trans hlen)
    have hexpected : checkedMul (divCeil b.length 3) 4 =
        some ((strBytes t).countP fun c => !cIsspace c) := by
      rw [divCeil_three, hcharacters]
      exact checkedMul_eq_some.2 ⟨by unfold u64Max; omega, rfl⟩
    rw [if_neg (by unfold u64Max; omega), if_neg (not_not.2 hexpected), hdecode]
    exact if_neg (not_not.2 rfl)

end

/-- What decodes are the texts that are the base64 of some bytes with white space in between, and a
reply is accepted if it is the JSON string of one, of as many bytes as are expected. -/
theorem strict_base64 :
    (∀ (b : List UInt8) (t : String), b ≠ [] → Inserted cIsspace (encode b) (strBytes t) →
      decodeBase64Strict t = some b) ∧
    (∀ (t : String) (b : List UInt8), decodeBase64Strict t = some b →
      (strBytes t).filter (fun c => !cIsspace c) = encode b) ∧
    (∀ c : UInt8, cIsspace c = true ↔ (9 ≤ c.toNat ∧ c.toNat ≤ 13) ∨ c = 32) ∧
    ∀ (fromSlice : List UInt8 → Option Json) (body : List UInt8) (t : String) (n : Nat)
      (b : List UInt8), fromSlice [] = none → (strBytes t).length ≤ Faults.isizeMax →
      parseJson fromSlice body = some (.string t) →
      (parsePixelConfigResponse fromSlice 200 body n = .ok b ↔
        decodeBase64Strict t = some b ∧ b.length = n ∧ 0 < n) := by
  refine ⟨fun b t hb hinserted => ?_, fun t b h => (decodeBase64Strict_iff.1 h).2,
    fun c => cIsspace_iff, fun fromSlice body t n b hempty hlen hparse => ?_⟩
  · exact decodeBase64Strict_iff.2 ⟨hb, hinserted.filter_eq fun c hc => cIsspace_encode hc⟩
  · exact parsePixelConfigResponse_ok hempty hlen hparse

/-- A byte with padding and a line break, and the reply `"/w=="`. -/
theorem strict_base64_oneByte :
    decodeBase64Strict "/w\n==" = some [255] ∧
      parsePixelConfigResponse
          (fun text => if text = strBytes "\"/w==\"" then some (.string "/w==") else none) 200
          (strBytes "\"/w==\"") 1 = .ok [255] := by
  have h := strict_base64
  have hdecode : decodeBase64Strict "/w==" = some [255] :=
    h.1 [255] "/w==" (by decide)
      (.keep _ (.keep _ (.keep _ (.keep _ .nil))))
  refine ⟨h.1 [255] "/w\n==" (by decide)
    (.keep _ (.keep _ (.insert rfl (.keep _ (.keep _ .nil))))), ?_⟩
  exact (h.2.2.2 _ _ "/w==" 1 [255] (if_neg (by decide)) (by decide)
    ((if_neg (by decide)).trans (if_pos rfl))).2
    ⟨hdecode, rfl, by decide⟩

end TimePix
