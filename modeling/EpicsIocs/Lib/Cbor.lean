import EpicsIocs.Lib.Bytes

/-!
# Well-formed CBOR

The encodings of RFC 8949 as relations, so that every width of an argument and every
cutting of a string is one: `Head major n bytes` is an initial byte with its argument,
`Str major content bytes` a string in one piece or in chunks, `Item bytes` any
well-formed data item, `Items n bytes` `n` of them.
-/

namespace Cbor

open Bytes

def majorUint : Nat := 0
def majorNegative : Nat := 1
def majorBytes : Nat := 2
def majorText : Nat := 3
def majorArray : Nat := 4
def majorMap : Nat := 5
def majorTag : Nat := 6
def majorSimple : Nat := 7

def initial (major info : Nat) : UInt8 := UInt8.ofNat (major * 32 + info)

/-- Ends what has no length in front. -/
def breakByte : UInt8 := 0xff

/-- The additional information and the bytes behind it that say `n`. -/
inductive Arg : Nat → Nat → List UInt8 → Prop
  | direct {n : Nat} : n < 24 → Arg n n []
  | wide {n : Nat} (k : Nat) : k ≤ 3 → n < 256 ^ 2 ^ k → Arg n (24 + k) (beBytes (2 ^ k) n)

inductive Head (major n : Nat) : List UInt8 → Prop
  | mk {info : Nat} {arg : List UInt8} : Arg n info arg → Head major n (initial major info :: arg)

/-- Strings of known length, one behind the other. -/
inductive Chunks (major : Nat) : List UInt8 → List UInt8 → Prop
  | nil : Chunks major [] []
  | cons {chunk head content bytes : List UInt8} : Head major chunk.length head →
      Chunks major content bytes → Chunks major (chunk ++ content) (head ++ (chunk ++ bytes))

inductive Str (major : Nat) : List UInt8 → List UInt8 → Prop
  | definite {content head : List UInt8} : Head major content.length head →
      Str major content (head ++ content)
  | chunked {content bytes : List UInt8} : Chunks major content bytes →
      Str major content (initial major 31 :: (bytes ++ [breakByte]))

mutual

inductive Item : List UInt8 → Prop
  | integer {major n : Nat} {head : List UInt8} : major = majorUint ∨ major = majorNegative →
      Head major n head → Item head
  | string {major : Nat} {content bytes : List UInt8} : major = majorBytes ∨ major = majorText →
      Str major content bytes → Item bytes
  | array {n : Nat} {head body : List UInt8} : Head majorArray n head → Items n body →
      Item (head ++ body)
  | arrayUntilBreak {n : Nat} {body : List UInt8} : Items n body →
      Item (initial majorArray 31 :: (body ++ [breakByte]))
  | map {n : Nat} {head body : List UInt8} : Head majorMap n head → Items (n * 2) body →
      Item (head ++ body)
  | mapUntilBreak {n : Nat} {body : List UInt8} : Items (n * 2) body →
      Item (initial majorMap 31 :: (body ++ [breakByte]))
  | tag {n : Nat} {head body : List UInt8} : Head majorTag n head → Item body →
      Item (head ++ body)
  | simple {n : Nat} {head : List UInt8} : Head majorSimple n head → Item head

/-- So many items, one behind the other. -/
inductive Items : Nat → List UInt8 → Prop
  | nil : Items 0 []
  | cons {n : Nat} {item items : List UInt8} : Item item → Items n items →
      Items (n + 1) (item ++ items)

end

/-- Any number of tags. -/
inductive Tags : List UInt8 → Prop
  | nil : Tags []
  | cons {n : Nat} {head tags : List UInt8} : Head majorTag n head → Tags tags →
      Tags (head ++ tags)

/-! ## Initial bytes -/

/-- The major type in the initial byte. -/
def major (b : UInt8) : Nat := (b >>> 5).toNat

/-- The additional information in it. -/
def info (b : UInt8) : Nat := (b &&& 0x1f).toNat

theorem major_initial {m i : Nat} (hm : m < 8) (hi : i < 32) : major (initial m i) = m := by
  have hlt : m * 32 + i < 256 := by omega
  simp only [major, initial, UInt8.toNat_shiftRight, UInt8.toNat_ofNat', Nat.shiftRight_eq_div_pow]
  show (m * 32 + i) % 2 ^ 8 / 2 ^ 5 = m
  omega

theorem info_initial {m i : Nat} (hm : m < 8) (hi : i < 32) : info (initial m i) = i := by
  have hlt : m * 32 + i < 256 := by omega
  simp only [info, initial, UInt8.toNat_and, UInt8.toNat_ofNat']
  show (m * 32 + i) % 2 ^ 8 &&& (2 ^ 5 - 1) = i
  rw [Nat.and_two_pow_sub_one_eq_mod]
  omega

theorem initial_ne_break {m i : Nat} (hm : m < 8) (hi : i < 31) : initial m i ≠ breakByte := by
  intro heq
  have hinfo := info_initial hm (Nat.lt_succ_of_lt hi)
  rw [heq] at hinfo
  have hbreak : info breakByte = 31 := by decide
  omega

theorem Arg.info_lt {n i : Nat} {arg : List UInt8} (h : Arg n i arg) : i < 28 := by
  cases h <;> omega

theorem Arg.lt {n i : Nat} {arg : List UInt8} (h : Arg n i arg) : n < 2 ^ 64 := by
  cases h with
  | direct hn => omega
  | wide k hk hn =>
    calc n < 256 ^ 2 ^ k := hn
      _ ≤ 256 ^ 2 ^ 3 := Nat.pow_le_pow_right (by decide) (Nat.pow_le_pow_right (by decide) hk)
      _ = 2 ^ 64 := by decide

theorem Head.lt {major n : Nat} {head : List UInt8} (h : Head major n head) : n < 2 ^ 64 := by
  cases h with
  | mk harg => exact harg.lt

theorem Head.length_pos {major n : Nat} {head : List UInt8} (h : Head major n head) :
    0 < head.length := by
  cases h
  exact Nat.succ_pos _

/-- An item begins with a byte other than the break. -/
def Opens (bytes : List UInt8) : Prop := ∃ b rest, bytes = b :: rest ∧ b ≠ breakByte

theorem Opens.append {bytes : List UInt8} (h : Opens bytes) (more : List UInt8) :
    Opens (bytes ++ more) := by
  obtain ⟨b, rest, rfl, hb⟩ := h
  exact ⟨b, rest ++ more, rfl, hb⟩

theorem Opens.length_pos {bytes : List UInt8} (h : Opens bytes) : 0 < bytes.length := by
  obtain ⟨b, rest, rfl, -⟩ := h
  exact Nat.succ_pos _

theorem Head.opens {major n : Nat} {head : List UInt8} (h : Head major n head) (hm : major < 8) :
    Opens head := by
  cases h with
  | mk harg => exact ⟨_, _, rfl, initial_ne_break hm (by have := harg.info_lt; omega)⟩

theorem Str.opens {major : Nat} {content bytes : List UInt8} (h : Str major content bytes)
    (hm : major < 7) : Opens bytes := by
  cases h with
  | definite hhead => exact (hhead.opens (by omega)).append _
  | chunked _ =>
    refine ⟨_, _, rfl, fun heq => ?_⟩
    have hmajor := major_initial (by omega : major < 8) (by decide : 31 < 32)
    rw [heq] at hmajor
    have hbreak : Cbor.major breakByte = 7 := by decide
    omega

theorem Item.opens {bytes : List UInt8} (h : Item bytes) : Opens bytes := by
  cases h with
  | integer hmajor hhead =>
    exact hhead.opens (by rcases hmajor with rfl | rfl <;> decide)
  | string hmajor hstr => exact hstr.opens (by rcases hmajor with rfl | rfl <;> decide)
  | array hhead _ => exact (hhead.opens (by decide)).append _
  | arrayUntilBreak _ => exact ⟨_, _, rfl, by decide⟩
  | map hhead _ => exact (hhead.opens (by decide)).append _
  | mapUntilBreak _ => exact ⟨_, _, rfl, by decide⟩
  | tag hhead _ => exact (hhead.opens (by decide)).append _
  | simple hhead => exact hhead.opens (by decide)

/-- Every item takes a byte. -/
theorem Items.le_length {n : Nat} {bytes : List UInt8} (h : Items n bytes) : n ≤ bytes.length := by
  induction n generalizing bytes with
  | zero => exact Nat.zero_le _
  | succ n ih =>
    cases h with
    | cons hitem hitems =>
      have hpos := hitem.opens.length_pos
      have hrest := ih hitems
      rw [List.length_append]
      omega

/-! ## Tags in front -/

/-- The initial byte is not that of a tag. -/
def Untagged (bytes : List UInt8) : Prop := ∃ b rest, bytes = b :: rest ∧ major b ≠ majorTag

theorem Untagged.append {bytes : List UInt8} (h : Untagged bytes) (more : List UInt8) :
    Untagged (bytes ++ more) := by
  obtain ⟨b, rest, rfl, hb⟩ := h
  exact ⟨b, rest ++ more, rfl, hb⟩

theorem Untagged.initial {m i : Nat} (hm : m < 8) (hi : i < 32) (hne : m ≠ majorTag)
    (rest : List UInt8) : Untagged (initial m i :: rest) :=
  ⟨_, _, rfl, by rwa [major_initial hm hi]⟩

theorem Head.untagged {major n : Nat} {head : List UInt8} (h : Head major n head) (hm : major < 8)
    (hne : major ≠ majorTag) : Untagged head := by
  cases h with
  | mk harg =>
    have hlt := harg.info_lt
    exact Untagged.initial hm (by omega) hne _

theorem Str.untagged {major : Nat} {content bytes : List UInt8} (h : Str major content bytes)
    (hm : major < 6) : Untagged bytes := by
  have hne : major ≠ majorTag := Nat.ne_of_lt hm
  cases h with
  | definite hhead => exact (hhead.untagged (by omega) hne).append _
  | chunked _ => exact Untagged.initial (by omega) (by decide) hne _

/-- Every item is one without tags behind tags. -/
theorem Item.split {bytes : List UInt8} (h : Item bytes) :
    ∃ tags core, bytes = tags ++ core ∧ Tags tags ∧ Item core ∧ Untagged core := by
  induction hlen : bytes.length using Nat.strong_induction_on generalizing bytes with
  | _ length ih =>
    have hself : Untagged bytes → ∃ tags core, bytes = tags ++ core ∧ Tags tags ∧ Item core ∧
        Untagged core := fun hcore => ⟨[], bytes, rfl, .nil, h, hcore⟩
    cases h with
    | integer hm hhead =>
      exact hself (hhead.untagged (by rcases hm with rfl | rfl <;> decide)
        (by rcases hm with rfl | rfl <;> decide))
    | string hm hstr => exact hself (hstr.untagged (by rcases hm with rfl | rfl <;> decide))
    | array hhead _ => exact hself ((hhead.untagged (by decide) (by decide)).append _)
    | arrayUntilBreak _ => exact hself (Untagged.initial (by decide) (by decide) (by decide) _)
    | map hhead _ => exact hself ((hhead.untagged (by decide) (by decide)).append _)
    | mapUntilBreak _ => exact hself (Untagged.initial (by decide) (by decide) (by decide) _)
    | @tag n head body hhead hitem =>
      have hpos := hhead.length_pos
      rw [List.length_append] at hlen
      obtain ⟨tags, core, rfl, htags, hcore, huntagged⟩ := ih body.length (by omega) hitem rfl
      exact ⟨head ++ tags, core, (List.append_assoc _ _ _).symm, .cons hhead htags, hcore,
        huntagged⟩
    | simple hhead => exact hself (hhead.untagged (by decide) (by decide))

theorem Tags.append {a b : List UInt8} (ha : Tags a) (hb : Tags b) : Tags (a ++ b) := by
  induction ha with
  | nil => exact hb
  | cons hhead _ ih =>
    rw [List.append_assoc]
    exact .cons hhead ih

end Cbor
