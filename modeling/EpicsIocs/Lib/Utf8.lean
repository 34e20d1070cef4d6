import Mathlib.Data.List.Basic

/-!
# UTF-8 behind ASCII

Bytes that are valid UTF-8.  ASCII in front does not matter (`valid_append`), and no text starts with
a continuation byte (`not_valid_continuation`).
-/

namespace Utf8

def Valid (bytes : List UInt8) : Prop := ByteArray.IsValidUTF8 ⟨bytes.toArray⟩

instance (bytes : List UInt8) : Decidable (Valid bytes) :=
  inferInstanceAs (Decidable (ByteArray.IsValidUTF8 _))

def Ascii (bytes : List UInt8) : Prop := ∀ b ∈ bytes, b < 128

variable {b : UInt8} {l bytes : List UInt8}

theorem isSome_fromUTF8? (bytes : List UInt8) :
    (String.fromUTF8? ⟨bytes.toArray⟩).isSome = true ↔ Valid bytes := by
  rw [String.fromUTF8?]
  split
  · rename_i h
    exact iff_of_true rfl h
  · rename_i h
    exact iff_of_false (by simp) h

theorem utf8Encode_ascii (h : b < 128) :
    [Char.ofNat b.toNat].utf8Encode = ⟨[b].toArray⟩ := by
  have hall : ∀ n < 128, [Char.ofNat n].utf8Encode = ⟨[UInt8.ofNat n].toArray⟩ := by decide
  have hb := hall b.toNat (UInt8.lt_iff_toNat_lt.1 h)
  rwa [UInt8.ofNat_toNat] at hb

theorem valid_cons (h : b < 128) : Valid (b :: bytes) ↔ Valid bytes := by
  have happend : (⟨(b :: bytes).toArray⟩ : ByteArray) =
      [Char.ofNat b.toNat].utf8Encode ++ ⟨bytes.toArray⟩ := by
    rw [utf8Encode_ascii h]
    ext1
    simp
  rw [Valid, happend]
  exact ByteArray.isValidUTF8_utf8Encode_singleton_append_iff

theorem valid_append (h : Ascii l) : Valid (l ++ bytes) ↔ Valid bytes := by
  induction l with
  | nil => rfl
  | cons b l ih =>
    obtain ⟨hb, hl⟩ := List.forall_mem_cons.1 h
    rw [List.cons_append, valid_cons hb]
    exact ih hl

theorem valid_nil : Valid [] := ByteArray.isValidUTF8_empty

theorem valid_of_ascii (h : Ascii l) : Valid l := by
  have happend := (@valid_append l [] h).2 valid_nil
  rwa [List.append_nil] at happend

theorem not_valid_continuation : ¬ Valid (0x80 :: bytes) := by
  intro h
  have hfirst : UInt8.IsUTF8FirstByte 0x80 :=
    ByteArray.IsValidUTF8.isUTF8FirstByte_getElem_zero h (Nat.succ_pos _)
  revert hfirst
  decide

end Utf8
