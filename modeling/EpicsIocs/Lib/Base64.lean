import Mathlib.Data.List.Basic

/-!
# Base64

`encode` writes three bytes as four characters of the standard alphabet; one or two bytes at the end
take `pad` for the characters they lack.  A text is read group by group of four (`encode_eq_group`),
and characters put in between are found by what they are (`Inserted.filter_eq`).
-/

namespace Base64

/-- The character of six bits. -/
def digit (v : Nat) : UInt8 :=
  UInt8.ofNat (if v < 26 then 65 + v else if v < 52 then 71 + v else if v < 62 then v - 4
    else if v = 62 then 43 else 47)

/-- `=`. -/
def pad : UInt8 := 61

def encode : List UInt8 → List UInt8
  | x :: y :: z :: rest =>
    digit (x.toNat / 4) :: digit (x.toNat % 4 * 16 + y.toNat / 16) ::
      digit (y.toNat % 16 * 4 + z.toNat / 64) :: digit (z.toNat % 64) :: encode rest
  | [x, y] =>
    [digit (x.toNat / 4), digit (x.toNat % 4 * 16 + y.toNat / 16), digit (y.toNat % 16 * 4), pad]
  | [x] => [digit (x.toNat / 4), digit (x.toNat % 4 * 16), pad, pad]
  | [] => []

theorem digit_ne_pad {v : Nat} (hv : v < 64) : digit v ≠ pad := by
  revert v
  decide

theorem length_encode (b : List UInt8) : (encode b).length = (b.length + 2) / 3 * 4 := by
  induction b using encode.induct with
  | case1 x y z rest ih =>
    show (encode rest).length + 4 = (rest.length + 3 + 2) / 3 * 4
    omega
  | case2 x y => simp [encode]
  | case3 x => simp [encode]
  | case4 => rfl

theorem encode_eq_nil {b : List UInt8} : encode b = [] ↔ b = [] := by
  rw [← List.length_eq_zero_iff, length_encode, ← List.length_eq_zero_iff]
  omega

/-! ### By the values of the characters -/

section
variable {a b c d : Nat} {x y z : UInt8}

theorem encode_one (hb : b < 64) (hbits : b % 16 = 0) (hx : x.toNat = a * 4 + b / 16) :
    encode [x] = [digit a, digit b, pad, pad] := by
  have ha : x.toNat / 4 = a := by omega
  have hb : x.toNat % 4 * 16 = b := by omega
  rw [encode, ha, hb]

theorem encode_two (hb : b < 64) (hc : c < 64) (hbits : c % 4 = 0) (hx : x.toNat = a * 4 + b / 16)
    (hy : y.toNat = b % 16 * 16 + c / 4) :
    encode [x, y] = [digit a, digit b, digit c, pad] := by
  have ha : x.toNat / 4 = a := by omega
  have hb : x.toNat % 4 * 16 + y.toNat / 16 = b := by omega
  have hc : y.toNat % 16 * 4 = c := by omega
  rw [encode, ha, hb, hc]

theorem encode_three (hb : b < 64) (hc : c < 64) (hd : d < 64) (hx : x.toNat = a * 4 + b / 16)
    (hy : y.toNat = b % 16 * 16 + c / 4) (hz : z.toNat = c % 4 * 64 + d) :
    encode [x, y, z] = [digit a, digit b, digit c, digit d] := by
  have ha : x.toNat / 4 = a := by omega
  have hb : x.toNat % 4 * 16 + y.toNat / 16 = b := by omega
  have hc : y.toNat % 16 * 4 + z.toNat / 64 = c := by omega
  have hd : z.toNat % 64 = d := by omega
  rw [encode, ha, hb, hc, hd, encode]

end

theorem encode_append {group : List UInt8} (h : group.length = 3) (b : List UInt8) :
    encode (group ++ b) = encode group ++ encode b := by
  obtain ⟨x, y, z, rfl⟩ := List.length_eq_three.1 h
  rfl

theorem mem_encode {b : List UInt8} {c : UInt8} (h : c ∈ encode b) :
    c = pad ∨ ∃ v < 64, c = digit v := by
  induction b using encode.induct with
  | case1 x y z rest ih =>
    simp only [encode, List.mem_cons] at h
    have hx := x.toNat_lt
    have hy := y.toNat_lt
    have hz := z.toNat_lt
    rcases h with h | h | h | h | h
    · exact .inr ⟨_, by omega, h⟩
    · exact .inr ⟨_, by omega, h⟩
    · exact .inr ⟨_, by omega, h⟩
    · exact .inr ⟨_, by omega, h⟩
    · exact ih h
  | case2 x y =>
    simp only [encode, List.mem_cons, List.not_mem_nil, or_false] at h
    have hx := x.toNat_lt
    have hy := y.toNat_lt
    rcases h with h | h | h | h
    · exact .inr ⟨_, by omega, h⟩
    · exact .inr ⟨_, by omega, h⟩
    · exact .inr ⟨_, by omega, h⟩
    · exact .inl h
  | case3 x =>
    simp only [encode, List.mem_cons, List.not_mem_nil, or_false] at h
    have hx := x.toNat_lt
    rcases h with h | h | h | h
    · exact .inr ⟨_, by omega, h⟩
    · exact .inr ⟨_, by omega, h⟩
    · exact .inl h
    · exact .inl h
  | case4 => exact absurd h List.not_mem_nil

/-- The bytes of the first group and those of the rest, where only the last group is short. -/
theorem encode_eq_group {b group tail : List UInt8} (hgroup : group.length = 4) :
    encode b = group ++ tail ↔ ∃ first rest, b = first ++ rest ∧ encode first = group ∧
      encode rest = tail ∧ (tail = [] ∨ first.length = 3) := by
  constructor
  · intro h
    match b with
    | [] =>
      have hlen : (encode []).length = (group ++ tail).length := congrArg List.length h
      rw [List.length_append, hgroup, encode, List.length_nil] at hlen
      omega
    | [x] =>
      have hcut : encode [x] ++ [] = group ++ tail := by rw [List.append_nil, h]
      obtain ⟨hfirst, htail⟩ := List.append_inj hcut hgroup.symm
      exact ⟨[x], [], rfl, hfirst, htail, .inl htail.symm⟩
    | [x, y] =>
      have hcut : encode [x, y] ++ [] = group ++ tail := by rw [List.append_nil, h]
      obtain ⟨hfirst, htail⟩ := List.append_inj hcut hgroup.symm
      exact ⟨[x, y], [], rfl, hfirst, htail, .inl htail.symm⟩
    | x :: y :: z :: rest =>
      have hcut : encode [x, y, z] ++ encode rest = group ++ tail := h
      obtain ⟨hfirst, htail⟩ := List.append_inj hcut hgroup.symm
      exact ⟨[x, y, z], rest, rfl, hfirst, htail, .inr rfl⟩
  · rintro ⟨first, rest, rfl, rfl, rfl, hlast⟩
    rcases hlast with htail | hfirst
    · rw [htail, encode_eq_nil.1 htail, List.append_nil, List.append_nil]
    · exact encode_append hfirst rest

/-! ## Characters put in between -/

section
variable {α : Type} {p : α → Bool} {text t : List α}

/-- A text with elements of a kind put in anywhere. -/
inductive Inserted (p : α → Bool) : List α → List α → Prop
  | nil : Inserted p [] []
  | keep {text t : List α} (c : α) (h : Inserted p text t) : Inserted p (c :: text) (c :: t)
  | insert {text t : List α} {c : α} (hc : p c = true) (h : Inserted p text t) :
    Inserted p text (c :: t)

theorem Inserted.filter_eq (h : Inserted p text t) (htext : ∀ c ∈ text, p c = false) :
    t.filter (fun c => !p c) = text := by
  induction h with
  | nil => rfl
  | keep c h ih =>
    obtain ⟨hc, hrest⟩ := List.forall_mem_cons.1 htext
    rw [List.filter_cons_of_pos (by simp [hc]), ih hrest]
  | insert hc h ih => rw [List.filter_cons_of_neg (by simp [hc]), ih htext]

end

end Base64
