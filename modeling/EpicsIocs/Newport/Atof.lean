import EpicsIocs.Lib.Text

/-! # Numbers of the Newport drivers

`atof` (`util.rs`) finds where a number at the start of a text ends, and gives it to `parse`, the
standard library's.  Of a number as a controller prints it, it finds all:

    atofPrefix x.text = x.text                                    (atofPrefix_text) -/

namespace Newport

open Text

/-- A sign at the start of a text, and the rest. -/
def signOff : List Char → List Char × List Char
  | '+' :: text => (['+'], text)
  | '-' :: text => (['-'], text)
  | text => ([], text)

/-- The exponent at the start of a text, if it has digits. -/
def exponentOff : List Char → List Char
  | [] => []
  | e :: text =>
    if e = 'e' ∨ e = 'E' then
      let (sign, text) := signOff text
      let digits := text.takeWhile Char.isDigit
      if digits = [] then [] else e :: (sign ++ digits)
    else []

/-- The point at the start of a text with the digits behind it, and the rest. -/
def fractionOff : List Char → List Char × List Char
  | '.' :: text => ('.' :: text.takeWhile Char.isDigit, text.dropWhile Char.isDigit)
  | text => ([], text)

/-- How far the number goes. -/
def atofPrefix (text : List Char) : List Char :=
  let (sign, text) := signOff text
  let (fraction, rest) := fractionOff (text.dropWhile Char.isDigit)
  sign ++ (text.takeWhile Char.isDigit ++ (fraction ++ exponentOff rest))

def atof {F : Type} [Zero F] (parse : List Char → Option F) (text : List Char) : F :=
  (parse (atofPrefix (text.dropWhile isWhitespace))).getD 0

/-! ## Printed numbers -/

/-- A number as it is printed: digits, digits behind a point, and an exponent. -/
structure Printed where
  negative : Bool
  first : Fin 10
  whole : List (Fin 10)
  fraction : Option (List (Fin 10))
  exponent : Option (Option Bool × Fin 10 × List (Fin 10))
  deriving DecidableEq, Repr

def digitChar (d : Fin 10) : Char := Char.ofNat (48 + d.val)

namespace Printed

def fractionText (x : Printed) : List Char :=
  (x.fraction.map fun digits => '.' :: digits.map digitChar).getD []

def signText : Option Bool → List Char
  | none => []
  | some true => ['-']
  | some false => ['+']

def exponentText (x : Printed) : List Char :=
  (x.exponent.map fun (sign, d, digits) =>
    'e' :: (signText sign ++ (d :: digits).map digitChar)).getD []

def text (x : Printed) : List Char :=
  (if x.negative then ['-'] else []) ++
    ((x.first :: x.whole).map digitChar ++ (x.fractionText ++ x.exponentText))

/-- A number without point, exponent or sign. -/
def natural (first : Nat) (whole : List Nat) : Printed where
  negative := false
  first := Fin.ofNat 10 first
  whole := whole.map (Fin.ofNat 10)
  fraction := none
  exponent := none

/-- From the first digit that is not 0 on. -/
def significant (x : Printed) : Nat :=
  ((x.first :: x.whole ++ x.fraction.getD []).dropWhile (· = 0)).length

end Printed

theorem isDigit_digitChar (d : Fin 10) : (digitChar d).isDigit = true := by
  revert d
  decide

/-- No digit is a sign. -/
theorem digitChar_ne (d : Fin 10) : digitChar d ≠ '+' ∧ digitChar d ≠ '-' := by
  revert d
  decide

theorem all_isDigit (digits : List (Fin 10)) : ∀ c ∈ digits.map digitChar, c.isDigit = true := by
  intro c hc
  obtain ⟨d, -, rfl⟩ := List.mem_map.1 hc
  exact isDigit_digitChar d

/-- Digits are taken up to something else. -/
theorem takeWhile_digits (digits : List (Fin 10)) {rest : List Char}
    (h : ∀ c ∈ rest.head?, c.isDigit = false) :
    (digits.map digitChar ++ rest).takeWhile Char.isDigit = digits.map digitChar ∧
      (digits.map digitChar ++ rest).dropWhile Char.isDigit = rest := by
  have hrest : rest.takeWhile Char.isDigit = [] ∧ rest.dropWhile Char.isDigit = rest := by
    cases rest with
    | nil => exact ⟨rfl, rfl⟩
    | cons c rest =>
      have hc := h c rfl
      exact ⟨List.takeWhile_cons_of_neg (by rw [hc]; decide),
        List.dropWhile_cons_of_neg (by rw [hc]; decide)⟩
  rw [List.takeWhile_append_of_pos (all_isDigit digits),
    List.dropWhile_append_of_pos (all_isDigit digits), hrest.1, hrest.2, List.append_nil]
  exact ⟨rfl, rfl⟩

theorem signOff_digits (d : Fin 10) (text : List Char) :
    signOff (digitChar d :: text) = ([], digitChar d :: text) := by
  obtain ⟨hplus, hminus⟩ := digitChar_ne d
  unfold signOff
  split
  · rename_i heq
    exact absurd (List.cons.inj heq).1 hplus
  · rename_i heq
    exact absurd (List.cons.inj heq).1 hminus
  · rfl

namespace Printed

variable (x : Printed)

theorem exponentOff_text : exponentOff x.exponentText = x.exponentText := by
  unfold exponentText
  cases hexp : x.exponent with
  | none => rfl
  | some e =>
    obtain ⟨sign, d, digits⟩ := e
    have hsign : signOff (signText sign ++ (d :: digits).map digitChar) =
        (signText sign, (d :: digits).map digitChar) := by
      cases sign with
      | none => exact signOff_digits d _
      | some negative => cases negative <;> rfl
    have hdigits := (@takeWhile_digits (d :: digits) [] (by simp)).1
    rw [List.append_nil] at hdigits
    show exponentOff ('e' :: (signText sign ++ (d :: digits).map digitChar)) = _
    rw [exponentOff, if_pos (Or.inl rfl), hsign]
    dsimp only
    rw [hdigits, if_neg (by simp)]
    rfl

/-- What is behind the digits does not begin with one. -/
theorem exponentText_head : ∀ c ∈ x.exponentText.head?, c.isDigit = false := by
  intro c hc
  unfold exponentText at hc
  cases hexp : x.exponent with
  | none =>
    rw [hexp] at hc
    cases hc
  | some e =>
    rw [hexp] at hc
    obtain rfl := Option.some.inj hc
    decide

theorem fractionOff_text :
    fractionOff (x.fractionText ++ x.exponentText) = (x.fractionText, x.exponentText) := by
  unfold fractionText
  cases hfraction : x.fraction with
  | none =>
    show fractionOff x.exponentText = ([], x.exponentText)
    unfold exponentText
    cases x.exponent with
    | none => rfl
    | some e => rfl
  | some digits =>
    obtain ⟨htake, hdrop⟩ := takeWhile_digits digits x.exponentText_head
    show fractionOff ('.' :: (digits.map digitChar ++ x.exponentText)) = _
    rw [fractionOff, htake, hdrop]
    rfl

theorem fraction_head : ∀ c ∈ (x.fractionText ++ x.exponentText).head?, c.isDigit = false := by
  unfold fractionText
  cases hfraction : x.fraction with
  | none => exact x.exponentText_head
  | some digits =>
    intro c hc
    obtain rfl := Option.some.inj hc
    decide

theorem atofPrefix_text : atofPrefix x.text = x.text := by
  obtain ⟨htake, hdrop⟩ := takeWhile_digits (x.first :: x.whole) x.fraction_head
  have hsign : signOff x.text = (if x.negative then ['-'] else [],
      (x.first :: x.whole).map digitChar ++ (x.fractionText ++ x.exponentText)) := by
    unfold text
    cases x.negative with
    | true => rfl
    | false => exact signOff_digits x.first _
  unfold atofPrefix
  rw [hsign]
  dsimp only
  rw [htake, hdrop, x.fractionOff_text]
  dsimp only
  rw [x.exponentOff_text]
  rfl

/-- Nothing else is printed. -/
theorem mem_text {c : Char} (h : c ∈ x.text) :
    c.isDigit = true ∨ c ∈ ['-', '+', '.', 'e'] := by
  have hdigits : ∀ digits : List (Fin 10), c ∈ digits.map digitChar → c.isDigit = true :=
    fun digits hc => all_isDigit digits c hc
  unfold text at h
  rw [List.mem_append, List.mem_append, List.mem_append] at h
  rcases h with hsign | hwhole | hfraction | hexponent
  · cases hneg : x.negative <;> simp [hneg] at hsign
    simp [hsign]
  · exact .inl (hdigits _ hwhole)
  · unfold fractionText at hfraction
    cases hfrac : x.fraction with
    | none => simp [hfrac] at hfraction
    | some digits =>
      rw [hfrac] at hfraction
      rcases List.mem_cons.1 hfraction with rfl | hc
      · simp
      · exact .inl (hdigits _ hc)
  · unfold exponentText at hexponent
    cases hexp : x.exponent with
    | none => simp [hexp] at hexponent
    | some e =>
      obtain ⟨sign, d, digits⟩ := e
      rw [hexp] at hexponent
      rcases List.mem_cons.1 hexponent with rfl | hc
      · simp
      · rcases List.mem_append.1 hc with hc | hc
        · refine .inr ?_
          cases sign with
          | none => cases hc
          | some negative => cases negative <;> simp [signText] at hc <;> simp [hc]
        · exact .inl (hdigits _ hc)

theorem not_mem_text {c : Char} (hc : c.isDigit = false) (hother : c ∉ ['-', '+', '.', 'e']) :
    c ∉ x.text := by
  intro h
  rcases x.mem_text h with hdigit | hmem
  · rw [hc] at hdigit
    cases hdigit
  · exact hother hmem

/-- No white space is in front. -/
theorem dropWhile_text : x.text.dropWhile isWhitespace = x.text := by
  have hother : ∀ c ∈ ['-', '+', '.', 'e'], 0x20 < c.toNat ∧ c.toNat < 0x80 := by simp
  rw [List.dropWhile_eq_self_iff]
  intro hpos
  rw [Bool.not_eq_true]
  rcases x.mem_text (List.getElem_mem hpos) with hdigit | hmem
  · exact isWhitespace_of_isDigit hdigit
  · exact isWhitespace_of_ascii (hother _ hmem).1 (hother _ hmem).2

theorem atof_text {F : Type} [Zero F] {parse : List Char → Option F} {v : F}
    (h : parse x.text = some v) : atof parse x.text = v := by
  rw [atof, x.dropWhile_text, x.atofPrefix_text, h]
  rfl

end Printed

end Newport
