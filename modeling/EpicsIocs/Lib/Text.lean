import Mathlib.Data.List.DropRight

/-!
# Text as characters

What the standard library calls white space, and cuts at it.
-/

namespace Text

def isWhitespace (c : Char) : Bool :=
  (9 ≤ c.toNat && c.toNat ≤ 13) || c.toNat == 0x20 || c.toNat == 0x85 || c.toNat == 0xA0 ||
  c.toNat == 0x1680 || (0x2000 ≤ c.toNat && c.toNat ≤ 0x200A) || c.toNat == 0x2028 ||
  c.toNat == 0x2029 || c.toNat == 0x202F || c.toNat == 0x205F || c.toNat == 0x3000

/-- Without white space at either end. -/
def trim (text : List Char) : List Char := (text.dropWhile isWhitespace).rdropWhile isWhitespace

/-- The groups between white space. -/
def splitWhitespace (text : List Char) : List (List Char) :=
  (text.splitOnP isWhitespace).filter fun group => !group.isEmpty

theorem trim_of_solid {text : List Char} (h : ∀ c ∈ text, isWhitespace c = false) :
    trim text = text := by
  have hleft : text.dropWhile isWhitespace = text := by
    rw [List.dropWhile_eq_self_iff]
    intro hpos
    simp [h _ (List.getElem_mem hpos)]
  rw [trim, hleft, List.rdropWhile_eq_self_iff]
  intro hne
  simp [h _ (List.getLast_mem hne)]

/-- Text without white space is one group. -/
theorem splitWhitespace_of_solid {text : List Char} (hne : text ≠ [])
    (h : ∀ c ∈ text, isWhitespace c = false) : splitWhitespace text = [text] := by
  rw [splitWhitespace, List.splitOnP_eq_singleton h, List.filter_cons_of_pos (by simp [hne]),
    List.filter_nil]

/-- Digits and signs are no white space. -/
theorem isWhitespace_of_ascii {c : Char} (h : 0x20 < c.toNat) (h' : c.toNat < 0x80) :
    isWhitespace c = false := by
  simp only [isWhitespace, Bool.or_eq_false_iff, Bool.and_eq_false_iff, decide_eq_false_iff_not,
    beq_eq_false_iff_ne]
  omega

theorem isWhitespace_of_isDigit {c : Char} (h : c.isDigit = true) : isWhitespace c = false := by
  rw [Char.isDigit, Bool.and_eq_true, decide_eq_true_eq, decide_eq_true_eq] at h
  have hlo : 48 ≤ c.toNat := UInt32.le_iff_toNat_le.1 h.1
  have hhi : c.toNat ≤ 57 := UInt32.le_iff_toNat_le.1 h.2
  exact isWhitespace_of_ascii (by omega) (by omega)

/-! ## Ends cut off -/

section
variable {α : Type} (p : α → Bool)

/-- Without what meets `p` at either end. -/
def strip (l : List α) : List α := (l.dropWhile p).rdropWhile p

/-- Neither end meets `p`. -/
structure Solid (l : List α) : Prop where
  head : ∀ a, l.head? = some a → p a = false
  last : ∀ a, l.getLast? = some a → p a = false

variable {p}

theorem dropWhile_of_head {l : List α} (h : ∀ a, l.head? = some a → p a = false) :
    l.dropWhile p = l := by
  cases l with
  | nil => rfl
  | cons a l => rw [List.dropWhile_cons_of_neg (by rw [h a rfl]; exact Bool.false_ne_true)]

theorem rdropWhile_of_last {l : List α} (h : ∀ a, l.getLast? = some a → p a = false) :
    l.rdropWhile p = l := by
  rw [List.rdropWhile_eq_self_iff]
  intro hne
  rw [h _ (List.getLast?_eq_some_getLast hne)]
  exact Bool.false_ne_true

theorem Solid.strip_eq {l : List α} (h : Solid p l) : strip p l = l := by
  rw [strip, dropWhile_of_head h.head, rdropWhile_of_last h.last]

theorem length_strip_le (l : List α) : (strip p l).length ≤ l.length :=
  (List.rdropWhile_prefix p _).length_le.trans (List.dropWhile_suffix p).length_le

theorem strip_cons {a : α} (h : p a = true) (l : List α) : strip p (a :: l) = strip p l := by
  rw [strip, List.dropWhile_cons_of_pos h, strip]

theorem strip_concat {a : α} (h : p a = true) (l : List α) : strip p (l ++ [a]) = strip p l := by
  by_cases hall : ∀ b ∈ l, p b = true
  · have hl : l.dropWhile p = [] := List.dropWhile_eq_nil_iff.2 hall
    rw [strip, strip, hl, List.dropWhile_append, hl, List.isEmpty_nil, if_pos rfl,
      List.dropWhile_cons_of_pos h]
    rfl
  · have hl : l.dropWhile p ≠ [] := fun hnil => hall (List.dropWhile_eq_nil_iff.1 hnil)
    rw [strip, strip, List.dropWhile_append, if_neg (by simpa using hl),
      List.rdropWhile_concat_pos _ _ _ h]

/-- What is left is cut no further. -/
theorem solid_strip (l : List α) : Solid p (strip p l) := by
  constructor
  · intro a ha
    obtain ⟨rest, hrest⟩ := List.rdropWhile_prefix p (l.dropWhile p)
    have hhead : (l.dropWhile p).head? = some a := by
      rw [← hrest]
      rw [strip] at ha
      rw [List.head?_append, ha]
      rfl
    have hne : l.dropWhile p ≠ [] := by
      intro hnil
      rw [hnil] at hhead
      cases hhead
    have hnot := List.head_dropWhile_not p hne
    rw [List.head?_eq_some_head hne, Option.some.injEq] at hhead
    rwa [hhead] at hnot
  · intro a ha
    have hne : (l.dropWhile p).rdropWhile p ≠ [] := by
      intro hnil
      rw [strip, hnil] at ha
      cases ha
    have hlast := List.rdropWhile_last_not p (l.dropWhile p) hne
    rw [strip, List.getLast?_eq_some_getLast hne, Option.some.injEq] at ha
    rwa [ha, Bool.not_eq_true] at hlast

theorem solid_between {a b : α} (ha : p a = false) (hb : p b = false) (l : List α) :
    Solid p (a :: (l ++ [b])) := by
  refine ⟨?_, ?_⟩
  · rintro _ ⟨⟩
    exact ha
  · intro c hc
    rw [← List.cons_append, List.getLast?_concat, Option.some.injEq] at hc
    exact hc ▸ hb

/-- Text that is cut at both ends is two shorter. -/
theorem length_strip_add_two {a b : α} (ha : p a = true) (hb : p b = true) (l : List α) :
    (strip p (a :: (l ++ [b]))).length + 2 ≤ (a :: (l ++ [b])).length := by
  rw [strip_cons ha, strip_concat hb, List.length_cons, List.length_append, List.length_singleton]
  have := length_strip_le (p := p) l
  omega

end

end Text
