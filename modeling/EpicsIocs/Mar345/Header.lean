import Mathlib.Data.List.Infix
import EpicsIocs.Mar345.Pck
import EpicsIocs.Lib.Text

/-!
# The header line of a packed image

The line that names the image's size is found behind lines that do not, and behind stretches of
`BUFSIZ - 1` bytes without a line's end, which the scan takes for lines.

    (∀ line ∈ lines, Skipped line) → 0 < x → x < 10000 → 0 < y → y < 10000
      → scanHeader (lines.flatten ++ headerLine x y ++ data) = (x, y, data)        (scanHeader_lines)
-/

namespace Mar345

variable {fmt input rest line : List UInt8} {ints : List Int} {v x y : Nat}

/-! ## The format -/

/-- Characters of the format that stand for themselves. -/
def Plain (b : UInt8) : Prop := isAsciiWhitespace b = false ∧ b ≠ '%'.toUInt8

theorem scanf_word {word : List UInt8} (h : ∀ b ∈ word, Plain b) :
    scanf (word ++ fmt) (word ++ input) ints = scanf fmt input ints := by
  induction word with
  | nil => rfl
  | cons b word ih =>
    obtain ⟨hspace, hpercent⟩ := h b List.mem_cons_self
    rw [List.cons_append, List.cons_append, scanf, if_neg (by rw [hspace]; exact Bool.false_ne_true),
      if_neg hpercent, if_neg (fun hne => hne rfl)]
    exact ih fun c hc => h c (List.mem_cons_of_mem _ hc)

/-- White space of the format over one white character of the input. -/
theorem scanf_space {w b : UInt8} (hw : isAsciiWhitespace w = true) (hb : isAsciiWhitespace b = true)
    (h : ∀ a, input.head? = some a → isAsciiWhitespace a = false) :
    scanf (w :: fmt) (b :: input) ints = scanf fmt input ints := by
  rw [scanf, if_pos hw, List.dropWhile_cons_of_pos hb, Text.dropWhile_of_head h]

theorem not_isAsciiWhitespace_of_isDigit {b : UInt8} (h : Decimal.isDigit b = true) :
    isAsciiWhitespace b = false := by
  obtain ⟨hlo, hhi⟩ := Decimal.isDigit_iff.1 h
  rw [isAsciiWhitespace, decide_eq_false_iff_not]
  intro hmem
  simp only [List.mem_cons, List.not_mem_nil, or_false] at hmem
  rcases hmem with rfl | rfl | rfl | rfl | rfl <;> exact absurd hlo (by decide)

/-- Four digits begin with a digit. -/
theorem field_eq_cons (v : Nat) : ∃ d ds, Decimal.field 4 v = d :: ds ∧ Decimal.isDigit d = true := by
  cases h : Decimal.field 4 v with
  | nil =>
    have hlen := congrArg List.length h
    rw [Decimal.length_field] at hlen
    cases hlen
  | cons d ds =>
    refine ⟨d, ds, rfl, List.all_eq_true.1 (Decimal.all_isDigit_field 4 v) d ?_⟩
    rw [h]
    exact List.mem_cons_self

/-- Four digits are the number they are written as, whatever follows. -/
theorem scanInt_field (hv : v < 10000) (rest : List UInt8) :
    scanInt (some 4) (Decimal.field 4 v ++ rest) = some ((v : Int), rest) := by
  obtain ⟨d, ds, hcons, hd⟩ := field_eq_cons v
  have hblank : (Decimal.field 4 v ++ rest).dropWhile isAsciiWhitespace = Decimal.field 4 v ++ rest := by
    rw [hcons, List.cons_append, List.dropWhile_cons_of_neg]
    rw [not_isAsciiWhitespace_of_isDigit hd]
    exact Bool.false_ne_true
  have hsign : (Decimal.field 4 v ++ rest).takeWhile
      (fun b => b = '+'.toUInt8 || b = '-'.toUInt8) = [] := by
    rw [hcons, List.cons_append, List.takeWhile_cons_of_neg]
    intro habs
    rw [Bool.or_eq_true, decide_eq_true_eq, decide_eq_true_eq] at habs
    rcases habs with rfl | rfl <;> exact absurd hd (by decide)
  have hdigits : ((Decimal.field 4 v ++ rest).takeWhile Decimal.isDigit).take 4 = Decimal.field 4 v := by
    rw [List.takeWhile_append_of_pos (List.all_eq_true.1 (Decimal.all_isDigit_field 4 v)),
      List.take_left' (Decimal.length_field 4 v)]
  have hne : Decimal.field 4 v ≠ [] := by
    rw [hcons]
    exact List.cons_ne_nil _ _
  rw [scanInt]
  simp only [hblank, hsign, List.take_nil, List.length_nil, List.drop_zero, Nat.sub_zero, hdigits, hne,
    if_false, Decimal.value_field_of_lt (k := 4) hv, Decimal.length_field, reduceCtorEq,
    List.drop_left' (Decimal.length_field 4 v)]
  rw [if_pos ⟨by omega, by omega⟩]

theorem scanf_number (hv : v < 10000) (hints : ints.length < 2) :
    scanf (ascii "%04d" ++ fmt) (Decimal.field 4 v ++ input) ints = scanf fmt input (ints ++ [(v : Int)]) := by
  have hfmt : ascii "%04d" ++ fmt = '%'.toUInt8 :: ([48, 52] ++ 'd'.toUInt8 :: fmt) :=
    congrArg (· ++ fmt) (by decide +kernel : ascii "%04d" = ['%'.toUInt8, 48, 52, 'd'.toUInt8])
  have hdigit : ∀ b ∈ ([48, 52] : List UInt8), Decimal.isDigit b = true := by decide +kernel
  have hd : Decimal.isDigit 'd'.toUInt8 ≠ true := by decide
  have hwidth : (([48, 52] : List UInt8) ++ 'd'.toUInt8 :: fmt).takeWhile Decimal.isDigit = [48, 52] := by
    rw [List.takeWhile_append_of_pos hdigit, List.takeWhile_cons_of_neg hd, List.append_nil]
  have hrest : (([48, 52] : List UInt8) ++ 'd'.toUInt8 :: fmt).dropWhile Decimal.isDigit =
      'd'.toUInt8 :: fmt := by
    rw [List.dropWhile_append_of_pos hdigit, List.dropWhile_cons_of_neg hd]
  rw [hfmt, scanf.eq_def]
  dsimp only
  rw [if_neg (by decide), if_pos rfl, hwidth, hrest,
    show Decimal.value [48, 52] = 4 by decide, if_pos (by decide : 0 < 4), scanInt_field hv,
    if_neg (fun hne => hne List.head?_cons)]
  simp only [Nat.not_le.2 hints, if_false, List.drop_one, List.tail_cons]

/-! ## The line -/

/-- The line that names the size of the image. -/
def headerLine (x y : Nat) : List UInt8 :=
  ascii "CCP4 packed image, X: " ++ Decimal.field 4 x ++ (ascii ", Y: " ++ Decimal.field 4 y ++ ['\n'.toUInt8])

theorem scanfPack_headerLine (hx : x < 10000) (hy : y < 10000) :
    scanfPack ('\n'.toUInt8 :: headerLine x y) = some ((x : Int), (y : Int)) := by
  have hformat : format = '\n'.toUInt8 :: (ascii "CCP4" ++ ' '.toUInt8 :: (ascii "packed" ++ ' '.toUInt8 ::
      (ascii "image," ++ ' '.toUInt8 :: (ascii "X:" ++ ' '.toUInt8 :: (ascii "%04d" ++ (ascii "," ++
        ' '.toUInt8 :: (ascii "Y:" ++ ' '.toUInt8 :: (ascii "%04d" ++ ['\n'.toUInt8]))))))) ) := by decide
  have hline : headerLine x y = ascii "CCP4" ++ ' '.toUInt8 :: (ascii "packed" ++ ' '.toUInt8 ::
      (ascii "image," ++ ' '.toUInt8 :: (ascii "X:" ++ ' '.toUInt8 :: (Decimal.field 4 x ++ (ascii "," ++
        ' '.toUInt8 :: (ascii "Y:" ++ ' '.toUInt8 :: (Decimal.field 4 y ++ ['\n'.toUInt8])))))) ) := by
    rw [headerLine, show ascii "CCP4 packed image, X: " = ascii "CCP4" ++ ' '.toUInt8 :: (ascii "packed" ++
      ' '.toUInt8 :: (ascii "image," ++ ' '.toUInt8 :: (ascii "X:" ++ [' '.toUInt8]))) by decide,
      show ascii ", Y: " = ascii "," ++ ' '.toUInt8 :: (ascii "Y:" ++ [' '.toUInt8]) by decide]
    simp only [List.append_assoc, List.cons_append, List.nil_append]
  have hplain : ∀ word ∈ [ascii "CCP4", ascii "packed", ascii "image,", ascii "X:", ascii ",", ascii "Y:"],
      ∀ b ∈ word, Plain b := by
    unfold Plain
    decide +kernel
  have hword : ∀ word ∈ [ascii "CCP4", ascii "packed", ascii "image,", ascii "X:", ascii ",", ascii "Y:"],
      ∀ l a, (word ++ l).head? = some a → isAsciiWhitespace a = false := by
    intro word hmem l a ha
    have hne : ∀ word ∈ [ascii "CCP4", ascii "packed", ascii "image,", ascii "X:", ascii ",", ascii "Y:"],
        word ≠ [] := by decide
    rw [List.head?_append_of_ne_nil _ (hne word hmem)] at ha
    exact (hplain word hmem a (List.mem_of_head? ha)).1
  have hfield : ∀ (v : Nat) (l : List UInt8) a,
      (Decimal.field 4 v ++ l).head? = some a → isAsciiWhitespace a = false := by
    intro v l a ha
    obtain ⟨d, ds, hcons, hd⟩ := field_eq_cons v
    rw [hcons] at ha
    rw [← Option.some.inj ha]
    exact not_isAsciiWhitespace_of_isDigit hd
  rw [scanfPack, hformat, hline, scanf_space (by decide) (by decide) (hword _ (by decide) _),
    scanf_word (hplain _ (by decide)), scanf_space (by decide) (by decide) (hword _ (by decide) _),
    scanf_word (hplain _ (by decide)), scanf_space (by decide) (by decide) (hword _ (by decide) _),
    scanf_word (hplain _ (by decide)), scanf_space (by decide) (by decide) (hword _ (by decide) _),
    scanf_word (hplain _ (by decide)), scanf_space (by decide) (by decide) (hfield x _),
    scanf_number hx (by decide), scanf_word (hplain _ (by decide)),
    scanf_space (by decide) (by decide) (hword _ (by decide) _), scanf_word (hplain _ (by decide)),
    scanf_space (by decide) (by decide) (hfield y _), scanf_number hy (by exact Nat.lt_succ_self 1),
    scanf_space (by decide) (by decide) (fun a ha => by cases ha), scanf]
  rfl

/-! ## Lines before it -/

/-- What the scan goes past at once: a line that does not name a size, or as many bytes of a longer one as
fit the buffer. -/
inductive Skipped : List UInt8 → Prop
  | line {text : List UInt8} (htext : '\n'.toUInt8 ∉ text) (hlen : text.length < BUFSIZ - 1)
      (hno : ∀ x y, scanfPack ('\n'.toUInt8 :: (text ++ ['\n'.toUInt8])) = some (x, y) → x = 0 ∨ y = 0) :
      Skipped (text ++ ['\n'.toUInt8])
  | long {text : List UInt8} (htext : '\n'.toUInt8 ∉ text) (hlen : text.length = BUFSIZ - 1) : Skipped text

/-- A line that begins with another character than the format's first names no size. -/
theorem scanfPack_of_head {c : UInt8} (hspace : isAsciiWhitespace c = false) (hc : c ≠ 'C'.toUInt8)
    (text : List UInt8) : scanfPack ('\n'.toUInt8 :: c :: text) = none := by
  have hformat : ∃ rest, format = '\n'.toUInt8 :: 'C'.toUInt8 :: rest := ⟨_, rfl⟩
  obtain ⟨rest, hrest⟩ := hformat
  have hhead : ∀ a, (c :: text).head? = some a → isAsciiWhitespace a = false := by
    intro a ha
    rwa [← Option.some.inj ha]
  rw [scanfPack, hrest, scanf_space (by decide) (by decide) hhead, scanf, if_neg (by decide),
    if_neg (by decide), if_pos hc]

theorem scanLine_append {text : List UInt8} (htext : '\n'.toUInt8 ∉ text) {room : Nat}
    (hroom : text.length ≤ room) (header data : List UInt8) :
    scanLine room header (text ++ data) = scanLine (room - text.length) (header ++ text) data := by
  induction text generalizing room header with
  | nil => rw [List.nil_append, List.length_nil, Nat.sub_zero, List.append_nil]
  | cons c text ih =>
    rw [List.length_cons] at hroom ⊢
    obtain ⟨room, rfl⟩ : ∃ k, room = k + 1 := ⟨room - 1, by omega⟩
    rw [List.mem_cons, not_or] at htext
    obtain ⟨hc, htext⟩ := htext
    rw [List.cons_append, scanLine, if_neg (Ne.symm hc), ih htext (by omega), List.append_assoc,
      List.singleton_append, Nat.add_sub_add_right]

/-- A whole line is read with its end. -/
theorem scanLine_line {text : List UInt8} (htext : '\n'.toUInt8 ∉ text) {room : Nat}
    (hroom : text.length < room) (header data : List UInt8) :
    scanLine room header (text ++ '\n'.toUInt8 :: data) =
      match scanfPack (header ++ (text ++ ['\n'.toUInt8])) with
      | some (x, y) => (false, x, y, data)
      | none => (false, 0, 0, data) := by
  obtain ⟨k, hk⟩ : ∃ k, room - text.length = k + 1 := ⟨room - text.length - 1, by omega⟩
  rw [scanLine_append htext hroom.le, hk, ← List.append_assoc]
  exact if_pos rfl

theorem scanHeader_skipped (h : Skipped line) (data : List UInt8) :
    scanHeader (line ++ data) = scanHeader data := by
  rw [scanHeader.eq_def (line ++ data)]
  cases h with
  | line htext hlen hno =>
    dsimp only
    rw [List.append_assoc, List.singleton_append, scanLine_line htext hlen]
    split
    · next x y heq => rw [if_pos ⟨rfl, hno x y heq⟩]
    · rw [if_pos ⟨rfl, Or.inl rfl⟩]
  | long htext hlen =>
    dsimp only
    rw [scanLine_append htext hlen.le, hlen, Nat.sub_self, scanLine, if_pos ⟨rfl, Or.inl rfl⟩]

theorem not_mem_headerText (x y : Nat) : '\n'.toUInt8 ∉
    ascii "CCP4 packed image, X: " ++ Decimal.field 4 x ++ (ascii ", Y: " ++ Decimal.field 4 y) := by
  have hfield : ∀ v, '\n'.toUInt8 ∉ Decimal.field 4 v := fun v hmem =>
    absurd (List.all_eq_true.1 (Decimal.all_isDigit_field 4 v) _ hmem) (by decide)
  simp only [List.mem_append, not_or]
  exact ⟨⟨by decide, hfield x⟩, by decide, hfield y⟩

/-- The header line is found behind any lines that do not name a size. -/
theorem scanHeader_lines {lines : List (List UInt8)} (h : ∀ line ∈ lines, Skipped line) (hx : 0 < x)
    (hx' : x < 10000) (hy : 0 < y) (hy' : y < 10000) (data : List UInt8) :
    scanHeader (lines.flatten ++ (headerLine x y ++ data)) = ((x : Int), (y : Int), data) := by
  induction lines with
  | nil =>
    have hlen : (ascii "CCP4 packed image, X: " ++ Decimal.field 4 x ++
        (ascii ", Y: " ++ Decimal.field 4 y)).length < BUFSIZ - 1 := by
      simp only [List.length_append, Decimal.length_field]
      decide
    have hline : headerLine x y ++ data = ascii "CCP4 packed image, X: " ++ Decimal.field 4 x ++
        (ascii ", Y: " ++ Decimal.field 4 y) ++ '\n'.toUInt8 :: data := by
      simp only [headerLine, List.append_assoc, List.singleton_append]
    have hpack := scanfPack_headerLine hx' hy'
    rw [headerLine, ← List.append_assoc] at hpack
    rw [List.flatten_nil, List.nil_append, hline, scanHeader]
    rw [scanLine_line (not_mem_headerText x y) hlen, List.singleton_append, hpack,
      if_neg (fun habs => by rcases habs.2 with h | h <;> · dsimp only at h; omega)]
  | cons line lines ih =>
    rw [List.flatten_cons, List.append_assoc, scanHeader_skipped (h line List.mem_cons_self)]
    exact ih fun l hl => h l (List.mem_cons_of_mem _ hl)

end Mar345
