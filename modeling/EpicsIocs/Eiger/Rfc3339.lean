import EpicsIocs.Lib.Calendar
import EpicsIocs.Lib.Decimal

/-! # RFC 3339 timestamps

`parse_rfc3339` and `timegm` of `stream2.rs`, over the bytes of the text.  A `Layout` is what a
text of the right shape spells, calendar-valid or not; the parser reads these and nothing else:

    parseRfc3339 b = some r ↔ ∃ l : Layout, l.text = b ∧ l.value = r     (parseRfc3339_eq_some_iff)

`timegm_eq`: on a date of the calendar `timegm` counts the days from 1970. -/

namespace Eiger

open Bytes Decimal Calendar

/-- `timegm`, with its normalisation of out-of-range fields. -/
def timegm (year mon0 mday hour min sec : Int) : Int :=
  let y := year + mon0 / 12
  let m := mon0 % 12 + 1
  let y := if m ≤ 2 then y - 1 else y
  let era := y / 400
  let yoe := y - era * 400
  let mp := (m + 9) % 12
  let doy := (153 * mp + 2) / 5
  let doe := yoe * 365 + yoe / 4 - yoe / 100 + doy
  let days := era * 146097 + doe - 719468 + (mday - 1)
  days * 86400 + hour * 3600 + min * 60 + sec

def num (b : List UInt8) (i n : Nat) : Option Nat :=
  (slice? b i n).bind fun d => if d.all isDigit then some (value d) else none

/-- The closure `at`. -/
def isAt (b : List UInt8) (i : Nat) (chars : List UInt8) : Bool := b[i]?.any chars.contains

/-- The fraction at `pos`: the place behind it and its nanoseconds. -/
def parseFraction (b : List UInt8) (pos : Nat) : Option (Nat × Nat) :=
  if isAt b pos ['.'.toUInt8] then
    let digits := ((b.drop (pos + 1)).takeWhile isDigit).length
    if 1 ≤ digits ∧ digits ≤ 9 then
      (num b (pos + 1) digits).map fun frac => (pos + (1 + digits), frac * 10 ^ (9 - digits))
    else none
  else some (pos, 0)

/-- The suffix at `pos`: the place behind it and the offset in seconds. -/
def parseOffset (b : List UInt8) (pos : Nat) : Option (Nat × Int) :=
  if isAt b pos ['Z'.toUInt8] then some (pos + 1, 0)
  else if isAt b pos ['+'.toUInt8, '-'.toUInt8] then do
    let sign : Int := if b[pos]? = some '-'.toUInt8 then -1 else 1
    let h ← num b (pos + 1) 2
    let m ← num b (pos + 4) 2
    if !isAt b (pos + 3) [':'.toUInt8] then none
    else some (pos + 6, sign * (h * 3600 + m * 60))
  else some (pos, 0)

/-- POSIX seconds and nanoseconds. -/
def parseRfc3339 (b : List UInt8) : Option (Int × Nat) := do
  let year ← num b 0 4
  let month ← num b 5 2
  let day ← num b 8 2
  let hour ← num b 11 2
  let minute ← num b 14 2
  let second ← num b 17 2
  if !(isAt b 4 ['-'.toUInt8] && isAt b 7 ['-'.toUInt8] &&
      isAt b 10 ['T'.toUInt8, 't'.toUInt8, ' '.toUInt8] && isAt b 13 [':'.toUInt8] &&
      isAt b 16 [':'.toUInt8]) then none
  else
    let (pos, nsec) ← parseFraction b 19
    let (pos, offset) ← parseOffset b pos
    if pos ≠ b.length then none
    else some (timegm year (month - 1) day hour minute second - offset, nsec)

/-! ## What a text spells -/

/-- What follows the time of day. -/
inductive Zone where
  | unspecified
  | utc
  | offset (west : Bool) (hours minutes : Fin 100)

namespace Zone

def text : Zone → List UInt8
  | unspecified => []
  | utc => ['Z'.toUInt8]
  | offset west hours minutes =>
    (if west then '-' else '+').toUInt8 :: (field 2 hours ++ ':'.toUInt8 :: field 2 minutes)

/-- Seconds east of Greenwich. -/
def seconds : Zone → Int
  | unspecified | utc => 0
  | offset west hours minutes =>
    if west then -(hours * 3600 + minutes * 60) else hours * 3600 + minutes * 60

end Zone

/-- The digits behind the point; without digits there is no point. -/
structure Fraction where
  digits : List UInt8
  length_le : digits.length ≤ 9
  all_digits : digits.all isDigit = true

namespace Fraction

def text (f : Fraction) : List UInt8 :=
  if f.digits = [] then [] else '.'.toUInt8 :: f.digits

/-- The digits, filled up to nine. -/
def nanoseconds (f : Fraction) : Nat :=
  value (f.digits ++ List.replicate (9 - f.digits.length) '0'.toUInt8)

end Fraction

/-- The digits and separators of a timestamp, in the places they have in the text. -/
structure Layout where
  year : Fin 10000
  month : Fin 100
  day : Fin 100
  separator : UInt8
  hour : Fin 100
  minute : Fin 100
  second : Fin 100
  fraction : Fraction
  zone : Zone
  separator_mem : separator ∈ ['T'.toUInt8, 't'.toUInt8, ' '.toUInt8]

namespace Layout

variable (l : Layout)

/-- Date and time of day. -/
def head : List UInt8 :=
  field 4 l.year ++ '-'.toUInt8 :: field 2 l.month ++ '-'.toUInt8 :: field 2 l.day ++
    l.separator :: field 2 l.hour ++ ':'.toUInt8 :: field 2 l.minute ++ ':'.toUInt8 ::
    field 2 l.second

def text : List UInt8 := l.head ++ l.fraction.text ++ l.zone.text

def value : Int × Nat :=
  (timegm l.year (l.month - 1 : Int) l.day l.hour l.minute l.second - l.zone.seconds,
    l.fraction.nanoseconds)

end Layout

/-! ## Reading -/

theorem num_append (front : List UInt8) (k n : Nat) (back : List UInt8) {i : Nat}
    (hi : front.length = i) (hn : n < 10 ^ k) :
    num (front ++ (field k n ++ back)) i k = some n := by
  rw [num, slice?_append front (field k n) back hi (length_field k n), Option.bind_some,
    if_pos (all_isDigit_field k n), value_field_of_lt hn]

/-- What was read is a field of the text. -/
theorem of_num {b : List UInt8} {i k n : Nat} (h : num b i k = some n) :
    n < 10 ^ k ∧ b.take (i + k) = b.take i ++ field k n := by
  rw [num, Option.bind_eq_some_iff] at h
  obtain ⟨digits, hslice, h⟩ := h
  split at h
  · next hdigits =>
    obtain rfl := Option.some.inj h
    have hlen := length_of_slice? hslice
    have hlt := value_lt hdigits
    have hfield := field_value hdigits
    rw [hlen] at hlt hfield
    exact ⟨hlt, by rw [hfield, take_of_slice? hslice]⟩
  · cases h

theorem isAt_append (front : List UInt8) {c : UInt8} {chars : List UInt8} {i : Nat}
    (back : List UInt8) (hi : front.length = i) (hc : chars.contains c = true) :
    isAt (front ++ c :: back) i chars = true := by
  rw [isAt, getElem?_append_cons front c back hi, Option.any_some, hc]

theorem of_isAt {b chars : List UInt8} {i : Nat} (h : isAt b i chars = true) :
    ∃ c ∈ chars, b[i]? = some c ∧ b.take (i + 1) = b.take i ++ [c] := by
  rw [isAt, Option.any_eq_true] at h
  obtain ⟨c, hc, hmem⟩ := h
  exact ⟨c, List.contains_iff_mem.1 hmem, hc, take_of_getElem? hc⟩

theorem of_isAt_singleton {b : List UInt8} {c : UInt8} {i : Nat} (h : isAt b i [c] = true) :
    b.take (i + 1) = b.take i ++ [c] := by
  obtain ⟨c', hmem, -, htake⟩ := of_isAt h
  rw [List.mem_singleton.1 hmem] at htake
  exact htake

theorem value_append_zeros (digits : List UInt8) (k : Nat) :
    Decimal.value (digits ++ List.replicate k '0'.toUInt8) = Decimal.value digits * 10 ^ k := by
  induction k with
  | zero => simp
  | succ k ih =>
    rw [List.replicate_succ', ← List.append_assoc, value_concat, ih, Nat.pow_succ,
      ← Nat.mul_assoc]
    exact Nat.add_zero _

/-! ### Fraction and suffix -/

theorem isAt_of_head {front back chars : List UInt8}
    (h : ∀ c, back.head? = some c → chars.contains c = false) :
    isAt (front ++ back) front.length chars = false := by
  rw [isAt, List.getElem?_append_right (Nat.le_refl _), Nat.sub_self, ← List.head?_eq_getElem?]
  cases hhead : back.head? with
  | none => rfl
  | some c => rw [Option.any_some, h c hhead]

theorem takeWhile_digits {digits back : List UInt8} (h : digits.all isDigit = true)
    (hback : ∀ c, back.head? = some c → isDigit c = false) :
    (digits ++ back).takeWhile isDigit = digits := by
  rw [List.takeWhile_append_of_pos (List.all_eq_true.1 h)]
  cases back with
  | nil => exact List.append_nil _
  | cons c back => rw [List.takeWhile_cons_of_neg (by simp [hback c rfl]), List.append_nil]

theorem parseFraction_append (front : List UInt8) (f : Fraction) {back : List UInt8}
    (hback : ∀ c, back.head? = some c → isDigit c = false ∧ c ≠ '.'.toUInt8) :
    parseFraction (front ++ (f.text ++ back)) front.length =
      some (front.length + f.text.length, f.nanoseconds) := by
  by_cases hnil : f.digits = []
  · have hdot : isAt (front ++ back) front.length ['.'.toUInt8] = false := by
      apply isAt_of_head
      intro c hc
      simpa using (hback c hc).2
    simp [parseFraction, Fraction.text, hnil, hdot, Fraction.nanoseconds]
    rfl
  · have htext : f.text = '.'.toUInt8 :: f.digits := if_neg hnil
    have hdot : isAt (front ++ (f.text ++ back)) front.length ['.'.toUInt8] = true := by
      rw [htext]
      exact isAt_append front _ rfl rfl
    have hdrop : (front ++ (f.text ++ back)).drop (front.length + 1) = f.digits ++ back := by
      rw [← List.drop_drop, List.drop_left, htext]
      rfl
    have hwhile := takeWhile_digits f.all_digits (fun c hc => (hback c hc).1)
    have hpos := List.length_pos_iff.2 hnil
    have hnum : num (front ++ (f.text ++ back)) (front.length + 1) f.digits.length =
        some (Decimal.value f.digits) := by
      have h := num_append (front ++ ['.'.toUInt8]) _ _ back List.length_append (value_lt f.all_digits)
      rw [field_value f.all_digits, List.append_assoc] at h
      rwa [htext]
    rw [parseFraction, if_pos hdot, hdrop, hwhile, if_pos ⟨hpos, f.length_le⟩, hnum,
      Option.map_some, htext, List.length_cons, Fraction.nanoseconds, value_append_zeros,
      Nat.add_comm 1]

theorem of_parseFraction {b : List UInt8} {pos pos' nsec : Nat}
    (h : parseFraction b pos = some (pos', nsec)) :
    ∃ f : Fraction, b.take pos' = b.take pos ++ f.text ∧ nsec = f.nanoseconds := by
  unfold parseFraction at h
  split at h
  · next hdot =>
    dsimp only at h
    split at h
    · next hlen =>
      generalize hdigits : ((b.drop (pos + 1)).takeWhile isDigit).length = k at h hlen
      obtain ⟨frac, hnum, heq⟩ := Option.map_eq_some_iff.1 h
      obtain ⟨rfl, rfl⟩ := Prod.mk.inj heq
      obtain ⟨hlt, htake⟩ := of_num hnum
      refine ⟨⟨field k frac, by rw [length_field]; exact hlen.2, all_isDigit_field k frac⟩, ?_, ?_⟩
      · have hne : field k frac ≠ [] := by
          rw [← List.length_pos_iff, length_field]
          exact hlen.1
        rw [Fraction.text, if_neg hne, ← Nat.add_assoc, htake, of_isAt_singleton hdot,
          List.append_assoc]
        rfl
      · rw [Fraction.nanoseconds, value_append_zeros]
        dsimp only
        rw [length_field, value_field_of_lt hlt]
    · cases h
  · obtain ⟨rfl, rfl⟩ := Prod.mk.inj (Option.some.inj h)
    exact ⟨⟨[], by decide, rfl⟩, (List.append_nil _).symm, rfl⟩

theorem parseOffset_append (front : List UInt8) (z : Zone) :
    parseOffset (front ++ z.text) front.length =
      some (front.length + z.text.length, z.seconds) := by
  cases z with
  | unspecified =>
    simp [parseOffset, Zone.text, Zone.seconds, isAt]
  | utc =>
    have hz : isAt (front ++ ['Z'.toUInt8]) front.length ['Z'.toUInt8] = true :=
      isAt_append front [] rfl rfl
    simp [parseOffset, Zone.text, Zone.seconds, hz]
  | offset west hours minutes =>
    have hsign : (front ++ (Zone.offset west hours minutes).text)[front.length]? =
        some (if west then '-' else '+').toUInt8 := getElem?_append_cons front _ _ rfl
    have hz : isAt (front ++ (Zone.offset west hours minutes).text) front.length ['Z'.toUInt8] =
        false := by
      rw [isAt, hsign]
      cases west <;> rfl
    have hpm : isAt (front ++ (Zone.offset west hours minutes).text) front.length
        ['+'.toUInt8, '-'.toUInt8] = true := by
      rw [isAt, hsign]
      cases west <;> rfl
    have hh : num (front ++ (Zone.offset west hours minutes).text) (front.length + 1) 2 =
        some hours.val := by
      have h := num_append (front ++ [(if west then '-' else '+').toUInt8]) 2 hours
        (':'.toUInt8 :: field 2 minutes) List.length_append hours.isLt
      rwa [List.append_assoc] at h
    have hcolon : isAt (front ++ (Zone.offset west hours minutes).text) (front.length + 3)
        [':'.toUInt8] = true := by
      have hmem : [':'.toUInt8].contains ':'.toUInt8 = true := rfl
      have h := isAt_append (front ++ (if west then '-' else '+').toUInt8 :: field 2 hours)
        (field 2 minutes) List.length_append hmem
      rwa [List.append_assoc] at h
    have hm : num (front ++ (Zone.offset west hours minutes).text) (front.length + 4) 2 =
        some minutes.val := by
      have h := num_append
        (front ++ (if west then '-' else '+').toUInt8 :: (field 2 hours ++ [':'.toUInt8]))
        2 minutes [] List.length_append minutes.isLt
      simpa [Zone.text] using h
    have hne : some '+'.toUInt8 ≠ some '-'.toUInt8 := by decide
    rw [parseOffset, hz, hpm, hh, hm, hsign, hcolon]
    cases west <;> simp [Zone.text, Zone.seconds, hne]

theorem of_parseOffset {b : List UInt8} {pos pos' : Nat} {offset : Int}
    (h : parseOffset b pos = some (pos', offset)) :
    ∃ z : Zone, b.take pos' = b.take pos ++ z.text ∧ offset = z.seconds := by
  unfold parseOffset at h
  split at h
  · next hz =>
    obtain ⟨rfl, rfl⟩ := Prod.mk.inj (Option.some.inj h)
    exact ⟨.utc, of_isAt_singleton hz, rfl⟩
  · split at h
    · next hpm =>
      obtain ⟨hours, hh, h⟩ := Option.bind_eq_some_iff.1 h
      obtain ⟨minutes, hm, h⟩ := Option.bind_eq_some_iff.1 h
      split at h
      · cases h
      · next hcolon =>
        obtain ⟨rfl, rfl⟩ := Prod.mk.inj (Option.some.inj h)
        obtain ⟨c, hc, hsign, hpm⟩ := of_isAt hpm
        obtain ⟨hhlt, hh⟩ := of_num hh
        obtain ⟨hmlt, hm⟩ := of_num hm
        have hcolon : isAt b (pos + 3) [':'.toUInt8] = true := by simpa using hcolon
        have hcolon := of_isAt_singleton hcolon
        have htake : b.take (pos + 6) = b.take pos ++
            c :: (field 2 hours ++ ':'.toUInt8 :: field 2 minutes) := by
          have h3 : b.take (pos + 3) = b.take (pos + 1) ++ field 2 hours := hh
          have h4 : b.take (pos + 4) = b.take (pos + 3) ++ [':'.toUInt8] := hcolon
          have h6 : b.take (pos + 6) = b.take (pos + 4) ++ field 2 minutes := hm
          rw [h6, h4, h3, hpm]
          simp
        rcases List.mem_cons.1 hc with rfl | hc
        · exact ⟨.offset false ⟨hours, hhlt⟩ ⟨minutes, hmlt⟩, htake, by
            rw [hsign, if_neg (by decide), Int.one_mul]; rfl⟩
        · obtain rfl := List.mem_singleton.1 hc
          exact ⟨.offset true ⟨hours, hhlt⟩ ⟨minutes, hmlt⟩, htake, by
            rw [hsign, if_pos rfl, Int.neg_one_mul]; rfl⟩
    · obtain ⟨rfl, rfl⟩ := Prod.mk.inj (Option.some.inj h)
      exact ⟨.unspecified, (List.append_nil _).symm, rfl⟩

/-! ### The whole text -/

theorem Zone.head_text {z : Zone} {c : UInt8} (h : z.text.head? = some c) :
    isDigit c = false ∧ c ≠ '.'.toUInt8 := by
  cases z with
  | unspecified => cases h
  | utc =>
    obtain rfl := Option.some.inj h
    decide
  | offset west hours minutes =>
    obtain rfl := Option.some.inj h
    cases west <;> decide

namespace Layout

variable (l : Layout)

@[simp] theorem length_head : l.head.length = 19 := rfl

/-- A field inside the head is read whatever follows the head. -/
theorem num_of_drop {i k n : Nat} (back : List UInt8) (hi : i ≤ 19) (hn : n < 10 ^ k)
    (h : l.head.drop i = field k n ++ l.head.drop (i + k)) :
    num (l.head ++ back) i k = some n := by
  have hlen : (l.head.take i).length = i := by
    rw [List.length_take, length_head, Nat.min_eq_left hi]
  have hsplit : l.head ++ back = l.head.take i ++ (field k n ++ (l.head.drop (i + k) ++ back)) := by
    rw [← List.append_assoc (field k n), ← h, ← List.append_assoc, List.take_append_drop]
  rw [hsplit]
  exact num_append _ k n _ hlen hn

/-- The fields of the head are where the parser looks for them. -/
theorem num_head (back : List UInt8) :
    (num (l.head ++ back) 0 4 = some l.year.val ∧ num (l.head ++ back) 5 2 = some l.month.val ∧
      num (l.head ++ back) 8 2 = some l.day.val) ∧
    (num (l.head ++ back) 11 2 = some l.hour.val ∧ num (l.head ++ back) 14 2 = some l.minute.val ∧
      num (l.head ++ back) 17 2 = some l.second.val) := by
  refine ⟨⟨?_, ?_, ?_⟩, ?_, ?_, ?_⟩
  · exact l.num_of_drop back (by decide) l.year.isLt rfl
  · exact l.num_of_drop back (by decide) l.month.isLt rfl
  · exact l.num_of_drop back (by decide) l.day.isLt rfl
  · exact l.num_of_drop back (by decide) l.hour.isLt rfl
  · exact l.num_of_drop back (by decide) l.minute.isLt rfl
  · exact l.num_of_drop back (by decide) l.second.isLt rfl

/-- So are its separators. -/
theorem isAt_head (back : List UInt8) :
    (isAt (l.head ++ back) 4 ['-'.toUInt8] && isAt (l.head ++ back) 7 ['-'.toUInt8] &&
      isAt (l.head ++ back) 10 ['T'.toUInt8, 't'.toUInt8, ' '.toUInt8] &&
      isAt (l.head ++ back) 13 [':'.toUInt8] && isAt (l.head ++ back) 16 [':'.toUInt8]) = true := by
  have hsep : isAt (l.head ++ back) 10 ['T'.toUInt8, 't'.toUInt8, ' '.toUInt8] = true :=
    isAt_append (l.head.take 10) (l.head.drop 11 ++ back) rfl
      (List.contains_iff_mem.2 l.separator_mem)
  rw [hsep]
  rfl

theorem parseRfc3339_text : parseRfc3339 l.text = some l.value := by
  have htext : l.text = l.head ++ (l.fraction.text ++ l.zone.text) := List.append_assoc ..
  obtain ⟨⟨hyear, hmonth, hday⟩, hhour, hminute, hsecond⟩ :=
    l.num_head (l.fraction.text ++ l.zone.text)
  have hseps := l.isAt_head (l.fraction.text ++ l.zone.text)
  have hfraction := parseFraction_append l.head l.fraction (fun _ => Zone.head_text (z := l.zone))
  have hoffset := parseOffset_append (l.head ++ l.fraction.text) l.zone
  rw [← htext] at hyear hmonth hday hhour hminute hsecond hseps hfraction
  rw [List.length_append] at hoffset
  unfold parseRfc3339
  simp only [hyear, hmonth, hday, hhour, hminute, hsecond, Option.bind_eq_bind, Option.bind_some]
  rw [hseps, if_neg (by decide), show 19 = l.head.length from rfl, hfraction, Option.bind_some]
  dsimp only
  rw [show l.text = l.head ++ l.fraction.text ++ l.zone.text from rfl, hoffset, Option.bind_some]
  dsimp only
  rw [if_neg (by simp only [List.length_append, ne_eq, not_true_eq_false, not_false_eq_true])]
  rfl

end Layout

/-- The parser reads layouts, and no other text. -/
theorem parseRfc3339_eq_some_iff {b : List UInt8} {r : Int × Nat} :
    parseRfc3339 b = some r ↔ ∃ l : Layout, l.text = b ∧ l.value = r := by
  constructor
  · intro h
    obtain ⟨year, hyear, h⟩ := Option.bind_eq_some_iff.1 h
    obtain ⟨month, hmonth, h⟩ := Option.bind_eq_some_iff.1 h
    obtain ⟨day, hday, h⟩ := Option.bind_eq_some_iff.1 h
    obtain ⟨hour, hhour, h⟩ := Option.bind_eq_some_iff.1 h
    obtain ⟨minute, hminute, h⟩ := Option.bind_eq_some_iff.1 h
    obtain ⟨second, hsecond, h⟩ := Option.bind_eq_some_iff.1 h
    split at h
    · cases h
    next hseps =>
    simp only [Bool.not_eq_true', Bool.not_eq_false, Bool.and_eq_true] at hseps
    obtain ⟨⟨⟨⟨h4, h7⟩, h10⟩, h13⟩, h16⟩ := hseps
    obtain ⟨⟨pos, nsec⟩, hfraction, h⟩ := Option.bind_eq_some_iff.1 h
    obtain ⟨⟨stop, offset⟩, hoffset, h⟩ := Option.bind_eq_some_iff.1 h
    dsimp only at h
    split at h
    · cases h
    next hstop =>
    obtain ⟨hyear, t4⟩ := of_num hyear
    obtain ⟨hmonth, t7⟩ := of_num hmonth
    obtain ⟨hday, t10⟩ := of_num hday
    obtain ⟨hhour, t13⟩ := of_num hhour
    obtain ⟨hminute, t16⟩ := of_num hminute
    obtain ⟨hsecond, t19⟩ := of_num hsecond
    obtain ⟨separator, hmem, -, t11⟩ := of_isAt h10
    obtain ⟨fraction, tfraction, rfl⟩ := of_parseFraction hfraction
    obtain ⟨zone, tzone, rfl⟩ := of_parseOffset hoffset
    refine ⟨⟨⟨year, hyear⟩, ⟨month, hmonth⟩, ⟨day, hday⟩, separator, ⟨hour, hhour⟩,
      ⟨minute, hminute⟩, ⟨second, hsecond⟩, fraction, zone, hmem⟩, ?_, Option.some.inj h⟩
    -- the text is what was read of it up to its end
    have t5 := of_isAt_singleton h4
    have t8 := of_isAt_singleton h7
    have t14 := of_isAt_singleton h13
    have t17 := of_isAt_singleton h16
    have hall : b.take stop = b := by rw [not_not.1 hstop, List.take_length]
    rw [← hall, tzone, tfraction, t19, t17, t16, t14, t13, t11, t10, t8, t7, t5, t4]
    simp [Layout.text, Layout.head]
  · rintro ⟨l, rfl, rfl⟩
    exact l.parseRfc3339_text

/-! ## Dates of the calendar -/

/-- The era of 400 years and the year in it add up to the leap years of the calendar. -/
theorem era_days (y : Int) :
    y / 400 * 146097 + ((y - y / 400 * 400) * 365 + (y - y / 400 * 400) / 4 -
      (y - y / 400 * 400) / 100) = 365 * y + y / 4 - y / 100 + y / 400 := by
  omega

/-- On a date, `timegm` counts the days from 1970. -/
theorem timegm_eq (d : Date) (hour min sec : Int) :
    timegm d.year (d.month - 1 : Int) d.day hour min sec =
      ((d.number : Int) - unixEpoch.number) * 86400 + hour * 3600 + min * 60 + sec := by
  have hpos := d.month_pos
  have hle := d.month_le
  have hyear : (d.year : Int) + ((d.month : Int) - 1) / 12 = d.year := by omega
  have hmonth : ((d.month : Int) - 1) % 12 + 1 = d.month := by omega
  rw [unixEpoch_number]
  unfold timegm
  simp only [hyear, hmonth]
  by_cases h : d.month < 3
  · have hmp : ((d.month : Int) + 9) % 12 = d.month + 9 := by omega
    have hdoy : (sinceMarch (d.month + 9) : Int) = (153 * ((d.month : Int) + 9) + 2) / 5 := by
      simp [sinceMarch]
    have hera := era_days ((d.year : Int) - 1)
    have hnumber := number_eq_of_lt h
    rw [if_pos (by omega), hmp, ← hdoy]
    generalize sinceMarch (d.month + 9) = doy at *
    omega
  · have hmp : ((d.month : Int) + 9) % 12 = d.month - 3 := by omega
    have hdoy : (sinceMarch (d.month - 3) : Int) = (153 * ((d.month : Int) - 3) + 2) / 5 := by
      simp only [sinceMarch]
      omega
    have hera := era_days d.year
    have hnumber := number_eq (Nat.le_of_not_lt h)
    rw [if_neg (by omega), hmp, ← hdoy]
    generalize sinceMarch (d.month - 3) = doy at *
    omega

/-- A date and time of day with its offset, as RFC 3339 writes it. -/
structure Stamp where
  date : Date
  hour : Nat
  minute : Nat
  second : Nat
  separator : UInt8
  fraction : Fraction
  zone : Zone
  year_le : date.year ≤ 9999
  hour_lt : hour < 24
  minute_lt : minute < 60
  second_lt : second < 60
  separator_mem : separator ∈ ['T'.toUInt8, 't'.toUInt8, ' '.toUInt8]

namespace Stamp

variable (s : Stamp)

theorem monthLength_le (year month : Nat) : monthLength year month ≤ 31 := by
  unfold monthLength
  repeat' split
  all_goals omega

def layout : Layout where
  year := ⟨s.date.year, Nat.lt_succ_of_le s.year_le⟩
  month := ⟨s.date.month, Nat.lt_of_le_of_lt s.date.month_le (by decide)⟩
  day := ⟨s.date.day, Nat.lt_of_le_of_lt (s.date.day_le.trans (monthLength_le _ _)) (by decide)⟩
  separator := s.separator
  hour := ⟨s.hour, s.hour_lt.trans (by decide)⟩
  minute := ⟨s.minute, s.minute_lt.trans (by decide)⟩
  second := ⟨s.second, s.second_lt.trans (by decide)⟩
  fraction := s.fraction
  zone := s.zone
  separator_mem := s.separator_mem

def text : List UInt8 := s.layout.text

/-- Days since 1970, the time of day, less the offset. -/
def posixSeconds : Int :=
  ((s.date.number : Int) - unixEpoch.number) * 86400 + s.hour * 3600 + s.minute * 60 + s.second -
    s.zone.seconds

end Stamp

/-- Every stamp is read as its instant, and a text without the layout of one is refused. -/
theorem rfc3339_reads_stamps :
    (∀ s : Stamp, parseRfc3339 s.text = some (s.posixSeconds, s.fraction.nanoseconds)) ∧
    ∀ b : List UInt8, (∀ l : Layout, l.text ≠ b) → parseRfc3339 b = none := by
  constructor
  · intro s
    have hparse : parseRfc3339 s.text = some s.layout.value := s.layout.parseRfc3339_text
    have hdays := timegm_eq s.date s.hour s.minute s.second
    rw [hparse]
    show some (timegm _ _ _ _ _ _ - _, _) = _
    simp only [Stamp.layout]
    rw [hdays]
    rfl
  · intro b hb
    by_contra hne
    obtain ⟨r, hr⟩ := Option.ne_none_iff_exists'.1 hne
    obtain ⟨l, hl, -⟩ := parseRfc3339_eq_some_iff.1 hr
    exact hb l hl

/-- The leap day of 2000, a quarter of a second after six in the evening, one zone to the east. -/
def leapDay : Stamp :=
  ⟨⟨2000, 2, 29, by decide, by decide, by decide, by decide⟩, 18, 0, 0, 'T'.toUInt8,
    ⟨['2'.toUInt8, '5'.toUInt8], by decide, by decide⟩, .offset false 1 0, by decide, by decide,
    by decide, by decide, by decide⟩

theorem rfc3339_reads_stamps_leapDay :
    parseRfc3339 leapDay.text = some (951843600, 250000000) ∧ parseRfc3339 [] = none := by
  have h := rfc3339_reads_stamps
  have hseconds : leapDay.posixSeconds = 951843600 := by
    have hyear := daysBeforeYear_succ 1999
    rw [Stamp.posixSeconds, unixEpoch_number, Date.number]
    simp only [leapDay]
    rw [hyear]
    simp [daysBeforeMonth, monthLength, Zone.seconds]
  refine ⟨?_, h.2 [] fun l hl => ?_⟩
  · rw [h.1 leapDay, hseconds]
    rfl
  · exact absurd (congrArg List.length hl) (by simp [Layout.text])

end Eiger
