import EpicsIocs.EtherIp.BitFields

/-! # The links of the records

`analyze_link` (`device.rs`) parses `@PLC tag[element] flags…` and says which element a record
starts at, which bit of it comes first and how many elements the driver must fetch.  It does so in
two ways: with no `B` flag the index is a bit of a BOOL array and is folded to a word and a mask,
with one it stays an element and the mask is the flag's bit.  The count is made for the fold only:

    every element that get_bits reads lies below `elements`
      ↔ the link has no B flag or the field ends in the word it starts in   (link_covers_field) -/

namespace EtherIp

open Raw

/-! ## Numbers in the text -/

/-- A double, by what the code asks of one. -/
inductive Double where
  | nan
  | infinite (negative : Bool)
  | finite (q : ℚ)
  deriving DecidableEq

namespace Double

def isInfinite : Double → Bool
  | infinite _ => true
  | _ => false

/-- `v <= 0.0 || v.is_nan()`. -/
def notPositive : Double → Bool
  | nan => true
  | infinite negative => negative
  | finite q => q ≤ 0

end Double

/-- The integer part, towards zero. -/
def truncate (q : ℚ) : Int := q.num.tdiv q.den

/-- C's `size_t bit = strtod(...)` on x86-64. -/
def sizeTFromDouble : Double → Nat
  | .finite q =>
    if -2 ^ 63 < q ∧ q < 2 ^ 63 then (truncate q % 2 ^ 64).toNat
    else if 2 ^ 63 ≤ q ∧ q < 2 * 2 ^ 63 then (truncate (q - 2 ^ 63)).toNat ||| 2 ^ 63
    else 2 ^ 63
  | _ => 2 ^ 63

/-- `char::is_whitespace`. -/
def isWhitespace (c : Char) : Bool :=
  (9 ≤ c.toNat && c.toNat ≤ 13) || c.toNat == 0x20 || c.toNat == 0x85 || c.toNat == 0xA0 ||
  c.toNat == 0x1680 || (0x2000 ≤ c.toNat && c.toNat ≤ 0x200A) || c.toNat == 0x2028 ||
  c.toNat == 0x2029 || c.toNat == 0x202F || c.toNat == 0x205F || c.toNat == 0x3000

/-- What the links take from outside: `str::parse::<f64>`, and `strtol` with base 0. -/
structure Numbers where
  parse : List Char → Option Double
  strtol : List Char → Int × Nat

/-- The value and how many characters it took: the longest prefix that is a number. -/
def strtod (num : Numbers) (text : List Char) : Double × Nat :=
  let t := text.dropWhile isWhitespace
  let skipped := text.length - t.length
  ((List.range' 1 t.length).reverse.findSome? fun n =>
    (num.parse (t.take n)).map fun v => (v, skipped + n)).getD (.finite 0, 0)

/-! ## The parser -/

namespace Spco

def readSingleElement : BitVec 32 := 1 <<< 0
def scanPeriod : BitVec 32 := 1 <<< 1
def bit : BitVec 32 := 1 <<< 2
def force : BitVec 32 := 1 <<< 3
def indexIncluded : BitVec 32 := 1 <<< 4
def plcErrors : BitVec 32 := 1 <<< 6
def plcTaskSlow : BitVec 32 := 1 <<< 7
def listErrors : BitVec 32 := 1 <<< 8
def listTicks : BitVec 32 := 1 <<< 9
def listScanTime : BitVec 32 := 1 <<< 10
def listMinScanTime : BitVec 32 := 1 <<< 11
def listMaxScanTime : BitVec 32 := 1 <<< 12
def tagTransferTime : BitVec 32 := 1 <<< 13
def listTime : BitVec 32 := 1 <<< 14

end Spco

/-- Matched in this order as a prefix of the rest of the link. -/
def specialOptions : List (String × BitVec 32) :=
  [("E", Spco.readSingleElement), ("S ", Spco.scanPeriod), ("B ", Spco.bit),
    ("FORCE", Spco.force), ("PLC_ERRORS", Spco.plcErrors), ("PLC_TASK_SLOW", Spco.plcTaskSlow),
    ("LIST_ERRORS", Spco.listErrors), ("LIST_TICKS", Spco.listTicks),
    ("LIST_SCAN_TIME", Spco.listScanTime), ("LIST_MIN_SCAN_TIME", Spco.listMinScanTime),
    ("LIST_MAX_SCAN_TIME", Spco.listMaxScanTime), ("TAG_TRANSFER_TIME", Spco.tagTransferTime),
    ("LIST_TIME", Spco.listTime)]

/-- The text from the next token on, and the text behind that token. -/
def findToken (rest : List Char) : Option (List Char × List Char) :=
  let start := rest.dropWhile (· = ' ')
  if start = [] then none else some (start, start.dropWhile (· ≠ ' '))

/-- The characters of the token that the text starts with. -/
def token (start : List Char) : List Char := start.takeWhile (· ≠ ' ')

/-- The last place of a character. -/
def rfind (c : Char) (text : List Char) : Option Nat :=
  let front := text.reverse.dropWhile (· ≠ c)
  if front = [] then none else some (front.length - 1)

def quoted (s : List Char) : String := "'" ++ String.ofList s ++ "'"

/-- What the flags have said so far. -/
structure Flags where
  special : BitVec 32
  period : Double
  bit : Nat
  singleElement : Bool
  deriving DecidableEq

/-- The flags of `text` from `rest` on; each takes at least one character. -/
def flagsLoop (num : Numbers) (text : List Char) (count : Nat) :
    Nat → List Char → Flags → Except String Flags
  | 0, _, flags => .ok flags
  | n + 1, rest, flags =>
    match findToken rest with
    | none => .ok flags
    | some (rest, behind) =>
      match specialOptions.find? fun o => o.1.toList.isPrefixOf rest with
      | none => .error ("Invalid flag " ++ quoted rest ++ " in link " ++ quoted text)
      | some (_, mask) =>
        let flags := { flags with special := flags.special ||| mask }
        if mask = Spco.readSingleElement then
          if count ≠ 1 then
            .error ("Array record cannot use 'E' flag (" ++ quoted text ++ ")")
          else flagsLoop num text count n behind { flags with singleElement := true }
        else if mask = Spco.scanPeriod then
          let r := strtod num (rest.drop 2)
          if r.1.isInfinite then .error ("Error in scan flag in link " ++ quoted text)
          else flagsLoop num text count n (rest.drop (2 + r.2)) { flags with period := r.1 }
        else if mask = Spco.bit then
          let r := strtod num (rest.drop 2)
          flagsLoop num text count n (rest.drop (2 + r.2))
            { flags with bit := sizeTFromDouble r.1 }
        else flagsLoop num text count n behind flags

def longMax : Int := 2 ^ 63 - 1
def longMin : Int := -2 ^ 63

/-- `array_tag[el]` split into `array_tag` and `el`. -/
def splitTag (num : Numbers) (text tagText : List Char) (singleElement : Bool) :
    Except String (List Char × Option Nat) :=
  if tagText.getLast? = some ']' ∧ singleElement = false then
    match rfind '[' tagText.dropLast with
    | some (k + 1) =>
      let r := num.strtol (tagText.drop (k + 2))
      if r.2 = 0 ∨ r.1 = longMax ∨ r.1 = longMin then
        .error ("malformed array tag in " ++ quoted text)
      else .ok (tagText.take (k + 1), some (r.1 % 2 ^ 64).toNat)
    | _ => .error ("malformed array tag in " ++ quoted text)
  else .ok (tagText, none)

/-- A link as it was written, before its element is folded. -/
structure Parsed where
  plcName : List Char
  stringTag : List Char
  element : Nat
  special : BitVec 32
  period : Double
  bit : Nat
  deriving DecidableEq

structure Link where
  plcName : List Char
  stringTag : List Char
  element : Nat
  mask : BitVec 32
  special : BitVec 32
  period : Double
  elements : Nat
  deriving DecidableEq

def Parsed.hasBit (p : Parsed) : Bool := p.special &&& Spco.bit ≠ 0

def parseLink {P : Type} (num : Numbers) (text : List Char) (count bits : Nat) (periodOf : Double)
    (findPlc : List Char → Option P) : Except String (Parsed × P) :=
  let text := if text.head? = some '@' then text.tail else text
  match findToken text with
  | none => .error ("Missing PLC in link " ++ quoted text)
  | some (plc, behind) =>
    match findToken behind with
    | none => .error ("Missing tag in link " ++ quoted text)
    | some (tag, behind) =>
      (flagsLoop num text count behind.length behind ⟨0, .finite 0, 0, false⟩).bind fun flags =>
      (splitTag num text (token tag) flags.singleElement).bind fun (stringTag, index) =>
      match findPlc (token plc) with
      | none => .error ("unknown PLC " ++ quoted (token plc))
      | some handle =>
        let parsed : Parsed :=
          { plcName := token plc, stringTag, element := index.getD 0,
            special := if index.isSome then flags.special ||| Spco.indexIncluded else flags.special,
            period := if flags.period.notPositive then periodOf else flags.period,
            bit := flags.bit }
        if 1 < count ∧ (0 < bits ∨ parsed.hasBit = true) then
          .error "cannot access bits for array records"
        else .ok (parsed, handle)

/-- The element and mask of the record's first bit, and how many elements to fetch. -/
def Parsed.fold (p : Parsed) (count bits : Nat) : Link :=
  if 0 < bits ∧ p.hasBit = false then
    { plcName := p.plcName, stringTag := p.stringTag, special := p.special, period := p.period,
      mask := if p.special &&& Spco.indexIncluded ≠ 0 then 1 <<< (p.element &&& 0x1F) else 1,
      element := p.element >>> 5,
      elements := (((p.element + (bits - 1)) % 2 ^ 64) >>> 5 + count) % 2 ^ 64 }
  else
    { plcName := p.plcName, stringTag := p.stringTag, special := p.special, period := p.period,
      mask := 1 <<< (p.bit % 32),
      element := p.element,
      elements := (p.element + count) % 2 ^ 64 }

def analyzeLink {P : Type} (num : Numbers) (text : List Char) (count bits : Nat)
    (periodOf : Double) (findPlc : List Char → Option P) : Except String (Link × P) :=
  (parseLink num text count bits periodOf findPlc).map fun r => (r.1.fold count bits, r.2)

/-! ## Enough fuel -/

theorem findToken_behind {rest start behind : List Char} (h : findToken rest = some (start, behind)) :
    start.length ≤ rest.length ∧ behind.length < start.length := by
  unfold findToken at h
  by_cases hnil : rest.dropWhile (· = ' ') = []
  · rw [if_pos hnil] at h
    cases h
  · rw [if_neg hnil] at h
    obtain ⟨rfl, rfl⟩ := Prod.mk.inj (Option.some.inj h)
    refine ⟨(List.dropWhile_sublist _).length_le, ?_⟩
    -- the token starts with a character that is no space
    have hhead := List.head_dropWhile_not _ hnil
    obtain ⟨c, cs, hcs⟩ := List.exists_cons_of_ne_nil hnil
    simp only [hcs, List.head_cons] at hhead
    rw [hcs, List.dropWhile_cons_of_pos (by simpa using hhead), List.length_cons]
    exact Nat.lt_succ_of_le (List.dropWhile_sublist _).length_le

/-- Every flag takes a character at least, so the loop of the text's length is the whole loop. -/
theorem flagsLoop_fuel (num : Numbers) (text : List Char) (count : Nat) {n : Nat}
    {rest : List Char} (flags : Flags) (h : rest.length ≤ n) :
    flagsLoop num text count n rest flags =
      flagsLoop num text count rest.length rest flags := by
  -- two runs with enough fuel each go the same way
  have key : ∀ (n m : Nat) (rest : List Char) (flags : Flags), rest.length ≤ n → rest.length ≤ m →
      flagsLoop num text count n rest flags = flagsLoop num text count m rest flags := by
    intro n
    induction n with
    | zero =>
      intro m rest flags hn hm
      obtain rfl : rest = [] := List.eq_nil_of_length_eq_zero (Nat.le_zero.1 hn)
      cases m <;> rfl
    | succ n ih =>
      intro m rest flags hn hm
      cases m with
      | zero =>
        obtain rfl : rest = [] := List.eq_nil_of_length_eq_zero (Nat.le_zero.1 hm)
        rfl
      | succ m =>
        unfold flagsLoop
        cases hfind : findToken rest with
        | none => rfl
        | some r =>
          obtain ⟨start, behind⟩ := r
          obtain ⟨hstart, hbehind⟩ := findToken_behind hfind
          have hdrop : ∀ k, (start.drop (2 + k)).length ≤ start.length - 2 := fun k => by
            rw [List.length_drop]
            omega
          have hsmall : ∀ k, (start.drop (2 + k)).length ≤ n ∧ (start.drop (2 + k)).length ≤ m :=
            fun k => by
              have := hdrop k
              omega
          simp only [ih m behind _ (by omega) (by omega), ih m _ _ (hsmall _).1 (hsmall _).2]
  exact key n rest.length rest flags h (Nat.le_refl _)

/-! ## What a field touches -/

/-- The elements that `get_bits` and `put_bits` go through. -/
def touchedFrom : (n element : Nat) → (mask : BitVec 32) → List Nat
  | 0, element, _ => [element]
  | n + 1, element, mask =>
    if mask <<< 1 = 0 then element :: touchedFrom n (element + 1) 1
    else touchedFrom n element (mask <<< 1)

def touched (element : Nat) (mask : BitVec 32) (bits : Nat) : List Nat :=
  touchedFrom (bits - 1) element mask

/-- The elements of a run are those from its first to its last bit. -/
theorem touchedFrom_eq {n element m : Nat} (hm : m < 32) :
    touchedFrom n element (BitVec.twoPow 32 m) = List.range' element ((m + n) / 32 + 1) := by
  induction n generalizing element m with
  | zero =>
    have hzero : (m + 0) / 32 = 0 := Nat.div_eq_of_lt hm
    rw [touchedFrom, hzero]
    rfl
  | succ n ih =>
    rw [touchedFrom, mask_next]
    by_cases hlast : m = 31
    · rw [if_pos (mask_eq_zero.2 (by omega)), show (1 : BitVec 32) = BitVec.twoPow 32 0 from rfl,
        ih (by decide), show (m + (n + 1)) / 32 + 1 = (0 + n) / 32 + 1 + 1 by omega]
      exact List.range'_succ.symm
    · rw [if_neg (fun h => hlast (by have := mask_eq_zero.1 h; omega)), ih (by omega),
        show m + 1 + n = m + (n + 1) by omega]

theorem mem_touched {element m bits e : Nat} (hm : m < 32) :
    e ∈ touched element (BitVec.twoPow 32 m) bits ↔
      element ≤ e ∧ e ≤ element + (m + (bits - 1)) / 32 := by
  rw [touched, touchedFrom_eq hm, List.mem_range'_1]
  omega

/-- The number of elements to fetch covers the field. -/
def Covers (link : Link) (bits : Nat) : Prop :=
  ∀ e ∈ touched link.element link.mask bits, e < link.elements

instance (link : Link) (bits : Nat) : Decidable (Covers link bits) :=
  inferInstanceAs (Decidable (∀ _ ∈ _, _))

theorem covers_iff {link : Link} {m bits : Nat} (hm : m < 32)
    (hmask : link.mask = BitVec.twoPow 32 m) :
    Covers link bits ↔ link.element + (m + (bits - 1)) / 32 < link.elements := by
  unfold Covers
  rw [hmask]
  constructor
  · intro h
    exact h _ ((mem_touched hm).2 ⟨Nat.le_add_right _ _, Nat.le_refl _⟩)
  · intro h e he
    exact Nat.lt_of_le_of_lt ((mem_touched hm).1 he).2 h

section Fetched

open Faults Machine

variable {F : Type} (conv : Floats F) (checks : Bool) {raw raw' : List UInt8}

/-- A field that is written lies inside the buffer: every element of it is read first. -/
theorem runInside_of_putBitsLoop (hw : Words raw) {element : Nat} (hin : Inside raw element)
    {n m : Nat} {value rval : BitVec 32} (hm : m < 32)
    (h : putBitsLoop conv checks raw n element (BitVec.twoPow 32 m) value rval = .ok (true, raw')) :
    RunInside raw element (m + n) := by
  induction n generalizing raw element m value rval with
  | zero =>
    unfold RunInside
    rwa [show element + (m + 0) / 32 = element by omega]
  | succ n ih =>
    rw [putBitsLoop, mask_next] at h
    by_cases hlast : m = 31
    · have hlt := hw.lt_of_inside hin
      have hlen := length_setWord hin value
      rw [if_pos (mask_eq_zero.2 (by omega)), putUdint_inside conv checks hw hin, ok_bind] at h
      dsimp only at h
      rw [if_neg (by decide), add_of_le (show element + 1 ≤ 2 ^ 64 - 1 by omega), ok_bind] at h
      cases hnext : getUdint conv checks (setWord raw element value) (element + 1) with
      | error e =>
        rw [hnext] at h
        cases e <;> cases h
      | ok v =>
        rw [hnext] at h
        have hin' := inside_of_getUdint conv checks (hw.setWord hin value) hlt hnext
        have hrun := ih (hw.setWord hin value) hin' (m := 0) (by decide) h
        unfold RunInside Inside at *
        rwa [hlen, show element + 1 + (0 + n) / 32 = element + (m + (n + 1)) / 32 by omega] at hrun
    · rw [if_neg fun h => by have := mask_eq_zero.1 h; omega] at h
      have hrun := ih hw hin (by omega) h
      rwa [Nat.add_assoc, Nat.add_comm 1 n] at hrun

theorem runInside_of_putBits (hw : Words raw) {element : Nat} (helement : element < 2 ^ 62)
    {m bits : Nat} {rval : BitVec 32} (hm : m < 32)
    (h : putBits conv checks raw element (BitVec.twoPow 32 m) bits rval = .ok (true, raw')) :
    RunInside raw element (m + (bits - 1)) := by
  unfold putBits at h
  cases hvalue : getUdint conv checks raw element with
  | error e =>
    rw [hvalue] at h
    cases e <;> cases h
  | ok value =>
    rw [hvalue] at h
    exact runInside_of_putBitsLoop conv checks hw
      (inside_of_getUdint conv checks hw helement hvalue) hm h

/-- A buffer of just the elements that are fetched gives the field, and takes it, where they cover
it. -/
theorem field_fetched {link : Link} {bits m : Nat} (hm : m < 32)
    (hmask : link.mask = BitVec.twoPow 32 m) (hbits : 1 ≤ bits ∧ bits ≤ 32)
    (helement : link.element < 2 ^ 62) (hw : Words raw)
    (hlen : raw.length = wordOff link.elements) (rval : BitVec 32) :
    ((∃ v, getBits conv checks raw link.element link.mask bits = .ok v) ↔ Covers link bits) ∧
    ((∃ raw', putBits conv checks raw link.element link.mask bits rval = .ok (true, raw')) ↔
      Covers link bits) := by
  have hinside : RunInside raw link.element (m + (bits - 1)) ↔ Covers link bits := by
    rw [covers_iff hm hmask]
    unfold RunInside Inside wordOff at *
    omega
  rw [← hinside, hmask]
  constructor
  · constructor
    · rintro ⟨v, hv⟩
      exact getBits_eq_ok conv checks hw helement hm hv
    · intro hrun
      obtain ⟨v, hv, -⟩ := getBits_inside conv checks hw hm hbits hrun
      exact ⟨v, hv⟩
  · constructor
    · rintro ⟨raw', hput⟩
      exact runInside_of_putBits conv checks hw helement hm hput
    · intro hrun
      obtain ⟨raw', hput, -⟩ := putBits_inside conv checks hw hm hbits hrun rval
      exact ⟨raw', hput⟩

end Fetched

/-! ## The count and the field -/

variable {P : Type} {num : Numbers} {text : List Char} {periodOf : Double}
  {findPlc : List Char → Option P} {parsed : Parsed} {plc : P} {bits : Nat}

/-- The bit number of the `B` flag is only looked at with the flag. -/
def FieldInWord (parsed : Parsed) (bits : Nat) : Prop :=
  parsed.hasBit = false ∨ parsed.bit % 32 + bits ≤ 32

/-- The mask of a folded link is the bit of its index. -/
theorem fold_noBit {count : Nat} (hbits : 1 ≤ bits) (h : parsed.hasBit = false) :
    ∃ m, m < 32 ∧ (parsed.fold count bits).mask = BitVec.twoPow 32 m ∧
      (m = parsed.element % 32 ∨ m = 0) ∧
      (parsed.fold count bits).element = parsed.element / 32 ∧
      (parsed.fold count bits).elements =
        ((parsed.element + (bits - 1)) % 2 ^ 64 / 32 + count) % 2 ^ 64 := by
  have hand : parsed.element &&& 0x1F = parsed.element % 32 :=
    Nat.and_two_pow_sub_one_eq_mod parsed.element 5
  unfold Parsed.fold
  rw [if_pos ⟨hbits, h⟩]
  dsimp only
  rw [Nat.shiftRight_eq_div_pow, Nat.shiftRight_eq_div_pow]
  by_cases hindex : parsed.special &&& Spco.indexIncluded ≠ 0
  · refine ⟨parsed.element % 32, Nat.mod_lt _ (by decide), ?_, .inl rfl, rfl, rfl⟩
    rw [if_pos hindex, hand]
    exact two_pow_eq _
  · refine ⟨0, by decide, ?_, .inr rfl, rfl, rfl⟩
    exact if_neg hindex

theorem fold_bit {count : Nat} (h : parsed.hasBit = true) :
    (parsed.fold count bits).mask = BitVec.twoPow 32 (parsed.bit % 32) ∧
      (parsed.fold count bits).element = parsed.element ∧
      (parsed.fold count bits).elements = (parsed.element + count) % 2 ^ 64 := by
  unfold Parsed.fold
  rw [if_neg (fun hno => by rw [h] at hno; exact absurd hno.2 (by decide))]
  exact ⟨two_pow_eq _, rfl, rfl⟩

theorem fold_covers (hbits : 1 ≤ bits ∧ bits ≤ 32) (helement : parsed.element < 2 ^ 31) :
    Covers (parsed.fold 1 bits) bits ↔ FieldInWord parsed bits := by
  unfold FieldInWord
  by_cases hbit : parsed.hasBit = true
  · obtain ⟨hmask, hfirst, hcount⟩ := @fold_bit parsed bits 1 hbit
    rw [covers_iff (Nat.mod_lt _ (by decide)) hmask, hfirst, hcount]
    constructor
    · intro hlast
      right
      omega
    · rintro (hno | hfit)
      · exact absurd hbit (Bool.eq_false_iff.1 hno)
      · omega
  · have hno := Bool.eq_false_iff.2 hbit
    obtain ⟨m, hm, hmask, hplace, hfirst, hcount⟩ := @fold_noBit parsed bits 1 hbits.1 hno
    rw [covers_iff hm hmask, hfirst, hcount]
    refine ⟨fun _ => .inl hno, fun _ => ?_⟩
    rcases hplace with rfl | rfl <;> omega

theorem fold_mask (hbits : 1 ≤ bits) :
    ∃ m, m < 32 ∧ (parsed.fold 1 bits).mask = BitVec.twoPow 32 m := by
  by_cases hbit : parsed.hasBit = true
  · exact ⟨_, Nat.mod_lt _ (by decide), (fold_bit hbit).1⟩
  · obtain ⟨m, hm, hmask, -⟩ := @fold_noBit parsed bits 1 hbits (Bool.eq_false_iff.2 hbit)
    exact ⟨m, hm, hmask⟩

theorem fold_element_le (count : Nat) : (parsed.fold count bits).element ≤ parsed.element := by
  unfold Parsed.fold
  by_cases h : 0 < bits ∧ parsed.hasBit = false
  · rw [if_pos h]
    exact Nat.shiftRight_le _ _
  · rw [if_neg h]

/-- **The elements to fetch cover the bit field exactly where the link has no `B` flag or the field
ends in the word it starts in.** -/
theorem link_covers_field {F : Type} (conv : Floats F) (checks : Bool)
    (hparse : parseLink num text 1 bits periodOf findPlc = .ok (parsed, plc))
    (hbits : 1 ≤ bits ∧ bits ≤ 32) (helement : parsed.element < 2 ^ 31) :
    analyzeLink num text 1 bits periodOf findPlc = .ok (parsed.fold 1 bits, plc) ∧
    (Covers (parsed.fold 1 bits) bits ↔ FieldInWord parsed bits) ∧
    ∀ raw, Words raw → raw.length = wordOff (parsed.fold 1 bits).elements → ∀ rval,
      ((∃ v, getBits conv checks raw (parsed.fold 1 bits).element (parsed.fold 1 bits).mask bits =
          .ok v) ↔ FieldInWord parsed bits) ∧
      ((∃ raw', putBits conv checks raw (parsed.fold 1 bits).element (parsed.fold 1 bits).mask bits
          rval = .ok (true, raw')) ↔ FieldInWord parsed bits) := by
  refine ⟨by rw [analyzeLink, hparse]; rfl, fold_covers hbits helement,
    fun raw hw hlen rval => ?_⟩
  obtain ⟨m, hm, hmask⟩ := @fold_mask parsed bits hbits.1
  have hsmall : (parsed.fold 1 bits).element < 2 ^ 62 :=
    Nat.lt_of_le_of_lt (fold_element_le 1) (by omega)
  rw [← fold_covers hbits helement]
  exact field_fetched conv checks hm hmask hbits hsmall hw hlen rval

/-- The number of some decimal digits. -/
def digits (text : List Char) : Nat := text.foldl (fun n c => 10 * n + (c.toNat - 48)) 0

/-- Decimal numbers of one or two digits. -/
def plainNumbers : Numbers where
  parse := fun text =>
    if text ≠ [] ∧ text.length ≤ 2 ∧ text.all Char.isDigit then
      some (.finite (digits text))
    else none
  strtol := fun text =>
    (digits (text.takeWhile Char.isDigit), (text.takeWhile Char.isDigit).length)

def anyPlc (_ : List Char) : Option Unit := some ()

/-- `tag[1] B 30`. -/
def bit30 : Parsed :=
  ⟨"plc1".toList, "tag".toList, 1, Spco.bit ||| Spco.indexIncluded, .finite 1, 30⟩

theorem parseLink_bit30 :
    parseLink plainNumbers "@plc1 tag[1] B 30".toList 1 2 (.finite 1) anyPlc = .ok (bit30, ()) ∧
      parseLink plainNumbers "@plc1 tag[1] B 30".toList 1 4 (.finite 1) anyPlc =
        .ok (bit30, ()) := by
  decide +kernel

/-- Two bits from bit 30 on end in the word. -/
theorem link_covers_field_two :
    Covers (bit30.fold 1 2) 2 ∧ FieldInWord bit30 2 :=
  have h := link_covers_field wholeFloats false parseLink_bit30.1 (by decide) (by decide)
  ⟨h.2.1.2 (.inr (by decide)), .inr (by decide)⟩

/-- Four bits from bit 30 on reach into the next word, which is not fetched. -/
theorem straddling_field_uncovered :
    ∃ link, analyzeLink plainNumbers "@plc1 tag[1] B 30".toList 1 4 (.finite 1) anyPlc =
        .ok (link, ()) ∧ link.elements = 2 ∧ touched link.element link.mask 4 = [1, 2] ∧
      ¬ Covers link 4 :=
  ⟨bit30.fold 1 4, by rw [analyzeLink, parseLink_bit30.2]; rfl, by decide, by decide, by decide⟩

end EtherIp
