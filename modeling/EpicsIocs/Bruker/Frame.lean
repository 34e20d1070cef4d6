import EpicsIocs.Bruker.Sfrm
import EpicsIocs.Lib.BitStream

/-!
# What an SFRM frame file spells

A `Spelling` of a pixel is what is stored for it: a value of the pixel's width, and the entries of the
tables that stand for what does not fit it.  The correction loop reads the spellings of the pixels one
after the other, each table from its first entry on (`correct_eq_ok`), so a file is accepted just where it
stores spellings, and it is the image of what they say (`decode_eq_ok`).
-/

namespace Bruker

open Faults Bytes Machine

/-! ## Values in little-endian bytes -/

theorem readLe_eq {b : List UInt8} (h : b.length ≤ 4) : readLe b = leNat b := by
  induction b using List.reverseRecOn with
  | nil => rfl
  | append_singleton b a ih =>
    rw [List.length_append, List.length_singleton] at h
    have ih := ih (by omega)
    have ha := a.toNat_lt
    have hb : leNat b < 2 ^ (8 * b.length) := by
      have hlt := leNat_lt b
      rwa [show (256 : Nat) = 2 ^ 8 from rfl, ← Nat.pow_mul] at hlt
    have hshift : a.toNat <<< (8 * b.length) < 2 ^ 32 := by
      rw [Nat.shiftLeft_eq]
      calc a.toNat * 2 ^ (8 * b.length) < 2 ^ 8 * 2 ^ (8 * b.length) :=
            Nat.mul_lt_mul_of_pos_right ha (Nat.two_pow_pos _)
        _ = 2 ^ (8 + 8 * b.length) := (Nat.pow_add 2 8 _).symm
        _ ≤ 2 ^ 32 := Nat.pow_le_pow_right (by omega) (by omega)
    unfold readLe at ih ⊢
    rw [List.zipIdx_append, List.foldl_append, ih, BitStream.leNat_append]
    show leNat b ||| a.toNat <<< (8 * (0 + b.length)) % 2 ^ 32 =
      leNat b + 2 ^ (8 * b.length) * leNat [a]
    rw [Nat.zero_add, Nat.mod_eq_of_lt hshift, Nat.or_comm, ← Nat.shiftLeft_add_eq_or_of_lt hb,
      Nat.shiftLeft_eq, Nat.mul_comm, Nat.add_comm]
    congr 2

theorem leBytes_isPrefix {v width : Nat} {b : List UInt8} :
    (v < 256 ^ width ∧ leBytes width v <+: b) ↔ width ≤ b.length ∧ leNat (b.take width) = v := by
  constructor
  · rintro ⟨hv, more, rfl⟩
    rw [List.length_append, length_leBytes, List.take_left' (length_leBytes width v)]
    exact ⟨by omega, leNat_leBytes_of_lt hv⟩
  · rintro ⟨hle, rfl⟩
    have hlen : (b.take width).length = width := by
      rw [List.length_take]
      omega
    have hback := leBytes_leNat (b.take width)
    have hlt := leNat_lt (b.take width)
    rw [hlen] at hback hlt
    rw [hback]
    exact ⟨hlt, List.take_prefix width b⟩

theorem length_flatMap_leBytes (width : Nat) (vs : List Nat) :
    (vs.flatMap (leBytes width)).length = vs.length * width := by
  induction vs with
  | nil => exact (Nat.zero_mul _).symm
  | cons v vs ih =>
    rw [List.flatMap_cons, List.length_append, length_leBytes, ih, List.length_cons, Nat.succ_mul,
      Nat.add_comm]

theorem append_isPrefix {α : Type} {l m b : List α} :
    l ++ m <+: b ↔ l <+: b ∧ m <+: b.drop l.length := by
  constructor
  · rintro ⟨more, rfl⟩
    rw [List.append_assoc, List.drop_left]
    exact ⟨List.prefix_append _ _, List.prefix_append _ _⟩
  · rintro ⟨⟨more, rfl⟩, hm⟩
    rw [List.drop_left] at hm
    exact (List.prefix_append_right_inj l).2 hm

section
variable {checks : Bool} {bytes : List UInt8} {start width : Nat}

/-- A value that lies inside the file. -/
theorem valueAt_eq_ok {i v : Nat} (hfile : bytes.length ≤ isizeMax) (hw : width ≤ 4)
    (hstart : start + i * width ≤ bytes.length) :
    valueAt checks bytes start width i = .ok v ↔
      v < 256 ^ width ∧ leBytes width v <+: bytes.drop (start + i * width) := by
  have hmax : bytes.length + 4 ≤ u64Max := by
    have : isizeMax + 4 ≤ u64Max := by decide
    omega
  rw [leBytes_isPrefix, List.length_drop, valueAt, mul_of_le (by omega)]
  show (add checks start (i * width)).bind _ = _ ↔ _
  rw [add_of_le (by omega)]
  show (add checks (start + i * width) width).bind _ = _ ↔ _
  rw [add_of_le (by omega)]
  show (slice bytes _ _).bind _ = _ ↔ _
  by_cases hin : start + i * width + width ≤ bytes.length
  · have hlen : ((bytes.drop (start + i * width)).take width).length ≤ 4 := by
      rw [List.length_take]
      omega
    rw [slice_add hin]
    show Except.ok (readLe _) = _ ↔ _
    rw [readLe_eq hlen]
    constructor
    · intro h
      exact ⟨by omega, Except.ok.inj h⟩
    · rintro ⟨-, rfl⟩
      rfl
  · rw [slice, if_neg (by omega)]
    constructor
    · exact nofun
    · rintro ⟨hle, -⟩
      omega

/-- Values one after the other. -/
theorem values_eq_ok {count : Nat} {vs : List Nat} (hfile : bytes.length ≤ isizeMax) (hw : width ≤ 4)
    (hstart : start ≤ bytes.length) :
    values checks bytes start width count = .ok vs ↔
      vs.length = count ∧ (∀ v ∈ vs, v < 256 ^ width) ∧ vs.flatMap (leBytes width) <+: bytes.drop start := by
  have hfrom : ∀ k, start + k * width ≤ bytes.length →
      ((List.range' k count).mapM (valueAt checks bytes start width) = .ok vs ↔
        vs.length = count ∧ (∀ v ∈ vs, v < 256 ^ width) ∧
          vs.flatMap (leBytes width) <+: bytes.drop (start + k * width)) := by
    induction count generalizing vs with
    | zero =>
      intro k hk
      constructor
      · intro h
        cases h
        exact ⟨rfl, nofun, List.nil_prefix⟩
      · rintro ⟨hlen, -⟩
        rw [List.eq_nil_of_length_eq_zero hlen]
        rfl
    | succ count ih =>
      intro k hk
      rw [List.range'_succ, List.mapM_cons]
      show Except.bind _ _ = _ ↔ _
      have hnext : start + (k + 1) * width = start + k * width + width := by
        rw [Nat.succ_mul, Nat.add_assoc]
      constructor
      · intro h
        obtain ⟨v, hv, h⟩ := Fallible.of_bind h
        obtain ⟨rest, hrest, h⟩ := Fallible.of_bind h
        cases h
        rw [valueAt_eq_ok hfile hw hk] at hv
        have hroom := (leBytes_isPrefix.1 hv).1
        rw [List.length_drop] at hroom
        obtain ⟨hlen, hlt, hpre⟩ := (ih (k + 1) (by omega)).1 hrest
        refine ⟨by rw [List.length_cons, hlen], fun w hmem => ?_, ?_⟩
        · obtain rfl | hmem := List.mem_cons.1 hmem
          · exact hv.1
          · exact hlt w hmem
        · rw [List.flatMap_cons, append_isPrefix, length_leBytes, List.drop_drop, ← hnext]
          exact ⟨hv.2, hpre⟩
      · rintro ⟨hlen, hlt, hpre⟩
        cases vs with
        | nil => exact nomatch hlen
        | cons v vs =>
          rw [List.flatMap_cons, append_isPrefix, length_leBytes, List.drop_drop, ← hnext] at hpre
          have hv : v < 256 ^ width ∧ leBytes width v <+: bytes.drop (start + k * width) :=
            ⟨hlt v List.mem_cons_self, hpre.1⟩
          have hroom := (leBytes_isPrefix.1 hv).1
          rw [List.length_drop] at hroom
          have hrest : (List.range' (k + 1) count).mapM (valueAt checks bytes start width) = .ok vs :=
            (ih (k + 1) (by omega)).2 ⟨Nat.succ.inj hlen, fun w hw => hlt w (List.mem_cons_of_mem _ hw),
              hpre.2⟩
          rw [(valueAt_eq_ok hfile hw hk).2 hv, hrest]
          rfl
  have hzero := hfrom 0 (by omega)
  rwa [Nat.zero_mul, Nat.add_zero] at hzero

end

/-! ## Tables -/

/-- Where a table is stored, and how much the padding takes it up to. -/
structure TableAt (bytes : List UInt8) (start : Nat) (count : Int) (width : Nat) (entries : List Nat)
    (stop : Nat) : Prop where
  length_eq : entries.length = count.toNat
  lt : ∀ v ∈ entries, v < 256 ^ width
  stored : entries.flatMap (leBytes width) <+: bytes.drop start
  stop_eq : stop = start + (entries.length * width + 15) / 16 * 16
  stop_le : stop ≤ bytes.length

section
variable {checks : Bool} {bytes : List UInt8} {start width : Nat}

theorem table_eq_ok {count : Int} (what : String) {entries : List Nat} {stop : Nat}
    (hfile : bytes.length ≤ isizeMax) (hw : width ≤ 4) (hcount : count < 2 ^ 31)
    (hstart : start ≤ bytes.length) :
    table checks bytes start count width what = .ok (entries, stop) ↔
      TableAt bytes start count width entries stop := by
  have hmax : bytes.length + 2 ^ 40 ≤ u64Max := by
    have : isizeMax + 2 ^ 40 ≤ u64Max := by decide
    omega
  unfold table
  by_cases hnone : count ≤ 0
  · have htoNat : count.toNat = 0 := by omega
    rw [if_pos hnone]
    constructor
    · intro h
      cases h
      exact ⟨htoNat.symm, nofun, List.nil_prefix, by simp, hstart⟩
    · intro h
      have hentries := List.eq_nil_of_length_eq_zero (h.length_eq.trans htoNat)
      have hstop := h.stop_eq
      rw [hentries, List.length_nil, Nat.zero_mul] at hstop
      rw [hentries, hstop]
      rfl
  · have hn : count.toNat < 2 ^ 31 := by omega
    have hsize : count.toNat * width ≤ 2 ^ 31 * 4 := Nat.mul_le_mul (by omega) hw
    rw [if_neg hnone]
    dsimp only
    rw [mul_of_le (by omega)]
    show (mul checks ((count.toNat * width + 15) / 16) 16).bind _ = _ ↔ _
    rw [mul_of_le (by omega)]
    show (add checks start ((count.toNat * width + 15) / 16 * 16)).bind _ = _ ↔ _
    rw [add_of_le (by omega)]
    show (if _ then _ else _) = _ ↔ _
    by_cases hshort : bytes.length < start + (count.toNat * width + 15) / 16 * 16
    · rw [if_pos hshort]
      constructor
      · exact nofun
      · intro h
        have hstop := h.stop_eq
        have hle := h.stop_le
        rw [h.length_eq] at hstop
        omega
    · rw [if_neg hshort]
      constructor
      · intro h
        obtain ⟨vs, hvs, h⟩ := Fallible.of_bind h
        cases h
        obtain ⟨hlen, hlt, hpre⟩ := (values_eq_ok hfile hw hstart).1 hvs
        exact ⟨hlen, hlt, hpre, by rw [hlen], Nat.not_lt.1 hshort⟩
      · intro h
        show (values checks bytes start width count.toNat).bind _ = _
        rw [(values_eq_ok hfile hw hstart).2 ⟨h.length_eq, h.lt, h.stored⟩, h.stop_eq, h.length_eq]
        rfl

end

/-! ## Spellings -/

/-- What is stored for a pixel. -/
structure Spelling (bytesPerPixel : Nat) (hasUnderflows : Prop) where
  code : Nat
  over1 : Option Nat
  over2 : Option Nat
  under : Option Nat
  over1_iff : over1.isSome = true ↔ bytesPerPixel = 1 ∧ code = 255
  over2_iff : over2.isSome = true ↔ bytesPerPixel ≠ 4 ∧ over1.getD code = 65535
  under_iff : under.isSome = true ↔ over2.getD (over1.getD code) = 0 ∧ hasUnderflows

namespace Spelling

variable {bytesPerPixel : Nat} {hasUnderflows : Prop}

def raw (s : Spelling bytesPerPixel hasUnderflows) : Nat := s.over2.getD (s.over1.getD s.code)

/-- The pixel. -/
def value (baseline : Int) (s : Spelling bytesPerPixel hasUnderflows) : Nat :=
  if s.raw = 0 then s.under.getD 0
  else if baseline ≠ 0 then (s.raw + (baseline % 2 ^ 32).toNat) % 2 ^ 32
  else s.raw

end Spelling

/-- The spellings are those of a frame: their codes are the frame's, and the entries they use stand in the
tables in the same order. -/
structure Spelled {bytesPerPixel : Nat} {hasUnderflows : Prop} (codes : List Nat) (t : Tables) (used : Used)
    (ss : List (Spelling bytesPerPixel hasUnderflows)) : Prop where
  codes_eq : ss.map Spelling.code = codes
  over1 : ss.flatMap (fun s => s.over1.toList) <+: t.overflows1.drop used.n1
  over2 : ss.flatMap (fun s => s.over2.toList) <+: t.overflows2.drop used.n2
  under : ss.flatMap (fun s => s.under.toList) <+: t.underflows.drop used.nu

theorem entry_eq_ok {entries : List Nat} {n v : Nat} {what : String} :
    entry entries n what = .ok v ↔ [v] <+: entries.drop n := by
  rw [List.singleton_prefix_iff_head?_eq_some, List.head?_drop, entry]
  cases entries[n]? with
  | none => exact ⟨nofun, nofun⟩
  | some w => exact ⟨fun h => congrArg some (Except.ok.inj h), fun h => congrArg Except.ok (Option.some.inj h)⟩

/-- A step that uses an entry of a table under a condition. -/
theorem use_eq_ok {cond : Prop} [Decidable cond] {entries : List Nat} {n value : Nat} {what : String}
    {used used' : Used} {r : Nat × Used} :
    (if cond then (entry entries n what).map fun v => (v, used') else .ok (value, used)) = .ok r ↔
      ∃ o : Option Nat, (o.isSome = true ↔ cond) ∧ o.toList <+: entries.drop n ∧
        r = (o.getD value, if o.isSome then used' else used) := by
  by_cases h : cond
  · rw [if_pos h]
    constructor
    · intro hr
      obtain ⟨v, hv, rfl⟩ := Fallible.of_map hr
      exact ⟨some v, iff_of_true rfl h, entry_eq_ok.1 hv, rfl⟩
    · rintro ⟨o, ho, hpre, rfl⟩
      obtain ⟨v, rfl⟩ := Option.isSome_iff_exists.1 (ho.2 h)
      rw [entry_eq_ok.2 hpre]
      rfl
  · rw [if_neg h]
    constructor
    · intro hr
      cases hr
      exact ⟨none, iff_of_false Bool.false_ne_true h, List.nil_prefix, rfl⟩
    · rintro ⟨o, ho, -, rfl⟩
      cases o with
      | none => rfl
      | some v => exact absurd (ho.1 rfl) h

theorem correct1_eq_ok {bytesPerPixel value : Nat} {t : Tables} {used : Used} {r : Nat × Used} :
    correct1 bytesPerPixel t value used = .ok r ↔
      ∃ o : Option Nat, (o.isSome = true ↔ bytesPerPixel = 1 ∧ value = 255) ∧
        o.toList <+: t.overflows1.drop used.n1 ∧
        r = (o.getD value, { used with n1 := used.n1 + o.toList.length }) := by
  unfold correct1
  rw [use_eq_ok]
  refine exists_congr fun o => and_congr_right' (and_congr_right' ?_)
  cases o <;> rfl

theorem correct2_eq_ok {bytesPerPixel value : Nat} {t : Tables} {used : Used} {r : Nat × Used} :
    correct2 bytesPerPixel t value used = .ok r ↔
      ∃ o : Option Nat, (o.isSome = true ↔ bytesPerPixel ≠ 4 ∧ value = 65535) ∧
        o.toList <+: t.overflows2.drop used.n2 ∧
        r = (o.getD value, { used with n2 := used.n2 + o.toList.length }) := by
  unfold correct2
  rw [use_eq_ok]
  refine exists_congr fun o => and_congr_right' (and_congr_right' ?_)
  cases o <;> rfl

theorem correct3_eq_ok {baseline : Int} {value : Nat} {t : Tables} {used : Used} {r : Nat × Used} :
    correct3 baseline t value used = .ok r ↔
      ∃ o : Option Nat, (o.isSome = true ↔ value = 0 ∧ t.underflows ≠ []) ∧
        o.toList <+: t.underflows.drop used.nu ∧
        r = (if value = 0 then o.getD 0
          else if baseline ≠ 0 then (value + (baseline % 2 ^ 32).toNat) % 2 ^ 32 else value,
          { used with nu := used.nu + o.toList.length }) := by
  unfold correct3
  by_cases h0 : value = 0
  · subst h0
    have hcond : ¬t.underflows.isEmpty = true ↔ 0 = 0 ∧ t.underflows ≠ [] := by
      rw [List.isEmpty_iff, ne_eq, eq_self, true_and]
    rw [if_pos rfl, ← ite_not, use_eq_ok]
    refine exists_congr fun o => ?_
    rw [hcond, if_pos rfl]
    refine and_congr_right' (and_congr_right' ?_)
    cases o <;> rfl
  · have hvalue : (if baseline ≠ 0 then
          (Except.ok ((value + (baseline % 2 ^ 32).toNat) % 2 ^ 32, used) : Except String (Nat × Used))
        else .ok (value, used)) =
        .ok (if baseline ≠ 0 then (value + (baseline % 2 ^ 32).toNat) % 2 ^ 32 else value, used) := by
      split <;> rfl
    rw [if_neg h0, hvalue]
    constructor
    · intro h
      refine ⟨none, iff_of_false Bool.false_ne_true fun h => h0 h.1, List.nil_prefix, ?_⟩
      rw [if_neg h0]
      exact (Except.ok.inj h).symm
    · rintro ⟨o, ho, -, rfl⟩
      cases o with
      | none =>
        rw [if_neg h0]
        rfl
      | some v => exact absurd (ho.1 rfl).1 h0

/-- **The correction loop.**  It goes through just where the codes and the tables are those of spellings, and gives
their pixels. -/
theorem correct_eq_ok {bytesPerPixel : Nat} {baseline : Int} {t : Tables} {codes pixels : List Nat}
    {used : Used} :
    correct bytesPerPixel baseline t codes used = .ok pixels ↔
      ∃ ss : List (Spelling bytesPerPixel (t.underflows ≠ [])), Spelled codes t used ss ∧
        ss.map (Spelling.value baseline) = pixels := by
  induction codes generalizing pixels used with
  | nil =>
    constructor
    · intro h
      cases h
      exact ⟨[], ⟨rfl, List.nil_prefix, List.nil_prefix, List.nil_prefix⟩, rfl⟩
    · rintro ⟨ss, hss, rfl⟩
      rw [List.map_eq_nil_iff.1 hss.codes_eq]
      rfl
  | cons code codes ih =>
    rw [correct]
    constructor
    · intro h
      obtain ⟨r1, h1, h⟩ := Fallible.of_bind h
      obtain ⟨r2, h2, h⟩ := Fallible.of_bind h
      obtain ⟨r3, h3, h⟩ := Fallible.of_bind h
      obtain ⟨rest, hrest, h⟩ := Fallible.of_bind h
      cases h
      obtain ⟨o1, ho1, hpre1, rfl⟩ := correct1_eq_ok.1 h1
      obtain ⟨o2, ho2, hpre2, rfl⟩ := correct2_eq_ok.1 h2
      obtain ⟨o3, ho3, hpre3, rfl⟩ := correct3_eq_ok.1 h3
      obtain ⟨ss, hss, rfl⟩ := ih.1 hrest
      refine ⟨⟨code, o1, o2, o3, ho1, ho2, ho3⟩ :: ss, ⟨?_, ?_, ?_, ?_⟩, rfl⟩
      · rw [List.map_cons, hss.codes_eq]
      · rw [List.flatMap_cons, append_isPrefix, List.drop_drop]
        exact ⟨hpre1, hss.over1⟩
      · rw [List.flatMap_cons, append_isPrefix, List.drop_drop]
        exact ⟨hpre2, hss.over2⟩
      · rw [List.flatMap_cons, append_isPrefix, List.drop_drop]
        exact ⟨hpre3, hss.under⟩
    · rintro ⟨ss, hss, rfl⟩
      cases ss with
      | nil => exact nomatch hss.codes_eq
      | cons s ss =>
        obtain ⟨hcodes, hover1, hover2, hunder⟩ := hss
        rw [List.map_cons, List.cons.injEq] at hcodes
        obtain ⟨rfl, hcodes⟩ := hcodes
        rw [List.flatMap_cons, append_isPrefix, List.drop_drop] at hover1 hover2 hunder
        let used1 : Used := { used with n1 := used.n1 + s.over1.toList.length }
        let used2 : Used := { used1 with n2 := used.n2 + s.over2.toList.length }
        let used3 : Used := { used2 with nu := used.nu + s.under.toList.length }
        have h1 : correct1 bytesPerPixel t s.code used = .ok (s.over1.getD s.code, used1) :=
          correct1_eq_ok.2 ⟨s.over1, s.over1_iff, hover1.1, rfl⟩
        have h2 : correct2 bytesPerPixel t (s.over1.getD s.code) used1 = .ok (s.raw, used2) :=
          correct2_eq_ok.2 ⟨s.over2, s.over2_iff, hover2.1, rfl⟩
        have h3 : correct3 baseline t s.raw used2 = .ok (s.value baseline, used3) :=
          correct3_eq_ok.2 ⟨s.under, s.under_iff, hunder.1, rfl⟩
        have hrest : correct bytesPerPixel baseline t codes used3 = .ok (ss.map (Spelling.value baseline)) :=
          ih.2 ⟨ss, ⟨hcodes, hover1.2, hover2.2, hunder.2⟩, rfl⟩
        simp only [h1, h2, h3, hrest, bind, Except.bind]
        rfl

/-! ## Files -/

/-- What a file with a header stores behind it: the codes of the pixels, and the tables. -/
structure Stored (h : Header) (bytes : List UInt8) (codes : List Nat) (t : Tables) : Prop where
  length_eq : codes.length = h.rows * h.cols % 2 ^ 64
  lt : ∀ v ∈ codes, v < 256 ^ h.bytesPerPixel
  pixels : codes.flatMap (leBytes h.bytesPerPixel) <+:
    bytes.drop (h.headerBlocks * blockLen % 2 ^ 64)
  tables : ∃ stop1 stop2 stop3,
    TableAt bytes (h.headerBlocks * blockLen % 2 ^ 64 + codes.length * h.bytesPerPixel) h.numUnderflows
      h.underflowBytesPerPixel t.underflows stop1 ∧
    TableAt bytes stop1 h.numOverflows1 2 t.overflows1 stop2 ∧
    TableAt bytes stop2 h.numOverflows2 4 t.overflows2 stop3

theorem mul_eq_ok {checks : Bool} {a b n : Nat} (h : (mul checks a b : Outcome String Nat) = .ok n) :
    n = a * b % 2 ^ 64 := by
  unfold mul at h
  split at h
  · next hle =>
    have hmax : u64Max = 2 ^ 64 - 1 := rfl
    rw [← Except.ok.inj h, Nat.mod_eq_of_lt (by omega)]
  · split at h
    · exact nomatch h
    · exact (Except.ok.inj h).symm

theorem asI32_lt (v : Int) : asI32 v < 2 ^ 31 := by
  unfold asI32
  have h := Int.bmod_lt (x := v) (m := 2 ^ 32) (by decide)
  omega

/-- What the header is checked for. -/
structure Checked (checks : Bool) (bytes : List UInt8) (h : Header) : Prop where
  width : isWidth h.bytesPerPixel = true
  underflowWidth : isWidth h.underflowBytesPerPixel = true
  blocks : (mul checks h.headerBlocks blockLen : Outcome String Nat) =
    .ok (h.headerBlocks * blockLen % 2 ^ 64)
  blocks_le : h.headerBlocks * blockLen % 2 ^ 64 ≤ bytes.length
  counts_lt : h.numUnderflows < 2 ^ 31 ∧ h.numOverflows1 < 2 ^ 31 ∧ h.numOverflows2 < 2 ^ 31
  size_pos : 0 < h.rows ∧ 0 < h.cols

theorem width_le {width : Nat} (h : isWidth width = true) : width ≤ 4 := by
  unfold isWidth at h
  simp only [Bool.or_eq_true, decide_eq_true_eq] at h
  omega

theorem isWidth_toNat {width : Int} (h : isWidth width = true) : isWidth width.toNat = true := by
  have hpos : 0 ≤ width := by
    unfold isWidth at h
    simp only [Bool.or_eq_true, decide_eq_true_eq] at h
    omega
  rwa [Int.toNat_of_nonneg hpos]

theorem checked_of_parseHeader {checks : Bool} {bytes : List UInt8} {h : Header}
    (hheader : parseHeader checks bytes = .ok h) : Checked checks bytes h := by
  unfold parseHeader at hheader
  obtain ⟨format, -, hheader⟩ := Fallible.of_bind hheader
  obtain ⟨version, -, hheader⟩ := Fallible.of_bind hheader
  obtain ⟨blocks, -, hheader⟩ := Fallible.of_bind hheader
  obtain ⟨-, hheader⟩ := Fallible.of_guard hheader
  obtain ⟨-, hheader⟩ := Fallible.of_guard hheader
  obtain ⟨headerBytes, hbytes, hheader⟩ := Fallible.of_bind hheader
  obtain ⟨hshort, hheader⟩ := Fallible.of_guard hheader
  obtain ⟨counts, -, hheader⟩ := Fallible.of_bind hheader
  obtain ⟨widths, -, hheader⟩ := Fallible.of_bind hheader
  obtain ⟨rows, -, hheader⟩ := Fallible.of_bind hheader
  obtain ⟨cols, -, hheader⟩ := Fallible.of_bind hheader
  obtain ⟨order, -, hheader⟩ := Fallible.of_bind hheader
  obtain ⟨frame, -, hheader⟩ := Fallible.of_bind hheader
  obtain ⟨-, hheader⟩ := Fallible.of_guard hheader
  obtain ⟨hwidth, hheader⟩ := Fallible.of_guard hheader
  obtain ⟨hunder, hheader⟩ := Fallible.of_guard hheader
  obtain ⟨hsize, hheader⟩ := Fallible.of_guard hheader
  rw [Bool.not_eq_true, Bool.not_eq_false'] at hwidth hunder
  cases hheader
  have hmul := mul_eq_ok hbytes
  rw [hmul] at hbytes hshort
  exact ⟨isWidth_toNat hwidth, isWidth_toNat hunder, hbytes, by dsimp only; omega,
    ⟨asI32_lt _, asI32_lt _, asI32_lt _⟩, by dsimp only; omega⟩

theorem mul_of_fits {checks : Bool} {a b : Nat} (h : checks = true → a * b ≤ u64Max) :
    (mul checks a b : Outcome String Nat) = .ok (a * b % 2 ^ 64) := by
  have hmax : u64Max = 2 ^ 64 - 1 := rfl
  unfold mul
  by_cases hle : a * b ≤ u64Max
  · rw [if_pos hle, Nat.mod_eq_of_lt (by omega)]
  · rw [if_neg hle, if_neg fun hchecks => hle (h hchecks)]

/-- Behind the header. -/
theorem decode_eq {checks : Bool} {bytes : List UInt8} {h : Header} (hheader : parseHeader checks bytes = .ok h)
    (hfits : checks = true → h.rows * h.cols ≤ u64Max) :
    decode checks bytes =
      (mul checks (h.rows * h.cols % 2 ^ 64) h.bytesPerPixel).bind fun dataBytes =>
      (add checks (h.headerBlocks * blockLen % 2 ^ 64) dataBytes).bind fun stop =>
      if bytes.length < stop then
        fail s!"the file holds {bytes.length - h.headerBlocks * blockLen % 2 ^ 64} of the {dataBytes} pixel bytes the header promises"
      else
        (values checks bytes (h.headerBlocks * blockLen % 2 ^ 64) h.bytesPerPixel
          (h.rows * h.cols % 2 ^ 64)).bind fun data =>
        (table checks bytes stop h.numUnderflows h.underflowBytesPerPixel "underflow").bind fun t1 =>
        (table checks bytes t1.2 h.numOverflows1 2 "1-byte overflow").bind fun t2 =>
        (table checks bytes t2.2 h.numOverflows2 4 "2-byte overflow").bind fun t3 =>
        (lift (correct h.bytesPerPixel h.baseline ⟨t1.1, t2.1, t3.1⟩ data ⟨0, 0, 0⟩)).bind fun data =>
        .ok ⟨h.rows, h.cols, data⟩ := by
  have hc := checked_of_parseHeader hheader
  unfold decode
  rw [hheader]
  show (mul checks h.rows h.cols).bind _ = _
  rw [mul_of_fits hfits]
  show (mul checks h.headerBlocks blockLen).bind _ = _
  rw [hc.blocks]
  rfl

theorem lift_eq_ok {x : Except String (List Nat)} {r : List Nat} :
    (lift x : Outcome String (List Nat)) = .ok r ↔ x = .ok r := by
  cases x with
  | error e => exact ⟨nofun, nofun⟩
  | ok a => exact ⟨fun h => congrArg Except.ok (Except.ok.inj h), fun h => congrArg Except.ok (Except.ok.inj h)⟩

/-- The pixels end inside the file. -/
theorem stored_le {bytes : List UInt8} {start width : Nat} {codes : List Nat} (hstart : start ≤ bytes.length)
    (hpre : codes.flatMap (leBytes width) <+: bytes.drop start) :
    start + codes.length * width ≤ bytes.length := by
  have hle := hpre.length_le
  rw [length_flatMap_leBytes, List.length_drop] at hle
  omega

/-- **The frame file.**  A file is accepted just where it stores spellings of as many pixels as its header says, and
it is the image of what they say. -/
theorem decode_eq_ok {checks : Bool} {bytes : List UInt8} {h : Header} {image : Image}
    (hfile : bytes.length ≤ isizeMax) (hheader : parseHeader checks bytes = .ok h)
    (hfits : checks = true → h.rows * h.cols ≤ u64Max) :
    decode checks bytes = .ok image ↔
      ∃ codes t, Stored h bytes codes t ∧
        ∃ ss : List (Spelling h.bytesPerPixel (t.underflows ≠ [])), Spelled codes t ⟨0, 0, 0⟩ ss ∧
          image = ⟨h.rows, h.cols, ss.map (Spelling.value h.baseline)⟩ := by
  have hc := checked_of_parseHeader hheader
  have hwidth := width_le hc.width
  have hunder := width_le hc.underflowWidth
  obtain ⟨hcount, hcount1, hcount2⟩ := hc.counts_lt
  have hmax : isizeMax < u64Max := by decide
  rw [decode_eq hheader hfits]
  constructor
  · intro hok
    obtain ⟨dataBytes, hdata, hok⟩ := Fallible.of_bind hok
    obtain ⟨stop, hstop, hok⟩ := Fallible.of_bind hok
    obtain ⟨hshort, hok⟩ := Fallible.of_guard hok
    obtain ⟨codes, hcodes, hok⟩ := Fallible.of_bind hok
    obtain ⟨⟨u, stop1⟩, htable, hok⟩ := Fallible.of_bind hok
    obtain ⟨⟨o1, stop2⟩, htable1, hok⟩ := Fallible.of_bind hok
    obtain ⟨⟨o2, stop3⟩, htable2, hok⟩ := Fallible.of_bind hok
    obtain ⟨pixels, hcorrect, hok⟩ := Fallible.of_bind hok
    obtain ⟨hlen, hlt, hpre⟩ := (values_eq_ok hfile hwidth hc.blocks_le).1 hcodes
    have hroom := stored_le hc.blocks_le hpre
    rw [← hlen, mul_of_le (by omega)] at hdata
    rw [← Except.ok.inj hdata, add_of_le (by omega)] at hstop
    obtain rfl := Except.ok.inj hstop
    have h1 := (table_eq_ok _ hfile hunder hcount hroom).1 htable
    have h2 := (table_eq_ok _ hfile (by omega) hcount1 h1.stop_le).1 htable1
    have h3 := (table_eq_ok _ hfile (by omega) hcount2 h2.stop_le).1 htable2
    obtain ⟨ss, hss, rfl⟩ := correct_eq_ok.1 (lift_eq_ok.1 hcorrect)
    exact ⟨codes, ⟨u, o1, o2⟩, ⟨hlen, hlt, hpre, stop1, stop2, stop3, h1, h2, h3⟩, ss, hss,
      (Except.ok.inj hok).symm⟩
  · rintro ⟨codes, t, hstored, ss, hss, rfl⟩
    obtain ⟨stop1, stop2, stop3, h1, h2, h3⟩ := hstored.tables
    have hroom := stored_le hc.blocks_le hstored.pixels
    have hcodes : values checks bytes _ h.bytesPerPixel _ = .ok codes :=
      (values_eq_ok hfile hwidth hc.blocks_le).2 ⟨hstored.length_eq, hstored.lt, hstored.pixels⟩
    have htable : table checks bytes _ _ _ "underflow" = .ok (t.underflows, stop1) :=
      (table_eq_ok _ hfile hunder hcount hroom).2 h1
    have htable1 : table checks bytes _ _ _ "1-byte overflow" = .ok (t.overflows1, stop2) :=
      (table_eq_ok _ hfile (by omega) hcount1 h1.stop_le).2 h2
    have htable2 : table checks bytes _ _ _ "2-byte overflow" = .ok (t.overflows2, stop3) :=
      (table_eq_ok _ hfile (by omega) hcount2 h2.stop_le).2 h3
    have hcorrect : correct h.bytesPerPixel h.baseline t codes ⟨0, 0, 0⟩ = .ok _ :=
      correct_eq_ok.2 ⟨ss, hss, rfl⟩
    rw [← hstored.length_eq] at hcodes ⊢
    rw [mul_of_le (by omega)]
    show (add checks _ _).bind _ = _
    rw [add_of_le (by omega)]
    show (if _ then _ else _) = _
    rw [if_neg (by omega), hcodes]
    show (table checks bytes _ _ _ _).bind _ = _
    rw [htable]
    show (table checks bytes _ _ _ _).bind _ = _
    rw [htable1]
    show (table checks bytes _ _ _ _).bind _ = _
    rw [htable2]
    show (lift _).bind _ = _
    rw [lift_eq_ok.2 hcorrect]
    rfl

end Bruker
