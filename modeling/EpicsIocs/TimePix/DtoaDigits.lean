import EpicsIocs.Lib.DigitGen
import EpicsIocs.TimePix.Dtoa

/-!
# Digit generation

`grisu2_digit_gen` on `m_minus ≤ w ≤ m_plus` takes the digits of `m_plus` until no more than
`m_plus - m_minus` is left, and `grisu2_round` lowers the last one toward `w` within that: neither
overflows, the loops end, and the digits are those of a number from `m_minus` to `m_plus`
(`grisu2DigitGen_spec`).
-/

namespace TimePix.Dtoa

open Faults hiding add mul
open Words Ints DigitGen Decimal

variable {total delta s p2 : Nat} {buf : List UInt8}

theorem push_digit {d : Nat} (h : d < 10) (buf : List UInt8) :
    push buf d = .ok (buf ++ [digit d]) := by
  have hmod : d % 2 ^ 8 = d := Nat.mod_eq_of_lt (by omega)
  rw [push, hmod, add_of_lt (by omega), bind_ok]
  rfl

theorem lowerLast_digit {d : Nat} (hpos : 0 < d) (h : d < 10) (buf : List UInt8) :
    lowerLast (buf ++ [digit d]) = .ok (buf ++ [digit (d - 1)]) := by
  have hsub : 48 + d - 1 = 48 + (d - 1) := by omega
  simp only [lowerLast, List.getLast?_concat, List.dropLast_concat]
  rw [toNat_digit h, sub_of_le (by omega), bind_ok, hsub]
  rfl

/-! ## Rounding -/

theorem goesOn_spec (dist tenK : Nat) {rest : Nat} (hrest : rest ≤ delta) (hdelta : delta < 2 ^ 64) :
    ∃ b, goesOn dist delta rest tenK = .ok b ∧ (b = true → rest + tenK ≤ delta) := by
  unfold goesOn
  by_cases hdist : rest < dist
  · rw [if_pos hdist, sub_of_le hrest, bind_ok]
    by_cases hten : delta - rest ≥ tenK
    · have hsum : rest + tenK ≤ delta := by omega
      rw [if_pos hten, add_of_lt (by omega), bind_ok]
      by_cases hnext : rest + tenK < dist
      · exact ⟨true, if_pos hnext, fun _ => hsum⟩
      · rw [if_neg hnext, sub_of_le (by omega), bind_ok, bind_ok, sub_of_le (by omega), bind_ok]
        exact ⟨_, rfl, fun _ => hsum⟩
    · exact ⟨false, if_neg hten, by simp⟩
  · exact ⟨false, if_neg hdist, by simp⟩

/-- The last digit stays one, and over 0 where there is no other; the loop runs no more often than
it has been. -/
theorem grisu2Round_spec (dist : Nat) {d tenK rest : Nat} (hdelta : delta < 2 ^ 64)
    (h : Generated total delta buf d tenK rest) (hrest : rest ≤ delta) :
    ∃ d' rest', (∀ limit, d < limit →
        grisu2Round dist delta tenK limit (buf ++ [digit d]) rest = .ok (buf ++ [digit d'])) ∧
      Generated total delta buf d' tenK rest' ∧ rest' ≤ delta := by
  obtain ⟨b, hb, hsum⟩ := goesOn_spec dist tenK hrest hdelta
  cases b with
  | false =>
    refine ⟨d, rest, fun limit hlimit => ?_, h, hrest⟩
    obtain ⟨n, rfl⟩ : ∃ n, limit = n + 1 := ⟨limit - 1, by omega⟩
    rw [grisu2Round, hb, bind_ok]
    rfl
  | true =>
    have hle := hsum rfl
    obtain ⟨hpos, hlower⟩ := h.lower hle
    obtain ⟨d', rest', hrun, hgen, hrest'⟩ := grisu2Round_spec dist hdelta hlower hle
    refine ⟨d', rest', fun limit hlimit => ?_, hgen, hrest'⟩
    obtain ⟨n, rfl⟩ : ∃ n, limit = n + 1 := ⟨limit - 1, by omega⟩
    rw [grisu2Round, hb, bind_ok, if_pos rfl, lowerLast_digit hpos h.lt_ten, bind_ok,
      add_of_lt (by omega), bind_ok]
    exact hrun n (by omega)
termination_by d

/-! ## The digits -/

/-- After the digits of `p1`: either the last one is rounded, or less than one is left. -/
theorem integerDigits_spec (dist : Nat) (hs : s < 64) (htotal : total < 2 ^ 64) (hdelta : delta < total)
    (hgap : total ≤ 10 ^ 16 * delta) (hp2 : p2 < 2 ^ s) {n p1 : Nat}
    (hn : n ≤ 10) (h : Pending total delta buf (10 ^ n * 2 ^ s) (p1 * 2 ^ s + p2))
    (hfits : 0 < n → 10 ^ (n - 1) * 2 ^ s < 2 ^ 64) :
    (∃ (front : List UInt8) (d n' rest : Nat),
      (∀ limit, 10 ≤ limit → integerDigits limit dist delta s p2 n p1 (10 ^ (n - 1)) buf =
        .ok (front ++ [digit d], some (n' : Int))) ∧
      Generated total delta front d (10 ^ n' * 2 ^ s) rest ∧ rest ≤ delta ∧
      front.length ≤ 16 ∧ n' < 10) ∨
    ∃ buf', (∀ limit, 10 ≤ limit →
        integerDigits limit dist delta s p2 n p1 (10 ^ (n - 1)) buf = .ok (buf', none)) ∧
      Pending total delta buf' (2 ^ s) p2 := by
  induction n generalizing p1 buf with
  | zero =>
    right
    have hp1 : p1 = 0 := by
      have hlt := h.rest_lt
      by_contra hpos
      have hmul : 1 * 2 ^ s ≤ p1 * 2 ^ s := Nat.mul_le_mul_right _ (by omega)
      omega
    rw [hp1, Nat.zero_mul, Nat.zero_add, Nat.pow_zero, Nat.one_mul] at h
    exact ⟨buf, fun _ _ => rfl, h⟩
  | succ n ih =>
    have hpow : 0 < 10 ^ n := Nat.pow_pos (by decide)
    have hfits := hfits (Nat.succ_pos n)
    rw [Nat.add_sub_cancel] at hfits ⊢
    have hmod := Nat.mod_lt p1 hpow
    have hsplit : p1 / 10 ^ n * (10 ^ n * 2 ^ s) + (p1 % 10 ^ n * 2 ^ s + p2) =
        p1 * 2 ^ s + p2 := by
      rw [← Nat.mul_assoc, ← Nat.add_assoc, ← Nat.add_mul, Nat.div_add_mod']
    have hrest : p1 % 10 ^ n * 2 ^ s + p2 < 10 ^ n * 2 ^ s := by
      have hmul : (p1 % 10 ^ n + 1) * 2 ^ s ≤ 10 ^ n * 2 ^ s := Nat.mul_le_mul_right _ hmod
      rw [Nat.add_mul, Nat.one_mul] at hmul
      omega
    have hunit : 10 ^ (n + 1) * 2 ^ s = 10 * (10 ^ n * 2 ^ s) := by
      rw [Nat.pow_succ', Nat.mul_assoc]
    rw [hunit, ← hsplit] at h
    have hlength := h.length_le hgap
    have hgen := h.generated hrest
    have hrun : ∀ limit, integerDigits limit dist delta s p2 (n + 1) p1 (10 ^ n) buf =
        if p1 % 10 ^ n * 2 ^ s + p2 ≤ delta then
          grisu2Round dist delta (10 ^ n * 2 ^ s) limit (buf ++ [digit (p1 / 10 ^ n)])
            (p1 % 10 ^ n * 2 ^ s + p2) >>= fun buf => .ok (buf, some (n : Int))
        else integerDigits limit dist delta s p2 n (p1 % 10 ^ n) (10 ^ n / 10)
          (buf ++ [digit (p1 / 10 ^ n)]) := by
      intro limit
      rw [integerDigits, div_of_pos hpow, bind_ok, mod_of_pos hpow, bind_ok,
        push_digit hgen.lt_ten, bind_ok, shl_of_lt hs (by omega), bind_ok, add_of_lt (by omega),
        bind_ok, shl_of_lt hs hfits, bind_ok, div_of_pos (by decide), bind_ok]
      rfl
    by_cases hstop : p1 % 10 ^ n * 2 ^ s + p2 ≤ delta
    · left
      obtain ⟨d', rest', hround, hgen', hle⟩ := grisu2Round_spec dist (by omega) hgen hstop
      refine ⟨buf, d', n, rest', fun limit hlimit => ?_, hgen', hle, hlength, hn⟩
      rw [hrun, if_pos hstop, hround limit (Nat.lt_of_lt_of_le hgen.lt_ten hlimit), bind_ok]
    · have hpending := hgen.pending hrest (by omega)
      simp only [hrun, if_neg hstop]
      cases n with
      | zero => exact ih (Nat.zero_le 10) hpending (by simp)
      | succ n =>
        have hdiv : 10 ^ (n + 1) / 10 = 10 ^ n := by
          rw [Nat.pow_succ, Nat.mul_div_cancel _ (by decide)]
        rw [hdiv]
        refine ih (by omega) hpending fun _ => ?_
        have hle : 10 ^ n * 2 ^ s ≤ 10 ^ (n + 1) * 2 ^ s :=
          Nat.mul_le_mul_right _ (Nat.pow_le_pow_right (by decide) (Nat.le_succ n))
        rw [Nat.add_sub_cancel]
        omega

/-- The digits of `p2` end before the eighteenth: the loop runs `n` times at most. -/
theorem fractionDigits_spec {n : Nat} (hs : s ≤ 60) {dist : Nat} (hdist : dist ≤ delta)
    (hgap : total ≤ 10 ^ 16 * delta) (hn : 17 ≤ buf.length + n) {m : Nat} (hm : m ≤ buf.length)
    (h : Pending total delta buf (2 ^ s) p2) :
    ∃ (front : List UInt8) (d j rest : Nat),
      (∀ limit left, 10 ≤ limit → n ≤ left →
        fractionDigits limit s (2 ^ s) left p2 delta dist m buf =
          .ok (front ++ [digit d], -((m + j : Nat) : Int))) ∧
      Generated (10 ^ j * total) (10 ^ j * delta) front d (2 ^ s) rest ∧
      rest ≤ 10 ^ j * delta ∧ front.length ≤ 16 ∧ m + j ≤ 17 := by
  have hlength := h.length_le hgap
  induction n generalizing total delta dist p2 m buf with
  | zero => omega
  | succ n ih =>
    have hpos := Nat.two_pow_pos s
    have hone : 2 ^ s ≤ 2 ^ 60 := Nat.pow_le_pow_right (by decide) hs
    have hrest := h.rest_lt
    have hdelta := h.gap_lt
    have hmod := Nat.mod_lt (p2 * 10) hpos
    have hsplit : 10 * p2 = p2 * 10 / 2 ^ s * 2 ^ s + p2 * 10 % 2 ^ s := by
      rw [Nat.div_add_mod', Nat.mul_comm]
    have hscaled := h.scale (by decide : 0 < 10)
    rw [hsplit] at hscaled
    have hgen := hscaled.generated hmod
    have hgap' : 10 * total ≤ 10 ^ 16 * (10 * delta) := by omega
    have hm32 : int32.Holds ((m : Int) + 1) := holds_int32.2 (by omega)
    have hneg : int32.Holds (-((m : Int) + 1)) := holds_int32.2 (by omega)
    have hrun : ∀ limit left, fractionDigits limit s (2 ^ s) (left + 1) p2 delta dist m buf =
        if p2 * 10 % 2 ^ s ≤ 10 * delta then
          grisu2Round (10 * dist) (10 * delta) (2 ^ s) limit (buf ++ [digit (p2 * 10 / 2 ^ s)])
            (p2 * 10 % 2 ^ s) >>= fun buf => .ok (buf, -((m : Int) + 1))
        else fractionDigits limit s (2 ^ s) left (p2 * 10 % 2 ^ s) (10 * delta) (10 * dist)
          (m + 1 : Nat) (buf ++ [digit (p2 * 10 / 2 ^ s)]) := by
      intro limit left
      rw [fractionDigits, mul_of_lt (by omega), bind_ok, shr_of_lt (by omega), bind_ok,
        sub_of_le hpos, bind_ok, Nat.and_two_pow_sub_one_eq_mod, push_digit hgen.lt_ten, bind_ok,
        i32, checked_of_holds hm32, bind_ok, mul_of_lt (by omega), bind_ok, mul_of_lt (by omega),
        bind_ok, Nat.mul_comm delta, Nat.mul_comm dist, i32, checked_of_holds hneg]
      rfl
    by_cases hstop : p2 * 10 % 2 ^ s ≤ 10 * delta
    · obtain ⟨d', rest', hround, hgen', hle⟩ :=
        grisu2Round_spec (10 * dist) (by omega) hgen hstop
      refine ⟨buf, d', 1, rest', fun limit left hlimit hleft => ?_, hgen', hle, hlength, by omega⟩
      obtain ⟨left, rfl⟩ : ∃ i, left = i + 1 := ⟨left - 1, by omega⟩
      rw [hrun, if_pos hstop, hround limit (Nat.lt_of_lt_of_le hgen.lt_ten hlimit), bind_ok]
      rfl
    · have hpending := hgen.pending hmod (by omega)
      obtain ⟨front, d, j, rest, hrest', hgen', hle, hfront, hmj⟩ :=
        ih (m := m + 1) (Nat.mul_le_mul_left 10 hdist) hgap' (by simp; omega) (by simp; omega)
          hpending (hpending.length_le hgap')
      rw [← Nat.mul_assoc, ← Nat.mul_assoc, ← Nat.pow_succ] at hgen'
      rw [← Nat.mul_assoc, ← Nat.pow_succ] at hle
      have hindex : m + 1 + j = m + (j + 1) := by omega
      rw [hindex] at hrest' hmj
      refine ⟨front, d, j + 1, rest, fun limit left hlimit hleft => ?_, hgen', hle, hfront, hmj⟩
      obtain ⟨left, rfl⟩ : ∃ i, left = i + 1 := ⟨left - 1, by omega⟩
      rw [hrun, if_neg hstop]
      exact hrest' limit left hlimit (by omega)

theorem findLargestPow10From_spec {n k : Nat} (hn : 0 < n) (h : n < 10 ^ (k + 1)) :
    ∃ k' ≤ k, findLargestPow10From n (10 ^ k) (k + 1) = (k' + 1, 10 ^ k') ∧ 10 ^ k' ≤ n ∧
      n < 10 ^ (k' + 1) := by
  induction k with
  | zero => exact ⟨0, Nat.le_refl 0, rfl, hn, h⟩
  | succ k ih =>
    rw [findLargestPow10From]
    by_cases hlt : n < 10 ^ (k + 1)
    · obtain ⟨k', hle, hrun, hbounds⟩ := ih hlt
      have hdiv : 10 ^ (k + 1) / 10 = 10 ^ k := by
        rw [Nat.pow_succ, Nat.mul_div_cancel _ (by decide)]
      rw [if_pos hlt, hdiv]
      exact ⟨k', Nat.le_succ_of_le hle, hrun, hbounds⟩
    · rw [if_neg hlt]
      exact ⟨k + 1, Nat.le_refl _, rfl, by omega, h⟩

/-- The digits and the exponent stand for a number from `l` to `u`, in units of `2 ^ -s`. -/
def Between (l u s : Nat) (digits : List UInt8) (exponent : Int) : Prop :=
  ∃ i j : Nat, exponent = i - j ∧ l * 10 ^ j ≤ value digits * 10 ^ i * 2 ^ s ∧
    value digits * 10 ^ i * 2 ^ s ≤ u * 10 ^ j

/-- What digits without a leading 0 say of a number. -/
structure Written (digits : List UInt8) : Prop where
  all : digits.all isDigit = true
  leading : digits.head? ≠ some 48
  pos : 0 < digits.length
  length_le : digits.length ≤ 17

theorem written {gap d unit rest : Nat} (h : Generated total gap buf d unit rest)
    (hlength : buf.length ≤ 16) : Written (buf ++ [digit d]) := by
  refine ⟨h.all, h.leading, ?_, ?_⟩ <;> rw [List.length_append, List.length_singleton] <;> omega

theorem grisu2DigitGen_spec {l w u : Nat} {eMinus eW : Int} (hs : 32 ≤ s) (hs' : s ≤ 60)
    (hl : 0 < l) (hlw : l ≤ w) (hwu : w ≤ u) (hu : u < 2 ^ 64) (hone : 2 ^ s ≤ u)
    (hgap : u ≤ 10 ^ 16 * (u - l)) :
    ∃ digits exponent,
      (∀ limit, 17 ≤ limit →
        grisu2DigitGen limit [] ⟨l, eMinus⟩ ⟨w, eW⟩ ⟨u, -s⟩ = .ok (digits, exponent)) ∧
      Written digits ∧ (-17 ≤ exponent ∧ exponent < 10) ∧ Between l u s digits exponent := by
  have hpos := Nat.two_pow_pos s
  have hdiv : u / 2 ^ s < 2 ^ 32 := by
    rw [Nat.div_lt_iff_lt_mul hpos]
    have hle : 2 ^ 32 * 2 ^ 32 ≤ 2 ^ 32 * 2 ^ s :=
      Nat.mul_le_mul_left _ (Nat.pow_le_pow_right (by decide) hs)
    omega
  have hpow : 1 * 2 ^ s < 2 ^ 64 := by omega
  have hshift : int32.Holds (-(-(s : Int))) := holds_int32.2 (by omega)
  have hp1 : 0 < u / 2 ^ s := Nat.div_pos hone hpos
  have hp2 := Nat.mod_lt u hpos
  have hsplit := Nat.div_add_mod' u (2 ^ s)
  obtain ⟨k, hk, hlargest, hle, hlt⟩ := findLargestPow10From_spec hp1
    (by omega : u / 2 ^ s < 10 ^ (9 + 1))
  have hbelow : 10 ^ k * 2 ^ s ≤ u / 2 ^ s * 2 ^ s := Nat.mul_le_mul_right _ hle
  have hpending : Pending u (u - l) [] (10 ^ (k + 1) * 2 ^ s) (u / 2 ^ s * 2 ^ s + u % 2 ^ s) := by
    rw [hsplit]
    have habove : (u / 2 ^ s + 1) * 2 ^ s ≤ 10 ^ (k + 1) * 2 ^ s := Nat.mul_le_mul_right _ hlt
    rw [Nat.add_mul, Nat.one_mul] at habove
    refine .start (by omega) (by omega) ?_
    rw [Nat.pow_succ', Nat.mul_assoc]
    omega
  have hfits : 0 < k + 1 → 10 ^ (k + 1 - 1) * 2 ^ s < 2 ^ 64 := by
    intro _
    rw [Nat.add_sub_cancel]
    omega
  have hpow10 : findLargestPow10 (u / 2 ^ s) = (k + 1, 10 ^ k) := hlargest
  have hrun : ∀ limit buf n, integerDigits limit (u - w) (u - l) s (u % 2 ^ s) (k + 1) (u / 2 ^ s)
      (10 ^ k) [] = .ok (buf, n) → grisu2DigitGen limit [] ⟨l, eMinus⟩ ⟨w, eW⟩ ⟨u, -s⟩ =
        n.elim (fractionDigits limit s (2 ^ s) limit (u % 2 ^ s) (u - l) (u - w) 0 buf)
          fun n => .ok (buf, n) := by
    intro limit buf n hdigits
    simp only [grisu2DigitGen, DiyFp.sub]
    rw [sub_of_le (by omega), bind_ok, pure_bind, sub_of_le hwu, bind_ok, pure_bind, i32,
      checked_of_holds hshift, bind_ok, Int.neg_neg, shl_of_lt (by omega) hpow, bind_ok,
      shr_of_lt (by omega), bind_ok, Nat.one_mul, sub_of_le hpos, bind_ok,
      Nat.and_two_pow_sub_one_eq_mod, Nat.mod_eq_of_lt hdiv, hpow10]
    dsimp only
    rw [hdigits, bind_ok]
    cases n <;> rfl
  rcases integerDigits_spec (u - w) (by omega) hu (by omega) hgap hp2 (by omega) hpending hfits with
    ⟨front, d, n, rest, hinteger, hgen, hrest, hlength, hn⟩ | ⟨buf, hinteger, hpending⟩
  · have hsum := hgen.sum
    rw [← Nat.mul_assoc] at hsum
    refine ⟨_, n, fun limit hlimit => ?_, written hgen hlength, by omega, n, 0, by omega, ?_, ?_⟩
    · have hdigits := hinteger limit (by omega)
      rw [Nat.add_sub_cancel] at hdigits
      exact hrun limit _ _ hdigits
    · omega
    · omega
  · obtain ⟨front, d, j, rest, hfraction, hgen, hrest, hlength, hj⟩ :=
      fractionDigits_spec hs' (Nat.sub_le_sub_left hlw u) hgap (Nat.le_add_left 17 _)
        (Nat.zero_le _) hpending
    have hsum := hgen.sum
    rw [Nat.zero_add] at hfraction hj
    rw [Nat.mul_sub, Nat.mul_comm _ u, Nat.mul_comm _ l] at hrest
    rw [Nat.mul_comm _ u] at hsum
    have hmono : l * 10 ^ j ≤ u * 10 ^ j := Nat.mul_le_mul_right _ (Nat.le_trans hlw hwu)
    refine ⟨_, -(j : Int), fun limit hlimit => ?_, written hgen hlength, by omega, 0, j, by omega,
      ?_, ?_⟩
    · have hdigits := hinteger limit (by omega)
      rw [Nat.add_sub_cancel] at hdigits
      rw [hrun limit _ _ hdigits]
      exact hfraction limit limit (by omega) hlimit
    · rw [Nat.pow_zero, Nat.mul_one]
      omega
    · rw [Nat.pow_zero, Nat.mul_one]
      omega

end TimePix.Dtoa
