import Mathlib.Data.List.Basic
import Mathlib.Data.List.Infix

/-!
# Records that end with a trailer

A stream of records of one length, each a payload and the same trailer behind it, and where the
trailer is found in it.  In a payload it is not; but where it overlaps itself (`Overlap`) it is also
found across the end of a payload, or across the end of a trailer:

    found at y  →  y is where a trailer starts, or off by an overlap       (Records.at_cases)
-/

namespace Trailers

universe u

variable {α : Type u}

/-- The trailer, moved by `o` places, agrees with itself. -/
def Overlap (trailer : List α) (o : Nat) : Prop :=
  0 < o ∧ o < trailer.length ∧ trailer.drop o <+: trailer

/-- Payloads of `size` elements that do not contain the trailer. -/
structure Records (trailer : List α) (size : Nat) where
  payload : Nat → List α
  length_payload : ∀ i, (payload i).length = size
  no_trailer : ∀ i, ¬trailer <:+: payload i

/-- The trailer is at `y`. -/
def At (trailer : List α) (stream : Nat → α) (y : Nat) : Prop :=
  ∀ j a, trailer[j]? = some a → stream (y + j) = a

namespace Records

variable {trailer : List α} {size : Nat} (r : Records trailer size)

def period (_ : Records trailer size) : Nat := size + trailer.length

def record (i : Nat) : List α := r.payload i ++ trailer

/-- The records one after the other. -/
def stream [Inhabited α] (y : Nat) : α := (r.record (y / r.period)).getD (y % r.period) default

theorem length_record (i : Nat) : (r.record i).length = r.period := by
  rw [record, List.length_append, r.length_payload, period]

variable [Inhabited α]

theorem stream_record {i x : Nat} {a : α} (h : (r.record i)[x]? = some a) :
    r.stream (i * r.period + x) = a := by
  have hx : x < r.period := by
    rw [← r.length_record i]
    exact (List.getElem?_eq_some_iff.1 h).1
  rw [stream, Nat.mul_comm, Nat.mul_add_div (by omega), Nat.div_eq_of_lt hx, Nat.add_zero,
    Nat.mul_add_mod, Nat.mod_eq_of_lt hx, List.getD_eq_getElem?_getD, h, Option.getD_some]

theorem stream_payload {i x : Nat} {a : α} (h : (r.payload i)[x]? = some a) :
    r.stream (i * r.period + x) = a := by
  apply r.stream_record
  rw [record, List.getElem?_append_left (List.getElem?_eq_some_iff.1 h).1, h]

theorem stream_trailer {j : Nat} {a : α} (i : Nat) (h : trailer[j]? = some a) :
    r.stream (i * r.period + (size + j)) = a := by
  apply r.stream_record
  rw [record, List.getElem?_append_right (by rw [r.length_payload]; omega), r.length_payload,
    Nat.add_sub_cancel_left, h]

theorem at_trailer (i : Nat) : At trailer r.stream (i * r.period + size) := by
  intro j a h
  rw [Nat.add_assoc]
  exact r.stream_trailer i h

/-- No trailer is found within a payload. -/
theorem not_at_payload {i x : Nat} (hx : x + trailer.length ≤ size) :
    ¬At trailer r.stream (i * r.period + x) := by
  intro h
  apply r.no_trailer i
  have hcut : ((r.payload i).drop x).take trailer.length = trailer := by
    apply List.ext_getElem?
    intro j
    by_cases hj : j < trailer.length
    · have hin : x + j < (r.payload i).length := by
        rw [r.length_payload]
        omega
      have hat := h j _ (List.getElem?_eq_getElem hj)
      rw [Nat.add_assoc, r.stream_payload (List.getElem?_eq_getElem hin)] at hat
      rw [List.getElem?_take_of_lt hj, List.getElem?_drop, List.getElem?_eq_getElem hin,
        List.getElem?_eq_getElem hj, hat]
    · rw [List.getElem?_eq_none (by rw [List.length_take]; omega),
        List.getElem?_eq_none (by omega)]
  have hinfix := (List.take_prefix trailer.length ((r.payload i).drop x)).isInfix.trans
    (List.drop_suffix x (r.payload i)).isInfix
  rwa [hcut] at hinfix

omit [Inhabited α] in
/-- Elements that agree are one a prefix of the other. -/
theorem prefix_of_getElem? {l l' : List α}
    (h : ∀ (j : Nat) (a a' : α), l[j]? = some a → l'[j]? = some a' → a = a') (hlen : l.length ≤ l'.length) :
    l <+: l' := by
  rw [List.prefix_iff_eq_take]
  apply List.ext_getElem?
  intro j
  by_cases hj : j < l.length
  · have hj' : j < l'.length := by omega
    rw [List.getElem?_take_of_lt hj, List.getElem?_eq_getElem hj, List.getElem?_eq_getElem hj',
      h j _ _ (List.getElem?_eq_getElem hj) (List.getElem?_eq_getElem hj')]
  · rw [List.getElem?_eq_none (by omega), List.getElem?_eq_none (by rw [List.length_take]; omega)]

/-- Found across the end of a payload: the trailer overlaps itself, and the payload ends with
what of it comes before. -/
theorem at_end {i o : Nat} (ho : 0 < o) (hot : o < trailer.length) (hsize : trailer.length ≤ size)
    (h : At trailer r.stream (i * r.period + (size - o))) :
    Overlap trailer o ∧ trailer.take o <:+ r.payload i := by
  constructor
  · refine ⟨ho, hot, prefix_of_getElem? ?_ (by rw [List.length_drop]; omega)⟩
    intro j a a' hj hj'
    rw [List.getElem?_drop] at hj
    have hat := h (o + j) a hj
    rw [show i * r.period + (size - o) + (o + j) = i * r.period + (size + j) by omega,
      r.stream_trailer i hj'] at hat
    exact hat.symm
  · have hcut : (r.payload i).drop (size - o) = trailer.take o := by
      apply List.ext_getElem?
      intro j
      by_cases hj : j < o
      · have hin : size - o + j < (r.payload i).length := by
          rw [r.length_payload]
          omega
        have hjt : j < trailer.length := by omega
        have hat := h j _ (List.getElem?_eq_getElem hjt)
        rw [Nat.add_assoc, r.stream_payload (List.getElem?_eq_getElem hin)] at hat
        rw [List.getElem?_drop, List.getElem?_take_of_lt hj, List.getElem?_eq_getElem hin,
          List.getElem?_eq_getElem hjt, hat]
      · rw [List.getElem?_eq_none (by rw [List.length_drop, r.length_payload]; omega),
          List.getElem?_eq_none (by rw [List.length_take]; omega)]
    rw [← hcut]
    exact List.drop_suffix _ _

/-- Found across the end of a trailer: the trailer overlaps itself. -/
theorem at_start {i o : Nat} (ho : 0 < o) (hot : o < trailer.length)
    (h : At trailer r.stream (i * r.period + (size + o))) : Overlap trailer o := by
  refine ⟨ho, hot, prefix_of_getElem? ?_ (by rw [List.length_drop]; omega)⟩
  intro j a a' hj hj'
  rw [List.getElem?_drop] at hj
  have hat := h j a' hj'
  rw [Nat.add_assoc, Nat.add_assoc, r.stream_trailer i hj] at hat
  exact hat

/-- A payload that ends with the start of the trailer, as far as an overlap. -/
theorem at_of_end {i o : Nat} (ho : Overlap trailer o) (hend : trailer.take o <:+ r.payload i) :
    At trailer r.stream (i * r.period + (size - o)) := by
  obtain ⟨_, hot, hover⟩ := ho
  have hdrop : (r.payload i).drop (size - o) = trailer.take o := by
    have := List.suffix_iff_eq_drop.1 hend
    rw [r.length_payload, List.length_take, Nat.min_eq_left (by omega)] at this
    exact this.symm
  have hos : o ≤ size := by
    have := hend.length_le
    rw [r.length_payload, List.length_take] at this
    omega
  intro j a ha
  by_cases hj : j < o
  · rw [Nat.add_assoc]
    apply r.stream_payload
    rw [← List.getElem?_drop, hdrop, List.getElem?_take_of_lt hj, ha]
  · have hjt : j - o < trailer.length := by
      have := (List.getElem?_eq_some_iff.1 ha).1
      omega
    rw [show i * r.period + (size - o) + j = i * r.period + (size + (j - o)) by omega]
    apply r.stream_trailer
    obtain ⟨rest, hrest⟩ := hover
    have hjo : j - o < (trailer.drop o).length := by
      have := (List.getElem?_eq_some_iff.1 ha).1
      rw [List.length_drop]
      omega
    calc trailer[j - o]? = (trailer.drop o ++ rest)[j - o]? := by rw [hrest]
      _ = trailer[o + (j - o)]? := by rw [List.getElem?_append_left hjo, List.getElem?_drop]
      _ = some a := by rw [Nat.add_sub_cancel' (Nat.not_lt.1 hj), ha]

/-- Where the trailer is found. -/
theorem at_cases (hsize : trailer.length ≤ size) {y : Nat} (h : At trailer r.stream y)
    (hne : trailer ≠ []) :
    y % r.period = size ∨
      (∃ o, Overlap trailer o ∧ trailer.take o <:+ r.payload (y / r.period) ∧
        y % r.period + o = size) ∨
      ∃ o, Overlap trailer o ∧ y % r.period = size + o := by
  have hpos : 0 < r.period := by
    have := List.length_pos_iff.2 hne
    rw [period]
    omega
  have hy : y / r.period * r.period + y % r.period = y := by
    rw [Nat.mul_comm]
    exact Nat.div_add_mod y r.period
  have hlt : y % r.period < size + trailer.length := Nat.mod_lt y hpos
  by_cases hin : y % r.period + trailer.length ≤ size
  · rw [← hy] at h
    exact absurd h (r.not_at_payload hin)
  rcases Nat.lt_trichotomy (y % r.period) size with hlo | heq | hhi
  · rw [← hy, show y % r.period = size - (size - y % r.period) by omega] at h
    obtain ⟨hover, hend⟩ := r.at_end (by omega) (by omega) hsize h
    exact .inr (.inl ⟨_, hover, hend, by omega⟩)
  · exact .inl heq
  · rw [← hy, show y % r.period = size + (y % r.period - size) by omega] at h
    exact .inr (.inr ⟨_, r.at_start (by omega) (by omega) h, by omega⟩)

end Records

end Trailers
