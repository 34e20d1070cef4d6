import Mathlib.Data.List.ReduceOption

/-!
# Exact reads of a stream that comes in pieces

A stream arrives in chunks, between which reads time out.  A read gets a chunk, or as much of it as
it asks for.  Its `tokens` are the bytes one by one, with `none` where a read times out: what an
exact read makes of a stream depends on these only (`readExact_reads`), and so does what readers make
of it one after the other (`Reads.andThen`).  In a stream that begins like
`gap ++ frame`, with no time-out inside the frame, one that is met lies in the gap (`in_gap`).
-/

namespace Arrivals

universe u v w

/-- What a read finds; a socket that is closed is an empty chunk. -/
inductive Arrival (α : Type u) where
  | chunk (bytes : List α)
  | timeout
  deriving DecidableEq, Repr

inductive ReadError (ε : Type v) where
  | timeout
  | closed
  | other (e : ε)
  deriving DecidableEq, Repr

/-- What reading comes to; `waiting` where more has to arrive first. -/
inductive Reading (ε : Type v) (β : Type w) where
  | done (b : β)
  | failed (e : ReadError ε)
  | waiting
  deriving DecidableEq, Repr

variable {α : Type u} {ε : Type v} {β γ : Type w}

abbrev Reader (α : Type u) (ε : Type v) (β : Type w) : Type (max u v w) :=
  List (Arrival α) → Reading ε β × List (Arrival α)

def Reader.andThen (x : Reader α ε β) (f : β → Reader α ε γ) : Reader α ε γ := fun arrivals =>
  match x arrivals with
  | (.done b, rest) => f b rest
  | (.failed e, rest) => (.failed e, rest)
  | (.waiting, rest) => (.waiting, rest)

def Reader.refuse (e : ε) : Reader α ε β := fun arrivals => (.failed (.other e), arrivals)

/-- Reads until `out` has `want` bytes. -/
def readExact (want : Nat) (out : List α) : Reader α ε (List α)
  | [] => (if want ≤ out.length then .done out else .waiting, [])
  | .timeout :: rest =>
    if want ≤ out.length then (.done out, .timeout :: rest) else (.failed .timeout, rest)
  | .chunk bytes :: rest =>
    if want ≤ out.length then (.done out, .chunk bytes :: rest)
    else if bytes = [] then (.failed .closed, rest)
    else if bytes.length ≤ want - out.length then readExact want (out ++ bytes) rest
    else (.done (out ++ bytes.take (want - out.length)),
      .chunk (bytes.drop (want - out.length)) :: rest)

def Arrival.tokens : Arrival α → List (Option α)
  | chunk bytes => bytes.map some
  | timeout => [none]

def tokens (arrivals : List (Arrival α)) : List (Option α) := arrivals.flatMap Arrival.tokens

/-- No chunk is empty. -/
def Open (arrivals : List (Arrival α)) : Prop := .chunk [] ∉ arrivals

section Reader

variable {x : Reader α ε β} {f : β → Reader α ε γ} {arrivals rest : List (Arrival α)}

theorem andThen_done {b : β} (h : x arrivals = (.done b, rest)) :
    x.andThen f arrivals = f b rest := by
  unfold Reader.andThen
  rw [h]

theorem andThen_failed {e : ReadError ε} (h : x arrivals = (.failed e, rest)) :
    x.andThen f arrivals = (.failed e, rest) := by
  unfold Reader.andThen
  rw [h]

theorem andThen_waiting (h : x arrivals = (.waiting, rest)) :
    x.andThen f arrivals = (.waiting, rest) := by
  unfold Reader.andThen
  rw [h]

end Reader

theorem tokens_chunk (bytes : List α) (rest : List (Arrival α)) :
    tokens (.chunk bytes :: rest) = bytes.map some ++ tokens rest := rfl

theorem Open.tail {a : Arrival α} {rest : List (Arrival α)} (h : Open (a :: rest)) : Open rest :=
  fun hmem => h (List.mem_cons_of_mem a hmem)

/-- A reader takes `k` bytes of what has arrived, and gives `value` of them; or it meets a time-out
in front of the last of them, or the end of what has arrived. -/
inductive Reads (k : Nat) (value : List α → β) (ts : List (Option α)) :
    Reading ε β × List (Arrival α) → Prop
  | done {bytes : List α} {rest : List (Arrival α)} : bytes.length = k → Open rest →
      ts = bytes.map some ++ tokens rest → Reads k value ts (.done (value bytes), rest)
  | timeout {bytes : List α} {rest : List (Arrival α)} : bytes.length < k → Open rest →
      ts = bytes.map some ++ none :: tokens rest → Reads k value ts (.failed .timeout, rest)
  | waiting {bytes : List α} : bytes.length < k → ts = bytes.map some →
      Reads k value ts (.waiting, [])

section Reads

variable {k m : Nat} {value : List α → β} {ts : List (Option α)} {arrivals : List (Arrival α)}

/-- Nothing is left to read. -/
theorem Reads.here {b : β} (hopen : Open arrivals) (hvalue : value [] = b) :
    Reads 0 value (tokens arrivals) ((.done b, arrivals) : Reading ε β × List (Arrival α)) := by
  have hdone := @Reads.done α ε β 0 value (tokens arrivals) [] arrivals rfl hopen rfl
  rwa [hvalue] at hdone

/-- The value is that of the bytes that are there. -/
theorem Reads.congr {value' : List α → β} {r : Reading ε β × List (Arrival α)}
    (h : Reads k value ts r)
    (heq : ∀ (bytes : List α) (rest : List (Option α)), bytes.length = k →
      ts = bytes.map some ++ rest → value bytes = value' bytes) : Reads k value' ts r := by
  cases h with
  | @done bytes rest hbytes hopen htokens =>
    rw [heq bytes _ hbytes htokens]
    exact .done hbytes hopen htokens
  | timeout hbytes hopen htokens => exact .timeout hbytes hopen htokens
  | waiting hbytes htokens => exact .waiting hbytes htokens

/-- Nothing has arrived. -/
theorem Reads.of_nil {r : Reading ε β × List (Arrival α)} (hk : 0 < k)
    (h : Reads k value [] r) : r = (.waiting, []) := by
  cases h with
  | @done bytes rest hbytes hopen htokens =>
    rw [List.map_eq_nil_iff.1 (List.append_eq_nil_iff.1 htokens.symm).1, List.length_nil] at hbytes
    omega
  | timeout hbytes hopen htokens => cases (List.append_eq_nil_iff.1 htokens.symm).2
  | waiting hbytes htokens => rfl

/-- Bytes that were read before. -/
theorem Reads.prepend {read : List α} {r : Reading ε β × List (Arrival α)}
    (h : Reads k (fun bytes => value (read ++ bytes)) ts r) :
    Reads (read.length + k) value (read.map some ++ ts) r := by
  cases h with
  | @done bytes rest hbytes hopen htokens =>
    refine @Reads.done α ε β _ value _ (read ++ bytes) rest ?_ hopen ?_
    · rw [List.length_append, hbytes]
    · rw [htokens, List.map_append, List.append_assoc]
  | @timeout bytes rest hbytes hopen htokens =>
    refine @Reads.timeout α ε β _ value _ (read ++ bytes) rest ?_ hopen ?_
    · rw [List.length_append]
      omega
    · rw [htokens, List.map_append, List.append_assoc]
  | @waiting bytes hbytes htokens =>
    refine @Reads.waiting α ε β _ value _ (read ++ bytes) ?_ ?_
    · rw [List.length_append]
      omega
    · rw [htokens, List.map_append]

/-- One reader after another. -/
theorem Reads.andThen {x : Reader α ε β} {f : β → Reader α ε γ} {value' : List α → γ}
    (hx : Reads k value (tokens arrivals) (x arrivals))
    (hf : ∀ (bytes : List α) (rest : List (Arrival α)), bytes.length = k → Open rest →
      tokens arrivals = bytes.map some ++ tokens rest →
      Reads m (fun more => value' (bytes ++ more)) (tokens rest) (f (value bytes) rest)) :
    Reads (k + m) value' (tokens arrivals) (x.andThen f arrivals) := by
  generalize hr : x arrivals = r at hx
  cases hx with
  | @done bytes rest hbytes hopen htokens =>
    rw [andThen_done hr, htokens, ← hbytes]
    exact (hf bytes rest hbytes hopen htokens).prepend
  | timeout hbytes hopen htokens =>
    rw [andThen_failed hr]
    exact .timeout (by omega) hopen htokens
  | waiting hbytes htokens =>
    rw [andThen_waiting hr]
    exact .waiting (by omega) htokens

end Reads

theorem readExact_reads (n : Nat) (out : List α) {arrivals : List (Arrival α)}
    (hopen : Open arrivals) :
    Reads n (out ++ ·) (tokens arrivals)
      (readExact (out.length + n) out arrivals : Reading ε (List α) × List (Arrival α)) := by
  induction arrivals generalizing n out with
  | nil =>
    rw [readExact]
    cases n with
    | zero =>
      rw [if_pos (by omega)]
      exact Reads.here hopen (List.append_nil out)
    | succ n =>
      rw [if_neg (by omega)]
      exact @Reads.waiting α ε _ _ _ _ [] (Nat.succ_pos n) rfl
  | cons a rest ih =>
    cases n with
    | zero =>
      have hdone : (readExact (out.length + 0) out (a :: rest) :
          Reading ε (List α) × List (Arrival α)) = (.done out, a :: rest) := by
        cases a <;> rw [readExact, if_pos (by omega)]
      rw [hdone]
      exact Reads.here hopen (List.append_nil out)
    | succ n =>
      cases a with
      | timeout =>
        rw [readExact, if_neg (by omega)]
        exact @Reads.timeout α ε _ _ _ _ [] rest (Nat.succ_pos n) hopen.tail rfl
      | chunk bytes =>
        have hne : bytes ≠ [] := by
          rintro rfl
          exact hopen List.mem_cons_self
        rw [readExact, if_neg (by omega), if_neg hne, Nat.add_sub_cancel_left]
        by_cases hshort : bytes.length ≤ n + 1
        · have hread := ih (n + 1 - bytes.length) (out ++ bytes) hopen.tail
          simp only [List.append_assoc] at hread
          rw [List.length_append, Nat.add_assoc, Nat.add_sub_cancel' hshort] at hread
          have hall := @Reads.prepend α ε _ _ (out ++ ·) _ bytes _ hread
          rw [Nat.add_sub_cancel' hshort] at hall
          rw [if_pos hshort, tokens_chunk]
          exact hall
        · rw [if_neg hshort]
          refine @Reads.done α ε _ _ (out ++ ·) _ (bytes.take (n + 1)) _ ?_ (fun hmem => ?_) ?_
          · rw [List.length_take]
            omega
          · rcases List.mem_cons.1 hmem with hnil | hmem
            · have hdrop := congrArg List.length (Arrival.chunk.inj hnil)
              rw [List.length_drop, List.length_nil] at hdrop
              omega
            · exact hopen.tail hmem
          · rw [tokens_chunk, tokens_chunk, ← List.append_assoc, ← List.map_append,
              List.take_append_drop]

/-! ## Gaps -/

variable {bytes frame : List α} {gap behind rest : List (Option α)}

/-- A time-out in front of the end of a frame lies in the gap. -/
theorem in_gap (h : bytes.map some ++ none :: rest <+: gap ++ (frame.map some ++ behind))
    (hlen : bytes.length < gap.length + frame.length) :
    ∃ gap', gap = bytes.map some ++ none :: gap' ∧ rest <+: gap' ++ (frame.map some ++ behind) := by
  obtain ⟨more, hmore⟩ := h
  rw [List.append_assoc, List.cons_append] at hmore
  rcases List.append_eq_append_iff.1 hmore with ⟨gap', hgap, hrest⟩ | ⟨beyond, hbeyond, hrest⟩
  · cases gap' with
    | nil =>
      rw [hgap, List.append_nil, List.length_map] at hlen
      cases frame with
      | nil => exact absurd hlen (Nat.lt_irrefl _)
      | cons b frame => cases hrest
    | cons t gap' =>
      obtain ⟨ht, htail⟩ := List.cons.inj hrest
      exact ⟨gap', ht ▸ hgap, ⟨more, htail⟩⟩
  · -- the time-out would be a byte of the frame
    exfalso
    have hbytes := congrArg List.length hbeyond
    rw [List.length_map, List.length_append] at hbytes
    have hget := congrArg (·[beyond.length]?) hrest
    simp only [List.getElem?_append_right (Nat.le_refl _), Nat.sub_self,
      List.getElem?_cons_zero] at hget
    rw [List.getElem?_append_left (by rw [List.length_map]; omega), List.getElem?_map,
      List.getElem?_eq_getElem (by omega)] at hget
    cases hget

theorem reduceOption_map_some (bytes : List α) : (bytes.map some).reduceOption = bytes := by
  rw [List.reduceOption, List.filterMap_map]
  exact List.filterMap_some

/-- Bytes in front of a gap's end are bytes of the gap. -/
theorem length_le_reduceOption {k : Nat} (h : bytes.map some <+: gap ++ behind)
    (hk : k ≤ bytes.length) (hgap : k ≤ gap.length) : k ≤ gap.reduceOption.length := by
  have htake : (bytes.take k).map some <+: gap := by
    rw [List.map_take]
    refine List.prefix_of_prefix_length_le ((List.take_prefix _ _).trans h)
      (List.prefix_append _ _) ?_
    rw [List.length_take]
    omega
  obtain ⟨more, rfl⟩ := htake
  rw [List.reduceOption_append, List.length_append, reduceOption_map_some, List.length_take]
  omega

end Arrivals
