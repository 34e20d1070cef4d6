import Mathlib.Data.List.Basic
import Mathlib.Data.List.Flatten
import Mathlib.Data.List.Forall2

/-!
# Frames cut into reads

`enc` gives the bytes of a frame, and a stream is the concatenation of its frames.
`Cut enc frames bytes done left tail`: of the stream of `frames`, `bytes` are the
frames `done` and a `tail` too short for the next.  `Cuts` cuts off one read after
the other: `parts` are the frames each read completes.

A reader that answers each read by the frames it completes, whatever tail it holds,
answers every sequence of reads so (`Cuts.readAll`).
-/

namespace Framing

universe u v

variable {α : Type u} {F : Type v}

/-- The frames that are complete in `bytes`, those to come, and the bytes over. -/
structure Cut (enc : F → List α) (frames : List F) (bytes : List α) (done left : List F)
    (tail : List α) : Prop where
  frames_eq : frames = done ++ left
  bytes_eq : bytes = done.flatMap enc ++ tail
  tail_prefix : tail <+: left.flatMap enc
  tail_short : ∀ f rest, left = f :: rest → tail.length < (enc f).length

/-- Each read completes its part of the frames. -/
inductive Cuts (enc : F → List α) :
    List F → List α → List (List α) → List (List F) → List F → List α → Prop
  | nil (left : List F) (tail : List α) : Cuts enc left tail [] [] left tail
  | cons {frames done left left' : List F} {held chunk tail tail' : List α}
      {chunks : List (List α)} {parts : List (List F)} :
      Cut enc frames (held ++ chunk) done left tail → Cuts enc left tail chunks parts left' tail' →
      Cuts enc frames held (chunk :: chunks) (done :: parts) left' tail'

variable {enc : F → List α} {frames done left left' : List F} {bytes tail tail' held : List α}

/-- Every prefix of a stream can be cut. -/
theorem exists_cut (henc : ∀ f ∈ frames, enc f ≠ []) (h : bytes <+: frames.flatMap enc) :
    ∃ done left tail, Cut enc frames bytes done left tail := by
  induction frames generalizing bytes with
  | nil =>
    have hnil : bytes = [] := List.prefix_nil.1 h
    exact ⟨[], [], [], rfl, hnil, List.nil_prefix, fun f rest heq => by cases heq⟩
  | cons f frames ih =>
    rw [List.flatMap_cons] at h
    by_cases hlen : bytes.length < (enc f).length
    · refine ⟨[], f :: frames, bytes, rfl, rfl, by simpa using h, fun g rest heq => ?_⟩
      cases heq
      exact hlen
    · obtain ⟨rest, rfl⟩ : enc f <+: bytes :=
        List.prefix_of_prefix_length_le (List.prefix_append _ _) h (Nat.not_lt.1 hlen)
      obtain ⟨done, left, tail, hcut⟩ := ih (fun g hg => henc g (List.mem_cons_of_mem _ hg))
        ((List.prefix_append_right_inj _).1 h)
      refine ⟨f :: done, left, tail, ?_, ?_, hcut.tail_prefix, hcut.tail_short⟩
      · rw [hcut.frames_eq, List.cons_append]
      · rw [hcut.bytes_eq, List.flatMap_cons, List.append_assoc]

theorem Cut.isPrefix (h : Cut enc frames bytes done left tail) :
    bytes <+: frames.flatMap enc := by
  rw [h.bytes_eq, h.frames_eq, List.flatMap_append]
  exact (List.prefix_append_right_inj _).2 h.tail_prefix

/-- Bytes that are too few for the first frame. -/
theorem Cut.of_short {f : F} (h : Cut enc (f :: frames) bytes done left tail)
    (hshort : bytes.length < (enc f).length) : done = [] := by
  cases done with
  | nil => rfl
  | cons g done =>
    obtain ⟨rfl, -⟩ := List.cons.inj h.frames_eq
    rw [h.bytes_eq, List.flatMap_cons, List.length_append, List.length_append] at hshort
    omega

/-- Bytes that begin with the first frame. -/
theorem Cut.of_frame {f : F} (h : Cut enc (f :: frames) (enc f ++ bytes) done left tail) :
    ∃ done', done = f :: done' ∧ Cut enc frames bytes done' left tail := by
  cases done with
  | nil =>
    have hshort := h.tail_short f frames h.frames_eq.symm
    rw [← List.nil_append tail, ← show ([] : List F).flatMap enc ++ tail = [] ++ tail from rfl,
      ← h.bytes_eq, List.length_append] at hshort
    omega
  | cons g done =>
    obtain ⟨rfl, hframes⟩ := List.cons.inj h.frames_eq
    have hbytes := h.bytes_eq
    rw [List.flatMap_cons, List.append_assoc] at hbytes
    exact ⟨done, rfl, hframes, List.append_cancel_left hbytes, h.tail_prefix, h.tail_short⟩

/-- Bytes that are the same where the first frame has something less in front. -/
theorem Cut.of_front {f f' : F} {front : List α} (hf : enc f = front ++ enc f')
    (h : Cut enc (f :: frames) (front ++ bytes) done left tail) :
    (done = [] ∧ Cut enc (f' :: frames) bytes [] (f' :: frames) bytes) ∨
      ∃ done', done = f :: done' ∧ Cut enc (f' :: frames) bytes (f' :: done') left tail := by
  have hall := h.bytes_eq
  have hprefix := h.isPrefix
  rw [List.flatMap_cons, hf, List.append_assoc] at hprefix
  cases done with
  | nil =>
    have hleft : left = f :: frames := h.frames_eq.symm
    have htail : tail = front ++ bytes := hall.symm
    have hshort := h.tail_short f frames hleft
    rw [htail, hf, List.length_append, List.length_append] at hshort
    refine .inl ⟨rfl, rfl, rfl, ?_, fun g rest hg => ?_⟩
    · rw [List.flatMap_cons]
      exact (List.prefix_append_right_inj _).1 hprefix
    · obtain ⟨rfl, -⟩ := List.cons.inj hg
      omega
  | cons g done =>
    obtain ⟨rfl, hframes⟩ := List.cons.inj h.frames_eq
    rw [List.flatMap_cons, hf, List.append_assoc, List.append_assoc] at hall
    refine .inr ⟨done, rfl, ?_, ?_, h.tail_prefix, h.tail_short⟩
    · exact congrArg (f' :: ·) hframes
    · rw [List.flatMap_cons, List.append_assoc]
      exact List.append_cancel_left hall

/-- A complete stream leaves nothing over. -/
theorem Cut.of_all (h : Cut enc frames (frames.flatMap enc) done left tail) :
    left = [] ∧ tail = [] := by
  have heq : left.flatMap enc = tail := by
    have := h.bytes_eq
    rw [h.frames_eq, List.flatMap_append] at this
    exact List.append_cancel_left this
  cases left with
  | nil => exact ⟨rfl, heq.symm⟩
  | cons f rest =>
    have hshort := h.tail_short f rest rfl
    rw [← heq, List.flatMap_cons, List.length_append] at hshort
    omega

theorem unique_of_length_le {done done' : List F} (hlen : done.length ≤ done'.length)
    {left left' : List F} {tail tail' : List α} (hframes : done ++ left = done' ++ left')
    (hbytes : done.flatMap enc ++ tail = done'.flatMap enc ++ tail')
    (hshort : ∀ f rest, left = f :: rest → tail.length < (enc f).length) :
    done = done' ∧ left = left' ∧ tail = tail' := by
  induction done generalizing done' with
  | nil =>
    cases done' with
    | nil => exact ⟨rfl, hframes, hbytes⟩
    | cons f done' =>
      have hlt := hshort f _ hframes
      simp only [List.flatMap_nil, List.nil_append, List.flatMap_cons, List.append_assoc]
        at hbytes
      rw [hbytes, List.length_append] at hlt
      omega
  | cons f done ih =>
    cases done' with
    | nil => simp at hlen
    | cons g done' =>
      rw [List.cons_append, List.cons_append, List.cons.injEq] at hframes
      obtain ⟨rfl, hframes⟩ := hframes
      rw [List.flatMap_cons, List.flatMap_cons, List.append_assoc, List.append_assoc] at hbytes
      obtain ⟨rfl, rfl, rfl⟩ := ih (by simpa using hlen) hframes (List.append_cancel_left hbytes)
      exact ⟨rfl, rfl, rfl⟩

/-- Two cuts of the same bytes agree. -/
theorem Cut.unique {done' left' : List F} {tail' : List α}
    (h : Cut enc frames bytes done left tail) (h' : Cut enc frames bytes done' left' tail') :
    done = done' ∧ left = left' ∧ tail = tail' := by
  have hframes := h.frames_eq.symm.trans h'.frames_eq
  have hbytes := h.bytes_eq.symm.trans h'.bytes_eq
  obtain hlen | hlen := Nat.le_total done.length done'.length
  · exact unique_of_length_le hlen hframes hbytes h.tail_short
  · obtain ⟨h1, h2, h3⟩ := unique_of_length_le hlen hframes.symm hbytes.symm h'.tail_short
    exact ⟨h1.symm, h2.symm, h3.symm⟩

/-- Nothing is over exactly if the bytes end where a frame does. -/
theorem Cut.tail_eq_nil_iff (henc : ∀ f ∈ frames, enc f ≠ [])
    (h : Cut enc frames bytes done left tail) :
    tail = [] ↔ ∃ done' left', frames = done' ++ left' ∧ bytes = done'.flatMap enc := by
  constructor
  · rintro rfl
    exact ⟨done, left, h.frames_eq, by simpa using h.bytes_eq⟩
  · rintro ⟨done', left', rfl, rfl⟩
    have hcut : Cut enc (done' ++ left') (done'.flatMap enc) done' left' [] := by
      refine ⟨rfl, (List.append_nil _).symm, List.nil_prefix, ?_⟩
      rintro f rest rfl
      exact List.length_pos_iff.2 (henc f (List.mem_append_right _ List.mem_cons_self))
    exact (h.unique hcut).2.2

/-- Every way of reading a prefix of a stream is a sequence of cuts. -/
theorem exists_cuts {chunks : List (List α)} (henc : ∀ f ∈ frames, enc f ≠ [])
    (h : held ++ chunks.flatten <+: frames.flatMap enc) :
    ∃ parts left tail, Cuts enc frames held chunks parts left tail := by
  induction chunks generalizing frames held with
  | nil => exact ⟨[], frames, held, Cuts.nil _ _⟩
  | cons chunk chunks ih =>
    rw [List.flatten_cons, ← List.append_assoc] at h
    obtain ⟨done, left, tail, hcut⟩ :=
      exists_cut henc ((List.prefix_append _ _).trans h)
    have hrest : tail ++ chunks.flatten <+: left.flatMap enc := by
      rw [hcut.bytes_eq, hcut.frames_eq, List.flatMap_append, List.append_assoc] at h
      exact (List.prefix_append_right_inj _).1 h
    have henc' : ∀ f ∈ left, enc f ≠ [] :=
      fun f hf => henc f (hcut.frames_eq ▸ List.mem_append_right _ hf)
    obtain ⟨parts, left', tail', hcuts⟩ := ih henc' hrest
    exact ⟨done :: parts, left', tail', Cuts.cons hcut hcuts⟩

/-- All reads together are one cut. -/
theorem Cuts.cut {chunks : List (List α)} {parts : List (List F)}
    (h : Cuts enc frames held chunks parts left tail) (hheld : Cut enc frames held [] frames held) :
    Cut enc frames (held ++ chunks.flatten) parts.flatten left tail := by
  induction h with
  | nil left tail => simpa using hheld
  | cons hcut _ ih =>
    have hrest := ih ⟨rfl, rfl, hcut.tail_prefix, hcut.tail_short⟩
    refine ⟨?_, ?_, hrest.tail_prefix, hrest.tail_short⟩
    · rw [List.flatten_cons, List.append_assoc, ← hrest.frames_eq]
      exact hcut.frames_eq
    · rw [List.flatten_cons, List.flatten_cons, ← List.append_assoc, hcut.bytes_eq,
        List.flatMap_append, List.append_assoc, List.append_assoc, hrest.bytes_eq]

/-- Nothing has been read yet. -/
theorem Cut.start (henc : ∀ f ∈ frames, enc f ≠ []) : Cut enc frames [] [] frames [] where
  frames_eq := rfl
  bytes_eq := rfl
  tail_prefix := List.nil_prefix
  tail_short := by
    rintro f rest rfl
    exact List.length_pos_iff.2 (henc f List.mem_cons_self)

/-! ## Readers -/


/-- One read after the other, to the first that fails. -/
def readAll {σ ρ ε β : Type} (read : σ → ρ → Except ε (β × σ)) :
    σ → List ρ → Except ε (List β × σ)
  | s, [] => .ok ([], s)
  | s, r :: reads =>
    match read s r with
    | .error e => .error e
    | .ok (out, s) =>
      match readAll read s reads with
      | .error e => .error e
      | .ok (outs, s) => .ok (out :: outs, s)


/-- Answers that are a function of the parts. -/
theorem eq_map_of_forall₂ {γ β : Type*} {out : γ → β} {parts : List γ} {outs : List β}
    (h : List.Forall₂ (fun part answer => answer = out part) parts outs) :
    outs = parts.map out := by
  induction h with
  | nil => rfl
  | cons heq _ ih => rw [List.map_cons, heq, ih]

/-- **The reader's rule.**  `H s left tail`: in state `s` the reader has `tail` and `left`
is still to come; `O done out`: `out` answers a read that completes `done`. -/
theorem Cuts.readAll {σ ρ ε β : Type} {read : σ → ρ → Except ε (β × σ)} {bytes : ρ → List α}
    {H : σ → List F → List α → Prop} {O : List F → β → Prop} {L : ρ → Prop}
    (hread : ∀ s r frames held done left tail, H s frames held → L r →
      Cut enc frames (held ++ bytes r) done left tail →
      ∃ out s', read s r = .ok (out, s') ∧ O done out ∧ H s' left tail)
    {reads : List ρ} {parts : List (List F)}
    (h : Cuts enc frames held (reads.map bytes) parts left tail) {s : σ}
    (hs : H s frames held) (hlegal : ∀ r ∈ reads, L r) :
    ∃ outs s', Framing.readAll read s reads = .ok (outs, s') ∧ List.Forall₂ O parts outs ∧
      H s' left tail := by
  induction reads generalizing frames held parts s with
  | nil =>
    cases h
    exact ⟨[], s, rfl, List.Forall₂.nil, hs⟩
  | cons r reads ih =>
    cases h with
    | cons hcut hcuts =>
      obtain ⟨out, s', hr, hout, hs'⟩ :=
        hread s r _ _ _ _ _ hs (hlegal r List.mem_cons_self) hcut
      obtain ⟨outs, s'', hrs, houts, hs''⟩ :=
        ih hcuts hs' fun r' hr' => hlegal r' (List.mem_cons_of_mem _ hr')
      refine ⟨out :: outs, s'', ?_, List.Forall₂.cons hout houts, hs''⟩
      simp only [Framing.readAll, hr, hrs]

end Framing
