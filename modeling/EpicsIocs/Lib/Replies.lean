import Mathlib.Data.List.Basic

/-!
# Replies in order on a stream

A stream carries replies one after the other, each closed by an end mark.  An `Octet` knows which
request it answers; a reader does not see that, it only takes what comes up to the next mark.
`Holds numbers stream` says that the stream is one whole reply to each of the requests, in order:

    takeLine held = some (line, rest), the stream is `held` and what is still to come  →
      `line` is the reply to the first request, and the rest holds the others   (Holds.takeLine)
-/

namespace Replies

universe u

structure Octet (α : Type u) where
  value : α
  /-- The request whose reply it is part of. -/
  request : Nat
  deriving DecidableEq, Repr

variable {α : Type u} (isEnd : α → Bool)

/-- Up to the first end mark, and what is behind it. -/
def takeLine (held : List (Octet α)) : Option (List (Octet α) × List (Octet α)) :=
  (held.findIdx? fun o => isEnd o.value).map fun pos => (held.take (pos + 1), held.drop (pos + 1))

/-- A whole reply: text without a mark, and the mark. -/
inductive Reply (n : Nat) : List (Octet α) → Prop
  | intro (text : List α) (mark : α) (htext : ∀ c ∈ text, isEnd c = false)
    (hmark : isEnd mark = true) : Reply n (text.map (⟨·, n⟩) ++ [⟨mark, n⟩])

inductive Holds : List Nat → List (Octet α) → Prop
  | nil : Holds [] []
  | cons {n : Nat} {ns : List Nat} {line rest : List (Octet α)} :
    Reply isEnd n line → Holds ns rest → Holds (n :: ns) (line ++ rest)

variable {isEnd}

theorem Holds.snoc {ns : List Nat} {n : Nat} {stream line : List (Octet α)}
    (h : Holds isEnd ns stream) (hline : Reply isEnd n line) :
    Holds isEnd (ns ++ [n]) (stream ++ line) := by
  induction h with
  | nil =>
    have hlast : Holds isEnd [n] (line ++ []) := .cons hline .nil
    rwa [List.append_nil] at hlast
  | cons hfirst hrest ih =>
    rw [List.append_assoc]
    exact .cons hfirst ih

/-- The first mark splits a list in one way. -/
theorem split_unique {p : Octet α → Bool} {pre pre' post post' : List (Octet α)} {m m' : Octet α}
    (hpre : ∀ o ∈ pre, p o = false) (hpre' : ∀ o ∈ pre', p o = false) (hm : p m = true)
    (hm' : p m' = true) (heq : pre ++ m :: post = pre' ++ m' :: post') :
    pre = pre' ∧ m = m' ∧ post = post' := by
  induction pre generalizing pre' with
  | nil =>
    cases pre' with
    | nil =>
      obtain ⟨hhead, htail⟩ := List.cons.inj heq
      exact ⟨rfl, hhead, htail⟩
    | cons o pre' =>
      obtain ⟨rfl, -⟩ := List.cons.inj heq
      exact absurd (hpre' m List.mem_cons_self) (by simp [hm])
  | cons o pre ih =>
    cases pre' with
    | nil =>
      obtain ⟨rfl, -⟩ := List.cons.inj heq
      exact absurd (hpre o List.mem_cons_self) (by simp [hm'])
    | cons o' pre' =>
      obtain ⟨rfl, htail⟩ := List.cons.inj heq
      obtain ⟨rfl, hrest⟩ := ih (fun o ho => hpre o (List.mem_cons_of_mem _ ho))
        (fun o ho => hpre' o (List.mem_cons_of_mem _ ho)) htail
      exact ⟨rfl, hrest⟩

theorem takeLine_eq_some {held line rest : List (Octet α)}
    (h : takeLine isEnd held = some (line, rest)) :
    ∃ pre m, held = pre ++ m :: rest ∧ line = pre ++ [m] ∧ (∀ o ∈ pre, isEnd o.value = false) ∧
      isEnd m.value = true := by
  unfold takeLine at h
  obtain ⟨pos, hpos, hcut⟩ := Option.map_eq_some_iff.1 h
  obtain ⟨hlt, hmark, hbefore⟩ := List.findIdx?_eq_some_iff_getElem.1 hpos
  obtain ⟨rfl, rfl⟩ := Prod.mk.inj hcut
  refine ⟨held.take pos, held[pos], ?_, ?_, ?_, hmark⟩
  · rw [List.getElem_cons_drop, List.take_append_drop]
  · rw [List.take_succ_eq_append_getElem hlt]
  · intro o ho
    obtain ⟨i, hi, rfl⟩ := List.mem_take_iff_getElem.1 ho
    exact Bool.eq_false_iff.2 (hbefore i (by omega))

/-- What is taken is the first reply, even where the stream is still on its way. -/
theorem Holds.takeLine {ns : List Nat} {held coming line rest : List (Octet α)}
    (h : Holds isEnd ns (held ++ coming)) (htake : takeLine isEnd held = some (line, rest)) :
    ∃ n ns', ns = n :: ns' ∧ Reply isEnd n line ∧ Holds isEnd ns' (rest ++ coming) := by
  obtain ⟨pre, m, rfl, rfl, hpre, hm⟩ := takeLine_eq_some htake
  generalize hstream : pre ++ m :: rest ++ coming = stream at h
  cases h with
  | nil => simp at hstream
  | @cons n ns first others hfirst hrest =>
    obtain ⟨text, mark, htext, hmark⟩ := hfirst
    have hsplit : pre ++ m :: (rest ++ coming) =
        text.map (⟨·, n⟩) ++ ⟨mark, n⟩ :: others := by
      simpa using hstream
    have htext' : ∀ o ∈ text.map (Octet.mk · n), isEnd o.value = false := by
      intro o ho
      obtain ⟨c, hc, rfl⟩ := List.mem_map.1 ho
      exact htext c hc
    obtain ⟨rfl, rfl, rfl⟩ := split_unique (p := fun o => isEnd o.value) hpre htext' hm hmark hsplit
    exact ⟨n, ns, rfl, .intro text mark htext hmark, hrest⟩

theorem Reply.request_eq {n : Nat} {line : List (Octet α)} (h : Reply isEnd n line) :
    line.getLast?.map Octet.request = some n := by
  obtain ⟨text, mark, htext, hmark⟩ := h
  rw [List.getLast?_concat]
  rfl

end Replies
