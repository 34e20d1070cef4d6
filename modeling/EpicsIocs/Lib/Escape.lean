import Mathlib.Data.List.Basic

/-!
# Separators and their escapes

Text in tokens between separators, where an escape character in front of a separator makes it
part of its token, and stands for itself anywhere else.  So a token can be written if it does
not end in the escape character: its separators escaped, it reads back (`split_escape`), before
a separator or at the end.
-/

namespace Escape

variable {α : Type*} (esc : α) (isSep : α → Bool)

/-- An escape character in front of each separator. -/
def escape (token : List α) : List α :=
  token.flatMap fun c => if isSep c then [esc, c] else [c]

/-- Not an escape character that would take the separator behind it. -/
def Closed (token : List α) : Prop := token.getLast? ≠ some esc

variable {esc isSep}

theorem escape_cons_of_sep {c : α} (h : isSep c = true) (token : List α) :
    escape esc isSep (c :: token) = esc :: c :: escape esc isSep token := by
  rw [escape, List.flatMap_cons, if_pos h]
  rfl

theorem escape_cons_of_not {c : α} (h : isSep c = false) (token : List α) :
    escape esc isSep (c :: token) = c :: escape esc isSep token := by
  rw [escape, List.flatMap_cons, if_neg (by simp [h])]
  rfl

theorem escape_append (s t : List α) :
    escape esc isSep (s ++ t) = escape esc isSep s ++ escape esc isSep t := List.flatMap_append

/-- What is written of a token starts with no separator. -/
theorem head_escape (hesc : isSep esc = false) {token : List α} (hne : token ≠ []) :
    ∃ c rest, escape esc isSep token = c :: rest ∧ isSep c = false := by
  obtain ⟨c, token, rfl⟩ := List.exists_cons_of_ne_nil hne
  by_cases hc : isSep c = true
  · exact ⟨esc, _, escape_cons_of_sep hc token, hesc⟩
  · rw [Bool.not_eq_true] at hc
    exact ⟨c, _, escape_cons_of_not hc token, hc⟩

variable [DecidableEq α]

variable (esc isSep) in
/-- The tokens of a text, where `current` is what there is of the first one. -/
def split (current : List α) : List α → List (List α)
  | [] => [current]
  | [c] => if isSep c then [current, []] else [current ++ [c]]
  | c :: d :: rest =>
    if c = esc ∧ isSep d then split (current ++ [d]) rest
    else if isSep c then current :: split [] (d :: rest)
    else split (current ++ [c]) (d :: rest)

/-- A separator ends the token. -/
theorem split_sep {c : α} (h : isSep c = true) (hesc : isSep esc = false) (current rest : List α) :
    split esc isSep current (c :: rest) = current :: split esc isSep [] rest := by
  have hne : c ≠ esc := fun heq => by rw [heq, hesc] at h; cases h
  cases rest with
  | nil => simp only [split, h, if_true]
  | cons d rest => rw [split, if_neg (fun hc => hne hc.1), if_pos h]

/-- Anything else is part of it, unless it escapes a separator. -/
theorem split_char {c : α} (h : isSep c = false) {rest : List α}
    (hnext : c = esc → ∀ d, rest.head? = some d → isSep d = false) (current : List α) :
    split esc isSep current (c :: rest) = split esc isSep (current ++ [c]) rest := by
  have hc : ¬isSep c = true := by simp [h]
  cases rest with
  | nil => simp only [split, h, Bool.false_eq_true, if_false]
  | cons d rest =>
    have hd : ¬(c = esc ∧ isSep d = true) := by
      rintro ⟨heq, hsep⟩
      rw [hnext heq d rfl] at hsep
      cases hsep
    rw [split, if_neg hd, if_neg hc]

theorem split_escaped_sep {d : α} (h : isSep d = true) (current rest : List α) :
    split esc isSep current (esc :: d :: rest) = split esc isSep (current ++ [d]) rest := by
  rw [split, if_pos ⟨rfl, h⟩]

/-- **A written token reads back**, by induction on its characters. -/
theorem split_escape (hesc : isSep esc = false) {token : List α} (htoken : Closed esc token)
    (current rest : List α) :
    split esc isSep current (escape esc isSep token ++ rest) =
      split esc isSep (current ++ token) rest := by
  induction token generalizing current with
  | nil =>
    rw [List.append_nil]
    rfl
  | cons c token ih =>
    have hshift : current ++ [c] ++ token = current ++ c :: token := by
      rw [List.append_assoc, List.singleton_append]
    by_cases hnil : token = []
    · subst hnil
      have hne : c ≠ esc := fun heq => htoken (by rw [heq]; rfl)
      by_cases hc : isSep c = true
      · rw [escape_cons_of_sep hc]
        exact split_escaped_sep hc current rest
      · rw [Bool.not_eq_true] at hc
        rw [escape_cons_of_not hc]
        exact split_char hc (fun heq => absurd heq hne) current
    · have hrest : Closed esc token := by
        intro hlast
        apply htoken
        rw [List.getLast?_cons, hlast]
        rfl
      by_cases hc : isSep c = true
      · rw [escape_cons_of_sep hc, List.cons_append, List.cons_append, split_escaped_sep hc,
          ih hrest, hshift]
      · rw [Bool.not_eq_true] at hc
        obtain ⟨d, tail, hhead, hd⟩ := @head_escape α esc isSep hesc token hnil
        rw [escape_cons_of_not hc, List.cons_append, split_char hc, ih hrest, hshift]
        intro _ d' hd'
        rw [hhead, List.cons_append, List.head?_cons, Option.some.injEq] at hd'
        rw [← hd']
        exact hd

/-- A run of separators has only empty tokens in it. -/
theorem split_run {run : List α} (hrun : ∀ c ∈ run, isSep c = true) (hne : run ≠ [])
    (hesc : isSep esc = false) (current rest : List α) :
    (split esc isSep current (run ++ rest)).filter (fun token => !token.isEmpty) =
      [current].filter (fun token => !token.isEmpty) ++
        (split esc isSep [] rest).filter (fun token => !token.isEmpty) := by
  induction run generalizing current with
  | nil => exact absurd rfl hne
  | cons c run ih =>
    rw [List.cons_append, split_sep (hrun c List.mem_cons_self) hesc]
    by_cases hnil : run = []
    · subst hnil
      rw [← List.filter_append]
      rfl
    · rw [← List.singleton_append, List.filter_append,
        ih (fun d hd => hrun d (List.mem_cons_of_mem _ hd)) hnil]
      rfl

/-- The tokens between single separators. -/
theorem split_join (hesc : isSep esc = false) {sep : α} (hsep : isSep sep = true)
    {tokens : List (List α)} (hne : tokens ≠ []) (h : ∀ token ∈ tokens, Closed esc token) :
    split esc isSep [] (List.intercalate [sep] (tokens.map (escape esc isSep))) = tokens := by
  induction tokens with
  | nil => exact absurd rfl hne
  | cons token tokens ih =>
    have htoken := h token List.mem_cons_self
    cases tokens with
    | nil =>
      have hread := @split_escape α esc isSep _ hesc token htoken [] []
      rw [List.append_nil, List.nil_append] at hread
      rw [List.map_singleton, List.intercalate_singleton, hread]
      rfl
    | cons next tokens =>
      rw [List.map_cons, List.map_cons, List.intercalate_cons_cons, List.append_assoc,
        split_escape hesc htoken, List.nil_append, List.singleton_append, split_sep hsep hesc,
        ← List.map_cons, ih (List.cons_ne_nil _ _) fun t ht => h t (List.mem_cons_of_mem _ ht)]

end Escape
