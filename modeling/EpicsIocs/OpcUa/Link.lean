import EpicsIocs.Lib.Escape
import Mathlib.Data.List.TakeWhile

/-! # Links

The text of a record's link: its options between spaces, tabs and semicolons, and the names of
an element path between dots (`link.rs`).  Both take a backslash in front of a separator, and
only there, for an escape.

    what is written with escapes is what is read   (escaped_reads_back)
-/

namespace OpcUa

/-- Split at `delim`, honouring its escapes and keeping empty tokens. -/
def splitEscaped (s : List Char) (delim : Char) : List (List Char) :=
  Escape.split '\\' (· == delim) [] s

/-- A `key=value` option. -/
structure Opt where
  name : List Char
  value : List Char
  deriving DecidableEq, Repr

/-- The message of a link that is refused. -/
abbrev LinkError := List Char

/-- Space, tab and semicolon. -/
def isSep (c : Char) : Bool := [' ', '\t', ';'].contains c

/-- What is before the first `c` and behind it. -/
def splitOnce (c : Char) (s : List Char) : Option (List Char × List Char) :=
  match s.dropWhile (· != c) with
  | [] => none
  | _ :: rest => some (s.takeWhile (· != c), rest)

/-- A token that ends is an option, unless there is nothing in it. -/
def flushOption (opts : List Opt) (token : List Char) : Except LinkError (List Opt) :=
  if token.isEmpty then .ok opts
  else match splitOnce '=' token with
    | some (name, value) => .ok (opts ++ [⟨name, value⟩])
    | none => .error ("expected '=' in '".toList ++ token ++ ['\''])

/-- The scan, with the token so far and the options before it. -/
def splitOptionsFrom (token : List Char) (opts : List Opt) :
    List Char → Except LinkError (List Opt)
  | [] => flushOption opts token
  | [c] =>
    if isSep c then (flushOption opts token).bind fun opts => flushOption opts []
    else flushOption opts (token ++ [c])
  | c :: d :: rest =>
    if c = '\\' ∧ isSep d then splitOptionsFrom (token ++ [d]) opts rest
    else if isSep c then
      (flushOption opts token).bind fun opts => splitOptionsFrom [] opts (d :: rest)
    else splitOptionsFrom (token ++ [c]) opts (d :: rest)

def splitOptions (s : List Char) : Except LinkError (List Opt) := splitOptionsFrom [] [] s

/-! ## Writing -/

/-- The names joined by `delim`, those inside them escaped. -/
def joinEscaped (names : List (List Char)) (delim : Char) : List Char :=
  List.intercalate [delim] (names.map (Escape.escape '\\' (· == delim)))

def Opt.token (opt : Opt) : List Char := opt.name ++ '=' :: opt.value

def Opt.written (opt : Opt) : List Char :=
  Escape.escape '\\' isSep opt.name ++ '=' :: Escape.escape '\\' isSep opt.value

/-- The options, with `runs k` before the last `k` of them. -/
def writeOptions (runs : Nat → List Char) : List Opt → List Char
  | [] => []
  | [opt] => opt.written
  | opt :: next :: opts =>
    opt.written ++ (runs (opts.length + 1) ++ writeOptions runs (next :: opts))

/-! ## Reading back -/

theorem splitOnce_eq {c : Char} {name : List Char} (h : c ∉ name) (value : List Char) :
    splitOnce c (name ++ c :: value) = some (name, value) := by
  have hall : ∀ d ∈ name, (d != c) = true := by
    intro d hd
    rw [bne_iff_ne]
    rintro rfl
    exact h hd
  have hstop : ¬(fun d => d != c) c = true := by simp
  have htake : (name ++ c :: value).takeWhile (· != c) = name := by
    rw [List.takeWhile_append_of_pos hall, @List.takeWhile_cons_of_neg _ (fun d => d != c) c value hstop, List.append_nil]
  have hdrop : (name ++ c :: value).dropWhile (· != c) = c :: value := by
    rw [List.dropWhile_append_of_pos hall, @List.dropWhile_cons_of_neg _ (fun d => d != c) c value hstop]
  rw [splitOnce, hdrop, htake]

theorem flushOption_nil (opts : List Opt) : flushOption opts [] = .ok opts := rfl

theorem flushOption_token {opt : Opt} (h : '=' ∉ opt.name) (opts : List Opt) :
    flushOption opts opt.token = .ok (opts ++ [opt]) := by
  have hne : opt.token.isEmpty = false := by
    rw [List.isEmpty_eq_false_iff]
    exact List.append_ne_nil_of_right_ne_nil _ (List.cons_ne_nil _ _)
  rw [flushOption, if_neg (by simp [hne]), Opt.token, splitOnce_eq h]

/-- The scan is the split into tokens, each flushed in turn. -/
theorem splitOptionsFrom_eq (token : List Char) (opts : List Opt) (s : List Char) :
    splitOptionsFrom token opts s = (Escape.split '\\' isSep token s).foldlM flushOption opts := by
  fun_induction splitOptionsFrom token opts s with
  | case1 token opts => simp [Escape.split]
  | case2 token opts c h =>
    simp only [Escape.split, h, if_true, List.foldlM_cons, List.foldlM_nil]
    refine congrArg _ (funext fun opts => ?_)
    rw [flushOption_nil]
    rfl
  | case3 token opts c h => simp [Escape.split, h]
  | case4 token opts c d rest h ih => rw [ih, Escape.split, if_pos h]
  | case5 token opts c d rest h hc ih =>
    rw [Escape.split, if_neg h, if_pos hc, List.foldlM_cons]
    exact congrArg _ (funext ih)
  | case6 token opts c d rest h hc ih => rw [ih, Escape.split, if_neg h, if_neg hc]

/-- Empty tokens are no options. -/
theorem foldlM_flush_filter (tokens : List (List Char)) (opts : List Opt) :
    (tokens.filter fun token => !token.isEmpty).foldlM flushOption opts =
      tokens.foldlM flushOption opts := by
  induction tokens generalizing opts with
  | nil => rfl
  | cons token tokens ih =>
    by_cases hnil : token = []
    · subst hnil
      exact ih opts
    · have hkeep : (!token.isEmpty) = true := by
        rw [Bool.not_eq_true', List.isEmpty_eq_false_iff]
        exact hnil
      rw [List.filter_cons_of_pos (by exact hkeep), List.foldlM_cons, List.foldlM_cons]
      exact congrArg _ (funext ih)

theorem isSep_backslash : isSep '\\' = false := by decide

theorem isSep_equals : isSep '=' = false := by decide

/-- A written option is its token with the separators escaped. -/
theorem Opt.written_eq (opt : Opt) : opt.written = Escape.escape '\\' isSep opt.token := by
  rw [Opt.token, Escape.escape_append, Escape.escape_cons_of_not isSep_equals]
  rfl

theorem Opt.token_closed {opt : Opt} (h : Escape.Closed '\\' opt.value) :
    Escape.Closed '\\' opt.token := by
  intro hlast
  rw [Opt.token, List.getLast?_append, List.getLast?_cons] at hlast
  cases hvalue : opt.value.getLast? with
  | none =>
    rw [hvalue] at hlast
    cases hlast
  | some c =>
    rw [hvalue] at hlast
    exact h (hvalue.trans hlast)

/-- The tokens of written options. -/
theorem tokens_written {runs : Nat → List Char}
    (hruns : ∀ k, runs k ≠ [] ∧ ∀ c ∈ runs k, isSep c = true) {opts : List Opt}
    (h : ∀ opt ∈ opts, Escape.Closed '\\' opt.value) :
    (Escape.split '\\' isSep [] (writeOptions runs opts)).filter (fun token => !token.isEmpty) =
      opts.map Opt.token := by
  have hkeep : ∀ opt : Opt, [opt.token].filter (fun token => !token.isEmpty) = [opt.token] := by
    intro opt
    rw [List.filter_singleton, Opt.token]
    cases opt.name <;> rfl
  induction opts with
  | nil => rfl
  | cons opt opts ih =>
    have hclosed := Opt.token_closed (h opt List.mem_cons_self)
    cases opts with
    | nil =>
      have hread := Escape.split_escape isSep_backslash hclosed [] []
      rw [List.append_nil, List.nil_append] at hread
      rw [writeOptions, Opt.written_eq, hread]
      exact hkeep opt
    | cons next opts =>
      obtain ⟨hne, hrun⟩ := hruns (opts.length + 1)
      rw [writeOptions, Opt.written_eq, Escape.split_escape isSep_backslash hclosed,
        List.nil_append, Escape.split_run hrun hne isSep_backslash, hkeep,
        ih fun o ho => h o (List.mem_cons_of_mem _ ho)]
      rfl

theorem foldlM_flush_tokens {opts : List Opt} (h : ∀ opt ∈ opts, '=' ∉ opt.name)
    (before : List Opt) :
    (opts.map Opt.token).foldlM flushOption before = .ok (before ++ opts) := by
  induction opts generalizing before with
  | nil => rw [List.append_nil]; rfl
  | cons opt opts ih =>
    rw [List.map_cons, List.foldlM_cons, flushOption_token (h opt List.mem_cons_self)]
    show (opts.map Opt.token).foldlM flushOption (before ++ [opt]) = _
    rw [ih (fun o ho => h o (List.mem_cons_of_mem _ ho)), List.append_assoc,
      List.singleton_append]

/-- **Escaping.**  Names joined by a delimiter split into the same names, and written options
parse to the same options, whatever separates them. -/
theorem escaped_reads_back :
    (∀ (delim : Char) (names : List (List Char)), delim ≠ '\\' → names ≠ [] →
      (∀ name ∈ names, name.getLast? ≠ some '\\') →
        splitEscaped (joinEscaped names delim) delim = names) ∧
      ∀ (runs : Nat → List Char) (opts : List Opt),
        (∀ k, runs k ≠ [] ∧ ∀ c ∈ runs k, isSep c = true) →
        (∀ opt ∈ opts, opt.name ≠ [] ∧ '=' ∉ opt.name) →
        (∀ opt ∈ opts, opt.name.getLast? ≠ some '\\' ∧ opt.value.getLast? ≠ some '\\') →
          splitOptions (writeOptions runs opts) = .ok opts := by
  constructor
  · intro delim names hdelim hne hnames
    have hesc : (('\\' : Char) == delim) = false := by
      rw [beq_eq_false_iff_ne]
      exact hdelim.symm
    exact @Escape.split_join Char '\\' (· == delim) _ hesc delim (beq_self_eq_true delim) names hne
      hnames
  · intro runs opts hruns hnames hclosed
    rw [splitOptions, splitOptionsFrom_eq, ← foldlM_flush_filter,
      tokens_written hruns fun opt hopt => (hclosed opt hopt).2,
      foldlM_flush_tokens fun opt hopt => (hnames opt hopt).2, List.nil_append]

/-- A path with a dot inside a name, and two options of which one has a blank in its value. -/
theorem escaped_reads_back_path :
    splitEscaped (joinEscaped ["a.b".toList, [], "c".toList] '.') '.' =
        ["a.b".toList, [], "c".toList] ∧
      splitOptions (writeOptions (fun _ => "; ".toList)
        [⟨"ns".toList, "2".toList⟩, ⟨"s".toList, "My tag".toList⟩]) =
          .ok [⟨"ns".toList, "2".toList⟩, ⟨"s".toList, "My tag".toList⟩] := by
  refine ⟨escaped_reads_back.1 _ _ (by decide) (by decide) (by decide), ?_⟩
  have hseps : "; ".toList.all isSep := by decide
  have hruns : ∀ c ∈ "; ".toList, isSep c = true := List.all_eq_true.1 hseps
  exact escaped_reads_back.2 _ _ (fun _ => ⟨by decide, hruns⟩) (by decide) (by decide)

end OpcUa
