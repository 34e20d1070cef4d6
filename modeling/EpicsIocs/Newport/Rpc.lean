import EpicsIocs.Lib.Text
import Mathlib.Algebra.Group.Nat.Defs
import Mathlib.Data.List.Infix

/-! # Replies of the Newport XPS

`XpsSocket::query` and `XpsReply` (`xps/rpc.rs`): a reply is read up to its terminator, or to the
first read that fails, and its fields stand between commas behind a code.  What is read is at most
64 KiB, so that a reply is a text with that bound. -/

namespace Newport

/-- Numbers at the start of a text as C reads them: `strtol` in base 0, with how many characters it
takes, and `atoi`. -/
structure CNumbers where
  strtol : List Char → Int × Nat
  atoi : List Char → Int

/-- A cast to an `i32`; `long_to_int` is one. -/
def asI32 (v : Int) : Int := v.bmod (2 ^ 32)

inductive XpsError where
  | transport
  | api (code : Int)
  deriving DecidableEq, Repr

def XpsError.code : XpsError → Int
  | transport => -1
  | api code => code

/-- `,EndOfAPI`. -/
def xpsTerminator : List Char := [',', 'E', 'n', 'd', 'O', 'f', 'A', 'P', 'I']

def readBuf : Nat := 1024
def maxReply : Nat := 65536

structure XpsReply where
  text : List Char
  bounded : text.length ≤ maxReply

namespace XpsReply

variable (c : CNumbers) (r : XpsReply)

def code : Int := if (c.strtol r.text).2 = 0 then -1 else asI32 (c.strtol r.text).1

def requireOk : Except XpsError XpsReply :=
  if r.code c = 0 then .ok r else .error (.api (r.code c))

def field (n : Nat) : Option (List Char) := (r.text.splitOn ',')[n]?

def int (n : Nat) : Int := ((r.field n).map c.atoi).getD 0

def string (n : Nat) : List Char := (r.field n).getD []

end XpsReply

/-! ## Queries -/

/-- What a read gives, and whether it succeeds. -/
structure Read where
  bytes : List Char
  ok : Bool
  short : bytes.length ≤ readBuf

/-- The buffer without a terminator at its end. -/
def stripped (buf : List Char) : List Char :=
  if xpsTerminator <:+ buf then buf.take (buf.length - xpsTerminator.length) else buf

theorem length_stripped_le (buf : List Char) : (stripped buf).length ≤ buf.length := by
  unfold stripped
  by_cases hend : xpsTerminator <:+ buf
  · rw [if_pos hend]
    exact List.length_take_le' _ _
  · rw [if_neg hend]

def XpsReply.ofBuffer (buf : List Char) (h : buf.length ≤ maxReply) : XpsReply :=
  ⟨stripped buf, (length_stripped_le buf).trans h⟩

/-- The reads after the first; the last one is followed by one that fails. -/
def readOn : List Read → (buf : List Char) → buf.length ≤ maxReply → Bool →
    Except XpsError XpsReply
  | [], buf, h, _ => .ok (.ofBuffer buf h)
  | r :: reads, buf, h, ok =>
    if ok = true ∧ ¬ xpsTerminator <:+ buf then
      if h' : (buf ++ r.bytes).length ≤ maxReply then readOn reads (buf ++ r.bytes) h' r.ok
      else .error .transport
    else .ok (.ofBuffer buf h)

def query : List Read → Except XpsError XpsReply
  | [] => .ok (.ofBuffer [] (Nat.zero_le _))
  | r :: reads => readOn reads r.bytes (r.short.trans (by decide)) r.ok

/-- A call as far as its code. -/
def callOk (c : CNumbers) (reads : List Read) : Except XpsError XpsReply :=
  (query reads).bind fun r => r.requireOk c

/-! ## Errors -/

theorem readOn_error {reads : List Read} {buf : List Char} {h : buf.length ≤ maxReply} {ok : Bool}
    {e : XpsError} (he : readOn reads buf h ok = .error e) : e = .transport := by
  induction reads generalizing buf ok with
  | nil => cases he
  | cons r reads ih =>
    rw [readOn] at he
    by_cases hgoes : ok = true ∧ ¬ xpsTerminator <:+ buf
    · rw [if_pos hgoes] at he
      by_cases hfits : (buf ++ r.bytes).length ≤ maxReply
      · rw [dif_pos hfits] at he
        exact ih he
      · rw [dif_neg hfits] at he
        cases he
        rfl
    · rw [if_neg hgoes] at he
      cases he

theorem query_error {reads : List Read} {e : XpsError} (h : query reads = .error e) :
    e = .transport := by
  cases reads with
  | nil => cases h
  | cons r reads => exact readOn_error h

theorem requireOk_error {c : CNumbers} {r : XpsReply} {e : XpsError}
    (h : r.requireOk c = .error e) : e.code ≠ 0 := by
  unfold XpsReply.requireOk at h
  by_cases hcode : r.code c = 0
  · rw [if_pos hcode] at h
    cases h
  · rw [if_neg hcode] at h
    cases h
    exact hcode

/-- No call that fails has the code of one that succeeds. -/
theorem code_ne_zero {c : CNumbers} {reads : List Read} {e : XpsError}
    (h : callOk c reads = .error e) : e.code ≠ 0 := by
  unfold callOk at h
  cases hquery : query reads with
  | error e' =>
    rw [hquery] at h
    obtain rfl := Except.error.inj h
    rw [query_error hquery]
    decide
  | ok r =>
    rw [hquery] at h
    exact requireOk_error h

/-! ## What has arrived -/

/-- The bytes up to the first read that fails. -/
def arrived : List Read → List Char
  | [] => []
  | r :: reads => r.bytes ++ if r.ok then arrived reads else []

/-- The reads bring the beginning of a reply. -/
def Delivers (reply : List Char) (reads : List Read) : Prop := reads.flatMap Read.bytes <+: reply

instance (reply : List Char) (reads : List Read) : Decidable (Delivers reply reads) :=
  inferInstanceAs (Decidable (reads.flatMap Read.bytes <+: reply))

theorem delivers_one {reply : List Char} {ok : Bool} (h : reply.length ≤ readBuf) :
    Delivers reply [⟨reply, ok, h⟩] := by
  rw [Delivers, List.flatMap_singleton]

/-- What is in front of a terminator, which stands at the end of the reply only. -/
structure Framed (body : List Char) : Prop where
  fits : (body ++ xpsTerminator).length ≤ maxReply
  last : ∀ l, l <+: body ++ xpsTerminator → xpsTerminator <:+ l → l = body ++ xpsTerminator

theorem arrived_isPrefix (reads : List Read) : arrived reads <+: reads.flatMap Read.bytes := by
  induction reads with
  | nil => exact List.prefix_rfl
  | cons r reads ih =>
    rw [arrived, List.flatMap_cons]
    refine (List.prefix_append_right_inj _).2 ?_
    cases r.ok with
    | false => exact List.nil_prefix
    | true => exact ih

theorem stripped_isPrefix (buf : List Char) : stripped buf <+: buf := by
  unfold stripped
  by_cases hend : xpsTerminator <:+ buf
  · rw [if_pos hend]
    exact List.take_prefix _ _
  · rw [if_neg hend]

/-- A reply is part of what is read, whatever that is. -/
theorem readOn_isPrefix {reads : List Read} {buf : List Char} {h : buf.length ≤ maxReply} {ok : Bool}
    {r : XpsReply} (hr : readOn reads buf h ok = .ok r) :
    r.text <+: buf ++ reads.flatMap Read.bytes := by
  induction reads generalizing buf ok with
  | nil =>
    obtain rfl := Except.ok.inj hr
    rw [List.flatMap_nil, List.append_nil]
    exact stripped_isPrefix buf
  | cons x reads ih =>
    rw [readOn] at hr
    by_cases hgoes : ok = true ∧ ¬ xpsTerminator <:+ buf
    · rw [if_pos hgoes] at hr
      by_cases hfits : (buf ++ x.bytes).length ≤ maxReply
      · rw [dif_pos hfits] at hr
        rw [List.flatMap_cons, ← List.append_assoc]
        exact ih hr
      · rw [dif_neg hfits] at hr
        cases hr
    · rw [if_neg hgoes] at hr
      obtain rfl := Except.ok.inj hr
      exact (stripped_isPrefix buf).trans (List.prefix_append _ _)

theorem query_isPrefix {reads : List Read} {r : XpsReply} (h : query reads = .ok r) :
    r.text <+: reads.flatMap Read.bytes := by
  cases reads with
  | nil =>
    obtain rfl := Except.ok.inj h
    exact stripped_isPrefix []
  | cons x reads => exact readOn_isPrefix h

section Framed

variable {body : List Char} {reads : List Read}

/-- The reads go on to the end of the reply or to the first that fails. -/
theorem readOn_framed (hframed : Framed body) {buf : List Char} {h : buf.length ≤ maxReply}
    {ok : Bool} (hreads : buf ++ reads.flatMap Read.bytes <+: body ++ xpsTerminator) :
    ∃ r, readOn reads buf h ok = .ok r ∧
      r.text = stripped (buf ++ if ok then arrived reads else []) := by
  induction reads generalizing buf ok with
  | nil =>
    refine ⟨_, rfl, ?_⟩
    cases ok <;> rw [arrived, ite_self, List.append_nil] <;> rfl
  | cons x reads ih =>
    rw [readOn]
    cases ok with
    | false => exact ⟨_, if_neg fun hgoes => Bool.false_ne_true hgoes.1, by simp [XpsReply.ofBuffer]⟩
    | true =>
      by_cases hend : xpsTerminator <:+ buf
      · -- nothing is behind the terminator
        have hall := hframed.last buf ((List.prefix_append _ _).trans hreads) hend
        have hnone : (x :: reads).flatMap Read.bytes = [] := by
          have hlen := hreads.length_le
          rw [hall, List.length_append] at hlen
          exact List.eq_nil_of_length_eq_zero (by omega)
        have harrived : arrived (x :: reads) = [] := by
          have hprefix := arrived_isPrefix (x :: reads)
          rw [hnone] at hprefix
          exact List.prefix_nil.1 hprefix
        refine ⟨_, if_neg fun hgoes => hgoes.2 hend, ?_⟩
        rw [if_pos rfl, harrived, List.append_nil]
        rfl
      · rw [List.flatMap_cons, ← List.append_assoc] at hreads
        have hfits : (buf ++ x.bytes).length ≤ maxReply :=
          (((List.prefix_append _ _).trans hreads).length_le).trans hframed.fits
        rw [if_pos ⟨rfl, hend⟩, dif_pos hfits, if_pos rfl, arrived, ← List.append_assoc]
        exact ih hreads

theorem query_framed (hframed : Framed body) (hdel : Delivers (body ++ xpsTerminator) reads) :
    ∃ r, query reads = .ok r ∧ r.text = stripped (arrived reads) := by
  cases reads with
  | nil => exact ⟨_, rfl, rfl⟩
  | cons x reads => exact readOn_framed hframed hdel

/-- All of a body has arrived: it is read, and perhaps a comma and more behind it. -/
theorem stripped_whole (hframed : Framed body) {got : List Char}
    (hgot : got <+: body ++ xpsTerminator) (hbody : body <+: got) :
    ∃ more, stripped got = body ++ more ∧ (more = [] ∨ ∃ rest, more = ',' :: rest) := by
  unfold stripped
  by_cases hend : xpsTerminator <:+ got
  · have hall := hframed.last got hgot hend
    refine ⟨[], ?_, .inl rfl⟩
    rw [if_pos hend, hall, List.length_append, Nat.add_sub_cancel, List.take_left, List.append_nil]
  · obtain ⟨more, rfl⟩ := hbody
    refine ⟨more, if_neg hend, ?_⟩
    have hmore := (List.prefix_append_right_inj _).1 hgot
    cases more with
    | nil => exact .inl rfl
    | cons b more =>
      obtain ⟨rest, hrest⟩ := hmore
      exact .inr ⟨more, by rw [(List.cons.inj hrest).1]⟩

/-- A body that is cut is read as far as it goes. -/
theorem stripped_cut (hframed : Framed body) {got : List Char}
    (hgot : got <+: body ++ xpsTerminator) (hbody : ¬ body <+: got) : stripped got = got := by
  refine if_neg fun hend => hbody ?_
  rw [hframed.last got hgot hend]
  exact List.prefix_append _ _

end Framed

/-- What holds the terminator's first letter nowhere is framed by it. -/
theorem framed_of_not_mem {body : List Char} (hE : 'E' ∉ body)
    (hfits : (body ++ xpsTerminator).length ≤ maxReply) : Framed body where
  fits := hfits
  last l hl hend := by
    obtain ⟨front, rfl⟩ := hend
    have hlen := hl.length_le
    rw [List.length_append, List.length_append] at hlen
    have hletter : (front ++ xpsTerminator)[front.length + 1]? = some 'E' := by
      rw [List.getElem?_append_right (Nat.le_add_right _ 1), Nat.add_sub_cancel_left]
      rfl
    have hat : (body ++ xpsTerminator)[front.length + 1]? = some 'E' := by
      obtain ⟨back, hback⟩ := hl
      have hin : front.length + 1 < (front ++ xpsTerminator).length := by
        rw [List.length_append]
        exact Nat.add_lt_add_left (by decide) _
      rw [← hback, List.getElem?_append_left hin]
      exact hletter
    -- behind the body there is one place for it
    have hplace : body.length ≤ front.length := by
      by_contra hlt
      rw [not_le] at hlt
      rcases Nat.lt_or_ge (front.length + 1) body.length with hin | hout
      · rw [List.getElem?_append_left hin] at hat
        exact hE (List.mem_of_getElem? hat)
      · rw [List.getElem?_append_right hout, show front.length + 1 - body.length = 0 by omega] at hat
        cases hat
    refine hl.eq_of_length ?_
    rw [List.length_append, List.length_append]
    omega

/-! ## Codes -/

/-- What C makes of the digits of a code or a flag. -/
structure CNumbers.Digits (c : CNumbers) : Prop where
  strtol_nil : (c.strtol []).2 = 0
  strtol_zero : ∀ rest, rest = [] ∨ (∃ t, rest = ',' :: t) → c.strtol ('0' :: rest) = (0, 1)
  atoi_zero : c.atoi ['0'] = 0
  atoi_one : c.atoi ['1'] = 1

/-- A part of a reply is its code, or the code, the comma and a part of the rest. -/
theorem code_part {text t : List Char} (hne : text ≠ []) (h : text <+: '0' :: ',' :: t) :
    text = ['0'] ∨ ∃ part, part <+: t ∧ text = '0' :: ',' :: part := by
  rcases List.prefix_cons_iff.1 h with htext | ⟨rest, rfl, hrest⟩
  · exact absurd htext hne
  rcases List.prefix_cons_iff.1 hrest with rfl | ⟨part, rfl, hpart⟩
  · exact .inl rfl
  · exact .inr ⟨part, hpart, rfl⟩

section Codes

variable {c : CNumbers} (hc : c.Digits) {r : XpsReply}
include hc

theorem code_of_nil (h : r.text = []) : r.code c = -1 := by
  rw [XpsReply.code, h, if_pos hc.strtol_nil]

/-- As far as a reply with code 0 comes, it has that code. -/
theorem code_of_isPrefix {t : List Char} (hne : r.text ≠ []) (h : r.text <+: '0' :: ',' :: t) :
    r.code c = 0 := by
  have hstrtol : c.strtol r.text = (0, 1) := by
    rcases code_part hne h with htext | ⟨part, -, htext⟩
    · rw [htext]
      exact hc.strtol_zero [] (.inl rfl)
    · rw [htext]
      exact hc.strtol_zero _ (.inr ⟨part, rfl⟩)
  rw [XpsReply.code, hstrtol]
  rfl

/-- A reply with code 0 is accepted unless none of it arrives. -/
theorem callOk_framed {t : List Char} {reads : List Read} (hframed : Framed ('0' :: ',' :: t))
    (hdel : Delivers ('0' :: ',' :: t ++ xpsTerminator) reads) :
    (arrived reads = [] ∧ ∃ e, callOk c reads = .error e) ∨
      (arrived reads ≠ [] ∧ ∃ r, callOk c reads = .ok r ∧ r.text = stripped (arrived reads)) := by
  obtain ⟨r, hquery, htext⟩ := query_framed hframed hdel
  have hgot : arrived reads <+: '0' :: ',' :: t ++ xpsTerminator := (arrived_isPrefix reads).trans hdel
  have hcall : callOk c reads = r.requireOk c := by rw [callOk, hquery]; rfl
  by_cases hnil : arrived reads = []
  · refine .inl ⟨hnil, .api (-1), ?_⟩
    rw [hnil] at htext
    rw [hcall, XpsReply.requireOk, code_of_nil hc htext]
    rfl
  · have hne : r.text ≠ [] := by
      rw [htext]
      by_cases hbody : '0' :: ',' :: t <+: arrived reads
      · obtain ⟨more, hmore, -⟩ := stripped_whole hframed hgot hbody
        rw [hmore]
        exact List.cons_ne_nil _ _
      · rw [stripped_cut hframed hgot hbody]
        exact hnil
    have hprefix : r.text <+: '0' :: ',' :: (t ++ xpsTerminator) := by
      rw [htext]
      exact (stripped_isPrefix _).trans hgot
    exact .inr ⟨hnil, r, by rw [hcall, XpsReply.requireOk, if_pos (code_of_isPrefix hc hne hprefix)],
      htext⟩

end Codes

/-! ## Digits alone -/

/-- Numbers of digits alone. -/
def digitNumbers : CNumbers where
  strtol text := (Nat.ofDigitChars 10 (text.takeWhile Char.isDigit) 0,
    (text.takeWhile Char.isDigit).length)
  atoi text := Nat.ofDigitChars 10 (text.takeWhile Char.isDigit) 0

def parseDigits (text : List Char) : Option Int :=
  if text ≠ [] ∧ text.all Char.isDigit then some (Nat.ofDigitChars 10 text 0) else none

end Newport
