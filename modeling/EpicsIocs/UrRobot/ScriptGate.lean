import EpicsIocs.UrRobot.Rtde
import Mathlib.Data.List.TakeWhile

/-! # Version gates of the control script

`remove_unsupported_functions` of `script.rs`.  A line that needs a version of the controller starts
with a marker `$M.m` or `$M.m|M.m`; a line that the controller does not support is removed, and on
the others five characters (ten with an alternative) are blanked, whatever the marker's own length.
Scripts are ASCII, so characters are bytes.

Where the markers are laid out for that, the script comes out gated line by line
(`remove_unsupported_gates`). -/

namespace UrRobot.ScriptGate

structure Version where
  major : Nat
  minor : Nat
  deriving DecidableEq, Repr

/-- Leading digits: their number, zero where it is no `u32`, and how many there are. -/
def digits (t : List Char) : Nat × Nat :=
  let run := t.takeWhile Char.isDigit
  ((parseU32 run).getD 0, run.length)

/-- A leading `M.mm`, and how many characters it takes. -/
def parseVersion (s : List Char) : Option (Version × Nat) :=
  let (major, mlen) := digits s
  if mlen = 0 then none
  else
    match s.drop mlen with
    | '.' :: rest =>
      let (minor, nlen) := digits rest
      if nlen = 0 then none else some (⟨major, minor⟩, mlen + 1 + nlen)
    | _ => none

/-- A parsed marker. -/
structure Gate where
  version : Version
  extra : Option Version
  blankWidth : Nat
  blankWidth_pos : 0 < blankWidth
  deriving DecidableEq

/-- The separator is the fifth character behind the `$`, or there is none. -/
def Gate.parse : List Char → Option Gate
  | '$' :: body => (parseVersion body).bind fun (version, _) =>
    if body[4]? = some '|' then
      (parseVersion (body.drop 5)).map fun (extra, _) => ⟨version, some extra, 10, by decide⟩
    else some ⟨version, none, 5, by decide⟩
  | _ => none

/-- Direct torque control; PolyScopeX has it from 10.9 on. -/
def directTorqueMarker : Version := ⟨5, 23⟩
def polyscopeXDirectTorqueMinor : Nat := 9

/-- A newer major version, the same with a high enough minor one, or the additional version. -/
def Gate.supported (g : Gate) (v : Version) : Bool :=
  v.major > g.version.major || (v.major == g.version.major && v.minor ≥ g.version.minor) ||
    g.extra.any fun e => v.major == e.major && v.minor ≥ e.minor

def Gate.stripForPolyscopeX (g : Gate) (v : Version) : Bool :=
  v.major == 10 && v.minor < polyscopeXDirectTorqueMinor && g.version == directTorqueMarker

def unreadable : String := "could not read the control version required from the control script"

/-- The loop, with what is written so far and the rest of the script. -/
def removeLoop (v : Version) (out rest : List Char) : Except String (List Char) :=
  let before := rest.takeWhile (· ≠ '$')
  match _h : rest.dropWhile (· ≠ '$') with
  | [] => .ok (out ++ rest)
  | dollar :: body =>
    match Gate.parse (dollar :: body) with
    | none => .error unreadable
    | some gate =>
      if gate.supported v && !gate.stripForPolyscopeX v then
        removeLoop v (out ++ before ++ List.replicate gate.blankWidth ' ')
          ((dollar :: body).drop gate.blankWidth)
      else removeLoop v (out ++ before) (((dollar :: body).dropWhile (· ≠ '\n')).drop 1)
termination_by rest.length
decreasing_by
  · have hle : (dollar :: body).length ≤ rest.length := by
      rw [← _h]
      exact (List.dropWhile_suffix _).length_le
    have hpos := gate.blankWidth_pos
    rw [List.length_cons] at hle
    rw [List.length_drop, List.length_cons]
    omega
  · have hle : (dollar :: body).length ≤ rest.length := by
      rw [← _h]
      exact (List.dropWhile_suffix _).length_le
    have hline : ((dollar :: body).dropWhile (· ≠ '\n')).length ≤ (dollar :: body).length :=
      (List.dropWhile_suffix _).length_le
    rw [List.length_cons] at hle hline
    rw [List.length_drop]
    omega

def removeUnsupportedFunctions (script : List Char) (v : Version) : Except String (List Char) :=
  removeLoop v [] script

/-! ## Scripts, line by line -/

/-- The digits of a number. -/
structure Digits where
  text : List Char
  nonempty : text ≠ []
  all_digit : ∀ c ∈ text, c.isDigit = true

def Digits.value (d : Digits) : Nat :=
  d.text.foldl (fun n c => n * 10 + (c.toNat - '0'.toNat)) 0

/-- The text of a version, `M.m`. -/
structure Required where
  major : Digits
  minor : Digits

def Required.text (r : Required) : List Char := r.major.text ++ '.' :: r.minor.text

def Required.version (r : Required) : Version := ⟨r.major.value, r.minor.value⟩

/-- `$M.m`, or `$M.m|M.m`. -/
structure Marker where
  required : Required
  extra : Option Required

namespace Marker

def text (m : Marker) : List Char :=
  '$' :: (m.required.text ++ match m.extra with
    | none => []
    | some r => '|' :: r.text)

/-- The version satisfies the requirement, or the alternative. -/
def metBy (m : Marker) (v : Version) : Bool :=
  m.required.version.major < v.major ||
    (v.major == m.required.version.major && m.required.version.minor ≤ v.minor) ||
    m.extra.any fun r => v.major == r.version.major && r.version.minor ≤ v.minor

/-- A direct-torque line needs PolyScopeX 10.9. -/
def keptBy (m : Marker) (v : Version) : Bool :=
  m.metBy v && !(v.major == 10 && v.minor < 9 && m.required.version == ⟨5, 23⟩)

end Marker

inductive Line where
  | plain (text : List Char)
  | marked (m : Marker) (behind : List Char)

namespace Line

def text : Line → List Char
  | plain text => text
  | marked m behind => m.text ++ behind

/-- Text of a line without a marker. -/
def Plain (text : List Char) : Prop := ∀ c ∈ text, c ≠ '$' ∧ c ≠ '\n' ∧ c.toNat < 128

instance (text : List Char) : Decidable (Plain text) :=
  List.decidableBAll (fun c => c ≠ '$' ∧ c ≠ '\n' ∧ c.toNat < 128) text

/-- What is behind a marker does not go on with it. -/
def WellFormed : Line → Prop
  | plain text => Plain text
  | marked m behind => Plain behind ∧ (∀ c ∈ behind.head?, c.isDigit = false) ∧
      (m.extra = none → ∀ (r : Required) (more : List Char), behind ≠ '|' :: (r.text ++ more))

/-- What is left of a line: none of it where the version does not meet the requirement, else the
line with blanks for its marker. -/
def gate (v : Version) : Line → Option (List Char)
  | plain text => some text
  | marked m behind =>
    if m.keptBy v then some (List.replicate m.text.length ' ' ++ behind) else none

end Line

/-- The last line is the one without a newline. -/
def render (lines : List Line) (last : Line) : List Char :=
  lines.flatMap (fun l => l.text ++ ['\n']) ++ last.text

/-- The script gated line by line. -/
def gated (v : Version) (lines : List Line) (last : Line) : List Char :=
  (lines.filterMap (Line.gate v)).flatMap (fun t => t ++ ['\n']) ++ (last.gate v).getD []

/-! ## The layout the code expects -/

/-- What a marker takes on a line that is kept. -/
def Marker.width (m : Marker) : Nat := if m.extra.isSome then 10 else 5

def Required.Readable (r : Required) : Prop :=
  r.major.value < 2 ^ 32 ∧ r.minor.value < 2 ^ 32

/-- The marker of a line, with what follows the line in the script: its numbers are `u32`, the bar
of an alternative is the fifth character behind the `$` and no other bar is there, and on a line that
is kept the marker and the blanks behind it fill its width. -/
structure Line.LaidOut (v : Version) (following : List Char) (m : Marker) (behind : List Char) :
    Prop where
  required : m.required.Readable
  extra : ∀ r, m.extra = some r → r.Readable ∧ m.required.text.length = 4
  single : m.extra = none → (m.text ++ behind ++ following)[5]? ≠ some '|'
  width : m.keptBy v = true → m.text.length ≤ m.width ∧
    ∃ more, behind = List.replicate (m.width - m.text.length) ' ' ++ more

/-- Every marker of the script is laid out. -/
def LaidOut (v : Version) : List Line → Line → Prop
  | [], .plain _ => True
  | [], .marked m behind => Line.LaidOut v [] m behind
  | .plain _ :: lines, last => LaidOut v lines last
  | .marked m behind :: lines, last =>
    Line.LaidOut v ('\n' :: render lines last) m behind ∧ LaidOut v lines last

/-! ## Reading a marker -/

section
variable {v : Version}

/-- Behind digits comes something else, or nothing. -/
def Stops (t : List Char) : Prop := ∀ c ∈ t.head?, c.isDigit = false

theorem parseU32_digits {run : List Char} (hne : run ≠ [])
    (hall : ∀ c ∈ run, c.isDigit = true)
    (hfit : run.foldl (fun n c => n * 10 + (c.toNat - '0'.toNat)) 0 < 2 ^ 32) :
    parseU32 run = some (run.foldl (fun n c => n * 10 + (c.toNat - '0'.toNat)) 0) := by
  have hplus : run.head? ≠ some '+' := by
    intro hhead
    exact absurd (hall '+' (List.mem_of_mem_head? hhead)) (by decide)
  have hdigits : run.all Char.isDigit = true := List.all_eq_true.2 hall
  unfold parseU32
  rw [if_neg hplus]
  dsimp only
  rw [if_neg (not_or.2 ⟨hne, not_not.2 hdigits⟩), if_pos hfit]

theorem digits_text (d : Digits) {t : List Char} (ht : Stops t) (hfit : d.value < 2 ^ 32) :
    digits (d.text ++ t) = (d.value, d.text.length) := by
  have hrun : (d.text ++ t).takeWhile Char.isDigit = d.text := by
    rw [List.takeWhile_append_of_pos d.all_digit]
    cases t with
    | nil => rw [List.takeWhile_nil, List.append_nil]
    | cons c t =>
      have hc : c.isDigit = false := ht c rfl
      rw [List.takeWhile_cons_of_neg (by simp [hc]), List.append_nil]
  unfold digits
  dsimp only
  rw [hrun, parseU32_digits d.nonempty d.all_digit hfit]
  rfl

theorem parseVersion_text {r : Required} {t : List Char} (hr : r.Readable) (ht : Stops t) :
    parseVersion (r.text ++ t) = some (r.version, r.text.length) := by
  have hmajor : digits (r.text ++ t) = (r.major.value, r.major.text.length) := by
    rw [Required.text, List.append_assoc]
    refine digits_text r.major ?_ hr.1
    intro c hc
    obtain rfl : '.' = c := by simpa using hc
    rfl
  have hdrop : (r.text ++ t).drop r.major.text.length = '.' :: (r.minor.text ++ t) := by
    rw [Required.text, List.append_assoc]
    exact List.drop_left
  have hmajorne : r.major.text.length ≠ 0 := fun h => r.major.nonempty (List.length_eq_zero_iff.1 h)
  have hminorne : r.minor.text.length ≠ 0 := fun h => r.minor.nonempty (List.length_eq_zero_iff.1 h)
  have hlen : r.text.length = r.major.text.length + 1 + r.minor.text.length := by
    simp only [Required.text, List.length_append, List.length_cons]
    omega
  unfold parseVersion
  simp only [hmajor, hdrop, digits_text r.minor ht hr.2, if_neg hmajorne, if_neg hminorne, hlen]
  rfl

/-- What `Gate::parse` makes of a marker. -/
def Marker.gate (m : Marker) : Gate where
  version := m.required.version
  extra := m.extra.map Required.version
  blankWidth := m.width
  blankWidth_pos := by
    unfold Marker.width
    split <;> decide

theorem parse_marker {m : Marker} {behind following : List Char}
    (h : Line.LaidOut v following m behind) (hstops : Stops (behind ++ following)) :
    Gate.parse (m.text ++ behind ++ following) = some m.gate := by
  obtain ⟨required, extra⟩ := m
  cases extra with
  | none =>
    have htext : (⟨required, none⟩ : Marker).text ++ behind ++ following =
        '$' :: (required.text ++ (behind ++ following)) := by
      simp [Marker.text]
    have hbar := h.single rfl
    rw [htext, List.getElem?_cons_succ] at hbar
    rw [htext, Gate.parse, parseVersion_text h.required hstops]
    dsimp only [Option.bind_some]
    rw [if_neg hbar]
    rfl
  | some r =>
    obtain ⟨hr, hlen⟩ := h.extra r rfl
    have hlen : required.text.length = 4 := hlen
    have htext : (⟨required, some r⟩ : Marker).text ++ behind ++ following =
        '$' :: (required.text ++ ('|' :: (r.text ++ (behind ++ following)))) := by
      simp [Marker.text]
    have hbar : (required.text ++ ('|' :: (r.text ++ (behind ++ following))))[4]? = some '|' := by
      rw [← hlen, List.getElem?_append_right (Nat.le_refl _), Nat.sub_self]
      rfl
    have hdrop : (required.text ++ ('|' :: (r.text ++ (behind ++ following)))).drop 5 =
        r.text ++ (behind ++ following) := by
      rw [List.drop_append, hlen, List.drop_of_length_le (by omega)]
      rfl
    have hfirst : Stops ('|' :: (r.text ++ (behind ++ following))) := by
      intro c hc
      obtain rfl : '|' = c := by simpa using hc
      rfl
    rw [htext, Gate.parse, parseVersion_text h.required hfirst]
    dsimp only [Option.bind_some]
    rw [if_pos hbar, hdrop, parseVersion_text hr hstops]
    rfl

theorem gate_keeps (m : Marker) (v : Version) :
    (m.gate.supported v && !m.gate.stripForPolyscopeX v) = m.keptBy v := by
  obtain ⟨required, extra⟩ := m
  cases extra with
  | none => rfl
  | some r => rfl

/-! ## The loop -/

theorem removeLoop_end {out rest : List Char} (h : rest.dropWhile (· ≠ '$') = []) :
    removeLoop v out rest = .ok (out ++ rest) := by
  rw [removeLoop]
  split
  · rfl
  · next heq =>
    rw [h] at heq
    cases heq

theorem removeLoop_error {out rest body : List Char} {dollar : Char}
    (h : rest.dropWhile (· ≠ '$') = dollar :: body) (hparse : Gate.parse (dollar :: body) = none) :
    removeLoop v out rest = .error unreadable := by
  rw [removeLoop]
  split
  · next heq =>
    rw [h] at heq
    cases heq
  · next heq =>
    obtain ⟨rfl, rfl⟩ := List.cons.inj (heq.symm.trans h)
    rw [hparse]

theorem removeLoop_gate {out rest body : List Char} {dollar : Char} {gate : Gate}
    (h : rest.dropWhile (· ≠ '$') = dollar :: body)
    (hparse : Gate.parse (dollar :: body) = some gate) :
    removeLoop v out rest =
      if gate.supported v && !gate.stripForPolyscopeX v then
        removeLoop v (out ++ rest.takeWhile (· ≠ '$') ++ List.replicate gate.blankWidth ' ')
          ((dollar :: body).drop gate.blankWidth)
      else removeLoop v (out ++ rest.takeWhile (· ≠ '$'))
        (((dollar :: body).dropWhile (· ≠ '\n')).drop 1) := by
  rw [removeLoop]
  split
  · next heq =>
    rw [h] at heq
    cases heq
  · next heq =>
    obtain ⟨rfl, rfl⟩ := List.cons.inj (heq.symm.trans h)
    rw [hparse]

/-- Text without a marker goes out as it is. -/
theorem removeLoop_text {out text rest : List Char} (h : ∀ c ∈ text, c ≠ '$') :
    removeLoop v out (text ++ rest) = removeLoop v (out ++ text) rest := by
  have hpos : ∀ c ∈ text, decide (c ≠ '$') = true := fun c hc => decide_eq_true (h c hc)
  have hdrop : (text ++ rest).dropWhile (· ≠ '$') = rest.dropWhile (· ≠ '$') :=
    List.dropWhile_append_of_pos hpos
  have htake : (text ++ rest).takeWhile (· ≠ '$') = text ++ rest.takeWhile (· ≠ '$') :=
    List.takeWhile_append_of_pos hpos
  cases hrest : rest.dropWhile (· ≠ '$') with
  | nil =>
    rw [removeLoop_end (hdrop.trans hrest), removeLoop_end hrest, List.append_assoc]
  | cons dollar body =>
    cases hparse : Gate.parse (dollar :: body) with
    | none => rw [removeLoop_error (hdrop.trans hrest) hparse, removeLoop_error hrest hparse]
    | some gate =>
      rw [removeLoop_gate (hdrop.trans hrest) hparse, removeLoop_gate hrest hparse, htake]
      simp only [List.append_assoc]

/-- At a marker. -/
theorem removeLoop_marker {out area : List Char} {gate : Gate}
    (hparse : Gate.parse area = some gate) :
    removeLoop v out area =
      if gate.supported v && !gate.stripForPolyscopeX v then
        removeLoop v (out ++ List.replicate gate.blankWidth ' ') (area.drop gate.blankWidth)
      else removeLoop v out ((area.dropWhile (· ≠ '\n')).drop 1) := by
  obtain ⟨body, rfl⟩ : ∃ body, area = '$' :: body := by
    unfold Gate.parse at hparse
    split at hparse
    · exact ⟨_, rfl⟩
    · cases hparse
  have hdrop : ('$' :: body).dropWhile (· ≠ '$') = '$' :: body := by simp
  have htake : ('$' :: body).takeWhile (· ≠ '$') = [] := by simp
  rw [removeLoop_gate hdrop hparse, htake, List.append_nil]

/-! ## Line by line -/

theorem Required.mem_text {r : Required} {c : Char} (hc : c ∈ r.text) :
    c.isDigit = true ∨ c = '.' := by
  rcases List.mem_append.1 hc with hc | hc
  · exact .inl (r.major.all_digit c hc)
  · rcases List.mem_cons.1 hc with hc | hc
    · exact .inr hc
    · exact .inl (r.minor.all_digit c hc)

theorem Marker.mem_tail {m : Marker} {c : Char} (hc : c ∈ m.text.tail) :
    c ≠ '$' ∧ c ≠ '\n' ∧ c ≠ ' ' := by
  have hrequired : ∀ r : Required, c ∈ r.text → c ≠ '$' ∧ c ≠ '\n' ∧ c ≠ ' ' := by
    intro r hr
    refine ⟨?_, ?_, ?_⟩ <;>
    · rintro rfl
      exact absurd (r.mem_text hr) (by decide)
  rcases List.mem_append.1 hc with hc | hc
  · exact hrequired _ hc
  · split at hc
    · exact absurd hc List.not_mem_nil
    · rcases List.mem_cons.1 hc with rfl | hc
      · decide
      · exact hrequired _ hc

theorem Marker.mem_text {m : Marker} {c : Char} (hc : c ∈ m.text) : c ≠ '\n' ∧ c ≠ ' ' := by
  rcases List.mem_cons.1 hc with rfl | hc
  · decide
  · exact (Marker.mem_tail hc).2

/-- The rest of a script behind a line. -/
def Behind (following : List Char) : Prop := following = [] ∨ ∃ more, following = '\n' :: more

theorem Behind.dropWhile {following text : List Char} (h : Behind following)
    (htext : ∀ c ∈ text, c ≠ '\n') : (text ++ following).dropWhile (· ≠ '\n') = following := by
  rw [List.dropWhile_append_of_pos fun c hc => decide_eq_true (htext c hc)]
  rcases h with rfl | ⟨more, rfl⟩
  · rfl
  · exact List.dropWhile_cons_of_neg (by simp)

theorem removeLoop_line (out : List Char) {behind following : List Char} {m : Marker}
    (hwf : (Line.marked m behind).WellFormed) (hlaid : Line.LaidOut v following m behind)
    (hfollowing : Behind following) :
    removeLoop v out (m.text ++ behind ++ following) =
      match (Line.marked m behind).gate v with
      | some text => removeLoop v (out ++ text) following
      | none => removeLoop v out (following.drop 1) := by
  obtain ⟨hplain, hstops, -⟩ := hwf
  have hread : Stops (behind ++ following) := by
    intro c hc
    cases behind with
    | nil =>
      rcases hfollowing with rfl | ⟨more, rfl⟩
      · cases hc
      · obtain rfl : '\n' = c := by simpa using hc
        rfl
    | cons b behind => exact hstops c hc
  rw [removeLoop_marker (parse_marker hlaid hread), gate_keeps, Line.gate]
  cases hkept : m.keptBy v with
  | true =>
    obtain ⟨hwidth, more, rfl⟩ := hlaid.width hkept
    have hmore : ∀ c ∈ more, c ≠ '$' := fun c hc => (hplain c (List.mem_append_right _ hc)).1
    have hdrop : (m.text ++ (List.replicate (m.width - m.text.length) ' ' ++ more) ++
        following).drop m.gate.blankWidth = more ++ following := by
      rw [← List.append_assoc m.text, List.append_assoc _ more, List.drop_left']
      rw [List.length_append, List.length_replicate]
      exact Nat.add_sub_cancel' hwidth
    have hblank : List.replicate m.text.length ' ' ++
        (List.replicate (m.width - m.text.length) ' ' ++ more) =
        List.replicate m.width ' ' ++ more := by
      rw [← List.append_assoc, List.replicate_append_replicate, Nat.add_sub_cancel' hwidth]
    rw [if_pos rfl, hdrop, removeLoop_text hmore, if_pos rfl, hblank, List.append_assoc]
    rfl
  | false =>
    have hline : ∀ c ∈ m.text ++ behind, c ≠ '\n' := by
      intro c hc
      rcases List.mem_append.1 hc with hc | hc
      · exact (Marker.mem_text hc).1
      · exact (hplain c hc).2.1
    rw [if_neg Bool.false_ne_true, hfollowing.dropWhile hline, if_neg Bool.false_ne_true]

theorem render_cons (line : Line) (lines : List Line) (last : Line) :
    render (line :: lines) last = line.text ++ '\n' :: render lines last := by
  simp [render]

theorem gated_cons_some {line : Line} {t : List Char} (h : line.gate v = some t)
    (lines : List Line) (last : Line) :
    gated v (line :: lines) last = t ++ '\n' :: gated v lines last := by
  simp [gated, h]

theorem gated_cons_none {line : Line} (h : line.gate v = none) (lines : List Line) (last : Line) :
    gated v (line :: lines) last = gated v lines last := by
  simp [gated, h]

theorem removeLoop_newline (out rest : List Char) :
    removeLoop v out ('\n' :: rest) = removeLoop v (out ++ ['\n']) rest := by
  have hplain : ∀ c ∈ ['\n'], c ≠ '$' := by simp
  exact removeLoop_text hplain

theorem removeLoop_gated {lines : List Line} {last : Line}
    (hwf : ∀ l ∈ last :: lines, l.WellFormed) (hlaid : LaidOut v lines last) (out : List Char) :
    removeLoop v out (render lines last) = .ok (out ++ gated v lines last) := by
  induction lines generalizing out with
  | nil =>
    have hlast := hwf last List.mem_cons_self
    have hnil : ∀ out, removeLoop v out [] = .ok (out ++ []) := fun out => removeLoop_end rfl
    show removeLoop v out last.text = .ok (out ++ (last.gate v).getD [])
    cases last with
    | plain text =>
      have hnone : text.dropWhile (· ≠ '$') = [] :=
        List.dropWhile_eq_nil_iff.2 fun c hc => decide_eq_true (hlast c hc).1
      exact removeLoop_end hnone
    | marked m behind =>
      have hline := removeLoop_line out hlast hlaid (.inl rfl)
      rw [List.append_nil] at hline
      refine hline.trans ?_
      cases (Line.marked m behind).gate v with
      | none => exact hnil out
      | some t => exact (hnil (out ++ t)).trans (congrArg _ (List.append_nil _))
  | cons line lines ih =>
    have hline := hwf line (by simp)
    have hwf : ∀ l ∈ last :: lines, l.WellFormed := by
      intro l hl
      rcases List.mem_cons.1 hl with rfl | hl
      · exact hwf l List.mem_cons_self
      · exact hwf l (List.mem_cons_of_mem _ (List.mem_cons_of_mem _ hl))
    have hlaid' : LaidOut v lines last := by
      cases line with
      | plain text => exact hlaid
      | marked m behind => exact hlaid.2
    have hrest := ih hwf hlaid'
    rw [render_cons]
    cases line with
    | plain text =>
      rw [Line.text, removeLoop_text fun c hc => (hline c hc).1, removeLoop_newline, hrest,
        gated_cons_some (t := text) rfl]
      simp
    | marked m behind =>
      have hstep := removeLoop_line out hline hlaid.1 (.inr ⟨_, rfl⟩)
      rw [Line.text, hstep]
      cases hgate : (Line.marked m behind).gate v with
      | none =>
        rw [gated_cons_none hgate]
        exact hrest out
      | some t =>
        show removeLoop v (out ++ t) ('\n' :: render lines last) = _
        rw [removeLoop_newline, hrest, gated_cons_some hgate]
        simp

/-- The width is needed: where a line that is kept comes out with blanks for its marker, the marker
and the blanks behind it fill the width. -/
theorem width_needed {m : Marker} {behind : List Char} (hplain : Line.Plain behind)
    (hparse : Gate.parse (m.text ++ behind) = some m.gate) (hkept : m.keptBy v = true)
    (h : removeUnsupportedFunctions (m.text ++ behind) v =
      .ok (List.replicate m.text.length ' ' ++ behind)) :
    m.text.length ≤ m.width ∧
      ∃ more, behind = List.replicate (m.width - m.text.length) ' ' ++ more := by
  have hmarks : ∀ c ∈ (m.text ++ behind).drop m.width, c ≠ '$' := by
    obtain ⟨w, hw⟩ := Nat.exists_eq_succ_of_ne_zero (Nat.ne_of_gt m.gate.blankWidth_pos)
    intro c hc
    have hw : m.width = w + 1 := hw
    rw [hw, Marker.text, List.cons_append, List.drop_succ_cons] at hc
    rcases List.mem_append.1 (List.mem_of_mem_drop hc) with hc | hc
    · exact (Marker.mem_tail hc).1
    · exact (hplain c hc).1
  have hrun : removeUnsupportedFunctions (m.text ++ behind) v =
      .ok (List.replicate m.width ' ' ++ (m.text ++ behind).drop m.width) := by
    rw [removeUnsupportedFunctions, removeLoop_marker hparse, gate_keeps, hkept, if_pos rfl]
    exact removeLoop_end (List.dropWhile_eq_nil_iff.2 fun c hc => decide_eq_true (hmarks c hc))
  have heq := Except.ok.inj (hrun.symm.trans h)
  have hwidth : m.text.length ≤ m.width := by
    by_contra hlong
    have hlt : m.width < m.text.length := by omega
    have hleft : (List.replicate m.width ' ' ++ (m.text ++ behind).drop m.width)[m.width]? =
        some m.text[m.width] := by
      rw [List.getElem?_append_right (by simp), List.length_replicate, Nat.sub_self,
        List.getElem?_drop, Nat.add_zero, List.getElem?_append_left hlt,
        List.getElem?_eq_getElem hlt]
    have hright : (List.replicate m.text.length ' ' ++ behind)[m.width]? = some ' ' := by
      rw [List.getElem?_append_left (by simpa using hlt), List.getElem?_replicate, if_pos hlt]
    have hblank : m.text[m.width] = ' ' :=
      Option.some.inj (hleft.symm.trans ((congrArg (·[m.width]?) heq).trans hright))
    exact (Marker.mem_text (List.getElem_mem hlt)).2 hblank
  refine ⟨hwidth, behind.drop (m.width - m.text.length), ?_⟩
  have hsplit : List.replicate m.width ' ' =
      List.replicate m.text.length ' ' ++ List.replicate (m.width - m.text.length) ' ' := by
    rw [List.replicate_append_replicate, Nat.add_sub_cancel' hwidth]
  rw [List.drop_append, List.drop_of_length_le hwidth, List.nil_append, hsplit,
    List.append_assoc] at heq
  exact (List.append_cancel_left heq).symm

/-! ## What is left -/

theorem gate_plain {l : Line} (hwf : l.WellFormed) {t : List Char} (h : l.gate v = some t) :
    ∀ c ∈ t, c ≠ '$' ∧ c ≠ '\n' := by
  intro c hc
  cases l with
  | plain text =>
    obtain rfl : text = t := Option.some.inj h
    exact ⟨(hwf c hc).1, (hwf c hc).2.1⟩
  | marked m behind =>
    simp only [Line.gate] at h
    split at h
    · obtain rfl := Option.some.inj h
      rcases List.mem_append.1 hc with hc | hc
      · obtain ⟨-, rfl⟩ := List.mem_replicate.1 hc
        decide
      · exact ⟨(hwf.1 c hc).1, (hwf.1 c hc).2.1⟩
    · cases h

theorem count_lines {texts : List (List Char)} (h : ∀ t ∈ texts, ∀ c ∈ t, c ≠ '$' ∧ c ≠ '\n') :
    '$' ∉ texts.flatMap (fun t => t ++ ['\n']) ∧
      (texts.flatMap fun t => t ++ ['\n']).count '\n' = texts.length := by
  induction texts with
  | nil => simp
  | cons t texts ih =>
    obtain ⟨ht, htexts⟩ := List.forall_mem_cons.1 h
    obtain ⟨hmarker, hcount⟩ := ih htexts
    have hnone : t.count '\n' = 0 := List.count_eq_zero.2 fun hmem => (ht _ hmem).2 rfl
    constructor
    · intro hmem
      rw [List.flatMap_cons, List.mem_append, List.mem_append] at hmem
      rcases hmem with (hmem | hmem) | hmem
      · exact (ht _ hmem).1 rfl
      · exact absurd (List.mem_singleton.1 hmem) (by decide)
      · exact hmarker hmem
    · rw [List.flatMap_cons, List.count_append, List.count_append, hnone, hcount,
        List.length_cons]
      simp
      omega

end

/-- On a script whose markers are laid out, `remove_unsupported_functions` gates line by line: no
marker is left, and every line that is kept is a line of the result. -/
theorem remove_unsupported_gates (v : Version) (lines : List Line) (last : Line)
    (hwf : ∀ l ∈ last :: lines, l.WellFormed) (hlaid : LaidOut v lines last) :
    removeUnsupportedFunctions (render lines last) v = .ok (gated v lines last) ∧
      '$' ∉ gated v lines last ∧
      (gated v lines last).count '\n' = (lines.filterMap (Line.gate v)).length := by
  have hkept : ∀ t ∈ lines.filterMap (Line.gate v), ∀ c ∈ t, c ≠ '$' ∧ c ≠ '\n' := by
    intro t ht
    obtain ⟨l, hl, hgate⟩ := List.mem_filterMap.1 ht
    exact gate_plain (hwf l (List.mem_cons_of_mem _ hl)) hgate
  have hlast : ∀ c ∈ (last.gate v).getD [], c ≠ '$' ∧ c ≠ '\n' := by
    cases hgate : last.gate v with
    | none => simp
    | some t => exact gate_plain (hwf last List.mem_cons_self) hgate
  obtain ⟨hmarker, hcount⟩ := count_lines hkept
  refine ⟨removeLoop_gated hwf hlaid [], fun hmem => ?_, ?_⟩
  · rcases List.mem_append.1 hmem with hmem | hmem
    · exact hmarker hmem
    · exact (hlast _ hmem).1 rfl
  · have hnone : ((last.gate v).getD []).count '\n' = 0 :=
      List.count_eq_zero.2 fun hmem => (hlast _ hmem).2 rfl
    rw [gated, List.count_append, hcount, hnone, Nat.add_zero]

def five : Digits := ⟨['5'], by decide, by simp⟩
def four : Digits := ⟨['4'], by decide, by simp⟩

/-- A line `$5.4  foo()` of the shipped kind, on 5.11 and on 5.3. -/
theorem remove_unsupported_gates_shipped :
    let line := Line.marked ⟨⟨five, four⟩, none⟩ "  foo()".toList
    removeUnsupportedFunctions (render [line] (.plain [])) ⟨5, 11⟩ =
        .ok "      foo()\n".toList ∧
      removeUnsupportedFunctions (render [line] (.plain [])) ⟨5, 3⟩ = .ok [] := by
  intro line
  have hwf : ∀ l ∈ [Line.plain [], line], l.WellFormed := by
    intro l hl
    rcases List.mem_pair.1 hl with rfl | rfl
    · exact (by decide : Line.Plain [])
    · exact ⟨by decide, by simp, fun _ r more h => absurd (List.cons.inj h).1 (by decide)⟩
  have hlaid : ∀ v, LaidOut v [line] (.plain []) := fun v =>
    ⟨⟨⟨by decide, by decide⟩, by simp, fun _ => by decide,
      fun _ => ⟨by decide, " foo()".toList, by decide⟩⟩, trivial⟩
  exact ⟨(remove_unsupported_gates ⟨5, 11⟩ [line] (.plain []) hwf (hlaid _)).1.trans
      (congrArg _ (by decide)),
    (remove_unsupported_gates ⟨5, 3⟩ [line] (.plain []) hwf (hlaid _)).1.trans
      (congrArg _ (by decide))⟩

/-- A marker directly in front of the newline takes the newline with it, and the next line goes on
behind the blanks. -/
theorem marker_takes_newline :
    let lines := [Line.marked ⟨⟨five, four⟩, none⟩ [], Line.plain "foo()".toList]
    (∀ l ∈ Line.plain [] :: lines, l.WellFormed) ∧
      render lines (.plain []) = "$5.4\nfoo()\n".toList ∧
      removeUnsupportedFunctions (render lines (.plain [])) ⟨5, 11⟩ =
        .ok "     foo()\n".toList ∧
      gated ⟨5, 11⟩ lines (.plain []) = "    \nfoo()\n".toList := by
  intro lines
  refine ⟨?_, by decide, ?_, by decide⟩
  · intro l hl
    simp only [lines, List.mem_cons, List.not_mem_nil, or_false] at hl
    rcases hl with rfl | rfl | rfl
    · exact (by decide : Line.Plain [])
    · exact ⟨by decide, by simp, fun _ r more h => by cases h⟩
    · exact (by decide : Line.Plain "foo()".toList)
  · have hparse : Gate.parse "$5.4\nfoo()\n".toList = some ⟨⟨5, 4⟩, none, 5, by decide⟩ := by
      decide
    show removeLoop ⟨5, 11⟩ [] "$5.4\nfoo()\n".toList = _
    rw [removeLoop_marker hparse, if_pos (by decide), removeLoop_end (by decide)]
    exact congrArg _ (by decide)

end UrRobot.ScriptGate
