import EpicsIocs.Newport.Atof
import EpicsIocs.Newport.Rpc
import Mathlib.Algebra.Ring.Int.Defs
import Mathlib.Data.List.Forall2

/-! # Setting one servo gain

`set_pid` (`xps/corrector.rs`) reads the type of a positioner's corrector and its parameters,
replaces one gain and writes all of them back.  A reply that a failing read cuts off is taken as far
as it goes: parameters that have not come are 0, and are written.

    only the one gain changes  ↔  the parameters' reply is whole once it has begun
                                                                       (setPid_frame_iff)

The numbers are of any type: `parse` is the standard library's, and `g13` prints with 13 digits. -/

namespace Newport

/-! ## The code -/

inductive CorrectorType where
  | piPosition
  | pidFfVelocity
  | pidFfAcceleration
  | pidDualFfVoltage
  | noCorrector
  | other
  deriving DecidableEq, Repr

namespace CorrectorType

def shortName : CorrectorType → String
  | piPosition => "PIPosition"
  | pidFfVelocity => "PIDFFVelocity"
  | pidFfAcceleration => "PIDFFAcceleration"
  | pidDualFfVoltage => "PIDDualFFVoltage"
  | noCorrector | other => ""

def parse (s : List Char) : CorrectorType :=
  if s = "PositionerCorrectorPIPosition".toList then piPosition
  else if s = "PositionerCorrectorPIDFFVelocity".toList then pidFfVelocity
  else if s = "PositionerCorrectorPIDFFAcceleration".toList then pidFfAcceleration
  else if s = "PositionerCorrectorPIDDualFFVoltage".toList then pidDualFfVoltage
  else if s = "NoCorrector".toList then noCorrector
  else other

end CorrectorType

inductive PidGainKind where
  | proportional
  | integral
  | derivative
  deriving DecidableEq, Repr

structure XpsCorrectorInfo (F : Type) where
  closedLoop : Bool
  kp : F
  ki : F
  kd : F
  ks : F
  integrationTime : F
  derivativeFilterCutoff : F
  gkp : F
  gki : F
  gkd : F
  kform : F
  ffVelocity : F
  ffAcceleration : F
  friction : F
  deriving DecidableEq, Repr

inductive PidFailure where
  | typeGet (code : Int)
  | get (ct : CorrectorType) (code : Int)
  | set (ct : CorrectorType) (code : Int)
  | unsupported (ct : CorrectorType) (name : List Char)
  deriving DecidableEq, Repr

/-- What is written to the socket; `set` by its arguments behind the positioner. -/
inductive Command where
  | typeGet (positioner : String)
  | get (ct : CorrectorType) (positioner : String)
  | set (ct : CorrectorType) (positioner : String) (args : List (List Char))
  deriving DecidableEq, Repr

/-- The out-parameters of a type's `Get`, behind the first. -/
def CorrectorType.doubles : CorrectorType → Nat
  | piPosition => 3
  | pidFfVelocity | pidFfAcceleration => 11
  | pidDualFfVoltage => 13
  | noCorrector | other => 0

def Command.text : Command → String
  | typeGet positioner => s!"PositionerCorrectorTypeGet ({positioner},char *)"
  | get ct positioner =>
    s!"PositionerCorrector{ct.shortName}Get ({positioner},bool *" ++
      String.join (List.replicate ct.doubles ",double *") ++ ")"
  | set ct positioner args =>
    s!"PositionerCorrector{ct.shortName}Set ({positioner}" ++
      String.join (args.map fun arg => "," ++ String.ofList arg) ++ ")"

section Code

variable {F : Type} [Zero F] (c : CNumbers) (parse : List Char → Option F) (g13 : F → List Char)

def XpsReply.double (r : XpsReply) (n : Nat) : F := ((r.field n).map (atof parse)).getD 0

namespace XpsCorrectorInfo

/-- `default`. -/
def empty : XpsCorrectorInfo F := ⟨false, 0, 0, 0, 0, 0, 0, 0, 0, 0, 0, 0, 0, 0⟩

def readPidffCommon (r : XpsReply) (info : XpsCorrectorInfo F) : XpsCorrectorInfo F :=
  { info with
    closedLoop := r.int c 1 ≠ 0
    kp := r.double parse 2
    ki := r.double parse 3
    kd := r.double parse 4
    ks := r.double parse 5
    integrationTime := r.double parse 6
    derivativeFilterCutoff := r.double parse 7
    gkp := r.double parse 8
    gki := r.double parse 9
    gkd := r.double parse 10
    kform := r.double parse 11 }

/-- `read_into`, from the reply; there is none for the last two types. -/
def readInto (r : XpsReply) (ct : CorrectorType) (info : XpsCorrectorInfo F) :
    Except XpsError (XpsCorrectorInfo F) :=
  match ct with
  | .piPosition =>
    .ok { info with
      closedLoop := r.int c 1 ≠ 0
      kp := r.double parse 2
      ki := r.double parse 3
      integrationTime := r.double parse 4 }
  | .pidFfVelocity =>
    .ok { readPidffCommon c parse r info with ffVelocity := r.double parse 12 }
  | .pidFfAcceleration =>
    .ok { readPidffCommon c parse r info with ffAcceleration := r.double parse 12 }
  | .pidDualFfVoltage =>
    .ok { readPidffCommon c parse r info with
      ffVelocity := r.double parse 12
      ffAcceleration := r.double parse 13
      friction := r.double parse 14 }
  | .noCorrector | .other => .error (.api 0)

/-- The arguments that `write_from` formats. -/
def writeFrom (ct : CorrectorType) (info : XpsCorrectorInfo F) : Except XpsError (List (List Char)) :=
  let closed := if info.closedLoop then ['1'] else ['0']
  match ct with
  | .piPosition => .ok [closed, g13 info.kp, g13 info.ki, g13 info.integrationTime]
  | .pidFfVelocity =>
    .ok [closed, g13 info.kp, g13 info.ki, g13 info.kd, g13 info.ks, g13 info.integrationTime,
      g13 info.derivativeFilterCutoff, g13 info.gkp, g13 info.gki, g13 info.gkd, g13 info.kform,
      g13 info.ffVelocity]
  | .pidFfAcceleration =>
    .ok [closed, g13 info.kp, g13 info.ki, g13 info.kd, g13 info.ks, g13 info.integrationTime,
      g13 info.derivativeFilterCutoff, g13 info.gkp, g13 info.gki, g13 info.gkd, g13 info.kform,
      g13 info.ffAcceleration]
  | .pidDualFfVoltage =>
    .ok [closed, g13 info.kp, g13 info.ki, g13 info.kd, g13 info.ks, g13 info.integrationTime,
      g13 info.derivativeFilterCutoff, g13 info.gkp, g13 info.gki, g13 info.gkd, g13 info.kform,
      g13 info.ffVelocity, g13 info.ffAcceleration, g13 info.friction]
  | .noCorrector | .other => .error (.api 0)

def setGain (kind : PidGainKind) (gain : F) (info : XpsCorrectorInfo F) : XpsCorrectorInfo F :=
  match kind with
  | .proportional => { info with kp := gain }
  | .integral => { info with ki := gain }
  | .derivative => { info with kd := gain }

end XpsCorrectorInfo

open XpsCorrectorInfo

variable (link : Command → List Read) (positioner : String)

def correctorTypeName : Except XpsError (List Char) :=
  (callOk c (link (.typeGet positioner))).map fun r => r.string 1

/-- The result, and the commands that are written; `link` are the reads after each. -/
def setPid (kind : PidGainKind) (gain : F) : Except PidFailure Unit × List Command :=
  match correctorTypeName c link positioner with
  | .error e => (.error (.typeGet e.code), [.typeGet positioner])
  | .ok name =>
    let ct := CorrectorType.parse name
    if ct = .noCorrector ∨ ct = .other then
      (.error (.unsupported ct name), [.typeGet positioner])
    else
      match (callOk c (link (.get ct positioner))).bind fun r => readInto c parse r ct empty with
      | .error e => (.error (.get ct e.code), [.typeGet positioner, .get ct positioner])
      | .ok info =>
        match writeFrom g13 ct (info.setGain kind gain) with
        | .error e => (.error (.set ct e.code), [.typeGet positioner, .get ct positioner])
        | .ok args =>
          ((callOk c (link (.set ct positioner args))).mapError (fun e => .set ct e.code) |>.map
              fun _ => (),
            [.typeGet positioner, .get ct positioner, .set ct positioner args])

end Code

/-! ## The controller -/

/-- The parameters of a corrector beside its loop's flag. -/
inductive Param where
  | kp
  | ki
  | kd
  | ks
  | integrationTime
  | derivativeFilterCutoff
  | gkp
  | gki
  | gkd
  | kform
  | ffVelocity
  | ffAcceleration
  | friction
  deriving DecidableEq, Repr

def Param.common : List Param :=
  [.kp, .ki, .kd, .ks, .integrationTime, .derivativeFilterCutoff, .gkp, .gki, .gkd, .kform]

namespace CorrectorType

/-- In the order in which the controller gives and takes them. -/
def params : CorrectorType → List Param
  | piPosition => [.kp, .ki, .integrationTime]
  | pidFfVelocity => Param.common ++ [.ffVelocity]
  | pidFfAcceleration => Param.common ++ [.ffAcceleration]
  | pidDualFfVoltage => Param.common ++ [.ffVelocity, .ffAcceleration, .friction]
  | noCorrector | other => []

def fullName (ct : CorrectorType) : List Char := ("PositionerCorrector" ++ ct.shortName).toList

def Supported (ct : CorrectorType) : Prop := ct ≠ noCorrector ∧ ct ≠ other

end CorrectorType

def PidGainKind.param : PidGainKind → Param
  | proportional => .kp
  | integral => .ki
  | derivative => .kd

def typeReply (name : List Char) : List Char := '0' :: ',' :: name

def flag (closed : Bool) : List Char := if closed then ['1'] else ['0']

def paramFields (closed : Bool) (shown : Param → Printed) (ct : CorrectorType) : List (List Char) :=
  ['0'] :: flag closed :: ct.params.map fun p => (shown p).text

def paramsReply (closed : Bool) (shown : Param → Printed) (ct : CorrectorType) : List Char :=
  [','].intercalate (paramFields closed shown ct)

/-- A positioner's corrector: the values that it holds, and how it shows them. -/
structure Corrector {F : Type} (parse : List Char → Option F) where
  name : List Char
  closed : Bool
  held : Param → F
  shown : Param → Printed
  shows : ∀ p, parse (shown p).text = some (held p)
  digits : ∀ p, (shown p).significant ≤ 13
  plain : ',' ∉ name
  framed : Framed (typeReply name)
  fits : ∀ ct, name = ct.fullName → (paramsReply closed shown ct ++ xpsTerminator).length ≤ maxReply

/-- A number of at most 13 digits is the same one after it is printed with 13. -/
def RoundTrips {F : Type} (parse : List Char → Option F) (g13 : F → List Char) : Prop :=
  ∀ (x : Printed) (v : F), x.significant ≤ 13 → parse x.text = some v → parse (g13 v) = some v

section Controller

variable {F : Type} {parse : List Char → Option F} (k : Corrector parse)

def Corrector.Uses (ct : CorrectorType) : Prop := ct.Supported ∧ k.name = ct.fullName

/-- What the reads bring: the type, the parameters, and for the parameters of another type a code
that is not 0. -/
structure Answers (c : CNumbers) (positioner : String) (link : Command → List Read) : Prop where
  typeGet : Delivers (typeReply k.name ++ xpsTerminator) (link (.typeGet positioner))
  get : ∀ ct, k.Uses ct →
    Delivers (paramsReply k.closed k.shown ct ++ xpsTerminator) (link (.get ct positioner))
  refused : ∀ ct, ct.Supported → ¬ k.Uses ct → ∃ reply,
    Delivers reply (link (.get ct positioner)) ∧ ∀ r : XpsReply, r.text <+: reply → r.code c ≠ 0

/-- The arguments of a `Set`: the gain in its slot, all else as the controller holds it. -/
def Corrector.Carries (g13 : F → List Char) (kind : PidGainKind) (gain : F) (ct : CorrectorType)
    (args : List (List Char)) : Prop :=
  ∃ values, args = flag k.closed :: values ∧ List.Forall₂ (fun p value =>
    if p = kind.param then value = g13 gain else parse value = some (k.held p)) ct.params values

/-- All of the type and of its parameters arrives. -/
def Supplied (link : Command → List Read) (positioner : String) : Prop :=
  ∃ ct, k.Uses ct ∧ typeReply k.name <+: arrived (link (.typeGet positioner)) ∧
    paramsReply k.closed k.shown ct <+: arrived (link (.get ct positioner))

/-- All of the type arrives, and some of its parameters' reply. -/
structure Begun (link : Command → List Read) (positioner : String) (ct : CorrectorType) : Prop where
  uses : k.Uses ct
  named : typeReply k.name <+: arrived (link (.typeGet positioner))
  some : arrived (link (.get ct positioner)) ≠ []

/-- An error is returned, and nothing is set. -/
def Stopped (out : Except PidFailure Unit × List Command) : Prop :=
  (∃ e, out.1 = .error e) ∧ ∀ ct positioner args, Command.set ct positioner args ∉ out.2

/-- What is set is the one gain. -/
def OneGain (g13 : F → List Char) (positioner : String) (kind : PidGainKind) (gain : F)
    (log : List Command) : Prop :=
  ∀ ct name args, Command.set ct name args ∈ log →
    k.Uses ct ∧ name = positioner ∧ k.Carries g13 kind gain ct args

end Controller

/-! ## The lists -/

namespace CorrectorType

variable {ct : CorrectorType}

theorem supported_iff : ct.Supported ↔ ¬ (ct = .noCorrector ∨ ct = .other) := not_or.symm

theorem parse_fullName (h : ct.Supported) : parse ct.fullName = ct := by
  cases ct with
  | piPosition =>
    show parse "PositionerCorrectorPIPosition".toList = _
    simp [parse]
  | pidFfVelocity =>
    show parse "PositionerCorrectorPIDFFVelocity".toList = _
    simp [parse]
  | pidFfAcceleration =>
    show parse "PositionerCorrectorPIDFFAcceleration".toList = _
    simp [parse]
  | pidDualFfVoltage =>
    show parse "PositionerCorrectorPIDDualFFVoltage".toList = _
    simp [parse]
  | noCorrector => exact absurd rfl h.1
  | other => exact absurd rfl h.2

theorem fullName_parse {name : List Char} (h : (parse name).Supported) :
    name = (parse name).fullName := by
  unfold parse at h ⊢
  split_ifs at h ⊢ with h₁ h₂ h₃ h₄ h₅
  · exact h₁
  · exact h₂
  · exact h₃
  · exact h₄
  · exact absurd rfl h.1
  · exact absurd rfl h.2

theorem fullName_ne_nil : ct.fullName ≠ [] := by
  simp [fullName]

end CorrectorType

namespace XpsCorrectorInfo

variable {F : Type}

def get (info : XpsCorrectorInfo F) : Param → F
  | .kp => info.kp
  | .ki => info.ki
  | .kd => info.kd
  | .ks => info.ks
  | .integrationTime => info.integrationTime
  | .derivativeFilterCutoff => info.derivativeFilterCutoff
  | .gkp => info.gkp
  | .gki => info.gki
  | .gkd => info.gkd
  | .kform => info.kform
  | .ffVelocity => info.ffVelocity
  | .ffAcceleration => info.ffAcceleration
  | .friction => info.friction

/-- One gain is replaced. -/
theorem setGain_get (kind : PidGainKind) (gain : F) (info : XpsCorrectorInfo F) (p : Param) :
    (info.setGain kind gain).get p = if p = kind.param then gain else info.get p := by
  cases kind <;> cases p <;> rfl

theorem setGain_closedLoop (kind : PidGainKind) (gain : F) (info : XpsCorrectorInfo F) :
    (info.setGain kind gain).closedLoop = info.closedLoop := by
  cases kind <;> rfl

/-- What is read is in the order of the type's parameters, from the second field on. -/
theorem readInto_spec [Zero F] (c : CNumbers) (parse : List Char → Option F) (r : XpsReply)
    {ct : CorrectorType} (h : ct.Supported) :
    ∃ info, readInto c parse r ct empty = .ok info ∧ info.closedLoop = decide (r.int c 1 ≠ 0) ∧
      ct.params.map info.get = (List.range ct.params.length).map fun i => r.double parse (i + 2) := by
  cases ct with
  | noCorrector => exact absurd rfl h.1
  | other => exact absurd rfl h.2
  | _ => exact ⟨_, rfl, rfl, rfl⟩

/-- What is written is in the same order. -/
theorem writeFrom_spec (g13 : F → List Char) (info : XpsCorrectorInfo F) {ct : CorrectorType}
    (h : ct.Supported) :
    writeFrom g13 ct info = .ok (flag info.closedLoop :: ct.params.map fun p => g13 (info.get p)) := by
  cases ct with
  | noCorrector => exact absurd rfl h.1
  | other => exact absurd rfl h.2
  | _ => rfl

end XpsCorrectorInfo

theorem Corrector.Uses.unique {F : Type} {parse : List Char → Option F} {k : Corrector parse}
    {ct ct' : CorrectorType} (h : k.Uses ct) (h' : k.Uses ct') : ct = ct' := by
  have hparse := CorrectorType.parse_fullName h'.1
  rw [← h'.2, h.2, CorrectorType.parse_fullName h.1] at hparse
  exact hparse

/-! ## The parameters' reply -/

theorem comma_not_mem_flag (closed : Bool) : ',' ∉ flag closed := by
  cases closed <;> decide

/-- Fields without commas are those between them. -/
theorem splitOn_fields {fields : List (List Char)} (hne : fields ≠ [])
    (h : ∀ field ∈ fields, ',' ∉ field) {more : List Char}
    (hmore : more = [] ∨ ∃ rest, more = ',' :: rest) :
    ∃ tail, ([','].intercalate fields ++ more).splitOn ',' = fields ++ tail := by
  rcases hmore with rfl | ⟨rest, rfl⟩
  · exact ⟨[], by rw [List.append_nil, List.append_nil, List.splitOn_intercalate ',' h hne]⟩
  · exact ⟨rest.splitOn ',', by
      rw [List.splitOn_append_cons_self, List.splitOn_intercalate ',' h hne]⟩

section Controller

variable {F : Type} {parse : List Char → Option F} (k : Corrector parse)

theorem comma_not_mem_paramFields (closed : Bool) (shown : Param → Printed) (ct : CorrectorType) :
    ∀ field ∈ paramFields closed shown ct, ',' ∉ field := by
  intro field hfield
  rcases List.mem_cons.1 hfield with rfl | hfield
  · decide
  rcases List.mem_cons.1 hfield with rfl | hfield
  · exact comma_not_mem_flag closed
  · obtain ⟨p, -, rfl⟩ := List.mem_map.1 hfield
    exact (shown p).not_mem_text (by decide) (by decide)

theorem letter_not_mem_paramsReply (closed : Bool) (shown : Param → Printed) (ct : CorrectorType) :
    'E' ∉ paramsReply closed shown ct := by
  have hfields : ∀ field ∈ paramFields closed shown ct, 'E' ∉ field := by
    intro field hfield
    rcases List.mem_cons.1 hfield with rfl | hfield
    · decide
    rcases List.mem_cons.1 hfield with rfl | hfield
    · cases closed <;> decide
    · obtain ⟨p, -, rfl⟩ := List.mem_map.1 hfield
      exact (shown p).not_mem_text (by decide) (by decide)
  unfold paramsReply
  generalize paramFields closed shown ct = fields at hfields ⊢
  induction fields with
  | nil => exact List.not_mem_nil
  | cons field fields ih =>
    have htail := ih fun f hf => hfields f (List.mem_cons_of_mem _ hf)
    have hhead := hfields field List.mem_cons_self
    cases fields with
    | nil => rwa [List.intercalate_singleton]
    | cons next fields =>
      rw [List.intercalate_cons_cons, List.mem_append, List.mem_append]
      rintro ((h | h) | h)
      · exact hhead h
      · exact absurd h (by decide)
      · exact htail h

/-- The reply begins with the code. -/
theorem paramsReply_eq (closed : Bool) (shown : Param → Printed) (ct : CorrectorType) :
    ∃ t, paramsReply closed shown ct = '0' :: ',' :: t :=
  ⟨_, List.intercalate_cons_cons⟩

theorem Corrector.framed_params {ct : CorrectorType} (hu : k.Uses ct) :
    Framed (paramsReply k.closed k.shown ct) :=
  framed_of_not_mem (letter_not_mem_paramsReply _ _ _) (k.fits ct hu.2)

section Read

variable {ct : CorrectorType} {r : XpsReply} {more : List Char}
  (htext : r.text = paramsReply k.closed k.shown ct ++ more)
  (hmore : more = [] ∨ ∃ rest, more = ',' :: rest)
include htext hmore

theorem field_eq {i : Nat} (hi : i < (paramFields k.closed k.shown ct).length) :
    r.field i = (paramFields k.closed k.shown ct)[i]? := by
  have hne : paramFields k.closed k.shown ct ≠ [] := List.cons_ne_nil _ _
  obtain ⟨tail, htail⟩ :=
    splitOn_fields hne (comma_not_mem_paramFields k.closed k.shown ct) hmore
  rw [XpsReply.field, htext, paramsReply, htail, List.getElem?_append_left hi]

/-- All of the parameters' reply: each parameter is what the controller holds. -/
theorem readInto_whole {c : CNumbers} [Zero F] (hc : c.Digits) (hsupported : ct.Supported) :
    ∃ info, XpsCorrectorInfo.readInto c parse r ct .empty = .ok info ∧
      info.closedLoop = k.closed ∧ ∀ p ∈ ct.params, info.get p = k.held p := by
  obtain ⟨info, hread, hclosed, hget⟩ :=
    XpsCorrectorInfo.readInto_spec c parse r hsupported
  have hlen : (paramFields k.closed k.shown ct).length = ct.params.length + 2 := by
    rw [paramFields, List.length_cons, List.length_cons, List.length_map]
  have hflag : r.int c 1 = c.atoi (flag k.closed) := by
    rw [XpsReply.int, field_eq k htext hmore (by omega)]
    rfl
  have hheld : ct.params.map info.get = ct.params.map k.held := by
    rw [hget]
    refine List.ext_getElem (by simp) fun i hi hi' => ?_
    rw [List.length_map] at hi'
    have hfield : r.field (i + 2) = some (k.shown ct.params[i]).text := by
      rw [field_eq k htext hmore (by omega), paramFields, List.getElem?_cons_succ,
        List.getElem?_cons_succ, List.getElem?_map, List.getElem?_eq_getElem hi']
      rfl
    rw [List.getElem_map, List.getElem_map, List.getElem_range, XpsReply.double, hfield]
    exact Printed.atof_text _ (k.shows _)
  refine ⟨info, hread, ?_, List.map_inj_left.1 hheld⟩
  rw [hclosed, hflag]
  cases k.closed with
  | false => exact decide_eq_false (not_not_intro hc.atoi_zero)
  | true =>
    refine decide_eq_true ?_
    show c.atoi ['1'] ≠ 0
    rw [hc.atoi_one]
    decide

end Read

/-! ## The type's reply -/

theorem string_one {r : XpsReply} {name more : List Char} (hplain : ',' ∉ name)
    (hmore : more = [] ∨ ∃ rest, more = ',' :: rest) (htext : r.text = typeReply name ++ more) :
    r.string 1 = name := by
  have hfields : ∀ field ∈ [['0'], name], ',' ∉ field := by
    intro field hfield
    rcases List.mem_cons.1 hfield with rfl | hfield
    · decide
    · rwa [List.mem_singleton.1 hfield]
  obtain ⟨tail, htail⟩ := splitOn_fields (List.cons_ne_nil _ _) hfields hmore
  rw [List.intercalate_cons_cons, List.intercalate_singleton] at htail
  rw [XpsReply.string, XpsReply.field, htext, show typeReply name = ['0'] ++ [','] ++ name from rfl,
    htail]
  rfl

section Link

variable {c : CNumbers} (hc : c.Digits) {positioner : String} {link : Command → List Read}
  (ha : Answers k c positioner link)
include hc ha

/-- The name is read if all of it arrives, and otherwise it is none or another one. -/
theorem correctorTypeName_cases :
    (¬ typeReply k.name <+: arrived (link (.typeGet positioner)) ∧
      ∃ e, correctorTypeName c link positioner = .error e) ∨
    ∃ name, correctorTypeName c link positioner = .ok name ∧
      (typeReply k.name <+: arrived (link (.typeGet positioner)) → name = k.name) ∧
      (name = k.name → name ≠ [] →
        typeReply k.name <+: arrived (link (.typeGet positioner))) := by
  have hgot := (arrived_isPrefix (link (.typeGet positioner))).trans ha.typeGet
  rcases callOk_framed hc k.framed ha.typeGet with ⟨hnil, e, he⟩ | ⟨hne, r, hr, htext⟩
  · refine .inl ⟨fun hwhole => ?_, e, by rw [correctorTypeName, he]; rfl⟩
    rw [hnil, List.prefix_nil] at hwhole
    cases hwhole
  refine .inr ⟨r.string 1, by rw [correctorTypeName, hr]; rfl, fun hwhole => ?_, fun hname hne' => ?_⟩
  · obtain ⟨more, hmore, hrest⟩ := stripped_whole k.framed hgot hwhole
    exact string_one k.plain hrest (htext.trans hmore)
  · by_contra hcut
    rw [stripped_cut k.framed hgot hcut] at htext
    have hin : r.text <+: typeReply k.name := by
      rw [htext]
      exact (List.prefix_or_prefix_of_prefix hgot (List.prefix_append _ _)).resolve_right hcut
    rw [← htext] at hne hcut
    rcases code_part hne hin with hcode | ⟨part, hpart, hall⟩
    · refine hne' ?_
      rw [XpsReply.string, XpsReply.field, hcode]
      rfl
    · have hpartPlain : ',' ∉ part := fun hmem => k.plain (hpart.subset hmem)
      have hpartText : r.text = typeReply part ++ [] := hall.trans (List.append_nil _).symm
      rw [string_one hpartPlain (.inl rfl) hpartText] at hname
      rw [hname] at hall
      exact hcut (hall ▸ List.prefix_rfl)

end Link

/-! ## What is sent -/

section Sent

variable [Zero F] {c : CNumbers} {g13 : F → List Char} {link : Command → List Read}
  {positioner : String} {kind : PidGainKind} {gain : F} {name : List Char}

omit [Zero F] in
theorem Stopped.oneGain {out : Except PidFailure Unit × List Command} (h : Stopped out) :
    OneGain k g13 positioner kind gain out.2 :=
  fun ct positioner args hset => absurd hset (h.2 ct positioner args)

theorem setPid_unnamed {e : XpsError} (h : correctorTypeName c link positioner = .error e) :
    Stopped (setPid c parse g13 link positioner kind gain) := by
  unfold setPid
  rw [h]
  exact ⟨⟨_, rfl⟩, fun ct positioner args hset => by simp at hset⟩

theorem setPid_unsupported (h : correctorTypeName c link positioner = .ok name)
    (hsupported : ¬ (CorrectorType.parse name).Supported) :
    Stopped (setPid c parse g13 link positioner kind gain) := by
  unfold setPid
  rw [h]
  dsimp only
  rw [if_pos (not_not.1 (mt CorrectorType.supported_iff.2 hsupported))]
  exact ⟨⟨_, rfl⟩, fun ct positioner args hset => by simp at hset⟩

theorem setPid_refused {e : XpsError} (h : correctorTypeName c link positioner = .ok name)
    (hsupported : (CorrectorType.parse name).Supported)
    (hget : callOk c (link (.get (CorrectorType.parse name) positioner)) = .error e) :
    Stopped (setPid c parse g13 link positioner kind gain) := by
  unfold setPid
  rw [h]
  dsimp only
  rw [if_neg (CorrectorType.supported_iff.1 hsupported), hget, Except.bind]
  exact ⟨⟨_, rfl⟩, fun ct positioner args hset => by simp at hset⟩

/-- Once the parameters are read, they are written with the gain among them. -/
theorem setPid_sends {ct : CorrectorType} {r : XpsReply} {info : XpsCorrectorInfo F}
    (h : correctorTypeName c link positioner = .ok name) (hct : CorrectorType.parse name = ct)
    (hsupported : ct.Supported) (hget : callOk c (link (.get ct positioner)) = .ok r)
    (hread : XpsCorrectorInfo.readInto c parse r ct .empty = .ok info) :
    (setPid c parse g13 link positioner kind gain).2 =
      [.typeGet positioner, .get ct positioner, .set ct positioner
        (flag info.closedLoop :: ct.params.map fun p =>
          g13 (if p = kind.param then gain else info.get p))] := by
  have hargs := XpsCorrectorInfo.writeFrom_spec g13 (info.setGain kind gain) hsupported
  simp only [XpsCorrectorInfo.setGain_get, XpsCorrectorInfo.setGain_closedLoop] at hargs
  unfold setPid
  rw [h]
  dsimp only
  rw [hct, if_neg (CorrectorType.supported_iff.1 hsupported), hget, Except.bind, hread]
  dsimp only
  rw [hargs]

end Sent

section Frame

variable [Zero F] {c : CNumbers} (hc : c.Digits) {g13 : F → List Char}
  (hg : RoundTrips parse g13) {link : Command → List Read} {positioner : String}
  (ha : Answers k c positioner link) (kind : PidGainKind) (gain : F)

omit [Zero F] in
include hg in
/-- The values that are held, with the gain among them. -/
theorem carries_of_held {ct : CorrectorType} {info : XpsCorrectorInfo F}
    (hclosed : info.closedLoop = k.closed) (hheld : ∀ p ∈ ct.params, info.get p = k.held p) :
    k.Carries g13 kind gain ct (flag info.closedLoop :: ct.params.map fun p =>
      g13 (if p = kind.param then gain else info.get p)) := by
  refine ⟨_, by rw [hclosed], ?_⟩
  rw [List.forall₂_map_right_iff, List.forall₂_same]
  intro p hp
  by_cases hkind : p = kind.param
  · rw [if_pos hkind, if_pos hkind]
  · rw [if_neg hkind, if_neg hkind, hheld p hp]
    exact hg _ _ (k.digits p) (k.shows p)

include hc ha

/-- Up to the parameters: it ends there, or their reply is read. -/
theorem stopped_or_begun :
    (Stopped (setPid c parse g13 link positioner kind gain) ∧ ∀ ct, ¬ Begun k link positioner ct) ∨
    ∃ ct r, Begun k link positioner ct ∧ correctorTypeName c link positioner = .ok ct.fullName ∧
      callOk c (link (.get ct positioner)) = .ok r ∧
      r.text = stripped (arrived (link (.get ct positioner))) := by
  rcases correctorTypeName_cases k hc ha with ⟨hcut, e, he⟩ | ⟨name, hname, hwhole, hnamed⟩
  · exact .inl ⟨setPid_unnamed he, fun ct hbegun => hcut hbegun.named⟩
  -- a type that is in use and arrives is the one that is read
  have hin : ∀ ct, Begun k link positioner ct → CorrectorType.parse name = ct := by
    intro ct hbegun
    rw [hwhole hbegun.named, hbegun.uses.2]
    exact CorrectorType.parse_fullName hbegun.uses.1
  by_cases hsupported : (CorrectorType.parse name).Supported
  · by_cases huses : k.Uses (CorrectorType.parse name)
    · have hfull := CorrectorType.fullName_parse hsupported
      have hall : typeReply k.name <+: arrived (link (.typeGet positioner)) :=
        hnamed (hfull.trans huses.2.symm) (hfull ▸ CorrectorType.fullName_ne_nil)
      obtain ⟨t, ht⟩ := paramsReply_eq k.closed k.shown (CorrectorType.parse name)
      have hframed := k.framed_params huses
      have hdel := ha.get _ huses
      rw [ht] at hframed hdel
      rcases callOk_framed hc hframed hdel with ⟨hnil, e, he⟩ | ⟨hne, r, hr, htext⟩
      · refine .inl ⟨setPid_refused hname hsupported he, fun ct hbegun => ?_⟩
        obtain rfl := hin ct hbegun
        exact hbegun.some hnil
      · exact .inr ⟨_, r, ⟨huses, hall, hne⟩, hfull ▸ hname, hr, htext⟩
    · obtain ⟨reply, hdel, hcode⟩ := ha.refused _ hsupported huses
      obtain ⟨e, he⟩ : ∃ e, callOk c (link (.get (CorrectorType.parse name) positioner)) =
          .error e := by
        unfold callOk
        cases hquery : query (link (.get (CorrectorType.parse name) positioner)) with
        | error e => exact ⟨e, rfl⟩
        | ok r => exact ⟨_, if_neg (hcode r ((query_isPrefix hquery).trans hdel))⟩
      refine .inl ⟨setPid_refused hname hsupported he, fun ct hbegun => huses ?_⟩
      obtain rfl := hin ct hbegun
      exact hbegun.uses
  · refine .inl ⟨setPid_unsupported hname hsupported, fun ct hbegun => hsupported ?_⟩
    obtain rfl := hin ct hbegun
    exact hbegun.uses.1

end Frame

/-- A gain is set as the only change, or nothing is set, if and only if the parameters' reply is not
cut off once it has begun.  A reply that is cut is accepted, and what has not come is written
as 0. -/
theorem setPid_frame_iff [Zero F] {c : CNumbers} (hc : c.Digits) {g13 : F → List Char}
    (hg : RoundTrips parse g13) {link : Command → List Read} {positioner : String}
    (ha : Answers k c positioner link) (kind : PidGainKind) (gain : F) :
    (OneGain k g13 positioner kind gain (setPid c parse g13 link positioner kind gain).2 ∧
      (¬ Supplied k link positioner → Stopped (setPid c parse g13 link positioner kind gain))) ↔
    ∀ ct, Begun k link positioner ct →
      paramsReply k.closed k.shown ct <+: arrived (link (.get ct positioner)) := by
  rcases stopped_or_begun k hc ha kind gain with ⟨hstopped, hnone⟩ | ⟨ct, r, hbegun, hname, hr, htext⟩
  · exact ⟨fun _ ct hbegun => absurd hbegun (hnone ct),
      fun _ => ⟨hstopped.oneGain k, fun _ => hstopped⟩⟩
  have hgot := (arrived_isPrefix (link (.get ct positioner))).trans (ha.get ct hbegun.uses)
  have hframed := k.framed_params hbegun.uses
  constructor
  · rintro ⟨-, hstops⟩ ct' hbegun'
    obtain rfl := hbegun.uses.unique hbegun'.uses
    by_contra hcut
    -- what is sent is a `Set` although the parameters are not supplied
    have hsupplied : ¬ Supplied k link positioner := by
      rintro ⟨ct', huses, -, hwhole⟩
      obtain rfl := hbegun.uses.unique huses
      exact hcut hwhole
    obtain ⟨info, hread, -⟩ := XpsCorrectorInfo.readInto_spec c parse r hbegun.uses.1
    obtain ⟨args, hargs⟩ : ∃ args, (setPid c parse g13 link positioner kind gain).2 =
        [.typeGet positioner, .get ct positioner, .set ct positioner args] :=
      ⟨_, setPid_sends hname (CorrectorType.parse_fullName hbegun.uses.1) hbegun.uses.1 hr hread⟩
    refine (hstops hsupplied).2 ct positioner args ?_
    rw [hargs]
    exact List.mem_cons_of_mem _ (List.mem_cons_of_mem _ List.mem_cons_self)
  · intro hall
    have hwhole := hall ct hbegun
    refine ⟨?_, fun hsupplied => absurd ⟨ct, hbegun.uses, hbegun.named, hwhole⟩ hsupplied⟩
    obtain ⟨more, hmore, hrest⟩ := stripped_whole hframed hgot hwhole
    obtain ⟨info, hread, hclosed, hheld⟩ :=
      readInto_whole k (htext.trans hmore) hrest hc hbegun.uses.1
    intro ct' name args hset
    rw [setPid_sends hname (CorrectorType.parse_fullName hbegun.uses.1) hbegun.uses.1 hr hread] at hset
    -- the third command is the only one that sets
    obtain ⟨rfl, rfl, rfl⟩ : ct' = ct ∧ name = positioner ∧
        args = flag info.closedLoop :: ct.params.map fun p =>
          g13 (if p = kind.param then gain else info.get p) := by
      simpa using hset
    exact ⟨hbegun.uses, rfl, carries_of_held k hg kind gain hclosed hheld⟩

end Controller

/-! ## A reply that is cut -/

/-- Numbers of digits with a sign. -/
def signedNumbers : CNumbers where
  strtol
    | '-' :: text =>
      let (v, n) := digitNumbers.strtol text
      (-v, if n = 0 then 0 else n + 1)
    | text => digitNumbers.strtol text
  atoi
    | '-' :: text => -digitNumbers.atoi text
    | text => digitNumbers.atoi text

theorem digits_signedNumbers : signedNumbers.Digits where
  strtol_nil := rfl
  strtol_zero rest hrest := by
    rcases hrest with rfl | ⟨t, rfl⟩ <;> rfl
  atoi_zero := rfl
  atoi_one := rfl

def digitsG13 (v : Int) : List Char :=
  if 0 ≤ v then Nat.toDigits 10 v.toNat else '-' :: Nat.toDigits 10 (-v).toNat

theorem roundTrips_digitsG13 : RoundTrips parseDigits digitsG13 := by
  intro x v _ hv
  unfold parseDigits at hv
  by_cases hdigits : x.text ≠ [] ∧ x.text.all Char.isDigit
  · rw [if_pos hdigits] at hv
    obtain rfl := Option.some.inj hv
    generalize Nat.ofDigitChars 10 x.text 0 = n
    have hall : (Nat.toDigits 10 n).all Char.isDigit = true :=
      List.all_eq_true.2 fun c hc => Nat.isDigit_of_mem_toDigits (by decide) (by decide) hc
    rw [digitsG13, if_pos (Int.natCast_nonneg n), Int.toNat_natCast, parseDigits,
      if_pos ⟨Nat.toDigits_ne_nil, hall⟩, Nat.ofDigitChars_toDigits (by decide) (by decide)]
  · rw [if_neg hdigits] at hv
    cases hv

/-- `0,1,20,5,10`. -/
def piCorrector : Corrector parseDigits where
  name := CorrectorType.piPosition.fullName
  closed := true
  held
    | .kp => 20
    | .ki => 5
    | .integrationTime => 10
    | _ => 0
  shown
    | .kp => .natural 2 [0]
    | .ki => .natural 5 []
    | .integrationTime => .natural 1 [0]
    | _ => .natural 0 []
  shows p := by cases p <;> decide +kernel
  digits p := by cases p <;> decide +kernel
  plain := by decide +kernel
  framed := framed_of_not_mem (by decide +kernel) (by decide +kernel)
  fits ct _ := by cases ct <;> decide +kernel

/-- `-22,EndOfAPI`. -/
def refusal : List Char := ['-', '2', '2'] ++ xpsTerminator

/-- A controller, by the reads of its corrector's parameters. -/
def piLink (reads : List Read) : Command → List Read
  | .typeGet _ =>
    [⟨typeReply CorrectorType.piPosition.fullName ++ xpsTerminator, true, by decide +kernel⟩]
  | .get .piPosition _ => reads
  | .get _ _ => [⟨refusal, true, by decide⟩]
  | .set _ _ _ => [⟨'0' :: xpsTerminator, true, by decide⟩]

theorem answers_piLink {reads : List Read}
    (h : Delivers (paramsReply true piCorrector.shown .piPosition ++ xpsTerminator) reads) :
    Answers piCorrector signedNumbers "GROUP1.POS" (piLink reads) where
  typeGet := delivers_one _
  get ct hu := by
    have huses : piCorrector.Uses .piPosition := ⟨⟨by decide, by decide⟩, rfl⟩
    obtain rfl := huses.unique hu
    exact h
  refused ct hsupported hu := by
    have hcode : ∀ text ∈ refusal.inits,
        (if (signedNumbers.strtol text).2 = 0 then -1 else asI32 (signedNumbers.strtol text).1) ≠ 0 := by
      decide +kernel
    refine ⟨refusal, ?_, fun r hr => hcode r.text ((List.mem_inits _ _).2 hr)⟩
    cases ct with
    | piPosition => exact absurd ⟨hsupported, rfl⟩ hu
    | _ => exact delivers_one _

/-- `0,1,20,5,`, and then nothing. -/
def cutReads : List Read := [⟨['0', ',', '1', ',', '2', '0', ',', '5', ','], false, by decide⟩]

/-- The proportional gain is set, and the integration time is 0 from then on. -/
theorem integrationTime_zeroed :
    signedNumbers.Digits ∧ RoundTrips parseDigits digitsG13 ∧
    Answers piCorrector signedNumbers "GROUP1.POS" (piLink cutReads) ∧
    (setPid signedNumbers parseDigits digitsG13 (piLink cutReads) "GROUP1.POS" .proportional 25) =
      (.ok (), [.typeGet "GROUP1.POS", .get .piPosition "GROUP1.POS",
        .set .piPosition "GROUP1.POS" [['1'], ['2', '5'], ['5'], ['0']]]) ∧
    ¬ OneGain piCorrector digitsG13 "GROUP1.POS" .proportional 25
      (setPid signedNumbers parseDigits digitsG13 (piLink cutReads) "GROUP1.POS" .proportional
        25).2 := by
  have hrun : setPid signedNumbers parseDigits digitsG13 (piLink cutReads) "GROUP1.POS"
      .proportional 25 = (.ok (), [.typeGet "GROUP1.POS", .get .piPosition "GROUP1.POS",
        .set .piPosition "GROUP1.POS" [['1'], ['2', '5'], ['5'], ['0']]]) := by
    decide +kernel
  refine ⟨digits_signedNumbers, roundTrips_digitsG13, answers_piLink (by decide +kernel), hrun, ?_⟩
  rw [hrun]
  intro hone
  obtain ⟨-, -, values, hargs, hcarries⟩ :=
    hone _ _ _ (List.mem_cons_of_mem _ (List.mem_cons_of_mem _ List.mem_cons_self))
  obtain rfl := (List.cons.inj hargs).2
  -- the third value is the integration time
  have htime := hcarries.get (i := 2) (by decide) (by decide)
  exact absurd htime (by decide +kernel)

/-- `0,1,20` and `,5,10,EndOfAPI`. -/
def wholeReads : List Read :=
  [⟨['0', ',', '1', ',', '2', '0'], true, by decide⟩,
    ⟨[',', '5', ',', '1', '0'] ++ xpsTerminator, true, by decide⟩]

theorem setPid_frame_whole :
    OneGain piCorrector digitsG13 "GROUP1.POS" .proportional 25
      (setPid signedNumbers parseDigits digitsG13 (piLink wholeReads) "GROUP1.POS" .proportional
        25).2 := by
  refine ((setPid_frame_iff piCorrector digits_signedNumbers roundTrips_digitsG13
    (answers_piLink (by decide +kernel)) .proportional 25).2 fun ct hbegun => ?_).1
  have huses : piCorrector.Uses .piPosition := ⟨⟨by decide, by decide⟩, rfl⟩
  obtain rfl := huses.unique hbegun.uses
  show paramsReply true piCorrector.shown .piPosition <+: arrived wholeReads
  decide +kernel

end Newport
