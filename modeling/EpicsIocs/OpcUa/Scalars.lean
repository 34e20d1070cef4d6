import EpicsIocs.Lib.Fallible
import EpicsIocs.Lib.Ints

/-! # Integers of records and of nodes

A record's value passes to a node of another integer type, and a node's value to the record,
through a `Number` that is wide enough for both; each conversion is checked against the bounds
of its own type (`value.rs`).

    a value passes exactly if the other type holds it, and comes back   (integer_matrix)
-/

namespace OpcUa

open Ints Fallible

/-! ## Types and values -/

/-- An integer type as a target of conversions, with the bounds its floats are checked against. -/
structure IntTarget where
  type : IntType
  lo : Int
  hiExclusive : Int

def i8 : IntTarget := ⟨int8, -128, 128⟩
def u8 : IntTarget := ⟨uint8, 0, 256⟩
def i16 : IntTarget := ⟨int16, -32768, 32768⟩
def u16 : IntTarget := ⟨uint16, 0, 65536⟩
def i32 : IntTarget := ⟨int32, -2147483648, 2147483648⟩
def u32 : IntTarget := ⟨uint32, 0, 4294967296⟩
def i64 : IntTarget := ⟨int64, -9223372036854775808, 9223372036854775808⟩
def u64 : IntTarget := ⟨uint64, 0, 18446744073709551616⟩

/-- The integer types of nodes. -/
inductive IntKind where
  | sByte
  | byte
  | int16
  | uint16
  | int32
  | uint32
  | int64
  | uint64
  deriving DecidableEq, Repr

def IntKind.target : IntKind → IntTarget
  | .sByte => i8
  | .byte => u8
  | .int16 => i16
  | .uint16 => u16
  | .int32 => i32
  | .uint32 => u32
  | .int64 => i64
  | .uint64 => u64

def IntKind.typeName : IntKind → String
  | .sByte => "SByte"
  | .byte => "Byte"
  | .int16 => "Int16"
  | .uint16 => "UInt16"
  | .int32 => "Int32"
  | .uint32 => "UInt32"
  | .int64 => "Int64"
  | .uint64 => "UInt64"

/-- The integer types of records. -/
inductive RecordType where
  | epicsInt32
  | epicsUInt32
  | epicsInt64
  deriving DecidableEq, Repr

def RecordType.target : RecordType → IntTarget
  | .epicsInt32 => i32
  | .epicsUInt32 => u32
  | .epicsInt64 => i64

def RecordType.name : RecordType → String
  | .epicsInt32 => "epicsInt32"
  | .epicsUInt32 => "epicsUInt32"
  | .epicsInt64 => "epicsInt64"

/-- The scalars of nodes, over the two float types. -/
inductive Scalar (F32 F64 : Type) where
  | empty
  | boolean (value : Bool)
  | int (kind : IntKind) (value : kind.target.type.Value)
  | float (value : F32)
  | double (value : F64)
  | string (text : String)
  | xmlElement (text : String)
  | localizedText (locale text : String)
  | qualifiedName (namespaceIndex : Nat) (name : String)
  /-- Any other type, by its name. -/
  | other (typeName : String)

/-- Every numeric value. -/
inductive Number (F64 : Type) where
  | int (value : Int)
  | uint (value : Int)
  | float (value : F64)

/-- The names of an enumeration's values. -/
abbrev EnumChoices := List (uint32.Value × String)

/-- What is done to floats, the text of a value, and integers in text. -/
structure Arithmetic (F32 F64 : Type) where
  ofF32 : F32 → F64
  ofInt : Int → F64
  /-- `none` beyond the range of `F32`. -/
  toF32 : F64 → Option F32
  /-- Truncated, if the float is finite and between the bounds. -/
  floatToInt : F64 → Int → Int → Option Int
  isZero : F64 → Bool
  /-- Cast to `u32`, if it is from 0 to the largest of them. -/
  toKey : F64 → Option uint32.Value
  print : Scalar F32 F64 → String
  stoll : String → Option Int

inductive ReadError where
  | outOfBounds (value target : String)
  | unsupportedKind (kind value target : String)
  deriving DecidableEq, Repr

inductive WriteError where
  | outOfRange (text : Option String)
  | unsupported (source target : String) (text : Option String)
  deriving DecidableEq, Repr

variable {F32 F64 : Type} (A : Arithmetic F32 F64)

/-! ## Conversions -/

def IntTarget.fromNumber (T : IntTarget) : Number F64 → Option T.type.Value
  | .int v => T.type.checked v
  | .uint v => T.type.checked v
  | .float v => (A.floatToInt v T.lo T.hiExclusive).bind T.type.checked

/-- Unsigned only where it must be. -/
def toNumber (F64 : Type) (v : Int) : Number F64 :=
  match int64.tryFrom v with
  | some v => .int v
  | none => .uint (v % 2 ^ 64)

def f32FromNumber : Number F64 → Option F32
  | .int v => A.toF32 (A.ofInt v)
  | .uint v => A.toF32 (A.ofInt v)
  | .float v => A.toF32 v

def f64FromNumber : Number F64 → F64
  | .int v => A.ofInt v
  | .uint v => A.ofInt v
  | .float v => v

def IntKind.number (kind : IntKind) (v : Int) : Number F64 :=
  if kind.target.type.signed then .int v else .uint v

def scalarNumber : Scalar F32 F64 → Option (Number F64)
  | .boolean b => some (.uint (if b then 1 else 0))
  | .int kind v => some (kind.number v)
  | .float v => some (.float (A.ofF32 v))
  | .double v => some (.float v)
  | _ => none

def scalarText : Scalar F32 F64 → Option String
  | .string s => some s
  | .xmlElement s => some s
  | .localizedText _ text => some text
  | .qualifiedName _ name => some name
  | _ => none

def typeName : Scalar F32 F64 → String
  | .empty => "Null"
  | .boolean _ => "Boolean"
  | .int kind _ => kind.typeName
  | .float _ => "Float"
  | .double _ => "Double"
  | .string _ => "String"
  | .xmlElement _ => "XmlElement"
  | .localizedText _ _ => "LocalizedText"
  | .qualifiedName _ _ => "QualifiedName"
  | .other name => name

def kindName : Scalar F32 F64 → String
  | .empty => "None"
  | v => typeName v

def describe : Scalar F32 F64 → String
  | .empty => "Null "
  | v => typeName v ++ " " ++ A.print v

def choiceKey : Number F64 → Option uint32.Value
  | .int v => uint32.checked v
  | .uint v => uint32.checked v
  | .float v => A.toKey v

def isChoice (choices : EnumChoices) (n : Number F64) : Bool :=
  (choiceKey A n).any fun key => choices.any (·.1 = key)

/-- A scalar as a record's value. -/
def readScalar (T : RecordType) (v : Scalar F32 F64) (choices : Option EnumChoices) :
    Except ReadError T.target.type.Value :=
  let outOfBounds : ReadError := .outOfBounds (describe A v) T.name
  match scalarNumber A v with
  | some n =>
    (okOr (T.target.fromNumber A n) outOfBounds).bind fun value =>
      if choices.any fun choices => !isChoice A choices n then .error outOfBounds else .ok value
  | none =>
    let unsupported : ReadError := .unsupportedKind (kindName v) (describe A v) T.name
    match v, scalarText v with
    | .qualifiedName _ _, _ => .error unsupported
    | _, some text => okOr ((A.stoll text).bind T.target.type.checked) outOfBounds
    | _, none => .error unsupported

/-- A record's value as a scalar like the one last received. -/
def writeScalar (T : RecordType) (value : T.target.type.Value) (incoming : Scalar F32 F64)
    (choices : Option EnumChoices) : Except WriteError (Scalar F32 F64) :=
  let n := toNumber F64 value
  let outOfRange : WriteError := .outOfRange none
  match choices with
  | some choices =>
    if isChoice A choices n then
      (okOr (IntKind.int32.target.fromNumber A n) outOfRange).map (.int .int32)
    else .error outOfRange
  | none =>
    match incoming with
    | .boolean _ => .ok (.boolean (match n with
      | .int v => v != 0
      | .uint v => v != 0
      | .float v => !A.isZero v))
    | .int kind _ => (okOr (kind.target.fromNumber A n) outOfRange).map (.int kind)
    | .float _ => (okOr (f32FromNumber A n) outOfRange).map .float
    | .double _ => .ok (.double (f64FromNumber A n))
    | .string _ => .ok (.string (String.ofList (decimal value)))
    | .localizedText locale _ => .ok (.localizedText locale (String.ofList (decimal value)))
    | other => .error (.unsupported T.name (typeName other) none)

/-! ## What passes -/

variable {A}

theorem toNumber_of_holds {v : Int} (h : int64.Holds v) : toNumber F64 v = .int v := by
  rw [toNumber, IntType.tryFrom_of_holds h]

/-- A record's value is a signed number of 64 bits. -/
theorem RecordType.holds_int64 (T : RecordType) (value : T.target.type.Value) :
    int64.Holds value := by
  have hbounds : int64.lo ≤ T.target.type.lo ∧ T.target.type.stop ≤ int64.stop := by
    cases T <;> decide
  obtain ⟨hlo, hstop⟩ := value.property
  exact ⟨hbounds.1.trans hlo, Int.lt_of_lt_of_le hstop hbounds.2⟩

theorem RecordType.toNumber_eq (T : RecordType) (value : T.target.type.Value) :
    toNumber F64 value = .int value := toNumber_of_holds (T.holds_int64 value)

theorem IntTarget.fromNumber_int (T : IntTarget) (v : Int) :
    T.fromNumber A (.int v) = T.type.checked v := rfl

theorem IntTarget.fromNumber_number (T : IntTarget) (kind : IntKind) (v : Int) :
    T.fromNumber A (kind.number v) = T.type.checked v := by
  rw [IntKind.number]
  split <;> rfl

/-- The bounds for floats are those of the type. -/
theorem IntKind.target_bounds (kind : IntKind) :
    kind.target.lo = kind.target.type.lo ∧ kind.target.hiExclusive = kind.target.type.stop := by
  cases kind <;> decide

theorem choiceKey_number (kind : IntKind) (v : Int) :
    choiceKey A (kind.number v) = uint32.checked v := by
  rw [IntKind.number]
  split <;> rfl

/-- The choice with a number, whichever way the number came. -/
theorem isChoice_iff {choices : EnumChoices} {n : Number F64} {v : Int}
    (h : choiceKey A n = uint32.checked v) :
    isChoice A choices n = true ↔ ∃ choice ∈ choices, choice.1.val = v := by
  rw [isChoice, h]
  cases hchecked : uint32.checked v with
  | none =>
    constructor
    · intro hfalse
      cases hfalse
    · rintro ⟨choice, -, rfl⟩
      exact absurd choice.1.property (IntType.checked_eq_none.1 hchecked)
  | some key =>
    have hkey := IntType.checked_eq_some.1 hchecked
    rw [Option.any_some, List.any_eq_true]
    refine exists_congr fun choice => and_congr_right fun _ => ?_
    rw [decide_eq_true_eq, Subtype.ext_iff, hkey]

/-- Without choices the node's type decides. -/
theorem writeScalar_int (T : RecordType) (value : T.target.type.Value) (kind : IntKind)
    (incoming : kind.target.type.Value) (out : Scalar F32 F64) :
    writeScalar A T value (.int kind incoming) none = .ok out ↔
      ∃ sent : kind.target.type.Value, sent.val = value.val ∧ out = .int kind sent := by
  show (okOr (kind.target.fromNumber A (toNumber F64 value)) _).map (.int kind) = .ok out ↔ _
  rw [T.toNumber_eq, IntTarget.fromNumber_int, map_eq_ok]
  refine exists_congr fun sent => ?_
  rw [okOr_eq_ok, IntType.checked_eq_some, @eq_comm _ out]

/-- A choice goes out as an Int32, whatever the node's type. -/
theorem writeScalar_choice (T : RecordType) (value : T.target.type.Value)
    (incoming : Scalar F32 F64) (choices : EnumChoices) (out : Scalar F32 F64) :
    writeScalar A T value incoming (some choices) = .ok out ↔
      (∃ choice ∈ choices, choice.1.val = value.val) ∧
        ∃ sent : IntKind.int32.target.type.Value, sent.val = value.val ∧
          out = .int .int32 sent := by
  show (if isChoice A choices (toNumber F64 value) then
    (okOr (IntKind.int32.target.fromNumber A (toNumber F64 value)) _).map (.int .int32)
      else .error _) = .ok out ↔ _
  have hchoices : isChoice A choices (.int value : Number F64) = true ↔
      ∃ choice ∈ choices, choice.1.val = value.val := isChoice_iff rfl
  rw [T.toNumber_eq, ← hchoices]
  by_cases hchoice : isChoice A choices (.int value : Number F64) = true
  · rw [if_pos hchoice, IntTarget.fromNumber_int, map_eq_ok, iff_true_intro hchoice, true_and]
    refine exists_congr fun sent => ?_
    rw [okOr_eq_ok, IntType.checked_eq_some, @eq_comm _ out]
  · rw [if_neg hchoice]
    exact ⟨fun h => (nomatch h), fun h => absurd h.1 hchoice⟩

/-- A record takes the node's integer if its type holds it, and if it is a choice where there
are choices. -/
theorem readScalar_int (T : RecordType) (kind : IntKind) (v : kind.target.type.Value)
    (choices : Option EnumChoices) (value : T.target.type.Value) :
    readScalar A T (.int kind v) choices = .ok value ↔
      value.val = v.val ∧
        ∀ cs, choices = some cs → ∃ choice ∈ cs, choice.1.val = v.val := by
  show ((okOr (T.target.fromNumber A (kind.number v.val)) _).bind fun value =>
    if choices.any fun choices => !isChoice A choices (kind.number v.val) then .error _
      else .ok value) = .ok value ↔ _
  rw [IntTarget.fromNumber_number]
  have hchoices : (choices.any fun cs => !isChoice A cs (kind.number v.val)) = false ↔
      ∀ cs, choices = some cs → ∃ choice ∈ cs, choice.1.val = v.val := by
    cases choices with
    | none => exact ⟨fun _ _ h => (nomatch h), fun _ => rfl⟩
    | some cs =>
      rw [Option.any_some, Bool.not_eq_false', isChoice_iff (choiceKey_number kind v.val)]
      exact ⟨fun h _ heq => Option.some.inj heq ▸ h, fun h => h cs rfl⟩
  rw [← hchoices]
  cases hchecked : T.target.type.checked v.val with
  | none =>
    constructor
    · intro h
      cases h
    · rintro ⟨heq, -⟩
      exact absurd (heq ▸ value.property) (IntType.checked_eq_none.1 hchecked)
  | some got =>
    have hgot := IntType.checked_eq_some.1 hchecked
    show (if _ then _ else Except.ok got) = Except.ok value ↔ _
    by_cases hany : (choices.any fun cs => !isChoice A cs (kind.number v.val)) = true
    · rw [if_pos hany, hany]
      exact ⟨fun h => (nomatch h), fun h => (nomatch h.2)⟩
    · rw [if_neg hany, Bool.eq_false_iff.2 hany, Except.ok.injEq, Subtype.ext_iff, hgot]
      exact ⟨fun h => ⟨h.symm, rfl⟩, fun h => h.1.symm⟩

/-- **The matrix of integers.**  Without choices a value is sent exactly if the node's type holds
it, and it is read back; with choices exactly if it is one and fits an Int32.  What a node holds
is read exactly if the record's type holds it, and never changed. -/
theorem integer_matrix (A : Arithmetic F32 F64) (T : RecordType) (kind : IntKind)
    (value : T.target.type.Value) (incoming : kind.target.type.Value) :
    (∀ out, writeScalar A T value (.int kind incoming) none = .ok out ↔
        ∃ sent : kind.target.type.Value, sent.val = value.val ∧ out = .int kind sent) ∧
      (∀ out, writeScalar A T value (.int kind incoming) none = .ok out →
        readScalar A T out none = .ok value) ∧
      (∀ choices out, writeScalar A T value (.int kind incoming) (some choices) = .ok out ↔
        (∃ choice ∈ choices, choice.1.val = value.val) ∧
          ∃ sent : IntKind.int32.target.type.Value, sent.val = value.val ∧
            out = .int .int32 sent) ∧
      (∀ got, readScalar A T (.int kind incoming) none = .ok got ↔ got.val = incoming.val) ∧
      ∀ choices got, readScalar A T (.int kind incoming) (some choices) = .ok got ↔
        got.val = incoming.val ∧ ∃ choice ∈ choices, choice.1.val = incoming.val := by
  refine ⟨writeScalar_int T value kind incoming, fun out hout => ?_,
    writeScalar_choice T value (.int kind incoming), fun got => ?_, fun choices got => ?_⟩
  · obtain ⟨sent, hsent, rfl⟩ := (writeScalar_int T value kind incoming out).1 hout
    exact (readScalar_int T kind sent none value).2 ⟨hsent.symm, fun _ h => by cases h⟩
  · rw [readScalar_int]
    exact ⟨fun h => h.1, fun h => ⟨h, fun _ h => by cases h⟩⟩
  · rw [readScalar_int]
    refine and_congr_right fun _ => ⟨fun h => h choices rfl, fun h cs heq => ?_⟩
    rw [← Option.some.inj heq]
    exact h

end OpcUa
