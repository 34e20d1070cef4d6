import EpicsIocs.Lib.Bytes
import Mathlib.Data.List.Nodup

/-! # RTDE packages and data packages

A package is a two-byte big-endian size, a command and a payload (`rtde.rs`).  The
payload of a data package is a recipe id and the values of the registered variables
one behind the other (`state.rs`): `OutputRecipe` says which they are.

A `double` is its 64 bits.  `decode_encode`: what a recipe's values encode to decodes
to the values; `decode_short`: anything shorter does not decode. -/

namespace UrRobot

open Bytes

/-! ## Variables -/

/-- Wire type of an output variable. -/
inductive VarType where
  | double
  | int32
  | uint32
  | uint64
  | vector3d
  | vector6d
  | vector6Int32
  deriving DecidableEq, Repr

def VarType.size : VarType → Nat
  | int32 | uint32 => 4
  | double | uint64 => 8
  | vector3d => 24
  | vector6d => 48
  | vector6Int32 => 24

inductive Value where
  | double (bits : UInt64)
  | int32 (v : Int32)
  | uint32 (v : UInt32)
  | uint64 (v : UInt64)
  | doubles (bits : List UInt64)
  | int32s (vs : List Int32)
  deriving DecidableEq, Repr

/-- `str::parse::<u32>`: an optional `+` and at least one digit. -/
def parseU32 (chars : List Char) : Option Nat :=
  let digits := if chars.head? = some '+' then chars.tail else chars
  if digits = [] ∨ ¬ digits.all Char.isDigit then none
  else
    let n := digits.foldl (fun n c => n * 10 + (c.toNat - '0'.toNat)) 0
    if n < 2 ^ 32 then some n else none

/-- The rest of `name` behind `start`. -/
def stripStart (name start : String) : Option (List Char) :=
  if start.toList.isPrefixOf name.toList then some (name.toList.drop start.toList.length) else none

def varTypes : List (String × VarType) :=
  [("timestamp", .double), ("actual_execution_time", .double), ("speed_scaling", .double),
    ("target_speed_fraction", .double), ("actual_momentum", .double),
    ("actual_main_voltage", .double), ("actual_robot_voltage", .double),
    ("actual_robot_current", .double), ("standard_analog_input0", .double),
    ("standard_analog_input1", .double), ("standard_analog_output0", .double),
    ("standard_analog_output1", .double), ("payload", .double),
    ("robot_mode", .int32), ("safety_mode", .int32),
    ("runtime_state", .uint32), ("robot_status_bits", .uint32), ("safety_status_bits", .uint32),
    ("output_bit_registers0_to_31", .uint32), ("output_bit_registers32_to_63", .uint32),
    ("actual_digital_input_bits", .uint64), ("actual_digital_output_bits", .uint64),
    ("actual_tool_accelerometer", .vector3d), ("payload_cog", .vector3d),
    ("elbow_position", .vector3d), ("elbow_velocity", .vector3d),
    ("target_q", .vector6d), ("target_qd", .vector6d), ("target_qdd", .vector6d),
    ("target_current", .vector6d), ("target_moment", .vector6d), ("actual_q", .vector6d),
    ("actual_qd", .vector6d), ("actual_qdd", .vector6d), ("actual_current", .vector6d),
    ("actual_moment", .vector6d), ("joint_control_output", .vector6d),
    ("actual_TCP_pose", .vector6d), ("actual_TCP_speed", .vector6d),
    ("actual_TCP_force", .vector6d), ("target_TCP_pose", .vector6d),
    ("target_TCP_speed", .vector6d), ("joint_temperatures", .vector6d),
    ("actual_joint_voltage", .vector6d), ("ft_raw_wrench", .vector6d),
    ("payload_inertia", .vector6d), ("actual_current_as_torque", .vector6d),
    ("joint_mode", .vector6Int32)]

def varType (name : String) : Option VarType :=
  match stripStart name "output_int_register_" with
  | some n => ((parseU32 n).filter (· < 48)).map fun _ => .int32
  | none =>
    match stripStart name "output_double_register_" with
    | some n => ((parseU32 n).filter (· < 48)).map fun _ => .double
    | none => varTypes.lookup name

/-! ## Recipes -/

structure OutputRecipe where
  names : List String
  types : List VarType
  deriving DecidableEq, Repr

inductive DecodeError where
  | truncated (name : String) (need left : Nat)
  | empty
  deriving DecidableEq, Repr

/-- A map from the names of the variables to their values. -/
abbrev Sample := String → Option Value

def Sample.insert (sample : Sample) (name : String) (value : Value) : Sample := fun n =>
  if n = name then some value else sample n

/-- `k` big-endian bytes of `b` at `i`. -/
def wordAt (k : Nat) (b : List UInt8) (i : Nat) : Nat := beNat ((b.drop i).take k)

def f64At (b : List UInt8) (i : Nat) : UInt64 := UInt64.ofNat (wordAt 8 b i)
def i32At (b : List UInt8) (i : Nat) : Int32 := (UInt32.ofNat (wordAt 4 b i)).toInt32
def u32At (b : List UInt8) (i : Nat) : UInt32 := UInt32.ofNat (wordAt 4 b i)
def u64At (b : List UInt8) (i : Nat) : UInt64 := UInt64.ofNat (wordAt 8 b i)

/-- The value in the bytes of a variable. -/
def VarType.decode (raw : List UInt8) : VarType → Value
  | double => .double (f64At raw 0)
  | int32 => .int32 (i32At raw 0)
  | uint32 => .uint32 (u32At raw 0)
  | uint64 => .uint64 (u64At raw 0)
  | vector3d => .doubles ((List.range 3).map fun i => f64At raw (i * 8))
  | vector6d => .doubles ((List.range 6).map fun i => f64At raw (i * 8))
  | vector6Int32 => .int32s ((List.range 6).map fun i => i32At raw (i * 4))

namespace OutputRecipe

/-- Names the type table does not know are dropped. -/
def new (names : List String) : OutputRecipe where
  names := names.filter fun name => (varType name).isSome
  types := names.filterMap varType

def encodedLen (r : OutputRecipe) : Nat := (r.types.map VarType.size).sum

/-- The loop of `decode` over the variables, from offset `off` of the body. -/
def decodeFrom (body : List UInt8) :
    List (String × VarType) → Nat → Sample → Except DecodeError Sample
  | [], _, out => .ok out
  | (name, type) :: fields, off, out =>
    let rest := body.drop (min off body.length)
    if rest.length < type.size then .error (.truncated name type.size rest.length)
    else
      decodeFrom body fields (off + type.size)
        (out.insert name (type.decode (rest.take type.size)))

def decode (r : OutputRecipe) (payload : List UInt8) : Except DecodeError Sample :=
  match payload with
  | [] => .error .empty
  | _ :: body => decodeFrom body (r.names.zip r.types) 0 fun _ => none

end OutputRecipe

/-! ## Packages -/

def headerSize : Nat := 3

/-- The command of a data package, `U`. -/
def dataPackage : UInt8 := 85

structure Header where
  size : Nat
  cmd : UInt8
  deriving DecidableEq, Repr

/-- `none` with fewer than three bytes, or if the size does not cover the header. -/
def Header.decode : List UInt8 → Option Header
  | a :: b :: cmd :: _ =>
    let size := a.toNat * 256 + b.toNat
    if size < headerSize then none else some { size, cmd }
  | _ => none

def encodeFrame (command : UInt8) (payload : List UInt8) : List UInt8 :=
  beBytes 2 (headerSize + payload.length) ++ command :: payload

/-! ## Values on the wire -/

def Value.encode : Value → List UInt8
  | double bits => beBytes 8 bits.toNat
  | int32 v => beBytes 4 v.toUInt32.toNat
  | uint32 v => beBytes 4 v.toNat
  | uint64 v => beBytes 8 v.toNat
  | doubles bits => bits.flatMap fun w => beBytes 8 w.toNat
  | int32s vs => vs.flatMap fun v => beBytes 4 v.toUInt32.toNat

/-- A value of the type. -/
def VarType.Has : VarType → Value → Prop
  | double, .double _ => True
  | int32, .int32 _ => True
  | uint32, .uint32 _ => True
  | uint64, .uint64 _ => True
  | vector3d, .doubles bits => bits.length = 3
  | vector6d, .doubles bits => bits.length = 6
  | vector6Int32, .int32s vs => vs.length = 6
  | _, _ => False

theorem wordAt_zero (k : Nat) {n : Nat} (hn : n < 256 ^ k) : wordAt k (beBytes k n) 0 = n := by
  rw [wordAt, List.drop_zero, List.take_of_length_le (by simp), beNat_beBytes_of_lt hn]

/-- The `i`-th of some words of `k` bytes. -/
theorem wordAt_flatMap {α : Type} {k : Nat} {word : α → Nat} (hword : ∀ a, word a < 256 ^ k)
    {items : List α} {i : Nat} (hi : i < items.length) :
    wordAt k (items.flatMap fun a => beBytes k (word a)) (i * k) = word items[i] := by
  induction items generalizing i with
  | nil => simp at hi
  | cons a items ih =>
    cases i with
    | zero =>
      have htake : ((beBytes k (word a) ++ items.flatMap fun a => beBytes k (word a))).take k =
          beBytes k (word a) := List.take_left' (length_beBytes k (word a))
      rw [wordAt, List.flatMap_cons, Nat.zero_mul, List.drop_zero, htake,
        beNat_beBytes_of_lt (hword a)]
      rfl
    | succ i =>
      have hdrop : ((beBytes k (word a) ++ items.flatMap fun a => beBytes k (word a))).drop
          ((i + 1) * k) = (items.flatMap fun a => beBytes k (word a)).drop (i * k) := by
        rw [Nat.succ_mul, Nat.add_comm, ← List.drop_drop,
          List.drop_left' (length_beBytes k (word a))]
      rw [wordAt, List.flatMap_cons, hdrop]
      exact ih (by simpa using hi)

theorem length_flatMap_beBytes {α : Type} (k : Nat) (word : α → Nat) (items : List α) :
    (items.flatMap fun a => beBytes k (word a)).length = items.length * k := by
  induction items with
  | nil => simp
  | cons a items ih => rw [List.flatMap_cons, List.length_append, ih, length_beBytes,
      List.length_cons, Nat.succ_mul, Nat.add_comm]

theorem f64At_doubles {bits : List UInt64} {n : Nat} (hn : bits.length = n) :
    (List.range n).map (fun i => f64At (bits.flatMap fun w => beBytes 8 w.toNat) (i * 8)) =
      bits := by
  refine List.ext_getElem (by simp [hn]) fun i hi hi' => ?_
  have hword : ∀ w : UInt64, w.toNat < 256 ^ 8 := fun w => w.toNat_lt
  simp [f64At, wordAt_flatMap hword hi']

theorem i32At_int32s {vs : List Int32} {n : Nat} (hn : vs.length = n) :
    (List.range n).map (fun i => i32At (vs.flatMap fun v => beBytes 4 v.toUInt32.toNat) (i * 4)) =
      vs := by
  refine List.ext_getElem (by simp [hn]) fun i hi hi' => ?_
  have hword : ∀ v : Int32, v.toUInt32.toNat < 256 ^ 4 := fun v => v.toUInt32.toNat_lt
  rw [List.getElem_map, List.getElem_range, i32At, wordAt_flatMap hword hi', UInt32.ofNat_toNat]
  rfl

/-- A value's bytes are as long as its type says and give it back. -/
theorem VarType.decode_encode {type : VarType} {value : Value} (h : type.Has value) :
    value.encode.length = type.size ∧ type.decode value.encode = value := by
  cases type <;> cases value <;> simp only [VarType.Has] at h
  case double.double bits =>
    exact ⟨length_beBytes 8 _, by simp [decode, f64At, Value.encode, wordAt_zero 8 bits.toNat_lt]⟩
  case int32.int32 v =>
    exact ⟨length_beBytes 4 _,
      by simp [decode, i32At, Value.encode, wordAt_zero 4 v.toUInt32.toNat_lt]⟩
  case uint32.uint32 v =>
    exact ⟨length_beBytes 4 _, by simp [decode, u32At, Value.encode, wordAt_zero 4 v.toNat_lt]⟩
  case uint64.uint64 v =>
    exact ⟨length_beBytes 8 _, by simp [decode, u64At, Value.encode, wordAt_zero 8 v.toNat_lt]⟩
  case vector3d.doubles bits =>
    refine ⟨?_, congrArg Value.doubles (f64At_doubles h)⟩
    rw [Value.encode, length_flatMap_beBytes, h]
    rfl
  case vector6d.doubles bits =>
    refine ⟨?_, congrArg Value.doubles (f64At_doubles h)⟩
    rw [Value.encode, length_flatMap_beBytes, h]
    rfl
  case vector6Int32.int32s vs =>
    refine ⟨?_, congrArg Value.int32s (i32At_int32s h)⟩
    rw [Value.encode, length_flatMap_beBytes, h]
    rfl

/-! ## Data packages -/

/-- The map with these values inserted one after the other. -/
def Sample.of (fields : List (String × Value)) : Sample :=
  fields.foldl (fun sample field => sample.insert field.1 field.2) fun _ => none

theorem Sample.foldl_insert (fields : List (String × Value)) (sample : Sample) (name : String) :
    fields.foldl (fun sample field => sample.insert field.1 field.2) sample name =
      (fields.reverse.lookup name).or (sample name) := by
  induction fields generalizing sample with
  | nil => simp
  | cons field fields ih =>
    obtain ⟨first, v⟩ := field
    rw [List.foldl_cons, ih, List.reverse_cons, List.lookup_append]
    cases fields.reverse.lookup name with
    | some value => rfl
    | none =>
      by_cases hname : name = first
      · simp [Sample.insert, hname]
      · have hne : (name == first) = false := by simpa using hname
        simp [Sample.insert, hname, List.lookup_cons, hne]

/-- Under each name is the last value given for it. -/
theorem Sample.of_apply (fields : List (String × Value)) (name : String) :
    Sample.of fields name = fields.reverse.lookup name := by
  simp [Sample.of, Sample.foldl_insert]

/-- With distinct names every value is there under its name, and nothing else. -/
theorem Sample.of_eq_some_iff {fields : List (String × Value)} (hnodup : (fields.map (·.1)).Nodup)
    {name : String} {value : Value} :
    Sample.of fields name = some value ↔ (name, value) ∈ fields := by
  rw [Sample.of_apply]
  have hnodup : (fields.reverse.map (·.1)).Nodup := by
    rw [List.map_reverse]
    exact List.nodup_reverse.2 hnodup
  rw [← List.mem_reverse]
  generalize fields.reverse = fields at hnodup
  induction fields with
  | nil => simp
  | cons field fields ih =>
    obtain ⟨first, v⟩ := field
    rw [List.map_cons, List.nodup_cons] at hnodup
    by_cases hname : name = first
    · subst hname
      have hfresh : (name, value) ∉ fields := fun h =>
        hnodup.1 (List.mem_map.2 ⟨(name, value), h, rfl⟩)
      simp [hfresh, eq_comm]
    · have hne : (name == first) = false := by simpa using hname
      have hcons : (name, value) ∈ (first, v) :: fields ↔ (name, value) ∈ fields := by
        simp [hname]
      rw [List.lookup_cons, hne, hcons]
      exact ih hnodup.2

namespace OutputRecipe

/-- The values of known variables, in order. -/
def Values (names : List String) (values : List Value) : Prop :=
  List.Forall₂ (fun name value => ∃ type, varType name = some type ∧ type.Has value) names values

theorem decodeFrom_encode {fields : List (String × VarType)} {values : List Value}
    (h : List.Forall₂ (fun field value => field.2.Has value) fields values) (before : List UInt8)
    (out : Sample) :
    decodeFrom (before ++ values.flatMap Value.encode) fields before.length out =
      .ok (((fields.map (·.1)).zip values).foldl
        (fun sample field => sample.insert field.1 field.2) out) := by
  induction h generalizing before out with
  | nil => rfl
  | @cons field value fields values hvalue hrest ih =>
    obtain ⟨name, type⟩ := field
    obtain ⟨hlen, hdecode⟩ := VarType.decode_encode hvalue
    have hbytes : before ++ (value :: values).flatMap Value.encode =
        (before ++ value.encode) ++ values.flatMap Value.encode := by
      rw [List.flatMap_cons, List.append_assoc]
    have hrest : (before ++ (value :: values).flatMap Value.encode).drop
        (min before.length (before ++ (value :: values).flatMap Value.encode).length) =
        value.encode ++ values.flatMap Value.encode := by
      rw [Nat.min_eq_left (by simp), List.drop_left, List.flatMap_cons]
    have hwide : ¬ (value.encode ++ values.flatMap Value.encode).length < type.size := by
      show ¬ _ < (name, type).2.size
      rw [List.length_append, hlen]
      exact Nat.not_lt.2 (Nat.le_add_right _ _)
    have htake : (value.encode ++ values.flatMap Value.encode).take type.size = value.encode := by
      rw [← hlen, List.take_left]
    have hoff : before.length + type.size = (before ++ value.encode).length := by
      rw [List.length_append, hlen]
    simp only [decodeFrom, hrest, if_neg hwide, htake, hdecode]
    rw [hoff, hbytes, ih]
    rfl

theorem decodeFrom_short {body : List UInt8} {fields : List (String × VarType)} {off : Nat}
    (hoff : off ≤ body.length)
    (h : body.length < off + (fields.map fun field => field.2.size).sum) (out : Sample) :
    ∃ e, decodeFrom body fields off out = .error e := by
  induction fields generalizing off out with
  | nil =>
    rw [List.map_nil, List.sum_nil] at h
    omega
  | cons field fields ih =>
    obtain ⟨name, type⟩ := field
    have hrest : (body.drop (min off body.length)).length = body.length - off := by
      rw [List.length_drop, Nat.min_eq_left hoff]
    simp only [decodeFrom]
    by_cases hwide : (body.drop (min off body.length)).length < type.size
    · exact ⟨_, by rw [if_pos hwide]⟩
    · rw [if_neg hwide]
      have hsum : body.length < off + (type.size + (fields.map fun field => field.2.size).sum) := h
      exact ih (by omega) (by omega) _

variable {names : List String} {values : List Value}

/-- A recipe of known variables keeps them all. -/
theorem new_fields (h : Values names values) :
    (((new names).names.zip (new names).types).map (·.1) = names) ∧
      List.Forall₂ (fun field value => field.2.Has value)
        ((new names).names.zip (new names).types) values := by
  induction h with
  | nil => exact ⟨rfl, List.Forall₂.nil⟩
  | @cons name value names values hvalue _ ih =>
    obtain ⟨type, htype, hhas⟩ := hvalue
    have hzip : (new (name :: names)).names.zip (new (name :: names)).types =
        (name, type) :: (new names).names.zip (new names).types := by
      simp [new, htype]
    rw [hzip, List.map_cons, ih.1]
    exact ⟨rfl, List.Forall₂.cons hhas ih.2⟩

/-- **Round trip.**  Behind the recipe id the values decode to the map of the values
under their names. -/
theorem decode_encode (h : Values names values) (id : UInt8) :
    (new names).decode (id :: values.flatMap Value.encode) =
      .ok (Sample.of (names.zip values)) := by
  obtain ⟨hnames, hfields⟩ := new_fields h
  have hdecode := decodeFrom_encode hfields [] fun _ => none
  rw [hnames, List.nil_append] at hdecode
  exact hdecode

/-- A shorter payload is an error. -/
theorem decode_short {r : OutputRecipe} (hr : r.names.length = r.types.length)
    {payload : List UInt8} (h : payload.length < 1 + r.encodedLen) :
    ∃ e, r.decode payload = .error e := by
  cases payload with
  | nil => exact ⟨_, rfl⟩
  | cons id body =>
    refine decodeFrom_short (Nat.zero_le _) ?_ _
    have hsizes : (r.names.zip r.types).map (fun field => field.2.size) =
        r.types.map VarType.size := by
      have hsnd : (r.names.zip r.types).map (·.2) = r.types :=
        List.map_snd_zip (Nat.le_of_eq hr.symm)
      rw [← congrArg (List.map VarType.size) hsnd, List.map_map]
      rfl
    rw [hsizes]
    rw [List.length_cons, encodedLen] at h
    omega

theorem length_new (names : List String) : (new names).names.length = (new names).types.length := by
  induction names with
  | nil => rfl
  | cons name names ih =>
    cases htype : varType name with
    | none => simpa [new, htype] using ih
    | some type => simpa [new, htype] using ih

end OutputRecipe

end UrRobot
