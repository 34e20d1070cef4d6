import EpicsIocs.UrRobot.Control
import EpicsIocs.UrRobot.Rtde
import EpicsIocs.UrRobot.ScriptGate

/-! # The layout of the commands

A command goes out as a data package for an input recipe: the values of the recipe's registers, one
behind the other (`control.rs`, `rtde.rs`).  The control script reads them back by register number
(`rtde_control.script`).  Recipe ids are the order of registration, the values are put together by
each command's method, and the numbers stand in the script.

`layout`: they agree.  Each command's package is as long as the registers of its recipe, type by
type, and the script's branch finds each argument where it reads it. -/

namespace UrRobot

open Bytes ScriptGate

/-! ## The recipes -/

/-- An input variable of the recipes. -/
inductive InputVar where
  | intRegister (n : Nat)
  | doubleRegister (n : Nat)
  | externalForceTorque
  deriving DecidableEq, Repr

namespace InputVar

def name : InputVar → String
  | intRegister n => s!"input_int_register_{n}"
  | doubleRegister n => s!"input_double_register_{n}"
  | externalForceTorque => "external_force_torque"

def type : InputVar → VarType
  | intRegister _ => .int32
  | doubleRegister _ => .double
  | externalForceTorque => .vector6d

end InputVar

def inIntReg (offset reg : Nat) : InputVar := .intRegister (offset + reg)
def inDoubleReg (offset reg : Nat) : InputVar := .doubleRegister (offset + reg)

/-- The first `n` integer registers. -/
def intRegs (offset n : Nat) : List InputVar := (List.range n).map (inIntReg offset)

/-- The double registers from 0 to `hi`, both included. -/
def doubleRegs (offset hi : Nat) : List InputVar := (List.range (hi + 1)).map (inDoubleReg offset)

/-- The input recipes in the order of their registration, the first with the id 1. -/
def setupRecipes (offset : Nat) : List (List InputVar) :=
  [ -- 1: async setpoint
    [inIntReg offset 0] ++ doubleRegs offset 7 ++ [inIntReg offset 1],
    -- 2: servoJ
    [inIntReg offset 0] ++ doubleRegs offset 10,
    -- 3: force mode
    intRegs offset 8 ++ doubleRegs offset 17,
    -- 4: no command
    [inIntReg offset 0],
    -- 5: servoC
    [inIntReg offset 0] ++ doubleRegs offset 8,
    -- 6: wrench
    [inIntReg offset 0] ++ doubleRegs offset 5,
    -- 7: set payload
    [inIntReg offset 0] ++ doubleRegs offset 3,
    -- 8: force mode parameters
    [inIntReg offset 0, inDoubleReg offset 0],
    -- 9: actual joint positions history
    [inIntReg offset 0, inIntReg offset 1],
    -- 10: inverse kinematics
    [inIntReg offset 0] ++ doubleRegs offset 13,
    -- 11: watchdog
    [inIntReg offset 0],
    -- 12: pose trans
    [inIntReg offset 0] ++ doubleRegs offset 11,
    -- 13: setp
    [inIntReg offset 0] ++ doubleRegs offset 7,
    -- 14: jog
    [inIntReg offset 0] ++ doubleRegs offset 13,
    -- 15: async path
    [inIntReg offset 0, inIntReg offset 1],
    -- 16: move until contact
    [inIntReg offset 0] ++ doubleRegs offset 12,
    -- 17: freedrive mode
    intRegs offset 7 ++ doubleRegs offset 5,
    -- 18: ft rtde input enable
    [inIntReg offset 0, inIntReg offset 1] ++ doubleRegs offset 6,
    -- 19: stop
    [inIntReg offset 0, inDoubleReg offset 0, inIntReg offset 1],
    -- 20: set target payload
    [inIntReg offset 0] ++ doubleRegs offset 9,
    -- 21: torque command
    [inIntReg offset 0] ++ doubleRegs offset 5 ++ [inIntReg offset 1],
    -- 22: jacobian time derivative
    [inIntReg offset 0] ++ doubleRegs offset 17,
    -- 23: external force/torque
    [inIntReg offset 0, .externalForceTorque]]

/-- The command of an input setup, `I`. -/
def controlPackageSetupInputs : UInt8 := 73

/-- The names of a recipe, each with a comma behind it. -/
def encodeInputSetup (recipe : List InputVar) : List UInt8 :=
  encodeFrame controlPackageSetupInputs
    (recipe.flatMap fun var => var.name.toUTF8.toList ++ [0x2c])

/-- The recipes that commands go to. -/
inductive Recipe where
  | asyncSetp | servoJ | forceMode | noCmd | wrench | forceModeParameters | getInverseKin | watchdog
  | setp | moveUntilContact | stop
  deriving DecidableEq, Repr

def Recipe.id : Recipe → UInt8
  | asyncSetp => 1
  | servoJ => 2
  | forceMode => 3
  | noCmd => 4
  | wrench => 6
  | forceModeParameters => 8
  | getInverseKin => 10
  | watchdog => 11
  | setp => 13
  | moveUntilContact => 16
  | stop => 19

/-! ## Commands -/

/-- What a command has behind its code; a `double` is its bits. -/
inductive Payload where
  | none
  | vector (val : List UInt64)
  | forceMode (forceModeType : Int32) (selectionVector : Vector Int32 6) (val : List UInt64)
  | vectorAsync (val : List UInt64) (asynchronous : Bool)
  | digitalOut (mask value : UInt8)
  | speedSlider (mask : Int32) (fraction : UInt64)
  | analogOut (mask outputType : UInt8) (ch0 ch1 : UInt64)
  | inputIntRegister (v : Int32)
  | inputDoubleRegister (v : UInt64)

structure RobotCommand where
  recipeId : UInt8
  command : CommandType
  payload : Payload

def beI32 (v : Int32) : List UInt8 := beBytes 4 v.toUInt32.toNat
def beF64 (v : UInt64) : List UInt8 := beBytes 8 v.toNat

def pushVectorNd (values : List UInt64) : List UInt8 := values.flatMap beF64

namespace RobotCommand

/-- The command's code and what is behind it.  A watchdog kick goes as no command. -/
def body (cmd : RobotCommand) : List UInt8 :=
  beI32 (Int32.ofNat cmd.command.wire) ++
    match cmd.payload with
    | .none => []
    | .vector val => pushVectorNd val
    | .vectorAsync val asynchronous => pushVectorNd val ++ beI32 (if asynchronous then 1 else 0)
    | .forceMode forceModeType selectionVector val =>
      beI32 forceModeType ++ selectionVector.toList.flatMap beI32 ++ pushVectorNd val
    | .digitalOut mask value => [mask, value]
    | .speedSlider mask fraction => beI32 mask ++ beF64 fraction
    | .analogOut mask outputType ch0 ch1 => [mask, outputType] ++ beF64 ch0 ++ beF64 ch1
    | .inputIntRegister v => beI32 v
    | .inputDoubleRegister v => beF64 v

def encode (cmd : RobotCommand) : List UInt8 :=
  encodeFrame dataPackage (cmd.recipeId :: cmd.body)

end RobotCommand

/-- Six coordinates, of the joints or of a pose. -/
abbrev Coords := Vector UInt64 6

/-- What is asked of the control interface. -/
inductive Request where
  | clear
  | stopScript
  | moveJ (q : Coords) (speed acceleration : UInt64) (asynchronous : Bool)
  | moveL (pose : Coords) (speed acceleration : UInt64) (asynchronous : Bool)
  | stopJ (acceleration : UInt64) (asynchronous : Bool)
  | stopL (acceleration : UInt64) (asynchronous : Bool)
  | speedL (xd : Coords) (acceleration time : UInt64)
  | speedStop (acceleration : UInt64)
  | setTcp (tcpOffset : Coords)
  | teachMode
  | endTeachMode
  | triggerProtectiveStop
  | isSteady
  | isPoseWithinSafetyLimits (pose : Coords)
  | isJointsWithinSafetyLimits (q : Coords)
  | servoJ (q : Coords) (speed acceleration time lookaheadTime gain : UInt64)
  | speedJ (qd : Coords) (acceleration time : UInt64)
  | servoStop (acceleration : UInt64)
  | kickWatchdog
  | forceMode (taskFrame : Coords) (selectionVector : Vector Int32 6) (wrench : Coords)
      (forceModeType : Int32) (limits : Coords)
  | forceModeStop
  | zeroFtSensor
  | getInverseKinematics (x : Coords) (qnear : Option Coords)
      (maxPositionError maxOrientationError : UInt64)
  | moveUntilContact (xd direction : Coords) (acceleration : UInt64)

/-- The command that the request's method sends. -/
def Request.command : Request → RobotCommand
  | clear => ⟨Recipe.noCmd.id, .noCmd, .none⟩
  | stopScript => ⟨Recipe.noCmd.id, .stopScript, .none⟩
  | moveJ q speed acceleration asynchronous =>
    ⟨Recipe.asyncSetp.id, .moveJ, .vectorAsync (q.toList ++ [speed, acceleration]) asynchronous⟩
  | moveL pose speed acceleration asynchronous =>
    ⟨Recipe.asyncSetp.id, .moveL, .vectorAsync (pose.toList ++ [speed, acceleration]) asynchronous⟩
  | stopJ acceleration asynchronous =>
    ⟨Recipe.stop.id, .stopJ, .vectorAsync [acceleration] asynchronous⟩
  | stopL acceleration asynchronous =>
    ⟨Recipe.stop.id, .stopL, .vectorAsync [acceleration] asynchronous⟩
  | speedL xd acceleration time =>
    ⟨Recipe.setp.id, .speedL, .vector (xd.toList ++ [acceleration, time])⟩
  | speedStop acceleration => ⟨Recipe.forceModeParameters.id, .speedStop, .vector [acceleration]⟩
  | setTcp tcpOffset => ⟨Recipe.wrench.id, .setTcp, .vector tcpOffset.toList⟩
  | teachMode => ⟨Recipe.noCmd.id, .teachMode, .none⟩
  | endTeachMode => ⟨Recipe.noCmd.id, .endTeachMode, .none⟩
  | triggerProtectiveStop => ⟨Recipe.noCmd.id, .protectiveStop, .none⟩
  | isSteady => ⟨Recipe.noCmd.id, .isSteady, .none⟩
  | isPoseWithinSafetyLimits pose =>
    ⟨Recipe.wrench.id, .isPoseWithinSafetyLimits, .vector pose.toList⟩
  | isJointsWithinSafetyLimits q =>
    ⟨Recipe.wrench.id, .isJointsWithinSafetyLimits, .vector q.toList⟩
  | servoJ q speed acceleration time lookaheadTime gain =>
    ⟨Recipe.servoJ.id, .servoJ,
      .vector (q.toList ++ [speed, acceleration, time, lookaheadTime, gain])⟩
  | speedJ qd acceleration time =>
    ⟨Recipe.setp.id, .speedJ, .vector (qd.toList ++ [acceleration, time])⟩
  | servoStop acceleration => ⟨Recipe.forceModeParameters.id, .servoStop, .vector [acceleration]⟩
  | kickWatchdog => ⟨Recipe.watchdog.id, .watchdog, .none⟩
  | forceMode taskFrame selectionVector wrench forceModeType limits =>
    ⟨Recipe.forceMode.id, .forceMode,
      .forceMode forceModeType selectionVector (taskFrame.toList ++ wrench.toList ++ limits.toList)⟩
  | forceModeStop => ⟨Recipe.noCmd.id, .forceModeStop, .none⟩
  | zeroFtSensor => ⟨Recipe.noCmd.id, .zeroFtSensor, .none⟩
  | getInverseKinematics x (some qnear) maxPositionError maxOrientationError =>
    ⟨Recipe.getInverseKin.id, .getInverseKinematicsArgs,
      .vector (x.toList ++ qnear.toList ++ [maxPositionError, maxOrientationError])⟩
  | getInverseKinematics x none _ _ =>
    ⟨Recipe.wrench.id, .getInverseKinematicsDefault, .vector x.toList⟩
  | moveUntilContact xd direction acceleration =>
    ⟨Recipe.moveUntilContact.id, .moveUntilContact,
      .vector (xd.toList ++ direction.toList ++ [acceleration])⟩

/-! ## The controller -/

/-- The values of a package for a recipe, none if it is not as long as its variables. -/
def decodeInput : List InputVar → List UInt8 → Option (List Value)
  | [], body => if body = [] then some [] else none
  | var :: recipe, body =>
    if body.length < var.type.size then none
    else (decodeInput recipe (body.drop var.type.size)).map
      (var.type.decode (body.take var.type.size) :: ·)

/-- The input registers that a package has set. -/
abbrev Registers := InputVar → Option Value

def Registers.set (recipe : List InputVar) (values : List Value) : Registers := fun var =>
  (recipe.zip values).lookup var

/-! ## The script -/

/-- What a branch of the script does, with what it has read. -/
inductive Action where
  | idle
  | stopScript
  | moveJ (q : List UInt64) (velocity acceleration : UInt64) (async : Int32)
  | moveL (pose : List UInt64) (velocity acceleration : UInt64) (async : Int32)
  | forceMode (taskFrame : List UInt64) (selectionVector : List Int32) (wrench : List UInt64)
      (forceModeType : Int32) (limits : List UInt64)
  | forceModeStop
  | zeroFtSensor
  | speedJ (target : List UInt64) (acceleration time : UInt64)
  | speedL (target : List UInt64) (acceleration time : UInt64)
  | servoJ (q : List UInt64) (velocity acceleration time lookaheadTime gain : UInt64)
  | speedStop (decelerationRate : UInt64)
  | servoStop (decelerationRate : UInt64)
  | teachMode
  | endTeachMode
  | setTcp (pose : List UInt64)
  | getInverseKinArgs (x qnear : List UInt64) (maxPositionError maxOrientationError : UInt64)
  | protectiveStop
  | stopL (decelerationRate : UInt64) (async : Int32)
  | stopJ (decelerationRate : UInt64) (async : Int32)
  | isPoseWithinSafetyLimits (pose : List UInt64)
  | isJointsWithinSafetyLimits (q : List UInt64)
  | getInverseKinDefault (x : List UInt64)
  | isSteady
  | moveUntilContact (xd contactDir : List UInt64) (acc : UInt64)
  /-- The lines of the branch are for newer controllers. -/
  | nothing
  deriving DecidableEq, Repr

namespace Script

/-- A marked line is in the script. -/
def hasLine (major minor : Nat) (v : Version) : Bool :=
  let gate : Gate := ⟨⟨major, minor⟩, none, 5, Nat.zero_lt_succ _⟩
  gate.supported v && !gate.stripForPolyscopeX v

section
variable (regs : Registers) (offset : Nat)

def readInputIntegerReg (registerIndex : Nat) : Option Int32 :=
  match regs (.intRegister (offset + registerIndex)) with
  | some (.int32 v) => some v
  | _ => none

def readInputFloatReg (registerIndex : Nat) : Option UInt64 :=
  match regs (.doubleRegister (offset + registerIndex)) with
  | some (.double v) => some v
  | _ => none

/-- `q_from_input_float_registers`, and `pose_from_input_float_registers`. -/
def fromInputFloatRegisters (registerIndex : Nat) : Option (List UInt64) :=
  (List.range 6).mapM fun i => readInputFloatReg regs offset (registerIndex + i)

def stopArgs (action : UInt64 → Int32 → Action) : Option Action := do
  let decelerationRate ← readInputFloatReg regs offset 0
  let async ← readInputIntegerReg regs offset 1
  return action decelerationRate async

def moveArgs (action : List UInt64 → UInt64 → UInt64 → Int32 → Action) : Option Action := do
  let target ← fromInputFloatRegisters regs offset 0
  let velocity ← readInputFloatReg regs offset 6
  let acceleration ← readInputFloatReg regs offset 7
  let async ← readInputIntegerReg regs offset 1
  return action target velocity acceleration async

def speedArgs (action : List UInt64 → UInt64 → UInt64 → Action) : Option Action := do
  let target ← fromInputFloatRegisters regs offset 0
  let acceleration ← readInputFloatReg regs offset 6
  let time ← readInputFloatReg regs offset 7
  return action target acceleration time

def poseArgs (action : List UInt64 → Action) : Option Action :=
  (fromInputFloatRegisters regs offset 0).map action

def rateArgs (action : UInt64 → Action) : Option Action :=
  (readInputFloatReg regs offset 0).map action

def forceModeArgs : Option Action := do
  let forceModeType ← readInputIntegerReg regs offset 1
  let selectionVector ← (List.range 6).mapM fun i => readInputIntegerReg regs offset (2 + i)
  let taskFrame ← fromInputFloatRegisters regs offset 0
  let wrench ← fromInputFloatRegisters regs offset 6
  let limits ← fromInputFloatRegisters regs offset 12
  return .forceMode taskFrame selectionVector wrench forceModeType limits

def servoJArgs : Option Action := do
  let q ← fromInputFloatRegisters regs offset 0
  let velocity ← readInputFloatReg regs offset 6
  let acceleration ← readInputFloatReg regs offset 7
  let time ← readInputFloatReg regs offset 8
  let lookaheadTime ← readInputFloatReg regs offset 9
  let gain ← readInputFloatReg regs offset 10
  return .servoJ q velocity acceleration time lookaheadTime gain

def inverseKinArgs : Option Action := do
  let x ← fromInputFloatRegisters regs offset 0
  let qnear ← fromInputFloatRegisters regs offset 6
  let maxPositionError ← readInputFloatReg regs offset 12
  let maxOrientationError ← readInputFloatReg regs offset 13
  return .getInverseKinArgs x qnear maxPositionError maxOrientationError

def moveUntilContactArgs : Option Action := do
  let xd ← fromInputFloatRegisters regs offset 0
  let contactDir ← fromInputFloatRegisters regs offset 6
  let acc ← readInputFloatReg regs offset 12
  return .moveUntilContact xd contactDir acc

/-- The branches of `process_cmd` for the commands of the control interface. -/
def processCmd (v : Version) (cmd : Int32) : Option Action :=
  if cmd = 0 then some .idle
  else if cmd = 1 then moveArgs regs offset .moveJ
  else if cmd = 3 then moveArgs regs offset .moveL
  else if cmd = 6 then forceModeArgs regs offset
  else if cmd = 7 then some .forceModeStop
  else if cmd = 8 then some .zeroFtSensor
  else if cmd = 9 then speedArgs regs offset .speedJ
  else if cmd = 10 then speedArgs regs offset .speedL
  else if cmd = 11 then servoJArgs regs offset
  else if cmd = 15 then rateArgs regs offset .speedStop
  else if cmd = 16 then rateArgs regs offset .servoStop
  else if cmd = 18 then some .teachMode
  else if cmd = 19 then some .endTeachMode
  else if cmd = 29 then poseArgs regs offset .setTcp
  else if cmd = 30 then inverseKinArgs regs offset
  else if cmd = 31 then some (if hasLine 3 8 v then .protectiveStop else .nothing)
  else if cmd = 33 then stopArgs regs offset .stopL
  else if cmd = 34 then stopArgs regs offset .stopJ
  else if cmd = 36 then poseArgs regs offset .isPoseWithinSafetyLimits
  else if cmd = 37 then poseArgs regs offset .isJointsWithinSafetyLimits
  else if cmd = 46 then poseArgs regs offset .getInverseKinDefault
  else if cmd = 47 then some .isSteady
  else if cmd = 51 then
    if hasLine 5 4 v then moveUntilContactArgs regs offset else some .nothing
  else if cmd = 255 then some .stopScript
  else none

/-- The command in register 0, processed. -/
def rtdeCmd (v : Version) : Option Action :=
  (readInputIntegerReg regs offset 0).bind (processCmd regs offset v)

end

end Script

/-! ## The claim -/

/-- What the script is to do for a request. -/
def Request.action (v : Version) : Request → Action
  | clear => .idle
  | stopScript => .stopScript
  | moveJ q speed acceleration asynchronous =>
    .moveJ q.toList speed acceleration (if asynchronous then 1 else 0)
  | moveL pose speed acceleration asynchronous =>
    .moveL pose.toList speed acceleration (if asynchronous then 1 else 0)
  | stopJ acceleration asynchronous => .stopJ acceleration (if asynchronous then 1 else 0)
  | stopL acceleration asynchronous => .stopL acceleration (if asynchronous then 1 else 0)
  | speedL xd acceleration time => .speedL xd.toList acceleration time
  | speedStop acceleration => .speedStop acceleration
  | setTcp tcpOffset => .setTcp tcpOffset.toList
  | teachMode => .teachMode
  | endTeachMode => .endTeachMode
  | triggerProtectiveStop => if Script.hasLine 3 8 v then .protectiveStop else .nothing
  | isSteady => .isSteady
  | isPoseWithinSafetyLimits pose => .isPoseWithinSafetyLimits pose.toList
  | isJointsWithinSafetyLimits q => .isJointsWithinSafetyLimits q.toList
  | servoJ q speed acceleration time lookaheadTime gain =>
    .servoJ q.toList speed acceleration time lookaheadTime gain
  | speedJ qd acceleration time => .speedJ qd.toList acceleration time
  | servoStop acceleration => .servoStop acceleration
  | kickWatchdog => .idle
  | forceMode taskFrame selectionVector wrench forceModeType limits =>
    .forceMode taskFrame.toList selectionVector.toList wrench.toList forceModeType limits.toList
  | forceModeStop => .forceModeStop
  | zeroFtSensor => .zeroFtSensor
  | getInverseKinematics x (some qnear) maxPositionError maxOrientationError =>
    .getInverseKinArgs x.toList qnear.toList maxPositionError maxOrientationError
  | getInverseKinematics x none _ _ => .getInverseKinDefault x.toList
  | moveUntilContact xd direction acceleration =>
    if Script.hasLine 5 4 v then .moveUntilContact xd.toList direction.toList acceleration
    else .nothing

/-- The request's package fits its recipe, and the script finds what was asked. -/
structure LaidOut (offset : Nat) (v : Version) (r : Request) (recipe : List InputVar)
    (values : List Value) : Prop where
  registered : (setupRecipes offset)[r.command.recipeId.toNat - 1]? = some recipe
  sent : r.command.encode.drop headerSize = r.command.recipeId :: r.command.body
  length : r.command.body.length = (recipe.map fun var => var.type.size).sum
  typed : List.Forall₂ (fun var value => var.type.Has value) recipe values
  code : recipe.head? = some (inIntReg offset 0) ∧
    values.head? = some (.int32 (Int32.ofNat r.command.command.wire))
  decoded : decodeInput recipe r.command.body = some values
  read : Script.rtdeCmd (.set recipe values) offset v = some (r.action v)

/-! ## Packages of integers, doubles and integers -/

/-- Values for consecutive registers, from `start` on. -/
theorem forall₂_intRegs (offset start : Nat) (vs : List Int32) :
    List.Forall₂ (fun var value => var.type.Has value)
      ((List.range' start vs.length).map (inIntReg offset)) (vs.map .int32) := by
  induction vs generalizing start with
  | nil => exact .nil
  | cons v vs ih => exact .cons trivial (ih (start + 1))

theorem forall₂_doubleRegs (offset start : Nat) (vs : List UInt64) :
    List.Forall₂ (fun var value => var.type.Has value)
      ((List.range' start vs.length).map (inDoubleReg offset)) (vs.map .double) := by
  induction vs generalizing start with
  | nil => exact .nil
  | cons v vs ih => exact .cons trivial (ih (start + 1))

theorem lookup_run {f : Nat → InputVar} (hf : f.Injective) (start i : Nat) (vs : List Value) :
    (((List.range' start vs.length).map f).zip vs).lookup (f i) =
      if start ≤ i then vs[i - start]? else none := by
  induction vs generalizing start with
  | nil => simp
  | cons v vs ih =>
    rw [List.length_cons, List.range'_succ, List.map_cons, List.zip_cons_cons, List.lookup_cons]
    by_cases h : i = start
    · subst h
      simp
    · have hne : (f i == f start) = false := beq_false_of_ne fun heq => h (hf heq)
      rw [hne, ih]
      by_cases hle : start ≤ i
      · have hlt : start + 1 ≤ i := by omega
        have hsub : i - start = (i - (start + 1)) + 1 := by omega
        rw [if_pos hlt, if_pos hle, hsub, List.getElem?_cons_succ]
      · have hlt : ¬start + 1 ≤ i := by omega
        rw [if_neg hlt, if_neg hle]

theorem lookup_other {f : Nat → InputVar} {var : InputVar} (h : ∀ i, f i ≠ var)
    (indices : List Nat) (vs : List Value) : ((indices.map f).zip vs).lookup var = none := by
  rw [List.lookup_eq_none_iff]
  rintro ⟨key, value⟩ hmem
  obtain ⟨i, -, rfl⟩ := List.mem_map.1 (List.of_mem_zip hmem).1
  exact bne_iff_ne.2 fun heq => h i heq.symm

section
variable (offset : Nat) (ints : List Int32) (doubles : List UInt64) (more : List Int32)

/-- The integer registers from 0 on, the double ones from 0 on, and more integer ones. -/
def shapeVars (m n k : Nat) : List InputVar :=
  (List.range' 0 m).map (inIntReg offset) ++ (List.range' 0 n).map (inDoubleReg offset) ++
    (List.range' m k).map (inIntReg offset)

def shapeValues : List Value :=
  ints.map .int32 ++ doubles.map .double ++ more.map .int32

theorem shape_typed :
    List.Forall₂ (fun var value => var.type.Has value)
      (shapeVars offset ints.length doubles.length more.length) (shapeValues ints doubles more) :=
  List.rel_append (List.rel_append (forall₂_intRegs offset 0 ints) (forall₂_doubleRegs offset 0 doubles))
    (forall₂_intRegs offset ints.length more)

theorem shape_set (var : InputVar) :
    Registers.set (shapeVars offset ints.length doubles.length more.length)
        (shapeValues ints doubles more) var =
      ((((List.range' 0 ints.length).map (inIntReg offset)).zip (ints.map .int32)).lookup var).or
        (((((List.range' 0 doubles.length).map (inDoubleReg offset)).zip
          (doubles.map .double)).lookup var).or
          ((((List.range' ints.length more.length).map (inIntReg offset)).zip
            (more.map .int32)).lookup var)) := by
  unfold Registers.set shapeVars shapeValues
  rw [List.zip_append (by simp), List.zip_append (by simp), List.lookup_append,
    List.lookup_append, Option.or_assoc]

theorem shape_float :
    Script.readInputFloatReg (.set (shapeVars offset ints.length doubles.length more.length)
      (shapeValues ints doubles more)) offset = fun i => doubles[i]? := by
  funext i
  have hinj : (inDoubleReg offset).Injective :=
    fun a b h => Nat.add_left_cancel (InputVar.doubleRegister.inj h)
  have hints : ∀ (indices : List Nat) vs, ((indices.map (inIntReg offset)).zip vs).lookup
      (.doubleRegister (offset + i)) = none :=
    lookup_other fun _ => InputVar.noConfusion
  have hdoubles := lookup_run hinj 0 i (doubles.map .double)
  rw [List.length_map, if_pos (Nat.zero_le i), List.getElem?_map] at hdoubles
  unfold Script.readInputFloatReg
  rw [shape_set, hints, hints, show InputVar.doubleRegister (offset + i) = inDoubleReg offset i from rfl,
    hdoubles]
  cases doubles[i]? <;> rfl

theorem shape_int :
    Script.readInputIntegerReg (.set (shapeVars offset ints.length doubles.length more.length)
      (shapeValues ints doubles more)) offset = fun i => (ints ++ more)[i]? := by
  funext i
  have hinj : (inIntReg offset).Injective :=
    fun a b h => Nat.add_left_cancel (InputVar.intRegister.inj h)
  have hdoubles : ∀ (indices : List Nat) vs, ((indices.map (inDoubleReg offset)).zip vs).lookup
      (.intRegister (offset + i)) = none :=
    lookup_other fun _ => InputVar.noConfusion
  have hints := lookup_run hinj 0 i (ints.map .int32)
  have hmore := lookup_run hinj ints.length i (more.map .int32)
  rw [List.length_map, if_pos (Nat.zero_le i), Nat.sub_zero, List.getElem?_map] at hints
  rw [List.length_map, List.getElem?_map] at hmore
  unfold Script.readInputIntegerReg
  rw [shape_set, hdoubles, show InputVar.intRegister (offset + i) = inIntReg offset i from rfl,
    hints, hmore]
  by_cases hi : i < ints.length
  · rw [List.getElem?_append_left hi, List.getElem?_eq_getElem hi]
    rfl
  · have hle : ints.length ≤ i := Nat.le_of_not_lt hi
    rw [List.getElem?_append_right hle, List.getElem?_eq_none hle, if_pos hle]
    cases more[i - ints.length]? <;> rfl

end

/-- What values encode to is as long as the variables, and decodes to the values. -/
theorem decodeInput_encode {recipe : List InputVar} {values : List Value}
    (h : List.Forall₂ (fun var value => var.type.Has value) recipe values) :
    (values.flatMap Value.encode).length = (recipe.map fun var => var.type.size).sum ∧
      decodeInput recipe (values.flatMap Value.encode) = some values := by
  induction h with
  | nil => exact ⟨rfl, rfl⟩
  | @cons var value recipe values hvalue _ ih =>
    obtain ⟨hlength, hdecode⟩ := VarType.decode_encode hvalue
    rw [List.flatMap_cons]
    constructor
    · rw [List.length_append, List.map_cons, List.sum_cons, hlength, ih.1]
    · have hwide : ¬(value.encode ++ values.flatMap Value.encode).length < var.type.size := by
        rw [List.length_append, hlength]
        omega
      unfold decodeInput
      rw [if_neg hwide, ← hlength, List.drop_left, List.take_left, hdecode, ih.2]
      rfl

theorem shape_encode (ints : List Int32) (doubles : List UInt64) (more : List Int32) :
    (shapeValues ints doubles more).flatMap Value.encode =
      ints.flatMap beI32 ++ doubles.flatMap beF64 ++ more.flatMap beI32 := by
  unfold shapeValues
  rw [List.flatMap_append, List.flatMap_append, List.flatMap_map, List.flatMap_map, List.flatMap_map]
  rfl

section
variable {offset : Nat} {v : Version} {r : Request}

/-- The script reads the doubles and the integers at these places. -/
def Script.Reads (regs : Registers) (offset : Nat) (doubles : List UInt64) (ints : List Int32) :
    Prop :=
  Script.readInputFloatReg regs offset = (fun i => doubles[i]?) ∧
    Script.readInputIntegerReg regs offset = fun i => ints[i]?

/-- A command of that shape is laid out if the recipe has the shape too, and the script's branch
reads the arguments at their places in the lists. -/
theorem laidOut (code : Int32) (ints : List Int32) (doubles : List UInt64) (more : List Int32)
    (hwire : Int32.ofNat r.command.command.wire = code)
    (hrecipe : (setupRecipes offset)[r.command.recipeId.toNat - 1]? =
      some (shapeVars offset (code :: ints).length doubles.length more.length))
    (hbody : r.command.body =
      (code :: ints).flatMap beI32 ++ doubles.flatMap beF64 ++ more.flatMap beI32)
    (hread : ∀ regs, Script.Reads regs offset doubles (code :: ints ++ more) →
      Script.processCmd regs offset v code = some (r.action v)) :
    ∃ recipe values, LaidOut offset v r recipe values := by
  have htyped := shape_typed offset (code :: ints) doubles more
  have hints := shape_int offset (code :: ints) doubles more
  obtain ⟨hlength, hdecode⟩ := decodeInput_encode htyped
  rw [shape_encode, ← hbody] at hlength hdecode
  refine ⟨_, _, hrecipe, rfl, hlength, htyped, ⟨rfl, ?_⟩, hdecode, ?_⟩
  · rw [hwire]
    rfl
  · unfold Script.rtdeCmd
    rw [hints]
    exact hread _ ⟨shape_float offset (code :: ints) doubles more, hints⟩

/-- Commands without arguments. -/
theorem laidOut_none (code : Int32) (hwire : Int32.ofNat r.command.command.wire = code)
    (hid : r.command.recipeId = Recipe.noCmd.id ∨ r.command.recipeId = Recipe.watchdog.id)
    (hpayload : r.command.payload = .none)
    (hread : ∀ regs, Script.processCmd regs offset v code = some (r.action v)) :
    ∃ recipe values, LaidOut offset v r recipe values := by
  refine laidOut code [] [] [] hwire ?_ ?_ fun regs _ => hread regs
  · rcases hid with h | h <;> rw [h] <;> rfl
  · unfold RobotCommand.body
    rw [hpayload, hwire]
    rfl

/-- Commands with doubles. -/
theorem laidOut_vector (code : Int32) (val : List UInt64)
    (hwire : Int32.ofNat r.command.command.wire = code)
    (hpayload : r.command.payload = .vector val)
    (hrecipe : (setupRecipes offset)[r.command.recipeId.toNat - 1]? =
      some (shapeVars offset 1 val.length 0))
    (hread : ∀ regs, Script.Reads regs offset val [code] →
      Script.processCmd regs offset v code = some (r.action v)) :
    ∃ recipe values, LaidOut offset v r recipe values := by
  refine laidOut code [] val [] hwire hrecipe ?_ hread
  unfold RobotCommand.body
  rw [hpayload, hwire]
  simp [pushVectorNd]

/-- Commands with doubles and a flag. -/
theorem laidOut_async (code : Int32) (val : List UInt64) (asynchronous : Bool)
    (hwire : Int32.ofNat r.command.command.wire = code)
    (hpayload : r.command.payload = .vectorAsync val asynchronous)
    (hrecipe : (setupRecipes offset)[r.command.recipeId.toNat - 1]? =
      some (shapeVars offset 1 val.length 1))
    (hread : ∀ regs, Script.Reads regs offset val [code, if asynchronous then 1 else 0] →
      Script.processCmd regs offset v code = some (r.action v)) :
    ∃ recipe values, LaidOut offset v r recipe values := by
  refine laidOut code [] val [if asynchronous then 1 else 0] hwire hrecipe ?_ hread
  unfold RobotCommand.body
  rw [hpayload, hwire]
  simp [pushVectorNd]

theorem exists_six {α : Type} (w : Vector α 6) :
    ∃ a b c d e f, w.toList = [a, b, c, d, e, f] := by
  match w with
  | ⟨⟨[a, b, c, d, e, f]⟩, _⟩ => exact ⟨a, b, c, d, e, f, rfl⟩

namespace Script
variable {regs : Registers} {ints : List Int32}

theorem moveArgs_reads (w : Coords) (s acc : UInt64) {code async : Int32}
    (h : Reads regs offset (w.toList ++ [s, acc]) [code, async])
    (action : List UInt64 → UInt64 → UInt64 → Int32 → Action) :
    moveArgs regs offset action = some (action w.toList s acc async) := by
  obtain ⟨a, b, c, d, e, f, hw⟩ := exists_six w
  unfold moveArgs fromInputFloatRegisters
  rw [h.1, h.2, hw]
  rfl

theorem speedArgs_reads (w : Coords) (acc time : UInt64)
    (h : Reads regs offset (w.toList ++ [acc, time]) ints)
    (action : List UInt64 → UInt64 → UInt64 → Action) :
    speedArgs regs offset action = some (action w.toList acc time) := by
  obtain ⟨a, b, c, d, e, f, hw⟩ := exists_six w
  unfold speedArgs fromInputFloatRegisters
  rw [h.1, hw]
  rfl

theorem poseArgs_reads (w : Coords) (h : Reads regs offset w.toList ints)
    (action : List UInt64 → Action) : poseArgs regs offset action = some (action w.toList) := by
  obtain ⟨a, b, c, d, e, f, hw⟩ := exists_six w
  unfold poseArgs fromInputFloatRegisters
  rw [h.1, hw]
  rfl

theorem rateArgs_reads (rate : UInt64) (h : Reads regs offset [rate] ints)
    (action : UInt64 → Action) : rateArgs regs offset action = some (action rate) := by
  unfold rateArgs
  rw [h.1]
  rfl

theorem stopArgs_reads (rate : UInt64) {code async : Int32}
    (h : Reads regs offset [rate] [code, async]) (action : UInt64 → Int32 → Action) :
    stopArgs regs offset action = some (action rate async) := by
  unfold stopArgs
  rw [h.1, h.2]
  rfl

theorem servoJArgs_reads (w : Coords) (s acc time lookahead gain : UInt64)
    (h : Reads regs offset (w.toList ++ [s, acc, time, lookahead, gain]) ints) :
    servoJArgs regs offset = some (.servoJ w.toList s acc time lookahead gain) := by
  obtain ⟨a, b, c, d, e, f, hw⟩ := exists_six w
  unfold servoJArgs fromInputFloatRegisters
  rw [h.1, hw]
  rfl

theorem inverseKinArgs_reads (x qnear : Coords) (position orientation : UInt64)
    (h : Reads regs offset (x.toList ++ qnear.toList ++ [position, orientation]) ints) :
    inverseKinArgs regs offset =
      some (.getInverseKinArgs x.toList qnear.toList position orientation) := by
  obtain ⟨a, b, c, d, e, f, hx⟩ := exists_six x
  obtain ⟨a', b', c', d', e', f', hq⟩ := exists_six qnear
  unfold inverseKinArgs fromInputFloatRegisters
  rw [h.1, hx, hq]
  rfl

theorem moveUntilContactArgs_reads (xd direction : Coords) (acc : UInt64)
    (h : Reads regs offset (xd.toList ++ direction.toList ++ [acc]) ints) :
    moveUntilContactArgs regs offset =
      some (.moveUntilContact xd.toList direction.toList acc) := by
  obtain ⟨a, b, c, d, e, f, hx⟩ := exists_six xd
  obtain ⟨a', b', c', d', e', f', hd⟩ := exists_six direction
  unfold moveUntilContactArgs fromInputFloatRegisters
  rw [h.1, hx, hd]
  rfl

theorem forceModeArgs_reads (frame wrench limits : Coords) (selection : Vector Int32 6)
    {code kind : Int32}
    (h : Reads regs offset (frame.toList ++ wrench.toList ++ limits.toList)
      (code :: kind :: selection.toList)) :
    forceModeArgs regs offset =
      some (.forceMode frame.toList selection.toList wrench.toList kind limits.toList) := by
  obtain ⟨a, b, c, d, e, f, hframe⟩ := exists_six frame
  obtain ⟨a', b', c', d', e', f', hwrench⟩ := exists_six wrench
  obtain ⟨a'', b'', c'', d'', e'', f'', hlimits⟩ := exists_six limits
  obtain ⟨s, t, u, x, y, z, hselection⟩ := exists_six selection
  unfold forceModeArgs fromInputFloatRegisters
  rw [h.1, h.2, hframe, hwrench, hlimits, hselection]
  rfl

end Script

/-- **The layout.**  Whatever is asked, with whichever register range and version. -/
theorem layout (offset : Nat) (v : Version) (r : Request) :
    ∃ recipe values, LaidOut offset v r recipe values := by
  cases r with
  | clear => exact laidOut_none 0 rfl (.inl rfl) rfl fun _ => rfl
  | stopScript => exact laidOut_none 255 rfl (.inl rfl) rfl fun _ => rfl
  | kickWatchdog => exact laidOut_none 0 rfl (.inr rfl) rfl fun _ => rfl
  | teachMode => exact laidOut_none 18 rfl (.inl rfl) rfl fun _ => rfl
  | endTeachMode => exact laidOut_none 19 rfl (.inl rfl) rfl fun _ => rfl
  | triggerProtectiveStop => exact laidOut_none 31 rfl (.inl rfl) rfl fun _ => rfl
  | isSteady => exact laidOut_none 47 rfl (.inl rfl) rfl fun _ => rfl
  | forceModeStop => exact laidOut_none 7 rfl (.inl rfl) rfl fun _ => rfl
  | zeroFtSensor => exact laidOut_none 8 rfl (.inl rfl) rfl fun _ => rfl
  | moveJ q speed acceleration asynchronous =>
    refine laidOut_async 1 (q.toList ++ [speed, acceleration]) asynchronous rfl rfl ?_ ?_
    · rw [List.length_append, Vector.length_toList]
      rfl
    · exact fun regs h => Script.moveArgs_reads q speed acceleration h _
  | moveL pose speed acceleration asynchronous =>
    refine laidOut_async 3 (pose.toList ++ [speed, acceleration]) asynchronous rfl rfl ?_ ?_
    · rw [List.length_append, Vector.length_toList]
      rfl
    · exact fun regs h => Script.moveArgs_reads pose speed acceleration h _
  | stopJ acceleration asynchronous =>
    exact laidOut_async 34 [acceleration] asynchronous rfl rfl rfl fun regs h =>
      Script.stopArgs_reads acceleration h _
  | stopL acceleration asynchronous =>
    exact laidOut_async 33 [acceleration] asynchronous rfl rfl rfl fun regs h =>
      Script.stopArgs_reads acceleration h _
  | speedStop acceleration =>
    exact laidOut_vector 15 [acceleration] rfl rfl rfl fun regs h =>
      Script.rateArgs_reads acceleration h _
  | servoStop acceleration =>
    exact laidOut_vector 16 [acceleration] rfl rfl rfl fun regs h =>
      Script.rateArgs_reads acceleration h _
  | speedL xd acceleration time =>
    refine laidOut_vector 10 (xd.toList ++ [acceleration, time]) rfl rfl ?_ ?_
    · rw [List.length_append, Vector.length_toList]
      rfl
    · exact fun regs h => Script.speedArgs_reads xd acceleration time h _
  | speedJ qd acceleration time =>
    refine laidOut_vector 9 (qd.toList ++ [acceleration, time]) rfl rfl ?_ ?_
    · rw [List.length_append, Vector.length_toList]
      rfl
    · exact fun regs h => Script.speedArgs_reads qd acceleration time h _
  | setTcp tcpOffset =>
    refine laidOut_vector 29 tcpOffset.toList rfl rfl ?_ ?_
    · rw [Vector.length_toList]
      rfl
    · exact fun regs h => Script.poseArgs_reads tcpOffset h _
  | isPoseWithinSafetyLimits pose =>
    refine laidOut_vector 36 pose.toList rfl rfl ?_ ?_
    · rw [Vector.length_toList]
      rfl
    · exact fun regs h => Script.poseArgs_reads pose h _
  | isJointsWithinSafetyLimits q =>
    refine laidOut_vector 37 q.toList rfl rfl ?_ ?_
    · rw [Vector.length_toList]
      rfl
    · exact fun regs h => Script.poseArgs_reads q h _
  | servoJ q speed acceleration time lookaheadTime gain =>
    refine laidOut_vector 11 (q.toList ++ [speed, acceleration, time, lookaheadTime, gain]) rfl rfl ?_ ?_
    · rw [List.length_append, Vector.length_toList]
      rfl
    · exact fun regs h => Script.servoJArgs_reads q speed acceleration time lookaheadTime gain h
  | getInverseKinematics x qnear maxPositionError maxOrientationError =>
    cases qnear with
    | none =>
      refine laidOut_vector 46 x.toList rfl rfl ?_ ?_
      · rw [Vector.length_toList]
        rfl
      · exact fun regs h => Script.poseArgs_reads x h _
    | some qnear =>
      refine laidOut_vector 30 (x.toList ++ qnear.toList ++ [maxPositionError, maxOrientationError])
        rfl rfl ?_ ?_
      · rw [List.length_append, List.length_append, Vector.length_toList, Vector.length_toList]
        rfl
      · exact fun regs h =>
          Script.inverseKinArgs_reads x qnear maxPositionError maxOrientationError h
  | moveUntilContact xd direction acceleration =>
    refine laidOut_vector 51 (xd.toList ++ direction.toList ++ [acceleration]) rfl rfl ?_ ?_
    · rw [List.length_append, List.length_append, Vector.length_toList, Vector.length_toList]
      rfl
    · intro regs h
      show (if Script.hasLine 5 4 v then Script.moveUntilContactArgs regs offset
        else some .nothing) = _
      rw [Script.moveUntilContactArgs_reads xd direction acceleration h, Request.action]
      split <;> rfl
  | forceMode taskFrame selectionVector wrench forceModeType limits =>
    refine laidOut 6 (forceModeType :: selectionVector.toList)
      (taskFrame.toList ++ wrench.toList ++ limits.toList) [] rfl ?_ ?_ ?_
    · rw [List.length_append, List.length_append, List.length_cons, List.length_cons,
        Vector.length_toList, Vector.length_toList, Vector.length_toList, Vector.length_toList]
      rfl
    · unfold RobotCommand.body Request.command pushVectorNd
      simp [CommandType.wire, CommandType.value]
    · intro regs h
      rw [List.append_nil] at h
      exact Script.forceModeArgs_reads taskFrame wrench limits selectionVector h

end

end UrRobot
