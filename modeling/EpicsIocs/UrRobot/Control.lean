import EpicsIocs.Lib.Steps

/-! # The command handshake

The control script spins on an input register.  A regular command it processes once,
answers DONE and then waits for the register to read 0 before it is READY again; a
realtime command it processes, answers DONE and is READY in every cycle
(`rtde_control.script`).  `send_command` waits for READY, writes the command, waits for
DONE and clears the register (`control.rs`); what it sees of the script are snapshots
that come in order but late.

Nothing says which command a DONE is for, so an earlier command's can be taken for the
one just written (`timed_out_move_acknowledges_query`).  It is not when no other DONE is
to come at the time of the write (`handshake`). -/

namespace UrRobot

open Steps

/-! ## Commands -/

inductive CommandType where
  | noCmd | moveJ | moveL | forceMode | forceModeStop | zeroFtSensor | speedJ | speedL | servoJ
  | setStdDigitalOut | setToolDigitalOut | speedStop | servoStop | teachMode | endTeachMode
  | setSpeedSlider | setStdAnalogOut | setTcp | getInverseKinematicsArgs | protectiveStop | stopL
  | stopJ | isPoseWithinSafetyLimits | isJointsWithinSafetyLimits | getInverseKinematicsDefault
  | isSteady | setConfDigitalOut | setInputIntRegister | setInputDoubleRegister
  | moveUntilContact | watchdog | stopScript
  deriving DecidableEq, Repr

namespace CommandType

def value : CommandType → Nat
  | noCmd => 0
  | moveJ => 1
  | moveL => 3
  | forceMode => 6
  | forceModeStop => 7
  | zeroFtSensor => 8
  | speedJ => 9
  | speedL => 10
  | servoJ => 11
  | setStdDigitalOut => 13
  | setToolDigitalOut => 14
  | speedStop => 15
  | servoStop => 16
  | teachMode => 18
  | endTeachMode => 19
  | setSpeedSlider => 22
  | setStdAnalogOut => 23
  | setTcp => 29
  | getInverseKinematicsArgs => 30
  | protectiveStop => 31
  | stopL => 33
  | stopJ => 34
  | isPoseWithinSafetyLimits => 36
  | isJointsWithinSafetyLimits => 37
  | getInverseKinematicsDefault => 46
  | isSteady => 47
  | setConfDigitalOut => 48
  | setInputIntRegister => 49
  | setInputDoubleRegister => 50
  | moveUntilContact => 51
  | watchdog => 99
  | stopScript => 255

/-- What `encode` puts on the wire: a watchdog kick goes as no command. -/
def wire : CommandType → Nat
  | watchdog => noCmd.value
  | c => c.value

end CommandType

/-- The commands the script's main loop treats as realtime commands. -/
def realtimeCommands : List Nat := [24, 11, 9, 10, 6, 25, 26, 27, 38, 58, 66, 67, 68, 69, 70, 71]

def controllerRdyForCmd : Nat := 1
def controllerDoneWithCmd : Nat := 2

/-! ## The script -/

/-- The next statement of the script.  A command carries the number of the write it was
read from. -/
inductive Pc where
  | start
  | loop
  | process (cmd id : Nat)
  | signalDone (cmd id : Nat)
  | signalReady
  | terminated
  deriving DecidableEq, Repr

structure Script where
  pc : Pc
  executingCmd : Bool
  /-- Output register 0. -/
  status : Nat
  deriving DecidableEq, Repr

inductive Event where
  | wrote (id : Nat) (c : CommandType)
  | began (id cmd : Nat)
  | finished (id cmd : Nat)
  | returnedOk (id : Nat) (c : CommandType)
  deriving DecidableEq, Repr

/-- The register reads `cmd`, written by write `id`. -/
def Script.step (script : Script) (cmd id : Nat) : Script × List Event :=
  match script.pc with
  | .start => ({ script with pc := .loop, status := controllerRdyForCmd }, [])
  | .loop =>
    if cmd ∈ realtimeCommands then ({ script with pc := .process cmd id }, [.began id cmd])
    else if cmd = 0 then ({ script with pc := .signalReady, executingCmd := false }, [])
    else if script.executingCmd then (script, [])
    else ({ script with pc := .process cmd id }, [.began id cmd])
  | .process cmd id =>
    -- `process_cmd` is false for the stop command only, and then says nothing.
    if cmd = 255 then ({ script with pc := .terminated, executingCmd := true }, [.finished id cmd])
    else ({ script with pc := .signalDone cmd id }, [.finished id cmd])
  | .signalDone cmd _ =>
    if cmd ∈ realtimeCommands then
      ({ script with pc := .signalReady, status := controllerDoneWithCmd }, [])
    else
      ({ pc := .loop, executingCmd := true, status := controllerDoneWithCmd }, [])
  | .signalReady => ({ script with pc := .loop, status := controllerRdyForCmd }, [])
  | .terminated => (script, [])

/-! ## The driver -/

structure Snapshot where
  /-- Output register 0. -/
  status : Nat
  runtime : UInt32
  safety : UInt32
  deriving DecidableEq, Repr

namespace Snapshot

def stopped (s : Snapshot) : Bool := s.runtime = 1
def programRunning (s : Snapshot) : Bool := s.runtime = 2

def safetyBitProtectiveStopped : UInt32 := 2
def safetyBitEmergencyStopped : UInt32 := 7

def stoppedBySafety (s : Snapshot) : Bool :=
  s.safety &&& ((1 : UInt32) <<< safetyBitProtectiveStopped) ≠ 0 ∨
    s.safety &&& ((1 : UInt32) <<< safetyBitEmergencyStopped) ≠ 0

end Snapshot

/-- Whether the call waits for its command to be done. -/
inductive Mode where
  | command
  | realtime
  deriving DecidableEq, Repr

/-- The next question a waiting loop asks. -/
inductive Check where
  | state
  | running
  | safety
  | deadline
  deriving DecidableEq, Repr

/-- Where the driver's call is. -/
inductive Driver where
  | idle
  /-- `await_ready_for_command`, before its wait. -/
  | runtime (mode : Mode) (c : CommandType)
  | running (mode : Mode) (c : CommandType)
  /-- `wait_for_state`. -/
  | ready (check : Check) (mode : Mode) (c : CommandType)
  | write (mode : Mode) (c : CommandType)
  /-- The wait for DONE. -/
  | done (check : Check) (id : Nat) (c : CommandType)
  /-- The wait for the program to stop. -/
  | stopping (check : Check) (id : Nat) (c : CommandType)
  /-- The clear of a refusal. -/
  | refused
  /-- The clear of a command that is done. -/
  | clear (id : Nat) (c : CommandType)
  deriving DecidableEq, Repr

/-- One question of the call, with the newest snapshot and whether its time is up. -/
def Driver.poll (driver : Driver) (current : Snapshot) (expired : Bool) : Option Driver :=
  match driver with
  | .runtime mode c => some (if current.stopped then .refused else .running mode c)
  | .running mode c => some (if current.programRunning then .ready .state mode c else .refused)
  | .ready .state mode c =>
    some (if current.status = controllerRdyForCmd then .write mode c else .ready .safety mode c)
  | .ready .safety mode c =>
    some (if current.stoppedBySafety then .refused else .ready .deadline mode c)
  | .ready .deadline mode c => some (if expired then .refused else .ready .state mode c)
  | .done .state id c =>
    some (if current.status = controllerDoneWithCmd then .clear id c else .done .running id c)
  | .done .running id c => some (if current.programRunning then .done .safety id c else .refused)
  | .done .safety id c =>
    some (if current.stoppedBySafety then .refused else .done .deadline id c)
  | .done .deadline id c => some (if expired then .refused else .done .state id c)
  | .stopping .running id c =>
    some (if current.programRunning then .stopping .safety id c else .clear id c)
  | .stopping .safety id c =>
    some (if current.stoppedBySafety then .refused else .stopping .deadline id c)
  | .stopping .deadline id c => some (if expired then .refused else .stopping .running id c)
  | _ => none

/-! ## The two together -/

structure Link where
  driver : Driver
  /-- Input register 0, and the number of the write that set it. -/
  register : Nat
  author : Nat
  writes : Nat
  script : Script
  /-- Snapshots on their way, the oldest first. -/
  line : List Snapshot
  current : Snapshot
  log : List Event
  deriving DecidableEq, Repr

inductive LinkAct where
  /-- `send_command` or `send_realtime_command` is called. -/
  | call (mode : Mode) (c : CommandType)
  | poll (expired : Bool)
  /-- The call's write to the socket, which may fail. -/
  | send (sent : Bool)
  | script
  | sample (runtime safety : UInt32)
  | deliver
  /-- The program is stopped. -/
  | halt
  /-- The script is uploaded again. -/
  | upload
  deriving DecidableEq, Repr

namespace Link

/-- The call's write; one that fails is the call's error. -/
def send (l : Link) (sent : Bool) : Option Link :=
  match l.driver, sent with
  | .write mode c, true =>
    let id := l.writes + 1
    let driver : Driver :=
      match mode with
      | .realtime => .idle
      | .command => if c = .stopScript then .stopping .running id c else .done .state id c
    some { l with driver, register := c.wire, author := id, writes := id,
                  log := l.log ++ [.wrote id c] }
  | .refused, true =>
    some { l with driver := .idle, register := 0, author := l.writes + 1, writes := l.writes + 1 }
  | .clear id c, true =>
    some { l with driver := .idle, register := 0, author := l.writes + 1, writes := l.writes + 1,
                  log := l.log ++ [.returnedOk id c] }
  | .write _ _, false | .refused, false | .clear _ _, false => some { l with driver := .idle }
  | _, _ => none

def step (l : Link) : LinkAct → Option Link
  | .call mode c => if l.driver = .idle then some { l with driver := .runtime mode c } else none
  | .poll expired => (l.driver.poll l.current expired).map fun driver => { l with driver }
  | .send sent => l.send sent
  | .script =>
    let (script, events) := l.script.step l.register l.author
    some { l with script, log := l.log ++ events }
  | .sample runtime safety =>
    some { l with line := l.line ++ [{ status := l.script.status, runtime, safety }] }
  | .deliver =>
    match l.line with
    | [] => none
    | current :: line => some { l with current, line }
  | .halt => some { l with script := { l.script with pc := .terminated } }
  | .upload =>
    if l.driver = .idle then
      some { l with script := { l.script with pc := .start, executingCmd := false } }
    else none

/-- The script has just been uploaded and the register cleared. -/
def start (status : Nat) (current : Snapshot) : Link where
  driver := .idle
  register := 0
  author := 0
  writes := 0
  script := ⟨.start, false, status⟩
  line := []
  current := current
  log := []

end Link

def linkSystem : System Link LinkAct :=
  System.ofFun (fun l => ∃ status current, l = .start status current) Link.step

/-! ## What a call's success should say -/

/-- Since write `id` of `c` the script has begun it once and finished it once. -/
def RanOnce (log : List Event) (id : Nat) (c : CommandType) : Prop :=
  ∃ before since, log = before ++ .wrote id c :: since ∧
    since.count (.began id c.wire) = 1 ∧ since.count (.finished id c.wire) = 1

/-- Every command reported done, other than a stop, ran once between its write and the report. -/
def Acknowledged (log : List Event) : Prop :=
  ∀ before after id c, log = before ++ .returnedOk id c :: after → c ≠ .stopScript →
    RanOnce before id c

/-- The script will say DONE for the command it is in. -/
def Pc.OwesDone : Pc → Prop
  | .process cmd _ => cmd ≠ 255
  | .signalDone _ _ => True
  | _ => False

/-- Neither the register nor any snapshot the driver has or will get says DONE. -/
structure Link.NoDoneShown (l : Link) : Prop where
  status : l.script.status ≠ controllerDoneWithCmd
  current : l.current.status ≠ controllerDoneWithCmd
  line : ∀ s ∈ l.line, s.status ≠ controllerDoneWithCmd

/-- `send_command` writes no realtime command, and no command while the DONE of an earlier
one is still to come. -/
def Link.WritesClean (l : Link) (a : LinkAct) : Prop :=
  match a, l.driver with
  | .send true, .write .command c =>
    c ≠ .stopScript → c.wire ∉ realtimeCommands ∧ ¬ l.script.pc.OwesDone ∧ l.NoDoneShown
  | _, _ => True

instance (pc : Pc) : Decidable pc.OwesDone :=
  match pc with
  | .process cmd _ => inferInstanceAs (Decidable (cmd ≠ 255))
  | .signalDone _ _ => inferInstanceAs (Decidable True)
  | .start | .loop | .signalReady | .terminated => inferInstanceAs (Decidable False)

instance (l : Link) : Decidable l.NoDoneShown :=
  decidable_of_iff (l.script.status ≠ controllerDoneWithCmd ∧
      l.current.status ≠ controllerDoneWithCmd ∧ ∀ s ∈ l.line, s.status ≠ controllerDoneWithCmd)
    ⟨fun h => ⟨h.1, h.2.1, h.2.2⟩, fun h => ⟨h.status, h.current, h.line⟩⟩

instance (l : Link) (a : LinkAct) : Decidable (l.WritesClean a) := by
  unfold Link.WritesClean
  split <;> infer_instance

/-! ## The command the driver waits for -/

/-- How far the script is with write `id` of `c`: how often it has begun and finished it. -/
inductive Progress (l : Link) (id : Nat) (c : CommandType) : Nat → Nat → Prop
  | unread : l.NoDoneShown → ¬ l.script.pc.OwesDone → Progress l id c 0 0
  | begun : l.NoDoneShown → c.wire ≠ 0 → l.script.pc = .process c.wire id →
      l.script.executingCmd = false → Progress l id c 1 0
  | finished : l.NoDoneShown → c.wire ≠ 0 → l.script.pc = .signalDone c.wire id →
      Progress l id c 1 1
  | halted (b f : Nat) : l.NoDoneShown → l.script.pc = .terminated → Progress l id c b f
  | done : c.wire ≠ 0 → l.script.pc = .loop ∧ l.script.executingCmd = true ∨
      l.script.pc = .terminated → Progress l id c 1 1

/-- Write `id` of `c` is the last one, and the script is this far with it. -/
structure Waits (l : Link) (id : Nat) (c : CommandType) : Prop where
  register : l.register = c.wire
  author : l.author = id
  notStop : c ≠ .stopScript
  regular : c.wire ∉ realtimeCommands
  progress : ∃ before since, l.log = before ++ .wrote id c :: since ∧
    Progress l id c (since.count (.began id c.wire)) (since.count (.finished id c.wire))

/-- Write `id` of `c` is done, and the script waits for the register to be cleared. -/
structure Served (l : Link) (id : Nat) (c : CommandType) : Prop where
  register : l.register = c.wire
  regular : c.wire ∉ realtimeCommands
  nonzero : c.wire ≠ 0
  pc : l.script.pc = .loop ∧ l.script.executingCmd = true ∨ l.script.pc = .terminated
  ranOnce : RanOnce l.log id c

theorem CommandType.wire_eq_stop {c : CommandType} (h : c.wire = 255) : c = .stopScript := by
  cases c <;> first | rfl | exact absurd h (by decide)

section
variable {l : Link} {id b f : Nat} {c : CommandType}

theorem Link.NoDoneShown.sample (h : l.NoDoneShown) (runtime safety : UInt32) :
    Link.NoDoneShown { l with line := l.line ++ [⟨l.script.status, runtime, safety⟩] } where
  status := h.status
  current := h.current
  line s hs := by
    obtain hs | hs := List.mem_append.1 hs
    · exact h.line s hs
    · rw [List.mem_singleton.1 hs]
      exact h.status

theorem Link.NoDoneShown.deliver {current : Snapshot} {line : List Snapshot} (h : l.NoDoneShown)
    (hline : l.line = current :: line) : Link.NoDoneShown { l with current, line } where
  status := h.status
  current := h.line current (hline ▸ List.mem_cons_self)
  line s hs := h.line s (hline ▸ List.mem_cons_of_mem _ hs)

/-- Another register value, as long as it does not say DONE. -/
theorem Link.NoDoneShown.script {script : Script} {log : List Event} (h : l.NoDoneShown)
    (hstatus : script.status = l.script.status ∨ script.status = controllerRdyForCmd) :
    Link.NoDoneShown { l with script, log } where
  status := by
    obtain heq | heq := hstatus
    · exact heq ▸ h.status
    · exact heq ▸ by decide
  current := h.current
  line := h.line

/-- What happens to the snapshots is nothing to the script. -/
theorem Progress.congr {l' : Link} (h : Progress l id c b f) (hscript : l'.script = l.script)
    (hshown : l.NoDoneShown → l'.NoDoneShown) : Progress l' id c b f := by
  cases h with
  | unread hnone howes => exact .unread (hshown hnone) (hscript ▸ howes)
  | begun hnone hwire hpc hexec => exact .begun (hshown hnone) hwire (hscript ▸ hpc) (hscript ▸ hexec)
  | finished hnone hwire hpc => exact .finished (hshown hnone) hwire (hscript ▸ hpc)
  | halted _ _ hnone hpc => exact .halted _ _ (hshown hnone) (hscript ▸ hpc)
  | done hwire hpc => exact .done hwire (hscript ▸ hpc)

theorem Progress.halt (h : Progress l id c b f) :
    Progress { l with script := { l.script with pc := .terminated } } id c b f := by
  have hshown : l.NoDoneShown →
      Link.NoDoneShown { l with script := { l.script with pc := .terminated } } :=
    fun hnone => ⟨hnone.status, hnone.current, hnone.line⟩
  cases h with
  | unread hnone howes => exact .halted _ _ (hshown hnone) rfl
  | begun hnone hwire hpc hexec => exact .halted _ _ (hshown hnone) rfl
  | finished hnone hwire hpc => exact .halted _ _ (hshown hnone) rfl
  | halted _ _ hnone hpc => exact .halted _ _ (hshown hnone) rfl
  | done hwire hpc => exact .done hwire (.inr rfl)

/-- **The script's step.**  It begins the command once and finishes it once. -/
theorem Progress.script (h : Progress l id c b f) (hregular : c.wire ∉ realtimeCommands)
    (hstop : c ≠ .stopScript) {script : Script} {events : List Event}
    (hstep : l.script.step c.wire id = (script, events)) (log : List Event) :
    Progress { l with script, log } id c (b + events.count (.began id c.wire))
      (f + events.count (.finished id c.wire)) := by
  have hwire : c.wire ≠ 255 := fun heq => hstop (CommandType.wire_eq_stop heq)
  cases h with
  | unread hnone howes =>
    unfold Script.step at hstep
    split at hstep
    case h_1 hpc =>
      cases hstep
      exact .unread (hnone.script (.inr rfl)) (fun h => h)
    case h_2 hpc =>
      rw [if_neg hregular] at hstep
      by_cases hzero : c.wire = 0
      · rw [if_pos hzero] at hstep
        cases hstep
        exact .unread (hnone.script (.inl rfl)) (fun h => h)
      · rw [if_neg hzero] at hstep
        cases hexec : l.script.executingCmd with
        | true =>
          rw [hexec, if_pos rfl] at hstep
          cases hstep
          exact .unread (hnone.script (.inl rfl)) howes
        | false =>
          rw [hexec, if_neg (by decide)] at hstep
          cases hstep
          have hbegan : [Event.began id c.wire].count (.began id c.wire) = 1 := by simp
          have hfinished : [Event.began id c.wire].count (.finished id c.wire) = 0 := by simp
          rw [hbegan, hfinished]
          exact .begun (hnone.script (.inl rfl)) hzero rfl rfl
    case h_3 cmd m hpc =>
      have hcmd : cmd = 255 := by
        rw [hpc] at howes
        exact Decidable.not_not.1 howes
      subst hcmd
      rw [if_pos rfl] at hstep
      cases hstep
      have hbegan : [Event.finished m 255].count (.began id c.wire) = 0 := by simp
      have hfinished : [Event.finished m 255].count (.finished id c.wire) = 0 := by
        simp [hwire.symm]
      rw [hbegan, hfinished]
      exact .unread (hnone.script (.inl rfl)) (fun h => h)
    case h_4 hpc =>
      rw [hpc] at howes
      exact absurd trivial howes
    case h_5 hpc =>
      cases hstep
      exact .unread (hnone.script (.inr rfl)) (fun h => h)
    case h_6 hpc =>
      cases hstep
      exact .unread (hnone.script (.inl rfl)) howes
  | begun hnone hzero hpc hexec =>
    simp only [Script.step, hpc, if_neg hwire] at hstep
    cases hstep
    have hbegan : [Event.finished id c.wire].count (.began id c.wire) = 0 := by simp
    have hfinished : [Event.finished id c.wire].count (.finished id c.wire) = 1 := by simp
    rw [hbegan, hfinished]
    exact .finished (hnone.script (.inl rfl)) hzero rfl
  | finished hnone hzero hpc =>
    simp only [Script.step, hpc, if_neg hregular] at hstep
    cases hstep
    exact .done hzero (.inl ⟨rfl, rfl⟩)
  | halted _ _ hnone hpc =>
    simp only [Script.step, hpc] at hstep
    cases hstep
    exact .halted _ _ (hnone.script (.inl rfl)) hpc
  | done hzero hpc =>
    obtain ⟨hpc, hexec⟩ | hpc := hpc
    · simp only [Script.step, hpc, if_neg hregular, if_neg hzero, hexec, if_true] at hstep
      cases hstep
      exact .done hzero (.inl ⟨hpc, hexec⟩)
    · simp only [Script.step, hpc] at hstep
      cases hstep
      exact .done hzero (.inr hpc)

/-- A DONE that the driver sees is the command's own. -/
theorem Progress.of_done (h : Progress l id c b f) (hdone : l.current.status = controllerDoneWithCmd) :
    c.wire ≠ 0 ∧ (l.script.pc = .loop ∧ l.script.executingCmd = true ∨ l.script.pc = .terminated) ∧
      b = 1 ∧ f = 1 := by
  cases h with
  | unread hnone => exact absurd hdone hnone.current
  | begun hnone => exact absurd hdone hnone.current
  | finished hnone => exact absurd hdone hnone.current
  | halted _ _ hnone => exact absurd hdone hnone.current
  | done hwire hpc => exact ⟨hwire, hpc, rfl, rfl⟩

theorem Served.of_done (h : Waits l id c) (hdone : l.current.status = controllerDoneWithCmd) :
    Served l id c := by
  obtain ⟨before, since, hlog, hprogress⟩ := h.progress
  obtain ⟨hwire, hpc, hbegan, hfinished⟩ := hprogress.of_done hdone
  exact ⟨h.register, h.regular, hwire, hpc, before, since, hlog, hbegan, hfinished⟩

/-- Once it is done the script leaves the command alone. -/
theorem Served.script (h : Served l id c) : l.script.step l.register l.author = (l.script, []) := by
  obtain ⟨hpc, hexec⟩ | hpc := h.pc
  · simp only [Script.step, hpc, h.register, if_neg h.regular, if_neg h.nonzero, hexec, if_true]
  · simp only [Script.step, hpc]

theorem Served.congr {l' : Link} (h : Served l id c) (hregister : l'.register = l.register)
    (hlog : l'.log = l.log) (hscript : l'.script = l.script) : Served l' id c :=
  ⟨hregister ▸ h.register, h.regular, h.nonzero, hscript ▸ h.pc, hlog ▸ h.ranOnce⟩

theorem Waits.congr {l' : Link} (h : Waits l id c) (hregister : l'.register = l.register)
    (hauthor : l'.author = l.author) (hlog : l'.log = l.log) (hscript : l'.script = l.script)
    (hshown : l.NoDoneShown → l'.NoDoneShown) : Waits l' id c := by
  obtain ⟨before, since, hsince, hprogress⟩ := h.progress
  exact ⟨hregister ▸ h.register, hauthor ▸ h.author, h.notStop, h.regular, before, since,
    hlog ▸ hsince, hprogress.congr hscript hshown⟩

theorem Waits.halt (h : Waits l id c) :
    Waits { l with script := { l.script with pc := .terminated } } id c := by
  obtain ⟨before, since, hsince, hprogress⟩ := h.progress
  exact ⟨h.register, h.author, h.notStop, h.regular, before, since, hsince, hprogress.halt⟩

theorem Waits.script (h : Waits l id c) {script : Script} {events : List Event}
    (hstep : l.script.step l.register l.author = (script, events)) :
    Waits { l with script, log := l.log ++ events } id c := by
  obtain ⟨before, since, hlog, hprogress⟩ := h.progress
  rw [h.register, h.author] at hstep
  refine ⟨h.register, h.author, h.notStop, h.regular, before, since ++ events, ?_, ?_⟩
  · rw [hlog, List.append_assoc, List.cons_append]
  · rw [List.count_append, List.count_append]
    exact hprogress.script h.regular h.notStop hstep _

end

/-! ## Every run -/

/-- What is known of the command the call is about. -/
def Link.Tracks (l : Link) : Prop :=
  match l.driver with
  | .done _ id c => Waits l id c
  | .stopping _ _ c => c = .stopScript
  | .clear id c => c ≠ .stopScript → Served l id c
  | _ => True

/-- No call returns among `events`. -/
def Silent (events : List Event) : Prop := ∀ id c, .returnedOk id c ∉ events

theorem Script.step_silent {script script' : Script} {cmd id : Nat} {events : List Event}
    (h : script.step cmd id = (script', events)) : Silent events := by
  intro m c hmem
  unfold Script.step at h
  cases hpc : script.pc <;> simp only [hpc] at h
  case start | signalReady | terminated =>
    cases h
    exact absurd hmem List.not_mem_nil
  case loop | process | signalDone =>
    split_ifs at h <;> cases h <;> simp at hmem

theorem Acknowledged.append {log events : List Event} (h : Acknowledged log)
    (hsilent : Silent events) : Acknowledged (log ++ events) := by
  intro before after id c heq hstop
  obtain ⟨mid, -, hevents⟩ | ⟨mid, hlog, hmid⟩ := List.append_eq_append_iff.1 heq
  · exact absurd (hevents ▸ by simp) (hsilent id c)
  · obtain ⟨-, hevents⟩ | ⟨rest, hrest, -⟩ := List.cons_eq_append_iff.1 hmid
    · exact absurd (hevents ▸ List.mem_cons_self) (hsilent id c)
    · exact h before rest id c (hrest ▸ hlog) hstop

theorem Acknowledged.returnedOk {log : List Event} (h : Acknowledged log) {id : Nat}
    {c : CommandType} (hran : c ≠ .stopScript → RanOnce log id c) :
    Acknowledged (log ++ [.returnedOk id c]) := by
  intro before after m d heq hstop
  obtain rfl | ⟨rest, last, rfl⟩ := after.eq_nil_or_concat'
  · obtain ⟨rfl, hlast⟩ := List.append_inj' heq rfl
    cases hlast
    exact hran hstop
  · rw [← List.cons_append, ← List.append_assoc] at heq
    exact h before rest m d (List.append_inj' heq rfl).1 hstop

namespace Link

theorem poll_tracks {l : Link} {expired : Bool} {driver : Driver} (h : l.Tracks)
    (hpoll : l.driver.poll l.current expired = some driver) : Tracks { l with driver } := by
  unfold Tracks at h
  cases hdriver : l.driver with
  | idle | write | refused | clear =>
    rw [hdriver] at hpoll
    cases hpoll
  | runtime mode c | running mode c =>
    rw [hdriver] at hpoll
    cases hpoll
    split_ifs <;> trivial
  | ready check mode c =>
    rw [hdriver] at hpoll
    cases check <;> cases hpoll <;> split_ifs <;> trivial
  | stopping check id c =>
    rw [hdriver] at hpoll h
    cases check <;> cases hpoll <;> split_ifs
    all_goals first | trivial | exact h | exact fun hstop => absurd h hstop
  | done check id c =>
    rw [hdriver] at hpoll h
    have hwaits : ∀ driver, Waits { l with driver } id c := fun _ =>
      h.congr rfl rfl rfl rfl fun hnone => ⟨hnone.status, hnone.current, hnone.line⟩
    cases check with
    | state =>
      cases hpoll
      by_cases hdone : l.current.status = controllerDoneWithCmd
      · rw [if_pos hdone]
        exact fun _ => (Served.of_done h hdone).congr rfl rfl rfl
      · rw [if_neg hdone]
        exact hwaits _
    | running | safety | deadline =>
      cases hpoll
      split_ifs <;> first | trivial | exact hwaits _

/-- Acknowledged so far, with the call's command tracked. -/
def Sound (l : Link) : Prop := Acknowledged l.log ∧ l.Tracks

theorem send_sound {l l' : Link} {sent : Bool} (h : l.Sound) (hclean : l.WritesClean (.send sent))
    (hsend : l.send sent = some l') : l'.Sound := by
  obtain ⟨hack, htracks⟩ := h
  have hwrote : ∀ id c, Acknowledged (l.log ++ [.wrote id c]) := fun id c =>
    hack.append fun m d hmem => by simp at hmem
  unfold Link.send at hsend
  split at hsend
  case h_1 mode c hdriver =>
    cases hsend
    refine ⟨hwrote _ _, ?_⟩
    cases mode with
    | realtime => trivial
    | command =>
      by_cases hstop : c = .stopScript
      · subst hstop
        exact rfl
      · unfold WritesClean at hclean
        rw [hdriver] at hclean
        obtain ⟨hregular, howes, hnone⟩ := hclean hstop
        simp only [if_neg hstop]
        show Waits _ (l.writes + 1) c
        exact ⟨rfl, rfl, hstop, hregular, l.log, [], rfl,
          .unread ⟨hnone.status, hnone.current, hnone.line⟩ howes⟩
  case h_2 hdriver =>
    cases hsend
    exact ⟨hack, trivial⟩
  case h_3 id c hdriver =>
    cases hsend
    rw [Tracks, hdriver] at htracks
    exact ⟨hack.returnedOk fun hstop => (htracks hstop).ranOnce, trivial⟩
  case h_4 | h_5 | h_6 =>
    cases hsend
    exact ⟨hack, trivial⟩
  case h_7 => cases hsend

/-- A step of the script or of the snapshots leaves the call where it is. -/
theorem tracks_of_driver {l l' : Link} (h : l.Tracks) (hdriver : l'.driver = l.driver)
    (hwaits : ∀ id c, Waits l id c → Waits l' id c)
    (hserved : ∀ id c, Served l id c → Served l' id c) : l'.Tracks := by
  unfold Tracks at h ⊢
  rw [hdriver]
  split at h
  · exact hwaits _ _ h
  · exact h
  · exact fun hstop => hserved _ _ (h hstop)
  · trivial

/-- **The step lemma.** -/
theorem step_sound {l l' : Link} {a : LinkAct} (h : l.Sound) (hclean : l.WritesClean a)
    (hstep : l.step a = some l') : l'.Sound := by
  cases a with
  | call mode c =>
    obtain ⟨-, heq⟩ := Option.ite_none_right_eq_some.1 hstep
    cases heq
    exact ⟨h.1, trivial⟩
  | poll expired =>
    obtain ⟨driver, hpoll, rfl⟩ := Option.map_eq_some_iff.1 hstep
    exact ⟨h.1, poll_tracks h.2 hpoll⟩
  | send sent => exact send_sound h hclean hstep
  | script =>
    obtain ⟨script, events, hscript⟩ : ∃ script events,
        l.script.step l.register l.author = (script, events) := ⟨_, _, rfl⟩
    simp only [Link.step, hscript, Option.some.injEq] at hstep
    subst hstep
    refine ⟨h.1.append (Script.step_silent hscript), tracks_of_driver h.2 rfl ?_ ?_⟩
    · exact fun id c hwaits => hwaits.script hscript
    · intro id c hserved
      rw [hserved.script] at hscript
      cases hscript
      exact hserved.congr rfl (List.append_nil _) rfl
  | sample runtime safety =>
    cases hstep
    refine ⟨h.1, tracks_of_driver h.2 rfl ?_ ?_⟩
    · exact fun id c hwaits =>
        hwaits.congr rfl rfl rfl rfl fun hnone => hnone.sample runtime safety
    · exact fun id c hserved => hserved.congr rfl rfl rfl
  | deliver =>
    simp only [Link.step] at hstep
    split at hstep
    · cases hstep
    · next current line hline =>
      cases hstep
      refine ⟨h.1, tracks_of_driver h.2 rfl ?_ ?_⟩
      · exact fun id c hwaits =>
          hwaits.congr rfl rfl rfl rfl fun hnone => hnone.deliver hline
      · exact fun id c hserved => hserved.congr rfl rfl rfl
  | halt =>
    cases hstep
    refine ⟨h.1, tracks_of_driver h.2 rfl ?_ ?_⟩
    · exact fun id c hwaits => hwaits.halt
    · exact fun id c hserved =>
        ⟨hserved.register, hserved.regular, hserved.nonzero, .inr rfl, hserved.ranOnce⟩
  | upload =>
    obtain ⟨hidle, heq⟩ := Option.ite_none_right_eq_some.1 hstep
    cases heq
    refine ⟨h.1, ?_⟩
    show Link.Tracks { l with script := _ }
    unfold Tracks
    rw [show ({ l with script := { l.script with pc := Pc.start, executingCmd := false } } :
      Link).driver = .idle from hidle]
    trivial

end Link

/-- **The handshake.**  In every run in which `send_command` writes no realtime command,
and none while an earlier DONE is still to come, each command it reports done ran once
between its write and the report. -/
theorem handshake {l : Link} (h : (linkSystem.restrict Link.WritesClean).Reachable l) :
    Acknowledged l.log := by
  have hsound : l.Sound := by
    refine System.Reachable.invariant ?_ ?_ h
    · rintro l ⟨status, current, rfl⟩
      refine ⟨fun before after id c heq => ?_, trivial⟩
      simp [Link.start] at heq
    · rintro l a l' hl ⟨hstep, hclean⟩
      exact Link.step_sound hl hclean hstep
  exact hsound.1

/-- The robot is running and the script READY. -/
def readySnapshot : Snapshot := ⟨controllerRdyForCmd, 2, 0⟩

/-- `send_command(c)` up to its write. -/
def writes (c : CommandType) : List LinkAct :=
  [.call .command c, .poll false, .poll false, .poll false, .send true]

/-- The script's last statement reaches the driver. -/
def shown : List LinkAct := [.script, .sample 2 0, .deliver]

/-- The driver sees DONE and clears the register, and the script reads that. -/
def completes : List LinkAct :=
  [.script, .script] ++ (shown ++ ([.poll false, .send true, .script] ++ shown))

/-- The driver's time is up. -/
def timesOut : List LinkAct := [.poll false, .poll false, .poll false, .poll true, .send true]

/-- A move and a query, each done before the next command. -/
theorem handshake_moveThenQuery :
    ∃ l : Link, (.returnedOk 3 .isSteady) ∈ l.log ∧ Acknowledged l.log := by
  have hrun : (([LinkAct.script] ++ writes .moveJ ++ completes ++ writes .isSteady ++
      completes).foldlM (System.guarded Link.WritesClean Link.step)
        (.start controllerRdyForCmd readySnapshot)).map Link.log =
      some [.wrote 1 .moveJ, .began 1 1, .finished 1 1, .returnedOk 1 .moveJ, .wrote 3 .isSteady,
        .began 3 47, .finished 3 47, .returnedOk 3 .isSteady] := by decide +kernel
  obtain ⟨l, hl, hlog⟩ := Option.map_eq_some_iff.1 hrun
  exact ⟨l, by rw [hlog]; simp, handshake (System.reachable_guarded ⟨_, _, rfl⟩ hl)⟩

/-- The driver gives up on a long move and sends a query: the move's DONE is taken for the
query's, which never runs. -/
theorem timed_out_move_acknowledges_query :
    ¬ ∀ l, linkSystem.Reachable l → Acknowledged l.log := by
  intro hclaim
  have hrun : (([LinkAct.script] ++ writes .moveJ ++ [LinkAct.script] ++ timesOut ++ writes .isSteady ++
      [LinkAct.script] ++ shown ++ [LinkAct.poll false, .send true]).foldlM Link.step
        (.start controllerRdyForCmd readySnapshot)).map Link.log =
      some [.wrote 1 .moveJ, .began 1 1, .wrote 3 .isSteady, .finished 1 1,
        .returnedOk 3 .isSteady] := by decide +kernel
  obtain ⟨l, hl, hlog⟩ := Option.map_eq_some_iff.1 hrun
  obtain ⟨before, since, heq, hbegan, -⟩ :=
    hclaim l (System.reachable_ofFun ⟨_, _, rfl⟩ hl)
      [.wrote 1 .moveJ, .began 1 1, .wrote 3 .isSteady, .finished 1 1] [] 3 .isSteady hlog (by decide)
  have hmem : Event.began 3 47 ∈ before ++ .wrote 3 .isSteady :: since := by
    have hsince : Event.began 3 47 ∈ since := List.count_pos_iff.1 (hbegan ▸ Nat.one_pos)
    simp [hsince]
  rw [← heq] at hmem
  exact absurd hmem (by decide)

end UrRobot
