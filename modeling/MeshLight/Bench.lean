import MeshLight.Board
import MeshLight.Engine

/-!
# MeshLight.Bench

A test bench for the engine. The stack only keeps its settings; lights, pins, indicator and timers
are real; sensor readings are set by hand. Every call that changes something is recorded, and calls
can be made to fail: such a call changes nothing and answers with the fault it was given.
-/

namespace MeshLight

/-! ## faults to order -/

/-- The fault that each kind of call answers with, where one is set. -/
structure Failures where
  setLinkMode : Option NetworkFault
  setPollPeriod : Option NetworkFault
  startJoiner : Option NetworkFault
  setHostName : Option RegistrationFault
  setHostAddress : Option RegistrationFault
  addService : Option RegistrationFault
  enableAutostart : Option RegistrationFault
  removeAll : Option RegistrationFault
  send : Option TransportFault
  respond : Option TransportFault
  setGroupPower : Option ActuatorFault
  setGroupColor : Option ActuatorFault
  groupStatus : Option ActuatorFault
  setPin : Option ActuatorFault
  sample : Option SensorFault
  deriving DecidableEq

def Failures.none : Failures :=
  ⟨.none, .none, .none, .none, .none, .none, .none, .none, .none, .none, .none, .none, .none, .none,
    .none⟩

/-! ## bench -/

/-- A call that was made, and the fault it was answered with by order. -/
structure Recorded where
  call : Call
  fault : Option Fault
  deriving DecidableEq

structure Bench where
  role : Role
  linkMode : LinkMode
  pollPeriod : UInt32
  identity : Identity
  board : Board
  timers : Timers
  failures : Failures
  record : List Recorded
  deriving DecidableEq

namespace Bench

/-- A bench on which nothing has happened and nothing fails. -/
def initial (role : Role) (linkMode : LinkMode) (pollPeriod : UInt32) (identity : Identity)
    (readings : Readings) : Bench where
  role := role
  linkMode := linkMode
  pollPeriod := pollPeriod
  identity := identity
  board := { Board.initial with readings := readings }
  timers := .initial
  failures := .none
  record := []

/-- Records a call. -/
def note (call : Call) (fault : Option Fault) (b : Bench) : Bench :=
  { b with record := b.record ++ [⟨call, fault⟩] }

/-- Records a call that may fail, and carries it out unless it does. -/
def attempt (call : Call) (failure : Option ε) (toFault : ε → Fault) (effect : Bench → Bench)
    (b : Bench) : Except ε Unit × Bench :=
  match failure with
  | some fault => (.error fault, b.note call (some (toFault fault)))
  | none => (.ok (), effect (b.note call none))

/-- Answers a call to the stack. -/
def answerMesh : (c : MeshCall) → Bench → c.Answer × Bench
  | .role, b => (b.role, b)
  | .linkMode, b => (b.linkMode, b)
  | .pollPeriod, b => (b.pollPeriod, b)
  | .identity, b => (b.identity, b)
  | .factoryReset, b => ((), b.note (.mesh .factoryReset) none)
  | c@(.setLinkMode mode), b =>
    b.attempt (.mesh c) b.failures.setLinkMode .network fun b => { b with linkMode := mode }
  | c@(.setPollPeriod ms), b =>
    b.attempt (.mesh c) b.failures.setPollPeriod .network fun b => { b with pollPeriod := ms }
  | c@(.startJoiner), b => b.attempt (.mesh c) b.failures.startJoiner .network id
  | c@(.setHostName _), b => b.attempt (.mesh c) b.failures.setHostName .registration id
  | c@(.setHostAddress _), b => b.attempt (.mesh c) b.failures.setHostAddress .registration id
  | c@(.addService _), b => b.attempt (.mesh c) b.failures.addService .registration id
  | c@(.enableAutostart), b => b.attempt (.mesh c) b.failures.enableAutostart .registration id
  | c@(.removeAll _), b => b.attempt (.mesh c) b.failures.removeAll .registration id
  | c@(.send _), b => b.attempt (.mesh c) b.failures.send .transport id
  | c@(.respond _ _), b => b.attempt (.mesh c) b.failures.respond .transport id

/-- Lets the board answer a call. -/
def askBoard (c : BoardCall) (b : Bench) : c.Answer × Bench :=
  let (reply, board) := Board.answer c b.board
  (reply, { b with board := board })

/-- Records a call and lets the board answer it, unless it is to fail. -/
def attemptBoard (c : BoardCall) (failure : Option ε) (toFault : ε → Fault)
    (refuse : ε → c.Answer) (b : Bench) : c.Answer × Bench :=
  match failure with
  | some fault => (refuse fault, b.note (.board c) (some (toFault fault)))
  | none => (b.note (.board c) none).askBoard c

/-- Answers a call to the board. Samples leave the readings as they were set. -/
def answerBoard : (c : BoardCall) → Bench → c.Answer × Bench
  | .readings, b => (b.board.readings, b)
  | .pins, b => b.askBoard .pins
  | .groupStatus group, b =>
    match b.failures.groupStatus with
    | some fault => (.error fault, b)
    | none => b.askBoard (.groupStatus group)
  | .setGroupPower group on, b =>
    b.attemptBoard (.setGroupPower group on) b.failures.setGroupPower .actuator .error
  | .setGroupColor group color, b =>
    b.attemptBoard (.setGroupColor group color) b.failures.setGroupColor .actuator .error
  | .setPin name high, b => b.attemptBoard (.setPin name high) b.failures.setPin .actuator .error
  | .sample, b => b.attempt (.board .sample) b.failures.sample .sensor id
  | .setIndicator mode, b =>
    (b.note (.board (.setIndicator mode)) none).askBoard (.setIndicator mode)
  | .reboot, b => (b.note (.board .reboot) none).askBoard .reboot
  | .startManagement, b => (b.note (.board .startManagement) none).askBoard .startManagement
  | .delay ms, b => (b.note (.board (.delay ms)) none).askBoard (.delay ms)

/-- Whether a call to the timers only reads. -/
def onlyReads : TimerCall → Bool
  | .isRunning _ | .now => true
  | _ => false

/-- Answers a call. -/
def answer : (c : Call) → Bench → c.Answer × Bench
  | .mesh c, b => b.answerMesh c
  | .board c, b => b.answerBoard c
  | .timer c, b =>
    let (reply, timers) := Timers.answer c b.timers
    let b := if onlyReads c then b else b.note (.timer c) none
    (reply, { b with timers := timers })
  | .emit notice, b => ((), b.note (.emit notice) none)

end Bench

/-! ## trial -/

/-- An engine on a bench. -/
structure Trial where
  engine : Engine
  bench : Bench

namespace Trial

/-- Lets the engine run a program. -/
def runEngine (program : Engine → Prog Engine) (t : Trial) : Trial :=
  let (engine, bench) := (program t.engine).run Bench.answer t.bench
  ⟨engine, bench⟩

def start (t : Trial) : Trial := t.runEngine Engine.start

def handle (e : Event) (t : Trial) : Trial := t.runEngine (Engine.handle e)

/-- Lets time pass in one step and deals with the timers that are due. -/
def tick (elapsed : Nat) (t : Trial) : Trial :=
  let (due, timers) := t.bench.timers.tick elapsed
  { t with bench := { t.bench with timers := timers } }.runEngine
    (Engine.handleAll (EventQueue.empty.pushTimers due).events)

/-- Lets time pass in steps of the given length, the last one shorter if it has to be. Of no more
steps than `fuel`. -/
def tickThrough : (fuel total step : Nat) → Trial → Trial
  | 0, _, _, t => t
  | fuel + 1, total, step, t =>
    if total = 0 then t
    else tickThrough fuel (total - min step total) step (t.tick (min step total))

/-- Lets time pass in steps of the given length. -/
def runFor (total step : Nat) (t : Trial) : Trial := tickThrough total total step t

/-- Takes the record of calls so far. -/
def takeRecord (t : Trial) : List Recorded × Trial :=
  (t.bench.record, { t with bench := { t.bench with record := [] } })

end Trial

end MeshLight
