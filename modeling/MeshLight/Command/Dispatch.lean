import MeshLight.Command.Action
import MeshLight.Config.Basic
import MeshLight.Json.Printer
import MeshLight.Prog
import MeshLight.Session

/-!
# MeshLight.Command.Dispatch

Carrying out commands. All fields are checked before anything is done; then the board or the mesh
stack is asked, and only if it complied do timers or settings change. Every command is answered with
an object that holds the code of success or failure.
-/

namespace MeshLight

open MeshLight.Json

/-! ## outcome -/

/-- What became of a command: its answer, and work to be done once that has been sent. There is no
command if the body could not be read or names none. -/
structure Outcome where
  command : Option Command
  code : Int
  response : Members
  followUp : Option Work

namespace Outcome

def accepted (command : Command) (response : Members) (followUp : Option Work) : Outcome :=
  ⟨some command, 0, Members.put "err_code" (.int 0) response, followUp⟩

def rejected (command : Option Command) (fault : CommandFault) : Outcome :=
  ⟨command, fault.code, Members.put "err_code" (.int fault.code) [], none⟩

/-- The body of the answer. -/
def body (o : Outcome) : String := (Value.object o.response).text

/-- The name that the journal gives to the command. -/
def commandName (o : Outcome) : String :=
  match o.command with
  | some c => c.name
  | none => "unknown"

end Outcome

/-! ## answers -/

/-- A flag as a number. -/
def flag (b : Bool) : Value := .int (if b then 1 else 0)

/-- A light group in an answer. -/
def lightEntry (group : LightGroup) (status : GroupStatus) : Value :=
  .object <| Members.ofList [
    ("obj", .string group.name),
    ("on_off", flag status.on),
    ("r", .int status.color.red.toNat),
    ("g", .int status.color.green.toNat),
    ("b", .int status.color.blue.toNat)]

/-- A pin in an answer. -/
def pinEntry (p : PinState) : Value :=
  .object <| Members.ofList [("obj", .string p.name), ("val", flag p.high)]

/-- What an action that was carried out leaves behind. -/
structure Effect where
  session : Session
  response : Members
  followUp : Option Work

namespace Action

/-- The longest delay a timer can have, in milliseconds. -/
def longestDelay : Nat := UInt32.size - 1

/-- A delay in seconds as one in milliseconds, cut to the longest. -/
def delayMs (secs : Nat) : Nat := min (secs * 1000) longestDelay

/-- An actuator call whose fault rejects the command. -/
def actuate (call : Prog (Except ActuatorFault α)) : ExceptT CommandFault Prog α := do
  match ← (call : Prog _) with
  | .ok a => return a
  | .error fault => throw (.ofActuator fault)

/-- The entries of the light groups with pixels. -/
def lightEntries : List LightGroup → ExceptT CommandFault Prog (List Value)
  | [] => return []
  | group :: rest => do
    let status ← actuate (Prog.board (.groupStatus group))
    let entries ← lightEntries rest
    return lightEntry group status :: entries

/-- Switches a group, and arms or stops its delayed switch-off. -/
def power (group : LightGroup) (on : Bool) (delaySecs : Nat) :
    ExceptT CommandFault Prog Unit := do
  actuate (Prog.board (.setGroupPower group on))
  if 0 < delaySecs then
    (Prog.timer (.startOnce (.lightOff group) (delayMs delaySecs)) : Prog Unit)
  else
    (Prog.timer (.stop (.lightOff group)) : Prog Unit)

/-- Starts the report timer again with another interval, if it runs. -/
def restartReports (config : Config) (interval : ReportInterval) : Prog Unit := do
  if ← Prog.timer (.isRunning .report) then
    Prog.timer (.stop .report)
    Prog.timer (.startPeriodic .report config.reportInitialDelayMs.toNat interval.period)

/-- Carries out an action. -/
def perform (config : Config) (s : Session) : Action → ExceptT CommandFault Prog Effect
  | .setPower group on delaySecs => do
    power group on delaySecs
    return ⟨s, [], none⟩
  | .setColor group color => do
    actuate (Prog.board (.setGroupColor group color))
    return ⟨s, [], none⟩
  | .setPin name high => do
    actuate (Prog.board (.setPin name high))
    return ⟨s, [], none⟩
  | .lightStatus => do
    let entries ← lightEntries LightGroup.halves
    return ⟨s, [("led_strip_status", .array entries)], none⟩
  | .pinStatus => do
    let pins ← (Prog.board .pins : Prog (List PinState))
    return ⟨s, [("gpio_status", .array (pins.map pinEntry))], none⟩
  | .setReportInterval interval => do
    restartReports config interval
    return ⟨{ s with interval := interval }, [], none⟩
  | .setLinkMode mode => do
    match ← (Prog.mesh (.setLinkMode mode) : Prog (Except NetworkFault Unit)) with
    | .ok _ => return ⟨s, [], none⟩
    | .error fault => throw (.ofNetwork fault)
  | .upgrade => return ⟨s, [], some .startManagement⟩
  | .factoryReset => return ⟨s, [], some (.factoryReset config.resetGraceMs)⟩
  | .reboot => return ⟨s, [], some (.reboot config.rebootGraceMs)⟩

end Action

/-! ## dispatch -/

/-- The command that a body holds, and what it asks for. -/
def readCommand (body : Bytes) : Except (Option Command × CommandFault) (Command × Action) :=
  match Envelope.parse body with
  | .error fault => .error (none, fault)
  | .ok envelope =>
    match Command.ofName? envelope.cmd with
    | none => .error (none, .unknownCommand)
    | some command =>
      match Action.ofEnvelope envelope command with
      | .error fault => .error (some command, fault)
      | .ok action => .ok (command, action)

/-- Reads and carries out a command. A rejected one leaves the session as it was. -/
def dispatch (config : Config) (body : Bytes) (s : Session) : Prog (Session × Outcome) :=
  match readCommand body with
  | .error (command, fault) => return (s, .rejected command fault)
  | .ok (command, action) => do
    match ← (action.perform config s).run with
    | .ok effect => return (effect.session, .accepted command effect.response effect.followUp)
    | .error fault => return (s, .rejected (some command) fault)

end MeshLight
