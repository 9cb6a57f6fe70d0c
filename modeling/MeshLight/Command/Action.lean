import MeshLight.Command.Envelope
import MeshLight.Command.Name
import MeshLight.Light
import MeshLight.Mesh
import MeshLight.Report

/-!
# MeshLight.Command.Action

What a command asks for, once all of its fields have been checked.
-/

namespace MeshLight

/-- A command with its fields. The delay of a power command is in seconds, zero for none. -/
inductive Action where
  | setPower (group : LightGroup) (on : Bool) (delaySecs : Nat)
  | setColor (group : LightGroup) (color : Rgb)
  | setPin (name : String) (high : Bool)
  | lightStatus
  | pinStatus
  | setReportInterval (interval : ReportInterval)
  | setLinkMode (mode : LinkMode)
  | upgrade
  | factoryReset
  | reboot
  deriving DecidableEq

namespace Action

/-- The light group that a command is about. -/
def lightGroup (e : Envelope) : Except CommandFault LightGroup := do
  match LightGroup.ofName? (← e.object) with
  | some group => .ok group
  | none => .error .invalidObject

/-- A delay in seconds, zero if there is none. -/
def delay (e : Envelope) : Except CommandFault Nat := do
  let secs := (← e.optionalInt "delay").getD 0
  if 0 ≤ secs ∧ secs < UInt32.size then .ok secs.toNat else .error (.invalidParameter "delay")

/-- The interval of a report interval command. -/
def interval (e : Envelope) : Except CommandFault ReportInterval := do
  match ReportInterval.ofInt? (← e.int "val") with
  | some interval => .ok interval
  | none => .error (.invalidParameter "val")

/-- The mode of a link mode command. -/
def linkMode (e : Envelope) : Except CommandFault LinkMode := do
  match LinkMode.ofFlags? (← e.string "val") with
  | some mode => .ok mode
  | none => .error (.invalidParameter "val")

/-- Checks the fields of a command. -/
def ofEnvelope (e : Envelope) : Command → Except CommandFault Action
  | .onOff => do
    let group ← lightGroup e
    let on ← e.boolean "val"
    let delaySecs ← delay e
    return .setPower group on delaySecs
  | .changeColor => do
    let group ← lightGroup e
    let red ← e.channel "r"
    let green ← e.channel "g"
    let blue ← e.channel "b"
    return .setColor group ⟨red, green, blue⟩
  | .setPin => do
    let name ← e.object
    let high ← e.boolean "val"
    return .setPin name high
  | .lightStatus => .ok .lightStatus
  | .pinStatus => .ok .pinStatus
  | .setReportInterval => do return .setReportInterval (← interval e)
  | .setLinkMode => do return .setLinkMode (← linkMode e)
  | .upgrade => .ok .upgrade
  | .factoryReset => .ok .factoryReset
  | .reboot => .ok .reboot

end Action

end MeshLight
