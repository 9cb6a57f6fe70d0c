import MeshLight.Engine
import MeshLight.Script.Fields

/-!
# MeshLight.Script.Names

The names under which the cases of a type are written in scripts and records.
-/

namespace MeshLight.Script

open MeshLight.Json

/-- A type whose cases have names. -/
class Named (α : Type) where
  table : List (String × α)

/-- The case with the given name. -/
def ofName? [Named α] (name : String) : Option α := (Named.table : List (String × α)).lookup name

/-- Reads a case. -/
def named? [Named α] (v : Value) : Option α := do ofName? (← v.string?)

/-- The name of a case, if it has one. -/
def nameOf [Named α] [DecidableEq α] (a : α) : String :=
  match (Named.table : List (String × α)).find? (·.2 = a) with
  | some (n, _) => n
  | none => ""

/-- Writes a case. -/
def name [Named α] [DecidableEq α] (a : α) : Value := .string (nameOf a)

/-! ## mesh -/

instance : Named Role := ⟨[("Disabled", .disabled), ("Detached", .detached), ("Child", .child),
  ("Router", .router), ("Leader", .leader)]⟩

instance : Named JoinerState := ⟨[("Idle", .idle), ("Discover", .discover), ("Connect", .connect),
  ("Connected", .connected), ("Entrust", .entrust), ("Joined", .joined)]⟩

instance : Named Method := ⟨[("Get", .get), ("Put", .put), ("Post", .post)]⟩

instance : Named ReplyKind :=
  ⟨[("Provisioning", .provisioning), ("Status", .status), ("Trigger", .trigger)]⟩

/-! ## session -/

instance : Named SessionState := ⟨[.disconnected, .connecting, .connected].map fun s => (s.name, s)⟩

instance : Named RegistrationState :=
  ⟨[.notStarted, .inProgress, .registered, .failed].map fun s => (s.name, s)⟩

instance : Named RegistrationAdvance :=
  ⟨[("FirstRegistration", .firstSuccess), ("Unchanged", .unchanged), ("Failed", .failed)]⟩

instance : Named JoinRefusal :=
  ⟨[("AlreadyJoined", .alreadyJoined), ("AlreadyJoining", .alreadyJoining)]⟩

/-- The work that carries nothing with it. -/
instance : Named Work := ⟨[("IndicateConnected", .indicateConnected),
  ("IndicateDisconnected", .indicateDisconnected), ("IndicateJoining", .indicateJoining),
  ("IndicateIdle", .indicateIdle), ("SendProvisioning", .sendProvisioning),
  ("ReleasePollBoost", .releasePollBoost), ("BeginRegistration", .beginRegistration),
  ("ReportStatus", .reportStatus), ("StartManagement", .startManagement)]⟩

/-! ## inputs, lights and timers -/

instance : Named TriggerKind :=
  ⟨[.infraredSensor, .encoderButton, .encoderRotation].map fun k => (k.name, k)⟩

instance : Named Button := ⟨[("Report", .report), ("Join", .join), ("Infrared", .infrared),
  ("QdecPush", .encoder)]⟩

instance : Named Gesture := ⟨[("Short", .short), ("Long", .long)]⟩

instance : Named LightGroup := ⟨[.all, .left, .right].map fun g => (g.name, g)⟩

instance : Named Timer := ⟨("Report", .report) ::
  [.all, .left, .right].map fun (g : LightGroup) => ("LightOff:" ++ g.name, .lightOff g)⟩

instance : Named Command := ⟨[("OnOff", .onOff), ("ChangeColor", .changeColor),
  ("SetGpio", .setPin), ("GetLedStatus", .lightStatus), ("GetGpioStatus", .pinStatus),
  ("SetReportInterval", .setReportInterval), ("SetLinkMode", .setLinkMode),
  ("Upgrade", .upgrade), ("FactoryReset", .factoryReset), ("Reboot", .reboot)]⟩

/-! ## faults -/

instance : Named SensorFault := ⟨[("BusFailed", .busFailed), ("NotReady", .notReady)]⟩

instance : Named ActuatorFault := ⟨[("UnknownPin", .unknownPin), ("GpioFailed", .gpioFailed),
  ("StripUpdateFailed", .stripUpdateFailed)]⟩

instance : Named NetworkFault :=
  ⟨[("InvalidArgs", .invalidArgs), ("InvalidState", .invalidState), ("Failed", .failed)]⟩

instance : Named TransportFault := ⟨[("NoBufs", .noBufs), ("PayloadTooLarge", .payloadTooLarge),
  ("SendFailed", .sendFailed)]⟩

instance : Named RegistrationFault := ⟨[("InvalidName", .invalidName), ("NoSlots", .noSlots),
  ("Rejected", .rejected), ("Timeout", .timeout)]⟩

/-- A rejection with the field that caused it. -/
def commandFaultName : CommandFault → String
  | .invalidParameter field => "InvalidParameter(\"" ++ field ++ "\")"
  | .invalidObject => "InvalidObject"
  | .unknownCommand => "UnknownCommand"
  | .resourceExhausted => "ResourceExhausted"
  | .actuatorFailure _ => "ActuatorFailure"
  | .failed => "Failed"

def faultName : Fault → String
  | .sensor f => nameOf f
  | .actuator f => nameOf f
  | .network f => nameOf f
  | .transport f => nameOf f
  | .registration f => nameOf f
  | .provisioning .peerUnknown => "PeerUnknown"
  | .provisioning (.invalidReply _) => "InvalidReply"
  | .command f => commandFaultName f
  | .config reason => reason

end MeshLight.Script
