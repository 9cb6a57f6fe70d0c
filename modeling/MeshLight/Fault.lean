import MeshLight.Text

/-!
# MeshLight.Fault

Why an operation failed, by the part of the node that failed, and what is said about it. A rejected
command also has a code, which is all that its sender learns.
-/

namespace MeshLight

/-- A number inside a message. -/
def decimalText (i : Int) : String := String.ofList (decimalInt i)

inductive SensorFault where
  | busFailed
  | notReady
  deriving DecidableEq

def SensorFault.message : SensorFault → String
  | .busFailed => "bus transaction failed"
  | .notReady => "no sample available"

inductive ActuatorFault where
  | unknownPin
  | gpioFailed
  | stripUpdateFailed
  deriving DecidableEq

def ActuatorFault.message : ActuatorFault → String
  | .unknownPin => "unknown pin"
  | .gpioFailed => "GPIO access failed"
  | .stripUpdateFailed => "LED strip update failed"

/-- The mesh stack refused a request. -/
inductive NetworkFault where
  | invalidArgs
  | invalidState
  | failed
  deriving DecidableEq

def NetworkFault.message : NetworkFault → String
  | .invalidArgs => "invalid arguments"
  | .invalidState => "invalid state"
  | .failed => "stack failure"

/-- A message could not be handed over for sending. -/
inductive TransportFault where
  | noBufs
  | payloadTooLarge
  | sendFailed
  deriving DecidableEq

def TransportFault.message : TransportFault → String
  | .noBufs => "no message buffers"
  | .payloadTooLarge => "payload too large"
  | .sendFailed => "send failed"

/-- The node's service could not be registered. -/
inductive RegistrationFault where
  | invalidName
  | noSlots
  | rejected
  | timeout
  deriving DecidableEq

def RegistrationFault.message : RegistrationFault → String
  | .invalidName => "invalid name"
  | .noSlots => "no service slots"
  | .rejected => "rejected by registrar"
  | .timeout => "timed out"

/-- No peer address could be learned. -/
inductive ProvisioningFault where
  | peerUnknown
  | invalidReply (length : Nat)
  deriving DecidableEq

def ProvisioningFault.message : ProvisioningFault → String
  | .peerUnknown => "peer address unknown"
  | .invalidReply length => "invalid reply (" ++ decimalText length ++ " bytes)"

/-- A command was rejected. -/
inductive CommandFault where
  | invalidParameter (field : String)
  | invalidObject
  | unknownCommand
  | resourceExhausted
  | actuatorFailure (fault : ActuatorFault)
  | failed
  deriving DecidableEq

namespace CommandFault

def message : CommandFault → String
  | invalidParameter field => "invalid parameter '" ++ field ++ "'"
  | invalidObject => "invalid object"
  | unknownCommand => "unknown command"
  | resourceExhausted => "resource exhausted"
  | actuatorFailure fault => "actuator failure: " ++ fault.message
  | failed => "failed"

/-- The code that a response carries. Success is zero. -/
def code : CommandFault → Int
  | invalidParameter _ | invalidObject => -1
  | resourceExhausted => -2
  | unknownCommand | actuatorFailure _ | failed => -3

/-- Naming a pin that does not exist is the sender's mistake; any other actuator fault is not. -/
def ofActuator : ActuatorFault → CommandFault
  | .unknownPin => invalidObject
  | fault => actuatorFailure fault

/-- Arguments that the stack refuses are the sender's mistake; any other refusal is not. -/
def ofNetwork : NetworkFault → CommandFault
  | .invalidArgs => invalidParameter "val"
  | .invalidState | .failed => failed

end CommandFault

/-- Any fault of the running node. -/
inductive Fault where
  | sensor (fault : SensorFault)
  | actuator (fault : ActuatorFault)
  | network (fault : NetworkFault)
  | transport (fault : TransportFault)
  | registration (fault : RegistrationFault)
  | provisioning (fault : ProvisioningFault)
  | command (fault : CommandFault)
  | config (reason : String)
  deriving DecidableEq

/-- What is said about a fault, with the part of the node it comes from. -/
def Fault.message : Fault → String
  | .sensor fault => "sensor: " ++ fault.message
  | .actuator fault => "actuator: " ++ fault.message
  | .network fault => "network: " ++ fault.message
  | .transport fault => "transport: " ++ fault.message
  | .registration fault => "registration: " ++ fault.message
  | .provisioning fault => "provisioning: " ++ fault.message
  | .command fault => "command: " ++ fault.message
  | .config reason => "config: " ++ reason

end MeshLight
