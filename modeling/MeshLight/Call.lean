import MeshLight.Identity
import MeshLight.Indicator
import MeshLight.Notice
import MeshLight.Timers

/-!
# MeshLight.Call

What the node asks of its surroundings, each call with the type of its answer.
-/

namespace MeshLight

/-- Calls to the mesh stack: standing, commissioning, registration of services, and messages. -/
inductive MeshCall where
  | role
  | linkMode
  | setLinkMode (mode : LinkMode)
  | pollPeriod
  | setPollPeriod (ms : UInt32)
  | identity
  | startJoiner
  | factoryReset
  | setHostName (name : String)
  | setHostAddress (address : Address)
  | addService (service : ServiceRecord)
  | enableAutostart
  | removeAll (timeoutMs : UInt32)
  | send (request : Request)
  | respond (token : UInt32) (payload : Bytes)
  deriving DecidableEq

@[reducible] def MeshCall.Answer : MeshCall → Type
  | .role => Role
  | .linkMode => LinkMode
  | .setLinkMode _ => Except NetworkFault Unit
  | .pollPeriod => UInt32
  | .setPollPeriod _ => Except NetworkFault Unit
  | .identity => Identity
  | .startJoiner => Except NetworkFault Unit
  | .factoryReset => Unit
  | .setHostName _ => Except RegistrationFault Unit
  | .setHostAddress _ => Except RegistrationFault Unit
  | .addService _ => Except RegistrationFault Unit
  | .enableAutostart => Except RegistrationFault Unit
  | .removeAll _ => Except RegistrationFault Unit
  | .send _ => Except TransportFault Unit
  | .respond _ _ => Except TransportFault Unit

/-- Calls to the board: lights, pins, indicator, sensors, and the system itself. -/
inductive BoardCall where
  | setGroupPower (group : LightGroup) (on : Bool)
  | setGroupColor (group : LightGroup) (color : Rgb)
  | groupStatus (group : LightGroup)
  | setPin (name : String) (high : Bool)
  | pins
  | setIndicator (mode : IndicatorMode)
  | sample
  | readings
  | reboot
  | startManagement
  | delay (ms : UInt32)
  deriving DecidableEq

@[reducible] def BoardCall.Answer : BoardCall → Type
  | .setGroupPower _ _ => Except ActuatorFault Unit
  | .setGroupColor _ _ => Except ActuatorFault Unit
  | .groupStatus _ => Except ActuatorFault GroupStatus
  | .setPin _ _ => Except ActuatorFault Unit
  | .pins => List PinState
  | .setIndicator _ => Unit
  | .sample => Except SensorFault Unit
  | .readings => Readings
  | .reboot => Unit
  | .startManagement => Unit
  | .delay _ => Unit

/-- Calls to the timers and their clock. -/
inductive TimerCall where
  | startPeriodic (timer : Timer) (first period : Nat)
  | startOnce (timer : Timer) (delay : Nat)
  | stop (timer : Timer)
  | isRunning (timer : Timer)
  | now
  deriving DecidableEq

@[reducible] def TimerCall.Answer : TimerCall → Type
  | .startPeriodic _ _ _ => Unit
  | .startOnce _ _ => Unit
  | .stop _ => Unit
  | .isRunning _ => Bool
  | .now => Nat

/-- The timers answer a call. -/
def Timers.answer : (c : TimerCall) → Timers → c.Answer × Timers
  | .startPeriodic timer first period, ts => ((), ts.startPeriodic timer first period)
  | .startOnce timer delay, ts => ((), ts.startOnce timer delay)
  | .stop timer, ts => ((), ts.stop timer)
  | .isRunning timer, ts => (ts.isRunning timer, ts)
  | .now, ts => (ts.now, ts)

inductive Call where
  | mesh (call : MeshCall)
  | board (call : BoardCall)
  | timer (call : TimerCall)
  | emit (notice : Notice)
  deriving DecidableEq

@[reducible] def Call.Answer : Call → Type
  | .mesh c => c.Answer
  | .board c => c.Answer
  | .timer c => c.Answer
  | .emit _ => Unit

end MeshLight
