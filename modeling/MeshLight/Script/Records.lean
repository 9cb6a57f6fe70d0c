import MeshLight.Bench
import MeshLight.Script.Values

/-!
# MeshLight.Script.Records

What a script leaves behind: notices, recorded calls, and the state of the engine; and the faults
that a script orders.
-/

namespace MeshLight.Script

open MeshLight.Json

/-! ## notices -/

def notice : Notice → Value
  | .started s => .array [.string "Started", name s]
  | .sessionChanged a b => .array [.string "SessionChanged", name a, name b]
  | .peerDiscovered a => .array [.string "PeerDiscovered", address a]
  | .statusReported a => .array [.string "StatusReported", address a]
  | .triggerSent k b => .array [.string "TriggerSent", name k, .bool b]
  | .commandHandled n c => .array [.string "CommandHandled", .string n, .int c]
  | .registrationChanged s => .array [.string "RegistrationChanged", name s]
  | .testingChanged b => .array [.string "TestingModeChanged", .bool b]
  | .joinGaveUp n => .array [.string "JoinGaveUp", nat n]

def notice? : List Value → Option Notice
  | [.string "Started", s] => (named? s).map .started
  | [.string "SessionChanged", a, b] => do some (.sessionChanged (← named? a) (← named? b))
  | [.string "PeerDiscovered", a] => (address? a).map .peerDiscovered
  | [.string "StatusReported", a] => (address? a).map .statusReported
  | [.string "TriggerSent", k, b] => do some (.triggerSent (← named? k) (← b.bool?))
  | [.string "CommandHandled", n, c] => do some (.commandHandled (← n.string?) (← int? c))
  | [.string "RegistrationChanged", s] => (named? s).map .registrationChanged
  | [.string "TestingModeChanged", b] => b.bool?.map .testingChanged
  | [.string "JoinGaveUp", n] => (nat? n).map .joinGaveUp
  | _ => none

def journalLine (l : JournalLine) : Value :=
  let level := match l.level with
    | .info => "INFO"
    | .warn => "WARN"
  .array [.string level, .string l.text]

/-! ## calls -/

def meshCall : MeshCall → List Value
  | .setLinkMode m => [.string "set_link_mode", linkMode m]
  | .setPollPeriod ms => [.string "set_poll", nat ms.toNat]
  | .startJoiner => [.string "start_joiner"]
  | .factoryReset => [.string "factory_reset"]
  | .setHostName n => [.string "host_name", .string n]
  | .setHostAddress a => [.string "host_address", address a]
  | .addService s => [.string "add_service", service s]
  | .enableAutostart => [.string "autostart"]
  | .removeAll ms => [.string "remove_all", nat ms.toNat]
  | .send r => .string "send" :: request spelled r
  | .respond t p => [.string "respond", nat t.toNat, spelled p]
  | .role | .linkMode | .pollPeriod | .identity => []

def boardCall : BoardCall → List Value
  | .setGroupPower g on => [.string "power", name g, .bool on]
  | .setGroupColor g c => [.string "color", name g, rgb c]
  | .setPin n high => [.string "pin", .string n, .bool high]
  | .setIndicator m => [.string "indicator", indicatorMode m]
  | .sample => [.string "sample"]
  | .reboot => [.string "reboot"]
  | .startManagement => [.string "start_management"]
  | .delay ms => [.string "delay_ms", nat ms.toNat]
  | .groupStatus _ | .pins | .readings => []

def timerCall : TimerCall → List Value
  | .startPeriodic t first period => [.string "periodic", name t, nat first, nat period]
  | .startOnce t delay => [.string "one_shot", name t, nat delay]
  | .stop t => [.string "stop", name t]
  | .isRunning _ | .now => []

def call : Call → List Value
  | .mesh c => meshCall c
  | .board c => boardCall c
  | .timer c => timerCall c
  | .emit n => [.string "emit", notice n]

/-- A recorded call, with the fault it was answered with at the end. -/
def recorded (r : Recorded) : Value :=
  .array (call r.call ++ (r.fault.map fun f => refusal (faultName f)).toList)

/-- The fault that calls of the given name answer with from now on, `null` for none. -/
def setFailure? (name : String) (fault : Value) (f : Failures) : Option Failures :=
  match name with
  | "set_link_mode" => do some { f with setLinkMode := ← nullable? named? fault }
  | "set_poll" => do some { f with setPollPeriod := ← nullable? named? fault }
  | "start_joiner" => do some { f with startJoiner := ← nullable? named? fault }
  | "host_name" => do some { f with setHostName := ← nullable? named? fault }
  | "host_address" => do some { f with setHostAddress := ← nullable? named? fault }
  | "add_service" => do some { f with addService := ← nullable? named? fault }
  | "autostart" => do some { f with enableAutostart := ← nullable? named? fault }
  | "remove_all" => do some { f with removeAll := ← nullable? named? fault }
  | "send" => do some { f with send := ← nullable? named? fault }
  | "respond" => do some { f with respond := ← nullable? named? fault }
  | "power" => do some { f with setGroupPower := ← nullable? named? fault }
  | "color" => do some { f with setGroupColor := ← nullable? named? fault }
  | "status" => do some { f with groupStatus := ← nullable? named? fault }
  | "pin" => do some { f with setPin := ← nullable? named? fault }
  | "sample" => do some { f with sample := ← nullable? named? fault }
  | _ => none

/-- The faults that the members of an object order. -/
def failures? : Value → Option Failures
  | .object ms => ms.foldlM (fun f (name, fault) => setFailure? name fault f) Failures.none
  | _ => none

/-! ## engine -/

def joinState : JoinState → Value
  | .idle n => .array [.string "Idle", nat n]
  | .joining a => .array [.string "Joining", nat a.count, nat a.startedAt, nat a.deadline]
  | .joined => .array [.string "Joined"]

def engine (e : Engine) : Value := .object [
  ("session", name e.state),
  ("peer", orNull address e.session.peer),
  ("reg", name e.session.registration.state),
  ("interval", nat e.session.interval.secs.toNat),
  ("testing", .bool e.session.testing),
  ("join", joinState e.join.state)]

end MeshLight.Script
