import MeshLight.Config.Basic
import MeshLight.Json.Printer
import MeshLight.Json.Record

/-!
# MeshLight.Config.Json

Configurations as JSON records. All fields have to be given, except where a configuration at hand
supplies the others.
-/

namespace MeshLight.Config

open MeshLight.Json

/-- The fields under their names, in declared order. -/
def members (c : Config) : Members := [
  ("report_interval_secs", .int c.reportIntervalSecs.toNat),
  ("report_initial_delay_ms", .int c.reportInitialDelayMs.toNat),
  ("auto_join", .bool c.autoJoin),
  ("commissioning_timeout_secs", .int c.commissioningTimeoutSecs.toNat),
  ("max_join_attempts", .int c.maxJoinAttempts.toNat),
  ("joining_blink_ms", .int c.joiningBlinkMs.toNat),
  ("disconnected_blink_ms", .int c.disconnectedBlinkMs.toNat),
  ("trigger_pulse_ms", .int c.triggerPulseMs.toNat),
  ("boosted_poll_period_ms", .int c.boostedPollPeriodMs.toNat),
  ("service_port", .int c.servicePort.toNat),
  ("service_instance_prefix", .string c.instanceLabel.text),
  ("reset_grace_ms", .int c.resetGraceMs.toNat),
  ("reboot_grace_ms", .int c.rebootGraceMs.toNat),
  ("deregister_timeout_ms", .int c.deregisterTimeoutMs.toNat),
  ("sw_version", .string c.softwareVersion.text),
  ("dev_fw_type", .string c.firmwareType.text)]

/-- The names of the fields, in declared order. -/
def fieldNames : List String := default.members.map (·.1)

/-- A configuration as text. -/
def text (c : Config) : String := (Value.object c.members).text

/-- The configuration whose fields are found under their names. -/
def ofValues? (find : String → Option Value) : Option Config := do
  let uint32 (name : String) : Option UInt32 := do (← find name).uint32?
  some {
    reportIntervalSecs := ← uint32 "report_interval_secs"
    reportInitialDelayMs := ← uint32 "report_initial_delay_ms"
    autoJoin := ← (← find "auto_join").bool?
    commissioningTimeoutSecs := ← uint32 "commissioning_timeout_secs"
    maxJoinAttempts := ← uint32 "max_join_attempts"
    joiningBlinkMs := ← uint32 "joining_blink_ms"
    disconnectedBlinkMs := ← uint32 "disconnected_blink_ms"
    triggerPulseMs := ← uint32 "trigger_pulse_ms"
    boostedPollPeriodMs := ← uint32 "boosted_poll_period_ms"
    servicePort := ← (← find "service_port").uint16?
    instanceLabel := ← (← find "service_instance_prefix").shortText? 24
    resetGraceMs := ← uint32 "reset_grace_ms"
    rebootGraceMs := ← uint32 "reboot_grace_ms"
    deregisterTimeoutMs := ← uint32 "deregister_timeout_ms"
    softwareVersion := ← (← find "sw_version").shortText? 16
    firmwareType := ← (← find "dev_fw_type").shortText? 16 }

/-- The configuration that a tree spells. -/
def ofTree? (t : Tree) : Option Config := do
  let fields ← t.fields? fieldNames
  ofValues? fields.value?

/-- The configuration that a text spells. -/
def ofText? (s : String) : Option Config := do ofTree? (← Tree.ofText? s)

/-- A configuration with the given members in place of its own. -/
def override? (c : Config) (overrides : Members) : Option Config :=
  ofValues? fun name => (overrides.get? name).or (c.members.get? name)

end MeshLight.Config
