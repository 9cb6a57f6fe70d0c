import MeshLight.Fault

/-!
# MeshLight.Config.Basic

The parameters of a node, their defaults, and which of them a node cannot run with.
-/

namespace MeshLight

structure Config where
  reportIntervalSecs : UInt32
  reportInitialDelayMs : UInt32
  autoJoin : Bool
  commissioningTimeoutSecs : UInt32
  maxJoinAttempts : UInt32
  joiningBlinkMs : UInt32
  disconnectedBlinkMs : UInt32
  triggerPulseMs : UInt32
  boostedPollPeriodMs : UInt32
  servicePort : UInt16
  instanceLabel : ShortText 24
  resetGraceMs : UInt32
  rebootGraceMs : UInt32
  deregisterTimeoutMs : UInt32
  softwareVersion : ShortText 16
  firmwareType : ShortText 16
  deriving DecidableEq

namespace Config

def default : Config where
  reportIntervalSecs := 300
  reportInitialDelayMs := 3000
  autoJoin := true
  commissioningTimeoutSecs := 300
  maxJoinAttempts := 4096
  joiningBlinkMs := 200
  disconnectedBlinkMs := 1000
  triggerPulseMs := 100
  boostedPollPeriodMs := 100
  servicePort := 12345
  instanceLabel := ⟨"meshnode-", by decide⟩
  resetGraceMs := 1000
  rebootGraceMs := 3000
  deregisterTimeoutMs := 3000
  softwareVersion := ⟨"0.3.0", by decide⟩
  firmwareType := ⟨"sensor_light", by decide⟩

/-! ## validity -/

/-- Why a configuration cannot be used. -/
inductive Defect where
  | corrupted
  | zeroReportInterval
  | zeroCommissioningTimeout
  | zeroJoinAttempts
  | zeroBlinkPeriod
  | zeroPollPeriod
  deriving DecidableEq

def Defect.reason : Defect → String
  | corrupted => "stored config corrupted"
  | zeroReportInterval => "report_interval_secs must be > 0"
  | zeroCommissioningTimeout => "commissioning_timeout_secs must be > 0"
  | zeroJoinAttempts => "max_join_attempts must be > 0"
  | zeroBlinkPeriod => "blink periods must be > 0"
  | zeroPollPeriod => "boosted_poll_period_ms must be > 0"

def Defect.fault (d : Defect) : Fault := .config d.reason

/-- The first defect of a configuration. -/
def defect? (c : Config) : Option Defect :=
  if c.reportIntervalSecs = 0 then some .zeroReportInterval
  else if c.commissioningTimeoutSecs = 0 then some .zeroCommissioningTimeout
  else if c.maxJoinAttempts = 0 then some .zeroJoinAttempts
  else if c.joiningBlinkMs = 0 ∨ c.disconnectedBlinkMs = 0 then some .zeroBlinkPeriod
  else if c.boostedPollPeriodMs = 0 then some .zeroPollPeriod
  else none

/-- The configuration itself, if it has no defect. -/
def validate (c : Config) : Except Defect Config :=
  match c.defect? with
  | some d => .error d
  | none => .ok c

theorem validate_eq_ok_iff {c c' : Config} :
    c.validate = .ok c' ↔ c.defect? = none ∧ c' = c := by
  cases h : c.defect? <;> simp [validate, h, eq_comm]

end Config

end MeshLight
