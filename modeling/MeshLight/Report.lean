import MeshLight.Identity
import MeshLight.Json.Printer
import MeshLight.Json.Record

/-!
# MeshLight.Report

The periodic status report: how often it is sent and what it says.
-/

namespace MeshLight

open MeshLight.Json

/-! ## interval -/

/-- The seconds between two reports, at least one. -/
structure ReportInterval where
  secs : UInt32
  secs_ne_zero : secs ≠ 0
  deriving DecidableEq

namespace ReportInterval

/-- The interval of a new node. -/
def default : ReportInterval := ⟨300, by decide⟩

def ofSecs? (secs : UInt32) : Option ReportInterval :=
  if h : secs ≠ 0 then some ⟨secs, h⟩ else none

/-- The interval of a number of seconds, if that is positive and fits 32 bits. -/
def ofInt? (secs : Int) : Option ReportInterval :=
  if 0 ≤ secs ∧ secs < UInt32.size then ofSecs? (UInt32.ofNat secs.toNat) else none

/-- The longest period a timer can have, in milliseconds. -/
def longestPeriod : Nat := UInt32.size - 1

/-- The interval in milliseconds, cut to the longest period. -/
def period (i : ReportInterval) : Nat := min (i.secs.toNat * 1000) longestPeriod

end ReportInterval

/-! ## readings -/

/-- Degrees Celsius, percent of humidity, lux, kilopascal, and percent of battery charge. -/
structure Readings where
  temperature : Binary64
  humidity : Binary64
  light : Binary64
  pressure : Binary64
  battery : Binary64
  deriving DecidableEq

namespace Readings

def members (r : Readings) : Members := [
  ("temperature", .float r.temperature),
  ("humidity", .float r.humidity),
  ("light", .float r.light),
  ("press", .float r.pressure),
  ("battery_level", .float r.battery)]

/-- The names of the fields, in declared order. -/
def fieldNames : List String := ["temperature", "humidity", "light", "press", "battery_level"]

/-- The readings that a tree spells. -/
def ofTree? (t : Tree) : Option Readings := do
  let fields ← t.fields? fieldNames
  let number (name : String) : Option Binary64 := do (← fields.value? name).binary64?
  some {
    temperature := ← number "temperature"
    humidity := ← number "humidity"
    light := ← number "light"
    pressure := ← number "press"
    battery := ← number "battery_level" }

end Readings

/-! ## report -/

structure StatusReport where
  version : String
  threadVersion : UInt16
  eui64 : String
  extended : String
  address : String
  rloc16 : UInt16
  softwareVersion : String
  intervalSecs : UInt32
  firmwareType : String
  data : Readings
  deriving DecidableEq

namespace StatusReport

/-- The report of a node. -/
def ofNode (id : Identity) (data : Readings) (interval : ReportInterval)
    (softwareVersion firmwareType : String) : StatusReport where
  version := id.stackVersion
  threadVersion := id.threadVersion
  eui64 := id.eui64.text
  extended := id.extended.text
  address := id.meshLocal.text
  rloc16 := id.rloc16
  softwareVersion := softwareVersion
  intervalSecs := interval.secs
  firmwareType := firmwareType
  data := data

/-- The fields under their names, in declared order. The spelling of the interval's name is that of
the coordinator. -/
def members (r : StatusReport) : Members := [
  ("version", .string r.version),
  ("thread_version", .int r.threadVersion.toNat),
  ("eui64", .string r.eui64),
  ("extaddr", .string r.extended),
  ("addr", .string r.address),
  ("rloc16", .int r.rloc16.toNat),
  ("sw_ver", .string r.softwareVersion),
  ("report_intervel", .int r.intervalSecs.toNat),
  ("dev_fw_type", .string r.firmwareType),
  ("data", .object r.data.members)]

/-- A report as text. -/
def text (r : StatusReport) : String := (Value.object r.members).text

/-- The names of the fields, in declared order. -/
def fieldNames : List String :=
  ["version", "thread_version", "eui64", "extaddr", "addr", "rloc16", "sw_ver", "report_intervel",
    "dev_fw_type", "data"]

/-- The report that a tree spells. -/
def ofTree? (t : Tree) : Option StatusReport := do
  let fields ← t.fields? fieldNames
  let string (name : String) : Option String := do (← fields.value? name).string?
  let uint16 (name : String) : Option UInt16 := do (← fields.value? name).uint16?
  some {
    version := ← string "version"
    threadVersion := ← uint16 "thread_version"
    eui64 := ← string "eui64"
    extended := ← string "extaddr"
    address := ← string "addr"
    rloc16 := ← uint16 "rloc16"
    softwareVersion := ← string "sw_ver"
    intervalSecs := ← (← fields.value? "report_intervel").uint32?
    firmwareType := ← string "dev_fw_type"
    data := ← Readings.ofTree? (← fields.tree? "data") }

/-- The report that a text spells. -/
def ofText? (s : String) : Option StatusReport := do ofTree? (← Tree.ofText? s)

end StatusReport

end MeshLight
