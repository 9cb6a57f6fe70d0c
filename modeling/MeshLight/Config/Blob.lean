import MeshLight.Config.Basic
import MeshLight.Varint

/-!
# MeshLight.Config.Blob

Configurations as they are stored: the fields one after the other, numbers as varints, a flag as
one byte, a text as its length and its UTF-8 bytes. Bytes after the last field are not looked at.
-/

namespace MeshLight.Config

/-! ## writing -/

def putUInt32 (n : UInt32) : Bytes := Varint.encode 32 n.toNat

def putUInt16 (n : UInt16) : Bytes := Varint.encode 16 n.toNat

def putBool (b : Bool) : Bytes := [if b then 1 else 0]

def putText (t : ShortText capacity) : Bytes :=
  Varint.encode 64 (utf8 t.text).length ++ utf8 t.text

/-- A configuration as it is stored. -/
def blob (c : Config) : Bytes :=
  putUInt32 c.reportIntervalSecs ++ putUInt32 c.reportInitialDelayMs ++ putBool c.autoJoin ++
    putUInt32 c.commissioningTimeoutSecs ++ putUInt32 c.maxJoinAttempts ++
    putUInt32 c.joiningBlinkMs ++ putUInt32 c.disconnectedBlinkMs ++ putUInt32 c.triggerPulseMs ++
    putUInt32 c.boostedPollPeriodMs ++ putUInt16 c.servicePort ++ putText c.instanceLabel ++
    putUInt32 c.resetGraceMs ++ putUInt32 c.rebootGraceMs ++ putUInt32 c.deregisterTimeoutMs ++
    putText c.softwareVersion ++ putText c.firmwareType

/-! ## reading -/

/-- Reads a value from the front of the bytes. -/
abbrev Get := StateT Bytes Option

def getUInt32 : Get UInt32 := fun bytes => do
  let (n, rest) ← Varint.decode? 32 bytes
  some (UInt32.ofNat n, rest)

def getUInt16 : Get UInt16 := fun bytes => do
  let (n, rest) ← Varint.decode? 16 bytes
  some (UInt16.ofNat n, rest)

def getBool : Get Bool := fun
  | b :: rest => if b = 0 then some (false, rest) else if b = 1 then some (true, rest) else none
  | [] => none

def getText (capacity : Nat) : Get (ShortText capacity) := fun bytes => do
  let (length, rest) ← Varint.decode? 64 bytes
  if rest.length < length then none
  else
    let text ← ofUtf8? (rest.take length)
    let short ← ShortText.ofString? capacity text
    some (short, rest.drop length)

/-- Reads the fields of a configuration. -/
def getConfig : Get Config := do
  let reportIntervalSecs ← getUInt32
  let reportInitialDelayMs ← getUInt32
  let autoJoin ← getBool
  let commissioningTimeoutSecs ← getUInt32
  let maxJoinAttempts ← getUInt32
  let joiningBlinkMs ← getUInt32
  let disconnectedBlinkMs ← getUInt32
  let triggerPulseMs ← getUInt32
  let boostedPollPeriodMs ← getUInt32
  let servicePort ← getUInt16
  let instanceLabel ← getText 24
  let resetGraceMs ← getUInt32
  let rebootGraceMs ← getUInt32
  let deregisterTimeoutMs ← getUInt32
  let softwareVersion ← getText 16
  let firmwareType ← getText 16
  return {
    reportIntervalSecs, reportInitialDelayMs, autoJoin, commissioningTimeoutSecs, maxJoinAttempts,
    joiningBlinkMs, disconnectedBlinkMs, triggerPulseMs, boostedPollPeriodMs, servicePort,
    instanceLabel, resetGraceMs, rebootGraceMs, deregisterTimeoutMs, softwareVersion, firmwareType }

/-- The stored configuration, if it can be read and used. -/
def ofBlob? (bytes : Bytes) : Except Defect Config :=
  match getConfig bytes with
  | some (c, _) => c.validate
  | none => .error .corrupted

end MeshLight.Config
